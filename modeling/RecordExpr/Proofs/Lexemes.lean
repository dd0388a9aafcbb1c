import RecordExpr.Syntax.Lexeme
import RecordExpr.Proofs.NumberText

set_option autoImplicit false

namespace RecordExpr

open Lexeme

/-- The text begins with tokens of these kinds, behind which the rest stands. It stays in sight,
since it decides where a number or a word ends. -/
inductive Lexes : List Char → List TokenKind → List Char → Prop where
  | done {rest : List Char} : Lexes rest [] rest
  | blank {c : Char} {cs rest : List Char} {kinds : List TokenKind} (isSpace : isSpace c = true)
      (more : Lexes cs kinds rest) : Lexes (c :: cs) kinds rest
  | token {c : Char} {cs rest : List Char} {kind : TokenKind} {width : Nat}
      {kinds : List TokenKind} (visible : isSpace c = false)
      (found : lexeme? c cs = some (kind, width)) (more : Lexes (cs.drop width) kinds rest) :
      Lexes (c :: cs) (kind :: kinds) rest

namespace Lexes

variable {c : Char} {cs body middle rest : List Char} {kind : TokenKind}
  {kinds others : List TokenKind}

theorem append (first : Lexes cs kinds middle) (next : Lexes middle others rest) :
    Lexes cs (kinds ++ others) rest := by
  induction first with
  | done => exact next
  | blank isSpace _ ih => exact .blank isSpace (ih next)
  | token visible found _ ih => exact .token visible found (ih next)

/-- One token, and the rest behind it. -/
theorem single (visible : isSpace c = false)
    (found : lexeme? c (body ++ rest) = some (kind, body.length)) :
    Lexes (c :: (body ++ rest)) [kind] rest := by
  refine .token visible found ?_
  rw [List.drop_left]
  exact .done

end Lexes

namespace Token

variable {c : Char} {cs : List Char} {here : Position} {tokens : List Token}

theorem scan_blank (isSpace : isSpace c = true) : scan here (c :: cs) = scan (here.next c) cs := by
  rw [scan, if_pos isSpace]

theorem scan_lexeme {kind : TokenKind} {width : Nat} (visible : isSpace c = false)
    (found : lexeme? c cs = some (kind, width)) :
    scan here (c :: cs) =
      (scan (here.advance (c :: cs.take width)) (cs.drop width)).map
        (⟨kind, ⟨here, here.advance (c :: cs.take width)⟩⟩ :: ·) := by
  rw [scan, if_neg (by rw [visible]; exact Bool.false_ne_true), found]
  rfl

theorem scan_lexeme_eq_ok {kind : TokenKind} {width : Nat} (visible : isSpace c = false)
    (found : lexeme? c cs = some (kind, width)) :
    scan here (c :: cs) = .ok tokens ↔
      ∃ more, scan (here.advance (c :: cs.take width)) (cs.drop width) = .ok more ∧
        tokens = ⟨kind, ⟨here, here.advance (c :: cs.take width)⟩⟩ :: more := by
  rw [scan_lexeme visible found]
  cases scan (here.advance (c :: cs.take width)) (cs.drop width) with
  | error e =>
      constructor
      · rintro ⟨⟩
      · rintro ⟨_, ⟨⟩, -⟩
  | ok more =>
      constructor
      · rintro ⟨⟩
        exact ⟨more, rfl, rfl⟩
      · rintro ⟨_, ⟨⟩, rfl⟩
        rfl

/-- Tokens that reach up to the end of a text are its tokens, wherever the text stands. -/
theorem scan_of_lexes {kinds : List TokenKind} (lexes : Lexes cs kinds []) (here : Position) :
    ∃ tokens, scan here cs = .ok tokens ∧ tokens.map Token.kind = kinds ++ [.endOfText] := by
  generalize nothing : [] = rest at lexes
  induction lexes generalizing here with
  | done =>
      subst nothing
      exact ⟨[⟨.endOfText, ⟨here, here⟩⟩], by rw [scan], rfl⟩
  | blank isSpace _ ih =>
      rw [scan_blank isSpace]
      exact ih _ nothing
  | token visible found _ ih =>
      obtain ⟨more, scanned, kinds⟩ := ih _ nothing
      exact ⟨_, (scan_lexeme_eq_ok visible found).mpr ⟨more, scanned, rfl⟩,
        congrArg (List.cons _) kinds⟩

/-- The tokens of a text reach up to its end. -/
theorem lexes_of_scan {here : Position} {cs : List Char} {tokens : List Token}
    (scanned : scan here cs = .ok tokens) :
    ∃ kinds, Lexes cs kinds [] ∧ tokens.map Token.kind = kinds ++ [.endOfText] := by
  match cs, scanned with
  | [], scanned =>
      rw [scan] at scanned
      cases scanned
      exact ⟨[], .done, rfl⟩
  | c :: cs, scanned =>
      by_cases isSpace : isSpace c = true
      · rw [scan_blank isSpace] at scanned
        obtain ⟨kinds, lexes, shown⟩ := lexes_of_scan scanned
        exact ⟨kinds, .blank isSpace lexes, shown⟩
      · cases found : lexeme? c cs with
        | none =>
            rw [scan, if_neg isSpace, found] at scanned
            cases scanned
        | some token =>
            obtain ⟨kind, width⟩ := token
            have visible := Bool.eq_false_iff.mpr isSpace
            obtain ⟨more, later, rfl⟩ := (scan_lexeme_eq_ok visible found).mp scanned
            obtain ⟨kinds, lexes, shown⟩ := lexes_of_scan later
            exact ⟨kind :: kinds, .token visible found lexes, congrArg (List.cons kind) shown⟩
termination_by cs.length
decreasing_by
  · exact Nat.lt_succ_self _
  · rw [List.length_drop, List.length_cons]
    omega

end Token

/-- A stretch of characters of a class, up to one that is not in it. -/
theorem takeWhile_stretch {p : Char → Bool} {front : List Char} (rest : List Char)
    (all : ∀ c ∈ front, p c = true) (ends : ∀ c ∈ rest.head?, p c = false) :
    (front ++ rest).takeWhile p = front ∧ (front ++ rest).dropWhile p = rest := by
  rw [List.takeWhile_append_of_pos all, List.dropWhile_append_of_pos all]
  cases rest with
  | nil => exact ⟨List.append_nil _, rfl⟩
  | cons c rest =>
      have other : ¬p c = true := Bool.eq_false_iff.mp (ends c rfl)
      rw [List.takeWhile_cons_of_neg other, List.dropWhile_cons_of_neg other]
      exact ⟨List.append_nil _, rfl⟩

/-- No blank belongs to a class of characters that has none of the four blanks. -/
theorem visible_of_class {p : Char → Bool} {c : Char} (member : p c = true)
    (blanks : [' ', '\t', '\r', '\n'].all (fun d => !p d) = true) : isSpace c = false := by
  refine Bool.eq_false_iff.mpr fun isSpace => ?_
  have listed : c ∈ [' ', '\t', '\r', '\n'] := by
    simpa [Lexeme.isSpace, or_assoc] using isSpace
  have outside := List.all_eq_true.mp blanks c listed
  rw [member] at outside
  cases outside

theorem lexeme?_brace (cs : List Char) :
    lexeme? '\x7b' cs =
      if (cs.takeWhile (· ≠ '\x7d')).length < cs.length then
        some (.field (Text.trim (String.ofList (cs.takeWhile (· ≠ '\x7d')))),
          (cs.takeWhile (· ≠ '\x7d')).length + 1)
      else none := by
  rw [lexeme?, if_pos rfl]

theorem lexeme?_digit {c : Char} (isDigit : c.isDigit = true) (cs : List Char) :
    lexeme? c cs = some (number c cs) := by
  have notBrace : c ≠ '\x7b' := by
    rintro rfl
    cases isDigit
  rw [lexeme?, if_neg notBrace, if_pos isDigit]

theorem lexeme?_quote {quote : Char} (isQuote : quote = '\'' ∨ quote = '"') (cs : List Char) :
    lexeme? quote cs =
      (quoted? quote cs).map fun read => (.literal (.string (String.ofList read.1)), read.2) := by
  rcases isQuote with rfl | rfl
  · rw [lexeme?, if_neg (by decide), if_neg (by decide), if_pos (by decide)]
  · rw [lexeme?, if_neg (by decide), if_neg (by decide), if_pos (by decide)]

theorem isDigit_of_isWordStart {c : Char} (start : isWordStart c = true) : c.isDigit = false := by
  rcases Bool.or_eq_true_iff.mp start with letter | underscore
  · unfold Char.isAlpha Char.isUpper Char.isLower at letter
    unfold Char.isDigit
    grind
  · rw [beq_iff_eq.mp underscore]
    rfl

theorem lexeme?_word {c : Char} (start : isWordStart c = true) (cs : List Char) :
    lexeme? c cs =
      some (wordKind (c :: cs.takeWhile isWordPart), (cs.takeWhile isWordPart).length) := by
  have notBrace : c ≠ '\x7b' := by
    rintro rfl
    cases start
  have notQuote : ¬(c = '\'' ∨ c = '"') := by
    rintro (rfl | rfl)
    · cases start
    · cases start
  rw [lexeme?, if_neg notBrace, if_neg (Bool.eq_false_iff.mp (isDigit_of_isWordStart start)),
    if_neg notQuote, if_pos start]

/-- No digit stands here. -/
def NoDigit (rest : List Char) : Prop := ∀ c ∈ rest.head?, c.isDigit = false

/-- No point stands here that a digit follows. -/
def NoPoint (rest : List Char) : Prop := ∀ more, rest = '.' :: more → NoDigit more

/-- What may stand behind any number: no digit, and no point that a digit follows. -/
def EndsNumber (rest : List Char) : Prop := NoDigit rest ∧ NoPoint rest

/-- Nothing at all ends a number. -/
theorem endsNumber_nil : EndsNumber [] := ⟨nofun, nofun⟩

theorem numberWidth_append {whole fraction rest : List Char}
    (digits : ∀ c ∈ whole ++ fraction, c.isDigit = true) (noDigit : NoDigit rest)
    (noPoint : fraction = [] → NoPoint rest) :
    numberWidth (whole ++ (Number.fractionPart fraction ++ rest)) =
      (whole.length, fraction.length) := by
  obtain ⟨left, right⟩ := List.forall_mem_append.mp digits
  cases fraction with
  | nil =>
      obtain ⟨taken, behind⟩ := takeWhile_stretch rest left noDigit
      rw [Number.fractionPart, List.nil_append, numberWidth, taken, behind]
      split
      · rename_i more
        cases more with
        | nil => rfl
        | cons c more =>
            rw [List.takeWhile_cons_of_neg (Bool.eq_false_iff.mp (noPoint rfl _ rfl c rfl)),
              List.length_nil]
      · rfl
  | cons c more =>
      have point : ∀ d ∈ ('.' :: (c :: more ++ rest)).head?, d.isDigit = false := by
        rintro _ ⟨rfl⟩
        rfl
      obtain ⟨taken, behind⟩ := takeWhile_stretch ('.' :: (c :: more ++ rest)) left point
      rw [Number.fractionPart, List.cons_append, numberWidth, taken, behind]
      simp only
      rw [(takeWhile_stretch rest right noDigit).1]

theorem number_append {c : Char} {body whole fraction rest : List Char}
    (text : c :: body = whole ++ Number.fractionPart fraction)
    (digits : ∀ c ∈ whole ++ fraction, c.isDigit = true) (noDigit : NoDigit rest)
    (noPoint : fraction = [] → NoPoint rest) :
    number c (body ++ rest) =
      (.literal (.number (Decimal.toNumber false
        ⟨Number.digitsValue (whole ++ fraction), -fraction.length⟩)), body.length) := by
  have wholeText : c :: (body ++ rest) = whole ++ (Number.fractionPart fraction ++ rest) := by
    rw [← List.append_assoc, ← text, List.cons_append]
  have length := congrArg List.length text
  rw [number, wholeText, numberWidth_append digits noDigit noPoint]
  simp only [List.take_left, List.drop_length_add_append]
  cases fraction with
  | nil =>
      simp only [Number.fractionPart, List.append_nil, List.length_cons] at length
      simp only [List.length_nil, List.take_zero, ← length]
      rfl
  | cons d more =>
      simp only [Number.fractionPart, List.length_append, List.length_cons] at length
      have behind : ((Number.fractionPart (d :: more) ++ rest).drop 1).take (d :: more).length =
          d :: more := List.take_left
      have width : whole.length + ((d :: more).length + 1) - 1 = body.length := by
        simp only [List.length_cons]
        omega
      rw [behind, if_neg (by exact Nat.succ_ne_zero _), width]

theorem lexes_number {x : Number} {rest : List Char} (finite : x.isFinite = true)
    (positive : x.isNegative = false) (ends : EndsNumber rest) :
    Lexes (x.text.toList ++ rest) [.literal (.number x)] rest := by
  obtain ⟨whole, fraction, nonempty, digits, text, value⟩ := Number.text_shape finite positive
  cases begins : x.text.toList with
  | nil =>
      rw [begins] at text
      exact absurd (List.append_eq_nil_iff.mp text.symm).1 nonempty
  | cons c body =>
      rw [begins] at text
      have isDigit : c.isDigit = true := by
        cases whole with
        | nil => exact absurd rfl nonempty
        | cons d whole =>
            rw [(List.cons.inj text).1]
            exact digits d (List.mem_cons_self ..)
      refine .single (visible_of_class isDigit rfl) ?_
      rw [lexeme?_digit isDigit, number_append text digits ends.1 fun _ => ends.2, value]

/-- The character as it stands in a quoted string. -/
def escape (c : Char) : List Char := if c = '\'' then ['\\', '\''] else [c]

theorem quoted?_close (quote : Char) (rest : List Char) :
    quoted? quote (quote :: rest) = some ([], 1) := by
  cases rest with
  | nil => exact if_pos rfl
  | cons c rest =>
      rw [quoted?]
      exact if_pos rfl

theorem quoted?_escape {quote c d : Char} {rest : List Char} (other : '\\' ≠ quote)
    (escaped : unescape? c = some d) :
    quoted? quote ('\\' :: c :: rest) =
      (quoted? quote rest).map fun (body, width) => (d :: body, width + 2) := by
  rw [quoted?, if_neg other, if_pos rfl, escaped]
  cases quoted? quote rest with
  | none => rfl
  | some read => rfl

theorem quoted?_cons {quote c : Char} {rest : List Char} (other : c ≠ quote) (plain : c ≠ '\\')
    (more : rest ≠ []) :
    quoted? quote (c :: rest) =
      (quoted? quote rest).map fun (body, width) => (c :: body, width + 1) := by
  cases rest with
  | nil => exact absurd rfl more
  | cons d rest =>
      rw [quoted?, if_neg other, if_neg plain]
      cases quoted? quote (d :: rest) with
      | none => rfl
      | some read => rfl

/-- The characters as they can be written between two such quotes. -/
inductive Written (quote : Char) : List Char → List Char → Prop where
  | nothing : Written quote [] []
  | plain {c : Char} {body text : List Char} (other : c ≠ quote) (noEscape : c ≠ '\\')
      (more : Written quote body text) : Written quote (c :: body) (c :: text)
  | escaped {c d : Char} {body text : List Char} (other : '\\' ≠ quote)
      (reads : unescape? c = some d) (more : Written quote body text) :
      Written quote (d :: body) ('\\' :: c :: text)

/-- What is written so is read, whatever stands behind the closing quote. -/
theorem Written.quoted? {quote : Char} {body text : List Char} (written : Written quote body text)
    (rest : List Char) :
    Lexeme.quoted? quote (text ++ quote :: rest) = some (body, text.length + 1) := by
  induction written with
  | nothing => exact quoted?_close quote rest
  | @plain c body text other noEscape _ ih =>
      have more : text ++ quote :: rest ≠ [] :=
        List.append_ne_nil_of_right_ne_nil _ (List.cons_ne_nil _ _)
      rw [List.cons_append, quoted?_cons other noEscape more, ih]
      rfl
  | escaped other reads _ ih =>
      rw [List.cons_append, List.cons_append, quoted?_escape other reads, ih]
      rfl

/-- What is read was written so, up to the closing quote. -/
theorem written_of_quoted? {quote : Char} {cs body : List Char} {width : Nat}
    (read : quoted? quote cs = some (body, width)) :
    ∃ text more, cs = text ++ quote :: more ∧ width = text.length + 1 ∧
      Written quote body text := by
  fun_induction quoted? quote cs generalizing body width with
  | case1 => cases read
  | case2 =>
      cases read
      exact ⟨[], [], rfl, rfl, .nothing⟩
  | case3 => cases read
  | case4 e rest =>
      cases read
      exact ⟨[], e :: rest, rfl, rfl, .nothing⟩
  | case5 e rest other ih =>
      cases escaped : unescape? e with
      | none =>
          rw [escaped] at read
          cases read
      | some d =>
          cases inner : quoted? quote rest with
          | none =>
              rw [escaped, inner] at read
              cases read
          | some found =>
              rw [escaped, inner] at read
              cases read
              obtain ⟨text, more, rfl, count, written⟩ := ih inner
              exact ⟨'\\' :: e :: text, more, rfl, congrArg (· + 2) count,
                .escaped other escaped written⟩
  | case6 c e rest other plain ih =>
      cases inner : quoted? quote (e :: rest) with
      | none =>
          rw [inner] at read
          cases read
      | some found =>
          rw [inner] at read
          cases read
          obtain ⟨text, more, split, count, written⟩ := ih inner
          exact ⟨c :: text, more, by rw [split]; rfl, congrArg (· + 1) count,
            .plain other plain written⟩

theorem written_escape {cs : List Char} (plain : '\\' ∉ cs) :
    Written '\'' cs (cs.flatMap escape) := by
  induction cs with
  | nil => exact .nothing
  | cons c cs ih =>
      obtain ⟨first, others⟩ := not_or.mp (List.mem_cons.not.mp plain)
      rw [List.flatMap_cons]
      by_cases quote : c = '\''
      · rw [escape, if_pos quote, quote]
        exact .escaped (by decide) rfl (ih others)
      · rw [escape, if_neg quote]
        exact .plain quote (Ne.symm first) (ih others)

theorem lexes_string {s : String} (plain : '\\' ∉ s.toList) (rest : List Char) :
    Lexes ((Literal.quote s).toList ++ rest) [.literal (.string s)] rest := by
  have text : (Literal.quote s).toList ++ rest =
      '\'' :: ((s.toList.flatMap escape ++ ['\'']) ++ rest) := by
    rw [Literal.quote, String.toList_ofList]
    rfl
  rw [text]
  refine .single (by decide) ?_
  rw [lexeme?_quote (.inl rfl), List.append_assoc, List.singleton_append,
    (written_escape plain).quoted?, List.length_append, List.length_singleton]
  simp only [Option.map_some, String.ofList_toList]

theorem dropWhile_of_head {p : Char → Bool} {cs : List Char} (head : ∀ c ∈ cs.head?, p c = false) :
    cs.dropWhile p = cs := by
  cases cs with
  | nil => rfl
  | cons c cs => exact List.dropWhile_cons_of_neg (Bool.eq_false_iff.mp (head c rfl))

theorem head_dropWhile (p : Char → Bool) (cs : List Char) :
    ∀ c ∈ (cs.dropWhile p).head?, p c = false := by
  intro c first
  have known := List.head?_dropWhile_not p cs
  rwa [first] at known

theorem trimChars_eq_self {cs : List Char} (front : ∀ c ∈ cs.head?, Text.isBlank c = false)
    (back : ∀ c ∈ cs.reverse.head?, Text.isBlank c = false) : Text.trimChars cs = cs := by
  rw [Text.trimChars, dropWhile_of_head front, dropWhile_of_head back, List.reverse_reverse]

theorem trimChars_trimChars (cs : List Char) :
    Text.trimChars (Text.trimChars cs) = Text.trimChars cs := by
  refine trimChars_eq_self (fun c first => ?_) ?_
  · -- the trimmed text begins as the text without its first blanks does
    have kept : Text.trimChars cs <+: cs.dropWhile Text.isBlank := by
      have back := List.dropWhile_suffix (l := (cs.dropWhile Text.isBlank).reverse) Text.isBlank
      simpa [Text.trimChars] using List.reverse_prefix.mpr back
    obtain ⟨more, whole⟩ := kept
    refine head_dropWhile Text.isBlank cs c ?_
    rw [← whole, List.head?_append, Option.mem_def.mp first]
    rfl
  · rw [Text.trimChars, List.reverse_reverse]
    exact head_dropWhile Text.isBlank _

theorem trim_trim (s : String) : Text.trim (Text.trim s) = Text.trim s := by
  rw [Text.trim, Text.trim, String.toList_ofList, trimChars_trimChars]

theorem mem_trim {c : Char} {s : String} (member : c ∈ (Text.trim s).toList) : c ∈ s.toList := by
  rw [Text.trim, String.toList_ofList, Text.trimChars, List.mem_reverse] at member
  have inner := List.mem_reverse.mp ((List.dropWhile_suffix Text.isBlank).mem member)
  exact (List.dropWhile_suffix Text.isBlank).mem inner

theorem lexes_field {name : String} (unbraced : '\x7d' ∉ name.toList)
    (trimmed : Text.trim name = name) (rest : List Char) :
    Lexes ('\x7b' :: (name.toList ++ '\x7d' :: rest)) [.field name] rest := by
  have inside : ∀ c ∈ name.toList, decide (c ≠ '\x7d') = true := fun c here =>
    decide_eq_true fun same => unbraced (same ▸ here)
  have taken : (name.toList ++ '\x7d' :: rest).takeWhile (· ≠ '\x7d') = name.toList := by
    rw [List.takeWhile_append_of_pos inside, List.takeWhile_cons_of_neg (by decide),
      List.append_nil]
  have shorter : name.toList.length < (name.toList ++ '\x7d' :: rest).length := by
    rw [List.length_append, List.length_cons]
    omega
  have text : name.toList ++ '\x7d' :: rest = (name.toList ++ ['\x7d']) ++ rest := by
    rw [List.append_assoc, List.singleton_append]
  have found : lexeme? '\x7b' (name.toList ++ '\x7d' :: rest) =
      some (.field name, name.toList.length + 1) := by
    rw [lexeme?_brace]
    simp only [taken, if_pos shorter, String.ofList_toList, trimmed]
  rw [text] at found ⊢
  refine .single (by decide) ?_
  rw [found, List.length_append, List.length_singleton]

theorem lexes_word {c : Char} {more rest : List Char} (start : isWordStart c = true)
    (parts : ∀ d ∈ more, isWordPart d = true) (ends : ∀ d ∈ rest.head?, isWordPart d = false) :
    Lexes (c :: (more ++ rest)) [wordKind (c :: more)] rest := by
  refine .single (visible_of_class start rfl) ?_
  rw [lexeme?_word start, (takeWhile_stretch rest parts ends).1]

/-- The words that are not names, in lower case. -/
def keywords : List String := ["and", "or", "not", "like", "true", "false", "null"]

/-- A word that is not a keyword in any letter case. -/
structure IsName (name : String) : Prop where
  isWord : ∃ c more, name.toList = c :: more ∧ isWordStart c = true ∧
    ∀ d ∈ more, isWordPart d = true
  notKeyword : String.ofList (name.toList.map Char.toLower) ∉ keywords

theorem wordKind_eq_word_iff {word : List Char} {name : String} :
    wordKind word = .word name ↔
      String.ofList (word.map Char.toLower) ∉ keywords ∧ name = String.ofList word := by
  unfold wordKind
  split
  case h_8 =>
    constructor
    · rintro ⟨⟩
      refine ⟨?_, rfl⟩
      simp_all [keywords]
    · rintro ⟨-, rfl⟩
      rfl
  all_goals
    rename_i keyword
    constructor
    · rintro ⟨⟩
    · rintro ⟨other, -⟩
      rw [keyword] at other
      exact absurd (by decide) other

theorem lexes_name {name : String} {rest : List Char} (isName : IsName name)
    (ends : ∀ d ∈ rest.head?, isWordPart d = false) :
    Lexes (name.toList ++ rest) [.word name] rest := by
  obtain ⟨c, more, chars, start, parts⟩ := isName.isWord
  have kind : wordKind name.toList = .word name :=
    wordKind_eq_word_iff.mpr ⟨isName.notKeyword, String.ofList_toList.symm⟩
  rw [chars] at kind ⊢
  rw [← kind]
  exact lexes_word start parts ends

theorem isBlank_of_isWordPart {c : Char} (part : isWordPart c = true) : Text.isBlank c = false := by
  rcases Bool.or_eq_true_iff.mp part with alphanumeric | underscore
  · have inside : 48 ≤ c.toNat ∧ c.toNat ≤ 122 := by
      unfold Char.isAlphanum Char.isAlpha Char.isUpper Char.isLower Char.isDigit at alphanumeric
      simp only [ge_iff_le, Bool.or_eq_true, Bool.and_eq_true, decide_eq_true_eq,
        UInt32.le_iff_toNat_le] at alphanumeric
      change 48 ≤ c.val.toNat ∧ c.val.toNat ≤ 122
      grind
    simp only [Text.isBlank, Bool.or_eq_false_iff, Bool.and_eq_false_iff, decide_eq_false_iff_not,
      beq_eq_false_iff_ne]
    omega
  · rw [beq_iff_eq.mp underscore]
    rfl

theorem isWordPart_of_isWordStart {c : Char} (start : isWordStart c = true) :
    isWordPart c = true := by
  rcases Bool.or_eq_true_iff.mp start with letter | underscore
  · rw [isWordPart, Char.isAlphanum, letter]
    rfl
  · rw [isWordPart, underscore, Bool.or_true]

namespace IsName

variable {name : String}

theorem isWordPart (isName : IsName name) : ∀ c ∈ name.toList, isWordPart c = true := by
  obtain ⟨c, more, chars, start, parts⟩ := isName.isWord
  rw [chars]
  exact List.forall_mem_cons.mpr ⟨isWordPart_of_isWordStart start, parts⟩

theorem unbraced (isName : IsName name) : '\x7d' ∉ name.toList := fun member => by
  have part := isName.isWordPart _ member
  cases part

theorem trimmed (isName : IsName name) : Text.trim name = name := by
  have filled (cs : List Char) (inside : ∀ c ∈ cs, c ∈ name.toList) :
      ∀ c ∈ cs.head?, Text.isBlank c = false := fun c first =>
    isBlank_of_isWordPart (isName.isWordPart c (inside c (List.mem_of_mem_head? first)))
  rw [Text.trim, trimChars_eq_self (filled name.toList fun _ => id)
    (filled name.toList.reverse fun _ => List.mem_reverse.mp), String.ofList_toList]

end IsName

theorem lexes_symbol (op : BinaryOp) (rest : List Char) :
    Lexes (op.symbol.toList ++ ' ' :: rest) [.operator op] (' ' :: rest) := by
  have ends : ∀ d ∈ (' ' :: rest).head?, isWordPart d = false := by
    rintro _ ⟨rfl⟩
    rfl
  cases op with
  | or => exact @lexes_word 'o' ['r'] _ rfl (List.all_eq_true.mp rfl) ends
  | and => exact @lexes_word 'a' ['n', 'd'] _ rfl (List.all_eq_true.mp rfl) ends
  | compare relation =>
      cases relation with
      | like => exact @lexes_word 'l' ['i', 'k', 'e'] _ rfl (List.all_eq_true.mp rfl) ends
      | notEqual | lessEqual | greaterEqual => exact @Lexes.single _ [_] _ _ rfl rfl
      | equal | less | greater => exact @Lexes.single _ [] _ _ rfl rfl
  | _ => exact @Lexes.single _ [] _ _ rfl rfl

/-- A token of this kind can stand in a text. -/
def TokenKind.Read : TokenKind → Prop
  | .literal (.number x) => x.isNegative = false
  | .field name => '\x7d' ∉ name.toList ∧ Text.trim name = name
  | .word name => IsName name
  | _ => True

theorem read_wordKind {c : Char} {more : List Char} (start : isWordStart c = true)
    (parts : ∀ d ∈ more, isWordPart d = true) : (wordKind (c :: more)).Read := by
  by_cases notKeyword : String.ofList ((c :: more).map Char.toLower) ∉ keywords
  · rw [wordKind_eq_word_iff.mpr ⟨notKeyword, rfl⟩]
    refine ⟨⟨c, more, String.toList_ofList, start, parts⟩, ?_⟩
    rwa [String.toList_ofList]
  · unfold wordKind
    split
    case h_8 => simp_all [keywords]
    all_goals trivial

theorem read_mark {c : Char} {rest : List Char} {kind : TokenKind} {width : Nat}
    (found : mark? c rest = some (kind, width)) : kind.Read := by
  unfold mark? at found
  grind [TokenKind.Read]

theorem read_of_lexeme {c : Char} {rest : List Char} {kind : TokenKind} {width : Nat}
    (found : lexeme? c rest = some (kind, width)) : kind.Read := by
  unfold lexeme? at found
  split at found
  · simp only at found
    split at found
    · cases found
      refine ⟨fun member => ?_, trim_trim _⟩
      have inside := mem_trim member
      rw [String.toList_ofList] at inside
      have kept := List.mem_takeWhile_imp inside
      exact absurd kept (by decide)
    · cases found
  · split at found
    · cases found
      exact Decimal.isNegative_toNumber _
    · split at found
      · obtain ⟨_, -, ⟨⟩⟩ := Option.map_eq_some_iff.mp found
        trivial
      · split at found
        · rename_i start
          cases found
          exact read_wordKind start fun _ => List.mem_takeWhile_imp
        · exact read_mark found

/-- What is so of every token that a text can begin with is so of all tokens. -/
theorem Lexes.forall_mem {P : TokenKind → Prop}
    (each : ∀ {c rest kind width}, lexeme? c rest = some (kind, width) → P kind)
    {cs rest : List Char} {kinds : List TokenKind} (lexes : Lexes cs kinds rest) :
    ∀ kind ∈ kinds, P kind := by
  induction lexes with
  | done =>
      rintro _ ⟨⟩
  | blank _ _ ih => exact ih
  | token _ found _ ih => exact List.forall_mem_cons.mpr ⟨each found, ih⟩

end RecordExpr
