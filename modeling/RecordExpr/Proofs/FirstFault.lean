import RecordExpr.Proofs.FaultLocation

set_option autoImplicit false

namespace RecordExpr

open Lexeme

/-- Operators and punctuation of one character. -/
def singleMarks : List Char := ['=', '<', '>', '+', '-', '*', '/', '%', '(', ')', ',', '.']

/-- Operators that are no words, and punctuation. -/
def marks : List (List Char) :=
  singleMarks.map ([·]) ++ [['=', '='], ['!', '='], ['<', '>'], ['<', '='], ['>', '=']]

/-- The characters are those of one token. -/
inductive TokenForm : List Char → Prop where
  | field {name : List Char} (unbraced : '\x7d' ∉ name) :
      TokenForm ('\x7b' :: (name ++ ['\x7d']))
  | number {c : Char} {whole fraction : List Char}
      (digits : ∀ d ∈ c :: (whole ++ fraction), d.isDigit = true) :
      TokenForm (c :: (whole ++ Number.fractionPart fraction))
  | string {quote : Char} {body text : List Char} (isQuote : quote = '\'' ∨ quote = '"')
      (written : Written quote body text) : TokenForm (quote :: (text ++ [quote]))
  | word {c : Char} {more : List Char} (start : isWordStart c = true)
      (parts : ∀ d ∈ more, isWordPart d = true) : TokenForm (c :: more)
  | mark {cs : List Char} (isMark : cs ∈ marks) : TokenForm cs

/-- The text begins with the characters of a token. -/
def BeginsToken (cs : List Char) : Prop := ∃ front, front <+: cs ∧ TokenForm front

/-- Behind a quote there is no string: up to some place the characters could stand in one, but
there the text ends, or a backslash stands that makes no escape with the character behind it. -/
def Unclosed (quote : Char) (cs : List Char) : Prop :=
  ∃ body text rest, cs = text ++ rest ∧ Written quote body text ∧
    (rest = [] ∨ ∃ more, rest = '\\' :: more ∧ ∀ c ∈ more.head?, unescape? c = none)

section Begins

variable {c stop : Char} {cs rest middle back : List Char} {kind : TokenKind} {width : Nat}

theorem lexeme?_brace_eq_none_iff : lexeme? '\x7b' cs = none ↔ '\x7d' ∉ cs := by
  have reach := List.takeWhile_prefix (l := cs) fun d => decide (d ≠ '\x7d')
  rw [lexeme?_brace]
  constructor
  · intro nothing member
    split at nothing
    · cases nothing
    · rename_i notShorter
      have whole := reach.eq_of_length_le (Nat.le_of_not_lt notShorter)
      exact absurd (List.takeWhile_eq_self_iff.mp whole _ member) (by decide)
  · intro unbraced
    have whole : cs.takeWhile (fun d => decide (d ≠ '\x7d')) = cs := by
      apply List.takeWhile_eq_self_iff.mpr
      intro d member
      exact decide_eq_true fun same => unbraced (same ▸ member)
    rw [whole, if_neg (Nat.lt_irrefl _)]

theorem unclosed_of_quoted? {quote : Char} (nothing : quoted? quote cs = none) :
    Unclosed quote cs := by
  fun_induction quoted? quote cs with
  | case1 => exact ⟨[], [], [], rfl, .nothing, .inl rfl⟩
  | case2 => cases nothing
  | case3 c other =>
      by_cases escape : c = '\\'
      · exact ⟨[], [], [c], rfl, .nothing, .inr ⟨[], by rw [escape], by rintro _ ⟨⟩⟩⟩
      · exact ⟨[c], [c], [], rfl, .plain other escape .nothing, .inl rfl⟩
  | case4 => cases nothing
  | case5 e rest other ih =>
      cases escaped : unescape? e with
      | none =>
          refine ⟨[], [], '\\' :: e :: rest, rfl, .nothing, .inr ⟨e :: rest, rfl, ?_⟩⟩
          rintro _ ⟨rfl⟩
          exact escaped
      | some d =>
          cases inner : quoted? quote rest with
          | none =>
              obtain ⟨body, text, more, rfl, written, ends⟩ := ih inner
              exact ⟨d :: body, '\\' :: e :: text, more, rfl, .escaped other escaped written, ends⟩
          | some found =>
              rw [escaped, inner] at nothing
              cases nothing
  | case6 c e rest other plain ih =>
      cases inner : quoted? quote (e :: rest) with
      | none =>
          obtain ⟨body, text, more, split, written, ends⟩ := ih inner
          exact ⟨c :: body, c :: text, more, by rw [split]; rfl, .plain other plain written, ends⟩
      | some found =>
          rw [inner] at nothing
          cases nothing

/-- No string is read where there is none. -/
theorem Unclosed.quoted?_eq_none {quote : Char} (unclosed : Unclosed quote cs)
    (notBackslash : '\\' ≠ quote) : quoted? quote cs = none := by
  obtain ⟨body, text, rest, rfl, written, ends⟩ := unclosed
  induction written with
  | nothing =>
      rcases ends with rfl | ⟨more, rfl, unknown⟩
      · rfl
      · cases more with
        | nil => exact if_neg notBackslash
        | cons d more =>
            rw [List.nil_append, quoted?, if_neg notBackslash, if_pos rfl, unknown d rfl]
            rfl
  | @plain c _ text other noEscape _ ih =>
      rw [List.cons_append]
      cases behind : text ++ rest with
      | nil => exact if_neg other
      | cons d more =>
          rw [quoted?_cons other noEscape (List.cons_ne_nil d more), ← behind, ih]
          rfl
  | escaped other reads _ ih =>
      rw [List.cons_append, List.cons_append, quoted?_escape other reads, ih]
      rfl

theorem backslash_ne_quote {quote : Char} (isQuote : quote = '\'' ∨ quote = '"') :
    '\\' ≠ quote := by
  rcases isQuote with rfl | rfl
  · decide
  · decide

theorem lexeme?_quote_eq_none_iff {quote : Char} (isQuote : quote = '\'' ∨ quote = '"') :
    lexeme? quote cs = none ↔ Unclosed quote cs := by
  rw [lexeme?_quote isQuote, Option.map_eq_none_iff]
  constructor
  · exact unclosed_of_quoted?
  · exact fun unclosed => unclosed.quoted?_eq_none (backslash_ne_quote isQuote)

theorem mark?_eq_none_iff :
    mark? c rest = none ↔ c ∉ singleMarks ∧ (c = '!' → rest.head? ≠ some '=') := by
  unfold mark?
  split
  case h_2 => simp [singleMarks]
  case h_14 => simp_all [singleMarks]
  all_goals
    refine iff_of_false ?_ fun ⟨other, _⟩ => other (by decide)
    grind

/-- All marks but one begin with a mark of one character. -/
theorem mark_begins {cs : List Char} (isMark : cs ∈ marks) :
    cs = ['!', '='] ∨ ∃ c ∈ singleMarks, [c] <+: cs := by
  rcases List.mem_append.mp isMark with single | pair
  · obtain ⟨c, member, rfl⟩ := List.mem_map.mp single
    exact .inr ⟨c, member, List.prefix_rfl⟩
  · simp only [List.mem_cons, List.not_mem_nil, or_false] at pair
    rcases pair with rfl | rfl | rfl | rfl | rfl
    · exact .inr ⟨'=', by decide, ['='], rfl⟩
    · exact .inl rfl
    · exact .inr ⟨'<', by decide, ['>'], rfl⟩
    · exact .inr ⟨'<', by decide, ['='], rfl⟩
    · exact .inr ⟨'>', by decide, ['='], rfl⟩

theorem mark?_ne_none_iff : mark? c rest ≠ none ↔ ∃ mark ∈ marks, mark <+: c :: rest := by
  rw [ne_eq, mark?_eq_none_iff, not_and_or, not_not]
  constructor
  · rintro (single | pair)
    · exact ⟨[c], List.mem_append_left _ (List.mem_map_of_mem single), rest, rfl⟩
    · push Not at pair
      obtain ⟨rfl, next⟩ := pair
      obtain ⟨more, rfl⟩ := List.head?_eq_some_iff.mp next
      exact ⟨['!', '='], by decide, more, rfl⟩
  · rintro ⟨mark, isMark, begins⟩
    rcases mark_begins isMark with rfl | ⟨d, single, first⟩
    · obtain ⟨more, split⟩ := begins
      cases split
      exact .inr fun alone => alone rfl rfl
    · obtain ⟨rfl, -⟩ := List.cons_prefix_cons.mp (first.trans begins)
      exact .inl single

/-- What begins with no brace, digit, quote or letter can only be a mark. -/
theorem lexeme?_mark (notBrace : c ≠ '\x7b') (noDigit : ¬c.isDigit = true)
    (noQuote : ¬(c = '\'' ∨ c = '"')) (noWord : ¬isWordStart c = true) (rest : List Char) :
    lexeme? c rest = mark? c rest := by
  rw [lexeme?, if_neg notBrace, if_neg noDigit, if_neg noQuote, if_neg noWord]

theorem lexeme?_ne_none_of_mark (isMark : mark? c rest ≠ none) : lexeme? c rest ≠ none := by
  unfold lexeme?
  split
  · rename_i isBrace
    rw [isBrace] at isMark
    exact absurd rfl isMark
  · split
    · exact Option.some_ne_none _
    · split
      · rename_i isQuote
        rcases isQuote with rfl | rfl
        · exact absurd rfl isMark
        · exact absurd rfl isMark
      · split
        · exact Option.some_ne_none _
        · exact isMark

theorem lexeme?_ne_none_of_form {front : List Char} (form : TokenForm front)
    (begins : front <+: c :: rest) : lexeme? c rest ≠ none := by
  obtain ⟨more, split⟩ := begins
  cases form with
  | field unbraced =>
      cases split
      rw [ne_eq, lexeme?_brace_eq_none_iff]
      simp
  | @number d whole fraction digits =>
      cases split
      rw [lexeme?_digit (digits c List.mem_cons_self)]
      exact Option.some_ne_none _
  | string isQuote written =>
      rw [List.cons_append, List.append_assoc, List.singleton_append] at split
      cases split
      rw [lexeme?_quote isQuote, written.quoted?]
      exact Option.some_ne_none _
  | word start parts =>
      cases split
      rw [lexeme?_word start]
      exact Option.some_ne_none _
  | mark isMark =>
      exact lexeme?_ne_none_of_mark (mark?_ne_none_iff.mpr ⟨front, isMark, more, split⟩)

theorem beginsToken_of_lexeme? (found : lexeme? c rest = some (kind, width)) :
    BeginsToken (c :: rest) := by
  have reads : lexeme? c rest ≠ none := by
    rw [found]
    exact Option.some_ne_none _
  by_cases brace : c = '\x7b'
  · subst brace
    have closed : '\x7d' ∈ rest := by
      by_contra unclosed
      exact reads (lexeme?_brace_eq_none_iff.mpr unclosed)
    obtain ⟨name, more, split, unbraced⟩ := List.eq_append_cons_of_mem closed
    exact ⟨_, ⟨more, by rw [split]; simp⟩, .field unbraced⟩
  by_cases digit : c.isDigit = true
  · have digits : ∀ d ∈ c :: ([] ++ []), d.isDigit = true := List.forall_mem_singleton.mpr digit
    exact ⟨[c], ⟨rest, rfl⟩, .number digits⟩
  by_cases quote : c = '\'' ∨ c = '"'
  · rw [lexeme?_quote quote] at found
    obtain ⟨⟨body, reach⟩, read, -⟩ := Option.map_eq_some_iff.mp found
    obtain ⟨text, more, rfl, -, written⟩ := written_of_quoted? read
    exact ⟨_, ⟨more, by simp⟩, .string quote written⟩
  by_cases start : isWordStart c = true
  · exact ⟨[c], ⟨rest, rfl⟩, .word start nofun⟩
  · rw [lexeme?_mark brace digit quote start] at reads
    obtain ⟨mark, isMark, begins⟩ := mark?_ne_none_iff.mp reads
    exact ⟨mark, begins, .mark isMark⟩

/-- A token is read wherever there is one to be read. -/
theorem lexeme?_eq_none_iff : lexeme? c rest = none ↔ ¬BeginsToken (c :: rest) := by
  constructor
  · rintro nothing ⟨front, begins, form⟩
    exact lexeme?_ne_none_of_form form begins nothing
  · intro none
    cases found : lexeme? c rest with
    | none => rfl
    | some token => exact absurd (beginsToken_of_lexeme? found) none

end Begins

section Before

variable {c stop : Char} {middle back : List Char} {kind : TokenKind} {width : Nat}

theorem noDigit_append (noDigit : NoDigit middle) (ends : stop.isDigit = false) :
    NoDigit (middle ++ stop :: back) := by
  cases middle with
  | nil =>
      rintro _ ⟨rfl⟩
      exact ends
  | cons d more => exact noDigit

theorem noPoint_append (noPoint : NoPoint middle) (ends : stop.isDigit = false)
    (other : stop ≠ '.') : NoPoint (middle ++ stop :: back) := by
  cases middle with
  | nil =>
      rintro more same
      exact absurd (List.cons.inj same).1 other
  | cons d more =>
      rintro behind same
      obtain ⟨rfl, rfl⟩ := List.cons.inj same
      exact noDigit_append (noPoint more rfl) ends

theorem number_before (isDigit : c.isDigit = true) (ends : stop.isDigit = false)
    (other : stop ≠ '.') : number c (middle ++ stop :: back) = number c middle := by
  obtain ⟨body, whole, fraction, more, rfl, text, digits, noDigit, noPoint⟩ :=
    number_split isDigit middle
  rw [number_append text digits noDigit noPoint, List.append_assoc]
  exact number_append text digits (noDigit_append noDigit ends)
    fun none => noPoint_append (noPoint none) ends other

theorem takeWhile_before {p : Char → Bool} (ends : p stop = false) :
    (middle ++ stop :: back).takeWhile p = middle.takeWhile p := by
  have stops : (stop :: back).takeWhile p = [] :=
    List.takeWhile_cons_of_neg (Bool.eq_false_iff.mp ends)
  rw [List.takeWhile_append, stops, List.append_nil]
  split
  · rename_i whole
    exact ((List.takeWhile_prefix p).eq_of_length whole).symm
  · rfl

theorem takeWhile_within {p : Char → Bool} {cs : List Char}
    (within : ((middle ++ cs).takeWhile p).length < middle.length) :
    (middle ++ cs).takeWhile p = middle.takeWhile p := by
  rw [List.takeWhile_append] at within ⊢
  split
  · rename_i whole
    rw [if_pos whole, List.length_append] at within
    omega
  · rfl

/-- A character that begins no token is no part of a number or a word before it. -/
theorem outside_of_nothing (nothing : lexeme? stop back = none) :
    stop.isDigit = false ∧ stop ≠ '.' ∧ isWordPart stop = false := by
  have noDigit : stop.isDigit = false := by
    apply Bool.eq_false_iff.mpr
    intro isDigit
    rw [lexeme?_digit isDigit] at nothing
    cases nothing
  refine ⟨noDigit, ?_, ?_⟩
  · rintro rfl
    have isMark : ['.'] ∈ marks := by decide
    exact absurd nothing (lexeme?_ne_none_of_form (.mark isMark) ⟨back, rfl⟩)
  · apply Bool.eq_false_iff.mpr
    intro part
    have start : isWordStart stop = true := by
      rw [isWordPart, Char.isAlphanum, noDigit, Bool.or_false] at part
      exact part
    rw [lexeme?_word start] at nothing
    cases nothing

/-- A token that ends before such a character is the same without it and what follows. -/
theorem lexeme?_before_fault (nothing : lexeme? stop back = none)
    (found : lexeme? c (middle ++ stop :: back) = some (kind, width))
    (within : width ≤ middle.length) : lexeme? c middle = some (kind, width) := by
  obtain ⟨noDigit, noPoint, noPart⟩ := outside_of_nothing nothing
  by_cases brace : c = '\x7b'
  · subst brace
    rw [lexeme?_brace] at found ⊢
    split at found
    · cases found
      -- the brace that closes the name stands before the fault
      have closed := takeWhile_within within
      rw [closed] at within ⊢
      exact if_pos within
    · cases found
  by_cases digit : c.isDigit = true
  · rw [lexeme?_digit digit] at found ⊢
    rw [← number_before digit noDigit noPoint, found]
  by_cases quote : c = '\'' ∨ c = '"'
  · rw [lexeme?_quote quote] at found ⊢
    obtain ⟨⟨body, reach⟩, read, ⟨⟩⟩ := Option.map_eq_some_iff.mp found
    obtain ⟨text, more, split, rfl, written⟩ := written_of_quoted? read
    have string : text ++ [c] <+: middle ++ stop :: back := ⟨more, by rw [split]; simp⟩
    -- so does the quote that closes a string
    have closed : text ++ [c] <+: middle := by
      apply List.prefix_of_prefix_length_le string (List.prefix_append _ _)
      rwa [List.length_append]
    obtain ⟨behind, rfl⟩ := closed
    rw [List.append_assoc, List.singleton_append, written.quoted?]
    rfl
  by_cases start : isWordStart c = true
  · rw [lexeme?_word start] at found ⊢
    rw [← takeWhile_before noPart, found]
  · rw [lexeme?_mark brace digit quote start] at found ⊢
    cases middle with
    | nil =>
        -- at the end of the text a mark has no second character
        rcases mark?_cases found with ⟨rfl, alone⟩ | ⟨rfl, -⟩
        · exact alone
        · exact absurd within (by decide)
    | cons d more => exact found

theorem Lexes.suffix {cs rest : List Char} {kinds : List TokenKind}
    (lexes : Lexes cs kinds rest) : rest <:+ cs := by
  induction lexes with
  | done => exact List.suffix_refl _
  | blank _ _ ih => exact ih.trans (List.suffix_cons _ _)
  | token _ _ _ ih => exact (ih.trans (List.drop_suffix _ _)).trans (List.suffix_cons _ _)

/-- The tokens before such a character are those of the text that ends there. -/
theorem Lexes.before_fault {before cs rest : List Char} {kinds : List TokenKind}
    (lexes : Lexes cs kinds rest) (fault : rest = stop :: back)
    (nothing : lexeme? stop back = none) (whole : cs = before ++ rest) :
    Lexes before kinds [] := by
  induction lexes generalizing before with
  | done =>
      obtain rfl : before = [] := List.append_left_eq_self.mp whole.symm
      exact .done
  | @blank c cs rest _ isSpace more ih =>
      cases before with
      | nil =>
          -- what has been read is not part of the rest, so it stands before the fault
          have shorter := more.suffix.length_le
          rw [← List.nil_append rest, ← whole, List.length_cons] at shorter
          omega
      | cons d before =>
          rw [List.cons_append] at whole
          obtain ⟨rfl, rfl⟩ := List.cons.inj whole
          exact .blank isSpace (ih fault rfl)
  | @token c cs rest kind width _ visible found more ih =>
      have shorter := more.suffix.length_le
      rw [List.length_drop] at shorter
      cases before with
      | nil =>
          rw [← List.nil_append rest, ← whole, List.length_cons] at shorter
          omega
      | cons d before =>
          rw [List.cons_append] at whole
          obtain ⟨rfl, rfl⟩ := List.cons.inj whole
          have within : width ≤ before.length := by
            rw [List.length_append, fault, List.length_cons] at shorter
            omega
          rw [fault] at found
          refine .token visible (lexeme?_before_fault nothing found within) (ih fault ?_)
          rw [List.drop_append_of_le_length within]

end Before

namespace LexError

variable (here : Position) (c : Char)

theorem atCharacter_eq_field_iff :
    atCharacter here c = .unterminatedField (atCharacter here c).range ↔ c = '\x7b' := by
  unfold atCharacter
  split
  · simp [range, *]
  · split
    · simp [range, *]
    · simp [range, *]

theorem atCharacter_eq_string_iff :
    atCharacter here c = .unterminatedString (atCharacter here c).range ↔ c = '\'' ∨ c = '"' := by
  unfold atCharacter
  split
  · simp [range, *]
  · split
    · simp [range, *]
    · simp [range, *]

theorem atCharacter_eq_character_iff :
    atCharacter here c = .unexpectedCharacter (atCharacter here c).range c ↔
      c ≠ '\x7b' ∧ ¬(c = '\'' ∨ c = '"') := by
  unfold atCharacter
  split
  · simp [range, *]
  · split
    · simp [range, *]
    · simp [range, *]

end LexError

/-- A text without tokens is at fault at the first place where no token begins. The text before it
has tokens of its own. The error is about an attribute exactly where an opening brace is never
closed, about a string exactly where a quote opens none, and about the character anywhere else. -/
theorem rejected_at_first_fault {text : List Char} {e : LexError}
    (rejected : Token.ofText text = .error e) :
    ∃ before c back, text = before ++ c :: back ∧ isSpace c = false ∧
      e.range = ⟨.behind before, (Position.behind before).next c⟩ ∧
      (∃ tokens, Token.ofText before = .ok tokens) ∧ ¬BeginsToken (c :: back) ∧
      (e = .unterminatedField e.range ↔ c = '\x7b' ∧ '\x7d' ∉ back) ∧
      (e = .unterminatedString e.range ↔ (c = '\'' ∨ c = '"') ∧ Unclosed c back) ∧
      (e = .unexpectedCharacter e.range c ↔
        ¬(c = '\x7b' ∧ '\x7d' ∉ back) ∧ ¬((c = '\'' ∨ c = '"') ∧ Unclosed c back)) := by
  have begins : Token.scan (.behind []) text = .error e := rejected
  obtain ⟨before, c, back, kinds, split, lexes, visible, nothing, rfl⟩ := error_of_scan begins
  have field : c = '\x7b' → '\x7d' ∉ back := by
    rintro rfl
    exact lexeme?_brace_eq_none_iff.mp nothing
  have string : c = '\'' ∨ c = '"' → Unclosed c back :=
    fun isQuote => (lexeme?_quote_eq_none_iff isQuote).mp nothing
  obtain ⟨tokens, scanned, -⟩ := Token.scan_of_lexes (lexes.before_fault rfl nothing split) ⟨1, 1⟩
  refine ⟨before, c, back, split, visible, range_atCharacter _ visible, ⟨tokens, scanned⟩,
    lexeme?_eq_none_iff.mp nothing, ?_, ?_, ?_⟩
  · rw [LexError.atCharacter_eq_field_iff, and_iff_left_of_imp field]
  · rw [LexError.atCharacter_eq_string_iff, and_iff_left_of_imp string]
  · rw [LexError.atCharacter_eq_character_iff, and_iff_left_of_imp field,
      and_iff_left_of_imp string]

/-- The second line has a string that is closed, but holds an escape that is none. -/
def unknownEscape : List Char := "{a}\n+ 'c\\q'".toList

theorem unknownEscape_rejected :
    ∃ e before c back, Token.ofText unknownEscape = .error e ∧ e.range.start = ⟨2, 3⟩ ∧
      unknownEscape = before ++ c :: back ∧ (∃ tokens, Token.ofText before = .ok tokens) ∧
      ¬BeginsToken (c :: back) ∧ (c = '\'' ∨ c = '"') ∧ Unclosed c back := by
  have rejected : Token.ofText unknownEscape =
      .error (.unterminatedString ⟨⟨2, 3⟩, ⟨2, 4⟩⟩) := by
    decide +kernel
  obtain ⟨before, c, back, split, -, -, readable, nothing, -, string, -⟩ :=
    rejected_at_first_fault rejected
  exact ⟨_, before, c, back, rejected, rfl, split, readable, nothing, string.mp rfl⟩

end RecordExpr
