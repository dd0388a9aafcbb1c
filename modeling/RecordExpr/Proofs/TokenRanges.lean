import RecordExpr.Fault
import RecordExpr.Proofs.Lexemes
import RecordExpr.Proofs.Places

set_option autoImplicit false

namespace RecordExpr

open Lexeme
open String (utf8Len)

section Alone

variable {c : Char} {rest : List Char} {kind : TokenKind} {width : Nat}

/-- A text that begins with a digit begins with a number, behind which no digit stands, and no
fraction if the number has none. -/
theorem number_split (isDigit : c.isDigit = true) (rest : List Char) :
    ∃ body whole fraction more, rest = body ++ more ∧
      c :: body = whole ++ Number.fractionPart fraction ∧
      (∀ d ∈ whole ++ fraction, d.isDigit = true) ∧ NoDigit more ∧
      (fraction = [] → NoPoint more) := by
  have split := List.takeWhile_append_dropWhile (p := Char.isDigit) (l := rest)
  have whole : ∀ d ∈ c :: rest.takeWhile Char.isDigit, d.isDigit = true :=
    List.forall_mem_cons.mpr ⟨isDigit, fun d => List.mem_takeWhile_imp⟩
  by_cases point : NoPoint (rest.dropWhile Char.isDigit)
  · refine ⟨rest.takeWhile Char.isDigit, c :: rest.takeWhile Char.isDigit, [],
      rest.dropWhile Char.isDigit, split.symm, (List.append_nil _).symm, ?_,
      head_dropWhile Char.isDigit rest, fun _ => point⟩
    rw [List.append_nil]
    exact whole
  · unfold NoPoint NoDigit at point
    push Not at point
    obtain ⟨more, behind, d, first, digit⟩ := point
    have begins := Bool.eq_true_of_not_eq_false digit
    obtain ⟨tail, rfl⟩ : ∃ tail, more = d :: tail := by
      cases more with
      | nil => cases first
      | cons e tail =>
          cases first
          exact ⟨tail, rfl⟩
    let fraction := (d :: tail).takeWhile Char.isDigit
    have filled : fraction ≠ [] := by
      simp only [fraction, List.takeWhile_cons_of_pos begins]
      exact List.cons_ne_nil _ _
    refine ⟨rest.takeWhile Char.isDigit ++ '.' :: fraction, c :: rest.takeWhile Char.isDigit,
      fraction, (d :: tail).dropWhile Char.isDigit, ?_, ?_, ?_,
      head_dropWhile Char.isDigit _, fun none => absurd none filled⟩
    · rw [List.append_assoc, List.cons_append, List.takeWhile_append_dropWhile, ← behind, split]
    · rw [Number.fractionPart_of_ne_nil filled]
      rfl
    · exact List.forall_mem_append.mpr ⟨whole, fun e => List.mem_takeWhile_imp⟩

theorem number_alone (isDigit : c.isDigit = true) (rest : List Char) :
    (number c rest).2 ≤ rest.length ∧ number c (rest.take (number c rest).2) = number c rest := by
  obtain ⟨body, whole, fraction, more, rfl, text, digits, noDigit, noPoint⟩ :=
    number_split isDigit rest
  have here := number_append text digits noDigit noPoint
  have alone := number_append text digits endsNumber_nil.1 fun _ => endsNumber_nil.2
  rw [List.append_nil] at alone
  rw [here, List.take_left, alone, List.length_append]
  exact ⟨Nat.le_add_right _ _, rfl⟩

/-- A string reaches up to its closing quote, whatever stands behind that. -/
theorem quoted?_alone {quote : Char} {body : List Char}
    (read : quoted? quote rest = some (body, width)) :
    width ≤ rest.length ∧ quoted? quote (rest.take width) = some (body, width) := by
  obtain ⟨text, more, rfl, rfl, written⟩ := written_of_quoted? read
  have pieces : text ++ quote :: more = (text ++ [quote]) ++ more := by
    rw [List.append_assoc, List.singleton_append]
  have size : text.length + 1 = (text ++ [quote]).length := by
    rw [List.length_append, List.length_singleton]
  rw [pieces, size, List.take_left, written.quoted? [], ← size, List.length_append, ← size]
  exact ⟨Nat.le_add_right _ _, rfl⟩

theorem word_alone (rest : List Char) :
    (rest.takeWhile isWordPart).length ≤ rest.length ∧
      (rest.take (rest.takeWhile isWordPart).length).takeWhile isWordPart =
        rest.takeWhile isWordPart := by
  have reach := List.takeWhile_prefix (l := rest) isWordPart
  rw [← List.prefix_iff_eq_take.mp reach]
  exact ⟨reach.length_le, List.takeWhile_eq_self_iff.mpr fun d => List.mem_takeWhile_imp⟩

/-- A name in braces reaches up to its closing brace, whatever stands behind that. -/
theorem field_alone {name : List Char} (read : rest.takeWhile (· ≠ '\x7d') = name)
    (closed : name.length < rest.length) :
    (rest.take (name.length + 1)).length = name.length + 1 ∧
      (rest.take (name.length + 1)).takeWhile (· ≠ '\x7d') = name := by
  have inside : ∀ c ∈ name, decide (c ≠ '\x7d') = true := by
    rw [← read]
    exact fun c => List.mem_takeWhile_imp
  have split : name ++ rest.dropWhile (· ≠ '\x7d') = rest := by
    rw [← read, List.takeWhile_append_dropWhile]
  cases behind : rest.dropWhile (· ≠ '\x7d') with
  | nil =>
      rw [behind, List.append_nil] at split
      rw [split] at closed
      exact absurd closed (Nat.lt_irrefl _)
  | cons c more =>
      have closes := head_dropWhile (· ≠ '\x7d') rest c (by rw [behind]; rfl)
      obtain rfl : c = '\x7d' := by simpa using closes
      have taken : rest.take (name.length + 1) = name ++ ['\x7d'] := by
        rw [← split, behind, List.take_length_add_append]
        rfl
      have ends : ∀ c ∈ ['\x7d'].head?, decide (c ≠ '\x7d') = false := by
        rintro _ ⟨rfl⟩
        rfl
      rw [taken]
      exact ⟨List.length_append, (takeWhile_stretch ['\x7d'] inside ends).1⟩

/-- An operator that is one character longer has the next one in the text. -/
theorem mark?_cases (found : mark? c rest = some (kind, width)) :
    width = 0 ∧ mark? c [] = some (kind, 0) ∨ width = 1 ∧ rest ≠ [] := by
  unfold mark? at *
  cases rest with
  | nil => grind
  | cons d more => grind

theorem mark?_alone (found : mark? c rest = some (kind, width)) :
    width ≤ rest.length ∧ mark? c (rest.take width) = some (kind, width) := by
  rcases mark?_cases found with ⟨rfl, alone⟩ | ⟨rfl, filled⟩
  · exact ⟨Nat.zero_le _, alone⟩
  · apply And.intro (List.length_pos_of_ne_nil filled)
    rw [← found]
    unfold mark?
    rw [List.head?_take, if_neg (by decide)]

/-- What stands behind a token decides how far it reaches, but not what it is: its own characters
are the same token. -/
theorem lexeme?_alone (found : lexeme? c rest = some (kind, width)) :
    width ≤ rest.length ∧ lexeme? c (rest.take width) = some (kind, width) := by
  unfold lexeme? at *
  by_cases brace : c = '\x7b'
  · rw [if_pos brace] at found ⊢
    simp only at found ⊢
    split at found
    · rename_i shorter
      obtain ⟨length, name⟩ := field_alone rfl shorter
      cases found
      rw [name, length, if_pos (Nat.lt_succ_self _)]
      exact ⟨shorter, rfl⟩
    · cases found
  · rw [if_neg brace] at found ⊢
    by_cases isDigit : c.isDigit = true
    · rw [if_pos isDigit] at found ⊢
      have alone := number_alone isDigit rest
      rw [Option.some.inj found] at alone
      exact ⟨alone.1, congrArg some alone.2⟩
    · rw [if_neg isDigit] at found ⊢
      by_cases quote : c = '\'' ∨ c = '"'
      · rw [if_pos quote] at found ⊢
        obtain ⟨⟨body, reach⟩, read, ⟨⟩⟩ := Option.map_eq_some_iff.mp found
        obtain ⟨within, again⟩ := quoted?_alone read
        rw [again]
        exact ⟨within, rfl⟩
      · rw [if_neg quote] at found ⊢
        by_cases start : isWordStart c = true
        · rw [if_pos start] at found ⊢
          cases found
          obtain ⟨within, whole⟩ := word_alone rest
          rw [whole]
          exact ⟨within, rfl⟩
        · rw [if_neg start] at found ⊢
          exact mark?_alone found

theorem mark?_ne_endOfText (found : mark? c rest = some (kind, width)) : kind ≠ .endOfText := by
  unfold mark? at found
  grind

theorem wordKind_ne_endOfText (word : List Char) : wordKind word ≠ .endOfText := by
  unfold wordKind
  split
  all_goals exact TokenKind.noConfusion

/-- The end of a text is never read from a character. -/
theorem lexeme?_ne_endOfText (found : lexeme? c rest = some (kind, width)) : kind ≠ .endOfText := by
  unfold lexeme? at found
  split at found
  · simp only at found
    split at found
    · cases found
      exact TokenKind.noConfusion
    · cases found
  · split at found
    · cases found
      exact TokenKind.noConfusion
    · split at found
      · obtain ⟨_, -, ⟨⟩⟩ := Option.map_eq_some_iff.mp found
        exact TokenKind.noConfusion
      · split at found
        · cases found
          exact wordKind_ne_endOfText _
        · exact mark?_ne_endOfText found

/-- These characters are a token of this kind, and nothing more. -/
def IsToken (kind : TokenKind) (word : List Char) : Prop :=
  ∃ c body, word = c :: body ∧ isSpace c = false ∧ lexeme? c body = some (kind, body.length)

namespace IsToken

variable {word : List Char}

theorem filled (isToken : IsToken kind word) : word ≠ [] := by
  obtain ⟨c, body, rfl, -, -⟩ := isToken
  exact List.cons_ne_nil c body

theorem ne_endOfText (isToken : IsToken kind word) : kind ≠ .endOfText := by
  obtain ⟨c, body, -, -, found⟩ := isToken
  exact lexeme?_ne_endOfText found

theorem tokenize (isToken : IsToken kind word) :
    ∃ tokens, Expr.tokenize (String.ofList word) = .ok tokens ∧
      tokens.map Token.kind = [kind, .endOfText] := by
  obtain ⟨c, body, rfl, visible, found⟩ := isToken
  have alone : Lexes (c :: (body ++ [])) [kind] [] :=
    .single visible (by rw [List.append_nil, found])
  rw [List.append_nil] at alone
  obtain ⟨tokens, scanned, kinds⟩ := Token.scan_of_lexes alone ⟨1, 1⟩
  refine ⟨tokens, ?_, kinds⟩
  rw [Expr.tokenize, String.toList_ofList, Token.ofText, scanned]
  rfl

end IsToken

end Alone

/-- The tokens of `cs`, which stands behind `front` in a text: blanks, tokens with their ranges, and
the end. -/
inductive Laid : List Char → List Char → List Token → Prop where
  | done (front : List Char) : Laid front [] [⟨.endOfText, ⟨.behind front, .behind front⟩⟩]
  | blank {front cs : List Char} {c : Char} {tokens : List Token} (isSpace : isSpace c = true)
      (more : Laid (front ++ [c]) cs tokens) : Laid front (c :: cs) tokens
  | token {front word cs : List Char} {kind : TokenKind} {tokens : List Token}
      (isToken : IsToken kind word) (more : Laid (front ++ word) cs tokens) :
      Laid front (word ++ cs) (⟨kind, ⟨.behind front, .behind (front ++ word)⟩⟩ :: tokens)

theorem laid_of_scan {front cs : List Char} {tokens : List Token}
    (scanned : Token.scan (.behind front) cs = .ok tokens) : Laid front cs tokens := by
  match cs, scanned with
  | [], scanned =>
      rw [Token.scan] at scanned
      cases scanned
      exact .done front
  | c :: cs, scanned =>
      by_cases isSpace : isSpace c = true
      · rw [Token.scan_blank isSpace, ← Position.behind_append_singleton] at scanned
        exact .blank isSpace (laid_of_scan scanned)
      · cases found : lexeme? c cs with
        | none =>
            rw [Token.scan, if_neg isSpace, found] at scanned
            cases scanned
        | some token =>
            obtain ⟨kind, width⟩ := token
            have visible := Bool.eq_false_iff.mpr isSpace
            obtain ⟨more, later, rfl⟩ := (Token.scan_lexeme_eq_ok visible found).mp scanned
            obtain ⟨within, alone⟩ := lexeme?_alone found
            have isToken : IsToken kind (c :: cs.take width) :=
              ⟨c, cs.take width, rfl, visible, by rw [alone, List.length_take_of_le within]⟩
            have pieces : c :: cs = (c :: cs.take width) ++ cs.drop width := by
              rw [List.cons_append, List.take_append_drop]
            rw [← Position.behind_append] at later ⊢
            rw [pieces]
            exact .token isToken (laid_of_scan later)
termination_by cs.length
decreasing_by
  · exact Nat.lt_succ_self _
  · rw [List.length_drop, List.length_cons]
    omega

namespace Token

/-- Byte offsets of the two ends of a token in its text. -/
def start (text : String) (t : Token) : Nat := t.range.start.offset text.toList

def stop (text : String) (t : Token) : Nat := t.range.stop.offset text.toList

/-- The part of the text from where a token starts up to where it stops. -/
def slice (text : String) (t : Token) : String :=
  String.Pos.Raw.extract text ⟨t.start text⟩ ⟨t.stop text⟩

/-- The range of the token is the place of `word`, which stands behind `front` in the text. -/
def Spans (text : String) (front word : List Char) (t : Token) : Prop :=
  (∃ back, text.toList = front ++ word ++ back) ∧
    t.range = ⟨.behind front, .behind (front ++ word)⟩

namespace Spans

variable {text : String} {front word : List Char} {t : Token}

theorem start_eq (spans : Spans text front word t) : t.start text = utf8Len front := by
  obtain ⟨⟨back, split⟩, range⟩ := spans
  rw [start, range, split, List.append_assoc, Position.offset_behind]

theorem stop_eq (spans : Spans text front word t) : t.stop text = utf8Len (front ++ word) := by
  obtain ⟨⟨back, split⟩, range⟩ := spans
  rw [stop, range, split, Position.offset_behind]

theorem valid (spans : Spans text front word t) :
    String.Pos.Raw.IsValid text ⟨t.start text⟩ ∧ String.Pos.Raw.IsValid text ⟨t.stop text⟩ := by
  rw [spans.start_eq, spans.stop_eq]
  obtain ⟨⟨back, split⟩, -⟩ := spans
  apply And.intro _ (isValid_utf8Len split)
  rw [List.append_assoc] at split
  exact isValid_utf8Len split

theorem start_lt_stop (spans : Spans text front word t) (filled : word ≠ []) :
    t.start text < t.stop text := by
  rw [spans.start_eq, spans.stop_eq, String.utf8Len_append]
  have := utf8Len_pos filled
  omega

theorem slice_eq (spans : Spans text front word t) : t.slice text = String.ofList word := by
  rw [slice, spans.start_eq, spans.stop_eq, String.utf8Len_append]
  obtain ⟨⟨back, split⟩, -⟩ := spans
  rw [← String.ofList_toList (s := text), split]
  exact String.extract_of_valid front word back

end Spans

end Token

namespace Laid

variable {text : String} {front cs : List Char} {tokens : List Token}

/-- Every token but the last, which is the end, has its place behind what stands in front. -/
theorem spans (laid : Laid front cs tokens) (whole : text.toList = front ++ cs) :
    ∃ words last, tokens = words ++ [last] ∧ last.kind = .endOfText ∧
      last.Spans text text.toList [] ∧
      ∀ t ∈ words, ∃ before word, front <+: before ∧ IsToken t.kind word ∧
        t.Spans text before word := by
  induction laid with
  | done front =>
      rw [List.append_nil] at whole
      refine ⟨[], _, rfl, rfl, ?_, nofun⟩
      rw [Token.Spans, List.append_nil, whole]
      exact ⟨⟨[], by rw [List.append_nil]⟩, rfl⟩
  | @blank front cs c tokens _ more ih =>
      have further : text.toList = (front ++ [c]) ++ cs := by
        rw [whole, List.append_assoc, List.singleton_append]
      obtain ⟨words, last, split, isEnd, ends, each⟩ := ih further
      refine ⟨words, last, split, isEnd, ends, ?_⟩
      intro t member
      obtain ⟨before, word, behind, rest⟩ := each t member
      exact ⟨before, word, (List.prefix_append front [c]).trans behind, rest⟩
  | @token front word cs kind tokens isToken more ih =>
      rw [← List.append_assoc] at whole
      obtain ⟨words, last, rfl, isEnd, ends, each⟩ := ih whole
      refine ⟨_ :: words, last, rfl, isEnd, ends, ?_⟩
      intro t member
      rcases List.mem_cons.mp member with rfl | later
      · exact ⟨front, word, List.prefix_refl front, isToken, ⟨cs, whole⟩, rfl⟩
      · obtain ⟨before, other, behind, rest⟩ := each t later
        exact ⟨before, other, (List.prefix_append front word).trans behind, rest⟩

/-- No token starts in front of what is left of the text. -/
theorem le_start (laid : Laid front cs tokens) (whole : text.toList = front ++ cs) :
    ∀ t ∈ tokens, utf8Len front ≤ t.start text := by
  intro t member
  obtain ⟨words, last, rfl, -, ends, each⟩ := laid.spans whole
  rcases List.mem_append.mp member with inside | isLast
  · obtain ⟨before, word, behind, -, spans⟩ := each t inside
    rw [spans.start_eq]
    exact String.utf8Len_le_of_prefix behind
  · rw [List.mem_singleton.mp isLast, ends.start_eq, whole]
    exact String.utf8Len_le_of_prefix (List.prefix_append front cs)

/-- Each token stops before the next ones start. -/
theorem ordered (laid : Laid front cs tokens) (whole : text.toList = front ++ cs) :
    tokens.Pairwise fun t next => t.stop text ≤ next.start text := by
  induction laid with
  | done front => exact List.pairwise_singleton _ _
  | blank _ more ih =>
      apply ih
      rw [whole, List.append_assoc, List.singleton_append]
  | @token front word cs kind tokens isToken more ih =>
      rw [← List.append_assoc] at whole
      have spans : Token.Spans text front word
          ⟨kind, ⟨.behind front, .behind (front ++ word)⟩⟩ := ⟨⟨cs, whole⟩, rfl⟩
      apply List.Pairwise.cons _ (ih whole)
      rw [spans.stop_eq]
      exact more.le_start whole

/-- A character of a text with two parts stands in the first or in the second one. -/
theorem inside_or_behind {word cs before back : List Char} {c : Char}
    (split : word ++ cs = before ++ c :: back) :
    (∃ more, word = before ++ c :: more) ∨
      ∃ later, before = word ++ later ∧ cs = later ++ c :: back := by
  rcases List.append_eq_append_iff.mp split with ⟨later, first, second⟩ | ⟨inside, first, second⟩
  · exact .inr ⟨later, first, second⟩
  · cases inside with
    | nil => exact .inr ⟨[], by rw [first, List.append_nil, List.append_nil], second.symm⟩
    | cons d more =>
        obtain ⟨rfl, -⟩ := List.cons.inj second
        exact .inl ⟨more, first⟩

/-- A character between the tokens is a blank. -/
theorem covers (laid : Laid front cs tokens) (whole : text.toList = front ++ cs) :
    ∀ before c back, cs = before ++ c :: back →
      isSpace c = true ∨ ∃ t ∈ tokens, t.start text ≤ utf8Len (front ++ before) ∧
        utf8Len (front ++ before) < t.stop text := by
  induction laid with
  | done front =>
      intro before c back split
      exact absurd split.symm (List.append_ne_nil_of_right_ne_nil _ (List.cons_ne_nil c back))
  | @blank front cs d tokens isSpace more ih =>
      have further : text.toList = (front ++ [d]) ++ cs := by
        rw [whole, List.append_assoc, List.singleton_append]
      intro before c back split
      cases before with
      | nil =>
          obtain ⟨rfl, -⟩ := List.cons.inj split
          exact .inl isSpace
      | cons e before =>
          obtain ⟨rfl, rest⟩ := List.cons.inj split
          have found := ih further before c back rest
          rwa [List.append_assoc, List.singleton_append] at found
  | @token front word cs kind tokens isToken more ih =>
      rw [← List.append_assoc] at whole
      have spans : Token.Spans text front word
          ⟨kind, ⟨.behind front, .behind (front ++ word)⟩⟩ := ⟨⟨cs, whole⟩, rfl⟩
      intro before c back split
      rcases inside_or_behind split with ⟨others, rfl⟩ | ⟨later, rfl, rest⟩
      · refine .inr ⟨_, List.mem_cons_self, ?_⟩
        have := utf8Len_pos (List.cons_ne_nil c others)
        simp only [spans.start_eq, spans.stop_eq, String.utf8Len_append]
        omega
      · rcases ih whole later c back rest with blank | ⟨t, member, within⟩
        · exact .inl blank
        · rw [List.append_assoc] at within
          exact .inr ⟨t, List.mem_cons_of_mem _ member, within⟩

end Laid

theorem laid_of_tokenize {text : String} {tokens : List Token}
    (read : Expr.tokenize text = .ok tokens) : Laid [] text.toList tokens := by
  exact laid_of_scan (Expr.tokenize_eq_ok.mp read)

/-- A token of a text is its end, or has its place in the text. -/
theorem spans_of_tokenize {text : String} {tokens : List Token} {t : Token}
    (read : Expr.tokenize text = .ok tokens) (member : t ∈ tokens) :
    t.kind = .endOfText ∧ t.Spans text text.toList [] ∨
      ∃ before word, IsToken t.kind word ∧ t.Spans text before word := by
  obtain ⟨words, last, rfl, isEnd, ends, each⟩ := (laid_of_tokenize read).spans rfl
  rcases List.mem_append.mp member with inside | isLast
  · obtain ⟨before, word, -, isToken, spans⟩ := each t inside
    exact .inr ⟨before, word, isToken, spans⟩
  · rw [List.mem_singleton.mp isLast]
    exact .inl ⟨isEnd, ends⟩

/-- The ranges of these tokens lie in the text as its tokens do. -/
structure Token.Cover (text : String) (tokens : List Token) : Prop where
  /-- The last token is the end of the text, and no other is. -/
  ended : ∃ words last, tokens = words ++ [last] ∧ last.kind = .endOfText ∧
    ∀ t ∈ words, t.kind ≠ .endOfText
  /-- The end stands behind all characters. -/
  atEnd : ∀ t ∈ tokens, t.kind = .endOfText →
    t.start text = text.utf8ByteSize ∧ t.stop text = text.utf8ByteSize
  filled : ∀ t ∈ tokens, t.kind ≠ .endOfText → t.start text < t.stop text
  /-- All offsets fall between characters. -/
  valid : ∀ t ∈ tokens, String.Pos.Raw.IsValid text ⟨t.start text⟩ ∧
    String.Pos.Raw.IsValid text ⟨t.stop text⟩
  ordered : tokens.Pairwise fun t next => t.stop text ≤ next.start text
  /-- What a token spans is, cut out of the text, this token alone. -/
  alone : ∀ t ∈ tokens, t.kind ≠ .endOfText → ∃ own, Expr.tokenize (t.slice text) = .ok own ∧
    own.map Token.kind = [t.kind, .endOfText]
  /-- What no token spans is blank. -/
  blanks : ∀ front c back, text.toList = front ++ c :: back → isSpace c = true ∨
    ∃ t ∈ tokens, t.start text ≤ utf8Len front ∧ utf8Len front < t.stop text

/-- The ranges of the tokens of a text cover it: each spans exactly the characters that it is read
from, and between them there are only blanks. -/
theorem ranges_cover {text : String} {tokens : List Token}
    (read : Expr.tokenize text = .ok tokens) : Token.Cover text tokens := by
  have laid := laid_of_tokenize read
  have place : ∀ t ∈ tokens, t.kind ≠ .endOfText →
      ∃ before word, IsToken t.kind word ∧ t.Spans text before word := by
    intro t member other
    exact (spans_of_tokenize read member).resolve_left fun ended => other ended.1
  refine ⟨?_, ?_, ?_, ?_, laid.ordered rfl, ?_, laid.covers rfl⟩
  · obtain ⟨words, last, split, isEnd, -, each⟩ := laid.spans rfl
    refine ⟨words, last, split, isEnd, ?_⟩
    intro t member
    obtain ⟨_, word, -, isToken, -⟩ := each t member
    exact isToken.ne_endOfText
  · intro t member isEnd
    rcases spans_of_tokenize read member with ⟨-, ends⟩ | ⟨_, word, isToken, -⟩
    · rw [ends.start_eq, ends.stop_eq, List.append_nil, String.utf8Len_toList]
      exact ⟨rfl, rfl⟩
    · exact absurd isEnd isToken.ne_endOfText
  · intro t member other
    obtain ⟨_, word, isToken, spans⟩ := place t member other
    exact spans.start_lt_stop isToken.filled
  · intro t member
    rcases spans_of_tokenize read member with ⟨-, ends⟩ | ⟨_, word, -, spans⟩
    · exact ends.valid
    · exact spans.valid
  · intro t member other
    obtain ⟨_, word, isToken, spans⟩ := place t member other
    rw [spans.slice_eq]
    exact isToken.tokenize

/-- A text of two lines, with characters of more than one byte and with a quote inside a string. -/
def heightText : String := "{höhe}\n  <= 'h\\'öchstens'"

theorem heightText_covered :
    ∃ tokens, Expr.tokenize heightText = .ok tokens ∧
      tokens.map (fun t => (t.start heightText, t.stop heightText)) =
        [(0, 7), (10, 12), (13, 27), (27, 27)] ∧
      Token.Cover heightText tokens := by
  have found : ∃ tokens, Expr.tokenize heightText = .ok tokens ∧
      tokens.map (fun t => (t.start heightText, t.stop heightText)) =
        [(0, 7), (10, 12), (13, 27), (27, 27)] := by
    refine ⟨[⟨.field "höhe", ⟨⟨1, 1⟩, ⟨1, 7⟩⟩⟩, ⟨.operator (.compare .lessEqual), ⟨⟨2, 3⟩, ⟨2, 5⟩⟩⟩,
      ⟨.literal (.string "h'öchstens"), ⟨⟨2, 6⟩, ⟨2, 19⟩⟩⟩, ⟨.endOfText, ⟨⟨2, 19⟩, ⟨2, 19⟩⟩⟩],
      ?_, ?_⟩
    · decide +kernel
    · decide +kernel
  obtain ⟨tokens, read, offsets⟩ := found
  exact ⟨tokens, read, offsets, ranges_cover read⟩

end RecordExpr
