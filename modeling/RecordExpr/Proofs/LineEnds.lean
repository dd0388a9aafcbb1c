import RecordExpr.Fetch.Settings
import RecordExpr.Proofs.TokenKinds

set_option autoImplicit false

namespace RecordExpr

open Lexeme

/-- The second character is the first one, or a space in place of a line end. -/
def Spaced (c d : Char) : Prop := d = c ∨ c = '\n' ∧ d = ' '

/-- The second text is the first one with spaces in place of some line ends. -/
abbrev SpacedText (cs ds : List Char) : Prop := List.Forall₂ Spaced cs ds

namespace Spaced

variable {c d : Char}

theorem of_ne (spaced : Spaced c d) (visible : c ≠ '\n') : d = c :=
  spaced.resolve_right fun ⟨lineEnd, _⟩ => visible lineEnd

theorem of_visible (spaced : Spaced c d) (visible : isSpace c = false) : d = c := by
  apply spaced.of_ne
  rintro rfl
  cases visible

theorem of_ne_space (spaced : Spaced c d) (visible : d ≠ ' ') : c = d := by
  rcases spaced with rfl | ⟨-, space⟩
  · rfl
  · exact absurd space visible

/-- A class that has both a line end and a space, or neither, does not tell them apart. -/
theorem class_eq (spaced : Spaced c d) {p : Char → Bool} (alike : p '\n' = p ' ') : p d = p c := by
  rcases spaced with rfl | ⟨rfl, rfl⟩
  · rfl
  · exact alike.symm

end Spaced

namespace SpacedText

variable {cs ds : List Char} {p : Char → Bool}

theorem refl (cs : List Char) : SpacedText cs cs := List.forall₂_same.mpr fun _ _ => .inl rfl

theorem eq_of_notMem (spaced : SpacedText cs ds) (noLineEnd : '\n' ∉ cs) : ds = cs := by
  induction spaced with
  | nil => rfl
  | cons first _ ih =>
      obtain ⟨here, later⟩ := not_or.mp (List.mem_cons.not.mp noLineEnd)
      rw [first.of_ne (Ne.symm here), ih later]

theorem takeWhile (spaced : SpacedText cs ds) (alike : p '\n' = p ' ') :
    SpacedText (cs.takeWhile p) (ds.takeWhile p) := by
  induction spaced with
  | nil => exact .nil
  | cons first _ ih =>
      rw [List.takeWhile_cons, List.takeWhile_cons, first.class_eq alike]
      split
      · exact .cons first ih
      · exact .nil

theorem dropWhile (spaced : SpacedText cs ds) (alike : p '\n' = p ' ') :
    SpacedText (cs.dropWhile p) (ds.dropWhile p) := by
  induction spaced with
  | nil => exact .nil
  | cons first later ih =>
      rw [List.dropWhile_cons, List.dropWhile_cons, first.class_eq alike]
      split
      · exact ih
      · exact .cons first later

/-- A stretch of characters of a class that has no blanks stays as it is. -/
theorem takeWhile_eq (spaced : SpacedText cs ds) (lineEnd : p '\n' = false)
    (space : p ' ' = false) : ds.takeWhile p = cs.takeWhile p := by
  refine (spaced.takeWhile (lineEnd.trans space.symm)).eq_of_notMem fun member => ?_
  rw [List.mem_takeWhile_imp member] at lineEnd
  cases lineEnd

theorem trimChars (spaced : SpacedText cs ds) :
    SpacedText (Text.trimChars cs) (Text.trimChars ds) := by
  have front : SpacedText (cs.dropWhile Text.isBlank) (ds.dropWhile Text.isBlank) :=
    spaced.dropWhile rfl
  have back := dropWhile (p := Text.isBlank) (List.rel_reverse front) rfl
  exact List.rel_reverse back

end SpacedText

theorem unescape?_ne_space {c d : Char} (escaped : unescape? c = some d) : c ≠ ' ' := by
  rintro rfl
  cases escaped

/-- Where a space stands in a string, a line end can stand too. -/
theorem exists_written_of_spaced {quote : Char} (isQuote : quote ≠ '\n') {body ds : List Char}
    (written : Written quote body ds) {cs : List Char} (spaced : SpacedText cs ds) :
    ∃ body, Written quote body cs := by
  induction written generalizing cs with
  | nothing =>
      cases spaced
      exact ⟨[], .nothing⟩
  | @plain d _ _ other noEscape _ ih =>
      obtain ⟨c, cs, first, later, rfl⟩ := List.forall₂_cons_right_iff.mp spaced
      obtain ⟨body, written⟩ := ih later
      rcases first with rfl | ⟨rfl, -⟩
      · exact ⟨_, .plain other noEscape written⟩
      · exact ⟨_, .plain isQuote.symm (by decide) written⟩
  | @escaped e d _ _ other reads _ ih =>
      obtain ⟨c, others, first, behind, rfl⟩ := List.forall₂_cons_right_iff.mp spaced
      obtain ⟨c', cs, second, later, rfl⟩ := List.forall₂_cons_right_iff.mp behind
      obtain ⟨body, written⟩ := ih later
      rw [first.of_ne_space (by decide), second.of_ne_space (unescape?_ne_space reads)]
      exact ⟨_, .escaped other reads written⟩

/-- A string with no line end in it is read as before. -/
theorem quoted?_of_spaced {quote : Char} {cs ds body : List Char} {width : Nat}
    (spaced : SpacedText cs ds) (read : quoted? quote cs = some (body, width))
    (unbroken : '\n' ∉ cs.take width) : quoted? quote ds = some (body, width) := by
  have inside : ds.take width = cs.take width :=
    SpacedText.eq_of_notMem (List.forall₂_take width spaced) unbroken
  obtain ⟨text, more, rfl, rfl, written⟩ := written_of_quoted? read
  have front : (text ++ quote :: more).take (text.length + 1) = text ++ [quote] := by
    rw [List.take_length_add_append]
    rfl
  rw [← List.take_append_drop (text.length + 1) ds, inside, front, List.append_assoc]
  exact written.quoted? _

/-- Where a string is read afterwards, there was one before. -/
theorem quoted?_ne_none_of_spaced {quote : Char} (isQuote : quote ≠ '\n' ∧ quote ≠ ' ')
    {cs ds : List Char} (spaced : SpacedText cs ds) {found : List Char × Nat}
    (read : quoted? quote ds = some found) : quoted? quote cs ≠ none := by
  obtain ⟨text, more, rfl, -, written⟩ := written_of_quoted? read
  obtain ⟨body, written'⟩ :=
    exists_written_of_spaced isQuote.1 written (List.forall₂_take_append cs _ _ spaced)
  obtain ⟨c, rest, closing, -, behind⟩ :=
    List.forall₂_cons_right_iff.mp (List.forall₂_drop_append cs _ _ spaced)
  obtain rfl := closing.of_ne_space isQuote.2
  rw [← List.take_append_drop text.length cs, behind, written'.quoted?]
  exact Option.some_ne_none _

theorem quoted?_spaced {quote : Char} (isQuote : quote ≠ '\n' ∧ quote ≠ ' ') {cs ds : List Char}
    (spaced : SpacedText cs ds)
    (unbroken : ∀ body width, quoted? quote cs = some (body, width) → '\n' ∉ cs.take width) :
    quoted? quote ds = quoted? quote cs := by
  cases read : quoted? quote cs with
  | some found => exact quoted?_of_spaced spaced read (unbroken _ _ read)
  | none =>
      cases read' : quoted? quote ds with
      | none => rfl
      | some found => exact absurd read (quoted?_ne_none_of_spaced isQuote spaced read')

theorem numberWidth_spaced {cs ds : List Char} (spaced : SpacedText cs ds) :
    numberWidth ds = numberWidth cs := by
  have whole : ds.takeWhile Char.isDigit = cs.takeWhile Char.isDigit := spaced.takeWhile_eq rfl rfl
  have behind : SpacedText (cs.dropWhile Char.isDigit) (ds.dropWhile Char.isDigit) :=
    spaced.dropWhile rfl
  rw [numberWidth, numberWidth, whole]
  generalize cs.dropWhile Char.isDigit = back, ds.dropWhile Char.isDigit = back' at behind
  cases behind with
  | nil => rfl
  | @cons c d rest rest' first later =>
      rcases first with rfl | ⟨rfl, rfl⟩
      · split
        · rename_i more same
          obtain ⟨rfl, rfl⟩ := List.cons.inj same
          simp only [SpacedText.takeWhile_eq (p := Char.isDigit) later rfl rfl]
        · rename_i noPoint
          split
          · rename_i more same
            obtain ⟨rfl, -⟩ := List.cons.inj same
            exact absurd rfl (noPoint rest')
          · rfl
      · rfl

/-- The characters that a number is read from are digits. -/
theorem digits_numberWidth (cs : List Char) :
    ∀ d ∈ cs.take (numberWidth cs).1 ++ (cs.drop ((numberWidth cs).1 + 1)).take (numberWidth cs).2,
      d.isDigit = true := by
  obtain ⟨whole, behind, rfl, digits, ends⟩ : ∃ whole behind, cs = whole ++ behind ∧
      (∀ d ∈ whole, d.isDigit = true) ∧ ∀ d ∈ behind.head?, d.isDigit = false :=
    ⟨_, _, List.takeWhile_append_dropWhile.symm, fun _ => List.mem_takeWhile_imp,
      head_dropWhile Char.isDigit cs⟩
  obtain ⟨taken, dropped⟩ := takeWhile_stretch behind digits ends
  rw [numberWidth, taken, dropped]
  split
  · rename_i rest
    have fraction : rest.take (rest.takeWhile Char.isDigit).length = rest.takeWhile Char.isDigit :=
      (List.prefix_iff_eq_take.mp (List.takeWhile_prefix _)).symm
    simp only [List.take_left, List.drop_length_add_append, List.drop_one, List.tail_cons, fraction]
    exact List.forall_mem_append.mpr ⟨digits, fun _ => List.mem_takeWhile_imp⟩
  · simpa only [List.take_left, List.take_zero, List.append_nil] using digits

theorem number_spaced {c : Char} {cs ds : List Char} (spaced : SpacedText cs ds) :
    number c ds = number c cs := by
  have both : SpacedText (c :: cs) (c :: ds) := .cons (.inl rfl) spaced
  have digits := digits_numberWidth (c :: cs)
  rw [number, number, numberWidth_spaced both]
  generalize numberWidth (c :: cs) = width at digits
  have noLineEnd : '\n' ∉ (c :: cs).take width.1 ++ ((c :: cs).drop (width.1 + 1)).take width.2 :=
    fun member => absurd (digits '\n' member) (by decide)
  have same : (c :: ds).take width.1 ++ ((c :: ds).drop (width.1 + 1)).take width.2 =
      (c :: cs).take width.1 ++ ((c :: cs).drop (width.1 + 1)).take width.2 :=
    SpacedText.eq_of_notMem (List.rel_append (List.forall₂_take width.1 both)
      (List.forall₂_take width.2 (List.forall₂_drop (width.1 + 1) both))) noLineEnd
  simp only [same]

theorem mark?_spaced {c : Char} {cs ds : List Char} (spaced : SpacedText cs ds) :
    mark? c ds = mark? c cs := by
  cases spaced with
  | nil => rfl
  | cons first _ =>
      rcases first with rfl | ⟨rfl, rfl⟩
      · rfl
      · unfold mark?
        simp

/-- No line end shows in a token that is written so: there is none in a string, and none in the
name of an attribute, which has no blanks at its ends. -/
def TokenKind.Unbroken (written : List Char) : TokenKind → Prop
  | .literal (.string _) => '\n' ∉ written
  | .field name => '\n' ∉ name.toList
  | _ => True

theorem lexeme?_brace_spaced {cs ds : List Char} (spaced : SpacedText cs ds)
    (unbroken : ∀ name width, lexeme? '\x7b' cs = some (.field name, width) → '\n' ∉ name.toList) :
    lexeme? '\x7b' ds = lexeme? '\x7b' cs := by
  have name : SpacedText (cs.takeWhile (· ≠ '\x7d')) (ds.takeWhile (· ≠ '\x7d')) :=
    spaced.takeWhile rfl
  rw [lexeme?_brace, lexeme?_brace, ← name.length_eq, ← spaced.length_eq]
  split
  · rename_i closed
    have clear := unbroken _ _ ((lexeme?_brace cs).trans (if_pos closed))
    rw [Text.trim, String.toList_ofList, String.toList_ofList] at clear
    rw [Text.trim, Text.trim, String.toList_ofList, String.toList_ofList,
      name.trimChars.eq_of_notMem clear]
  · rfl

/-- A token that no line end shows in is read as before, and where there is no token there is none
afterwards. -/
theorem lexeme?_spaced {c : Char} {cs ds : List Char} (spaced : SpacedText cs ds)
    (unbroken : ∀ kind width, lexeme? c cs = some (kind, width) → kind.Unbroken (cs.take width)) :
    lexeme? c ds = lexeme? c cs := by
  by_cases brace : c = '\x7b'
  · subst brace
    exact lexeme?_brace_spaced spaced fun name width => unbroken (.field name) width
  by_cases isQuote : c = '\'' ∨ c = '"'
  · have noBlank : c ≠ '\n' ∧ c ≠ ' ' := by
      rcases isQuote with rfl | rfl
      · decide
      · decide
    rw [lexeme?_quote isQuote, lexeme?_quote isQuote, quoted?_spaced noBlank spaced]
    intro body width read
    refine unbroken (.literal (.string (String.ofList body))) width ?_
    rw [lexeme?_quote isQuote, read]
    rfl
  have word : ds.takeWhile isWordPart = cs.takeWhile isWordPart := spaced.takeWhile_eq rfl rfl
  simp only [lexeme?, if_neg brace, if_neg isQuote, number_spaced spaced, word, mark?_spaced spaced]

/-- No line end shows in a token of the text, up to where the text is at fault. -/
inductive Unbroken : List Char → Prop where
  | done : Unbroken []
  | blank {c : Char} {cs : List Char} (isSpace : isSpace c = true) (more : Unbroken cs) :
      Unbroken (c :: cs)
  | token {c : Char} {cs : List Char} {kind : TokenKind} {width : Nat} (visible : isSpace c = false)
      (found : lexeme? c cs = some (kind, width)) (clear : kind.Unbroken (cs.take width))
      (more : Unbroken (cs.drop width)) : Unbroken (c :: cs)
  | fault {c : Char} {cs : List Char} (visible : isSpace c = false)
      (nothing : lexeme? c cs = none) : Unbroken (c :: cs)

theorem Token.kinds_map_cons (t : Token) (scanned : Except LexError (List Token)) :
    kinds (scanned.map (t :: ·)) = (kinds scanned).map (t.kind :: ·) := by
  cases scanned with
  | error e => rfl
  | ok tokens => rfl

theorem LexError.unplaced_atCharacter (here there : Position) (c : Char) :
    (atCharacter here c).unplaced = (atCharacter there c).unplaced := by
  unfold atCharacter
  simp only
  split
  · rfl
  · split
    · rfl
    · rfl

/-- Spaces in place of line ends change no token and no error but its place. -/
theorem kinds_scan_spaced {cs ds : List Char} (unbroken : Unbroken cs) (spaced : SpacedText cs ds)
    (here there : Position) :
    Token.kinds (Token.scan here ds) = Token.kinds (Token.scan there cs) := by
  induction unbroken generalizing ds here there with
  | done =>
      cases spaced
      rw [Token.scan, Token.scan]
      rfl
  | @blank c _ isSpace _ ih =>
      obtain ⟨d, ds, first, later, rfl⟩ := List.forall₂_cons_left_iff.mp spaced
      have isSpace' : Lexeme.isSpace d = true := (first.class_eq rfl).trans isSpace
      rw [Token.scan_blank isSpace, Token.scan_blank isSpace']
      exact ih later _ _
  | @token c _ kind width visible found clear _ ih =>
      obtain ⟨d, ds, first, later, rfl⟩ := List.forall₂_cons_left_iff.mp spaced
      obtain rfl := first.of_visible visible
      have found' : lexeme? d ds = some (kind, width) := by
        rw [lexeme?_spaced later, found]
        intro kind' width' read
        obtain ⟨rfl, rfl⟩ := Prod.mk.inj (Option.some.inj (found.symm.trans read))
        exact clear
      rw [Token.scan_lexeme visible found, Token.scan_lexeme visible found',
        Token.kinds_map_cons, Token.kinds_map_cons, ih (List.forall₂_drop width later)]
  | @fault c _ visible nothing =>
      obtain ⟨d, ds, first, later, rfl⟩ := List.forall₂_cons_left_iff.mp spaced
      obtain rfl := first.of_visible visible
      have nothing' : lexeme? d ds = none := by
        rw [lexeme?_spaced later, nothing]
        intro kind width read
        rw [nothing] at read
        cases read
      rw [Token.scan, Token.scan, nothing, nothing', visible]
      exact congrArg Except.error (LexError.unplaced_atCharacter here there d)

namespace NewlineMode

theorem spaced_replaceFirst (cs : List Char) : SpacedText cs (replaceFirst cs) := by
  induction cs with
  | nil => exact .nil
  | cons c cs ih =>
      rw [replaceFirst]
      split
      · rename_i lineEnd
        exact .cons (.inr ⟨lineEnd, rfl⟩) (SpacedText.refl cs)
      · exact .cons (.inl rfl) ih

theorem spaced_replaceAll (cs : List Char) : SpacedText cs (replaceAll cs) := by
  induction cs with
  | nil => exact .nil
  | cons c cs ih =>
      refine .cons ?_ ih
      simp only
      split
      · rename_i lineEnd
        exact .inr ⟨lineEnd, rfl⟩
      · exact .inl rfl

theorem spaced_normalize (newlines : NewlineMode) (s : String) :
    SpacedText s.toList (newlines.normalize s).toList := by
  cases newlines with
  | firstOnly =>
      rw [normalize, String.toList_ofList]
      exact spaced_replaceFirst _
  | all =>
      rw [normalize, String.toList_ofList]
      exact spaced_replaceAll _

end NewlineMode

namespace Expr

theorem reading_normalize {text : String} (unbroken : Unbroken text.toList)
    (newlines : NewlineMode) : reading (newlines.normalize text) = reading text :=
  reading_eq_of_kinds (kinds_scan_spaced unbroken (newlines.spaced_normalize text) _ _)

/-- If no line end shows in a token of the text, it means the same whichever line ends become spaces
before it is read. -/
theorem sameMeaning_of_unbroken {text : String} (unbroken : Unbroken text.toList) (mode : Mode)
    (subject : Record) :
    SameMeaning (evaluateText mode subject (NewlineMode.firstOnly.normalize text))
      (evaluateText mode subject (NewlineMode.all.normalize text)) := by
  apply sameMeaning_of_reading_eq
  rw [reading_normalize unbroken, reading_normalize unbroken]

/-- Line ends at both ends of the text, between its tokens and next to its braces. -/
theorem unbroken_comparison_means_the_same :
    Unbroken "\n\x7b\nowner \n\x7d\n= 'x'\n".toList ∧
      SameMeaning
        (evaluateText .filter Record.empty
          (NewlineMode.firstOnly.normalize "\n\x7b\nowner \n\x7d\n= 'x'\n"))
        (evaluateText .filter Record.empty
          (NewlineMode.all.normalize "\n\x7b\nowner \n\x7d\n= 'x'\n")) := by
  have unbroken : Unbroken "\n\x7b\nowner \n\x7d\n= 'x'\n".toList := by
    have chars : "\n\x7b\nowner \n\x7d\n= 'x'\n".toList = ['\n', '\x7b', '\n', 'o', 'w', 'n', 'e',
        'r', ' ', '\n', '\x7d', '\n', '=', ' ', '\'', 'x', '\'', '\n'] := by decide +kernel
    rw [chars]
    refine .blank rfl (@Unbroken.token _ _ (.field "owner") 9 rfl ?_ ?_ ?_)
    · with_unfolding_all rfl
    · change '\n' ∉ "owner".toList
      decide +kernel
    refine .blank rfl (@Unbroken.token _ _ (.operator (.compare .equal)) 0 rfl ?_ trivial ?_)
    · with_unfolding_all rfl
    refine .blank rfl (@Unbroken.token _ _ (.literal (.string "x")) 2 rfl ?_ ?_ ?_)
    · with_unfolding_all rfl
    · change '\n' ∉ ['x', '\'']
      decide
    · exact .blank rfl .done
  exact ⟨unbroken, sameMeaning_of_unbroken unbroken .filter Record.empty⟩

/-- There is a line end in the name of an attribute, which is found unless that becomes a space. -/
theorem broken_name_tells_modes_apart :
    ('\'' ∉ "\n\x7ba\nb\x7d".toList ∧ '"' ∉ "\n\x7ba\nb\x7d".toList) ∧
      ¬SameMeaning
        (evaluateText .value ⟨[("a\nb", .bool true)]⟩
          (NewlineMode.firstOnly.normalize "\n\x7ba\nb\x7d"))
        (evaluateText .value ⟨[("a\nb", .bool true)]⟩
          (NewlineMode.all.normalize "\n\x7ba\nb\x7d")) := by
  have first : evaluateText .value ⟨[("a\nb", .bool true)]⟩
      (NewlineMode.firstOnly.normalize "\n\x7ba\nb\x7d") = .done (.ok (.bool true)) := by
    with_unfolding_all rfl
  have all : evaluateText .value ⟨[("a\nb", .bool true)]⟩
      (NewlineMode.all.normalize "\n\x7ba\nb\x7d") = .done (.ok .null) := by
    with_unfolding_all rfl
  refine ⟨by decide +kernel, ?_⟩
  rw [first, all]
  exact not_sameMeaning_of_values (by rintro ⟨⟩)

end Expr

end RecordExpr
