import RecordExpr.Fault
import RecordExpr.Proofs.Lexemes

set_option autoImplicit false

namespace RecordExpr

open Lexeme

/-- Each quote inside is read with its escape as one character. If nothing else is escaped, nothing
reads as a backslash. -/
theorem Written.count_quotes {body text : List Char} (written : Written '\'' body text) :
    body.length + text.count '\'' ≤ text.length ∧
      (body.length + text.count '\'' = text.length → '\\' ∉ body) := by
  induction written with
  | nothing => exact ⟨Nat.le_refl 0, fun _ => List.not_mem_nil⟩
  | @plain c body text other noEscape _ ih =>
      obtain ⟨room, none⟩ := ih
      rw [List.count_cons_of_ne other, List.length_cons, List.length_cons]
      refine ⟨by omega, ?_⟩
      intro full
      exact List.not_mem_cons_of_ne_of_not_mem noEscape.symm (none (by omega))
  | @escaped c d body text _ reads _ ih =>
      obtain ⟨room, none⟩ := ih
      rw [List.count_cons_of_ne (by decide), List.length_cons, List.length_cons, List.length_cons]
      by_cases quote : c = '\''
      · subst quote
        cases reads
        rw [List.count_cons_self]
        refine ⟨by omega, ?_⟩
        intro full
        exact List.not_mem_cons_of_ne_of_not_mem (by decide) (none (by omega))
      · rw [List.count_cons_of_ne quote]
        refine ⟨by omega, ?_⟩
        intro full
        omega

/-- Printing adds one character for each quote, and no quotes. -/
theorem length_escaped (cs : List Char) :
    cs.length + (cs.flatMap escape).count '\'' = (cs.flatMap escape).length := by
  induction cs with
  | nil => rfl
  | cons c cs ih =>
      rw [List.flatMap_cons, List.count_append, List.length_append, List.length_cons, ← ih, escape]
      by_cases quote : c = '\''
      · subst quote
        rw [if_pos rfl]
        simp
        omega
      · rw [if_neg quote, List.count_cons_of_ne quote]
        simp
        omega

/-- A text without tokens is blank. -/
theorem Lexes.blank_of_nil {cs : List Char} (lexes : Lexes cs [] []) :
    ∀ c ∈ cs, isSpace c = true := by
  generalize nothing : ([] : List TokenKind) = kinds at lexes
  generalize ended : ([] : List Char) = rest at lexes
  induction lexes with
  | done =>
      subst ended
      exact nofun
  | blank isSpace _ ih => exact List.forall_mem_cons.mpr ⟨isSpace, ih nothing ended⟩
  | token => cases nothing

namespace Literal

/-- The text is read as one string literal, which holds this string. -/
def ReadsAs (text s : String) : Prop :=
  ∃ tokens, Expr.tokenize text = .ok tokens ∧
    tokens.map Token.kind = [.literal (.string s), .endOfText]

theorem toList_quote (s : String) :
    (quote s).toList = '\'' :: (s.toList.flatMap escape ++ ['\'']) := by
  rw [quote, String.toList_ofList]
  rfl

theorem lexes_of_readsAs {text s : String} (reads : ReadsAs text s) :
    Lexes text.toList [.literal (.string s)] [] := by
  obtain ⟨tokens, read, kinds⟩ := reads
  obtain ⟨found, lexes, all⟩ := Token.lexes_of_scan (Expr.tokenize_eq_ok.mp read)
  have same : found = [.literal (.string s)] := List.append_cancel_right (all.symm.trans kinds)
  rwa [← same]

/-- What is read as a string in single quotes is its text between them. -/
theorem written_of_lexes {cs : List Char} {s : String}
    (lexes : Lexes ('\'' :: (cs ++ ['\''])) [.literal (.string s)] []) :
    Written '\'' s.toList cs := by
  cases lexes with
  | blank isSpace _ => cases isSpace
  | @token _ _ _ _ width _ _ found more =>
      rw [lexeme?_quote (.inl rfl)] at found
      obtain ⟨⟨body, reach⟩, read, same⟩ := Option.map_eq_some_iff.mp found
      cases same
      rw [String.toList_ofList]
      obtain ⟨inside, behind, split, rfl, written⟩ := written_of_quoted? read
      rcases List.eq_nil_or_concat behind with rfl | ⟨blanks, last, rfl⟩
      · rwa [List.append_cancel_right split]
      · -- the text ends with its last quote, so nothing but that quote can stand at its end
        rw [List.concat_eq_append] at split
        have pieces : cs ++ ['\''] = (inside ++ '\'' :: blanks) ++ [last] := by
          rw [split, List.append_assoc, List.cons_append]
        obtain ⟨-, ends⟩ := List.append_inj' pieces rfl
        cases ends
        rw [split, List.drop_length_add_append] at more
        have blank := more.blank_of_nil '\'' (List.mem_append_right _ (List.mem_singleton.mpr rfl))
        cases blank

/-- A printed string literal is read back as this string exactly if there is no backslash in it. -/
theorem reads_back_iff (s : String) : ReadsAs (text (.string s)) s ↔ '\\' ∉ s.toList := by
  constructor
  · intro reads
    have lexes := lexes_of_readsAs reads
    rw [text, toList_quote] at lexes
    have written := written_of_lexes lexes
    exact written.count_quotes.2 (length_escaped s.toList)
  · intro plain
    have lexes := lexes_string plain []
    rw [List.append_nil] at lexes
    obtain ⟨tokens, scanned, kinds⟩ := Token.scan_of_lexes lexes ⟨1, 1⟩
    exact ⟨tokens, Expr.tokenize_eq_ok.mpr scanned, kinds⟩

/-- A backslash alone is printed as what begins a string and does not end it. -/
theorem backslash_not_read_back :
    Expr.tokenize (text (.string "\\")) =
        .error ⟨.lex (.unterminatedString ⟨⟨1, 1⟩, ⟨1, 2⟩⟩), "'\\'"⟩ ∧
      ¬ReadsAs (text (.string "\\")) "\\" := by
  have failed : Expr.tokenize (text (.string "\\")) =
      .error ⟨.lex (.unterminatedString ⟨⟨1, 1⟩, ⟨1, 2⟩⟩), "'\\'"⟩ := by
    decide +kernel
  refine ⟨failed, ?_⟩
  rintro ⟨tokens, read, -⟩
  rw [failed] at read
  cases read

end Literal

end RecordExpr
