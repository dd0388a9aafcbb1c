import Mathlib.Data.String.Basic
import Mathlib.Order.Defs.LinearOrder
import RecordExpr.Text.Location

set_option autoImplicit false

namespace RecordExpr

open String (utf8Len)

namespace Position

/-- The place behind these characters of a text, which begins with them. -/
def behind (front : List Char) : Position := advance ⟨1, 1⟩ front

/-- Strictly earlier in a text. -/
def Before (p q : Position) : Prop := p.line < q.line ∨ p.line = q.line ∧ p.column < q.column

theorem behind_append (front cs : List Char) :
    behind (front ++ cs) = (behind front).advance cs := by
  rw [behind, behind, advance, advance, advance, List.foldl_append]

theorem behind_append_singleton (front : List Char) (c : Char) :
    behind (front ++ [c]) = (behind front).next c := by
  rw [behind_append]
  rfl

/-- Walking on leads to a later line, or further to the right. -/
theorem before_next (p : Position) (c : Char) : p.Before (p.next c) := by
  unfold Before next
  split
  · exact .inl (Nat.lt_succ_self _)
  · exact .inr ⟨rfl, Nat.lt_succ_self _⟩

theorem Before.trans {p q r : Position} (first : p.Before q) (second : q.Before r) :
    p.Before r := by
  unfold Before at *
  omega

theorem before_advance (p : Position) (c : Char) (cs : List Char) :
    p.Before (p.advance (c :: cs)) := by
  induction cs generalizing p c with
  | nil => exact p.before_next c
  | cons d cs ih => exact (p.before_next c).trans (ih (p.next c) d)

/-- The walk to a place ends where it was reached, and no earlier. -/
theorem bytesTo_advance (here : Position) (front back : List Char) :
    (here.advance front).bytesTo here (front ++ back) = utf8Len front := by
  induction front generalizing here with
  | nil =>
      cases back with
      | nil => rfl
      | cons c back =>
          show bytesTo here here (c :: back) = 0
          rw [bytesTo, if_pos ⟨Nat.le_refl _, Nat.le_refl _⟩]
  | cons c front ih =>
      have later := here.before_advance c front
      have unreached : ¬((here.advance (c :: front)).line ≤ here.line ∧
          (here.advance (c :: front)).column ≤ here.column) := by
        unfold Before at later
        omega
      rw [List.cons_append, bytesTo, if_neg unreached, String.utf8Len_cons, Nat.add_comm]
      congr 1
      exact ih (here.next c)

theorem offset_behind (front back : List Char) :
    (behind front).offset (front ++ back) = utf8Len front :=
  bytesTo_advance ⟨1, 1⟩ front back

theorem le_iff {p q : Position} :
    p.le q = true ↔ p.line < q.line ∨ p.line = q.line ∧ p.column ≤ q.column := by
  rw [le, Bool.or_eq_true, Bool.and_eq_true, decide_eq_true_iff, decide_eq_true_iff, beq_iff_eq]

/-- Places in the order of the text: `min` and `max` are those that merge ranges. -/
instance : LinearOrder Position where
  le p q := p.le q = true
  lt p q := p.Before q
  le_refl p := le_iff.mpr (.inr ⟨rfl, Nat.le_refl _⟩)
  le_trans p q r first second := by
    rw [le_iff] at *
    omega
  le_antisymm p q first second := by
    rw [le_iff] at first second
    have line : p.line = q.line := by omega
    have column : p.column = q.column := by omega
    cases p
    cases q
    rw [mk.injEq]
    exact ⟨line, column⟩
  le_total p q := by
    rw [le_iff, le_iff]
    omega
  lt_iff_le_not_ge p q := by
    rw [le_iff, le_iff, Before]
    omega
  toDecidableLE p q := inferInstanceAs (Decidable (p.le q = true))
  min := Position.min
  max := Position.max
  min_def _ _ := rfl
  max_def _ _ := rfl

end Position

/-- The range of what stands between `front` and what follows. -/
theorem Range.span_behind (front part back : List Char) :
    Range.span ⟨.behind front, .behind (front ++ part)⟩ (front ++ part ++ back) =
      (utf8Len front, max (utf8Len part) 1) := by
  have stop := Position.offset_behind (front ++ part) back
  have start := Position.offset_behind front (part ++ back)
  rw [← List.append_assoc] at start
  simp only [Range.span, start, stop, String.utf8Len_append, Nat.add_sub_cancel_left]

/-- The end of what a text begins with is a boundary between its characters. -/
theorem isValid_utf8Len {text : String} {front back : List Char}
    (split : text.toList = front ++ back) : String.Pos.Raw.IsValid text ⟨utf8Len front⟩ := by
  rw [String.Pos.Raw.isValid_iff_exists_append]
  refine ⟨String.ofList front, String.ofList back, ?_, ?_⟩
  · rw [← String.ofList_append, ← split, String.ofList_toList]
  · rw [String.rawEndPos_ofList]

theorem utf8Len_pos {part : List Char} (filled : part ≠ []) : 0 < utf8Len part := by
  apply Nat.pos_of_ne_zero
  exact fun none => filled (String.utf8Len_eq_zero.mp none)

end RecordExpr
