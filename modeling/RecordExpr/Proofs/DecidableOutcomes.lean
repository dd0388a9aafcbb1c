import RecordExpr.Settle.Settling

set_option autoImplicit false

namespace RecordExpr

mutual

/-- Whether two values are the same, part by part. `==` does not tell this, since the zeros are
equal to it and so are all NaNs. -/
def Value.decEq (v w : Value) : Decidable (v = w) :=
  if kinds : v.ctorIdx = w.ctorIdx then
    match v, w, kinds with
    | .null, .null, _ => isTrue rfl
    | .bool a, .bool b, _ => decidable_of_decidable_of_eq (Value.bool.injEq a b).symm
    | .number x, .number y, _ => decidable_of_decidable_of_eq (Value.number.injEq x y).symm
    | .string s, .string t, _ => decidable_of_decidable_of_eq (Value.string.injEq s t).symm
    | .array items, .array others, _ =>
      have := decEqItems items others
      decidable_of_decidable_of_eq (Value.array.injEq items others).symm
    | .record r, .record q, _ =>
      have := Record.decEq r q
      decidable_of_decidable_of_eq (Value.record.injEq r q).symm
    | .filter f, .filter g, _ =>
      have := Filter.decEq f g
      decidable_of_decidable_of_eq (Value.filter.injEq f g).symm
  else isFalse fun same => kinds (congrArg Value.ctorIdx same)

def Record.decEq : (r q : Record) → Decidable (r = q)
  | ⟨attributes⟩, ⟨others⟩ =>
    have := decEqAttributes attributes others
    decidable_of_decidable_of_eq (Record.mk.injEq attributes others).symm

def Filter.decEq (f g : Filter) : Decidable (f = g) :=
  if kinds : f.ctorIdx = g.ctorIdx then
    match f, g, kinds with
    | .compare m relation v, .compare n other w, _ =>
      have := Value.decEq v w
      decidable_of_decidable_of_eq (Filter.compare.injEq m relation v n other w).symm
    | .all parts, .all others, _ =>
      have := decEqParts parts others
      decidable_of_decidable_of_eq (Filter.all.injEq parts others).symm
    | .any parts, .any others, _ =>
      have := decEqParts parts others
      decidable_of_decidable_of_eq (Filter.any.injEq parts others).symm
    | .negation part, .negation other, _ =>
      have := Filter.decEq part other
      decidable_of_decidable_of_eq (Filter.negation.injEq part other).symm
  else isFalse fun same => kinds (congrArg Filter.ctorIdx same)

def decEqItems : (items others : List Value) → Decidable (items = others)
  | [], [] => isTrue rfl
  | [], _ :: _ => isFalse nofun
  | _ :: _, [] => isFalse nofun
  | v :: items, w :: others =>
    have := Value.decEq v w
    have := decEqItems items others
    decidable_of_decidable_of_eq (List.cons.injEq v items w others).symm

def decEqAttributes : (attributes others : List (String × Value)) → Decidable (attributes = others)
  | [], [] => isTrue rfl
  | [], _ :: _ => isFalse nofun
  | _ :: _, [] => isFalse nofun
  | (m, v) :: attributes, (n, w) :: others =>
    have := Value.decEq v w
    have : Decidable ((m, v) = (n, w)) := decidable_of_decidable_of_eq (Prod.mk.injEq m v n w).symm
    have := decEqAttributes attributes others
    decidable_of_decidable_of_eq (List.cons.injEq (m, v) attributes (n, w) others).symm

def decEqParts : (parts others : List Filter) → Decidable (parts = others)
  | [], [] => isTrue rfl
  | [], _ :: _ => isFalse nofun
  | _ :: _, [] => isFalse nofun
  | f :: parts, g :: others =>
    have := Filter.decEq f g
    have := decEqParts parts others
    decidable_of_decidable_of_eq (List.cons.injEq f parts g others).symm

end

instance : DecidableEq Value := Value.decEq

/-- Whether a dialogue has ended with this result. -/
instance {α : Type} [DecidableEq α] (d : Dialogue α) (result : α) : Decidable (d = .done result) :=
  match d with
  | .done other => decidable_of_decidable_of_eq (Dialogue.done.injEq other result).symm
  | .ask _ _ => isFalse nofun

deriving instance DecidableEq for Outcome, Round, Progress, Advance

end RecordExpr
