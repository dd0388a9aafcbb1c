import RecordExpr.Eval.Basic

set_option autoImplicit false

namespace RecordExpr

namespace Expr

mutual

/-- The tree and all trees below it, each before those below itself. -/
def nodes : Expr → List Expr
  | literal t l => [literal t l]
  | field t name => [field t name]
  | member t target name => member t target name :: target.nodes
  | call t name args => call t name args :: nodesAll args
  | unary t op operand => unary t op operand :: operand.nodes
  | binary t op lhs rhs => binary t op lhs rhs :: (lhs.nodes ++ rhs.nodes)

/-- The nodes of several trees, one after the other. -/
def nodesAll : List Expr → List Expr
  | [] => []
  | e :: rest => e.nodes ++ nodesAll rest

end

theorem nodesAll_eq (es : List Expr) : nodesAll es = es.flatMap nodes := by
  induction es with
  | nil => rfl
  | cons e rest ih => rw [nodesAll, ih, List.flatMap_cons]

theorem nodes_eq (e : Expr) : e.nodes = e :: e.children.flatMap nodes := by
  cases e with
  | literal t l => rfl
  | field t name => rfl
  | member t target name =>
      rw [nodes, children, List.flatMap_singleton]
  | call t name args => rw [nodes, children, nodesAll_eq]
  | unary t op operand => rw [nodes, children, List.flatMap_singleton]
  | binary t op lhs rhs =>
      rw [nodes, children, List.flatMap_cons, List.flatMap_singleton]

theorem mem_nodes_iff {d e : Expr} :
    d ∈ e.nodes ↔ d = e ∨ ∃ child ∈ e.children, d ∈ child.nodes := by
  rw [nodes_eq, List.mem_cons, List.mem_flatMap]

theorem mem_nodes_self (e : Expr) : e ∈ e.nodes := mem_nodes_iff.mpr (.inl rfl)

theorem mem_nodes_of_child {d child e : Expr} (below : child ∈ e.children)
    (inside : d ∈ child.nodes) : d ∈ e.nodes :=
  mem_nodes_iff.mpr (.inr ⟨child, below, inside⟩)

/-- All calls in the tree are so, by their token, name and arguments. -/
def EveryCall (P : Token → String → List Expr → Prop) (e : Expr) : Prop :=
  ∀ token name args, call token name args ∈ e.nodes → P token name args

variable {P : Token → String → List Expr → Prop}

theorem EveryCall.of_children {e : Expr} (here : ∀ token name args, e = call token name args →
    P token name args) (below : ∀ child ∈ e.children, child.EveryCall P) : e.EveryCall P := by
  intro token name args member
  rcases mem_nodes_iff.mp member with same | ⟨child, isChild, inside⟩
  · exact here token name args same.symm
  · exact below child isChild token name args inside

/-- The tree is a call of `getFeature`, with whatever arguments. -/
def isLookup : Expr → Bool
  | call _ name _ => Callee.named? name == some .getFeature
  | _ => false

/-- The number of lookups in a tree. -/
def lookups (e : Expr) : Nat := e.nodes.countP isLookup

/-- The number of lookups in several trees together. -/
def lookupsAll (es : List Expr) : Nat := (nodesAll es).countP isLookup

theorem lookupsAll_cons (e : Expr) (rest : List Expr) :
    lookupsAll (e :: rest) = e.lookups + lookupsAll rest := by
  rw [lookupsAll, nodesAll, List.countP_append]
  rfl

theorem lookups_eq (e : Expr) :
    e.lookups = lookupsAll e.children + if e.isLookup then 1 else 0 := by
  rw [lookups, nodes_eq, List.countP_cons, lookupsAll, nodesAll_eq]

end Expr

end RecordExpr
