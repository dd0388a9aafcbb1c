set_option autoImplicit false

namespace RecordExpr.ByName

/-- The names ascend, so each stands once. -/
def Ordered {α : Type} (entries : List (String × α)) : Prop :=
  entries.Pairwise fun earlier later => earlier.1 < later.1

/-- Puts an entry at its place, replacing one of the same name. -/
def place {α : Type} (name : String) (value : α) : List (String × α) → List (String × α)
  | [] => [(name, value)]
  | (n, v) :: rest =>
    if name < n then (name, value) :: (n, v) :: rest
    else if n = name then (name, value) :: rest
    else (n, v) :: place name value rest

/-- The entries in the order of their names. -/
def ofList {α : Type} (entries : List (String × α)) : List (String × α) :=
  entries.foldl (fun placed (name, value) => place name value placed) []

theorem lookup_place {α : Type} (name other : String) (value : α) (entries : List (String × α)) :
    (place name value entries).lookup other =
      if other = name then some value else entries.lookup other := by
  induction entries with
  | nil =>
      by_cases h : other = name
      · simp [place, h]
      · simp [place, List.lookup_cons, h, beq_eq_false_iff_ne.mpr h]
  | cons first rest ih =>
      obtain ⟨n, v⟩ := first
      simp only [place]
      by_cases h : other = name
      · subst h
        split
        · simp
        · split
          · simp
          · rename_i hn
            have hne : (other == n) = false := beq_eq_false_iff_ne.mpr fun e => hn e.symm
            simpa [List.lookup_cons, hne] using ih
      · have hne : (other == name) = false := beq_eq_false_iff_ne.mpr h
        simp only [h, if_false] at ih ⊢
        split
        · simp [List.lookup_cons, hne]
        · split
          · rename_i hn
            subst hn
            simp [List.lookup_cons, hne]
          · simp only [List.lookup_cons, ih]

/-- The last entry of each name counts. -/
theorem lookup_ofList {α : Type} (entries : List (String × α)) (name : String) :
    (ofList entries).lookup name = entries.reverse.lookup name := by
  have grown : ∀ placed : List (String × α),
      (entries.foldl (fun placed (name, value) => place name value placed) placed).lookup name =
        (entries.reverse.lookup name).or (placed.lookup name) := by
    induction entries with
    | nil => exact fun _ => rfl
    | cons first rest ih =>
        intro placed
        obtain ⟨n, v⟩ := first
        rw [List.foldl_cons, ih, lookup_place, List.reverse_cons, List.lookup_append,
          Option.or_assoc]
        congr 1
        by_cases here : name = n
        · rw [if_pos here, List.lookup_cons, beq_iff_eq.mpr here]
          rfl
        · rw [if_neg here, List.lookup_cons, beq_eq_false_iff_ne.mpr here]
          rfl
  rw [ofList, grown, List.lookup_nil, Option.or_none]

theorem mem_place {α : Type} {name : String} {value : α} {entry : String × α}
    {entries : List (String × α)} (member : entry ∈ place name value entries) :
    entry = (name, value) ∨ entry ∈ entries := by
  induction entries with
  | nil => exact Or.inl (List.mem_singleton.mp member)
  | cons first rest ih =>
      obtain ⟨n, v⟩ := first
      simp only [place] at member
      split at member
      · exact List.mem_cons.mp member
      · split at member
        · exact (List.mem_cons.mp member).imp id (List.mem_cons_of_mem _)
        · rcases List.mem_cons.mp member with here | later
          · exact Or.inr (here ▸ List.mem_cons_self)
          · exact (ih later).imp id (List.mem_cons_of_mem _)

theorem ordered_place {α : Type} (name : String) (value : α) {entries : List (String × α)}
    (ordered : Ordered entries) : Ordered (place name value entries) := by
  induction entries with
  | nil => exact List.pairwise_singleton _ _
  | cons first rest ih =>
      obtain ⟨n, v⟩ := first
      obtain ⟨above, tail⟩ := List.pairwise_cons.mp ordered
      simp only [place]
      split
      · rename_i before
        refine List.pairwise_cons.mpr ⟨?_, ordered⟩
        intro entry member
        rcases List.mem_cons.mp member with rfl | later
        · exact before
        · exact String.lt_trans before (above entry later)
      · rename_i notBefore
        split
        · rename_i same
          subst same
          exact List.pairwise_cons.mpr ⟨above, tail⟩
        · rename_i differs
          refine List.pairwise_cons.mpr ⟨?_, ih tail⟩
          intro entry member
          rcases mem_place member with rfl | later
          · exact Std.lt_of_le_of_ne (String.not_lt.mp notBefore) differs
          · exact above entry later

theorem ordered_ofList {α : Type} (entries : List (String × α)) : Ordered (ofList entries) := by
  have grown : ∀ placed : List (String × α), Ordered placed →
      Ordered (entries.foldl (fun placed (name, value) => place name value placed) placed) := by
    induction entries with
    | nil => exact fun _ ordered => ordered
    | cons first rest ih => exact fun _ ordered => ih _ (ordered_place first.1 first.2 ordered)
  exact grown [] List.Pairwise.nil

end RecordExpr.ByName
