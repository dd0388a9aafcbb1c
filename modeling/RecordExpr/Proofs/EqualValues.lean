import Mathlib.Data.String.Basic
import RecordExpr.Fetch.Cache
import RecordExpr.Proofs.NumberText
import RecordExpr.Value.Filter

set_option autoImplicit false

namespace RecordExpr

namespace Number

variable {x y : Number}

/-- Numbers are equal if they are the same, or both are zeros, or both are NaNs. -/
theorem cases_of_beq (equal : (x == y) = true) :
    x = y ∨ (x.isZero = true ∧ y.isZero = true) ∨ (x.isNaN = true ∧ y.isNaN = true) := by
  have ranks := (beq_iff_rank_eq x y).mp equal
  cases nan : x.isNaN with
  | true =>
      cases nan' : y.isNaN with
      | true => exact .inr (.inr ⟨rfl, rfl⟩)
      | false => exact absurd (rank_of_isNaN nan ▸ ranks) (rank_lt_of_number nan').ne'
  | false =>
      cases nan' : y.isNaN with
      | true => exact absurd (rank_of_isNaN nan' ▸ ranks) (rank_lt_of_number nan).ne
      | false =>
          rw [rank_of_number nan, rank_of_number nan'] at ranks
          have sizes : x.magnitude = y.magnitude ∧
              (x.isNegative = y.isNegative ∨ x.magnitude = 0) := by
            grind
          rcases sizes.2 with signs | none
          · left
            rw [← ofMagnitude_magnitude x, signs, sizes.1, ofMagnitude_magnitude y]
          · right
            left
            rw [isZero_iff, isZero_iff]
            exact ⟨none, sizes.1 ▸ none⟩

theorem isNaN_of_isZero (zero : x.isZero = true) : x.isNaN = false := by
  rw [isNaN, (isZero_iff x).mp zero]
  rfl

/-- A zero is the integer 0, of whichever sign it is. -/
theorem toJson_of_isZero (zero : x.isZero = true) : x.toJson = .integer 0 := by
  have none : x.magnitude = 0 := (isZero_iff x).mp zero
  have mantissa : x.mantissa = 0 := by
    rw [Number.mantissa, none]
    rfl
  have exponent : x.exponent = -1074 := by
    rw [Number.exponent, none]
    rfl
  have whole : x.wholePart = 0 := by
    rw [wholePart, exponent, mantissa]
    exact Nat.zero_div _
  have truncated : x.truncate = 0 := by
    rw [truncate, whole]
    split
    · rfl
    · rfl
  have integral : x.isIntegral = true := by
    rw [isIntegral, isFinite, none, mantissa, exponent, Nat.zero_mod]
    rfl
  have integer : x.integer? = some 0 := by
    rw [integer?, integral, truncated]
    rfl
  rw [toJson, integer]

theorem toJson_of_isNaN (nan : x.isNaN = true) : x.toJson = .null := by
  have large := (isNaN_iff x).mp nan
  have infinite : x.isFinite = false := decide_eq_false (Nat.lt_asymm large)
  have noInteger : x.integer? = none := by
    rw [integer?, isIntegral, infinite]
    rfl
  rw [toJson, noInteger, infinite]
  rfl

theorem text_eq_of_beq (equal : (x == y) = true) : x.text = y.text := by
  rcases cases_of_beq equal with rfl | ⟨zero, zero'⟩ | ⟨nan, nan'⟩
  · rfl
  · simp only [text, isNaN_of_isZero zero, isNaN_of_isZero zero', zero, zero', if_true]
  · simp only [text, nan, nan', if_true]

theorem toJson_eq_of_beq (equal : (x == y) = true) : x.toJson = y.toJson := by
  rcases cases_of_beq equal with rfl | ⟨zero, zero'⟩ | ⟨nan, nan'⟩
  · rfl
  · rw [toJson_of_isZero zero, toJson_of_isZero zero']
  · rw [toJson_of_isNaN nan, toJson_of_isNaN nan']

theorem isTruthy_eq_of_beq (equal : (x == y) = true) : x.isTruthy = y.isTruthy := by
  rcases cases_of_beq equal with rfl | ⟨zero, zero'⟩ | ⟨nan, nan'⟩
  · rfl
  · simp only [isTruthy, zero, zero', Bool.not_true, Bool.false_and]
  · simp only [isTruthy, nan, nan', Bool.not_true, Bool.and_false]

theorem compare_left_of_beq (equal : (x == y) = true) (z : Number) : compare x z = compare y z := by
  rw [compare_eq, compare_eq, (beq_iff_rank_eq x y).mp equal]

theorem compare_right_of_beq (equal : (x == y) = true) (z : Number) :
    compare z x = compare z y := by
  rw [compare_eq, compare_eq, (beq_iff_rank_eq x y).mp equal]

end Number

/-- Equal values are the same, or they are numbers, arrays, records or filters that are equal. -/
theorem Value.same_cases {a b : Value} (same : a.same b = true) :
    a = b ∨ (∃ x y, a = .number x ∧ b = .number y ∧ (x == y) = true) ∨
      (∃ as bs, a = .array as ∧ b = .array bs ∧ itemsSame as bs = true) ∨
      (∃ r q, a = .record r ∧ b = .record q ∧ r.same q = true) ∨
      ∃ f g, a = .filter f ∧ b = .filter g ∧ f.same g = true := by
  cases a <;> cases b <;> simp_all [Value.same]

/-- Equal filters are built alike. -/
theorem Filter.same_cases {a b : Filter} (same : a.same b = true) :
    (∃ name relation v w, a = .compare name relation v ∧ b = .compare name relation w ∧
        v.same w = true) ∨
      (∃ as bs, a = .all as ∧ b = .all bs ∧ partsSame as bs = true) ∨
      (∃ as bs, a = .any as ∧ b = .any bs ∧ partsSame as bs = true) ∨
      ∃ f g, a = .negation f ∧ b = .negation g ∧ f.same g = true := by
  cases a <;> cases b <;> simp_all [Filter.same]

theorem itemsSame_cases {as bs : List Value} (same : itemsSame as bs = true) :
    as = [] ∧ bs = [] ∨ ∃ a more b others, as = a :: more ∧ bs = b :: others ∧
      a.same b = true ∧ itemsSame more others = true := by
  cases as <;> cases bs <;> simp_all [itemsSame]

theorem partsSame_cases {as bs : List Filter} (same : partsSame as bs = true) :
    as = [] ∧ bs = [] ∨ ∃ a more b others, as = a :: more ∧ bs = b :: others ∧
      a.same b = true ∧ partsSame more others = true := by
  cases as <;> cases bs <;> simp_all [partsSame]

theorem attributesSame_cases {as bs : List (String × Value)} (same : attributesSame as bs = true) :
    as = [] ∧ bs = [] ∨ ∃ name a more b others, as = (name, a) :: more ∧
      bs = (name, b) :: others ∧ a.same b = true ∧ attributesSame more others = true := by
  rcases as with _ | ⟨⟨_, _⟩, _⟩ <;> rcases bs with _ | ⟨⟨_, _⟩, _⟩ <;> simp_all [attributesSame]

mutual

theorem Value.texts_of_same {a b : Value} (same : a.same b = true) :
    a.text = b.text ∧ a.display = b.display ∧ a.toJson = b.toJson := by
  rcases Value.same_cases same with rfl | ⟨x, y, rfl, rfl, equal⟩ | ⟨as, bs, rfl, rfl, items⟩ |
    ⟨r, q, rfl, rfl, records⟩ | ⟨f, g, rfl, rfl, filters⟩
  · exact ⟨rfl, rfl, rfl⟩
  · have texts := Number.text_eq_of_beq equal
    have documents := Number.toJson_eq_of_beq equal
    simp only [Value.text, Value.display, Value.toJson, texts, documents, and_self]
  · obtain ⟨texts, displays, documents⟩ := items_of_same items
    simp only [Value.text, Value.display, Value.toJson, texts, displays, documents, and_self]
  · have documents := Record.toJson_of_same records
    simp only [Value.text, Value.display, Value.toJson, documents, and_self]
  · obtain ⟨texts, documents⟩ := Filter.texts_of_same filters
    simp only [Value.text, Value.display, Value.toJson, texts, documents, and_self]
termination_by sizeOf a

theorem Record.toJson_of_same {a b : Record} (same : a.same b = true) : a.toJson = b.toJson := by
  cases a with
  | mk attributes =>
      cases b with
      | mk others =>
          rw [Record.same] at same
          rw [Record.toJson, Record.toJson, attributes_of_same same]
termination_by sizeOf a

theorem Filter.texts_of_same {a b : Filter} (same : a.same b = true) :
    a.text = b.text ∧ a.toJson = b.toJson := by
  rcases Filter.same_cases same with ⟨name, relation, v, w, rfl, rfl, values⟩ |
    ⟨as, bs, rfl, rfl, parts⟩ | ⟨as, bs, rfl, rfl, parts⟩ | ⟨f, g, rfl, rfl, filters⟩
  · obtain ⟨-, displays, documents⟩ := Value.texts_of_same values
    simp only [Filter.text, Filter.toJson, displays, documents, and_self]
  · obtain ⟨texts, documents⟩ := parts_of_same parts
    simp only [Filter.text, Filter.toJson, texts, documents, and_self]
  · obtain ⟨texts, documents⟩ := parts_of_same parts
    simp only [Filter.text, Filter.toJson, texts, documents, and_self]
  · obtain ⟨texts, documents⟩ := Filter.texts_of_same filters
    simp only [Filter.text, Filter.toJson, texts, documents, and_self]
termination_by sizeOf a

theorem items_of_same {as bs : List Value} (same : itemsSame as bs = true) :
    itemTexts as = itemTexts bs ∧ itemDisplays as = itemDisplays bs ∧
      itemsToJson as = itemsToJson bs := by
  rcases itemsSame_cases same with ⟨rfl, rfl⟩ | ⟨a, more, b, others, rfl, rfl, first, rest⟩
  · exact ⟨rfl, rfl, rfl⟩
  · obtain ⟨text, display, document⟩ := Value.texts_of_same first
    obtain ⟨texts, displays, documents⟩ := items_of_same rest
    simp only [itemTexts, itemDisplays, itemsToJson, text, display, document, texts, displays,
      documents, and_self]
termination_by sizeOf as

theorem attributes_of_same {as bs : List (String × Value)} (same : attributesSame as bs = true) :
    attributesToJson as = attributesToJson bs := by
  rcases attributesSame_cases same with ⟨rfl, rfl⟩ |
    ⟨name, a, more, b, others, rfl, rfl, first, rest⟩
  · rfl
  · obtain ⟨-, -, document⟩ := Value.texts_of_same first
    rw [attributesToJson, attributesToJson, document, attributes_of_same rest]
termination_by sizeOf as

theorem parts_of_same {as bs : List Filter} (same : partsSame as bs = true) :
    partTexts as = partTexts bs ∧ partsToJson as = partsToJson bs := by
  rcases partsSame_cases same with ⟨rfl, rfl⟩ | ⟨a, more, b, others, rfl, rfl, first, rest⟩
  · exact ⟨rfl, rfl⟩
  · obtain ⟨text, document⟩ := Filter.texts_of_same first
    obtain ⟨texts, documents⟩ := parts_of_same rest
    simp only [partTexts, partsToJson, text, document, texts, documents, and_self]
termination_by sizeOf as

end

namespace Value

variable {a b : Value}

theorem compare?_left_of_same (same : a.same b = true) (c : Value) :
    a.compare? c = b.compare? c := by
  rcases same_cases same with rfl | ⟨x, y, rfl, rfl, equal⟩ | ⟨as, bs, rfl, rfl, -⟩ |
    ⟨r, q, rfl, rfl, -⟩ | ⟨f, g, rfl, rfl, -⟩
  · rfl
  · cases c with
    | number z => rw [compare?, compare?, Number.compare_left_of_beq equal]
    | string s => simp only [compare?, Number.compare_left_of_beq equal]
    | _ => rfl
  all_goals cases c with
    | _ => rfl

theorem compare?_right_of_same (same : a.same b = true) (c : Value) :
    c.compare? a = c.compare? b := by
  rcases same_cases same with rfl | ⟨x, y, rfl, rfl, equal⟩ | ⟨as, bs, rfl, rfl, -⟩ |
    ⟨r, q, rfl, rfl, -⟩ | ⟨f, g, rfl, rfl, -⟩
  · rfl
  · cases c with
    | number z => rw [compare?, compare?, Number.compare_right_of_beq equal]
    | string s => simp only [compare?, Number.compare_right_of_beq equal]
    | _ => rfl
  all_goals cases c with
    | _ => rfl

theorem likeText_right_of_same (same : a.same b = true) (c : Value) :
    c.likeText a = c.likeText b := by
  rcases same_cases same with rfl | ⟨x, y, rfl, rfl, -⟩ | ⟨as, bs, rfl, rfl, -⟩ |
    ⟨r, q, rfl, rfl, -⟩ | ⟨f, g, rfl, rfl, -⟩
  · rfl
  all_goals cases c with
    | _ => rfl

theorem isTruthy_of_same (same : a.same b = true) : a.isTruthy = b.isTruthy := by
  rcases same_cases same with rfl | ⟨x, y, rfl, rfl, equal⟩ | ⟨as, bs, rfl, rfl, items⟩ |
    ⟨r, q, rfl, rfl, -⟩ | ⟨f, g, rfl, rfl, -⟩
  · rfl
  · exact Number.isTruthy_eq_of_beq equal
  · rcases itemsSame_cases items with ⟨rfl, rfl⟩ | ⟨_, _, _, _, rfl, rfl, -, -⟩
    · rfl
    · rfl
  · rfl
  · rfl

end Value

theorem Comparison.holds_right_of_same (relation : Comparison) {a b : Value}
    (same : a.same b = true) (c : Value) : relation.holds c a = relation.holds c b := by
  cases relation with
  | like => exact Value.likeText_right_of_same same c
  | _ => simp only [holds, Value.compare?_right_of_same same]

namespace ByName

variable {as bs : List (String × Value)}

theorem lookup_of_above {α : Type} {name : String} {entries : List (String × α)}
    (above : ∀ entry ∈ entries, name < entry.1) : entries.lookup name = none := by
  rw [List.lookup_eq_none_iff]
  intro entry member
  exact bne_iff_ne.mpr (ne_of_lt (above entry member))

theorem lookup_beq_of_same (same : attributesSame as bs = true) (name : String) :
    (as.lookup name == bs.lookup name) = true := by
  induction as generalizing bs with
  | nil =>
      rcases attributesSame_cases same with ⟨-, rfl⟩ | ⟨_, _, _, _, _, impossible, -⟩
      · rfl
      · cases impossible
  | cons first rest ih =>
      rcases attributesSame_cases same with ⟨impossible, -⟩ | ⟨n, a, _, b, _, ⟨⟩, rfl, equal, more⟩
      · cases impossible
      · rw [List.lookup_cons, List.lookup_cons]
        cases name == n with
        | true => exact equal
        | false => exact ih more

/-- The names decide where entries stand, so lists in which equal values are found are equal. -/
theorem same_of_lookup_beq (ordered : Ordered as) (ordered' : Ordered bs)
    (found : ∀ name, (as.lookup name == bs.lookup name) = true) : attributesSame as bs = true := by
  induction as generalizing bs with
  | nil =>
      cases bs with
      | nil => rw [attributesSame]
      | cons entry bs =>
          have here := found entry.1
          rw [List.lookup_cons_self] at here
          cases here
  | cons entry as ih =>
      obtain ⟨n, a⟩ := entry
      obtain ⟨above, orderedRest⟩ := List.pairwise_cons.mp ordered
      have here := found n
      rw [List.lookup_cons_self] at here
      cases bs with
      | nil => cases here
      | cons other bs =>
          obtain ⟨m, b⟩ := other
          obtain ⟨above', orderedRest'⟩ := List.pairwise_cons.mp ordered'
          have there := found m
          rw [List.lookup_cons_self] at there
          have names : n = m := by
            rcases lt_trichotomy n m with before | same | behind
            · have missing : ((m, b) :: bs).lookup n = none := lookup_of_above
                (List.forall_mem_cons.mpr ⟨before, fun e later => before.trans (above' e later)⟩)
              rw [missing] at here
              cases here
            · exact same
            · have missing : ((n, a) :: as).lookup m = none := lookup_of_above
                (List.forall_mem_cons.mpr ⟨behind, fun e later => behind.trans (above e later)⟩)
              rw [missing] at there
              cases there
          subst names
          rw [List.lookup_cons_self] at here
          have rest : ∀ name, (as.lookup name == bs.lookup name) = true := by
            intro name
            by_cases first : name = n
            · subst first
              rw [lookup_of_above above, lookup_of_above above']
              rfl
            · have later := found name
              rwa [List.lookup_cons, List.lookup_cons, beq_eq_false_iff_ne.mpr first] at later
          have equal : a.same b = true := here
          rw [attributesSame, equal, beq_self_eq_true, ih orderedRest orderedRest' rest]
          rfl

end ByName

/-- Records are equal if what was put last under each name is, in whichever order. -/
theorem Record.ofList_beq_iff (as bs : List (String × Value)) :
    (Record.ofList as == Record.ofList bs) = true ↔
      ∀ name, (as.reverse.lookup name == bs.reverse.lookup name) = true := by
  have lists : (Record.ofList as == Record.ofList bs) =
      attributesSame (ByName.ofList as) (ByName.ofList bs) := by
    change Record.same ⟨_⟩ ⟨_⟩ = _
    rw [Record.same]
  rw [lists]
  constructor
  · intro same name
    have found := ByName.lookup_beq_of_same same name
    rwa [ByName.lookup_ofList, ByName.lookup_ofList] at found
  · intro found
    apply ByName.same_of_lookup_beq (ByName.ordered_ofList as) (ByName.ordered_ofList bs)
    intro name
    rw [ByName.lookup_ofList, ByName.lookup_ofList]
    exact found name

/-- Both values lead to the same, whatever is done with them. -/
structure Value.Indistinguishable (a b : Value) : Prop where
  key : ∀ dataset attributeName, LookupKey.ofReference ⟨dataset, attributeName, a⟩ =
    LookupKey.ofReference ⟨dataset, attributeName, b⟩
  text : a.text = b.text
  display : a.display = b.display
  toJson : a.toJson = b.toJson
  isTruthy : a.isTruthy = b.isTruthy
  compareLeft : ∀ c, a.compare? c = b.compare? c
  compareRight : ∀ c : Value, c.compare? a = c.compare? b
  /-- A filter asks for the one as for the other. -/
  filter : ∀ name relation r, (Filter.compare name relation a).accepts r =
    (Filter.compare name relation b).accepts r

theorem Value.indistinguishable_of_beq {a b : Value} (equal : (a == b) = true) :
    a.Indistinguishable b := by
  have same : a.same b = true := equal
  obtain ⟨texts, displays, documents⟩ := texts_of_same same
  refine ⟨?_, texts, displays, documents, isTruthy_of_same same, compare?_left_of_same same,
    compare?_right_of_same same, ?_⟩
  · intro dataset attributeName
    rw [LookupKey.ofReference, LookupKey.ofReference, texts]
  · intro name relation r
    have holds : ∀ v, relation.holds v a = relation.holds v b :=
      relation.holds_right_of_same same
    simp only [Filter.accepts, holds]

/-- Equal values address one entry of the cache and are told apart by nothing else; records are
equal in whichever order their attributes came; and numbers share an entry only if they are
equal. -/
theorem equal_values_agree :
    (∀ a b : Value, (a == b) = true → a.Indistinguishable b) ∧
      (∀ as bs : List (String × Value), (Record.ofList as == Record.ofList bs) = true ↔
        ∀ name, (as.reverse.lookup name == bs.reverse.lookup name) = true) ∧
      ∀ (x y : Number) (dataset attributeName : String),
        LookupKey.ofReference ⟨dataset, attributeName, .number x⟩ =
          LookupKey.ofReference ⟨dataset, attributeName, .number y⟩ → (x == y) = true := by
  refine ⟨fun a b => Value.indistinguishable_of_beq, Record.ofList_beq_iff, ?_⟩
  intro x y dataset attributeName keys
  apply Number.beq_of_text_eq
  simpa only [LookupKey.ofReference, LookupKey.mk.injEq, true_and, Value.text] using keys

/-- A record with this zero and this NaN, the zero once more in a filter. -/
def gauge (zero nan : Number) : List (String × Value) :=
  [("low", .number zero),
    ("marks", .array [.number nan, .filter (.compare "x" .equal (.number zero))])]

def negativeZero : Number := ⟨0x8000000000000000⟩

def otherNaN : Number := ⟨0xFFF8000000000001⟩

/-- The other zero, another NaN and another order of the attributes make no difference. -/
theorem gauges_agree :
    (Record.ofList (gauge .zero .nan) ==
        Record.ofList (gauge negativeZero otherNaN).reverse) = true ∧
      (Value.record (Record.ofList (gauge negativeZero otherNaN).reverse)).text =
        "\x7b\"low\":0,\"marks\":[null,[\"x\",\"=\",0]]\x7d" ∧
      (Value.record (Record.ofList (gauge .zero .nan))).Indistinguishable
        (.record (Record.ofList (gauge negativeZero otherNaN).reverse)) ∧
      (Number.zero == negativeZero) = true := by
  obtain ⟨agree, -, numbers⟩ := equal_values_agree
  have same : (Record.ofList (gauge .zero .nan) ==
      Record.ofList (gauge negativeZero otherNaN).reverse) = true := by
    decide +kernel
  have values : (Value.record (Record.ofList (gauge .zero .nan)) ==
      Value.record (Record.ofList (gauge negativeZero otherNaN).reverse)) = true := by
    change Value.same _ _ = true
    rw [Value.same]
    exact same
  refine ⟨same, ?_, agree _ _ values, ?_⟩
  · decide +kernel
  · apply numbers _ _ "gauges" "low"
    decide +kernel

end RecordExpr
