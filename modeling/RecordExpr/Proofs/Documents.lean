import Mathlib.Data.Nat.Cast.Field
import RecordExpr.Data
import RecordExpr.Proofs.EqualValues

set_option autoImplicit false

namespace RecordExpr

namespace Number

variable {x : Number}

theorem isFinite_of_isIntegral (integral : x.isIntegral = true) : x.isFinite = true :=
  (Bool.and_eq_true_iff.mp integral).1

/-- Nothing is cut off a number without fraction. -/
theorem wholePart_eq_size (integral : x.isIntegral = true) : (x.wholePart : ℚ) = x.size := by
  have fraction := (Bool.and_eq_true_iff.mp integral).2
  rw [Bool.or_eq_true, decide_eq_true_eq, beq_iff_eq] at fraction
  unfold wholePart size
  split
  · rename_i up
    generalize x.exponent = e at up
    lift e to ℕ using up
    simp
  · rename_i down
    have exact := Nat.dvd_of_mod_eq_zero (fraction.resolve_left down)
    obtain ⟨n, negated⟩ : ∃ n : ℕ, x.exponent = -n := ⟨(-x.exponent).toNat, by omega⟩
    rw [negated] at exact ⊢
    simp only [neg_neg, Int.toNat_natCast, Nat.pow_eq] at exact ⊢
    rw [Nat.cast_div exact (by positivity), zpow_neg, zpow_natCast, div_eq_mul_inv]
    norm_cast

theorem wholePart_pos (integral : x.isIntegral = true) (nonzero : x.isZero = false) :
    0 < x.wholePart := by
  have positive : (0 : ℚ) < x.size := by
    have := mantissa_pos nonzero
    unfold size
    positivity
  rw [← wholePart_eq_size integral] at positive
  exact_mod_cast positive

/-- Of a zero the sign is lost. -/
theorem ofInt_of_isZero (zero : x.isZero = true) : (ofInt 0 == x) = true := by
  have none : x.magnitude = 0 := (isZero_iff x).mp zero
  rw [beq_iff_rank_eq, ← ofMagnitude_magnitude x, none, rank_ofMagnitude _ (Nat.zero_le _)]
  cases x.isNegative <;> rfl

/-- The number nearest to a whole number is that number. -/
theorem ofInt_truncate (integral : x.isIntegral = true) (nonzero : x.isZero = false) :
    ofInt x.truncate = x := by
  have positive := wholePart_pos integral nonzero
  have sign : decide (x.truncate < 0) = x.isNegative := by
    rw [truncate]
    cases x.isNegative <;> simp [positive]
  have size : x.truncate.natAbs = x.wholePart := by
    rw [truncate]
    split <;> simp
  have finite := isFinite_of_isIntegral integral
  have close : |(x.wholePart : ℚ) / (1 : ℕ) - x.size| < 2 ^ (x.exponent - 2) := by
    rw [Nat.cast_one, div_one, wholePart_eq_size integral, sub_self, abs_zero]
    positivity
  rw [ofInt, sign, size, ofRatio_eq_nearest _ _ Nat.one_pos, nearest_of_close finite nonzero close,
    ofMagnitude_magnitude]

theorem integer?_eq_some {i : Int} (integer : x.integer? = some i) :
    x.isIntegral = true ∧ i = x.truncate := by
  unfold integer? at integer
  split at integer
  · rename_i fits
    cases integer
    exact ⟨(Bool.and_eq_true_iff.mp (Bool.and_eq_true_iff.mp fits).1).1, rfl⟩
  · cases integer

/-- Both ways in which a number is written lead back to it. -/
theorem ofJson_toJson (finite : x.isFinite = true) :
    (Value.ofJson x.toJson).same (.number x) = true := by
  have same : (x == x) = true := (beq_iff_rank_eq x x).mpr rfl
  cases zero : x.isZero with
  | true =>
      rw [toJson_of_isZero zero, Value.ofJson, Value.same]
      exact ofInt_of_isZero zero
  | false =>
      unfold toJson
      split
      · rename_i i integer
        obtain ⟨integral, rfl⟩ := integer?_eq_some integer
        rw [Value.ofJson, Value.same, ofInt_truncate integral zero]
        exact same
      · rw [if_pos finite, Value.ofJson, Value.same]
        exact same

end Number

namespace ByName

variable {α : Type}

/-- What comes after all other names is placed at the end. -/
theorem place_of_above {name : String} {value : α} {entries : List (String × α)}
    (above : ∀ entry ∈ entries, entry.1 < name) :
    place name value entries = entries ++ [(name, value)] := by
  induction entries with
  | nil => rfl
  | cons first rest ih =>
      obtain ⟨n, v⟩ := first
      have before : n < name := above (n, v) List.mem_cons_self
      rw [place, if_neg (String.lt_asymm before), if_neg (ne_of_lt before),
        ih fun entry member => above entry (List.mem_cons_of_mem _ member)]
      rfl

/-- A list in order stays as it is. -/
theorem ofList_eq_self {entries : List (String × α)} (ordered : Ordered entries) :
    ofList entries = entries := by
  have placed : ∀ done, Ordered (done ++ entries) →
      entries.foldl (fun placed entry => place entry.1 entry.2 placed) done = done ++ entries := by
    clear ordered
    induction entries with
    | nil => exact fun done _ => (List.append_nil done).symm
    | cons first rest ih =>
        intro done ordered
        obtain ⟨n, v⟩ := first
        have above : ∀ entry ∈ done, entry.1 < n := fun entry member =>
          (List.pairwise_append.mp ordered).2.2 entry member (n, v) List.mem_cons_self
        have grouped : done ++ (n, v) :: rest = (done ++ [(n, v)]) ++ rest := by simp
        rw [List.foldl_cons, grouped, ← ih _ (grouped ▸ ordered), ← place_of_above above]
  exact placed [] ordered

end ByName

mutual

/-- The value, and every value inside it. -/
def Value.parts : Value → List Value
  | .array items => .array items :: itemParts items
  | .record r => .record r :: r.parts
  | v => [v]

def Record.parts : Record → List Value
  | ⟨attributes⟩ => attributeParts attributes

def itemParts : List Value → List Value
  | [] => []
  | v :: rest => v.parts ++ itemParts rest

def attributeParts : List (String × Value) → List Value
  | [] => []
  | (_, v) :: rest => v.parts ++ attributeParts rest

end

/-- The value itself, whatever is inside it, has a document that leads back to it: it is no filter,
a number is finite, and a record has its attributes in the order of their names, as all records that
are made here. -/
def Value.Writable : Value → Prop
  | .number x => x.isFinite = true
  | .record r => ByName.Ordered r.attributes
  | .filter _ => False
  | _ => True

theorem Value.self_mem_parts (v : Value) : v ∈ v.parts := by
  cases v <;> simp [parts]

mutual

/-- What is inside a part is inside the value. -/
theorem Value.mem_parts_trans {u v w : Value} (inside : w ∈ v.parts) (deeper : u ∈ w.parts) :
    u ∈ v.parts := by
  cases v with
  | array items =>
      rw [Value.parts] at inside
      rcases List.mem_cons.mp inside with rfl | further
      · exact deeper
      · rw [Value.parts]
        exact List.mem_cons_of_mem _ (mem_itemParts_trans further deeper)
  | record r =>
      rw [Value.parts] at inside
      rcases List.mem_cons.mp inside with rfl | further
      · exact deeper
      · rw [Value.parts]
        exact List.mem_cons_of_mem _ (Record.mem_parts_trans further deeper)
  | _ =>
      simp only [Value.parts, List.mem_singleton] at inside
      exact inside ▸ deeper
termination_by sizeOf v

theorem Record.mem_parts_trans {r : Record} {u w : Value} (inside : w ∈ r.parts)
    (deeper : u ∈ w.parts) : u ∈ r.parts := by
  cases r with
  | mk attributes =>
      rw [Record.parts] at inside ⊢
      exact mem_attributeParts_trans inside deeper
termination_by sizeOf r

theorem mem_itemParts_trans {items : List Value} {u w : Value} (inside : w ∈ itemParts items)
    (deeper : u ∈ w.parts) : u ∈ itemParts items := by
  cases items with
  | nil => cases inside
  | cons v rest =>
      rw [itemParts] at inside ⊢
      rcases List.mem_append.mp inside with here | later
      · exact List.mem_append_left _ (Value.mem_parts_trans here deeper)
      · exact List.mem_append_right _ (mem_itemParts_trans later deeper)
termination_by sizeOf items

theorem mem_attributeParts_trans {attributes : List (String × Value)} {u w : Value}
    (inside : w ∈ attributeParts attributes) (deeper : u ∈ w.parts) :
    u ∈ attributeParts attributes := by
  match attributes, inside with
  | [], inside => cases inside
  | (name, v) :: rest, inside =>
      rw [attributeParts] at inside ⊢
      rcases List.mem_append.mp inside with here | later
      · exact List.mem_append_left _ (Value.mem_parts_trans here deeper)
      · exact List.mem_append_right _ (mem_attributeParts_trans later deeper)
termination_by sizeOf attributes

end

theorem names_attributesOfJson (attributes : List (String × Value)) :
    (attributesOfJson (attributesToJson attributes)).map Prod.fst = attributes.map Prod.fst := by
  induction attributes with
  | nil => rfl
  | cons first rest ih =>
      obtain ⟨name, v⟩ := first
      rw [attributesToJson, attributesOfJson, List.map_cons, List.map_cons, ih]

/-- A list is in order by its names alone. -/
theorem ByName.ordered_of_names {α β : Type} {entries : List (String × α)}
    {others : List (String × β)} (names : entries.map Prod.fst = others.map Prod.fst)
    (ordered : Ordered others) : Ordered entries := by
  have ascending : (others.map Prod.fst).Pairwise (· < ·) := List.pairwise_map.mpr ordered
  rw [← names] at ascending
  exact List.pairwise_map.mp ascending

mutual

theorem Value.same_ofJson_toJson {v : Value} (writable : ∀ w ∈ v.parts, w.Writable) :
    (Value.ofJson v.toJson).same v = true := by
  cases v with
  | null => rw [Value.toJson, Value.ofJson, Value.same]
  | bool b => rw [Value.toJson, Value.ofJson, Value.same, beq_self_eq_true]
  | string s => rw [Value.toJson, Value.ofJson, Value.same, beq_self_eq_true]
  | number x =>
      rw [Value.toJson]
      exact Number.ofJson_toJson (writable _ (Value.self_mem_parts _))
  | array items =>
      rw [Value.parts] at writable
      rw [Value.toJson, Value.ofJson, Value.same]
      exact itemsSame_valuesOfJson fun w inside => writable w (List.mem_cons_of_mem _ inside)
  | record r =>
      have ordered : ByName.Ordered r.attributes := writable _ (Value.self_mem_parts _)
      rw [Value.parts] at writable
      rw [Value.toJson]
      exact Record.same_ofJson_toJson ordered fun w inside =>
        writable w (List.mem_cons_of_mem _ inside)
  | filter f => exact (writable _ (Value.self_mem_parts _)).elim
termination_by sizeOf v

theorem Record.same_ofJson_toJson {r : Record} (ordered : ByName.Ordered r.attributes)
    (writable : ∀ w ∈ r.parts, w.Writable) :
    (Value.ofJson r.toJson).same (.record r) = true := by
  cases r with
  | mk attributes =>
      rw [Record.parts] at writable
      have kept : ByName.ofList (attributesOfJson (attributesToJson attributes)) =
          attributesOfJson (attributesToJson attributes) :=
        ByName.ofList_eq_self (ByName.ordered_of_names (names_attributesOfJson attributes) ordered)
      rw [Record.toJson, Value.ofJson, Value.same, Record.ofList, Record.same, kept]
      exact attributesSame_attributesOfJson writable
termination_by sizeOf r

theorem itemsSame_valuesOfJson {items : List Value} (writable : ∀ w ∈ itemParts items, w.Writable) :
    itemsSame (valuesOfJson (itemsToJson items)) items = true := by
  cases items with
  | nil => rw [itemsToJson, valuesOfJson, itemsSame]
  | cons v rest =>
      rw [itemParts] at writable
      rw [itemsToJson, valuesOfJson, itemsSame, Bool.and_eq_true]
      exact ⟨Value.same_ofJson_toJson fun w inside => writable w (List.mem_append_left _ inside),
        itemsSame_valuesOfJson fun w inside => writable w (List.mem_append_right _ inside)⟩
termination_by sizeOf items

theorem attributesSame_attributesOfJson {attributes : List (String × Value)}
    (writable : ∀ w ∈ attributeParts attributes, w.Writable) :
    attributesSame (attributesOfJson (attributesToJson attributes)) attributes = true := by
  match attributes, writable with
  | [], _ => rw [attributesToJson, attributesOfJson, attributesSame]
  | (name, v) :: rest, writable =>
      rw [attributeParts] at writable
      rw [attributesToJson, attributesOfJson, attributesSame, beq_self_eq_true, Bool.true_and,
        Bool.and_eq_true]
      exact ⟨Value.same_ofJson_toJson fun w inside => writable w (List.mem_append_left _ inside),
        attributesSame_attributesOfJson fun w inside => writable w (List.mem_append_right _ inside)⟩
termination_by sizeOf attributes

end

/-- The document of a record leads back to an equal record, the document of a value inside it to an
equal value, and the record is read from its text if the text reads as the document. -/
theorem Record.document_round_trip {r : Record}
    (writable : ∀ w ∈ (Value.record r).parts, w.Writable) :
    (∀ w ∈ (Value.record r).parts, (Value.ofJson w.toJson == w) = true) ∧
      (Json.read? r.toJson.text = some r.toJson →
        ∃ q, Record.read r.toJson.text = .ok q ∧ (q == r) = true) := by
  have back : ∀ w ∈ (Value.record r).parts, (Value.ofJson w.toJson).same w = true :=
    fun w inside => Value.same_ofJson_toJson fun u deeper =>
      writable u (Value.mem_parts_trans inside deeper)
  refine ⟨back, ?_⟩
  intro readBack
  obtain ⟨attributes⟩ := r
  refine ⟨Record.ofList (attributesOfJson (attributesToJson attributes)), ?_, ?_⟩
  · rw [Record.read, Json.readOrFail, readBack]
    rfl
  · have same := back _ (Value.self_mem_parts _)
    rwa [Value.toJson, Record.toJson, Value.ofJson, Value.same] at same

/-- The least integer of 64 bits. -/
def lowest : Number := ⟨0xC3E0000000000000⟩

/-- A number that is not whole. -/
def half : Number := ⟨0x3FE0000000000000⟩

def building : Record :=
  ⟨[("area", .number lowest),
    ("floors", .array [.number negativeZero, .null, .record ⟨[("name", .string "attic\n")]⟩])]⟩

def buildingDocument : Json :=
  .object [("area", .integer (-9223372036854775808)),
    ("floors", .array [.integer 0, .null, .object [("name", .string "attic\n")]])]

theorem toJson_building : building.toJson = buildingDocument := by
  have low : lowest.toJson = .integer (-9223372036854775808) := by
    have integer : lowest.integer? = some (-9223372036854775808) := by decide +kernel
    rw [Number.toJson, integer]
  have zero : negativeZero.toJson = .integer 0 := Number.toJson_of_isZero rfl
  simp only [building, Record.toJson, attributesToJson, Value.toJson, itemsToJson, low, zero,
    buildingDocument]

theorem read?_buildingDocument : Json.read? buildingDocument.text = some buildingDocument := by
  have written : buildingDocument.chars =
      ['\x7b', '"', 'a', 'r', 'e', 'a', '"', ':', '-', '9', '2', '2', '3', '3', '7', '2', '0',
        '3', '6', '8', '5', '4', '7', '7', '5', '8', '0', '8', ',', '"', 'f', 'l', 'o', 'o', 'r',
        's', '"', ':', '[', '0', ',', 'n', 'u', 'l', 'l', ',', '\x7b', '"', 'n', 'a', 'm', 'e',
        '"', ':', '"', 'a', 't', 't', 'i', 'c', '\\', 'n', '"', '\x7d', ']', '\x7d'] := by
    decide +kernel
  rw [Json.read?, Json.text, String.toList_ofList, written]
  rfl

/-- A record with the least integer, the negative zero and a line end in a string is read back from
its text, and a number that is not whole comes back from its document. -/
theorem building_read_back :
    (∃ q, Record.read building.toJson.text = .ok q ∧ (q == building) = true) ∧
      (Value.ofJson (Value.number half).toJson == .number half) = true := by
  have inBuilding : ∀ w ∈ (Value.record building).parts, w.Writable := by
    have ordered : ByName.Ordered building.attributes := by
      unfold ByName.Ordered building
      decide +kernel
    have single : ByName.Ordered [("name", Value.string "attic\n")] := List.pairwise_singleton _ _
    have low : lowest.isFinite = true := by decide +kernel
    have zero : negativeZero.isFinite = true := by decide +kernel
    simp only [building] at ordered
    simp [building, Value.parts, Record.parts, attributeParts, itemParts, Value.Writable, ordered,
      single, low, zero]
  have inShare : ∀ w ∈ (Value.record ⟨[("share", .number half)]⟩).parts, w.Writable := by
    have finite : half.isFinite = true := by decide +kernel
    simp [Value.parts, Record.parts, attributeParts, Value.Writable, ByName.Ordered, finite]
  have readBack : Json.read? building.toJson.text = some building.toJson := by
    rw [toJson_building]
    exact read?_buildingDocument
  refine ⟨(Record.document_round_trip inBuilding).2 readBack,
    (Record.document_round_trip inShare).1 _ ?_⟩
  simp [Value.parts, Record.parts, attributeParts]

end RecordExpr
