import RecordExpr.Proofs.History
import RecordExpr.Proofs.NumberText

set_option autoImplicit false

namespace RecordExpr

namespace Value

/-- Values of one kind with equal texts are equal to everything that compares with them. Arrays,
records and filters compare with nothing. -/
theorem compare?_eq_of_text_eq {v w : Value} (kinds : v.kind = w.kind) (texts : v.text = w.text)
    (a : Value) : a.compare? v = a.compare? w := by
  cases v <;> cases w <;> try (simp [kind] at kinds; done)
  case null.null => rfl
  case bool.bool b c =>
    have same : b = c := by
      cases b <;> cases c <;> first | rfl | exact absurd texts (by decide)
    rw [same]
  case number.number x y =>
    have ranks : x.rank = y.rank := (Number.beq_iff_rank_eq x y).mp (Number.beq_of_text_eq texts)
    have same : ∀ z : Number, compare z x = compare z y := fun z => by
      rw [Number.compare_eq, Number.compare_eq, ranks]
    cases a <;> simp only [compare?, same]
  case string.string s t =>
    have same : s = t := texts
    rw [same]
  all_goals cases a <;> rfl

end Value

namespace Datasets

/-- What is looked up under one key is the same for values of one kind. -/
theorem find?_eq_of_kind_eq {first r : Reference}
    (keys : LookupKey.ofReference first = LookupKey.ofReference r)
    (kinds : first.value.kind = r.value.kind) (d : Datasets) : d.find? first = d.find? r := by
  obtain ⟨dataset, attributeName, value⟩ := first
  obtain ⟨dataset', attributeName', value'⟩ := r
  simp only [LookupKey.ofReference, LookupKey.mk.injEq] at keys
  obtain ⟨rfl, rfl, texts⟩ := keys
  have accepted : ∀ r, (Filter.equals attributeName value).accepts r =
      (Filter.equals attributeName value').accepts r := by
    intro r
    simp only [Filter.equals, Filter.accepts, Comparison.holds,
      Value.compare?_eq_of_text_eq kinds texts]
  simp only [find?, accepted]

/-- Without a page size the answer to the request for a reference decides what is found. -/
theorem only?_select {settings : Settings} (unpaged : settings.pageSize = none) (r : Reference)
    (d : Datasets) : only? (d.select (Exchange.requestFor settings r)) = d.find? r := by
  have accepted : ∀ record, (Exchange.requestFor settings r).accepts record =
      (Filter.equals r.attributeName r.value).accepts record := by
    intro record
    simp only [Request.accepts, Exchange.requestFor, List.all_cons, List.all_nil, Bool.and_true]
  have whole : (Exchange.requestFor settings r).pageSize = none := unpaged
  have same : (Exchange.requestFor settings r).accepts = fun record =>
      (Filter.equals r.attributeName r.value).accepts record := funext accepted
  simp only [select, Request.cut, whole, same]
  rfl

end Datasets

/-- The source answers every request from the datasets, at once or later. -/
def Source.AnswersFrom (d : Datasets) (source : Source) : Prop :=
  ∀ received q, source received q = .answer (d.select q) ∨
    source received q = .answerLater (d.select q)

namespace Exchange

/-- A run of lookups of these references since the last clear, on an exchange that was empty at
first. Answers arrive in any order. -/
inductive Consulted (d : Datasets) : List Reference → Exchange → Prop where
  | start : Consulted d [] {}
  | lookup {asked : List Reference} {e : Exchange} (run : Consulted d asked e) {source : Source}
      (answers : source.AnswersFrom d) {settings : Settings} (unpaged : settings.pageSize = none)
      (r : Reference) : Consulted d (asked ++ [r]) (e.perform (.resolve source settings r))
  | arrival {asked : List Reference} {e : Exchange} (run : Consulted d asked e)
      {delivery : Delivery} (due : delivery ∈ e.due) :
      Consulted d asked (e.perform (.answer delivery.ticket delivery.records))
  | clear {asked : List Reference} {e : Exchange} (run : Consulted d asked e) :
      Consulted d [] (e.perform .clear)

/-- The reference that was asked for first under a key. -/
def firstFor (asked : List Reference) (k : LookupKey) : Option Reference :=
  asked.find? fun r => LookupKey.ofReference r = k

/-- The cache holds, and the answers on their way bring, what the datasets say of the reference that
was asked for first. -/
structure Consistent (d : Datasets) (asked : List Reference) (e : Exchange) : Prop where
  resolved : ∀ k found, e.cache.slot? k = some (.resolved found) →
    ∃ first, firstFor asked k = some first ∧ found = d.find? first
  pending : ∀ k fetch, e.cache.slot? k = some (.pending fetch) →
    ∃ first, firstFor asked k = some first ∧ ∀ delivery ∈ e.due, delivery.ticket = ⟨k, fetch⟩ →
      Datasets.only? delivery.records = d.find? first
  unknown : ∀ k, e.cache.slot? k = none → firstFor asked k = none
  issued : ∀ delivery ∈ e.due, delivery.ticket.fetch < e.cache.nextFetch

variable {d : Datasets} {asked : List Reference} {e : Exchange}

theorem firstFor_append_of_some {k : LookupKey} {first : Reference}
    (known : firstFor asked k = some first) (r : Reference) :
    firstFor (asked ++ [r]) k = some first := by
  rw [firstFor, List.find?_append]
  rw [firstFor] at known
  rw [known, Option.some_or]

theorem firstFor_append_of_none {k : LookupKey} (unknown : firstFor asked k = none)
    (r : Reference) :
    firstFor (asked ++ [r]) k = if LookupKey.ofReference r = k then some r else none := by
  rw [firstFor, List.find?_append]
  rw [firstFor] at unknown
  rw [unknown, Option.none_or, List.find?_singleton]
  simp only [decide_eq_true_eq]

/-- A lookup of a known key is not the first one for it. -/
theorem Consistent.again (consistent : Consistent d asked e) {r : Reference}
    (known : e.cache.slot? (LookupKey.ofReference r) ≠ none) : Consistent d (asked ++ [r]) e := by
  refine ⟨?_, ?_, ?_, consistent.issued⟩
  · intro k found resolved
    obtain ⟨first, asks, agrees⟩ := consistent.resolved k found resolved
    exact ⟨first, firstFor_append_of_some asks r, agrees⟩
  · intro k fetch pending
    obtain ⟨first, asks, brings⟩ := consistent.pending k fetch pending
    exact ⟨first, firstFor_append_of_some asks r, brings⟩
  · intro k unknown
    have other : LookupKey.ofReference r ≠ k := by
      rintro rfl
      exact known unknown
    rw [firstFor_append_of_none (consistent.unknown k unknown), if_neg other]

/-- A lookup of an unknown key is the first one for it. Its slot has the answer, or waits for it
with a fetch that no answer on its way belongs to but its own. -/
theorem Consistent.first (consistent : Consistent d asked e) {r : Reference}
    (unknown : e.cache.slot? (LookupKey.ofReference r) = none) {after : Exchange} {new : Slot}
    (fresh : new = .resolved (d.find? r) ∨ new = .pending e.cache.nextFetch)
    (slots : ∀ k, after.cache.slot? k =
      if k = LookupKey.ofReference r then some new else e.cache.slot? k)
    (next : after.cache.nextFetch = e.cache.nextFetch + 1)
    (due : ∀ delivery ∈ after.due, delivery ∈ e.due ∨
      delivery.ticket = ⟨LookupKey.ofReference r, e.cache.nextFetch⟩ ∧
        Datasets.only? delivery.records = d.find? r) :
    Consistent d (asked ++ [r]) after := by
  have asks : firstFor (asked ++ [r]) (LookupKey.ofReference r) = some r := by
    rw [firstFor_append_of_none (consistent.unknown _ unknown), if_pos rfl]
  constructor
  · intro k found resolved
    rw [slots] at resolved
    split at resolved
    · rename_i here
      subst here
      cases resolved
      rcases fresh with answered | waits
      · cases answered
        exact ⟨r, asks, rfl⟩
      · cases waits
    · obtain ⟨first, asks, agrees⟩ := consistent.resolved k found resolved
      exact ⟨first, firstFor_append_of_some asks r, agrees⟩
  · intro k fetch pending
    rw [slots] at pending
    split at pending
    · rename_i here
      subst here
      cases pending
      rcases fresh with answered | waits
      · cases answered
      · cases waits
        refine ⟨r, asks, ?_⟩
        intro delivery member ticket
        rcases due delivery member with old | ⟨-, brings⟩
        · have earlier := consistent.issued delivery old
          rw [ticket] at earlier
          exact absurd earlier (Nat.lt_irrefl _)
        · exact brings
    · rename_i other
      obtain ⟨first, asks, brings⟩ := consistent.pending k fetch pending
      refine ⟨first, firstFor_append_of_some asks r, ?_⟩
      intro delivery member ticket
      rcases due delivery member with old | ⟨own, -⟩
      · exact brings delivery old ticket
      · rw [own] at ticket
        cases ticket
        exact absurd rfl other
  · intro k missing
    rw [slots] at missing
    split at missing
    · cases missing
    · rename_i other
      rw [firstFor_append_of_none (consistent.unknown k missing), if_neg (Ne.symm other)]
  · intro delivery member
    rw [next]
    rcases due delivery member with old | ⟨own, -⟩
    · exact Nat.lt_succ_of_lt (consistent.issued delivery old)
    · rw [own]
      exact Nat.lt_succ_self _

theorem Consistent.lookup (consistent : Consistent d asked e) {source : Source}
    (answers : source.AnswersFrom d) {settings : Settings} (unpaged : settings.pageSize = none)
    (r : Reference) : Consistent d (asked ++ [r]) (resolve source settings r e).2 := by
  cases seen : e.cache.slot? (LookupKey.ofReference r) with
  | some slot =>
      have known : e.cache.slot? (LookupKey.ofReference r) ≠ none := by
        rw [seen]
        nofun
      cases slot with
      | resolved found =>
          rw [resolve_resolved seen]
          exact consistent.again known
      | pending fetch =>
          rw [resolve_pending seen]
          exact consistent.again known
  | none =>
      have agrees := Datasets.only?_select unpaged r d
      have waits := Cache.slot?_consult seen
      rw [resolve_unknown seen]
      rcases answers e.received (requestFor settings r) with now | later
      · have owned : (e.cache.consult (LookupKey.ofReference r)).2.owns
            ⟨LookupKey.ofReference r, e.cache.nextFetch⟩ = true := by
          rw [Cache.owns_iff, waits, if_pos rfl]
        refine consistent.first seen (.inl rfl) ?_ ?_ ?_
        · intro k
          simp only [submit, now, Cache.slot?_deliver, owned, true_and, agrees, waits]
          split <;> rfl
        · simp only [submit, now, Cache.nextFetch_deliver, Cache.consult_unknown seen]
        · intro delivery member
          simp only [submit, now] at member
          exact .inl member
      · refine consistent.first seen (.inr rfl) ?_ ?_ ?_
        · intro k
          simp only [submit, later, waits]
        · simp only [submit, later, Cache.consult_unknown seen]
        · intro delivery member
          simp only [submit, later] at member
          rcases List.mem_append.mp member with old | new
          · exact .inl old
          · rw [List.mem_singleton] at new
            subst new
            exact .inr ⟨rfl, agrees⟩

theorem Consistent.arrival (consistent : Consistent d asked e) {delivery : Delivery}
    (due : delivery ∈ e.due) :
    Consistent d asked (e.perform (.answer delivery.ticket delivery.records)) := by
  have held : delivery.ticket ∈ e.outstanding :=
    List.mem_append_right _ (List.mem_map_of_mem due)
  have left : ∀ other ∈ (e.withdraw delivery.ticket).due, other ∈ e.due := fun other member =>
    List.mem_of_mem_filter member
  rw [perform, if_pos held]
  constructor
  · intro k found resolved
    rw [Cache.slot?_deliver] at resolved
    split at resolved
    · rename_i taken
      obtain ⟨owned, rfl⟩ := taken
      cases resolved
      obtain ⟨first, asks, brings⟩ :=
        consistent.pending _ _ ((Cache.owns_iff e.cache delivery.ticket).mp owned)
      exact ⟨first, asks, brings delivery due rfl⟩
    · exact consistent.resolved k found resolved
  · intro k fetch pending
    obtain ⟨before, -⟩ := (Cache.pending_deliver e.cache delivery.ticket _ k fetch).mp pending
    obtain ⟨first, asks, brings⟩ := consistent.pending k fetch before
    exact ⟨first, asks, fun other member => brings other (left other member)⟩
  · intro k missing
    rw [Cache.slot?_deliver] at missing
    split at missing
    · cases missing
    · exact consistent.unknown k missing
  · intro other member
    rw [Cache.nextFetch_deliver]
    exact consistent.issued other (left other member)

theorem Consulted.consistent (run : Consulted d asked e) : Consistent d asked e := by
  induction run with
  | start => exact ⟨nofun, nofun, fun _ _ => rfl, nofun⟩
  | lookup run answers unpaged r ih => exact ih.lookup answers unpaged r
  | arrival run due ih => exact ih.arrival due
  | clear run ih => exact ⟨nofun, nofun, fun _ _ => rfl, ih.issued⟩

theorem answersFrom_immediate (d : Datasets) : (Source.immediate d 0).AnswersFrom d := by
  intro received q
  exact .inl (if_neg (Nat.not_lt_zero received))

/-- After its first lookup the result of a reference is there if the source answers at once. -/
theorem slot?_of_immediate {settings : Settings} (unpaged : settings.pageSize = none)
    {r : Reference} (unknown : e.cache.slot? (LookupKey.ofReference r) = none) (d : Datasets) :
    (e.perform (.resolve (Source.immediate d 0) settings r)).cache.slot?
      (LookupKey.ofReference r) = some (.resolved (d.find? r)) := by
  have now : Source.immediate d 0 e.received (requestFor settings r) =
      .answer (d.select (requestFor settings r)) := if_neg (Nat.not_lt_zero _)
  have owned : (e.cache.consult (LookupKey.ofReference r)).2.owns
      ⟨LookupKey.ofReference r, e.cache.nextFetch⟩ = true := by
    rw [Cache.owns_iff, Cache.slot?_consult unknown, if_pos rfl]
  rw [perform, resolve_unknown unknown]
  simp only [submit, now]
  rw [Cache.slot?_deliver, if_pos ⟨owned, rfl⟩, Datasets.only?_select unpaged]

/-- An item whose number is written with a fraction. -/
def markedItem : Record := Record.ofList [("id", .string "42.0")]

/-- A dataset of that item alone. -/
def markedItems : Datasets := { entries := [("items", [markedItem])] }

/-- Asks for the item with this number. -/
def itemWith (id : Value) : Reference := ⟨"items", "id", id⟩

theorem text_fortyTwo : (Number.ofNat 42).text = "42" := by decide +kernel

theorem find?_number :
    markedItems.find? (itemWith (.number (Number.ofNat 42))) = some markedItem := by
  have accepted : (Filter.equals "id" (.number (Number.ofNat 42))).accepts markedItem = true := by
    simp only [Filter.equals, Filter.accepts]
    decide +kernel
  simp [Datasets.find?, itemWith, markedItems, Datasets.records, accepted, Datasets.only?]

theorem find?_string : markedItems.find? (itemWith (.string "42")) = none := by
  have rejected : (Filter.equals "id" (.string "42")).accepts markedItem = false := by
    simp only [Filter.equals, Filter.accepts]
    decide +kernel
  simp [Datasets.find?, itemWith, markedItems, Datasets.records, rejected, Datasets.only?]

/-- A lookup that waits for nothing returns the one record that fits the reference with its key that
was asked for first since the last clear, or nothing if none or several fit. That is what the
datasets say of the reference itself if the two values are of one kind. -/
theorem lookup_eq_first (run : Consulted d asked e) {settings : Settings}
    (attach : settings.pendingPolicy = .attach) {source : Source} {r : Reference}
    (complete : (resolve source settings r e).1.waitFor = none) :
    ∃ first, firstFor asked (LookupKey.ofReference r) = some first ∧
      (resolve source settings r e).1.found = d.find? first ∧
      (first.value.kind = r.value.kind →
        (resolve source settings r e).1.found = d.find? r) := by
  cases seen : e.cache.slot? (LookupKey.ofReference r) with
  | some slot =>
      cases slot with
      | resolved found =>
          obtain ⟨first, asks, agrees⟩ := run.consistent.resolved _ _ seen
          have keys : LookupKey.ofReference first = LookupKey.ofReference r := by
            simpa using List.find?_some asks
          rw [resolve_resolved seen]
          refine ⟨first, asks, agrees, ?_⟩
          intro kinds
          rw [← Datasets.find?_eq_of_kind_eq keys kinds]
          exact agrees
      | pending fetch =>
          rw [resolve_pending seen, if_pos attach] at complete
          cases complete
  | none =>
      rw [resolve_unknown seen] at complete
      cases complete

/-- The item is found again under its number. -/
theorem marked_item_found :
    let source := Source.immediate markedItems 0
    let number := itemWith (.number (Number.ofNat 42))
    let e := ({} : Exchange).perform (.resolve source {} number)
    (resolve source {} number e).1 = ⟨some markedItem, none⟩ := by
  intro source number e
  have run : Consulted markedItems [number] e :=
    .lookup .start (answersFrom_immediate markedItems) rfl number
  have known : e.cache.slot? (LookupKey.ofReference number) =
      some (.resolved (markedItems.find? number)) := slot?_of_immediate rfl rfl markedItems
  have complete : (resolve source {} number e).1.waitFor = none := by
    rw [resolve_resolved known]
  obtain ⟨first, asks, -, same⟩ := lookup_eq_first run rfl complete
  have once : firstFor [number] (LookupKey.ofReference number) = some number := by
    simp [firstFor]
  rw [once, Option.some.injEq] at asks
  have found : (resolve source {} number e).1.found = some markedItem :=
    (same (by rw [← asks])).trans find?_number
  exact congrArg₂ Resolution.mk found complete

/-- After the number 42 the string `"42"` finds the item too, which has neither. -/
theorem string_answered_as_number :
    let source := Source.immediate markedItems 0
    let number := itemWith (.number (Number.ofNat 42))
    let string := itemWith (.string "42")
    let e := ({} : Exchange).perform (.resolve source {} number)
    Consulted markedItems [number] e ∧
      resolve source {} string e = (⟨some markedItem, none⟩, e) ∧
      markedItems.find? string = none := by
  intro source number string e
  have run : Consulted markedItems [number] e :=
    .lookup .start (answersFrom_immediate markedItems) rfl number
  have sameKey : LookupKey.ofReference string = LookupKey.ofReference number := by
    simp only [LookupKey.ofReference, string, number, itemWith, Value.text, text_fortyTwo]
  have known : e.cache.slot? (LookupKey.ofReference string) =
      some (.resolved (some markedItem)) := by
    rw [sameKey, ← find?_number]
    exact slot?_of_immediate rfl rfl markedItems
  exact ⟨run, resolve_resolved known source {}, find?_string⟩

end Exchange

end RecordExpr
