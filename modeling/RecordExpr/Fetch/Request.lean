import RecordExpr.Eval.Dialogue
import RecordExpr.Value.Filter

set_option autoImplicit false

namespace RecordExpr

/-- Asks for the records of a dataset that satisfy all filters, at most `pageSize` of them. -/
structure Request where
  dataset : String
  crs : String
  pageSize : Option Nat
  filters : List Filter

namespace Request

def accepts (q : Request) (r : Record) : Bool := q.filters.all fun f => f.accepts r

/-- No more records than one page holds. -/
def cut (q : Request) (records : List Record) : List Record :=
  match q.pageSize with
  | some size => records.take size
  | none => records

end Request

/-- Records by the name of their dataset. A name that stands several times names all of the records
behind it. -/
structure Datasets where
  entries : List (String × List Record) := []

namespace Datasets

def add (d : Datasets) (name : String) (records : List Record) : Datasets :=
  ⟨d.entries ++ [(name, records)]⟩

/-- The records of a dataset in their order. -/
def records (d : Datasets) (name : String) : List Record :=
  (d.entries.filter fun entry => entry.1 == name).flatMap Prod.snd

/-- The answer to a request. -/
def select (d : Datasets) (q : Request) : List Record :=
  q.cut ((d.records q.dataset).filter q.accepts)

/-- The record of a list of exactly one. -/
def only? : List Record → Option Record
  | [r] => some r
  | _ => none

/-- The record that a reference names, if exactly one fits. -/
def find? (d : Datasets) (reference : Reference) : Option Record :=
  let wanted := Filter.equals reference.attributeName reference.value
  only? ((d.records reference.dataset).filter fun r => wanted.accepts r)

end Datasets

end RecordExpr
