import RecordExpr.ByName
import RecordExpr.Number.Rounding

set_option autoImplicit false

namespace RecordExpr

/-- The relations between an attribute and a value that a filter can ask for. -/
inductive Comparison where
  | equal
  | notEqual
  | less
  | lessEqual
  | greater
  | greaterEqual
  | like
deriving DecidableEq, Repr

mutual

inductive Value where
  | null
  | bool (b : Bool)
  | number (n : Number)
  | string (s : String)
  | array (items : List Value)
  | record (r : Record)
  | filter (f : Filter)

/-- Attributes by name. `insert` and `ofList` keep them in the order of their names. -/
structure Record where
  attributes : List (String × Value)

/-- A predicate on records: a comparison of one attribute, or a combination of predicates. -/
inductive Filter where
  | compare (attributeName : String) (relation : Comparison) (value : Value)
  | all (parts : List Filter)
  | any (parts : List Filter)
  | negation (part : Filter)

end

instance : Inhabited Value := ⟨.null⟩
instance : Inhabited Filter := ⟨.all []⟩

namespace Record

def empty : Record := ⟨[]⟩

instance : Inhabited Record := ⟨empty⟩

def insert (r : Record) (name : String) (value : Value) : Record :=
  ⟨ByName.place name value r.attributes⟩

def get? (r : Record) (name : String) : Option Value := r.attributes.lookup name

/-- The record with these attributes, of which a later one replaces an earlier one of its name. -/
def ofList (attributes : List (String × Value)) : Record :=
  ⟨ByName.ofList attributes⟩

def size (r : Record) : Nat := r.attributes.length

def isEmpty (r : Record) : Bool := r.attributes.isEmpty

/-- An inserted attribute is found under its name, and the others are as before. -/
theorem get?_insert (r : Record) (name other : String) (value : Value) :
    (r.insert name value).get? other = if other = name then some value else r.get? other :=
  ByName.lookup_place name other value r.attributes

end Record

mutual

def Value.same : Value → Value → Bool
  | .null, .null => true
  | .bool a, .bool b => a == b
  | .number a, .number b => a == b
  | .string a, .string b => a == b
  | .array as, .array bs => itemsSame as bs
  | .record a, .record b => a.same b
  | .filter a, .filter b => a.same b
  | _, _ => false

def Record.same : Record → Record → Bool
  | ⟨as⟩, ⟨bs⟩ => attributesSame as bs

def Filter.same : Filter → Filter → Bool
  | .compare n r v, .compare m q w => n == m && r == q && v.same w
  | .all as, .all bs => partsSame as bs
  | .any as, .any bs => partsSame as bs
  | .negation a, .negation b => a.same b
  | _, _ => false

def itemsSame : List Value → List Value → Bool
  | [], [] => true
  | a :: as, b :: bs => a.same b && itemsSame as bs
  | _, _ => false

def attributesSame : List (String × Value) → List (String × Value) → Bool
  | [], [] => true
  | (n, a) :: as, (m, b) :: bs => n == m && a.same b && attributesSame as bs
  | _, _ => false

def partsSame : List Filter → List Filter → Bool
  | [], [] => true
  | a :: as, b :: bs => a.same b && partsSame as bs
  | _, _ => false

end

instance : BEq Value := ⟨Value.same⟩
instance : BEq Record := ⟨Record.same⟩
instance : BEq Filter := ⟨Filter.same⟩

namespace Value

def ofBool (b : Bool) : Value := .bool b

def ofNat (n : Nat) : Value := .number (Number.ofNat n)

/-- The record, or null without one. -/
def ofRecord? : Option Record → Value
  | some r => .record r
  | none => .null

def isNull : Value → Bool
  | .null => true
  | _ => false

/-- Null, false, zero, NaN and what is empty do not count as true; records and filters do. -/
def isTruthy : Value → Bool
  | .null => false
  | .bool b => b
  | .number n => n.isTruthy
  | .string s => !s.isEmpty
  | .array items => !items.isEmpty
  | .record _ => true
  | .filter _ => true

/-- The name of the kind of value. -/
def kind : Value → String
  | .null => "null"
  | .bool _ => "bool"
  | .number _ => "number"
  | .string _ => "string"
  | .array _ => "array"
  | .record _ => "record"
  | .filter _ => "filter"

/-- An attribute of a record; null for an attribute that is missing, and for other values. -/
def get : Value → String → Value
  | .record r, name => (r.get? name).getD .null
  | _, _ => .null

end Value

end RecordExpr
