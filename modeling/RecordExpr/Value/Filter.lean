import RecordExpr.Value.Order

set_option autoImplicit false

namespace RecordExpr.Filter

/-- Asks for one value of an attribute. -/
def equals (name : String) (value : Value) : Filter := .compare name .equal value

/-- Both filters. A conjunction on the left is made longer, so that chains stay flat. -/
def and : Filter → Filter → Filter
  | all parts, all more => all (parts ++ more)
  | all parts, f => all (parts ++ [f])
  | f, g => all [f, g]

/-- Either filter, in the same way. -/
def or : Filter → Filter → Filter
  | any parts, any more => any (parts ++ more)
  | any parts, f => any (parts ++ [f])
  | f, g => any [f, g]

mutual

/-- The record satisfies the filter. A comparison with an attribute that is missing fails. -/
def accepts (r : Record) : Filter → Bool
  | compare name relation value => ((r.get? name).map fun v => relation.holds v value).getD false
  | all parts => acceptsAll r parts
  | any parts => acceptsAny r parts
  | negation part => !accepts r part

def acceptsAll (r : Record) : List Filter → Bool
  | [] => true
  | f :: rest => accepts r f && acceptsAll r rest

def acceptsAny (r : Record) : List Filter → Bool
  | [] => false
  | f :: rest => accepts r f || acceptsAny r rest

end

end RecordExpr.Filter
