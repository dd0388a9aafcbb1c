import RecordExpr.ByName
import RecordExpr.Json.Basic

set_option autoImplicit false

namespace RecordExpr.Json

/-- Readers return what they read and the text behind it. -/
abbrev Read (α : Type) := List Char → Option (α × List Char)

def isSpace (c : Char) : Bool := c == ' ' || c == '\n' || c == '\t' || c == '\r'

def skipSpaces (cs : List Char) : List Char := cs.dropWhile isSpace

/-- The largest integer that digits are gathered into. -/
def significandLimit : Nat := 0xFFFFFFFFFFFFFFFF

/-- Appends digits as long as the number fits; returns those that are left. -/
def gather : Nat → List Char → Nat × List Char
  | n, [] => (n, [])
  | n, c :: rest =>
    let next := 10 * n + (c.toNat - '0'.toNat)
    if next ≤ significandLimit then gather next rest else (n, c :: rest)

private def tenPower (n : Nat) : Number := Number.ofRatio false (Nat.pow 10 n) 1

/-- The significand times a power of ten, in one operation where the power is at most 308. Below
that the power is taken in two steps, and at twice that nothing is left of any significand. -/
def scale? (significand : Nat) (power : Int) : Option Number :=
  let whole := Number.ofNat significand
  if whole.isZero then some whole
  else if 308 < power then none
  else if 0 ≤ power then (some (whole * tenPower power.toNat)).filter Number.isFinite
  else if -308 ≤ power then some (whole / tenPower (-power).toNat)
  else if -616 ≤ power then some (whole / tenPower 308 / tenPower (-power - 308).toNat)
  else some Number.zero

/-- The exponent of a number, and what stands behind it. -/
def exponentPart : Read (Option Int)
  | c :: rest =>
    if c = 'e' ∨ c = 'E' then
      let (negative, tail) := Number.splitSign rest
      let digits := tail.takeWhile Char.isDigit
      if digits.isEmpty then none
      else
        let power : Int := Number.digitsValue digits
        some (some (if negative then -power else power), tail.dropWhile Char.isDigit)
    else some (none, c :: rest)
  | [] => some (none, [])

/-- The digits behind the point of a number, if there is one. -/
def fractionPart : Read (Option (List Char))
  | '.' :: rest =>
    let digits := rest.takeWhile Char.isDigit
    if digits.isEmpty then none else some (some digits, rest.dropWhile Char.isDigit)
  | cs => some (none, cs)

/-- The number with this whole part, fraction and exponent. Integers of 64 bits are exact. Of every
other number as many digits as fit are gathered into one integer, which is scaled by a power of
ten. -/
def assemble? (negative : Bool) (whole : List Char) (fraction : Option (List Char))
    (power : Option Int) : Option Json :=
  let value := Number.digitsValue whole
  let isInteger := fraction.isNone && power.isNone
  if isInteger && !negative && decide (value ≤ significandLimit) then some (integer value)
  else if isInteger && negative && decide (0 < value) && decide (value ≤ Number.signUnit) then
    some (integer (-(value : Int)))
  else
    let (significand, left) := gather 0 whole
    let behind := fraction.getD []
    let (significand, unread) := gather significand behind
    let shift : Int := (left.length : Int) - ((behind.length : Int) - unread.length)
    (scale? significand (shift + power.getD 0)).map fun x => real (if negative then -x else x)

def readNumber : Read Json := fun cs => do
  let (negative, cs) := match cs with
    | '-' :: rest => (true, rest)
    | _ => (false, cs)
  let whole := cs.takeWhile Char.isDigit
  if whole.isEmpty || (whole.head? == some '0' && decide (1 < whole.length)) then none
  let (fraction, cs) ← fractionPart (cs.dropWhile Char.isDigit)
  let (power, cs) ← exponentPart cs
  let number ← assemble? negative whole fraction power
  return (number, cs)

def hexValue? (c : Char) : Option Nat :=
  if c.isDigit then some (c.toNat - '0'.toNat)
  else if 'a' ≤ c ∧ c ≤ 'f' then some (c.toNat - 'a'.toNat + 10)
  else if 'A' ≤ c ∧ c ≤ 'F' then some (c.toNat - 'A'.toNat + 10)
  else none

/-- The value of four hexadecimal digits. -/
def hexUnit? (a b c d : Char) : Option Nat := do
  return (((← hexValue? a) * 16 + (← hexValue? b)) * 16 + (← hexValue? c)) * 16 + (← hexValue? d)

/-- The character of an escape with one letter. -/
def escapeLetter? : Char → Option Char
  | '"' => some '"'
  | '\\' => some '\\'
  | '/' => some '/'
  | 'b' => some '\x08'
  | 'f' => some '\x0c'
  | 'n' => some '\n'
  | 'r' => some '\r'
  | 't' => some '\t'
  | _ => none

def isHighSurrogate (n : Nat) : Bool := decide (0xD800 ≤ n) && decide (n ≤ 0xDBFF)

def isLowSurrogate (n : Nat) : Bool := decide (0xDC00 ≤ n) && decide (n ≤ 0xDFFF)

/-- The characters of a string up to its closing quote. Half of a surrogate pair is refused. -/
def readStringBody : Read (List Char)
  | [] => none
  | '"' :: rest => some ([], rest)
  | '\\' :: 'u' :: a :: b :: c :: d :: rest => do
    let unit ← hexUnit? a b c d
    if isLowSurrogate unit then none
    else if isHighSurrogate unit then
      match rest with
      | '\\' :: 'u' :: a :: b :: c :: d :: rest => do
        let low ← hexUnit? a b c d
        if isLowSurrogate low then do
          let (tail, rest) ← readStringBody rest
          return (Char.ofNat (0x10000 + (unit - 0xD800) * 0x400 + (low - 0xDC00)) :: tail, rest)
        else none
      | _ => none
    else do
      let (tail, rest) ← readStringBody rest
      return (Char.ofNat unit :: tail, rest)
  | '\\' :: letter :: rest => do
    let c ← escapeLetter? letter
    let (tail, rest) ← readStringBody rest
    return (c :: tail, rest)
  | c :: rest =>
    if c = '\\' ∨ c.toNat < 0x20 then none
    else do
      let (tail, rest) ← readStringBody rest
      return (c :: tail, rest)

def readString : Read String
  | '"' :: rest => do
    let (body, rest) ← readStringBody rest
    return (String.ofList body, rest)
  | _ => none

/-- The text behind a word that the text starts with. -/
def dropWord? (word : List Char) (cs : List Char) : Option (List Char) :=
  if word.isPrefixOf cs then some (cs.drop word.length) else none

/-- Everything but arrays and objects. -/
def readScalar : Read Json := fun cs =>
  match cs with
  | 'n' :: _ => (dropWord? "null".toList cs).map fun rest => (null, rest)
  | 't' :: _ => (dropWord? "true".toList cs).map fun rest => (bool true, rest)
  | 'f' :: _ => (dropWord? "false".toList cs).map fun rest => (bool false, rest)
  | '"' :: _ => (readString cs).map fun (s, rest) => (string s, rest)
  | _ => readNumber cs

/-- One or more entries with commas between them, up to the closing character. Every entry takes a
character at least, so the length of the text bounds their number. -/
def readEntries {α : Type} (entry : Read α) (close : Char) : Nat → Read (List α)
  | 0, _ => none
  | limit + 1, cs => do
    let (first, cs) ← entry (skipSpaces cs)
    match skipSpaces cs with
    | ',' :: rest => do
      let (more, rest) ← readEntries entry close limit rest
      return (first :: more, rest)
    | c :: rest => if c = close then some ([first], rest) else none
    | [] => none

/-- The entries behind an opening character, or none if the closing one follows. -/
def readAll {α : Type} (entry : Read α) (close : Char) : Read (List α) := fun cs =>
  match skipSpaces cs with
  | [] => none
  | c :: rest => if c = close then some ([], rest) else readEntries entry close (cs.length + 1) cs

/-- A name, a colon and a value. -/
def readMember (value : Read Json) : Read (String × Json) := fun cs => do
  let (name, cs) ← readString cs
  match skipSpaces cs with
  | ':' :: rest => do
    let (v, rest) ← value (skipSpaces rest)
    return ((name, v), rest)
  | _ => none

/-- A document with at most this many levels of arrays and objects. Of equal names in an object the
last one counts. -/
def readNested : Nat → Read Json
  | 0 => fun cs =>
    match cs with
    | '[' :: _ => none
    | '\x7b' :: _ => none
    | _ => readScalar cs
  | depth + 1 => fun cs =>
    match cs with
    | '[' :: rest => (readAll (readNested depth) ']' rest).map fun (items, rest) =>
      (array items, rest)
    | '\x7b' :: rest => (readAll (readMember (readNested depth)) '\x7d' rest).map
      fun (members, rest) => (object (ByName.ofList members), rest)
    | _ => readScalar cs

def nestingLimit : Nat := 127

/-- The document that makes up the whole text. -/
def read? (s : String) : Option Json := do
  let (document, rest) ← readNested nestingLimit (skipSpaces s.toList)
  if (skipSpaces rest).isEmpty then some document else none

end RecordExpr.Json
