import RecordExpr.Text.CaseTable

set_option autoImplicit false

namespace RecordExpr.Text

private def inRanges (ranges : List (Nat × Nat)) (c : Char) : Bool :=
  ranges.any fun (low, high) => low ≤ c.toNat && c.toNat ≤ high

def isCased (c : Char) : Bool := inRanges CaseTable.cased c

/-- Characters such as accents and apostrophes, which do not end a word. -/
def isCaseIgnorable (c : Char) : Bool := inRanges CaseTable.caseIgnorable c

private def moveCase (runs : List CaseRun) (c : Char) : Char :=
  let n := c.toNat
  match runs.find? fun r => r.first ≤ n && n ≤ r.last && (n - r.first) % r.step == 0 with
  | some r => Char.ofNat ((n : Int) + r.distance).toNat
  | none => c

private def spell (spellings : List (Nat × List Nat)) (runs : List CaseRun) (c : Char) :
    List Char :=
  match spellings.lookup c.toNat with
  | some codes => codes.map Char.ofNat
  | none => [moveCase runs c]

def upperChar (c : Char) : List Char := spell CaseTable.upperSpellings CaseTable.upperRuns c

def lowerChar (c : Char) : List Char := spell CaseTable.lowerSpellings CaseTable.lowerRuns c

/-- The first character that is not case-ignorable is a cased one. -/
private def meetsCased (cs : List Char) : Bool :=
  ((cs.dropWhile isCaseIgnorable).head?.map isCased).getD false

/-- Lower case of the characters that follow `before`, which is in reverse. A capital sigma after a
cased character and not before one is final. -/
private def lowerFrom (before : List Char) : List Char → List Char
  | [] => []
  | c :: rest =>
    let small :=
      if c = 'Σ' then if meetsCased before && !meetsCased rest then ['ς'] else ['σ']
      else lowerChar c
    small ++ lowerFrom (c :: before) rest

def lowercase (s : String) : String := String.ofList (lowerFrom [] s.toList)

def uppercase (s : String) : String := String.ofList (s.toList.flatMap upperChar)

end RecordExpr.Text
