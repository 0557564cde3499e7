import NodeMarkup.Text.Basic

namespace NodeMarkup.Text

/-- Turns each pair `\r\n` into `\n`. -/
def joinBreakPairs : Text → Text
  | '\r' :: '\n' :: rest => '\n' :: joinBreakPairs rest
  | c :: rest => c :: joinBreakPairs rest
  | [] => []

/-- Turns each pair `\r\n`, and each `\r` that is left, into `\n`. -/
def unifyLineBreaks (t : Text) : Text :=
  (joinBreakPairs t).map fun c => if c = '\r' then '\n' else c

/-- Leaves one space of each run of spaces. -/
def squeezeSpaces : Text → Text
  | [] => []
  | c :: rest =>
    if c = ' ' && rest.head? = some ' ' then squeezeSpaces rest else c :: squeezeSpaces rest

/-- Folds a text of several lines into one: tabs are dropped, line breaks become spaces, and each
run of spaces becomes one space. -/
def foldLines (t : Text) : Text :=
  squeezeSpaces ((t.filter (· ≠ '\t')).map fun c => if c = '\n' then ' ' else c)

/-- A line that differs in two texts; `none` where a text has no such line. Lines count from one. -/
structure LineDifference where
  line : Nat
  expected : Option Text
  actual : Option Text
deriving DecidableEq, Repr, Inhabited

/-- The first difference of two lists of lines, the first line having the number `line`. -/
def firstDifferenceFrom (line : Nat) : List Text → List Text → Option LineDifference
  | [], [] => none
  | expected :: _, [] => some ⟨line, some expected, none⟩
  | [], actual :: _ => some ⟨line, none, some actual⟩
  | expected :: moreExpected, actual :: moreActual =>
    if expected = actual then firstDifferenceFrom (line + 1) moreExpected moreActual
    else some ⟨line, some expected, some actual⟩

def firstDifference (expected actual : Text) : Option LineDifference :=
  firstDifferenceFrom 1 (split '\n' expected) (split '\n' actual)

end NodeMarkup.Text
