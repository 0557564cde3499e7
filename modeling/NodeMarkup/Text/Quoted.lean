import NodeMarkup.Text.Basic

namespace NodeMarkup

namespace Text

def isQuote (c : Char) : Bool := c = '"' || c = '\''

/-- Hides each double quote and each backslash behind a backslash. -/
def escape : Text → Text
  | [] => []
  | c :: rest => if c = '"' || c = '\\' then '\\' :: c :: escape rest else c :: escape rest

/-- A text as a double-quoted literal. -/
def quote (t : Text) : Text := '"' :: escape t ++ ['"']

end Text

/-- Where a scan through code stands: outside every quoted run, inside one, or inside one behind a
backslash that hides the next scalar value. -/
inductive QuoteState where
  | code
  | quoted (mark : Char)
  | escaped (mark : Char)
deriving DecidableEq, Repr, Inhabited

/-- The state behind one more scalar value. A run ends at the mark that opened it. -/
def QuoteState.next : QuoteState → Char → QuoteState
  | code, c => if Text.isQuote c then quoted c else code
  | quoted mark, c => if c = '\\' then escaped mark else if c = mark then code else quoted mark
  | escaped mark, _ => quoted mark

end NodeMarkup
