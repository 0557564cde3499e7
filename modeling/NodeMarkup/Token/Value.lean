import NodeMarkup.Source.Cursor
import NodeMarkup.Text.Quoted

namespace NodeMarkup

inductive ValueKind where
  | string
  | number
  | symbol
  | call
  | block
  -- An expression put together from other values.
  | expression
deriving DecidableEq, Repr, Inhabited

structure Value where
  kind : ValueKind
  code : Text
deriving DecidableEq, Repr, Inhabited

namespace Value

def ofText (t : Text) : Value := ⟨.string, Text.quote t⟩

/-- The name of a value that is a bare symbol, the only form that can name a function. -/
def identifier? (v : Value) : Option Text :=
  if v.kind = .symbol && !v.code.contains '.' then some v.code else none

end Value

structure Property where
  name : Text
  value : Value
  range : Range
deriving DecidableEq, Repr, Inhabited

end NodeMarkup
