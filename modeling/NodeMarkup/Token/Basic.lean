import NodeMarkup.Token.Value
/-!
Tokens: the constructs that are recognised in a source. Whatever is not recognised is ordinary code
and never becomes a token.
-/
namespace NodeMarkup

/-- An import of a component: `import Name from "path"`. -/
structure Import where
  className : Text
  -- The path without its quotes.
  path : Text
  range : Range
deriving DecidableEq, Repr, Inhabited

structure VariableHeader where
  name : Text
  range : Range
deriving DecidableEq, Repr, Inhabited

structure FunctionHeader where
  name : Text
  parameters : List Text
  range : Range
deriving DecidableEq, Repr, Inhabited

inductive TagKind where
  -- `<Name ...>`
  | opening
  -- `<Name .../>`
  | single
  -- `</Name>`
  | closing
deriving DecidableEq, Repr, Inhabited

structure Tag where
  kind : TagKind
  className : Text
  properties : List Property
  range : Range
  -- Where the `>` or `/>` begins.
  closer : Cursor
deriving DecidableEq, Repr, Inhabited

inductive Token where
  | ofImport (i : Import)
  | ofVariable (header : VariableHeader)
  | ofFunction (header : FunctionHeader)
  | ofTag (tag : Tag)
deriving DecidableEq, Repr, Inhabited

/-- The part of the source that a token covers. -/
def Token.range : Token → Range
  | ofImport i => i.range
  | ofVariable header => header.range
  | ofFunction header => header.range
  | ofTag tag => tag.range

end NodeMarkup
