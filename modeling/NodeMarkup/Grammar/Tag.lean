import NodeMarkup.Grammar.Value
import NodeMarkup.Token.Basic

namespace NodeMarkup.Grammar

open RuleT

variable {m : Type → Type} [Monad m] [Checks m] [Arena m]

/-- A property: its name, `=` and its value, which is owed once the `=` is read. -/
def property : RuleT m Property := do
  let head ← seq [pattern Lexeme.propertyName, framed (literal "=".toList)]
  ensure (0 < head.length)
  let value ← optional value
  requireLast .missingValue
  match head, value with
  | name :: _, some value =>
    check name.text name.range.text?
    return ⟨name.text, value, ← rangeFrom name.range.start⟩
  | _, _ => miss

/-- The form of a tag from its first and last delimiter. -/
def tagKind (opener closer : Capture) : RuleT m TagKind :=
  match opener.text == "<".toList, closer.text == ">".toList with
  | true, true => return .opening
  | true, false => return .single
  | false, true => return .closing
  | false, false => refuse .selfClosedClosingTag closer.range.start

/-- Whether the next code at the cursor is a `/` or a `>`. -/
def closerAhead : RuleT m Bool := do
  let place ← cursor
  let next := place.skipIgnorable
  check next place.skipIgnorable?
  check next.rest next.rest?
  return next.current? = some '/' || next.current? = some '>'

/-- What follows the properties of a tag. Without a property only a closer ahead makes a tag of it,
which keeps comparisons out. -/
def tagTail (opener className : Capture) (properties : List Property) : RuleT m Token := do
  if properties.isEmpty && !(← closerAhead) then
    miss
  else
    require .unclosedTag
    let closer ← alt [literal "/>".toList, literal ">".toList]
    let kind ← tagKind opener closer
    match kind, properties with
    | .closing, property :: _ => refuse .closingTagWithProperty property.range.start
    | _, _ =>
      check className.text className.range.text?
      let range : Range := ⟨opener.range.start, closer.range.stop⟩
      check range (Range.between? range.start range.stop)
      return .ofTag ⟨kind, className.text, properties, range, closer.range.start⟩

/-- A tag. The class stands directly behind the `<`, which keeps comparisons with spaces out. -/
def tagToken : RuleT m Token := do
  let opener ← alt [literal "</".toList, literal "<".toList]
  let className ← pattern Lexeme.path
  let properties ← many property
  tagTail opener className properties

end NodeMarkup.Grammar
