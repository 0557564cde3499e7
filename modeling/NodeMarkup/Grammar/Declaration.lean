import NodeMarkup.Grammar.Value
import NodeMarkup.Token.Basic

namespace NodeMarkup.Grammar

open RuleT

variable {m : Type → Type} [Monad m] [Checks m] [Arena m]

/-- A word that is not the beginning of a longer name. -/
def keyword (word : Text) : RuleT m Capture := do
  let capture ← literal word
  negate
  let _ ← pattern Lexeme.symbolPart
  return capture

def symbol : RuleT m Capture := pattern Lexeme.symbol

/-- An import. Once its keyword is read, everything behind it is owed. -/
def importToken : RuleT m Token := do
  let start ← keyword "import".toList
  let name ← required .missingImportName symbol
  let _ ← required .missingImportFrom (keyword "from".toList)
  let path ← required .missingImportPath stringLiteral
  check name.text name.range.text?
  let range : Range := ⟨start.range.start, path.range.stop⟩
  check range (Range.between? range.start range.stop)
  return .ofImport ⟨name.text, path.content, range⟩

/-- The name of a type, with what stands between brackets behind it. -/
def typeName : RuleT m Unit := do
  let _ ← pattern Lexeme.path
  let _ ← optional (delimited '[' ']')

/-- The type of a variable, or a `:` alone. -/
def typeHint : RuleT m Unit := do
  let _ ← literal ":".toList
  let _ ← optional (framed typeName)

def initializer {α : Type} (expression : RuleT m α) : RuleT m Unit := do
  let _ ← literal "=".toList
  let _ ← framed expression

/-- A name with what may follow it in a declaration: its type and its initial value. -/
def declaredName {α : Type} (expression : RuleT m α) : RuleT m Capture := do
  let name ← framed symbol
  let _ ← optional (framed typeHint)
  let _ ← optional (framed (initializer expression))
  check name.text name.range.text?
  let _ ← rangeFrom name.range.start
  return name

/-- The header of a variable. An initial value is part of it only if it is a literal. -/
def variableToken : RuleT m Token := do
  let start ← keyword "var".toList
  let name ← declaredName literalValue
  return .ofVariable ⟨name.text, ← rangeFrom start.range.start⟩

/-- The default value of a parameter, which is cut out of the unread text. -/
def defaultValue : RuleT m Capture := do
  let place ← cursor
  check place.rest place.rest?
  let expression := place.rest.take (Lexeme.expressionLength .code 0 place.rest)
  check expression (place.rest.slice? 0 (Text.byteLength expression))
  pattern Lexeme.defaultValue

def parameter : RuleT m Capture := declaredName defaultValue

/-- The parameters of a function, with a `,` between each two and perhaps one behind the last. -/
def parameters : RuleT m (List Capture) := do
  match ← optional (framed parameter) with
  | none => return []
  | some first =>
    let rest ← many do
      let _ ← literal ",".toList
      framed parameter
    let _ ← optional (framed (literal ",".toList))
    return first :: rest

def returnType : RuleT m Unit := do
  let _ ← literal "->".toList
  framed typeName

/-- The header of a function. A function without a name is none. -/
def functionToken : RuleT m Token := do
  let start ← keyword "func".toList
  let name ← framed symbol
  let _ ← required .missingParameters (literal "(".toList)
  let names ← parameters
  let _ ← required .unclosedParameters (literal ")".toList)
  let _ ← optional (framed returnType)
  check name.text name.range.text?
  return .ofFunction ⟨name.text, names.map Capture.text, ← rangeFrom start.range.start⟩

end NodeMarkup.Grammar
