import NodeMarkup.Lexeme.Atom
import NodeMarkup.Match.Rule
import NodeMarkup.Text.Classes
import NodeMarkup.Text.Lines
import NodeMarkup.Token.Value

namespace NodeMarkup.Grammar

open RuleT

variable {m : Type → Type} [Monad m] [Checks m] [Arena m]

structure StringLiteral where
  -- What stands between the quotes.
  content : Text
  -- The literal as it is written as code.
  code : Text
  range : Range
deriving DecidableEq, Repr, Inhabited

/-- The text without its first and last `n` scalar values. -/
def inside (n : Nat) (t : Text) : Text := (t.drop n).take (t.length - 2 * n)

/-- A string literal. One over several lines is folded into one line and written between double
quotes. -/
def stringLiteral : RuleT m StringLiteral := do
  match ← optional (pattern Lexeme.tripleLiteral) with
  | some raw =>
    check raw.text raw.range.text?
    let body := inside Lexeme.tripleMark.length raw.text
    check body (raw.text.inner? (Text.byteLength Lexeme.tripleMark))
    let content := Text.foldLines body
    let _ ← replaceLast fun _ => Text.quote content
    return ⟨content, Text.quote content, raw.range⟩
  | none =>
    let raw ← pattern Lexeme.lineLiteral
    check raw.text raw.range.text?
    let body := inside 1 raw.text
    check body (raw.text.inner? 1)
    return ⟨body, raw.text, raw.range⟩

def integer : RuleT m Capture :=
  alt [pattern Lexeme.hexadecimal, pattern Lexeme.binary, pattern Lexeme.decimal]

def literalValue : RuleT m Value := do
  match ← optional (framed stringLiteral) with
  | some string => return ⟨.string, string.code⟩
  | none =>
    let number ← alt [pattern Lexeme.fraction, integer]
    return ⟨.number, number.text⟩

def pathValue : RuleT m Value := do
  return ⟨.symbol, (← pattern Lexeme.path).text⟩

/-- Code between braces, without the blanks at its ends. -/
def blockValue : RuleT m Value := do
  let _ ← delimited '{' '}'
  return ⟨.block, (← replaceLast Text.trim).text⟩

def arguments (value : RuleT m Value) : RuleT m Unit := do
  let _ ← literal "(".toList
  match ← optional (framed value) with
  | none => pure ()
  | some _ =>
    let _ ← many do
      let _ ← literal ",".toList
      required .missingValue value
  let _ ← required .unclosedArguments (literal ")".toList)

/-- A member behind a call, which may be called itself. -/
def member (value : RuleT m Value) : RuleT m Unit := do
  let _ ← literal ".".toList
  let _ ← pattern Lexeme.path
  let _ ← optional (arguments value)

/-- A call with the members behind it. -/
def callValue (value : RuleT m Value) : RuleT m Value := do
  let (_, capture) ← scope do
    let _ ← pattern Lexeme.path
    arguments value
    many (member value)
  return ⟨.call, capture.text⟩

/-- A value with at most `n` values inside each other. -/
def valueWithin : Nat → RuleT m Value
  | 0 => miss
  | n + 1 => alt [literalValue, callValue (valueWithin n), pathValue, blockValue]

/-- A value. A value inside another has less text to read, so the length of the unread text bounds
how deep they lie. -/
def value : RuleT m Value := fun e => valueWithin (e.cursor.rest.length + 1) e

end NodeMarkup.Grammar
