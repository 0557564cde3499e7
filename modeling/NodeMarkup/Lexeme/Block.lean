import NodeMarkup.Lexeme.Basic
import NodeMarkup.Text.Classes
import NodeMarkup.Text.Quoted
/-!
Stretches of code that are not looked into: what stands between two delimiters, and the default
value of a parameter. Delimiters inside quoted runs do not count.
-/
namespace NodeMarkup.Lexeme

/-- The length of the code up to the delimiter that closes it, `depth` being the number of inner
delimiters still to be closed. -/
def blockLength (opening closing : Char) : QuoteState → Nat → Text → Option Nat
  | _, _, [] => none
  | .code, depth, c :: rest =>
    if Text.isQuote c then (blockLength opening closing (.quoted c) depth rest).map (· + 1)
    else if c = opening then (blockLength opening closing .code (depth + 1) rest).map (· + 1)
    else if c = closing then
      match depth with
      | 0 => some 0
      | depth + 1 => (blockLength opening closing .code depth rest).map (· + 1)
    else (blockLength opening closing .code depth rest).map (· + 1)
  | state, depth, c :: rest => (blockLength opening closing (state.next c) depth rest).map (· + 1)

def isOpening (c : Char) : Bool := c = '(' || c = '[' || c = '{'

def isClosing (c : Char) : Bool := c = ')' || c = ']' || c = '}'

/-- The length of the code up to a `,` or a closing bracket outside every bracket, or to the end.
Which bracket closes which does not matter. -/
def expressionLength : QuoteState → Nat → Text → Nat
  | _, _, [] => 0
  | .code, depth, c :: rest =>
    if Text.isQuote c then expressionLength (.quoted c) depth rest + 1
    else if isOpening c then expressionLength .code (depth + 1) rest + 1
    else if isClosing c then
      match depth with
      | 0 => 0
      | depth + 1 => expressionLength .code depth rest + 1
    else if c = ',' && depth = 0 then 0
    else expressionLength .code depth rest + 1
  | state, depth, c :: rest => expressionLength (state.next c) depth rest + 1

/-- The default value of a parameter, without the blanks behind it. -/
def defaultValue : Pattern := fun t =>
  match (Text.trimEnd (t.take (expressionLength .code 0 t))).length with
  | 0 => none
  | n + 1 => some (n + 1)

end NodeMarkup.Lexeme
