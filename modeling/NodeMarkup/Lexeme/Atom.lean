import NodeMarkup.Lexeme.Basic

namespace NodeMarkup.Lexeme

def isSymbolStart (c : Char) : Bool := c.isAlpha || c = '_'

/-- Whether a scalar value can go on a symbol. -/
def isSymbolPart (c : Char) : Bool := c.isAlphanum || c = '_'

/-- Whether a scalar value can go on the name of a property. -/
def isPropertyPart (c : Char) : Bool := isSymbolPart c || c = ':' || c = '.'

/-- A symbol: a letter or `_`, then letters, digits and `_`. -/
def symbol : Pattern := .andThen (.one isSymbolStart) (.run isSymbolPart)

/-- The name of a property: a symbol that may go on with `:` and `.`. -/
def propertyName : Pattern := .andThen (.one isSymbolStart) (.run isPropertyPart)

/-- What follows the first letter of a path: a `.` belongs to it only in front of another symbol. -/
def pathTail : Text → Nat
  | [] => 0
  | '.' :: c :: rest => if isSymbolStart c then pathTail rest + 2 else 0
  | c :: rest => if isSymbolPart c then pathTail rest + 1 else 0

/-- A path: symbols with a `.` between each two. -/
def path : Pattern := .andThen (.one isSymbolStart) fun t => some (pathTail t)

/-- One scalar value that would make a keyword before it part of a longer name. -/
def symbolPart : Pattern := .one isSymbolPart

def isHexDigit (c : Char) : Bool :=
  c.isDigit || ('a' ≤ c && c ≤ 'f') || ('A' ≤ c && c ≤ 'F')

def isBinaryDigit (c : Char) : Bool := c = '0' || c = '1'

def sign : Pattern := .maybe (.one fun c => c = '+' || c = '-')

def hexadecimal : Pattern :=
  .andThen sign (.andThen (.word "0x".toList) (.someRun isHexDigit))

def binary : Pattern := .andThen sign (.andThen (.word "0b".toList) (.someRun isBinaryDigit))

def decimal : Pattern := .andThen sign (.someRun Char.isDigit)

def exponent : Pattern :=
  .andThen (.one fun c => c = 'e' || c = 'E') (.andThen sign (.someRun Char.isDigit))

def fractionMark : Pattern := .one fun c => c = 'f' || c = 'F'

/-- What makes a decimal integer a fraction: a point with digits, a power of ten or the mark. -/
def fractionTail : Pattern :=
  .orElse
    (.andThen (.one (· = '.'))
      (.andThen (.run Char.isDigit) (.andThen (.maybe exponent) (.maybe fractionMark))))
    (.orElse (.andThen exponent (.maybe fractionMark)) fractionMark)

def fraction : Pattern := .andThen decimal fractionTail

/-- The rest of a literal through its closing mark. A backslash takes the next scalar value with
it, and a line break is no part of the literal. -/
def literalTail (mark : Char) : Text → Option Nat
  | [] => none
  | '\\' :: c :: rest => if c = '\n' then none else (literalTail mark rest).map (· + 2)
  | c :: rest =>
    if c = mark then some 1
    else if c = '\\' || c = '\n' then none
    else (literalTail mark rest).map (· + 1)

def lineLiteral : Pattern
  | [] => none
  | c :: rest =>
    if c = '"' || c = '\'' then (literalTail c rest).map (· + 1) else none

def tripleMark : Text := "\"\"\"".toList

/-- A literal over several lines, which ends at the next triple mark. -/
def tripleLiteral : Pattern :=
  .andThen (.word tripleMark) fun t => (Text.indexOf? tripleMark t).map (· + tripleMark.length)

def literal : Pattern := .orElse tripleLiteral lineLiteral

end NodeMarkup.Lexeme
