import NodeMarkup.Token.Basic
/-!
The names that a source declares. A function can be used before it is declared, so they are
collected from all tokens before any of them is used.
-/
namespace NodeMarkup

/-- The headers of the variables and functions of a source, the latest first. -/
structure Declarations where
  variableHeaders : List VariableHeader
  functionHeaders : List FunctionHeader
deriving DecidableEq, Repr, Inhabited

namespace Declarations

def empty : Declarations := ⟨[], []⟩

/-- Adds what a token declares. An import declares its class as a variable. -/
def declare (d : Declarations) : Token → Declarations
  | .ofVariable header => { d with variableHeaders := header :: d.variableHeaders }
  | .ofImport i => { d with variableHeaders := ⟨i.className, i.range⟩ :: d.variableHeaders }
  | .ofFunction header => { d with functionHeaders := header :: d.functionHeaders }
  | .ofTag _ => d

def ofTokens (tokens : List Token) : Declarations := tokens.foldl declare empty

/-- The header of a variable; of several with one name, the last in the source. -/
def variableHeader? (d : Declarations) (name : Text) : Option VariableHeader :=
  d.variableHeaders.find? (·.name == name)

/-- The header of a function; of several with one name, the last in the source. -/
def functionHeader? (d : Declarations) (name : Text) : Option FunctionHeader :=
  d.functionHeaders.find? (·.name == name)

def isVariable (d : Declarations) (name : Text) : Bool := (d.variableHeader? name).isSome

def isFunction (d : Declarations) (name : Text) : Bool := (d.functionHeader? name).isSome

end Declarations

end NodeMarkup
