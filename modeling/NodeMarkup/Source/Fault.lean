import NodeMarkup.Source.Cursor

namespace NodeMarkup

/-- Why a source is refused. -/
inductive Fault where
  -- No name behind `import`.
  | missingImportName
  -- No `from` behind the name of an import.
  | missingImportFrom
  -- No literal behind `from`.
  | missingImportPath
  -- No `(` behind the name of a function.
  | missingParameters
  -- No `)` behind the parameters of a function.
  | unclosedParameters
  -- No `>` or `/>` behind the properties of a tag.
  | unclosedTag
  -- No value behind the `=` of a property or the `,` of an argument.
  | missingValue
  -- No `)` behind the arguments of a call.
  | unclosedArguments
  -- A block that runs to the end of the source without its closing delimiter.
  | unclosedBlock (delimiter : Char)
  -- A closing tag that ends in `/>`.
  | selfClosedClosingTag
  -- A closing tag with a property.
  | closingTagWithProperty
  -- A frame closed where none was opened.
  | noFrameToClose
  -- A frame still open behind a token.
  | frameLeftOpen
  -- An import in the body of a tag.
  | importInsideTag
  -- A closing tag where no tag is open.
  | nothingToClose
  -- A closing tag of another class than the innermost open tag.
  | mismatchedClosingTag (openClass : Text)
  -- An opening tag that is never closed.
  | missingClosingTag
  -- A demand in words of its own.
  | demand (words : Text)
deriving DecidableEq, Repr, Inhabited

def Fault.message : Fault → Text
  | missingImportName => "Expected name of the imported component".toList
  | missingImportFrom => "Expected token \"from\"".toList
  | missingImportPath => "Expected path string".toList
  | missingParameters => "Expected \"(\" after function name".toList
  | unclosedParameters => "Expected \")\" to close the parameter list".toList
  | unclosedTag => "Expected tag close \"/>\" or \">\"".toList
  | missingValue => "Expected value".toList
  | unclosedArguments => "Expected \")\"".toList
  | unclosedBlock delimiter => "Couldn't find block end \"".toList ++ [delimiter, '"']
  | selfClosedClosingTag => "Can't end closing tag with \"/>\"".toList
  | closingTagWithProperty => "Closing tag can't have properties".toList
  | noFrameToClose => "Closing more match frames than were opened".toList
  | frameLeftOpen => "Not all match frames were closed".toList
  | importInsideTag => "Imports can't appear inside a tag".toList
  | nothingToClose => "This tag is closing nothing".toList
  | mismatchedClosingTag openClass =>
    "This tag doesn't match with parent tag \"".toList ++ openClass ++ ['"']
  | missingClosingTag => "Missing closing tag for this tag".toList
  | demand words => words

/-- A fault at a line and a column, both counted from one. -/
structure ParseError where
  fault : Fault
  line : Nat
  column : Nat
deriving DecidableEq, Repr, Inhabited

namespace ParseError

def ofCursor (fault : Fault) (cursor : Cursor) : ParseError :=
  ⟨fault, cursor.line + 1, cursor.column + 1⟩

def message (e : ParseError) : Text := e.fault.message

def display (e : ParseError) : Text :=
  "Parse error at line ".toList ++ Nat.toDigits 10 e.line ++ " column ".toList
    ++ Nat.toDigits 10 e.column ++ ": ".toList ++ e.message

end ParseError

end NodeMarkup
