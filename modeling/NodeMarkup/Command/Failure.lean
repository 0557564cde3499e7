import NodeMarkup.Disk.AccessFault
import NodeMarkup.Source.Fault
import NodeMarkup.Text.Shown

namespace NodeMarkup.Command

/-- Why a command fails. -/
inductive Failure where
  | missingPath (path : Text)
  | unreadableInput (path : Text) (cause : Disk.AccessFault)
  | unreadableFixture (path : Text) (cause : Disk.AccessFault)
  | unreadableStandardInput (cause : Disk.AccessFault)
  | missingDirectory (path : Text) (cause : Disk.AccessFault)
  | unwritableOutput (path : Text) (cause : Disk.AccessFault)
  -- A source that is refused; without a name it is standard input.
  | refusedSource (name : Option Text) (cause : ParseError)
  | refusedFiles (count : Nat)
  | failedFixtures (count : Nat)
deriving DecidableEq, Repr, Inhabited

namespace Failure

def message : Failure → Text
  | missingPath path => "path ".toList ++ path ++ " does not exist".toList
  | unreadableInput path _ => "failed to read input file ".toList ++ path
  | unreadableFixture path _ => "failed to read fixture ".toList ++ path
  | unreadableStandardInput cause => cause.message
  | missingDirectory path _ => "failed to create directory ".toList ++ Text.shown path
  | unwritableOutput path _ => "failed to write output file ".toList ++ path
  | refusedSource name _ => "failed to transpile ".toList ++ name.getD "<stdin>".toList
  | refusedFiles count => Nat.toDigits 10 count ++ " file(s) failed to transpile".toList
  | failedFixtures count => Nat.toDigits 10 count ++ " fixture(s) failed".toList

def cause? : Failure → Option Text
  | unreadableInput _ cause => some cause.message
  | unreadableFixture _ cause => some cause.message
  | missingDirectory _ cause => some cause.message
  | unwritableOutput _ cause => some cause.message
  | refusedSource _ cause => some cause.display
  | _ => none

/-- What is written about a failure in the end. -/
def report (failure : Failure) : Text :=
  "Error: ".toList ++ failure.message ++
    match failure.cause? with
    | none => "\n".toList
    | some cause => "\n\nCaused by:\n    ".toList ++ cause ++ "\n".toList

end Failure

end NodeMarkup.Command
