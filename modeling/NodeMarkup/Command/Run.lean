import NodeMarkup.Command.Arguments
import NodeMarkup.Command.Failure
import NodeMarkup.Command.Project
import NodeMarkup.Disk.Host
import NodeMarkup.Text.Lines
import NodeMarkup.Transpile

namespace NodeMarkup.Command

open Disk

/-- A quotient rounded to the nearest whole number, a half to the even one. -/
def roundedQuotient (n d : Nat) : Nat :=
  let q := n / d
  let twice := 2 * (n % d)
  if twice < d then q else if twice = d then q + q % 2 else q + 1

/-- A time with two places in the largest unit in which it is at least one. -/
def elapsedText (nanoseconds : Nat) : Text :=
  let (unit, mark) :=
    if 1000000000 ≤ nanoseconds then (1000000000, "s")
    else if 1000000 ≤ nanoseconds then (1000000, "ms")
    else if 1000 ≤ nanoseconds then (1000, "µs")
    else (1, "ns")
  let hundredths := roundedQuotient (100 * nanoseconds) unit
  Nat.toDigits 10 (hundredths / 100) ++ '.' :: Nat.toDigits 10 (hundredths / 10 % 10)
    ++ Nat.toDigits 10 (hundredths % 10) ++ mark.toList

variable {m : Type → Type} [Monad m] [Host m]

abbrev Work (m : Type → Type) := ExceptT Failure m

/-- Work of the machine, whose faults are told as failures. -/
def orFail {α : Type} (failure : AccessFault → Failure) (action : m (Except AccessFault α)) :
    Work m α := do
  match ← (action : Work m (Except AccessFault α)) with
  | .ok a => return a
  | .error fault => throw (failure fault)

def orRefuse {α : Type} (failure : ParseError → Failure) : Except ParseError α → Work m α
  | .ok a => return a
  | .error e => throw (failure e)

def printLine (line : Text) : m Unit := Host.print (line ++ ['\n'])

def complainLine (line : Text) : m Unit := Host.complain (line ++ ['\n'])

def isFile (path : Text) : m Bool := return (← Host.kind? path) = some .file

/-- The directory from which the resource paths of sources are counted. -/
def sourceRoot (path : Text) : m Text := do
  if ← isFile path then return (parent? path).getD [] else return path

/-- The sources at a path: the file itself, or the files with an extension below the directory, in
the order of their names from the directory down. -/
def discover (path extension : Text) : Work m (List Text) := do
  match ← (Host.kind? path : m _) with
  | none => throw (.missingPath path)
  | some .file => return [path]
  | some .directory =>
    let places : List Place ← (Host.filesBelow path : m _)
    let places := places.mergeSort Place.inOrder
    let files := places.map fun place => joinPath path (Text.join '/' place)
    return files.filter fun file => extension? file = some extension

/-- The result of an attempt to create a directory. Where one exists, a fault is none. -/
def orExisting (path : Text) (result : Except AccessFault Unit) : m (Except AccessFault Unit) := do
  match result with
  | .ok () => return .ok ()
  | .error fault =>
    if (← Host.kind? path) = some .directory then return .ok () else return .error fault

/-- Creates a directory with all that lead to it, at most `n` of them. -/
def makeDirectoriesWithin : Nat → Text → m (Except AccessFault Unit)
  | 0, _ => return .error .notFound
  | n + 1, path => do
    if path.isEmpty then return .ok ()
    else
      match ← Host.makeDirectory path with
      | .error .notFound =>
        match parent? path with
        | none => return .error .notFound
        | some above =>
          match ← makeDirectoriesWithin n above with
          | .error fault => return .error fault
          | .ok () => orExisting path (← Host.makeDirectory path)
      | result => orExisting path result

/-- Creates a directory with all that lead to it. A path is longer than what leads to it. -/
def makeDirectories (path : Text) : m (Except AccessFault Unit) :=
  makeDirectoriesWithin (path.length + 1) path

/-- Writes a text to a file, in a directory that is created if need be. -/
def writeOutput (path text : Text) : Work m Unit := do
  match parent? path with
  | none => pure ()
  | some directory => orFail (.missingDirectory directory) (makeDirectories directory)
  orFail (.unwritableOutput path) (Host.write path (Text.toBytes text))

/-- Builds one source, and says whether it was accepted. -/
def buildSource (root : Text) (outDir : Option Text) (resRoot source : Text) : Work m Bool := do
  let text ← orFail (.unreadableInput source) (readText source)
  match transpileIn (contextOf root source resRoot) text with
  | .ok code =>
    let target := targetOf root source outDir
    writeOutput target code
    printLine (m := m) (source ++ " -> ".toList ++ target)
    return true
  | .error e =>
    complainLine (m := m) (source ++ ':' :: Nat.toDigits 10 e.line
      ++ ':' :: Nat.toDigits 10 e.column ++ ": ".toList ++ e.message)
    return false

/-- Builds every source at a path. A source that is refused does not stop the others. -/
def runBuild (path : Text) (outDir : Option Text) (extension resRoot : Text) : Work m Unit := do
  let root ← (sourceRoot path : m _)
  let sources ← discover path extension
  if sources.isEmpty then
    printLine (m := m) ("No .".toList ++ extension ++ " files found under ".toList ++ path)
  else
    let accepted ← sources.mapM (buildSource root outDir resRoot)
    let failed := accepted.count false
    printLine (m := m) ("Built ".toList ++ Nat.toDigits 10 (accepted.count true)
      ++ " file(s), ".toList ++ Nat.toDigits 10 failed ++ " failed".toList)
    if failed ≠ 0 then throw (.refusedFiles failed)

/-- One line of a difference, where a text may have ended. -/
def shownLine (line : Option Text) : Text := line.getD "<end of file>".toList

/-- Compares the code of one source with what is expected, and says whether it is that. -/
def runFixture (directory resRoot source : Text) : Work m Bool := do
  let name := (strip? directory source).getD source
  let expectedPath := withExtension expectedExtension source
  let text ← orFail (.unreadableFixture source) (readText source)
  let expected ← orFail (.unreadableFixture expectedPath) (readText expectedPath)
  match transpileIn (contextOf directory source resRoot) text with
  | .ok actual =>
    if actual = expected then
      printLine (m := m) ("PASS ".toList ++ name)
      return true
    else
      printLine (m := m) ("FAIL ".toList ++ name)
      match Text.firstDifference expected actual with
      | none => pure ()
      | some difference =>
        printLine (m := m) ("  first difference at line ".toList
          ++ Nat.toDigits 10 difference.line ++ ":".toList)
        printLine (m := m) ("    expected: ".toList ++ shownLine difference.expected)
        printLine (m := m) ("    actual:   ".toList ++ shownLine difference.actual)
      return false
  | .error e =>
    printLine (m := m) ("FAIL ".toList ++ name)
    printLine (m := m) ("  ".toList ++ e.display)
    return false

/-- Compares the code of every source below a directory that comes with what is expected. -/
def runTest (directory resRoot : Text) : Work m Unit := do
  let sources ← discover directory sourceExtension
  let fixtures ← sources.filterM fun source =>
    (isFile (withExtension expectedExtension source) : m _)
  let passed ← fixtures.mapM (runFixture directory resRoot)
  let failed := passed.count false
  printLine (m := m) (Nat.toDigits 10 (passed.count true) ++ " passed, ".toList
    ++ Nat.toDigits 10 failed ++ " failed in ".toList ++ (← (Host.elapsed : m _)))
  if failed ≠ 0 then throw (.failedFixtures failed)

/-- Writes the code of one source. Without paths it goes from standard input to standard output. -/
def runTranspile (input output : Option Text) (resRoot : Text) : Work m Unit := do
  let (text, context) ← match input with
    | some path =>
      let text ← orFail (.unreadableInput path) (readText path)
      pure (text, contextOf (← (sourceRoot path : m _)) path resRoot)
    | none =>
      match Text.ofBytes? (← (Host.input : m _)) with
      | some text => pure (text, ⟨[], resRoot⟩)
      | none => throw (.unreadableStandardInput .invalidText)
  let code ← orRefuse (.refusedSource input) (transpileIn context text)
  match output with
  | some path => writeOutput path code
  | none => (Host.print code : m _)

def run : Command → Work m Unit
  | .build path outDir extension resRoot => runBuild path outDir extension resRoot
  | .test directory resRoot => runTest directory resRoot
  | .transpile input output resRoot => runTranspile input output resRoot

/-- Runs a command, writes about its failure, and gives the exit status. -/
def execute (command : Command) : m Nat := do
  match ← (run command : Work m Unit).run with
  | .ok () => return 0
  | .error failure =>
    Host.complain failure.report
    return 1

end NodeMarkup.Command
