import NodeMarkup.Command.Run

namespace NodeMarkup.Terminal

open Disk

/-- A run on the machine at hand that began at a time of its clock. -/
abbrev Session := ReaderT Nat IO

def onDisk (path : Text) := (fun here => here / String.ofList path) <$> IO.currentDir

/-- The fault behind an error of the machine. -/
def faultOf : IO.Error → AccessFault
  | .noFileOrDirectory _ _ _ => .notFound
  | .alreadyExists _ _ _ => .alreadyExists
  | .inappropriateType _ code _ => if code = 21 then .isDirectory else .notDirectory
  | e@(.invalidArgument _ code _) =>
    if code = 36 then .nameTooLong else .other (toString e).toList
  | e => .other (toString e).toList

/-- Runs an action on a path that can name something. -/
def attempt {α : Type} (path : Text) (action : IO α) : IO (Except AccessFault α) := do
  match pathFault? path with
  | some fault => return .error fault
  | none =>
    try return .ok (← action)
    catch e => return .error (faultOf e)

def kindAt (path : Text) : IO (Option Kind) := do
  let metadata ← attempt path do (← onDisk path).metadata
  match metadata with
  | .error _ => return none
  | .ok metadata =>
    match metadata.type with
    | .dir => return some .directory
    | .file => return some .file
    | _ => return none

/-- The files below a directory. Links are not followed. -/
partial def filesUnder (path : Text) (names : Place) : IO (List Place) := do
  let mut found := []
  for entry in ← (← onDisk path).readDir do
    let names := names ++ [entry.fileName.toList]
    match (← entry.path.symlinkMetadata).type with
    | .dir => found := (← filesUnder (joinPath path entry.fileName.toList) names) ++ found
    | .file => found := names :: found
    | _ => pure ()
  return found

instance : Host Session where
  kind? path := kindAt path
  read path := attempt path do IO.FS.readBinFile (← onDisk path)
  write path content := attempt path do IO.FS.writeBinFile (← onDisk path) content
  makeDirectory path := attempt path do IO.FS.createDir (← onDisk path)
  filesBelow path := filesUnder path []
  input := do (← IO.getStdin).readBinToEnd
  print text := do (← IO.getStdout).putStr (String.ofList text)
  complain text := do (← IO.getStderr).putStr (String.ofList text)
  elapsed := do
    let start ← read
    return Command.elapsedText ((← IO.monoNanosNow) - start)

/-- How the commands are given. -/
def usage : String :=
  "Usage: gdx <COMMAND>\n\nCommands:\n"
    ++ "  build <PATH> [--out-dir <DIR>] [--extension <EXTENSION>] [--res-root <PATH>]\n"
    ++ "  test <DIR> [--res-root <PATH>]\n"
    ++ "  transpile [-i <INPUT>] [-o <OUTPUT>] [--res-root <PATH>]\n"
    ++ "  help\n"

def answerUsage : Command.UsageFault → IO UInt32
  | .helpAsked => do
    IO.print usage
    return 0
  | .versionAsked => do
    IO.println "gdx 0.1.0"
    return 0
  | _ => do
    IO.eprint usage
    return 2

end NodeMarkup.Terminal

def main (arguments : List String) : IO UInt32 := do
  match NodeMarkup.Command.ofArguments (arguments.map String.toList) with
  | .error fault => NodeMarkup.Terminal.answerUsage fault
  | .ok command =>
    let run : NodeMarkup.Terminal.Session Nat := command.execute
    return (← run.run (← IO.monoNanosNow)).toUInt32
