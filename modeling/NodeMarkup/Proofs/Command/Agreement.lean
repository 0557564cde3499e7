import NodeMarkup.Proofs.Command.Build
/-!
The ways to get the code of one file. Each command finds out on its own where the file lives among
the resources, but for a file that is named itself this is the root of the resources however its
path is spelled. So all of them come to the same code, or refuse the file for the same reason.
-/
namespace NodeMarkup.Command

open Disk Text

variable {world : World} {file resRoot text code : Text} {bytes : ByteArray} {e : ParseError}

/-- The name of a source does not matter for its code. -/
theorem transpileIn_congr {context context' : Resource.Context}
    (h : context.folder = context'.folder) (source : Text) :
    transpileIn context source = transpileIn context' source := by
  obtain ⟨name, folder⟩ := context
  obtain ⟨name', folder'⟩ := context'
  obtain rfl : folder = folder' := h
  rfl

/-- A file is in the root of the resources, as seen from its own directory. -/
theorem folder_contextOf (file resRoot : Text) :
    (contextOf ((parent? file).getD []) file resRoot).folder = resRoot := by
  unfold contextOf
  cases parent? file with
  | none => rfl
  | some directory =>
    rw [Option.getD_some, Option.bind_some, Path.strip?_self]
    rfl

theorem transpileIn_contextOf (file resRoot text : Text) :
    transpileIn (contextOf ((parent? file).getD []) file resRoot) text =
      transpileIn ⟨[], resRoot⟩ text :=
  transpileIn_congr (folder_contextOf file resRoot) text

theorem sourceRoot_file (hread : world.tree.read file = .ok bytes) :
    (sourceRoot file : StateM World _) world = ((parent? file).getD [], world) := by
  rw [sourceRoot_eq, kind?_file hread, if_pos rfl]

theorem discover_file (hread : world.tree.read file = .ok bytes) (extension : Text) :
    runOn world (discover file extension) = (.ok [file], world) := by
  rw [runOn_discover, kind?_file hread]

/-- What becomes of the outcome for a text that has been read from somewhere. -/
def deliver (world : World) (input output : Option Text) (outcome : Except ParseError Text) :
    Except Failure Unit × World :=
  match outcome with
  | .error e => (.error (.refusedSource input e), world)
  | .ok code =>
    match output with
    | some path => runOn world (writeOutput path code)
    | none => (.ok (), { world with output := world.output ++ code })

theorem runOn_transpiled (world : World) (input output : Option Text) (context : Resource.Context)
    (text : Text) :
    runOn world (do
      let code ← orRefuse (.refusedSource input) (transpileIn context text)
      match output with
      | some path => writeOutput path code
      | none => (Host.print code : StateM World _)) =
        deliver world input output (transpileIn context text) := by
  rw [runOn_bind]
  cases transpileIn context text with
  | error e => rfl
  | ok code => cases output <;> rfl

theorem runOn_runTranspile_file (hread : world.tree.read file = .ok bytes)
    (htext : ofBytes? bytes = some text) (output : Option Text) (resRoot : Text) :
    runOn world (runTranspile (some file) output resRoot) =
      deliver world (some file) output (transpileIn ⟨[], resRoot⟩ text) := by
  have hreadText : world.tree.readText file = .ok text :=
    Tree.readText_iff.2 ⟨bytes, hread, htext⟩
  unfold runTranspile
  dsimp only
  rw [runOn_bind, runOn_orFail, readText_eq, hreadText]
  dsimp only [Except.mapError]
  rw [runOn_bind, runOn_lift, sourceRoot_file hread]
  dsimp only
  rw [pure_bind, ← transpileIn_contextOf file]
  exact runOn_transpiled world (some file) output _ text

theorem runOn_runTranspile_input (htext : ofBytes? world.input = some text) (output : Option Text)
    (resRoot : Text) :
    runOn world (runTranspile none output resRoot) =
      deliver world none output (transpileIn ⟨[], resRoot⟩ text) := by
  have hinput : (Host.input : StateM World _) world = (world.input, world) := rfl
  unfold runTranspile
  dsimp only
  rw [runOn_bind, runOn_lift, hinput]
  dsimp only
  rw [htext]
  dsimp only
  rw [pure_bind]
  exact runOn_transpiled world none output _ text

/-- A build of one file. -/
theorem execute_build_file {outDir : Option Text} {accepted : Bool} {mid : World}
    (hread : world.tree.read file = .ok bytes) (extension : Text)
    (hrun : runOn world (buildSource ((parent? file).getD []) outDir resRoot file) =
      (.ok accepted, mid)) :
    (execute (.build file outDir extension resRoot) : StateM World Nat) world =
      (if accepted then 0 else 1,
        { mid with
          output := mid.output ++ summary accepted.toNat (!accepted).toNat
          complaints := mid.complaints ++
            if accepted then [] else (Failure.refusedFiles 1).report }) := by
  have hnone : runOn world (([] : List Text).mapM
    (buildSource ((parent? file).getD []) outDir resRoot)) = (.ok [], world) := rfl
  rw [execute_build (sourceRoot_file hread) (discover_file hread extension) (List.cons_ne_nil _ _)
    (runOn_mapM_concat hnone hrun)]
  cases accepted <;> rfl

/-- The ways to get the code of one file. -/
inductive Route where
  -- From the file to standard output.
  | printed
  -- From the file to another.
  | saved (output : Text)
  -- From standard input, which is given the content of the file, to standard output.
  | piped
  -- From the file to its target, as the only source of a build.
  | built (outDir : Option Text) (extension : Text)

namespace Route

def command (file resRoot : Text) : Route → Command
  | printed => .transpile (some file) none resRoot
  | saved output => .transpile (some file) (some output) resRoot
  | piped => .transpile none none resRoot
  | built outDir extension => .build file outDir extension resRoot

/-- The machine that a command is given. -/
def machine (bytes : ByteArray) (world : World) : Route → World
  | piped => { world with input := bytes }
  | printed | saved _ | built _ _ => world

/-- The file that the code is written to, if it is not standard output. -/
def target? (file : Text) : Route → Option Text
  | printed | piped => none
  | saved output => some output
  | built outDir _ => some (targetOf ((parent? file).getD []) file outDir)

/-- A command succeeds and leaves some code where its code goes. -/
def Yields (world : World) (file : Text) (bytes : ByteArray) (resRoot code : Text) (route : Route) :
    Prop :=
  ∃ after, (execute (route.command file resRoot) : StateM World Nat) (route.machine bytes world) =
      (0, after) ∧
    match route.target? file with
    | none => after.output = world.output ++ code
    | some target => after.tree.read target = .ok (toBytes code)

theorem yields (hread : world.tree.read file = .ok bytes) (htext : ofBytes? bytes = some text)
    (hcode : transpileIn ⟨[], resRoot⟩ text = .ok code) {route : Route}
    (hwrite : ∀ target ∈ route.target? file, CanWrite target world) :
    route.Yields world file bytes resRoot code := by
  cases route with
  | printed =>
    have hrun := runOn_runTranspile_file hread htext none resRoot
    rw [hcode] at hrun
    exact ⟨_, execute_of_ok hrun, rfl⟩
  | saved output =>
    have hrun := runOn_runTranspile_file hread htext (some output) resRoot
    obtain ⟨after, hwritten, -, hback⟩ := (hwrite output rfl).exists_read code
    rw [hcode] at hrun
    exact ⟨after, execute_of_ok (hrun.trans hwritten), hback⟩
  | piped =>
    have hrun : runOn { world with input := bytes } _ = _ :=
      runOn_runTranspile_input htext none resRoot
    rw [hcode] at hrun
    exact ⟨_, execute_of_ok hrun, rfl⟩
  | built outDir extension =>
    obtain ⟨after, hwritten, -, hback⟩ := (hwrite _ rfl).exists_read code
    have hrun := runOn_buildSource ((parent? file).getD []) outDir resRoot file world
    rw [Tree.readText_iff.2 ⟨bytes, hread, htext⟩] at hrun
    dsimp only at hrun
    rw [transpileIn_contextOf, hcode] at hrun
    dsimp only at hrun
    rw [hwritten] at hrun
    exact ⟨_, execute_build_file hread extension hrun, hback⟩

end Route

/-- A source that imports a class, and its code. -/
def oneText : Text := "import B from \"./ui/b\"\nvar x = <B/>".toList

/-- The source below the working directory. -/
def oneSource : World where
  tree :=
    ⟨[(["home".toList], .directory),
      (["home".toList, "w".toList], .directory),
      (["home".toList, "w".toList, "p".toList], .directory),
      (["home".toList, "w".toList, "p".toList, "a.gdx".toList], .file (toBytes oneText))],
      ["home".toList, "w".toList]⟩
  input := .empty
  output := []
  complaints := []
  elapsed := []

end NodeMarkup.Command
