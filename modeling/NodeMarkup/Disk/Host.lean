import NodeMarkup.Disk.Tree
import NodeMarkup.Text.Basic
/-!
What a command needs of the machine that it runs on, and a machine that is a value.
-/
namespace NodeMarkup.Disk

inductive Kind where
  | file
  | directory
deriving DecidableEq, Repr, Inhabited

/-- A machine with files, standard streams and a clock. -/
class Host (m : Type → Type) where
  -- What stands at a path.
  kind? : Text → m (Option Kind)
  -- The content of a file.
  read : Text → m (Except AccessFault ByteArray)
  -- Gives a file its content.
  write : Text → ByteArray → m (Except AccessFault Unit)
  -- Creates a directory in one that exists.
  makeDirectory : Text → m (Except AccessFault Unit)
  -- The files below a directory, each by the names that lead to it from there, in any order.
  filesBelow : Text → m (List Place)
  -- All of standard input.
  input : m ByteArray
  -- Writes to standard output.
  print : Text → m Unit
  -- Writes to standard error.
  complain : Text → m Unit
  -- The time since the command began, in words.
  elapsed : m Text

/-- A machine that is a value: its files, what it has read and written, and what its clock says. -/
structure World where
  tree : Tree
  input : ByteArray
  output : Text
  complaints : Text
  elapsed : Text
deriving Inhabited

def changeTree (change : Tree → Except AccessFault Tree) :
    StateM World (Except AccessFault Unit) := fun world =>
  match change world.tree with
  | .ok tree => (.ok (), { world with tree })
  | .error fault => (.error fault, world)

instance : Host (StateM World) where
  kind? path := fun world =>
    match world.tree.locate path with
    | .ok (.file _ _ false) => (some .file, world)
    | .ok (.directory _) => (some .directory, world)
    | _ => (none, world)
  read path := fun world => (world.tree.read path, world)
  write path content := changeTree (Tree.write path content)
  makeDirectory path := changeTree (Tree.makeDirectory path)
  filesBelow path := fun world => (world.tree.filesBelow path, world)
  input := fun world => (world.input, world)
  print text := fun world => ((), { world with output := world.output ++ text })
  complain text := fun world => ((), { world with complaints := world.complaints ++ text })
  elapsed := fun world => (world.elapsed, world)

variable {m : Type → Type} [Monad m] [Host m]

def readText (path : Text) : m (Except AccessFault Text) := do
  match ← Host.read path with
  | .error fault => return .error fault
  | .ok bytes =>
    match Text.ofBytes? bytes with
    | some text => return .ok text
    | none => return .error .invalidText

end NodeMarkup.Disk
