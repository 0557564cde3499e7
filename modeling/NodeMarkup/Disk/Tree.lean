import NodeMarkup.Disk.AccessFault

namespace NodeMarkup.Disk

/-- The names from the root down to a file or directory. -/
abbrev Place := List Text

/-- Whether a list comes before another or is the same, by the first place in which they differ. -/
def inOrder {α : Type} [DecidableEq α] (le : α → α → Bool) : List α → List α → Bool
  | [], _ => true
  | _ :: _, [] => false
  | a :: as, b :: bs => if a = b then inOrder le as bs else le a b

/-- Whether a place comes before another or is the same: name by name from the directory that they
are seen from, and names by the numbers of their scalar values. -/
def Place.inOrder : Place → Place → Bool :=
  Disk.inOrder (Disk.inOrder fun a b : Char => Nat.ble a.toNat b.toNat)

/-- The names that lead from a directory down to a place, if the place lies below it. -/
def Place.below? (above place : Place) : Option (List Text) :=
  if above.isPrefixOf place && above ≠ place then some (place.drop above.length) else none

def maxNameBytes : Nat := 255

def maxPathBytes : Nat := 4095

/-- What is wrong with a path, whatever files there are. -/
def pathFault? (path : Text) : Option AccessFault :=
  if path.contains '\x00' then some .nulInName
  else if path.isEmpty then some .notFound
  else if maxPathBytes < Text.byteLength path then some .nameTooLong
  else none

inductive Entry where
  | file (content : ByteArray)
  | directory
deriving Inhabited

instance : DecidableEq Entry
  | .file a, .file b =>
    decidable_of_iff (a.data = b.data)
      ⟨fun h => congrArg Entry.file (ByteArray.ext h), fun h => by injection h with h; rw [h]⟩
  | .directory, .directory => .isTrue rfl
  | .file _, .directory => .isFalse nofun
  | .directory, .file _ => .isFalse nofun

/-- The entries below the root, each with its place, and the working directory. -/
structure Tree where
  entries : List (Place × Entry)
  here : Place
deriving Inhabited

inductive Target where
  | directory (place : Place)
  -- A file. The flag says that the path asks for a directory, by a slash at its end.
  | file (place : Place) (content : ByteArray) (slash : Bool)
  -- Nothing yet, in a directory that exists. The flag is that of a file.
  | vacant (place : Place) (slash : Bool)
  -- A directory that exists, at a name that is too long for anything to stand there. The flag is
  -- that of a file.
  | unnameable (slash : Bool)
deriving Inhabited

namespace Tree

def get? (t : Tree) (place : Place) : Option Entry :=
  if place = [] then some .directory else (t.entries.find? (·.1 = place)).map Prod.snd

def insert (place : Place) (entry : Entry) (t : Tree) : Tree :=
  { t with entries := (place, entry) :: t.entries.filter (·.1 ≠ place) }

/-- Follows the pieces of a path from a directory on. The root is its own parent. -/
def follow (t : Tree) : Place → List Text → Except AccessFault Target
  | place, [] => .ok (.directory place)
  | place, piece :: rest =>
    if piece = [] || piece = ".".toList then t.follow place rest
    else if piece = "..".toList then
      t.follow place.dropLast rest
    else if maxNameBytes < Text.byteLength piece then
      if rest.all List.isEmpty then .ok (.unnameable !rest.isEmpty) else .error .nameTooLong
    else
      let place := place ++ [piece]
      match t.get? place with
      | some .directory => t.follow place rest
      | some (.file content) =>
        if rest.all List.isEmpty then .ok (.file place content !rest.isEmpty)
        else .error .notDirectory
      | none =>
        if rest.all List.isEmpty then .ok (.vacant place !rest.isEmpty) else .error .notFound

/-- The directory from which a path leads. -/
def origin (t : Tree) (path : Text) : Place := if path.head? = some '/' then [] else t.here

def locate (t : Tree) (path : Text) : Except AccessFault Target :=
  match pathFault? path with
  | some fault => .error fault
  | none => t.follow (t.origin path) (Text.split '/' path)

def read (path : Text) (t : Tree) : Except AccessFault ByteArray := do
  match ← t.locate path with
  | .file _ content false => .ok content
  | .file _ _ true => .error .notDirectory
  | .directory _ => .error .isDirectory
  | .vacant _ _ => .error .notFound
  | .unnameable _ => .error .nameTooLong

/-- Gives a file its content, and creates it if need be. -/
def write (path : Text) (content : ByteArray) (t : Tree) : Except AccessFault Tree := do
  match ← t.locate path with
  | .file place _ false => .ok (t.insert place (.file content))
  | .file _ _ true => .error .isDirectory
  | .vacant place false => .ok (t.insert place (.file content))
  | .vacant _ true => .error .isDirectory
  | .unnameable false => .error .nameTooLong
  | .unnameable true => .error .isDirectory
  | .directory _ => .error .isDirectory

def makeDirectory (path : Text) (t : Tree) : Except AccessFault Tree := do
  match ← t.locate path with
  | .vacant place _ => .ok (t.insert place .directory)
  | .unnameable _ => .error .nameTooLong
  | .file _ _ _ => .error .alreadyExists
  | .directory _ => .error .alreadyExists

/-- The places of the directories that lead to a place, outermost first. -/
def ancestors (place : Place) : List Place := (List.range place.length).tail.map place.take

/-- Puts an entry at a place seen from the working directory, with all directories that lead to
it. -/
def plant (place : Place) (entry : Entry) (t : Tree) : Tree :=
  ((ancestors (t.here ++ place)).foldl (fun t above => t.insert above .directory) t).insert
    (t.here ++ place) entry

/-- A tree of nothing but a working directory. -/
def bare (here : Place) : Tree := plant [] .directory ⟨[], here⟩

def empty : Tree := bare ["work".toList]

def files (t : Tree) : List (Place × ByteArray) :=
  t.entries.filterMap fun
    | (place, .file content) => some (place, content)
    | (_, .directory) => none

/-- The places of the files below a directory, seen from there. -/
def filesBelow (path : Text) (t : Tree) : List Place :=
  match t.locate path with
  | .ok (.directory above) => t.files.filterMap fun (place, _) => above.below? place
  | _ => []

/-- Whether a place holds a file of some content. -/
def holds (place : Place) (content : ByteArray) (t : Tree) : Bool :=
  match t.get? place with
  | some (.file old) => old.data.toList = content.data.toList
  | _ => false

/-- The files below the working directory, seen from there, that are new or have another content
than before. -/
def changesSince (before after : Tree) : List (Place × ByteArray) :=
  (after.files.filter fun (place, content) => !before.holds place content).filterMap
    fun (place, content) => (after.here.below? place).map fun names => (names, content)

end Tree

end NodeMarkup.Disk
