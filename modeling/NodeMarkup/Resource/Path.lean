import NodeMarkup.Source.Checked

namespace NodeMarkup.Resource

def schemeMark : Text := "://".toList

section Effects

variable {m : Type → Type} [Monad m] [Checks m]

/-- A path split into the text of its root and the rest. A path without a scheme is rooted if it
begins with a slash. -/
def splitRootM (path : Text) : m (Text × Text) :=
  match Text.indexOf? schemeMark path with
  | some n => do
    let root := path.take (n + schemeMark.length)
    let rest := path.drop (n + schemeMark.length)
    let index := Text.byteLength (path.take n) + Text.byteLength schemeMark
    check root (path.slice? 0 index)
    check rest (path.slice? index (Text.byteLength path))
    return (root, rest)
  | none =>
    match path with
    | '/' :: rest => do
      check rest (Text.slice? 1 (Text.byteLength path) path)
      return (['/'], rest)
    | _ => return ([], path)

/-- Puts a segment behind others, which are given last first. A segment `..` takes the one before it
back; where there is none, it stays if the path has no root and is dropped at a root. -/
def pushSegment (rooted : Bool) (segments : List Text) (segment : Text) : List Text :=
  if segment = [] || segment = ".".toList then segments
  else if segment = "..".toList then
    match segments with
    | [] => if rooted then [] else [segment]
    | last :: rest =>
      if last ≠ "..".toList then rest
      else if rooted then segments
      else segment :: segments
  else segment :: segments

/-- The path without `.` segments, without `..` segments that a segment before them settles, and
without empty segments. The root stays, and no `..` climbs above it. -/
def normalizeM (path : Text) : m Text := do
  let (root, rest) ← splitRootM path
  let segments := (Text.split '/' rest).foldl (pushSegment (!root.isEmpty)) []
  return root ++ Text.join '/' segments.reverse

end Effects

def splitRoot (path : Text) : Text × Text := Id.run (splitRootM path)

def normalize (path : Text) : Text := Id.run (normalizeM path)

theorem splitRoot_eq (path : Text) :
    splitRoot path =
      match Text.indexOf? schemeMark path with
      | some n => (path.take (n + schemeMark.length), path.drop (n + schemeMark.length))
      | none =>
        match path with
        | '/' :: rest => (['/'], rest)
        | _ => ([], path) := by
  unfold splitRoot splitRootM
  split
  · rfl
  · split <;> rfl

theorem normalize_eq_join (path : Text) :
    normalize path =
      (splitRoot path).1 ++ Text.join '/' ((Text.split '/' (splitRoot path).2).foldl
        (pushSegment (!(splitRoot path).1.isEmpty)) []).reverse := rfl

structure Context where
  -- The name of the source without folder and extension.
  baseName : Text
  -- The resource path of the folder that holds the source.
  folder : Text
deriving DecidableEq, Repr, Inhabited

namespace Context

def root : Context := ⟨[], "res://".toList⟩

def joined (folder path : Text) : Text :=
  let folder := (folder.reverse.dropWhile (· = '/')).reverse
  folder ++ (if folder.getLast? = some ':' then "//".toList else "/".toList) ++ path

/-- The resource path that an import path stands for. A path with a scheme or a leading slash is
taken as it stands; any other is relative to the folder. -/
def resolveM {m : Type → Type} [Monad m] [Checks m] (context : Context) (path : Text) : m Text :=
  if (Text.indexOf? schemeMark path).isSome || path.head? = some '/' || context.folder.isEmpty then
    normalizeM path
  else normalizeM (joined context.folder path)

def resolve (context : Context) (path : Text) : Text := Id.run (context.resolveM path)

theorem resolve_eq (context : Context) (path : Text) :
    context.resolve path =
      if (Text.indexOf? schemeMark path).isSome || path.head? = some '/'
        || context.folder.isEmpty then normalize path
      else normalize (joined context.folder path) := by
  unfold resolve resolveM
  split <;> rfl

end Context

end NodeMarkup.Resource
