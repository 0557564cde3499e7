import NodeMarkup.Text.Basic
/-!
Paths of files. A path is a text with slashes; its components are what stands between them, where
empty pieces, and pieces `.` that are not the first, do not count. Operations keep the spelling of
the parts that they do not touch.
-/
namespace NodeMarkup.Disk

inductive Anchor where
  -- In the directory at hand.
  | relative
  -- In the directory at hand, said by a leading `.`.
  | here
  -- In the root directory, said by a leading slash.
  | root
deriving DecidableEq, Repr, Inhabited

inductive Component where
  | root
  | here
  | up
  | name (text : Text)
deriving DecidableEq, Repr, Inhabited

def Component.text : Component → Text
  | root => "/".toList
  | here => ".".toList
  | up => "..".toList
  | name text => text

/-- A path taken apart: where it begins, and the pieces between the slashes behind that. -/
structure Path where
  anchor : Anchor
  pieces : List Text
deriving DecidableEq, Repr, Inhabited

def counts (piece : Text) : Bool := piece ≠ [] && piece ≠ ".".toList

namespace Path

def ofText (text : Text) : Path :=
  match text with
  | '/' :: rest => ⟨.root, Text.split '/' rest⟩
  | '.' :: rest =>
    if rest.isEmpty || rest.head? = some '/' then ⟨.here, Text.split '/' rest⟩
    else ⟨.relative, Text.split '/' text⟩
  | _ => ⟨.relative, Text.split '/' text⟩

def toText (p : Path) : Text :=
  match p.anchor with
  | .relative => Text.join '/' p.pieces
  | .here => '.' :: Text.join '/' p.pieces
  | .root => '/' :: Text.join '/' p.pieces

theorem toText_ofText (text : Text) : (ofText text).toText = text := by
  unfold ofText
  split
  · simp [toText, Text.join_split]
  · split <;> simp [toText, Text.join_split]
  · simp [toText, Text.join_split]

def components (p : Path) : List Component :=
  let first : List Component := match p.anchor with
    | .relative => []
    | .here => [.here]
    | .root => [.root]
  first ++ (p.pieces.filter counts).map fun piece =>
    if piece = "..".toList then .up else .name piece

/-- The path without the pieces at its end that do not count. -/
def trimEnd (p : Path) : Path :=
  { p with pieces := (p.pieces.reverse.dropWhile fun piece => !counts piece).reverse }

/-- The path without its last component, if it has one that is not the root. -/
def parent? (p : Path) : Option Path :=
  match p.trimEnd.pieces, p.anchor with
  | [], .here => some ⟨.relative, []⟩
  | [], _ => none
  | pieces, anchor => some (trimEnd ⟨anchor, pieces.dropLast⟩)

def fileName? (p : Path) : Option Text :=
  match p.trimEnd.pieces.getLast? with
  | none => none
  | some piece => if piece = "..".toList then none else some piece

/-- What is left of some pieces behind the first `n` of them that count. -/
def dropCounting : Nat → List Text → List Text
  | 0, pieces => pieces
  | _ + 1, [] => []
  | n + 1, piece :: rest => if counts piece then dropCounting n rest else dropCounting (n + 1) rest

/-- What is left of a path behind a path that it begins with, component by component. -/
def strip? (base p : Path) : Option Path :=
  if base.components.isPrefixOf p.components then
    if base.components.isEmpty then some p.trimEnd
    else
      let left := dropCounting (base.pieces.filter counts).length p.pieces
      some (trimEnd ⟨.relative, left.dropWhile fun piece => !counts piece⟩)
  else none

end Path

/-- A file name at its last dot: what stands before it, and the extension behind it. A leading dot
begins no extension. -/
def splitExtension (fileName : Text) : Text × Option Text :=
  let extension := (fileName.reverse.takeWhile (· ≠ '.')).reverse
  let stem := fileName.take (fileName.length - extension.length - 1)
  if stem.isEmpty then (fileName, none) else (stem, some extension)

/-- The path of the directory that holds a file. -/
def parent? (path : Text) : Option Text := (Path.ofText path).parent?.map Path.toText

/-- The file name of a path without its extension. -/
def stem? (path : Text) : Option Text :=
  (Path.ofText path).fileName?.map fun fileName => (splitExtension fileName).1

/-- The extension of the file name of a path. -/
def extension? (path : Text) : Option Text :=
  (Path.ofText path).fileName?.bind fun fileName => (splitExtension fileName).2

def strip? (base path : Text) : Option Text :=
  (Path.strip? (Path.ofText base) (Path.ofText path)).map Path.toText

/-- Puts an extension behind the stem of the file name, if there is a file name. -/
def setExtension (extension path : Text) : Text :=
  let p := (Path.ofText path).trimEnd
  match p.fileName? with
  | none => path
  | some fileName =>
    let renamed := (splitExtension fileName).1 ++ '.' :: extension
    Path.toText { p with pieces := p.pieces.dropLast ++ [renamed] }

/-- The path with another extension. The old one is cut off first, so of a file name that is `..`
without it nothing but that is left. -/
def withExtension (extension path : Text) : Text :=
  match extension? path with
  | some old =>
    if old.isSuffixOf path then setExtension extension (path.take (path.length - old.length))
    else setExtension extension path
  | none => setExtension extension path

/-- One path behind another. A path that begins at the root stands alone. -/
def joinPath (base path : Text) : Text :=
  if path.head? = some '/' then path
  else if base.isEmpty || base.getLast? = some '/' then base ++ path
  else base ++ '/' :: path

end NodeMarkup.Disk
