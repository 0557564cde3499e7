import NodeMarkup.Text.Basic
/-!
A cursor is a place in a source: what is unread there, its byte position, line and column, and how
far its line is indented. Every movement goes forward over a number of scalar values; a cursor is
taken back by keeping an earlier one.
-/
namespace NodeMarkup

/-- The leading scalar values of a text that carry no code: spaces, tabs, line breaks and comments,
which run from `#` to the end of their line. The flag says that the text begins in a comment. -/
def ignorableLength : Bool → Text → Nat
  | _, [] => 0
  | true, c :: rest => ignorableLength (c ≠ '\n') rest + 1
  | false, c :: rest =>
    if c = ' ' || c = '\t' || c = '\n' || c = '\r' then ignorableLength false rest + 1
    else if c = '#' then ignorableLength true rest + 1
    else 0

/-- A place in a source. Lines and columns count from zero, columns in scalar values. -/
structure Cursor where
  -- The whole source.
  source : Text
  -- What is left to read.
  rest : Text
  -- The bytes before the place.
  position : Nat
  line : Nat
  column : Nat
  -- The source from the start of the place's line.
  lineText : Text
  -- The leading spaces and tabs of the line that have been reached.
  indent : Nat
  -- Whether everything reached on the line so far is a space or a tab.
  indenting : Bool
deriving DecidableEq, Repr, Inhabited

namespace Cursor

/-- Counts the scalar value at the cursor towards the indentation of its line. A line break ends
the indentation of its line and begins that of the next. -/
def settle (c : Cursor) : Cursor :=
  match c.rest with
  | [] => { c with indenting := false }
  | next :: _ =>
    if next = '\n' then { c with indent := 0, indenting := true }
    else if c.indenting && (next = ' ' || next = '\t') then { c with indent := c.indent + 1 }
    else { c with indenting := false }

def start (source : Text) : Cursor :=
  settle
    { source, rest := source, position := 0, line := 0, column := 0, lineText := source,
      indent := 0, indenting := true }

def current? (c : Cursor) : Option Char := c.rest.head?

/-- Whether everything is read. -/
def atEnd (c : Cursor) : Bool := c.rest.isEmpty

/-- The indentation of the cursor's line, as far as it has been reached. -/
def indentation (c : Cursor) : Text := c.lineText.take c.indent

/-- Moves over one scalar value; at the end of the source it stays. -/
def advance (c : Cursor) : Cursor :=
  match c.rest with
  | [] => c
  | next :: rest =>
    if next = '\n' then
      settle
        { c with
          rest, position := c.position + next.utf8Size, line := c.line + 1, column := 0,
          lineText := rest }
    else
      settle { c with rest, position := c.position + next.utf8Size, column := c.column + 1 }

/-- Moves over `n` scalar values, or to the end of the source. -/
def advanceBy : Nat → Cursor → Cursor
  | 0, c => c
  | n + 1, c => if c.atEnd then c else advanceBy n c.advance

def advanceTo (position : Nat) (c : Cursor) : Cursor :=
  c.advanceBy (Text.reach (position - c.position) c.rest)

/-- The cursor of a source at a byte position, or at the end if the source is shorter. -/
def ofPosition (source : Text) (position : Nat) : Cursor := (start source).advanceTo position

/-- The cursor of the same source at a byte position. -/
def moveTo (position : Nat) (c : Cursor) : Cursor := ofPosition c.source position

/-- Moves over everything that carries no code. -/
def skipIgnorable (c : Cursor) : Cursor := c.advanceBy (ignorableLength false c.rest)

@[simp]
theorem rest_settle (c : Cursor) : c.settle.rest = c.rest := by
  unfold settle
  split
  · rfl
  · split
    · rfl
    · split <;> rfl

@[simp]
theorem rest_start (source : Text) : (start source).rest = source := rest_settle _

@[simp]
theorem rest_advance (c : Cursor) : c.advance.rest = c.rest.tail := by
  unfold advance
  split
  case h_1 h => simp [h]
  case h_2 next rest h => split <;> simp [h]

/-- Moving over `n` scalar values reads them off the unread text. -/
@[simp]
theorem rest_advanceBy (n : Nat) (c : Cursor) : (c.advanceBy n).rest = c.rest.drop n := by
  induction n generalizing c with
  | zero => rfl
  | succ n ih =>
    unfold advanceBy
    split
    case isTrue h =>
      have : c.rest = [] := by simpa [atEnd] using h
      simp [this]
    case isFalse => rw [ih, rest_advance, List.drop_tail]

end Cursor

/-- The part of a source from one cursor up to another. -/
structure Range where
  start : Cursor
  stop : Cursor
deriving DecidableEq, Repr, Inhabited

namespace Range

def empty (cursor : Cursor) : Range := ⟨cursor, cursor⟩

def text (r : Range) : Text := r.start.rest.take (r.start.rest.length - r.stop.rest.length)

def byteLength (r : Range) : Nat := r.stop.position - r.start.position

def isEmpty (r : Range) : Bool := r.byteLength = 0

/-- The least range that covers both ranges. -/
def cover (r s : Range) : Range where
  start := if s.start.position < r.start.position then s.start else r.start
  stop := if s.stop.position > r.stop.position then s.stop else r.stop

end Range

end NodeMarkup
