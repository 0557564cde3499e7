import NodeMarkup.Source.Fault
import NodeMarkup.Source.Cursor

namespace NodeMarkup

/-- A matched piece of the source. Its text is that of the range unless a rule replaced it. -/
structure Capture where
  text : Text
  range : Range
deriving DecidableEq, Repr, Inhabited

def Capture.empty (cursor : Cursor) : Capture := ⟨[], .empty cursor⟩

/-- A demand that the next match succeeds, with the place where it was made. -/
structure Obligation where
  fault : Fault
  cursor : Cursor
deriving DecidableEq, Repr, Inhabited

/-- The error of an obligation that was not met. -/
def Obligation.error (o : Obligation) : ParseError := .ofCursor o.fault o.cursor

/-- The state of one attempt to match. -/
structure Frame where
  cursor : Cursor
  -- The source from the first capture through the last.
  range : Range
  -- Whether a sequence in the frame was given up, which makes every later match a miss.
  failed : Bool
  -- Whether the latest match succeeded.
  last : Bool
  -- Whether the next primitive match is to be turned round.
  negate : Bool
  -- What the next match owes.
  obligation : Option Obligation
  -- What has been matched, oldest first.
  captures : List Capture
deriving DecidableEq, Repr, Inhabited

namespace Frame

def fresh (cursor : Cursor) (failed : Bool) : Frame where
  cursor
  range := .empty cursor
  failed
  last := false
  negate := false
  obligation := none
  captures := []

/-- A frame that was used before begins again. -/
def reset (cursor : Cursor) (failed : Bool) (f : Frame) : Frame :=
  { f with
    cursor, range := .empty cursor, failed, last := false, negate := false, obligation := none,
    captures := [] }

/-- Nothing of what was in a frame is left in it. -/
theorem reset_eq (cursor : Cursor) (failed : Bool) (f : Frame) :
    f.reset cursor failed = .fresh cursor failed := rfl

/-- Adds a capture, and covers it by the range of the frame. -/
def push (frame : Frame) (capture : Capture) : Frame :=
  { frame with
    range := if frame.captures.isEmpty then capture.range else frame.range.cover capture.range
    captures := frame.captures ++ [capture] }

def joined (frame : Frame) : Capture :=
  ⟨(frame.captures.map Capture.text).flatten, frame.range⟩

/-- The frame with neither negation nor obligation pending. -/
def settled (frame : Frame) : Frame := { frame with negate := false, obligation := none }

end Frame

end NodeMarkup
