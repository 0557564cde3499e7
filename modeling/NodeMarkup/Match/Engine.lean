import NodeMarkup.Lexeme.Block
import NodeMarkup.Match.Frame
import NodeMarkup.Source.Checked
/-!
The match engine: a stack of frames over one source. A frame that succeeds is merged into the frame
around it; a frame that misses is dropped and leaves that frame as it was. A miss is silent, and
only what a rule has demanded raises an error.
-/
namespace NodeMarkup

/-- What a match comes to: a value, nothing, or a demand that was not met. -/
inductive Outcome (α : Type) where
  | hit (value : α)
  | miss
  | error (e : ParseError)
deriving DecidableEq, Repr, Inhabited

namespace Outcome

variable {α β : Type}

def map (f : α → β) : Outcome α → Outcome β
  | hit value => hit (f value)
  | miss => miss
  | error e => error e

end Outcome

/-- The frames that are open over a source, the innermost apart. -/
structure Engine where
  source : Text
  -- The innermost frame.
  frame : Frame
  -- The frames around it, innermost first.
  outer : List Frame
deriving DecidableEq, Repr, Inhabited

namespace Engine

variable {m : Type → Type} [Monad m] [Checks m] {α : Type}

def start (source : Text) : Engine := ⟨source, .fresh (.start source) false, []⟩

/-- Drops every frame and goes back to the start of the source. -/
def reset (e : Engine) : Engine := start e.source

/-- The number of frames around the innermost one. -/
def depth (e : Engine) : Nat := e.outer.length

def cursor (e : Engine) : Cursor := e.frame.cursor

/-- Begins the innermost frame again at a cursor. -/
def rewind (cursor : Cursor) (e : Engine) : Engine :=
  { e with frame := e.frame.reset cursor false }

/-- Turns the next primitive match round. -/
def negate (e : Engine) : Engine :=
  if e.frame.failed then e else { e with frame := { e.frame with negate := true } }

/-- Demands that the next match succeeds. -/
def require (fault : Fault) (e : Engine) : Engine :=
  if e.frame.failed then e
  else { e with frame := { e.frame with obligation := some ⟨fault, e.cursor⟩ } }

def requireLast (fault : Fault) (e : Engine) : Outcome Unit × Engine :=
  if e.frame.failed || e.frame.last then (.hit (), e) else (.error (.ofCursor fault e.cursor), e)

def replaceLast (f : Text → Text) (e : Engine) : Outcome Capture × Engine :=
  match e.frame.captures.getLast? with
  | none => (.miss, e)
  | some capture =>
    let capture := { capture with text := f capture.text }
    (.hit capture,
      { e with frame := { e.frame with captures := e.frame.captures.dropLast ++ [capture] } })

/-- Records a miss, which is an error if it was owed. -/
def missed (obligation : Option Obligation) (e : Engine) : Outcome α × Engine :=
  let e := { e with frame := { e.frame with last := false } }
  match obligation with
  | none => (.miss, e)
  | some owed => (.error owed.error, e)

/-- Matches a pattern at the cursor. A match that negation turns into a success reads and captures
nothing. -/
def recogniseM (pattern : Pattern) (e : Engine) : m (Outcome Capture × Engine) := do
  check e.cursor.rest e.cursor.rest?
  if e.frame.failed then return (.miss, e)
  else
    let found := pattern e.cursor.rest
    let frame := e.frame.settled
    if found.isSome = e.frame.negate then return missed e.frame.obligation { e with frame }
    else
      match found with
      | none => return (.hit (.empty e.cursor), { e with frame := { frame with last := true } })
      | some n =>
        let stop := e.cursor.advanceBy n
        check stop (e.cursor.advanceBy? n)
        let capture : Capture := ⟨e.cursor.rest.take n, ⟨e.cursor, stop⟩⟩
        check capture.range (Range.between? e.cursor stop)
        check capture.text capture.range.text?
        return (.hit capture,
          { e with frame := { frame with last := true, cursor := stop }.push capture })

def recognise (pattern : Pattern) (e : Engine) : Outcome Capture × Engine :=
  Id.run (recogniseM pattern e)

/-- Matches what stands between two delimiters. The capture holds the text without them. -/
def delimitedM (opening closing : Char) (e : Engine) : m (Outcome Capture × Engine) :=
  if e.frame.failed then return (.miss, e)
  else do
    let frame := e.frame.settled
    check e.cursor.rest e.cursor.rest?
    if e.cursor.current? = some opening then
      let inside := e.cursor.advance
      check inside e.cursor.advance?
      check inside.rest inside.rest?
      match Lexeme.blockLength opening closing .code 0 inside.rest with
      | none =>
        -- the closing delimiter is looked for up to the end of the source
        check (inside.advanceBy inside.rest.length) (inside.advanceBy? inside.rest.length)
        return (.error (.ofCursor (.unclosedBlock closing) inside), { e with frame })
      | some n =>
        let inner : Range := ⟨inside, inside.advanceBy n⟩
        check inner.stop (inside.advanceBy? n)
        check inner (Range.between? inner.start inner.stop)
        let whole : Range := ⟨e.cursor, inner.stop.advance⟩
        check whole.stop inner.stop.advance?
        check whole (Range.between? whole.start whole.stop)
        let capture : Capture := ⟨inside.rest.take n, inner⟩
        check capture.text inner.text?
        let frame := { frame with last := true }.push capture
        return (.hit capture,
          { e with frame := { frame with range := frame.range.cover whole, cursor := whole.stop } })
    else return missed e.frame.obligation { e with frame }

def delimited (opening closing : Char) (e : Engine) : Outcome Capture × Engine :=
  Id.run (delimitedM opening closing e)

/-- Puts a frame inside the innermost one. -/
def enter (frame : Frame) (e : Engine) : Engine := { e with frame, outer := e.frame :: e.outer }

/-- Opens a frame behind the ignorable text at the cursor. In a failed frame it starts failed. -/
def openFrame (e : Engine) : Engine := e.enter (.fresh e.cursor.skipIgnorable e.frame.failed)

def dropFrame (e : Engine) : Engine :=
  match e.outer with
  | [] => e
  | parent :: outer => { e with frame := parent, outer }

/-- Closes the innermost frame. On success the frame around it reads on where the frame stopped,
and takes its captures as one; otherwise it keeps everything but the mark of its latest match. -/
def closeFrame (success : Bool) (e : Engine) : Outcome Capture × Engine :=
  match e.outer with
  | [] => (.error (.ofCursor .noFrameToClose e.cursor), e)
  | parent :: outer =>
    if parent.failed then (.miss, { e with frame := parent, outer })
    else
      let frame := { parent with obligation := none }
      if success && !e.frame.failed then
        let capture := e.frame.joined
        (.hit capture,
          { e with
            frame := { frame with last := true, cursor := e.cursor }.push capture
            outer })
      else missed parent.obligation { e with frame, outer }

def fail (e : Engine) : Engine := { e with frame := { e.frame with failed := true } }

end Engine

end NodeMarkup
