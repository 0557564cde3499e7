import NodeMarkup.Match.Engine
/-!
Where frames come from. An engine may throw a frame away that it has left, or keep it, with all that
is left in it, and begin it again when the next frame is opened at its depth.
-/
namespace NodeMarkup

/-- What the effects `m` do where frames are opened and left. -/
class Arena (m : Type → Type) where
  -- Opens a frame behind the ignorable text at the cursor.
  openFrame : Engine → m Engine
  -- What becomes of the innermost frame, once it is left.
  leaveFrame : Engine → m Unit
  -- Leaves every frame and goes back to the start of the source.
  restart : Engine → m Engine

/-- Each frame is a new one. -/
instance : Arena Id where
  openFrame e := pure e.openFrame
  leaveFrame _ := pure ()
  restart e := pure e.reset

instance (priority := low) {σ : Type} {m : Type → Type} [Monad m] [Arena m] :
    Arena (StateT σ m) where
  openFrame e := StateT.lift (Arena.openFrame e)
  leaveFrame e := StateT.lift (Arena.leaveFrame e)
  restart e := StateT.lift (Arena.restart e)

/-- Frames are kept for later use, the next one first. Behind all frames that are kept, a frame is a
new one. -/
instance {m : Type → Type} [Monad m] : Arena (StateT (List Frame) m) where
  openFrame e := fun
    | [] => pure (e.openFrame, [])
    | used :: kept => pure (e.enter (used.reset e.cursor.skipIgnorable e.frame.failed), kept)
  leaveFrame e := fun kept => pure ((), e.frame :: kept)
  restart e := fun kept =>
    let frames := e.frame :: e.outer
    let outermost := frames.getLast (List.cons_ne_nil _ _)
    pure (⟨e.source, outermost.reset (.start e.source) false, []⟩, frames.dropLast.reverse ++ kept)

end NodeMarkup
