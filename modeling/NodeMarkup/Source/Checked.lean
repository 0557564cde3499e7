import NodeMarkup.Source.Cursor
/-!
Checks. A text is cut at byte positions, which is possible only between two scalar values of the
text and from left to right; a range runs from one place to another that is not before it. An
operation that needs such a condition is written down with the cut that must come to its value, and
the effects it runs among decide whether the check is made.
-/
namespace NodeMarkup

namespace Text

/-- The number of scalar values before byte `n`, if one ends there. -/
def boundary? : Nat → Text → Option Nat
  | 0, _ => some 0
  | _ + 1, [] => none
  | n + 1, c :: rest =>
    if c.utf8Size ≤ n + 1 then (boundary? (n + 1 - c.utf8Size) rest).map (· + 1) else none

/-- The text from byte `start` to byte `stop`, if both stand between scalar values in this order. -/
def slice? (start stop : Nat) (t : Text) : Option Text :=
  if start ≤ stop then do
    let i ← boundary? start t
    let j ← boundary? stop t
    return (t.take j).drop i
  else none

/-- The text without its first and last `n` bytes. -/
def inner? (n : Nat) (t : Text) : Option Text :=
  if n ≤ byteLength t then slice? n (byteLength t - n) t else none

end Text

namespace Range

/-- The range from one cursor to another that does not stand before it. -/
def between? (start stop : Cursor) : Option Range :=
  if start.position ≤ stop.position then some ⟨start, stop⟩ else none

/-- The text of a range, cut out of the source. -/
def text? (r : Range) : Option Text := r.start.source.slice? r.start.position r.stop.position

end Range

namespace Cursor

/-- What is left to read, cut out of the source. -/
def rest? (c : Cursor) : Option Text := c.source.slice? c.position (Text.byteLength c.source)

/-- Moves over one scalar value, and looks at the next. -/
def advance? (c : Cursor) : Option Cursor := do
  let rest ← c.rest?
  let moved := ({ c with rest } : Cursor).advance
  let _ ← moved.rest?
  return moved

def advanceBy? : Nat → Cursor → Option Cursor
  | 0, c => some c
  | n + 1, c => do
    let moved ← c.advance?
    advanceBy? n moved

def skipIgnorable? (c : Cursor) : Option Cursor := do
  let rest ← c.rest?
  c.advanceBy? (ignorableLength false rest)

/-- The byte at which the line of the cursor begins. -/
def lineStart (c : Cursor) : Nat := Text.byteLength c.source - Text.byteLength c.lineText

/-- The indentation of the cursor's line, cut out of the source. A space or a tab is one byte. -/
def indentation? (c : Cursor) : Option Text :=
  c.source.slice? c.lineStart (c.lineStart + c.indent)

end Cursor

/-- What the effects `m` do where a value must be what a cut comes to. -/
class Checks (m : Type → Type) where
  check {α : Type} [DecidableEq α] (value : α) (cut : Thunk (Option α)) : m Unit

export Checks (check)

/-- Nothing is checked. -/
instance : Checks Id where
  check _ _ := pure ()

/-- A check that fails leaves no result. -/
instance : Checks Option where
  check value cut := if cut.get = some value then some () else none

instance {σ : Type} {m : Type → Type} [Monad m] [Checks m] : Checks (StateT σ m) where
  check value cut := StateT.lift (check value cut)

/-- Checks a condition. -/
def ensure {m : Type → Type} [Checks m] (p : Prop) [Decidable p] : m Unit :=
  check () (if p then some () else none : Option Unit)

theorem unchecked_then {α β : Type} [DecidableEq α] (value : α) (cut : Thunk (Option α))
    (next : Unit → Id β) : (check value cut >>= next) = next () := rfl

end NodeMarkup
