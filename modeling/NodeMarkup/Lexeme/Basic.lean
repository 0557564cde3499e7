import NodeMarkup.Text.Basic
/-!
Patterns: what can be read at the start of a text. A pattern looks at the unread text alone and
answers with the number of leading scalar values that it matches.
-/
namespace NodeMarkup

/-- The number of leading scalar values that match, if the text starts with a match. -/
abbrev Pattern := Text → Option Nat

namespace Pattern

def word (w : Text) : Pattern := fun t => if w.isPrefixOf t then some w.length else none

def one (p : Char → Bool) : Pattern
  | [] => none
  | c :: _ => if p c then some 1 else none

/-- The longest run of a class, which may be empty. -/
def run (p : Char → Bool) : Pattern := fun t => some (t.takeWhile p).length

/-- The longest run of a class that is not empty. -/
def someRun (p : Char → Bool) : Pattern
  | [] => none
  | c :: rest => if p c then some ((rest.takeWhile p).length + 1) else none

def andThen (p q : Pattern) : Pattern := fun t => do
  let n ← p t
  let m ← q (t.drop n)
  return n + m

def orElse (p q : Pattern) : Pattern := fun t =>
  match p t with
  | some n => some n
  | none => q t

def maybe (p : Pattern) : Pattern := orElse p fun _ => some 0

end Pattern

end NodeMarkup
