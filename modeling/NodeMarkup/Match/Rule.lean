import NodeMarkup.Match.Arena
/-!
Rules: matches that run on the engine, and the ways to build them. A rule may have effects of its
own beside the engine, such as keeping a record of what it does.
-/
namespace NodeMarkup

/-- A match that runs on the engine among the effects of `m`. -/
def RuleT (m : Type → Type) (α : Type) := Engine → m (Outcome α × Engine)

/-- A match that runs on the engine. -/
abbrev Rule (α : Type) := RuleT Id α

namespace RuleT

section Effects

variable {m : Type → Type} [Monad m] {α β : Type}

def run (rule : RuleT m α) (e : Engine) : m (Outcome α × Engine) := rule e

def ofEngine (f : Engine → Outcome α × Engine) : RuleT m α := fun e => pure (f e)

def modifyEngine (f : Engine → Engine) : RuleT m Unit := fun e => pure (.hit (), f e)

def ofState (f : Engine → α) : RuleT m α := fun e => pure (.hit (f e), e)

/-- Goes on with the value of a hit. A miss or an error ends the whole rule. -/
protected def bind (rule : RuleT m α) (next : α → RuleT m β) : RuleT m β := fun e => do
  match ← rule e with
  | (.hit value, e) => next value e
  | (.miss, e) => return (.miss, e)
  | (.error x, e) => return (.error x, e)

instance : Monad (RuleT m) where
  pure value := fun e => pure (.hit value, e)
  bind := RuleT.bind

def miss : RuleT m α := fun e => pure (.miss, e)

def refuse (fault : Fault) (cursor : Cursor) : RuleT m α :=
  fun e => pure (.error (.ofCursor fault cursor), e)

/-- A rule whose miss is no miss. -/
def optional (rule : RuleT m α) : RuleT m (Option α) := fun e => do
  match ← rule e with
  | (.hit value, e) => return (.hit (some value), e)
  | (.miss, e) => return (.hit none, e)
  | (.error x, e) => return (.error x, e)

def cursor : RuleT m Cursor := ofState Engine.cursor

instance [Checks m] : Checks (RuleT m) where
  check value cut := fun e => do
    check value cut
    return (.hit (), e)

/-- Turns the next primitive match round. -/
def negate : RuleT m Unit := modifyEngine Engine.negate

/-- Demands that the next match succeeds. -/
def require (fault : Fault) : RuleT m Unit := modifyEngine (Engine.require fault)

def requireLast (fault : Fault) : RuleT m Unit := ofEngine (Engine.requireLast fault)

def replaceLast (f : Text → Text) : RuleT m Capture := ofEngine (Engine.replaceLast f)

/-- Runs rules one after the other in the same frame. The first miss gives the frame up. -/
def seq : List (RuleT m α) → RuleT m (List α)
  | [] => pure []
  | step :: rest => fun e => do
    match ← step e with
    | (.error x, e) => return (.error x, e)
    | (.miss, e) => return (.miss, e.fail)
    | (.hit value, e) =>
      let (result, e) ← seq rest e
      return (result.map (value :: ·), e)

end Effects

section Checked

variable {m : Type → Type} [Monad m] [Checks m]

def pattern (p : Pattern) : RuleT m Capture := Engine.recogniseM p

def literal (text : Text) : RuleT m Capture := pattern (.word text)

def delimited (opening closing : Char) : RuleT m Capture := Engine.delimitedM opening closing

/-- The range from a place up to the cursor. -/
def rangeFrom (start : Cursor) : RuleT m Range := do
  let range : Range := ⟨start, ← cursor⟩
  check range (Range.between? range.start range.stop)
  return range

end Checked

section Framed

variable {α : Type}

/-- What a rule that has ended in a frame of its own comes to outside, and the engine without the
frame. -/
def leaveScope : Outcome α × Engine → Outcome (α × Capture) × Engine
  | (.error x, e) => (.error x, e.dropFrame)
  | (.miss, e) =>
    match e.closeFrame false with
    | (.error x, e) => (.error x, e)
    | (_, e) => (.miss, e)
  | (.hit value, e) =>
    let (result, e) := e.closeFrame true
    (result.map fun capture => (value, capture), e)

variable {m : Type → Type} [Monad m] [Checks m] [Arena m]

/-- Runs a rule in a frame of its own, and gives its value with all that it captured. However the
rule ends, its frame is left; the outermost frame is never left. -/
def scope (body : RuleT m α) : RuleT m (α × Capture) := fun e =>
  if e.frame.failed then return (.miss, e)
  else do
    check e.cursor.skipIgnorable e.cursor.skipIgnorable?
    let ended ← body (← Arena.openFrame e)
    ensure (0 < ended.2.depth)
    Arena.leaveFrame ended.2
    return leaveScope ended

/-- The first rule that succeeds in a frame of its own. -/
def firstOf : List (RuleT m α) → RuleT m α
  | [] => miss
  | branch :: rest => fun e => do
    match ← scope branch e with
    | (.error x, e) => return (.error x, e)
    | (.miss, e) => firstOf rest e
    | (.hit (value, _), e) => return (.hit value, e)

/-- The first rule that succeeds in a frame of its own. What the alternative owes is owed by all of
its branches together, and not by each of them. -/
def alt (branches : List (RuleT m α)) : RuleT m α := fun e =>
  if e.frame.failed then return (.miss, e)
  else do
    match ← firstOf branches { e with frame := { e.frame with obligation := none } } with
    | (.miss, e') => return e'.missed e.frame.obligation
    | result => return result

/-- Repeats a rule at most `n` times, each time in a frame of its own, until it misses or reads
nothing. -/
def manyWithin (rule : RuleT m α) : Nat → RuleT m (List α)
  | 0 => pure []
  | n + 1 => fun e => do
    match ← scope rule e with
    | (.error x, e') => return (.error x, e')
    | (.miss, e') => return (.hit [], e')
    | (.hit (value, _), e') =>
      if e'.cursor.position = e.cursor.position then return (.hit [value], e')
      else
        let (result, e') ← manyWithin rule n e'
        return (result.map (value :: ·), e')

/-- Repeats a rule in frames of its own until it misses or reads nothing. A source has one more
place than it has scalar values, and each repetition but the last leaves its place for good, so the
bound is never what ends the repetition. -/
def many (rule : RuleT m α) : RuleT m (List α) :=
  fun e => manyWithin rule (e.source.length + 2) e

/-- The value of a rule in a frame of its own. -/
def framed (rule : RuleT m α) : RuleT m α := do
  let (value, _) ← scope rule
  return value

/-- The value of a rule in a frame of its own that has to succeed. -/
def required (fault : Fault) (rule : RuleT m α) : RuleT m α := do
  require fault
  framed rule

end Framed

/-- Where nothing is checked, a rule goes on behind a check as if there were none. -/
theorem check_then {α β : Type} [DecidableEq α] (value : α) (cut : Thunk (Option α))
    (next : Unit → Rule β) : (check value cut >>= next) = next () := rfl

theorem rangeFrom_then {β : Type} (start : Cursor) (next : Range → Rule β) :
    (rangeFrom start >>= next) = cursor >>= fun stop => next ⟨start, stop⟩ := rfl

end RuleT

end NodeMarkup
