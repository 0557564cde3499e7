import NodeMarkup.Match.Rule
/-!
Scripts: matches written down as data. A script can be run, watched step by step, and reasoned
about by recursion on its steps.
-/
namespace NodeMarkup

/-- What a clause comes to once its steps have run. -/
inductive Verdict where
  -- A hit if every step hits; the first miss ends the clause.
  | all
  -- A hit, whatever steps miss.
  | hit
  -- A miss, whatever steps hit.
  | miss
deriving DecidableEq, Repr, Inhabited

mutual

inductive Step where
  | literal (text : Text)
  | pattern (p : Pattern)
  | delimited (opening closing : Char)
  | negate
  | require (fault : Fault)
  | requireLast (fault : Fault)
  | replaceLast (f : Text → Text)
  | openFrame
  | closeFrame (success : Bool)
  | rewind (position : Nat)
  | reset
  | scope (body : Clause)
  | seq (steps : List Step)
  | alt (branches : List Clause)
  | many (body : Clause)

inductive Clause where
  | mk (steps : List Step) (verdict : Verdict)

end

inductive Gathered where
  | nothing
  -- The value of a clause in a frame of its own.
  | value (capture : Capture)
  -- The texts of all steps or repetitions.
  | texts (texts : List Text)
deriving DecidableEq, Repr, Inhabited

/-- A step that has run, with the engine as it left it. -/
structure Event where
  step : Step
  result : Outcome (Capture × Gathered)
  engine : Engine

namespace RuleT

variable {m : Type → Type} [Monad m]

/-- The capture of nothing where the innermost frame reads on. -/
def emptyCapture : RuleT m Capture := ofState fun e => .empty e.cursor

/-- The last of some captures, or the capture of nothing. -/
def lastCapture (captures : List Capture) : RuleT m Capture :=
  match captures.getLast? with
  | none => emptyCapture
  | some capture => pure capture

def silently {α : Type} (rule : RuleT m α) : RuleT m (Capture × Gathered) := do
  let _ ← rule
  return (← emptyCapture, .nothing)

def plainly (rule : RuleT m Capture) : RuleT m (Capture × Gathered) := do
  return (← rule, .nothing)

/-- Runs rules one after the other; a miss ends them all. -/
def inOrder : List (RuleT m Capture) → RuleT m (List Capture)
  | [] => pure []
  | rule :: rest => do
    let capture ← rule
    return capture :: (← inOrder rest)

/-- Runs rules one after the other, and keeps what hits. -/
def attempts : List (RuleT m Capture) → RuleT m (List Capture)
  | [] => pure []
  | rule :: rest => do
    let capture ← optional rule
    return capture.toList ++ (← attempts rest)

/-- Runs the rules of a clause. Its value is the last capture. -/
def conclude (rules : List (RuleT m Capture)) : Verdict → RuleT m Capture
  | .all => do lastCapture (← inOrder rules)
  | .hit => do lastCapture (← attempts rules)
  | .miss => do
    let _ ← attempts rules
    miss

/-- Runs the work of a step, and tells the observer what came of it. -/
def told (observe : Event → m Unit) (step : Step) (work : RuleT m (Capture × Gathered)) :
    RuleT m Capture := fun e => do
  let (result, e) ← work e
  observe ⟨step, result, e⟩
  return (result.map Prod.fst, e)

end RuleT

open RuleT in
mutual

/-- Runs a step. The observer hears of it once it has finished, so behind all steps inside it. -/
def Step.run {m : Type → Type} [Monad m] [Checks m] [Arena m] (observe : Event → m Unit) (step : Step) :
    RuleT m Capture :=
  told observe step <|
    match step with
    | .literal text => plainly (RuleT.literal text)
    | .pattern p => plainly (RuleT.pattern p)
    | .delimited opening closing => plainly (RuleT.delimited opening closing)
    | .negate => silently RuleT.negate
    | .require fault => silently (RuleT.require fault)
    | .requireLast fault => silently (RuleT.requireLast fault)
    | .replaceLast f => plainly (RuleT.replaceLast f)
    | .openFrame => silently (modifyEngine Engine.openFrame)
    | .closeFrame success => plainly (ofEngine (Engine.closeFrame success))
    | .rewind position =>
      silently (modifyEngine fun e => e.rewind (.ofPosition e.source position))
    | .reset => silently (modifyEngine Engine.reset)
    | .scope body => do
      let (value, capture) ← RuleT.scope (body.run observe)
      return (capture, .value value)
    | .seq steps => do
      let captures ← RuleT.seq (Step.runEach observe steps)
      return (← lastCapture captures, .texts (captures.map Capture.text))
    | .alt branches => plainly (RuleT.alt (Clause.runEach observe branches))
    | .many body => do
      let captures ← RuleT.many (body.run observe)
      return (← emptyCapture, .texts (captures.map Capture.text))
termination_by structural step

def Step.runEach {m : Type → Type} [Monad m] [Checks m] [Arena m] (observe : Event → m Unit)
    (steps : List Step) : List (RuleT m Capture) :=
  match steps with
  | [] => []
  | step :: rest => step.run observe :: Step.runEach observe rest
termination_by structural steps

def Clause.run {m : Type → Type} [Monad m] [Checks m] [Arena m] (observe : Event → m Unit)
    (clause : Clause) : RuleT m Capture :=
  match clause with
  | .mk steps verdict => conclude (Step.runEach observe steps) verdict
termination_by structural clause

def Clause.runEach {m : Type → Type} [Monad m] [Checks m] [Arena m] (observe : Event → m Unit)
    (clauses : List Clause) : List (RuleT m Capture) :=
  match clauses with
  | [] => []
  | clause :: rest => clause.run observe :: Clause.runEach observe rest
termination_by structural clauses

end

/-- Runs steps one after the other on an engine, each from the engine that the one before it left,
whether it hit, missed or was in error. -/
def Engine.runScript {m : Type → Type} [Monad m] [Checks m] [Arena m] (observe : Event → m Unit) :
    List Step → Engine → m Engine
  | [], e => pure e
  | step :: rest, e => do
    let (_, e) ← step.run observe e
    e.runScript observe rest

end NodeMarkup
