import NodeMarkup.Match.Script
import NodeMarkup.Proofs.Match.Recorded

namespace NodeMarkup

open RuleT

variable {α : Type}

mutual

/-- No frame is opened, closed or taken back by hand, at any depth of the step. -/
inductive Step.Scoped : Step → Prop where
  | literal (text : Text) : Step.Scoped (.literal text)
  | pattern (p : Pattern) : Step.Scoped (.pattern p)
  | delimited (opening closing : Char) : Step.Scoped (.delimited opening closing)
  | negate : Step.Scoped .negate
  | require (fault : Fault) : Step.Scoped (.require fault)
  | requireLast (fault : Fault) : Step.Scoped (.requireLast fault)
  | replaceLast (f : Text → Text) : Step.Scoped (.replaceLast f)
  | scope {body : Clause} (hb : Clause.Scoped body) : Step.Scoped (.scope body)
  | seq {steps : List Step} (hs : ∀ step ∈ steps, Step.Scoped step) : Step.Scoped (.seq steps)
  | alt {branches : List Clause} (hb : ∀ branch ∈ branches, Clause.Scoped branch) :
      Step.Scoped (.alt branches)
  | many {body : Clause} (hb : Clause.Scoped body) : Step.Scoped (.many body)

inductive Clause.Scoped : Clause → Prop where
  | mk {steps : List Step} (hs : ∀ step ∈ steps, Step.Scoped step) (verdict : Verdict) :
      Clause.Scoped (.mk steps verdict)

end

/-- A miss as a value like any other. -/
def Outcome.orNothing : Outcome α → Outcome (Option α)
  | .hit value => .hit (some value)
  | .miss => .hit none
  | .error x => .error x

/-- The observer that keeps the engines of the steps. -/
def Event.record (event : Event) : Recording Unit := modify (· ++ [event.engine])

namespace Noting

theorem pure (value : α) : Noting (Pure.pure value) := .ofOutcome (.hit value)

theorem miss : Noting (RuleT.miss : RuleT Recording α) := .ofOutcome .miss

theorem optional {rule : RuleT Recording α} (hr : Noting rule) : Noting (RuleT.optional rule) := by
  have heq : RuleT.optional rule =
      RuleT.outcome rule >>= fun o => RuleT.ofOutcome o.orNothing := by
    funext e before
    change (RuleT.optional rule).recorded e before = recorded (_ >>= _) e before
    rw [recorded_bind, recorded_outcome]
    rcases h : rule.recorded e before with ⟨⟨value | _ | x, e'⟩, record⟩ <;> exact recorded_then h
  rw [heq]
  exact .bind hr.outcome fun _ => .ofOutcome _

/-- What an observer hears of a step is the engine behind the work, whatever the work comes to. -/
theorem told {work : RuleT Recording (Capture × Gathered)} (hw : Noting work) (step : Step) :
    Noting (RuleT.told Event.record step work) := by
  have heq : RuleT.told Event.record step work =
      RuleT.outcome work >>= fun o => RuleT.note >>= fun _ => RuleT.ofOutcome (o.map Prod.fst) :=
    rfl
  rw [heq]
  exact .bind hw.outcome fun o => .bind .note fun _ => .ofOutcome _

theorem silently {rule : RuleT Recording α} (hr : Noting rule) : Noting (RuleT.silently rule) :=
  .bind hr fun _ => .bind (.ofState _) fun _ => pure _

theorem plainly {rule : RuleT Recording Capture} (hr : Noting rule) :
    Noting (RuleT.plainly rule) :=
  .bind hr fun _ => pure _

theorem lastCapture (captures : List Capture) :
    Noting (RuleT.lastCapture captures : RuleT Recording Capture) := by
  unfold RuleT.lastCapture
  cases captures.getLast? with
  | none => exact .ofState _
  | some capture => exact pure capture

section Rules

variable {rules : List (RuleT Recording Capture)} (hr : ∀ rule ∈ rules, Noting rule)
include hr

theorem inOrder : Noting (RuleT.inOrder rules) := by
  induction rules with
  | nil => exact pure []
  | cons rule rest ih =>
    obtain ⟨hrule, hrest⟩ := List.forall_mem_cons.1 hr
    exact .bind hrule fun _ => .bind (ih hrest) fun _ => pure _

theorem attempts : Noting (RuleT.attempts rules) := by
  induction rules with
  | nil => exact pure []
  | cons rule rest ih =>
    obtain ⟨hrule, hrest⟩ := List.forall_mem_cons.1 hr
    exact .bind hrule.optional fun _ => .bind (ih hrest) fun _ => pure _

theorem conclude (verdict : Verdict) : Noting (RuleT.conclude rules verdict) := by
  cases verdict with
  | all => exact .bind (inOrder hr) lastCapture
  | hit => exact .bind (attempts hr) lastCapture
  | miss => exact .bind (attempts hr) fun _ => miss

end Rules

end Noting

section Runs

variable {m : Type → Type} [Monad m] [Checks m] [Arena m] (observe : Event → m Unit)

theorem Step.runEach_eq (steps : List Step) :
    Step.runEach observe steps = steps.map (Step.run observe) := by
  induction steps with
  | nil => rfl
  | cons step rest ih => rw [Step.runEach, ih, List.map_cons]

theorem Clause.runEach_eq (clauses : List Clause) :
    Clause.runEach observe clauses = clauses.map (Clause.run observe) := by
  induction clauses with
  | nil => rfl
  | cons clause rest ih => rw [Clause.runEach, ih, List.map_cons]

end Runs

theorem Step.noting_runEach {steps : List Step}
    (hs : ∀ step ∈ steps, Noting (step.run Event.record)) :
    ∀ rule ∈ Step.runEach Event.record steps, Noting rule := by
  rw [Step.runEach_eq]
  exact List.forall_mem_map.2 hs

theorem Clause.noting_runEach {clauses : List Clause}
    (hc : ∀ clause ∈ clauses, Noting (clause.run Event.record)) :
    ∀ rule ∈ Clause.runEach Event.record clauses, Noting rule := by
  rw [Clause.runEach_eq]
  exact List.forall_mem_map.2 hc

mutual

/-- A step is a program that notes the engine behind itself and behind all steps inside it. -/
theorem Step.Scoped.noting : ∀ {step : Step}, step.Scoped → Noting (step.run Event.record)
  | _, .literal text => .told (.plainly (.pattern (.word text))) _
  | _, .pattern p => .told (.plainly (.pattern p)) _
  | _, .delimited opening closing => .told (.plainly (.delimited opening closing)) _
  | _, .negate => .told (.silently .negate) _
  | _, .require fault => .told (.silently (.require fault)) _
  | _, .requireLast fault => .told (.silently (.requireLast fault)) _
  | _, .replaceLast f => .told (.plainly (.replaceLast f)) _
  | _, .scope hb => .told (.bind (.scope hb.noting) fun _ => .pure _) _
  | _, .seq hs => by
    have hrules := Step.noting_runEach fun step hmem => (hs step hmem).noting
    exact .told (.bind (.seq hrules) fun _ => .bind (.lastCapture _) fun _ => .pure _) _
  | _, .alt hb => by
    have hrules := Clause.noting_runEach fun branch hmem => (hb branch hmem).noting
    exact .told (.plainly (.alt hrules)) _
  | _, .many hb => .told (.bind (.many hb.noting) fun _ => .bind (.ofState _) fun _ => .pure _) _

theorem Clause.Scoped.noting : ∀ {clause : Clause}, clause.Scoped →
    Noting (clause.run Event.record)
  | _, .mk hs verdict =>
    .conclude (Step.noting_runEach fun step hmem => (hs step hmem).noting) verdict

end

/-- The engine that a script leaves, and the record with the engine behind every step. -/
def Engine.scripted (steps : List Step) (e : Engine) (before : List Engine) :
    Engine × List Engine :=
  Id.run (StateT.run (e.runScript Event.record steps) before)

theorem Engine.scripted_cons (step : Step) (rest : List Step) (e : Engine)
    (before : List Engine) :
    e.scripted (step :: rest) before =
      match (step.run Event.record).recorded e before with
      | ((_, e), record) => e.scripted rest record := rfl

/-- One step after the other goes on from the engine that the one before it has left, also where
that was a miss or an error. -/
theorem account_scripted {steps : List Step} (hs : ∀ step ∈ steps, step.Scoped) (e : Engine)
    (before : List Engine) :
    e.Account before (e.scripted steps before).1 (e.scripted steps before).2 := by
  induction steps generalizing e before with
  | nil => exact .of_continued (.refl e)
  | cons step rest ih =>
    obtain ⟨hstep, hrest⟩ := List.forall_mem_cons.1 hs
    have hfirst := hstep.noting.accounts e before
    rw [Engine.scripted_cons]
    exact hfirst.trans (ih hrest _ _)

/-- From the start of any source, the engine behind every step of a script, at any depth and however
the step ended, has all its frames in order. In the end the outermost frame alone is open. -/
theorem scripted_ordered (source : Text) {steps : List Step} (hs : ∀ step ∈ steps, step.Scoped) :
    (∀ x ∈ ((Engine.start source).scripted steps []).2, x.Ordered) ∧
      ((Engine.start source).scripted steps []).1.Ordered ∧
      ((Engine.start source).scripted steps []).1.depth = 0 := by
  have hstart := Engine.ordered_start source
  obtain ⟨hcontinued, hobserved⟩ := account_scripted hs (.start source) []
  refine ⟨fun x hx => ?_, hcontinued.ordered hstart, ?_⟩
  · exact ((hobserved x hx).resolve_left List.not_mem_nil).ordered hstart
  · exact congrArg List.length hcontinued.kept.outer

end NodeMarkup
