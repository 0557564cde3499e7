import NodeMarkup.Match.Rule
import NodeMarkup.Proofs.Source.Place
/-!
Structured rules: those that open and close frames only in pairs. What such a rule does stays in the
innermost frame, and its cursor only goes forward. The main step is `scope_cases`, which says all
that a rule can do from a frame of its own; the rest is one short lemma for each way to build a
rule.
-/
namespace NodeMarkup

open RuleT

variable {α β : Type}

namespace RuleT

/-- What a rule comes to on an engine, and the engine that it leaves. -/
def result (rule : Rule α) (e : Engine) : Outcome α × Engine := Id.run (rule.run e)

theorem result_bind (rule : Rule α) (next : α → Rule β) (e : Engine) :
    (rule >>= next).result e =
      match rule.result e with
      | (.hit value, e) => (next value).result e
      | (.miss, e) => (.miss, e)
      | (.error x, e) => (.error x, e) := rfl

theorem result_optional (rule : Rule α) (e : Engine) :
    (optional rule).result e =
      match rule.result e with
      | (.hit value, e) => (.hit (some value), e)
      | (.miss, e) => (.hit none, e)
      | (.error x, e) => (.error x, e) := rfl

theorem result_scope (body : Rule α) {e : Engine} (hf : e.frame.failed = false) :
    (scope body).result e = leaveScope (body.result e.openFrame) := by
  unfold result run scope
  rw [if_neg (by simp [hf])]
  rfl

theorem result_scope_of_failed (body : Rule α) {e : Engine} (hf : e.frame.failed = true) :
    (scope body).result e = (.miss, e) := by
  unfold result run scope
  rw [if_pos hf]
  rfl

theorem result_seq_cons (step : Rule α) (rest : List (Rule α)) (e : Engine) :
    (seq (step :: rest)).result e =
      match step.result e with
      | (.error x, e) => (.error x, e)
      | (.miss, e) => (.miss, e.fail)
      | (.hit value, e) => (((seq rest).result e).1.map (value :: ·), ((seq rest).result e).2) :=
  rfl

theorem result_firstOf_cons (branch : Rule α) (rest : List (Rule α)) (e : Engine) :
    (firstOf (branch :: rest)).result e =
      match (scope branch).result e with
      | (.error x, e) => (.error x, e)
      | (.miss, e) => (firstOf rest).result e
      | (.hit (value, _), e) => (.hit value, e) := rfl

theorem result_manyWithin_succ (rule : Rule α) (n : Nat) (e : Engine) :
    (manyWithin rule (n + 1)).result e =
      match (scope rule).result e with
      | (.error x, e') => (.error x, e')
      | (.miss, e') => (.hit [], e')
      | (.hit (value, _), e') =>
        if e'.cursor.position = e.cursor.position then (.hit [value], e')
        else
          (((manyWithin rule n).result e').1.map (value :: ·), ((manyWithin rule n).result e').2) :=
  rfl

theorem unchecked_state_then {σ : Type} [DecidableEq α] (value : α) (cut : Thunk (Option α))
    (next : Unit → StateM σ β) : (check value cut >>= next) = next () := rfl

/-- Beside a state of its own, a rule does what it does without one. -/
theorem pattern_eq {σ : Type} (p : Pattern) :
    (pattern p : RuleT (StateM σ) Capture) = ofEngine (Engine.recognise p) := by
  funext e
  unfold pattern ofEngine Engine.recognise Engine.recogniseM
  simp only [unchecked_then, unchecked_state_then]
  split
  · rfl
  · split
    · rfl
    · split <;> rfl

theorem delimited_eq {σ : Type} (opening closing : Char) :
    (delimited opening closing : RuleT (StateM σ) Capture) =
      ofEngine (Engine.delimited opening closing) := by
  funext e
  unfold delimited ofEngine Engine.delimited Engine.delimitedM
  simp only [unchecked_then, unchecked_state_then]
  split
  · rfl
  · split
    · split <;> rfl
    · rfl

end RuleT

namespace Engine

/-- The second engine differs from the first in the innermost frame alone, which has read on. -/
structure Kept (e e' : Engine) : Prop where
  source : e'.source = e.source
  outer : e'.outer = e.outer
  reaches : e.cursor.Reaches e'.cursor

theorem Kept.of_cursor_eq {e e' : Engine} (hs : e'.source = e.source) (ho : e'.outer = e.outer)
    (hc : e'.cursor = e.cursor) : e.Kept e' :=
  ⟨hs, ho, hc ▸ Cursor.Reaches.refl _⟩

theorem Kept.refl (e : Engine) : e.Kept e := .of_cursor_eq rfl rfl rfl

theorem Kept.trans {a b c : Engine} (hab : a.Kept b) (hbc : b.Kept c) : a.Kept c :=
  ⟨hbc.source.trans hab.source, hbc.outer.trans hab.outer, hab.reaches.trans hbc.reaches⟩

/-- The engine behind a frame that has succeeded inside its innermost one. -/
def merged (e : Engine) (inner : Frame) : Engine :=
  { e with
    frame :=
      { e.frame with obligation := none, last := true, cursor := inner.cursor }.push inner.joined }

/-- The engine whose innermost frame owes nothing. -/
def discharged (e : Engine) : Engine := { e with frame := { e.frame with obligation := none } }

theorem kept_discharged (e : Engine) : e.Kept e.discharged := .of_cursor_eq rfl rfl rfl

theorem missed_engine (owed : Option Obligation) (e : Engine) :
    (e.missed owed : Outcome α × Engine).2 = { e with frame := { e.frame with last := false } } := by
  unfold missed
  split <;> rfl

theorem kept_missed (owed : Option Obligation) (e : Engine) :
    e.Kept (e.missed owed : Outcome α × Engine).2 := by
  rw [missed_engine]
  exact .of_cursor_eq rfl rfl rfl

theorem kept_recognise (p : Pattern) (e : Engine) : e.Kept (e.recognise p).2 := by
  unfold recognise recogniseM
  simp only [unchecked_then]
  split
  · exact .of_cursor_eq rfl rfl rfl
  · split
    · rw [Id.run_pure, missed_engine]
      exact .of_cursor_eq rfl rfl rfl
    · split
      · exact .of_cursor_eq rfl rfl rfl
      · exact ⟨rfl, rfl, Cursor.reaches_advanceBy _ _⟩

theorem kept_delimited (opening closing : Char) (e : Engine) :
    e.Kept (e.delimited opening closing).2 := by
  unfold delimited delimitedM
  simp only [unchecked_then]
  split
  · exact .of_cursor_eq rfl rfl rfl
  · split
    · split
      · exact .of_cursor_eq rfl rfl rfl
      · refine ⟨rfl, rfl, (Cursor.reaches_advance e.cursor).trans ?_⟩
        exact (Cursor.reaches_advanceBy _ _).trans (Cursor.reaches_advance _)
    · rw [Id.run_pure, missed_engine]
      exact .of_cursor_eq rfl rfl rfl

theorem kept_negate (e : Engine) : e.Kept e.negate := by
  unfold negate
  split <;> exact .of_cursor_eq rfl rfl rfl

theorem kept_require (fault : Fault) (e : Engine) : e.Kept (e.require fault) := by
  unfold require
  split <;> exact .of_cursor_eq rfl rfl rfl

theorem kept_requireLast (fault : Fault) (e : Engine) : e.Kept (e.requireLast fault).2 := by
  unfold requireLast
  split <;> exact .of_cursor_eq rfl rfl rfl

theorem kept_replaceLast (f : Text → Text) (e : Engine) : e.Kept (e.replaceLast f).2 := by
  unfold replaceLast
  split <;> exact .of_cursor_eq rfl rfl rfl

end Engine

theorem RuleT.result_alt (branches : List (Rule α)) {e : Engine} (hf : e.frame.failed = false) :
    (alt branches).result e =
      match (firstOf branches).result e.discharged with
      | (.miss, e') => e'.missed e.frame.obligation
      | result => result := by
  unfold result run alt
  rw [if_neg (by simp [hf])]
  rfl

theorem RuleT.result_alt_of_failed (branches : List (Rule α)) {e : Engine}
    (hf : e.frame.failed = true) : (alt branches).result e = (.miss, e) := by
  unfold result run alt
  rw [if_pos hf]
  rfl

/-- Everything that a rule in a frame of its own can come to, if it has left the frames around
alone: it succeeds and is merged, it misses and is dropped, or it is in error and leaves no trace. -/
theorem scope_cases {body : Rule α} {e inner : Engine} {o : Outcome α}
    (hf : e.frame.failed = false) (hb : body.result e.openFrame = (o, inner))
    (hk : e.openFrame.Kept inner) :
    (∃ value, o = .hit value ∧ inner.frame.failed = false ∧
      (scope body).result e = (.hit (value, inner.frame.joined), e.merged inner.frame)) ∨
    ((o = .miss ∨ (∃ value, o = .hit value) ∧ inner.frame.failed = true) ∧
      (scope body).result e = e.discharged.missed e.frame.obligation) ∨
    (∃ x, o = .error x ∧ (scope body).result e = (.error x, e)) := by
  obtain ⟨source, frame, outer⟩ := inner
  obtain ⟨hs, ho, -⟩ := hk
  change source = e.source at hs
  change outer = e.frame :: e.outer at ho
  subst hs ho
  rw [result_scope body hf, hb]
  cases o with
  | error x => exact .inr (.inr ⟨x, rfl, rfl⟩)
  | miss =>
    refine .inr (.inl ⟨.inl rfl, ?_⟩)
    cases howed : e.frame.obligation <;>
      simp [leaveScope, Engine.closeFrame, hf, Engine.missed, Engine.discharged, howed]
  | hit value =>
    cases hfailed : frame.failed with
    | false =>
      refine .inl ⟨value, rfl, rfl, ?_⟩
      simp [leaveScope, Engine.closeFrame, hf, hfailed, Outcome.map, Engine.merged, Engine.cursor]
    | true =>
      refine .inr (.inl ⟨.inr ⟨⟨value, rfl⟩, rfl⟩, ?_⟩)
      cases howed : e.frame.obligation <;>
        simp [leaveScope, Engine.closeFrame, hf, hfailed, Engine.missed, Engine.discharged, howed,
          Outcome.map]

/-- A rule that keeps, on every engine, what lies outside the innermost frame. -/
def Keeps (rule : Rule α) : Prop := ∀ e : Engine, e.Kept (rule.result e).2

namespace Keeps

theorem bind {rule : Rule α} {next : α → Rule β} (hr : Keeps rule)
    (hn : ∀ value, Keeps (next value)) : Keeps (rule >>= next) := by
  intro e
  have hk := hr e
  rw [result_bind]
  rcases h : rule.result e with ⟨value | _ | x, e'⟩ <;> rw [h] at hk
  · exact hk.trans (hn value e')
  · exact hk
  · exact hk

theorem optional {rule : Rule α} (hr : Keeps rule) : Keeps (RuleT.optional rule) := by
  intro e
  have hk := hr e
  rw [result_optional]
  rcases h : rule.result e with ⟨value | _ | x, e'⟩ <;> rw [h] at hk <;> exact hk

theorem scope {body : Rule α} (hb : Keeps body) : Keeps (RuleT.scope body) := by
  intro e
  cases hf : e.frame.failed with
  | true =>
    rw [result_scope_of_failed body hf]
    exact Engine.Kept.refl e
  | false =>
    have hk := hb e.openFrame
    rcases hr : body.result e.openFrame with ⟨o, inner⟩
    rw [hr] at hk
    obtain ⟨value, -, -, h⟩ | ⟨-, h⟩ | ⟨x, -, h⟩ := scope_cases hf hr hk
    · rw [h]
      exact ⟨rfl, rfl, (Cursor.reaches_skipIgnorable e.cursor).trans hk.reaches⟩
    · rw [h]
      exact e.kept_discharged.trans (Engine.kept_missed _ _)
    · rw [h]
      exact Engine.Kept.refl e

theorem seq {steps : List (Rule α)} (hs : ∀ step ∈ steps, Keeps step) :
    Keeps (RuleT.seq steps) := by
  induction steps with
  | nil => exact fun e => Engine.Kept.refl e
  | cons step rest ih =>
    intro e
    have hk := hs step (by simp) e
    have hrest := ih fun r hr => hs r (by simp [hr])
    rw [result_seq_cons]
    rcases h : step.result e with ⟨value | _ | x, e'⟩ <;> rw [h] at hk
    · exact hk.trans (hrest e')
    · exact hk.trans (.of_cursor_eq rfl rfl rfl)
    · exact hk

theorem firstOf {branches : List (Rule α)} (hb : ∀ branch ∈ branches, Keeps branch) :
    Keeps (RuleT.firstOf branches) := by
  induction branches with
  | nil => exact fun e => Engine.Kept.refl e
  | cons branch rest ih =>
    intro e
    have hk := (hb branch (by simp)).scope e
    have hrest := ih fun r hr => hb r (by simp [hr])
    rw [result_firstOf_cons]
    rcases h : (RuleT.scope branch).result e with ⟨value | _ | x, e'⟩ <;> rw [h] at hk
    · exact hk
    · exact hk.trans (hrest e')
    · exact hk

theorem alt {branches : List (Rule α)} (hb : ∀ branch ∈ branches, Keeps branch) :
    Keeps (RuleT.alt branches) := by
  intro e
  cases hf : e.frame.failed with
  | true =>
    rw [result_alt_of_failed branches hf]
    exact Engine.Kept.refl e
  | false =>
    have hk := e.kept_discharged.trans (firstOf hb e.discharged)
    rw [result_alt branches hf]
    rcases h : (RuleT.firstOf branches).result e.discharged with ⟨value | _ | x, e'⟩ <;>
      rw [h] at hk
    · exact hk
    · exact hk.trans (Engine.kept_missed _ _)
    · exact hk

theorem manyWithin {rule : Rule α} (hr : Keeps rule) (n : Nat) :
    Keeps (RuleT.manyWithin rule n) := by
  induction n with
  | zero => exact fun e => Engine.Kept.refl e
  | succ n ih =>
    intro e
    have hk := hr.scope e
    rw [result_manyWithin_succ]
    rcases h : (RuleT.scope rule).result e with ⟨value | _ | x, e'⟩ <;> rw [h] at hk
    · dsimp only
      split
      · exact hk
      · exact hk.trans (ih e')
    · exact hk
    · exact hk

theorem many {rule : Rule α} (hr : Keeps rule) : Keeps (RuleT.many rule) :=
  fun e => hr.manyWithin _ e

end Keeps

/-- The rules that are built, to any depth, from the matches of the engine and from frames that are
opened and closed together. What a rule goes on with may depend on everything that it has read, and
it may look at the engine and raise errors of its own. -/
inductive Structured {m : Type → Type} [Monad m] [Checks m] [Arena m] :
    {α : Type} → RuleT m α → Prop where
  | pure {α : Type} (value : α) : Structured (Pure.pure value : RuleT m α)
  | miss {α : Type} : Structured (RuleT.miss : RuleT m α)
  | refuse {α : Type} (fault : Fault) (cursor : Cursor) :
      Structured (RuleT.refuse fault cursor : RuleT m α)
  | ofState {α : Type} (f : Engine → α) : Structured (RuleT.ofState f : RuleT m α)
  | bind {α β : Type} {rule : RuleT m α} {next : α → RuleT m β} (hr : Structured rule)
      (hn : ∀ value, Structured (next value)) : Structured (rule >>= next)
  | optional {α : Type} {rule : RuleT m α} (hr : Structured rule) :
      Structured (RuleT.optional rule)
  | pattern (p : Pattern) : Structured (RuleT.pattern p : RuleT m Capture)
  | delimited (opening closing : Char) :
      Structured (RuleT.delimited opening closing : RuleT m Capture)
  | negate : Structured (RuleT.negate : RuleT m Unit)
  | require (fault : Fault) : Structured (RuleT.require fault : RuleT m Unit)
  | requireLast (fault : Fault) : Structured (RuleT.requireLast fault : RuleT m Unit)
  | replaceLast (f : Text → Text) : Structured (RuleT.replaceLast f : RuleT m Capture)
  | scope {α : Type} {body : RuleT m α} (hb : Structured body) : Structured (RuleT.scope body)
  | seq {α : Type} {steps : List (RuleT m α)} (hs : ∀ step ∈ steps, Structured step) :
      Structured (RuleT.seq steps)
  | alt {α : Type} {branches : List (RuleT m α)} (hb : ∀ branch ∈ branches, Structured branch) :
      Structured (RuleT.alt branches)
  | many {α : Type} {rule : RuleT m α} (hr : Structured rule) : Structured (RuleT.many rule)

namespace Structured

theorem check [DecidableEq α] (value : α) (cut : Thunk (Option α)) :
    Structured (NodeMarkup.check value cut : Rule Unit) := .pure ()

theorem rangeFrom (start : Cursor) : Structured (RuleT.rangeFrom start : Rule Range) :=
  .ofState fun e : Engine => (⟨start, e.cursor⟩ : Range)

theorem literal (text : Text) : Structured (RuleT.literal text : Rule Capture) := .pattern _

theorem framed {rule : Rule α} (hr : Structured rule) : Structured (RuleT.framed rule) :=
  .bind (.scope hr) fun _ => .pure _

theorem required (fault : Fault) {rule : Rule α} (hr : Structured rule) :
    Structured (RuleT.required fault rule) :=
  .bind (.require fault) fun _ => framed hr

/-- Structured rules leave every frame but the innermost alone, on every engine. -/
theorem keeps {rule : Rule α} (h : Structured rule) : Keeps rule := by
  induction h with
  | pure => exact fun e => Engine.Kept.refl e
  | miss => exact fun e => Engine.Kept.refl e
  | refuse => exact fun e => Engine.Kept.refl e
  | ofState => exact fun e => Engine.Kept.refl e
  | bind _ _ hr hn => exact hr.bind hn
  | optional _ hr => exact hr.optional
  | pattern p => exact Engine.kept_recognise p
  | delimited opening closing => exact Engine.kept_delimited opening closing
  | negate => exact Engine.kept_negate
  | require fault => exact Engine.kept_require fault
  | requireLast fault => exact Engine.kept_requireLast fault
  | replaceLast f => exact Engine.kept_replaceLast f
  | scope _ hb => exact hb.scope
  | seq _ hs => exact .seq hs
  | alt _ hb => exact .alt hb
  | many _ hr => exact hr.many

end Structured

end NodeMarkup
