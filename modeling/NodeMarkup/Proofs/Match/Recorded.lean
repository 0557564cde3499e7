import NodeMarkup.Proofs.Match.Ordered
/-!
Programs that note engines as they run. A note can stand at any place, also inside frames that the
program has opened, and the program may go on after a miss or an error. However it is built, all
engines that it notes have their frames in order, and no operation takes a frame back.
-/
namespace NodeMarkup

open RuleT

variable {α β : Type} {e x : Engine} {before record : List Engine}

/-- The effect of keeping a record of engines, oldest first. -/
abbrev Recording := StateM (List Engine)

namespace RuleT

/-- Notes the engine as it stands. -/
def note : RuleT Recording Unit := fun e => do
  modify (· ++ [e])
  return (.hit (), e)

def ofOutcome (o : Outcome α) : RuleT Recording α := fun e => pure (o, e)

/-- What a rule comes to, as a value. Neither a miss nor an error ends the program. -/
def outcome (rule : RuleT Recording α) : RuleT Recording (Outcome α) := fun e => do
  let (o, e) ← rule e
  return (.hit o, e)

/-- What a program comes to on an engine, the engine that it leaves, and the record, which has been
kept so far, with all that the program has noted. -/
def recorded (program : RuleT Recording α) (e : Engine) (before : List Engine) :
    (Outcome α × Engine) × List Engine :=
  Id.run (StateT.run (program.run e) before)

/-- The engines that a program notes, and the one that it leaves. -/
def seen (program : RuleT Recording α) (e : Engine) : List Engine :=
  (program.recorded e []).2 ++ [(program.recorded e []).1.2]

/-- Every way to build a program goes on from what a part of it comes to. -/
theorem recorded_then {first : RuleT Recording α}
    {next : Outcome α × Engine → Recording (Outcome β × Engine)} {r : Outcome α × Engine}
    (h : first.recorded e before = (r, record)) :
    recorded (fun e => first e >>= next) e before = Id.run (StateT.run (next r) record) := by
  change
    (match first.recorded e before with
    | (r, record) => Id.run (StateT.run (next r) record)) = _
  rw [h]

theorem recorded_bind (rule : RuleT Recording α) (next : α → RuleT Recording β) (e : Engine)
    (before : List Engine) :
    (rule >>= next).recorded e before =
      match rule.recorded e before with
      | ((.hit value, e), record) => (next value).recorded e record
      | ((.miss, e), record) => ((.miss, e), record)
      | ((.error x, e), record) => ((.error x, e), record) := by
  change (RuleT.bind rule next).recorded e before = _
  rcases h : rule.recorded e before with ⟨⟨value | _ | x, e'⟩, record⟩ <;> exact recorded_then h

theorem recorded_outcome (rule : RuleT Recording α) (e : Engine) (before : List Engine) :
    (outcome rule).recorded e before =
      match rule.recorded e before with
      | ((o, e), record) => ((.hit o, e), record) := by
  rcases h : rule.recorded e before with ⟨⟨o, e'⟩, record⟩
  exact recorded_then h

theorem recorded_scope_of_failed (body : RuleT Recording α) (before : List Engine)
    (hf : e.frame.failed = true) : (scope body).recorded e before = ((.miss, e), before) := by
  unfold recorded run scope
  rw [if_pos hf]
  rfl

theorem result_ofEngine (f : Engine → Outcome α × Engine) (e : Engine) :
    result (ofEngine f) e = f e := rfl

/-- The frame is closed as that of a rule which keeps no record. -/
theorem recorded_scope {body : RuleT Recording α} {o : Outcome α} {inner : Engine}
    (hf : e.frame.failed = false)
    (hb : body.recorded e.openFrame before = ((o, inner), record)) :
    (scope body).recorded e before =
      (result (scope (ofEngine fun _ => (o, inner))) e, record) := by
  rw [result_scope _ hf, result_ofEngine]
  unfold recorded run scope
  rw [if_neg (by simp [hf])]
  change ((leaveScope (body.recorded e.openFrame before).1, (body.recorded e.openFrame before).2) :
    _ × List Engine) = _
  rw [hb]

theorem recorded_seq_cons (step : RuleT Recording α) (rest : List (RuleT Recording α))
    (e : Engine) (before : List Engine) :
    (seq (step :: rest)).recorded e before =
      match step.recorded e before with
      | ((.error x, e), record) => ((.error x, e), record)
      | ((.miss, e), record) => ((.miss, e.fail), record)
      | ((.hit value, e), record) =>
        match (seq rest).recorded e record with
        | ((o, e), record) => ((o.map (value :: ·), e), record) := by
  rcases h : step.recorded e before with ⟨⟨value | _ | x, e'⟩, record⟩ <;> exact recorded_then h

theorem recorded_firstOf_cons (branch : RuleT Recording α) (rest : List (RuleT Recording α))
    (e : Engine) (before : List Engine) :
    (firstOf (branch :: rest)).recorded e before =
      match (scope branch).recorded e before with
      | ((.error x, e), record) => ((.error x, e), record)
      | ((.miss, e), record) => (firstOf rest).recorded e record
      | ((.hit (value, _), e), record) => ((.hit value, e), record) := by
  rcases h : (scope branch).recorded e before with ⟨⟨value | _ | x, e'⟩, record⟩ <;>
    exact recorded_then h

theorem recorded_alt_of_failed (branches : List (RuleT Recording α)) (before : List Engine)
    (hf : e.frame.failed = true) : (alt branches).recorded e before = ((.miss, e), before) := by
  unfold recorded run alt
  rw [if_pos hf]
  rfl

theorem recorded_alt (branches : List (RuleT Recording α)) (before : List Engine)
    (hf : e.frame.failed = false) :
    (alt branches).recorded e before =
      match (firstOf branches).recorded e.discharged before with
      | ((.miss, e'), record) => (e'.missed e.frame.obligation, record)
      | r => r := by
  rcases h : (firstOf branches).recorded e.discharged before with ⟨⟨value | _ | x, e'⟩, record⟩
  all_goals
    unfold recorded run alt
    rw [if_neg (by simp [hf])]
    exact recorded_then h

theorem recorded_manyWithin_succ (rule : RuleT Recording α) (n : Nat) (e : Engine)
    (before : List Engine) :
    (manyWithin rule (n + 1)).recorded e before =
      match (scope rule).recorded e before with
      | ((.error x, e'), record) => ((.error x, e'), record)
      | ((.miss, e'), record) => ((.hit [], e'), record)
      | ((.hit (value, _), e'), record) =>
        if e'.cursor.position = e.cursor.position then ((.hit [value], e'), record)
        else
          match (manyWithin rule n).recorded e' record with
          | ((o, e), record) => ((o.map (value :: ·), e), record) := by
  rcases h : (scope rule).recorded e before with ⟨⟨⟨value, capture⟩ | _ | x, e'⟩, record⟩
  · refine (recorded_then h).trans ?_
    dsimp only
    split <;> rfl
  · exact recorded_then h
  · exact recorded_then h

end RuleT

namespace Engine

/-- The second engine is one that can be seen while work is done in the innermost frame of the
first: the frames around that are as they were, and it has not gone back. More frames may be open
inside it. -/
def Inside (e x : Engine) : Prop :=
  ∃ opened frame, x.frame :: x.outer = opened ++ frame :: e.outer ∧
    e.cursor.position ≤ frame.cursor.position

/-- The second engine can be seen inside the first, and in order if the first is. -/
structure Observed (e x : Engine) : Prop where
  inside : e.Inside x
  ordered : e.Ordered → x.Ordered

namespace Observed

theorem of_continued (h : e.Continued x) : e.Observed x :=
  ⟨⟨[], x.frame, by rw [h.kept.outer, List.nil_append], h.kept.reaches.position_le⟩, h.ordered⟩

theorem after {mid : Engine} (h : e.Continued mid) (hx : mid.Observed x) : e.Observed x := by
  obtain ⟨opened, frame, hframes, hforward⟩ := hx.inside
  rw [h.kept.outer] at hframes
  refine ⟨⟨opened, frame, hframes, ?_⟩, fun he => hx.ordered (h.ordered he)⟩
  exact h.kept.reaches.position_le.trans hforward

/-- What is seen in a frame of its own leaves the frame around it as it was. -/
theorem of_openFrame (h : e.openFrame.Observed x) : e.Observed x := by
  obtain ⟨opened, frame, hframes, -⟩ := h.inside
  refine ⟨⟨opened ++ [frame], e.frame, ?_, Nat.le_refl _⟩, fun he => h.ordered he.openFrame⟩
  rw [hframes, List.append_assoc]
  rfl

end Observed

/-- From the first engine to the last, and from one record to the other, a program has worked in the
innermost frame and has noted nothing but what can be seen there. -/
structure Account (e : Engine) (before : List Engine) (last : Engine) (record : List Engine) :
    Prop where
  continued : e.Continued last
  observed : ∀ x ∈ record, x ∈ before ∨ e.Observed x

namespace Account

variable {last : Engine}

theorem of_continued (h : e.Continued last) : e.Account before last before :=
  ⟨h, fun _ => .inl⟩

theorem trans {mid : Engine} {between : List Engine} (hfirst : e.Account before mid between)
    (hsecond : mid.Account between last record) : e.Account before last record := by
  refine ⟨hfirst.continued.trans hsecond.continued, fun x hx => ?_⟩
  rcases hsecond.observed x hx with hbetween | hobserved
  · exact hfirst.observed x hbetween
  · exact .inr (.after hfirst.continued hobserved)

theorem then_continued {mid : Engine} (h : e.Account before mid record)
    (hlast : mid.Continued last) : e.Account before last record :=
  h.trans (.of_continued hlast)

theorem of_openFrame {inner : Engine} (h : e.openFrame.Account before inner record)
    (hlast : e.Continued last) : e.Account before last record := by
  refine ⟨hlast, fun x hx => ?_⟩
  exact (h.observed x hx).imp_right Observed.of_openFrame

end Account

end Engine

/-- On every engine the program gives account of its run. -/
def Accounts (program : RuleT Recording α) : Prop :=
  ∀ (e : Engine) before,
    e.Account before (program.recorded e before).1.2 (program.recorded e before).2

namespace Accounts

theorem note : Accounts RuleT.note := by
  intro e before
  refine ⟨.refl e, fun x hx => ?_⟩
  change x ∈ before ++ [e] at hx
  rcases List.mem_append.1 hx with hbefore | hnoted
  · exact .inl hbefore
  · rw [List.mem_singleton.1 hnoted]
    exact .inr (.of_continued (.refl e))

theorem ofEngine {f : Engine → Outcome α × Engine} (h : ∀ e : Engine, e.Continued (f e).2) :
    Accounts (RuleT.ofEngine f) :=
  fun e _ => .of_continued (h e)

theorem bind {rule : RuleT Recording α} {next : α → RuleT Recording β} (hr : Accounts rule)
    (hn : ∀ value, Accounts (next value)) : Accounts (rule >>= next) := by
  intro e before
  have hfirst := hr e before
  rw [recorded_bind]
  rcases h : rule.recorded e before with ⟨⟨value | _ | x, e'⟩, record⟩ <;> rw [h] at hfirst
  · exact hfirst.trans (hn value e' record)
  · exact hfirst
  · exact hfirst

theorem outcome {rule : RuleT Recording α} (hr : Accounts rule) :
    Accounts (RuleT.outcome rule) := by
  intro e before
  rw [recorded_outcome]
  exact hr e before

theorem scope {body : RuleT Recording α} (hb : Accounts body) : Accounts (RuleT.scope body) := by
  intro e before
  cases hf : e.frame.failed with
  | true =>
    rw [recorded_scope_of_failed body before hf]
    exact .of_continued (.refl e)
  | false =>
    have hinner := hb e.openFrame before
    rcases hr : body.recorded e.openFrame before with ⟨⟨o, inner⟩, record⟩
    rw [hr] at hinner
    rw [recorded_scope hf hr]
    -- What was noted inside stays noted, so only the frame around is left, which goes on as that of
    -- a rule does.
    refine hinner.of_openFrame ?_
    have hbody := result_ofEngine (fun _ => (o, inner)) e.openFrame
    obtain ⟨value, -, -, h⟩ | ⟨-, h⟩ | ⟨x, -, h⟩ := scope_cases hf hbody hinner.continued.kept
    · rw [h]
      exact Engine.continued_merged hinner.continued
    · rw [h]
      exact .missed _ (.of_same rfl rfl rfl rfl rfl)
    · rw [h]
      exact .refl e

theorem seq {steps : List (RuleT Recording α)} (hs : ∀ step ∈ steps, Accounts step) :
    Accounts (RuleT.seq steps) := by
  induction steps with
  | nil => exact fun e _ => .of_continued (.refl e)
  | cons step rest ih =>
    intro e before
    have hfirst := hs step (by simp) e before
    have hrest := ih fun r hr => hs r (by simp [hr])
    rw [recorded_seq_cons]
    rcases h : step.recorded e before with ⟨⟨value | _ | x, e'⟩, record⟩ <;> rw [h] at hfirst
    · exact hfirst.trans (hrest e' record)
    · exact hfirst.then_continued (.of_same rfl rfl rfl rfl rfl)
    · exact hfirst

theorem firstOf {branches : List (RuleT Recording α)} (hb : ∀ branch ∈ branches, Accounts branch) :
    Accounts (RuleT.firstOf branches) := by
  induction branches with
  | nil => exact fun e _ => .of_continued (.refl e)
  | cons branch rest ih =>
    intro e before
    have hfirst := (hb branch (by simp)).scope e before
    have hrest := ih fun r hr => hb r (by simp [hr])
    rw [recorded_firstOf_cons]
    rcases h : (RuleT.scope branch).recorded e before with ⟨⟨value | _ | x, e'⟩, record⟩ <;>
      rw [h] at hfirst
    · exact hfirst
    · exact hfirst.trans (hrest e' record)
    · exact hfirst

theorem alt {branches : List (RuleT Recording α)} (hb : ∀ branch ∈ branches, Accounts branch) :
    Accounts (RuleT.alt branches) := by
  intro e before
  cases hf : e.frame.failed with
  | true =>
    rw [recorded_alt_of_failed branches before hf]
    exact .of_continued (.refl e)
  | false =>
    have hdischarged : e.Account before e.discharged before :=
      .of_continued (.of_same rfl rfl rfl rfl rfl)
    have hfirst := hdischarged.trans (firstOf hb e.discharged before)
    rw [recorded_alt branches before hf]
    rcases h : (RuleT.firstOf branches).recorded e.discharged before
      with ⟨⟨value | _ | x, e'⟩, record⟩ <;> rw [h] at hfirst
    · exact hfirst
    · exact hfirst.then_continued (.missed _ (.refl e'))
    · exact hfirst

theorem manyWithin {rule : RuleT Recording α} (hr : Accounts rule) (n : Nat) :
    Accounts (RuleT.manyWithin rule n) := by
  induction n with
  | zero => exact fun e _ => .of_continued (.refl e)
  | succ n ih =>
    intro e before
    have hfirst := hr.scope e before
    rw [recorded_manyWithin_succ]
    rcases h : (RuleT.scope rule).recorded e before with ⟨⟨value | _ | x, e'⟩, record⟩ <;>
      rw [h] at hfirst
    · dsimp only
      split
      · exact hfirst
      · exact hfirst.trans (ih e' record)
    · exact hfirst
    · exact hfirst

theorem many {rule : RuleT Recording α} (hr : Accounts rule) : Accounts (RuleT.many rule) :=
  fun e before => hr.manyWithin _ e before

end Accounts

/-- The programs that are built, to any depth, from notes, from the matches of the engine and from
frames that are opened and closed together. What a program goes on with may depend on everything
that it has read and seen, misses and errors included. -/
inductive Noting : {α : Type} → RuleT Recording α → Prop where
  | note : Noting RuleT.note
  | ofOutcome {α : Type} (o : Outcome α) : Noting (RuleT.ofOutcome o)
  | ofState {α : Type} (f : Engine → α) : Noting (RuleT.ofState f : RuleT Recording α)
  | bind {α β : Type} {rule : RuleT Recording α} {next : α → RuleT Recording β}
      (hr : Noting rule) (hn : ∀ value, Noting (next value)) : Noting (rule >>= next)
  | outcome {α : Type} {rule : RuleT Recording α} (hr : Noting rule) :
      Noting (RuleT.outcome rule)
  | pattern (p : Pattern) : Noting (RuleT.pattern p : RuleT Recording Capture)
  | delimited (opening closing : Char) :
      Noting (RuleT.delimited opening closing : RuleT Recording Capture)
  | negate : Noting (RuleT.negate : RuleT Recording Unit)
  | require (fault : Fault) : Noting (RuleT.require fault : RuleT Recording Unit)
  | requireLast (fault : Fault) : Noting (RuleT.requireLast fault : RuleT Recording Unit)
  | replaceLast (f : Text → Text) : Noting (RuleT.replaceLast f : RuleT Recording Capture)
  | scope {α : Type} {body : RuleT Recording α} (hb : Noting body) : Noting (RuleT.scope body)
  | seq {α : Type} {steps : List (RuleT Recording α)} (hs : ∀ step ∈ steps, Noting step) :
      Noting (RuleT.seq steps)
  | alt {α : Type} {branches : List (RuleT Recording α)}
      (hb : ∀ branch ∈ branches, Noting branch) : Noting (RuleT.alt branches)
  | many {α : Type} {rule : RuleT Recording α} (hr : Noting rule) : Noting (RuleT.many rule)

theorem Noting.accounts {program : RuleT Recording α} (h : Noting program) :
    Accounts program := by
  induction h with
  | note => exact .note
  | ofOutcome => exact fun e _ => .of_continued (.refl e)
  | ofState => exact fun e _ => .of_continued (.refl e)
  | bind _ _ hr hn => exact hr.bind hn
  | outcome _ hr => exact hr.outcome
  | pattern p => exact pattern_eq p ▸ .ofEngine (Engine.continued_recognise p)
  | delimited opening closing =>
    exact delimited_eq opening closing ▸ .ofEngine (Engine.continued_delimited opening closing)
  | negate => exact fun e _ => .of_continued e.continued_negate
  | require fault => exact fun e _ => .of_continued (e.continued_require fault)
  | requireLast fault => exact .ofEngine (Engine.continued_requireLast fault)
  | replaceLast f => exact .ofEngine (Engine.continued_replaceLast f)
  | scope _ hb => exact hb.scope
  | seq _ hs => exact .seq hs
  | alt _ hb => exact .alt hb
  | many _ hr => exact hr.many

/-- Everything that can be seen in a run lies inside the engine that it began with, in order if that
is. -/
theorem Noting.observed {program : RuleT Recording α} (h : Noting program) (e : Engine) :
    ∀ x ∈ program.seen e, e.Observed x := by
  obtain ⟨hcontinued, hobserved⟩ := h.accounts e []
  refine List.forall_mem_append.2 ⟨fun x hx => ?_, List.forall_mem_singleton.2 ?_⟩
  · exact (hobserved x hx).resolve_left List.not_mem_nil
  · exact .of_continued hcontinued

/-- From the start of any source, the captures of all frames that are open at any point of a run
stand in the order of the source, and each frame has gone on from the one around it. No part of a
run takes the innermost frame back, or changes the frames around it. -/
theorem frames_in_order {program : RuleT Recording α} (h : Noting program) :
    (∀ source, ∀ x ∈ program.seen (.start source), x.Ordered) ∧
      ∀ e : Engine, e.Kept (program.recorded e []).1.2 ∧ ∀ x ∈ program.seen e, e.Inside x := by
  refine ⟨fun source x hx => ?_, fun e => ⟨(h.accounts e []).continued.kept, fun x hx => ?_⟩⟩
  · exact (h.observed _ x hx).ordered (Engine.ordered_start source)
  · exact (h.observed e x hx).inside

theorem frames_in_order_block :
    let word := literal "a".toList >>= fun _ => note
    let program := scope (word >>= fun _ => scope (delimited '(' ')') >>= fun _ => note)
    let run := program.seen (.start "a (b)".toList)
    Noting program ∧
      (run.map fun x => (x.frame :: x.outer).map fun f =>
        f.ranges.map fun r => (r.start.position, r.stop.position)) =
        [[[(0, 1)], []], [[(0, 1), (2, 5)], []], [[(0, 5)]]] ∧
      ∀ x ∈ run, x.Ordered := by
  intro word program run
  have hword : Noting word := .bind (.pattern _) fun _ => .note
  have hprogram : Noting program :=
    .scope (.bind hword fun _ => .bind (.scope (.delimited _ _)) fun _ => .note)
  exact ⟨hprogram, by decide, (frames_in_order hprogram).1 _⟩

end NodeMarkup
