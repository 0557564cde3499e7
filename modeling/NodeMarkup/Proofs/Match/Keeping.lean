import NodeMarkup.Proofs.Match.Parallel
/-!
An engine that keeps its frames. A frame that is left stays where it is, with its captures, its marks
and what it still owed, and is begun again when the next frame is opened at its depth. A structured
rule on such an engine comes to what it comes to on an engine that opens a new frame each time.
-/
namespace NodeMarkup

open RuleT

variable {α β : Type}

/-- Computations that keep frames for later use, the next one first, among the effects of `n`. -/
abbrev KeepingT (n : Type → Type) := StateT (List Frame) n

/-- Whatever frames are kept, the computation comes to the value. -/
def KeepingT.Passes {n : Type → Type} [Monad n] (x : KeepingT n α) (value : α) : Prop :=
  ∀ kept, ∃ kept', x.run kept = pure (value, kept')

section Passes

variable {n : Type → Type} [Monad n]

namespace KeepingT.Passes

theorem pure (value : α) : Passes (Pure.pure value : KeepingT n α) value :=
  fun kept => ⟨kept, rfl⟩

/-- The frame that is opened is like a new one, whatever was left in the kept frame that is used. -/
theorem openFrame (e : Engine) : Passes (Arena.openFrame e : KeepingT n Engine) e.openFrame := by
  intro kept
  cases kept with
  | nil => exact ⟨_, rfl⟩
  -- the reset sets every field of the used frame
  | cons used kept => exact ⟨_, rfl⟩

theorem leaveFrame (e : Engine) : Passes (Arena.leaveFrame e : KeepingT n Unit) () :=
  fun _ => ⟨_, rfl⟩

variable [LawfulMonad n] {value : α} {next : α → KeepingT n β} {result : β}

theorem bind {x : KeepingT n α} (hx : x.Passes value) (hn : (next value).Passes result) :
    (x >>= next).Passes result := by
  intro kept
  obtain ⟨kept', hx⟩ := hx kept
  obtain ⟨kept'', hn⟩ := hn kept'
  exact ⟨kept'', by rw [StateT.run_bind, hx, pure_bind, hn]⟩

section Errors

variable {ε : Type}

theorem lift {x : KeepingT n α} (hx : x.Passes value) :
    (ExceptT.lift x : ExceptT ε (KeepingT n) α).run.Passes (.ok value) := by
  rw [ExceptT.run_lift, map_eq_pure_bind]
  exact hx.bind (pure _)

/-- What runs behind a computation without errors. -/
theorem lift_bind {x : KeepingT n α} {next : α → ExceptT ε (KeepingT n) β} {result : Except ε β}
    (hx : x.Passes value) (hn : (next value).run.Passes result) :
    (ExceptT.lift x >>= next).run.Passes result := by
  rw [ExceptT.run_bind]
  exact hx.lift.bind hn

theorem bind_ok {x : ExceptT ε (KeepingT n) α} {next : α → ExceptT ε (KeepingT n) β}
    {result : Except ε β} (hx : x.run.Passes (.ok value)) (hn : (next value).run.Passes result) :
    (x >>= next).run.Passes result := by
  rw [ExceptT.run_bind]
  exact hx.bind hn

theorem bind_error {x : ExceptT ε (KeepingT n) α} {next : α → ExceptT ε (KeepingT n) β} {error : ε}
    (hx : x.run.Passes (.error error)) : (x >>= next).run.Passes (.error error) := by
  rw [ExceptT.run_bind]
  exact hx.bind (pure _)

end Errors

end KeepingT.Passes

open KeepingT

/-- On this engine, the rule comes to what the plain rule comes to, whatever frames are kept. -/
def AgreesAt (e : Engine) (rule : RuleT (KeepingT n) α) (plain : Rule α) : Prop :=
  (rule e).Passes (plain.result e)

namespace AgreesAt

variable {e : Engine} {rule : RuleT (KeepingT n) α} {plain : Rule α}

variable [LawfulMonad n]

/-- The second rule runs on the engine that the first has left. -/
theorem bind {next : α → RuleT (KeepingT n) β} {plainNext : α → Rule β}
    (h : AgreesAt e rule plain)
    (hn : ∀ value e', plain.result e = (.hit value, e') →
      AgreesAt e' (next value) (plainNext value)) :
    AgreesAt e (rule >>= next) (plain >>= plainNext) := by
  change (RuleT.bind rule next e).Passes _
  rw [result_bind]
  apply Passes.bind h
  rcases hrun : plain.result e with ⟨value | _ | x, e'⟩
  · exact hn value e' hrun
  · exact .pure _
  · exact .pure _

theorem optional (h : AgreesAt e rule plain) :
    AgreesAt e (RuleT.optional rule) (RuleT.optional plain) := by
  unfold AgreesAt
  rw [result_optional]
  apply Passes.bind h
  rcases plain.result e with ⟨value | _ | x, e'⟩ <;> exact .pure _

theorem seq_cons {rest : List (RuleT (KeepingT n) α)} {plainRest : List (Rule α)}
    (h : AgreesAt e rule plain)
    (hrest : ∀ value e', plain.result e = (.hit value, e') →
      AgreesAt e' (RuleT.seq rest) (RuleT.seq plainRest)) :
    AgreesAt e (RuleT.seq (rule :: rest)) (RuleT.seq (plain :: plainRest)) := by
  unfold AgreesAt
  rw [result_seq_cons]
  apply Passes.bind h
  rcases hrun : plain.result e with ⟨value | _ | x, e'⟩
  · exact Passes.bind (hrest value e' hrun) (.pure _)
  · exact .pure _
  · exact .pure _

variable [Checks n]

theorem scope (h : AgreesAt e.openFrame rule plain)
    (hplace : Passes (check e.cursor.skipIgnorable e.cursor.skipIgnorable? : KeepingT n Unit) ())
    (hdepth : Passes (ensure (0 < (plain.result e.openFrame).2.depth) : KeepingT n Unit) ()) :
    AgreesAt e (RuleT.scope rule) (RuleT.scope plain) := by
  unfold AgreesAt
  cases hf : e.frame.failed with
  | true =>
    rw [result_scope_of_failed plain hf, RuleT.scope, if_pos hf]
    exact .pure _
  | false =>
    rw [result_scope plain hf, RuleT.scope, if_neg (by simp [hf])]
    -- the frame that is left goes to those that are kept, and the frame around does not see it
    apply hplace.bind
    apply (Passes.openFrame e).bind
    apply Passes.bind h
    exact hdepth.bind ((Passes.leaveFrame _).bind (.pure _))

theorem firstOf_cons {rest : List (RuleT (KeepingT n) α)} {plainRest : List (Rule α)}
    (h : AgreesAt e (RuleT.scope rule) (RuleT.scope plain))
    (hrest : ∀ e', (RuleT.scope plain).result e = (.miss, e') →
      AgreesAt e' (RuleT.firstOf rest) (RuleT.firstOf plainRest)) :
    AgreesAt e (RuleT.firstOf (rule :: rest)) (RuleT.firstOf (plain :: plainRest)) := by
  unfold AgreesAt
  rw [result_firstOf_cons]
  apply Passes.bind h
  rcases hrun : (RuleT.scope plain).result e with ⟨found | _ | x, e'⟩
  · exact .pure _
  · exact hrest e' hrun
  · exact .pure _

theorem alt {branches : List (RuleT (KeepingT n) α)} {plainBranches : List (Rule α)}
    (h : AgreesAt e.discharged (RuleT.firstOf branches) (RuleT.firstOf plainBranches)) :
    AgreesAt e (RuleT.alt branches) (RuleT.alt plainBranches) := by
  unfold AgreesAt
  cases hf : e.frame.failed with
  | true =>
    rw [result_alt_of_failed _ hf, RuleT.alt, if_pos hf]
    exact .pure _
  | false =>
    rw [result_alt _ hf, RuleT.alt, if_neg (by simp [hf])]
    apply Passes.bind h
    rcases (RuleT.firstOf plainBranches).result e.discharged with ⟨value | _ | x, e'⟩ <;>
      exact .pure _

theorem manyWithin_succ {bound : Nat} (h : AgreesAt e (RuleT.scope rule) (RuleT.scope plain))
    (hrest : ∀ value e', (RuleT.scope plain).result e = (.hit value, e') →
      AgreesAt e' (RuleT.manyWithin rule bound) (RuleT.manyWithin plain bound)) :
    AgreesAt e (RuleT.manyWithin rule (bound + 1)) (RuleT.manyWithin plain (bound + 1)) := by
  unfold AgreesAt
  rw [result_manyWithin_succ]
  apply Passes.bind h
  rcases hrun : (RuleT.scope plain).result e with ⟨⟨value, capture⟩ | _ | x, e'⟩
  · dsimp only
    split
    · exact .pure _
    · exact Passes.bind (hrest _ e' hrun) (.pure _)
  · exact .pure _
  · exact .pure _

end AgreesAt

end Passes

open KeepingT

/-- Computations that keep frames and do nothing else. -/
abbrev Keeping := KeepingT Id

/-- What a rule comes to amid kept frames, and the engine that it leaves. -/
def RuleT.amid (kept : List Frame) (rule : RuleT Keeping α) (e : Engine) : Outcome α × Engine :=
  (Id.run ((rule e).run kept)).1

/-- The rule on an engine that opens a new frame each time. -/
def RuleT.afresh (rule : RuleT Keeping α) : Rule α := fun e => pure (rule.amid [] e)

/-- On every engine, the rule comes to what the plain rule comes to, whatever frames are kept. -/
def Simulates (plain : Rule α) (rule : RuleT Keeping α) : Prop := ∀ e, AgreesAt e rule plain

namespace Simulates

variable {plain : Rule α} {rule : RuleT Keeping α}

theorem amid_eq (h : Simulates plain rule) (kept : List Frame) (e : Engine) :
    rule.amid kept e = plain.result e := by
  obtain ⟨kept', hrun⟩ := h e kept
  unfold amid
  rw [hrun]
  rfl

theorem eq_afresh (h : Simulates plain rule) : plain = rule.afresh :=
  funext fun e => (h.amid_eq [] e).symm

theorem bind {next : α → RuleT Keeping β} {plainNext : α → Rule β} (h : Simulates plain rule)
    (hn : ∀ value, Simulates (plainNext value) (next value)) :
    Simulates (plain >>= plainNext) (rule >>= next) :=
  fun e => (h e).bind fun value e' _ => hn value e'

theorem optional (h : Simulates plain rule) :
    Simulates (RuleT.optional plain) (RuleT.optional rule) := fun e => (h e).optional

theorem pattern (p : Pattern) : Simulates (RuleT.pattern p) (RuleT.pattern p) := by
  intro e
  change Passes (Engine.recogniseM p e : Keeping _) (Engine.recognise p e)
  unfold Engine.recognise Engine.recogniseM
  apply Passes.bind (.pure ())
  split
  · exact .pure _
  · dsimp only
    split
    · exact .pure _
    · split
      · exact .pure _
      · exact .pure _

theorem delimited (opening closing : Char) :
    Simulates (RuleT.delimited opening closing) (RuleT.delimited opening closing) := by
  intro e
  change Passes (Engine.delimitedM opening closing e : Keeping _) (Engine.delimited opening closing e)
  unfold Engine.delimited Engine.delimitedM
  split
  · exact .pure _
  · apply Passes.bind (.pure ())
    split
    · dsimp only
      split
      · exact .pure _
      · exact .pure _
    · exact .pure _

theorem scope (h : Simulates plain rule) : Simulates (RuleT.scope plain) (RuleT.scope rule) :=
  fun e => (h e.openFrame).scope (.pure ()) (.pure ())

theorem seq {plains : List (Rule α)} {steps : List (RuleT Keeping α)}
    (h : List.Forall₂ Simulates plains steps) :
    Simulates (RuleT.seq plains) (RuleT.seq steps) := by
  induction h with
  | nil => exact fun _ => Passes.pure _
  | cons hstep _ ih => exact fun e => (hstep e).seq_cons fun _ e' _ => ih e'

theorem alt {plains : List (Rule α)} {branches : List (RuleT Keeping α)}
    (h : List.Forall₂ Simulates plains branches) :
    Simulates (RuleT.alt plains) (RuleT.alt branches) := by
  have hfirst : Simulates (RuleT.firstOf plains) (RuleT.firstOf branches) := by
    induction h with
    | nil => exact fun _ => Passes.pure _
    | cons hbranch _ ih => exact fun e => (hbranch.scope e).firstOf_cons fun e' _ => ih e'
  exact fun e => (hfirst e.discharged).alt

theorem many (h : Simulates plain rule) : Simulates (RuleT.many plain) (RuleT.many rule) := by
  have hwithin (bound : Nat) :
      Simulates (RuleT.manyWithin plain bound) (RuleT.manyWithin rule bound) := by
    induction bound with
    | zero => exact fun _ => Passes.pure _
    | succ bound ih => exact fun e => (h.scope e).manyWithin_succ fun _ e' _ => ih e'
  exact fun e => hwithin (e.source.length + 2) e

end Simulates

/-- A structured rule is simulated by the same rule with a new frame each time, which is structured
as well. -/
theorem Structured.afresh {rule : RuleT Keeping α} (h : Structured rule) :
    Structured rule.afresh ∧ Simulates rule.afresh rule := by
  -- what is simulated by the rule can only be the rule with a new frame each time, so in each case it
  -- is enough to build that from the parts
  have hsimulated {α : Type} {rule : RuleT Keeping α} {plain : Rule α} (hp : Structured plain)
      (hs : Simulates plain rule) : Structured rule.afresh ∧ Simulates rule.afresh rule :=
    hs.eq_afresh ▸ ⟨hp, hs⟩
  induction h with
  | pure value => exact hsimulated (.pure value) fun _ => .pure _
  | miss => exact hsimulated .miss fun _ => .pure _
  | refuse fault cursor => exact hsimulated (.refuse fault cursor) fun _ => .pure _
  | ofState f => exact hsimulated (.ofState f) fun _ => .pure _
  | bind _ _ hr hn =>
    exact hsimulated (.bind hr.1 fun value => (hn value).1) (hr.2.bind fun value => (hn value).2)
  | optional _ hr => exact hsimulated hr.1.optional hr.2.optional
  | pattern p => exact hsimulated (.pattern p) (.pattern p)
  | delimited opening closing =>
    exact hsimulated (.delimited opening closing) (.delimited opening closing)
  | negate => exact hsimulated .negate fun _ => .pure _
  | require fault => exact hsimulated (.require fault) fun _ => .pure _
  | requireLast fault => exact hsimulated (.requireLast fault) fun _ => .pure _
  | replaceLast f => exact hsimulated (.replaceLast f) fun _ => .pure _
  | scope _ hb => exact hsimulated hb.1.scope hb.2.scope
  | @seq _ steps _ hs =>
    have hstructured : ∀ plain ∈ steps.map RuleT.afresh, Structured plain :=
      List.forall_mem_map.2 fun step hmem => (hs step hmem).1
    refine hsimulated (.seq hstructured) (.seq ?_)
    exact List.forall₂_map_left_iff.2 (List.forall₂_same.2 fun step hmem => (hs step hmem).2)
  | @alt _ branches _ hb =>
    have hstructured : ∀ plain ∈ branches.map RuleT.afresh, Structured plain :=
      List.forall_mem_map.2 fun branch hmem => (hb branch hmem).1
    refine hsimulated (.alt hstructured) (.alt ?_)
    exact List.forall₂_map_left_iff.2 (List.forall₂_same.2 fun branch hmem => (hb branch hmem).2)
  | many _ hr => exact hsimulated hr.1.many hr.2.many

/-- Two rules that are built alike are so with a new frame each time. -/
theorem Alike.afresh {p : Pairing} {R : α → β → Prop} {rule : RuleT Keeping α}
    {rule' : RuleT Keeping β} (h : Alike p R rule rule') :
    Alike p R rule.afresh rule'.afresh ∧
      Simulates rule.afresh rule ∧ Simulates rule'.afresh rule' := by
  have hsimulated {α β : Type} {R : α → β → Prop} {rule : RuleT Keeping α}
      {rule' : RuleT Keeping β} {plain : Rule α} {plain' : Rule β} (hp : Alike p R plain plain')
      (hs : Simulates plain rule) (hs' : Simulates plain' rule') :
      Alike p R rule.afresh rule'.afresh ∧
        Simulates rule.afresh rule ∧ Simulates rule'.afresh rule' :=
    hs.eq_afresh ▸ hs'.eq_afresh ▸ ⟨hp, hs, hs'⟩
  induction h with
  | pure h => exact hsimulated (.pure h) (fun _ => .pure _) fun _ => .pure _
  | miss => exact hsimulated .miss (fun _ => .pure _) fun _ => .pure _
  | refuse fault h => exact hsimulated (.refuse fault h) (fun _ => .pure _) fun _ => .pure _
  | ofCursor h => exact hsimulated (.ofCursor h) (fun _ => .pure _) fun _ => .pure _
  | bind _ _ hs hs' hr hn =>
    -- the rules behind the first ones are alike for related values only, but simulated for all
    have hnext := fun a => (hs a).afresh
    have hnext' := fun b => (hs' b).afresh
    exact hsimulated
      (.bind hr.1 (fun a b hab => (hn a b hab).1) (fun a => (hnext a).1) fun b => (hnext' b).1)
      (hr.2.1.bind fun a => (hnext a).2) (hr.2.2.bind fun b => (hnext' b).2)
  | optional _ hr => exact hsimulated hr.1.optional hr.2.1.optional hr.2.2.optional
  | pattern q => exact hsimulated (.pattern q) (.pattern q) (.pattern q)
  | delimited opening closing =>
    exact hsimulated (.delimited opening closing) (.delimited opening closing)
      (.delimited opening closing)
  | negate => exact hsimulated .negate (fun _ => .pure _) fun _ => .pure _
  | require fault => exact hsimulated (.require fault) (fun _ => .pure _) fun _ => .pure _
  | requireLast fault => exact hsimulated (.requireLast fault) (fun _ => .pure _) fun _ => .pure _
  | replaceLast f => exact hsimulated (.replaceLast f) (fun _ => .pure _) fun _ => .pure _
  | scope _ hb => exact hsimulated hb.1.scope hb.2.1.scope hb.2.2.scope
  | @seq _ _ R steps _ hs =>
    have halike : ∀ step ∈ steps.map fun step => (step.1.afresh, step.2.afresh),
        Alike p R step.1 step.2 := List.forall_mem_map.2 fun step hmem => (hs step hmem).1
    refine hsimulated (.seq halike) (.seq ?_) (.seq ?_) <;>
      simp only [List.map_map, List.forall₂_map_left_iff, List.forall₂_map_right_iff,
        List.forall₂_same]
    · exact fun step hmem => (hs step hmem).2.1
    · exact fun step hmem => (hs step hmem).2.2
  | @alt _ _ R branches _ hb =>
    have halike : ∀ branch ∈ branches.map fun branch => (branch.1.afresh, branch.2.afresh),
        Alike p R branch.1 branch.2 := List.forall_mem_map.2 fun branch hmem => (hb branch hmem).1
    refine hsimulated (.alt halike) (.alt ?_) (.alt ?_) <;>
      simp only [List.map_map, List.forall₂_map_left_iff, List.forall₂_map_right_iff,
        List.forall₂_same]
    · exact fun branch hmem => (hb branch hmem).2.1
    · exact fun branch hmem => (hb branch hmem).2.2
  | many _ hr => exact hsimulated hr.1.many hr.2.1.many hr.2.2.many

end NodeMarkup
