import NodeMarkup.Proofs.Match.Unread

namespace NodeMarkup

open RuleT

variable {α β : Type}

/-- The structured rules that raise no error of their own, and replace no captured text, in the
frame that they run in. In frames of their own they may do whatever structured rules do. -/
inductive Matching : {α : Type} → Rule α → Prop where
  | pure {α : Type} (value : α) : Matching (Pure.pure value : Rule α)
  | miss {α : Type} : Matching (RuleT.miss : Rule α)
  | ofState {α : Type} (f : Engine → α) : Matching (RuleT.ofState f : Rule α)
  | bind {α β : Type} {rule : Rule α} {next : α → Rule β} (hr : Matching rule)
      (hn : ∀ value, Matching (next value)) : Matching (rule >>= next)
  | optional {α : Type} {rule : Rule α} (hr : Matching rule) : Matching (RuleT.optional rule)
  | pattern (p : Pattern) : Matching (RuleT.pattern p : Rule Capture)
  | delimited (opening closing : Char) : Matching (RuleT.delimited opening closing : Rule Capture)
  | negate : Matching (RuleT.negate : Rule Unit)
  | require (fault : Fault) : Matching (RuleT.require fault : Rule Unit)
  | requireLast (fault : Fault) : Matching (RuleT.requireLast fault : Rule Unit)
  | scope {α : Type} {body : Rule α} (hb : Structured body) : Matching (RuleT.scope body)
  | seq {α : Type} {steps : List (Rule α)} (hs : ∀ step ∈ steps, Matching step) :
      Matching (RuleT.seq steps)
  | alt {α : Type} {branches : List (Rule α)} (hb : ∀ branch ∈ branches, Structured branch) :
      Matching (RuleT.alt branches)
  | many {α : Type} {rule : Rule α} (hr : Structured rule) : Matching (RuleT.many rule)

theorem Matching.structured {rule : Rule α} (h : Matching rule) : Structured rule := by
  induction h with
  | pure value => exact .pure value
  | miss => exact .miss
  | ofState f => exact .ofState f
  | bind _ _ hr hn => exact .bind hr hn
  | optional _ hr => exact .optional hr
  | pattern p => exact .pattern p
  | delimited opening closing => exact .delimited opening closing
  | negate => exact .negate
  | require fault => exact .require fault
  | requireLast fault => exact .requireLast fault
  | scope hb => exact .scope hb
  | seq _ hs => exact .seq hs
  | alt hb => exact .alt hb
  | many hr => exact .many hr

theorem Outcome.map_ne_error {o : Outcome α} (f : α → β) (h : ∀ x, o ≠ .error x) (x : ParseError) :
    o.map f ≠ .error x := by
  cases o with
  | hit value => simp [Outcome.map]
  | miss => simp [Outcome.map]
  | error y => exact absurd rfl (h y)

/-- In a frame that was given up the rule raises no error and leaves the engine as it is. -/
def Frozen (rule : Rule α) : Prop :=
  ∀ e : Engine, e.frame.failed = true →
    (∀ x, (rule.result e).1 ≠ .error x) ∧ (rule.result e).2 = e

namespace Frozen

theorem of_miss {rule : Rule α}
    (h : ∀ e : Engine, e.frame.failed = true → rule.result e = (.miss, e)) : Frozen rule := by
  intro e hf
  rw [h e hf]
  exact ⟨by simp, rfl⟩

theorem of_hit {rule : Rule α} (f : Engine → α)
    (h : ∀ e : Engine, e.frame.failed = true → rule.result e = (.hit (f e), e)) :
    Frozen rule := by
  intro e hf
  rw [h e hf]
  exact ⟨by simp, rfl⟩

theorem bind {rule : Rule α} {next : α → Rule β} (hr : Frozen rule)
    (hn : ∀ value, Frozen (next value)) : Frozen (rule >>= next) := by
  intro e hf
  obtain ⟨hsilent, hsame⟩ := hr e hf
  rw [result_bind]
  rcases h : rule.result e with ⟨value | _ | x, e'⟩ <;> rw [h] at hsilent hsame
  · obtain rfl : e' = e := hsame
    exact hn value e' hf
  · exact ⟨by simp, hsame⟩
  · exact absurd rfl (hsilent x)

theorem optional {rule : Rule α} (hr : Frozen rule) : Frozen (RuleT.optional rule) := by
  intro e hf
  obtain ⟨hsilent, hsame⟩ := hr e hf
  rw [result_optional]
  rcases h : rule.result e with ⟨value | _ | x, e'⟩ <;> rw [h] at hsilent hsame
  · exact ⟨by simp, hsame⟩
  · exact ⟨by simp, hsame⟩
  · exact absurd rfl (hsilent x)

theorem pattern (p : Pattern) : Frozen (RuleT.pattern p) :=
  of_miss fun _ hf => Engine.recognise_of_failed hf

theorem delimited (opening closing : Char) : Frozen (RuleT.delimited opening closing) :=
  of_miss fun _ hf => Engine.delimited_of_failed hf

theorem negate : Frozen RuleT.negate :=
  of_hit (fun _ => ()) fun _ hf => congrArg (Prod.mk _) (if_pos hf)

theorem require (fault : Fault) : Frozen (RuleT.require fault) :=
  of_hit (fun _ => ()) fun _ hf => congrArg (Prod.mk _) (if_pos hf)

theorem requireLast (fault : Fault) : Frozen (RuleT.requireLast fault) :=
  of_hit (fun _ => ()) fun _ hf => if_pos (by simp [hf])

/-- A step that misses gives up a frame that was given up before. -/
theorem seq {steps : List (Rule α)} (hs : ∀ step ∈ steps, Frozen step) :
    Frozen (RuleT.seq steps) := by
  induction steps with
  | nil => exact of_hit (fun _ => []) fun _ _ => rfl
  | cons step rest ih =>
    intro e hf
    obtain ⟨hsilent, hsame⟩ := hs step (by simp) e hf
    obtain ⟨hsilent', hsame'⟩ := ih (fun r hr => hs r (by simp [hr])) e hf
    rw [result_seq_cons]
    rcases h : step.result e with ⟨value | _ | x, e'⟩ <;> rw [h] at hsilent hsame
    · obtain rfl : e' = e := hsame
      exact ⟨Outcome.map_ne_error _ hsilent', hsame'⟩
    · obtain rfl : e' = e := hsame
      refine ⟨by simp, ?_⟩
      simp only [Engine.fail, ← hf]
    · exact absurd rfl (hsilent x)

theorem many (rule : Rule α) : Frozen (RuleT.many rule) := by
  refine of_hit (fun _ => []) fun e hf => ?_
  change (RuleT.manyWithin rule (e.source.length + 1 + 1)).result e = _
  rw [result_manyWithin_succ, result_scope_of_failed rule hf]

end Frozen

/-- Nothing that a rule does in a frame that was given up has an effect. What is repeated or has a
frame of its own is not even tried there, so the induction goes through what runs in the frame
itself. -/
theorem Matching.frozen {rule : Rule α} (h : Matching rule) : Frozen rule := by
  induction h with
  | pure value => exact .of_hit (fun _ => value) fun _ _ => rfl
  | miss => exact .of_miss fun _ _ => rfl
  | ofState f => exact .of_hit f fun _ _ => rfl
  | bind _ _ hr hn => exact hr.bind hn
  | optional _ hr => exact hr.optional
  | pattern p => exact .pattern p
  | delimited opening closing => exact .delimited opening closing
  | negate => exact .negate
  | require fault => exact .require fault
  | requireLast fault => exact .requireLast fault
  | scope _ => exact .of_miss fun _ hf => result_scope_of_failed _ hf
  | seq _ hs => exact .seq hs
  | alt _ => exact .of_miss fun _ hf => result_alt_of_failed _ hf
  | many _ => exact .many _

/-- What a miss comes to for the frame that it is a miss of. -/
theorem Engine.missed_discharged (e : Engine) :
    (e.discharged.missed e.frame.obligation : Outcome α × Engine) =
      (e.owedMiss, { e with frame := { e.frame with last := false, obligation := none } }) := by
  unfold Engine.missed Engine.owedMiss
  cases e.frame.obligation <;> rfl

/-- What is left of an engine whose innermost frame was given up. -/
structure Engine.InertFrame (e : Engine) : Prop where
  -- Whatever is tried in the frame: there is no error, and nothing changes.
  silent : ∀ {α : Type} (rule : Rule α), Matching rule →
    (∀ x, (rule.result e).1 ≠ .error x) ∧ (rule.result e).2 = e
  -- The frame was opened for a rule that has come as far as this. Whatever that rule goes on to do
  -- and to return, it is a miss for the frame around, or the error of what this one owes.
  owner : ∀ {α β : Type} (around : Engine) (first : Rule α) (o : Outcome α)
    (next : Option α → Rule β), around.frame.failed = false → Structured first →
    first.result around.openFrame = (o, e) → (∀ x, o ≠ .error x) →
    (∀ found, Matching (next found)) →
    (scope (optional first >>= next)).result around =
      (around.owedMiss,
        { around with frame := { around.frame with last := false, obligation := none } })

/-- A frame that was given up is inert, on every engine. -/
theorem inertFrame_of_failed (e : Engine) (hf : e.frame.failed = true) : e.InertFrame := by
  constructor
  case silent =>
    intro α rule hr
    exact hr.frozen e hf
  case owner =>
    intro α β around first o next haround hfirst hrun hsilent hnext
    have hkeeps : Keeps (optional first >>= next) :=
      hfirst.keeps.optional.bind fun found => (hnext found).structured.keeps
    obtain ⟨found, hfound⟩ :
        ∃ found, (optional first).result around.openFrame = (.hit found, e) := by
      rw [result_optional, hrun]
      cases o with
      | hit value => exact ⟨some value, rfl⟩
      | miss => exact ⟨none, rfl⟩
      | error x => exact absurd rfl (hsilent x)
    obtain ⟨hquiet, hsame⟩ := (hnext found).frozen e hf
    have hbody : (optional first >>= next).result around.openFrame =
        (((next found).result e).1, e) := by
      rw [result_bind, hfound]
      exact Prod.ext rfl hsame
    have hkept := hkeeps around.openFrame
    rw [hbody] at hkept
    -- a rule whose frame is given up at its end has not succeeded
    obtain ⟨value, -, hopen, -⟩ | ⟨-, h⟩ | ⟨x, herror, -⟩ := scope_cases haround hbody hkept
    · simp [hf] at hopen
    · rw [h, Engine.missed_discharged]
    · exact absurd herror (hquiet x)

/-- A sequence that misses at its second word, and then a demand that is not met and a word that is
there. The frame is owed to another, which gets the error of its own demand. -/
theorem inertFrame_of_failed_word :
    let words : Rule (List Capture) := seq [literal "a".toList, literal "b".toList]
    let rest : Rule Capture := require (.demand "need".toList) >>= fun _ =>
      optional (delimited '(' ')') >>= fun _ => literal "c".toList
    let around := (Engine.start "ac".toList).require (.demand "words".toList)
    let e := (words.result around.openFrame).2
    e.frame.failed = true ∧ Matching rest ∧ e.InertFrame ∧ (rest.result e).2 = e ∧
      ((scope (optional words >>= fun _ => optional rest)).result around).1 =
        .error ⟨.demand "words".toList, 1, 1⟩ := by
  intro words rest around e
  have hfailed : e.frame.failed = true := by decide
  have hwords : Structured words := .seq (by simp [Structured.literal])
  have hrest : Matching rest :=
    .bind (.require _) fun _ => .bind (.optional (.delimited _ _)) fun _ => .pattern _
  have hinert := inertFrame_of_failed e hfailed
  refine ⟨hfailed, hrest, hinert, (hinert.silent rest hrest).2, ?_⟩
  rw [hinert.owner around words .miss (fun _ => optional rest) rfl hwords (by decide) (by simp)
    fun _ => hrest.optional]
  decide

end NodeMarkup
