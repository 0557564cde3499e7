import NodeMarkup.Proofs.Match.Structured

namespace NodeMarkup

open RuleT

/-- The rule has not succeeded: it missed, or it gave its frame up on the way. -/
def Missed {α : Type} (o : Outcome α) (inner : Engine) : Prop :=
  o = .miss ∨ (∃ value, o = .hit value) ∧ inner.frame.failed = true

/-- What running a rule in a frame of its own does to the engine. -/
structure Transaction {α : Type} (body : Rule α) (e : Engine) : Prop where
  -- As many frames are open as before.
  depth : ((scope body).result e).2.depth = e.depth
  -- Every frame around the innermost one is as before.
  outer : ((scope body).result e).2.outer = e.outer
  -- The innermost frame, by what the rule has come to.
  frame :
    let (o, inner) := body.result e.openFrame
    let (result, after) := (scope body).result e
    -- a hit: the rule's captures become one, and the frame owes nothing any more
    (∃ value capture, o = .hit value ∧ inner.frame.failed = false ∧
      result = .hit (value, capture) ∧
      after.frame.cursor = inner.frame.cursor ∧
      after.frame.captures = e.frame.captures ++ [capture] ∧
      capture.text = (inner.frame.captures.map Capture.text).flatten ∧
      after.frame.last = true ∧ after.frame.obligation = none) ∨
    -- a miss that nobody minds
    (Missed o inner ∧ e.frame.obligation = none ∧
      result = .miss ∧ after.frame = { e.frame with last := false }) ∨
    -- a miss that was owed: the error stands where the demand was made
    (∃ owed, Missed o inner ∧ e.frame.obligation = some owed ∧
      result = .error ⟨owed.fault, owed.cursor.line + 1, owed.cursor.column + 1⟩ ∧
      after.frame = { e.frame with last := false, obligation := none }) ∨
    -- an error of the rule itself
    (∃ x, o = .error x ∧ result = .error x ∧ after = e)

/-- A structured rule in a frame of its own is a transaction on every engine whose innermost frame
is not given up. -/
theorem scope_transaction {α : Type} (body : Rule α) (hb : Structured body) (e : Engine)
    (hf : e.frame.failed = false) : Transaction body e := by
  have hk := hb.keeps e.openFrame
  have houter := (hb.scope.keeps e).outer
  refine ⟨congrArg List.length houter, houter, ?_⟩
  rcases hr : body.result e.openFrame with ⟨o, inner⟩
  rw [hr] at hk
  obtain ⟨value, rfl, hin, h⟩ | ⟨hmissed, h⟩ | ⟨x, rfl, h⟩ := scope_cases hf hr hk
  · rw [h]
    exact .inl ⟨value, inner.frame.joined, rfl, hin, rfl, rfl, rfl, rfl, rfl, rfl⟩
  · rw [h]
    -- what the frame owes decides between the two kinds of miss
    cases howed : e.frame.obligation with
    | none =>
      refine .inr (.inl ⟨hmissed, rfl, rfl, ?_⟩)
      simp [Engine.discharged, ← howed]
    | some owed => exact .inr (.inr (.inl ⟨owed, hmissed, rfl, rfl, rfl⟩))
  · rw [h]
    exact .inr (.inr (.inr ⟨x, rfl, rfl, rfl⟩))

/-- Two words with a comment between them, the second in a frame inside the frame of the first. -/
theorem scope_transaction_two_words :
    Structured (literal "ab".toList >>= fun _ => framed (literal "cd".toList) : Rule Capture) ∧
    (Engine.start "ab # x\n cd".toList).frame.failed = false ∧
    Transaction (literal "ab".toList >>= fun _ => framed (literal "cd".toList) : Rule Capture)
      (Engine.start "ab # x\n cd".toList) := by
  have hb : Structured
      (literal "ab".toList >>= fun _ => framed (literal "cd".toList) : Rule Capture) :=
    .bind (.literal _) fun _ => .framed (.literal _)
  exact ⟨hb, rfl, scope_transaction _ hb _ rfl⟩

/-- A miss that was owed does not leave the innermost frame as it was but for the mark of its latest
match: the obligation is settled by the error. -/
theorem owed_scope_settles_obligation :
    let e := (Engine.start []).require (.demand "need".toList)
    let body : Rule Capture := literal "a".toList
    Structured body ∧ e.frame.failed = false ∧ e.frame.obligation.isSome ∧
      Missed (body.result e.openFrame).1 (body.result e.openFrame).2 ∧
      ((scope body).result e).2.frame ≠ { e.frame with last := false } := by
  refine ⟨.literal _, rfl, rfl, .inl rfl, ?_⟩
  intro h
  have ho := congrArg Frame.obligation h
  exact absurd ho (by decide)

end NodeMarkup
