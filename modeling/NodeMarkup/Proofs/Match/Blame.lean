import NodeMarkup.Proofs.Match.Reading
/-!
Where errors stand. An error is made from a cursor that may have been kept for a long time: the
place of a demand, of a delimiter or of something already read. `Blames s rule P` follows a rule
from the place `s` on and says that all these places are `s` or lie behind it, and that no error is
about the frames of the engine itself. There is one lemma for each way to build a rule.
-/
namespace NodeMarkup

open RuleT

variable {α β : Type} {s : Cursor}

/-- Whether a fault says that the frames of the engine were not opened and closed in pairs, and
nothing about the source. -/
def Fault.isInternal : Fault → Bool
  | noFrameToClose => true
  | frameLeftOpen => true
  | _ => false

/-- The error is about the source, and stands at the place. -/
def ParseError.At (x : ParseError) (place : Cursor) : Prop :=
  ∃ fault, x = .ofCursor fault place ∧ fault.isInternal = false

/-- The error is about the source, and stands at `s` or behind it. -/
def ParseError.From (x : ParseError) (s : Cursor) : Prop := ∃ place, s.Reaches place ∧ x.At place

theorem ParseError.From.of_reaches {x : ParseError} {c d : Cursor} (h : x.From d)
    (hc : c.Reaches d) : x.From c := by
  obtain ⟨place, hplace, hx⟩ := h
  exact ⟨place, hc.trans hplace, hx⟩

theorem ParseError.from_ofCursor {fault : Fault} {place : Cursor} (hp : s.Reaches place)
    (hf : fault.isInternal = false) : (ParseError.ofCursor fault place).From s :=
  ⟨place, hp, fault, rfl, hf⟩

/-- What is owed was demanded at `s` or behind it. -/
def OwedFrom (s : Cursor) (owed : Option Obligation) : Prop := ∀ o ∈ owed, o.error.From s

theorem owedFrom_none : OwedFrom s none := by simp [OwedFrom]

/-- What a rule comes to, from an engine that reads on at `s` or behind it. -/
structure Blamed (s : Cursor) (P : α → Prop) (e : Engine) (r : Outcome α × Engine) : Prop where
  kept : e.Kept r.2
  owed : OwedFrom s r.2.frame.obligation
  value : ∀ value, r.1 = .hit value → P value
  error : ∀ x, r.1 = .error x → x.From s

/-- From `s` on the rule raises only errors that stand at `s` or behind it, and what it finds meets
the condition. -/
def Blames (s : Cursor) (rule : Rule α) (P : α → Prop) : Prop :=
  ∀ e : Engine, s.Reaches e.cursor → OwedFrom s e.frame.obligation →
    Blamed s P e (rule.result e)

namespace Blamed

variable {P : α → Prop} {e e' : Engine} {r : Outcome α × Engine}

theorem reaches (h : Blamed s P e r) (he : s.Reaches e.cursor) : s.Reaches r.2.cursor :=
  he.trans h.kept.reaches

theorem hit {value : α} (hk : e.Kept e') (ho : OwedFrom s e'.frame.obligation) (hv : P value) :
    Blamed s P e (.hit value, e') := by
  refine ⟨hk, ho, ?_, by simp⟩
  intro found hfound
  cases hfound
  exact hv

theorem miss (hk : e.Kept e') (ho : OwedFrom s e'.frame.obligation) : Blamed s P e (.miss, e') :=
  ⟨hk, ho, by simp, by simp⟩

theorem failed {x : ParseError} (hk : e.Kept e') (ho : OwedFrom s e'.frame.obligation)
    (hx : x.From s) : Blamed s P e (.error x, e') := by
  refine ⟨hk, ho, by simp, ?_⟩
  intro found hfound
  cases hfound
  exact hx

/-- A miss is an error only if it was owed. -/
theorem missed {owed : Option Obligation} (hk : e.Kept e') (ho : OwedFrom s e'.frame.obligation)
    (howed : OwedFrom s owed) : Blamed s P e (e'.missed owed) := by
  cases owed with
  | none => exact miss (hk.trans (.of_cursor_eq rfl rfl rfl)) ho
  | some o => exact failed (hk.trans (.of_cursor_eq rfl rfl rfl)) ho (howed o rfl)

theorem missed_settled (ho : OwedFrom s e.frame.obligation) :
    Blamed s P e (({ e with frame := e.frame.settled } : Engine).missed e.frame.obligation) :=
  missed (.of_cursor_eq rfl rfl rfl) owedFrom_none ho

end Blamed

namespace Blames

variable {P : α → Prop} {Q : β → Prop} {rule : Rule α}

theorem pure {value : α} (h : P value) : Blames s (Pure.pure value) P :=
  fun e _ ho => .hit (.refl e) ho h

theorem miss : Blames s (RuleT.miss : Rule α) P := fun e _ ho => .miss (.refl e) ho

theorem refuse {fault : Fault} {place : Cursor} (hp : s.Reaches place)
    (hf : fault.isInternal = false) : Blames s (RuleT.refuse fault place : Rule α) P :=
  fun e _ ho => .failed (.refl e) ho (ParseError.from_ofCursor hp hf)

theorem ofState (f : Engine → α) : Blames s (RuleT.ofState f) fun _ => True :=
  fun e _ ho => .hit (.refl e) ho trivial

theorem rangeFrom (start : Cursor) :
    Blames s (RuleT.rangeFrom start) fun range => range.start = start :=
  fun e _ ho => .hit (.refl e) ho rfl

theorem bind {next : α → Rule β} (hr : Blames s rule P)
    (hn : ∀ value, P value → Blames s (next value) Q) : Blames s (rule >>= next) Q := by
  intro e he ho
  have hfirst := hr e he ho
  rw [result_bind]
  rcases h : rule.result e with ⟨value | _ | x, e'⟩ <;> rw [h] at hfirst
  · have hnext := hn value (hfirst.value value rfl) e' (hfirst.reaches he) hfirst.owed
    exact ⟨hfirst.kept.trans hnext.kept, hnext.owed, hnext.value, hnext.error⟩
  · exact .miss hfirst.kept hfirst.owed
  · exact .failed hfirst.kept hfirst.owed (hfirst.error x rfl)

theorem mono {R : α → Prop} (hr : Blames s rule P) (h : ∀ value, P value → R value) :
    Blames s rule R := by
  intro e he ho
  have hresult := hr e he ho
  exact ⟨hresult.kept, hresult.owed, fun value hv => h value (hresult.value value hv),
    hresult.error⟩

theorem optional (hr : Blames s rule P) : Blames s (RuleT.optional rule) fun _ => True := by
  intro e he ho
  have hfirst := hr e he ho
  rw [result_optional]
  rcases h : rule.result e with ⟨value | _ | x, e'⟩ <;> rw [h] at hfirst
  · exact .hit hfirst.kept hfirst.owed trivial
  · exact .hit hfirst.kept hfirst.owed trivial
  · exact .failed hfirst.kept hfirst.owed (hfirst.error x rfl)

theorem pattern (p : Pattern) :
    Blames s (RuleT.pattern p) fun capture => s.Reaches capture.range.start := by
  intro e he ho
  have hkept := Engine.kept_recognise p e
  change Blamed s _ e (e.recognise p)
  cases hfailed : e.frame.failed with
  | true =>
    rw [Engine.recognise_of_failed hfailed]
    exact .miss (.refl e) ho
  | false =>
    cases hp : p e.cursor.rest with
    | none =>
      rw [Engine.recognise_of_none hfailed hp]
      split
      · exact .hit (.of_cursor_eq rfl rfl rfl) owedFrom_none he
      · exact .missed_settled ho
    | some n =>
      rw [Engine.recognise_of_some hfailed hp] at hkept ⊢
      split
      · exact .missed_settled ho
      · next hnegate =>
        rw [if_neg hnegate] at hkept
        exact .hit hkept owedFrom_none he

theorem delimited (opening closing : Char) :
    Blames s (RuleT.delimited opening closing) fun _ => True := by
  intro e he ho
  have hkept := Engine.kept_delimited opening closing e
  change Blamed s _ e (e.delimited opening closing)
  cases hfailed : e.frame.failed with
  | true =>
    rw [Engine.delimited_of_failed hfailed]
    exact .miss (.refl e) ho
  | false =>
    by_cases hopening : e.cursor.current? = some opening
    · cases hn : Lexeme.blockLength opening closing .code 0 e.cursor.advance.rest with
      | none =>
        rw [Engine.delimited_of_unclosed hfailed hopening hn] at hkept ⊢
        -- the error stands behind the opening delimiter
        have hinside := he.trans (Cursor.reaches_advance e.cursor)
        exact .failed hkept owedFrom_none (ParseError.from_ofCursor hinside rfl)
      | some n =>
        rw [Engine.delimited_of_block hfailed hopening hn] at hkept ⊢
        exact .hit hkept owedFrom_none trivial
    · rw [Engine.delimited_of_other hfailed hopening]
      exact .missed_settled ho

theorem negate : Blames s RuleT.negate fun _ => True := by
  intro e he ho
  refine .hit (Engine.kept_negate e) ?_ trivial
  unfold Engine.negate
  split <;> exact ho

theorem require {fault : Fault} (hf : fault.isInternal = false) :
    Blames s (RuleT.require fault) fun _ => True := by
  intro e he ho
  refine .hit (Engine.kept_require fault e) ?_ trivial
  unfold Engine.require
  split
  · exact ho
  · intro o howed
    cases howed
    exact ParseError.from_ofCursor he hf

theorem requireLast {fault : Fault} (hf : fault.isInternal = false) :
    Blames s (RuleT.requireLast fault) fun _ => True := by
  intro e he ho
  change Blamed s _ e (e.requireLast fault)
  unfold Engine.requireLast
  split
  · exact .hit (.refl e) ho trivial
  · exact .failed (.refl e) ho (ParseError.from_ofCursor he hf)

theorem replaceLast (f : Text → Text) : Blames s (RuleT.replaceLast f) fun _ => True := by
  intro e he ho
  change Blamed s _ e (e.replaceLast f)
  unfold Engine.replaceLast
  split
  · exact .miss (.refl e) ho
  · exact .hit (.of_cursor_eq rfl rfl rfl) ho trivial

/-- A frame begins behind `s` and owes nothing; the frame around it owes what was demanded before. -/
theorem scope (hb : Blames s rule P) : Blames s (RuleT.scope rule) fun found => P found.1 := by
  intro e he ho
  cases hfailed : e.frame.failed with
  | true =>
    rw [result_scope_of_failed rule hfailed]
    exact .miss (.refl e) ho
  | false =>
    have hskip := Cursor.reaches_skipIgnorable e.cursor
    have hbody := hb e.openFrame (he.trans hskip) owedFrom_none
    rcases hr : rule.result e.openFrame with ⟨o, inner⟩
    rw [hr] at hbody
    obtain ⟨value, rfl, -, h⟩ | ⟨-, h⟩ | ⟨x, rfl, h⟩ := scope_cases hfailed hr hbody.kept
    · rw [h]
      exact .hit ⟨rfl, rfl, hskip.trans hbody.kept.reaches⟩ owedFrom_none (hbody.value value rfl)
    · rw [h]
      exact .missed e.kept_discharged owedFrom_none ho
    · rw [h]
      exact .failed (.refl e) ho (hbody.error x rfl)

theorem framed (hr : Blames s rule P) : Blames s (RuleT.framed rule) P :=
  hr.scope.bind fun _ h => pure h

theorem required {fault : Fault} (hf : fault.isInternal = false) (hr : Blames s rule P) :
    Blames s (RuleT.required fault rule) P :=
  (require hf).bind fun _ _ => hr.framed

theorem seq {steps : List (Rule α)} (hs : ∀ step ∈ steps, Blames s step P) :
    Blames s (RuleT.seq steps) fun values => ∀ value ∈ values, P value := by
  induction steps with
  | nil => exact pure (List.forall_mem_nil P)
  | cons step steps ih =>
    intro e he ho
    have hfirst := hs step (by simp) e he ho
    rw [result_seq_cons]
    rcases h : step.result e with ⟨value | _ | x, e'⟩ <;> rw [h] at hfirst
    · have hrest := ih (fun r hr => hs r (by simp [hr])) e' (hfirst.reaches he) hfirst.owed
      dsimp only
      rcases hrun : (RuleT.seq steps).result e' with ⟨values | _ | x, e''⟩ <;> rw [hrun] at hrest
      · have hvalues := List.forall_mem_cons.2 ⟨hfirst.value value rfl, hrest.value values rfl⟩
        exact .hit (hfirst.kept.trans hrest.kept) hrest.owed hvalues
      · exact .miss (hfirst.kept.trans hrest.kept) hrest.owed
      · exact .failed (hfirst.kept.trans hrest.kept) hrest.owed (hrest.error x rfl)
    · exact .miss (hfirst.kept.trans (.of_cursor_eq rfl rfl rfl)) hfirst.owed
    · exact .failed hfirst.kept hfirst.owed (hfirst.error x rfl)

theorem firstOf {branches : List (Rule α)} (hb : ∀ branch ∈ branches, Blames s branch P) :
    Blames s (RuleT.firstOf branches) P := by
  induction branches with
  | nil => exact miss
  | cons branch branches ih =>
    intro e he ho
    have hfirst := (hb branch (by simp)).scope e he ho
    rw [result_firstOf_cons]
    rcases h : (RuleT.scope branch).result e with ⟨found | _ | x, e'⟩ <;> rw [h] at hfirst
    · exact .hit hfirst.kept hfirst.owed (hfirst.value found rfl)
    · have hrest := ih (fun r hr => hb r (by simp [hr])) e' (hfirst.reaches he) hfirst.owed
      exact ⟨hfirst.kept.trans hrest.kept, hrest.owed, hrest.value, hrest.error⟩
    · exact .failed hfirst.kept hfirst.owed (hfirst.error x rfl)

theorem alt {branches : List (Rule α)} (hb : ∀ branch ∈ branches, Blames s branch P) :
    Blames s (RuleT.alt branches) P := by
  intro e he ho
  cases hfailed : e.frame.failed with
  | true =>
    rw [result_alt_of_failed branches hfailed]
    exact .miss (.refl e) ho
  | false =>
    have hfirst := firstOf hb e.discharged he owedFrom_none
    have hkept := e.kept_discharged.trans hfirst.kept
    rw [result_alt branches hfailed]
    rcases h : (RuleT.firstOf branches).result e.discharged with ⟨value | _ | x, e'⟩ <;>
      rw [h] at hfirst hkept
    · exact .hit hkept hfirst.owed (hfirst.value value rfl)
    · exact .missed hkept hfirst.owed ho
    · exact .failed hkept hfirst.owed (hfirst.error x rfl)

theorem manyWithin (hr : Blames s rule P) (n : Nat) :
    Blames s (RuleT.manyWithin rule n) fun values => ∀ value ∈ values, P value := by
  induction n with
  | zero => exact pure (List.forall_mem_nil P)
  | succ n ih =>
    intro e he ho
    have hfirst := hr.scope e he ho
    rw [result_manyWithin_succ]
    rcases h : (RuleT.scope rule).result e with ⟨⟨value, capture⟩ | _ | x, e'⟩ <;>
      rw [h] at hfirst
    · have hvalue : P value := hfirst.value (value, capture) rfl
      dsimp only
      split
      · exact .hit hfirst.kept hfirst.owed (by simpa using hvalue)
      · have hrest := ih e' (hfirst.reaches he) hfirst.owed
        rcases hrun : (RuleT.manyWithin rule n).result e' with ⟨values | _ | x, e''⟩ <;>
          rw [hrun] at hrest
        · have hvalues := List.forall_mem_cons.2 ⟨hvalue, hrest.value values rfl⟩
          exact .hit (hfirst.kept.trans hrest.kept) hrest.owed hvalues
        · exact .miss (hfirst.kept.trans hrest.kept) hrest.owed
        · exact .failed (hfirst.kept.trans hrest.kept) hrest.owed (hrest.error x rfl)
    · exact .hit hfirst.kept hfirst.owed (List.forall_mem_nil P)
    · exact .failed hfirst.kept hfirst.owed (hfirst.error x rfl)

theorem many (hr : Blames s rule P) :
    Blames s (RuleT.many rule) fun values => ∀ value ∈ values, P value :=
  fun e => hr.manyWithin _ e

end Blames

end NodeMarkup
