import NodeMarkup.Proofs.Match.Structured
/-!
What rules read. `Reads c rule Q` follows a rule from the place `c` on: a hit with a value at a
later place satisfies `Q`. There is one lemma for each way to build a rule, so that a rule of the
grammar is followed step by step in the order in which it is written.
-/
namespace NodeMarkup

open RuleT

variable {α β : Type} {c : Cursor}

/-- Wherever the innermost frame reads on at `c` with no negation pending, the rule leaves no
negation pending, and a hit meets the condition. -/
def Reads (c : Cursor) (rule : Rule α) (Q : α → Cursor → Prop) : Prop :=
  ∀ e : Engine, e.cursor = c → e.frame.negate = false →
    (rule.result e).2.frame.negate = false ∧
    ∀ value, (rule.result e).1 = .hit value → Q value (rule.result e).2.cursor

theorem Engine.missed_outcome_ne_hit (owed : Option Obligation) (e : Engine) (value : α) :
    (e.missed owed : Outcome α × Engine).1 ≠ .hit value := by
  unfold Engine.missed
  split <;> simp

/-- A rule that leaves the pending negation of the innermost frame as it is. So does every rule that
works in frames of its own, whatever it does there. -/
def KeepsNegation (rule : Rule α) : Prop :=
  ∀ e : Engine, (rule.result e).2.frame.negate = e.frame.negate

namespace KeepsNegation

theorem scope {body : Rule α} (hk : Keeps body) : KeepsNegation (RuleT.scope body) := by
  intro e
  cases hf : e.frame.failed with
  | true => rw [result_scope_of_failed body hf]
  | false =>
    have hkept := hk e.openFrame
    rcases hr : body.result e.openFrame with ⟨o, inner⟩
    rw [hr] at hkept
    obtain ⟨value, -, -, h⟩ | ⟨-, h⟩ | ⟨x, -, h⟩ := scope_cases hf hr hkept
    · rw [h]
      rfl
    · rw [h, Engine.missed_engine]
      rfl
    · rw [h]

theorem firstOf {branches : List (Rule α)} (hk : ∀ branch ∈ branches, Keeps branch) :
    KeepsNegation (RuleT.firstOf branches) := by
  induction branches with
  | nil => exact fun _ => rfl
  | cons branch rest ih =>
    intro e
    have hneg := scope (hk branch (by simp)) e
    have hrest := ih fun r hr => hk r (by simp [hr])
    rw [result_firstOf_cons]
    rcases h : (RuleT.scope branch).result e with ⟨value | _ | x, e'⟩ <;> rw [h] at hneg
    · exact hneg
    · exact (hrest e').trans hneg
    · exact hneg

theorem alt {branches : List (Rule α)} (hk : ∀ branch ∈ branches, Keeps branch) :
    KeepsNegation (RuleT.alt branches) := by
  intro e
  cases hf : e.frame.failed with
  | true => rw [result_alt_of_failed branches hf]
  | false =>
    have hneg := firstOf hk e.discharged
    rw [result_alt branches hf]
    rcases h : (RuleT.firstOf branches).result e.discharged with ⟨value | _ | x, e'⟩ <;>
      rw [h] at hneg
    · exact hneg
    · rw [Engine.missed_engine]
      exact hneg
    · exact hneg

theorem manyWithin {rule : Rule α} (hk : Keeps rule) (n : Nat) :
    KeepsNegation (RuleT.manyWithin rule n) := by
  induction n with
  | zero => exact fun _ => rfl
  | succ n ih =>
    intro e
    have hneg := scope hk e
    rw [result_manyWithin_succ]
    rcases h : (RuleT.scope rule).result e with ⟨value | _ | x, e'⟩ <;> rw [h] at hneg
    · dsimp only
      split
      · exact hneg
      · exact (ih e').trans hneg
    · exact hneg
    · exact hneg

theorem many {rule : Rule α} (hk : Keeps rule) : KeepsNegation (RuleT.many rule) :=
  fun e => manyWithin hk _ e

end KeepsNegation

theorem Reads.of_keepsNegation {rule : Rule α} (hk : Keeps rule) (hn : KeepsNegation rule) :
    Reads c rule fun _ d => c.Reaches d := by
  intro e hc hneg
  exact ⟨(hn e).trans hneg, fun _ _ => hc ▸ (hk e).reaches⟩

namespace Engine

variable {p : Pattern} {e : Engine}

theorem recognise_of_failed (hf : e.frame.failed = true) : e.recognise p = (.miss, e) := by
  unfold recognise recogniseM
  rw [unchecked_then, if_pos hf]
  rfl

theorem recognise_of_none (hf : e.frame.failed = false) (hp : p e.cursor.rest = none) :
    e.recognise p =
      if e.frame.negate then
        (.hit (.empty e.cursor), { e with frame := { e.frame.settled with last := true } })
      else missed e.frame.obligation { e with frame := e.frame.settled } := by
  unfold recognise recogniseM
  rw [unchecked_then, if_neg (by simp [hf]), hp]
  cases e.frame.negate <;> rfl

theorem recognise_of_some {n : Nat} (hf : e.frame.failed = false)
    (hp : p e.cursor.rest = some n) :
    e.recognise p =
      if e.frame.negate then missed e.frame.obligation { e with frame := e.frame.settled }
      else
        (.hit ⟨e.cursor.rest.take n, ⟨e.cursor, e.cursor.advanceBy n⟩⟩,
          { e with
            frame :=
              { e.frame.settled with last := true, cursor := e.cursor.advanceBy n }.push
                ⟨e.cursor.rest.take n, ⟨e.cursor, e.cursor.advanceBy n⟩⟩ }) := by
  unfold recognise recogniseM
  rw [unchecked_then, if_neg (by simp [hf]), hp]
  cases e.frame.negate <;> rfl

section Delimited

variable {opening closing : Char}

theorem delimited_of_failed (hf : e.frame.failed = true) :
    e.delimited opening closing = (.miss, e) := by
  unfold delimited delimitedM
  rw [if_pos hf]
  rfl

theorem delimited_of_other (hf : e.frame.failed = false)
    (ho : e.cursor.current? ≠ some opening) :
    e.delimited opening closing =
      missed e.frame.obligation { e with frame := e.frame.settled } := by
  unfold delimited delimitedM
  rw [if_neg (by simp [hf]), unchecked_then, if_neg ho]
  rfl

theorem delimited_of_unclosed (hf : e.frame.failed = false)
    (ho : e.cursor.current? = some opening)
    (hn : Lexeme.blockLength opening closing .code 0 e.cursor.advance.rest = none) :
    e.delimited opening closing =
      (.error (.ofCursor (.unclosedBlock closing) e.cursor.advance),
        { e with frame := e.frame.settled }) := by
  unfold delimited delimitedM
  rw [if_neg (by simp [hf]), unchecked_then, if_pos ho]
  simp only [unchecked_then, hn]
  rfl

/-- The frame behind a block of `n` scalar values, which is read with its delimiters but captured
without them. -/
def behindBlock (n : Nat) (e : Engine) : Frame :=
  let inner : Range := ⟨e.cursor.advance, e.cursor.advance.advanceBy n⟩
  let frame := { e.frame.settled with last := true }.push ⟨e.cursor.advance.rest.take n, inner⟩
  { frame with
    range := frame.range.cover ⟨e.cursor, inner.stop.advance⟩
    cursor := inner.stop.advance }

theorem delimited_of_block {n : Nat} (hf : e.frame.failed = false)
    (ho : e.cursor.current? = some opening)
    (hn : Lexeme.blockLength opening closing .code 0 e.cursor.advance.rest = some n) :
    e.delimited opening closing =
      (.hit ⟨e.cursor.advance.rest.take n, ⟨e.cursor.advance, e.cursor.advance.advanceBy n⟩⟩,
        { e with frame := e.behindBlock n }) := by
  unfold delimited delimitedM
  rw [if_neg (by simp [hf]), unchecked_then, if_pos ho]
  simp only [unchecked_then, hn]
  rfl

end Delimited

end Engine

/-- A rule that reads nothing when it misses. -/
def StaysOnMiss (rule : Rule α) : Prop :=
  ∀ e : Engine, (rule.result e).1 = .miss → (rule.result e).2.cursor = e.cursor

namespace StaysOnMiss

theorem pattern (p : Pattern) : StaysOnMiss (RuleT.pattern p) := by
  intro e hmiss
  change (e.recognise p).1 = .miss at hmiss
  change (e.recognise p).2.cursor = e.cursor
  cases hf : e.frame.failed with
  | true => rw [Engine.recognise_of_failed hf]
  | false =>
    cases hp : p e.cursor.rest with
    | none =>
      rw [Engine.recognise_of_none hf hp]
      split
      · rfl
      · rw [Engine.missed_engine]
        rfl
    | some n =>
      rw [Engine.recognise_of_some hf hp] at hmiss ⊢
      split at hmiss
      · rw [if_pos (by assumption), Engine.missed_engine]
        rfl
      · simp at hmiss

theorem scope {body : Rule α} (hk : Keeps body) : StaysOnMiss (RuleT.scope body) := by
  intro e hmiss
  cases hf : e.frame.failed with
  | true => rw [result_scope_of_failed body hf]
  | false =>
    have hkept := hk e.openFrame
    rcases hr : body.result e.openFrame with ⟨o, inner⟩
    rw [hr] at hkept
    obtain ⟨value, -, -, h⟩ | ⟨-, h⟩ | ⟨x, -, h⟩ := scope_cases hf hr hkept
    · simp [h] at hmiss
    · rw [h, Engine.missed_engine]
      rfl
    · rw [h]

theorem framed {body : Rule α} (hk : Keeps body) : StaysOnMiss (RuleT.framed body) := by
  intro e hmiss
  have hscope := scope hk e
  unfold RuleT.framed at hmiss ⊢
  rw [result_bind] at hmiss ⊢
  rcases h : (RuleT.scope body).result e with ⟨value | _ | x, e'⟩ <;> rw [h] at hmiss hscope
  · exact absurd hmiss (by rintro ⟨⟩)
  · exact hscope rfl
  · simp at hmiss

theorem firstOf {branches : List (Rule α)} (hk : ∀ branch ∈ branches, Keeps branch) :
    StaysOnMiss (RuleT.firstOf branches) := by
  induction branches with
  | nil => exact fun _ _ => rfl
  | cons branch rest ih =>
    intro e hmiss
    have hscope := scope (hk branch (by simp)) e
    have hrest := ih fun r hr => hk r (by simp [hr])
    rw [result_firstOf_cons] at hmiss ⊢
    rcases h : (RuleT.scope branch).result e with ⟨value | _ | x, e'⟩ <;> rw [h] at hmiss hscope
    · simp at hmiss
    · exact (hrest e' hmiss).trans (hscope rfl)
    · simp at hmiss

theorem alt {branches : List (Rule α)} (hk : ∀ branch ∈ branches, Keeps branch) :
    StaysOnMiss (RuleT.alt branches) := by
  intro e hmiss
  cases hf : e.frame.failed with
  | true => rw [result_alt_of_failed branches hf]
  | false =>
    have hfirst := firstOf hk e.discharged
    rw [result_alt branches hf] at hmiss ⊢
    rcases h : (RuleT.firstOf branches).result e.discharged with ⟨value | _ | x, e'⟩ <;>
      rw [h] at hmiss hfirst
    · simp at hmiss
    · rw [Engine.missed_engine]
      exact hfirst rfl
    · simp at hmiss

end StaysOnMiss

namespace Reads

theorem mono {rule : Rule α} {P Q : α → Cursor → Prop} (h : Reads c rule P)
    (hPQ : ∀ value d, P value d → Q value d) : Reads c rule Q := by
  intro e hc hn
  obtain ⟨hneg, hhit⟩ := h e hc hn
  exact ⟨hneg, fun value hv => hPQ value _ (hhit value hv)⟩

theorem and {rule : Rule α} {P Q : α → Cursor → Prop} (hP : Reads c rule P) (hQ : Reads c rule Q) :
    Reads c rule fun value d => P value d ∧ Q value d := by
  intro e hc hn
  obtain ⟨hneg, hhit⟩ := hP e hc hn
  exact ⟨hneg, fun value hv => ⟨hhit value hv, (hQ e hc hn).2 value hv⟩⟩

theorem pure {value : α} {Q : α → Cursor → Prop} (h : Q value c) :
    Reads c (Pure.pure value) Q := by
  intro e hc hn
  refine ⟨hn, ?_⟩
  intro found hfound
  cases hfound
  exact hc ▸ h

theorem miss {Q : α → Cursor → Prop} : Reads c RuleT.miss Q := by
  intro e _ hn
  refine ⟨hn, ?_⟩
  intro found hfound
  cases hfound

theorem refuse {Q : α → Cursor → Prop} (fault : Fault) (place : Cursor) :
    Reads c (RuleT.refuse fault place) Q := by
  intro e _ hn
  refine ⟨hn, ?_⟩
  intro found hfound
  cases hfound

theorem ofState (f : Engine → α) : Reads c (RuleT.ofState f) fun _ d => d = c := by
  intro e hc hn
  exact ⟨hn, fun _ _ => hc⟩

theorem rangeFrom (start : Cursor) :
    Reads c (RuleT.rangeFrom start) fun range d => range = ⟨start, c⟩ ∧ d = c := by
  intro e hc hn
  refine ⟨hn, ?_⟩
  intro found hfound
  cases hfound
  exact ⟨by rw [hc], hc⟩

theorem bind {rule : Rule α} {next : α → Rule β} {P : α → Cursor → Prop}
    {Q : β → Cursor → Prop} (hr : Reads c rule P)
    (hnext : ∀ value d, P value d → Reads d (next value) Q) : Reads c (rule >>= next) Q := by
  intro e hc hn
  obtain ⟨hneg, hhit⟩ := hr e hc hn
  rw [result_bind]
  rcases h : rule.result e with ⟨value | _ | x, e'⟩ <;> rw [h] at hneg hhit
  · exact hnext value e'.cursor (hhit value rfl) e' rfl hneg
  · exact ⟨hneg, by simp⟩
  · exact ⟨hneg, by simp⟩

theorem optional {rule : Rule α} {P : α → Cursor → Prop} (hm : StaysOnMiss rule)
    (hr : Reads c rule P) :
    Reads c (RuleT.optional rule) fun found d =>
      match found with
      | some value => P value d
      | none => d = c := by
  intro e hc hn
  obtain ⟨hneg, hhit⟩ := hr e hc hn
  have hmiss := hm e
  rw [result_optional]
  rcases h : rule.result e with ⟨value | _ | x, e'⟩ <;> rw [h] at hneg hhit hmiss
  · refine ⟨hneg, ?_⟩
    intro found hfound
    cases hfound
    exact hhit value rfl
  · refine ⟨hneg, ?_⟩
    intro found hfound
    cases hfound
    exact (hmiss rfl).trans hc
  · exact ⟨hneg, by simp⟩

theorem optional_any {rule : Rule α} {P : α → Cursor → Prop}
    (h : Reads c rule P) : Reads c (RuleT.optional rule) fun _ _ => True := by
  intro e hc hneg
  obtain ⟨hneg', -⟩ := h e hc hneg
  refine ⟨?_, fun _ _ => trivial⟩
  rw [result_optional]
  rcases hresult : rule.result e with ⟨value | _ | x, e'⟩ <;> rw [hresult] at hneg' <;> exact hneg'

theorem pattern (p : Pattern) :
    Reads c (RuleT.pattern p) fun capture d =>
      ∃ n, p c.rest = some n ∧ d = c.advanceBy n ∧ capture = ⟨c.rest.take n, ⟨c, d⟩⟩ := by
  intro e hc hn
  subst hc
  change (e.recognise p).2.frame.negate = false ∧ ∀ value, (e.recognise p).1 = .hit value →
    ∃ n, p e.cursor.rest = some n ∧ (e.recognise p).2.cursor = e.cursor.advanceBy n ∧
      value = ⟨e.cursor.rest.take n, ⟨e.cursor, (e.recognise p).2.cursor⟩⟩
  cases hf : e.frame.failed with
  | true =>
    rw [Engine.recognise_of_failed hf]
    exact ⟨hn, by simp⟩
  | false =>
    cases hp : p e.cursor.rest with
    | none =>
      rw [Engine.recognise_of_none hf hp, hn, if_neg (by simp), Engine.missed_engine]
      exact ⟨rfl, fun value hv => absurd hv (Engine.missed_outcome_ne_hit _ _ value)⟩
    | some n =>
      rw [Engine.recognise_of_some hf hp, hn, if_neg (by simp)]
      refine ⟨rfl, ?_⟩
      intro found hfound
      cases hfound
      exact ⟨n, rfl, rfl, rfl⟩

theorem literal (text : Text) :
    Reads c (RuleT.literal text) fun capture d =>
      text <+: c.rest ∧ d = c.advanceBy text.length ∧ capture = ⟨text, ⟨c, d⟩⟩ := by
  apply (pattern _).mono
  intro capture d hread
  obtain ⟨n, hn, rfl, rfl⟩ := hread
  unfold Pattern.word at hn
  split at hn
  · next hp =>
    obtain rfl : text.length = n := by simpa using hn
    have hpre : text <+: c.rest := List.isPrefixOf_iff_prefix.1 hp
    rw [← List.prefix_iff_eq_take.1 hpre]
    exact ⟨hpre, rfl, rfl⟩
  · simp at hn

theorem literal_reaches (text : Text) :
    Reads c (RuleT.literal text) fun _ d => c.Reaches d := by
  apply (literal text).mono
  intro _ _ hread
  obtain ⟨-, rfl, -⟩ := hread
  exact Cursor.reaches_advanceBy _ c

theorem delimited (opening closing : Char) :
    Reads c (RuleT.delimited opening closing) fun _ _ => True := by
  intro e _ hneg
  refine ⟨?_, fun _ _ => trivial⟩
  change (e.delimited opening closing).2.frame.negate = false
  unfold Engine.delimited Engine.delimitedM
  simp only [unchecked_then]
  split
  · exact hneg
  · split
    · split <;> rfl
    · rw [Id.run_pure, Engine.missed_engine]
      rfl

/-- A pattern turned round reads nothing, and the rule goes on where the pattern does not match. -/
theorem negated {p : Pattern} {next : Capture → Rule β} {Q : β → Cursor → Prop}
    (h : p c.rest = none → Reads c (next (.empty c)) Q) :
    Reads c (RuleT.negate >>= fun _ => RuleT.pattern p >>= next) Q := by
  intro e hc hn
  subst hc
  have hnegate : (RuleT.negate : Rule Unit).result e = (.hit (), e.negate) := rfl
  have hpattern : (RuleT.pattern p : Rule Capture).result e.negate = e.negate.recognise p := rfl
  rw [result_bind, hnegate]
  dsimp only
  rw [result_bind, hpattern]
  cases hf : e.frame.failed with
  | true =>
    have hsame : e.negate = e := by simp [Engine.negate, hf]
    rw [hsame, Engine.recognise_of_failed hf]
    exact ⟨hn, by simp⟩
  | false =>
    -- the frame is the same but for the negation, which the pattern takes back
    have hf' : e.negate.frame.failed = false := by simp [Engine.negate, hf]
    have hc' : e.negate.cursor = e.cursor := by simp [Engine.negate, hf, Engine.cursor]
    have hturned : e.negate.frame.negate = true := by simp [Engine.negate, hf]
    cases hp : p e.cursor.rest with
    | none =>
      rw [Engine.recognise_of_none hf' (hc' ▸ hp), if_pos hturned, hc']
      exact h hp _ hc' rfl
    | some n =>
      rw [Engine.recognise_of_some hf' (hc' ▸ hp), if_pos hturned]
      unfold Engine.missed
      cases e.negate.frame.obligation <;> exact ⟨rfl, by simp⟩

theorem require (fault : Fault) : Reads c (RuleT.require fault) fun _ d => d = c := by
  intro e hc hn
  change (e.require fault).frame.negate = false ∧ ∀ _, _ → (e.require fault).cursor = c
  unfold Engine.require
  split <;> exact ⟨hn, fun _ _ => hc⟩

theorem requireLast (fault : Fault) : Reads c (RuleT.requireLast fault) fun _ d => d = c := by
  intro e hc hn
  change (e.requireLast fault).2.frame.negate = false ∧
    ∀ _, _ → (e.requireLast fault).2.cursor = c
  unfold Engine.requireLast
  split <;> exact ⟨hn, fun _ _ => hc⟩

theorem replaceLast (f : Text → Text) : Reads c (RuleT.replaceLast f) fun _ d => d = c := by
  intro e hc hn
  change (e.replaceLast f).2.frame.negate = false ∧ ∀ _, _ → (e.replaceLast f).2.cursor = c
  unfold Engine.replaceLast
  split <;> exact ⟨hn, fun _ _ => hc⟩

theorem scope {body : Rule α} {P : α → Cursor → Prop} (hk : Keeps body)
    (hb : Reads c.skipIgnorable body P) : Reads c (RuleT.scope body) fun value d => P value.1 d := by
  intro e hc hn
  refine ⟨(KeepsNegation.scope hk e).trans hn, ?_⟩
  cases hf : e.frame.failed with
  | true =>
    rw [result_scope_of_failed body hf]
    simp
  | false =>
    have hkept := hk e.openFrame
    have hbody := hb e.openFrame (by subst hc; rfl) rfl
    rcases hr : body.result e.openFrame with ⟨o, inner⟩
    rw [hr] at hkept hbody
    obtain ⟨value, rfl, -, h⟩ | ⟨-, h⟩ | ⟨x, rfl, h⟩ := scope_cases hf hr hkept
    · rw [h]
      intro found hfound
      cases hfound
      exact hbody.2 value rfl
    · rw [h]
      exact fun value hv => absurd hv (Engine.missed_outcome_ne_hit _ _ value)
    · rw [h]
      simp

theorem framed {body : Rule α} {P : α → Cursor → Prop} (hk : Keeps body)
    (hb : Reads c.skipIgnorable body P) : Reads c (RuleT.framed body) P :=
  (scope hk hb).bind fun _ _ h => pure h

theorem required (fault : Fault) {body : Rule α} {P : α → Cursor → Prop} (hk : Keeps body)
    (hb : Reads c.skipIgnorable body P) : Reads c (RuleT.required fault body) P := by
  apply (require fault).bind
  intro _ _ hd
  subst hd
  exact framed hk hb

theorem framed_reaches {body : Rule α} (hk : Keeps body) :
    Reads c (RuleT.framed body) fun _ d => c.Reaches d := by
  apply (of_keepsNegation hk.scope (.scope hk)).bind
  exact fun _ _ h => pure h

theorem required_reaches (fault : Fault) {body : Rule α} (hk : Keeps body) :
    Reads c (RuleT.required fault body) fun _ d => c.Reaches d := by
  apply (require fault).bind
  intro _ _ hd
  subst hd
  exact framed_reaches hk

theorem optional_framed_reaches {body : Rule α} (hk : Keeps body) :
    Reads c (RuleT.optional (RuleT.framed body)) fun _ d => c.Reaches d := by
  apply ((framed_reaches hk).optional (.framed hk)).mono
  intro found d h
  rcases found with _ | value
  · exact h ▸ Cursor.Reaches.refl c
  · exact h

theorem seq_nil {Q : List α → Cursor → Prop} (h : Q [] c) : Reads c (RuleT.seq []) Q := pure h

theorem seq_cons {step : Rule α} {rest : List (Rule α)} {P : α → Cursor → Prop}
    {Q : List α → Cursor → Prop} (hs : Reads c step P)
    (hrest : ∀ value d, P value d → Reads d (RuleT.seq rest) fun values d => Q (value :: values) d) :
    Reads c (RuleT.seq (step :: rest)) Q := by
  intro e hc hn
  obtain ⟨hneg, hhit⟩ := hs e hc hn
  rw [result_seq_cons]
  rcases h : step.result e with ⟨value | _ | x, e'⟩ <;> rw [h] at hneg hhit
  · obtain ⟨hneg', hhit'⟩ := hrest value e'.cursor (hhit value rfl) e' rfl hneg
    refine ⟨hneg', fun values hv => ?_⟩
    dsimp only at hv ⊢
    cases hrun : ((RuleT.seq rest).result e').1 with
    | hit tail =>
      rw [hrun] at hv
      obtain rfl : value :: tail = values := by simpa [Outcome.map] using hv
      exact hhit' tail hrun
    | miss => simp [hrun, Outcome.map] at hv
    | error x => simp [hrun, Outcome.map] at hv
  · exact ⟨hneg, by simp⟩
  · exact ⟨hneg, by simp⟩

theorem firstOf_of_scope {branches : List (Rule α)} {Q : α → Cursor → Prop}
    (hk : ∀ branch ∈ branches, Keeps branch)
    (hb : ∀ branch ∈ branches, Reads c (RuleT.scope branch) fun found d => Q found.1 d) :
    Reads c (RuleT.firstOf branches) Q := by
  induction branches with
  | nil => exact miss
  | cons branch rest ih =>
    intro e hc hn
    obtain ⟨hneg, hhit⟩ := hb branch (by simp) e hc hn
    have hmiss := StaysOnMiss.scope (hk branch (by simp)) e
    have hrest := ih (fun r hr => hk r (by simp [hr])) fun r hr => hb r (by simp [hr])
    rw [result_firstOf_cons]
    rcases h : (RuleT.scope branch).result e with ⟨value | _ | x, e'⟩ <;>
      rw [h] at hneg hhit hmiss
    · refine ⟨hneg, ?_⟩
      intro found hfound
      cases hfound
      exact hhit value rfl
    · exact hrest e' ((hmiss rfl).trans hc) hneg
    · exact ⟨hneg, by simp⟩

theorem alt_of_scope {branches : List (Rule α)} {Q : α → Cursor → Prop}
    (hk : ∀ branch ∈ branches, Keeps branch)
    (hb : ∀ branch ∈ branches, Reads c (RuleT.scope branch) fun found d => Q found.1 d) :
    Reads c (RuleT.alt branches) Q := by
  intro e hc hn
  cases hf : e.frame.failed with
  | true =>
    rw [result_alt_of_failed branches hf]
    exact ⟨hn, by simp⟩
  | false =>
    obtain ⟨hneg, hhit⟩ := firstOf_of_scope hk hb e.discharged hc hn
    rw [result_alt branches hf]
    rcases h : (RuleT.firstOf branches).result e.discharged with ⟨value | _ | x, e'⟩ <;>
      rw [h] at hneg hhit
    · exact ⟨hneg, hhit⟩
    · rw [Engine.missed_engine]
      exact ⟨hneg, fun value hv => absurd hv (Engine.missed_outcome_ne_hit _ _ value)⟩
    · exact ⟨hneg, by simp⟩

theorem alt {branches : List (Rule α)} {Q : α → Cursor → Prop}
    (hk : ∀ branch ∈ branches, Keeps branch)
    (hb : ∀ branch ∈ branches, Reads c.skipIgnorable branch Q) :
    Reads c (RuleT.alt branches) Q :=
  alt_of_scope hk fun branch hbranch => scope (hk branch hbranch) (hb branch hbranch)

end Reads

/-- Values that are read one behind the other, each from where the one before it stopped. -/
inductive Repeats (P : Cursor → α → Cursor → Prop) : Cursor → List α → Cursor → Prop where
  | nil (c : Cursor) : Repeats P c [] c
  | cons {c d stop : Cursor} {value : α} {values : List α} (first : P c value d)
      (rest : Repeats P d values stop) : Repeats P c (value :: values) stop

theorem Repeats.reaches {P : Cursor → α → Cursor → Prop} {d : Cursor} {values : List α}
    (hP : ∀ a value b, P a value b → a.Reaches b) (h : Repeats P c values d) : c.Reaches d := by
  induction h with
  | nil c => exact .refl c
  | cons first _ ih => exact (hP _ _ _ first).trans ih

theorem Repeats.of_append {P : Cursor → α → Cursor → Prop} {d : Cursor} {xs ys : List α}
    (h : Repeats P c (xs ++ ys) d) : ∃ b, Repeats P c xs b ∧ Repeats P b ys d := by
  induction xs generalizing c with
  | nil => exact ⟨c, .nil c, h⟩
  | cons x xs ih =>
    cases h with
    | cons first rest =>
      obtain ⟨b, hxs, hys⟩ := ih rest
      exact ⟨b, .cons first hxs, hys⟩

namespace Reads

theorem manyWithin {rule : Rule α} {P : Cursor → α → Cursor → Prop} (hk : Keeps rule)
    (hr : ∀ d, Reads d.skipIgnorable rule (P d)) (n : Nat) :
    Reads c (RuleT.manyWithin rule n) (Repeats P c) := by
  induction n generalizing c with
  | zero => exact pure (.nil c)
  | succ n ih =>
    intro e hc hn
    obtain ⟨hneg, hhit⟩ := scope hk (hr c) e hc hn
    have hmiss := StaysOnMiss.scope hk e
    rw [result_manyWithin_succ]
    rcases h : (RuleT.scope rule).result e with ⟨⟨value, capture⟩ | _ | x, e'⟩ <;>
      rw [h] at hneg hhit hmiss
    · have hfirst := hhit (value, capture) rfl
      dsimp only
      split
      · refine ⟨hneg, ?_⟩
        intro found hfound
        cases hfound
        exact .cons hfirst (.nil _)
      · obtain ⟨hneg', hhit'⟩ := ih e' rfl hneg
        refine ⟨hneg', fun values hv => ?_⟩
        cases hrun : ((RuleT.manyWithin rule n).result e').1 with
        | hit tail =>
          rw [hrun] at hv
          obtain rfl : value :: tail = values := by simpa [Outcome.map] using hv
          exact .cons hfirst (hhit' tail hrun)
        | miss => simp [hrun, Outcome.map] at hv
        | error x => simp [hrun, Outcome.map] at hv
    · refine ⟨hneg, ?_⟩
      intro found hfound
      cases hfound
      rw [hmiss rfl, hc]
      exact .nil c
    · exact ⟨hneg, by simp⟩

theorem many {rule : Rule α} {P : Cursor → α → Cursor → Prop} (hk : Keeps rule)
    (hr : ∀ d, Reads d.skipIgnorable rule (P d)) :
    Reads c (RuleT.many rule) (Repeats P c) :=
  fun e hc hn => manyWithin hk hr _ e hc hn

end Reads

end NodeMarkup
