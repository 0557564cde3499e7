import Mathlib.Data.List.Forall2
import NodeMarkup.Proofs.Match.Reading
/-!
Two runs side by side. Rules that are built alike, and that differ at most in places, do the same
step by step on engines that have the same text before them: there is one lemma for each way to build
a rule. What the places of the two runs have in common is left open, so that one theory serves runs
over sources that share nothing but the unread text, and runs whose places can be computed from each
other.
-/
namespace NodeMarkup

open RuleT

variable {α β γ δ : Type}

/-- What the places of two runs have in common. Both runs see the same unread text, and moving on
together keeps what they have in common. -/
structure Pairing where
  cursor : Cursor → Cursor → Prop
  range : Range → Range → Prop
  rest_eq : ∀ {c d : Cursor}, cursor c d → c.rest = d.rest
  advance : ∀ {c d : Cursor}, cursor c d → cursor c.advance d.advance
  between : ∀ {a b c d : Cursor}, cursor a b → cursor c d → range ⟨a, c⟩ ⟨b, d⟩
  cover : ∀ {r r' s s' : Range}, range r r' → range s s' → range (r.cover s) (r'.cover s')

namespace Pairing

variable (p : Pairing)

structure Captures (x y : Capture) : Prop where
  text : x.text = y.text
  range : p.range x.range y.range

/-- What two rules in frames of their own come to: their values, and all that they captured. -/
structure Scoped (R : α → β → Prop) (x : α × Capture) (y : β × Capture) : Prop where
  value : R x.1 y.1
  capture : p.Captures x.2 y.2

structure Obligations (x y : Obligation) : Prop where
  fault : x.fault = y.fault
  cursor : p.cursor x.cursor y.cursor

structure Frames (f g : Frame) : Prop where
  cursor : p.cursor f.cursor g.cursor
  range : p.range f.range g.range
  failed : f.failed = g.failed
  last : f.last = g.last
  negate : f.negate = g.negate
  obligation : Option.Rel p.Obligations f.obligation g.obligation
  captures : List.Forall₂ p.Captures f.captures g.captures

/-- The innermost frames go together; the frames around them need not, nor need their number. Neither
engine has more to read than its source holds, so that no repetition is ended by its bound. -/
structure Engines (e e' : Engine) : Prop where
  frame : p.Frames e.frame e'.frame
  room : e.cursor.rest.length ≤ e.source.length
  room' : e'.cursor.rest.length ≤ e'.source.length

inductive Outcomes (R : α → β → Prop) : Outcome α → Outcome β → Prop where
  | hit {a : α} {b : β} (related : R a b) : Outcomes R (.hit a) (.hit b)
  | miss : Outcomes R .miss .miss
  | error (fault : Fault) {c d : Cursor} (place : p.cursor c d) :
      Outcomes R (.error (.ofCursor fault c)) (.error (.ofCursor fault d))

/-- What two runs from `e` and `e'` come to. -/
structure Results (R : α → β → Prop) (e e' : Engine) (x : Outcome α × Engine)
    (y : Outcome β × Engine) : Prop where
  outcome : p.Outcomes R x.1 y.1
  kept : e.Kept x.2
  kept' : e'.Kept y.2
  frame : p.Frames x.2.frame y.2.frame

/-- The rules do the same on engines that go together. -/
def InStep (R : α → β → Prop) (rule : Rule α) (rule' : Rule β) : Prop :=
  ∀ e e' : Engine, p.Engines e e' → p.Results R e e' (rule.result e) (rule'.result e')

variable {p} {R : α → β → Prop}

theorem advanceBy {c d : Cursor} (h : p.cursor c d) (n : Nat) :
    p.cursor (c.advanceBy n) (d.advanceBy n) := by
  induction n generalizing c d with
  | zero => exact h
  | succ n ih =>
    rw [Cursor.advanceBy_succ, Cursor.advanceBy_succ]
    exact ih (p.advance h)

theorem skipIgnorable {c d : Cursor} (h : p.cursor c d) :
    p.cursor c.skipIgnorable d.skipIgnorable := by
  unfold Cursor.skipIgnorable
  rw [← p.rest_eq h]
  exact advanceBy h _

theorem map_text_eq {xs ys : List Capture} (h : List.Forall₂ p.Captures xs ys) :
    xs.map Capture.text = ys.map Capture.text := by
  induction h with
  | nil => rfl
  | cons first _ ih => rw [List.map_cons, List.map_cons, first.text, ih]

theorem Outcomes.map {S : γ → δ → Prop} {f : α → γ} {g : β → δ} {o : Outcome α} {o' : Outcome β}
    (h : p.Outcomes R o o') (hfg : ∀ a b, R a b → S (f a) (g b)) :
    p.Outcomes S (o.map f) (o'.map g) := by
  cases h with
  | hit related => exact .hit (hfg _ _ related)
  | miss => exact .miss
  | error fault place => exact .error fault place

namespace Frames

variable {f g : Frame}

theorem fresh {c d : Cursor} (h : p.cursor c d) (failed : Bool) :
    p.Frames (.fresh c failed) (.fresh d failed) :=
  ⟨h, p.between h h, rfl, rfl, rfl, .none, .nil⟩

theorem push (h : p.Frames f g) {x y : Capture} (hxy : p.Captures x y) :
    p.Frames (f.push x) (g.push y) := by
  have hempty : f.captures.isEmpty = g.captures.isEmpty := by
    rw [Bool.eq_iff_iff, List.isEmpty_iff_length_eq_zero, List.isEmpty_iff_length_eq_zero,
      h.captures.length_eq]
  refine ⟨h.cursor, ?_, h.failed, h.last, h.negate, h.obligation,
    List.rel_append h.captures (.cons hxy .nil)⟩
  unfold Frame.push
  dsimp only
  rw [hempty]
  split
  · exact hxy.range
  · exact p.cover h.range hxy.range

theorem joined (h : p.Frames f g) : p.Captures f.joined g.joined := by
  refine ⟨?_, h.range⟩
  unfold Frame.joined
  rw [map_text_eq h.captures]

theorem mark (h : p.Frames f g) (last : Bool) :
    p.Frames { f with last := last } { g with last := last } :=
  ⟨h.cursor, h.range, h.failed, rfl, h.negate, h.obligation, h.captures⟩

theorem settled (h : p.Frames f g) : p.Frames f.settled g.settled :=
  ⟨h.cursor, h.range, h.failed, h.last, rfl, .none, h.captures⟩

/-- The frames read on at a pair of places with nothing owed, behind a match that succeeded. -/
theorem readOn (h : p.Frames f g) {c d : Cursor} (hcd : p.cursor c d) :
    p.Frames { f with obligation := none, last := true, cursor := c }
      { g with obligation := none, last := true, cursor := d } :=
  ⟨hcd, h.range, h.failed, rfl, h.negate, .none, h.captures⟩

end Frames

theorem Results.engines {e e' : Engine} {x : Outcome α × Engine} {y : Outcome β × Engine}
    (h : p.Results R e e' x y) (he : p.Engines e e') : p.Engines x.2 y.2 := by
  have hroom := he.room
  have hroom' := he.room'
  have hle := h.kept.reaches.length_rest_le
  have hle' := h.kept'.reaches.length_rest_le
  refine ⟨h.frame, ?_, ?_⟩
  · rw [h.kept.source]
    omega
  · rw [h.kept'.source]
    omega

/-- Results of later runs are results of the runs that led there. -/
theorem Results.behind {S : γ → δ → Prop} {e e' x x' : Engine} {y : Outcome γ × Engine}
    {y' : Outcome δ × Engine} (h : p.Results S x x' y y') (hx : e.Kept x) (hx' : e'.Kept x') :
    p.Results S e e' y y' :=
  ⟨h.outcome, hx.trans h.kept, hx'.trans h.kept', h.frame⟩

namespace Engines

variable {e e' : Engine}

theorem stay {o : Outcome α} {o' : Outcome β} (he : p.Engines e e') (h : p.Outcomes R o o') :
    p.Results R e e' (o, e) (o', e') :=
  ⟨h, .refl e, .refl e', he.frame⟩

theorem openFrame (h : p.Engines e e') : p.Engines e.openFrame e'.openFrame := by
  have hle := (Cursor.reaches_skipIgnorable e.cursor).length_rest_le
  have hle' := (Cursor.reaches_skipIgnorable e'.cursor).length_rest_le
  have hfresh : p.Frames e.openFrame.frame e'.openFrame.frame := by
    change p.Frames (.fresh _ e.frame.failed) (.fresh _ e'.frame.failed)
    rw [← h.frame.failed]
    exact .fresh (skipIgnorable h.frame.cursor) _
  exact ⟨hfresh, Nat.le_trans hle h.room, Nat.le_trans hle' h.room'⟩

theorem discharged (h : p.Engines e e') : p.Engines e.discharged e'.discharged := by
  have hf := h.frame
  exact ⟨⟨hf.cursor, hf.range, hf.failed, hf.last, hf.negate, .none, hf.captures⟩, h.room, h.room'⟩

/-- A miss on engines whose innermost frames are given by what they owe. -/
theorem missed {f g : Frame} (hf : p.Frames f g) (hc : f.cursor = e.cursor)
    (hc' : g.cursor = e'.cursor) {owed owed' : Option Obligation}
    (ho : Option.Rel p.Obligations owed owed') :
    p.Results R e e' ({ e with frame := f } |>.missed owed) ({ e' with frame := g } |>.missed owed') := by
  have hkept : e.Kept { e with frame := { f with last := false } } := .of_cursor_eq rfl rfl hc
  have hkept' : e'.Kept { e' with frame := { g with last := false } } := .of_cursor_eq rfl rfl hc'
  cases ho with
  | none => exact ⟨.miss, hkept, hkept', hf.mark false⟩
  | @some owed owed' hrel =>
    refine ⟨?_, hkept, hkept', hf.mark false⟩
    change p.Outcomes R (.error (.ofCursor owed.fault owed.cursor))
      (.error (.ofCursor owed'.fault owed'.cursor))
    rw [← hrel.fault]
    exact .error _ hrel.cursor

end Engines

end Pairing

/-- All that a rule comes to in a frame of its own, by what the rule does there. -/
theorem result_scope_eq {body : Rule α} {e : Engine} (hf : e.frame.failed = false)
    (hk : e.openFrame.Kept (body.result e.openFrame).2) :
    (scope body).result e =
      match (body.result e.openFrame).1, (body.result e.openFrame).2.frame.failed with
      | .hit value, false =>
        (.hit (value, (body.result e.openFrame).2.frame.joined),
          e.merged (body.result e.openFrame).2.frame)
      | .error x, _ => (.error x, e)
      | _, _ => e.discharged.missed e.frame.obligation := by
  rcases hr : body.result e.openFrame with ⟨o, inner⟩
  rw [hr] at hk
  obtain ⟨value, rfl, hin, h⟩ | ⟨rfl | ⟨⟨value, rfl⟩, hin⟩, h⟩ | ⟨x, rfl, h⟩ :=
    scope_cases hf hr hk
  · rw [h]
    simp only [hin]
  · rw [h]
  · rw [h]
    simp only [hin]
  · rw [h]

theorem Cursor.Reaches.position_eq_iff {c d : Cursor} (h : c.Reaches d) :
    d.position = c.position ↔ d.rest.length = c.rest.length := by
  constructor
  · intro hp
    rw [h.eq_of_position_eq hp]
  · intro hlength
    have hle := h.position_le
    by_contra hne
    have hlt := h.length_rest_lt (by omega)
    omega

theorem forall₂_concat {R : α → β → Prop} {before : List α} {x : α} {ys : List β}
    (h : List.Forall₂ R (before ++ [x]) ys) :
    ∃ before' y, ys = before' ++ [y] ∧ List.Forall₂ R before before' ∧ R x y := by
  have hreverse := List.forall₂_reverse_iff.2 h
  rw [List.reverse_append, List.reverse_singleton, List.singleton_append] at hreverse
  obtain ⟨y, rest, hxy, hrest, hys⟩ := List.forall₂_cons_left_iff.1 hreverse
  refine ⟨rest.reverse, y, ?_, ?_, hxy⟩
  · rw [← List.reverse_reverse ys, hys, List.reverse_cons]
  · rw [← List.reverse_reverse before]
    exact List.forall₂_reverse_iff.2 hrest

namespace Pairing.InStep

variable {p : Pairing} {R : α → β → Prop}

theorem pure {a : α} {b : β} (h : R a b) : p.InStep R (Pure.pure a) (Pure.pure b) :=
  fun _ _ he => he.stay (.hit h)

theorem miss : p.InStep R RuleT.miss RuleT.miss := fun _ _ he => he.stay .miss

theorem refuse (fault : Fault) {c d : Cursor} (h : p.cursor c d) :
    p.InStep R (RuleT.refuse fault c) (RuleT.refuse fault d) :=
  fun _ _ he => he.stay (.error fault h)

theorem ofCursor {f : Cursor → α} {g : Cursor → β} (h : ∀ c d, p.cursor c d → R (f c) (g d)) :
    p.InStep R (RuleT.ofState fun e => f e.cursor) (RuleT.ofState fun e => g e.cursor) :=
  fun _ _ he => he.stay (.hit (h _ _ he.frame.cursor))

theorem bind {S : γ → δ → Prop} {rule : Rule α} {rule' : Rule β} {next : α → Rule γ}
    {next' : β → Rule δ} (hr : p.InStep R rule rule')
    (hn : ∀ a b, R a b → p.InStep S (next a) (next' b)) :
    p.InStep S (rule >>= next) (rule' >>= next') := by
  intro e e' he
  have hfirst := hr e e' he
  have hengines := hfirst.engines he
  rw [result_bind, result_bind]
  generalize rule.result e = x at hfirst hengines
  generalize rule'.result e' = y at hfirst hengines
  obtain ⟨o, x⟩ := x
  obtain ⟨o', y⟩ := y
  obtain ⟨ho, hkept, hkept', hframe⟩ := hfirst
  cases ho with
  | hit related => exact (hn _ _ related x y hengines).behind hkept hkept'
  | miss => exact ⟨.miss, hkept, hkept', hframe⟩
  | error fault place => exact ⟨.error fault place, hkept, hkept', hframe⟩

theorem optional {rule : Rule α} {rule' : Rule β} (hr : p.InStep R rule rule') :
    p.InStep (Option.Rel R) (RuleT.optional rule) (RuleT.optional rule') := by
  intro e e' he
  have hfirst := hr e e' he
  rw [result_optional, result_optional]
  generalize rule.result e = x at hfirst
  generalize rule'.result e' = y at hfirst
  obtain ⟨o, x⟩ := x
  obtain ⟨o', y⟩ := y
  obtain ⟨ho, hkept, hkept', hframe⟩ := hfirst
  cases ho with
  | hit related => exact ⟨.hit (.some related), hkept, hkept', hframe⟩
  | miss => exact ⟨.hit .none, hkept, hkept', hframe⟩
  | error fault place => exact ⟨.error fault place, hkept, hkept', hframe⟩

theorem pattern (q : Pattern) :
    p.InStep p.Captures (RuleT.pattern q) (RuleT.pattern q) := by
  intro e e' he
  have hkept := Engine.kept_recognise q e
  have hkept' := Engine.kept_recognise q e'
  have hcursor : p.cursor e.cursor e'.cursor := he.frame.cursor
  have hrest := p.rest_eq hcursor
  have hnegate := he.frame.negate
  change p.Results p.Captures e e' (e.recognise q) (e'.recognise q)
  cases hf : e.frame.failed with
  | true =>
    have hf' := he.frame.failed.symm.trans hf
    rw [Engine.recognise_of_failed hf, Engine.recognise_of_failed hf']
    exact he.stay .miss
  | false =>
    have hf' := he.frame.failed.symm.trans hf
    cases hq : q e.cursor.rest with
    | none =>
      rw [Engine.recognise_of_none hf hq] at hkept ⊢
      rw [Engine.recognise_of_none hf' (hrest ▸ hq), ← hnegate] at hkept' ⊢
      split
      · next hn =>
        rw [if_pos hn] at hkept hkept'
        exact ⟨.hit ⟨rfl, p.between hcursor hcursor⟩, hkept, hkept', he.frame.settled.mark true⟩
      · exact Engines.missed he.frame.settled rfl rfl he.frame.obligation
    | some n =>
      rw [Engine.recognise_of_some hf hq] at hkept ⊢
      rw [Engine.recognise_of_some hf' (hrest ▸ hq), ← hnegate] at hkept' ⊢
      split
      · exact Engines.missed he.frame.settled rfl rfl he.frame.obligation
      · next hn =>
        rw [if_neg hn] at hkept hkept'
        have hcapture : p.Captures ⟨e.cursor.rest.take n, ⟨e.cursor, e.cursor.advanceBy n⟩⟩
            ⟨e'.cursor.rest.take n, ⟨e'.cursor, e'.cursor.advanceBy n⟩⟩ :=
          ⟨by rw [hrest], p.between hcursor (advanceBy hcursor n)⟩
        exact ⟨.hit hcapture, hkept, hkept',
          (he.frame.settled.readOn (advanceBy hcursor n)).push hcapture⟩

theorem delimited (opening closing : Char) :
    p.InStep p.Captures (RuleT.delimited opening closing) (RuleT.delimited opening closing) := by
  intro e e' he
  have hkept := Engine.kept_delimited opening closing e
  have hkept' := Engine.kept_delimited opening closing e'
  have hcursor : p.cursor e.cursor e'.cursor := he.frame.cursor
  have hinside := p.advance hcursor
  have hcurrent : e'.cursor.current? = e.cursor.current? := by
    unfold Cursor.current?
    rw [p.rest_eq hcursor]
  change p.Results p.Captures e e' (e.delimited opening closing) (e'.delimited opening closing)
  cases hf : e.frame.failed with
  | true =>
    have hf' := he.frame.failed.symm.trans hf
    rw [Engine.delimited_of_failed hf, Engine.delimited_of_failed hf']
    exact he.stay .miss
  | false =>
    have hf' := he.frame.failed.symm.trans hf
    by_cases ho : e.cursor.current? = some opening
    · have ho' := hcurrent.trans ho
      cases hn : Lexeme.blockLength opening closing .code 0 e.cursor.advance.rest with
      | none =>
        rw [Engine.delimited_of_unclosed hf ho hn] at hkept ⊢
        rw [Engine.delimited_of_unclosed hf' ho' (p.rest_eq hinside ▸ hn)] at hkept' ⊢
        exact ⟨.error _ hinside, hkept, hkept', he.frame.settled⟩
      | some n =>
        rw [Engine.delimited_of_block hf ho hn] at hkept ⊢
        rw [Engine.delimited_of_block hf' ho' (p.rest_eq hinside ▸ hn)] at hkept' ⊢
        have hstop := advanceBy hinside n
        have hcapture : p.Captures
            ⟨e.cursor.advance.rest.take n, ⟨e.cursor.advance, e.cursor.advance.advanceBy n⟩⟩
            ⟨e'.cursor.advance.rest.take n,
              ⟨e'.cursor.advance, e'.cursor.advance.advanceBy n⟩⟩ :=
          ⟨by rw [p.rest_eq hinside], p.between hinside hstop⟩
        have hpush := (he.frame.settled.mark true).push hcapture
        refine ⟨.hit hcapture, hkept, hkept', ?_⟩
        exact ⟨p.advance hstop, p.cover hpush.range (p.between hcursor (p.advance hstop)),
          hpush.failed, hpush.last, hpush.negate, hpush.obligation, hpush.captures⟩
    · have ho' : e'.cursor.current? ≠ some opening := by rwa [hcurrent]
      rw [Engine.delimited_of_other hf ho, Engine.delimited_of_other hf' ho']
      exact Engines.missed he.frame.settled rfl rfl he.frame.obligation

theorem negate : p.InStep (· = ·) RuleT.negate RuleT.negate := by
  intro e e' he
  have hf := he.frame
  refine ⟨.hit rfl, Engine.kept_negate e, Engine.kept_negate e', ?_⟩
  change p.Frames e.negate.frame e'.negate.frame
  unfold Engine.negate
  rw [← hf.failed]
  split
  · exact hf
  · exact ⟨hf.cursor, hf.range, hf.failed, hf.last, rfl, hf.obligation, hf.captures⟩

theorem require (fault : Fault) : p.InStep (· = ·) (RuleT.require fault) (RuleT.require fault) := by
  intro e e' he
  have hf := he.frame
  refine ⟨.hit rfl, Engine.kept_require fault e, Engine.kept_require fault e', ?_⟩
  change p.Frames (e.require fault).frame (e'.require fault).frame
  unfold Engine.require
  rw [← hf.failed]
  split
  · exact hf
  · exact ⟨hf.cursor, hf.range, hf.failed, hf.last, hf.negate, .some ⟨rfl, hf.cursor⟩, hf.captures⟩

theorem requireLast (fault : Fault) :
    p.InStep (· = ·) (RuleT.requireLast fault) (RuleT.requireLast fault) := by
  intro e e' he
  change p.Results (· = ·) e e' (e.requireLast fault) (e'.requireLast fault)
  unfold Engine.requireLast
  rw [← he.frame.failed, ← he.frame.last]
  split
  · exact he.stay (.hit rfl)
  · exact he.stay (.error fault he.frame.cursor)

theorem replaceLast (f : Text → Text) :
    p.InStep p.Captures (RuleT.replaceLast f) (RuleT.replaceLast f) := by
  intro e e' he
  have hkept := Engine.kept_replaceLast f e
  have hkept' := Engine.kept_replaceLast f e'
  have hf := he.frame
  have hrel := hf.captures
  change p.Results p.Captures e e' (e.replaceLast f) (e'.replaceLast f)
  unfold Engine.replaceLast at hkept hkept' ⊢
  rcases List.eq_nil_or_concat e.frame.captures with hnil | ⟨before, x, hcaptures⟩
  · rw [hnil] at hrel
    have hnil' := List.forall₂_nil_left_iff.1 hrel
    simp only [hnil, hnil', List.getLast?_nil]
    exact he.stay .miss
  · rw [hcaptures, List.concat_eq_append] at hrel
    obtain ⟨before', y, hcaptures', hbefore, hxy⟩ := forall₂_concat hrel
    simp only [hcaptures, hcaptures', List.concat_eq_append, List.getLast?_append,
      List.getLast?_singleton, Option.some_or, List.dropLast_concat] at hkept hkept' ⊢
    have hchanged : p.Captures { x with text := f x.text } { y with text := f y.text } :=
      ⟨congrArg f hxy.text, hxy.range⟩
    refine ⟨.hit hchanged, hkept, hkept', ?_⟩
    exact ⟨hf.cursor, hf.range, hf.failed, hf.last, hf.negate, hf.obligation,
      List.rel_append hbefore (.cons hchanged .nil)⟩

theorem scope {body : Rule α} {body' : Rule β} (hb : p.InStep R body body') :
    p.InStep (p.Scoped R) (RuleT.scope body) (RuleT.scope body') := by
  intro e e' he
  cases hf : e.frame.failed with
  | true =>
    have hf' := he.frame.failed.symm.trans hf
    rw [result_scope_of_failed body hf, result_scope_of_failed body' hf']
    exact he.stay .miss
  | false =>
    have hf' := he.frame.failed.symm.trans hf
    have hinner := hb _ _ he.openFrame
    have hmissed : p.Results (p.Scoped R) e e' (e.discharged.missed e.frame.obligation)
        (e'.discharged.missed e'.frame.obligation) :=
      (Engines.missed he.discharged.frame rfl rfl he.frame.obligation).behind e.kept_discharged
        e'.kept_discharged
    rw [result_scope_eq hf hinner.kept, result_scope_eq hf' hinner.kept', ← hinner.frame.failed]
    generalize body.result e.openFrame = x at hinner
    generalize body'.result e'.openFrame = y at hinner
    obtain ⟨o, x⟩ := x
    obtain ⟨o', y⟩ := y
    obtain ⟨ho, hkept, hkept', hframe⟩ := hinner
    cases ho with
    | hit related =>
      dsimp only
      cases x.frame.failed with
      | true => exact hmissed
      | false =>
        have hskip := (Cursor.reaches_skipIgnorable e.cursor).trans hkept.reaches
        have hskip' := (Cursor.reaches_skipIgnorable e'.cursor).trans hkept'.reaches
        exact ⟨.hit ⟨related, hframe.joined⟩, ⟨rfl, rfl, hskip⟩, ⟨rfl, rfl, hskip'⟩,
          (he.frame.readOn hframe.cursor).push hframe.joined⟩
    | miss => exact hmissed
    | error fault place => exact he.stay (.error fault place)

theorem seq_cons {step : Rule α} {step' : Rule β} {rest : List (Rule α)} {rest' : List (Rule β)}
    (hs : p.InStep R step step')
    (hrest : p.InStep (List.Forall₂ R) (RuleT.seq rest) (RuleT.seq rest')) :
    p.InStep (List.Forall₂ R) (RuleT.seq (step :: rest)) (RuleT.seq (step' :: rest')) := by
  intro e e' he
  have hfirst := hs e e' he
  have hengines := hfirst.engines he
  rw [result_seq_cons, result_seq_cons]
  generalize step.result e = x at hfirst hengines
  generalize step'.result e' = y at hfirst hengines
  obtain ⟨o, x⟩ := x
  obtain ⟨o', y⟩ := y
  obtain ⟨ho, hkept, hkept', hframe⟩ := hfirst
  cases ho with
  | hit related =>
    have hbehind := (hrest x y hengines).behind hkept hkept'
    exact ⟨hbehind.outcome.map fun _ _ h => .cons related h, hbehind.kept, hbehind.kept',
      hbehind.frame⟩
  | miss =>
    exact ⟨.miss, hkept.trans (.of_cursor_eq rfl rfl rfl),
      hkept'.trans (.of_cursor_eq rfl rfl rfl), hframe.cursor, hframe.range, rfl, hframe.last,
      hframe.negate, hframe.obligation, hframe.captures⟩
  | error fault place => exact ⟨.error fault place, hkept, hkept', hframe⟩

theorem seq {steps : List (Rule α × Rule β)} (hs : ∀ step ∈ steps, p.InStep R step.1 step.2) :
    p.InStep (List.Forall₂ R) (RuleT.seq (steps.map Prod.fst))
      (RuleT.seq (steps.map Prod.snd)) := by
  induction steps with
  | nil => exact .pure .nil
  | cons step rest ih =>
    obtain ⟨hstep, hrest⟩ := List.forall_mem_cons.1 hs
    exact hstep.seq_cons (ih hrest)

theorem firstOf {branches : List (Rule α × Rule β)}
    (hb : ∀ branch ∈ branches, p.InStep R branch.1 branch.2) :
    p.InStep R (RuleT.firstOf (branches.map Prod.fst)) (RuleT.firstOf (branches.map Prod.snd)) := by
  induction branches with
  | nil => exact miss
  | cons branch rest ih =>
    intro e e' he
    have hfirst := scope (hb branch (by simp)) e e' he
    have hengines := hfirst.engines he
    rw [List.map_cons, List.map_cons, result_firstOf_cons, result_firstOf_cons]
    generalize (RuleT.scope branch.1).result e = x at hfirst hengines
    generalize (RuleT.scope branch.2).result e' = y at hfirst hengines
    obtain ⟨o, x⟩ := x
    obtain ⟨o', y⟩ := y
    obtain ⟨ho, hkept, hkept', hframe⟩ := hfirst
    cases ho with
    | hit related => exact ⟨.hit related.value, hkept, hkept', hframe⟩
    | miss => exact (ih (fun r hr => hb r (by simp [hr])) x y hengines).behind hkept hkept'
    | error fault place => exact ⟨.error fault place, hkept, hkept', hframe⟩

theorem alt {branches : List (Rule α × Rule β)}
    (hb : ∀ branch ∈ branches, p.InStep R branch.1 branch.2) :
    p.InStep R (RuleT.alt (branches.map Prod.fst)) (RuleT.alt (branches.map Prod.snd)) := by
  intro e e' he
  cases hf : e.frame.failed with
  | true =>
    have hf' := he.frame.failed.symm.trans hf
    rw [result_alt_of_failed _ hf, result_alt_of_failed _ hf']
    exact he.stay .miss
  | false =>
    have hf' := he.frame.failed.symm.trans hf
    have hfirst := (firstOf hb _ _ he.discharged).behind e.kept_discharged e'.kept_discharged
    rw [result_alt _ hf, result_alt _ hf']
    generalize (RuleT.firstOf (branches.map Prod.fst)).result e.discharged = x at hfirst
    generalize (RuleT.firstOf (branches.map Prod.snd)).result e'.discharged = y at hfirst
    obtain ⟨o, x⟩ := x
    obtain ⟨o', y⟩ := y
    obtain ⟨ho, hkept, hkept', hframe⟩ := hfirst
    cases ho with
    | hit related => exact ⟨.hit related, hkept, hkept', hframe⟩
    | miss => exact (Engines.missed hframe rfl rfl he.frame.obligation).behind hkept hkept'
    | error fault place => exact ⟨.error fault place, hkept, hkept', hframe⟩

/-- Repetitions do the same within any two bounds above what is left to read. -/
theorem manyWithin {rule : Rule α} {rule' : Rule β} (hr : p.InStep R rule rule') (m n : Nat)
    (e e' : Engine) (he : p.Engines e e') (hm : e.cursor.rest.length < m)
    (hn : e.cursor.rest.length < n) :
    p.Results (List.Forall₂ R) e e' ((RuleT.manyWithin rule m).result e)
      ((RuleT.manyWithin rule' n).result e') := by
  induction m generalizing n e e' with
  | zero => omega
  | succ m ih =>
    obtain ⟨n, rfl⟩ : ∃ k, n = k + 1 := ⟨n - 1, by omega⟩
    have hfirst := scope hr e e' he
    have hengines := hfirst.engines he
    rw [result_manyWithin_succ, result_manyWithin_succ]
    generalize (RuleT.scope rule).result e = x at hfirst hengines
    generalize (RuleT.scope rule').result e' = y at hfirst hengines
    obtain ⟨o, x⟩ := x
    obtain ⟨o', y⟩ := y
    obtain ⟨ho, hkept, hkept', hframe⟩ := hfirst
    cases ho with
    | hit related =>
      have hbefore : e.cursor.rest = e'.cursor.rest := p.rest_eq he.frame.cursor
      have hafter : x.cursor.rest = y.cursor.rest := p.rest_eq hframe.cursor
      -- both have read on, or neither has
      have hmoved : y.cursor.position = e'.cursor.position ↔
          x.cursor.position = e.cursor.position := by
        rw [hkept.reaches.position_eq_iff, hkept'.reaches.position_eq_iff, hbefore, hafter]
      dsimp only
      simp only [hmoved]
      split
      · exact ⟨.hit (.cons related.value .nil), hkept, hkept', hframe⟩
      · next hread =>
        have hreach : e.cursor.Reaches x.cursor := hkept.reaches
        have hle := hreach.position_le
        have hlt := hreach.length_rest_lt (by omega)
        have hbehind := (ih n x y hengines (by omega) (by omega)).behind hkept hkept'
        exact ⟨hbehind.outcome.map fun _ _ h => .cons related.value h, hbehind.kept,
          hbehind.kept', hbehind.frame⟩
    | miss => exact ⟨.hit .nil, hkept, hkept', hframe⟩
    | error fault place => exact ⟨.error fault place, hkept, hkept', hframe⟩

theorem many {rule : Rule α} {rule' : Rule β} (hr : p.InStep R rule rule') :
    p.InStep (List.Forall₂ R) (RuleT.many rule) (RuleT.many rule') := by
  intro e e' he
  have hroom := he.room
  have hroom' := he.room'
  have hrest : e.cursor.rest = e'.cursor.rest := p.rest_eq he.frame.cursor
  exact manyWithin hr _ _ e e' he (by omega) (by rw [hrest]; omega)

theorem mono {S : α → β → Prop} {rule : Rule α} {rule' : Rule β} (hr : p.InStep R rule rule')
    (h : ∀ a b, R a b → S a b) : p.InStep S rule rule' := by
  intro e e' he
  have hresults := hr e e' he
  refine ⟨?_, hresults.kept, hresults.kept', hresults.frame⟩
  have ho := hresults.outcome
  generalize (rule.result e).1 = o at ho ⊢
  generalize (rule'.result e').1 = o' at ho ⊢
  cases ho with
  | hit related => exact .hit (h _ _ related)
  | miss => exact .miss
  | error fault place => exact .error fault place

theorem framed {rule : Rule α} {rule' : Rule β} (hr : p.InStep R rule rule') :
    p.InStep R (RuleT.framed rule) (RuleT.framed rule') :=
  hr.scope.bind fun _ _ h => .pure h.value

theorem required (fault : Fault) {rule : Rule α} {rule' : Rule β} (hr : p.InStep R rule rule') :
    p.InStep R (RuleT.required fault rule) (RuleT.required fault rule') :=
  (require fault).bind fun _ _ _ => hr.framed

theorem alt_self {R : α → α → Prop} {branches : List (Rule α)}
    (hb : ∀ branch ∈ branches, p.InStep R branch branch) :
    p.InStep R (RuleT.alt branches) (RuleT.alt branches) := by
  have hpairs : ∀ pair ∈ branches.map fun branch => (branch, branch),
      p.InStep R pair.1 pair.2 := by
    intro pair hpair
    obtain ⟨branch, hmem, rfl⟩ := List.mem_map.1 hpair
    exact hb branch hmem
  simpa only [List.map_map, Function.comp_def, List.map_id'] using alt hpairs

end Pairing.InStep

/-- Two rules that are built alike, to any depth, from the matches of the engine and from frames that
are opened and closed together. The relation says what the values of the two rules have in common;
what the rules go on with may depend on the values as far as the relation fixes them, so on the texts
of captures but not on their places. -/
inductive Alike {m : Type → Type} [Monad m] [Checks m] [Arena m] (p : Pairing) :
    {α β : Type} → (α → β → Prop) → RuleT m α → RuleT m β → Prop where
  | pure {α β : Type} {R : α → β → Prop} {a : α} {b : β} (h : R a b) :
      Alike p R (Pure.pure a) (Pure.pure b)
  | miss {α β : Type} {R : α → β → Prop} : Alike p R RuleT.miss RuleT.miss
  | refuse {α β : Type} {R : α → β → Prop} (fault : Fault) {c d : Cursor} (h : p.cursor c d) :
      Alike p R (RuleT.refuse fault c) (RuleT.refuse fault d)
  | ofCursor {α β : Type} {R : α → β → Prop} {f : Cursor → α} {g : Cursor → β}
      (h : ∀ c d, p.cursor c d → R (f c) (g d)) :
      Alike p R (RuleT.ofState fun e => f e.cursor) (RuleT.ofState fun e => g e.cursor)
  | bind {α β γ δ : Type} {R : α → β → Prop} {S : γ → δ → Prop} {rule : RuleT m α}
      {rule' : RuleT m β} {next : α → RuleT m γ} {next' : β → RuleT m δ}
      (hr : Alike p R rule rule') (hn : ∀ a b, R a b → Alike p S (next a) (next' b))
      (hs : ∀ a, Structured (next a)) (hs' : ∀ b, Structured (next' b)) :
      Alike p S (rule >>= next) (rule' >>= next')
  | optional {α β : Type} {R : α → β → Prop} {rule : RuleT m α} {rule' : RuleT m β}
      (hr : Alike p R rule rule') :
      Alike p (Option.Rel R) (RuleT.optional rule) (RuleT.optional rule')
  | pattern (q : Pattern) : Alike p p.Captures (RuleT.pattern q) (RuleT.pattern q)
  | delimited (opening closing : Char) :
      Alike p p.Captures (RuleT.delimited opening closing) (RuleT.delimited opening closing)
  | negate : Alike p (· = ·) RuleT.negate RuleT.negate
  | require (fault : Fault) : Alike p (· = ·) (RuleT.require fault) (RuleT.require fault)
  | requireLast (fault : Fault) :
      Alike p (· = ·) (RuleT.requireLast fault) (RuleT.requireLast fault)
  | replaceLast (f : Text → Text) :
      Alike p p.Captures (RuleT.replaceLast f) (RuleT.replaceLast f)
  | scope {α β : Type} {R : α → β → Prop} {body : RuleT m α} {body' : RuleT m β}
      (hb : Alike p R body body') : Alike p (p.Scoped R) (RuleT.scope body) (RuleT.scope body')
  | seq {α β : Type} {R : α → β → Prop} {steps : List (RuleT m α × RuleT m β)}
      (hs : ∀ step ∈ steps, Alike p R step.1 step.2) :
      Alike p (List.Forall₂ R) (RuleT.seq (steps.map Prod.fst)) (RuleT.seq (steps.map Prod.snd))
  | alt {α β : Type} {R : α → β → Prop} {branches : List (RuleT m α × RuleT m β)}
      (hb : ∀ branch ∈ branches, Alike p R branch.1 branch.2) :
      Alike p R (RuleT.alt (branches.map Prod.fst)) (RuleT.alt (branches.map Prod.snd))
  | many {α β : Type} {R : α → β → Prop} {rule : RuleT m α} {rule' : RuleT m β}
      (hr : Alike p R rule rule') :
      Alike p (List.Forall₂ R) (RuleT.many rule) (RuleT.many rule')

namespace Alike

variable {p : Pairing} {R : α → β → Prop} {rule : Rule α} {rule' : Rule β}

/-- Rules that are built alike do the same on engines that go together. -/
theorem inStep (h : Alike p R rule rule') : p.InStep R rule rule' := by
  induction h with
  | pure h => exact .pure h
  | miss => exact .miss
  | refuse fault h => exact .refuse fault h
  | ofCursor h => exact .ofCursor h
  | bind _ _ _ _ hr hn => exact hr.bind hn
  | optional _ hr => exact hr.optional
  | pattern q => exact .pattern q
  | delimited opening closing => exact .delimited opening closing
  | negate => exact .negate
  | require fault => exact .require fault
  | requireLast fault => exact .requireLast fault
  | replaceLast f => exact .replaceLast f
  | scope _ hb => exact hb.scope
  | seq _ hs => exact .seq hs
  | alt _ hb => exact .alt hb
  | many _ hr => exact hr.many

end Alike

end NodeMarkup
