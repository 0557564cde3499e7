import NodeMarkup.Proofs.Grammar.Bounds
import NodeMarkup.Proofs.Lexeme.Extent
import NodeMarkup.Proofs.Match.Unread
/-!
What rules do on a given text. A rule is run on the text before it: it misses there, or it hits,
captures some texts and leaves the rest of the text unread. There is one lemma for each way to build
a rule, so that a rule is run by hand on a text that is known in part, whatever follows.
-/
namespace NodeMarkup

open RuleT

variable {α β : Type}

/-- The text from its first code on. -/
def Text.skipIgnorable (t : Text) : Text := t.drop (ignorableLength false t)

theorem Cursor.rest_skipIgnorable (c : Cursor) :
    c.skipIgnorable.rest = Text.skipIgnorable c.rest := by
  simp [Cursor.skipIgnorable, Text.skipIgnorable]

theorem Cursor.skipIgnorable_of_rest {c : Cursor} (h : Text.skipIgnorable c.rest = c.rest) :
    c.skipIgnorable = c := by
  have hlength : ignorableLength false c.rest = 0 := by
    rw [← h]
    exact ignorableLength_drop false _
  rw [Cursor.skipIgnorable, hlength, Cursor.advanceBy_zero]

theorem Text.skipIgnorable_length_le (t : Text) : (Text.skipIgnorable t).length ≤ t.length := by
  simp [Text.skipIgnorable]

theorem Text.skipIgnorable_skipIgnorable (t : Text) :
    Text.skipIgnorable (Text.skipIgnorable t) = Text.skipIgnorable t := by
  have h : ignorableLength false (Text.skipIgnorable t) = 0 := ignorableLength_drop false t
  rw [Text.skipIgnorable, h, List.drop_zero]

theorem Text.skipIgnorable_of_code {c : Char} {t : Text} (h : isIgnorable c = false) :
    Text.skipIgnorable (c :: t) = c :: t := by
  simp only [isIgnorable, Bool.or_eq_false_iff, decide_eq_false_iff_not] at h
  simp [Text.skipIgnorable, ignorableLength, h]

theorem RuleT.hit_of_bind {rule : Rule α} {next : α → Rule β} {e x : Engine} {value : β}
    (h : (rule >>= next).result e = (.hit value, x)) :
    ∃ first e', rule.result e = (.hit first, e') ∧ (next first).result e' = (.hit value, x) := by
  rw [result_bind] at h
  rcases hr : rule.result e with ⟨first | _ | y, e'⟩ <;> rw [hr] at h
  · exact ⟨first, e', rfl, h⟩
  · cases h
  · cases h

/-- The innermost frame reads on at `t`. It is not given up, and no negation is pending in it. -/
structure Engine.Facing (t : Text) (e : Engine) : Prop where
  rest : e.cursor.rest = t
  room : t.length ≤ e.source.length
  failed : e.frame.failed = false
  negate : e.frame.negate = false

/-- The innermost frame reads on at `t` and owes nothing. -/
structure Engine.Before (t : Text) (e : Engine) : Prop extends e.Facing t where
  obligation : e.frame.obligation = none

namespace Engine

variable {t : Text} {e : Engine}

theorem Facing.discharged (h : e.Facing t) : e.discharged.Before t :=
  ⟨⟨h.rest, h.room, h.failed, h.negate⟩, rfl⟩

theorem Facing.openFrame (h : e.Facing t) : e.openFrame.Before (Text.skipIgnorable t) := by
  have hle := Text.skipIgnorable_length_le t
  have hroom := h.room
  have hrest : e.openFrame.cursor.rest = Text.skipIgnorable t := by
    rw [← h.rest]
    exact e.cursor.rest_skipIgnorable
  exact ⟨⟨hrest, Nat.le_trans hle hroom, h.failed, rfl⟩, rfl⟩

theorem Facing.require (h : e.Facing t) (fault : Fault) : (e.require fault).Facing t := by
  unfold Engine.require
  rw [if_neg (by simp [h.failed])]
  exact ⟨h.rest, h.room, h.failed, h.negate⟩

theorem texts_require (fault : Fault) (e : Engine) : (e.require fault).texts = e.texts := by
  unfold Engine.require
  split <;> rfl

theorem Before.settled (h : e.Before t) : e.frame.settled = e.frame := by
  unfold Frame.settled
  rw [← h.negate, ← h.obligation]

theorem Before.discharged_eq (h : e.Before t) : e.discharged = e := by
  unfold Engine.discharged
  rw [← h.obligation]

/-- The engine whose next primitive match is turned round. -/
def negated (e : Engine) : Engine := { e with frame := { e.frame with negate := true } }

theorem Before.result_negate (h : e.Before t) :
    (RuleT.negate : Rule Unit).result e = (.hit (), e.negated) := by
  have hnegate : e.negate = e.negated := if_neg (by simp [h.failed])
  exact congrArg (Prod.mk _) hnegate

theorem Before.missed (h : e.Before t) : (e.missed none : Outcome α × Engine).2.Before t :=
  ⟨⟨h.rest, h.room, h.failed, h.negate⟩, h.obligation⟩

theorem texts_missed (owed : Option Obligation) (e : Engine) :
    (e.missed owed : Outcome α × Engine).2.texts = e.texts := by
  rw [missed_engine]
  rfl

end Engine

/-- A hit of the rule is marked as the latest match. -/
def Marks (rule : Rule α) : Prop :=
  ∀ (e e' : Engine) (value : α), rule.result e = (.hit value, e') → e'.frame.last = true

namespace Marks

theorem scope {body : Rule α} (hk : Keeps body) : Marks (RuleT.scope body) := by
  intro e e' value hrun
  cases hf : e.frame.failed with
  | true => simp [result_scope_of_failed body hf] at hrun
  | false =>
    have hkept := hk e.openFrame
    rcases hr : body.result e.openFrame with ⟨o, inner⟩
    rw [hr] at hkept
    obtain ⟨_, -, -, h⟩ | ⟨-, h⟩ | ⟨x, -, h⟩ := scope_cases hf hr hkept <;> rw [h] at hrun
    · cases hrun
      rfl
    · exact absurd (congrArg Prod.fst hrun) (Engine.missed_outcome_ne_hit _ _ value)
    · cases hrun

theorem firstOf {branches : List (Rule α)} (hk : ∀ branch ∈ branches, Keeps branch) :
    Marks (RuleT.firstOf branches) := by
  induction branches with
  | nil =>
    intro e e' value hrun
    cases hrun
  | cons branch branches ih =>
    intro e e' value hrun
    have hmarks := scope (hk branch (by simp)) e
    rw [result_firstOf_cons] at hrun
    rcases hr : (RuleT.scope branch).result e with ⟨found | _ | x, x'⟩ <;> rw [hr] at hrun
    · cases hrun
      exact hmarks _ _ hr
    · exact ih (fun b hb => hk b (by simp [hb])) x' e' value hrun
    · cases hrun

theorem alt {branches : List (Rule α)} (hk : ∀ branch ∈ branches, Keeps branch) :
    Marks (RuleT.alt branches) := by
  intro e e' value hrun
  cases hf : e.frame.failed with
  | true => simp [result_alt_of_failed branches hf] at hrun
  | false =>
    rw [result_alt branches hf] at hrun
    rcases hr : (RuleT.firstOf branches).result e.discharged with ⟨found | _ | x, x'⟩ <;>
      rw [hr] at hrun
    · cases hrun
      exact firstOf hk _ _ _ hr
    · exact absurd (congrArg Prod.fst hrun) (Engine.missed_outcome_ne_hit _ _ value)
    · cases hrun

end Marks

/-- The rule misses on the text, whatever it leaves behind. -/
def GivesUp (t : Text) (rule : Rule α) : Prop :=
  ∀ e : Engine, e.Before t → (rule.result e).1 = .miss

/-- The rule misses on the text and takes back all that it did. -/
def Misses (t : Text) (rule : Rule α) : Prop :=
  ∀ e : Engine, e.Before t → rule.result e = e.missed none

/-- The rule hits on the text: it captures the texts `more` and leaves `rest` unread. -/
def Hits (t : Text) (rule : Rule α) (Q : α → Prop) (more : List Text) (rest : Text) : Prop :=
  ∀ e : Engine, e.Before t → ∃ value e', rule.result e = (.hit value, e') ∧ Q value ∧
    e'.Before rest ∧ e'.texts = e.texts ++ more

variable {t rest : Text} {more : List Text} {rule : Rule α} {Q : α → Prop}

theorem Misses.givesUp (h : Misses t rule) : GivesUp t rule := by
  intro e he
  rw [h e he]
  rfl

/-- What a rule that hits in a frame of its own leaves in the frame around it, whatever that owes. -/
theorem Engine.Facing.result_scope_of_hit {e inner : Engine} {value : α} (he : e.Facing t)
    (hk : Keeps rule) (hrun : rule.result e.openFrame = (.hit value, inner))
    (hinner : inner.Before rest) (htexts : inner.texts = e.openFrame.texts ++ more) :
    ∃ capture e', (RuleT.scope rule).result e = (.hit (value, capture), e') ∧
      capture.text = more.flatten ∧ e'.Before rest ∧ e'.texts = e.texts ++ [more.flatten] := by
  have hkept := hk e.openFrame
  have hresult := result_scope_eq he.failed hkept
  rw [hrun] at hkept hresult
  simp only [hinner.failed] at hresult
  have hjoined : inner.frame.joined.text = more.flatten := by
    change inner.texts.flatten = more.flatten
    rw [htexts]
    rfl
  have hsource : inner.source = e.source := hkept.source
  refine ⟨_, _, hresult, hjoined, ?_, ?_⟩
  · exact ⟨⟨hinner.rest, hsource ▸ hinner.room, he.failed, he.negate⟩, rfl⟩
  · simp [Engine.texts, Engine.merged, Frame.push, hjoined]

namespace GivesUp

theorem bind (h : GivesUp t rule) (next : α → Rule β) : GivesUp t (rule >>= next) := by
  intro e he
  have hrun : rule.result e = (.miss, (rule.result e).2) := Prod.ext (h e he) rfl
  rw [result_bind, hrun]

/-- A rule that hits and goes on with one that gives up. -/
theorem behind {next : α → Rule β} (h : Hits t rule Q more rest)
    (hn : ∀ value, Q value → GivesUp rest (next value)) : GivesUp t (rule >>= next) := by
  intro e he
  obtain ⟨value, e', hrun, hvalue, he', -⟩ := h e he
  rw [result_bind, hrun]
  exact hn value hvalue e' he'

theorem seq (h : GivesUp t rule) (steps : List (Rule α)) :
    GivesUp t (RuleT.seq (rule :: steps)) := by
  intro e he
  have hrun : rule.result e = (.miss, (rule.result e).2) := Prod.ext (h e he) rfl
  rw [result_seq_cons, hrun]

theorem scope (h : GivesUp (Text.skipIgnorable t) rule) (hk : Keeps rule) :
    Misses t (RuleT.scope rule) := by
  intro e he
  rw [result_scope_eq he.failed (hk e.openFrame), h _ he.openFrame, he.discharged_eq, he.obligation]

theorem framed (h : GivesUp (Text.skipIgnorable t) rule) (hk : Keeps rule) :
    Misses t (RuleT.framed rule) := by
  intro e he
  unfold RuleT.framed
  rw [result_bind, h.scope hk e he]
  rfl

/-- A rule in a frame of its own that gives up behind ignorable text. -/
theorem framed_of_code {code : Text} (hcode : Text.skipIgnorable t = code) (h : GivesUp code rule)
    (hk : Keeps rule) : Misses t (RuleT.framed rule) := by
  subst hcode
  exact h.framed hk

/-- A negated pattern gives up where the pattern matches. -/
theorem negated {p : Pattern} {n : Nat} (h : p t = some n) (next : Capture → Rule β) :
    GivesUp t (RuleT.negate >>= fun _ => RuleT.pattern p >>= next) := by
  intro e he
  have hfound : p e.negated.cursor.rest = some n := he.rest ▸ h
  have howed : e.negated.frame.obligation = none := he.obligation
  have hrun : (RuleT.pattern p).result e.negated = e.negated.recognise p := rfl
  rw [Engine.recognise_of_some (e := e.negated) he.failed hfound, if_pos (by rfl), howed] at hrun
  rw [result_bind, he.result_negate]
  dsimp only
  rw [result_bind, hrun]
  rfl

/-- Branches that give up leave no trace but the mark of the latest match. -/
theorem firstOf {before : List (Rule α)} (after : List (Rule α))
    (h : ∀ branch ∈ before, GivesUp (Text.skipIgnorable t) branch ∧ Keeps branch) {e : Engine}
    (he : e.Before t) :
    ∃ e', (RuleT.firstOf (before ++ after)).result e = (RuleT.firstOf after).result e' ∧
      (e' = e ∨ e' = (e.missed none : Outcome α × Engine).2) := by
  induction before generalizing e with
  | nil => exact ⟨e, rfl, .inl rfl⟩
  | cons branch before ih =>
    obtain ⟨hup, hk⟩ := h branch (by simp)
    have hmiss := hup.scope hk e he
    have hbefore : (e.missed none : Outcome α × Engine).2.Before t := he.missed
    obtain ⟨e', hrun, he'⟩ := ih (fun b hb => h b (by simp [hb])) hbefore
    refine ⟨e', ?_, .inr ?_⟩
    · rw [List.cons_append, result_firstOf_cons, hmiss]
      exact hrun
    · rcases he' with rfl | rfl <;> rfl

theorem alt {branches : List (Rule α)}
    (h : ∀ branch ∈ branches, GivesUp (Text.skipIgnorable t) branch ∧ Keeps branch) :
    Misses t (RuleT.alt branches) := by
  intro e he
  obtain ⟨e', hrun, he'⟩ := firstOf [] h he
  rw [List.append_nil] at hrun
  rw [result_alt _ he.failed, he.discharged_eq, hrun, he.obligation]
  rcases he' with rfl | rfl <;> rfl

end GivesUp

namespace Misses

theorem bind (h : Misses t rule) (next : α → Rule β) : Misses t (rule >>= next) := by
  intro e he
  rw [result_bind, h e he]
  rfl

theorem pattern {p : Pattern} (h : p t = none) : Misses t (RuleT.pattern p) := by
  intro e he
  change e.recognise p = _
  rw [Engine.recognise_of_none he.failed (he.rest ▸ h), he.negate, he.settled, he.obligation]
  rfl

theorem literal {word : Text} (h : ¬word <+: t) : Misses t (RuleT.literal word) :=
  pattern (Pattern.word_of_not_prefix h)

theorem literal_of_head {c : Char} {word : Text} (hw : word.head? = some c)
    (h : t.head? ≠ some c) : Misses t (RuleT.literal word) := by
  apply literal
  rintro ⟨rest, rfl⟩
  cases word with
  | nil => cases hw
  | cons d word => exact h hw

theorem mark (c : Char) {word : Text} (hw : word = [c]) (h : t.head? ≠ some c) :
    Misses t (RuleT.literal word) :=
  literal_of_head (congrArg List.head? hw) h

theorem delimited {opening closing : Char} (h : t.head? ≠ some opening) :
    Misses t (RuleT.delimited opening closing) := by
  intro e he
  have hcurrent : e.cursor.current? ≠ some opening := by
    unfold Cursor.current?
    rwa [he.rest]
  change e.delimited opening closing = _
  rw [Engine.delimited_of_other he.failed hcurrent, he.settled, he.obligation]

/-- A miss that is no miss. -/
theorem optional (h : Misses t rule) : Hits t (RuleT.optional rule) (· = none) [] t := by
  intro e he
  have hmissed : (e.missed none : Outcome α × Engine).2.Before t := he.missed
  refine ⟨none, (e.missed none : Outcome α × Engine).2, ?_, rfl, hmissed, ?_⟩
  · rw [result_optional, h e he]
    rfl
  · rw [Engine.texts_missed, List.append_nil]

end Misses

namespace Hits

theorem mono {P : α → Prop} (h : Hits t rule P more rest) (hPQ : ∀ value, P value → Q value) :
    Hits t rule Q more rest := by
  intro e he
  obtain ⟨value, e', hrun, hvalue, hrest⟩ := h e he
  exact ⟨value, e', hrun, hPQ value hvalue, hrest⟩

theorem pure {value : α} (h : Q value) : Hits t (Pure.pure value) Q [] t := by
  intro e he
  exact ⟨value, e, rfl, h, he, by simp⟩

theorem bind {next : α → Rule β} {R : β → Prop} {more' : List Text} {rest' : Text}
    (h : Hits t rule Q more rest) (hn : ∀ value, Q value → Hits rest (next value) R more' rest') :
    Hits t (rule >>= next) R (more ++ more') rest' := by
  intro e he
  obtain ⟨value, e', hrun, hvalue, he', htexts⟩ := h e he
  obtain ⟨value', e'', hrun', hvalue', he'', htexts'⟩ := hn value hvalue e' he'
  refine ⟨value', e'', ?_, hvalue', he'', ?_⟩
  · rw [result_bind, hrun]
    exact hrun'
  · rw [htexts', htexts, List.append_assoc]

/-- A rule that hits and goes on with one that captures nothing. -/
theorem bind_silent {next : α → Rule β} {R : β → Prop} {rest' : Text}
    (h : Hits t rule Q more rest) (hn : ∀ value, Q value → Hits rest (next value) R [] rest') :
    Hits t (rule >>= next) R more rest' := by
  have hbind := h.bind hn
  rwa [List.append_nil] at hbind

theorem map {R : β → Prop} (h : Hits t rule Q more rest) (f : α → β)
    (hf : ∀ value, Q value → R (f value)) :
    Hits t (rule >>= fun value => Pure.pure (f value)) R more rest :=
  h.bind_silent fun value hv => pure (hf value hv)

theorem ofState {f : Engine → α} (h : ∀ e : Engine, e.cursor.rest = t → Q (f e)) :
    Hits t (RuleT.ofState f) Q [] t := by
  intro e he
  exact ⟨f e, e, rfl, h e he.rest, he, by simp⟩

theorem rangeFrom (start : Cursor) : Hits t (RuleT.rangeFrom start) (fun _ => True) [] t :=
  ofState (f := fun e : Engine => (⟨start, e.cursor⟩ : Range)) fun _ _ => trivial

theorem check [DecidableEq α] {value : α} {cut : Thunk (Option α)} {next : Unit → Rule β}
    {R : β → Prop} (h : Hits t (next ()) R more rest) :
    Hits t (NodeMarkup.check value cut >>= next) R more rest := by
  rwa [check_then]

theorem optional (h : Hits t rule Q more rest) :
    Hits t (RuleT.optional rule) (fun found => ∃ value, found = some value ∧ Q value) more rest := by
  intro e he
  obtain ⟨value, e', hrun, hvalue, hrest⟩ := h e he
  refine ⟨some value, e', ?_, ⟨value, rfl, hvalue⟩, hrest⟩
  rw [result_optional, hrun]

/-- A rule that has to hit, and what follows it. -/
theorem requireLast {next : Option α → Rule β} {R : β → Prop} {more' : List Text} {rest' : Text}
    (fault : Fault) (h : Hits t rule Q more rest) (hm : Marks rule)
    (hn : ∀ value, Q value → Hits rest (next (some value)) R more' rest') :
    Hits t (RuleT.optional rule >>= fun found => RuleT.requireLast fault >>= fun _ => next found) R
      (more ++ more') rest' := by
  intro e he
  obtain ⟨value, x, hrun, hvalue, hx, htexts⟩ := h e he
  obtain ⟨value', e', hrun', hvalue', he', htexts'⟩ := hn value hvalue x hx
  have hlast : (RuleT.requireLast fault : Rule Unit).result x = (.hit (), x) := by
    change x.requireLast fault = _
    simp [Engine.requireLast, hm _ _ _ hrun]
  refine ⟨value', e', ?_, hvalue', he', by rw [htexts', htexts, List.append_assoc]⟩
  rw [result_bind, result_optional, hrun]
  dsimp only
  rw [result_bind, hlast]
  exact hrun'

theorem seq_nil {Q : List α → Prop} (h : Q []) : Hits t (RuleT.seq []) Q [] t := pure h

theorem seq_cons {steps : List (Rule α)} {Qs : List α → Prop} {more' : List Text} {rest' : Text}
    (h : Hits t rule Q more rest)
    (hs : ∀ value, Q value → Hits rest (RuleT.seq steps) (fun values => Qs (value :: values)) more'
      rest') :
    Hits t (RuleT.seq (rule :: steps)) Qs (more ++ more') rest' := by
  intro e he
  obtain ⟨value, x, hrun, hvalue, hx, htexts⟩ := h e he
  obtain ⟨values, e', hrun', hvalues, he', htexts'⟩ := hs value hvalue x hx
  refine ⟨value :: values, e', ?_, hvalues, he', by rw [htexts', htexts, List.append_assoc]⟩
  rw [result_seq_cons, hrun]
  dsimp only
  rw [hrun']
  rfl

theorem pattern {p : Pattern} {n : Nat} (h : p t = some n) :
    Hits t (RuleT.pattern p) (fun capture => capture.text = t.take n) [t.take n] (t.drop n) := by
  intro e he
  have hroom := he.room
  have hrest := he.rest
  subst hrest
  have hrun := Engine.recognise_of_some he.failed h
  rw [he.negate, if_neg (by simp)] at hrun
  refine ⟨_, _, hrun, rfl, ⟨⟨Cursor.rest_advanceBy n e.cursor, ?_, he.failed, rfl⟩, rfl⟩, ?_⟩
  · rw [List.length_drop]
    exact Nat.le_trans (Nat.sub_le _ _) hroom
  · simp [Engine.texts, Frame.push, Frame.settled]

/-- A pattern that matches the text `w` in front of `rest`. -/
theorem pattern_append {p : Pattern} {w : Text} (h : p (w ++ rest) = some w.length) :
    Hits (w ++ rest) (RuleT.pattern p) (fun capture => capture.text = w) [w] rest := by
  have hpattern := pattern h
  rwa [List.take_left, List.drop_left] at hpattern

/-- A negated pattern reads nothing where the pattern does not match. -/
theorem negated {p : Pattern} {next : Capture → Rule β} {R : β → Prop} (h : p t = none)
    (hn : ∀ capture, Hits t (next capture) R more rest) :
    Hits t (RuleT.negate >>= fun _ => RuleT.pattern p >>= next) R more rest := by
  intro e he
  have hfound : p e.negated.cursor.rest = none := he.rest ▸ h
  have hrun : (RuleT.pattern p).result e.negated =
      (.hit (.empty e.cursor), { e with frame := { e.frame.settled with last := true } }) := by
    change e.negated.recognise p = _
    rw [Engine.recognise_of_none (e := e.negated) he.failed hfound, if_pos (by rfl)]
    rfl
  rw [result_bind, he.result_negate]
  dsimp only
  rw [result_bind, hrun]
  exact hn _ _ ⟨⟨he.rest, he.room, he.failed, rfl⟩, rfl⟩

theorem literal (word rest : Text) :
    Hits (word ++ rest) (RuleT.literal word) (fun capture => capture.text = word) [word] rest :=
  pattern_append (Pattern.word_append word rest)

theorem mark (c : Char) {word : Text} (hw : word = [c]) (rest : Text) :
    Hits (c :: rest) (RuleT.literal word) (fun capture => capture.text = word) [[c]] rest := by
  subst hw
  exact literal [c] rest

theorem delimited {opening closing : Char} {w : Text}
    (h : Lexeme.blockLength opening closing .code 0 (w ++ closing :: rest) = some w.length) :
    Hits (opening :: (w ++ closing :: rest)) (RuleT.delimited opening closing)
      (fun capture => capture.text = w) [w] rest := by
  intro e he
  have hroom := he.room
  have hcurrent : e.cursor.current? = some opening := by simp [Cursor.current?, he.rest]
  have hinside : e.cursor.advance.rest = w ++ closing :: rest := by
    rw [Cursor.rest_advance, he.rest, List.tail_cons]
  have hlength : Lexeme.blockLength opening closing .code 0 e.cursor.advance.rest =
      some w.length := by rw [hinside, h]
  have hrest : (e.cursor.advance.advanceBy w.length).advance.rest = rest := by
    rw [Cursor.rest_advance, Cursor.rest_advanceBy, hinside, List.drop_left, List.tail_cons]
  have htext : e.cursor.advance.rest.take w.length = w := by rw [hinside, List.take_left]
  refine ⟨_, _, Engine.delimited_of_block he.failed hcurrent hlength, htext,
    ⟨⟨hrest, ?_, he.failed, rfl⟩, rfl⟩, ?_⟩
  · simp only [List.length_cons, List.length_append] at hroom ⊢
    omega
  · simp only [Engine.texts, Engine.behindBlock, Frame.push, Frame.settled, htext,
      List.map_append, List.map_cons, List.map_nil]

/-- A rule in a frame of its own hits whatever the frame around it owes. -/
theorem result_scope (h : Hits (Text.skipIgnorable t) rule Q more rest) (hk : Keeps rule)
    {e : Engine} (he : e.Facing t) :
    ∃ value e', (RuleT.scope rule).result e = (.hit value, e') ∧
      (Q value.1 ∧ value.2.text = more.flatten) ∧
      e'.Before rest ∧ e'.texts = e.texts ++ [more.flatten] := by
  obtain ⟨value, inner, hrun, hvalue, hinner, htexts⟩ := h _ he.openFrame
  obtain ⟨capture, e', hscope, hcapture, hrest⟩ := he.result_scope_of_hit hk hrun hinner htexts
  exact ⟨_, e', hscope, ⟨hvalue, hcapture⟩, hrest⟩

theorem scope (h : Hits (Text.skipIgnorable t) rule Q more rest) (hk : Keeps rule) :
    Hits t (RuleT.scope rule) (fun value => Q value.1 ∧ value.2.text = more.flatten)
      [more.flatten] rest :=
  fun _ he => h.result_scope hk he.toFacing

theorem framed (h : Hits (Text.skipIgnorable t) rule Q more rest) (hk : Keeps rule) :
    Hits t (RuleT.framed rule) Q [more.flatten] rest :=
  (h.scope hk).map Prod.fst fun _ hv => hv.1

theorem required (fault : Fault) (h : Hits (Text.skipIgnorable t) rule Q more rest)
    (hk : Keeps rule) : Hits t (RuleT.required fault rule) Q [more.flatten] rest := by
  intro e he
  obtain ⟨value, e', hrun, hvalue, hrest, htexts⟩ := h.result_scope hk (he.require fault)
  refine ⟨value.1, e', ?_, hvalue.1, hrest, by rw [htexts, Engine.texts_require]⟩
  have hrequire : (RuleT.require fault : Rule Unit).result e = (.hit (), e.require fault) := rfl
  unfold RuleT.required RuleT.framed
  rw [result_bind, hrequire]
  dsimp only
  rw [result_bind, hrun]
  rfl

/-- A rule in a frame of its own, before which ignorable text may stand. -/
theorem framed_of_code {code : Text} (hcode : Text.skipIgnorable t = code)
    (h : Hits code rule Q more rest) (hk : Keeps rule) :
    Hits t (RuleT.framed rule) Q [more.flatten] rest := by
  subst hcode
  exact h.framed hk

/-- The first branch that does not give up, whatever the alternative owes. -/
theorem result_alt {before : List (Rule α)} (after : List (Rule α))
    (hb : ∀ branch ∈ before, GivesUp (Text.skipIgnorable t) branch ∧ Keeps branch)
    (h : Hits (Text.skipIgnorable t) rule Q more rest) (hk : Keeps rule) {e : Engine}
    (he : e.Facing t) :
    ∃ value e', (RuleT.alt (before ++ rule :: after)).result e = (.hit value, e') ∧ Q value ∧
      e'.Before rest ∧ e'.texts = e.texts ++ [more.flatten] := by
  obtain ⟨x, hrun, hx⟩ := GivesUp.firstOf (rule :: after) hb he.discharged
  have hbefore : x.Before t ∧ x.texts = e.texts := by
    rcases hx with rfl | rfl
    · exact ⟨he.discharged, rfl⟩
    · exact ⟨he.discharged.missed, rfl⟩
  obtain ⟨value, e', hscope, hvalue, hrest, htexts⟩ := h.result_scope hk hbefore.1.toFacing
  refine ⟨value.1, e', ?_, hvalue.1, hrest, by rw [htexts, hbefore.2]⟩
  rw [RuleT.result_alt _ he.failed, hrun, result_firstOf_cons, hscope]

theorem alt (before after : List (Rule α))
    (hb : ∀ branch ∈ before, GivesUp (Text.skipIgnorable t) branch ∧ Keeps branch)
    (h : Hits (Text.skipIgnorable t) rule Q more rest) (hk : Keeps rule) :
    Hits t (RuleT.alt (before ++ rule :: after)) Q [more.flatten] rest :=
  fun _ he => h.result_alt after hb hk he.toFacing

/-- An alternative whose branch captures one text. -/
theorem alt_of_code (before after : List (Rule α)) {w code : Text}
    (hcode : Text.skipIgnorable t = code)
    (hb : ∀ branch ∈ before, GivesUp code branch ∧ Keeps branch) (h : Hits code rule Q [w] rest)
    (hk : Keeps rule) : Hits t (RuleT.alt (before ++ rule :: after)) Q [w] rest := by
  subst hcode
  have halt := h.alt before after hb hk
  rwa [List.flatten_singleton] at halt

/-- An alternative that is owed, and what follows it. -/
theorem require_alt (fault : Fault) (before after : List (Rule α))
    {next : α → Rule β} {R : β → Prop} {more' : List Text} {rest' : Text}
    (hb : ∀ branch ∈ before, GivesUp (Text.skipIgnorable t) branch ∧ Keeps branch)
    (h : Hits (Text.skipIgnorable t) rule Q more rest) (hk : Keeps rule)
    (hn : ∀ value, Q value → Hits rest (next value) R more' rest') :
    Hits t (RuleT.require fault >>= fun _ => RuleT.alt (before ++ rule :: after) >>= next) R
      (more.flatten :: more') rest' := by
  intro e he
  obtain ⟨value, x, hrun, hvalue, hx, htexts⟩ := h.result_alt after hb hk (he.require fault)
  obtain ⟨value', e', hrun', hvalue', he', htexts'⟩ := hn value hvalue x hx
  have hrequire : (RuleT.require fault : Rule Unit).result e = (.hit (), e.require fault) := rfl
  refine ⟨value', e', ?_, hvalue', he', ?_⟩
  · rw [result_bind, hrequire]
    dsimp only
    rw [result_bind, hrun]
    exact hrun'
  · rw [htexts', htexts, Engine.texts_require, List.append_assoc, List.singleton_append]

/-- A repetition that ends at once. -/
theorem many_nil (h : GivesUp (Text.skipIgnorable t) rule) (hk : Keeps rule) :
    Hits t (RuleT.many rule) (· = []) [] t := by
  intro e he
  have hmissed : (e.missed none : Outcome α × Engine).2.Before t := he.missed
  refine ⟨[], _, ?_, rfl, hmissed, by rw [Engine.texts_missed, List.append_nil]⟩
  change (RuleT.manyWithin rule (e.source.length + 1 + 1)).result e = _
  rw [result_manyWithin_succ, h.scope hk e he]
  rfl

/-- A repetition that reads on once and goes on from there. -/
theorem many_cons {Qs : List α → Prop} {more' : List Text} {rest' : Text}
    (h : Hits (Text.skipIgnorable t) rule Q more rest) (hk : Keeps rule)
    (hlt : rest.length < t.length) (hrest : Hits rest (RuleT.many rule) Qs more' rest') :
    Hits t (RuleT.many rule)
      (fun values => ∃ value values', values = value :: values' ∧ Q value ∧ Qs values')
      (more.flatten :: more') rest' := by
  intro e he
  obtain ⟨value, x, hrun, hvalue, hx, htexts⟩ := h.result_scope hk he.toFacing
  obtain ⟨values, e', hrun', hvalues, he', htexts'⟩ := hrest x hx
  have hkept := hk.scope e
  rw [hrun] at hkept
  have hreach : e.cursor.Reaches x.cursor := hkept.reaches
  have hroom := he.room
  have hlength : x.cursor.rest.length < e.source.length + 1 := by rw [hx.rest]; omega
  have hmoved : x.cursor.position ≠ e.cursor.position := by
    intro hsame
    rw [hreach.position_eq_iff, hx.rest, he.rest] at hsame
    omega
  have hsource : x.source = e.source := hkept.source
  have hsame : (RuleT.manyWithin rule (e.source.length + 1)).result x =
      (RuleT.many rule).result x := by
    apply result_manyWithin_eq hk hlength
    rw [hsource]
    omega
  refine ⟨value.1 :: values, e', ?_, ⟨_, _, rfl, hvalue.1, hvalues⟩, he', ?_⟩
  · change (RuleT.manyWithin rule (e.source.length + 1 + 1)).result e = _
    rw [result_manyWithin_succ, hrun]
    dsimp only
    rw [if_neg hmoved, hsame, hrun']
    rfl
  · rw [htexts', htexts, List.append_assoc, List.singleton_append]

end Hits

/-- The rule hits where `w` was captured last. It may replace that text: `more` stands for it and for
all that the rule captures. -/
def Revises (w t : Text) (rule : Rule α) (Q : α → Prop) (more : List Text) (rest : Text) : Prop :=
  ∀ (e : Engine) (before : List Text), e.Before t → e.texts = before ++ [w] →
    ∃ value e', rule.result e = (.hit value, e') ∧ Q value ∧ e'.Before rest ∧
      e'.texts = before ++ more

namespace Revises

variable {w : Text}

theorem replaceLast (f : Text → Text) :
    Revises w t (RuleT.replaceLast f) (fun capture => capture.text = f w) [f w] t := by
  intro e before he htexts
  rcases List.eq_nil_or_concat e.frame.captures with hnil | ⟨captures, last, hcaptures⟩
  · simp [Engine.texts, hnil] at htexts
  · rw [List.concat_eq_append] at hcaptures
    have hsame : captures.map Capture.text ++ [last.text] = before ++ [w] := by
      rw [← htexts]
      simp [Engine.texts, hcaptures]
    obtain ⟨rfl, hlast⟩ := List.append_inj' hsame rfl
    obtain rfl : last.text = w := List.cons.inj hlast |>.1
    have hrun : (RuleT.replaceLast f : Rule Capture).result e =
        (.hit { last with text := f last.text },
          { e with frame := { e.frame with
            captures := captures ++ [{ last with text := f last.text }] } }) := by
      change e.replaceLast f = _
      simp [Engine.replaceLast, hcaptures]
    refine ⟨_, _, hrun, rfl, ⟨⟨he.rest, he.room, he.failed, he.negate⟩, he.obligation⟩, ?_⟩
    simp [Engine.texts]

theorem bind {next : α → Rule β} {R : β → Prop} {more' : List Text} {rest' : Text}
    (h : Revises w t rule Q more rest)
    (hn : ∀ value, Q value → Hits rest (next value) R more' rest') :
    Revises w t (rule >>= next) R (more ++ more') rest' := by
  intro e before he htexts
  obtain ⟨value, e', hrun, hvalue, he', htexts'⟩ := h e before he htexts
  obtain ⟨value', e'', hrun', hvalue', he'', htexts''⟩ := hn value hvalue e' he'
  refine ⟨value', e'', ?_, hvalue', he'', ?_⟩
  · rw [result_bind, hrun]
    exact hrun'
  · rw [htexts'', htexts', List.append_assoc]

/-- A rule that hits and goes on with one that may replace its capture. -/
theorem behind {next : α → Rule β} {R : β → Prop} {rest' : Text} (h : Hits t rule Q [w] rest)
    (hn : ∀ value, Q value → Revises w rest (next value) R more rest') :
    Hits t (rule >>= next) R more rest' := by
  intro e he
  obtain ⟨value, e', hrun, hvalue, he', htexts⟩ := h e he
  obtain ⟨value', e'', hrun', hvalue', he'', htexts'⟩ := hn value hvalue e' _ he' htexts
  refine ⟨value', e'', ?_, hvalue', he'', htexts'⟩
  rw [result_bind, hrun]
  exact hrun'

end Revises

end NodeMarkup
