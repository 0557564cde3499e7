import NodeMarkup.Proofs.Grammar.Reading
/-!
What a scan yields. The engine is back at its outermost frame behind every token, so looking for the
next token goes on from where the last one stopped: the tokens of a scan stand one behind the other
like the values of a repetition.
-/
namespace NodeMarkup

open RuleT

variable {source : Text}

/-- The engine is between two tokens of the source: no frame is open, and it reads on at a place. -/
structure Engine.Between (source : Text) (e : Engine) : Prop where
  source_eq : e.source = source
  outer_eq : e.outer = []
  isPlace : Cursor.IsPlace source e.cursor

theorem Engine.between_start (source : Text) : (Engine.start source).Between source :=
  ⟨rfl, rfl, Cursor.isPlace_start source⟩

theorem Engine.Between.rewind {e : Engine} {c : Cursor} (he : e.Between source)
    (hc : Cursor.IsPlace source c) : (e.rewind c).Between source :=
  ⟨he.source_eq, he.outer_eq, hc⟩

theorem Engine.Between.kept {e e' : Engine} (he : e.Between source) (hk : e.Kept e') :
    e'.Between source :=
  ⟨hk.source.trans he.source_eq, hk.outer.trans he.outer_eq, he.isPlace.of_reaches hk.reaches⟩

theorem Grammar.structured_token : Structured (Grammar.token : Rule Token) := by
  apply Structured.alt
  simp [structured_importToken, structured_variableToken, structured_functionToken,
    structured_tagToken]

theorem Cursor.skipUnrecognised_reaches (inCode : Bool) (c : Cursor) :
    c.Reaches (c.skipUnrecognised inCode) :=
  reaches_advanceBy _ c

theorem Cursor.position_lt_skipUnrecognised (inCode : Bool) {c : Cursor} (h : ¬c.atEnd) :
    c.position < (c.skipUnrecognised inCode).position :=
  position_lt_advanceBy (unrecognisedLength_pos inCode c.rest) (by simpa [atEnd] using h)

namespace Engine

variable {openTags : Nat} {c : Cursor} {e : Engine}

theorem seek_of_atEnd (h : c.skipIgnorable.atEnd) :
    e.seek openTags c = (.miss, e.rewind c.skipIgnorable) := by
  rw [seek, seekM, unchecked_then, unchecked_then, dif_pos h]
  rfl

/-- One turn of the search. The check for frames left open never finds one. -/
theorem seek_of_code (ho : e.outer = []) (h : ¬c.skipIgnorable.atEnd) :
    e.seek openTags c =
      match Grammar.token.result (e.rewind c.skipIgnorable) with
      | (.hit token, e') => (.hit token, e')
      | (.miss, e') => e'.seek openTags (c.skipIgnorable.skipUnrecognised (openTags == 0))
      | (.error x, e') => (.error x, e') := by
  have hkept := Grammar.structured_token.keeps (e.rewind c.skipIgnorable)
  have hdepth : (Grammar.token.result (e.rewind c.skipIgnorable)).2.depth = 0 := by
    have houter := hkept.outer.trans ho
    simp [depth, houter]
  rw [seek, seekM, unchecked_then, unchecked_then, dif_neg h]
  change Id.run (pure (Grammar.token.result (e.rewind c.skipIgnorable)) >>= _) = _
  rw [pure_bind]
  rcases hrun : Grammar.token.result (e.rewind c.skipIgnorable) with ⟨token | _ | x, e'⟩ <;>
    rw [hrun] at hdepth <;> dsimp only <;> rw [ensure, unchecked_then]
  · rw [if_neg (by simp [hdepth])]
    rfl
  · rw [if_neg (by simp [hdepth])]
    rfl
  · rfl

end Engine

/-- The token stands at the next code behind `c`, or further on, and reaches through `d`. -/
def Token.Follows (c : Cursor) (token : Token) (d : Cursor) : Prop :=
  ∃ place, c.Reaches place ∧ place.skipIgnorable = place ∧ ¬place.atEnd ∧
    token.Stands place d ∧ place.Reaches d

/-- All that looking for a token from `c` on can come to. -/
inductive Sought (source : Text) (c : Cursor) : Outcome Token × Engine → Prop where
  | found {token : Token} {e' : Engine} (between : e'.Between source)
      (follows : token.Follows c e'.cursor) : Sought source c (.hit token, e')
  | finished {e' : Engine} (between : e'.Between source) (atEnd : e'.cursor.atEnd) :
      Sought source c (.miss, e')
  | failed {x : ParseError} {e' : Engine} (between : e'.Between source) :
      Sought source c (.error x, e')

theorem Sought.of_reaches {c d : Cursor} {result : Outcome Token × Engine} (h : c.Reaches d)
    (hs : Sought source d result) : Sought source c result := by
  cases hs with
  | found between follows =>
    obtain ⟨place, hplace, hfollows⟩ := follows
    exact .found between ⟨place, h.trans hplace, hfollows⟩
  | finished between atEnd => exact .finished between atEnd
  | failed between => exact .failed between

theorem sought_seek (openTags : Nat) {c : Cursor} {e : Engine} (he : e.Between source)
    (hc : Cursor.IsPlace source c) : Sought source c (e.seek openTags c) := by
  -- each turn without a token leaves less to read
  induction hlen : c.rest.length using Nat.strongRecOn generalizing c e with
  | _ len ih =>
    have hplace := hc.of_reaches (Cursor.reaches_skipIgnorable c)
    by_cases hend : c.skipIgnorable.atEnd
    · rw [Engine.seek_of_atEnd hend]
      exact .finished (he.rewind hplace) hend
    · have hkept := Grammar.structured_token.keeps (e.rewind c.skipIgnorable)
      have hreads := Grammar.reads_token (c := c.skipIgnorable) (e.rewind c.skipIgnorable) rfl rfl
      rw [Engine.seek_of_code he.outer_eq hend]
      rcases hrun : Grammar.token.result (e.rewind c.skipIgnorable) with ⟨token | _ | x, e'⟩ <;>
        rw [hrun] at hkept hreads
      · have hstands := hreads.2 token rfl
        rw [Cursor.skipIgnorable_skipIgnorable] at hstands
        exact .found ((he.rewind hplace).kept hkept) ⟨c.skipIgnorable,
          Cursor.reaches_skipIgnorable c, Cursor.skipIgnorable_skipIgnorable c, hend, hstands,
          hkept.reaches⟩
      · have hless := Cursor.length_rest_skip_lt (openTags == 0) c hend
        have hskip := Cursor.skipUnrecognised_reaches (openTags == 0) c.skipIgnorable
        have hrest := ih _ (hlen ▸ hless) ((he.rewind hplace).kept hkept)
          (hplace.of_reaches hskip) rfl
        exact hrest.of_reaches ((Cursor.reaches_skipIgnorable c).trans hskip)
      · exact .failed ((he.rewind hplace).kept hkept)

namespace Scan

theorem again_eq (e : Engine) : again e = ⟨e.reset, 0, false⟩ := rfl

theorem drain_eq (s : Scan) : s.drain = s.take (s.engine.source.length + 1) := rfl

theorem next_eq (s : Scan) :
    s.next =
      if s.done then (.miss, s)
      else
        match s.engine.seek s.openTags s.engine.cursor with
        | (.hit token, engine) => (.hit token, ⟨engine, token.openTags s.openTags, false⟩)
        | (result, engine) => (result, ⟨engine, s.openTags, true⟩) := by
  unfold next nextM
  cases s.done <;> rfl

@[simp] theorem take_zero (s : Scan) : s.take 0 = ([], .limit, s) := rfl

theorem take_succ (n : Nat) (s : Scan) :
    s.take (n + 1) =
      match s.next with
      | (.hit token, s) => (token :: (s.take n).1, (s.take n).2)
      | (.miss, s) => ([], .finished, s)
      | (.error x, s) => ([], .failed x, s) := rfl

/-- What a scan has yielded once it is asked for no more: tokens one behind the other, and behind the
last of them the end of the source, an error, or more that was not asked for. -/
structure Yields (source : Text) (s : Scan) (run : List Token × ScanEnd × Scan) : Prop where
  tokens : ∃ d, Repeats Token.Follows s.engine.cursor run.1 d
  between : run.2.2.engine.Between source
  done : run.2.2.done = false ↔ run.2.1 = .limit
  finished : run.2.1 = .finished → run.2.2.engine.cursor.atEnd

theorem yields_take (n : Nat) {s : Scan} (hs : s.engine.Between source) (hd : s.done = false) :
    s.Yields source (s.take n) := by
  induction n generalizing s with
  | zero => exact ⟨⟨_, .nil _⟩, hs, by simp [hd], by simp⟩
  | succ n ih =>
    have hsought := sought_seek s.openTags hs hs.isPlace
    simp only [take_succ, next_eq, hd, Bool.false_eq_true, ↓reduceIte]
    rcases hrun : s.engine.seek s.openTags s.engine.cursor with ⟨token | _ | x, e'⟩ <;>
      rw [hrun] at hsought
    · cases hsought with
      | found between follows =>
        obtain ⟨⟨d, htokens⟩, hbetween, hdone, hfinished⟩ :=
          ih (s := ⟨e', token.openTags s.openTags, false⟩) between rfl
        exact ⟨⟨d, .cons follows htokens⟩, hbetween, hdone, hfinished⟩
    · cases hsought with
      | finished between atEnd => exact ⟨⟨_, .nil _⟩, between, by simp, fun _ => atEnd⟩
    · cases hsought with
      | failed between => exact ⟨⟨_, .nil _⟩, between, by simp, by simp⟩

/-- A scan that was not stopped by the number of tokens asked for comes to the same whenever more
tokens are asked for than there are. -/
theorem take_eq_of_stopped {m n : Nat} {s : Scan} (h : (s.take m).2.1 ≠ .limit)
    (hn : (s.take m).1.length < n) : s.take n = s.take m := by
  induction m generalizing n s with
  | zero => simp at h
  | succ m ih =>
    obtain ⟨n, rfl⟩ : ∃ k, n = k + 1 := ⟨n - 1, by omega⟩
    rcases hnext : s.next with ⟨token | _ | x, s'⟩
    · simp only [take_succ, hnext, List.length_cons] at h hn ⊢
      rw [ih h (by omega)]
    · simp only [take_succ, hnext]
    · simp only [take_succ, hnext]

theorem length_take_of_limit {n : Nat} {s : Scan} (h : (s.take n).2.1 = .limit) :
    (s.take n).1.length = n := by
  induction n generalizing s with
  | zero => rfl
  | succ n ih =>
    rcases hnext : s.next with ⟨token | _ | x, s'⟩
    · simp only [take_succ, hnext, List.length_cons] at h ⊢
      rw [ih h]
    · simp [take_succ, hnext] at h
    · simp [take_succ, hnext] at h

theorem next_of_done {s : Scan} (h : s.done = true) : s.next = (.miss, s) := by
  simp [next_eq, h]

/-- The scan comes to its end where the search finds no more tokens. -/
theorem next_of_missed {s : Scan} {e : Engine} (hs : s.done = false)
    (h : s.engine.seek s.openTags s.engine.cursor = (.miss, e)) :
    s.next = (.miss, ⟨e, s.openTags, true⟩) := by
  simp [next_eq, hs, h]

theorem next_of_failed {s : Scan} {e : Engine} {x : ParseError} (hs : s.done = false)
    (h : s.engine.seek s.openTags s.engine.cursor = (.error x, e)) :
    s.next = (.error x, ⟨e, s.openTags, true⟩) := by
  simp [next_eq, hs, h]

end Scan

theorem Repeats.length_le {α : Type} {P : Cursor → α → Cursor → Prop} {c d : Cursor}
    {values : List α}
    (hP : ∀ a value b, P a value b → a.Reaches b ∧ a.position < b.position)
    (h : Repeats P c values d) : values.length ≤ c.rest.length := by
  induction h with
  | nil => simp
  | cons first _ ih =>
    obtain ⟨hreach, hlt⟩ := hP _ _ _ first
    have := hreach.length_rest_lt hlt
    simp only [List.length_cons]
    omega

theorem Token.Follows.advances {c d : Cursor} {token : Token} (h : token.Follows c d) :
    c.Reaches d ∧ c.position < d.position := by
  obtain ⟨place, hplace, -, -, hstands, hreach⟩ := h
  exact ⟨hplace.trans hreach, Nat.lt_of_le_of_lt hplace.position_le hstands.lt⟩

namespace Scan

theorem yields_drain (source : Text) :
    (Scan.start source).Yields source (Scan.start source).drain :=
  yields_take _ (Engine.between_start source) rfl

theorem length_drain_le (source : Text) : (Scan.start source).drain.1.length ≤ source.length := by
  obtain ⟨d, htokens⟩ := (yields_drain source).tokens
  have hle := htokens.length_le fun _ _ _ h => h.advances
  have hrest : (Scan.start source).engine.cursor.rest = source := Cursor.rest_start source
  rwa [hrest] at hle

/-- A whole scan is never stopped by its bound. -/
theorem drain_stop_ne_limit (source : Text) : (Scan.start source).drain.2.1 ≠ .limit := by
  intro hlimit
  have hlength : (Scan.start source).drain.1.length = source.length + 1 :=
    length_take_of_limit hlimit
  have hle := length_drain_le source
  omega

theorem drain_stopped (source : Text) :
    (Scan.start source).drain.2.1 = .finished ∨
      ∃ x, (Scan.start source).drain.2.1 = .failed x := by
  cases hstop : (Scan.start source).drain.2.1 with
  | limit => exact absurd hstop (drain_stop_ne_limit source)
  | finished => exact .inl rfl
  | failed x => exact .inr ⟨x, rfl⟩

end Scan

section Tokens

variable {Q : Token → Prop} (hQ : ∀ c, Reads c Grammar.token fun token _ => Q token)
include hQ

/-- A token that the search finds is what the rule for tokens reads at some place. -/
theorem seek_hit (openTags : Nat) {c : Cursor} {e : Engine} (ho : e.outer = []) (token : Token)
    (h : (e.seek openTags c).1 = .hit token) : Q token := by
  induction hlen : c.rest.length using Nat.strongRecOn generalizing c e with
  | _ len ih =>
    by_cases hend : c.skipIgnorable.atEnd
    · rw [Engine.seek_of_atEnd hend] at h
      cases h
    · have hkept := Grammar.structured_token.keeps (e.rewind c.skipIgnorable)
      have hreads := hQ c.skipIgnorable (e.rewind c.skipIgnorable) rfl rfl
      rw [Engine.seek_of_code ho hend] at h
      rcases hrun : Grammar.token.result (e.rewind c.skipIgnorable) with ⟨found | _ | x, e'⟩ <;>
        rw [hrun] at h hkept hreads
      · cases h
        exact hreads.2 token rfl
      · have hless := Cursor.length_rest_skip_lt (openTags == 0) c hend
        exact ih _ (hlen ▸ hless) (hkept.outer.trans ho) h rfl
      · cases h

/-- What holds of all that the rule for tokens reads holds of all tokens. -/
theorem Scan.forall_mem_take (n : Nat) {s : Scan} (hs : s.engine.Between source)
    (hd : s.done = false) : ∀ token ∈ (s.take n).1, Q token := by
  induction n generalizing s with
  | zero => simp
  | succ n ih =>
    have hsought := sought_seek s.openTags hs hs.isPlace
    have hhit := seek_hit hQ s.openTags (c := s.engine.cursor) hs.outer_eq
    simp only [take_succ, next_eq, hd, Bool.false_eq_true, ↓reduceIte]
    rcases hrun : s.engine.seek s.openTags s.engine.cursor with ⟨token | _ | x, e'⟩ <;>
      rw [hrun] at hsought hhit
    · cases hsought with
      | found between _ =>
        have hrest := ih (s := ⟨e', token.openTags s.openTags, false⟩) between rfl
        exact List.forall_mem_cons.2 ⟨hhit token rfl, hrest⟩
    · exact List.forall_mem_nil _
    · exact List.forall_mem_nil _

theorem Scan.forall_mem_drain (source : Text) : ∀ token ∈ (Scan.start source).drain.1, Q token :=
  forall_mem_take hQ _ (Engine.between_start source) rfl

end Tokens

end NodeMarkup
