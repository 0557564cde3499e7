import NodeMarkup.Proofs.Grammar.Shift
import NodeMarkup.Proofs.Token.Scan
/-!
Scans behind other lines. A scan that goes on behind some lines as another scan does without them
yields the tokens of that scan, shifted by those lines, and stops as it does.
-/
namespace NodeMarkup

open RuleT

variable {front : Text}

namespace Engine

/-- The second engine stands where the first one does, with `front` before it, and neither has a
frame open. -/
structure Behind (front : Text) (e e' : Engine) : Prop where
  source : e'.source = front ++ e.source
  outer : e.outer = []
  outer' : e'.outer = []
  cursor : e'.cursor = e.cursor.shift front
  room : e.cursor.rest.length ≤ e.source.length

variable {e e' : Engine} {c : Cursor} {openTags : Nat}

theorem Behind.engines (h : e.Behind front e') (hc : c.rest.length ≤ e.source.length) :
    (Pairing.shift front).Engines (e.rewind c) (e'.rewind (c.shift front)) := by
  refine ⟨.fresh rfl false, hc, ?_⟩
  change c.rest.length ≤ e'.source.length
  rw [h.source, List.length_append]
  omega

theorem Behind.of_kept {x x' : Engine} (h : e.Behind front e') (hk : e.Kept x) (hk' : e'.Kept x')
    (hc : x'.cursor = x.cursor.shift front) : x.Behind front x' := by
  have hroom := h.room
  have hle := hk.reaches.length_rest_le
  refine ⟨?_, hk.outer.trans h.outer, hk'.outer.trans h.outer', hc, ?_⟩
  · rw [hk.source, hk'.source, h.source]
  · rw [hk.source]
    omega

theorem Behind.rewind (h : e.Behind front e') (hc : c.rest.length ≤ e.source.length) :
    (e.rewind c).Behind front (e'.rewind (c.shift front)) :=
  ⟨h.source, h.outer, h.outer', rfl, hc⟩

/-- What the search for the next token comes to behind `front` and without it. -/
structure SeekBehind (front : Text) (x y : Outcome Token × Engine) : Prop where
  outcome : (Pairing.shift front).Outcomes (fun t u => u = t.shift front) x.1 y.1
  engine : x.2.Behind front y.2

theorem seek_behind (openTags : Nat) (h : e.Behind front e')
    (hc : c.rest.length ≤ e.source.length) :
    SeekBehind front (e.seek openTags c) (e'.seek openTags (c.shift front)) := by
  induction hlength : c.rest.length using Nat.strongRecOn generalizing c e e' with
  | _ length ih =>
    have hskip : (c.shift front).skipIgnorable = c.skipIgnorable.shift front :=
      c.skipIgnorable_shift front
    have hle := (Cursor.reaches_skipIgnorable c).length_rest_le
    have hplace := h.rewind (c := c.skipIgnorable) (by omega)
    by_cases hend : c.skipIgnorable.atEnd
    · rw [seek_of_atEnd hend, seek_of_atEnd (by rw [hskip]; exact hend), hskip]
      exact ⟨.miss, hplace⟩
    · rw [seek_of_code h.outer hend, seek_of_code h.outer' (by rw [hskip]; exact hend), hskip]
      have hrun := Grammar.shifts_token _ _ (h.engines (c := c.skipIgnorable) (by omega))
      generalize Grammar.token.result (e.rewind c.skipIgnorable) = x at hrun
      generalize Grammar.token.result (e'.rewind (c.skipIgnorable.shift front)) = y at hrun
      obtain ⟨o, x⟩ := x
      obtain ⟨o', y⟩ := y
      obtain ⟨ho, hkept, hkept', hframe⟩ := hrun
      have hbehind := hplace.of_kept hkept hkept' hframe.cursor
      cases ho with
      | hit related => exact ⟨.hit related, hbehind⟩
      | error fault place => exact ⟨.error fault place, hbehind⟩
      | miss =>
        have hless := Cursor.length_rest_skip_lt (openTags == 0) c hend
        have hstep : (c.skipIgnorable.shift front).skipUnrecognised (openTags == 0) =
            (c.skipIgnorable.skipUnrecognised (openTags == 0)).shift front :=
          Cursor.advanceBy_shift _ _ _
        have hsource : x.source = e.source := hkept.source
        dsimp only
        rw [hstep]
        exact ih _ (hlength ▸ hless) hbehind (by rw [hsource]; omega) rfl

/-- The search begins the innermost frame again, so it does not depend on that frame. -/
theorem seek_congr (hs : e'.source = e.source) (ho : e'.outer = e.outer) (openTags : Nat)
    (c : Cursor) : e'.seek openTags c = e.seek openTags c := by
  have hrewind : e'.rewind c.skipIgnorable = e.rewind c.skipIgnorable := by
    unfold rewind
    rw [hs, ho, Frame.reset_eq, Frame.reset_eq]
  unfold seek
  rw [seekM, seekM, hrewind]

/-- The search begins at the next code, so it does not depend on the text before that. -/
theorem seek_eq_of_skipIgnorable {d : Cursor} (h : c.skipIgnorable = d.skipIgnorable)
    (openTags : Nat) (e : Engine) : e.seek openTags c = e.seek openTags d := by
  unfold seek
  rw [seekM, seekM, unchecked_then, unchecked_then, unchecked_then, unchecked_then, h]

end Engine

/-- How the same scan stops with `front` before its source. -/
def ScanEnd.shift (front : Text) : ScanEnd → ScanEnd
  | limit => limit
  | finished => finished
  | failed x => failed (x.shift front)

theorem Token.openTags_shift (front : Text) (token : Token) (openTags : Nat) :
    (token.shift front).openTags openTags = token.openTags openTags := by
  cases token <;> rfl

namespace Scan

/-- The second scan has come as far as the first one, with `front` before it. -/
structure Behind (front : Text) (s s' : Scan) : Prop where
  engine : s.engine.Behind front s'.engine
  openTags : s'.openTags = s.openTags
  done : s.done = false
  done' : s'.done = false

theorem take_behind (n : Nat) {s s' : Scan} (h : s.Behind front s') :
    (s'.take n).1 = (s.take n).1.map (Token.shift front) ∧
      (s'.take n).2.1 = (s.take n).2.1.shift front := by
  induction n generalizing s s' with
  | zero => exact ⟨rfl, rfl⟩
  | succ n ih =>
    have hseek := Engine.seek_behind s.openTags h.engine h.engine.room
    rw [← h.engine.cursor] at hseek
    simp only [take_succ, next_eq, h.done, h.done', h.openTags, Bool.false_eq_true, ↓reduceIte]
    generalize s.engine.seek s.openTags s.engine.cursor = x at hseek
    generalize s'.engine.seek s.openTags s'.engine.cursor = y at hseek
    obtain ⟨o, x⟩ := x
    obtain ⟨o', y⟩ := y
    obtain ⟨ho, hengine⟩ := hseek
    cases ho with
    | @hit token _ related =>
      subst related
      have hscan : Scan.Behind front ⟨x, token.openTags s.openTags, false⟩
          ⟨y, (token.shift front).openTags s.openTags, false⟩ :=
        ⟨hengine, token.openTags_shift front s.openTags, rfl, rfl⟩
      obtain ⟨htokens, hstop⟩ := ih hscan
      exact ⟨congrArg (token.shift front :: ·) htokens, hstop⟩
    | miss => exact ⟨rfl, rfl⟩
    | @error fault c d place =>
      refine ⟨rfl, ?_⟩
      change ScanEnd.failed _ = .failed _
      rw [show d = c.shift front from place, ParseError.ofCursor_shift]

theorem next_congr {s s' : Scan} (hd : s.done = false) (hd' : s'.done = false)
    (ho : s'.openTags = s.openTags)
    (h : s.engine.seek s.openTags s.engine.cursor = s'.engine.seek s.openTags s'.engine.cursor) :
    s.next = s'.next := by
  simp only [next_eq, hd, hd', ho, h, Bool.false_eq_true, ↓reduceIte]

theorem take_eq_of_next {s s' : Scan} (h : s.next = s'.next) (n : Nat) :
    s.take (n + 1) = s'.take (n + 1) := by
  simp only [take_succ, h]

end Scan

/-- Looking for a token in `front ++ source` passes over `front` and goes on in the source. -/
def PassesOver (front source : Text) : Prop :=
  (Engine.start (front ++ source)).seek 0 (.start (front ++ source)) =
    (Engine.start (front ++ source)).seek 0 ((Cursor.start source).shift front)

/-- All tokens of a source with a front that is passed over are tokens of the source. -/
theorem Scan.drain_behind {source : Text} (h : PassesOver front source) :
    (Scan.start (front ++ source)).drain.1 = (Scan.start source).drain.1.map (Token.shift front) ∧
      (Scan.start (front ++ source)).drain.2.1 = (Scan.start source).drain.2.1.shift front := by
  let behind : Scan :=
    ⟨(Engine.start (front ++ source)).rewind ((Cursor.start source).shift front), 0, false⟩
  have hroom : (Cursor.start source).rest.length ≤ source.length := by simp
  have hbehind : (Scan.start source).Behind front behind :=
    ⟨⟨rfl, rfl, rfl, rfl, hroom⟩, rfl, rfl, rfl⟩
  have hseek : behind.engine.seek 0 behind.engine.cursor =
      (Engine.start (front ++ source)).seek 0 ((Cursor.start source).shift front) :=
    Engine.seek_congr (show behind.engine.source = (Engine.start _).source from rfl) rfl 0 _
  have hnext : (Scan.start (front ++ source)).next = behind.next :=
    next_congr rfl rfl rfl (h.trans hseek.symm)
  -- the bounds differ, but neither is reached
  have hbound : (Scan.start source).take ((front ++ source).length + 1) =
      (Scan.start source).drain :=
    take_eq_of_stopped (drain_stop_ne_limit source)
      (Nat.lt_of_le_of_lt (length_drain_le source) (by rw [List.length_append]; omega))
  have hdrain : (Scan.start (front ++ source)).drain =
      behind.take ((front ++ source).length + 1) :=
    take_eq_of_next hnext _
  rw [hdrain, ← hbound]
  exact take_behind _ hbehind

end NodeMarkup
