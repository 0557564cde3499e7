import NodeMarkup.Proofs.Grammar.Guarded
import NodeMarkup.Proofs.Token.Scan
/-!
Scans with every check made, among the frames that earlier scans have left behind: the cuts of the
source, and the depth of the engine behind each attempt at a token. Such a scan fails no check and
yields what the scan yields, from whatever engine over the source it is started.
-/
namespace NodeMarkup

open RuleT KeepingT

variable {source : Text} {c : Cursor}

theorem Cursor.IsPlace.skipUnrecognised? (hc : Cursor.IsPlace source c) (inCode : Bool) :
    c.skipUnrecognised? inCode = some (c.skipUnrecognised inCode) := by
  unfold Cursor.skipUnrecognised?
  rw [hc.rest?, Option.bind_eq_bind, Option.bind_some, hc.advanceBy?]
  rfl

/-- Behind each token the engine is back at its outermost frame. -/
theorem Scan.between_next {s : Scan} (hs : s.engine.Between source) :
    s.next.2.engine.Between source := by
  have hsought := sought_seek s.openTags hs hs.isPlace
  rw [Scan.next_eq]
  cases s.done with
  | true => exact hs
  | false =>
    rw [if_neg (by simp)]
    generalize s.engine.seek s.openTags s.engine.cursor = result at hsought ⊢
    cases hsought with
    | found between _ => exact between
    | finished between _ => exact between
    | failed between => exact between

namespace Guarded

/-- Whatever frames are open, and whatever is in them, an engine starts again like a new one. -/
theorem passes_again (e : Engine) : (Scan.againM e : Guarded Scan).Passes (.start e.source) :=
  fun _ => ⟨_, rfl⟩

/-- A search fails no check. -/
theorem passes_seek (openTags : Nat) {e : Engine} (he : e.Between source)
    (hc : Cursor.IsPlace source c) :
    (e.seekM openTags c : Guarded (Outcome Token × Engine)).Passes (e.seek openTags c) := by
  -- each turn without a token leaves less to read
  induction hlen : c.rest.length using Nat.strongRecOn generalizing c e with
  | _ len ih =>
    have hplace := hc.skipIgnorable
    have htoken := Grammar.agrees_token hplace (e.rewind c.skipIgnorable) he.source_eq rfl rfl
    have hbetween := (he.rewind hplace).kept
      (Grammar.structured_token.keeps (e.rewind c.skipIgnorable))
    have hdecides : (some (Text.byteLength c.skipIgnorable.source ≤ c.skipIgnorable.position : Bool)) =
        some c.skipIgnorable.atEnd := by
      rw [Option.some.injEq, ← Bool.coe_iff_coe, decide_eq_true_iff, hplace.atEnd_iff]
    rw [Engine.seekM]
    apply Passes.check hc.skipIgnorable?
    apply Passes.check hdecides
    by_cases hend : c.skipIgnorable.atEnd
    · rw [dif_pos hend, Engine.seek_of_atEnd hend]
      exact .pure _
    · rw [dif_neg hend, Engine.seek_of_code he.outer_eq hend]
      apply Passes.bind htoken
      -- behind the attempt the engine is back at its outermost frame, however the attempt ended
      generalize Grammar.token.result (e.rewind c.skipIgnorable) = run at hbetween ⊢
      obtain ⟨result, e'⟩ := run
      have hdepth : e'.depth = 0 := by
        change e'.outer.length = 0
        rw [hbetween.outer_eq]
        rfl
      apply Passes.ensure hdepth
      cases result with
      | error x => exact .pure _
      | hit token =>
        dsimp only
        rw [if_neg (by omega)]
        exact .pure _
      | miss =>
        dsimp only
        rw [if_neg (by omega)]
        have hless := Cursor.length_rest_skip_lt (openTags == 0) c hend
        have hnext := hplace.of_reaches (Cursor.skipUnrecognised_reaches (openTags == 0) _)
        apply Passes.check (hplace.skipUnrecognised? _)
        exact ih _ (hlen ▸ hless) hbetween hnext rfl

theorem passes_next {s : Scan} (hs : s.engine.Between source) :
    (s.nextM : Guarded (Outcome Token × Scan)).Passes s.next := by
  have hseek := passes_seek s.openTags hs hs.isPlace
  rw [Scan.nextM, Scan.next_eq]
  cases s.done with
  | true => exact .pure _
  | false =>
    rw [if_neg (by simp), if_neg (by simp)]
    apply hseek.bind
    rcases s.engine.seek s.openTags s.engine.cursor with ⟨token | _ | x, e'⟩ <;> exact .pure _

theorem passes_take (n : Nat) {s : Scan} (hs : s.engine.Between source) :
    (s.takeM n : Guarded (List Token × ScanEnd × Scan)).Passes (s.take n) := by
  induction n generalizing s with
  | zero => exact .pure _
  | succ n ih =>
    have hnext := passes_next hs
    have hbetween := Scan.between_next hs
    rw [Scan.takeM, Scan.take_succ]
    apply hnext.bind
    generalize s.next = result at hbetween ⊢
    rcases result with ⟨token | _ | x, s'⟩
    · exact (ih hbetween).bind (.pure _)
    · exact .pure _
    · exact .pure _

theorem passes_drain {s : Scan} (hs : s.engine.Between source) :
    (s.drainM : Guarded (List Token × ScanEnd × Scan)).Passes s.drain :=
  passes_take _ hs

end Guarded

end NodeMarkup
