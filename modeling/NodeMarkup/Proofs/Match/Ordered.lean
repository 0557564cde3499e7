import Mathlib.Data.List.Chain
import NodeMarkup.Proofs.Match.Reading
/-!
Frames in order. The captures of a frame stand one behind the other, the range of the frame covers
them, and a frame goes on from where the frame around it has stopped. Each operation of the engine
keeps this order in all frames that are open, and none takes a frame back.
-/
namespace NodeMarkup

open RuleT

variable {α : Type} {f g : Frame} {e x : Engine}

/-- The ranges of the captures, oldest first. -/
def Frame.ranges (f : Frame) : List Range := f.captures.map Capture.range

/-- The captures of the frame stand in the order of the source. -/
structure Frame.Ordered (f : Frame) : Prop where
  apart : f.ranges.Pairwise Range.Precedes
  forward : ∀ r ∈ f.ranges, r.start.position ≤ r.stop.position
  -- None of them goes beyond the cursor.
  read : ∀ r ∈ f.ranges, r.stop.position ≤ f.cursor.position
  covered : ∀ r ∈ f.ranges,
    f.range.start.position ≤ r.start.position ∧ r.stop.position ≤ f.range.stop.position
  -- The range of a frame is itself a range that the frame has read, with captures or without.
  range : f.range.start.position ≤ f.range.stop.position ∧
    f.range.stop.position ≤ f.cursor.position

/-- The frame has gone on from where the other has stopped. -/
def Frame.Continues (inner around : Frame) : Prop :=
  around.cursor.position ≤ inner.cursor.position ∧
    around.cursor.position ≤ inner.range.start.position

/-- All open frames are in order, and each has gone on from the one around it. -/
structure Engine.Ordered (e : Engine) : Prop where
  frames : ∀ f ∈ e.frame :: e.outer, f.Ordered
  nested : (e.frame :: e.outer).IsChain Frame.Continues

namespace Frame

theorem ordered_fresh (c : Cursor) (failed : Bool) : (fresh c failed).Ordered := by
  constructor
  case range => exact ⟨Nat.le_refl _, Nat.le_refl _⟩
  all_goals simp [ranges, fresh]

/-- The order is one of the ranges, of the whole range and of the cursor alone. -/
theorem Ordered.congr (h : f.Ordered) (hranges : g.ranges = f.ranges) (hrange : g.range = f.range)
    (hcursor : g.cursor = f.cursor) : g.Ordered := by
  obtain ⟨hapart, hforward, hread, hcovered, hwhole⟩ := h
  rw [← hranges] at hapart hforward hread hcovered
  rw [← hcursor] at hread hwhole
  rw [← hrange] at hcovered hwhole
  exact ⟨hapart, hforward, hread, hcovered, hwhole⟩

/-- The second frame has one more range than the first, and has read the outer range with it. -/
structure Takes (f : Frame) (r outer : Range) (g : Frame) : Prop where
  ranges : g.ranges = f.ranges ++ [r]
  behind : f.cursor.position ≤ outer.start.position
  within : outer.start.position ≤ r.start.position ∧ r.start.position ≤ r.stop.position ∧
    r.stop.position ≤ outer.stop.position
  read : outer.stop.position ≤ g.cursor.position
  -- The whole range is the outer range, or covers it together with what it was.
  whole :
    (f.ranges = [] ∧ g.range.start.position = outer.start.position ∧
      g.range.stop.position = outer.stop.position) ∨
    (g.range.start.position = min f.range.start.position outer.start.position ∧
      g.range.stop.position = max f.range.stop.position outer.stop.position)

namespace Takes

variable {r outer : Range}

theorem ordered (h : f.Takes r outer g) (hf : f.Ordered) : g.Ordered := by
  have hwhole := hf.range
  have hbehind := h.behind
  have hwithin := h.within
  have hread := h.read
  constructor
  case apart =>
    rw [h.ranges]
    refine List.pairwise_append.2 ⟨hf.apart, List.pairwise_singleton _ _, fun s hs t ht => ?_⟩
    have hs := hf.read s hs
    rw [List.mem_singleton.1 ht]
    unfold Range.Precedes
    omega
  case forward =>
    rw [h.ranges]
    exact List.forall_mem_append.2 ⟨hf.forward, List.forall_mem_singleton.2 hwithin.2.1⟩
  case read =>
    rw [h.ranges]
    refine List.forall_mem_append.2 ⟨fun s hs => ?_, List.forall_mem_singleton.2 ?_⟩
    · have hs := hf.read s hs
      omega
    · omega
  case covered =>
    rw [h.ranges]
    refine List.forall_mem_append.2 ⟨fun s hs => ?_, List.forall_mem_singleton.2 ?_⟩
    · have hcovered := hf.covered s hs
      rcases h.whole with ⟨hnone, -⟩ | hcover
      · exact absurd hnone (List.ne_nil_of_mem hs)
      · omega
    · rcases h.whole with ⟨-, houter⟩ | hcover <;> omega
  case range => rcases h.whole with ⟨-, houter⟩ | hcover <;> omega

/-- The whole range does not reach back before both its old start and the cursor. -/
theorem continues {around : Frame} (h : f.Takes r outer g) (hf : f.Ordered)
    (hcontinues : f.Continues around) : g.Continues around := by
  have hwhole := hf.range
  have hbehind := h.behind
  have hwithin := h.within
  have hread := h.read
  unfold Continues at hcontinues ⊢
  rcases h.whole with ⟨-, houter⟩ | hcover <;> omega

end Takes

theorem ranges_push (f : Frame) (capture : Capture) :
    (f.push capture).ranges = f.ranges ++ [capture.range] := by
  simp [ranges, push]

theorem range_push (f : Frame) (capture : Capture) :
    (f.ranges = [] ∧ (f.push capture).range = capture.range) ∨
      (f.push capture).range = f.range.cover capture.range := by
  cases hcaptures : f.captures with
  | nil => exact .inl ⟨by simp [ranges, hcaptures], by simp [push, hcaptures]⟩
  | cons first rest => exact .inr (by simp [push, hcaptures])

theorem takes_push (capture : Capture) (hranges : g.ranges = f.ranges) (hrange : g.range = f.range)
    (hbehind : f.cursor.position ≤ capture.range.start.position)
    (hforward : capture.range.start.position ≤ capture.range.stop.position)
    (hread : capture.range.stop.position ≤ g.cursor.position) :
    f.Takes capture.range capture.range (g.push capture) := by
  constructor
  case ranges => rw [ranges_push, hranges]
  case behind => exact hbehind
  case within => exact ⟨Nat.le_refl _, hforward, Nat.le_refl _⟩
  case read => exact hread
  case whole =>
    rcases g.range_push capture with ⟨hnone, hpushed⟩ | hpushed
    · rw [hpushed]
      exact .inl ⟨hranges ▸ hnone, rfl, rfl⟩
    · rw [hpushed, hrange, Range.start_cover, Range.stop_cover]
      exact .inr ⟨rfl, rfl⟩

end Frame

namespace Engine

/-- A block is captured without its delimiters, but they are covered. -/
theorem takes_behindBlock (n : Nat) (e : Engine) :
    e.frame.Takes ⟨e.cursor.advance, e.cursor.advance.advanceBy n⟩
      ⟨e.cursor, (e.cursor.advance.advanceBy n).advance⟩ (e.behindBlock n) := by
  have hopening := (Cursor.reaches_advance e.cursor).position_le
  have hinner := (Cursor.reaches_advanceBy n e.cursor.advance).position_le
  have hclosing := (Cursor.reaches_advance (e.cursor.advance.advanceBy n)).position_le
  constructor
  case ranges => exact Frame.ranges_push _ _
  case behind => exact Nat.le_refl _
  case within => exact ⟨hopening, hinner, hclosing⟩
  case read => exact Nat.le_refl _
  case whole =>
    unfold behindBlock
    dsimp only
    rw [Range.start_cover, Range.stop_cover]
    rcases Frame.range_push { e.frame.settled with last := true }
      ⟨e.cursor.advance.rest.take n, ⟨e.cursor.advance, e.cursor.advance.advanceBy n⟩⟩
      with ⟨hnone, hpushed⟩ | hpushed
    · rw [hpushed]
      refine .inl ⟨hnone, ?_, ?_⟩ <;> dsimp only <;> omega
    · rw [hpushed, Range.start_cover, Range.stop_cover]
      refine .inr ⟨?_, ?_⟩ <;> dsimp only [Frame.settled] <;> omega

theorem ordered_start (source : Text) : (start source).Ordered :=
  ⟨List.forall_mem_singleton.2 (Frame.ordered_fresh _ _), .singleton _⟩

/-- A new frame goes on behind the ignorable text at the cursor. -/
theorem Ordered.openFrame (h : e.Ordered) : e.openFrame.Ordered := by
  have hskip := (Cursor.reaches_skipIgnorable e.cursor).position_le
  refine ⟨List.forall_mem_cons.2 ⟨Frame.ordered_fresh _ _, h.frames⟩, ?_⟩
  exact List.isChain_cons_cons.2 ⟨⟨hskip, hskip⟩, h.nested⟩

theorem Ordered.of_frame (h : e.Ordered) (houter : x.outer = e.outer) (hframe : x.frame.Ordered)
    (hcontinues : ∀ around, e.frame.Continues around → x.frame.Continues around) : x.Ordered := by
  obtain ⟨hframes, hnested⟩ := h
  rw [List.isChain_cons] at hnested
  obtain ⟨hfirst, hrest⟩ := hnested
  constructor
  · rw [houter]
    exact List.forall_mem_cons.2 ⟨hframe, (List.forall_mem_cons.1 hframes).2⟩
  · rw [houter, List.isChain_cons]
    exact ⟨fun around haround => hcontinues around (hfirst around haround), hrest⟩

/-- The second engine is the first with work done in its innermost frame, which keeps the order. -/
structure Continued (e x : Engine) : Prop where
  kept : e.Kept x
  ordered : e.Ordered → x.Ordered

namespace Continued

theorem of_same (houter : x.outer = e.outer) (hsource : x.source = e.source)
    (hranges : x.frame.ranges = e.frame.ranges) (hrange : x.frame.range = e.frame.range)
    (hcursor : x.frame.cursor = e.frame.cursor) : e.Continued x := by
  refine ⟨.of_cursor_eq hsource houter hcursor, fun h => ?_⟩
  have hframe := (List.forall_mem_cons.1 h.frames).1
  refine h.of_frame houter (hframe.congr hranges hrange hcursor) fun around haround => ?_
  unfold Frame.Continues at haround ⊢
  rwa [hcursor, hrange]

theorem refl (e : Engine) : e.Continued e := .of_same rfl rfl rfl rfl rfl

theorem trans {a b c : Engine} (hab : a.Continued b) (hbc : b.Continued c) : a.Continued c :=
  ⟨hab.kept.trans hbc.kept, fun h => hbc.ordered (hab.ordered h)⟩

theorem of_takes {r outer : Range} (hk : e.Kept x) (h : e.frame.Takes r outer x.frame) :
    e.Continued x := by
  refine ⟨hk, fun he => ?_⟩
  have hframe := (List.forall_mem_cons.1 he.frames).1
  exact he.of_frame hk.outer (h.ordered hframe) fun around => h.continues hframe

theorem missed (owed : Option Obligation) (h : e.Continued x) :
    e.Continued (x.missed owed : Outcome α × Engine).2 := by
  rw [missed_engine]
  exact h.trans (.of_same rfl rfl rfl rfl rfl)

end Continued

theorem continued_recognise (p : Pattern) (e : Engine) : e.Continued (e.recognise p).2 := by
  have hkept := kept_recognise p e
  cases hf : e.frame.failed with
  | true =>
    rw [recognise_of_failed hf]
    exact .refl e
  | false =>
    cases hp : p e.cursor.rest with
    | none =>
      rw [recognise_of_none hf hp]
      split
      · exact .of_same rfl rfl rfl rfl rfl
      · exact .missed _ (.of_same rfl rfl rfl rfl rfl)
    | some n =>
      rw [recognise_of_some hf hp] at hkept ⊢
      split
      · exact .missed _ (.of_same rfl rfl rfl rfl rfl)
      · next hnegate =>
        rw [if_neg hnegate] at hkept
        exact .of_takes hkept (Frame.takes_push _ rfl rfl (Nat.le_refl _)
          (Cursor.reaches_advanceBy n _).position_le (Nat.le_refl _))

theorem continued_delimited (opening closing : Char) (e : Engine) :
    e.Continued (e.delimited opening closing).2 := by
  have hkept := kept_delimited opening closing e
  cases hf : e.frame.failed with
  | true =>
    rw [delimited_of_failed hf]
    exact .refl e
  | false =>
    by_cases ho : e.cursor.current? = some opening
    · cases hn : Lexeme.blockLength opening closing .code 0 e.cursor.advance.rest with
      | none =>
        rw [delimited_of_unclosed hf ho hn]
        exact .of_same rfl rfl rfl rfl rfl
      | some n =>
        rw [delimited_of_block hf ho hn] at hkept ⊢
        exact .of_takes hkept (e.takes_behindBlock n)
    · rw [delimited_of_other hf ho]
      exact .missed _ (.of_same rfl rfl rfl rfl rfl)

theorem continued_negate (e : Engine) : e.Continued e.negate := by
  unfold negate
  split <;> exact .of_same rfl rfl rfl rfl rfl

theorem continued_require (fault : Fault) (e : Engine) : e.Continued (e.require fault) := by
  unfold require
  split <;> exact .of_same rfl rfl rfl rfl rfl

theorem continued_requireLast (fault : Fault) (e : Engine) :
    e.Continued (e.requireLast fault).2 := by
  unfold requireLast
  split <;> exact .refl e

/-- A replaced text stands in the range of the old one. -/
theorem continued_replaceLast (f : Text → Text) (e : Engine) :
    e.Continued (e.replaceLast f).2 := by
  unfold replaceLast
  split
  · exact .refl e
  · next capture hlast =>
    refine .of_same rfl rfl ?_ rfl rfl
    obtain ⟨before, hcaptures⟩ := List.getLast?_eq_some_iff.1 hlast
    simp [Frame.ranges, hcaptures]

/-- A frame that succeeds inside another gives it its range as one more. -/
theorem continued_merged {inner : Engine} (hi : e.openFrame.Continued inner) :
    e.Continued (e.merged inner.frame) := by
  have hreach := (Cursor.reaches_skipIgnorable e.cursor).trans hi.kept.reaches
  have hkept : e.Kept (e.merged inner.frame) := ⟨rfl, rfl, hreach⟩
  refine ⟨hkept, fun he => ?_⟩
  -- The range that is taken over begins where the frame around has stopped, or behind that.
  obtain ⟨hframes, hnested⟩ := hi.ordered he.openFrame
  rw [hi.kept.outer] at hnested
  obtain ⟨-, hbehind⟩ := (List.isChain_cons_cons.1 hnested).1
  have hrange := (List.forall_mem_cons.1 hframes).1.range
  have htakes : e.frame.Takes inner.frame.range inner.frame.range (e.merged inner.frame).frame :=
    Frame.takes_push inner.frame.joined rfl rfl hbehind hrange.1 hrange.2
  exact (Continued.of_takes hkept htakes).ordered he

end Engine

end NodeMarkup
