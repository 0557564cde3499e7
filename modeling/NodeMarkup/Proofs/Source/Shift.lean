import NodeMarkup.Proofs.Source.Line
import NodeMarkup.Source.Fault
/-!
Places behind other lines. A place of a source stands in a longer source, too, that has some lines
before it: further on in bytes and lines, but with the same text before it and the same column and
indentation. Every movement of a cursor is the same at both places.
-/
namespace NodeMarkup

namespace Cursor

/-- The same place in the source with `front` before it. -/
def shift (front : Text) (c : Cursor) : Cursor :=
  { c with
    source := front ++ c.source
    position := Text.byteLength front + c.position
    line := front.count '\n' + c.line }

variable (front : Text) (c : Cursor)

@[simp]
theorem rest_shift : (c.shift front).rest = c.rest := rfl

@[simp]
theorem position_shift :
    (c.shift front).position = Text.byteLength front + c.position := rfl

@[simp]
theorem line_shift : (c.shift front).line = front.count '\n' + c.line := rfl

@[simp]
theorem indentation_shift : (c.shift front).indentation = c.indentation := rfl

theorem settle_shift : (c.shift front).settle = c.settle.shift front := by
  unfold settle
  rw [rest_shift]
  cases c.rest with
  | nil => rfl
  | cons next rest =>
    dsimp only
    split
    · rfl
    · change (if c.indenting && _ then _ else _) = _
      split <;> rfl

theorem advance_shift : (c.shift front).advance = c.advance.shift front := by
  unfold advance
  rw [rest_shift]
  cases c.rest with
  | nil => rfl
  | cons next rest =>
    dsimp only
    split
    · rw [← settle_shift]
      simp only [shift, Nat.add_assoc]
    · rw [← settle_shift]
      simp only [shift, Nat.add_assoc]

theorem advanceBy_shift (n : Nat) : (c.shift front).advanceBy n = (c.advanceBy n).shift front := by
  induction n generalizing c with
  | zero => rfl
  | succ n ih => rw [advanceBy_succ, advanceBy_succ, advance_shift, ih]

theorem Reaches.shift {c d : Cursor} (h : c.Reaches d) (front : Text) :
    (c.shift front).Reaches (d.shift front) := by
  obtain ⟨n, rfl⟩ := h
  exact ⟨n, (advanceBy_shift front c n).symm⟩

theorem skipIgnorable_shift : (c.shift front).skipIgnorable = c.skipIgnorable.shift front :=
  advanceBy_shift front c _

variable {front : Text} {c : Cursor}

@[simp]
theorem source_settle (c : Cursor) : c.settle.source = c.source := by
  unfold settle
  split
  · rfl
  · split
    · rfl
    · split <;> rfl

theorem source_advance (c : Cursor) : c.advance.source = c.source := by
  unfold advance
  split
  · rfl
  · split <;> simp

theorem source_advanceBy (n : Nat) (c : Cursor) : (c.advanceBy n).source = c.source := by
  induction n generalizing c with
  | zero => rfl
  | succ n ih => rw [advanceBy_succ, ih, source_advance]

/-- Behind some lines a source begins as it does on its own. -/
theorem start_behind (line source : Text) :
    (start (line ++ ['\n'] ++ source)).advanceBy (line ++ ['\n']).length =
      (start source).shift (line ++ ['\n']) := by
  rw [List.append_assoc, List.singleton_append, List.length_append, ← advanceBy_advanceBy]
  have hplace := reaches_advanceBy line.length (start (line ++ '\n' :: source))
  have hrest : ((start (line ++ '\n' :: source)).advanceBy line.length).rest = '\n' :: source := by
    simp
  have hsource := source_advanceBy line.length (start (line ++ '\n' :: source))
  have hposition := position_advanceBy line.length (start (line ++ '\n' :: source))
  have hline := line_advanceBy line.length (start (line ++ '\n' :: source))
  generalize (start (line ++ '\n' :: source)).advanceBy line.length = c at *
  -- the line break before the source has begun a new indentation
  obtain ⟨hindent, hindenting⟩ := IsPlace.fresh_of_break hplace hrest
  unfold start at *
  rw [List.length_singleton, advanceBy_one, advance, hrest, ← settle_shift]
  simp only [rest_settle, position_settle, line_settle, source_settle, List.take_left,
    Nat.zero_add] at *
  simp [shift, hsource, hposition, hline, hindent, hindenting]

theorem skipIgnorable_of_break {t : Text} (h : c.rest = '\n' :: t) :
    c.skipIgnorable = c.advance.skipIgnorable := by
  have hlength : ignorableLength false ('\n' :: t) = ignorableLength false t + 1 := by
    simp [ignorableLength]
  unfold skipIgnorable
  rw [rest_advance, h, hlength, advanceBy_succ, List.tail_cons]

end Cursor

namespace Range

/-- The same range of the source with `front` before it. -/
def shift (front : Text) (r : Range) : Range := ⟨r.start.shift front, r.stop.shift front⟩

@[simp]
theorem start_shift (front : Text) (r : Range) : (r.shift front).start = r.start.shift front := rfl

@[simp]
theorem stop_shift (front : Text) (r : Range) : (r.shift front).stop = r.stop.shift front := rfl

theorem cover_shift (front : Text) (r s : Range) :
    (r.shift front).cover (s.shift front) = (r.cover s).shift front := by
  unfold cover
  simp only [start_shift, stop_shift, Cursor.position_shift, Nat.add_lt_add_iff_left, gt_iff_lt]
  unfold shift
  dsimp only
  split <;> split <;> rfl

end Range

/-- The same error in the source with `front` before it. -/
def ParseError.shift (front : Text) (x : ParseError) : ParseError :=
  { x with line := front.count '\n' + x.line }

theorem ParseError.ofCursor_shift (front : Text) (fault : Fault) (c : Cursor) :
    ofCursor fault (c.shift front) = (ofCursor fault c).shift front := by
  simp only [ofCursor, shift, Cursor.line_shift, Nat.add_assoc]
  rfl

end NodeMarkup
