import NodeMarkup.Proofs.Draft.Splice
import NodeMarkup.Proofs.Source.Shift
import NodeMarkup.Source.Checked
/-!
At the places of a source every check is passed: texts are cut between scalar values, cursors move
from one to the next, and ranges run forward.
-/
namespace NodeMarkup

namespace Text

theorem boundary?_byteLength (s t : Text) : boundary? (byteLength s) (s ++ t) = some s.length := by
  induction s with
  | nil => simp [boundary?]
  | cons c s ih =>
    have hc := c.utf8Size_pos
    have hlength : byteLength (c :: s) = (c.utf8Size - 1 + byteLength s) + 1 := by
      rw [byteLength_cons]
      omega
    have hrest : c.utf8Size - 1 + byteLength s + 1 - c.utf8Size = byteLength s := by omega
    rw [hlength, List.cons_append, boundary?, if_pos (by omega), hrest, ih]
    rfl

theorem eq_of_boundary? {n k : Nat} {t : Text} (h : boundary? n t = some k) :
    n = byteLength (t.take k) ∧ k ≤ t.length := by
  induction t generalizing n k with
  | nil =>
    cases n with
    | zero => simp_all [boundary?]
    | succ n => simp [boundary?] at h
  | cons c t ih =>
    cases n with
    | zero =>
      obtain rfl : 0 = k := by simpa [boundary?] using h
      simp
    | succ n =>
      rw [boundary?] at h
      split at h
      · obtain ⟨m, hm, rfl⟩ := Option.map_eq_some_iff.1 h
        obtain ⟨hn, hle⟩ := ih hm
        rw [List.take_succ_cons, byteLength_cons, List.length_cons]
        omega
      · cases h

theorem byteLength_take_lt {i j : Nat} {t : Text} (h : j < i) (hi : i ≤ t.length) :
    byteLength (t.take j) < byteLength (t.take i) := by
  have hparts : t.take i = t.take j ++ (t.take i).drop j := by
    rw [← Nat.min_eq_left (Nat.le_of_lt h), ← List.take_take, Nat.min_eq_left (Nat.le_of_lt h),
      List.take_append_drop]
  have hpos : 0 < byteLength ((t.take i).drop j) := by
    apply Nat.lt_of_lt_of_le _ (length_le_byteLength _)
    rw [List.length_drop, List.length_take]
    omega
  rw [hparts, byteLength_append]
  omega

/-- A slice exists exactly where the text parts at its two ends. -/
theorem slice?_eq_some_iff {start stop : Nat} {t part : Text} :
    slice? start stop t = some part ↔
      ∃ before after, t = before ++ part ++ after ∧ start = byteLength before ∧
        stop = byteLength (before ++ part) := by
  constructor
  · intro h
    unfold slice? at h
    split at h
    · next hle =>
      obtain ⟨i, hi, h⟩ := Option.bind_eq_some_iff.1 h
      obtain ⟨j, hj, h⟩ := Option.bind_eq_some_iff.1 h
      obtain rfl : (t.take j).drop i = part := Option.some.inj h
      obtain ⟨hstart, hi⟩ := eq_of_boundary? hi
      obtain ⟨hstop, hj⟩ := eq_of_boundary? hj
      -- the bytes before a boundary grow with it, so the boundaries stand in the order of the bytes
      have hij : i ≤ j := by
        apply Nat.le_of_not_lt
        intro hlt
        have := byteLength_take_lt hlt hi
        omega
      have hparts : t.take i ++ (t.take j).drop i = t.take j := by
        rw [← Nat.min_eq_left hij, ← List.take_take, Nat.min_eq_left hij, List.take_append_drop]
      refine ⟨t.take i, t.drop j, ?_, hstart, ?_⟩
      · rw [hparts, List.take_append_drop]
      · rw [hparts, hstop]
    · cases h
  · intro h
    obtain ⟨before, after, rfl, rfl, rfl⟩ := h
    have hstart : boundary? (byteLength before) (before ++ part ++ after) = some before.length := by
      rw [List.append_assoc]
      exact boundary?_byteLength before _
    have hstop := boundary?_byteLength (before ++ part) after
    have hle : byteLength before ≤ byteLength (before ++ part) := by
      rw [byteLength_append]
      omega
    unfold slice?
    rw [if_pos hle, hstart, hstop]
    simp only [Option.bind_eq_bind, Option.bind_some, Option.pure_def, List.take_left,
      List.drop_left]

example : slice? 1 2 "hé".toList = none ∧ slice? 1 3 "hé".toList = some "é".toList := by decide

theorem slice?_take (n : Nat) (t : Text) :
    slice? 0 (byteLength (t.take n)) t = some (t.take n) :=
  slice?_eq_some_iff.2 ⟨[], t.drop n, (List.take_append_drop n t).symm, rfl, rfl⟩

theorem slice?_right (s t : Text) :
    slice? (byteLength s) (byteLength (s ++ t)) (s ++ t) = some t :=
  slice?_eq_some_iff.2 ⟨s, [], (List.append_nil _).symm, rfl, rfl⟩

theorem inner?_append {n : Nat} {s : Text} (hs : byteLength s = n) (t u : Text)
    (hu : byteLength u = n) : inner? n (s ++ t ++ u) = some t := by
  have hlength : byteLength (s ++ t ++ u) = byteLength (s ++ t) + n := by
    rw [byteLength_append, hu]
  unfold inner?
  rw [if_pos (by omega)]
  exact slice?_eq_some_iff.2 ⟨s, u, rfl, hs.symm, by omega⟩

end Text

namespace Range

theorem between?_of_reaches {c d : Cursor} (h : c.Reaches d) : between? c d = some ⟨c, d⟩ :=
  if_pos h.position_le

end Range

namespace Cursor

variable {source : Text} {c : Cursor}

theorem IsPlace.source_eq (h : IsPlace source c) : c.source = source := by
  obtain ⟨n, rfl⟩ := h
  rw [source_advanceBy]
  exact source_settle _

theorem IsPlace.lineStart_eq {above : Text} (h : IsPlace source c)
    (hsource : source = above ++ c.lineText) : c.lineStart = Text.byteLength above := by
  unfold lineStart
  rw [h.source_eq, hsource, Text.byteLength_append]
  omega

theorem IsPlace.rest? (h : IsPlace source c) : c.rest? = some c.rest := by
  obtain ⟨before, hsource, hposition⟩ := h.split
  unfold Cursor.rest?
  rw [h.source_eq, hposition, hsource]
  exact Text.slice?_right before c.rest

theorem IsPlace.advance? (h : IsPlace source c) : c.advance? = some c.advance := by
  have hmoved := (h.of_reaches (reaches_advance c)).rest?
  unfold Cursor.advance?
  rw [h.rest?, Option.bind_eq_bind, Option.bind_some]
  dsimp only
  rw [hmoved]
  rfl

theorem IsPlace.advanceBy? (h : IsPlace source c) (n : Nat) :
    c.advanceBy? n = some (c.advanceBy n) := by
  induction n generalizing c with
  | zero => rfl
  | succ n ih =>
    rw [Cursor.advanceBy?, h.advance?, Option.bind_eq_bind, Option.bind_some,
      ih (h.of_reaches (reaches_advance c)), advanceBy_succ]

theorem IsPlace.skipIgnorable (hc : IsPlace source c) :
    IsPlace source c.skipIgnorable :=
  hc.of_reaches (reaches_skipIgnorable c)

theorem IsPlace.skipIgnorable? (h : IsPlace source c) :
    c.skipIgnorable? = some c.skipIgnorable := by
  unfold Cursor.skipIgnorable?
  rw [h.rest?, Option.bind_eq_bind, Option.bind_some, h.advanceBy?]
  rfl

theorem IsPlace.text? (h : IsPlace source c) {d : Cursor} (hd : c.Reaches d) :
    Range.text? ⟨c, d⟩ = some (Range.text ⟨c, d⟩) := by
  obtain ⟨before, hsource, hposition⟩ := h.split
  obtain ⟨hrest, hstop⟩ := hd.rest_eq_text
  apply Text.slice?_eq_some_iff.2
  refine ⟨before, d.rest, ?_, hposition, ?_⟩
  · change c.source = _
    rw [h.source_eq, List.append_assoc, ← hrest, hsource]
  · change d.position = _
    rw [hstop, hposition, Text.byteLength_append]

theorem IsPlace.text_advanceBy? (h : IsPlace source c) (n : Nat) :
    Range.text? ⟨c, c.advanceBy n⟩ = some (c.rest.take n) := by
  rw [h.text? (reaches_advanceBy n c), text_advanceBy]

/-- Whether a place is at the end of its source can be told from its position. -/
theorem IsPlace.atEnd_iff (h : IsPlace source c) :
    c.atEnd ↔ Text.byteLength c.source ≤ c.position := by
  obtain ⟨before, hsource, hposition⟩ := h.split
  rw [h.source_eq, hposition, hsource, Text.byteLength_append]
  constructor
  · intro hend
    have hrest : c.rest = [] := by simpa [atEnd] using hend
    rw [hrest, Text.byteLength_nil]
    omega
  · intro hle
    have hrest : c.rest = [] := Text.byteLength_eq_zero (by omega)
    simp [atEnd, hrest]

theorem byteLength_of_blank {t : Text} (h : ∀ next ∈ t, next = ' ' ∨ next = '\t') :
    Text.byteLength t = t.length := by
  induction t with
  | nil => rfl
  | cons next t ih =>
    obtain ⟨hnext, ht⟩ := List.forall_mem_cons.1 h
    have hsize : next.utf8Size = 1 := by
      rcases hnext with rfl | rfl <;> rfl
    rw [Text.byteLength_cons, List.length_cons, ih ht, hsize, Nat.add_comm]

theorem IsPlace.indentation? (h : IsPlace source c) : c.indentation? = some c.indentation := by
  obtain ⟨⟨before, hline⟩, hwithin⟩ := h.lineText_suffix
  -- blanks are single bytes, so the indentation ends at a scalar value of the line
  have hblank := byteLength_of_blank h.blank_indentation
  have hlength : c.indentation.length = c.indent := by
    rw [indentation, List.length_take]
    omega
  have hparts : c.indentation ++ c.lineText.drop c.indent = c.lineText := List.take_append_drop _ _
  have hstart : c.lineStart = Text.byteLength before := h.lineStart_eq hline.symm
  apply Text.slice?_eq_some_iff.2
  refine ⟨before, c.lineText.drop c.indent, ?_, hstart, ?_⟩
  · rw [List.append_assoc, hparts, hline, h.source_eq]
  · rw [Text.byteLength_append, hstart]
    omega

end Cursor

end NodeMarkup
