import NodeMarkup.Source.Cursor
/-!
Places of a source. A cursor that only moves forward is fixed by how far it has gone, so the places
of a source stand in one line, and the byte positions of two places tell which comes first.
-/
namespace NodeMarkup

theorem Text.byteLength_eq_zero {t : Text} (h : Text.byteLength t = 0) : t = [] := by
  cases t with
  | nil => rfl
  | cons c t =>
    have hc := c.utf8Size_pos
    simp only [Text.byteLength_cons] at h
    omega

theorem Text.length_le_byteLength (t : Text) : t.length ≤ Text.byteLength t := by
  induction t with
  | nil => simp
  | cons c t ih =>
    have hc := c.utf8Size_pos
    simp only [List.length_cons, Text.byteLength_cons]
    omega

namespace Cursor

@[simp]
theorem position_settle (c : Cursor) : c.settle.position = c.position := by
  unfold settle
  split
  · rfl
  · split
    · rfl
    · split <;> rfl

@[simp]
theorem position_start (source : Text) : (start source).position = 0 := position_settle _

theorem advance_of_rest_nil {c : Cursor} (h : c.rest = []) : c.advance = c := by
  unfold advance
  split
  · rfl
  · next hc => simp [h] at hc

theorem position_advance (c : Cursor) :
    c.advance.position = c.position + Text.byteLength (c.rest.take 1) := by
  unfold advance
  split
  · next h => simp [h]
  · next next rest h => split <;> simp [h]

theorem advanceBy_succ (n : Nat) (c : Cursor) : c.advanceBy (n + 1) = c.advance.advanceBy n := by
  by_cases h : c.atEnd
  · have hr : c.rest = [] := by simpa [atEnd] using h
    rw [advance_of_rest_nil hr]
    -- at the end of the source neither side moves
    cases n <;> simp [advanceBy, h]
  · rw [advanceBy, if_neg h]

theorem advanceBy_zero (c : Cursor) : c.advanceBy 0 = c := rfl

theorem advanceBy_one (c : Cursor) : c.advanceBy 1 = c.advance := advanceBy_succ 0 c

theorem advanceBy_advanceBy (m n : Nat) (c : Cursor) :
    (c.advanceBy m).advanceBy n = c.advanceBy (m + n) := by
  induction m generalizing c with
  | zero => rw [advanceBy_zero, Nat.zero_add]
  | succ m ih => rw [advanceBy_succ, ih, Nat.succ_add, advanceBy_succ]

theorem position_advanceBy (n : Nat) (c : Cursor) :
    (c.advanceBy n).position = c.position + Text.byteLength (c.rest.take n) := by
  induction n generalizing c with
  | zero => simp [advanceBy_zero]
  | succ n ih =>
    rw [advanceBy_succ, ih, position_advance, rest_advance]
    cases c.rest <;> simp [Nat.add_assoc]

theorem advanceBy_of_rest_nil {c : Cursor} (n : Nat) (h : c.rest = []) : c.advanceBy n = c := by
  induction n with
  | zero => rfl
  | succ n ih => rw [advanceBy_succ, advance_of_rest_nil h, ih]

theorem advanceBy_length_take (n : Nat) (c : Cursor) :
    c.advanceBy (c.rest.take n).length = c.advanceBy n := by
  induction n generalizing c with
  | zero => rfl
  | succ n ih =>
    cases hr : c.rest with
    | nil => rw [advanceBy_of_rest_nil _ hr, advanceBy_of_rest_nil _ hr]
    | cons a rest =>
      have htail : c.advance.rest = rest := by rw [rest_advance, hr, List.tail_cons]
      rw [List.take_succ_cons, List.length_cons, advanceBy_succ, advanceBy_succ, ← ih, htail]

/-- The second cursor is the first one or lies behind it. -/
def Reaches (c d : Cursor) : Prop := ∃ n, d = c.advanceBy n

theorem Reaches.refl (c : Cursor) : c.Reaches c := ⟨0, rfl⟩

theorem Reaches.trans {a b c : Cursor} (hab : a.Reaches b) (hbc : b.Reaches c) : a.Reaches c := by
  obtain ⟨m, rfl⟩ := hab
  obtain ⟨n, rfl⟩ := hbc
  exact ⟨m + n, advanceBy_advanceBy m n a⟩

theorem reaches_advanceBy (n : Nat) (c : Cursor) : c.Reaches (c.advanceBy n) := ⟨n, rfl⟩

theorem reaches_advance (c : Cursor) : c.Reaches c.advance := ⟨1, (advanceBy_one c).symm⟩

theorem reaches_skipIgnorable (c : Cursor) : c.Reaches c.skipIgnorable := reaches_advanceBy _ c

namespace Reaches

variable {c d : Cursor}

theorem position_le (h : c.Reaches d) : c.position ≤ d.position := by
  obtain ⟨n, rfl⟩ := h
  rw [position_advanceBy]
  omega

theorem length_rest_le (h : c.Reaches d) : d.rest.length ≤ c.rest.length := by
  obtain ⟨n, rfl⟩ := h
  simp

/-- What lies between two places is the text that the first has still to read and the second has
not. -/
theorem rest_eq (h : c.Reaches d) :
    ∃ between, c.rest = between ++ d.rest ∧ d.position = c.position + Text.byteLength between := by
  obtain ⟨n, rfl⟩ := h
  exact ⟨c.rest.take n, by simp, position_advanceBy n c⟩

theorem eq_of_position_eq (h : c.Reaches d) (hp : d.position = c.position) : d = c := by
  obtain ⟨n, rfl⟩ := h
  rw [position_advanceBy] at hp
  have ht : c.rest.take n = [] := Text.byteLength_eq_zero (by omega)
  rcases List.take_eq_nil_iff.1 ht with rfl | hr
  · rfl
  · exact advanceBy_of_rest_nil n hr

theorem length_rest_lt (h : c.Reaches d) (hp : c.position < d.position) :
    d.rest.length < c.rest.length := by
  obtain ⟨between, hr, hd⟩ := h.rest_eq
  have hb : between ≠ [] := by
    intro hnil
    subst hnil
    simp only [Text.byteLength_nil] at hd
    omega
  have := List.length_pos_iff.2 hb
  simp only [hr, List.length_append]
  omega

end Reaches

theorem position_lt_advanceBy {c : Cursor} {n : Nat} (hn : 0 < n) (hc : c.rest ≠ []) :
    c.position < (c.advanceBy n).position := by
  rw [position_advanceBy]
  obtain ⟨k, rfl⟩ : ∃ k, n = k + 1 := ⟨n - 1, by omega⟩
  cases hr : c.rest with
  | nil => exact absurd hr hc
  | cons a rest =>
    have ha := a.utf8Size_pos
    simp only [List.take_succ_cons, Text.byteLength_cons]
    omega

/-- The cursor is a place of the source: it stands behind some number of its scalar values. -/
def IsPlace (source : Text) (c : Cursor) : Prop := (start source).Reaches c

theorem isPlace_start (source : Text) : IsPlace source (start source) := Reaches.refl _

theorem IsPlace.of_reaches {source : Text} {c d : Cursor} (hc : IsPlace source c)
    (h : c.Reaches d) : IsPlace source d := hc.trans h

/-- A place splits its source at a boundary between two scalar values. -/
theorem IsPlace.split {source : Text} {c : Cursor} (h : IsPlace source c) :
    ∃ before, source = before ++ c.rest ∧ c.position = Text.byteLength before := by
  obtain ⟨before, hr, hp⟩ := h.rest_eq
  exact ⟨before, by simpa using hr, by simpa using hp⟩

/-- Of two places of a source, the one at the later byte position lies behind the other. -/
theorem IsPlace.reaches {source : Text} {c d : Cursor} (hc : IsPlace source c)
    (hd : IsPlace source d) (h : c.position ≤ d.position) : c.Reaches d := by
  obtain ⟨m, rfl⟩ := hc
  obtain ⟨n, rfl⟩ := hd
  rcases Nat.le_total m n with hmn | hnm
  · exact ⟨n - m, by rw [advanceBy_advanceBy, Nat.add_sub_cancel' hmn]⟩
  · have hback : ((start source).advanceBy n).Reaches ((start source).advanceBy m) :=
      ⟨m - n, by rw [advanceBy_advanceBy, Nat.add_sub_cancel' hnm]⟩
    rw [hback.eq_of_position_eq (Nat.le_antisymm h hback.position_le)]
    exact Reaches.refl _

end Cursor

theorem ignorableLength_drop (inComment : Bool) (t : Text) :
    ignorableLength false (t.drop (ignorableLength inComment t)) = 0 := by
  induction t generalizing inComment with
  | nil => cases inComment <;> rfl
  | cons c t ih =>
    cases inComment with
    | true => simpa [ignorableLength] using ih _
    | false =>
      by_cases hblank : c = ' ' || c = '\t' || c = '\n' || c = '\r'
      · simpa [ignorableLength, hblank] using ih false
      · by_cases hmark : c = '#'
        · simpa [ignorableLength, hblank, hmark] using ih true
        · simp [ignorableLength, hblank, hmark]

/-- Whether a scalar value begins ignorable text. -/
def isIgnorable (c : Char) : Bool := c = ' ' || c = '\t' || c = '\n' || c = '\r' || c = '#'

theorem isIgnorable_eq_false_of_ignorableLength {c : Char} {t : Text}
    (h : ignorableLength false (c :: t) = 0) : isIgnorable c = false := by
  unfold ignorableLength at h
  split at h
  · simp at h
  · next hblank =>
    split at h
    · simp at h
    · next hmark => simp_all [isIgnorable]

namespace Cursor

theorem skipIgnorable_skipIgnorable (c : Cursor) :
    c.skipIgnorable.skipIgnorable = c.skipIgnorable := by
  have h : ignorableLength false c.skipIgnorable.rest = 0 := by
    rw [skipIgnorable, rest_advanceBy]
    exact ignorableLength_drop false c.rest
  rw [skipIgnorable, h, advanceBy_zero]

theorem current_skipIgnorable {c : Cursor} (h : c.skipIgnorable.rest ≠ []) :
    ∃ code, c.skipIgnorable.current? = some code ∧ isIgnorable code = false := by
  have hz : ignorableLength false c.skipIgnorable.rest = 0 := by
    rw [skipIgnorable, rest_advanceBy]
    exact ignorableLength_drop false c.rest
  cases hr : c.skipIgnorable.rest with
  | nil => exact absurd hr h
  | cons code rest =>
    rw [hr] at hz
    exact ⟨code, by simp [current?, hr], isIgnorable_eq_false_of_ignorableLength hz⟩

end Cursor

namespace Range

/-- The first range ends where the second begins, or before it. -/
def Precedes (r s : Range) : Prop := r.stop.position ≤ s.start.position

theorem start_cover (r s : Range) :
    (r.cover s).start.position = min r.start.position s.start.position := by
  unfold cover
  dsimp only
  split <;> omega

theorem stop_cover (r s : Range) :
    (r.cover s).stop.position = max r.stop.position s.stop.position := by
  unfold cover
  dsimp only
  split <;> omega

end Range

end NodeMarkup
