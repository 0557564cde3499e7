import NodeMarkup.Proofs.Source.Checked

namespace NodeMarkup

namespace Text

theorem not_mem_lastLine (t : Text) : '\n' ∉ lastLine t := by
  intro hmem
  have hbreak := List.all_eq_true.1 List.all_takeWhile _ (List.mem_reverse.1 hmem)
  simp at hbreak

theorem head?_dropWhile_break {t : Text} : ∀ next ∈ (t.dropWhile (· ≠ '\n')).head?, next = '\n' := by
  intro next hnext
  have hnot := List.head?_dropWhile_not (· ≠ '\n') t
  rw [hnext] at hnot
  simpa using hnot

/-- What stands before the line that a text ends in is whole lines. -/
theorem exists_above (t : Text) :
    ∃ above, t = above ++ lastLine t ∧ ∀ last ∈ above.getLast?, last = '\n' := by
  refine ⟨(t.reverse.dropWhile (· ≠ '\n')).reverse, ?_, ?_⟩
  · rw [lastLine, ← List.reverse_append, List.takeWhile_append_dropWhile, List.reverse_reverse]
  · rw [List.getLast?_reverse]
    exact head?_dropWhile_break

end Text

/-- The movements that a cursor can make. -/
inductive Move where
  | advance
  | advanceBy (n : Nat)
  | advanceTo (position : Nat)
  | moveTo (position : Nat)
  | skipIgnorable
deriving DecidableEq, Repr

namespace Cursor

variable {source : Text} {c : Cursor}

def move (c : Cursor) : Move → Cursor
  | .advance => c.advance
  | .advanceBy n => c.advanceBy n
  | .advanceTo position => c.advanceTo position
  | .moveTo position => c.moveTo position
  | .skipIgnorable => c.skipIgnorable

/-- Where the movements lead, one after the other, from the start of a source. -/
def moved (source : Text) (moves : List Move) : Cursor := moves.foldl move (start source)

theorem isPlace_ofPosition (source : Text) (position : Nat) :
    IsPlace source (ofPosition source position) :=
  reaches_advanceBy _ (start source)

/-- A movement goes forward from the cursor, or forward from the start of its source. -/
theorem IsPlace.move (h : IsPlace source c) (m : Move) : IsPlace source (c.move m) := by
  cases m with
  | advance => exact h.of_reaches (reaches_advance c)
  | advanceBy n => exact h.of_reaches (reaches_advanceBy n c)
  | advanceTo position => exact h.of_reaches (reaches_advanceBy _ c)
  | moveTo position =>
    change IsPlace source (ofPosition c.source position)
    rw [h.source_eq]
    exact isPlace_ofPosition source position
  | skipIgnorable => exact h.skipIgnorable

theorem IsPlace.foldl_move (h : IsPlace source c) (moves : List Move) :
    IsPlace source (moves.foldl Cursor.move c) := by
  induction moves generalizing c with
  | nil => exact h
  | cons m moves ih => exact ih (h.move m)

theorem isPlace_moved (source : Text) (moves : List Move) : IsPlace source (moved source moves) :=
  (isPlace_start source).foldl_move moves

theorem ofPosition_byteLength (before rest : Text) :
    ofPosition (before ++ rest) (Text.byteLength before) =
      (start (before ++ rest)).advanceBy before.length := by
  unfold ofPosition advanceTo
  rw [position_start, Nat.sub_zero, rest_start, Text.reach_byteLength_append]

/-- A place is found again from its position. -/
theorem IsPlace.ofPosition_position (h : IsPlace source c) : ofPosition source c.position = c := by
  obtain ⟨before, hsplit, hposition⟩ := h.split
  obtain ⟨n, hc, hbefore⟩ := h.exists_take hsplit
  have hfound := ofPosition_byteLength before c.rest
  rw [← hsplit] at hfound
  -- past the end of the source `n` may be more than has been read
  have hlength := advanceBy_length_take n (start source)
  rw [rest_start, hbefore] at hlength
  rw [hposition, hfound, hlength, ← hc]

/-- The line that the cursor stands in, without its line break. -/
def currentLine (c : Cursor) : Text := c.lineText.takeWhile (· ≠ '\n')

/-- A line break is no indentation, so the next line adds nothing to that of the cursor's line. -/
theorem takeWhile_currentLine (c : Cursor) :
    c.currentLine.takeWhile isIndent = c.lineText.takeWhile isIndent := by
  have hbehind : ∀ next ∈ (c.lineText.dropWhile (· ≠ '\n')).head?, isIndent next = false := by
    intro next hnext
    rw [Text.head?_dropWhile_break next hnext]
    rfl
  rw [currentLine, ← takeWhile_append_of_head hbehind, List.takeWhile_append_dropWhile]

namespace HasRead

variable {left : Text}

theorem currentLine_eq (h : c.HasRead left) (hleft : '\n' ∉ left) :
    c.currentLine = left ++ c.rest.takeWhile (· ≠ '\n') := by
  rw [currentLine, h.lineText, Text.takeWhile_append_of_unbroken hleft]

/-- The indentation is counted up to the scalar value at the cursor, that included. -/
theorem indent_eq_min (h : c.HasRead left) (hc : c.current? ≠ some '\n') :
    c.indent = min (left.length + 1) (c.currentLine.takeWhile isIndent).length := by
  rw [h.indent hc, takeWhile_currentLine, h.lineText, ← List.length_take, List.take_takeWhile,
    List.take_length_add_append]

/-- At code the whole indentation of the line has been reached. -/
theorem indentation_eq (h : c.HasRead left)
    (hcode : ∀ next ∈ c.current?, isIndent next = false ∧ next ≠ '\n') :
    c.indentation = c.currentLine.takeWhile isIndent := by
  have hbreak : c.current? ≠ some '\n' := fun hc => (hcode _ hc).2 rfl
  have hrest : ∀ next ∈ c.rest.head?, isIndent next = false := fun next hnext => (hcode next hnext).1
  have hone : ∀ next ∈ (c.rest.take 1).head?, isIndent next = false := by
    simpa [List.head?_take] using hrest
  rw [h.indentation hbreak, takeWhile_currentLine, h.lineText, takeWhile_append_of_head hone,
    takeWhile_append_of_head hrest]

end HasRead

/-- What a cursor counts, in terms of the text around it: `above` holds the lines before its own,
and `left` is the part of its own line that lies before it. -/
structure LocatedBy (source above left : Text) (c : Cursor) : Prop where
  split : source = above ++ left ++ c.rest
  -- The line of the cursor begins behind the last line break before it, or with the source.
  whole : ∀ last ∈ above.getLast?, last = '\n'
  unbroken : '\n' ∉ left
  position : c.position = Text.byteLength (above ++ left)
  line : c.line = (above ++ left).count '\n'
  lineStart : c.lineStart = Text.byteLength above
  column : c.column = left.length
  currentLine : c.currentLine = left ++ c.rest.takeWhile (· ≠ '\n')
  indent : c.indent =
    if c.current? = some '\n' then 0
    else min (c.column + 1) (c.currentLine.takeWhile isIndent).length

theorem IsPlace.exists_locatedBy (h : IsPlace source c) :
    ∃ above left, c.LocatedBy source above left := by
  obtain ⟨before, hsplit, hposition⟩ := h.split
  have hread := h.hasRead hsplit
  have hline := h.line_eq_count hsplit
  have hcolumn : c.column = (Text.lastLine before).length := by
    obtain ⟨n, rfl, hbefore⟩ := h.exists_take hsplit
    rw [column_place, hbefore, Text.lastLine, List.length_reverse]
  have hunbroken := Text.not_mem_lastLine before
  obtain ⟨above, habove, hwhole⟩ := Text.exists_above before
  generalize Text.lastLine before = left at *
  subst habove
  refine ⟨above, left, hsplit, hwhole, hunbroken, hposition, hline, ?_, hcolumn,
    hread.currentLine_eq hunbroken, ?_⟩
  · apply h.lineStart_eq
    rw [hread.lineText, hsplit, List.append_assoc]
  · split
    · next hc => exact (hread.fresh hc).1
    · next hc => rw [hcolumn, hread.indent_eq_min hc]

/-- The cursor is the one that its position fixes, and what it counts is what stands around it. -/
structure Determined (source : Text) (c : Cursor) : Prop where
  state : c = ofPosition source c.position
  within : c.position ≤ Text.byteLength source
  located : ∃ above left, c.LocatedBy source above left
  -- The bytes of the indentation can be cut out of the source.
  cut : c.indentation? = some c.indentation
  blank : ∀ next ∈ c.indentation, next = ' ' ∨ next = '\t'
  -- At code, and at the end of the source, nothing of the line's indentation is missing.
  complete : (∀ next ∈ c.current?, isIndent next = false ∧ next ≠ '\n') →
    c.indentation = c.currentLine.takeWhile isIndent

theorem IsPlace.determined (h : IsPlace source c) : c.Determined source := by
  obtain ⟨before, hsplit, hposition⟩ := h.split
  refine ⟨h.ofPosition_position.symm, ?_, h.exists_locatedBy, h.indentation?, h.blank_indentation,
    (h.hasRead hsplit).indentation_eq⟩
  rw [hposition, hsplit, Text.byteLength_append]
  omega

/-- Movements lead only to cursors that their positions determine, and to one at every boundary
between two scalar values of the source. -/
theorem moved_determined (source : Text) :
    (∀ moves, (moved source moves).Determined source) ∧
      ∀ before rest, source = before ++ rest →
        ∃ moves, (moved source moves).position = Text.byteLength before ∧
          (moved source moves).rest = rest := by
  refine ⟨fun moves => (isPlace_moved source moves).determined, ?_⟩
  rintro before rest rfl
  refine ⟨[.advanceBy before.length], ?_, ?_⟩
  · change ((start (before ++ rest)).advanceBy before.length).position = _
    rw [position_advanceBy, position_start, rest_start, List.take_left, Nat.zero_add]
  · change ((start (before ++ rest)).advanceBy before.length).rest = _
    rw [rest_advanceBy, rest_start, List.drop_left]

/-- Forward to the end, back into the first scalar value, and on to the code of the second line. -/
theorem moved_determined_second_line :
    let source := "é\n\t  y z".toList
    let c := moved source [.advanceTo 99, .moveTo 1, .skipIgnorable]
    c.position = 6 ∧ c.line = 1 ∧ c.lineStart = 3 ∧ c.column = 3 ∧ c.current? = some 'y' ∧
      c = ofPosition source 6 ∧ c.indentation = "\t  ".toList := by
  intro source c
  have hdetermined : c.Determined source := (moved_determined source).1 _
  have hposition : c.position = 6 := by decide
  have hcurrent : c.current? = some 'y' := by decide
  have hcode : ∀ next ∈ c.current?, isIndent next = false ∧ next ≠ '\n' := by
    intro next hnext
    rw [hcurrent] at hnext
    cases hnext
    decide
  have hblanks : c.currentLine.takeWhile isIndent = "\t  ".toList := by decide
  refine ⟨hposition, by decide, by decide, by decide, hcurrent, ?_, ?_⟩
  · rw [← hposition]
    exact hdetermined.state
  · rw [hdetermined.complete hcode, hblanks]

end Cursor

end NodeMarkup
