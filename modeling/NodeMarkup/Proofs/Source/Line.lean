import NodeMarkup.Proofs.Source.Place
import NodeMarkup.Source.Cursor
/-!
Lines of a source. The line of a place counts the line breaks before it, and the indentation that a
place knows of is that of its own line, so it holds none: it is what the line begins with, as far as it
has been reached.
-/
namespace NodeMarkup

/-- The spaces and tabs that indent a line. -/
def isIndent (c : Char) : Bool := c = ' ' || c = '\t'

theorem takeWhile_append_of_head {p : Char → Bool} {w : Text} (h : ∀ c ∈ w.head?, p c = false)
    (l : Text) : (l ++ w).takeWhile p = l.takeWhile p := by
  have hw : w.takeWhile p = [] := by
    cases w with
    | nil => rfl
    | cons c w => exact List.takeWhile_cons_of_neg (by simp [h c rfl])
  rw [List.takeWhile_append, hw, List.append_nil]
  split
  · next hall => rw [(List.takeWhile_prefix p).eq_of_length hall]
  · rfl

theorem takeWhile_of_all {p : Char → Bool} {l : Text} (h : l.all p = true) : l.takeWhile p = l := by
  have happend : (l ++ []).takeWhile p = l ++ List.takeWhile p [] :=
    List.takeWhile_append_of_pos (List.all_eq_true.1 h)
  simpa using happend

/-- A scalar value behind a text does not go on with its start unless all goes on. -/
theorem takeWhile_concat {p : Char → Bool} {l : Text} {c : Char} (h : (l ++ [c]).all p = false) :
    (l ++ [c]).takeWhile p = l.takeWhile p := by
  cases hc : p c with
  | false => exact takeWhile_append_of_head (by simp [hc]) l
  | true =>
    rw [List.takeWhile_append, if_neg]
    intro hlength
    have hall : l.all p = true := by
      rw [← (List.takeWhile_prefix p).eq_of_length hlength, List.all_takeWhile]
    simp [hall, hc] at h

/-- The line that a text ends in. -/
def Text.lastLine (t : Text) : Text := (t.reverse.takeWhile (· ≠ '\n')).reverse

theorem Text.lastLine_concat (t : Text) (c : Char) :
    lastLine (t ++ [c]) = if c = '\n' then [] else lastLine t ++ [c] := by
  by_cases hbreak : c = '\n' <;> simp [lastLine, hbreak]

theorem Text.takeWhile_append_of_unbroken {w : Text} (h : '\n' ∉ w) (t : Text) :
    (w ++ t).takeWhile (· ≠ '\n') = w ++ t.takeWhile (· ≠ '\n') := by
  apply List.takeWhile_append_of_pos
  intro c hc
  rw [decide_eq_true_eq]
  rintro rfl
  exact h hc

theorem Text.lastLine_append {w : Text} (h : '\n' ∉ w) (t : Text) :
    lastLine (t ++ w) = lastLine t ++ w := by
  have hw : '\n' ∉ w.reverse := by rwa [List.mem_reverse]
  rw [lastLine, List.reverse_append, takeWhile_append_of_unbroken hw, List.reverse_append,
    List.reverse_reverse, lastLine]

theorem Text.lastLine_suffix (t : Text) : lastLine t <:+ t := by
  have hbegins : t.reverse.takeWhile (· ≠ '\n') <+: t.reverse := List.takeWhile_prefix _
  rwa [← List.reverse_suffix, List.reverse_reverse] at hbegins

namespace Cursor

variable {c : Cursor}

@[simp]
theorem line_settle (c : Cursor) : c.settle.line = c.line := by
  unfold settle
  split
  · rfl
  · split
    · rfl
    · split <;> rfl

theorem line_advance (c : Cursor) :
    c.advance.line = c.line + (c.rest.take 1).count '\n' := by
  unfold advance
  split
  · next h => simp [h]
  · next next rest h =>
    split
    · next hbreak => simp [h, hbreak]
    · next hbreak => simp [h, hbreak]

/-- The line of a place counts the line breaks that lie before it. -/
theorem line_advanceBy (n : Nat) (c : Cursor) :
    (c.advanceBy n).line = c.line + (c.rest.take n).count '\n' := by
  induction n generalizing c with
  | zero => simp [advanceBy_zero]
  | succ n ih =>
    rw [advanceBy_succ, ih, line_advance, rest_advance]
    cases c.rest with
    | nil => simp
    | cons next rest =>
      simp only [List.take_succ_cons, List.take_zero, List.tail_cons, List.count_cons,
        List.count_nil]
      omega

theorem text_advanceBy (n : Nat) (c : Cursor) :
    Range.text ⟨c, c.advanceBy n⟩ = c.rest.take n := by
  rw [Range.text, rest_advanceBy, List.length_drop, List.take_eq_take_iff]
  dsimp only
  omega

theorem Reaches.eq_advanceBy {d : Cursor} (h : c.Reaches d) :
    d = c.advanceBy (Range.text ⟨c, d⟩).length := by
  obtain ⟨n, rfl⟩ := h
  rw [text_advanceBy, advanceBy_length_take]

/-- What lies between two places has as many line breaks as there are lines between them. -/
theorem Reaches.line_eq {d : Cursor} (h : c.Reaches d) :
    d.line = c.line + (Range.text ⟨c, d⟩).count '\n' := by
  obtain ⟨n, rfl⟩ := h
  rw [text_advanceBy, line_advanceBy]

theorem Reaches.line_le {d : Cursor} (h : c.Reaches d) : c.line ≤ d.line := by
  rw [h.line_eq]
  omega

theorem line_start (source : Text) : (start source).line = 0 := line_settle _

/-- The end of a source is on the line that all its line breaks come to. -/
theorem line_end (source : Text) :
    ((start source).advanceBy source.length).line = source.count '\n' := by
  rw [line_advanceBy, line_start, rest_start, List.take_length, Nat.zero_add]

theorem IsPlace.reaches_end {source : Text} (h : IsPlace source c) :
    c.Reaches ((start source).advanceBy source.length) := by
  obtain ⟨n, rfl⟩ := h
  rcases Nat.le_total n source.length with hle | hge
  · exact ⟨source.length - n, by rw [advanceBy_advanceBy, Nat.add_sub_cancel' hle]⟩
  · have hlast := advanceBy_length_take n (start source)
    rw [rest_start, List.take_of_length_le hge] at hlast
    rw [hlast]
    exact .refl _

@[simp]
theorem column_settle (c : Cursor) : c.settle.column = c.column := by
  unfold settle
  split
  · rfl
  · split
    · rfl
    · split <;> rfl

theorem column_advance {next : Char} {rest : Text} (h : c.rest = next :: rest) :
    c.advance.column = if next = '\n' then 0 else c.column + 1 := by
  unfold advance
  rw [h]
  dsimp only
  split <;> simp

/-- The next place of a source is one scalar value further on, or it is the same at the end. -/
theorem next_place (source : Text) (n : Nat) :
    (∃ next rest, ((start source).advanceBy n).rest = next :: rest ∧
        source.take (n + 1) = source.take n ++ [next] ∧
        (start source).advanceBy (n + 1) = ((start source).advanceBy n).advance) ∨
      (source.take (n + 1) = source.take n ∧
        (start source).advanceBy (n + 1) = (start source).advanceBy n) := by
  have hstep : (start source).advanceBy (n + 1) = ((start source).advanceBy n).advance := by
    rw [← advanceBy_advanceBy, advanceBy_one]
  have hrest : ((start source).advanceBy n).rest = source.drop n := by
    rw [rest_advanceBy, rest_start]
  by_cases hn : n < source.length
  · rw [List.drop_eq_getElem_cons hn] at hrest
    exact .inl ⟨_, _, hrest, (List.take_append_getElem hn).symm, hstep⟩
  · have hle : source.length ≤ n := Nat.le_of_not_lt hn
    rw [List.drop_eq_nil_of_le hle] at hrest
    rw [List.take_of_length_le hle, List.take_of_length_le (Nat.le_succ_of_le hle), hstep,
      advance_of_rest_nil hrest]
    exact .inr ⟨rfl, rfl⟩

/-- The column of a place counts the scalar values since the last line break before it. -/
theorem column_place (source : Text) (n : Nat) :
    ((start source).advanceBy n).column =
      ((source.take n).reverse.takeWhile (· ≠ '\n')).length := by
  induction n with
  | zero =>
    rw [advanceBy_zero, List.take_zero]
    exact column_settle _
  | succ n ih =>
    obtain ⟨next, rest, hrest, htake, hstep⟩ | ⟨htake, hstep⟩ := next_place source n <;>
      rw [htake, hstep]
    · rw [column_advance hrest, ih, List.reverse_append]
      by_cases hbreak : next = '\n' <;> simp [hbreak]
    · exact ih

/-- What the cursor counts on its line, of which `l` has been read: the indentation goes through the
scalar value at the cursor if that still belongs to it. -/
structure HasRead (l : Text) (c : Cursor) : Prop where
  lineText : c.lineText = l ++ c.rest
  indent : c.current? ≠ some '\n' → c.indent = ((l ++ c.rest.take 1).takeWhile isIndent).length
  indenting : ∀ next, c.current? = some next → next ≠ '\n' → c.indenting = (l ++ [next]).all isIndent
  -- A line break begins a new indentation.
  fresh : c.current? = some '\n' → c.indent = 0 ∧ c.indenting = true

theorem hasRead_settle {l : Text} (hline : c.lineText = l ++ c.rest)
    (hindent : c.indent = (l.takeWhile isIndent).length) (hindenting : c.indenting = l.all isIndent) :
    c.settle.HasRead l := by
  unfold settle
  split
  · next hrest =>
    exact ⟨hline, by simp [hrest, hindent], by simp [current?, hrest], by simp [current?, hrest]⟩
  · next next rest hrest =>
    split
    · next hbreak =>
      exact ⟨hline, by simp [current?, hrest, hbreak], by simp [current?, hrest, hbreak], by simp⟩
    · next hbreak =>
      split
      · next hnext =>
        -- all of the line so far is indentation, and so is what stands at the cursor
        rw [Bool.and_eq_true, hindenting] at hnext
        have hall : l.takeWhile isIndent = l := takeWhile_of_all hnext.1
        have hone : isIndent next = true := hnext.2
        refine ⟨hline, fun _ => ?_, ?_, by simp [current?, hrest, hbreak]⟩
        · simp [hrest, List.takeWhile_append, hall, hone, hindent]
        · simp [current?, hrest, hindenting, hnext.1, hone]
      · next hnext =>
        have hnot : (l ++ [next]).all isIndent = false := by
          rw [Bool.not_eq_true, hindenting] at hnext
          simpa [isIndent] using hnext
        refine ⟨hline, fun _ => ?_, ?_, by simp [current?, hrest, hbreak]⟩
        · rw [hrest, hindent]
          exact congrArg List.length (takeWhile_concat hnot).symm
        · simp only [current?, hrest]
          rintro other hother -
          cases hother
          exact hnot.symm

theorem HasRead.advance {l rest : Text} {next : Char} (h : c.HasRead l) (hc : c.rest = next :: rest) :
    c.advance.HasRead (if next = '\n' then [] else l ++ [next]) := by
  have hcurrent : c.current? = some next := by rw [current?, hc]; rfl
  unfold Cursor.advance
  rw [hc]
  dsimp only
  split
  · next hbreak =>
    subst hbreak
    exact hasRead_settle rfl (h.fresh hcurrent).1 (h.fresh hcurrent).2
  · next hbreak =>
    refine hasRead_settle ?_ ?_ (h.indenting next hcurrent hbreak)
    · simp [h.lineText, hc]
    · have hindent := h.indent (by simpa [hcurrent] using hbreak)
      rwa [hc] at hindent

theorem hasRead_place (source : Text) (n : Nat) :
    ((start source).advanceBy n).HasRead (Text.lastLine (source.take n)) := by
  induction n with
  | zero => exact hasRead_settle rfl rfl rfl
  | succ n ih =>
    obtain ⟨next, rest, hrest, htake, hstep⟩ | ⟨htake, hstep⟩ := next_place source n <;>
      rw [htake, hstep]
    · rw [Text.lastLine_concat]
      exact ih.advance hrest
    · exact ih

section Split

variable {source before : Text} (h : IsPlace source c) (hsplit : source = before ++ c.rest)
include h hsplit

theorem IsPlace.exists_take : ∃ n, c = (start source).advanceBy n ∧ source.take n = before := by
  obtain ⟨n, rfl⟩ := h
  rw [rest_advanceBy, rest_start] at hsplit
  exact ⟨n, rfl, List.append_cancel_right ((List.take_append_drop n source).trans hsplit)⟩

theorem IsPlace.line_eq_count : c.line = before.count '\n' := by
  obtain ⟨n, rfl, hbefore⟩ := h.exists_take hsplit
  rw [line_advanceBy, line_start, rest_start, hbefore, Nat.zero_add]

theorem IsPlace.hasRead : c.HasRead (Text.lastLine before) := by
  obtain ⟨n, rfl, hbefore⟩ := h.exists_take hsplit
  rw [← hbefore]
  exact hasRead_place source n

end Split

theorem HasRead.blanks_begin {l : Text} (h : c.HasRead l) :
    (l ++ c.rest.take 1).takeWhile isIndent <+: c.lineText := by
  rw [h.lineText]
  exact (List.takeWhile_prefix _).trans
    ((List.prefix_append_right_inj l).2 (List.take_prefix 1 c.rest))

theorem HasRead.indentation {l : Text} (h : c.HasRead l) (hc : c.current? ≠ some '\n') :
    c.indentation = (l ++ c.rest.take 1).takeWhile isIndent := by
  rw [Cursor.indentation, h.indent hc]
  exact (List.prefix_iff_eq_take.1 h.blanks_begin).symm

theorem IsPlace.blank_indentation {source : Text} (h : IsPlace source c) :
    ∀ next ∈ c.indentation, next = ' ' ∨ next = '\t' := by
  obtain ⟨before, hsplit, -⟩ := h.split
  have hread := h.hasRead hsplit
  by_cases hc : c.current? = some '\n'
  · simp [Cursor.indentation, (hread.fresh hc).1]
  · rw [hread.indentation hc]
    intro next hnext
    have hall := List.all_eq_true.1 List.all_takeWhile next hnext
    simpa [isIndent] using hall

theorem IsPlace.fresh_of_break {source t : Text} (h : IsPlace source c) (hc : c.rest = '\n' :: t) :
    c.indent = 0 ∧ c.indenting = true := by
  obtain ⟨before, hsplit, -⟩ := h.split
  exact (h.hasRead hsplit).fresh (by rw [current?, hc]; rfl)

theorem IsPlace.not_mem_indentation {source : Text} (h : IsPlace source c) :
    '\n' ∉ c.indentation := by
  intro hmem
  rcases h.blank_indentation _ hmem with hspace | htab
  · exact absurd hspace (by decide)
  · exact absurd htab (by decide)

/-- The line of a place is the rest of the source from its start on, and the indentation does not go
beyond it. -/
theorem IsPlace.lineText_suffix {source : Text} (h : IsPlace source c) :
    c.lineText <:+ source ∧ c.indent ≤ c.lineText.length := by
  obtain ⟨before, hsplit, -⟩ := h.split
  have hread := h.hasRead hsplit
  obtain ⟨front, hfront⟩ := Text.lastLine_suffix before
  refine ⟨⟨front, ?_⟩, ?_⟩
  · rw [hread.lineText, ← List.append_assoc, hfront, ← hsplit]
  · by_cases hc : c.current? = some '\n'
    · rw [(hread.fresh hc).1]
      exact Nat.zero_le _
    · rw [hread.indent hc]
      exact hread.blanks_begin.length_le

/-- Behind code on its line a place has the indentation of that line. -/
theorem IsPlace.indentation_behind {source front w : Text} (h : IsPlace source c)
    (hsplit : source = front ++ (w ++ c.rest)) (hw : '\n' ∉ w) (hc : c.current? ≠ some '\n')
    (hcode : ∀ next ∈ (w ++ c.rest).head?, isIndent next = false) :
    c.indentation = (Text.lastLine front).takeWhile isIndent := by
  rw [← List.append_assoc] at hsplit
  have hcode' : ∀ next ∈ (w ++ c.rest.take 1).head?, isIndent next = false := by
    cases w with
    | nil => simpa [List.head?_take] using hcode
    | cons _ _ => exact hcode
  rw [(h.hasRead hsplit).indentation hc, Text.lastLine_append hw, List.append_assoc,
    takeWhile_append_of_head hcode']

end Cursor

end NodeMarkup
