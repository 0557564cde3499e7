import NodeMarkup.Text.Basic
import Mathlib.Data.List.Basic
/-!
Texts in pieces. Splitting at a separator and joining with it undo each other, and a separator
between two texts parts their pieces.
-/
namespace NodeMarkup.Text

variable {separator : Char} {pieces more : List Text}

theorem split_cons_separator (separator : Char) (t : Text) :
    split separator (separator :: t) = [] :: split separator t := by
  rw [split, if_pos rfl]

theorem split_append (separator : Char) (s t : Text) :
    split separator (s ++ separator :: t) = split separator s ++ split separator t := by
  induction s with
  | nil => exact split_cons_separator separator t
  | cons c s ih =>
    rw [List.cons_append, split, split, ih]
    by_cases hc : c = separator
    · rw [if_pos hc, if_pos hc, List.cons_append]
    · rw [if_neg hc, if_neg hc]
      cases hs : split separator s with
      | nil => exact absurd hs (split_ne_nil separator s)
      | cons piece pieces => rfl

theorem split_of_not_mem {t : Text} (h : separator ∉ t) : split separator t = [t] := by
  induction t with
  | nil => rfl
  | cons c t ih =>
    have hc : c ≠ separator := (List.ne_of_not_mem_cons h).symm
    rw [split, if_neg hc, ih (List.not_mem_of_not_mem_cons h)]

theorem not_mem_of_mem_split {t piece : Text} (h : piece ∈ split separator t) :
    separator ∉ piece := by
  induction t generalizing piece with
  | nil => simp [List.mem_singleton.1 h]
  | cons c t ih =>
    rw [split] at h
    by_cases hc : c = separator
    · rw [if_pos hc, List.mem_cons] at h
      rcases h with rfl | h
      · exact List.not_mem_nil
      · exact ih h
    · rw [if_neg hc] at h
      cases hs : split separator t with
      | nil => exact absurd hs (split_ne_nil separator t)
      | cons first pieces =>
        rw [hs] at h ih
        rcases List.mem_cons.1 h with rfl | h
        · exact List.not_mem_cons_of_ne_of_not_mem (Ne.symm hc) (ih List.mem_cons_self)
        · exact ih (List.mem_cons_of_mem _ h)

theorem join_singleton (separator : Char) (piece : Text) : join separator [piece] = piece := by
  simp [join, List.intercalate]

theorem join_cons (separator : Char) (piece : Text) (h : pieces ≠ []) :
    join separator (piece :: pieces) = piece ++ separator :: join separator pieces := by
  rw [join, List.intercalate_cons_of_ne_nil h]
  simp [join]

theorem join_append (separator : Char) (h : pieces ≠ []) (hmore : more ≠ []) :
    join separator (pieces ++ more) =
      join separator pieces ++ separator :: join separator more := by
  induction pieces with
  | nil => exact absurd rfl h
  | cons piece pieces ih =>
    by_cases hpieces : pieces = []
    · rw [hpieces, List.singleton_append, join_cons _ _ hmore, join_singleton]
    · rw [List.cons_append, join_cons _ _ (List.append_ne_nil_of_left_ne_nil hpieces _),
        ih hpieces, join_cons _ _ hpieces, List.append_assoc, List.cons_append]

theorem split_join (h : pieces ≠ []) (hpieces : ∀ piece ∈ pieces, separator ∉ piece) :
    split separator (join separator pieces) = pieces := by
  induction pieces with
  | nil => exact absurd rfl h
  | cons piece pieces ih =>
    obtain ⟨hpiece, hpieces⟩ := List.forall_mem_cons.1 hpieces
    by_cases hrest : pieces = []
    · rw [hrest, join_singleton, split_of_not_mem hpiece]
    · rw [join_cons _ _ hrest, split_append, split_of_not_mem hpiece, ih hrest hpieces,
        List.singleton_append]

/-- The text ends in a piece: nothing but separators parts it from what stands before it. -/
theorem exists_of_getLast?_split {t piece : Text} (h : (split separator t).getLast? = some piece) :
    separator ∉ piece ∧ ∃ front, t = front ++ piece ∧
      (front = [] ∨ ∃ front', front = front' ++ [separator]) := by
  have hmem := List.mem_of_getLast? h
  refine ⟨not_mem_of_mem_split hmem, ?_⟩
  obtain ⟨init, hinit⟩ : ∃ init, split separator t = init ++ [piece] :=
    ⟨_, (List.dropLast_append_getLast? piece h).symm⟩
  have ht := join_split separator t
  rw [hinit] at ht
  by_cases hnil : init = []
  · exact ⟨[], by rw [← ht, hnil]; exact join_singleton _ _, .inl rfl⟩
  · refine ⟨join separator init ++ [separator], ?_, .inr ⟨_, rfl⟩⟩
    rw [← ht, join_append _ hnil (List.cons_ne_nil _ _), join_singleton, List.append_assoc,
      List.singleton_append]

end NodeMarkup.Text
