import Mathlib.Data.List.Infix
import NodeMarkup.Text.Lines
/-!
Texts whose line breaks are unified. One pass over the text comes to the same as the two in which it
is done, and leaves no carriage return. What holds no line break is neither made nor broken up by
this: it stands in the lines of a text only if it stands in the text.
-/
namespace NodeMarkup.Text

theorem joinBreakPairs_append {u : Text} (h : '\r' ∉ u) (t : Text) :
    joinBreakPairs (u ++ t) = u ++ joinBreakPairs t := by
  induction u with
  | nil => rfl
  | cons c u ih =>
    simp only [List.mem_cons, not_or] at h
    rw [List.cons_append, joinBreakPairs, ih h.2, List.cons_append]
    rintro _ rfl
    exact absurd rfl h.1

theorem unifyLineBreaks_append {u : Text} (h : '\r' ∉ u) (t : Text) :
    unifyLineBreaks (u ++ t) = u ++ unifyLineBreaks t := by
  have hkept : u.map (fun c => if c = '\r' then '\n' else c) = u.map id := by
    apply List.map_congr_left
    intro c hc
    have hne : c ≠ '\r' := by
      rintro rfl
      exact h hc
    exact if_neg hne
  unfold unifyLineBreaks
  rw [joinBreakPairs_append h, List.map_append, hkept, List.map_id]

/-- A text without carriage returns has no line break to unify. -/
theorem unifyLineBreaks_of_noReturn {t : Text} (h : '\r' ∉ t) : unifyLineBreaks t = t := by
  have happend := unifyLineBreaks_append h []
  rw [List.append_nil] at happend
  rw [happend]
  exact List.append_nil t

theorem unifyLineBreaks_pair (t : Text) :
    unifyLineBreaks ('\r' :: '\n' :: t) = '\n' :: unifyLineBreaks t := rfl

theorem unifyLineBreaks_cons {c : Char} {t : Text}
    (h : ∀ rest, c = '\r' → t = '\n' :: rest → False) :
    unifyLineBreaks (c :: t) = (if c = '\r' then '\n' else c) :: unifyLineBreaks t := by
  unfold unifyLineBreaks
  rw [joinBreakPairs, List.map_cons]
  exact h

/-- The line breaks of a text unified in one pass from left to right. -/
def unifyOnce : Text → Text
  | '\r' :: '\n' :: rest => '\n' :: unifyOnce rest
  | '\r' :: rest => '\n' :: unifyOnce rest
  | c :: rest => c :: unifyOnce rest
  | [] => []

theorem unifyLineBreaks_eq_unifyOnce (t : Text) : unifyLineBreaks t = unifyOnce t := by
  fun_induction unifyOnce t with
  | case1 rest ih => rw [unifyLineBreaks_pair, ih]
  | case2 rest hpair ih =>
    rw [unifyLineBreaks_cons fun after _ h => hpair after h, if_pos rfl, ih]
  | case3 c rest hpair hreturn ih =>
    rw [unifyLineBreaks_cons hpair, if_neg hreturn, ih]
  | case4 => rfl

theorem return_not_mem_unifyOnce (t : Text) : '\r' ∉ unifyOnce t := by
  fun_induction unifyOnce t with
  | case1 rest ih => simp [ih]
  | case2 rest _ ih => simp [ih]
  | case3 c rest _ hreturn ih => simp [ih, Ne.symm hreturn]
  | case4 => simp

theorem return_not_mem_unifyLineBreaks (t : Text) : '\r' ∉ unifyLineBreaks t := by
  rw [unifyLineBreaks_eq_unifyOnce]
  exact return_not_mem_unifyOnce t

section Words

variable {word t : Text} (hn : '\n' ∉ word)
include hn

theorem eq_nil_of_prefix_break (h : word <+: '\n' :: t) : word = [] := by
  cases word with
  | nil => rfl
  | cons c word =>
    obtain ⟨rfl, -⟩ := List.cons_prefix_cons.1 h
    exact absurd List.mem_cons_self hn

theorem prefix_of_prefix_unifyLineBreaks (h : word <+: unifyLineBreaks t) : word <+: t := by
  fun_induction joinBreakPairs t generalizing word with
  | case1 rest ih =>
    rw [unifyLineBreaks_pair] at h
    rw [eq_nil_of_prefix_break hn h]
    exact List.nil_prefix
  | case2 c rest hpair ih =>
    rw [unifyLineBreaks_cons hpair] at h
    split at h
    · rw [eq_nil_of_prefix_break hn h]
      exact List.nil_prefix
    · cases word with
      | nil => exact List.nil_prefix
      | cons d word =>
        obtain ⟨rfl, hrest⟩ := List.cons_prefix_cons.1 h
        exact List.cons_prefix_cons.2 ⟨rfl, ih (List.not_mem_of_not_mem_cons hn) hrest⟩
  | case3 => exact h

/-- A text without line breaks that stands in the lines stands in the text itself. -/
theorem infix_of_infix_unifyLineBreaks (h : word <:+: unifyLineBreaks t) : word <:+: t := by
  fun_induction joinBreakPairs t with
  | case1 rest ih =>
    rw [unifyLineBreaks_pair] at h
    rcases List.infix_cons_iff.1 h with hbegins | hwithin
    · rw [eq_nil_of_prefix_break hn hbegins]
      exact List.nil_infix
    · exact ((ih hwithin).trans (List.suffix_cons _ _).isInfix).trans (List.suffix_cons _ _).isInfix
  | case2 c rest hpair ih =>
    have hcons := unifyLineBreaks_cons hpair
    rw [hcons] at h
    rcases List.infix_cons_iff.1 h with hbegins | hwithin
    · rw [← hcons] at hbegins
      exact (prefix_of_prefix_unifyLineBreaks hn hbegins).isInfix
    · exact (ih hwithin).trans (List.suffix_cons _ _).isInfix
  | case3 => exact h

end Words

end NodeMarkup.Text
