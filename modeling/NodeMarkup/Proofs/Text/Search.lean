import NodeMarkup.Text.Basic
import Mathlib.Data.List.Basic
import Mathlib.Data.List.Infix
/-!
Looking for one text in another. What is found stands there, and nothing is found later than where
it stands.
-/
namespace NodeMarkup.Text

variable {wanted before rest t : Text} {n : Nat}

theorem eq_of_indexOf? (h : indexOf? wanted t = some n) :
    ∃ before rest, t = before ++ wanted ++ rest ∧ n = before.length := by
  induction t generalizing n with
  | nil =>
    obtain ⟨hwanted, rfl⟩ : wanted = [] ∧ 0 = n := by simpa [indexOf?] using h
    exact ⟨[], [], by rw [hwanted]; rfl, rfl⟩
  | cons c t ih =>
    rw [indexOf?] at h
    split at h
    · next hpre =>
      obtain ⟨rest, hrest⟩ := List.isPrefixOf_iff_prefix.1 hpre
      exact ⟨[], rest, hrest.symm, (Option.some.inj h).symm⟩
    · obtain ⟨k, hk, rfl⟩ := Option.map_eq_some_iff.1 h
      obtain ⟨before, rest, rfl, rfl⟩ := ih hk
      exact ⟨c :: before, rest, rfl, rfl⟩

theorem indexOf?_eq_zero (h : wanted <+: t) : indexOf? wanted t = some 0 := by
  cases t with
  | nil =>
    rw [List.prefix_nil.1 h]
    exact if_pos List.isEmpty_nil
  | cons c t => exact if_pos (List.isPrefixOf_iff_prefix.2 h)

/-- What stands somewhere is found, there or before. -/
theorem exists_indexOf? (wanted before rest : Text) :
    ∃ n ≤ before.length, indexOf? wanted (before ++ wanted ++ rest) = some n := by
  induction before with
  | nil => exact ⟨0, le_refl _, indexOf?_eq_zero (List.prefix_append _ _)⟩
  | cons c before ih =>
    obtain ⟨n, hn, hfound⟩ := ih
    by_cases hbegins : wanted <+: c :: (before ++ wanted ++ rest)
    · exact ⟨0, Nat.zero_le _, indexOf?_eq_zero hbegins⟩
    · refine ⟨n + 1, Nat.succ_le_succ hn, ?_⟩
      rw [List.cons_append, List.cons_append, indexOf?,
        if_neg (by rwa [List.isPrefixOf_iff_prefix]), hfound]
      rfl

theorem indexOf?_eq_none_iff : indexOf? wanted t = none ↔ ¬wanted <:+: t := by
  constructor
  · rintro h ⟨before, rest, rfl⟩
    obtain ⟨n, -, hfound⟩ := exists_indexOf? wanted before rest
    rw [h] at hfound
    cases hfound
  · intro h
    cases hfound : indexOf? wanted t with
    | none => rfl
    | some n =>
      obtain ⟨before, rest, rfl, -⟩ := eq_of_indexOf? hfound
      exact absurd ⟨before, rest, rfl⟩ h

/-- Where a text is found, it does not stand before that place as well. -/
theorem not_infix_of_indexOf? (hwanted : wanted ≠ [])
    (h : indexOf? wanted (before ++ wanted ++ rest) = some before.length) :
    ¬wanted <:+: before := by
  rintro ⟨first, more, rfl⟩
  obtain ⟨n, hn, hfound⟩ := exists_indexOf? wanted first (more ++ wanted ++ rest)
  have hlength : n = (first ++ wanted ++ more).length := by
    apply Option.some.inj
    rw [← h, ← hfound]
    simp only [List.append_assoc]
  have hpos : 0 < wanted.length := List.length_pos_iff.2 hwanted
  simp only [List.length_append] at hlength
  omega

end NodeMarkup.Text
