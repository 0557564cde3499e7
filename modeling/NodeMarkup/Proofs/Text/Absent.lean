import NodeMarkup.Resource.Path
import NodeMarkup.Text.Classes
import NodeMarkup.Text.Lines
import NodeMarkup.Text.Quoted
/-!
Scalar values that a text does not hold. Quoting, trimming, folding and resolving put nothing into a
text but their own marks, so a text on one line stays on one line.
-/
namespace NodeMarkup

namespace Text

variable {c : Char} {t : Text}

theorem not_mem_escape (h : c ∉ t) (hc : c ≠ '\\') : c ∉ escape t := by
  induction t with
  | nil => exact h
  | cons d t ih =>
    simp only [List.mem_cons, not_or] at h
    rw [escape]
    split <;> simp [h, hc, ih h.2]

theorem not_mem_quote (h : c ∉ t) (hc : c ≠ '\\') (hq : c ≠ '"') : c ∉ quote t := by
  have hescape := not_mem_escape h hc
  simp [quote, hescape, hq]

theorem trim_subset (t : Text) : trim t ⊆ t := by
  intro c hc
  have hend : c ∈ (trimStart t).reverse :=
    (List.dropWhile_sublist _).subset (List.mem_reverse.1 hc)
  exact (List.dropWhile_sublist _).subset (List.mem_reverse.1 hend)

/-- Trimming takes at least the leading blanks off. -/
theorem length_trim_le (t : Text) : (t.takeWhile isBlank).length + (trim t).length ≤ t.length := by
  have hend : (trim t).length ≤ (trimStart t).length := by
    rw [trim, trimEnd, List.length_reverse, ← @List.length_reverse _ (trimStart t)]
    exact (List.dropWhile_sublist _).length_le
  have hwhole : (t.takeWhile isBlank).length + (trimStart t).length = t.length := by
    rw [trimStart, ← List.length_append, List.takeWhile_append_dropWhile]
  omega

theorem squeezeSpaces_subset (t : Text) : squeezeSpaces t ⊆ t := by
  induction t with
  | nil => exact fun _ h => h
  | cons c t ih =>
    rw [squeezeSpaces]
    split
    · exact fun d hd => List.mem_cons_of_mem _ (ih hd)
    · exact List.cons_subset_cons c ih

/-- Folding leaves no line break. -/
theorem not_mem_foldLines (t : Text) : '\n' ∉ foldLines t := by
  intro hmem
  obtain ⟨c, -, hc⟩ := List.mem_map.1 (squeezeSpaces_subset _ hmem)
  split at hc
  · cases hc
  · next hne => exact hne hc

/-- Folding puts nothing into a text but spaces. -/
theorem not_mem_foldLines_of_not_mem (h : c ∉ t) (hc : c ≠ ' ') : c ∉ foldLines t := by
  intro hmem
  obtain ⟨d, hd, hfolded⟩ := List.mem_map.1 (squeezeSpaces_subset _ hmem)
  split at hfolded
  · exact hc hfolded.symm
  · exact h (hfolded ▸ (List.mem_filter.1 hd).1)

theorem not_mem_split (separator : Char) (h : c ∉ t) : ∀ piece ∈ split separator t, c ∉ piece := by
  induction t with
  | nil => simp [split]
  | cons d t ih =>
    simp only [List.mem_cons, not_or] at h
    have hrest := ih h.2
    unfold split
    split
    · simpa using hrest
    · split
      · simp [h.1]
      · next piece more hsplit =>
        rw [hsplit] at hrest
        simpa [h.1] using hrest

theorem not_mem_join {separator : Char} {pieces : List Text} (hc : c ≠ separator)
    (h : ∀ piece ∈ pieces, c ∉ piece) : c ∉ join separator pieces := by
  induction pieces with
  | nil => simp [join, List.intercalate]
  | cons piece pieces ih =>
    obtain ⟨hpiece, hpieces⟩ := List.forall_mem_cons.1 h
    have hrest := ih hpieces
    cases pieces with
    | nil => simpa [join, List.intercalate] using hpiece
    | cons next more =>
      simp only [join, List.intercalate_cons_cons] at hrest ⊢
      simp [hpiece, hc, hrest]

end Text

namespace Resource

variable {c : Char}

theorem not_mem_pushSegment (rooted : Bool) {segments : List Text} {segment : Text}
    (hs : ∀ s ∈ segments, c ∉ s) (h : c ∉ segment) :
    ∀ s ∈ pushSegment rooted segments segment, c ∉ s := by
  have hpush : ∀ s ∈ segment :: segments, c ∉ s := List.forall_mem_cons.2 ⟨h, hs⟩
  unfold pushSegment
  split
  · exact hs
  · split
    · split
      · split
        · simp
        · simpa using h
      · next last rest =>
        split
        · exact (List.forall_mem_cons.1 hs).2
        · split
          · exact hs
          · exact hpush
    · exact hpush

theorem not_mem_foldl_pushSegment (rooted : Bool) {pieces segments : List Text}
    (hp : ∀ piece ∈ pieces, c ∉ piece) (hs : ∀ s ∈ segments, c ∉ s) :
    ∀ s ∈ pieces.foldl (pushSegment rooted) segments, c ∉ s := by
  induction pieces generalizing segments with
  | nil => exact hs
  | cons piece pieces ih =>
    obtain ⟨hpiece, hpieces⟩ := List.forall_mem_cons.1 hp
    exact ih hpieces (not_mem_pushSegment rooted hs hpiece)

theorem not_mem_splitRoot {path : Text} (h : c ∉ path) :
    c ∉ (splitRoot path).1 ∧ c ∉ (splitRoot path).2 := by
  rw [splitRoot_eq]
  split
  · exact ⟨fun hmem => h (List.mem_of_mem_take hmem), fun hmem => h (List.mem_of_mem_drop hmem)⟩
  · split
    · simpa using h
    · exact ⟨by simp, h⟩

theorem not_mem_normalize {path : Text} (h : c ∉ path) (hc : c ≠ '/') : c ∉ normalize path := by
  obtain ⟨hroot, hrest⟩ := not_mem_splitRoot h
  have hsegments := not_mem_foldl_pushSegment (!(splitRoot path).1.isEmpty)
    (Text.not_mem_split '/' hrest) (List.forall_mem_nil _)
  rw [normalize_eq_join, List.mem_append, not_or]
  refine ⟨hroot, Text.not_mem_join hc ?_⟩
  simpa using hsegments

/-- An import path on one line and a folder without a line break resolve to a path without one. -/
theorem Context.not_mem_resolve {context : Context} {path : Text} (hf : c ∉ context.folder)
    (h : c ∉ path) (hc : c ≠ '/') : c ∉ context.resolve path := by
  rw [resolve_eq]
  split
  · exact not_mem_normalize h hc
  · apply not_mem_normalize _ hc
    have hfolder : c ∉ (context.folder.reverse.dropWhile (· = '/')).reverse := by
      intro hmem
      have := (List.dropWhile_sublist _).subset (List.mem_reverse.1 hmem)
      exact hf (List.mem_reverse.1 this)
    unfold joined
    dsimp only
    split <;> simp [hfolder, h, hc]

end Resource

end NodeMarkup
