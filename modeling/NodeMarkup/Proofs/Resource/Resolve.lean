import NodeMarkup.Proofs.Resource.Canonical
import NodeMarkup.Proofs.Text.Absent
/-!
Resolving behind a folder. A relative path adds its steps to those of the folder and leaves the root
of the folder alone, provided that putting it there makes no scheme where there was none. So a path
can be resolved part by part.
-/
namespace NodeMarkup.Resource

open Text

variable {folder root rest path s t : Text} {names : List Text}

/-- An import path that is relative to the folder of its source. -/
structure IsRelative (path : Text) : Prop where
  ne_nil : path ≠ []
  colon : ':' ∉ path
  slash : path.head? ≠ some '/'

theorem schemeMark_absent (h : ':' ∉ path) : ¬schemeMark <:+: path :=
  fun hmark => h (hmark.subset (by decide))

theorem IsRelative.append {p q : Text} (hp : IsRelative p) (hq : IsRelative q) :
    IsRelative (p ++ '/' :: q) := by
  obtain ⟨c, p, rfl⟩ := List.exists_cons_of_ne_nil hp.ne_nil
  refine ⟨by simp, ?_, hp.slash⟩
  simp only [List.mem_append, List.mem_cons, not_or]
  exact ⟨by simpa using hp.colon, by decide, hq.colon⟩

theorem Parted.schemeMark_infix_iff (h : Parted path root rest) :
    schemeMark <:+: path ↔ schemeMark <:+: root := by
  cases h with
  | @scheme scheme =>
    exact iff_of_true ⟨scheme, rest, rfl⟩ (List.suffix_append scheme schemeMark).isInfix
  | slash hmark => exact iff_of_false hmark (by decide)
  | bare hmark => exact iff_of_false hmark (by decide)

/-- A scheme mark across a slash begins right before it, ends right behind it, or begins two places
before it. -/
theorem schemeMark_infix_append (h : schemeMark <:+: s ++ '/' :: t) :
    schemeMark <:+: s ∨ (s.getLast? = some ':' ∧ t.head? = some '/') ∨ [':', '/'] <:+ s ∨
      schemeMark <:+: t := by
  obtain ⟨before, behind, heq⟩ := h
  rw [List.append_assoc] at heq
  rcases List.append_eq_append_iff.1 heq with ⟨between, rfl, htail⟩ | ⟨between, rfl, htail⟩
  · match between, htail with
    | [], htail => simp [schemeMark] at htail
    | [c], htail =>
      obtain ⟨rfl, rfl⟩ : ':' = c ∧ '/' :: behind = t := by simpa [schemeMark] using htail
      exact .inr (.inl ⟨List.getLast?_concat, rfl⟩)
    | [c, d], htail =>
      obtain ⟨rfl, rfl, -⟩ : ':' = c ∧ '/' = d ∧ _ := by simpa [schemeMark] using htail
      exact .inr (.inr (.inl (List.suffix_append _ _)))
    | c :: d :: e :: more, htail =>
      obtain ⟨rfl, rfl, rfl, -⟩ : ':' = c ∧ '/' = d ∧ '/' = e ∧ _ := by
        simpa [schemeMark] using htail
      exact .inl ⟨before, more, by simp [schemeMark]⟩
  · cases between with
    | nil => simp [schemeMark] at htail
    | cons c between => exact .inr (.inr (.inr ⟨between, behind, by
        rw [List.append_assoc]; exact (List.cons.inj htail).2.symm⟩))

/-- A relative path behind a slash brings no scheme, unless the slash is the second of a mark. -/
theorem schemeMark_absent_append (hs : ¬schemeMark <:+: s) (hend : ¬[':', '/'] <:+ s)
    (ht : IsRelative t) : ¬schemeMark <:+: s ++ '/' :: t := by
  intro hinside
  rcases schemeMark_infix_append hinside with hin | ⟨-, hhead⟩ | hend' | hin
  · exact hs hin
  · exact ht.slash hhead
  · exact hend hend'
  · exact schemeMark_absent ht.colon hin

section Folders

/-- A folder behind which no scheme comes about: it has one already, or does not end in a colon but
for slashes. -/
def Joins (folder : Text) : Prop :=
  schemeMark <:+: folder ∨ (trimSlashes folder).getLast? ≠ some ':'

theorem joins_of_not_mem (h : ':' ∉ folder) : Joins folder :=
  .inr fun hlast => h ((List.rdropWhile_prefix _ _).subset (List.mem_of_getLast? hlast))

theorem getLast?_trimSlashes (folder : Text) : (trimSlashes folder).getLast? ≠ some '/' := by
  intro hlast
  have hne : trimSlashes folder ≠ [] := by
    intro hnil
    rw [hnil] at hlast
    cases hlast
  rw [List.getLast?_eq_some_getLast hne] at hlast
  exact List.rdropWhile_last_not _ _ hne (decide_eq_true (Option.some.inj hlast))

theorem trimSlashes_cons_slash (rest : Text) :
    trimSlashes ('/' :: rest) =
      if trimSlashes rest = [] then [] else '/' :: trimSlashes rest :=
  trimSlashes_append ['/'] rest

theorem head?_trimSlashes_append (hfolder : folder ≠ []) (hhead : folder.head? ≠ some '/')
    (t : Text) : (trimSlashes folder ++ t).head? = folder.head? := by
  obtain ⟨c, more, rfl⟩ := List.exists_cons_of_ne_nil hfolder
  obtain ⟨slashes, hslashes⟩ := List.rdropWhile_prefix (· = '/') (c :: more)
  change trimSlashes (c :: more) ++ slashes = c :: more at hslashes
  cases htrim : trimSlashes (c :: more) with
  | nil =>
    -- a folder of slashes begins with one
    have hall := List.rdropWhile_eq_nil_iff.1 htrim c List.mem_cons_self
    exact absurd (by simpa using hall) hhead
  | cons d trimmed =>
    rw [htrim, List.cons_append] at hslashes
    rw [← hslashes]
    rfl

theorem not_schemeMark_infix_joined (hmark : ¬schemeMark <:+: folder) (hpath : IsRelative path) :
    ¬schemeMark <:+: trimSlashes folder ++ '/' :: path := by
  refine schemeMark_absent_append ?_ ?_ hpath
  · exact fun hinside => hmark (hinside.trans (List.rdropWhile_prefix _ _).isInfix)
  · rintro ⟨front, hend⟩
    apply getLast?_trimSlashes folder
    rw [← hend, List.getLast?_append_of_ne_nil _ (List.cons_ne_nil _ _)]
    rfl

/-- Behind a folder that joins, a relative path keeps the root and adds its steps. -/
theorem Parted.exists_joined (h : Parted folder root rest) (hjoins : Joins folder)
    (hfolder : folder ≠ []) (hpath : IsRelative path) :
    ∃ rest', Parted (Context.joined folder path) root rest' ∧
      steps rest' = steps rest ++ steps path := by
  have hjoined (hmark : ¬schemeMark <:+: folder) :
      Context.joined folder path = trimSlashes folder ++ '/' :: path := by
    rw [joined_eq, if_neg (hjoins.resolve_left hmark), List.append_assoc]
    rfl
  cases h with
  | @scheme scheme _ hscheme =>
    obtain ⟨rest', hscheme', hsteps⟩ := exists_joined_scheme scheme rest path
    rw [hscheme']
    exact ⟨rest', .scheme hscheme, hsteps⟩
  | slash hmark =>
    have hnone := not_schemeMark_infix_joined hmark hpath
    rw [hjoined hmark]
    rw [trimSlashes_cons_slash] at hnone ⊢
    split at hnone
    · next hrest =>
      rw [if_pos hrest]
      refine ⟨path, .slash hnone, ?_⟩
      rw [← steps_trimSlashes rest, hrest, steps_nil, List.nil_append]
    · next hrest =>
      rw [if_neg hrest]
      refine ⟨trimSlashes rest ++ '/' :: path, .slash hnone, ?_⟩
      rw [steps_append, steps_trimSlashes]
  | bare hmark hhead =>
    rw [hjoined hmark]
    refine ⟨_, .bare (not_schemeMark_infix_joined hmark hpath) ?_, ?_⟩
    · rw [head?_trimSlashes_append hfolder hhead]
      exact hhead
    · rw [steps_append, steps_trimSlashes]

/-- What a relative path stands for in a folder: the root of the folder, and what is left of the
steps of the folder and then of the path. -/
theorem Context.resolve_eq_settle (h : Parted folder root rest) (hjoins : Joins folder)
    (hpath : IsRelative path) (name : Text) :
    (Context.mk name folder).resolve path =
      root ++ join '/' (settle (!root.isEmpty) (steps rest ++ steps path)) := by
  have hmark := schemeMark_absent hpath.colon
  rw [resolve_eq_normalize, located_of_relative _ hmark hpath.slash]
  by_cases hfolder : folder = []
  · rw [if_pos hfolder, normalize_eq (.bare hmark hpath.slash)]
    subst hfolder
    -- the empty folder has no root and no steps
    generalize hempty : ([] : Text) = folder at h
    cases h with
    | scheme => simp [schemeMark] at hempty
    | slash => cases hempty
    | bare =>
      rw [← hempty, steps_nil]
      simp only [List.nil_append]
  · obtain ⟨rest', hparted, hsteps⟩ := h.exists_joined hjoins hfolder hpath
    rw [if_neg hfolder, normalize_eq hparted, hsteps]

/-- Resolving one path, and another behind what it stands for, is the same as resolving the two in
one, however far the first one climbs. -/
theorem Context.resolve_resolve {p q : Text} (name name' : Text)
    (hform : schemeMark <:+: folder ∨ ':' ∉ folder) (hp : IsRelative p) (hq : IsRelative q) :
    (Context.mk name' ((Context.mk name folder).resolve p)).resolve q =
      (Context.mk name folder).resolve (p ++ '/' :: q) := by
  have hjoins : Joins folder := hform.elim .inl joins_of_not_mem
  obtain ⟨root, rest, hparted⟩ := exists_parted folder
  have hfirst := resolve_eq_settle hparted hjoins hp name
  have hsettled := settled_steps_append (!root.isEmpty) rest p
  have hparted' := hparted.canonical hsettled.segment
  -- the folder in between has the scheme of the first one, or no colon either
  have hjoins' : Joins (root ++ join '/' (settle (!root.isEmpty) (steps rest ++ steps p))) := by
    rcases hform with hmark | hcolon
    · exact .inl (hparted'.schemeMark_infix_iff.2 (hparted.schemeMark_infix_iff.1 hmark))
    · apply joins_of_not_mem
      rw [← hfirst]
      exact not_mem_resolve hcolon hp.colon (by decide)
  rw [hfirst, resolve_eq_settle hparted' hjoins' hq,
    resolve_eq_settle hparted hjoins (hp.append hq), steps_append, ← List.append_assoc,
    steps_join (pieces_of_segments hsettled.segment),
    settle_append _ fun _ => not_mem_of_mem_steps_append]

theorem Context.resolve_resolve_climbing :
    ':' ∉ "scenes".toList ∧ IsRelative "../..".toList ∧ IsRelative "b/../c".toList ∧
      (mk [] ((mk [] "scenes".toList).resolve "../..".toList)).resolve "b/../c".toList =
        (mk [] "scenes".toList).resolve ("../..".toList ++ '/' :: "b/../c".toList) := by
  have hp : IsRelative "../..".toList := ⟨by decide, by decide, by decide⟩
  have hq : IsRelative "b/../c".toList := ⟨by decide, by decide, by decide⟩
  exact ⟨by decide, hp, hq, resolve_resolve [] [] (.inr (by decide)) hp hq⟩

end Folders

section Subfolders

/-- The folder that some names lead to from another. -/
def subfolder (folder : Text) (names : List Text) : Text :=
  if folder.getLast? = some '/' then folder ++ join '/' names
  else folder ++ '/' :: join '/' names

/-- Names of folders that cannot be taken for a scheme. -/
structure AreFolders (names : List Text) : Prop where
  ne_nil : names ≠ []
  segment : ∀ s ∈ names, IsSegment s
  colon : ∀ s ∈ names, ':' ∉ s

theorem AreFolders.pieces (h : AreFolders names) : ∀ s ∈ names, '/' ∉ s ∧ s ≠ [] :=
  pieces_of_segments h.segment

theorem AreFolders.isRelative (h : AreFolders names) : IsRelative (join '/' names) := by
  refine ⟨?_, not_mem_join (by decide) h.colon, head?_join h.pieces⟩
  intro hnil
  have hsteps := steps_join h.pieces
  rw [hnil, steps_nil] at hsteps
  exact h.ne_nil hsteps.symm

theorem trimSlashes_ne_nil (hpath : IsRelative path) : trimSlashes path ≠ [] := by
  intro hnil
  obtain ⟨c, more, rfl⟩ := List.exists_cons_of_ne_nil hpath.ne_nil
  have hall := List.rdropWhile_eq_nil_iff.1 hnil c List.mem_cons_self
  exact hpath.slash (by simpa using hall)

theorem steps_append_of_last (h : rest = [] ∨ rest.getLast? = some '/') (t : Text) :
    steps (rest ++ t) = steps rest ++ steps t := by
  rcases h with rfl | h
  · rfl
  · rw [← List.dropLast_append_getLast? '/' h, List.append_assoc, List.singleton_append,
      steps_append, steps_append, steps_nil, List.append_nil]

/-- No scheme comes about between a folder and the name of one in it. -/
theorem not_schemeMark_infix_subfolder (hmark : ¬schemeMark <:+: folder)
    (hnames : AreFolders names) : ¬schemeMark <:+: subfolder folder names := by
  unfold subfolder
  split
  · next hlast =>
    -- the slash between the two is the last one of the folder
    rw [← List.dropLast_append_getLast? '/' hlast] at hmark ⊢
    generalize folder.dropLast = front at hmark ⊢
    rw [List.append_assoc, List.singleton_append]
    refine schemeMark_absent_append ?_ ?_ hnames.isRelative
    · exact fun hinside => hmark (hinside.trans (List.prefix_append _ _).isInfix)
    · rintro ⟨scheme, rfl⟩
      exact hmark ⟨scheme, [], by simp [schemeMark]⟩
  · next hlast =>
    refine schemeMark_absent_append hmark ?_ hnames.isRelative
    rintro ⟨scheme, rfl⟩
    exact hlast (by simp)

/-- A folder below another keeps the root and adds the names to the steps. -/
theorem Parted.exists_subfolder (h : Parted folder root rest) (hfolder : folder ≠ [])
    (hnames : AreFolders names) :
    ∃ rest', Parted (subfolder folder names) root rest' ∧ steps rest' = steps rest ++ names := by
  have hnone (hmark : ¬schemeMark <:+: folder) := not_schemeMark_infix_subfolder hmark hnames
  obtain ⟨rest', hsubfolder, hsteps⟩ : ∃ rest', subfolder folder names = root ++ rest' ∧
      steps rest' = steps rest ++ names := by
    unfold subfolder
    rw [h.eq_append]
    split
    · next hlast =>
      refine ⟨rest ++ join '/' names, List.append_assoc _ _ _, ?_⟩
      rw [steps_append_of_last, steps_join hnames.pieces]
      -- the slash at the end of the folder is one of the rest, or else of the root
      by_cases hrest : rest = []
      · exact .inl hrest
      · rw [List.getLast?_append_of_ne_nil _ hrest] at hlast
        exact .inr hlast
    · refine ⟨rest ++ '/' :: join '/' names, List.append_assoc _ _ _, ?_⟩
      rw [steps_append, steps_join hnames.pieces]
  rw [hsubfolder] at hnone ⊢
  refine ⟨rest', ?_, hsteps⟩
  cases h with
  | scheme hscheme => exact .scheme hscheme
  | slash hmark => exact .slash (hnone hmark)
  | bare hmark hhead =>
    refine .bare (hnone hmark) ?_
    obtain ⟨c, more, rfl⟩ := List.exists_cons_of_ne_nil hfolder
    rw [← hsubfolder, subfolder]
    split
    · exact hhead
    · exact hhead

theorem joins_subfolder (folder : Text) (hnames : AreFolders names) :
    Joins (subfolder folder names) := by
  have hrelative := hnames.isRelative
  have htrim := trimSlashes_ne_nil hrelative
  have hlast (front : Text) :
      (trimSlashes (front ++ join '/' names)).getLast? ≠ some ':' := by
    rw [trimSlashes_append, if_neg htrim, List.getLast?_append_of_ne_nil _ htrim]
    intro hcolon
    apply hrelative.colon
    exact (List.rdropWhile_prefix _ _).subset (List.mem_of_getLast? hcolon)
  unfold subfolder
  split
  · exact .inr (hlast folder)
  · rw [← List.singleton_append, ← List.append_assoc]
    exact .inr (hlast _)

theorem schemeMark_infix_normalize (path : Text) :
    schemeMark <:+: normalize path ↔ schemeMark <:+: path := by
  obtain ⟨root, rest, hparted⟩ := exists_parted path
  have hsettled := settled_steps (!root.isEmpty) rest
  rw [normalize_eq hparted, (hparted.canonical hsettled.segment).schemeMark_infix_iff,
    hparted.schemeMark_infix_iff]

/-- Behind a folder that does not join, a path gets a scheme. -/
theorem schemeMark_infix_joined (h : ¬Joins folder) (path : Text) :
    schemeMark <:+: Context.joined folder path := by
  have hlast : (trimSlashes folder).getLast? = some ':' := by
    by_contra hlast
    exact h (.inr hlast)
  rw [joined_eq, if_pos hlast, ← List.dropLast_append_getLast? ':' hlast]
  exact ⟨(trimSlashes folder).dropLast, path, by simp [schemeMark]⟩

/-- Resolving in a folder below another one comes to the same as resolving behind its names in that
one, if and only if that one is not empty and joins. From the empty folder the names lead to the
root, and behind a folder that does not join they come to stand in a scheme of its name. -/
theorem Context.resolve_subfolder_iff (hnames : AreFolders names) (hpath : IsRelative path)
    (name name' : Text) :
    (Context.mk name (subfolder folder names)).resolve path =
        (Context.mk name' folder).resolve (join '/' names ++ '/' :: path) ↔
      folder ≠ [] ∧ Joins folder := by
  have hbehind := hnames.isRelative.append hpath
  have hjoins := joins_subfolder folder hnames
  by_cases hfolder : folder = []
  · refine iff_of_false ?_ fun h => h.1 hfolder
    subst hfolder
    -- one path is rooted, and the other is not
    have hslash : Parted (subfolder [] names) ['/'] (join '/' names) :=
      (Parted.slash (by decide) : Parted ['/'] ['/'] []).canonical hnames.segment
    have hbare : Parted [] [] [] := .bare (by decide) (by simp)
    have hsettled := settled_steps_append false [] (join '/' names ++ '/' :: path)
    rw [resolve_eq_settle hslash hjoins hpath,
      resolve_eq_settle hbare (joins_of_not_mem (by simp)) hbehind]
    intro heq
    apply head?_join (pieces_of_segments hsettled.segment)
    exact (congrArg List.head? heq).symm
  · obtain ⟨root, rest, hparted⟩ := exists_parted folder
    obtain ⟨rest', hparted', hsteps⟩ := hparted.exists_subfolder hfolder hnames
    by_cases hfolderJoins : Joins folder
    · refine iff_of_true ?_ ⟨hfolder, hfolderJoins⟩
      rw [resolve_eq_settle hparted' hjoins hpath, resolve_eq_settle hparted hfolderJoins hbehind,
        hsteps, steps_append, steps_join hnames.pieces, List.append_assoc]
    · refine iff_of_false ?_ fun h => hfolderJoins h.2
      -- one path has a scheme, and the other has none
      have hmark : ¬schemeMark <:+: folder := fun hmark => hfolderJoins (.inl hmark)
      have hsettled := settled_steps_append (!root.isEmpty) rest' path
      have hscheme : schemeMark <:+:
          (Context.mk name' folder).resolve (join '/' names ++ '/' :: path) := by
        rw [resolve_eq_normalize, located_of_relative _ (schemeMark_absent hbehind.colon)
          hbehind.slash, if_neg hfolder, schemeMark_infix_normalize]
        exact schemeMark_infix_joined hfolderJoins _
      intro heq
      rw [← heq, resolve_eq_settle hparted' hjoins hpath,
        (hparted'.canonical hsettled.segment).schemeMark_infix_iff,
        ← hparted'.schemeMark_infix_iff] at hscheme
      exact not_schemeMark_infix_subfolder hmark hnames hscheme

end Subfolders

end NodeMarkup.Resource
