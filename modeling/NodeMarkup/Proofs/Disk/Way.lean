import NodeMarkup.Proofs.Disk.Components
import NodeMarkup.Proofs.Disk.Tree
/-!
The way to a file. A path leads through one place after another, also where nothing stands yet; what
can become of the path is a matter of what stands on that way.
-/
namespace NodeMarkup.Disk

open Text Disk.Path

variable {t t' : Tree} {place p q : Place} {pieces more init : List Text} {path x : Text}
  {slash : Bool}

/-- The places that some pieces of a path lead to one after another by a name. -/
def Place.way (place : Place) : List Text → List Place
  | [] => []
  | piece :: rest =>
    if counts piece && piece ≠ "..".toList then place.step piece :: (place.step piece).way rest
    else (place.step piece).way rest

namespace Place

theorem way_cons_of_isName (hcounts : counts x = true) (hup : x ≠ "..".toList) :
    place.way (x :: pieces) = (place ++ [x]) :: (place ++ [x]).way pieces := by
  rw [way, step_name hcounts hup, hcounts, Bool.true_and, if_pos (decide_eq_true hup)]

theorem way_cons_up : place.way ("..".toList :: pieces) = (place.step "..".toList).way pieces := by
  rw [way, if_neg (by simp)]

theorem way_cons_idle (h : counts x = false) : place.way (x :: pieces) = place.way pieces := by
  rw [way, step_idle h, h, Bool.false_and, if_neg Bool.false_ne_true]

theorem way_append : place.way (pieces ++ more) =
    place.way pieces ++ (pieces.foldl step place).way more := by
  induction pieces generalizing place with
  | nil => rfl
  | cons x pieces ih =>
    rw [List.cons_append, way, way, ih, List.foldl_cons]
    split <;> rfl

theorem way_filter : place.way (pieces.filter counts) = place.way pieces := by
  induction pieces generalizing place with
  | nil => rfl
  | cons x pieces ih =>
    by_cases hcounts : counts x = true
    · rw [List.filter_cons_of_pos hcounts, way, way, ih]
    · rw [List.filter_cons_of_neg hcounts, way_cons_idle (by simpa using hcounts), ih]

end Place

/-- Between its slashes a path has the pieces that it is taken apart to, and one in front of them
that does not count, if it does not begin with a piece. -/
theorem split_eq (path : Text) : split '/' path = (ofText path).pieces ∨
    ∃ x rest, counts x = false ∧ split '/' path = x :: rest ∧
      ((ofText path).pieces = rest ∨ (ofText path).pieces = [] :: rest) := by
  unfold ofText
  split
  · exact .inr ⟨[], _, rfl, split_cons_separator _ _, .inl rfl⟩
  · next rest =>
    split
    · next hrest =>
      refine .inr ⟨".".toList, ?_⟩
      cases rest with
      | nil => exact ⟨[], by decide, rfl, .inr rfl⟩
      | cons c rest =>
        obtain rfl : c = '/' := by simpa using hrest
        have hpieces : split '/' ('/' :: rest) = [] :: split '/' rest := split_cons_separator _ _
        exact ⟨split '/' rest, by decide, split_append '/' ".".toList rest, .inr hpieces⟩
    · exact .inl rfl
  · exact .inl rfl

theorem filter_split (path : Text) : (split '/' path).filter counts = (ofText path).route := by
  unfold route
  obtain hsplit | ⟨x, rest, hx, hsplit, hpieces | hpieces⟩ := split_eq path
  · rw [hsplit]
  · rw [hsplit, hpieces, List.filter_cons_of_neg (by simp [hx])]
  · rw [hsplit, hpieces, List.filter_cons_of_neg (by simp [hx]), List.filter_cons_of_neg (by decide)]

namespace Tree

theorem follow_split (t : Tree) (place : Place) (path : Text) :
    t.follow place (split '/' path) = t.follow place (ofText path).pieces := by
  obtain hsplit | ⟨x, rest, hx, hsplit, hpieces | hpieces⟩ := split_eq path
  · rw [hsplit]
  · rw [hsplit, hpieces, follow_idle hx]
  · rw [hsplit, hpieces, follow_idle hx, follow_idle (by decide)]

/-- Pieces lead to a directory if all places on their way are directories. -/
theorem follow_eq_directory_iff : t.follow place pieces = .ok (.directory q) ↔
    (∀ x ∈ pieces.filter counts, byteLength x ≤ maxNameBytes) ∧
      (∀ p ∈ place.way pieces, t.get? p = some .directory) ∧ q = pieces.foldl Place.step place := by
  induction pieces generalizing place with
  | nil => simp [Tree.follow, Place.way, eq_comm]
  | cons x pieces ih =>
    by_cases hcounts : counts x = true
    · rw [List.filter_cons_of_pos hcounts, List.forall_mem_cons, List.foldl_cons]
      by_cases hup : x = "..".toList
      · subst hup
        have hshort : byteLength "..".toList ≤ maxNameBytes := by decide
        rw [follow_up, Place.way_cons_up, ih]
        exact ⟨fun h => ⟨⟨hshort, h.1⟩, h.2⟩, fun h => ⟨h.1.2, h.2⟩⟩
      · rw [Place.way_cons_of_isName hcounts hup, List.forall_mem_cons, Place.step_name hcounts hup]
        constructor
        · intro h
          rw [Tree.follow, if_neg (by simpa using counts_iff.1 hcounts), if_neg hup] at h
          split at h
          · split at h <;> cases h
          · next hlong =>
            dsimp only at h
            rcases hget : t.get? (place ++ [x]) with _ | ⟨content⟩ | _ <;> rw [hget] at h
            · dsimp only at h
              split at h <;> cases h
            · dsimp only at h
              split at h <;> cases h
            · obtain ⟨hpieces, hway, hq⟩ := ih.1 h
              exact ⟨⟨Nat.le_of_not_lt hlong, hpieces⟩, ⟨rfl, hway⟩, hq⟩
        · rintro ⟨⟨hshort, hpieces⟩, ⟨hget, hway⟩, hq⟩
          rw [follow_down hcounts hup hshort hget]
          exact ih.2 ⟨hpieces, hway, hq⟩
    · have hidle : counts x = false := by simpa using hcounts
      rw [List.filter_cons_of_neg hcounts, follow_idle hidle, Place.way_cons_idle hidle,
        List.foldl_cons, Place.step_idle hidle, ih]

theorem follow_append (h : t.follow place pieces = .ok (.directory q)) (more : List Text) :
    t.follow place (pieces ++ more) = t.follow q more := by
  obtain ⟨hshort, hway, rfl⟩ := follow_eq_directory_iff.1 h
  clear h
  induction pieces generalizing place with
  | nil => rfl
  | cons x pieces ih =>
    by_cases hcounts : counts x = true
    · rw [List.filter_cons_of_pos hcounts, List.forall_mem_cons] at hshort
      by_cases hup : x = "..".toList
      · subst hup
        rw [Place.way_cons_up] at hway
        rw [List.cons_append, follow_up, ih hshort.2 hway]
        rfl
      · rw [Place.way_cons_of_isName hcounts hup, List.forall_mem_cons] at hway
        rw [List.cons_append, follow_down hcounts hup hshort.1 hway.1, ih hshort.2 hway.2,
          List.foldl_cons, Place.step_name hcounts hup]
    · have hidle : counts x = false := by simpa using hcounts
      rw [List.filter_cons_of_neg hcounts] at hshort
      rw [Place.way_cons_idle hidle] at hway
      rw [List.cons_append, follow_idle hidle, ih hshort hway, List.foldl_cons,
        Place.step_idle hidle]

/-- Where no file stands on the way, the last place is a directory or vacant, or a directory on the
way is missing. -/
theorem follow_cases_of_clear (hshort : ∀ x ∈ pieces.filter counts, byteLength x ≤ maxNameBytes)
    (hway : ∀ q ∈ place.way pieces, t.fileAt? q = none) :
    t.follow place pieces = .error .notFound ∨
    t.follow place pieces = .ok (.directory (pieces.foldl Place.step place)) ∨
    ∃ slash, t.Leads place pieces (pieces.foldl Place.step place) slash ∧
      t.get? (pieces.foldl Place.step place) = none := by
  induction pieces generalizing place with
  | nil => exact .inr (.inl rfl)
  | cons x pieces ih =>
    rw [List.foldl_cons]
    by_cases hcounts : counts x = true
    · rw [List.filter_cons_of_pos hcounts, List.forall_mem_cons] at hshort
      by_cases hup : x = "..".toList
      · subst hup
        rw [Place.way_cons_up] at hway
        rw [follow_up]
        refine (ih hshort.2 hway).imp_right (.imp_right ?_)
        rintro ⟨slash, h, hfree⟩
        exact ⟨slash, .up h, hfree⟩
      · rw [Place.way_cons_of_isName hcounts hup, List.forall_mem_cons] at hway
        rw [Place.step_name hcounts hup]
        rcases hget : t.get? (place ++ [x]) with _ | ⟨content⟩ | _
        -- nothing stands at the name: it is the last one, or the way ends too early
        · by_cases hbehind : pieces.all List.isEmpty = true
          · rw [foldl_step_nothing hbehind]
            exact .inr (.inr ⟨_, .stop hcounts hup hshort.1 (by simp [hget]) hbehind, hget⟩)
          · refine .inl ?_
            rw [Tree.follow, if_neg (by simpa using counts_iff.1 hcounts), if_neg hup,
              if_neg (Nat.not_lt.2 hshort.1)]
            dsimp only
            rw [hget]
            exact if_neg hbehind
        -- a file would be one on the way
        · have hfile := hway.1
          rw [fileAt?_eq_some.2 hget] at hfile
          cases hfile
        · rw [follow_down hcounts hup hshort.1 hget]
          refine (ih hshort.2 hway.2).imp_right (.imp_right ?_)
          rintro ⟨slash, h, hfree⟩
          exact ⟨slash, .down hcounts hup hshort.1 hget h, hfree⟩
    · have hidle : counts x = false := by simpa using hcounts
      rw [List.filter_cons_of_neg hcounts] at hshort
      rw [Place.way_cons_idle hidle] at hway
      rw [follow_idle hidle, Place.step_idle hidle]
      refine (ih hshort hway).imp_right (.imp_right ?_)
      rintro ⟨slash, h, hfree⟩
      exact ⟨slash, .skip hidle h, hfree⟩

/-- Behind a directory, one more name is never missing on the way. -/
theorem follow_concat (h : t.follow place pieces = .ok (.directory q)) (hcounts : counts x = true)
    (hup : x ≠ "..".toList) (hshort : byteLength x ≤ maxNameBytes) :
    t.follow place (pieces ++ [x]) = .ok (targetAt (q ++ [x]) false (t.get? (q ++ [x]))) := by
  rw [follow_append h]
  by_cases hget : t.get? (q ++ [x]) = some .directory
  · rw [follow_down hcounts hup hshort hget, hget]
    rfl
  · exact follow_stop hcounts hup hshort hget rfl

theorem Leads.way (h : t.Leads place pieces p slash) :
    (∀ x ∈ pieces.filter counts, byteLength x ≤ maxNameBytes) ∧ p ∈ place.way pieces ∧
      ∀ q ∈ place.way pieces, q ≠ p → t.get? q = some .directory := by
  induction h with
  | skip idle _ ih =>
    rw [List.filter_cons_of_neg (by simp [idle]), Place.way_cons_idle idle]
    exact ih
  | up _ ih =>
    rw [List.filter_cons_of_pos (by decide), List.forall_mem_cons, Place.way_cons_up]
    exact ⟨⟨by decide, ih.1⟩, ih.2⟩
  | down counts notUp short directory _ ih =>
    rw [List.filter_cons_of_pos counts, List.forall_mem_cons, Place.way_cons_of_isName counts notUp,
      List.forall_mem_cons]
    exact ⟨⟨short, ih.1⟩, List.mem_cons_of_mem _ ih.2.1, fun _ => directory, ih.2.2⟩
  | @stop place x rest counts notUp short _ behind =>
    have hrest : rest.filter Disk.counts = [] := by
      rw [List.filter_eq_nil_iff]
      intro piece hpiece
      rw [List.isEmpty_iff.1 (List.all_eq_true.1 behind piece hpiece)]
      decide
    have hway : (place ++ [x]).way rest = [] := by rw [← Place.way_filter, hrest, Place.way]
    rw [List.filter_cons_of_pos counts, hrest, Place.way_cons_of_isName counts notUp, hway]
    exact ⟨List.forall_mem_singleton.2 short, List.mem_singleton_self _,
      List.forall_mem_singleton.2 fun hne => absurd rfl hne⟩

/-- The places that a path leads to one after another. -/
def way (t : Tree) (path : Text) : List Place := (t.origin path).way (ofText path).route

theorem way_eq (t : Tree) (path : Text) : t.way path = (t.origin path).way (split '/' path) := by
  rw [way, ← filter_split, Place.way_filter]

theorem isDirectory_iff : t.IsDirectory path ↔ pathFault? path = none ∧
    (∀ x ∈ (ofText path).route, byteLength x ≤ maxNameBytes) ∧
      ∀ q ∈ t.way path, t.get? q = some .directory := by
  unfold IsDirectory Tree.locate
  rw [way_eq, ← filter_split]
  cases pathFault? path with
  | some fault => simp
  | none => simp [follow_eq_directory_iff]

/-- The places of the directories on the way to a file. -/
def wayTo (t : Tree) (path : Text) : List Place :=
  (t.origin path).way (ofText path).route.dropLast

/-- A file can be given to a path, once the directories on its way are there: all names are short,
no file stands on the way, and at its end stands no directory, also when the way is made. -/
structure Clear (t : Tree) (path : Text) : Prop where
  sound : pathFault? path = none
  named : EndsInName path
  short : ∀ x ∈ (ofText path).route, byteLength x ≤ maxNameBytes
  way : ∀ q ∈ t.wayTo path, t.fileAt? q = none
  off : t.placeOf path ∉ t.wayTo path
  free : t.get? (t.placeOf path) ≠ some .directory

instance (t : Tree) (path : Text) : Decidable (t.Clear path) :=
  decidable_of_iff (pathFault? path = none ∧ EndsInName path ∧
      (∀ x ∈ (ofText path).route, byteLength x ≤ maxNameBytes) ∧
      (∀ q ∈ t.wayTo path, t.fileAt? q = none) ∧ t.placeOf path ∉ t.wayTo path ∧
      t.get? (t.placeOf path) ≠ some .directory)
    ⟨fun ⟨sound, named, short, way, off, free⟩ => ⟨sound, named, short, way, off, free⟩,
      fun h => ⟨h.sound, h.named, h.short, h.way, h.off, h.free⟩⟩

/-- The pieces of a path that ends in a name. -/
theorem exists_split_of_endsInName (h : EndsInName path) :
    ∃ init x, split '/' path = init ++ [x] ∧ IsName x ∧
      (ofText path).route = init.filter counts ++ [x] := by
  obtain ⟨x, hlast, hx⟩ := h
  obtain ⟨init, hsplit⟩ := List.getLast?_eq_some_iff.1 hlast
  refine ⟨init, x, hsplit, hx, ?_⟩
  rw [← filter_split, hsplit, List.filter_append, List.filter_singleton, hx.counts]
  rfl

/-- Above a file stand directories. -/
theorem Spot.directories (h : t.Spot path false) : EndsInName path ∧
    ∀ q ∈ t.wayTo path, t.get? q = some .directory := by
  obtain ⟨init, x, above, hsplit, hcounts, hup, -, hfollow, -⟩ := h.leads.last rfl
  have hslash : '/' ∉ x := not_mem_of_mem_split (by rw [hsplit]; simp)
  have hends : EndsInName path := ⟨x, by rw [hsplit, List.getLast?_concat], ⟨hslash, hcounts⟩, hup⟩
  have hroute : (ofText path).route.dropLast = init.filter counts := by
    rw [← filter_split, hsplit, List.filter_append, List.filter_singleton, hcounts]
    exact List.dropLast_concat
  rw [wayTo, hroute, Place.way_filter]
  exact ⟨hends, (follow_eq_directory_iff.1 hfollow).2.1⟩

theorem Spot.clear (h : t.Spot path false) : t.Clear path := by
  obtain ⟨hends, hdirectory⟩ := h.directories
  exact {
    sound := h.sound
    named := hends
    short := by
      rw [← filter_split]
      exact h.leads.way.1
    way := fun q hq => by
      unfold fileAt?
      rw [hdirectory q hq]
    off := fun hmem => h.leads.free (hdirectory _ hmem)
    free := h.leads.free }

theorem origin_congr (h : t'.here = t.here) (path : Text) : t'.origin path = t.origin path := by
  unfold origin
  rw [h]

theorem Grows.wayTo {changed : Place → Prop} (h : t.Grows changed t') (path : Text) :
    t'.wayTo path = t.wayTo path := by
  rw [Tree.wayTo, Tree.wayTo, h.origin]

/-- A path stays clear as long as no file comes on its way and no directory to its end. -/
theorem Clear.lasts (h : t.Clear path) (hhere : t'.here = t.here)
    (hway : ∀ q ∈ t.wayTo path, t'.fileAt? q = none)
    (hfree : t'.get? (t.placeOf path) ≠ some .directory) : t'.Clear path := by
  have horigin := origin_congr hhere path
  have hwayTo : t'.wayTo path = t.wayTo path := by rw [wayTo, wayTo, horigin]
  have hplace : t'.placeOf path = t.placeOf path := by rw [placeOf, placeOf, horigin]
  exact {
    sound := h.sound
    named := h.named
    short := h.short
    way := by rwa [hwayTo]
    off := by rw [hwayTo, hplace]; exact h.off
    free := by rwa [hplace] }

theorem mem_way_of_mem_wayTo (h : q ∈ t.wayTo path) : q ∈ t.way path := by
  by_cases hnil : (ofText path).route = []
  · rw [wayTo, hnil] at h
    cases h
  · rw [way, ← List.dropLast_append_getLast hnil, Place.way_append]
    exact List.mem_append_left _ h

theorem origin_eq (t : Tree) (path : Text) :
    t.origin path = if (ofText path).anchor = .root then [] else t.here := by
  have hroot : path.head? = some '/' ↔ (ofText path).anchor = .root := by
    unfold ofText
    split
    · simp
    · split <;> simp
    · next hroot _ =>
      simp only [reduceCtorEq, iff_false]
      intro hhead
      obtain ⟨rest, hrest⟩ := List.head?_eq_some_iff.1 hhead
      exact hroot rest hrest
  unfold origin
  simp only [hroot]

theorem pathFault?_of_isPrefix {above : Text} (h : above <+: path) (hnil : above ≠ [])
    (hsound : pathFault? path = none) : pathFault? above = none := by
  obtain ⟨more, rfl⟩ := h
  have hempty : above.isEmpty = false := by simpa using hnil
  unfold pathFault? at hsound ⊢
  split at hsound
  · cases hsound
  · next hnul =>
    split at hsound
    · cases hsound
    · split at hsound
      · cases hsound
      · next hlong =>
        rw [byteLength_append] at hlong
        rw [if_neg, if_neg (by simp [hempty]), if_neg (by omega)]
        intro hmem
        exact hnul (by simp_all)

/-- The directory of a path is reached on the way to the path. -/
theorem exists_parent? (t : Tree) (hroute : (ofText path).route = init ++ [x]) :
    ∃ above, parent? path = some above ∧ (ofText above).Trimmed ∧ above.length < path.length ∧
      (above ≠ [] → pathFault? path = none → pathFault? above = none) ∧
      (ofText above).route = init ∧ t.origin above = t.origin path ∧
      t.way above = t.wayTo path := by
  obtain ⟨above, hparent, hanchor, hinit, htrimmed, hbegin⟩ := exists_parent?_of_route hroute
  have horigin : t.origin above = t.origin path := by rw [origin_eq, origin_eq, hanchor]
  have hway : t.way above = t.wayTo path := by
    rw [way, wayTo, horigin, hinit, hroute, List.dropLast_concat]
  refine ⟨above, hparent, htrimmed, ?_, pathFault?_of_isPrefix hbegin, hinit, horigin, hway⟩
  refine lt_of_le_of_ne hbegin.length_le fun hlength => ?_
  rw [hbegin.eq_of_length hlength, hroute] at hinit
  exact List.cons_ne_nil _ _ (List.append_right_eq_self.1 hinit)

end Tree

end NodeMarkup.Disk
