import Mathlib.Data.List.Nodup
import NodeMarkup.Disk.Host
import NodeMarkup.Proofs.Disk.Path
/-!
Trees of files. Where a path leads does not depend on the files, so the place of a path is a matter
of its pieces alone. Files are written and directories created at places that hold no directory, so
that no directory is lost and no path that leads to a file comes to lead elsewhere.
-/
namespace NodeMarkup.Disk

open Text

variable {t t' : Tree} {place p q : Place} {pieces : List Text} {path x : Text} {slash : Bool}
  {content : ByteArray} {r : Text}

/-- Where one piece of a path leads from a place. -/
def Place.step (place : Place) (piece : Text) : Place :=
  if !counts piece then place
  else if piece = "..".toList then place.dropLast else place ++ [piece]

/-- The place that a path leads to, whatever files there are. -/
def Tree.placeOf (t : Tree) (path : Text) : Place :=
  (split '/' path).foldl Place.step (t.origin path)

theorem Place.step_idle (h : counts x = false) (place : Place) : place.step x = place := by
  rw [Place.step, h]
  rfl

theorem Place.step_name (h : counts x = true) (hup : x ≠ "..".toList) (place : Place) :
    place.step x = place ++ [x] := by
  rw [Place.step, h, Bool.not_true, if_neg Bool.false_ne_true, if_neg hup]

theorem foldl_step_nothing (h : pieces.all List.isEmpty = true) (place : Place) :
    pieces.foldl Place.step place = place := by
  induction pieces generalizing place with
  | nil => rfl
  | cons x pieces ih =>
    rw [List.all_cons, Bool.and_eq_true, List.isEmpty_iff] at h
    obtain ⟨rfl, h⟩ := h
    exact ih h place

namespace Tree

/-- The pieces of a path lead from a directory to a place that holds no directory. The flag says
that a slash stands behind them. -/
inductive Leads (t : Tree) : Place → List Text → Place → Bool → Prop where
  | skip {place p : Place} {piece : Text} {rest : List Text} {slash : Bool}
      (idle : counts piece = false) (more : Leads t place rest p slash) :
      Leads t place (piece :: rest) p slash
  | up {place p : Place} {rest : List Text} {slash : Bool}
      (more : Leads t (place.step "..".toList) rest p slash) :
      Leads t place ("..".toList :: rest) p slash
  | down {place p : Place} {piece : Text} {rest : List Text} {slash : Bool}
      (counts : counts piece = true) (notUp : piece ≠ "..".toList)
      (short : byteLength piece ≤ maxNameBytes)
      (directory : t.get? (place ++ [piece]) = some .directory)
      (more : Leads t (place ++ [piece]) rest p slash) : Leads t place (piece :: rest) p slash
  | stop {place : Place} {piece : Text} {rest : List Text}
      (counts : counts piece = true) (notUp : piece ≠ "..".toList)
      (short : byteLength piece ≤ maxNameBytes)
      (free : t.get? (place ++ [piece]) ≠ some .directory)
      (behind : rest.all List.isEmpty = true) :
      Leads t place (piece :: rest) (place ++ [piece]) (!rest.isEmpty)

/-- What a path is said to lead to, by what stands at the place. -/
def targetAt (place : Place) (slash : Bool) : Option Entry → Target
  | none => .vacant place slash
  | some .directory => .directory place
  | some (.file content) => .file place content slash

theorem follow_idle (h : counts x = false) :
    t.follow place (x :: pieces) = t.follow place pieces := by
  have hidle : (x = [] || x = ".".toList) = true := by
    simpa [counts, or_iff_not_imp_left] using h
  rw [Tree.follow, if_pos hidle]

theorem follow_up :
    t.follow place ("..".toList :: pieces) = t.follow (place.step "..".toList) pieces := by
  rw [Tree.follow, if_neg (by decide), if_pos rfl]
  rfl

theorem follow_down (hcounts : counts x = true) (hup : x ≠ "..".toList)
    (hshort : byteLength x ≤ maxNameBytes) (hget : t.get? (place ++ [x]) = some .directory) :
    t.follow place (x :: pieces) = t.follow (place ++ [x]) pieces := by
  rw [Tree.follow, if_neg (by simpa using counts_iff.1 hcounts), if_neg hup, if_neg (by omega)]
  dsimp only
  rw [hget]

theorem follow_stop (hcounts : counts x = true) (hup : x ≠ "..".toList)
    (hshort : byteLength x ≤ maxNameBytes) (hfree : t.get? (place ++ [x]) ≠ some .directory)
    (hbehind : pieces.all List.isEmpty = true) :
    t.follow place (x :: pieces) =
      .ok (targetAt (place ++ [x]) (!pieces.isEmpty) (t.get? (place ++ [x]))) := by
  rw [Tree.follow, if_neg (by simpa using counts_iff.1 hcounts), if_neg hup, if_neg (by omega)]
  dsimp only
  match hget : t.get? (place ++ [x]) with
  | none => exact if_pos hbehind
  | some .directory => exact absurd hget hfree
  | some (.file content) => exact if_pos hbehind

theorem Leads.follow (h : t.Leads place pieces p slash) :
    t.follow place pieces = .ok (targetAt p slash (t.get? p)) := by
  induction h with
  | skip idle _ ih => rw [follow_idle idle, ih]
  | up _ ih => rw [follow_up, ih]
  | down counts notUp short directory _ ih => rw [follow_down counts notUp short directory, ih]
  | stop counts notUp short free behind => exact follow_stop counts notUp short free behind

/-- All that a path can be followed to. -/
inductive Followed (t : Tree) (place : Place) (pieces : List Text) : Target → Prop where
  | directory : Followed t place pieces (.directory (pieces.foldl Place.step place))
  | unnameable (slash : Bool) : Followed t place pieces (.unnameable slash)
  | spot {p : Place} {slash : Bool} (leads : t.Leads place pieces p slash) :
      Followed t place pieces (targetAt p slash (t.get? p))

theorem Followed.cons {target : Target} {piece : Text}
    (h : Followed t (place.step piece) pieces target)
    (hleads : ∀ p slash, t.Leads (place.step piece) pieces p slash →
      t.Leads place (piece :: pieces) p slash) : Followed t place (piece :: pieces) target := by
  cases h with
  | directory => exact .directory
  | unnameable slash => exact .unnameable slash
  | spot leads => exact .spot (hleads _ _ leads)

theorem followed {target : Target} (h : t.follow place pieces = .ok target) :
    Followed t place pieces target := by
  induction pieces generalizing place with
  | nil =>
    cases h
    exact .directory
  | cons piece rest ih =>
    rw [Tree.follow] at h
    split at h
    case isTrue hidle =>
      have hcounts : counts piece = false := by simpa [counts, or_iff_not_imp_left] using hidle
      have hstep : place.step piece = place := Place.step_idle hcounts place
      refine .cons ?_ fun p slash hleads => .skip hcounts ?_
      · rw [hstep]
        exact ih h
      · rwa [hstep] at hleads
    case isFalse hidle =>
      have hcounts : counts piece = true := counts_iff.2 (by simpa using hidle)
      split at h
      case isTrue hup =>
        subst hup
        exact .cons (ih h) fun _ _ => .up
      case isFalse hup =>
        have hstep : place.step piece = place ++ [piece] := Place.step_name hcounts hup place
        split at h
        case isTrue hlong =>
          split at h
          · cases h
            exact .unnameable _
          · cases h
        case isFalse hlong =>
          have hshort : byteLength piece ≤ maxNameBytes := Nat.le_of_not_lt hlong
          -- a file or nothing at all ends the walk, where only slashes may be left
          have hspot (hfree : t.get? (place ++ [piece]) ≠ some .directory)
              (hrest : rest.all List.isEmpty = true) : Followed t place (piece :: rest)
                (targetAt (place ++ [piece]) (!rest.isEmpty) (t.get? (place ++ [piece]))) :=
            .spot (.stop hcounts hup hshort hfree hrest)
          dsimp only at h
          cases hget : t.get? (place ++ [piece]) with
          | none =>
            rw [hget] at h hspot
            dsimp only at h
            split at h
            · next hrest =>
              cases h
              exact hspot (by simp) hrest
            · cases h
          | some entry =>
            rw [hget] at h hspot
            cases entry with
            | directory =>
              refine .cons ?_ fun p slash hleads => .down hcounts hup hshort hget ?_
              · rw [hstep]
                exact ih h
              · rwa [hstep] at hleads
            | file content =>
              dsimp only at h
              split at h
              · next hrest =>
                cases h
                exact hspot (by simp) hrest
              · cases h

theorem Leads.place_eq (h : t.Leads place pieces p slash) :
    p = pieces.foldl Place.step place := by
  induction h with
  | @skip place _ piece _ _ idle _ ih =>
    rw [ih, List.foldl_cons, Place.step_idle idle]
  | up _ ih => exact ih
  | @down place _ piece _ _ counts notUp _ _ _ ih =>
    rw [ih, List.foldl_cons, Place.step_name counts notUp]
  | @stop place piece rest counts notUp _ _ behind =>
    rw [List.foldl_cons, foldl_step_nothing behind, Place.step_name counts notUp]

/-- Without a slash behind it, the last piece names the place in the directory that the others lead
to. -/
theorem Leads.last (h : t.Leads place pieces p slash) (hslash : slash = false) :
    ∃ init x above, pieces = init ++ [x] ∧ counts x = true ∧ x ≠ "..".toList ∧
      byteLength x ≤ maxNameBytes ∧ t.follow place init = .ok (.directory above) ∧
      p = above ++ [x] := by
  induction h with
  | @skip place p piece rest slash idle more ih =>
    obtain ⟨init, x, above, rfl, hcounts, hup, hshort, hfollow, hp⟩ := ih hslash
    exact ⟨piece :: init, x, above, rfl, hcounts, hup, hshort, by rw [follow_idle idle, hfollow],
      hp⟩
  | up more ih =>
    obtain ⟨init, x, above, rfl, hcounts, hup, hshort, hfollow, hp⟩ := ih hslash
    exact ⟨"..".toList :: init, x, above, rfl, hcounts, hup, hshort, by rw [follow_up, hfollow], hp⟩
  | @down place p piece rest slash counts notUp short directory more ih =>
    obtain ⟨init, x, above, rfl, hcounts, hup, hshort, hfollow, hp⟩ := ih hslash
    exact ⟨piece :: init, x, above, rfl, hcounts, hup, hshort,
      by rw [follow_down counts notUp short directory, hfollow], hp⟩
  | @stop place piece rest counts notUp short free behind =>
    obtain rfl : rest = [] := by simpa using hslash
    exact ⟨[], piece, place, rfl, counts, notUp, short, rfl, rfl⟩

theorem Leads.free (h : t.Leads place pieces p slash) : t.get? p ≠ some .directory := by
  induction h with
  | skip _ _ ih => exact ih
  | up _ ih => exact ih
  | down _ _ _ _ _ ih => exact ih
  | stop _ _ _ free _ => exact free

/-- A path leads to the same place in a tree that has all the directories, and none at the place. -/
theorem Leads.of_directories (h : t.Leads place pieces p slash)
    (hkept : ∀ q, t.get? q = some .directory → t'.get? q = some .directory)
    (hfree : t'.get? p ≠ some .directory) : t'.Leads place pieces p slash := by
  induction h with
  | skip idle _ ih => exact .skip idle (ih hfree)
  | up _ ih => exact .up (ih hfree)
  | down counts notUp short directory _ ih =>
    exact .down counts notUp short (hkept _ directory) (ih hfree)
  | stop counts notUp short _ behind => exact .stop counts notUp short hfree behind

/-- A path leads to a place that holds no directory. -/
structure Spot (t : Tree) (path : Text) (slash : Bool) : Prop where
  sound : pathFault? path = none
  leads : t.Leads (t.origin path) (split '/' path) (t.placeOf path) slash

theorem Spot.locate (h : t.Spot path slash) :
    t.locate path = .ok (targetAt (t.placeOf path) slash (t.get? (t.placeOf path))) := by
  rw [Tree.locate, h.sound]
  exact h.leads.follow

/-- All that a path can lead to. -/
theorem locate_cases {target : Target} (h : t.locate path = .ok target) :
    target = .directory (t.placeOf path) ∨ (∃ slash, target = .unnameable slash) ∨
    ∃ slash, t.Spot path slash ∧
      (t.get? (t.placeOf path) = none ∧ target = .vacant (t.placeOf path) slash ∨
      ∃ content, t.get? (t.placeOf path) = some (.file content) ∧
        target = .file (t.placeOf path) content slash) := by
  rw [Tree.locate] at h
  split at h
  · cases h
  · next hsound =>
    cases followed h with
    | directory => exact .inl rfl
    | unnameable slash => exact .inr (.inl ⟨slash, rfl⟩)
    | @spot p slash leads =>
      obtain rfl : p = t.placeOf path := leads.place_eq
      refine .inr (.inr ⟨slash, ⟨hsound, leads⟩, ?_⟩)
      match hget : t.get? (t.placeOf path) with
      | none => exact .inl ⟨rfl, rfl⟩
      | some .directory => exact absurd hget leads.free
      | some (.file content) => exact .inr ⟨content, rfl, rfl⟩

/-- The content of the file at a place. -/
def fileAt? (t : Tree) (place : Place) : Option ByteArray :=
  match t.get? place with
  | some (.file content) => some content
  | _ => none

theorem fileAt?_eq_some : t.fileAt? place = some content ↔ t.get? place = some (.file content) := by
  unfold fileAt?
  split <;> simp_all

theorem Spot.placeOf_ne_nil (h : t.Spot path slash) : t.placeOf path ≠ [] :=
  fun hroot => h.leads.free (if_pos hroot)

theorem get?_insert (h : p ≠ []) (entry : Entry) (q : Place) :
    (t.insert p entry).get? q = if q = p then some entry else t.get? q := by
  unfold get? insert
  by_cases hq : q = []
  · rw [if_pos hq, if_pos hq, if_neg fun heq => h (heq.symm.trans hq)]
  · rw [if_neg hq, if_neg hq]
    by_cases heq : q = p
    · rw [if_pos heq, List.find?_cons_of_pos (by simp [heq])]
      rfl
    · rw [if_neg heq, List.find?_cons_of_neg (by simpa using Ne.symm heq), List.find?_filter]
      congr 2
      funext entry
      by_cases hentry : entry.1 = q
      · simp [hentry, heq]
      · simp [hentry]

theorem read_iff : t.read path = .ok content ↔
    t.Spot path false ∧ t.fileAt? (t.placeOf path) = some content := by
  unfold Tree.read
  constructor
  · intro h
    cases hlocate : t.locate path with
    | error fault => rw [hlocate] at h; cases h
    | ok target =>
      rw [hlocate] at h
      rcases locate_cases hlocate with rfl | ⟨slash, rfl⟩ | ⟨slash, hspot, hget⟩
      · cases h
      · cases h
      · rcases hget with ⟨-, rfl⟩ | ⟨content, hget, rfl⟩
        · cases h
        · cases slash <;> cases h
          exact ⟨hspot, fileAt?_eq_some.2 hget⟩
  · rintro ⟨hspot, hfile⟩
    rw [hspot.locate, fileAt?_eq_some.1 hfile]
    rfl

/-- The last piece of a path that is read names the file in its directory. -/
theorem last_of_read (h : t.read path = .ok content) :
    ∃ x above, (split '/' path).getLast? = some x ∧ IsName x ∧ t.placeOf path = above ++ [x] := by
  obtain ⟨hspot, -⟩ := read_iff.1 h
  obtain ⟨init, x, above, hsplit, hcounts, hup, -, -, hplace⟩ := hspot.leads.last rfl
  have hlast : (split '/' path).getLast? = some x := by rw [hsplit, List.getLast?_concat]
  have hslash : '/' ∉ x := not_mem_of_mem_split (List.mem_of_mem_getLast? hlast)
  exact ⟨x, above, hlast, ⟨⟨hslash, hcounts⟩, hup⟩, hplace⟩

theorem write_iff : t.write path content = .ok t' ↔
    t.Spot path false ∧ t' = t.insert (t.placeOf path) (.file content) := by
  unfold Tree.write
  constructor
  · intro h
    cases hlocate : t.locate path with
    | error fault => rw [hlocate] at h; cases h
    | ok target =>
      rw [hlocate] at h
      rcases locate_cases hlocate with rfl | ⟨slash, rfl⟩ | ⟨slash, hspot, hget⟩
      · cases h
      · cases slash <;> cases h
      · rcases hget with ⟨-, rfl⟩ | ⟨old, -, rfl⟩ <;> cases slash <;> cases h <;>
          exact ⟨hspot, rfl⟩
  · rintro ⟨hspot, rfl⟩
    rw [hspot.locate]
    match hget : t.get? (t.placeOf path) with
    | none => rfl
    | some .directory => exact absurd hget hspot.leads.free
    | some (.file old) => rfl

theorem of_makeDirectory (h : t.makeDirectory path = .ok t') :
    ∃ slash, t.Spot path slash ∧ t.get? (t.placeOf path) = none ∧
      t' = t.insert (t.placeOf path) .directory := by
  unfold Tree.makeDirectory at h
  cases hlocate : t.locate path with
  | error fault => rw [hlocate] at h; cases h
  | ok target =>
    rw [hlocate] at h
    rcases locate_cases hlocate with rfl | ⟨slash, rfl⟩ | ⟨slash, hspot, hget⟩
    · cases h
    · cases h
    · rcases hget with ⟨hget, rfl⟩ | ⟨old, -, rfl⟩ <;> cases h
      exact ⟨slash, hspot, hget, rfl⟩

/-- The entries of a tree stand where names lead, each in a place of its own. -/
structure WellNamed (t : Tree) : Prop where
  named : ∀ entry ∈ t.entries, entry.1 ≠ [] ∧ ∀ x ∈ entry.1, IsName x
  apart : (t.entries.map Prod.fst).Nodup
  here : ∀ x ∈ t.here, IsName x

instance (t : Tree) : Decidable t.WellNamed :=
  decidable_of_iff ((∀ entry ∈ t.entries, entry.1 ≠ [] ∧ ∀ x ∈ entry.1, IsName x) ∧
      (t.entries.map Prod.fst).Nodup ∧ ∀ x ∈ t.here, IsName x)
    ⟨fun h => ⟨h.1, h.2.1, h.2.2⟩, fun h => ⟨h.named, h.apart, h.here⟩⟩

theorem WellNamed.insert (h : t.WellNamed) (hnil : place ≠ []) (hnames : ∀ x ∈ place, IsName x)
    (entry : Entry) : (t.insert place entry).WellNamed where
  named := by
    refine List.forall_mem_cons.2 ⟨⟨hnil, hnames⟩, fun other hother => ?_⟩
    exact h.named other (List.mem_of_mem_filter hother)
  apart := by
    refine List.nodup_cons.2 ⟨fun hmem => ?_, h.apart.sublist (List.filter_sublist.map _)⟩
    obtain ⟨other, hother, hplace⟩ := List.mem_map.1 hmem
    simpa [hplace] using (List.mem_filter.1 hother).2
  here := h.here

theorem Leads.isName (h : t.Leads place pieces p slash) (hplace : ∀ x ∈ place, IsName x)
    (hpieces : ∀ x ∈ pieces, '/' ∉ x) : ∀ x ∈ p, IsName x := by
  induction h with
  | skip _ _ ih => exact ih hplace (List.forall_mem_cons.1 hpieces).2
  | up _ ih =>
    refine ih (fun x hx => hplace x ?_) (List.forall_mem_cons.1 hpieces).2
    exact List.dropLast_subset _ hx
  | down counts notUp _ _ _ ih =>
    obtain ⟨hslash, hrest⟩ := List.forall_mem_cons.1 hpieces
    exact ih (List.forall_mem_append.2
      ⟨hplace, List.forall_mem_singleton.2 ⟨⟨hslash, counts⟩, notUp⟩⟩) hrest
  | stop counts notUp _ _ _ =>
    have hslash := (List.forall_mem_cons.1 hpieces).1
    exact List.forall_mem_append.2
      ⟨hplace, List.forall_mem_singleton.2 ⟨⟨hslash, counts⟩, notUp⟩⟩

/-- What is put where a path leads stands where names lead. -/
theorem WellNamed.insert_spot (h : t.WellNamed) (hspot : t.Spot path slash) (entry : Entry) :
    (t.insert (t.placeOf path) entry).WellNamed := by
  refine h.insert hspot.placeOf_ne_nil ?_ entry
  refine hspot.leads.isName ?_ fun x => not_mem_of_mem_split
  unfold origin
  split
  · exact fun x hx => absurd hx List.not_mem_nil
  · exact h.here

/-- One tree comes from another by creating directories and writing files. All directories stay, and
all files but those at places that may change. -/
structure Grows (changed : Place → Prop) (t t' : Tree) : Prop where
  here : t'.here = t.here
  named : t.WellNamed → t'.WellNamed
  directories : ∀ q, t.get? q = some .directory → t'.get? q = some .directory
  files : ∀ q, ¬ changed q → t'.fileAt? q = t.fileAt? q

namespace Grows

variable {changed changed' : Place → Prop} {t'' : Tree}

theorem refl (changed : Place → Prop) (t : Tree) : Grows changed t t :=
  ⟨rfl, id, fun _ => id, fun _ _ => rfl⟩

theorem trans (h : Grows changed t t') (h' : Grows changed t' t'') : Grows changed t t'' where
  here := h'.here.trans h.here
  named hnamed := h'.named (h.named hnamed)
  directories q hq := h'.directories q (h.directories q hq)
  files q hq := (h'.files q hq).trans (h.files q hq)

theorem mono (h : Grows changed t t') (hsub : ∀ q, changed q → changed' q) :
    Grows changed' t t' where
  here := h.here
  named := h.named
  directories := h.directories
  files q hq := h.files q fun hchanged => hq (hsub q hchanged)

theorem origin (h : Grows changed t t') (path : Text) : t'.origin path = t.origin path := by
  unfold Tree.origin
  rw [h.here]

theorem placeOf (h : Grows changed t t') (path : Text) : t'.placeOf path = t.placeOf path := by
  unfold Tree.placeOf
  rw [h.origin]

/-- A path leads where it did, if no directory has come in that place. -/
theorem spot (h : Grows changed t t') (hspot : t.Spot path slash)
    (hfree : t'.get? (t.placeOf path) ≠ some .directory) : t'.Spot path slash where
  sound := hspot.sound
  leads := by
    rw [h.origin, h.placeOf]
    exact hspot.leads.of_directories h.directories hfree

/-- A file that does not change is read as before. -/
theorem read (h : Grows changed t t') (hread : t.read path = .ok content)
    (hkept : ¬ changed (t.placeOf path)) : t'.read path = .ok content := by
  obtain ⟨hspot, hfile⟩ := read_iff.1 hread
  have hfile' : t'.fileAt? (t.placeOf path) = some content := (h.files _ hkept).trans hfile
  have hfree : t'.get? (t.placeOf path) ≠ some .directory := by
    rw [fileAt?_eq_some.1 hfile']
    simp
  exact read_iff.2 ⟨h.spot hspot hfree, by rwa [h.placeOf]⟩

end Grows

theorem grows_makeDirectory (h : t.makeDirectory path = .ok t') : Grows (fun _ => False) t t' := by
  obtain ⟨slash, hspot, hvacant, rfl⟩ := of_makeDirectory h
  have hget := get?_insert (t := t) hspot.placeOf_ne_nil .directory
  refine ⟨rfl, fun hnamed => hnamed.insert_spot hspot _, ?_, ?_⟩
  · intro q hq
    rw [hget]
    split
    · rfl
    · exact hq
  · intro q _
    unfold fileAt?
    rw [hget]
    by_cases hq : q = t.placeOf path
    · rw [if_pos hq, hq, hvacant]
    · rw [if_neg hq]

theorem grows_write (h : t.write path content = .ok t') : Grows (· = t.placeOf path) t t' := by
  obtain ⟨hspot, rfl⟩ := write_iff.1 h
  have hget := get?_insert (t := t) hspot.placeOf_ne_nil (.file content)
  refine ⟨rfl, fun hnamed => hnamed.insert_spot hspot _, ?_, ?_⟩
  · intro q hq
    rw [hget]
    split
    · next heq =>
      -- a path is followed through directories, so none stands where the file is written
      exact absurd (heq ▸ hq) hspot.leads.free
    · exact hq
  · intro q hq
    unfold fileAt?
    rw [hget, if_neg hq]

/-- What has been written is read back. -/
theorem read_of_write (h : t.write path content = .ok t') : t'.read path = .ok content := by
  have hgrows := grows_write h
  obtain ⟨hspot, rfl⟩ := write_iff.1 h
  have hget : (t.insert (t.placeOf path) (.file content)).get? (t.placeOf path) =
      some (.file content) := by
    rw [get?_insert hspot.placeOf_ne_nil, if_pos rfl]
  have hfree : (t.insert (t.placeOf path) (.file content)).get? (t.placeOf path) ≠
      some .directory := by
    rw [hget]
    simp
  refine read_iff.2 ⟨hgrows.spot hspot hfree, ?_⟩
  rw [hgrows.placeOf]
  exact fileAt?_eq_some.2 hget

end Tree

namespace Tree

/-- A tree that is planted by names alone is well named. -/
theorem WellNamed.plant (h : t.WellNamed) (hnil : t.here ++ place ≠ [])
    (hnames : ∀ x ∈ place, IsName x) (entry : Entry) : (t.plant place entry).WellNamed := by
  have hnames : ∀ x ∈ t.here ++ place, IsName x := List.forall_mem_append.2 ⟨h.here, hnames⟩
  unfold Tree.plant
  generalize t.here ++ place = place at hnil hnames
  have habove : ∀ above ∈ ancestors place, above ≠ [] ∧ ∀ x ∈ above, IsName x := by
    intro above hmem
    obtain ⟨n, hn, rfl⟩ := List.mem_map.1 hmem
    obtain ⟨first, rest, rfl⟩ := List.exists_cons_of_ne_nil hnil
    rw [List.length_cons, List.range_succ_eq_map, List.tail_cons] at hn
    obtain ⟨m, -, rfl⟩ := List.mem_map.1 hn
    exact ⟨List.cons_ne_nil _ _, fun x hx => hnames x (List.mem_of_mem_take hx)⟩
  refine WellNamed.insert ?_ hnil hnames entry
  -- each directory on the way is planted in its turn
  generalize ancestors place = directories at habove
  induction directories generalizing t with
  | nil => exact h
  | cons above directories ih =>
    obtain ⟨hfirst, hrest⟩ := List.forall_mem_cons.1 habove
    exact ih (h.insert hfirst.1 hfirst.2 .directory) hrest

theorem wellNamed_bare {here : Place} (hnil : here ≠ []) (hnames : ∀ x ∈ here, IsName x) :
    (bare here).WellNamed := by
  have hroot : (Tree.mk [] here).WellNamed :=
    ⟨fun _ hentry => absurd hentry List.not_mem_nil, List.nodup_nil, hnames⟩
  exact hroot.plant (by simpa using hnil) (by simp) .directory

/-- A path leads to a directory. -/
def IsDirectory (t : Tree) (path : Text) : Prop := ∃ place, t.locate path = .ok (.directory place)

theorem IsDirectory.locate (h : t.IsDirectory path) :
    t.locate path = .ok (.directory (t.placeOf path)) := by
  obtain ⟨place, h⟩ := h
  rcases locate_cases h with hplace | ⟨slash, hplace⟩ | ⟨slash, -, hplace⟩
  · rw [h, hplace]
  · cases hplace
  · rcases hplace with ⟨-, hplace⟩ | ⟨content, -, hplace⟩ <;> cases hplace

theorem IsDirectory.ne_nil (h : t.IsDirectory path) : path ≠ [] := by
  rintro rfl
  cases h.locate

end Tree

end NodeMarkup.Disk
