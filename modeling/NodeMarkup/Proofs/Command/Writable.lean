import NodeMarkup.Proofs.Command.Work
import NodeMarkup.Proofs.Disk.Way
/-!
What can be written. Directories are created along a way on which no file stands, and nowhere else;
so whether a file can be written is read off the tree as it is given, and lasts while the way and
the place at its end stay clear.
-/
namespace NodeMarkup.Command

open Disk Text Disk.Path

variable {world after : World} {path directory x : Text} {init : List Text}

/-- All on the way to a directory is a directory, and nothing else has changed. -/
structure Made (directory : Text) (world after : World) : Prop where
  directories : ∀ q ∈ world.tree.way directory, after.tree.get? q = some .directory
  others : ∀ q ∉ world.tree.way directory, after.tree.get? q = world.tree.get? q

theorem makeDirectory_eq (directory : Text) (world : World) :
    (Host.makeDirectory directory : StateM World _) world =
      changeTree (Tree.makeDirectory directory) world :=
  rfl

/-- A directory that is there already. -/
theorem orExisting_of_isDirectory (h : world.tree.IsDirectory directory)
    (result : Except AccessFault Unit) :
    (orExisting directory result : StateM World _) world = (.ok (), world) := by
  unfold orExisting
  cases result with
  | ok _ => rfl
  | error fault =>
    dsimp only
    rw [bind_apply, kind?_directory h]
    rfl

/-- Where nothing is missing but a directory itself, one attempt creates it. -/
theorem made_makeDirectory (world : World) (hsound : pathFault? directory = none)
    (hshort : ∀ x ∈ (ofText directory).route, byteLength x ≤ maxNameBytes)
    (hway : ∀ q ∈ world.tree.way directory, world.tree.fileAt? q = none)
    (hfound : world.tree.locate directory ≠ .error .notFound) :
    ((Host.makeDirectory directory : StateM World _) world).1 ≠ .error .notFound ∧
    ∃ after, (Host.makeDirectory directory >>= orExisting directory : StateM World _) world =
      (.ok (), after) ∧ Made directory world after := by
  rw [Tree.way_eq] at hway
  rw [← filter_split] at hshort
  rw [bind_apply, makeDirectory_eq, changeTree, Tree.makeDirectory]
  have hlocate : world.tree.locate directory =
      world.tree.follow (world.tree.origin directory) (split '/' directory) := by
    rw [Tree.locate, hsound]
  rw [hlocate] at hfound ⊢
  obtain hmissing | hdirectory | ⟨slash, hleads, hfree⟩ :=
    Tree.follow_cases_of_clear hshort hway
  · exact absurd hmissing hfound
  · have his : world.tree.IsDirectory directory := ⟨_, hlocate.trans hdirectory⟩
    rw [hdirectory]
    exact ⟨(by intro h; cases h), _, orExisting_of_isDirectory his _, (Tree.isDirectory_iff.1 his).2.2,
      fun _ _ => rfl⟩
  · rw [hleads.follow, hfree]
    obtain ⟨-, hend, habove⟩ := hleads.way
    rw [← Tree.way_eq] at hend habove
    generalize (split '/' directory).foldl Place.step (world.tree.origin directory) = place at *
    have hget (q : Place) : (world.tree.insert place .directory).get? q =
        if q = place then some .directory else world.tree.get? q :=
      Tree.get?_insert (fun hroot => hleads.free (if_pos hroot)) .directory q
    refine ⟨(by intro h; cases h), { world with tree := world.tree.insert place .directory }, rfl,
      fun q hq => ?_, fun q hq => ?_⟩
    · rw [hget]
      split
      · rfl
      · next hne => exact habove q hq hne
    · rw [hget, if_neg]
      rintro rfl
      exact hq hend

/-- Behind a directory, nothing but a last piece can be missing. -/
theorem locate_ne_notFound (htrimmed : (ofText directory).Trimmed)
    (hroute : (ofText directory).route = init ++ [x]) (hsound : pathFault? directory = none)
    {t : Tree} (hshort : ∀ x ∈ (ofText directory).route, byteLength x ≤ maxNameBytes)
    (habove : ∀ q ∈ t.wayTo directory, t.get? q = some .directory) :
    t.locate directory ≠ .error .notFound := by
  obtain ⟨front, hfront⟩ : ∃ front, (ofText directory).pieces = front ++ [x] :=
    List.getLast?_eq_some_iff.1 (htrimmed x (by rw [hroute, List.getLast?_concat]))
  have hfilter : front.filter counts ++ [x].filter counts = init ++ [x] := by
    rw [← List.filter_append, ← hfront]
    exact hroute
  have hcounts : counts x = true := by
    have hmem : x ∈ (ofText directory).route := by simp [hroute]
    exact (List.mem_filter.1 hmem).2
  rw [List.filter_singleton, hcounts] at hfilter
  have hinit : front.filter counts = init := List.append_cancel_right hfilter
  have hfollow : t.follow (t.origin directory) front =
      .ok (.directory (front.foldl Place.step (t.origin directory))) := by
    refine Tree.follow_eq_directory_iff.2 ⟨?_, ?_, rfl⟩
    · rw [hinit]
      exact fun y hy => hshort y (by simp [hroute, hy])
    · rw [← Place.way_filter, hinit]
      rwa [Tree.wayTo, hroute, List.dropLast_concat] at habove
  rw [Tree.locate, hsound]
  dsimp only
  rw [Tree.follow_split, hfront]
  by_cases hup : x = "..".toList
  · rw [Tree.follow_append hfollow, hup, Tree.follow_up]
    intro h
    cases h
  · rw [Tree.follow_concat hfollow hcounts hup (hshort x (by simp [hroute]))]
    rcases t.get? (front.foldl Place.step (t.origin directory) ++ [x]) with _ | ⟨content⟩ | _ <;>
      simp [Tree.targetAt]

theorem makeDirectoriesWithin_of_found (hnil : directory ≠ [])
    (hfound : ((Host.makeDirectory directory : StateM World _) world).1 ≠ .error .notFound)
    (n : Nat) :
    (makeDirectoriesWithin (n + 1) directory : StateM World _) world =
      (Host.makeDirectory directory >>= orExisting directory : StateM World _) world := by
  unfold makeDirectoriesWithin
  rw [if_neg (by simpa using hnil), bind_apply, bind_apply]
  cases hmade : ((Host.makeDirectory directory : StateM World _) world).1 with
  | ok value => rfl
  | error fault =>
    cases fault with
    | notFound => exact absurd hmade hfound
    | _ => rfl

theorem makeDirectoriesWithin_of_missing {above : Text} {mid : World} (hnil : directory ≠ [])
    (hmissing : world.tree.locate directory = .error .notFound)
    (hparent : parent? directory = some above) {n : Nat}
    (hrun : (makeDirectoriesWithin n above : StateM World _) world = (.ok (), mid)) :
    (makeDirectoriesWithin (n + 1) directory : StateM World _) world =
      (Host.makeDirectory directory >>= orExisting directory : StateM World _) mid := by
  have hmake : (Host.makeDirectory directory : StateM World _) world =
      (.error .notFound, world) := by
    rw [makeDirectory_eq, changeTree, Tree.makeDirectory, hmissing]
    rfl
  unfold makeDirectoriesWithin
  rw [if_neg (by simpa using hnil), bind_apply, hmake, hparent]
  dsimp only
  rw [bind_apply, hrun]

/-- Directories are created all along a way on which no file stands. -/
theorem made_makeDirectoriesWithin (world : World) (n : Nat) (hlength : directory.length < n)
    (htrimmed : (ofText directory).Trimmed)
    (hsound : directory ≠ [] → pathFault? directory = none)
    (hshort : ∀ x ∈ (ofText directory).route, byteLength x ≤ maxNameBytes)
    (hway : ∀ q ∈ world.tree.way directory, world.tree.fileAt? q = none) :
    ∃ after, (makeDirectoriesWithin n directory : StateM World _) world = (.ok (), after) ∧
      Made directory world after := by
  induction n generalizing directory with
  | zero => exact absurd hlength (Nat.not_lt_zero _)
  | succ n ih =>
    by_cases hnil : directory = []
    · subst hnil
      exact ⟨world, rfl, fun _ hq => absurd hq List.not_mem_nil, fun _ _ => rfl⟩
    by_cases hfound : world.tree.locate directory = .error .notFound
    · obtain hroute | ⟨init, x, hroute⟩ := List.eq_nil_or_concat' (ofText directory).route
      · -- a path without pieces leads to a directory that exists
        have hhere : world.tree.IsDirectory directory :=
          Tree.isDirectory_iff.2 ⟨hsound hnil, hshort, by simp [Tree.way, hroute, Place.way]⟩
        rw [hhere.locate] at hfound
        cases hfound
      obtain ⟨above, hparent, habove, hshorter, hsound', hinit, -, hwayTo⟩ :=
        world.tree.exists_parent? hroute
      have hsub : ∀ q ∈ world.tree.way above, q ∈ world.tree.way directory := by
        rw [hwayTo]
        exact fun q => Tree.mem_way_of_mem_wayTo
      obtain ⟨mid, hrun, hmid⟩ := ih (by omega) habove (fun h => hsound' h (hsound hnil))
        (fun y hy => hshort y (by rw [hroute, ← hinit]; exact List.mem_append_left _ hy))
        (fun q hq => hway q (hsub q hq))
      have hgrown := (grown_makeDirectoriesWithin n above world).tree
      rw [hrun] at hgrown
      have hway' : mid.tree.way directory = world.tree.way directory := by
        rw [Tree.way, Tree.way, hgrown.origin]
      -- now nothing is missing but the directory itself
      have hfound' : mid.tree.locate directory ≠ .error .notFound := by
        refine locate_ne_notFound htrimmed hroute (hsound hnil) hshort fun q hq => ?_
        rw [hgrown.wayTo, ← hwayTo] at hq
        exact hmid.directories q hq
      obtain ⟨-, after, hmake, hmade⟩ := made_makeDirectory mid (hsound hnil) hshort
        (fun q hq => by rw [hgrown.files q id]; exact hway q (hway' ▸ hq)) hfound'
      refine ⟨after, (makeDirectoriesWithin_of_missing hnil hfound hparent hrun).trans hmake,
        by rw [← hway']; exact hmade.directories, fun q hq => ?_⟩
      rw [hmade.others q (by rwa [hway']), hmid.others q fun h => hq (hsub q h)]
    · obtain ⟨hne, after, hmake, hmade⟩ :=
        made_makeDirectory world (hsound hnil) hshort hway hfound
      exact ⟨after, (makeDirectoriesWithin_of_found hnil hne n).trans hmake, hmade⟩

/-- At the end of a way that is there, a file can be written. -/
theorem exists_write (h : world.tree.Clear path)
    (hway : ∀ q ∈ world.tree.wayTo path, world.tree.get? q = some .directory) (text : Text) :
    runOn world (orFail (.unwritableOutput path) (Host.write path (toBytes text))) =
      (.ok (), { world with
        tree := world.tree.insert (world.tree.placeOf path) (.file (toBytes text)) }) := by
  obtain ⟨init, x, hsplit, hx, hroute⟩ := Tree.exists_split_of_endsInName h.named
  have hshort := h.short
  rw [hroute] at hshort
  have hfollow : world.tree.follow (world.tree.origin path) init =
      .ok (.directory (init.foldl Place.step (world.tree.origin path))) := by
    refine Tree.follow_eq_directory_iff.2 ⟨fun y hy => hshort y (by simp [hy]), ?_, rfl⟩
    rwa [Tree.wayTo, hroute, List.dropLast_concat, Place.way_filter] at hway
  have hplace : world.tree.placeOf path =
      init.foldl Place.step (world.tree.origin path) ++ [x] := by
    rw [Tree.placeOf, hsplit, List.foldl_append, List.foldl_cons, Place.step_name hx.counts hx.notUp]
    rfl
  have hlocate : world.tree.locate path = .ok (Tree.targetAt (world.tree.placeOf path) false
      (world.tree.get? (world.tree.placeOf path))) := by
    rw [Tree.locate, h.sound, hplace, hsplit]
    exact Tree.follow_concat hfollow hx.counts hx.notUp (hshort x (by simp))
  rw [runOn_orFail]
  change ((changeTree (Tree.write path (toBytes text)) world).1.mapError _,
    (changeTree (Tree.write path (toBytes text)) world).2) = _
  unfold changeTree Tree.write
  rw [hlocate]
  rcases hget : world.tree.get? (world.tree.placeOf path) with _ | ⟨old⟩ | _
  · rfl
  · rfl
  · exact absurd hget h.free

/-- A file is written to a path that is clear, and all that comes besides it stands on the way. -/
theorem exists_writeOutput (h : world.tree.Clear path) (text : Text) :
    ∃ after, runOn world (writeOutput path text) = (.ok (), after) ∧
      ∀ q ∉ world.tree.wayTo path, q ≠ world.tree.placeOf path →
        after.tree.get? q = world.tree.get? q := by
  obtain ⟨init, x, -, hx, hroute⟩ := Tree.exists_split_of_endsInName h.named
  obtain ⟨above, hparent, htrimmed, -, hsound, habove, -, hwayTo⟩ :=
    world.tree.exists_parent? hroute
  obtain ⟨mid, hrun, hmade⟩ := made_makeDirectoriesWithin world (above.length + 1)
    (Nat.lt_succ_self _) htrimmed (fun hnil => hsound hnil h.sound)
    (fun y hy => h.short y (by rw [hroute, ← habove]; exact List.mem_append_left _ hy))
    (by rw [hwayTo]; exact h.way)
  have hgrown := (grown_makeDirectoriesWithin (above.length + 1) above world).tree
  rw [hrun] at hgrown
  have hplace : mid.tree.placeOf path = world.tree.placeOf path := hgrown.placeOf path
  have hmidTo : mid.tree.wayTo path = world.tree.way above := by
    rw [hwayTo, Tree.wayTo, Tree.wayTo, hgrown.origin]
  have hfree : mid.tree.get? (world.tree.placeOf path) ≠ some .directory := by
    rw [hmade.others _ (by rw [hwayTo]; exact h.off)]
    exact h.free
  have hmid : mid.tree.Clear path := by
    refine h.lasts hgrown.here (fun q hq => ?_) hfree
    rw [hgrown.files q id]
    exact h.way q hq
  refine ⟨{ mid with tree := mid.tree.insert (mid.tree.placeOf path) (.file (toBytes text)) },
    ?_, ?_⟩
  · unfold writeOutput
    dsimp only
    rw [hparent]
    dsimp only
    rw [runOn_bind, runOn_orFail, makeDirectories, hrun]
    exact exists_write hmid (by rw [hmidTo]; exact hmade.directories) text
  · intro q hq hne
    rw [← hmade.others q (by rwa [hwayTo])]
    change (mid.tree.insert (mid.tree.placeOf path) _).get? q = mid.tree.get? q
    rw [hplace, Tree.get?_insert (fun hroot => h.free (if_pos hroot)), if_neg hne]

theorem canWrite_iff : CanWrite path world ↔ world.tree.Clear path := by
  constructor
  · intro h
    obtain ⟨after, -, hgrown, hread⟩ := h.exists_read []
    have hclear := (Tree.read_iff.1 hread).1.clear
    refine hclear.lasts hgrown.tree.here.symm (fun q hq => ?_) fun hdirectory => ?_
    · have hne : q ≠ world.tree.placeOf path := by
        rintro rfl
        exact hclear.off (by rwa [hgrown.tree.placeOf])
      rw [← hgrown.tree.files q hne]
      exact hclear.way q hq
    · exact hclear.free (hgrown.tree.directories _ hdirectory)
  · intro h text
    obtain ⟨after, hrun, -⟩ := exists_writeOutput h text
    exact ⟨after, hrun⟩

end NodeMarkup.Command
