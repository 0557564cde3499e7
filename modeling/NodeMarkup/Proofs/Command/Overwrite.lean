import NodeMarkup.Proofs.Command.Agreement

namespace NodeMarkup.Command

open Disk Text

variable {α β : Type}

/-- Work that changes no files but those with the extension of targets. -/
def OnlyTargets (work : Work (StateM World) α) : Prop :=
  ∀ world : World, world.tree.Grows (HasExtension targetExtension) (runOn world work).2.tree

namespace OnlyTargets

theorem bind {work : Work (StateM World) α} {next : α → Work (StateM World) β}
    (h : OnlyTargets work) (hnext : ∀ a, OnlyTargets (next a)) : OnlyTargets (work >>= next) := by
  intro world
  have hwork := h world
  rw [runOn_bind]
  match hrun : runOn world work with
  | (.error failure, mid) =>
    rw [hrun] at hwork
    exact hwork
  | (.ok a, mid) =>
    rw [hrun] at hwork
    exact hwork.trans (hnext a mid)

theorem of_tree_eq {work : Work (StateM World) α}
    (h : ∀ world, (runOn world work).2.tree = world.tree) : OnlyTargets work := by
  intro world
  rw [h]
  exact .refl _ _

theorem buildSource (root : Text) (outDir : Option Text) (resRoot source : Text) :
    OnlyTargets (Command.buildSource root outDir resRoot source) := by
  intro world
  rw [runOn_buildSource]
  cases hread : world.tree.readText source with
  | error fault => exact .refl _ _
  | ok text =>
    dsimp only
    cases transpileIn (contextOf root source resRoot) text with
    | error e => exact .refl _ _
    | ok code =>
      dsimp only
      obtain ⟨bytes, hbytes, -⟩ := Tree.readText_iff.1 hread
      have hwritten := written_writeOutput (targetOf root source outDir) code world
      generalize runOn world (writeOutput (targetOf root source outDir) code) = result
        at hwritten ⊢
      cases hwritten with
      | failed grown => exact grown.tree.mono fun _ => False.elim
      | done grown read =>
        refine grown.tree.mono fun place hplace => ?_
        rw [hplace, ← grown.tree.placeOf]
        exact hasExtension_targetOf hbytes read

theorem mapM {work : α → Work (StateM World) β} (h : ∀ x, OnlyTargets (work x)) (xs : List α) :
    OnlyTargets (xs.mapM work) := by
  induction xs with
  | nil => exact of_tree_eq fun _ => rfl
  | cons x xs ih =>
    rw [List.mapM_cons]
    exact bind (h x) fun y => bind ih fun ys => of_tree_eq fun _ => rfl

theorem runBuild (path : Text) (outDir : Option Text) (extension resRoot : Text) :
    OnlyTargets (Command.runBuild path outDir extension resRoot) := by
  unfold Command.runBuild
  refine bind (of_tree_eq fun world => ?_) fun root => bind (of_tree_eq fun world => ?_)
    fun sources => ?_
  · rw [runOn_lift, sourceRoot_eq]
  · rw [runOn_discover]
  · split
    · exact of_tree_eq fun _ => rfl
    · refine bind (mapM (buildSource root outDir resRoot) sources) fun accepted => ?_
      refine bind (of_tree_eq fun _ => rfl) fun _ => ?_
      split <;> exact of_tree_eq fun _ => rfl

end OnlyTargets

theorem execute_tree (command : Command) (world : World) :
    ((execute command : StateM World Nat) world).2.tree = (runOn world (run command)).2.tree := by
  match hrun : runOn world (run command) with
  | (.ok (), after) => rw [execute_of_ok hrun]
  | (.error failure, after) => rw [execute_of_error hrun]

/-- Whatever a build is given and however it ends, it changes no file but those with the extension
of targets, and a file whose path has another extension is read as before. -/
theorem execute_build_keeps_files (world : World) (path : Text) (outDir : Option Text)
    (extension resRoot : Text) :
    let after := ((execute (.build path outDir extension resRoot) : StateM World Nat) world).2
    (∀ place, ¬ HasExtension targetExtension place →
      after.tree.fileAt? place = world.tree.fileAt? place) ∧
    ∀ source content, world.tree.read source = .ok content →
      extension? source ≠ some targetExtension → after.tree.read source = .ok content := by
  intro after
  have hbuild : OnlyTargets (run (.build path outDir extension resRoot)) :=
    OnlyTargets.runBuild path outDir extension resRoot
  have hgrows : world.tree.Grows (HasExtension targetExtension) after.tree := by
    rw [show after.tree = _ from execute_tree _ world]
    exact hbuild world
  refine ⟨hgrows.files, fun source content hread hextension => hgrows.read hread ?_⟩
  obtain ⟨x, above, hlast, hx, hplace⟩ := Tree.last_of_read hread
  obtain ⟨-, front, hfront, rfl⟩ := exists_front hlast
  rw [extension?_piece hfront hx] at hextension
  rintro ⟨above', x', hplace', hx'⟩
  obtain ⟨-, hsame⟩ := List.append_inj' (hplace.symm.trans hplace') rfl
  rw [← (List.cons.inj hsame).1] at hx'
  exact hextension hx'

/-- A source that is built where it lies stays what it is, also when the build is told to look
everywhere. -/
theorem execute_build_keeps_files_one_source :
    ((execute (.build "/".toList none "gdx".toList "res://".toList) : StateM World Nat)
      oneSource).2.tree.read "/home/w/p/a.gdx".toList = .ok (toBytes oneText) := by
  have hread : oneSource.tree.read "/home/w/p/a.gdx".toList = .ok (toBytes oneText) := rfl
  have hextension : extension? "/home/w/p/a.gdx".toList ≠ some targetExtension := by decide +kernel
  exact (execute_build_keeps_files oneSource "/".toList none "gdx".toList "res://".toList).2
    "/home/w/p/a.gdx".toList _ hread hextension

/-- A source with the extension of targets, in the working directory. -/
def targetSource : World := { oneSource with
  tree := ⟨[(["w".toList], .directory),
    (["w".toList, "a.gd".toList], .file (toBytes "<A/>".toList))], ["w".toList]⟩ }

/-- A file that has the extension of targets is read as the only source of a build, and overwritten
with its own code. -/
theorem execute_build_overwrites_source :
    targetSource.tree.read "a.gd".toList = .ok (toBytes "<A/>".toList) ∧
    runOn targetSource (discover "a.gd".toList "gdx".toList) = (.ok ["a.gd".toList], targetSource) ∧
    ∃ after, (execute (.build "a.gd".toList none "gdx".toList "res://".toList) : StateM World Nat)
        targetSource = (0, after) ∧
      after.tree.read "a.gd".toList = .ok (toBytes "create_node(A, \x7b\x7d, [])".toList) ∧
      toBytes "create_node(A, \x7b\x7d, [])".toList ≠ toBytes "<A/>".toList := by
  have hread : targetSource.tree.read "a.gd".toList = .ok (toBytes "<A/>".toList) := rfl
  have hok : transpileIn ⟨[], "res://".toList⟩ "<A/>".toList =
      .ok "create_node(A, \x7b\x7d, [])".toList := ok_of_toOption (by decide +kernel)
  have htarget : (Route.built none "gdx".toList).target? "a.gd".toList = some "a.gd".toList := by
    decide +kernel
  have hclear : targetSource.tree.Clear "a.gd".toList := by decide +kernel
  obtain ⟨after, hrun, hback⟩ := Route.yields hread (ofBytes?_toBytes _) hok
    (show ∀ target ∈ (Route.built none "gdx".toList).target? "a.gd".toList,
      CanWrite target targetSource by
        intro target hsome
        rw [htarget] at hsome
        exact Option.some.inj hsome ▸ canWrite_iff.2 hclear)
  rw [htarget] at hback
  refine ⟨hread, discover_file hread _, after, hrun, hback, fun hsame => ?_⟩
  have htexts := congrArg ofBytes? hsame
  rw [ofBytes?_toBytes, ofBytes?_toBytes] at htexts
  exact absurd htexts (by decide +kernel)

end NodeMarkup.Command
