import NodeMarkup.Proofs.Command.Writable
/-!
The sources of a build and the files that are written for them. The sources below a directory are
its files with the extension, and the target of a source is the same path below the directory of the
targets, with another extension of the last name. So no two sources have the same target.
-/
namespace NodeMarkup.Command

open Disk Text

variable {world : World} {t t' : Tree} {path extension source : Text} {outDir : Option Text}
  {init init' : List Text} {x y : Text} {bytes bytes' : ByteArray}

/-- The files with an extension below a directory, in the order of their names from there down. -/
def sourcesBelow (path extension : Text) (t : Tree) : List Text :=
  (((t.filesBelow path).mergeSort Place.inOrder).map fun place =>
    joinPath path (join '/' place)).filter fun file => extension? file = some extension

/-- What a discovery does on a machine, by what stands at the path. -/
theorem runOn_discover (world : World) (path extension : Text) :
    runOn world (discover path extension) =
      (match ((Host.kind? path : StateM World _) world).1 with
        | none => .error (.missingPath path)
        | some .file => .ok [path]
        | some .directory => .ok (sourcesBelow path extension world.tree), world) := by
  unfold discover
  rw [runOn_bind, runOn_lift, kind?_world]
  dsimp only
  match ((Host.kind? path : StateM World _) world).1 with
  | none => rfl
  | some .file => rfl
  | some .directory => rfl

theorem sourceRoot_eq (world : World) (path : Text) :
    (sourceRoot path : StateM World _) world =
      (if ((Host.kind? path : StateM World _) world).1 = some .file then (parent? path).getD []
        else path, world) := by
  unfold sourceRoot isFile
  rw [bind_apply, bind_apply, kind?_world]
  by_cases hfile : ((Host.kind? path : StateM World _) world).1 = some .file
  · rw [if_pos hfile, hfile]
    rfl
  · rw [if_neg hfile, decide_eq_false hfile]
    rfl

theorem not_mem_targetExtension : '/' ∉ targetExtension ∧ '.' ∉ targetExtension := by decide

/-- The name at a place has an extension. -/
def HasExtension (extension : Text) (place : Place) : Prop :=
  ∃ above x, place = above ++ [x] ∧ (splitExtension x).2 = some extension

/-- Whatever the directories, a file that is written for a source has the extension of targets. -/
theorem hasExtension_targetOf {root : Text} (hsource : t.read source = .ok bytes)
    (htarget : t'.read (targetOf root source outDir) = .ok bytes') :
    HasExtension targetExtension (t'.placeOf (targetOf root source outDir)) := by
  obtain ⟨x, -, hlast, hx, -⟩ := Tree.last_of_read hsource
  obtain ⟨-, front, hfront, rfl⟩ := exists_front hlast
  obtain ⟨y, above, hlast, hy, hplace⟩ := Tree.last_of_read htarget
  have hpiece : IsPiece (renamed targetExtension x) :=
    isPiece_renamed hx not_mem_targetExtension.1
  have hrenamed : (split '/' (front ++ renamed targetExtension x)).getLast? =
      some (renamed targetExtension x) := getLast?_split_piece hfront hpiece.slash
  have hname : y = renamed targetExtension x := by
    unfold targetOf at hlast
    rw [withExtension_piece hfront hx] at hlast
    cases outDir with
    | none => exact Option.some.inj (hlast.symm.trans hrenamed)
    | some directory =>
      dsimp only at hlast
      rw [getLast?_split_joinPath] at hlast
      cases hstrip : strip? root (front ++ renamed targetExtension x) with
      | none =>
        rw [hstrip] at hlast
        exact Option.some.inj (hlast.symm.trans hrenamed)
      | some r =>
        rw [hstrip, Option.getD_some] at hlast
        rcases Path.getLast?_split_strip? hrenamed hpiece hstrip with rfl | hr
        · -- nothing but a directory is left, which no file is written to
          exact absurd (Option.some.inj hlast).symm hy.ne_nil
        · exact Option.some.inj (hlast.symm.trans hr)
  refine ⟨above, y, hplace, ?_⟩
  rw [hname, renamed_of_ne_up (hname ▸ hy.notUp),
    splitExtension_append (stem_ne_nil hx.ne_nil) not_mem_targetExtension.2]

end NodeMarkup.Command
