import NodeMarkup.Proofs.Disk.Components
import NodeMarkup.Proofs.Resource.Resolve

namespace NodeMarkup.Command

open Disk Text

variable {root file source stem extension path x : Text} {names : List Text}

section Folders

/-- The folder of a source: the names that lead to its directory, behind the root of the
resources. -/
theorem folder_contextOf_below (h : IsBelow root (names ++ [x]) file) (resRoot : Text) :
    (contextOf root file resRoot).folder =
      if names = [] then resRoot else Resource.subfolder resRoot names := by
  obtain ⟨directory, hparent, hdirectory⟩ := h.exists_parent?
  obtain ⟨r, hstrip, hanchor, hroute⟩ := hdirectory.exists_strip?
  have hsegments : (Path.ofText r).components.map Component.text = names := by
    rw [Path.components_eq, hanchor, hroute]
    exact Component.map_text_ofPiece names
  have hrelative : (parent? file).bind (strip? root) = some r := by
    rw [hparent, Option.bind_some, hstrip]
  unfold contextOf
  simp only [hrelative, hsegments]
  by_cases hnil : names = []
  · rw [if_pos hnil, hnil]
    rfl
  · rw [if_neg hnil, if_neg (by simpa using hnil)]
    rfl

/-- The name of a source does not matter for what its paths stand for. -/
theorem resolve_of_folder {context : Resource.Context} {folder : Text} (h : context.folder = folder)
    (path : Text) : context.resolve path = (Resource.Context.mk [] folder).resolve path := by
  subst h
  rfl

/-- A source in a directory of the project and one in its root resolve alike, the one a path and the
other the same path behind the names of that directory, if and only if the root of the resources is
not empty and does not end like the beginning of a scheme. -/
theorem resolve_contextOf_iff {file' x' : Text} (hnames : names ≠ [])
    (hcolon : ∀ name ∈ names, ':' ∉ name) (hfile : IsBelow root (names ++ [x]) file)
    (hfile' : IsBelow root [x'] file') (hpath : Resource.IsRelative path) (resRoot : Text) :
    (contextOf root file resRoot).resolve path =
        (contextOf root file' resRoot).resolve (join '/' names ++ '/' :: path) ↔
      resRoot ≠ [] ∧ Resource.Joins resRoot := by
  have hfolders : Resource.AreFolders names := by
    refine ⟨hnames, fun name hname => ?_, hcolon⟩
    have hname' := hfile.isName name (List.mem_append_left _ hname)
    exact ⟨hname'.slash, hname'.ne_nil, hname'.ne_dot⟩
  have hfolder : (contextOf root file resRoot).folder = Resource.subfolder resRoot names := by
    rw [folder_contextOf_below hfile, if_neg hnames]
  have hfolder' : (contextOf root file' resRoot).folder = resRoot := by
    rw [folder_contextOf_below (show IsBelow root ([] ++ [x']) file' from hfile'), if_pos rfl]
  rw [resolve_of_folder hfolder, resolve_of_folder hfolder']
  exact Resource.Context.resolve_subfolder_iff hfolders hpath [] []

theorem resolve_contextOf_iff_menus :
    IsBelow "project/".toList ["ui".toList, "menus".toList, "main.gdx".toList]
      "project//ui/./menus/main.gdx".toList ∧
    IsBelow "project/".toList ["main.gdx".toList] "project/main.gdx".toList ∧
    Resource.IsRelative "../../../b".toList ∧
    (contextOf "project/".toList "project//ui/./menus/main.gdx".toList "res://".toList).resolve
        "../../../b".toList =
      (contextOf "project/".toList "project/main.gdx".toList "res://".toList).resolve
        (join '/' ["ui".toList, "menus".toList] ++ '/' :: "../../../b".toList) := by
  have hfile : IsBelow "project/".toList ["ui".toList, "menus".toList, "main.gdx".toList]
    "project//ui/./menus/main.gdx".toList := by decide
  have hfile' : IsBelow "project/".toList ["main.gdx".toList] "project/main.gdx".toList := by decide
  have hpath : Resource.IsRelative "../../../b".toList := ⟨by decide, by decide, by decide⟩
  refine ⟨hfile, hfile', hpath, ?_⟩
  exact (resolve_contextOf_iff (List.cons_ne_nil _ _) (by decide) hfile hfile' hpath
    "res://".toList).2 ⟨by decide, .inl (by decide)⟩

/-- With an empty root of the resources, a nested source resolves to the root of the file system,
and behind `res:` only a source in the root of the project comes to the scheme. -/
theorem resolve_contextOf_apart :
    IsBelow "r".toList ["d".toList, "b.gdx".toList] "r/d/b.gdx".toList ∧
    IsBelow "r".toList ["a.gdx".toList] "r/a.gdx".toList ∧
    (contextOf "r".toList "r/d/b.gdx".toList []).resolve "p".toList = "/d/p".toList ∧
    (contextOf "r".toList "r/a.gdx".toList []).resolve "d/p".toList = "d/p".toList ∧
    (contextOf "r".toList "r/d/b.gdx".toList "res:".toList).resolve "p".toList =
      "res:/d/p".toList ∧
    (contextOf "r".toList "r/a.gdx".toList "res:".toList).resolve "d/p".toList =
      "res://d/p".toList := by
  decide

end Folders

section Targets

/-- A source below the root of a project, named by a stem and the extension of sources. -/
structure IsNamedSource (root extension : Text) (names : List Text) (stem source : Text) :
    Prop where
  below : IsBelow root (names ++ [stem ++ '.' :: extension]) source
  stem : stem ≠ []
  extension : '.' ∉ extension

/-- The target of a source is in the directory for targets where the source is in the project. -/
theorem isBelow_targetOf (h : IsNamedSource root extension names stem source)
    (hdot : stem ≠ ".".toList) (outDir : Option Text) :
    IsBelow (outDir.getD root) (names ++ [stem ++ '.' :: targetExtension])
      (targetOf root source outDir) := by
  have htarget := h.below.withExtension h.stem hdot h.extension
    (show '/' ∉ targetExtension by decide)
  unfold targetOf
  dsimp only
  cases outDir with
  | none => exact htarget
  | some directory =>
    obtain ⟨r, hstrip, hanchor, hroute⟩ := htarget.exists_strip?
    obtain ⟨-, -, hup⟩ := isBelow_iff.1 htarget
    dsimp only
    rw [hstrip, Option.getD_some, Option.getD_some, ← hroute]
    exact isBelow_joinPath hanchor (hroute ▸ hup) directory

/-- The targets of a project mirror its sources: each is below the directory for targets, or else
the root, along the names that lead to the source, and different sources have different targets. -/
theorem targetOf_mirrors (h : IsNamedSource root extension names stem source)
    (hdot : stem ≠ ".".toList) :
    (∀ outDir : Option Text, IsBelow (outDir.getD root)
      (names ++ [stem ++ '.' :: targetExtension]) (targetOf root source outDir)) ∧
    ∀ names' stem' source', IsNamedSource root extension names' stem' source' →
      stem' ≠ ".".toList →
      (Path.ofText source).components ≠ (Path.ofText source').components →
      ∀ outDir : Option Text, (Path.ofText (targetOf root source outDir)).components ≠
        (Path.ofText (targetOf root source' outDir)).components := by
  refine ⟨isBelow_targetOf h hdot, ?_⟩
  intro names' stem' source' h' hdot' hne outDir heq
  apply hne
  rw [isBelow_targetOf h hdot outDir, isBelow_targetOf h' hdot' outDir] at heq
  -- behind the same directory, the names of the targets give those of the sources
  have hnames := congrArg (List.map Component.text) (List.append_cancel_left heq)
  rw [Component.map_text_name, Component.map_text_name] at hnames
  obtain ⟨rfl, hlast⟩ := List.append_inj' hnames rfl
  obtain rfl : stem = stem' := List.append_cancel_right (List.cons.inj hlast).1
  rw [h.below, h'.below]

theorem targetOf_mirrors_dots :
    IsNamedSource "./src//".toList "gdx".toList ["ui".toList] "b.x".toList
      "./src//ui/b.x.gdx".toList ∧
    IsBelow "../out".toList ["ui".toList, "b.x.gd".toList]
      (targetOf "./src//".toList "./src//ui/b.x.gdx".toList (some "../out".toList)) := by
  have hbelow : IsBelow "./src//".toList ["ui".toList, "b.x.gdx".toList]
      "./src//ui/b.x.gdx".toList :=
    isBelow_joinPath_join (List.cons_ne_nil _ _) (by decide) "./src//".toList
  have hsource : IsNamedSource "./src//".toList "gdx".toList ["ui".toList] "b.x".toList
    "./src//ui/b.x.gdx".toList := ⟨hbelow, by decide, by decide⟩
  exact ⟨hsource, (targetOf_mirrors hsource (by decide)).1 (some "../out".toList)⟩

/-- Of a file name with the stem `.` nothing but `..` is left when the extension is cut off, so that
its target is not in the directory for targets. -/
theorem targetOf_dot_stem :
    IsBelow "r".toList ["..gdx".toList] "r/..gdx".toList ∧
    targetOf "r".toList "r/..gdx".toList (some "out".toList) = "out/..".toList ∧
    ¬IsBelow "out".toList ["..gd".toList]
      (targetOf "r".toList "r/..gdx".toList (some "out".toList)) := by
  decide

end Targets

end NodeMarkup.Command
