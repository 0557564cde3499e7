import NodeMarkup.Command.Run
import NodeMarkup.Proofs.Disk.Tree
/-!
Work on a machine that is a value. What a command writes to a file, with all directories that it
creates for it, changes the tree at the place of that file only, whether it succeeds or fails.
-/
namespace NodeMarkup

open Disk Text

variable {α β : Type} {world mid after : World} {path text : Text} {bytes : ByteArray}

namespace Disk

/-- One machine comes from another by work on its files alone. -/
structure World.Grown (changed : Place → Prop) (world after : World) : Prop where
  rest : after = { world with tree := after.tree }
  tree : world.tree.Grows changed after.tree

namespace World.Grown

variable {changed changed' : Place → Prop}

theorem refl (changed : Place → Prop) (world : World) : Grown changed world world :=
  ⟨rfl, .refl changed world.tree⟩

theorem trans (h : Grown changed world mid) (h' : Grown changed mid after) :
    Grown changed world after :=
  ⟨by rw [h'.rest, h.rest], h.tree.trans h'.tree⟩

theorem mono (h : Grown changed world after) (hsub : ∀ q, changed q → changed' q) :
    Grown changed' world after :=
  ⟨h.rest, h.tree.mono hsub⟩

theorem bind {action : StateM World α} {next : α → StateM World β}
    (h : Grown changed world (action world).2)
    (hnext : ∀ a mid, Grown changed mid (next a mid).2) :
    Grown changed world ((action >>= next) world).2 :=
  h.trans (hnext _ _)

end World.Grown

theorem bind_apply (action : StateM World α) (next : α → StateM World β) (world : World) :
    (action >>= next) world = next (action world).1 (action world).2 :=
  rfl

theorem kind?_world (path : Text) (world : World) :
    ((Host.kind? path : StateM World _) world).2 = world := by
  unfold Host.kind? instHostStateMWorld
  dsimp only
  split <;> rfl

theorem kind?_file (h : world.tree.read path = .ok bytes) :
    (Host.kind? path : StateM World _) world = (some .file, world) := by
  obtain ⟨hspot, hfile⟩ := Tree.read_iff.1 h
  unfold Host.kind? instHostStateMWorld
  dsimp only
  rw [hspot.locate, Tree.fileAt?_eq_some.1 hfile]
  rfl

theorem kind?_directory (h : world.tree.IsDirectory path) :
    (Host.kind? path : StateM World _) world = (some .directory, world) := by
  unfold Host.kind? instHostStateMWorld
  dsimp only
  rw [h.locate]

theorem World.grown_kind? (path : Text) (world : World) :
    World.Grown (fun _ => False) world ((Host.kind? path : StateM World _) world).2 := by
  rw [kind?_world]
  exact .refl _ world

theorem ofBytes?_toBytes (text : Text) : ofBytes? (toBytes text) = some text := by
  have hvalid : (toBytes text).IsValidUTF8 := (String.ofList text).isValidUTF8
  unfold ofBytes? String.fromUTF8?
  rw [dif_pos hvalid]
  change some (String.ofList text).toList = some text
  rw [String.toList_ofList]

/-- The text of a file. -/
def Tree.readText (path : Text) (t : Tree) : Except AccessFault Text :=
  match t.read path with
  | .error fault => .error fault
  | .ok bytes =>
    match ofBytes? bytes with
    | some text => .ok text
    | none => .error .invalidText

theorem Tree.readText_iff {t : Tree} :
    t.readText path = .ok text ↔ ∃ bytes, t.read path = .ok bytes ∧ ofBytes? bytes = some text := by
  unfold Tree.readText
  cases t.read path with
  | error fault => simp
  | ok bytes =>
    cases htext : ofBytes? bytes with
    | none => simp [htext]
    | some text' => simp [htext]

/-- A file that does not change has the same text. -/
theorem Tree.Grows.readText {changed : Place → Prop} {t t' : Tree} (h : t.Grows changed t')
    (hread : t.readText path = .ok text) (hkept : ¬ changed (t.placeOf path)) :
    t'.readText path = .ok text := by
  obtain ⟨bytes, hbytes, htext⟩ := Tree.readText_iff.1 hread
  exact Tree.readText_iff.2 ⟨bytes, h.read hbytes hkept, htext⟩

theorem readText_eq (path : Text) (world : World) :
    (readText path : StateM World _) world = (world.tree.readText path, world) := by
  have hread : (Host.read path : StateM World _) world = (world.tree.read path, world) := rfl
  unfold readText Tree.readText
  rw [bind_apply, hread]
  cases world.tree.read path with
  | error fault => rfl
  | ok bytes =>
    dsimp only
    cases ofBytes? bytes <;> rfl

end Disk

namespace Command

/-- What some work comes to on a machine, and the machine after it. -/
def runOn (world : World) (work : Work (StateM World) α) : Except Failure α × World :=
  StateT.run (ExceptT.run work) world

theorem runOn_bind (world : World) (work : Work (StateM World) α)
    (next : α → Work (StateM World) β) : runOn world (work >>= next) =
      match runOn world work with
      | (.ok a, mid) => runOn mid (next a)
      | (.error failure, mid) => (.error failure, mid) := by
  unfold runOn
  rw [ExceptT.run_bind, StateT.run_bind]
  match StateT.run (ExceptT.run work) world with
  | (.ok a, mid) => rfl
  | (.error failure, mid) => rfl

theorem runOn_lift (world : World) (action : StateM World α) :
    runOn world (liftM action) = (.ok (action world).1, (action world).2) :=
  rfl

theorem runOn_mapM_concat {work : α → Work (StateM World) β} {xs : List α} {x : α} {ys : List β}
    {y : β} (hrun : runOn world (xs.mapM work) = (.ok ys, mid))
    (hlast : runOn mid (work x) = (.ok y, after)) :
    runOn world ((xs ++ [x]).mapM work) = (.ok (ys ++ [y]), after) := by
  rw [List.mapM_append, runOn_bind, hrun]
  dsimp only
  rw [runOn_bind, List.mapM_cons, runOn_bind, hlast]
  rfl

theorem runOn_orFail (world : World) (tell : AccessFault → Failure)
    (action : StateM World (Except AccessFault α)) :
    runOn world (orFail tell action) = ((action world).1.mapError tell, (action world).2) := by
  unfold orFail
  rw [runOn_bind, runOn_lift]
  dsimp only
  cases (action world).1 with
  | ok a => rfl
  | error fault => rfl

theorem grown_makeDirectory (path : Text) (world : World) :
    World.Grown (fun _ => False) world ((Host.makeDirectory path : StateM World _) world).2 := by
  change World.Grown _ world (changeTree (Tree.makeDirectory path) world).2
  unfold changeTree
  cases hmake : Tree.makeDirectory path world.tree with
  | error fault => exact .refl _ world
  | ok tree => exact ⟨rfl, Tree.grows_makeDirectory hmake⟩

theorem grown_orExisting (path : Text) (result : Except AccessFault Unit) (world : World) :
    World.Grown (fun _ => False) world ((orExisting path result : StateM World _) world).2 := by
  cases result with
  | ok _ => exact .refl _ world
  | error fault =>
    refine .bind (World.grown_kind? path world) fun kind mid => ?_
    split <;> exact .refl _ mid

/-- Directories that are created change no file, and no directory is lost. -/
theorem grown_makeDirectoriesWithin (n : Nat) (path : Text) (world : World) :
    World.Grown (fun _ => False) world
      ((makeDirectoriesWithin n path : StateM World _) world).2 := by
  induction n generalizing path world with
  | zero => exact .refl _ world
  | succ n ih =>
    unfold makeDirectoriesWithin
    split
    · exact .refl _ world
    · refine .bind (grown_makeDirectory path world) fun result mid => ?_
      split
      -- only where something on the way is missing, the directory above is created first
      · cases parent? path with
        | none => exact .refl _ mid
        | some above =>
          refine .bind (ih above mid) fun result mid => ?_
          cases result with
          | error fault => exact .refl _ mid
          | ok _ =>
            exact .bind (grown_makeDirectory path mid) fun result => grown_orExisting path result
      · exact grown_orExisting path _ mid

/-- What an attempt to write a text to a file can come to: the text is read back and no other file
is changed, or no file is changed at all. -/
inductive Written (path text : Text) (world : World) : Except Failure Unit × World → Prop where
  | done {after : World} (grown : World.Grown (· = world.tree.placeOf path) world after)
      (read : after.tree.read path = .ok (toBytes text)) : Written path text world (.ok (), after)
  | failed {failure : Failure} {after : World} (grown : World.Grown (fun _ => False) world after) :
      Written path text world (.error failure, after)

theorem written_orFail (h : World.Grown (fun _ => False) world mid) :
    Written path text world
      (runOn mid (orFail (.unwritableOutput path) (Host.write path (toBytes text)))) := by
  have hwrite : (Host.write path (toBytes text) : StateM World _) mid =
    changeTree (Tree.write path (toBytes text)) mid := rfl
  rw [runOn_orFail, hwrite, changeTree]
  cases htree : Tree.write path (toBytes text) mid.tree with
  | error fault => exact .failed h
  | ok tree =>
    have hgrown : World.Grown (· = world.tree.placeOf path) mid { mid with tree } := by
      rw [← h.tree.placeOf]
      exact ⟨rfl, Tree.grows_write htree⟩
    exact .done ((h.mono fun _ => False.elim).trans hgrown) (Tree.read_of_write htree)

theorem written_writeOutput (path text : Text) (world : World) :
    Written path text world (runOn world (writeOutput path text)) := by
  unfold writeOutput
  dsimp only
  cases parent? path with
  | none => exact written_orFail (.refl _ world)
  | some directory =>
    have hgrown := grown_makeDirectoriesWithin (directory.length + 1) directory world
    dsimp only
    rw [runOn_bind, runOn_orFail, makeDirectories]
    cases ((makeDirectoriesWithin (directory.length + 1) directory : StateM World _) world).1 with
    | error fault => exact .failed hgrown
    | ok _ => exact written_orFail hgrown

/-- Any text can be written to a file on a machine. -/
def CanWrite (path : Text) (world : World) : Prop :=
  ∀ text, ∃ after, runOn world (writeOutput path text) = (.ok (), after)

/-- A file that can be written is read back afterwards. -/
theorem CanWrite.exists_read (h : CanWrite path world) (text : Text) :
    ∃ after, runOn world (writeOutput path text) = (.ok (), after) ∧
      World.Grown (· = world.tree.placeOf path) world after ∧ after.tree.read path = .ok (toBytes text) := by
  obtain ⟨after, hrun⟩ := h text
  have hwritten := written_writeOutput path text world
  rw [hrun] at hwritten
  cases hwritten with
  | done grown read => exact ⟨after, hrun, grown, read⟩

/-- What is told about a source that is refused. -/
def refusalLine (source : Text) (e : ParseError) : Text :=
  source ++ ':' :: Nat.toDigits 10 e.line ++ ':' :: Nat.toDigits 10 e.column ++ ": ".toList
    ++ e.message ++ ['\n']

/-- What is told about a source whose code has been written. -/
def acceptanceLine (source target : Text) : Text := source ++ " -> ".toList ++ target ++ ['\n']

/-- All that building one source can come to. -/
theorem runOn_buildSource (root : Text) (outDir : Option Text) (resRoot source : Text)
    (world : World) : runOn world (buildSource root outDir resRoot source) =
      match world.tree.readText source with
      | .error fault => (.error (.unreadableInput source fault), world)
      | .ok text =>
        match transpileIn (contextOf root source resRoot) text with
        | .error e =>
          (.ok false, { world with complaints := world.complaints ++ refusalLine source e })
        | .ok code =>
          match runOn world (writeOutput (targetOf root source outDir) code) with
          | (.error failure, mid) => (.error failure, mid)
          | (.ok (), mid) => (.ok true, { mid with
              output := mid.output ++ acceptanceLine source (targetOf root source outDir) }) := by
  unfold buildSource
  rw [runOn_bind, runOn_orFail, readText_eq]
  cases world.tree.readText source with
  | error fault => rfl
  | ok text =>
    dsimp only [Except.mapError]
    cases transpileIn (contextOf root source resRoot) text with
    | error e => rfl
    | ok code =>
      dsimp only
      rw [runOn_bind]
      match runOn world (writeOutput (targetOf root source outDir) code) with
      | (.error failure, mid) => rfl
      | (.ok (), mid) => rfl

theorem execute_of_ok {command : Command} (h : runOn world (run command) = (.ok (), after)) :
    (execute command : StateM World Nat) world = (0, after) := by
  have hrun : ExceptT.run (run command : Work (StateM World) Unit) world = (.ok (), after) := h
  unfold execute
  rw [bind_apply, hrun]
  rfl

theorem execute_of_error {command : Command} {failure : Failure}
    (h : runOn world (run command) = (.error failure, after)) :
    (execute command : StateM World Nat) world =
      (1, { after with complaints := after.complaints ++ failure.report }) := by
  have hrun : ExceptT.run (run command : Work (StateM World) Unit) world =
    (.error failure, after) := h
  unfold execute
  rw [bind_apply, hrun]
  rfl

end Command

end NodeMarkup
