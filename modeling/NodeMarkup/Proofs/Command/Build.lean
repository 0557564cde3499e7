import Mathlib.Data.List.Induction
import NodeMarkup.Proofs.Command.Sources
import NodeMarkup.Proofs.Transpile.PassThrough
/-!
Building all sources below a directory. What the first sources have left on the machine is an
invariant of the run: their targets hold the code of those that were accepted, and nothing else has
changed, so that each further source is read as it was at the beginning.
-/
namespace NodeMarkup.Command

open Disk Text

variable {world mid : World} {root path resRoot source text : Text} {outDir : Option Text}
  {code : Text → Except ParseError Text} {sources done todo : List Text}

/-- The lines on standard output about the sources that are accepted. -/
def acceptances (root : Text) (outDir : Option Text) (code : Text → Except ParseError Text)
    (sources : List Text) : Text :=
  sources.flatMap fun source =>
    match code source with
    | .ok _ => acceptanceLine source (targetOf root source outDir)
    | .error _ => []

/-- The lines on standard error about the sources that are refused. -/
def refusals (code : Text → Except ParseError Text) (sources : List Text) : Text :=
  sources.flatMap fun source =>
    match code source with
    | .ok _ => []
    | .error e => refusalLine source e

/-- What a machine has come to when some sources have been built on it. -/
structure Progress (root : Text) (outDir : Option Text) (code : Text → Except ParseError Text)
    (done : List Text) (world mid : World) : Prop where
  grows : world.tree.Grows
    (fun place => ∃ source ∈ done, (code source).isOk = true ∧
      place = world.tree.placeOf (targetOf root source outDir)) mid.tree
  -- Directories have come only on the way to what has been written.
  made : ∀ place, mid.tree.get? place = some .directory →
    world.tree.get? place = some .directory ∨
    ∃ source ∈ done, (code source).isOk = true ∧
      place ∈ world.tree.wayTo (targetOf root source outDir)
  written : ∀ source ∈ done, ∀ text, code source = .ok text →
    mid.tree.read (targetOf root source outDir) = .ok (toBytes text)
  output : mid.output = world.output ++ acceptances root outDir code done
  complaints : mid.complaints = world.complaints ++ refusals code done

theorem Progress.refuse (h : Progress root outDir code done world mid) {e : ParseError}
    (herror : code source = .error e) : Progress root outDir code (done ++ [source]) world
      { mid with complaints := mid.complaints ++ refusalLine source e } where
  grows := by
    refine h.grows.mono ?_
    rintro place ⟨other, hother, hok, rfl⟩
    exact ⟨other, List.mem_append_left _ hother, hok, rfl⟩
  made place hdirectory := (h.made place hdirectory).imp_right
    fun ⟨other, hother, hok, hplace⟩ => ⟨other, List.mem_append_left _ hother, hok, hplace⟩
  written := by
    refine List.forall_mem_append.2 ⟨h.written, List.forall_mem_singleton.2 fun text hok => ?_⟩
    rw [herror] at hok
    cases hok
  output := by simp [acceptances, herror, h.output]
  complaints := by simp [refusals, herror, h.complaints]

theorem Progress.accept (h : Progress root outDir code done world mid) {after : World}
    (hok : code source = .ok text)
    (happart : ∀ other ∈ done, world.tree.placeOf (targetOf root other outDir) ≠
      world.tree.placeOf (targetOf root source outDir))
    (hgrown : World.Grown (· = mid.tree.placeOf (targetOf root source outDir)) mid after)
    (hmade : ∀ place, after.tree.get? place = some .directory →
      mid.tree.get? place = some .directory ∨ place ∈ mid.tree.wayTo (targetOf root source outDir))
    (hread : after.tree.read (targetOf root source outDir) = .ok (toBytes text)) :
    Progress root outDir code (done ++ [source]) world
      { after with
        output := after.output ++ acceptanceLine source (targetOf root source outDir) } where
  grows := by
    refine Tree.Grows.trans (h.grows.mono ?_) (hgrown.tree.mono ?_)
    · rintro place ⟨other, hother, hok, rfl⟩
      exact ⟨other, List.mem_append_left _ hother, hok, rfl⟩
    · rintro place rfl
      exact ⟨source, by simp, by rw [hok]; rfl, h.grows.placeOf _⟩
  made place hdirectory := by
    rcases hmade place hdirectory with hold | hway
    · exact (h.made place hold).imp_right
        fun ⟨other, hother, hok, hplace⟩ => ⟨other, List.mem_append_left _ hother, hok, hplace⟩
    · rw [h.grows.wayTo] at hway
      exact .inr ⟨source, by simp, by rw [hok]; rfl, hway⟩
  written := by
    refine List.forall_mem_append.2 ⟨fun other hother text' hok' => ?_,
      List.forall_mem_singleton.2 fun text' hok' => ?_⟩
    · refine hgrown.tree.read (h.written other hother text' hok') ?_
      rw [h.grows.placeOf, h.grows.placeOf]
      exact happart other hother
    · obtain rfl := Except.ok.inj (hok.symm.trans hok')
      exact hread
  output := by
    rw [hgrown.rest]
    simp [acceptances, hok, h.output]
  complaints := by
    rw [hgrown.rest]
    simp [refusals, hok, h.complaints]

/-- No target of a source that is accepted needs a directory where another target stands. -/
def NoneOnTheWay (root : Text) (outDir : Option Text) (code : Text → Except ParseError Text)
    (sources : List Text) (t : Tree) : Prop :=
  ∀ source ∈ sources, (code source).isOk = true → ∀ other ∈ sources,
    t.placeOf (targetOf root other outDir) ∉ t.wayTo (targetOf root source outDir)

/-- What could be written at the beginning can be written still. -/
theorem Progress.clear (h : Progress root outDir code done world mid)
    (hclear : world.tree.Clear (targetOf root source outDir))
    (hway : NoneOnTheWay root outDir code sources world.tree) (hdone : ∀ other ∈ done, other ∈ sources)
    (hsource : source ∈ sources) (hok : (code source).isOk = true) :
    mid.tree.Clear (targetOf root source outDir) := by
  refine hclear.lasts h.grows.here (fun place hplace => ?_) fun hdirectory => ?_
  · rw [h.grows.files place]
    · exact hclear.way place hplace
    · rintro ⟨other, hother, -, rfl⟩
      exact hway source hsource hok other (hdone other hother) hplace
  · rcases h.made _ hdirectory with hold | ⟨other, hother, hok', hplace⟩
    · exact hclear.free hold
    · exact hway other (hdone other hother) hok' source hsource hplace

/-- Building one more source. -/
theorem Progress.step (h : Progress root outDir code done world mid)
    (hread : world.tree.readText source = .ok text)
    (hcode : transpileIn (contextOf root source resRoot) text = code source)
    (hkept : ∀ other ∈ done,
      world.tree.placeOf (targetOf root other outDir) ≠ world.tree.placeOf source)
    (happart : ∀ other ∈ done, world.tree.placeOf (targetOf root other outDir) ≠
      world.tree.placeOf (targetOf root source outDir))
    (hclear : (code source).isOk = true → mid.tree.Clear (targetOf root source outDir)) :
    ∃ after, runOn mid (buildSource root outDir resRoot source) = (.ok (code source).isOk, after) ∧
      Progress root outDir code (done ++ [source]) world after := by
  -- what the sources before it have written leaves this one alone
  have hreadmid : mid.tree.readText source = .ok text := by
    refine h.grows.readText hread ?_
    rintro ⟨other, hother, -, hplace⟩
    exact hkept other hother hplace.symm
  rw [runOn_buildSource, hreadmid]
  dsimp only
  rw [hcode]
  cases houtcome : code source with
  | error e => exact ⟨_, rfl, h.refuse houtcome⟩
  | ok code' =>
    have hclear := hclear (by rw [houtcome]; rfl)
    obtain ⟨after, hrun, hothers⟩ := exists_writeOutput hclear code'
    obtain ⟨after', hrun', hgrown, hback⟩ := (canWrite_iff.2 hclear).exists_read code'
    obtain rfl : after' = after := congrArg Prod.snd (hrun'.symm.trans hrun)
    dsimp only
    rw [hrun]
    refine ⟨_, rfl, h.accept houtcome happart hgrown (fun place hdirectory => ?_) hback⟩
    by_contra hnew
    obtain ⟨hold, hway⟩ := not_or.1 hnew
    refine hold (hothers place hway ?_ ▸ hdirectory)
    rintro rfl
    have hfile := (Tree.read_iff.1 hback).2
    rw [hgrown.tree.placeOf, Tree.fileAt?, hdirectory] at hfile
    cases hfile

/-- What is told where there are no sources. -/
def nothingFound (path extension : Text) : Text :=
  "No .".toList ++ extension ++ " files found under ".toList ++ path ++ ['\n']

/-- What is told at the end of a build. -/
def summary (built failed : Nat) : Text :=
  "Built ".toList ++ Nat.toDigits 10 built ++ " file(s), ".toList ++ Nat.toDigits 10 failed
    ++ " failed".toList ++ ['\n']

/-- What a build does with the sources that it has discovered. -/
theorem runOn_runBuild {extension : Text}
    (hroot : (sourceRoot path : StateM World _) world = (root, world))
    (hsources : runOn world (discover path extension) = (.ok sources, world)) :
    runOn world (runBuild path outDir extension resRoot) =
      if sources.isEmpty then
        (.ok (), { world with output := world.output ++ nothingFound path extension })
      else
        match runOn world (sources.mapM (buildSource root outDir resRoot)) with
        | (.error failure, mid) => (.error failure, mid)
        | (.ok accepted, mid) =>
          (if accepted.count false ≠ 0 then .error (.refusedFiles (accepted.count false))
            else .ok (),
            { mid with
              output := mid.output ++ summary (accepted.count true) (accepted.count false) }) := by
  unfold runBuild
  rw [runOn_bind, runOn_lift, hroot]
  dsimp only
  rw [runOn_bind, hsources]
  dsimp only
  split
  · rfl
  · rw [runOn_bind]
    match runOn world (sources.mapM (buildSource root outDir resRoot)) with
    | (.error failure, mid) => rfl
    | (.ok accepted, mid) =>
      dsimp only
      rw [runOn_bind]
      by_cases hfailed : accepted.count false ≠ 0
      · rw [if_pos hfailed, if_pos hfailed]
        rfl
      · rw [if_neg hfailed, if_neg hfailed]
        rfl

/-- A build that has got through all its sources. -/
theorem execute_build {extension : Text} {accepted : List Bool}
    (hroot : (sourceRoot path : StateM World _) world = (root, world))
    (hsources : runOn world (discover path extension) = (.ok sources, world)) (hnil : sources ≠ [])
    (hrun : runOn world (sources.mapM (buildSource root outDir resRoot)) = (.ok accepted, mid)) :
    (execute (.build path outDir extension resRoot) : StateM World Nat) world =
      (if accepted.count false = 0 then 0 else 1,
        { mid with
          output := mid.output ++ summary (accepted.count true) (accepted.count false)
          complaints := mid.complaints ++ if accepted.count false = 0 then []
            else (Failure.refusedFiles (accepted.count false)).report }) := by
  have hbuild : runOn world (run (.build path outDir extension resRoot)) = _ :=
    runOn_runBuild hroot hsources
  rw [if_neg (by simpa using hnil), hrun] at hbuild
  dsimp only at hbuild
  by_cases hfailed : accepted.count false = 0
  · rw [if_neg (not_not.2 hfailed)] at hbuild
    rw [execute_of_ok hbuild, if_pos hfailed, if_pos hfailed, List.append_nil]
  · rw [if_pos hfailed] at hbuild
    rw [execute_of_error hbuild, if_neg hfailed, if_neg hfailed]

end NodeMarkup.Command
