import NodeMarkup.Disk.Path
import NodeMarkup.Resource.Path

namespace NodeMarkup.Command

open Disk

/-- The extension of the files that are written for sources. -/
def targetExtension : Text := "gd".toList

/-- The extension of the files that say what is to be written for a source. -/
def expectedExtension : Text := "expected.gd".toList

/-- Where a source lives among the resources, the directory `root` being at `resRoot`. A source
outside that directory counts as being in it. -/
def contextOf (root file resRoot : Text) : Resource.Context :=
  let segments := match (parent? file).bind (strip? root) with
    | none => []
    | some relative => (Path.ofText relative).components.map Component.text
  let folder :=
    if segments.isEmpty then resRoot
    else if resRoot.getLast? = some '/' then resRoot ++ Text.join '/' segments
    else resRoot ++ '/' :: Text.join '/' segments
  ⟨(stem? file).getD [], folder⟩

/-- The file that is written for a source: next to it, or in `outDir` at the place that the source
has in the directory `root`. -/
def targetOf (root source : Text) (outDir : Option Text) : Text :=
  let target := withExtension targetExtension source
  match outDir with
  | none => target
  | some directory => joinPath directory ((strip? root target).getD target)

end NodeMarkup.Command
