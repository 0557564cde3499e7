import NodeMarkup.Proofs.Command.Work
import NodeMarkup.Proofs.Text.Difference
import NodeMarkup.Proofs.Transpile.PassThrough

namespace NodeMarkup

open Disk Text

variable {world after : World} {directory resRoot source : Text}

/-- The machine after a text has been printed. -/
def Disk.World.printed (world : World) (text : Text) : World :=
  { world with output := world.output ++ text }

namespace Command

end Command

end NodeMarkup
