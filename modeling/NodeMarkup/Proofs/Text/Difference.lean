import NodeMarkup.Proofs.Text.Pieces
import NodeMarkup.Text.Lines
/-!
What a comparison of two texts finds. The lines of both are walked in step, so the walk stops behind
what they have in common.
-/
namespace NodeMarkup.Text

variable {expected actual : Text} {line : Nat} {d : LineDifference}

end NodeMarkup.Text
