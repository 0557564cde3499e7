import NodeMarkup.Source.Checked
/-!
A draft is a source in which some ranges have been replaced. Ranges are given by their places in
the source itself, so every replacement shifts the places behind it; replacements go from left to
right.
-/
namespace NodeMarkup

/-- A source with replacements. -/
structure Draft where
  text : Text
  -- By how many bytes the text behind the last replacement has moved.
  offset : Int
  -- The end of the last replaced range in the source.
  watermark : Nat
deriving DecidableEq, Repr, Inhabited

namespace Draft

def ofSource (source : Text) : Draft := ⟨source, 0, 0⟩

/-- Where a byte of the source stands in the draft. -/
def shifted (d : Draft) (position : Nat) : Nat := (position + d.offset).toNat

/-- Puts a text in place of a range of the source. -/
def replaceM {m : Type → Type} [Monad m] [Checks m] (range : Range) (replacement : Text)
    (d : Draft) : m Draft := do
  ensure (d.watermark ≤ range.start.position ∧ range.start.position ≤ range.stop.position)
  let start := d.shifted range.start.position
  let stop := d.shifted range.stop.position
  let before := d.text.take (Text.reach start d.text)
  let behind := d.text.drop (Text.reach stop d.text)
  check before (d.text.slice? 0 start)
  ensure (d.text.slice? start stop).isSome
  check behind (d.text.slice? stop (Text.byteLength d.text))
  return {
    text := before ++ replacement ++ behind
    offset := d.offset + (Text.byteLength replacement - range.byteLength)
    watermark := range.stop.position }

def replace (range : Range) (replacement : Text) (d : Draft) : Draft :=
  Id.run (d.replaceM range replacement)

theorem replace_eq (range : Range) (replacement : Text) (d : Draft) :
    d.replace range replacement = {
      text :=
        d.text.take (Text.reach (d.shifted range.start.position) d.text) ++ replacement
          ++ d.text.drop (Text.reach (d.shifted range.stop.position) d.text)
      offset := d.offset + (Text.byteLength replacement - range.byteLength)
      watermark := range.stop.position } := rfl

end Draft

end NodeMarkup
