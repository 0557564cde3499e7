import NodeMarkup.Proofs.Node.Lines
import NodeMarkup.Proofs.Token.Pair
import NodeMarkup.Proofs.Transpile.PassThrough
/-!
Sources that are one node: a tag without a body, or a pair of tags without tags between them, from the
first scalar value to the last. Such a source becomes the code of the node and nothing else.
-/
namespace NodeMarkup

variable {context : Resource.Context} {source : Text}

/-- A pair of tags without tags between them has no children, and all but its properties is written in
the tags. -/
structure Node.IsPair (opening closing : Tag) (node : Node) : Prop where
  className : node.className = opening.className
  children : node.children = []
  range : node.range = ⟨opening.range.start, closing.range.stop⟩
  closer : node.closer = closing.closer
  properties : node.properties = ((Node.ofTag opening).foldText closing.range.start).properties

theorem Node.isPair_ofPair (opening closing : Tag) :
    (Node.ofPair opening [] closing).IsPair opening closing := by
  obtain ⟨properties, hfold, -⟩ := foldText_cases closing.range.start (Node.ofTag opening)
  have hpair : Node.ofPair opening [] closing =
      { (Node.ofTag opening).foldText closing.range.start with
        range := ⟨opening.range.start, closing.range.stop⟩, closer := closing.closer } := by
    unfold Node.ofPair
    rw [Node.addChildren_nil]
    rfl
  rw [hpair, hfold]
  exact ⟨rfl, rfl, rfl, rfl, by rw [hfold]⟩

theorem splice_whole (range : Range) (code : Text) (hstart : range.start = .start source)
    (hstop : range.stop.rest = []) : splice (.start source) [⟨range, code⟩] = code := by
  simp [splice, hstart, hstop, Range.text]

theorem transpileLines_single {tag : Tag}
    (htokens : (Scan.start source).drain.1 = [.ofTag tag])
    (hfinished : (Scan.start source).drain.2.1 = .finished) (kind : tag.kind = .single)
    (hstart : tag.range.start = .start source) (hstop : tag.range.stop.rest = []) :
    transpileLines context source =
      .ok ((Node.ofTag tag).render (.ofTokens [.ofTag tag])) := by
  have hedits : EditsOf context (.ofTokens [.ofTag tag]) [.ofTag tag]
      [⟨tag.range, (Node.ofTag tag).render (.ofTokens [.ofTag tag])⟩] := .single kind .nil
  rw [transpileLines_eq_splice hfinished (by rw [htokens]; exact hedits),
    splice_whole tag.range _ hstart hstop]

theorem transpileLines_pair {front between : Text} {opening closing : Tag}
    (hpair : ReadsPair front between opening.className opening closing)
    (hsource : source = front ++ (between ++ closingText opening.className))
    (htokens : (Scan.start source).drain.1 = [.ofTag opening, .ofTag closing])
    (hfinished : (Scan.start source).drain.2.1 = .finished) :
    transpileLines context source =
      .ok ((Node.ofPair opening [] closing).render
        (.ofTokens [.ofTag opening, .ofTag closing])) := by
  have hedits : EditsOf context (.ofTokens [.ofTag opening, .ofTag closing])
      [.ofTag opening, .ofTag closing]
      [⟨⟨opening.range.start, closing.range.stop⟩, (Node.ofPair opening [] closing).render
        (.ofTokens [.ofTag opening, .ofTag closing])⟩] :=
    .pair hpair.kind hpair.kind' hpair.sameClass .nil .nil
  have hstart : opening.range.start = .start source := by rw [hpair.opens.range, hsource]
  have hstop : closing.range.stop.rest = [] := by
    rw [hpair.closes.range, Cursor.rest_advanceBy, Cursor.rest_start, List.drop_length]
  rw [transpileLines_eq_splice hfinished (by rw [htokens]; exact hedits),
    splice_whole ⟨opening.range.start, closing.range.stop⟩ _ hstart hstop]

end NodeMarkup
