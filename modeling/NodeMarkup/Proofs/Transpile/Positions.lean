import NodeMarkup.Proofs.Grammar.Blame
import NodeMarkup.Proofs.Source.Line
import NodeMarkup.Proofs.Transpile.Acceptance

namespace NodeMarkup

open Assembly

variable {context : Resource.Context} {declarations : Declarations} {source : Text}

/-- The error stands at the beginning of one of the tokens. -/
def ParseError.Within (x : ParseError) (tokens : List Token) : Prop :=
  ∃ token ∈ tokens, x.At token.range.start

namespace Assembly

/-- Each tag that is still open began with one of the tokens. -/
def OpenedBy (tokens : List Token) (a : Assembly) : Prop :=
  ∀ node ∈ a.stack, ∃ token ∈ tokens, token.range.start = node.range.start

theorem OpenedBy.attach {tokens : List Token} {a : Assembly} (h : a.OpenedBy tokens)
    (node : Node) : (a.attach declarations node).OpenedBy tokens := by
  rw [Assembly.attach_eq]
  split
  · exact h
  · next parent rest hstack =>
    have hopened : ∀ node ∈ parent :: rest,
        ∃ token ∈ tokens, token.range.start = node.range.start := hstack ▸ h
    obtain ⟨hparent, hrest⟩ := List.forall_mem_cons.1 hopened
    exact List.forall_mem_cons.2 ⟨hparent, hrest⟩

/-- A token that fits in leaves open what was open before it, and perhaps opens a tag itself. -/
theorem OpenedBy.addToken {before : List Token} {a b : Assembly} (h : a.OpenedBy before)
    {token : Token} (hb : a.addToken context declarations token = .ok b) :
    b.OpenedBy (before ++ [token]) := by
  have hbefore : a.OpenedBy (before ++ [token]) := by
    intro node hnode
    obtain ⟨opening, hmem, hstart⟩ := h node hnode
    exact ⟨opening, List.mem_append_left _ hmem, hstart⟩
  cases token with
  | ofVariable header => cases hb; exact hbefore
  | ofFunction header => cases hb; exact hbefore
  | ofImport i =>
    simp only [addToken_ofImport, addImport_eq] at hb
    split at hb
    · cases hb; exact hbefore
    · cases hb
  | ofTag tag =>
    simp only [addToken_ofTag, addTag_eq] at hb
    split at hb
    · cases hb
      refine List.forall_mem_cons.2 ⟨⟨.ofTag tag, ?_, rfl⟩, hbefore⟩
      exact List.mem_append_right _ (List.mem_singleton.2 rfl)
    · cases hb
      exact hbefore.attach _
    · split at hb
      · cases hb
      · next node rest hstack =>
        split at hb
        · cases hb
        · cases hb
          have hopened : (⟨rest, a.draft⟩ : Assembly).OpenedBy (before ++ [.ofTag tag]) :=
            fun node hnode => hbefore node (hstack ▸ List.mem_cons_of_mem _ hnode)
          exact hopened.attach _

/-- A token that does not fit in is where the error stands. -/
theorem addToken_error {a : Assembly} {token : Token} {x : ParseError}
    (h : a.addToken context declarations token = .error x) : x.At token.range.start := by
  cases token with
  | ofVariable header => cases h
  | ofFunction header => cases h
  | ofImport i =>
    simp only [addToken_ofImport, addImport_eq] at h
    split at h
    · cases h
    · cases h; exact ⟨.importInsideTag, rfl, rfl⟩
  | ofTag tag =>
    simp only [addToken_ofTag, addTag_eq] at h
    split at h
    · cases h
    · cases h
    · split at h
      · cases h; exact ⟨.nothingToClose, rfl, rfl⟩
      · next node rest hstack =>
        split at h
        · cases h; exact ⟨.mismatchedClosingTag node.className, rfl, rfl⟩
        · cases h

/-- Whatever is wrong with the tokens, one of them is to blame. -/
theorem run_error (tokens : List Token) {before : List Token} {a : Assembly}
    (ha : a.OpenedBy before) {x : ParseError}
    (h : (a.run context declarations tokens >>= finish) = .error x) :
    x.Within (before ++ tokens) := by
  induction tokens generalizing before a with
  | nil =>
    change a.finish = .error x at h
    unfold finish at h
    split at h
    · cases h
    · next outermost hlast =>
      cases h
      obtain ⟨token, hmem, hstart⟩ := ha outermost (List.mem_of_getLast? hlast)
      exact ⟨token, List.mem_append_left _ hmem, .missingClosingTag, by rw [hstart], rfl⟩
  | cons token tokens ih =>
    cases hstep : a.addToken context declarations token with
    | ok b =>
      rw [run_cons tokens hstep] at h
      have hrest := ih (ha.addToken hstep) h
      rwa [List.append_assoc, List.singleton_append] at hrest
    | error y =>
      rw [run_cons_error tokens hstep] at h
      cases h
      exact ⟨token, by simp, addToken_error hstep⟩

end Assembly

/-- An error that is not one of the scan stands at the beginning of a token. -/
theorem within_of_transpileLines_error {x : ParseError}
    (hfinished : (Scan.start source).drain.2.1 = .finished)
    (h : transpileLines context source = .error x) : x.Within (Scan.start source).drain.1 := by
  rw [transpileLines_of_finished hfinished] at h
  have hopened : (Assembly.ofSource source).OpenedBy [] := List.forall_mem_nil _
  exact run_error _ hopened h

/-- All errors: where they stand, and how an error of the scan stands to the tokens. -/
theorem transpileLines_error {x : ParseError} (h : transpileLines context source = .error x) :
    ∃ place, Cursor.IsPlace source place ∧ x.At place ∧
      ((Scan.start source).drain.2.1 = .failed x →
        ∀ token ∈ (Scan.start source).drain.1, token.range.stop.position ≤ place.position) := by
  rcases Scan.drain_stopped source with hfinished | ⟨y, hfailed⟩
  · obtain ⟨token, hmem, hx⟩ := within_of_transpileLines_error hfinished h
    refine ⟨token.range.start, (Scan.isPiece_of_mem_drain hmem).start, hx, ?_⟩
    intro hfailed
    rw [hfinished] at hfailed
    cases hfailed
  · obtain rfl : y = x := by
      rw [transpileLines_of_failed hfailed] at h
      exact Except.error.inj h
    obtain ⟨d, htokens, place, hplace, hx⟩ :=
      Scan.take_failed _ (Engine.between_start source) rfl hfailed
    have hreach : (Cursor.start source).Reaches d := htokens.reaches fun _ _ _ h => h.advances.1
    refine ⟨place, hreach.trans hplace, hx, fun _ token hmem => ?_⟩
    obtain ⟨a, b, -, hfollows, hb⟩ := htokens.of_mem (fun _ _ _ h => h.advances.1) hmem
    rw [hfollows.range_eq.2.2]
    exact (hb.trans hplace).position_le

/-- The error counts the line breaks before a place of the source, and the scalar values since the
last of them, both from one; `before` is the source up to that place. -/
structure ParseError.Counts (x : ParseError) (before : Text) : Prop where
  line : x.line = 1 + before.count '\n'
  column : x.column = 1 + (before.reverse.takeWhile (· ≠ '\n')).length

theorem ParseError.At.counts {x : ParseError} {place : Cursor} (h : x.At place)
    (hp : Cursor.IsPlace source place) :
    ∃ before, source = before ++ place.rest ∧ place.position = Text.byteLength before ∧
      x.Counts before := by
  obtain ⟨fault, rfl, -⟩ := h
  obtain ⟨n, rfl⟩ := hp
  refine ⟨source.take n, ?_, ?_, ?_, ?_⟩
  · rw [Cursor.rest_advanceBy, Cursor.rest_start, List.take_append_drop]
  · rw [Cursor.position_advanceBy, Cursor.position_start, Cursor.rest_start, Nat.zero_add]
  · change ((Cursor.start source).advanceBy n).line + 1 = _
    rw [Cursor.line_advanceBy, Cursor.line_start, Cursor.rest_start]
    omega
  · change ((Cursor.start source).advanceBy n).column + 1 = _
    rw [Cursor.column_place, Nat.add_comm]

/-- Every error stands at a place of the source: the source parts there at the end of a scalar
value, and the error counts what stands before it. An error of the scan has all tokens before it. -/
theorem transpileIn_error_counts (context : Resource.Context) (source : Text) (x : ParseError)
    (h : transpileIn context source = .error x) :
    let lines := Text.unifyLineBreaks source
    let scan := (Scan.start lines).drain
    ∃ before after, lines = before ++ after ∧ x.Counts before ∧
      (scan.2.1 = .failed x →
        ∀ token ∈ scan.1, token.range.stop.position ≤ Text.byteLength before) := by
  intro lines scan
  have h : transpileLines context lines = .error x := h
  obtain ⟨place, hplace, hx, htokens⟩ := transpileLines_error h
  obtain ⟨before, hlines, hposition, hcounts⟩ := hx.counts hplace
  exact ⟨before, place.rest, hlines, hcounts, hposition ▸ htokens⟩

/-- A tag whose value is missing, behind another tag and text of more than one byte on a line that
began with a carriage return. -/
theorem transpileIn_error_counts_missing_value :
    let source := "<É/>é\r\n<A/> é <B x=>".toList
    let lines := Text.unifyLineBreaks source
    let scan := (Scan.start lines).drain
    transpileIn .root source = .error ⟨.missingValue, 2, 13⟩ ∧
      scan.2.1 = .failed ⟨.missingValue, 2, 13⟩ ∧
      ∃ before after, lines = before ++ after ∧
        (⟨.missingValue, 2, 13⟩ : ParseError).Counts before ∧
        (scan.2.1 = .failed ⟨.missingValue, 2, 13⟩ →
          ∀ token ∈ scan.1, token.range.stop.position ≤ Text.byteLength before) := by
  intro source lines scan
  have hfailed : scan.2.1 = .failed ⟨.missingValue, 2, 13⟩ := by decide +kernel
  have herror : transpileIn .root source = .error ⟨.missingValue, 2, 13⟩ :=
    transpileLines_of_failed hfailed
  exact ⟨herror, hfailed, transpileIn_error_counts .root source _ herror⟩

end NodeMarkup
