import NodeMarkup.Proofs.Node.Forest
import NodeMarkup.Proofs.Token.Order
import NodeMarkup.Transpile

namespace NodeMarkup

variable {context : Resource.Context} {source : Text}

theorem Scan.pairwise_before_drain (source : Text) :
    (Scan.start source).drain.1.Pairwise Token.Before := by
  apply (pairwise_drain source).imp_of_mem
  intro t u ht hu hprecedes
  have hlt := (isPiece_of_mem_drain ht).lt
  have hlt' := (isPiece_of_mem_drain hu).lt
  unfold Range.Precedes at hprecedes
  constructor <;> omega

/-- The second pass scans the same source again. -/
theorem Scan.again_drain (source : Text) :
    Scan.again (Scan.start source).drain.2.2.engine = Scan.start source := by
  have hsource := (yields_drain source).between.source_eq
  rw [again_eq, Engine.reset, hsource]
  rfl

theorem transpileLines_of_failed {x : ParseError} (h : (Scan.start source).drain.2.1 = .failed x) :
    transpileLines context source = .error x := by
  have hdeclarations : (Scan.start source).declarations = .error x := by
    rw [Scan.declarations_eq, h]
    rfl
  rw [transpileLines_eq, hdeclarations]
  rfl

/-- A scan without an error leaves everything to the assembly. -/
theorem transpileLines_of_finished (h : (Scan.start source).drain.2.1 = .finished) :
    transpileLines context source =
      ((Assembly.ofSource source).run context (.ofTokens (Scan.start source).drain.1)
        (Scan.start source).drain.1 >>= Assembly.finish) := by
  have hdeclarations : (Scan.start source).declarations =
      .ok (.ofTokens (Scan.start source).drain.1, (Scan.start source).drain.2.2) := by
    rw [Scan.declarations_eq, h]
    rfl
  rw [transpileLines_eq, hdeclarations]
  change (do
    let assembly ← (Assembly.ofSource source).run context (.ofTokens (Scan.start source).drain.1)
      (Scan.again (Scan.start source).drain.2.2.engine).drain.1
    (Scan.again (Scan.start source).drain.2.2.engine).drain.2.1.check
    assembly.finish) = _
  rw [Scan.again_drain, h]
  rfl

theorem transpileLines_of_edits {edits : List Edit}
    (h : (Scan.start source).drain.2.1 = .finished)
    (he : EditsOf context (.ofTokens (Scan.start source).drain.1) (Scan.start source).drain.1 edits) :
    transpileLines context source = .ok ((Draft.ofSource source).edited edits).text := by
  rw [transpileLines_of_finished h]
  unfold Assembly.ofSource
  rw [Assembly.run_edits he (Scan.pairwise_before_drain source)]
  rfl

/-- The error has the given wording, and counts the line and the column of the place from one. -/
structure ParseError.Says (x : ParseError) (message : Text) (place : Cursor) : Prop where
  message_eq : x.message = message
  line_eq : x.line = place.line + 1
  column_eq : x.column = place.column + 1

theorem transpileLines_of_refusal (context : Resource.Context) {message : Text} {place : Cursor}
    (h : (Scan.start source).drain.2.1 = .finished)
    (hr : Refusal (Scan.start source).drain.1 message place) :
    ∃ x, transpileLines context source = .error x ∧ x.Says message place := by
  obtain ⟨fault, hmessage, hrun⟩ := Assembly.run_refusal context
    (.ofTokens (Scan.start source).drain.1) hr (Scan.pairwise_before_drain source) (.ofSource source)
  refine ⟨.ofCursor fault place, ?_, hmessage, rfl, rfl⟩
  rw [transpileLines_of_finished h]
  exact hrun

theorem stop_of_transpileLines_ok {out : Text} (h : transpileLines context source = .ok out) :
    (Scan.start source).drain.2.1 = .finished := by
  rcases Scan.drain_stopped source with hfinished | ⟨x, hfailed⟩
  · exact hfinished
  · simp [transpileLines_of_failed hfailed] at h

theorem wellNested_of_transpileLines_ok {out : Text}
    (h : transpileLines context source = .ok out) :
    WellNested false (Scan.start source).drain.1 := by
  rcases wellNested_or_refusal (Scan.start source).drain.1 with hnested | ⟨message, place, hr⟩
  · exact hnested
  · obtain ⟨x, hx, -⟩ := transpileLines_of_refusal context (stop_of_transpileLines_ok h) hr
    exact absurd (h.symm.trans hx) (by simp)

/-- What a source comes to, by the tokens of its lines and by how their scan stopped. -/
structure Acceptance (context : Resource.Context) (source : Text) (tokens : List Token)
    (stop : ScanEnd) : Prop where
  -- The scan has come to its end or to its first error.
  scanned : stop = .finished ∨ ∃ x, stop = .failed x
  -- The error of the scan is the error, whatever the tokens before it are.
  failed : ∀ x, stop = .failed x → transpileIn context source = .error x
  accepted : stop = .finished →
    ((∃ out, transpileIn context source = .ok out) ↔ WellNested false tokens)
  refused : stop = .finished → ¬WellNested false tokens →
    ∃ message place, Refusal tokens message place
  -- Whatever is wrong with the tokens is what the error says.
  reason : stop = .finished → ∀ message place, Refusal tokens message place →
    ∃ x, transpileIn context source = .error x ∧ x.Says message place

/-- Every source is accepted or refused as its scan and the nesting of its tokens say. -/
theorem transpileIn_acceptance (context : Resource.Context) (source : Text) :
    Acceptance context source (Scan.start (Text.unifyLineBreaks source)).drain.1
      (Scan.start (Text.unifyLineBreaks source)).drain.2.1 := by
  constructor
  case scanned =>
    exact Scan.drain_stopped _
  case failed =>
    intro x hx
    exact transpileLines_of_failed hx
  case accepted =>
    intro hfinished
    constructor
    · intro hok
      obtain ⟨out, hout⟩ := hok
      exact wellNested_of_transpileLines_ok hout
    · intro hnested
      obtain ⟨edits, hedits⟩ := hnested.exists_edits rfl
      exact ⟨_, transpileLines_of_edits hfinished hedits⟩
  case refused =>
    intro _ hnot
    exact (wellNested_or_refusal _).resolve_left hnot
  case reason =>
    intro hfinished message place hr
    exact transpileLines_of_refusal context hfinished hr

end NodeMarkup
