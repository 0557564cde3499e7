import NodeMarkup.Proofs.Node.Guarded
import NodeMarkup.Proofs.Token.Guarded
import NodeMarkup.Proofs.Transpile.Positions

namespace NodeMarkup

namespace Guarded

theorem passes_declarations {source : Text} {s : Scan} (hs : s.engine.Between source) :
    (s.declarationsM : ExceptT ParseError Guarded (Declarations × Scan)).run.Passes
      s.declarations := by
  rw [Scan.declarations_eq]
  apply (passes_drain hs).lift_bind
  obtain ⟨tokens, stop, s'⟩ := s.drain
  cases stop <;> exact .pure _

/-- A scan with an error ends the run; without one, the assembly is sound behind each token. -/
theorem passes_transpileLines (context : Resource.Context) (source : Text) :
    (transpileLinesM context source : ExceptT ParseError Guarded Text).run.Passes
      (transpileLines context source) := by
  have hstart : (Scan.start source).engine.Between source := Engine.between_start source
  have hsource := (Scan.yields_drain source).between.source_eq
  obtain ⟨d, htokens⟩ := (Scan.yields_drain source).tokens
  have hrun := (Assembly.sound_ofSource source).run context
    (.ofTokens (Scan.start source).drain.1) (Cursor.isPlace_start source) htokens
  have hdrain := passes_drain hstart
  have hdeclarations := passes_declarations hstart
  have hagain : (Scan.againM (Scan.start source).drain.2.2.engine : Guarded Scan).Passes
      (.start source) := by
    have hpasses := passes_again (Scan.start source).drain.2.2.engine
    rwa [hsource] at hpasses
  rw [Scan.declarations_eq] at hdeclarations
  apply (passes_again (.start source)).lift_bind
  rcases Scan.drain_stopped source with hfinished | ⟨x, hfailed⟩
  · rw [transpileLines_of_finished hfinished]
    generalize (Scan.start source).drain = scanned at hdrain hdeclarations hagain hrun hfinished ⊢
    obtain ⟨tokens, stop, s⟩ := scanned
    obtain rfl : stop = .finished := hfinished
    apply hdeclarations.bind_ok
    -- the second pass starts from the engine of the first, and yields the same tokens
    apply hagain.lift_bind
    apply hdrain.lift_bind
    dsimp only at hrun ⊢
    cases hassembly : (Assembly.ofSource source).run context (.ofTokens tokens) tokens with
    | ok assembly =>
      rw [hassembly] at hrun
      exact hrun.bind_ok (.pure _)
    | error x =>
      rw [hassembly] at hrun
      exact hrun.bind_error
  · rw [transpileLines_of_failed hfailed]
    rw [hfailed] at hdeclarations
    exact hdeclarations.bind_error

end Guarded

/-- Whatever the source and the context, no check of the run fails, and no error says that frames
were closed or left open out of turn. -/
theorem transpileIn_passes_checks (context : Resource.Context) (source : Text) :
    (∃ kept, (transpileInM context source : ExceptT ParseError Guarded Text).run [] =
        some (transpileIn context source, kept)) ∧
      ∀ x, transpileIn context source = .error x →
        x.fault ≠ .noFrameToClose ∧ x.fault ≠ .frameLeftOpen := by
  constructor
  · exact Guarded.passes_transpileLines context (Text.unifyLineBreaks source) []
  · intro x h
    obtain ⟨place, -, ⟨fault, rfl, hfault⟩, -⟩ := transpileLines_error h
    change fault ≠ _ ∧ fault ≠ _
    constructor
    · intro hsame
      rw [hsame] at hfault
      cases hfault
    · intro hsame
      rw [hsame] at hfault
      cases hfault

end NodeMarkup
