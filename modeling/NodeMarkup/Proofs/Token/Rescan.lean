import NodeMarkup.Proofs.Token.Guarded
import NodeMarkup.Proofs.Transpile.Acceptance

namespace NodeMarkup

/-- What a scan yields if all of its tokens are asked for, or so many of them. -/
def Scan.upTo : Option Nat → Scan → List Token × ScanEnd × Scan
  | none, s => s.drain
  | some n, s => s.take n

namespace Guarded

/-- A new scan of the source of an engine among the frames that are kept. -/
def scan (asked : Option Nat) (e : Engine) : Guarded (List Token × ScanEnd × Scan) := do
  let s ← Scan.againM e
  match asked with
  | none => s.drainM
  | some n => s.takeM n

/-- The engine behind several scans, each of which is left once it has yielded what was asked. -/
def scans : List (Option Nat) → Engine → Guarded Engine
  | [], e => return e
  | asked :: rest, e => do
    let (_, _, s) ← scan asked e
    scans rest s.engine

/-- Neither the frames that are open nor those that are kept make a difference to a scan. -/
theorem passes_scan (asked : Option Nat) (e : Engine) :
    (scan asked e).Passes ((Scan.start e.source).upTo asked) := by
  have hstart := Engine.between_start e.source
  apply (passes_again e).bind
  cases asked with
  | none => exact passes_drain (s := .start e.source) hstart
  | some n => exact passes_take n (s := .start e.source) hstart

theorem source_upTo (asked : Option Nat) (source : Text) :
    ((Scan.start source).upTo asked).2.2.engine.source = source := by
  have hstart := Engine.between_start source
  cases asked with
  | none => exact (Scan.yields_drain source).between.source_eq
  | some n => exact (Scan.yields_take n (s := .start source) hstart rfl).between.source_eq

/-- No number of scans fails a check, and they leave an engine over the same source. -/
theorem passes_scans (history : List (Option Nat)) (e : Engine) :
    ∃ e', (scans history e).Passes e' ∧ e'.source = e.source := by
  induction history generalizing e with
  | nil => exact ⟨e, .pure e, rfl⟩
  | cons asked rest ih =>
    obtain ⟨e', hrest, hsource⟩ := ih ((Scan.start e.source).upTo asked).2.2.engine
    exact ⟨e', (passes_scan asked e).bind hrest, hsource.trans (source_upTo asked e.source)⟩

end Guarded

/-- A scan yields the tokens and comes to the end of the first scan of a new engine, whatever scans
were made before it on the same engine; so the two passes over a source see the same tokens. -/
theorem rescan_eq_first_scan (source : Text) (history : List (Option Nat)) (asked : Option Nat) :
    (∃ e kept, Guarded.scans history (.start source) [] = some (e, kept) ∧
      (Guarded.scan asked e kept).map Prod.fst =
        (Guarded.scan asked (.start source) []).map Prod.fst ∧
      (Guarded.scan asked e kept).map Prod.fst = some ((Scan.start source).upTo asked)) ∧
    (Scan.again (Scan.start source).drain.2.2.engine).drain = (Scan.start source).drain := by
  obtain ⟨e, hscans, hsource⟩ := Guarded.passes_scans history (.start source)
  obtain ⟨kept, hbefore⟩ := hscans []
  obtain ⟨_, hagain⟩ := Guarded.passes_scan asked e kept
  obtain ⟨_, hfirst⟩ := Guarded.passes_scan asked (.start source) []
  rw [hsource] at hagain
  change Guarded.scan asked e kept = some _ at hagain
  change Guarded.scan asked (.start source) [] = some _ at hfirst
  constructor
  · refine ⟨e, kept, hbefore, ?_, ?_⟩
    · rw [hagain, hfirst]
      rfl
    · rw [hagain]
      rfl
  · rw [Scan.again_drain]

end NodeMarkup
