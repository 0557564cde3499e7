import NodeMarkup.Proofs.Match.Keeping
import NodeMarkup.Proofs.Source.Checked
/-!
Rules with every check made, among frames that are kept. `Agrees` says that such a run of a rule fails
no check, whatever is left in the kept frames, and does what the rule does where nothing is checked
and no frame is kept. There is one lemma for each way to build a rule.
-/
namespace NodeMarkup

open RuleT KeepingT

variable {α β : Type} {source : Text} {c : Cursor}

/-- Computations that keep frames and that have no result if a check fails. -/
abbrev Guarded := KeepingT Option

namespace KeepingT.Passes

variable {value : α} {result : β} {next : Unit → Guarded β}

theorem checked [DecidableEq α] {x : Option α} (h : x = some value) :
    Passes (NodeMarkup.check value x : Guarded Unit) () := by
  intro kept
  refine ⟨kept, ?_⟩
  change (if x = some value then some () else none : Option Unit).bind _ = _
  rw [if_pos h]
  rfl

theorem ensured {p : Prop} [Decidable p] (h : p) : Passes (NodeMarkup.ensure p : Guarded Unit) () :=
  checked (if_pos h)

theorem check [DecidableEq α] {x : Option α} (hx : x = some value)
    (hn : (next ()).Passes result) : (NodeMarkup.check value x >>= next).Passes result :=
  (checked hx).bind hn

theorem ensure {p : Prop} [Decidable p] (h : p) (hn : (next ()).Passes result) :
    (NodeMarkup.ensure p >>= next).Passes result :=
  (ensured h).bind hn

end KeepingT.Passes

/-- Wherever the innermost frame reads on at `c` with no negation pending, the guarded rule fails no
check and comes to what the rule comes to. -/
def Agrees (source : Text) (c : Cursor) (guarded : RuleT Guarded α) (rule : Rule α) : Prop :=
  ∀ e : Engine, e.source = source → e.cursor = c → e.frame.negate = false → AgreesAt e guarded rule

namespace AgreesAt

variable {e : Engine} (hp : Cursor.IsPlace e.source e.cursor)
include hp

/-- Where a pattern is tried at a place of the source, no check fails, with or without negation. -/
theorem pattern (p : Pattern) :
    AgreesAt e (RuleT.pattern p : RuleT Guarded Capture) (RuleT.pattern p) := by
  change Passes (Engine.recogniseM p e : Guarded _) (Engine.recognise p e)
  unfold Engine.recognise Engine.recogniseM
  apply Passes.check hp.rest?
  split
  · exact .pure _
  · dsimp only
    split
    · exact .pure _
    · split
      · exact .pure _
      · next n _ =>
        have hbetween := Range.between?_of_reaches (Cursor.reaches_advanceBy n e.cursor)
        exact .check (hp.advanceBy? n) (.check hbetween (.check (hp.text_advanceBy? n) (.pure _)))

theorem delimited (opening closing : Char) :
    AgreesAt e (RuleT.delimited opening closing : RuleT Guarded Capture)
      (RuleT.delimited opening closing) := by
  have hstart := hp.of_reaches (Cursor.reaches_advance e.cursor)
  change Passes (Engine.delimitedM opening closing e : Guarded _)
    (Engine.delimited opening closing e)
  unfold Engine.delimited Engine.delimitedM
  split
  · exact .pure _
  · apply Passes.check hp.rest?
    split
    · apply Passes.check hp.advance?
      apply Passes.check hstart.rest?
      dsimp only
      split
      · exact .check (hstart.advanceBy? _) (.pure _)
      · next n _ =>
        have hinner := Cursor.reaches_advanceBy n e.cursor.advance
        have hbehind := Cursor.reaches_advance (e.cursor.advance.advanceBy n)
        have hwhole := ((Cursor.reaches_advance e.cursor).trans hinner).trans hbehind
        apply Passes.check (hstart.advanceBy? n)
        apply Passes.check (Range.between?_of_reaches hinner)
        apply Passes.check (hstart.of_reaches hinner).advance?
        apply Passes.check (Range.between?_of_reaches hwhole)
        exact .check (hstart.text_advanceBy? n) (.pure _)
    · exact .pure _

end AgreesAt

namespace Agrees

variable {guarded : RuleT Guarded α} {rule : Rule α}

theorem pure (value : α) : Agrees source c (Pure.pure value) (Pure.pure value) :=
  fun _ _ _ _ => Passes.pure _

theorem miss : Agrees source c (RuleT.miss : RuleT Guarded α) RuleT.miss :=
  fun _ _ _ _ => Passes.pure _

theorem refuse (fault : Fault) (place : Cursor) :
    Agrees source c (RuleT.refuse fault place : RuleT Guarded α) (RuleT.refuse fault place) :=
  fun _ _ _ _ => Passes.pure _

theorem ofEngine (f : Engine → Outcome α × Engine) :
    Agrees source c (RuleT.ofEngine f) (RuleT.ofEngine f) :=
  fun _ _ _ _ => Passes.pure _

theorem cursor_bind {next : Cursor → RuleT Guarded α} {next' : Cursor → Rule α}
    (h : Agrees source c (next c) (next' c)) :
    Agrees source c (RuleT.cursor >>= next) (RuleT.cursor >>= next') := by
  intro e hs hc hneg
  subst hc
  exact Passes.bind (.pure _) (h e hs rfl hneg)

theorem require (fault : Fault) : Agrees source c (RuleT.require fault) (RuleT.require fault) :=
  fun _ _ _ _ => Passes.pure _

/-- A check that is passed does nothing. -/
theorem check [DecidableEq α] {x : Option α} {value : α} (h : x = some value)
    {next : Unit → RuleT Guarded β} {next' : Unit → Rule β}
    (hn : Agrees source c (next ()) (next' ())) :
    Agrees source c (NodeMarkup.check value x >>= next) (NodeMarkup.check value x >>= next') := by
  intro e hs hc hneg
  have hcheck : AgreesAt e (NodeMarkup.check value x : RuleT Guarded Unit)
      (NodeMarkup.check value x) := (Passes.checked h).bind (.pure _)
  apply hcheck.bind
  rintro _ _ ⟨⟩
  exact hn e hs hc hneg

theorem ensure {p : Prop} [Decidable p] (h : p) {next : Unit → RuleT Guarded β}
    {next' : Unit → Rule β} (hn : Agrees source c (next ()) (next' ())) :
    Agrees source c (NodeMarkup.ensure p >>= next) (NodeMarkup.ensure p >>= next') :=
  check (if_pos h) hn

theorem rangeFrom {start : Cursor} (h : start.Reaches c) :
    Agrees source c (RuleT.rangeFrom start) (RuleT.rangeFrom start) := by
  unfold RuleT.rangeFrom
  exact cursor_bind (check (Range.between?_of_reaches h) (pure _))

theorem pattern (hc : Cursor.IsPlace source c) (p : Pattern) :
    Agrees source c (RuleT.pattern p) (RuleT.pattern p) := by
  intro e hs he _
  subst hs he
  exact .pattern hc p

theorem delimited (hc : Cursor.IsPlace source c) (opening closing : Char) :
    Agrees source c (RuleT.delimited opening closing) (RuleT.delimited opening closing) := by
  intro e hs he _
  subst hs he
  exact .delimited hc opening closing

/-- A pattern turned round, and a value that does not depend on it. -/
theorem negated (hc : Cursor.IsPlace source c) (p : Pattern) (value : α) :
    Agrees source c
      (RuleT.negate >>= fun _ => RuleT.pattern p >>= fun _ => Pure.pure value)
      (RuleT.negate >>= fun _ => RuleT.pattern p >>= fun _ => Pure.pure value) := by
  intro e hs he _
  subst hs he
  have hplace : Cursor.IsPlace e.negate.source e.negate.cursor := by
    unfold Engine.negate
    split <;> exact hc
  have hnegate : AgreesAt e (RuleT.negate : RuleT Guarded Unit) RuleT.negate := Passes.pure _
  apply hnegate.bind
  rintro _ _ ⟨⟩
  exact (AgreesAt.pattern hplace p).bind fun _ _ _ => Passes.pure _

theorem optional (h : Agrees source c guarded rule) :
    Agrees source c (RuleT.optional guarded) (RuleT.optional rule) :=
  fun e hs hc hneg => (h e hs hc hneg).optional

/-- The second rule runs where the first has stopped, and may rest on what the first has found. -/
theorem bind (hc : Cursor.IsPlace source c) (h : Agrees source c guarded rule) (hk : Keeps rule)
    {Q : α → Cursor → Prop} (hr : Reads c rule Q) {next : α → RuleT Guarded β}
    {next' : α → Rule β}
    (hn : ∀ value d, Cursor.IsPlace source d → c.Reaches d → Q value d →
      Agrees source d (next value) (next' value)) :
    Agrees source c (guarded >>= next) (rule >>= next') := by
  intro e hs he hneg
  subst hs he
  apply (h e rfl rfl hneg).bind
  intro value e' hresult
  have hkept := hk e
  obtain ⟨hneg', hhit⟩ := hr e rfl hneg
  rw [hresult] at hkept hneg' hhit
  exact hn value e'.cursor (hc.of_reaches hkept.reaches) hkept.reaches (hhit value rfl) e'
    hkept.source rfl hneg'

theorem scope (hc : Cursor.IsPlace source c) (hk : Keeps rule)
    (h : Agrees source c.skipIgnorable guarded rule) :
    Agrees source c (RuleT.scope guarded) (RuleT.scope rule) := by
  intro e hs he _
  subst hs he
  have hdepth : 0 < (rule.result e.openFrame).2.depth := by
    unfold Engine.depth
    rw [(hk e.openFrame).outer]
    exact Nat.succ_pos _
  exact (h e.openFrame rfl rfl rfl).scope (.checked hc.skipIgnorable?) (.ensured hdepth)

theorem framed (hc : Cursor.IsPlace source c) (hk : Keeps rule)
    (h : Agrees source c.skipIgnorable guarded rule) :
    Agrees source c (RuleT.framed guarded) (RuleT.framed rule) :=
  (scope hc hk h).bind hc hk.scope (Reads.of_keepsNegation hk.scope (.scope hk))
    fun found _ _ _ _ => pure found.1

theorem required (hc : Cursor.IsPlace source c) (fault : Fault) (hk : Keeps rule)
    (h : Agrees source c.skipIgnorable guarded rule) :
    Agrees source c (RuleT.required fault guarded) (RuleT.required fault rule) := by
  apply (require fault).bind hc (Engine.kept_require fault) (Reads.require fault)
  intro _ d hd _ hsame
  subst hsame
  exact framed hd hk h

theorem seq_nil : Agrees source c (RuleT.seq ([] : List (RuleT Guarded α))) (RuleT.seq []) :=
  pure []

theorem seq_cons (hc : Cursor.IsPlace source c) (h : Agrees source c guarded rule)
    (hk : Keeps rule) {Q : α → Cursor → Prop} (hr : Reads c rule Q)
    {rest : List (RuleT Guarded α)} {rest' : List (Rule α)}
    (hrest : ∀ value d, Cursor.IsPlace source d → Q value d →
      Agrees source d (RuleT.seq rest) (RuleT.seq rest')) :
    Agrees source c (RuleT.seq (guarded :: rest)) (RuleT.seq (rule :: rest')) := by
  intro e hs he hneg
  subst hs he
  apply (h e rfl rfl hneg).seq_cons
  intro value e' hresult
  have hkept := hk e
  obtain ⟨hneg', hhit⟩ := hr e rfl hneg
  rw [hresult] at hkept hneg' hhit
  exact hrest value e'.cursor (hc.of_reaches hkept.reaches) (hhit value rfl) e' hkept.source rfl
    hneg'

theorem firstOf (hc : Cursor.IsPlace source c) {branches : List (RuleT Guarded α)}
    {branches' : List (Rule α)}
    (h : List.Forall₂ (Agrees source c.skipIgnorable) branches branches')
    (hk : ∀ branch ∈ branches', Keeps branch) :
    Agrees source c (RuleT.firstOf branches) (RuleT.firstOf branches') := by
  induction h with
  | nil => exact miss
  | @cons guarded rule branches branches' hfirst _ ih =>
    obtain ⟨hkeeps, hk⟩ := List.forall_mem_cons.1 hk
    intro e hs he hneg
    subst hs he
    apply (scope hc hkeeps hfirst e rfl rfl hneg).firstOf_cons
    -- a branch that misses leaves the place where it was
    intro e' hresult
    have hkept := hkeeps.scope e
    have hstays := StaysOnMiss.scope hkeeps e
    have hneg' := (KeepsNegation.scope hkeeps e).trans hneg
    rw [hresult] at hkept hstays hneg'
    exact ih hk e' hkept.source (hstays rfl) hneg'

theorem alt (hc : Cursor.IsPlace source c) {branches : List (RuleT Guarded α)}
    {branches' : List (Rule α)}
    (h : List.Forall₂ (Agrees source c.skipIgnorable) branches branches')
    (hk : ∀ branch ∈ branches', Keeps branch) :
    Agrees source c (RuleT.alt branches) (RuleT.alt branches') :=
  fun e hs he hneg => (firstOf hc h hk e.discharged hs he hneg).alt

theorem patterns (hc : Cursor.IsPlace source c) (ps : List Pattern) :
    Agrees source c (RuleT.alt (ps.map RuleT.pattern)) (RuleT.alt (ps.map RuleT.pattern)) := by
  have hplace := hc.of_reaches (Cursor.reaches_skipIgnorable c)
  apply alt hc
  · rw [List.forall₂_map_left_iff, List.forall₂_map_right_iff, List.forall₂_same]
    exact fun p _ => pattern hplace p
  · intro branch hb
    obtain ⟨p, -, rfl⟩ := List.mem_map.1 hb
    exact (Structured.pattern p).keeps

theorem literals (hc : Cursor.IsPlace source c) (words : List Text) :
    Agrees source c (RuleT.alt (words.map RuleT.literal))
      (RuleT.alt (words.map RuleT.literal)) := by
  have h := patterns hc (words.map Pattern.word)
  rw [List.map_map, List.map_map] at h
  exact h

theorem manyWithin (hc : Cursor.IsPlace source c) (hk : Keeps rule)
    (h : ∀ d, Cursor.IsPlace source d → Agrees source d.skipIgnorable guarded rule) (n : Nat) :
    Agrees source c (RuleT.manyWithin guarded n) (RuleT.manyWithin rule n) := by
  induction n generalizing c with
  | zero => exact pure []
  | succ n ih =>
    intro e hs he hneg
    subst hs he
    apply (scope hc hk (h e.cursor hc) e rfl rfl hneg).manyWithin_succ
    intro value e' hresult
    have hkept := hk.scope e
    have hneg' := (KeepsNegation.scope hk e).trans hneg
    rw [hresult] at hkept hneg'
    exact ih (hc.of_reaches hkept.reaches) e' hkept.source rfl hneg'

theorem many (hc : Cursor.IsPlace source c) (hk : Keeps rule)
    (h : ∀ d, Cursor.IsPlace source d → Agrees source d.skipIgnorable guarded rule) :
    Agrees source c (RuleT.many guarded) (RuleT.many rule) := by
  intro e hs he hneg
  exact manyWithin hc hk h (e.source.length + 2) e hs he hneg

section Bind

variable {next : α → RuleT Guarded β} {next' : α → Rule β}

theorem pattern_bind (hc : Cursor.IsPlace source c) (p : Pattern)
    {next : Capture → RuleT Guarded β} {next' : Capture → Rule β}
    (hn : ∀ n, p c.rest = some n → Cursor.IsPlace source (c.advanceBy n) →
      Agrees source (c.advanceBy n) (next ⟨c.rest.take n, ⟨c, c.advanceBy n⟩⟩)
        (next' ⟨c.rest.take n, ⟨c, c.advanceBy n⟩⟩)) :
    Agrees source c (RuleT.pattern p >>= next) (RuleT.pattern p >>= next') := by
  apply (pattern hc p).bind hc (Structured.pattern p).keeps (Reads.pattern p)
  intro _ d hd _ hread
  obtain ⟨n, hn', rfl, rfl⟩ := hread
  exact hn n hn' hd

theorem rangeFrom_bind (hc : Cursor.IsPlace source c) {start : Cursor} (h : start.Reaches c)
    {next : Range → RuleT Guarded β} {next' : Range → Rule β}
    (hn : Agrees source c (next ⟨start, c⟩) (next' ⟨start, c⟩)) :
    Agrees source c (RuleT.rangeFrom start >>= next) (RuleT.rangeFrom start >>= next') := by
  apply (rangeFrom h).bind hc (Structured.rangeFrom start).keeps (Reads.rangeFrom start)
  intro _ _ _ _ hread
  obtain ⟨rfl, rfl⟩ := hread
  exact hn

theorem replaceLast_bind (hc : Cursor.IsPlace source c) (f : Text → Text)
    {next : Capture → RuleT Guarded β} {next' : Capture → Rule β}
    (hn : ∀ capture, Agrees source c (next capture) (next' capture)) :
    Agrees source c (RuleT.replaceLast f >>= next) (RuleT.replaceLast f >>= next') := by
  apply (ofEngine _).bind hc (Structured.replaceLast f).keeps (Reads.replaceLast f)
  intro capture _ _ _ hd
  subst hd
  exact hn capture

theorem framed_bind (hc : Cursor.IsPlace source c) (hr : Structured rule)
    (h : Agrees source c.skipIgnorable guarded rule)
    (hn : ∀ value d, Cursor.IsPlace source d → c.Reaches d →
      Agrees source d (next value) (next' value)) :
    Agrees source c (RuleT.framed guarded >>= next) (RuleT.framed rule >>= next') := by
  apply (framed hc hr.keeps h).bind hc hr.framed.keeps (Reads.framed_reaches hr.keeps)
  exact fun value d hd hread _ => hn value d hd hread

theorem required_bind (hc : Cursor.IsPlace source c) (fault : Fault) (hr : Structured rule)
    (h : Agrees source c.skipIgnorable guarded rule)
    (hn : ∀ value d, Cursor.IsPlace source d → c.Reaches d →
      Agrees source d (next value) (next' value)) :
    Agrees source c (RuleT.required fault guarded >>= next)
      (RuleT.required fault rule >>= next') := by
  apply (required hc fault hr.keeps h).bind hc (hr.required fault).keeps
    (Reads.required_reaches fault hr.keeps)
  exact fun value d hd hread _ => hn value d hd hread

theorem optional_bind (hc : Cursor.IsPlace source c) (hr : Structured rule)
    (h : Agrees source c.skipIgnorable guarded rule) {next : Option α → RuleT Guarded β}
    {next' : Option α → Rule β}
    (hn : ∀ found d, Cursor.IsPlace source d → c.Reaches d →
      Agrees source d (next found) (next' found)) :
    Agrees source c (RuleT.optional (RuleT.framed guarded) >>= next)
      (RuleT.optional (RuleT.framed rule) >>= next') := by
  apply (framed hc hr.keeps h).optional.bind hc hr.framed.optional.keeps
    (Reads.optional_framed_reaches hr.keeps)
  exact fun found d hd hread _ => hn found d hd hread

theorem many_bind (hc : Cursor.IsPlace source c) (hr : Structured rule)
    (h : ∀ d, Cursor.IsPlace source d → Agrees source d guarded rule)
    {next : List α → RuleT Guarded β} {next' : List α → Rule β}
    (hn : ∀ values d, Cursor.IsPlace source d → c.Reaches d →
      Agrees source d (next values) (next' values)) :
    Agrees source c (RuleT.many guarded >>= next) (RuleT.many rule >>= next') := by
  have hmany := many hc hr.keeps fun d hd => h _ hd.skipIgnorable
  apply hmany.bind hc hr.many.keeps (.of_keepsNegation hr.many.keeps (.many hr.keeps))
  exact fun values d hd hread _ => hn values d hd hread

end Bind

end Agrees

end NodeMarkup
