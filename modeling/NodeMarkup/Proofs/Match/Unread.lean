import NodeMarkup.Proofs.Match.Keeping
import NodeMarkup.Proofs.Match.Transaction

namespace NodeMarkup

open RuleT

variable {α β : Type} {m : Type → Type} [Monad m]

/-- Two runs that share the unread text and nothing else. -/
def Pairing.unread : Pairing where
  cursor c d := c.rest = d.rest
  range _ _ := True
  rest_eq h := h
  advance h := by rw [Cursor.rest_advance, Cursor.rest_advance, h]
  between _ _ := trivial
  cover _ _ := trivial

/-- A structured rule that takes its decisions from texts and not from places. The relation says what
its values on two runs have in common. -/
def Textual [Checks m] [Arena m] (R : α → α → Prop) (rule : RuleT m α) : Prop :=
  Alike .unread R rule rule

/-- The innermost frame is not given up and owes nothing. It may be at any depth, over any source, and
have captured anything. -/
structure Engine.Ready (e : Engine) : Prop where
  isPlace : Cursor.IsPlace e.source e.cursor
  failed : e.frame.failed = false
  obligation : e.frame.obligation = none

/-- Two runs end the same way: with values that have something in common, with a miss, or with errors
in the same words. -/
inductive SameEnd (R : α → β → Prop) : Outcome α → Outcome β → Prop where
  | hit {a : α} {b : β} (related : R a b) : SameEnd R (.hit a) (.hit b)
  | miss : SameEnd R .miss .miss
  | error {x y : ParseError} (message : x.message = y.message) : SameEnd R (.error x) (.error y)

/-- The texts that the innermost frame has captured. -/
def Engine.texts (e : Engine) : List Text := e.frame.captures.map Capture.text

/-- Two runs, from `e` and from `e'`, end the same way. They have captured the same texts on the way,
and have read the same number of bytes. -/
structure SameRun (R : α → β → Prop) (e e' : Engine) (x : Outcome α × Engine)
    (y : Outcome β × Engine) : Prop where
  ends : SameEnd R x.1 y.1
  captured : ∃ more, x.2.texts = e.texts ++ more ∧ y.2.texts = e'.texts ++ more
  bytes : ∃ n, x.2.cursor.position = e.cursor.position + n ∧
    y.2.cursor.position = e'.cursor.position + n

/-- Two values that were read in frames of their own, with what was captured there as one text. -/
structure SameCapture (R : α → β → Prop) (x : α × Capture) (y : β × Capture) : Prop where
  value : R x.1 y.1
  text : x.2.text = y.2.text

theorem SameRun.stay {R : α → β → Prop} {o : Outcome α} {o' : Outcome β} {e e' x y : Engine}
    (h : SameEnd R o o') (hx : x.cursor = e.cursor) (hy : y.cursor = e'.cursor)
    (hcx : x.frame.captures = e.frame.captures) (hcy : y.frame.captures = e'.frame.captures) :
    SameRun R e e' (o, x) (o', y) := by
  refine ⟨h, ⟨[], ?_, ?_⟩, 0, congrArg Cursor.position hx, congrArg Cursor.position hy⟩
  · simp [Engine.texts, hcx]
  · simp [Engine.texts, hcy]

/-- Two places with the same text before them are as many bytes behind two others of that kind. -/
theorem Cursor.Reaches.same_bytes {c c' d d' : Cursor} (h : c.Reaches d) (h' : c'.Reaches d')
    (hc : c.rest = c'.rest) (hd : d.rest = d'.rest) :
    ∃ n, d.position = c.position + n ∧ d'.position = c'.position + n := by
  obtain ⟨between, hrest, hposition⟩ := h.rest_eq
  obtain ⟨between', hrest', hposition'⟩ := h'.rest_eq
  have hsame : between = between' := by
    rw [hc, hrest', ← hd] at hrest
    exact (List.append_cancel_right hrest).symm
  exact ⟨_, hposition, hsame ▸ hposition'⟩

theorem Cursor.IsPlace.room {e : Engine} (h : IsPlace e.source e.cursor) :
    e.cursor.rest.length ≤ e.source.length := by
  have hle := h.length_rest_le
  rwa [Cursor.rest_start] at hle

/-- The rule in a frame that is opened for it and that is not left. -/
def RuleT.opened [Arena m] (rule : RuleT m α) : RuleT m α := fun e => do
  rule (← Arena.openFrame e)

theorem result_opened (rule : Rule α) (e : Engine) :
    rule.opened.result e = rule.result e.openFrame := rfl

/-- The rule does not succeed in a frame of its own, whatever the frame around it owes. -/
def MissesFrom (e : Engine) (rule : Rule α) : Prop :=
  Missed (rule.opened.result e).1 (rule.opened.result e).2

section Bodies

variable {R : α → α → Prop} {rule : Rule α} {e e' : Engine} (hr : Textual R rule)
  (hf : e.frame.failed = false) (hf' : e'.frame.failed = false)
  (hplace : Cursor.IsPlace e.source e.cursor) (hplace' : Cursor.IsPlace e'.source e'.cursor)
  (hrest : e.cursor.rest = e'.cursor.rest)
include hr hf hf' hplace hplace' hrest

/-- The frames that are opened for a rule go together, so the rule does the same in them. -/
theorem results_openFrame :
    Pairing.unread.Results R e.openFrame e'.openFrame (rule.result e.openFrame)
      (rule.result e'.openFrame) := by
  have hskip := (Cursor.reaches_skipIgnorable e.cursor).length_rest_le
  have hskip' := (Cursor.reaches_skipIgnorable e'.cursor).length_rest_le
  apply hr.inStep
  refine ⟨?_, Nat.le_trans hskip hplace.room, Nat.le_trans hskip' hplace'.room⟩
  change Pairing.unread.Frames (.fresh _ e.frame.failed) (.fresh _ e'.frame.failed)
  rw [hf, hf']
  exact .fresh (Pairing.skipIgnorable hrest) false

theorem missesFrom_iff : MissesFrom e rule ↔ MissesFrom e' rule := by
  obtain ⟨ho, -, -, hframe⟩ := results_openFrame hr hf hf' hplace hplace' hrest
  unfold MissesFrom Missed
  rw [result_opened, result_opened, hframe.failed]
  generalize (rule.result e.openFrame).1 = o at ho
  generalize (rule.result e'.openFrame).1 = o' at ho
  cases ho with
  | hit related => simp
  | miss => simp
  | error fault place => simp

/-- A rule that does not miss, or whose miss nobody minds, does the same in a frame of its own. -/
theorem sameRun_scope
    (howed : MissesFrom e rule → e.frame.obligation = none ∧ e'.frame.obligation = none) :
    SameRun (SameCapture R) e e' ((scope rule).result e) ((scope rule).result e') := by
  have hinner := results_openFrame hr hf hf' hplace hplace' hrest
  rw [result_scope_eq hf hinner.kept, result_scope_eq hf' hinner.kept', ← hinner.frame.failed]
  unfold MissesFrom at howed
  rw [result_opened] at howed
  generalize rule.result e.openFrame = x at *
  generalize rule.result e'.openFrame = y at *
  obtain ⟨o, x⟩ := x
  obtain ⟨o', y⟩ := y
  obtain ⟨ho, hkept, hkept', hframe⟩ := hinner
  have hmissed (hm : Missed o x) :
      SameRun (SameCapture R) e e' (e.discharged.missed e.frame.obligation)
        (e'.discharged.missed e'.frame.obligation) := by
    obtain ⟨hnone, hnone'⟩ := howed hm
    rw [hnone, hnone']
    exact .stay .miss rfl rfl rfl rfl
  cases ho with
  | hit related =>
    dsimp only
    cases hfailed : x.frame.failed with
    | true => exact hmissed (.inr ⟨⟨_, rfl⟩, hfailed⟩)
    | false =>
      have hreach := (Cursor.reaches_skipIgnorable e.cursor).trans hkept.reaches
      have hreach' := (Cursor.reaches_skipIgnorable e'.cursor).trans hkept'.reaches
      have htext : x.frame.joined.text = y.frame.joined.text := hframe.joined.text
      refine ⟨.hit ⟨related, htext⟩, ⟨[x.frame.joined.text], ?_, ?_⟩,
        hreach.same_bytes hreach' hrest hframe.cursor⟩
      · simp [Engine.texts, Engine.merged, Frame.push]
      · simp [Engine.texts, Engine.merged, Frame.push, htext]
  | miss => exact hmissed (.inl rfl)
  | error fault place => exact .stay (.error rfl) rfl rfl rfl rfl

end Bodies

theorem outcome_scope_ne_miss {R : α → α → Prop} {rule : Rule α} {e : Engine}
    (hr : Textual R rule) (hf : e.frame.failed = false)
    (hplace : Cursor.IsPlace e.source e.cursor) (hhit : ¬MissesFrom e rule) :
    ((scope rule).result e).1 ≠ .miss := by
  have hinner := results_openFrame hr hf hf hplace hplace rfl
  rw [result_scope_eq hf hinner.kept]
  unfold MissesFrom Missed at hhit
  rw [result_opened] at hhit
  generalize rule.result e.openFrame = x at *
  obtain ⟨o, x⟩ := x
  cases o with
  | hit value =>
    cases hfailed : x.frame.failed with
    | true => simp [hfailed] at hhit
    | false => simp
  | miss => simp at hhit
  | error x => simp

/-- The second engine differs from the first at most in what it owes, which is nothing, and in the mark
of its latest match. So does an engine on which branches have been tried without success. -/
structure Engine.Untouched (e x : Engine) : Prop where
  source : x.source = e.source
  cursor : x.cursor = e.cursor
  failed : x.frame.failed = e.frame.failed
  captures : x.frame.captures = e.frame.captures
  obligation : x.frame.obligation = none

theorem Engine.untouched_discharged (e : Engine) : e.Untouched e.discharged :=
  ⟨rfl, rfl, rfl, rfl, rfl⟩

theorem Engine.Untouched.isPlace {e x : Engine} (hx : e.Untouched x)
    (hplace : Cursor.IsPlace e.source e.cursor) : Cursor.IsPlace x.source x.cursor := by
  rw [hx.source, hx.cursor]
  exact hplace

section Branches

variable {R : α → α → Prop} {e x : Engine} (hf : e.frame.failed = false)
  (hplace : Cursor.IsPlace e.source e.cursor) (hx : e.Untouched x)
include hf hplace hx

theorem untouched_of_miss {branch : Rule α} (hb : Textual R branch)
    (hmiss : MissesFrom e branch) :
    ∃ x', (scope branch).result x = (.miss, x') ∧ e.Untouched x' := by
  have hfx : x.frame.failed = false := hx.failed.trans hf
  have hplacex := hx.isPlace hplace
  have hrest : e.cursor.rest = x.cursor.rest := by rw [hx.cursor]
  have hmissx := (missesFrom_iff hb hf hfx hplace hplacex hrest).1 hmiss
  have hinner := results_openFrame hb hfx hfx hplacex hplacex rfl
  have hresult : (scope branch).result x = x.discharged.missed none := by
    rw [result_scope_eq hfx hinner.kept, ← hx.obligation]
    unfold MissesFrom at hmissx
    rw [result_opened] at hmissx
    rcases hmissx with h | ⟨⟨value, h⟩, hfailed⟩
    · rw [h]
    · rw [h, hfailed]
  exact ⟨_, hresult, hx.source, hx.cursor, hx.failed, hx.captures, rfl⟩

/-- Branches that miss leave no trace: behind them it is as if none had been tried. -/
theorem result_firstOf_of_misses {before : List (Rule α)} (after : List (Rule α))
    (hb : ∀ branch ∈ before, Textual R branch) (hmiss : ∀ branch ∈ before, MissesFrom e branch) :
    ∃ x', (firstOf (before ++ after)).result x = (firstOf after).result x' ∧ e.Untouched x' := by
  -- on the branches that miss, keeping the engine untouched behind each of them
  induction before generalizing x with
  | nil => exact ⟨x, rfl, hx⟩
  | cons first before ih =>
    obtain ⟨x', hresult, hx'⟩ :=
      untouched_of_miss hf hplace hx (hb first (by simp)) (hmiss first (by simp))
    rw [List.cons_append, result_firstOf_cons, hresult]
    exact ih hx' (fun b hmem => hb b (by simp [hmem])) fun b hmem => hmiss b (by simp [hmem])

theorem sameRun_firstOf {branch : Rule α} (after : List (Rule α)) (hb : Textual R branch)
    (hhit : ¬MissesFrom e branch) :
    SameRun (fun value y => R value y.1) e e ((firstOf (branch :: after)).result x)
      ((scope branch).result e) := by
  have hfx : x.frame.failed = false := hx.failed.trans hf
  have hplacex := hx.isPlace hplace
  have hrest : x.cursor.rest = e.cursor.rest := by rw [hx.cursor]
  have htexts : x.texts = e.texts := by
    unfold Engine.texts
    rw [hx.captures]
  have hhitx : ¬MissesFrom x branch := by
    rwa [missesFrom_iff hb hfx hf hplacex hplace hrest]
  have hne := outcome_scope_ne_miss hb hfx hplacex hhitx
  obtain ⟨hends, hcaptured, hbytes⟩ :=
    sameRun_scope hb hfx hf hplacex hplace hrest fun h => absurd h hhitx
  rw [htexts] at hcaptured
  rw [hx.cursor] at hbytes
  rw [result_firstOf_cons]
  generalize (scope branch).result x = r at *
  generalize (scope branch).result e = r' at *
  obtain ⟨o, y⟩ := r
  obtain ⟨o', y'⟩ := r'
  cases hends with
  | hit related => exact ⟨.hit related.value, hcaptured, hbytes⟩
  | miss => exact absurd rfl hne
  | error message => exact ⟨.error message, hcaptured, hbytes⟩

end Branches

/-- What an alternative comes to whose branches all miss: a miss, or the error of what is owed. -/
def Engine.owedMiss (e : Engine) : Outcome α :=
  match e.frame.obligation with
  | none => .miss
  | some owed => .error ⟨owed.fault, owed.cursor.line + 1, owed.cursor.column + 1⟩

section Alternatives

variable {R : α → α → Prop} {e : Engine} (hf : e.frame.failed = false)
  (hplace : Cursor.IsPlace e.source e.cursor)
include hf hplace

theorem sameRun_alt {before : List (Rule α)} (after : List (Rule α)) {branch : Rule α}
    (hb : ∀ b ∈ before ++ branch :: after, Textual R b) (hmiss : ∀ b ∈ before, MissesFrom e b)
    (hhit : ¬MissesFrom e branch) :
    SameRun (fun value y => R value y.1) e e ((alt (before ++ branch :: after)).result e)
      ((scope branch).result e) := by
  obtain ⟨x, hresult, hx⟩ := result_firstOf_of_misses hf hplace e.untouched_discharged
    (branch :: after) (fun b hmem => hb b (by simp [hmem])) hmiss
  have hbranch := hb branch (by simp)
  have hne := outcome_scope_ne_miss hbranch hf hplace hhit
  obtain ⟨hends, hcaptured, hbytes⟩ := sameRun_firstOf hf hplace hx after hbranch hhit
  rw [result_alt _ hf, hresult]
  generalize (firstOf (branch :: after)).result x = r at *
  generalize (scope branch).result e = r' at *
  obtain ⟨o, y⟩ := r
  obtain ⟨o', y'⟩ := r'
  cases hends with
  | hit related => exact ⟨.hit related, hcaptured, hbytes⟩
  | miss => exact absurd rfl hne
  | error message => exact ⟨.error message, hcaptured, hbytes⟩

theorem result_alt_of_misses {branches : List (Rule α)} (hb : ∀ b ∈ branches, Textual R b)
    (hmiss : ∀ b ∈ branches, MissesFrom e b) :
    ((alt branches).result e).1 = e.owedMiss ∧ e.Untouched ((alt branches).result e).2 := by
  obtain ⟨x, hresult, hx⟩ :=
    result_firstOf_of_misses hf hplace e.untouched_discharged [] hb hmiss
  rw [List.append_nil] at hresult
  rw [result_alt _ hf, hresult]
  change (x.missed e.frame.obligation : Outcome α × Engine).1 = e.owedMiss ∧
    e.Untouched (x.missed e.frame.obligation : Outcome α × Engine).2
  refine ⟨?_, ?_⟩
  · unfold Engine.missed Engine.owedMiss
    cases e.frame.obligation <;> rfl
  · rw [Engine.missed_engine]
    exact ⟨hx.source, hx.cursor, hx.failed, hx.captures, hx.obligation⟩

end Alternatives

/-- Amid the kept frames, the rule does not succeed in a frame of its own. -/
def MissesAmid (kept : List Frame) (e : Engine) (rule : RuleT Keeping α) : Prop :=
  Missed (rule.opened.amid kept e).1 (rule.opened.amid kept e).2

theorem Simulates.missesAmid_iff {plain : Rule α} {rule : RuleT Keeping α}
    (h : Simulates plain rule) {kept : List Frame} {e : Engine} :
    MissesAmid kept e rule ↔ MissesFrom e plain := by
  have hopened : Simulates plain.opened rule.opened := fun e =>
    (KeepingT.Passes.openFrame e).bind (h e.openFrame)
  unfold MissesAmid MissesFrom
  rw [hopened.amid_eq]

section Afresh

variable {R : α → α → Prop}

theorem Textual.afresh {rule : RuleT Keeping α} (h : Textual R rule) :
    Textual R rule.afresh ∧ Simulates rule.afresh rule :=
  ⟨(Alike.afresh h).1, (Alike.afresh h).2.1⟩

/-- An alternative amid kept frames is that of the same branches with a new frame each time. -/
theorem simulates_alt_afresh {branches : List (RuleT Keeping α)}
    (hb : ∀ branch ∈ branches, Textual R branch) :
    Simulates (alt (branches.map afresh)) (alt branches) := by
  apply Simulates.alt
  rw [List.forall₂_map_left_iff, List.forall₂_same]
  exact fun branch hmem => (hb branch hmem).afresh.2

end Afresh

/-- What a rule comes to depends on the unread text, and on nothing that happened before. -/
structure ReadsTextAlone (R : α → α → Prop) : Prop where
  -- One rule on two engines, over sources that may have nothing in common but what is unread, and
  -- amid any frames that earlier attempts have left.
  same : ∀ (rule : RuleT Keeping α) (e e' : Engine) (kept kept' : List Frame), Textual R rule →
    e.Ready → e'.Ready → e.cursor.rest = e'.cursor.rest →
    SameRun (SameCapture R) e e' ((scope rule).amid kept e) ((scope rule).amid kept' e')
  -- An alternative is its first branch that does not miss on the engine as it was at first.
  first : ∀ (before after : List (RuleT Keeping α)) (branch : RuleT Keeping α) (e : Engine)
    (kept kept' : List Frame), (∀ b ∈ before ++ branch :: after, Textual R b) →
    e.frame.failed = false → Cursor.IsPlace e.source e.cursor →
    (∀ b ∈ before, MissesAmid kept e b) → ¬MissesAmid kept e branch →
    SameRun (fun value y => R value y.1) e e ((alt (before ++ branch :: after)).amid kept e)
      ((scope branch).amid kept' e)
  -- An alternative without such a branch reads and captures nothing.
  exhausted : ∀ (branches : List (RuleT Keeping α)) (e : Engine) (kept : List Frame),
    (∀ b ∈ branches, Textual R b) → e.frame.failed = false →
    Cursor.IsPlace e.source e.cursor → (∀ b ∈ branches, MissesAmid kept e b) →
    ((alt branches).amid kept e).1 = e.owedMiss ∧ e.Untouched ((alt branches).amid kept e).2

/-- Structured rules read text alone, whatever their values are. -/
theorem outcome_of_unread_text (R : α → α → Prop) : ReadsTextAlone R := by
  constructor
  case same =>
    intro rule e e' kept kept' hr he he' hrest
    obtain ⟨htextual, hsimulates⟩ := hr.afresh
    -- with a new frame each time, the kept frames of both engines are out of the way
    rw [hsimulates.scope.amid_eq, hsimulates.scope.amid_eq]
    exact sameRun_scope htextual he.failed he'.failed he.isPlace he'.isPlace hrest
      fun _ => ⟨he.obligation, he'.obligation⟩
  case first =>
    intro before after branch e kept kept' hb hf hplace hmiss hhit
    have hafresh : ∀ b ∈ before.map afresh ++ branch.afresh :: after.map afresh, Textual R b := by
      rw [← List.map_cons, ← List.map_append]
      exact List.forall_mem_map.2 fun b hmem => (hb b hmem).afresh.1
    have hbranch := (hb branch (by simp)).afresh.2
    rw [(simulates_alt_afresh hb).amid_eq, hbranch.scope.amid_eq, List.map_append, List.map_cons]
    refine sameRun_alt hf hplace _ hafresh (List.forall_mem_map.2 fun b hmem => ?_) ?_
    · exact (hb b (by simp [hmem])).afresh.2.missesAmid_iff.1 (hmiss b hmem)
    · rwa [← hbranch.missesAmid_iff]
  case exhausted =>
    intro branches e kept hb hf hplace hmiss
    rw [(simulates_alt_afresh hb).amid_eq]
    refine result_alt_of_misses hf hplace (R := R) (List.forall_mem_map.2 fun b hmem => ?_)
      (List.forall_mem_map.2 fun b hmem => ?_)
    · exact (hb b hmem).afresh.1
    · exact (hb b hmem).afresh.2.missesAmid_iff.1 (hmiss b hmem)

/-- A word behind a comment, read at the start of one source and, two frames deep, behind another word
of another source. The second engine keeps frames that were given up while they were turned round,
owed a match and held a capture. It reads the word also where another one has been tried before. -/
theorem outcome_of_unread_text_two_sources :
    let other : RuleT Keeping Capture := framed (literal "cd".toList)
    let word : RuleT Keeping Capture := literal "ab".toList >>= fun _ => other
    let R : Capture → Capture → Prop := fun x y => x.text = y.text
    let e := Engine.start "ab # x\n cd".toList
    let e' := ((literal "w".toList : Rule Capture).result
      (Engine.start "wab # x\n cd".toList).openFrame.openFrame).2
    let stale : Frame := ⟨e'.cursor, ⟨e.cursor, e'.cursor⟩, true, true, true,
      some ⟨.unclosedTag, e'.cursor⟩, [⟨"w".toList, ⟨e.cursor, e'.cursor⟩⟩]⟩
    Textual R other ∧ Textual R word ∧ e.Ready ∧ e'.Ready ∧ e.cursor.rest = e'.cursor.rest ∧
      e.source ≠ e'.source ∧ e.depth ≠ e'.depth ∧
      SameRun (SameCapture R) e e' ((scope word).amid [] e)
        ((scope word).amid [stale, stale] e') ∧
      SameRun (fun value y => R value y.1) e' e' ((alt [other, word]).amid [stale, stale] e')
        ((scope word).amid [] e') := by
  intro other word R e e' stale
  have hstructured : Structured other := .bind (.scope (.pattern _)) fun _ => .pure _
  have hother : Textual R other := by
    refine .bind (.scope (.pattern _)) (fun _ _ h => .pure ?_) (fun _ => .pure _) fun _ => .pure _
    exact h.value.text
  have hword : Textual R word :=
    .bind (.pattern _) (fun _ _ _ => hother) (fun _ => hstructured) fun _ => hstructured
  have he : e.Ready := ⟨Cursor.isPlace_start _, rfl, rfl⟩
  have he' : e'.Ready := ⟨⟨1, by decide⟩, by decide, by decide⟩
  have hrest : e.cursor.rest = e'.cursor.rest := by decide
  have hsame := (outcome_of_unread_text R).same word e e' [] [stale, stale] hword he he' hrest
  have hmiss : ∀ b ∈ [other], MissesAmid [stale, stale] e' b :=
    List.forall_mem_singleton.2 (.inl rfl)
  have hhit : ¬MissesAmid [stale, stale] e' word := by
    rintro (hmissed | ⟨-, hfailed⟩)
    · cases hmissed
    · cases hfailed
  have hbranches : ∀ b ∈ [other] ++ [word], Textual R b :=
    List.forall_mem_cons.2 ⟨hother, List.forall_mem_singleton.2 hword⟩
  have hfirst := (outcome_of_unread_text R).first [other] [] word e' [stale, stale] [] hbranches
    he'.failed he'.isPlace hmiss hhit
  exact ⟨hother, hword, he, he', hrest, by decide, by decide, hsame, hfirst⟩

end NodeMarkup
