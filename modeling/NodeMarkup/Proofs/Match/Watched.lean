import NodeMarkup.Proofs.Match.Reading
/-!
What holds of everything that a frame captures. A watch is a property of texts that joining keeps; it
may be asked for only as long as a frame has not read past some places. There is one lemma for each
way to build a rule, so that the watch goes through every rule whose patterns keep it.
-/
namespace NodeMarkup

open RuleT

variable {α β : Type}

/-- A property of captured texts that joining keeps. It is asked for in frames that begin at a place
of `since`, and as long as they have read on to a place of `within` at most. -/
structure Watch where
  since : Cursor → Prop
  within : Cursor → Prop
  holds : Text → Prop
  since_of_reaches : ∀ {c d : Cursor}, c.Reaches d → since c → since d
  within_of_reaches : ∀ {c d : Cursor}, c.Reaches d → within d → within c
  holds_nil : holds []
  holds_append : ∀ {s t : Text}, holds s → holds t → holds (s ++ t)

variable {w : Watch}

theorem Watch.holds_flatten {texts : List Text} (h : ∀ t ∈ texts, w.holds t) :
    w.holds texts.flatten := by
  induction texts with
  | nil => exact w.holds_nil
  | cons t texts ih =>
    obtain ⟨ht, hrest⟩ := List.forall_mem_cons.1 h
    exact w.holds_append ht (ih hrest)

/-- As far as the watch reaches, it holds of all that the frame has captured. -/
def Frame.Watched (w : Watch) (f : Frame) : Prop :=
  w.within f.cursor → ∀ capture ∈ f.captures, w.holds capture.text

theorem Frame.watched_fresh (w : Watch) (c : Cursor) (failed : Bool) :
    (Frame.fresh c failed).Watched w := by
  intro _ capture hmem
  cases hmem

theorem Frame.Watched.joined {f : Frame} (h : f.Watched w) (hwithin : w.within f.cursor) :
    w.holds f.joined.text := by
  apply w.holds_flatten
  intro t ht
  obtain ⟨capture, hmem, rfl⟩ := List.mem_map.1 ht
  exact h hwithin capture hmem

/-- The frame has read on and captured more. -/
theorem Frame.Watched.push {f g : Frame} {capture : Capture} (h : f.Watched w)
    (hcaptures : g.captures = f.captures ++ [capture]) (hreach : f.cursor.Reaches g.cursor)
    (hcapture : w.within g.cursor → w.holds capture.text) : g.Watched w := by
  intro hwithin other hother
  rw [hcaptures] at hother
  rcases List.mem_append.1 hother with hmem | hmem
  · exact h (w.within_of_reaches hreach hwithin) other hmem
  · rw [List.mem_singleton.1 hmem]
    exact hcapture hwithin

/-- What a rule comes to from a frame that is watched. -/
structure WatchedResult (w : Watch) (P : α → Prop) (e : Engine) (r : Outcome α × Engine) :
    Prop where
  kept : e.Kept r.2
  frame : r.2.frame.Watched w
  -- A value that was found within reach of the watch meets the condition.
  value : ∀ value, r.1 = .hit value → w.within r.2.cursor → P value

/-- The rule keeps frames watched, and what it finds within reach of the watch meets the condition. -/
def Watches (w : Watch) (rule : Rule α) (P : α → Prop) : Prop :=
  ∀ e : Engine, w.since e.cursor → e.frame.Watched w → WatchedResult w P e (rule.result e)

theorem WatchedResult.since {P : α → Prop} {e : Engine} {r : Outcome α × Engine}
    (h : WatchedResult w P e r) (he : w.since e.cursor) : w.since r.2.cursor :=
  w.since_of_reaches h.kept.reaches he

theorem WatchedResult.of_kept {P : α → Prop} {e x : Engine} {r : Outcome α × Engine}
    (h : WatchedResult w P x r) (hk : e.Kept x) : WatchedResult w P e r :=
  ⟨hk.trans h.kept, h.frame, h.value⟩

/-- A rule that finds nothing. -/
theorem WatchedResult.of_no_hit {P : α → Prop} {e e' : Engine} {o : Outcome α} (hk : e.Kept e')
    (hf : e'.frame.Watched w) (ho : ∀ value, o ≠ .hit value) : WatchedResult w P e (o, e') :=
  ⟨hk, hf, fun value hv => absurd hv (ho value)⟩

theorem WatchedResult.missed {P : α → Prop} {e x : Engine} (hk : e.Kept x)
    (hf : x.frame.Watched w) (owed : Option Obligation) :
    WatchedResult w P e (x.missed owed) := by
  have hframe : (x.missed owed : Outcome α × Engine).2.frame.Watched w := by
    rw [Engine.missed_engine]
    exact hf
  exact ⟨hk.trans (x.kept_missed owed), hframe,
    fun value hv => absurd hv (Engine.missed_outcome_ne_hit _ _ value)⟩

theorem WatchedResult.missed_settled {P : α → Prop} {e : Engine} (hf : e.frame.Watched w)
    (owed : Option Obligation) :
    WatchedResult w P e ({ e with frame := e.frame.settled } |>.missed owed) := by
  have hkept : e.Kept { e with frame := e.frame.settled } := .of_cursor_eq rfl rfl rfl
  exact .missed hkept hf owed

/-- A match of a pattern adds at most its own capture. -/
theorem Engine.captures_recognise (p : Pattern) (e : Engine) :
    (e.recognise p).2.frame.captures = e.frame.captures ∨
      ∃ raw, (e.recognise p).1 = .hit raw ∧
        (e.recognise p).2.frame.captures = e.frame.captures ++ [raw] := by
  cases hfailed : e.frame.failed with
  | true =>
    rw [recognise_of_failed hfailed]
    exact .inl rfl
  | false =>
    cases hp : p e.cursor.rest with
    | none =>
      rw [recognise_of_none hfailed hp]
      split
      · exact .inl rfl
      · rw [missed_engine]
        exact .inl rfl
    | some n =>
      rw [recognise_of_some hfailed hp]
      split
      · rw [missed_engine]
        exact .inl rfl
      · exact .inr ⟨_, rfl, rfl⟩

/-- What a pattern finds stands at the place where it is tried. -/
theorem Engine.text_subset_of_recognise {p : Pattern} {e : Engine} {raw : Capture}
    (h : (e.recognise p).1 = .hit raw) : raw.text ⊆ e.cursor.rest := by
  cases hfailed : e.frame.failed with
  | true =>
    rw [recognise_of_failed hfailed] at h
    cases h
  | false =>
    cases hp : p e.cursor.rest with
    | none =>
      rw [recognise_of_none hfailed hp] at h
      split at h
      · cases h
        exact List.nil_subset _
      · exact absurd h (missed_outcome_ne_hit _ _ raw)
    | some n =>
      rw [recognise_of_some hfailed hp] at h
      split at h
      · exact absurd h (missed_outcome_ne_hit _ _ raw)
      · cases h
        exact List.take_subset n _

/-- What the pattern matches within reach of the watch meets the condition. -/
def Watch.Takes (w : Watch) (p : Pattern) (Q : Text → Prop) : Prop :=
  ∀ (c : Cursor) (n : Nat), w.since c → p c.rest = some n → w.within (c.advanceBy n) →
    Q (c.rest.take n)

namespace Watches

variable {P : α → Prop} {Q : β → Prop} {rule : Rule α}

theorem pure {value : α} (h : P value) : Watches w (Pure.pure value) P := by
  intro e _ hf
  refine ⟨.refl e, hf, ?_⟩
  rintro _ ⟨⟩ _
  exact h

theorem miss : Watches w (RuleT.miss : Rule α) P :=
  fun e _ hf => .of_no_hit (.refl e) hf (by simp)

/-- The condition on the second value may rest on that on the first, which was found within reach if
the second was. -/
theorem bind {next : α → Rule β} (hr : Watches w rule P)
    (hn : ∀ value, Watches w (next value) fun found => P value → Q found) :
    Watches w (rule >>= next) Q := by
  intro e he hf
  have hfirst := hr e he hf
  rw [result_bind]
  rcases h : rule.result e with ⟨value | _ | x, e'⟩ <;> rw [h] at hfirst
  · have hnext := hn value e' (hfirst.since he) hfirst.frame
    refine ⟨hfirst.kept.trans hnext.kept, hnext.frame, ?_⟩
    intro found hfound hwithin
    exact hnext.value found hfound hwithin
      (hfirst.value value rfl (w.within_of_reaches hnext.kept.reaches hwithin))
  · exact .of_no_hit hfirst.kept hfirst.frame (by simp)
  · exact .of_no_hit hfirst.kept hfirst.frame (by simp)

theorem mono {R : α → Prop} (hr : Watches w rule P) (h : ∀ value, P value → R value) :
    Watches w rule R := by
  intro e he hf
  have hresult := hr e he hf
  exact ⟨hresult.kept, hresult.frame,
    fun value hv hwithin => h value (hresult.value value hv hwithin)⟩

theorem optional (hr : Watches w rule P) :
    Watches w (RuleT.optional rule) fun found => ∀ value ∈ found, P value := by
  intro e he hf
  have hfirst := hr e he hf
  rw [result_optional]
  rcases h : rule.result e with ⟨value | _ | x, e'⟩ <;> rw [h] at hfirst
  · refine ⟨hfirst.kept, hfirst.frame, ?_⟩
    rintro _ ⟨⟩ hwithin _ ⟨⟩
    exact hfirst.value value rfl hwithin
  · refine ⟨hfirst.kept, hfirst.frame, ?_⟩
    rintro _ ⟨⟩ _ _ ⟨⟩
  · exact .of_no_hit hfirst.kept hfirst.frame (by simp)

/-- A negated pattern captures the empty text, so the condition has to hold of that as well. -/
theorem pattern {p : Pattern} {R : Text → Prop} (h : w.Takes p fun t => w.holds t ∧ R t)
    (hnil : R []) : Watches w (RuleT.pattern p) fun capture => R capture.text := by
  intro e he hf
  have hkept := Engine.kept_recognise p e
  change WatchedResult w _ e (e.recognise p)
  cases hfailed : e.frame.failed with
  | true =>
    rw [Engine.recognise_of_failed hfailed]
    exact .of_no_hit (.refl e) hf (by simp)
  | false =>
    cases hp : p e.cursor.rest with
    | none =>
      rw [Engine.recognise_of_none hfailed hp]
      split
      · refine ⟨.of_cursor_eq rfl rfl rfl, hf, ?_⟩
        rintro _ ⟨⟩ _
        exact hnil
      · exact .missed_settled hf _
    | some n =>
      rw [Engine.recognise_of_some hfailed hp] at hkept ⊢
      split
      · exact .missed_settled hf _
      · next hnegate =>
        rw [if_neg hnegate] at hkept
        refine ⟨hkept, hf.push rfl hkept.reaches fun hwithin => (h _ n he hp hwithin).1, ?_⟩
        rintro _ ⟨⟩ hwithin
        exact (h _ n he hp hwithin).2

theorem literal {word : Text} (h : w.Takes (.word word) w.holds) :
    Watches w (RuleT.literal word) fun _ => True :=
  pattern (R := fun _ => True) (fun c n hc hp hwithin => ⟨h c n hc hp hwithin, trivial⟩) trivial

theorem delimited {opening closing : Char}
    (h : ∀ (c : Cursor) (n : Nat), w.since c →
      Lexeme.blockLength opening closing .code 0 c.advance.rest = some n →
      w.within (c.advance.advanceBy n).advance → w.holds (c.advance.rest.take n)) :
    Watches w (RuleT.delimited opening closing) fun capture => w.holds capture.text := by
  intro e he hf
  have hkept := Engine.kept_delimited opening closing e
  change WatchedResult w _ e (e.delimited opening closing)
  cases hfailed : e.frame.failed with
  | true =>
    rw [Engine.delimited_of_failed hfailed]
    exact .of_no_hit (.refl e) hf (by simp)
  | false =>
    by_cases ho : e.cursor.current? = some opening
    · cases hn : Lexeme.blockLength opening closing .code 0 e.cursor.advance.rest with
      | none =>
        rw [Engine.delimited_of_unclosed hfailed ho hn] at hkept ⊢
        exact .of_no_hit hkept hf (by simp)
      | some n =>
        rw [Engine.delimited_of_block hfailed ho hn] at hkept ⊢
        refine ⟨hkept, hf.push rfl hkept.reaches (h _ n he hn), ?_⟩
        rintro _ ⟨⟩ hwithin
        exact h _ n he hn hwithin
    · rw [Engine.delimited_of_other hfailed ho]
      exact .missed_settled hf _

/-- The rule for the last capture, if the watch holds of what replaces it. -/
theorem replaceLast {f : Text → Text} {R : Text → Prop}
    (h : ∀ t, w.holds t → w.holds (f t) ∧ R (f t)) :
    Watches w (RuleT.replaceLast f) fun capture => R capture.text := by
  intro e he hf
  change WatchedResult w _ e (e.replaceLast f)
  unfold Engine.replaceLast
  split
  · exact .of_no_hit (.refl e) hf (by simp)
  · next capture hlast =>
    have hmem : capture ∈ e.frame.captures := List.mem_of_getLast? hlast
    refine ⟨.of_cursor_eq rfl rfl rfl, ?_, ?_⟩
    · intro hwithin other hother
      rcases List.mem_append.1 hother with hbefore | hchanged
      · exact hf hwithin other (List.dropLast_subset _ hbefore)
      · rw [List.mem_singleton.1 hchanged]
        exact (h _ (hf hwithin capture hmem)).1
    · rintro _ ⟨⟩ hwithin
      exact (h _ (hf hwithin capture hmem)).2

/-- A pattern whose capture is replaced at once. The watch has to hold of the replacement alone. -/
theorem replaced {p : Pattern} {g : Capture → Text} {next : Capture → Rule β} {other : Rule β}
    (hg : ∀ (c : Cursor) (raw : Capture), w.since c → raw.text ⊆ c.rest → w.holds (g raw))
    (hnext : ∀ (c : Cursor) (raw : Capture), w.since c → raw.text ⊆ c.rest →
      Watches w (next raw) Q)
    (hother : Watches w other Q) :
    Watches w (RuleT.optional (RuleT.pattern p) >>= fun found =>
      match found with
      | some raw => RuleT.replaceLast (fun _ => g raw) >>= fun _ => next raw
      | none => other) Q := by
  intro e he hf
  have hkept := Engine.kept_recognise p e
  have hsince : w.since (e.recognise p).2.cursor := w.since_of_reaches hkept.reaches he
  have hpattern : (RuleT.pattern p).result e = e.recognise p := rfl
  have htext {raw : Capture} (hhit : (e.recognise p).1 = .hit raw) : raw.text ⊆ e.cursor.rest :=
    Engine.text_subset_of_recognise hhit
  rw [result_bind, result_optional, hpattern]
  rcases Engine.captures_recognise p e with hsame | ⟨raw, hhit, hmore⟩
  · -- nothing was captured, so the frame is still watched
    have hframe : (e.recognise p).2.frame.Watched w := fun hwithin capture hmem =>
      hf (w.within_of_reaches hkept.reaches hwithin) capture (hsame ▸ hmem)
    rcases hrun : e.recognise p with ⟨raw | _ | x, e'⟩ <;> rw [hrun] at hkept hsince hframe htext
    · have hreplace := replaceLast (w := w) (f := fun _ => g raw) (R := fun _ => True)
        fun _ _ => ⟨hg _ raw he (htext rfl), trivial⟩
      have hrest := (hnext _ raw he (htext rfl)).mono fun _ h (_ : True) => h
      exact ((hreplace.bind fun _ => hrest) e' hsince hframe).of_kept hkept
    · exact (hother e' hsince hframe).of_kept hkept
    · exact .of_no_hit hkept hframe (by simp)
  · -- the capture is the last one, and the replacement takes its place
    rcases hrun : e.recognise p with ⟨o, e'⟩
    rw [hrun] at hkept hsince hhit hmore htext
    obtain rfl : o = .hit raw := hhit
    have htaken := htext rfl
    let x : Engine := { e' with frame := { e'.frame with
      captures := e.frame.captures ++ [{ raw with text := g raw }] } }
    have hlast : (RuleT.replaceLast (fun _ => g raw) : Rule Capture).result e' =
        (.hit { raw with text := g raw }, x) := by
      have hcaptures : e'.frame.captures = e.frame.captures ++ [raw] := hmore
      change e'.replaceLast (fun _ => g raw) = _
      simp [Engine.replaceLast, hcaptures, x]
    have hframe : x.frame.Watched w := hf.push rfl hkept.reaches fun _ => hg _ raw he htaken
    have hx : e.Kept x := ⟨hkept.source, hkept.outer, hkept.reaches⟩
    dsimp only
    rw [result_bind, hlast]
    exact (hnext _ raw he htaken x hsince hframe).of_kept hx

theorem require (fault : Fault) : Watches w (RuleT.require fault) fun _ => True := by
  intro e _ hf
  refine ⟨Engine.kept_require fault e, ?_, fun _ _ _ => trivial⟩
  change (e.require fault).frame.Watched w
  unfold Engine.require
  split <;> exact hf

theorem scope (hb : Watches w rule P) :
    Watches w (RuleT.scope rule) fun found => P found.1 ∧ w.holds found.2.text := by
  intro e he hf
  cases hfailed : e.frame.failed with
  | true =>
    rw [result_scope_of_failed rule hfailed]
    exact .of_no_hit (.refl e) hf (by simp)
  | false =>
    have hskip := Cursor.reaches_skipIgnorable e.cursor
    have hopen : w.since e.openFrame.cursor := w.since_of_reaches hskip he
    have hbody := hb e.openFrame hopen (Frame.watched_fresh w _ _)
    rcases hr : rule.result e.openFrame with ⟨o, inner⟩
    rw [hr] at hbody
    obtain ⟨value, rfl, -, h⟩ | ⟨-, h⟩ | ⟨x, rfl, h⟩ := scope_cases hfailed hr hbody.kept
    · rw [h]
      have hreach : e.cursor.Reaches inner.cursor := hskip.trans hbody.kept.reaches
      refine ⟨⟨rfl, rfl, hreach⟩, hf.push rfl hreach hbody.frame.joined, ?_⟩
      rintro _ ⟨⟩ hwithin
      exact ⟨hbody.value value rfl hwithin, hbody.frame.joined hwithin⟩
    · rw [h]
      exact .missed e.kept_discharged hf _
    · rw [h]
      exact .of_no_hit (.refl e) hf (by simp)

theorem framed (hr : Watches w rule P) : Watches w (RuleT.framed rule) P :=
  hr.scope.bind fun _ => pure fun h => h.1

theorem required (fault : Fault) (hr : Watches w rule P) :
    Watches w (RuleT.required fault rule) P :=
  (require fault).bind fun _ => hr.framed.mono fun _ h _ => h

theorem firstOf {branches : List (Rule α)} (hb : ∀ branch ∈ branches, Watches w branch P) :
    Watches w (RuleT.firstOf branches) P := by
  induction branches with
  | nil => exact miss
  | cons branch branches ih =>
    intro e he hf
    have hfirst := (hb branch (by simp)).scope e he hf
    rw [result_firstOf_cons]
    rcases h : (RuleT.scope branch).result e with ⟨found | _ | x, e'⟩ <;> rw [h] at hfirst
    · refine ⟨hfirst.kept, hfirst.frame, ?_⟩
      rintro _ ⟨⟩ hwithin
      exact (hfirst.value found rfl hwithin).1
    · have hrest := ih (fun r hr => hb r (by simp [hr])) e' (hfirst.since he) hfirst.frame
      exact hrest.of_kept hfirst.kept
    · exact .of_no_hit hfirst.kept hfirst.frame (by simp)

theorem alt {branches : List (Rule α)} (hb : ∀ branch ∈ branches, Watches w branch P) :
    Watches w (RuleT.alt branches) P := by
  intro e he hf
  cases hfailed : e.frame.failed with
  | true =>
    rw [result_alt_of_failed branches hfailed]
    exact .of_no_hit (.refl e) hf (by simp)
  | false =>
    have hfirst := firstOf hb e.discharged he hf
    rw [result_alt branches hfailed]
    rcases h : (RuleT.firstOf branches).result e.discharged with ⟨value | _ | x, e'⟩ <;>
      rw [h] at hfirst
    · exact hfirst.of_kept e.kept_discharged
    · exact .missed (e.kept_discharged.trans hfirst.kept) hfirst.frame _
    · exact .of_no_hit (e.kept_discharged.trans hfirst.kept) hfirst.frame (by simp)

theorem manyWithin (hr : Watches w rule P) (n : Nat) :
    Watches w (RuleT.manyWithin rule n) fun _ => True := by
  induction n with
  | zero => exact pure trivial
  | succ n ih =>
    intro e he hf
    have hfirst := hr.scope e he hf
    rw [result_manyWithin_succ]
    rcases h : (RuleT.scope rule).result e with ⟨found | _ | x, e'⟩ <;> rw [h] at hfirst
    · dsimp only
      split
      · exact ⟨hfirst.kept, hfirst.frame, fun _ _ _ => trivial⟩
      · have hrest := ih e' (hfirst.since he) hfirst.frame
        exact ⟨hfirst.kept.trans hrest.kept, hrest.frame, fun _ _ _ => trivial⟩
    · exact ⟨hfirst.kept, hfirst.frame, fun _ _ _ => trivial⟩
    · exact .of_no_hit hfirst.kept hfirst.frame (by simp)

theorem many (hr : Watches w rule P) : Watches w (RuleT.many rule) fun _ => True :=
  fun e => hr.manyWithin _ e

/-- What a rule finds in a frame of its own, whatever has been captured before. -/
theorem reads_scope {c : Cursor} (hr : Watches w rule P) (hk : Keeps rule) (hc : w.since c) :
    Reads c (RuleT.scope rule) fun found d => w.within d → P found.1 := by
  intro e hcursor hn
  subst hcursor
  refine ⟨(KeepsNegation.scope hk e).trans hn, ?_⟩
  cases hfailed : e.frame.failed with
  | true =>
    rw [result_scope_of_failed rule hfailed]
    simp
  | false =>
    have hopen : w.since e.openFrame.cursor :=
      w.since_of_reaches (Cursor.reaches_skipIgnorable e.cursor) hc
    have hbody := hr e.openFrame hopen (Frame.watched_fresh w _ _)
    rcases hrun : rule.result e.openFrame with ⟨o, inner⟩
    rw [hrun] at hbody
    obtain ⟨value, rfl, -, h⟩ | ⟨-, h⟩ | ⟨x, rfl, h⟩ := scope_cases hfailed hrun hbody.kept
    · rw [h]
      rintro _ ⟨⟩ hwithin
      exact hbody.value value rfl hwithin
    · rw [h]
      exact fun value hv => absurd hv (Engine.missed_outcome_ne_hit _ _ value)
    · rw [h]
      simp

/-- What an alternative finds, whatever has been captured before. -/
theorem reads_alt {c : Cursor} {branches : List (Rule α)}
    (hb : ∀ branch ∈ branches, Watches w branch P) (hk : ∀ branch ∈ branches, Keeps branch)
    (hc : w.since c) : Reads c (RuleT.alt branches) fun value d => w.within d → P value :=
  .alt_of_scope hk fun branch hbranch => reads_scope (hb branch hbranch) (hk branch hbranch) hc

end Watches

end NodeMarkup
