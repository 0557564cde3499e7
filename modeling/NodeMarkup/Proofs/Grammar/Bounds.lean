import Mathlib.Data.List.Forall2
import NodeMarkup.Proofs.Grammar.Reading
/-!
The bounds of repetitions and of values inside values decide nothing. A repetition leaves its place
for good each time, and a value inside another has less to read, so any two bounds above the length
of the unread text give the same outcome on the same engine.
-/
namespace NodeMarkup

open RuleT

variable {α β : Type} {c : Cursor}

/-- A repetition comes to the same within any two bounds above what is left to read. -/
theorem result_manyWithin_eq {rule : Rule α} (hk : Keeps rule) {m n : Nat} {e : Engine}
    (hm : e.cursor.rest.length < m) (hn : e.cursor.rest.length < n) :
    (manyWithin rule m).result e = (manyWithin rule n).result e := by
  induction m generalizing n e with
  | zero => omega
  | succ m ih =>
    obtain ⟨n, rfl⟩ : ∃ k, n = k + 1 := ⟨n - 1, by omega⟩
    have hkept := hk.scope e
    rw [result_manyWithin_succ, result_manyWithin_succ]
    rcases h : (scope rule).result e with ⟨value | _ | x, e'⟩
    · have hreach : e.cursor.Reaches e'.cursor := by simpa only [h] using hkept.reaches
      dsimp only
      split
      · rfl
      · next hmoved =>
        -- the repetition goes on only from a place with less to read
        have hle := hreach.position_le
        have hlt := hreach.length_rest_lt (by omega)
        rw [ih (n := n) (by omega) (by omega)]
    · rfl
    · rfl

/-- A repetition over an engine that reads its own source is never ended by its bound. -/
theorem result_many {rule : Rule α} (hk : Keeps rule) {n : Nat} {e : Engine}
    (hplace : Cursor.IsPlace e.source e.cursor) (hn : e.cursor.rest.length < n) :
    (many rule).result e = (manyWithin rule n).result e := by
  have hle := hplace.length_rest_le
  rw [Cursor.rest_start] at hle
  exact result_manyWithin_eq hk (by omega) hn

/-- Two rules come to the same wherever the innermost frame reads on at `c` with no negation
pending. -/
def Agree (c : Cursor) (rule rule' : Rule α) : Prop :=
  ∀ e : Engine, e.cursor = c → e.frame.negate = false → rule.result e = rule'.result e

namespace Agree

theorem refl (rule : Rule α) : Agree c rule rule := fun _ _ _ => rfl

theorem bind {rule rule' : Rule α} {next next' : α → Rule β} {P : α → Cursor → Prop}
    (h : Agree c rule rule') (hr : Reads c rule P)
    (hnext : ∀ value d, P value d → Agree d (next value) (next' value)) :
    Agree c (rule >>= next) (rule' >>= next') := by
  intro e hc hn
  obtain ⟨hneg, hhit⟩ := hr e hc hn
  rw [result_bind, result_bind, ← h e hc hn]
  rcases hrun : rule.result e with ⟨value | _ | x, e'⟩
  · rw [hrun] at hneg hhit
    exact hnext value e'.cursor (hhit value rfl) e' rfl hneg
  · rfl
  · rfl

theorem behind {rule : Rule α} {next next' : α → Rule β} {P : α → Cursor → Prop}
    (hr : Reads c rule P) (hnext : ∀ value d, P value d → Agree d (next value) (next' value)) :
    Agree c (rule >>= next) (rule >>= next') :=
  (refl rule).bind hr hnext

theorem optional {rule rule' : Rule α} (h : Agree c rule rule') :
    Agree c (RuleT.optional rule) (RuleT.optional rule') := by
  intro e hc hn
  rw [result_optional, result_optional, h e hc hn]

theorem result_scope {body body' : Rule α} (h : Agree c.skipIgnorable body body') {e : Engine}
    (hc : e.cursor = c) : (RuleT.scope body).result e = (RuleT.scope body').result e := by
  cases hf : e.frame.failed with
  | true => rw [result_scope_of_failed body hf, result_scope_of_failed body' hf]
  | false =>
    have hinner := h e.openFrame (by subst hc; rfl) rfl
    rw [RuleT.result_scope body hf, RuleT.result_scope body' hf, hinner]

theorem framed {body body' : Rule α} (h : Agree c.skipIgnorable body body') :
    Agree c (RuleT.framed body) (RuleT.framed body') := by
  intro e hc _
  unfold RuleT.framed
  rw [result_bind, result_bind, h.result_scope hc]

theorem required (fault : Fault) {body body' : Rule α} (h : Agree c.skipIgnorable body body') :
    Agree c (RuleT.required fault body) (RuleT.required fault body') := by
  apply behind (.require fault)
  intro _ _ hd
  subst hd
  exact h.framed

theorem result_firstOf {branches branches' : List (Rule α)}
    (hk : ∀ branch ∈ branches, Keeps branch)
    (h : List.Forall₂ (Agree c.skipIgnorable) branches branches') {e : Engine}
    (hc : e.cursor = c) : (RuleT.firstOf branches).result e = (RuleT.firstOf branches').result e := by
  induction h generalizing e with
  | nil => rfl
  | @cons branch branch' rest rest' hbranch _ ih =>
    have hstay := StaysOnMiss.scope (hk branch (by simp)) e
    rw [result_firstOf_cons, result_firstOf_cons, ← hbranch.result_scope hc]
    rcases hrun : (RuleT.scope branch).result e with ⟨value | _ | x, e'⟩
    · rfl
    · rw [hrun] at hstay
      exact ih (fun r hr => hk r (by simp [hr])) ((hstay rfl).trans hc)
    · rfl

theorem result_alt {branches branches' : List (Rule α)}
    (hk : ∀ branch ∈ branches, Keeps branch)
    (h : List.Forall₂ (Agree c.skipIgnorable) branches branches') {e : Engine}
    (hc : e.cursor = c) : (RuleT.alt branches).result e = (RuleT.alt branches').result e := by
  cases hf : e.frame.failed with
  | true => rw [result_alt_of_failed branches hf, result_alt_of_failed branches' hf]
  | false =>
    have hfirst := result_firstOf hk h (e := e.discharged) hc
    rw [RuleT.result_alt branches hf, RuleT.result_alt branches' hf, hfirst]

theorem manyWithin {rule rule' : Rule α} (hk : Keeps rule)
    (h : ∀ d, c.Reaches d → Agree d rule rule') (n : Nat) :
    Agree c (RuleT.manyWithin rule n) (RuleT.manyWithin rule' n) := by
  induction n generalizing c with
  | zero => exact refl _
  | succ n ih =>
    intro e hc hn
    have hkept := hk.scope e
    have hneg := KeepsNegation.scope hk e
    have hscope := (h _ (Cursor.reaches_skipIgnorable c)).result_scope hc
    rw [result_manyWithin_succ, result_manyWithin_succ, ← hscope]
    rcases hrun : (RuleT.scope rule).result e with ⟨value | _ | x, e'⟩
    · rw [hrun] at hkept hneg
      have hreach : c.Reaches e'.cursor := hc ▸ hkept.reaches
      have hrest := ih (fun d hd => h d (hreach.trans hd)) e' rfl (hneg.trans hn)
      dsimp only
      rw [hrest]
    · rfl
    · rfl

theorem many {rule rule' : Rule α} (hk : Keeps rule) (h : ∀ d, c.Reaches d → Agree d rule rule') :
    Agree c (RuleT.many rule) (RuleT.many rule') :=
  fun e hc hn => manyWithin hk h (e.source.length + 2) e hc hn

end Agree

namespace Grammar

section Call

variable {v v' : Rule Value} (hv : Structured v)
include hv

theorem structured_moreArguments :
    Structured (literal ",".toList >>= fun _ => required .missingValue v : Rule Value) :=
  .bind (.literal _) fun _ => .required _ hv

theorem reads_arguments : Reads c (arguments v) fun _ d => c.Reaches d := by
  apply (Reads.literal_reaches _).bind
  intro _ a hca
  apply (Reads.optional_framed_reaches hv.keeps).bind
  intro found b hab
  have hclose (d : Cursor) (hd : c.Reaches d) :
      Reads d (required .unclosedArguments (literal ")".toList) >>= fun _ => pure ())
        fun _ d => c.Reaches d :=
    (Reads.required_reaches _ (Structured.literal _).keeps).bind fun _ _ h => .pure (hd.trans h)
  cases found with
  | none => exact hclose b (hca.trans hab)
  | some first =>
    have hmore := (structured_moreArguments hv).keeps
    apply (Reads.of_keepsNegation hmore.many (.many hmore)).bind
    intro _ d hd
    exact hclose d ((hca.trans hab).trans hd)

variable (h : ∀ d, c.Reaches d → Agree d v v')
include h

theorem agree_arguments : Agree c (arguments v) (arguments v') := by
  refine .behind (Reads.literal_reaches _) fun _ a hca => ?_
  have hfirst : Agree a (framed v) (framed v') :=
    (h _ (hca.trans (Cursor.reaches_skipIgnorable a))).framed
  apply hfirst.optional.bind (Reads.optional_framed_reaches hv.keeps)
  intro found b hab
  cases found with
  | none => exact .refl _
  | some first =>
    have hmore := (structured_moreArguments hv).keeps
    have hcb : c.Reaches b := hca.trans hab
    refine Agree.bind (.many hmore fun d hbd => ?_) (.of_keepsNegation hmore.many (.many hmore))
      fun _ d _ => .refl _
    refine .behind (Reads.literal_reaches _) fun _ a' hda => ?_
    exact (h _ (((hcb.trans hbd).trans hda).trans (Cursor.reaches_skipIgnorable a'))).required _

theorem agree_member : Agree c (member v) (member v') := by
  refine .behind (Reads.literal_reaches _) fun _ a hca => ?_
  refine .behind (Reads.pattern _) ?_
  intro _ _ hread
  obtain ⟨n, -, rfl, -⟩ := hread
  have hcb := hca.trans (Cursor.reaches_advanceBy n a)
  have harguments := (agree_arguments hv fun d hd => h d (hcb.trans hd)).optional
  intro e hc hn
  rw [result_bind, result_bind, harguments e hc hn]

end Call

theorem agree_callValue {v v' : Rule Value} (hv : Structured v)
    (h : ∀ d, c.Reaches d → c.position < d.position → Agree d v v') :
    Agree c (callValue v) (callValue v') := by
  intro e hc _
  unfold callValue
  rw [result_bind, result_bind]
  rw [Agree.result_scope (c := c) ?_ hc]
  refine .behind (Reads.pattern _) ?_
  intro _ _ hread
  obtain ⟨n, hn, rfl, -⟩ := hread
  -- the name of the call is read before any value in it
  obtain ⟨hpos, hne⟩ := Pattern.andThen_one_pos hn
  have hcs := Cursor.reaches_skipIgnorable c
  have hlt : c.position < (c.skipIgnorable.advanceBy n).position :=
    Nat.lt_of_le_of_lt hcs.position_le (Cursor.position_lt_advanceBy hpos hne)
  have hinside (d : Cursor) (hd : (c.skipIgnorable.advanceBy n).Reaches d) : Agree d v v' :=
    h d ((hcs.trans (Cursor.reaches_advanceBy n _)).trans hd)
      (Nat.lt_of_lt_of_le hlt hd.position_le)
  apply (agree_arguments hv hinside).bind (reads_arguments hv)
  intro _ b hb
  exact .many (structured_member hv).keeps fun d hd =>
    agree_member hv fun a ha => hinside a ((hb.trans hd).trans ha)

/-- Values come to the same within any two bounds above what is left to read. -/
theorem result_valueWithin_eq {m n : Nat} {e : Engine} (hm : e.cursor.rest.length < m)
    (hn : e.cursor.rest.length < n) : (valueWithin m).result e = (valueWithin n).result e := by
  induction m generalizing n e with
  | zero => omega
  | succ m ih =>
    obtain ⟨n, rfl⟩ : ∃ k, n = k + 1 := ⟨n - 1, by omega⟩
    have hcs := Cursor.reaches_skipIgnorable e.cursor
    have hcall : Agree e.cursor.skipIgnorable (callValue (valueWithin m))
        (callValue (valueWithin n)) := by
      apply agree_callValue (structured_valueWithin m)
      intro d hd hlt e' he' _
      have hle := hcs.length_rest_le
      have hless := hd.length_rest_lt hlt
      exact ih (by rw [he']; omega) (by rw [he']; omega)
    refine Agree.result_alt (c := e.cursor) ?_ ?_ rfl
    · exact keeps_valueBranches m
    · exact .cons (.refl _) (.cons hcall (.cons (.refl _) (.cons (.refl _) .nil)))

/-- A value is never cut short by the bound on how deep values lie inside each other. -/
theorem result_value_eq {n : Nat} {e : Engine} (hn : e.cursor.rest.length < n) :
    value.result e = (valueWithin n).result e := by
  rw [result_valueWithin_eq hn (Nat.lt_succ_self _), result_value, valueWithin]

end Grammar

end NodeMarkup
