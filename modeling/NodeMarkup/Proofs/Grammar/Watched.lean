import NodeMarkup.Proofs.Grammar.Reading
import NodeMarkup.Proofs.Match.Watched
/-!
Watches over values. What a watch has to hold of is told by the smallest parts of a value: literals,
numbers, paths, blocks and the marks of calls. From these it goes through calls of any depth.
-/
namespace NodeMarkup

open RuleT

/-- The watch holds of the smallest parts of values, and the values that these are meet a condition,
as do calls and blocks of which the watch holds. -/
structure Watch.OverValues (w : Watch) (good : Value → Prop) : Prop where
  empty : ∀ kind, good ⟨kind, []⟩
  lines : ∀ (c : Cursor) (t : Text), w.since c → t ⊆ c.rest →
    w.holds (Text.quote (Text.foldLines t)) ∧ good ⟨.string, Text.quote (Text.foldLines t)⟩
  string : w.Takes Lexeme.lineLiteral fun t => w.holds t ∧ good ⟨.string, t⟩
  number : ∀ p ∈ [Lexeme.fraction, Lexeme.hexadecimal, Lexeme.binary, Lexeme.decimal],
    w.Takes p fun t => w.holds t ∧ good ⟨.number, t⟩
  path : w.Takes Lexeme.path fun t => w.holds t ∧ good ⟨.symbol, t⟩
  mark : ∀ word ∈ ["(".toList, ",".toList, ")".toList, ".".toList], w.Takes (.word word) w.holds
  inner : ∀ (c : Cursor) (n : Nat), w.since c →
    Lexeme.blockLength '\x7b' '\x7d' .code 0 c.advance.rest = some n →
    w.within (c.advance.advanceBy n).advance → w.holds (c.advance.rest.take n)
  block : ∀ t, w.holds t → w.holds (Text.trim t) ∧ good ⟨.block, Text.trim t⟩
  call : ∀ t, w.holds t → good ⟨.call, t⟩

namespace Grammar

variable {w : Watch} {good : Value → Prop} (hw : w.OverValues good)
include hw

theorem watches_stringLiteral :
    Watches w stringLiteral fun string => good ⟨.string, string.code⟩ := by
  have hlines (c : Cursor) (raw : Capture) (hc : w.since c) (hraw : raw.text ⊆ c.rest) :=
    hw.lines c (inside Lexeme.tripleMark.length raw.text) hc
      fun _ h => hraw (List.mem_of_mem_drop (List.mem_of_mem_take h))
  refine .replaced (fun c raw hc hraw => (hlines c raw hc hraw).1)
    (fun c raw hc hraw => .pure (hlines c raw hc hraw).2) ?_
  exact (Watches.pattern (R := fun t => good ⟨.string, t⟩) hw.string (hw.empty _)).bind
    fun _ => .pure fun h => h

theorem watches_number {p : Pattern}
    (hp : p ∈ [Lexeme.fraction, Lexeme.hexadecimal, Lexeme.binary, Lexeme.decimal]) :
    Watches w (pattern p) fun capture => good ⟨.number, capture.text⟩ :=
  .pattern (R := fun t => good ⟨.number, t⟩) (hw.number p hp) (hw.empty _)

theorem watches_literalValue : Watches w literalValue good := by
  apply (watches_stringLiteral hw).framed.optional.bind
  intro found
  rcases found with _ | string
  · have hinteger : Watches w integer fun capture => good ⟨.number, capture.text⟩ := by
      apply Watches.alt
      simp [watches_number hw]
    have hnumber : Watches w (alt [pattern Lexeme.fraction, integer])
        fun capture => good ⟨.number, capture.text⟩ := by
      apply Watches.alt
      simp [watches_number hw, hinteger]
    exact hnumber.bind fun _ => .pure fun h _ => h
  · exact .pure fun h => h string rfl

theorem watches_path : Watches w (pattern Lexeme.path) fun capture => good ⟨.symbol, capture.text⟩ :=
  .pattern (R := fun t => good ⟨.symbol, t⟩) hw.path (hw.empty _)

theorem watches_blockValue : Watches w blockValue good :=
  (Watches.delimited hw.inner).bind fun _ =>
    (Watches.replaceLast (R := fun t => good ⟨.block, t⟩) hw.block).bind
      fun _ => .pure fun h _ => h

theorem watches_mark {word : Text}
    (h : word ∈ ["(".toList, ",".toList, ")".toList, ".".toList]) :
    Watches w (literal word) fun _ => True :=
  .literal (hw.mark word h)

section Call

variable {value : Rule Value} (hv : Watches w value good)
include hv

theorem watches_arguments : Watches w (arguments value) fun _ => True := by
  have hclose : Watches w (required .unclosedArguments (literal ")".toList) >>= fun _ => Pure.pure ())
      fun _ => True :=
    ((watches_mark hw (by simp)).required _).bind fun _ => .pure fun _ => trivial
  refine (watches_mark hw (by simp)).bind fun _ => hv.framed.optional.bind fun found => ?_
  rcases found with _ | first
  · exact hclose.mono fun _ _ _ _ => trivial
  · have hmore : Watches w (literal ",".toList >>= fun _ => required .missingValue value)
        fun _ => True :=
      (watches_mark hw (by simp)).bind fun _ => (hv.required _).mono fun _ _ _ => trivial
    exact hmore.many.bind fun _ => hclose.mono fun _ _ _ _ _ => trivial

theorem watches_member : Watches w (member value) fun _ => True :=
  (watches_mark hw (by simp)).bind fun _ => (watches_path hw).bind fun _ =>
    (watches_arguments hw hv).optional.bind fun _ => .pure fun _ _ _ => trivial

theorem watches_callValue : Watches w (callValue value) good := by
  have hbody : Watches w (do
      let _ ← pattern Lexeme.path
      arguments value
      many (member value)) fun _ => True :=
    (watches_path hw).bind fun _ => (watches_arguments hw hv).bind fun _ =>
      (watches_member hw hv).many.mono fun _ _ _ _ => trivial
  exact hbody.scope.bind fun found => .pure fun h => hw.call found.2.text h.2

end Call

theorem watches_valueBranches {n : Nat} (hv : Watches w (valueWithin n) good) :
    ∀ branch ∈ [literalValue, callValue (valueWithin n), pathValue, blockValue],
      Watches w branch good := by
  have hpath : Watches w pathValue good := (watches_path hw).bind fun _ => .pure fun h => h
  simp [watches_literalValue hw, watches_callValue hw hv, hpath, watches_blockValue hw]

/-- Values inside each other to any depth. -/
theorem watches_valueWithin (n : Nat) : Watches w (valueWithin n) good := by
  induction n with
  | zero => exact Watches.miss
  | succ n ih => exact Watches.alt (watches_valueBranches hw ih)

theorem reads_watched_value {c : Cursor} (hc : w.since c) :
    Reads c value fun v d => w.within d → good v := by
  intro e he hn
  rw [result_value]
  exact Watches.reads_alt (watches_valueBranches hw (watches_valueWithin hw _))
    (keeps_valueBranches _) hc e he hn

end Grammar

end NodeMarkup
