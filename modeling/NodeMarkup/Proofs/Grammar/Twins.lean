import NodeMarkup.Proofs.Grammar.RoundTrip
import NodeMarkup.Proofs.Match.Twins
/-!
The rules of the grammar in tags that differ only in how they end. None of the rules for what stands
in a tag looks behind the end of the tag, so each of them does the same whichever way the tag ends.
-/
namespace NodeMarkup

open RuleT

variable {a b : Text}

/-- The properties are the same and stand at the same places of their tags. -/
structure Property.Near (a b : Text) (p q : Property) : Prop where
  name : p.name = q.name
  value : p.value = q.value
  start : p.range.start.Near a b q.range.start
  stop : p.range.stop.Near a b q.range.stop

theorem endsTag_single : Text.EndsTag "/>".toList := by
  refine ⟨⟨'/', rfl, .inl rfl⟩, by decide, ?_, by decide⟩
  simp [Text.isQuote]

theorem Pattern.StopsAt.mark (ha : a.EndsTag) (c : Char) {word : Text} (hw : word = [c])
    (hc : c ≠ '/' ∧ c ≠ '>') : (Pattern.word word).StopsAt a := by
  subst hw
  constructor
  case le =>
    intro t n h
    simp only [Pattern.word, Option.ite_none_right_eq_some, Option.some.injEq] at h
    obtain ⟨hmatch, rfl⟩ := h
    exact (List.isPrefixOf_iff_prefix.1 hmatch).length_le
  case append =>
    intro w
    cases w with
    | cons d w => simp [Pattern.word, List.isPrefixOf]
    | nil =>
      obtain ⟨d, hd, hend⟩ := ha.head
      obtain ⟨t, rfl⟩ := List.head?_eq_some_iff.1 hd
      have hne : c ≠ d := by
        rintro rfl
        exact hend.elim hc.1 hc.2
      simp [Pattern.word, List.isPrefixOf, hne]

theorem Pattern.StopsAt.andThen {p q : Pattern} (hp : p.StopsAt a) (hq : q.StopsAt a) :
    (Pattern.andThen p q).StopsAt a := by
  constructor
  case le =>
    intro t n h
    simp only [Pattern.andThen, Option.bind_eq_bind, Option.bind_eq_some_iff] at h
    obtain ⟨k, hk, m, hm, hn⟩ := h
    have hle := hp.le hk
    have hle' := hq.le hm
    rw [List.length_drop] at hle'
    obtain rfl : k + m = n := by simpa using hn
    omega
  case append =>
    intro w
    simp only [Pattern.andThen, Option.bind_eq_bind, hp.append]
    cases hk : p w with
    | none => rfl
    | some k =>
      rw [Option.bind_some, Option.bind_some, List.drop_append_of_le_length (hp.le hk), hq.append]

namespace Lexeme

theorem literalTail_eq_none {mark : Char} {t : Text} (h : mark ∉ t) : literalTail mark t = none := by
  fun_induction literalTail mark t with
  | case1 => rfl
  | case2 => rfl
  | case3 c t hc ih =>
    rw [ih (by simp_all)]
    rfl
  | case4 t => simp at h
  | case5 => rfl
  | case6 c t _ hc hbreak ih =>
    rw [ih (by simp_all)]
    rfl

theorem literalTail_append_end (ha : a.EndsTag) {mark : Char} (hm : Text.isQuote mark) (w : Text) :
    literalTail mark (w ++ a) = literalTail mark w := by
  have hnone : mark ∉ a := by
    intro hmem
    simp [ha.noQuote mark hmem] at hm
  have hslash : mark ≠ '\\' := by
    rintro rfl
    simp [Text.isQuote] at hm
  fun_induction literalTail mark w with
  | case1 => rw [List.nil_append, literalTail_eq_none hnone]
  | case2 => simp [literalTail]
  | case3 c t hc ih => simp [literalTail, hc, ih]
  | case4 t => simp [literalTail_cons hslash]
  | case5 c t hpair hc hbreak =>
    simp only [Bool.or_eq_true, decide_eq_true_eq] at hbreak
    rcases hbreak with rfl | rfl
    · -- a backslash at the end of the text hides the first scalar value of the end
      have ht : t = [] := by
        cases t with
        | nil => rfl
        | cons d t => exact (hpair d t rfl rfl).elim
      subst ht
      cases a with
      | nil => exact absurd rfl ha.ne_nil
      | cons d a =>
        have htail : literalTail mark a = none := literalTail_eq_none (by simp_all)
        simp [literalTail, htail]
    · simp [literalTail_cons, hc]
  | case6 c t _ hc hbreak ih =>
    simp only [Bool.or_eq_true, decide_eq_true_eq, not_or] at hbreak
    simp [literalTail_cons hbreak.1, hc, hbreak.2, ih]

theorem stopsAt_lineLiteral (ha : a.EndsTag) : Pattern.StopsAt a lineLiteral := by
  refine ⟨lineLiteral_le, fun w => ?_⟩
  cases w with
  | nil =>
    obtain ⟨c, hc, hend⟩ := ha.head
    obtain ⟨t, rfl⟩ := List.head?_eq_some_iff.1 hc
    rcases hend with rfl | rfl <;> rfl
  | cons c w =>
    rw [List.cons_append, lineLiteral, lineLiteral]
    split
    · next hquote => rw [literalTail_append_end ha (by simpa [Text.isQuote] using hquote)]
    · rfl

theorem local_tripleMark : (Pattern.word tripleMark).Local :=
  .word (List.all_eq_true.1 (by decide))

theorem isPrefixOf_tripleMark_append (ha : a.EndsTag) (w : Text) :
    tripleMark.isPrefixOf (w ++ a) = tripleMark.isPrefixOf w := by
  have hword := local_tripleMark.append ha.apart w
  unfold Pattern.word at hword
  generalize tripleMark.isPrefixOf (w ++ a) = x at hword ⊢
  generalize tripleMark.isPrefixOf w = y at hword ⊢
  cases x <;> cases y <;> simp_all

theorem indexOf?_tripleMark_eq_none {t : Text} (h : '"' ∉ t) : Text.indexOf? tripleMark t = none := by
  induction t with
  | nil => rfl
  | cons c t ih =>
    simp only [List.mem_cons, not_or] at h
    have hc : ¬tripleMark.isPrefixOf (c :: t) := by simp [tripleMark, List.isPrefixOf, h.1]
    rw [Text.indexOf?, if_neg hc, ih h.2]
    rfl

theorem indexOf?_tripleMark_append (ha : a.EndsTag) (w : Text) :
    Text.indexOf? tripleMark (w ++ a) = Text.indexOf? tripleMark w := by
  induction w with
  | nil =>
    have hquote : '"' ∉ a := fun hmem => by simpa [Text.isQuote] using ha.noQuote _ hmem
    rw [List.nil_append, indexOf?_tripleMark_eq_none hquote]
    rfl
  | cons c w ih =>
    have hcons := isPrefixOf_tripleMark_append ha (c :: w)
    rw [List.cons_append] at hcons ⊢
    rw [Text.indexOf?, Text.indexOf?, hcons, ih]

theorem stopsAt_tripleLiteral (ha : a.EndsTag) : Pattern.StopsAt a tripleLiteral := by
  refine Pattern.StopsAt.andThen (local_tripleMark.stopsAt ha) ⟨?_, ?_⟩
  · intro t n h
    obtain ⟨i, hi, rfl⟩ := Option.map_eq_some_iff.1 h
    obtain ⟨body, rest, rfl, rfl⟩ := Text.eq_of_indexOf? hi
    simp only [List.length_append]
    omega
  · intro w
    exact congrArg (Option.map _) (indexOf?_tripleMark_append ha w)

theorem blockLength_eq_none {opening closing : Char} {state : QuoteState} {depth : Nat} {t : Text}
    (h : closing ∉ t) : blockLength opening closing state depth t = none := by
  fun_induction blockLength opening closing state depth t with
  | case1 => rfl
  | case2 depth c t hquote ih => simp [ih (List.not_mem_of_not_mem_cons h)]
  | case3 depth t hquote ih => simp [ih (List.not_mem_of_not_mem_cons h)]
  | case4 t hquote hne => simp at h
  | case5 t depth hquote hne ih => simp at h
  | case6 depth c t hquote hopening hclosing ih => simp [ih (List.not_mem_of_not_mem_cons h)]
  | case7 state depth c t hcode ih => simp [ih (List.not_mem_of_not_mem_cons h)]

/-- A block in a tag ends before the tag does. -/
theorem blockLength_append_end {opening closing : Char} {state : QuoteState} {depth : Nat}
    (h : closing ∉ a) (w : Text) :
    blockLength opening closing state depth (w ++ a) =
      blockLength opening closing state depth w := by
  fun_induction blockLength opening closing state depth w with
  | case1 => rw [List.nil_append, blockLength_eq_none h]
  | case2 depth c t hquote ih => simp [blockLength, hquote, ih]
  | case3 depth t hquote ih => simp [blockLength, hquote, ih]
  | case4 t hquote hne => simp [blockLength, hquote, hne]
  | case5 t depth hquote hne ih => simp [blockLength, hquote, hne, ih]
  | case6 depth c t hquote hopening hclosing ih =>
    simp [blockLength, hquote, hopening, hclosing, ih]
  | case7 state depth c t hcode ih =>
    rw [List.cons_append, blockLength, ih]
    exact hcode

end Lexeme

namespace Grammar

section Rules

variable (ha : a.EndsTag) (hb : b.EndsTag)

theorem hits_stringLiteral_of_lines {t : Text} {n : Nat} (h : Lexeme.tripleLiteral t = some n) :
    Hits t stringLiteral
      (fun string => string.code =
        Text.quote (Text.foldLines (inside Lexeme.tripleMark.length (t.take n))))
      [Text.quote (Text.foldLines (inside Lexeme.tripleMark.length (t.take n)))] (t.drop n) := by
  refine Revises.behind (Hits.pattern h).optional ?_
  rintro _ ⟨raw, rfl, hraw⟩
  dsimp only
  rw [hraw]
  exact (Revises.replaceLast _).bind fun _ _ => Hits.pure rfl

theorem hits_stringLiteral_of_line {t : Text} {n : Nat} (htriple : Lexeme.tripleLiteral t = none)
    (h : Lexeme.lineLiteral t = some n) :
    Hits t stringLiteral (fun string => string.code = t.take n) [t.take n] (t.drop n) := by
  refine Hits.bind (Misses.pattern htriple).optional ?_
  rintro _ rfl
  exact (Hits.pattern h).map _ fun _ h => h

theorem givesUp_stringLiteral_of_none {t : Text} (htriple : Lexeme.tripleLiteral t = none)
    (h : Lexeme.lineLiteral t = none) : GivesUp t stringLiteral := by
  refine .behind (Misses.pattern htriple).optional ?_
  rintro _ rfl
  exact ((Misses.pattern h).bind _).givesUp

theorem error_of_unclosed {t : Text} {e : Engine} (he : e.Before ('\x7b' :: t))
    (h : Lexeme.blockLength '\x7b' '\x7d' .code 0 t = none) :
    ∃ x y, blockValue.result e = (.error x, y) := by
  have hcurrent : e.cursor.current? = some '\x7b' := by simp [Cursor.current?, he.rest]
  have hinside : Lexeme.blockLength '\x7b' '\x7d' .code 0 e.cursor.advance.rest = none := by
    rw [Cursor.rest_advance, he.rest]
    exact h
  have hrun : (delimited '\x7b' '\x7d' : Rule Capture).result e = _ :=
    Engine.delimited_of_unclosed he.failed hcurrent hinside
  unfold blockValue
  rw [result_bind, hrun]
  exact ⟨_, _, rfl⟩

theorem hits_block_ahead {body rest : Text}
    (h : Lexeme.blockLength '\x7b' '\x7d' .code 0 (body ++ '\x7d' :: rest) = some body.length)
    (a : Text) :
    Hits (.ahead a (some ('\x7b' :: (body ++ '\x7d' :: rest)))) blockValue
      (· = ⟨.block, Text.trim body⟩) [Text.trim body] (.ahead a (some rest)) := by
  have hlength := Lexeme.blockLength_append h a
  have htext : Text.ahead a (some ('\x7b' :: (body ++ '\x7d' :: rest))) =
      '\x7b' :: (body ++ '\x7d' :: (rest ++ a)) := by simp [Text.ahead]
  rw [List.append_assoc, List.cons_append] at hlength
  rw [htext]
  exact hits_block hlength

include ha hb

theorem twins_mark (c : Char) {word : Text} (hw : word = [c]) (hc : c ≠ '/' ∧ c ≠ '>') :
    Twins a b .clean (Capture.Near a b) (literal word) (literal word) :=
  .pattern (.mark ha c hw hc) (.mark hb c hw hc)

theorem twins_pattern {p : Pattern} (hp : p.Local) :
    Twins a b .clean (Capture.Near a b) (pattern p) (pattern p) :=
  .pattern (hp.stopsAt ha) (hp.stopsAt hb)

theorem twins_stringLiteral :
    Twins a b .loose (fun x y => x.code = y.code) stringLiteral stringLiteral := by
  intro u e e' he he'
  have htriple := (Lexeme.stopsAt_tripleLiteral ha).ahead u
  have htriple' := (Lexeme.stopsAt_tripleLiteral hb).ahead u
  have hline := (Lexeme.stopsAt_lineLiteral ha).ahead u
  have hline' := (Lexeme.stopsAt_lineLiteral hb).ahead u
  cases hn : Lexeme.tripleLiteral (u.getD []) with
  | some n =>
    have hle := (Lexeme.stopsAt_tripleLiteral ha).le hn
    obtain ⟨htake, hdrop⟩ := Text.take_ahead hle a
    obtain ⟨htake', hdrop'⟩ := Text.take_ahead hle b
    have hhits := hits_stringLiteral_of_lines (htriple.trans hn)
    have hhits' := hits_stringLiteral_of_lines (htriple'.trans hn)
    rw [htake, hdrop] at hhits
    rw [htake', hdrop'] at hhits'
    exact .of_hits hhits hhits' (fun _ _ h h' => h.trans h'.symm) he he'
  | none =>
    rw [hn] at htriple htriple'
    cases hk : Lexeme.lineLiteral (u.getD []) with
    | some n =>
      have hle := (Lexeme.stopsAt_lineLiteral ha).le hk
      obtain ⟨htake, hdrop⟩ := Text.take_ahead hle a
      obtain ⟨htake', hdrop'⟩ := Text.take_ahead hle b
      have hhits := hits_stringLiteral_of_line htriple (hline.trans hk)
      have hhits' := hits_stringLiteral_of_line htriple' (hline'.trans hk)
      rw [htake, hdrop] at hhits
      rw [htake', hdrop'] at hhits'
      exact .of_hits hhits hhits' (fun _ _ h h' => h.trans h'.symm) he he'
    | none =>
      exact .of_givesUp (givesUp_stringLiteral_of_none htriple (hline.trans hk))
        (givesUp_stringLiteral_of_none htriple' (hline'.trans hk)) he he'

theorem twins_number {p : Pattern} (hp : p.Local) :
    Twins a b .loose (fun x y : Capture => x.text = y.text) (pattern p) (pattern p) ∧
      Keeps (pattern p : Rule Capture) :=
  ⟨((twins_pattern ha hb hp).loosen).mono fun _ _ h => h.text, (Structured.pattern p).keeps⟩

theorem twins_integer :
    Twins a b .clean (fun x y : Capture => x.text = y.text) integer integer := by
  apply Twins.alt ha hb
  simp only [List.forall_mem_cons, List.not_mem_nil, false_implies, implies_true, and_true]
  exact ⟨twins_number ha hb Lexeme.local_hexadecimal, twins_number ha hb Lexeme.local_binary,
    twins_number ha hb Lexeme.local_decimal⟩

theorem twins_literalValue : Twins a b .loose (· = ·) literalValue literalValue := by
  have hstring := (twins_stringLiteral ha hb).framed ha hb structured_stringLiteral.keeps
    structured_stringLiteral.keeps
  refine hstring.optional.bind fun found found' hfound => ?_
  cases hfound with
  | some hcode => exact .pure (by rw [hcode])
  | none =>
    have hnumber : Twins a b .clean (fun x y : Capture => x.text = y.text)
        (alt [pattern Lexeme.fraction, integer]) (alt [pattern Lexeme.fraction, integer]) := by
      apply Twins.alt ha hb
      simp only [List.forall_mem_cons, List.not_mem_nil, false_implies, implies_true, and_true]
      exact ⟨twins_number ha hb Lexeme.local_fraction, (twins_integer ha hb).loosen,
        structured_integer.keeps⟩
    exact hnumber.bind fun _ _ h => .pure (by rw [h])

theorem twins_pathValue : Twins a b .loose (· = ·) pathValue pathValue :=
  (twins_pattern ha hb Lexeme.local_path).bind fun _ _ h => .pure (by rw [h.text])

theorem twins_blockValue : Twins a b .loose (· = ·) blockValue blockValue := by
  intro u e e' he he'
  have hother (h : (Text.ahead a u).head? ≠ some '\x7b')
      (h' : (Text.ahead b u).head? ≠ some '\x7b') :
      TwinResult a b .loose (· = ·) e e' (blockValue.result e) (blockValue.result e') :=
    .of_givesUp ((Misses.delimited h).bind _).givesUp ((Misses.delimited h').bind _).givesUp he he'
  have hend {a : Text} (ha : a.EndsTag) : a.head? ≠ some '\x7b' := by
    obtain ⟨c, hc, hend⟩ := ha.head
    rw [hc]
    rcases hend with rfl | rfl <;> simp
  rcases u with _ | _ | ⟨c, w⟩
  · exact hother (by simp [Text.ahead]) (by simp [Text.ahead])
  · exact hother (hend ha) (hend hb)
  · by_cases hc : c = '\x7b'
    · subst hc
      cases hn : Lexeme.blockLength '\x7b' '\x7d' .code 0 w with
      | none =>
        obtain ⟨x, y, hrun⟩ :=
          error_of_unclosed he ((Lexeme.blockLength_append_end ha.noBrace w).trans hn)
        rw [hrun]
        exact .error x
      | some n =>
        obtain ⟨body, rest, rfl, rfl⟩ := Lexeme.eq_of_blockLength hn
        exact .of_hits (hits_block_ahead hn a) (hits_block_ahead hn b)
          (fun _ _ h h' => h.trans h'.symm) he he'
    · exact hother (by simpa [Text.ahead] using hc) (by simpa [Text.ahead] using hc)

section Call

variable {v : Rule Value} (hk : Structured v) (hv : Twins a b .loose (· = ·) v v)
include hk hv

theorem twins_arguments : Twins a b .clean (fun _ _ => True) (arguments v) (arguments v) := by
  have hclose : Twins a b .firm (fun _ _ => True)
      (required .unclosedArguments (literal ")".toList) >>= fun _ => pure ())
      (required .unclosedArguments (literal ")".toList) >>= fun _ => pure ()) :=
    ((twins_mark ha hb ')' rfl (by decide)).required ha hb (Structured.literal _).keeps
      (Structured.literal _).keeps _).bind_firm fun _ _ _ => .pure trivial
  refine (twins_mark ha hb '(' rfl (by decide)).bind_firm fun _ _ _ => ?_
  refine ((hv.framed ha hb hk.keeps hk.keeps).optional).bind_firm fun found found' hfound => ?_
  cases hfound with
  | none => exact hclose
  | some _ =>
    have hmore : Twins a b .clean (· = ·)
        (literal ",".toList >>= fun _ => required .missingValue v)
        (literal ",".toList >>= fun _ => required .missingValue v) :=
      (twins_mark ha hb ',' rfl (by decide)).bind_firm fun _ _ _ =>
        hv.required ha hb hk.keeps hk.keeps _
    have hkeeps := (structured_moreArguments hk).keeps
    exact (hmore.many ha hb hkeeps hkeeps).bind_firm fun _ _ _ => hclose

theorem twins_member : Twins a b .loose (fun _ _ => True) (member v) (member v) := by
  refine (twins_mark ha hb '.' rfl (by decide)).bind fun _ _ _ => ?_
  refine (twins_pattern ha hb Lexeme.local_path).bind fun _ _ _ => ?_
  exact (twins_arguments ha hb hk hv).optional.bind fun _ _ _ => .pure trivial

theorem twins_callValue : Twins a b .loose (· = ·) (callValue v) (callValue v) := by
  have hkeeps := (structured_member hk).keeps
  have hbody : Twins a b .loose (fun _ _ => True)
      (pattern Lexeme.path >>= fun _ => arguments v >>= fun _ => many (member v))
      (pattern Lexeme.path >>= fun _ => arguments v >>= fun _ => many (member v)) := by
    refine (twins_pattern ha hb Lexeme.local_path).bind fun _ _ _ => ?_
    refine (twins_arguments ha hb hk hv).bind fun _ _ _ => ?_
    exact (((twins_member ha hb hk hv).many ha hb hkeeps hkeeps).mono fun _ _ _ => trivial).loosen
  have hbodyKeeps := (structured_callBody hk).keeps
  exact (hbody.scope ha hb hbodyKeeps hbodyKeeps).bind fun _ _ h => .pure (by rw [h.2])

end Call

theorem twins_valueWithin (n : Nat) :
    Twins a b .clean (· = ·) (valueWithin (n + 1)) (valueWithin (n + 1)) := by
  have hbranches {v : Rule Value} (hk : Structured v) (hv : Twins a b .loose (· = ·) v v) :
      Twins a b .clean (· = ·) (alt [literalValue, callValue v, pathValue, blockValue])
        (alt [literalValue, callValue v, pathValue, blockValue]) := by
    apply Twins.alt ha hb
    simp only [List.forall_mem_cons, List.not_mem_nil, false_implies, implies_true, and_true]
    exact ⟨⟨twins_literalValue ha hb, structured_literalValue.keeps⟩,
      ⟨twins_callValue ha hb hk hv, (structured_callValue hk).keeps⟩,
      ⟨twins_pathValue ha hb, structured_pathValue.keeps⟩,
      twins_blockValue ha hb, structured_blockValue.keeps⟩
  induction n with
  | zero => exact hbranches .miss .miss
  | succ n ih => exact hbranches (structured_valueWithin _) ih.loosen

theorem twins_value : Twins a b .clean (· = ·) value value := by
  intro u e e' he he'
  -- a bound that is enough for both
  let n := e.cursor.rest.length + e'.cursor.rest.length
  rw [result_value_eq (n := n + 1) (by omega), result_value_eq (n := n + 1) (by omega)]
  exact twins_valueWithin ha hb n u e e' he he'

theorem twins_propertyHead :
    Twins a b .loose (List.Forall₂ (Capture.Near a b))
      (seq [pattern Lexeme.propertyName, framed (literal "=".toList)])
      (seq [pattern Lexeme.propertyName, framed (literal "=".toList)]) := by
  have hkeeps := (Structured.literal "=".toList).keeps
  have hequals := (twins_mark ha hb '=' rfl (by decide)).framed ha hb hkeeps hkeeps
  exact (twins_pattern ha hb Lexeme.local_propertyName).seq_cons (hequals.seq_cons .seq_nil)

theorem twins_property : Twins a b .loose (Property.Near a b) property property := by
  refine (twins_propertyHead ha hb).bind fun head head' hhead => ?_
  refine (twins_value ha hb).requireLast .missingValue marks_value marks_value ?_
  rintro value _ rfl
  cases hhead with
  | nil => exact .miss
  | cons hname _ =>
    simp only [check_then, rangeFrom_then]
    refine Twins.cursor.bind (m := .firm) fun _ _ hstop => ?_
    exact .pure ⟨hname.text, rfl, hname.start, hstop⟩

theorem twins_properties :
    Twins a b .firm (List.Forall₂ (Property.Near a b)) (many property) (many property) :=
  (twins_property ha hb).many ha hb structured_property.keeps structured_property.keeps

end Rules

/-- The tag has the class and the properties that were read, and a closer at the next code. -/
structure EndsBehind (className : Capture) (properties : List Property) (c d : Cursor) (tag : Tag) :
    Prop where
  className : tag.className = className.text
  properties : tag.properties = properties
  closer : tag.closer = c.skipIgnorable
  word : ∃ word ∈ ["/>".toList, ">".toList], word <+: c.skipIgnorable.rest ∧
    d = c.skipIgnorable.advanceBy word.length

theorem reads_tagTail {c : Cursor} (opener className : Capture) (properties : List Property) :
    Reads c (tagTail opener className properties) fun token d =>
      ∃ tag, token = .ofTag tag ∧ EndsBehind className properties c d tag := by
  apply (Reads.ofState _).bind
  intro ahead d hd
  subst hd
  split
  · exact .miss
  · apply (Reads.require _).bind
    intro _ d hd
    subst hd
    apply (reads_literals ["/>".toList, ">".toList]).bind
    intro closer stop hread
    obtain ⟨hword, hbegins, hstop, hrange⟩ := hread
    apply (reads_tagKind opener closer).bind
    intro kind d hread
    obtain ⟨rfl, -⟩ := hread
    split
    · exact .refuse _ _
    · simp only [check_then]
      exact .pure ⟨_, rfl, rfl, rfl, by simp [hrange], _, hword, hbegins, hstop⟩

theorem hits_tagTail {t rest : Text} {opener : Capture} (hopener : opener.text = "<".toList)
    (hskip : Text.skipIgnorable t = ">".toList ++ rest) (className : Capture)
    (properties : List Property) :
    Hits t (tagTail opener className properties) (fun token => ∃ tag, token = .ofTag tag ∧
      tag.kind = .opening ∧ tag.className = className.text ∧ tag.properties = properties)
      [[">".toList].flatten] rest := by
  have hcloser : (Text.skipIgnorable t).head? = some '/' ∨ (Text.skipIgnorable t).head? = some '>' := by
    simp [hskip]
  refine Hits.bind (hits_closerAhead hcloser) fun ahead htrue => ?_
  subst htrue
  rw [if_neg (by simp)]
  refine hits_angle hskip fun closer hcloser => ?_
  have hkind : (tagKind opener closer : Rule TagKind) = pure .opening := by
    unfold tagKind
    rw [hopener, hcloser]
    rfl
  rw [hkind]
  exact Hits.pure ⟨_, rfl, rfl, rfl, rfl⟩

/-- Where a tag without a body ends a text, its closer is all that is left behind the properties. -/
theorem eq_nil_of_ends {v : Option Text} {w : Text} (hw : w ∈ ["/>".toList, ">".toList])
    (hbegins : w <+: Text.ahead "/>".toList v)
    (hnil : (Text.ahead "/>".toList v).drop w.length = []) : v = some [] := by
  have hpos : 0 < w.length ∧ w.length ≤ 2 := by
    simp only [List.mem_cons, List.not_mem_nil, or_false] at hw
    rcases hw with rfl | rfl <;> decide
  have hshort := hbegins.length_le
  have hlength := List.drop_eq_nil_iff.1 hnil
  cases v with
  | none => simp only [Text.ahead, List.length_nil] at hshort; omega
  | some v =>
    have hv : v.length = 0 := by
      simp only [Text.ahead, List.length_append] at hlength
      have htwo : "/>".toList.length = 2 := rfl
      omega
    rw [List.length_eq_zero_iff.1 hv]

/-- Where a tag without a body is read up to the end of the text, an opening tag with the same class
and the same properties is read if it ends in `>` instead, whatever follows. -/
theorem hits_tagToken_of_single {name : Lexeme.path.Whole} {w rest : Text} {tag : Tag}
    {e x : Engine} (hb : Text.EndsTag ('>' :: rest))
    (he : e.Before ('<' :: (name.text ++ (w ++ "/>".toList))))
    (hrun : tagToken.result e = (.hit (.ofTag tag), x)) (hx : x.cursor.rest = []) :
    tag.closer.rest = "/>".toList ∧
    ∃ more, Hits ('<' :: (name.text ++ (w ++ '>' :: rest))) tagToken
      (fun token => ∃ opening, token = .ofTag opening ∧ opening.kind = .opening ∧
        tag.className = opening.className ∧
        List.Forall₂ (Property.Near "/>".toList ('>' :: rest)) tag.properties opening.properties)
      more rest := by
  have ha := endsTag_single
  obtain ⟨opener, e₁, hopener, hrun⟩ := hit_of_bind hrun
  obtain ⟨className, e₂, hclass, hrun⟩ := hit_of_bind hrun
  obtain ⟨properties, e₃, hproperties, htail⟩ := hit_of_bind hrun
  obtain ⟨_, _, hopener', -, he₁, -⟩ := hits_opener name (w ++ "/>".toList) e he
  cases hopener.symm.trans hopener'
  -- the class and the properties do not depend on how the tag ends
  rw [← List.append_assoc] at he₁
  obtain ⟨u, texts, he₂, hclass'⟩ :=
    (twins_pattern ha hb Lexeme.local_path).hits (u := some (name.text ++ w)) ha he₁ hclass
  obtain ⟨v, texts', he₃, hproperties'⟩ := (twins_properties ha hb).hits ha he₂ hproperties
  obtain ⟨z, hz⟩ := Text.skipIgnorable_ahead v
  have hreads := (reads_tagTail opener className properties e₃ rfl he₃.negate).2
  rw [htail] at hreads
  obtain ⟨_, hfound, hends⟩ := hreads _ rfl
  cases hfound
  obtain ⟨word, hword, hbegins, hstop⟩ := hends.word
  have hcode : e₃.cursor.skipIgnorable.rest = Text.ahead "/>".toList z := by
    rw [Cursor.rest_skipIgnorable, he₃.rest, hz _ ha]
  rw [hstop, Cursor.rest_advanceBy] at hx
  rw [hcode] at hbegins hx
  obtain rfl := eq_nil_of_ends hword hbegins hx
  refine ⟨by rw [hends.closer, hcode]; rfl,
    [['<']] ++ (texts ++ (texts' ++ [[">".toList].flatten])), ?_⟩
  refine Hits.bind (hits_opener name (w ++ '>' :: rest)) fun opener hopener => ?_
  rw [← List.append_assoc]
  refine Hits.bind hclass' fun className hname => ?_
  refine Hits.bind hproperties' fun properties hfound => ?_
  refine (hits_tagTail hopener (hz _ hb) className properties).mono ?_
  rintro _ ⟨opening, rfl, hkind, hclass, hproperties⟩
  refine ⟨opening, rfl, hkind, ?_, ?_⟩
  · rw [hends.className, hclass, hname.text]
  · rw [hends.properties, hproperties]
    exact hfound

/-- A token that begins with `<` is what the rule for tags reads. -/
theorem tagToken_of_token {t : Text} {e x : Engine} {found : Token} (he : e.Before ('<' :: t))
    (hrun : token.result e = (.hit found, x)) :
    ∃ e' x', e'.Before ('<' :: t) ∧ tagToken.result e' = (.hit found, x') ∧
      x'.cursor = x.cursor := by
  have hskip : Text.skipIgnorable ('<' :: t) = '<' :: t := Text.skipIgnorable_of_code (by decide)
  have hdeclarations : ∀ branch ∈ [importToken, variableToken, functionToken],
      GivesUp (Text.skipIgnorable ('<' :: t)) branch ∧ Keeps branch := by
    rw [hskip]
    exact givesUp_declarations (by decide)
  obtain ⟨y, hfirst, hy⟩ := GivesUp.firstOf [tagToken] hdeclarations he
  have hbefore : y.Before ('<' :: t) := by
    rcases hy with rfl | rfl
    · exact he
    · exact he.missed
  have hopen := hbefore.openFrame
  rw [hskip] at hopen
  have hkept := structured_tagToken.keeps y.openFrame
  have htoken : (token : Rule Token) =
      alt ([importToken, variableToken, functionToken] ++ [tagToken]) := rfl
  rw [htoken, result_alt _ he.failed, he.discharged_eq, he.obligation, hfirst,
    result_firstOf_cons] at hrun
  rcases hr : tagToken.result y.openFrame with ⟨o, inner⟩
  rw [hr] at hkept
  obtain ⟨value, rfl, -, hscope⟩ | ⟨-, hscope⟩ | ⟨z, -, hscope⟩ :=
    scope_cases hbefore.failed hr hkept <;> rw [hscope] at hrun
  · cases hrun
    exact ⟨_, inner, hopen, hr, rfl⟩
  · rw [hbefore.obligation] at hrun
    cases hrun
  · cases hrun

end Grammar

end NodeMarkup
