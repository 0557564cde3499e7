import NodeMarkup.Proofs.Grammar.Written
/-!
Written values are read back. A value is read by the first of four rules that does not give up, so
each form needs that the rules before its own give up on it; what a call captures is put together from
what its parts capture.
-/
namespace NodeMarkup

open RuleT

namespace Grammar

section GivesUp

variable {c : Char} {t : Text}

theorem givesUp_stringLiteral (h : Text.isQuote c = false) : GivesUp (c :: t) stringLiteral := by
  simp only [Text.isQuote, Bool.or_eq_false_iff, decide_eq_false_iff_not] at h
  have htriple : Lexeme.tripleLiteral (c :: t) = none := by
    have hmatch : ¬Lexeme.tripleMark <+: c :: t := by
      rw [Lexeme.tripleMark]
      exact fun hp => h.1 (List.cons_prefix_cons.1 hp).1.symm
    simp [Lexeme.tripleLiteral, Pattern.andThen, Pattern.word_of_not_prefix hmatch]
  have hline : Lexeme.lineLiteral (c :: t) = none := by simp [Lexeme.lineLiteral, h]
  refine .behind (Misses.pattern htriple).optional ?_
  rintro _ rfl
  exact ((Misses.pattern hline).bind _).givesUp

theorem misses_patterns (patterns : List Pattern) (hc : isIgnorable c = false)
    (h : ∀ p ∈ patterns, p (c :: t) = none) :
    Misses (c :: t) (alt (patterns.map pattern)) := by
  apply GivesUp.alt
  intro branch hb
  obtain ⟨p, hp, rfl⟩ := List.mem_map.1 hb
  rw [Text.skipIgnorable_of_code hc]
  exact ⟨(Misses.pattern (h p hp)).givesUp, (Structured.pattern p).keeps⟩

theorem givesUp_literalValue (h : BeginsOther c) : GivesUp (c :: t) literalValue := by
  have hskip := Text.skipIgnorable_of_code (t := t) h.code
  have hnumber : Lexeme.number (c :: t) = none := by
    apply Lexeme.number_eq_none
    intro d hd
    obtain rfl : c = d := by simpa using hd
    exact ⟨h.sign, h.digit⟩
  have hnone : ∀ p ∈ [Lexeme.fraction, Lexeme.hexadecimal, Lexeme.binary, Lexeme.decimal],
      p (c :: t) = none := by
    rw [Lexeme.number_eq_findSome] at hnumber
    exact List.findSome?_eq_none_iff.1 hnumber
  have hstring : Misses (c :: t) (framed stringLiteral) := by
    apply GivesUp.framed
    · rw [hskip]
      exact givesUp_stringLiteral h.quote
    · exact structured_stringLiteral.keeps
  refine .behind hstring.optional ?_
  rintro _ rfl
  refine ((GivesUp.alt ?_).bind _).givesUp
  have hinteger : Misses (c :: t) integer := by
    apply misses_patterns [Lexeme.hexadecimal, Lexeme.binary, Lexeme.decimal] h.code
    exact fun p hp => hnone p (List.mem_cons_of_mem _ hp)
  rw [hskip]
  simp only [List.forall_mem_cons, List.not_mem_nil, false_implies, implies_true, and_true]
  exact ⟨⟨(Misses.pattern (hnone _ (by simp))).givesUp, (Structured.pattern _).keeps⟩,
    hinteger.givesUp, structured_integer.keeps⟩

variable {v : Rule Value}

theorem givesUp_pathValue (h : Lexeme.isSymbolStart c = false) : GivesUp (c :: t) pathValue :=
  ((Misses.pattern (by simp [Lexeme.path_cons, h])).bind _).givesUp

theorem givesUp_blockValue (h : c ≠ '\x7b') : GivesUp (c :: t) blockValue :=
  ((Misses.delimited (by simpa using h)).bind _).givesUp

/-- The name of a call, its arguments and its members. -/
theorem structured_callBody (hv : Structured v) :
    Structured (pattern Lexeme.path >>= fun _ => arguments v >>= fun _ =>
      many (member v) : Rule (List Unit)) :=
  .bind (.pattern _) fun _ => .bind (structured_arguments hv) fun _ => .many (structured_member hv)

theorem givesUp_callValue (hv : Structured v) (hc : isIgnorable c = false)
    (h : Lexeme.isSymbolStart c = false) : GivesUp (c :: t) (callValue v) := by
  have hname : GivesUp (Text.skipIgnorable (c :: t)) (pattern Lexeme.path) := by
    rw [Text.skipIgnorable_of_code hc]
    exact (Misses.pattern (by simp [Lexeme.path_cons, h])).givesUp
  exact (((hname.bind _).scope (structured_callBody hv).keeps).bind _).givesUp

/-- No value begins here. -/
theorem givesUp_valueWithin (h : BeginsOther c) (hs : Lexeme.isSymbolStart c = false)
    (hbrace : c ≠ '\x7b') (n : Nat) :
    GivesUp (c :: t) (valueWithin n) := by
  cases n with
  | zero => exact fun _ _ => rfl
  | succ n =>
    refine (GivesUp.alt ?_).givesUp
    rw [Text.skipIgnorable_of_code h.code]
    simp only [List.forall_mem_cons, List.not_mem_nil, false_implies, implies_true, and_true]
    have hv := structured_valueWithin n
    exact ⟨⟨givesUp_literalValue h, structured_literalValue.keeps⟩,
      ⟨givesUp_callValue hv h.code hs, (structured_callValue hv).keeps⟩,
      ⟨givesUp_pathValue hs, structured_pathValue.keeps⟩,
      givesUp_blockValue hbrace, structured_blockValue.keeps⟩

end GivesUp

section Hits

variable {t rest : Text}

theorem hits_lineLiteral (literal : Lexeme.lineLiteral.Whole) (hrest : rest.head? ≠ some '"') :
    Hits (literal.text ++ rest) stringLiteral (fun string => string.code = literal.text)
      [literal.text] rest := by
  have htriple := Lexeme.tripleLiteral_of_lineLiteral literal.whole hrest
  refine Hits.bind (Misses.pattern htriple).optional ?_
  rintro _ rfl
  apply (Hits.pattern_append (Lexeme.lineLiteral_append literal.whole rest)).map
  exact fun _ h => h

theorem inside_append (mark body : Text) :
    inside mark.length (mark ++ body ++ mark) = body := by
  have hlength : (mark ++ body ++ mark).length - 2 * mark.length = body.length := by
    simp only [List.length_append]
    omega
  rw [inside, hlength, List.append_assoc, List.drop_left, List.take_left]

theorem hits_tripleLiteral (body : LiteralBody) (rest : Text) :
    Hits (Lexeme.tripleMark ++ body.text ++ Lexeme.tripleMark ++ rest) stringLiteral
      (fun string => string.code = Text.quote (Text.foldLines body.text))
      [Text.quote (Text.foldLines body.text)] rest := by
  have hpattern := Hits.pattern_append (Lexeme.tripleLiteral_body body.unmarked body.endsOpen rest)
  refine Revises.behind hpattern.optional ?_
  rintro _ ⟨raw, rfl, hraw⟩
  have hcontent : inside Lexeme.tripleMark.length raw.text = body.text := by
    rw [hraw, inside_append]
  dsimp only
  rw [hcontent]
  exact (Revises.replaceLast _).bind fun _ _ => Hits.pure rfl

/-- The first of some patterns that matches. -/
theorem hits_patterns (patterns : List Pattern) {w : Text}
    (hskip : Text.skipIgnorable (w ++ rest) = w ++ rest)
    (h : patterns.findSome? (fun p => p (w ++ rest)) = some w.length) :
    Hits (w ++ rest) (alt (patterns.map pattern)) (fun capture => capture.text = w) [w] rest := by
  obtain ⟨before, p, after, rfl, hp, hbefore⟩ := List.findSome?_eq_some_iff.1 h
  have hhit := Hits.pattern_append hp
  rw [List.map_append, List.map_cons]
  refine hhit.alt_of_code _ _ hskip ?_ (Structured.pattern p).keeps
  intro branch hb
  obtain ⟨q, hq, rfl⟩ := List.mem_map.1 hb
  exact ⟨(Misses.pattern (hbefore q hq)).givesUp, (Structured.pattern q).keeps⟩

theorem hits_number (n : Numeral) (hrest : rest.Apart) :
    Hits (n.text ++ rest) literalValue (· = ⟨.number, n.text⟩) [n.text] rest := by
  obtain ⟨c, w, hw, hcode, hquote⟩ := n.head
  have hskip := Text.skipIgnorable_append hw hcode rest
  have hnumber := n.number
  rw [← Lexeme.local_number.append hrest, Lexeme.number_eq_findSome] at hnumber
  have hstring : Misses (n.text ++ rest) (framed stringLiteral) := by
    apply GivesUp.framed
    · rw [hskip, hw]
      exact givesUp_stringLiteral hquote
    · exact structured_stringLiteral.keeps
  refine Hits.bind hstring.optional ?_
  rintro _ rfl
  suffices halt : Hits (n.text ++ rest) (alt [pattern Lexeme.fraction, integer])
      (fun capture => capture.text = n.text) [n.text] rest from
    halt.map _ fun _ h => by rw [h]
  rw [List.findSome?_cons] at hnumber
  split at hnumber
  · next hfraction =>
    have hhit := Hits.pattern_append (hfraction.trans hnumber)
    exact hhit.alt_of_code [] [integer] hskip (by simp) (Structured.pattern _).keeps
  · next hfraction =>
    have hhit : Hits (n.text ++ rest) integer (fun capture => capture.text = n.text) [n.text] rest :=
      hits_patterns [Lexeme.hexadecimal, Lexeme.binary, Lexeme.decimal] hskip hnumber
    refine hhit.alt_of_code [pattern Lexeme.fraction] [] hskip ?_ structured_integer.keeps
    simpa using ⟨(Misses.pattern hfraction).givesUp, (Structured.pattern _).keeps⟩

theorem hits_path (name : Lexeme.path.Whole) (hrest : rest.Apart) :
    Hits (name.text ++ rest) (pattern Lexeme.path) (fun capture => capture.text = name.text)
      [name.text] rest := by
  apply Hits.pattern_append
  rw [Lexeme.local_path.append hrest, name.whole]

theorem hits_pathValue (name : Lexeme.path.Whole) (hrest : rest.Apart) :
    Hits (name.text ++ rest) pathValue (· = ⟨.symbol, name.text⟩) [name.text] rest :=
  (hits_path name hrest).map _ fun _ h => by rw [h]

theorem hits_block {w : Text}
    (h : Lexeme.blockLength '\x7b' '\x7d' .code 0 (w ++ '\x7d' :: rest) = some w.length) :
    Hits ('\x7b' :: (w ++ '\x7d' :: rest)) blockValue (· = ⟨.block, Text.trim w⟩) [Text.trim w]
      rest := by
  refine Revises.behind (Hits.delimited h) fun _ _ => ?_
  exact (Revises.replaceLast _).bind fun _ h => Hits.pure (by rw [h])

theorem hits_blockValue (body : BlockBody) (rest : Text) :
    Hits ('\x7b' :: (body.text ++ '\x7d' :: rest)) blockValue (· = ⟨.block, Text.trim body.text⟩)
      [Text.trim body.text] rest := by
  have h := Lexeme.blockLength_append body.balanced rest
  rw [List.append_assoc, List.singleton_append] at h
  exact hits_block h

end Hits

section Values

-- The text `t` of the value may stand behind ignorable text, with which it is `t₀`.
variable {t₀ t rest : Text} {n : Nat}

/-- A value that is a literal or a number. -/
theorem hits_value_of_literal {code : Text} {Q : Value → Prop}
    (hcode : Text.skipIgnorable t₀ = t) (h : Hits t literalValue Q [code] rest) :
    Hits t₀ (valueWithin (n + 1)) Q [code] rest :=
  h.alt_of_code [] [callValue (valueWithin n), pathValue, blockValue] hcode (by simp)
    structured_literalValue.keeps

theorem hits_value_of_string {code : Text} (hcode : Text.skipIgnorable t₀ = t)
    (h : Hits t stringLiteral (fun string => string.code = code) [code] rest) :
    Hits t₀ (valueWithin (n + 1)) (· = ⟨.string, code⟩) [code] rest := by
  apply hits_value_of_literal hcode
  subst hcode
  rw [← Text.skipIgnorable_skipIgnorable t₀] at h
  have hframed := (h.framed structured_stringLiteral.keeps).optional
  rw [List.flatten_singleton] at hframed
  refine hframed.bind_silent ?_
  rintro _ ⟨string, rfl, hcode⟩
  exact Hits.pure (by rw [hcode])

theorem givesUp_call_of_path {v : Rule Value} (hv : Structured v) (name : Lexeme.path.Whole)
    (hrest : rest.Behind) : GivesUp (name.text ++ rest) (callValue v) := by
  have hbody : GivesUp (name.text ++ rest) (pattern Lexeme.path >>= fun _ => arguments v >>= fun _ =>
      many (member v) : Rule (List Unit)) := by
    refine .behind (hits_path name hrest.apart) fun _ _ => ?_
    exact (((Misses.mark '(' rfl hrest.notCall).bind _).bind _).givesUp
  rw [← name.skip_append rest] at hbody
  exact ((hbody.scope (structured_callBody hv).keeps).bind _).givesUp

/-- The branches that are tried before the name of a path. -/
theorem givesUp_literalValue_of_path (name : Lexeme.path.Whole) (t : Text) :
    GivesUp (name.text ++ t) literalValue := by
  obtain ⟨c, w, hw, hc⟩ := name.head_of_one
  rw [hw]
  exact givesUp_literalValue (beginsOther_of_isSymbolStart hc)

theorem hits_value_of_call {name : Lexeme.path.Whole} {code : Text} {Q : Value → Prop}
    (hcode : Text.skipIgnorable t₀ = name.text ++ t)
    (h : Hits (name.text ++ t) (callValue (valueWithin n)) Q [code] rest) :
    Hits t₀ (valueWithin (n + 1)) Q [code] rest := by
  have hk := (structured_callValue (structured_valueWithin n)).keeps
  refine h.alt_of_code [literalValue] [pathValue, blockValue] hcode ?_ hk
  simpa using ⟨givesUp_literalValue_of_path name t, structured_literalValue.keeps⟩

theorem hits_value_of_path (name : Lexeme.path.Whole)
    (hcode : Text.skipIgnorable t₀ = name.text ++ rest) (hrest : rest.Behind) :
    Hits t₀ (valueWithin (n + 1)) (· = ⟨.symbol, name.text⟩) [name.text] rest := by
  have hv := structured_valueWithin n
  refine (hits_pathValue name hrest.apart).alt_of_code
    [literalValue, callValue (valueWithin n)] [blockValue] hcode ?_ structured_pathValue.keeps
  simpa using ⟨⟨givesUp_literalValue_of_path name rest, structured_literalValue.keeps⟩,
    givesUp_call_of_path hv name hrest, (structured_callValue hv).keeps⟩

theorem hits_value_of_block (body : BlockBody)
    (hcode : Text.skipIgnorable t₀ = '\x7b' :: (body.text ++ '\x7d' :: rest)) :
    Hits t₀ (valueWithin (n + 1)) (· = ⟨.block, Text.trim body.text⟩) [Text.trim body.text]
      rest := by
  have hother : BeginsOther '\x7b' := ⟨by decide, by decide, by decide, by decide⟩
  have hname : Lexeme.isSymbolStart '\x7b' = false := by decide
  have hv := structured_valueWithin n
  refine (hits_blockValue body rest).alt_of_code
    [literalValue, callValue (valueWithin n), pathValue] [] hcode ?_ structured_blockValue.keeps
  simpa using ⟨⟨givesUp_literalValue hother, structured_literalValue.keeps⟩,
    ⟨givesUp_callValue hv hother.code hname, (structured_callValue hv).keeps⟩,
    givesUp_pathValue hname, structured_pathValue.keeps⟩

end Values

section Calls

variable {v : Rule Value} (hv : Structured v) {t t' rest code : Text} {more : List Text}
  {Q : Value → Prop}

/-- The closing parenthesis of a call. -/
theorem hits_close (gap : Gap) (rest : Text) :
    Hits (gap.text ++ ')' :: rest) (required .unclosedArguments (literal ")".toList))
      (fun _ => True) [[')']] rest := by
  have hskip : Text.skipIgnorable (gap.text ++ ')' :: rest) = ')' :: rest :=
    gap.ignorable.skip_append_cons (by decide) rest
  have hmark := Hits.mark ')' (show ")".toList = _ from rfl) rest
  rw [← hskip] at hmark
  exact (hmark.required _ (Structured.literal _).keeps).mono fun _ _ => trivial

include hv

theorem hits_arguments_none (hnone : GivesUp (')' :: rest) v) (gap : Gap) :
    Hits ('(' :: (gap.text ++ ')' :: rest)) (arguments v) (fun _ => True) [['('], [')']] rest := by
  have hmiss : Misses (gap.text ++ ')' :: rest) (framed v) := by
    apply GivesUp.framed
    · rwa [gap.ignorable.skip_append_cons (by decide)]
    · exact hv.keeps
  refine Hits.bind (Hits.mark '(' rfl _) fun _ _ => Hits.bind hmiss.optional ?_
  rintro _ rfl
  exact (hits_close gap rest).bind_silent fun _ _ => Hits.pure trivial

theorem hits_arguments_some (gap gap' : Gap) (hskip : Text.skipIgnorable t = t)
    (hfirst : Hits t v Q [code] t')
    (hmore : Hits t' (many (literal ",".toList >>= fun _ => required .missingValue v))
      (fun _ => True) more (gap'.text ++ ')' :: rest)) :
    Hits ('(' :: (gap.text ++ t)) (arguments v) (fun _ => True)
      (['('] :: code :: (more ++ [[')']])) rest := by
  have hargument : Hits (gap.text ++ t) (framed v) Q [code] t' := by
    rw [← hskip, ← gap.ignorable.skip_append] at hfirst
    have hframed := hfirst.framed hv.keeps
    rwa [List.flatten_singleton] at hframed
  refine Hits.bind (Hits.mark '(' rfl _) fun _ _ => Hits.bind hargument.optional ?_
  rintro _ ⟨value, rfl, -⟩
  refine Hits.bind hmore fun _ _ => ?_
  exact (hits_close gap' rest).bind_silent fun _ _ => Hits.pure trivial

theorem hits_more_done (gap : Gap) (rest : Text) :
    Hits (gap.text ++ ')' :: rest)
      (many (literal ",".toList >>= fun _ => required .missingValue v)) (fun _ => True) []
      (gap.text ++ ')' :: rest) := by
  have hup : GivesUp (')' :: rest) (literal ",".toList >>= fun _ => required .missingValue v) :=
    ((Misses.mark ',' rfl (by simp)).bind _).givesUp
  rw [← gap.ignorable.skip_append_cons (c := ')') (by decide)] at hup
  exact (Hits.many_nil hup (structured_moreArguments hv).keeps).mono fun _ _ => trivial

theorem hits_more_next (before behind : Gap) (hskip : Text.skipIgnorable t = t)
    (hnext : Hits t v Q [code] t') (hle : t'.length ≤ t.length)
    (hmore : Hits t' (many (literal ",".toList >>= fun _ => required .missingValue v))
      (fun _ => True) more rest) :
    Hits (before.text ++ ',' :: (behind.text ++ t))
      (many (literal ",".toList >>= fun _ => required .missingValue v)) (fun _ => True)
      ((',' :: code) :: more) rest := by
  have hargument : Hits (',' :: (behind.text ++ t))
      (literal ",".toList >>= fun _ => required .missingValue v) Q [[','], code] t' := by
    refine Hits.bind (Hits.mark ',' rfl _) fun _ _ => ?_
    rw [← hskip, ← behind.ignorable.skip_append] at hnext
    have hrequired := hnext.required .missingValue hv.keeps
    rwa [List.flatten_singleton] at hrequired
  rw [← before.ignorable.skip_append_cons (c := ',') (by decide)] at hargument
  have hcons := hargument.many_cons (structured_moreArguments hv).keeps
    (by simp only [List.length_append, List.length_cons]; omega) hmore
  simpa using hcons.mono fun _ _ => trivial

theorem hits_members_nil (hrest : rest.Behind) :
    Hits rest (many (member v)) (fun _ => True) [] rest := by
  have hup : GivesUp (Text.skipIgnorable rest) (member v) :=
    ((Misses.mark '.' rfl hrest.notMember).bind _).givesUp
  exact (Hits.many_nil hup (structured_member hv).keeps).mono fun _ _ => trivial

/-- One more member, with its arguments if it has some. -/
theorem hits_members_cons (gap : Gap) (name : Lexeme.path.Whole) {texts : List Text}
    (ht : t.Apart)
    (harguments : Hits t (optional (arguments v)) (fun _ => True) texts t')
    (hle : t'.length ≤ t.length)
    (hmore : Hits t' (many (member v)) (fun _ => True) more rest) :
    Hits (gap.text ++ '.' :: (name.text ++ t)) (many (member v)) (fun _ => True)
      (('.' :: (name.text ++ texts.flatten)) :: more) rest := by
  have hmember : Hits ('.' :: (name.text ++ t)) (member v) (fun _ => True)
      (['.'] :: name.text :: texts) t' := by
    refine Hits.bind (Hits.mark '.' rfl _) fun _ _ => Hits.bind (hits_path name ht) fun _ _ => ?_
    exact harguments.bind_silent fun _ _ => Hits.pure trivial
  rw [← gap.ignorable.skip_append_cons (c := '.') (by decide)] at hmember
  have hcons := hmember.many_cons (structured_member hv).keeps
    (by simp only [List.length_append, List.length_cons]; omega) hmore
  simpa using hcons.mono fun _ _ => trivial

theorem hits_callValue (name : Lexeme.path.Whole) {texts : List Text} (ht : t.Apart)
    (harguments : Hits t (arguments v) (fun _ => True) texts t')
    (hmembers : Hits t' (many (member v)) (fun _ => True) more rest) :
    Hits (name.text ++ t) (callValue v)
      (· = ⟨.call, name.text ++ (texts.flatten ++ more.flatten)⟩)
      [name.text ++ (texts.flatten ++ more.flatten)] rest := by
  have hbody : Hits (name.text ++ t) (pattern Lexeme.path >>= fun _ => arguments v >>= fun _ =>
      many (member v) : Rule (List Unit)) (fun _ => True) (name.text :: (texts ++ more)) rest :=
    Hits.bind (hits_path name ht) fun _ _ => Hits.bind harguments fun _ _ => hmembers
  rw [← name.skip_append t] at hbody
  have hscope := hbody.scope (structured_callBody hv).keeps
  have hcode : (name.text :: (texts ++ more)).flatten =
      name.text ++ (texts.flatten ++ more.flatten) := by simp
  rw [hcode] at hscope
  exact hscope.map _ fun _ h => by rw [h.2]

end Calls

/-- Two names with a `.` between them, which are read as one. -/
def joinNames (v w : Lexeme.path.Whole) : Lexeme.path.Whole :=
  ⟨v.text ++ '.' :: w.text, Lexeme.path_append_dot v.whole w.whole⟩

/-- The members behind a call are read one after the other, or several at once: their code is the
same. -/
def ReadsMembers (n : Nat) (t code rest : Text) : Prop :=
  ∃ more, Hits t (many (member (valueWithin n))) (fun _ => True) more rest ∧ more.flatten = code

section Members

variable {n : Nat} {t rest code : Text} (gap : Gap) (name : Lexeme.path.Whole)

theorem ReadsMembers.field (ht : t.Apart) (hcall : t.head? ≠ some '(')
    (h : ReadsMembers n t code rest) :
    ReadsMembers n (gap.text ++ '.' :: (name.text ++ t)) ('.' :: (name.text ++ code)) rest := by
  obtain ⟨more, hmore, hcode⟩ := h
  have harguments : Misses t (arguments (valueWithin n)) := (Misses.mark '(' rfl hcall).bind _
  have hnone := harguments.optional.mono (Q := fun _ => True) fun _ _ => trivial
  have hcons := hits_members_cons (structured_valueWithin n) gap name ht hnone (Nat.le_refl _) hmore
  exact ⟨_, hcons, by simp [hcode]⟩

theorem ReadsMembers.method {t' : Text} {texts : List Text} (ht : t.Apart)
    (harguments : Hits t (arguments (valueWithin n)) (fun _ => True) texts t')
    (hle : t'.length ≤ t.length) (h : ReadsMembers n t' code rest) :
    ReadsMembers n (gap.text ++ '.' :: (name.text ++ t))
      ('.' :: (name.text ++ (texts.flatten ++ code))) rest := by
  obtain ⟨more, hmore, hcode⟩ := h
  have hsome := harguments.optional.mono (Q := fun _ => True) fun _ _ => trivial
  have hcons := hits_members_cons (structured_valueWithin n) gap name ht hsome hle hmore
  exact ⟨_, hcons, by simp [hcode]⟩

end Members

mutual

/-- A written value is read as what it means, in front of whatever can follow a value. -/
theorem hits_written : ∀ (v : WrittenValue) (t rest : Text) (n : Nat),
    Text.skipIgnorable t = v.text ++ rest → rest.Behind → (v.text ++ rest).length ≤ n →
    Hits t (valueWithin (n + 1)) (· = v.value) [v.code] rest
  | .string literal, t, rest, n, ht, hrest, _ =>
    hits_value_of_string ht (hits_lineLiteral literal hrest.apart.head_ne_quote)
  | .lines body, t, rest, n, ht, _, _ => hits_value_of_string ht (hits_tripleLiteral body rest)
  | .number numeral, t, rest, n, ht, hrest, _ =>
    hits_value_of_literal ht (hits_number numeral hrest.apart)
  | .path name, t, rest, n, ht, hrest, _ => hits_value_of_path name ht hrest
  | .call name arguments members, t, rest, n, ht, hrest, hn => by
    simp only [WrittenValue.text, List.length_append] at hn
    obtain ⟨texts, harguments, htexts⟩ :=
      hits_writtenArguments arguments (members.text ++ rest) n (by simp; omega)
    obtain ⟨more, hmembers, hmore⟩ := (hits_writtenMembers members rest n hrest (by simp; omega)).1
    have hcall := hits_callValue (structured_valueWithin n) name (arguments.apart _) harguments
      hmembers
    rw [htexts, hmore] at hcall
    simp only [WrittenValue.text, List.append_assoc] at ht
    simp only [WrittenValue.value, WrittenValue.kind, WrittenValue.code, List.append_assoc]
    exact hits_value_of_call ht hcall
  | .block body, t, rest, n, ht, _, _ => by
    simp only [WrittenValue.text, List.cons_append, List.append_assoc, List.nil_append] at ht
    exact hits_value_of_block body ht

theorem hits_writtenArguments : ∀ (a : WrittenArguments) (rest : Text) (n : Nat),
    (a.text ++ rest).length ≤ n →
    ∃ texts, Hits (a.text ++ rest) (arguments (valueWithin n)) (fun _ => True) texts rest ∧
      texts.flatten = a.code
  | .none gap, rest, n, _ => by
    have hup : GivesUp (')' :: rest) (valueWithin n) :=
      givesUp_valueWithin ⟨by decide, by decide, by decide, by decide⟩ (by decide) (by decide) n
    have hnone := hits_arguments_none (structured_valueWithin n) hup gap
    refine ⟨[['('], [')']], ?_, rfl⟩
    simpa only [WrittenArguments.text, List.cons_append, List.append_assoc, List.nil_append]
  | .some gap first more, rest, n, hn => by
    simp only [WrittenArguments.text, List.cons_append, List.length_cons, List.append_assoc,
      List.length_append] at hn
    obtain ⟨n, rfl⟩ : ∃ k, n = k + 1 := ⟨n - 1, by omega⟩
    obtain ⟨texts, gap', hmore, htexts⟩ := hits_writtenMore more rest (n + 1) (by simp; omega)
    have hfirst := hits_written first _ (more.text ++ rest) n (first.skip_append _)
      (more.behind rest) (by simp; omega)
    have hsome := hits_arguments_some (structured_valueWithin (n + 1)) gap gap'
      (first.skip_append _) hfirst hmore
    refine ⟨['('] :: first.code :: (texts ++ [[')']]), ?_, ?_⟩
    · simpa only [WrittenArguments.text, List.cons_append, List.append_assoc]
    · simp [WrittenArguments.code, ← htexts]

theorem hits_writtenMore : ∀ (m : WrittenMore) (rest : Text) (n : Nat),
    (m.text ++ rest).length < n →
    ∃ (texts : List Text) (gap : Gap),
      Hits (m.text ++ rest)
        (many (literal ",".toList >>= fun _ => required .missingValue (valueWithin n)))
        (fun _ => True) texts (gap.text ++ ')' :: rest) ∧
      texts.flatten ++ [')'] = m.code
  | .done gap, rest, n, _ => by
    refine ⟨[], gap, ?_, rfl⟩
    simpa only [WrittenMore.text, List.append_assoc, List.singleton_append] using
      hits_more_done (structured_valueWithin n) gap rest
  | .next before behind value more, rest, n, hn => by
    simp only [WrittenMore.text, List.cons_append, List.length_cons, List.append_assoc,
      List.length_append] at hn
    obtain ⟨n, rfl⟩ : ∃ k, n = k + 1 := ⟨n - 1, by omega⟩
    obtain ⟨texts, gap', hmore, htexts⟩ := hits_writtenMore more rest (n + 1) (by simp; omega)
    have hvalue := hits_written value _ (more.text ++ rest) n (value.skip_append _)
      (more.behind rest) (by simp; omega)
    have hnext := hits_more_next (structured_valueWithin (n + 1)) before behind
      (value.skip_append _) hvalue (by simp) hmore
    refine ⟨(',' :: value.code) :: texts, gap', ?_, ?_⟩
    · simpa only [WrittenMore.text, List.cons_append, List.append_assoc]
    · simp [WrittenMore.code, ← htexts]

/-- The members, and the same members behind one more name. -/
theorem hits_writtenMembers : ∀ (m : WrittenMembers) (rest : Text) (n : Nat), rest.Behind →
    (m.text ++ rest).length ≤ n →
    ReadsMembers n (m.text ++ rest) m.code rest ∧
    ∀ (gap : Gap) (name : Lexeme.path.Whole),
      ReadsMembers n (gap.text ++ '.' :: (name.text ++ (m.text ++ rest)))
        ('.' :: (name.text ++ m.code)) rest
  | .nil, rest, n, hrest, _ => by
    have hnil : ReadsMembers n rest [] rest :=
      ⟨[], hits_members_nil (structured_valueWithin n) hrest, rfl⟩
    exact ⟨hnil, fun gap name => hnil.field gap name hrest.apart hrest.notCall⟩
  | .field gap' name' more, rest, n, hrest, hn => by
    simp only [WrittenMembers.text, List.cons_append, List.length_cons, List.append_assoc,
      List.length_append] at hn
    obtain ⟨-, hbehind⟩ := hits_writtenMembers more rest n hrest (by simp; omega)
    have hthis := hbehind gap' name'
    simp only [WrittenMembers.text, WrittenMembers.code, List.cons_append, List.append_assoc]
    refine ⟨hthis, fun gap name => ?_⟩
    by_cases hgap : gap'.text = []
    · -- the two names are read as one
      simpa [hgap, joinNames] using hbehind gap (joinNames name name')
    · obtain ⟨hapart, hcall⟩ := gap'.apart_of_ne_nil hgap ('.' :: (name'.text ++ (more.text ++ rest)))
      exact hthis.field gap name hapart hcall
  | .method gap' name' arguments more, rest, n, hrest, hn => by
    simp only [WrittenMembers.text, List.cons_append, List.length_cons, List.append_assoc,
      List.length_append] at hn
    obtain ⟨hmore, -⟩ := hits_writtenMembers more rest n hrest (by simp; omega)
    obtain ⟨texts, harguments, htexts⟩ :=
      hits_writtenArguments arguments (more.text ++ rest) n (by simp; omega)
    have hmethod (gap : Gap) (name : Lexeme.path.Whole) :=
      hmore.method gap name (arguments.apart _) harguments (by simp)
    rw [htexts] at hmethod
    have hthis := hmethod gap' name'
    simp only [WrittenMembers.text, WrittenMembers.code, List.cons_append, List.append_assoc]
    refine ⟨hthis, fun gap name => ?_⟩
    by_cases hgap : gap'.text = []
    · simpa [hgap, joinNames] using hmethod gap (joinNames name name')
    · obtain ⟨hapart, hcall⟩ :=
        gap'.apart_of_ne_nil hgap ('.' :: (name'.text ++ (arguments.text ++ (more.text ++ rest))))
      exact hthis.field gap name hapart hcall

end

/-- Imports and headers begin with their keywords. -/
theorem givesUp_declarations {c : Char} {t : Text} (hc : c ∉ ['i', 'v', 'f']) :
    ∀ branch ∈ [importToken, variableToken, functionToken],
      GivesUp (c :: t) branch ∧ Keeps branch := by
  have hkeyword {word : Text} {d : Char} (hword : word.head? = some d) (hd : d ∈ ['i', 'v', 'f']) :
      GivesUp (c :: t) (keyword word) := by
    refine ((Misses.literal_of_head hword ?_).bind _).givesUp
    rintro ⟨⟩
    exact hc hd
  simp only [List.forall_mem_cons, List.not_mem_nil, false_implies, implies_true, and_true]
  exact ⟨⟨(hkeyword rfl (by decide)).bind _, structured_importToken.keeps⟩,
    ⟨(hkeyword rfl (by decide)).bind _, structured_variableToken.keeps⟩,
    (hkeyword rfl (by decide)).bind _, structured_functionToken.keeps⟩

end Grammar

end NodeMarkup
