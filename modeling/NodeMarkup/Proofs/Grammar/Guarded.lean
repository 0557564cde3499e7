import NodeMarkup.Proofs.Grammar.Bounds
import NodeMarkup.Proofs.Grammar.Values
import NodeMarkup.Proofs.Match.Guarded
/-!
The grammar with every check made: the bodies of literals, the names of classes, variables and
parameters, the default value of a parameter and the ranges of tokens. Every rule agrees with itself
where nothing is checked, at every place of every source.
-/
namespace NodeMarkup

open RuleT

variable {source : Text} {c : Cursor}

namespace Grammar

theorem agrees_stringLiteral (hc : Cursor.IsPlace source c) :
    Agrees source c stringLiteral stringLiteral := by
  apply (Agrees.pattern hc _).optional.bind hc (Structured.pattern _).optional.keeps
    ((Reads.pattern _).optional (.pattern _))
  intro found d hd _ hread
  rcases found with _ | raw
  · obtain rfl : d = c := hread
    apply Agrees.pattern_bind hd
    intro n hn _
    obtain ⟨quote, body, hquote, htake⟩ := Lexeme.take_of_lineLiteral hn
    -- either quote is one byte, so the cut takes exactly the marks away
    have hsize : Text.byteLength [quote] = 1 := by
      rcases hquote with rfl | rfl <;> rfl
    have hinner : Text.inner? 1 (d.rest.take n) = some (inside 1 (d.rest.take n)) := by
      rw [htake]
      exact (Text.inner?_append hsize body [quote] hsize).trans
        (congrArg some (inside_append [quote] body).symm)
    exact .check (hd.text_advanceBy? n) (.check hinner (.pure _))
  · obtain ⟨n, hn, rfl, rfl⟩ := hread
    obtain ⟨body, htake⟩ := Lexeme.take_of_tripleLiteral hn
    have hinner : Text.inner? (Text.byteLength Lexeme.tripleMark) (c.rest.take n) =
        some (inside Lexeme.tripleMark.length (c.rest.take n)) := by
      rw [htake]
      exact (Text.inner?_append rfl body Lexeme.tripleMark rfl).trans
        (congrArg some (inside_append Lexeme.tripleMark body).symm)
    refine .check (hc.text_advanceBy? n) (.check hinner ?_)
    exact .replaceLast_bind hd _ fun _ => .pure _

theorem agrees_integer (hc : Cursor.IsPlace source c) :
    Agrees source c integer integer :=
  .patterns hc [Lexeme.hexadecimal, Lexeme.binary, Lexeme.decimal]

theorem agrees_literalValue (hc : Cursor.IsPlace source c) :
    Agrees source c literalValue literalValue := by
  apply Agrees.optional_bind hc structured_stringLiteral (agrees_stringLiteral hc.skipIgnorable)
  intro found d hd _
  cases found with
  | some string => exact .pure _
  | none =>
    have hkeeps : ∀ branch ∈ [pattern Lexeme.fraction, integer], Keeps branch := by
      simp [(Structured.pattern _).keeps, structured_integer.keeps]
    have hnumber := Agrees.alt hd
      (.cons (.pattern hd.skipIgnorable Lexeme.fraction)
        (.cons (agrees_integer hd.skipIgnorable) .nil)) hkeeps
    apply hnumber.bind hd (Keeps.alt hkeeps) (.of_keepsNegation (Keeps.alt hkeeps) (.alt hkeeps))
    exact fun _ _ _ _ _ => .pure _

theorem agrees_pathValue (hc : Cursor.IsPlace source c) :
    Agrees source c pathValue pathValue :=
  .pattern_bind hc _ fun _ _ _ => .pure _

theorem agrees_blockValue (hc : Cursor.IsPlace source c) :
    Agrees source c blockValue blockValue := by
  apply (Agrees.delimited hc _ _).bind hc (Structured.delimited _ _).keeps (Reads.delimited _ _)
  exact fun _ d hd _ _ => .replaceLast_bind hd _ fun _ => .pure _

section Call

variable {guarded : RuleT Guarded Value} {v : Rule Value} (hv : Structured v)
  (h : ∀ d, Cursor.IsPlace source d → Agrees source d guarded v)
include hv h

theorem agrees_moreArguments (hc : Cursor.IsPlace source c) :
    Agrees source c
      (literal ",".toList >>= fun _ => required .missingValue guarded)
      (literal ",".toList >>= fun _ => required .missingValue v) :=
  .pattern_bind hc _ fun _ _ hd => .required hd _ hv.keeps (h _ hd.skipIgnorable)

theorem agrees_arguments (hc : Cursor.IsPlace source c) :
    Agrees source c (arguments guarded) (arguments v) := by
  have hclose (d : Cursor) (hd : Cursor.IsPlace source d) :
      Agrees source d
        (required .unclosedArguments (literal ")".toList) >>= fun _ => pure ())
        (required .unclosedArguments (literal ")".toList) >>= fun _ => pure ()) :=
    .required_bind hd _ (.literal _) (.pattern hd.skipIgnorable _) fun _ _ _ _ => .pure ()
  apply Agrees.pattern_bind hc
  intro _ _ ha
  apply Agrees.optional_bind ha hv (h _ ha.skipIgnorable)
  intro found b hb _
  cases found with
  | none => exact hclose b hb
  | some first =>
    apply Agrees.many_bind hb (structured_moreArguments hv) fun d => agrees_moreArguments hv h
    exact fun _ d hd _ => hclose d hd

theorem agrees_member (hc : Cursor.IsPlace source c) :
    Agrees source c (member guarded) (member v) := by
  apply Agrees.pattern_bind hc
  intro _ _ ha
  apply Agrees.pattern_bind ha
  intro _ _ hb
  apply (agrees_arguments hv h hb).optional.bind hb (structured_arguments hv).optional.keeps
    (reads_arguments hv).optional_any
  exact fun _ _ _ _ _ => .pure ()

theorem agrees_callValue (hc : Cursor.IsPlace source c) :
    Agrees source c (callValue guarded) (callValue v) := by
  have hbody := (structured_callBody hv).keeps
  have hagrees : Agrees source c.skipIgnorable
      (pattern Lexeme.path >>= fun _ => arguments guarded >>= fun _ =>
        many (member guarded))
      (pattern Lexeme.path >>= fun _ => arguments v >>= fun _ => many (member v)) := by
    apply Agrees.pattern_bind hc.skipIgnorable
    intro _ _ ha
    apply (agrees_arguments hv h ha).bind ha (structured_arguments hv).keeps (reads_arguments hv)
    intro _ b hb _ _
    exact .many hb (structured_member hv).keeps fun d hd => agrees_member hv h hd.skipIgnorable
  apply (Agrees.scope hc hbody hagrees).bind hc hbody.scope
    (.of_keepsNegation hbody.scope (.scope hbody))
  exact fun _ _ _ _ _ => .pure _

end Call

theorem agrees_valueWithin (n : Nat) (hc : Cursor.IsPlace source c) :
    Agrees source c (valueWithin n) (valueWithin n) := by
  induction n generalizing c with
  | zero => exact .miss
  | succ n ih =>
    have hcall := agrees_callValue (structured_valueWithin n) (fun _ => ih) hc.skipIgnorable
    exact .alt hc
      (.cons (agrees_literalValue hc.skipIgnorable) (.cons hcall
        (.cons (agrees_pathValue hc.skipIgnorable) (.cons (agrees_blockValue hc.skipIgnorable)
          .nil))))
      (keeps_valueBranches n)

theorem agrees_value (hc : Cursor.IsPlace source c) : Agrees source c value value := by
  intro e hs he hneg kept
  rw [result_value_eq (Nat.lt_succ_self _)]
  exact agrees_valueWithin (e.cursor.rest.length + 1) hc e hs he hneg kept

theorem agrees_keyword (word : Text) (hc : Cursor.IsPlace source c) :
    Agrees source c (keyword word) (keyword word) :=
  .pattern_bind hc _ fun _ _ hd => .negated hd Lexeme.symbolPart _

theorem reads_symbol : Reads c symbol fun capture d =>
    ∃ n, d = c.advanceBy n ∧ capture = ⟨c.rest.take n, ⟨c, d⟩⟩ :=
  (Reads.pattern _).mono fun _ _ h => h.imp fun _ h => h.2

theorem agrees_symbol (hc : Cursor.IsPlace source c) : Agrees source c symbol symbol :=
  .pattern hc _

theorem agrees_importToken (hc : Cursor.IsPlace source c) :
    Agrees source c importToken importToken := by
  apply (agrees_keyword _ hc).bind hc (structured_keyword _).keeps (reads_keyword (by simp))
  intro _ a ha hca hread
  obtain ⟨-, rfl⟩ := hread
  apply (Agrees.required ha _ structured_symbol.keeps (agrees_symbol ha.skipIgnorable)).bind ha
    (Structured.required _ structured_symbol).keeps
    (Reads.required _ structured_symbol.keeps reads_symbol)
  intro name b hb hab hname
  -- `hname` is opened only at the end, where the name is cut out of its range
  apply Agrees.required_bind hb _ (structured_keyword _) (agrees_keyword _ hb.skipIgnorable)
  intro _ d hd hbd
  have hpath := agrees_stringLiteral hd.skipIgnorable
  apply (Agrees.required hd _ structured_stringLiteral.keeps hpath).bind hd
    (Structured.required _ structured_stringLiteral).keeps
    (Reads.required _ structured_stringLiteral.keeps reads_stringLiteral)
  intro path stop _ hstop hread
  obtain ⟨hrange, -⟩ := hread
  obtain ⟨n, rfl, rfl⟩ := hname
  have hwhole : c.Reaches path.range.stop := by
    rw [hrange]
    exact ((hca.trans hab).trans hbd).trans hstop
  apply Agrees.check (ha.skipIgnorable.text_advanceBy? n)
  apply Agrees.check (Range.between?_of_reaches hwhole)
  exact .pure _

theorem agrees_typeName (hc : Cursor.IsPlace source c) :
    Agrees source c typeName typeName := by
  apply Agrees.pattern_bind hc
  intro _ _ hd
  apply (Agrees.delimited hd _ _).optional.bind hd (Structured.delimited _ _).optional.keeps
    (Reads.delimited _ _).optional_any
  exact fun _ _ _ _ _ => .pure ()

theorem agrees_typeHint (hc : Cursor.IsPlace source c) :
    Agrees source c typeHint typeHint := by
  apply Agrees.pattern_bind hc
  intro _ _ hd
  apply Agrees.optional_bind hd structured_typeName (agrees_typeName hd.skipIgnorable)
  exact fun _ _ _ _ => .pure ()

section Declared

variable {α : Type} {guarded : RuleT Guarded α} {expression : Rule α} (he : Structured expression)
  (h : ∀ d, Cursor.IsPlace source d → Agrees source d guarded expression)
include he h

theorem agrees_initializer (hc : Cursor.IsPlace source c) :
    Agrees source c (initializer guarded) (initializer expression) := by
  apply Agrees.pattern_bind hc
  exact fun _ _ hd => .framed_bind hd he (h _ hd.skipIgnorable) fun _ _ _ _ => .pure ()

theorem agrees_declaredName (hc : Cursor.IsPlace source c) :
    Agrees source c (declaredName guarded) (declaredName expression) := by
  apply (Agrees.framed hc structured_symbol.keeps (agrees_symbol hc.skipIgnorable)).bind hc
    (Structured.framed structured_symbol).keeps (Reads.framed structured_symbol.keeps reads_symbol)
  intro name a ha _ hname
  apply Agrees.optional_bind ha structured_typeHint (agrees_typeHint ha.skipIgnorable)
  intro _ b hb hab
  apply Agrees.optional_bind hb (structured_initializer he)
    (agrees_initializer he h hb.skipIgnorable)
  intro _ d hd hbd
  obtain ⟨n, rfl, rfl⟩ := hname
  have hreach := ((Cursor.reaches_advanceBy n _).trans hab).trans hbd
  exact .check (hc.skipIgnorable.text_advanceBy? n) (.rangeFrom_bind hd hreach (.pure _))

end Declared

theorem agrees_variableToken (hc : Cursor.IsPlace source c) :
    Agrees source c variableToken variableToken := by
  apply (agrees_keyword _ hc).bind hc (structured_keyword _).keeps (reads_keyword (by simp))
  intro _ a ha hca hread
  obtain ⟨-, rfl⟩ := hread
  apply (agrees_declaredName structured_literalValue (fun _ => agrees_literalValue) ha).bind ha
    (structured_declaredName structured_literalValue).keeps
    (reads_declaredName structured_literalValue)
  intro name b hb hab _
  exact .rangeFrom_bind hb (hca.trans hab) (.pure _)

theorem agrees_defaultValue (hc : Cursor.IsPlace source c) :
    Agrees source c defaultValue defaultValue :=
  .cursor_bind (.check hc.rest? (.check (Text.slice?_take _ c.rest) (.pattern hc _)))

theorem agrees_parameter (hc : Cursor.IsPlace source c) :
    Agrees source c parameter parameter :=
  agrees_declaredName (.pattern Lexeme.defaultValue) (fun _ => agrees_defaultValue) hc

theorem agrees_moreParameters (hc : Cursor.IsPlace source c) :
    Agrees source c
      (literal ",".toList >>= fun _ => framed parameter)
      (literal ",".toList >>= fun _ => framed parameter) :=
  .pattern_bind hc _ fun _ _ hd =>
    .framed hd structured_parameter.keeps (agrees_parameter hd.skipIgnorable)

theorem agrees_parameters (hc : Cursor.IsPlace source c) :
    Agrees source c parameters parameters := by
  apply Agrees.optional_bind hc structured_parameter (agrees_parameter hc.skipIgnorable)
  intro found a ha _
  cases found with
  | none => exact .pure []
  | some first =>
    have hmore : Structured (literal ",".toList >>= fun _ => framed parameter : Rule Capture) :=
      .bind (.literal _) fun _ => .framed structured_parameter
    apply Agrees.many_bind ha hmore fun d => agrees_moreParameters
    intro rest b hb _
    apply Agrees.optional_bind hb (.literal _) (.pattern hb.skipIgnorable _)
    exact fun _ _ _ _ => .pure (first :: rest)

theorem agrees_returnType (hc : Cursor.IsPlace source c) :
    Agrees source c returnType returnType :=
  .pattern_bind hc _ fun _ _ hd =>
    .framed hd structured_typeName.keeps (agrees_typeName hd.skipIgnorable)

theorem agrees_functionToken (hc : Cursor.IsPlace source c) :
    Agrees source c functionToken functionToken := by
  apply (agrees_keyword _ hc).bind hc (structured_keyword _).keeps (reads_keyword (by simp))
  intro _ a₁ h₁ hread₁ hread
  obtain ⟨-, rfl⟩ := hread
  apply (Agrees.framed h₁ structured_symbol.keeps (agrees_symbol h₁.skipIgnorable)).bind h₁
    (Structured.framed structured_symbol).keeps (Reads.framed structured_symbol.keeps reads_symbol)
  intro name a₂ h₂ hread₂ hname
  apply Agrees.required_bind h₂ _ (.literal _) (.pattern h₂.skipIgnorable _)
  intro _ a₃ h₃ hread₃
  apply (agrees_parameters h₃).bind h₃ structured_parameters.keeps reads_parameters
  intro names a₄ h₄ hread₄ _
  apply Agrees.required_bind h₄ _ (.literal _) (.pattern h₄.skipIgnorable _)
  intro _ a₅ h₅ hread₅
  apply Agrees.optional_bind h₅ structured_returnType (agrees_returnType h₅.skipIgnorable)
  intro _ a₆ h₆ hread₆
  have hwhole := ((((hread₁.trans hread₂).trans hread₃).trans hread₄).trans hread₅).trans hread₆
  obtain ⟨n, rfl, rfl⟩ := hname
  exact .check (h₁.skipIgnorable.text_advanceBy? n) (.rangeFrom_bind h₆ hwhole (.pure _))

theorem agrees_propertyHead (hc : Cursor.IsPlace source c) :
    Agrees source c
      (seq [pattern Lexeme.propertyName, framed (literal "=".toList)])
      (seq [pattern Lexeme.propertyName, framed (literal "=".toList)]) := by
  apply Agrees.seq_cons hc (Agrees.pattern hc _) (Structured.pattern _).keeps (Reads.pattern _)
  intro _ d hd _
  have hkeeps : Keeps (literal "=".toList) := (Structured.literal _).keeps
  apply Agrees.seq_cons hd (Agrees.framed hd hkeeps (.pattern hd.skipIgnorable _))
    (Structured.framed (.literal _)).keeps (Reads.framed_reaches hkeeps)
  exact fun _ _ _ _ => .seq_nil

theorem agrees_property (hc : Cursor.IsPlace source c) :
    Agrees source c property property := by
  apply (agrees_propertyHead hc).bind hc structured_propertyHead.keeps reads_propertyHead
  intro _ a ha _ hread
  obtain ⟨n, rest, rfl, hhead⟩ := hread
  have hca := (Cursor.reaches_advanceBy n c).trans hhead.reaches
  apply Agrees.ensure (Nat.succ_pos _)
  apply (agrees_value ha).optional.bind ha structured_value.optional.keeps reads_optional_value
  intro found b hb hab _
  apply (Agrees.ofEngine _).bind hb (Structured.requireLast _).keeps (Reads.requireLast _)
  intro _ d _ _ hd
  subst hd
  cases found with
  | none => exact .miss
  | some value =>
    exact .check (hc.text_advanceBy? n) (.rangeFrom_bind hb (hca.trans hab) (.pure _))

theorem agrees_closerAhead (hc : Cursor.IsPlace source c) :
    Agrees source c closerAhead closerAhead :=
  .cursor_bind (.check hc.skipIgnorable? (.check hc.skipIgnorable.rest? (.pure _)))

theorem agrees_tagKind (opener closer : Capture) :
    Agrees source c (tagKind opener closer) (tagKind opener closer) := by
  unfold tagKind
  split
  · exact .pure _
  · exact .pure _
  · exact .pure _
  · exact .refuse _ _

theorem agrees_tagToken (hc : Cursor.IsPlace source c) :
    Agrees source c tagToken tagToken := by
  apply (Agrees.literals hc ["</".toList, "<".toList]).bind hc (structured_literals _).keeps
    (reads_literals _)
  intro opener a ha _ hread
  obtain ⟨-, -, hopened, hopener⟩ := hread
  apply Agrees.pattern_bind ha
  intro n _ hb
  have hab := Cursor.reaches_advanceBy n a
  apply Agrees.many_bind hb structured_property fun d => agrees_property
  intro properties last hlast hbl
  apply (agrees_closerAhead hlast).bind hlast (Structured.ofState _).keeps (Reads.ofState _)
  intro ahead _ _ _ hd
  subst hd
  split
  · exact .miss
  · apply (Agrees.require _).bind hlast (Structured.require _).keeps (Reads.require _)
    intro _ _ _ _ hd
    subst hd
    apply (Agrees.literals hlast ["/>".toList, ">".toList]).bind hlast
      (structured_literals _).keeps (reads_literals _)
    intro closer d hd hld hread
    obtain ⟨-, -, -, hcloser⟩ := hread
    apply (agrees_tagKind opener closer).bind hd (structured_tagKind opener closer).keeps
      (reads_tagKind opener closer)
    intro kind stop _ _ hread
    obtain ⟨hstop, -⟩ := hread
    subst hstop
    -- the opener begins the tag and the closer ends it, with all that was read in between
    have hwhole : opener.range.start.Reaches closer.range.stop := by
      have hca : c.skipIgnorable.Reaches a := hopened ▸ Cursor.reaches_advanceBy _ _
      rw [hopener, hcloser]
      exact ((hca.trans hab).trans hbl).trans hld
    have hname := ha.text_advanceBy? n
    have hrange := Range.between?_of_reaches hwhole
    -- a closing tag with a property is refused before its name is cut out
    cases kind with
    | opening => exact .check hname (.check hrange (.pure _))
    | single => exact .check hname (.check hrange (.pure _))
    | closing =>
      cases properties with
      | nil => exact .check hname (.check hrange (.pure _))
      | cons property rest => exact .refuse _ _

/-- Wherever the grammar looks for a token, no check fails. -/
theorem agrees_token (hc : Cursor.IsPlace source c) : Agrees source c token token := by
  have hplace := hc.skipIgnorable
  apply Agrees.alt hc
  · exact .cons (agrees_importToken hplace) (.cons (agrees_variableToken hplace)
      (.cons (agrees_functionToken hplace) (.cons (agrees_tagToken hplace) .nil)))
  · simp [structured_importToken.keeps, structured_variableToken.keeps,
      structured_functionToken.keeps, structured_tagToken.keeps]

end Grammar

end NodeMarkup
