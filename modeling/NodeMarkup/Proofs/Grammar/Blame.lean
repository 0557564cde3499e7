import NodeMarkup.Proofs.Match.Blame
import NodeMarkup.Proofs.Token.Scan
/-!
Where the errors of a scan stand: never before the place from which the token was looked for, which
is the end of the token before it.
-/
namespace NodeMarkup

open RuleT

namespace Grammar

variable {s : Cursor}

theorem blames_stringLiteral : Blames s stringLiteral fun _ => True := by
  apply (Blames.pattern _).optional.bind
  intro found _
  rcases found with _ | raw
  · exact (Blames.pattern _).bind fun _ _ => .pure trivial
  · exact (Blames.replaceLast _).bind fun _ _ => .pure trivial

theorem blames_integer : Blames s integer fun _ => True := by
  apply Blames.alt
  simp only [List.forall_mem_cons, List.not_mem_nil, false_implies, implies_true, and_true]
  exact ⟨(Blames.pattern _).mono fun _ _ => trivial, (Blames.pattern _).mono fun _ _ => trivial,
    (Blames.pattern _).mono fun _ _ => trivial⟩

theorem blames_literalValue : Blames s literalValue fun _ => True := by
  apply (blames_stringLiteral.framed).optional.bind
  intro found _
  rcases found with _ | string
  · have hnumber : Blames s (alt [pattern Lexeme.fraction, integer]) fun _ => True := by
      apply Blames.alt
      simp only [List.forall_mem_cons, List.not_mem_nil, false_implies, implies_true, and_true]
      exact ⟨(Blames.pattern _).mono fun _ _ => trivial, blames_integer⟩
    exact hnumber.bind fun _ _ => .pure trivial
  · exact .pure trivial

theorem blames_pathValue : Blames s pathValue fun _ => True :=
  (Blames.pattern _).bind fun _ _ => .pure trivial

theorem blames_blockValue : Blames s blockValue fun _ => True :=
  (Blames.delimited _ _).bind fun _ _ => (Blames.replaceLast _).bind fun _ _ => .pure trivial

section Call

variable {value : Rule Value} (hv : Blames s value fun _ => True)
include hv

theorem blames_arguments : Blames s (arguments value) fun _ => True := by
  have hclose : Blames s
      (required .unclosedArguments (literal ")".toList) >>= fun _ => Pure.pure ()) fun _ => True :=
    ((Blames.pattern _).required rfl).bind fun _ _ => .pure trivial
  refine (Blames.pattern _).bind fun _ _ => hv.framed.optional.bind fun found _ => ?_
  rcases found with _ | first
  · exact hclose
  · have hmore : Blames s (literal ",".toList >>= fun _ => required .missingValue value)
        fun _ => True :=
      (Blames.pattern _).bind fun _ _ => hv.required rfl
    exact hmore.many.bind fun _ _ => hclose

theorem blames_member : Blames s (member value) fun _ => True :=
  (Blames.pattern _).bind fun _ _ => (Blames.pattern _).bind fun _ _ =>
    (blames_arguments hv).optional.bind fun _ _ => .pure trivial

theorem blames_callValue : Blames s (callValue value) fun _ => True := by
  have hbody : Blames s (do
      let _ ← pattern Lexeme.path
      arguments value
      many (member value)) fun _ => True :=
    (Blames.pattern _).bind fun _ _ => (blames_arguments hv).bind fun _ _ =>
      (blames_member hv).many.mono fun _ _ => trivial
  exact hbody.scope.bind fun _ _ => .pure trivial

end Call

theorem blames_valueBranches {n : Nat} (hv : Blames s (valueWithin n) fun _ => True) :
    ∀ branch ∈ [literalValue, callValue (valueWithin n), pathValue, blockValue],
      Blames s branch fun _ => True := by
  simp [blames_literalValue, blames_callValue hv, blames_pathValue, blames_blockValue]

theorem blames_valueWithin (n : Nat) : Blames s (valueWithin n) fun _ => True := by
  induction n with
  | zero => exact .miss
  | succ n ih => exact .alt (blames_valueBranches ih)

theorem blames_value : Blames s value fun _ => True := by
  intro e he ho
  rw [result_value]
  exact Blames.alt (blames_valueBranches (blames_valueWithin _)) e he ho

theorem blames_keyword (word : Text) : Blames s (keyword word) fun _ => True :=
  (Blames.pattern _).bind fun _ _ => Blames.negate.bind fun _ _ =>
    (Blames.pattern _).bind fun _ _ => .pure trivial

theorem blames_importToken : Blames s importToken fun _ => True := by
  refine (blames_keyword _).bind fun _ _ => ?_
  refine ((Blames.pattern _).required rfl).bind fun _ _ => ?_
  refine ((blames_keyword _).required rfl).bind fun _ _ => ?_
  exact (blames_stringLiteral.required rfl).bind fun _ _ => .pure trivial

theorem blames_typeName : Blames s typeName fun _ => True :=
  (Blames.pattern _).bind fun _ _ => (Blames.delimited _ _).optional.bind fun _ _ => .pure trivial

theorem blames_typeHint : Blames s typeHint fun _ => True :=
  (Blames.pattern _).bind fun _ _ => blames_typeName.framed.optional.bind fun _ _ => .pure trivial

theorem blames_declaredName {α : Type} {expression : Rule α} {P : α → Prop}
    (he : Blames s expression P) : Blames s (declaredName expression) fun _ => True := by
  have hinitializer : Blames s (initializer expression) fun _ => True :=
    (Blames.pattern _).bind fun _ _ => he.framed.bind fun _ _ => .pure trivial
  refine (Blames.pattern _).framed.bind fun _ _ => ?_
  refine blames_typeHint.framed.optional.bind fun _ _ => ?_
  exact hinitializer.framed.optional.bind fun _ _ => .pure trivial

theorem blames_variableToken : Blames s variableToken fun _ => True := by
  refine (blames_keyword _).bind fun _ _ => ?_
  refine (blames_declaredName blames_literalValue).bind fun _ _ => ?_
  exact (Blames.rangeFrom _).bind fun _ _ => .pure trivial

theorem blames_parameters : Blames s parameters fun _ => True := by
  have hparameter : Blames s parameter fun _ => True := blames_declaredName (.pattern _)
  refine hparameter.framed.optional.bind fun found _ => ?_
  rcases found with _ | first
  · exact .pure trivial
  · have hmore : Blames s (literal ",".toList >>= fun _ => framed parameter) fun _ => True :=
      (Blames.pattern _).bind fun _ _ => hparameter.framed
    refine hmore.many.bind fun _ _ => ?_
    exact (Blames.pattern _).framed.optional.bind fun _ _ => .pure trivial

theorem blames_functionToken : Blames s functionToken fun _ => True := by
  have hreturn : Blames s returnType fun _ => True :=
    (Blames.pattern _).bind fun _ _ => blames_typeName.framed
  refine (blames_keyword _).bind fun _ _ => ?_
  refine (Blames.pattern _).framed.bind fun _ _ => ?_
  refine ((Blames.pattern _).required rfl).bind fun _ _ => ?_
  refine blames_parameters.bind fun _ _ => ?_
  refine ((Blames.pattern _).required rfl).bind fun _ _ => ?_
  refine hreturn.framed.optional.bind fun _ _ => ?_
  rw [check_then]
  exact (Blames.rangeFrom _).bind fun _ _ => .pure trivial

/-- A property begins behind `s`, so that it can be blamed. -/
theorem blames_property : Blames s property fun p => s.Reaches p.range.start := by
  have hhead : Blames s (seq [pattern Lexeme.propertyName, framed (literal "=".toList)])
      fun head => ∀ name ∈ head, s.Reaches name.range.start := by
    apply Blames.seq
    simp only [List.forall_mem_cons, List.not_mem_nil, false_implies, implies_true, and_true]
    exact ⟨.pattern _, (Blames.pattern _).framed⟩
  refine hhead.bind fun head hnames => ?_
  refine blames_value.optional.bind fun found _ => ?_
  refine (Blames.requireLast rfl).bind fun _ _ => ?_
  rcases head with _ | ⟨name, rest⟩
  · cases found <;> exact .miss
  · rcases found with _ | value
    · exact .miss
    · simp only [check_then]
      refine (Blames.rangeFrom _).bind fun range hrange => ?_
      exact .pure (hrange ▸ hnames name (by simp))

theorem blames_words (words : List Text) :
    Blames s (alt (words.map literal)) fun capture => s.Reaches capture.range.start := by
  apply Blames.alt
  intro branch hbranch
  obtain ⟨word, -, rfl⟩ := List.mem_map.1 hbranch
  exact .pattern _

theorem blames_tagKind (opener : Capture) {closer : Capture} (hc : s.Reaches closer.range.start) :
    Blames s (tagKind opener closer) fun _ => True := by
  unfold tagKind
  split
  · exact .pure trivial
  · exact .pure trivial
  · exact .pure trivial
  · exact .refuse hc rfl

/-- The errors of a tag stand at its closer or at its first property, both of them already read. -/
theorem blames_tagToken : Blames s tagToken fun _ => True := by
  refine (blames_words ["</".toList, "<".toList]).bind fun opener _ => ?_
  refine (Blames.pattern _).bind fun _ _ => ?_
  refine blames_property.many.bind fun properties hproperties => ?_
  refine (Blames.ofState _).bind fun ahead _ => ?_
  split
  · exact .miss
  · refine (Blames.require rfl).bind fun _ _ => ?_
    refine (blames_words ["/>".toList, ">".toList]).bind fun closer hcloser => ?_
    refine (blames_tagKind opener hcloser).bind fun kind _ => ?_
    split
    · next property rest _ => exact .refuse (hproperties property (by simp)) rfl
    · exact .pure trivial

theorem blames_token : Blames s token fun _ => True := by
  apply Blames.alt
  simp [blames_importToken, blames_variableToken, blames_functionToken, blames_tagToken]

end Grammar

variable {source : Text}

/-- An error of the search stands where the search began, or behind it. -/
theorem Engine.seek_error (openTags : Nat) {c : Cursor} {e : Engine} (ho : e.outer = [])
    {x : ParseError} (h : (e.seek openTags c).1 = .error x) : x.From c := by
  induction hlen : c.rest.length using Nat.strongRecOn generalizing c e with
  | _ len ih =>
    have hskip := Cursor.reaches_skipIgnorable c
    by_cases hend : c.skipIgnorable.atEnd
    · rw [Engine.seek_of_atEnd hend] at h
      cases h
    · have hblames := Grammar.blames_token (s := c) (e.rewind c.skipIgnorable) hskip owedFrom_none
      rw [Engine.seek_of_code ho hend] at h
      rcases hrun : Grammar.token.result (e.rewind c.skipIgnorable) with ⟨found | _ | y, e'⟩ <;>
        rw [hrun] at h hblames
      · cases h
      · have hless := Cursor.length_rest_skip_lt (openTags == 0) c hend
        have hnext := hskip.trans (Cursor.skipUnrecognised_reaches (openTags == 0) c.skipIgnorable)
        exact (ih _ (hlen ▸ hless) (hblames.kept.outer.trans ho) h rfl).of_reaches hnext
      · cases h
        exact hblames.error x rfl

/-- An error of a scan stands behind all tokens that were found before it. -/
theorem Scan.take_failed (n : Nat) {s : Scan} (hs : s.engine.Between source)
    (hd : s.done = false) {x : ParseError} (h : (s.take n).2.1 = .failed x) :
    ∃ d, Repeats Token.Follows s.engine.cursor (s.take n).1 d ∧ x.From d := by
  induction n generalizing s with
  | zero => cases h
  | succ n ih =>
    have hsought := sought_seek s.openTags hs hs.isPlace
    have herror := Engine.seek_error s.openTags (c := s.engine.cursor) hs.outer_eq (x := x)
    simp only [take_succ, next_eq, hd, Bool.false_eq_true, ↓reduceIte] at h ⊢
    generalize s.engine.seek s.openTags s.engine.cursor = result at hsought herror h ⊢
    rcases result with ⟨token | _ | y, e'⟩
    · cases hsought with
      | found between follows =>
        obtain ⟨d, htokens, hx⟩ := ih (s := ⟨e', token.openTags s.openTags, false⟩) between rfl h
        exact ⟨d, .cons follows htokens, hx⟩
    · cases h
    · cases h
      exact ⟨s.engine.cursor, .nil _, herror rfl⟩

end NodeMarkup
