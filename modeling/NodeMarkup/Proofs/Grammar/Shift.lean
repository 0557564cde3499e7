import NodeMarkup.Proofs.Match.Parallel
import NodeMarkup.Proofs.Source.Shift
import NodeMarkup.Token.Scan
/-!
The rules of the grammar behind other lines. Each rule finds at a place with some lines before it what
it finds there without them, and all the places in what it finds are shifted by those lines.
-/
namespace NodeMarkup

open RuleT

variable {α : Type}

/-- The places of the second run are those of the first with `front` before them. -/
def Pairing.shift (front : Text) : Pairing where
  cursor c d := d = c.shift front
  range r s := s = r.shift front
  rest_eq := by
    rintro c _ rfl
    rfl
  advance := by
    rintro c _ rfl
    exact c.advance_shift front
  between := by
    rintro a _ c _ rfl rfl
    rfl
  cover := by
    rintro r _ s _ rfl rfl
    exact r.cover_shift front s

def Capture.shift (front : Text) (capture : Capture) : Capture :=
  { capture with range := capture.range.shift front }

theorem Pairing.captures_shift {front : Text} {x y : Capture}
    (h : (Pairing.shift front).Captures x y) : y = x.shift front := by
  obtain ⟨htext, hrange⟩ := h
  cases x
  cases y
  cases htext
  cases hrange
  rfl

def Property.shift (front : Text) (property : Property) : Property :=
  { property with range := property.range.shift front }

def Tag.shift (front : Text) (tag : Tag) : Tag :=
  { tag with
    properties := tag.properties.map (Property.shift front)
    range := tag.range.shift front
    closer := tag.closer.shift front }

/-- The same token in the source with `front` before it. -/
def Token.shift (front : Text) : Token → Token
  | ofImport i => ofImport { i with range := i.range.shift front }
  | ofVariable header => ofVariable { header with range := header.range.shift front }
  | ofFunction header => ofFunction { header with range := header.range.shift front }
  | ofTag tag => ofTag (tag.shift front)

/-- The rule does behind `front` what it does without it. -/
abbrev Shifts (front : Text) (R : α → α → Prop) (rule : Rule α) : Prop :=
  (Pairing.shift front).InStep R rule rule

theorem Shifts.pattern {front : Text} (q : Pattern) :
    Shifts front (fun x y => y = x.shift front) (RuleT.pattern q) :=
  (Pairing.InStep.pattern q).mono fun _ _ => Pairing.captures_shift

theorem Shifts.literal {front : Text} (word : Text) :
    Shifts front (fun x y => y = x.shift front) (RuleT.literal word) :=
  pattern _

theorem Shifts.cursor {front : Text} :
    Shifts front (fun c d => d = c.shift front) RuleT.cursor :=
  .ofCursor fun _ _ h => h

theorem map_text_shift {front : Text} (captures : List Capture) :
    (captures.map (Capture.shift front)).map Capture.text = captures.map Capture.text := by
  rw [List.map_map]
  rfl

namespace Grammar

variable {front : Text}

def StringLiteral.shift (front : Text) (string : StringLiteral) : StringLiteral :=
  { string with range := string.range.shift front }

theorem shifts_stringLiteral : Shifts front (fun x y => y = x.shift front) stringLiteral := by
  apply (Shifts.pattern _).optional.bind
  intro found found' hfound
  cases hfound with
  | none =>
    apply (Shifts.pattern _).bind
    rintro raw _ rfl
    exact .pure rfl
  | some hraw =>
    subst hraw
    exact (Pairing.InStep.replaceLast _).bind fun _ _ _ => .pure rfl

theorem shifts_integer : Shifts front (fun x y => y = x.shift front) integer := by
  apply Pairing.InStep.alt_self
  simp [Shifts.pattern]

theorem shifts_literalValue : Shifts front (· = ·) literalValue := by
  apply (shifts_stringLiteral.framed).optional.bind
  intro found found' hfound
  cases hfound with
  | some hstring =>
    subst hstring
    exact .pure rfl
  | none =>
    have hnumber : Shifts front (fun x y => y = x.shift front)
        (alt [pattern Lexeme.fraction, integer]) := by
      apply Pairing.InStep.alt_self
      simp [Shifts.pattern, shifts_integer]
    apply hnumber.bind
    rintro number _ rfl
    exact .pure rfl

theorem shifts_pathValue : Shifts front (· = ·) pathValue := by
  apply (Shifts.pattern _).bind
  rintro name _ rfl
  exact .pure rfl

theorem shifts_blockValue : Shifts front (· = ·) blockValue := by
  refine (Pairing.InStep.delimited _ _).bind fun _ _ _ => ?_
  exact (Pairing.InStep.replaceLast _).bind fun _ _ h => .pure (congrArg (Value.mk .block) h.text)

section Call

variable {value : Rule Value} (hv : Shifts front (· = ·) value)
include hv

theorem shifts_arguments : Shifts front (· = ·) (arguments value) := by
  have hclose : Shifts front (· = ·)
      (required .unclosedArguments (literal ")".toList) >>= fun _ => Pure.pure () : Rule Unit) :=
    ((Shifts.literal _).required _).bind fun _ _ _ => .pure rfl
  refine (Shifts.literal _).bind fun _ _ _ => hv.framed.optional.bind fun found found' hfound => ?_
  cases hfound with
  | none => exact hclose
  | some _ =>
    have hmore : Shifts front (· = ·)
        (literal ",".toList >>= fun _ => required .missingValue value) :=
      (Shifts.literal _).bind fun _ _ _ => hv.required _
    exact hmore.many.bind fun _ _ _ => hclose

theorem shifts_member : Shifts front (· = ·) (member value) :=
  (Shifts.literal _).bind fun _ _ _ => (Shifts.pattern _).bind fun _ _ _ =>
    (shifts_arguments hv).optional.bind fun _ _ _ => .pure rfl

theorem shifts_callValue : Shifts front (· = ·) (callValue value) := by
  have hbody : Shifts front (List.Forall₂ (· = ·)) (do
      let _ ← pattern Lexeme.path
      arguments value
      many (member value)) :=
    (Shifts.pattern _).bind fun _ _ _ => (shifts_arguments hv).bind fun _ _ _ =>
      (shifts_member hv).many
  exact hbody.scope.bind fun _ _ h => .pure (congrArg (Value.mk .call) h.capture.text)

end Call

theorem shifts_valueWithin (n : Nat) : Shifts front (· = ·) (valueWithin n) := by
  induction n with
  | zero => exact .miss
  | succ n ih =>
    apply Pairing.InStep.alt_self
    simp [shifts_literalValue, shifts_callValue ih, shifts_pathValue, shifts_blockValue]

theorem shifts_value : Shifts front (· = ·) value := by
  -- both runs have the same text before them, and so the same bound
  have hbound : Shifts front (· = ·) (ofState fun e => e.cursor.rest.length + 1 : Rule Nat) := by
    refine .ofCursor (f := fun c => c.rest.length + 1) (g := fun c => c.rest.length + 1) ?_
    rintro c _ rfl
    rfl
  change Shifts front (· = ·) (ofState (fun e => e.cursor.rest.length + 1) >>= valueWithin)
  apply hbound.bind
  rintro n _ rfl
  exact shifts_valueWithin n

theorem shifts_keyword (word : Text) :
    Shifts front (fun x y => y = x.shift front) (keyword word) := by
  apply (Shifts.literal _).bind
  rintro capture _ rfl
  exact Pairing.InStep.negate.bind fun _ _ _ => (Shifts.pattern _).bind fun _ _ _ => .pure rfl

theorem shifts_importToken : Shifts front (fun t u => u = t.shift front) importToken := by
  apply (shifts_keyword _).bind
  rintro start _ rfl
  apply ((Shifts.pattern _).required _).bind
  rintro name _ rfl
  refine ((shifts_keyword _).required _).bind fun _ _ _ => ?_
  apply (shifts_stringLiteral.required _).bind
  rintro path _ rfl
  exact .pure rfl

theorem shifts_typeName : Shifts front (· = ·) typeName :=
  (Shifts.pattern _).bind fun _ _ _ => (Pairing.InStep.delimited _ _).optional.bind fun _ _ _ =>
    .pure rfl

theorem shifts_typeHint : Shifts front (· = ·) typeHint :=
  (Shifts.literal _).bind fun _ _ _ => shifts_typeName.framed.optional.bind fun _ _ _ => .pure rfl

theorem shifts_declaredName {R : α → α → Prop} {expression : Rule α}
    (he : Shifts front R expression) :
    Shifts front (fun x y => y = x.shift front) (declaredName expression) := by
  have hinitial : Shifts front (· = ·) (initializer expression) :=
    (Shifts.literal _).bind fun _ _ _ => he.framed.bind fun _ _ _ => .pure rfl
  apply (Shifts.pattern _).framed.bind
  rintro name _ rfl
  exact shifts_typeHint.framed.optional.bind fun _ _ _ => hinitial.framed.optional.bind fun _ _ _ =>
    .pure rfl

theorem shifts_variableToken : Shifts front (fun t u => u = t.shift front) variableToken := by
  apply (shifts_keyword _).bind
  rintro start _ rfl
  apply (shifts_declaredName shifts_literalValue).bind
  rintro name _ rfl
  rw [rangeFrom_then, rangeFrom_then]
  apply Shifts.cursor.bind
  rintro stop _ rfl
  exact .pure rfl

theorem forall₂_shift {β : Type} {f : β → β} {xs ys : List β}
    (h : List.Forall₂ (fun x y => y = f x) xs ys) : ys = xs.map f := by
  induction h with
  | nil => rfl
  | cons first _ ih => rw [List.map_cons, first, ih]

theorem shifts_parameters :
    Shifts front (fun xs ys => ys = xs.map (Capture.shift front)) parameters := by
  have hparameter : Shifts front (fun x y => y = x.shift front) parameter :=
    shifts_declaredName (Shifts.pattern _)
  apply hparameter.framed.optional.bind
  intro found found' hfound
  cases hfound with
  | none => exact .pure rfl
  | some hfirst =>
    subst hfirst
    have hmore : Shifts front (fun x y => y = x.shift front)
        (literal ",".toList >>= fun _ => framed parameter) :=
      (Shifts.literal _).bind fun _ _ _ => hparameter.framed
    refine hmore.many.bind fun rest rest' hrest => ?_
    rw [forall₂_shift hrest]
    exact (Shifts.literal _).framed.optional.bind fun _ _ _ => .pure rfl

theorem shifts_functionToken : Shifts front (fun t u => u = t.shift front) functionToken := by
  have hreturn : Shifts front (· = ·) returnType :=
    (Shifts.literal _).bind fun _ _ _ => shifts_typeName.framed
  apply (shifts_keyword _).bind
  rintro start _ rfl
  apply (Shifts.pattern _).framed.bind
  rintro name _ rfl
  refine ((Shifts.literal _).required _).bind fun _ _ _ => ?_
  apply shifts_parameters.bind
  rintro names _ rfl
  refine ((Shifts.literal _).required _).bind fun _ _ _ => ?_
  refine hreturn.framed.optional.bind fun _ _ _ => ?_
  rw [check_then, check_then, rangeFrom_then, rangeFrom_then]
  apply Shifts.cursor.bind
  rintro stop _ rfl
  rw [map_text_shift]
  exact .pure rfl

theorem shifts_property : Shifts front (fun x y => y = x.shift front) property := by
  have hhead : Shifts front (fun xs ys => ys = xs.map (Capture.shift front))
      (seq [pattern Lexeme.propertyName, framed (literal "=".toList)]) :=
    (Pairing.InStep.seq_cons (Shifts.pattern _)
      (.seq_cons (Shifts.literal _).framed (.pure .nil))).mono fun _ _ => forall₂_shift
  apply hhead.bind
  rintro head _ rfl
  apply shifts_value.optional.bind
  intro found found' hfound
  refine (Pairing.InStep.requireLast _).bind fun _ _ _ => ?_
  cases hfound with
  | none => cases head <;> exact .miss
  | some hvalue =>
    subst hvalue
    cases head with
    | nil => exact .miss
    | cons name rest =>
      simp only [check_then, rangeFrom_then]
      apply Shifts.cursor.bind
      rintro stop _ rfl
      exact .pure rfl

theorem shifts_literals (words : List Text) :
    Shifts front (fun x y => y = x.shift front) (alt (words.map literal)) := by
  apply Pairing.InStep.alt_self
  intro branch hbranch
  obtain ⟨word, -, rfl⟩ := List.mem_map.1 hbranch
  exact Shifts.literal word

theorem shifts_tagKind (opener closer : Capture) :
    (Pairing.shift front).InStep (· = ·) (tagKind opener closer)
      (tagKind (opener.shift front) (closer.shift front)) := by
  have hopener : (opener.shift front).text = opener.text := rfl
  have hcloser : (closer.shift front).text = closer.text := rfl
  unfold tagKind
  rw [hopener, hcloser]
  generalize (opener.text == "<".toList) = isOpening
  generalize (closer.text == ">".toList) = isOpen
  cases isOpening <;> cases isOpen
  · exact .refuse _ rfl
  · exact .pure rfl
  · exact .pure rfl
  · exact .pure rfl

theorem shifts_closerAhead : Shifts front (· = ·) closerAhead := by
  apply Pairing.InStep.ofCursor
    (f := fun c => c.skipIgnorable.current? = some '/' || c.skipIgnorable.current? = some '>')
    (g := fun c => c.skipIgnorable.current? = some '/' || c.skipIgnorable.current? = some '>')
  rintro c _ rfl
  rw [Cursor.skipIgnorable_shift]
  rfl

theorem shifts_tagToken : Shifts front (fun t u => u = t.shift front) tagToken := by
  apply (shifts_literals ["</".toList, "<".toList]).bind
  rintro opener _ rfl
  apply (Shifts.pattern _).bind
  rintro className _ rfl
  refine shifts_property.many.bind fun properties properties' hproperties => ?_
  rw [tagTail, tagTail, forall₂_shift hproperties, List.isEmpty_map]
  apply shifts_closerAhead.bind
  rintro ahead _ rfl
  split
  · exact .miss
  · refine (Pairing.InStep.require _).bind fun _ _ _ => ?_
    apply (shifts_literals ["/>".toList, ">".toList]).bind
    rintro closer _ rfl
    apply (shifts_tagKind opener closer).bind
    rintro kind _ rfl
    cases kind with
    | opening => exact .pure rfl
    | single => exact .pure rfl
    | closing =>
      cases properties with
      | nil => exact .pure rfl
      | cons property rest => exact .refuse _ rfl

/-- Tokens are the same behind any lines, but for their places. -/
theorem shifts_token : Shifts front (fun t u => u = t.shift front) token := by
  apply Pairing.InStep.alt_self
  simp [shifts_importToken, shifts_variableToken, shifts_functionToken, shifts_tagToken]

end Grammar

end NodeMarkup
