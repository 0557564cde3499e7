import NodeMarkup.Grammar.Declaration
import NodeMarkup.Grammar.Tag
import NodeMarkup.Proofs.Match.Structured

namespace NodeMarkup.Grammar

theorem structured_stringLiteral : Structured (stringLiteral : Rule StringLiteral) :=
  .bind (.optional (.pattern _)) fun
    | some _ => .bind (.check _ _) fun _ => .bind (.check _ _) fun _ =>
      .bind (.replaceLast _) fun _ => .pure _
    | none => .bind (.pattern _) fun _ => .pure _

theorem structured_integer : Structured (integer : Rule Capture) := by
  apply Structured.alt
  simp [Structured.pattern]

theorem structured_literalValue : Structured (literalValue : Rule Value) :=
  .bind (.optional (.framed structured_stringLiteral)) fun
    | some _ => .pure _
    | none => .bind (.alt (by simp [Structured.pattern, structured_integer])) fun _ => .pure _

theorem structured_pathValue : Structured (pathValue : Rule Value) :=
  .bind (.pattern _) fun _ => .pure _

theorem structured_blockValue : Structured (blockValue : Rule Value) :=
  .bind (.delimited _ _) fun _ => .bind (.replaceLast _) fun _ => .pure _

section Call

variable {value : Rule Value} (hv : Structured value)
include hv

theorem structured_arguments : Structured (arguments value) := by
  refine .bind (.literal _) fun _ => .bind (.optional (.framed hv)) fun found => ?_
  have hclose : Structured (RuleT.required .unclosedArguments (RuleT.literal ")".toList)) :=
    .required _ (.literal _)
  cases found with
  | none => exact .bind hclose fun _ => .pure _
  | some first =>
    refine .bind (.many ?_) fun _ => .bind hclose fun _ => .pure _
    exact .bind (.literal _) fun _ => .required _ hv

theorem structured_member : Structured (member value) :=
  .bind (.literal _) fun _ => .bind (.pattern _) fun _ =>
    .bind (.optional (structured_arguments hv)) fun _ => .pure _

theorem structured_callValue : Structured (callValue value) := by
  refine .bind (.scope ?_) fun _ => .pure _
  exact .bind (.pattern _) fun _ => .bind (structured_arguments hv) fun _ =>
    .many (structured_member hv)

end Call

theorem structured_valueWithin (n : Nat) : Structured (valueWithin n : Rule Value) := by
  induction n with
  | zero => exact .miss
  | succ n ih =>
    apply Structured.alt
    simp [structured_literalValue, structured_callValue ih, structured_pathValue,
      structured_blockValue]

theorem structured_value : Structured (value : Rule Value) := by
  -- the bound is read off the engine first
  change Structured (RuleT.ofState (fun e => e.cursor.rest.length + 1) >>= valueWithin : Rule Value)
  exact .bind (.ofState _) structured_valueWithin

theorem structured_keyword (word : Text) : Structured (keyword word : Rule Capture) :=
  .bind (.literal _) fun _ => .bind .negate fun _ => .bind (.pattern _) fun _ => .pure _

theorem structured_symbol : Structured (symbol : Rule Capture) := .pattern _

theorem structured_importToken : Structured (importToken : Rule Token) :=
  .bind (structured_keyword _) fun _ => .bind (.required _ structured_symbol) fun _ =>
    .bind (.required _ (structured_keyword _)) fun _ =>
      .bind (.required _ structured_stringLiteral) fun _ => .pure _

theorem structured_typeName : Structured (typeName : Rule Unit) :=
  .bind (.pattern _) fun _ => .bind (.optional (.delimited _ _)) fun _ => .pure _

theorem structured_typeHint : Structured (typeHint : Rule Unit) :=
  .bind (.literal _) fun _ => .bind (.optional (.framed structured_typeName)) fun _ => .pure _

section Declared

variable {α : Type} {expression : Rule α} (he : Structured expression)
include he

theorem structured_initializer : Structured (initializer expression) :=
  .bind (.literal _) fun _ => .bind (.framed he) fun _ => .pure _

theorem structured_declaredName : Structured (declaredName expression) :=
  .bind (.framed structured_symbol) fun _ =>
    .bind (.optional (.framed structured_typeHint)) fun _ =>
      .bind (.optional (.framed (structured_initializer he))) fun _ => .pure _

end Declared

theorem structured_variableToken : Structured (variableToken : Rule Token) :=
  .bind (structured_keyword _) fun _ =>
    .bind (structured_declaredName structured_literalValue) fun _ =>
      .bind (.rangeFrom _) fun _ => .pure _

theorem structured_parameter : Structured (parameter : Rule Capture) :=
  structured_declaredName (.pattern Lexeme.defaultValue)

theorem structured_parameters : Structured (parameters : Rule (List Capture)) :=
  .bind (.optional (.framed structured_parameter)) fun
    | none => .pure _
    | some _ =>
      .bind (.many (.bind (.literal _) fun _ => .framed structured_parameter)) fun _ =>
        .bind (.optional (.framed (.literal _))) fun _ => .pure _

theorem structured_returnType : Structured (returnType : Rule Unit) :=
  .bind (.literal _) fun _ => .framed structured_typeName

theorem structured_functionToken : Structured (functionToken : Rule Token) :=
  .bind (structured_keyword _) fun _ => .bind (.framed structured_symbol) fun _ =>
    .bind (.required _ (.literal _)) fun _ => .bind structured_parameters fun _ =>
      .bind (.required _ (.literal _)) fun _ =>
        .bind (.optional (.framed structured_returnType)) fun _ =>
          .bind (.check _ _) fun _ => .bind (.rangeFrom _) fun _ => .pure _

theorem structured_propertyHead :
    Structured (RuleT.seq [.pattern Lexeme.propertyName, .framed (.literal "=".toList)] :
      Rule (List Capture)) := by
  apply Structured.seq
  simp [Structured.pattern, Structured.framed, Structured.literal]

theorem structured_property : Structured (property : Rule Property) := by
  refine .bind structured_propertyHead fun head => .bind (.check _ _) fun _ =>
    .bind (.optional structured_value) fun found => .bind (.requireLast _) fun _ => ?_
  cases head with
  | nil => exact .miss
  | cons name rest =>
    cases found with
    | none => exact .miss
    | some value => exact .bind (.check _ _) fun _ => .bind (.rangeFrom _) fun _ => .pure _

theorem structured_tagKind (opener closer : Capture) :
    Structured (tagKind opener closer : Rule TagKind) := by
  unfold tagKind
  split
  · exact .pure _
  · exact .pure _
  · exact .pure _
  · exact .refuse _ _

theorem structured_literals (words : List Text) :
    Structured (RuleT.alt (words.map RuleT.literal) : Rule Capture) := by
  apply Structured.alt
  intro branch hb
  obtain ⟨word, -, rfl⟩ := List.mem_map.1 hb
  exact .literal word

theorem structured_tagToken : Structured (tagToken : Rule Token) := by
  refine .bind (structured_literals ["</".toList, "<".toList]) fun opener =>
    .bind (.pattern _) fun className => .bind (.many structured_property) fun properties =>
      .bind (.ofState _) fun ahead => ?_
  split
  · exact .miss
  · refine .bind (.require _) fun _ =>
      .bind (structured_literals ["/>".toList, ">".toList]) fun closer =>
        .bind (structured_tagKind opener closer) fun kind => ?_
    split
    · exact .refuse _ _
    · exact .pure _

end NodeMarkup.Grammar
