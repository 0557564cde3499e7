import NodeMarkup.Proofs.Lexeme.Nesting
import NodeMarkup.Proofs.Token.Pair
/-!
Headers of functions as they are written. A written header holds its name, its parameters with their
types and default values, and its return type, together with all the spacing between these, so that
it has one text.
-/
namespace NodeMarkup

open RuleT Lexeme

/-- Spaces, tabs and line breaks between two parts of a header. -/
structure Spacing where
  text : Text
  spacing : ∀ c ∈ text, isSpacing c

/-- Code between brackets, all of whose brackets and quoted runs are closed. -/
structure BracketBody where
  text : Text
  nested : (Brackets.pair '[' ']').Nested text

/-- The name of a type, perhaps with brackets directly behind it. -/
structure WrittenType where
  name : Lexeme.path.Whole
  brackets : Option BracketBody

/-- The type of a parameter, or a `:` alone. -/
inductive WrittenHint where
  | none
  | bare (before : Spacing)
  | typed (before behind : Spacing) (type : WrittenType)

/-- A default value: code that neither begins nor ends blank, whose brackets and quoted runs are all
closed, and in which every `,` stands between brackets or in a quoted run. -/
structure DefaultCode where
  text : Text
  ne_nil : text ≠ []
  begins : ∀ c ∈ text.head?, isIgnorable c = false
  ends : ∀ c ∈ text.getLast?, Text.isBlank c = false
  nested : Brackets.expression.Nested text

inductive WrittenDefault where
  | none
  | some (before behind : Spacing) (code : DefaultCode)

structure WrittenParameter where
  name : Lexeme.symbol.Whole
  hint : WrittenHint
  initial : WrittenDefault

/-- A parameter behind another one and a `,`. -/
structure NextParameter where
  before : Spacing
  behind : Spacing
  parameter : WrittenParameter

/-- What stands between the parentheses of a header. Behind the last parameter there may be a `,`. -/
inductive WrittenParameters where
  | none (gap : Spacing)
  | some (gap : Spacing) (first : WrittenParameter) (more : List NextParameter)
      (comma : Option Spacing) (last : Spacing)

inductive WrittenReturn where
  | none
  | some (before behind : Spacing) (type : WrittenType)

/-- The header of a function with the `:` behind it. -/
structure WrittenFunction where
  keywordGap : Spacing
  keywordGap_ne_nil : keywordGap.text ≠ []
  name : Lexeme.symbol.Whole
  nameGap : Spacing
  parameters : WrittenParameters
  returns : WrittenReturn
  colonGap : Spacing

def WrittenType.text (type : WrittenType) : Text :=
  match type.brackets with
  | .none => type.name.text
  | .some body => type.name.text ++ '[' :: (body.text ++ [']'])

def WrittenHint.text : WrittenHint → Text
  | none => []
  | bare before => before.text ++ [':']
  | typed before behind type => before.text ++ ':' :: (behind.text ++ type.text)

def WrittenDefault.text : WrittenDefault → Text
  | none => []
  | some before behind code => before.text ++ '=' :: (behind.text ++ code.text)

def WrittenParameter.text (p : WrittenParameter) : Text :=
  p.name.text ++ (p.hint.text ++ p.initial.text)

def NextParameter.text (p : NextParameter) : Text :=
  p.before.text ++ ',' :: (p.behind.text ++ p.parameter.text)

/-- The `,` behind the last parameter. -/
def commaText : Option Spacing → Text
  | none => []
  | some gap => gap.text ++ [',']

def WrittenParameters.text : WrittenParameters → Text
  | none gap => gap.text
  | some gap first more comma last =>
    gap.text ++ (first.text ++ (more.flatMap NextParameter.text ++ (commaText comma ++ last.text)))

/-- The names of the parameters in their order. -/
def WrittenParameters.names : WrittenParameters → List Text
  | none _ => []
  | some _ first more _ _ => first.name.text :: more.map fun p => p.parameter.name.text

def WrittenReturn.text : WrittenReturn → Text
  | none => []
  | some before behind type => before.text ++ "->".toList ++ (behind.text ++ type.text)

/-- The header from its keyword through its return type, or through its parameters. -/
def WrittenFunction.covered (f : WrittenFunction) : Text :=
  "func".toList ++ (f.keywordGap.text ++ (f.name.text ++ (f.nameGap.text ++
    '(' :: (f.parameters.text ++ ')' :: f.returns.text))))

def WrittenFunction.text (f : WrittenFunction) : Text :=
  f.covered ++ (f.colonGap.text ++ [':'])

/-- The header is a function with the name and the names of parameters that are written. -/
def WrittenFunction.Means (f : WrittenFunction) (header : FunctionHeader) : Prop :=
  header.name = f.name.text ∧ header.parameters = f.parameters.names

theorem Spacing.ignorable (gap : Spacing) : Ignorable gap.text := by
  have h := gap.spacing
  generalize gap.text = t at h
  induction t with
  | nil => exact .nil
  | cons c t ih =>
    have hc := h c (by simp)
    simp only [isSpacing, Bool.or_eq_true, decide_eq_true_eq] at hc
    refine .blank ?_ (ih fun d hd => h d (by simp [hd]))
    rcases hc with (rfl | rfl) | rfl <;> simp

/-- Whether a scalar value stands between the parts of a header. -/
def isMark (c : Char) : Bool := c ∈ ":=,)(-".toList

/-- The text goes on no name and no type. -/
def EndsType (rest : Text) : Prop :=
  ∀ c ∈ rest.head?, isSymbolPart c = false ∧ c ≠ '.' ∧ c ≠ '['

theorem EndsType.endsName {rest : Text} (h : EndsType rest) : EndsName rest :=
  fun c hc => ⟨(h c hc).1, (h c hc).2.1⟩

theorem endsType_of_spacing {gap : Spacing} (hgap : gap.text ≠ []) (t : Text) :
    EndsType (gap.text ++ t) := by
  intro c hc
  have hspacing := gap.spacing c
  cases htext : gap.text with
  | nil => exact absurd htext hgap
  | cons d u =>
    obtain rfl : d = c := by simpa [htext] using hc
    have hd := hspacing (by simp [htext])
    simp only [isSpacing, Bool.or_eq_true, decide_eq_true_eq, or_assoc] at hd
    rcases hd with rfl | rfl | rfl <;> decide

theorem isMark_apart {c : Char} (h : isMark c) :
    isIgnorable c = false ∧ isSymbolPart c = false ∧ c ≠ '.' ∧ c ≠ '[' := by
  have hall : ":=,)(-".toList.all fun d =>
      isIgnorable d = false ∧ isSymbolPart d = false ∧ d ≠ '.' ∧ d ≠ '[' := by decide
  exact of_decide_eq_true (List.all_eq_true.1 hall c (of_decide_eq_true h))

theorem endsType_of_mark (gap : Spacing) {c : Char} (hc : isMark c) (t : Text) :
    EndsType (gap.text ++ c :: t) := by
  by_cases hgap : gap.text = []
  · intro d hd
    obtain rfl : c = d := by simpa [hgap] using hd
    exact (isMark_apart hc).2
  · exact endsType_of_spacing hgap _

/-- The text goes on with spacing and one of some marks of a header. -/
def Marked (marks : Char → Bool) (t : Text) : Prop :=
  ∃ (gap : Spacing) (c : Char) (u : Text), t = gap.text ++ c :: u ∧ isMark c ∧ marks c

namespace Marked

variable {marks : Char → Bool} {t : Text}

theorem intro (gap : Spacing) {c : Char} (u : Text) (hc : isMark c) (hm : marks c) :
    Marked marks (gap.text ++ c :: u) := ⟨gap, c, u, rfl, hc, hm⟩

theorem mono {marks' : Char → Bool} (h : Marked marks t) (hm : ∀ c, marks c → marks' c) :
    Marked marks' t := by
  obtain ⟨gap, c, u, rfl, hc, hmark⟩ := h
  exact ⟨gap, c, u, rfl, hc, hm c hmark⟩

/-- Behind the spacing stands the mark. -/
theorem skipIgnorable (h : Marked marks t) :
    ∃ c u, Text.skipIgnorable t = c :: u ∧ isMark c ∧ marks c := by
  obtain ⟨gap, c, u, rfl, hc, hm⟩ := h
  exact ⟨c, u, gap.ignorable.skip_append_cons (isMark_apart hc).1 u, hc, hm⟩

theorem endsType (h : Marked marks t) : EndsType t := by
  obtain ⟨gap, c, u, rfl, hc, -⟩ := h
  exact endsType_of_mark gap hc u

end Marked

/-- What goes on no name leaves a pattern alone that begins like one, if it leaves the rest of the
pattern alone. -/
theorem Lexeme.name_append {rest : Text} (hrest : EndsName rest) {q : Pattern}
    (hq : ∀ w, q (w ++ rest) = q w) (w : Text) :
    Pattern.andThen (.one isSymbolStart) q (w ++ rest) =
      Pattern.andThen (.one isSymbolStart) q w := by
  cases w with
  | nil =>
    cases rest with
    | nil => rfl
    | cons c rest =>
      have hpart := (hrest c rfl).1
      have hstart : ¬isSymbolStart c := fun h => by
        simp [isSymbolPart_of_isSymbolStart c h] at hpart
      simp [Pattern.andThen, Pattern.one, hstart]
  | cons c w => cases hc : isSymbolStart c <;> simp [Pattern.andThen, Pattern.one, hc, hq]

theorem Lexeme.symbol_append {rest : Text} (hrest : EndsName rest) (w : Text) :
    symbol (w ++ rest) = symbol w := by
  apply name_append hrest
  intro w
  rw [Pattern.run, Pattern.run, takeWhile_append_of_head fun c hc => (hrest c hc).1]

theorem Lexeme.path_append {rest : Text} (hrest : EndsName rest) (w : Text) :
    path (w ++ rest) = path w := by
  apply name_append hrest
  intro w
  rw [pathTail_append hrest]

theorem WrittenDefault.marked (initial : WrittenDefault) {rest : Text}
    (h : Marked (fun c => c = ',' || c = ')') rest) : Marked (· ≠ ':') (initial.text ++ rest) := by
  cases initial with
  | none =>
    refine h.mono fun c hc => ?_
    simp only [Bool.or_eq_true, decide_eq_true_eq] at hc
    rcases hc with rfl | rfl <;> decide
  | some before behind code =>
    simp only [WrittenDefault.text, List.append_assoc, List.cons_append]
    exact .intro before _ (by decide) (by decide)

theorem WrittenHint.endsType (hint : WrittenHint) {marks : Char → Bool} {rest : Text}
    (h : Marked marks rest) : EndsType (hint.text ++ rest) := by
  cases hint with
  | none => exact h.endsType
  | bare before =>
    simp only [WrittenHint.text, List.append_assoc, List.cons_append]
    exact endsType_of_mark before (by decide) _
  | typed before behind type =>
    simp only [WrittenHint.text, List.append_assoc, List.cons_append]
    exact endsType_of_mark before (by decide) _

theorem WrittenType.skip_append (type : WrittenType) (rest : Text) :
    Text.skipIgnorable (type.text ++ rest) = type.text ++ rest := by
  unfold WrittenType.text
  split
  · exact type.name.skip_append rest
  · rw [List.append_assoc, type.name.skip_append]

namespace Grammar

variable {marks : Char → Bool} {rest : Text}

theorem hits_name (name : Lexeme.symbol.Whole) (hrest : EndsName rest) {t : Text}
    (ht : Text.skipIgnorable t = name.text ++ rest) :
    Hits t (framed symbol) (fun capture => capture.text = name.text) [name.text] rest := by
  have hsymbol : Hits (name.text ++ rest) symbol (fun capture => capture.text = name.text)
      [name.text] rest :=
    Hits.pattern_append (by rw [Lexeme.symbol_append hrest, name.whole])
  simpa using hsymbol.framed_of_code ht structured_symbol.keeps

theorem hits_typeName (type : WrittenType) (hrest : EndsType rest) :
    ∃ more, Hits (type.text ++ rest) typeName (fun _ => True) more rest := by
  have hname {t : Text} (ht : EndsName t) :
      Hits (type.name.text ++ t) (pattern Lexeme.path) (fun _ => True) [type.name.text] t :=
    (Hits.pattern_append (by rw [Lexeme.path_append ht, type.name.whole])).mono fun _ _ => trivial
  unfold WrittenType.text
  cases type.brackets with
  | none =>
    have hbracket : Misses rest (delimited '[' ']') := by
      apply Misses.delimited
      intro hhead
      exact (hrest '[' hhead).2.2 rfl
    exact ⟨_, (hname hrest.endsName).bind fun _ _ =>
      hbracket.optional.map (fun _ => ()) fun _ _ => trivial⟩
  | some body =>
    have hblock : Hits ('[' :: (body.text ++ ']' :: rest)) (delimited '[' ']') (fun _ => True)
        [body.text] rest :=
      (Hits.delimited (blockLength_of_nested body.nested (by decide) (by decide) rest)).mono
        fun _ _ => trivial
    have hends : EndsName ('[' :: (body.text ++ ']' :: rest)) := by
      intro c hc
      obtain rfl : '[' = c := by simpa using hc
      decide
    have hhits := (hname hends).bind fun _ _ => hblock.optional.map (R := fun _ => True) (fun _ => ())
      fun _ _ => trivial
    simp only [List.append_assoc, List.cons_append, List.nil_append]
    exact ⟨_, hhits⟩

/-- The mark `c` behind spacing. -/
theorem hits_mark (gap : Spacing) {c : Char} (hc : isMark c) {word : Text} (hword : word = [c])
    (rest : Text) : Hits (Text.skipIgnorable (gap.text ++ c :: rest)) (literal word)
      (fun _ => True) [[c]] rest := by
  rw [gap.ignorable.skip_append_cons (isMark_apart hc).1]
  exact (Hits.mark c hword rest).mono fun _ _ => trivial

theorem givesUp_typeHint (h : Marked (· ≠ ':') rest) :
    GivesUp (Text.skipIgnorable rest) typeHint := by
  obtain ⟨c, u, hskip, -, hc⟩ := h.skipIgnorable
  rw [hskip]
  exact ((Misses.mark ':' rfl (by simpa using hc)).bind _).givesUp

theorem misses_typeName (h : Marked marks rest) : Misses rest (framed typeName) := by
  obtain ⟨c, u, hskip, hc, -⟩ := h.skipIgnorable
  have hpath : Lexeme.path (c :: u) = none := by
    have hnil := Lexeme.path_append (EndsType.endsName (endsType_of_mark ⟨[], by simp⟩ hc u)) []
    exact hnil
  exact ((Misses.pattern hpath).bind _).givesUp.framed_of_code hskip structured_typeName.keeps

/-- A type behind spacing. -/
theorem hits_type (gap : Spacing) (type : WrittenType) (hrest : EndsType rest) :
    ∃ more, Hits (gap.text ++ (type.text ++ rest)) (framed typeName) (fun _ => True) more rest := by
  obtain ⟨more, htype⟩ := hits_typeName type hrest
  have hskip : Text.skipIgnorable (gap.text ++ (type.text ++ rest)) = type.text ++ rest := by
    rw [gap.ignorable.skip_append, type.skip_append]
  exact ⟨_, htype.framed_of_code hskip structured_typeName.keeps⟩

theorem hits_hint (hint : WrittenHint) (hrest : Marked (· ≠ ':') rest) :
    ∃ more, Hits (hint.text ++ rest) (optional (framed typeHint)) (fun _ => True) more rest := by
  cases hint with
  | none =>
    have hmiss := (givesUp_typeHint hrest).framed structured_typeHint.keeps
    exact ⟨_, hmiss.optional.mono fun _ _ => trivial⟩
  | bare before =>
    have hmark := hits_mark before (c := ':') (by decide) (show ":".toList = _ from rfl) rest
    have hhint : Hits (Text.skipIgnorable (before.text ++ ':' :: rest)) typeHint (fun _ => True) _
        rest :=
      hmark.bind fun _ _ => (misses_typeName hrest).optional.map (fun _ => ()) fun _ _ => trivial
    simp only [WrittenHint.text, List.append_assoc, List.cons_append, List.nil_append]
    exact ⟨_, (hhint.framed structured_typeHint.keeps).optional.mono fun _ _ => trivial⟩
  | typed before behind type =>
    obtain ⟨more, htype⟩ := hits_type behind type hrest.endsType
    have hmark := hits_mark before (c := ':') (by decide) (show ":".toList = _ from rfl)
      (behind.text ++ (type.text ++ rest))
    have hhint : Hits (Text.skipIgnorable (before.text ++ ':' :: (behind.text ++ (type.text ++ rest))))
        typeHint (fun _ => True) _ rest :=
      hmark.bind fun _ _ => htype.optional.map (fun _ => ()) fun _ _ => trivial
    simp only [WrittenHint.text, List.append_assoc, List.cons_append]
    exact ⟨_, (hhint.framed structured_typeHint.keeps).optional.mono fun _ _ => trivial⟩

theorem hits_default (initial : WrittenDefault) (hrest : Marked (fun c => c = ',' || c = ')') rest) :
    ∃ more, Hits (initial.text ++ rest)
      (optional (framed (initializer (pattern Lexeme.defaultValue)))) (fun _ => True) more rest := by
  have hk : Keeps (initializer (pattern Lexeme.defaultValue)) :=
    (structured_initializer (.pattern _)).keeps
  cases initial with
  | none =>
    obtain ⟨c, u, hskip, -, hc⟩ := hrest.skipIgnorable
    have hne : c ≠ '=' := by
      rintro rfl
      simp at hc
    have hmiss : GivesUp (c :: u) (initializer (pattern Lexeme.defaultValue)) :=
      ((Misses.mark '=' rfl (by simpa using hne)).bind _).givesUp
    exact ⟨_, (hmiss.framed_of_code hskip hk).optional.mono fun _ _ => trivial⟩
  | some before behind code =>
    obtain ⟨gap, c, u, rfl, -, hc⟩ := hrest
    have hcode : Hits (code.text ++ (gap.text ++ c :: u)) (pattern Lexeme.defaultValue)
        (fun _ => True) [code.text] (gap.text ++ c :: u) :=
      (Hits.pattern_append (defaultValue_of_nested code.nested code.ne_nil code.ends gap.spacing
        (by simpa using hc))).mono fun _ _ => trivial
    have hskip : Text.skipIgnorable (behind.text ++ (code.text ++ (gap.text ++ c :: u))) =
        code.text ++ (gap.text ++ c :: u) := by
      obtain ⟨d, v, hd⟩ := List.exists_cons_of_ne_nil code.ne_nil
      have hbegins := code.begins d (by simp [hd])
      rw [behind.ignorable.skip_append, Text.skipIgnorable_append hd hbegins]
    have hvalue := hcode.framed_of_code hskip (Structured.pattern _).keeps
    have hmark := hits_mark before (c := '=') (by decide) (show "=".toList = _ from rfl)
      (behind.text ++ (code.text ++ (gap.text ++ c :: u)))
    have hinitial : Hits (Text.skipIgnorable (before.text ++
        '=' :: (behind.text ++ (code.text ++ (gap.text ++ c :: u)))))
        (initializer (pattern Lexeme.defaultValue)) (fun _ => True) _ (gap.text ++ c :: u) :=
      hmark.bind fun _ _ => hvalue.map (fun _ => ()) fun _ _ => trivial
    simp only [WrittenDefault.text, List.append_assoc, List.cons_append]
    exact ⟨_, (hinitial.framed hk).optional.mono fun _ _ => trivial⟩

/-- A parameter behind spacing. -/
theorem hits_parameter (gap : Spacing) (p : WrittenParameter)
    (hrest : Marked (fun c => c = ',' || c = ')') rest) :
    ∃ more, Hits (gap.text ++ (p.text ++ rest)) (framed parameter)
      (fun capture => capture.text = p.name.text) more rest := by
  have hmarked := p.initial.marked hrest
  obtain ⟨_, hhint⟩ := hits_hint p.hint hmarked
  obtain ⟨_, hdefault⟩ := hits_default p.initial hrest
  have hname := hits_name p.name (p.hint.endsType hmarked).endsName (p.name.skip_append _)
  have hparameter : Hits (p.name.text ++ (p.hint.text ++ (p.initial.text ++ rest))) parameter
      (fun capture => capture.text = p.name.text) _ rest :=
    hname.bind fun _ hn => hhint.bind fun _ _ => hdefault.bind_silent fun _ _ => Hits.pure hn
  have hskip : Text.skipIgnorable
      (gap.text ++ (p.name.text ++ (p.hint.text ++ (p.initial.text ++ rest)))) =
      p.name.text ++ (p.hint.text ++ (p.initial.text ++ rest)) := by
    rw [gap.ignorable.skip_append, p.name.skip_append]
  simp only [WrittenParameter.text, List.append_assoc]
  exact ⟨_, hparameter.framed_of_code hskip structured_parameter.keeps⟩

theorem misses_parameter (gap : Spacing) (rest : Text) :
    Misses (gap.text ++ ')' :: rest) (framed parameter) := by
  have hname : Misses (')' :: rest) (framed symbol) := misses_name (by decide) (by decide)
  exact (hname.bind _).givesUp.framed_of_code (gap.ignorable.skip_append_cons (by decide) rest)
    structured_parameter.keeps

/-- The rule for a parameter behind another one. -/
def nextParameter : Rule Capture := do
  let _ ← literal ",".toList
  framed parameter

theorem structured_nextParameter : Structured nextParameter :=
  .bind (.literal _) fun _ => .framed structured_parameter

/-- The end of the parameters: perhaps a `,`, and the closing parenthesis. -/
def closingTail (comma : Option Spacing) (last : Spacing) (rest : Text) : Text :=
  commaText comma ++ (last.text ++ ')' :: rest)

theorem marked_closingTail (comma : Option Spacing) (last : Spacing) (rest : Text) :
    Marked (fun c => c = ',' || c = ')') (closingTail comma last rest) := by
  cases comma with
  | none => exact .intro last rest (by decide) (by decide)
  | some gap =>
    simp only [closingTail, commaText, List.append_assoc, List.cons_append, List.nil_append]
    exact .intro gap _ (by decide) (by decide)

/-- At the end of the parameters there is no further one, so a `,` there is given back. -/
theorem givesUp_nextParameter (comma : Option Spacing) (last : Spacing) (rest : Text) :
    GivesUp (Text.skipIgnorable (closingTail comma last rest)) nextParameter := by
  cases comma with
  | none =>
    have hskip : Text.skipIgnorable (last.text ++ ')' :: rest) = ')' :: rest :=
      last.ignorable.skip_append_cons (by decide) rest
    rw [closingTail, commaText, List.nil_append, hskip]
    exact ((Misses.mark ',' rfl (by simp)).bind _).givesUp
  | some gap =>
    have hcomma := hits_mark gap (c := ',') (by decide) (show ",".toList = _ from rfl)
      (last.text ++ ')' :: rest)
    simp only [closingTail, commaText, List.append_assoc, List.cons_append, List.nil_append]
    exact GivesUp.behind hcomma fun _ _ => (misses_parameter last rest).givesUp

/-- The comma behind the last parameter, if there is one. -/
theorem hits_comma (comma : Option Spacing) (last : Spacing) (rest : Text) :
    ∃ more, Hits (closingTail comma last rest) (optional (framed (literal ",".toList)))
      (fun _ => True) more (last.text ++ ')' :: rest) := by
  have hk : Keeps (literal ",".toList : Rule Capture) := (Structured.literal _).keeps
  cases comma with
  | none =>
    have hskip : Text.skipIgnorable (last.text ++ ')' :: rest) = ')' :: rest :=
      last.ignorable.skip_append_cons (by decide) rest
    have hmiss := (Misses.mark ',' (show ",".toList = _ from rfl) (t := ')' :: rest)
      (by simp)).givesUp.framed_of_code hskip hk
    exact ⟨_, hmiss.optional.mono fun _ _ => trivial⟩
  | some gap =>
    have hcomma := hits_mark gap (c := ',') (by decide) (show ",".toList = _ from rfl)
      (last.text ++ ')' :: rest)
    simp only [closingTail, commaText, List.append_assoc, List.cons_append, List.nil_append]
    exact ⟨_, (hcomma.framed hk).optional.mono fun _ _ => trivial⟩

theorem marked_more (more : List NextParameter) (comma : Option Spacing) (last : Spacing)
    (rest : Text) : Marked (fun c => c = ',' || c = ')')
      (more.flatMap NextParameter.text ++ closingTail comma last rest) := by
  cases more with
  | nil => exact marked_closingTail comma last rest
  | cons p more =>
    simp only [List.flatMap_cons, NextParameter.text, List.append_assoc, List.cons_append]
    exact .intro p.before _ (by decide) (by decide)

/-- The parameters behind the first one are read in their order. -/
theorem hits_more (more : List NextParameter) (comma : Option Spacing) (last : Spacing)
    (rest : Text) :
    ∃ texts, Hits (more.flatMap NextParameter.text ++ closingTail comma last rest)
      (many nextParameter)
      (fun captures => captures.map Capture.text = more.map fun p => p.parameter.name.text) texts
      (closingTail comma last rest) := by
  induction more with
  | nil =>
    have hend := Hits.many_nil (givesUp_nextParameter comma last rest) structured_nextParameter.keeps
    exact ⟨_, hend.mono fun _ h => by simp [h]⟩
  | cons p more ih =>
    obtain ⟨texts, hmore⟩ := ih
    have hmarked := marked_more more comma last rest
    simp only [List.flatMap_cons, NextParameter.text, List.append_assoc, List.cons_append]
    generalize more.flatMap NextParameter.text ++ closingTail comma last rest = tail
      at hmore hmarked ⊢
    obtain ⟨_, hparameter⟩ := hits_parameter p.behind p.parameter hmarked
    have hcomma := hits_mark p.before (c := ',') (by decide) (show ",".toList = _ from rfl)
      (p.behind.text ++ (p.parameter.text ++ tail))
    have hnext : Hits
        (Text.skipIgnorable (p.before.text ++ ',' :: (p.behind.text ++ (p.parameter.text ++ tail))))
        nextParameter (fun capture => capture.text = p.parameter.name.text) _ tail :=
      hcomma.bind fun _ _ => hparameter
    have hless : tail.length <
        (p.before.text ++ ',' :: (p.behind.text ++ (p.parameter.text ++ tail))).length := by
      simp only [List.length_append, List.length_cons]
      omega
    refine ⟨_, (hnext.many_cons structured_nextParameter.keeps hless hmore).mono ?_⟩
    rintro _ ⟨capture, captures, rfl, hcapture, hcaptures⟩
    simp [hcapture, hcaptures]

theorem hits_parameters (ps : WrittenParameters) (rest : Text) :
    ∃ texts, ∃ last : Spacing, Hits (ps.text ++ ')' :: rest) parameters
      (fun captures => captures.map Capture.text = ps.names) texts (last.text ++ ')' :: rest) := by
  cases ps with
  | none gap =>
    refine ⟨[], gap, Hits.bind_silent (misses_parameter gap rest).optional ?_⟩
    rintro _ rfl
    exact Hits.pure rfl
  | some gap first more comma last =>
    obtain ⟨texts, hfirst⟩ := hits_parameter gap first (marked_more more comma last rest)
    obtain ⟨texts', hmore⟩ := hits_more more comma last rest
    obtain ⟨texts'', hcomma⟩ := hits_comma comma last rest
    have htext : (WrittenParameters.some gap first more comma last).text ++ ')' :: rest =
        gap.text ++ (first.text ++ (more.flatMap NextParameter.text ++
          closingTail comma last rest)) := by
      simp only [WrittenParameters.text, closingTail, List.append_assoc]
    rw [htext]
    refine ⟨texts ++ (texts' ++ texts''), last, Hits.bind hfirst.optional ?_⟩
    rintro _ ⟨capture, rfl, hcapture⟩
    refine Hits.bind hmore fun captures hcaptures => hcomma.bind_silent fun _ _ => Hits.pure ?_
    simp [WrittenParameters.names, hcapture, hcaptures]

theorem hits_return (returns : WrittenReturn) (gap : Spacing) (rest : Text) :
    ∃ texts, Hits (returns.text ++ (gap.text ++ ':' :: rest)) (optional (framed returnType))
      (fun _ => True) texts (gap.text ++ ':' :: rest) := by
  cases returns with
  | none =>
    have hmiss : GivesUp (':' :: rest) returnType :=
      ((Misses.literal_of_head (c := '-') rfl (by simp)).bind _).givesUp
    have hskip := gap.ignorable.skip_append_cons (c := ':') (by decide) rest
    exact ⟨_, (hmiss.framed_of_code hskip structured_returnType.keeps).optional.mono
      fun _ _ => trivial⟩
  | some before behind type =>
    have hends := endsType_of_mark gap (c := ':') (by decide) rest
    obtain ⟨_, htype⟩ := hits_type behind type hends
    have harrow : Hits ("->".toList ++ (behind.text ++ (type.text ++ (gap.text ++ ':' :: rest))))
        returnType (fun _ => True) _ (gap.text ++ ':' :: rest) :=
      (Hits.literal "->".toList _).bind fun _ _ => htype
    have hskip : Text.skipIgnorable (before.text ++
        ("->".toList ++ (behind.text ++ (type.text ++ (gap.text ++ ':' :: rest))))) =
        "->".toList ++ (behind.text ++ (type.text ++ (gap.text ++ ':' :: rest))) :=
      before.ignorable.skip_append_cons (c := '-') (by decide) _
    simp only [WrittenReturn.text, List.append_assoc]
    exact ⟨_, (harrow.framed_of_code hskip structured_returnType.keeps).optional.mono
      fun _ _ => trivial⟩

/-- A mark that is owed, behind spacing. -/
theorem hits_owed (fault : Fault) (gap : Spacing) {c : Char} (hc : isMark c) {word : Text}
    (hword : word = [c]) (rest : Text) :
    Hits (gap.text ++ c :: rest) (required fault (literal word)) (fun _ => True) [[c]] rest := by
  simpa using (hits_mark gap hc hword rest).required fault (Structured.literal _).keeps

theorem hits_functionToken (f : WrittenFunction) (rest : Text) :
    ∃ texts, Hits (f.covered ++ (f.colonGap.text ++ ':' :: rest)) functionToken
      (fun token => ∃ header, token = .ofFunction header ∧ f.Means header) texts
      (f.colonGap.text ++ ':' :: rest) := by
  obtain ⟨_, hreturn⟩ := hits_return f.returns f.colonGap rest
  obtain ⟨_, last, hparameters⟩ :=
    hits_parameters f.parameters (f.returns.text ++ (f.colonGap.text ++ ':' :: rest))
  simp only [WrittenFunction.covered, List.append_assoc, List.cons_append]
  generalize f.returns.text ++ (f.colonGap.text ++ ':' :: rest) = behind at hreturn hparameters ⊢
  have hclose := hits_owed .unclosedParameters last (c := ')') (by decide)
    (show ")".toList = _ from rfl) behind
  have hopen := hits_owed .missingParameters f.nameGap (c := '(') (by decide)
    (show "(".toList = _ from rfl) (f.parameters.text ++ ')' :: behind)
  have hends := endsType_of_mark f.nameGap (c := '(') (by decide)
    (f.parameters.text ++ ')' :: behind)
  generalize f.nameGap.text ++ '(' :: (f.parameters.text ++ ')' :: behind) = list at hopen hends ⊢
  have hskip : Text.skipIgnorable (f.keywordGap.text ++ (f.name.text ++ list)) =
      f.name.text ++ list := by
    rw [f.keywordGap.ignorable.skip_append, f.name.skip_append]
  have hname := hits_name f.name hends.endsName hskip
  have hgap := endsType_of_spacing f.keywordGap_ne_nil (f.name.text ++ list)
  have hkeyword := hits_keyword (fun c hc => (hgap c hc).1) "func".toList
  refine ⟨_, hkeyword.bind fun _ _ => hname.bind fun name hn => hopen.bind fun _ _ =>
    hparameters.bind fun names hnames => hclose.bind fun _ _ => hreturn.bind fun _ _ =>
      .check ((Hits.rangeFrom _).bind_silent fun _ _ => .pure ⟨_, rfl, hn, hnames⟩)⟩

/-- A written header is a token: no import and no variable begins like a function. -/
theorem hits_token_of_function (f : WrittenFunction) (rest : Text) :
    ∃ texts, Hits (f.covered ++ (f.colonGap.text ++ ':' :: rest)) token
      (fun token => ∃ header, token = .ofFunction header ∧ f.Means header) texts
      (f.colonGap.text ++ ':' :: rest) := by
  obtain ⟨texts, hfunction⟩ := hits_functionToken f rest
  have hskip : Text.skipIgnorable (f.covered ++ (f.colonGap.text ++ ':' :: rest)) =
      f.covered ++ (f.colonGap.text ++ ':' :: rest) :=
    Text.skipIgnorable_of_code (c := 'f') (by decide)
  rw [← hskip] at hfunction
  refine ⟨_, hfunction.alt [importToken, variableToken] [tagToken] ?_
    structured_functionToken.keeps⟩
  rw [hskip]
  have himport : ¬"import".toList <+: f.covered ++ (f.colonGap.text ++ ':' :: rest) := by
    simp [WrittenFunction.covered]
  have hvariable : ¬"var".toList <+: f.covered ++ (f.colonGap.text ++ ':' :: rest) := by
    simp [WrittenFunction.covered]
  simpa using ⟨⟨givesUp_keyword himport _, structured_importToken.keeps⟩,
    givesUp_keyword hvariable _, structured_variableToken.keeps⟩

end Grammar

/-- Written headers are read back, whatever their parts are and whatever follows: the first token is
the header, and it covers the text through the return type or else through the parameters. -/
theorem Scan.drain_writtenFunction (f : WrittenFunction) (more : Text) :
    ∃ header tokens, (Scan.start (f.text ++ more)).drain.1 = .ofFunction header :: tokens ∧
      header.name = f.name.text ∧ header.parameters = f.parameters.names ∧
      header.range.start = .start (f.text ++ more) ∧ header.range.text = f.covered := by
  have htext : f.text ++ more = f.covered ++ (f.colonGap.text ++ ':' :: more) := by
    simp [WrittenFunction.text]
  generalize hsource : f.text ++ more = source at htext ⊢
  have hrest : (Cursor.start source).rest = f.covered ++ (f.colonGap.text ++ ':' :: more) := by
    rw [Cursor.rest_start, htext]
  have hskip : Text.skipIgnorable (f.covered ++ (f.colonGap.text ++ ':' :: more)) =
      f.covered ++ (f.colonGap.text ++ ':' :: more) :=
    Text.skipIgnorable_of_code (c := 'f') (by decide)
  have hne : f.covered ≠ [] := by simp [WrittenFunction.covered]
  obtain ⟨_, hhits⟩ := Grammar.hits_token_of_function f more
  obtain ⟨_, e, hseek, ⟨header, rfl, hname, hparameters⟩, hfinds⟩ :=
    Engine.seek_hits (e := .start source) rfl (by rw [Cursor.rest_start]; exact Nat.le_refl _)
      hrest hskip hne hhits 0
  have hnext := Scan.next_of_found (s := .start source) rfl hseek
  have hrange : header.range = ⟨.start source, (Cursor.start source).advanceBy f.covered.length⟩ :=
    hfinds.stands.range
  have hcovered : header.range.text = f.covered := by
    have hstop : ((Cursor.start source).advanceBy f.covered.length).rest =
        f.colonGap.text ++ ':' :: more := by
      rw [Cursor.rest_advanceBy, hrest, List.drop_left]
    rw [hrange, Range.text, hstop, hrest, List.length_append, Nat.add_sub_cancel, List.take_left]
  obtain ⟨tokens, hdrain⟩ :
      ∃ tokens, (Scan.start source).drain.1 = .ofFunction header :: tokens := by
    rw [Scan.drain_eq, Scan.take_succ, hnext]
    exact ⟨_, rfl⟩
  exact ⟨header, tokens, hdrain, hname, hparameters, by rw [hrange], hcovered⟩

-- Commas in quoted runs and brackets, a bare `:`, a `,` behind the last parameter and a return type.
example :
    let none : Spacing := ⟨[], by simp⟩
    let space : Spacing := ⟨[' '], by simp [isSpacing]⟩
    let line : Spacing := ⟨"\n\t".toList, by simp [isSpacing]⟩
    let list : DefaultCode := ⟨"f(a, \",)\\\"\")[1]".toList, by decide, by rintro _ ⟨⟩; decide,
      by rintro _ ⟨⟩; decide, by decide⟩
    let first : WrittenParameter :=
      ⟨⟨['a'], by decide⟩, .typed none space ⟨⟨"Array".toList, by decide⟩,
        some ⟨"ui.Box".toList, by decide⟩⟩, .some space space list⟩
    let second : WrittenParameter := ⟨⟨['b'], by decide⟩, .bare none, .some none none
      ⟨"1".toList, by decide, by rintro _ ⟨⟩; decide, by rintro _ ⟨⟩; decide, by decide⟩⟩
    let f : WrittenFunction := ⟨space, by decide, ⟨"go".toList, by decide⟩, none,
      .some none first [⟨none, space, second⟩] (some none) line,
      .some space space ⟨⟨"int".toList, by decide⟩, .none⟩, none⟩
    f.text = "func go(a: Array[ui.Box] = f(a, \",)\\\"\")[1], b:=1,\n\t) -> int:".toList ∧
      f.parameters.names = [['a'], ['b']] := by
  decide

end NodeMarkup
