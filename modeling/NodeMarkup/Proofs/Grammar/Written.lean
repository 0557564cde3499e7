import NodeMarkup.Proofs.Lexeme.Extent
import NodeMarkup.Proofs.Match.Running
import NodeMarkup.Token.Value
/-!
Tags as they are written. A written tag holds its class, its properties and the values of these as
trees, together with all the ignorable text between its parts, so that it has one text; what it means
does not depend on the ignorable text.
-/
namespace NodeMarkup

/-- Text that carries no code, whatever follows: blanks, and comments with the ends of their lines. -/
inductive Ignorable : Text → Prop where
  | nil : Ignorable []
  | blank {c : Char} {t : Text} (isBlank : c = ' ' ∨ c = '\t' ∨ c = '\n' ∨ c = '\r')
      (rest : Ignorable t) : Ignorable (c :: t)
  | comment {words t : Text} (oneLine : '\n' ∉ words) (rest : Ignorable t) :
      Ignorable ('#' :: (words ++ '\n' :: t))

theorem ignorableLength_comment {words : Text} (h : '\n' ∉ words) (t : Text) :
    ignorableLength true (words ++ '\n' :: t) = words.length + 1 + ignorableLength false t := by
  induction words with
  | nil => simp [ignorableLength, Nat.add_comm]
  | cons c words ih =>
    simp only [List.mem_cons, not_or] at h
    have hc : decide (c ≠ '\n') = true := by simpa using Ne.symm h.1
    rw [List.cons_append, ignorableLength, hc, ih h.2, List.length_cons]
    omega

namespace Ignorable

variable {g : Text}

theorem length_append (h : Ignorable g) (t : Text) :
    ignorableLength false (g ++ t) = g.length + ignorableLength false t := by
  induction h with
  | nil => simp
  | @blank c g isBlank _ ih =>
    rw [List.cons_append, ignorableLength, if_pos (by simpa [or_assoc] using isBlank), ih,
      List.length_cons]
    omega
  | @comment words g oneLine _ ih =>
    rw [List.cons_append, ignorableLength, if_neg (by decide), if_pos rfl, List.append_assoc,
      List.cons_append, ignorableLength_comment oneLine, ih]
    simp only [List.length_cons, List.length_append]
    omega

theorem skip_append (h : Ignorable g) (t : Text) :
    Text.skipIgnorable (g ++ t) = Text.skipIgnorable t := by
  unfold Text.skipIgnorable
  rw [h.length_append, ← List.drop_drop, List.drop_left]

theorem skip_append_cons (h : Ignorable g) {c : Char} (hc : isIgnorable c = false) (t : Text) :
    Text.skipIgnorable (g ++ c :: t) = c :: t := by
  rw [h.skip_append, Text.skipIgnorable_of_code hc]

/-- Ignorable text begins with a scalar value that goes on no lexeme and opens no parenthesis. -/
theorem head_apart (h : Ignorable g) : ∀ c ∈ g.head?, isLexemePart c = false ∧ c ≠ '(' := by
  cases h with
  | nil => simp
  | blank isBlank _ =>
    intro d hd
    obtain rfl : _ = d := by simpa using hd
    rcases isBlank with rfl | rfl | rfl | rfl <;> decide
  | comment _ _ =>
    intro d hd
    obtain rfl : '#' = d := by simpa using hd
    decide

end Ignorable

/-- Ignorable text between two parts of a tag. -/
structure Gap where
  text : Text
  ignorable : Ignorable text

/-- A text that a pattern matches as a whole. -/
structure Pattern.Whole (p : Pattern) where
  text : Text
  whole : p text = some text.length

/-- A number in one of its four forms. -/
structure Numeral where
  text : Text
  whole : Lexeme.hexadecimal text = some text.length ∨ Lexeme.binary text = some text.length ∨
    Lexeme.decimal text = some text.length ∨ Lexeme.fraction text = some text.length

/-- What stands between the marks of a literal over several lines. -/
structure LiteralBody where
  text : Text
  unmarked : ¬Lexeme.tripleMark <:+: text
  endsOpen : text.getLast? ≠ some '"'

/-- What stands between the braces of a block. -/
structure BlockBody where
  text : Text
  balanced : Lexeme.blockLength '{' '}' .code 0 (text ++ ['}']) = some text.length

mutual

/-- A value as it is written. -/
inductive WrittenValue where
  | string (literal : Lexeme.lineLiteral.Whole)
  | lines (body : LiteralBody)
  | number (numeral : Numeral)
  | path (name : Lexeme.path.Whole)
  | call (name : Lexeme.path.Whole) (arguments : WrittenArguments) (members : WrittenMembers)
  | block (body : BlockBody)

/-- The arguments of a call with their parentheses. -/
inductive WrittenArguments where
  | none (gap : Gap)
  | some (gap : Gap) (first : WrittenValue) (more : WrittenMore)

/-- What follows an argument through the closing parenthesis. -/
inductive WrittenMore where
  | done (gap : Gap)
  | next (before behind : Gap) (value : WrittenValue) (more : WrittenMore)

/-- The members behind a call. -/
inductive WrittenMembers where
  | nil
  | field (gap : Gap) (name : Lexeme.path.Whole) (more : WrittenMembers)
  | method (gap : Gap) (name : Lexeme.path.Whole) (arguments : WrittenArguments)
      (more : WrittenMembers)

end

mutual

/-- The text of a value. -/
def WrittenValue.text : WrittenValue → Text
  | .string literal => literal.text
  | .lines body => Lexeme.tripleMark ++ body.text ++ Lexeme.tripleMark
  | .number numeral => numeral.text
  | .path name => name.text
  | .call name arguments members => name.text ++ arguments.text ++ members.text
  | .block body => '{' :: (body.text ++ ['}'])

def WrittenArguments.text : WrittenArguments → Text
  | .none gap => '(' :: (gap.text ++ [')'])
  | .some gap first more => '(' :: (gap.text ++ first.text ++ more.text)

def WrittenMore.text : WrittenMore → Text
  | .done gap => gap.text ++ [')']
  | .next before behind value more =>
    before.text ++ ',' :: (behind.text ++ value.text ++ more.text)

def WrittenMembers.text : WrittenMembers → Text
  | .nil => []
  | .field gap name more => gap.text ++ '.' :: (name.text ++ more.text)
  | .method gap name arguments more =>
    gap.text ++ '.' :: (name.text ++ arguments.text ++ more.text)

end

mutual

/-- The code that a value stands for. The ignorable text in calls is dropped, literals over several
lines are folded into one line, and blocks lose their braces. -/
def WrittenValue.code : WrittenValue → Text
  | .string literal => literal.text
  | .lines body => Text.quote (Text.foldLines body.text)
  | .number numeral => numeral.text
  | .path name => name.text
  | .call name arguments members => name.text ++ arguments.code ++ members.code
  | .block body => Text.trim body.text

def WrittenArguments.code : WrittenArguments → Text
  | .none _ => "()".toList
  | .some _ first more => '(' :: (first.code ++ more.code)

def WrittenMore.code : WrittenMore → Text
  | .done _ => [')']
  | .next _ _ value more => ',' :: (value.code ++ more.code)

def WrittenMembers.code : WrittenMembers → Text
  | .nil => []
  | .field _ name more => '.' :: (name.text ++ more.code)
  | .method _ name arguments more => '.' :: (name.text ++ arguments.code ++ more.code)

end

def WrittenValue.kind : WrittenValue → ValueKind
  | .string _ => .string
  | .lines _ => .string
  | .number _ => .number
  | .path _ => .symbol
  | .call _ _ _ => .call
  | .block _ => .block

/-- The value that is meant. -/
def WrittenValue.value (v : WrittenValue) : Value := ⟨v.kind, v.code⟩

/-- A property with the ignorable text before it, which is not empty, and around its `=`. -/
structure WrittenProperty where
  gap : Gap
  gap_ne_nil : gap.text ≠ []
  name : Lexeme.propertyName.Whole
  before : Gap
  behind : Gap
  value : WrittenValue

def WrittenProperty.text (p : WrittenProperty) : Text :=
  p.gap.text ++ p.name.text ++ p.before.text ++ "=".toList ++ p.behind.text ++ p.value.text

/-- An opening tag, or a tag without a body. -/
structure WrittenTag where
  className : Lexeme.path.Whole
  properties : List WrittenProperty
  gap : Gap
  -- Whether the tag ends in `/>`.
  single : Bool

def WrittenTag.closer (tag : WrittenTag) : Text := if tag.single then "/>".toList else ">".toList

def WrittenTag.text (tag : WrittenTag) : Text :=
  '<' :: (tag.className.text ++ (tag.properties.map WrittenProperty.text).flatten ++ tag.gap.text
    ++ tag.closer)

/-- The text can follow a value: it goes on no lexeme, calls no name and gives no member. -/
structure Text.Behind (rest : Text) : Prop where
  apart : rest.Apart
  notCall : rest.head? ≠ some '('
  notMember : (Text.skipIgnorable rest).head? ≠ some '.'

/-- Ignorable text, and then code that can follow a value or is held off by it. -/
theorem Gap.behind (gap : Gap) {c : Char} (hc : isIgnorable c = false) (hdot : c ≠ '.')
    (h : (isLexemePart c = false ∧ c ≠ '(') ∨ gap.text ≠ []) (t : Text) :
    Text.Behind (gap.text ++ c :: t) := by
  have hhead : ∀ d ∈ (gap.text ++ c :: t).head?, isLexemePart d = false ∧ d ≠ '(' := by
    intro d hd
    cases hgap : gap.text with
    | nil =>
      obtain rfl : c = d := by simpa [hgap] using hd
      exact h.resolve_right fun hne => hne hgap
    | cons b rest =>
      obtain rfl : b = d := by simpa [hgap] using hd
      exact gap.ignorable.head_apart b (by simp [hgap])
  refine ⟨fun d hd => (hhead d hd).1, fun hd => (hhead '(' hd).2 rfl, ?_⟩
  rw [gap.ignorable.skip_append_cons hc]
  simpa using hdot

theorem Pattern.Whole.head_of_one {p : Char → Bool} {q : Pattern}
    (w : (Pattern.andThen (.one p) q).Whole) : ∃ c t, w.text = c :: t ∧ p c := by
  have h := w.whole
  cases ht : w.text with
  | nil => simp [ht, Pattern.andThen, Pattern.one] at h
  | cons c t =>
    refine ⟨c, t, rfl, ?_⟩
    cases hp : p c with
    | true => rfl
    | false => simp [ht, Pattern.andThen, Pattern.one, hp] at h

theorem Numeral.number (n : Numeral) : Lexeme.number n.text = some n.text.length := by
  rcases n.whole with h | h | h | h
  · exact Lexeme.number_of_hexadecimal h
  · exact Lexeme.number_of_binary h
  · exact Lexeme.number_of_decimal h
  · exact Lexeme.number_of_fraction h

/-- The scalar values of a class without blanks and marks begin code that is no literal. -/
theorem beginsCode_of_class {p : Char → Bool} {c : Char} (h : p c)
    (hp : [' ', '\t', '\n', '\r', '#', '"', '\''].all fun d => !p d) :
    isIgnorable c = false ∧ Text.isQuote c = false := by
  have hne (d : Char) (hd : d ∈ [' ', '\t', '\n', '\r', '#', '"', '\'']) : c ≠ d := by
    rintro rfl
    have hnot := List.all_eq_true.1 hp c hd
    simp [h] at hnot
  simp only [List.forall_mem_cons, List.not_mem_nil, false_implies, implies_true, and_true] at hne
  simp [isIgnorable, Text.isQuote, hne]

theorem Numeral.head (n : Numeral) :
    ∃ c t, n.text = c :: t ∧ isIgnorable c = false ∧ Text.isQuote c = false := by
  have h := n.number
  cases ht : n.text with
  | nil =>
    rw [ht, Lexeme.number_eq_none (by simp)] at h
    simp at h
  | cons c t =>
    refine ⟨c, t, rfl, ?_⟩
    by_cases hc : Lexeme.isSign c || c.isDigit
    · exact beginsCode_of_class (p := fun c => Lexeme.isSign c || c.isDigit) hc (by decide)
    · have hnone : Lexeme.number n.text = none := by
        apply Lexeme.number_eq_none
        rw [ht]
        intro d hd
        obtain rfl : c = d := by simpa using hd
        simpa using hc
      simp [hnone] at h

/-- A scalar value that begins code, but neither a literal nor a number. -/
structure BeginsOther (c : Char) : Prop where
  code : isIgnorable c = false
  quote : Text.isQuote c = false
  sign : Lexeme.isSign c = false
  digit : c.isDigit = false

theorem beginsOther_of_isSymbolStart {c : Char} (h : Lexeme.isSymbolStart c) : BeginsOther c := by
  have hne (d : Char) (hd : Lexeme.isSymbolStart d = false) : c ≠ d := by
    rintro rfl
    simp [h] at hd
  have hdigit : c.isDigit = false := by
    unfold Lexeme.isSymbolStart Char.isAlpha Char.isUpper Char.isLower at h
    unfold Char.isDigit
    simp only [Bool.or_eq_true, Bool.and_eq_true, decide_eq_true_eq, Bool.and_eq_false_iff,
      decide_eq_false_iff_not, UInt32.le_iff_toNat_le, ge_iff_le] at h ⊢
    rcases h with (h | h) | rfl
    · exact .inr (by change 65 ≤ _ ∧ _ at h; change ¬_ ≤ 57; omega)
    · exact .inr (by change 97 ≤ _ ∧ _ at h; change ¬_ ≤ 57; omega)
    · exact .inr (by decide)
  obtain ⟨hcode, hquote⟩ := beginsCode_of_class h (by decide)
  refine ⟨hcode, hquote, ?_, hdigit⟩
  simp [Lexeme.isSign, hne '+' (by decide), hne '-' (by decide)]

theorem Text.skipIgnorable_append {w t : Text} {c : Char} (hw : w = c :: t)
    (hc : isIgnorable c = false) (rest : Text) : Text.skipIgnorable (w ++ rest) = w ++ rest := by
  rw [hw, List.cons_append, Text.skipIgnorable_of_code hc]

theorem Pattern.Whole.skip_append {q : Pattern}
    (name : (Pattern.andThen (.one Lexeme.isSymbolStart) q).Whole) (t : Text) :
    Text.skipIgnorable (name.text ++ t) = name.text ++ t := by
  obtain ⟨c, w, hw, hc⟩ := name.head_of_one
  exact Text.skipIgnorable_append hw (beginsOther_of_isSymbolStart hc).code t

/-- Text behind a gap that is not empty goes on nothing before it. -/
theorem Gap.apart_of_ne_nil (gap : Gap) (hgap : gap.text ≠ []) (t : Text) :
    Text.Apart (gap.text ++ t) ∧ (gap.text ++ t).head? ≠ some '(' := by
  have hhead := gap.ignorable.head_apart
  cases htext : gap.text with
  | nil => exact absurd htext hgap
  | cons c rest =>
    have hc := hhead c (by simp [htext])
    refine ⟨?_, by simpa using hc.2⟩
    intro d hd
    obtain rfl : c = d := by simpa using hd
    exact hc.1

theorem WrittenArguments.apart (a : WrittenArguments) (rest : Text) : Text.Apart (a.text ++ rest) := by
  have hopen : ∃ t, a.text = '(' :: t := by
    cases a with
    | none gap => exact ⟨_, rfl⟩
    | some gap first more => exact ⟨_, rfl⟩
  obtain ⟨t, ht⟩ := hopen
  intro c hc
  obtain rfl : '(' = c := by simpa [ht] using hc
  decide

theorem WrittenMore.behind (m : WrittenMore) (rest : Text) : Text.Behind (m.text ++ rest) := by
  cases m with
  | done gap =>
    rw [WrittenMore.text, List.append_assoc]
    exact gap.behind (by decide) (by decide) (.inl (by decide)) _
  | next before behind value more =>
    rw [WrittenMore.text, List.append_assoc]
    exact before.behind (by decide) (by decide) (.inl (by decide)) _

theorem Pattern.Whole.head_literal (literal : Lexeme.lineLiteral.Whole) :
    ∃ c t, literal.text = c :: t ∧ isIgnorable c = false := by
  obtain ⟨c, t, ht, hc⟩ := Lexeme.head_of_lineLiteral literal.whole
  exact ⟨c, t, ht, by rcases hc with rfl | rfl <;> decide⟩

/-- A value begins with code. -/
theorem WrittenValue.skip_append (v : WrittenValue) (rest : Text) :
    Text.skipIgnorable (v.text ++ rest) = v.text ++ rest := by
  cases v with
  | string literal =>
    obtain ⟨c, t, ht, hc⟩ := literal.head_literal
    exact Text.skipIgnorable_append ht hc rest
  | lines body => exact Text.skipIgnorable_append rfl (by decide) rest
  | number numeral =>
    obtain ⟨c, t, ht, hc, -⟩ := numeral.head
    exact Text.skipIgnorable_append ht hc rest
  | path name => exact name.skip_append rest
  | call name arguments members =>
    rw [WrittenValue.text, List.append_assoc, List.append_assoc]
    exact name.skip_append _
  | block body => exact Text.skipIgnorable_of_code (by decide)

end NodeMarkup
