import NodeMarkup.Proofs.Grammar.Watched
import NodeMarkup.Proofs.Lexeme.Extent
import NodeMarkup.Proofs.Source.Line
import NodeMarkup.Proofs.Text.Absent
/-!
Code on one line. The code of a value that is written on one line has no line break, however deep the
calls in it are nested, and so have names, classes and the paths of imports.
-/
namespace NodeMarkup

open RuleT

/-- The captures of a frame that has not left the line have no line break. -/
def Watch.onLine (line : Nat) : Watch where
  since c := line ≤ c.line
  within c := c.line ≤ line
  holds t := '\n' ∉ t
  since_of_reaches hreach hc := Nat.le_trans hc hreach.line_le
  within_of_reaches hreach hd := Nat.le_trans hreach.line_le hd
  holds_nil := by simp
  holds_append hs ht := by simp [hs, ht]

/-- A text that is read without leaving the line has no line break, whatever pattern it matches. -/
theorem Watch.takes_onLine (line : Nat) (p : Pattern) : (Watch.onLine line).Takes p ('\n' ∉ ·) := by
  intro c n hc _ hline
  have hstart : line ≤ c.line := hc
  have hstop : (c.advanceBy n).line ≤ line := hline
  rw [Cursor.line_advanceBy] at hstop
  exact List.count_eq_zero.1 (by omega)

theorem Watch.onLine_overValues (line : Nat) :
    (Watch.onLine line).OverValues fun v => '\n' ∉ v.code := by
  have htakes (p : Pattern) :
      (Watch.onLine line).Takes p fun t => (Watch.onLine line).holds t ∧ '\n' ∉ t :=
    fun c n hc hp hline => ⟨takes_onLine line p c n hc hp hline, takes_onLine line p c n hc hp hline⟩
  have hlines (t : Text) : '\n' ∉ Text.quote (Text.foldLines t) :=
    Text.not_mem_quote (Text.not_mem_foldLines t) (by decide) (by decide)
  have htrim (t : Text) (h : '\n' ∉ t) : '\n' ∉ Text.trim t := fun hmem => h (Text.trim_subset t hmem)
  constructor
  case empty => simp
  case lines => exact fun _ t _ _ => ⟨hlines t, hlines t⟩
  case string => exact htakes _
  case number => exact fun p _ => htakes p
  case path => exact htakes _
  case mark => exact fun word _ => takes_onLine line _
  case inner =>
    intro c n hc _ hline
    have hstart : line ≤ c.line := hc
    have hstop : (c.advance.advanceBy n).advance.line ≤ line := hline
    have hclosing := (Cursor.reaches_advance (c.advance.advanceBy n)).line_le
    have hopening := (Cursor.reaches_advance c).line_le
    rw [Cursor.line_advanceBy] at hclosing
    exact List.count_eq_zero.1 (by omega)
  case block => exact fun t h => ⟨htrim t h, htrim t h⟩
  case call => exact fun t h => h

namespace Grammar

variable {c : Cursor}

theorem not_mem_inside {c : Char} {t : Text} (n : Nat) (h : c ∉ t) : c ∉ inside n t :=
  fun hmem => h (List.mem_of_mem_drop (List.mem_of_mem_take hmem))

/-- The code of a value that ends on the line of its place has no line break. -/
theorem reads_flat_value : Reads c value fun v d => d.line ≤ c.line → '\n' ∉ v.code :=
  reads_watched_value (Watch.onLine_overValues c.line) (Nat.le_refl c.line)

end Grammar

/-- Neither the name nor the code of the property has a line break, if it stands on one line. -/
def Property.Flat (p : Property) : Prop :=
  '\n' ∉ p.name ∧ (p.range.stop.line ≤ p.range.start.line → '\n' ∉ p.value.code)

structure Tag.Flat (tag : Tag) : Prop where
  className : '\n' ∉ tag.className
  properties : ∀ p ∈ tag.properties, p.Flat
  -- The closer has no line break in it.
  closer : tag.closer.line = tag.range.stop.line

/-- The texts of the token have no line breaks, those of properties as far as these stand on one
line. -/
def Token.Flat : Token → Prop
  | ofImport i => '\n' ∉ i.className ∧ '\n' ∉ i.path
  | ofVariable _ => True
  | ofFunction _ => True
  | ofTag tag => tag.Flat

theorem Repeats.forall_mem {α : Type} {P : Cursor → α → Cursor → Prop} {Q : α → Prop}
    {c d : Cursor} {values : List α} (hP : ∀ a value b, P a value b → Q value)
    (h : Repeats P c values d) : ∀ value ∈ values, Q value := by
  induction h with
  | nil => simp
  | cons first _ ih => exact List.forall_mem_cons.2 ⟨hP _ _ _ first, ih⟩

namespace Grammar

variable {c : Cursor}

theorem reads_flat_stringLiteral : Reads c stringLiteral fun string _ => '\n' ∉ string.content := by
  apply ((Reads.pattern _).optional (.pattern _)).bind
  intro found d h
  rcases found with _ | raw
  · apply (Reads.pattern _).bind
    rintro _ _ ⟨n, hn, rfl, rfl⟩
    exact .pure (not_mem_inside 1 (Lexeme.not_mem_take_of_lineLiteral hn))
  · exact (Reads.replaceLast _).bind fun _ _ _ => .pure (Text.not_mem_foldLines _)

theorem reads_flat_importToken : Reads c importToken fun token _ => token.Flat := by
  apply (reads_keyword (by simp)).bind
  intro _ _ _
  apply (Reads.required _ structured_symbol.keeps (Reads.pattern _)).bind
  rintro _ _ ⟨n, hn, -, rfl⟩
  apply (Reads.required_reaches _ (structured_keyword _).keeps).bind
  intro _ _ _
  apply (Reads.required _ structured_stringLiteral.keeps reads_flat_stringLiteral).bind
  intro path _ hpath
  exact .pure ⟨Lexeme.avoids_symbol _ n hn, hpath⟩

theorem reads_variableToken_header :
    Reads c variableToken fun token _ => ∃ header, token = .ofVariable header := by
  refine (reads_keyword (by simp)).bind fun _ _ _ => ?_
  refine (reads_declaredName structured_literalValue).bind fun _ _ _ => ?_
  exact (Reads.rangeFrom _).bind fun _ _ _ => .pure ⟨_, rfl⟩

theorem reads_functionToken_header :
    Reads c functionToken fun token _ => ∃ header, token = .ofFunction header := by
  refine (reads_keyword (by simp)).bind fun _ _ _ => ?_
  refine (Reads.framed_reaches structured_symbol.keeps).bind fun _ _ _ => ?_
  refine (Reads.required_reaches _ (Structured.literal _).keeps).bind fun _ _ _ => ?_
  refine reads_parameters.bind fun _ _ _ => ?_
  refine (Reads.required_reaches _ (Structured.literal _).keeps).bind fun _ _ _ => ?_
  refine (Reads.optional_framed_reaches structured_returnType.keeps).bind fun _ _ _ => ?_
  rw [check_then]
  exact (Reads.rangeFrom _).bind fun _ _ _ => .pure ⟨_, rfl⟩

/-- What holds of every header holds of every token if it holds of imports and tags. -/
theorem reads_token_of_parts {Q : Token → Prop} (hvariable : ∀ header, Q (.ofVariable header))
    (hfunction : ∀ header, Q (.ofFunction header))
    (himport : ∀ d, Reads d importToken fun token _ => Q token)
    (htag : ∀ d, Reads d tagToken fun token _ => Q token) :
    Reads c token fun (found : Token) _ => Q found := by
  apply Reads.alt
  · simp [structured_importToken.keeps, structured_variableToken.keeps,
      structured_functionToken.keeps, structured_tagToken.keeps]
  · simp only [List.forall_mem_cons, List.not_mem_nil, false_implies, implies_true, and_true]
    refine ⟨himport _, ?_, ?_, htag _⟩
    · apply reads_variableToken_header.mono
      rintro _ _ ⟨header, rfl⟩
      exact hvariable header
    · apply reads_functionToken_header.mono
      rintro _ _ ⟨header, rfl⟩
      exact hfunction header

theorem reads_flat_property :
    Reads c property fun p d =>
      '\n' ∉ p.name ∧ (d.line ≤ c.line → '\n' ∉ p.value.code) := by
  apply reads_propertyHead.bind
  rintro _ a ⟨n, rest, rfl, hhead⟩
  have hname := Lexeme.avoids_propertyName _ n hhead.name
  have hline := ((Cursor.reaches_advanceBy n c).trans hhead.reaches).line_le
  apply (reads_flat_value.optional staysOnMiss_value).bind
  intro found d hfound
  refine (Reads.requireLast _).bind fun _ _ hd => ?_
  subst hd
  rcases found with _ | value
  · exact .miss
  · simp only [check_then]
    apply (Reads.rangeFrom _).bind
    rintro _ _ ⟨rfl, rfl⟩
    exact .pure ⟨hname, fun h => hfound (Nat.le_trans h hline)⟩

theorem flat_of_stands {p : Property} {d : Cursor} (h : p.Stands c d)
    (hflat : '\n' ∉ p.name ∧ (d.line ≤ c.skipIgnorable.line → '\n' ∉ p.value.code)) : p.Flat := by
  refine ⟨hflat.1, fun hline => hflat.2 ?_⟩
  rwa [h.1] at hline

/-- A word without a line break ends on the line on which it begins. -/
theorem line_behind_word {word : Text} (hw : '\n' ∉ word) (h : word <+: c.rest) :
    (c.advanceBy word.length).line = c.line := by
  rw [Cursor.line_advanceBy, ← List.prefix_iff_eq_take.1 h, List.count_eq_zero_of_not_mem hw,
    Nat.add_zero]

theorem reads_flat_tagToken : Reads c tagToken fun token _ => token.Flat := by
  refine (reads_literals ["</".toList, "<".toList]).bind fun opener _ _ => ?_
  apply (Reads.pattern _).bind
  rintro _ _ ⟨n, hn, -, rfl⟩
  have hproperty (d : Cursor) := (reads_property d).and reads_flat_property
  apply (Reads.many structured_property.keeps hproperty).bind
  intro properties last hproperties
  refine (Reads.ofState _).bind fun ahead _ hd => ?_
  subst hd
  split
  · exact .miss
  · refine (Reads.require _).bind fun _ _ hd => ?_
    subst hd
    apply (reads_literals ["/>".toList, ">".toList]).bind
    rintro closer d ⟨hword, hcloser, hd, hrange⟩
    refine (reads_tagKind opener closer).bind fun kind _ _ => ?_
    split
    · exact .refuse _ _
    · have hbreak : '\n' ∉ closer.text := by
        simp only [List.mem_cons, List.not_mem_nil, or_false] at hword
        rcases hword with hword | hword <;> rw [hword] <;> decide
      refine .pure ⟨Lexeme.avoids_path (by decide) (by decide) _ n hn, ?_, ?_⟩
      · exact hproperties.forall_mem fun _ _ _ h => flat_of_stands h.1 h.2
      · rw [hrange, hd]
        exact (line_behind_word hbreak hcloser).symm

theorem reads_flat_token : Reads c token fun (found : Token) _ => found.Flat :=
  reads_token_of_parts (fun _ => trivial) (fun _ => trivial) (fun _ => reads_flat_importToken)
    fun _ => reads_flat_tagToken

end Grammar

end NodeMarkup
