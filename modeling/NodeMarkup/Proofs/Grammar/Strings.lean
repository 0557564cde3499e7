import NodeMarkup.Proofs.Draft.Splice
import NodeMarkup.Proofs.Grammar.Flat
import NodeMarkup.Proofs.Grammar.Values
import NodeMarkup.Proofs.Text.Quoted
import NodeMarkup.Proofs.Token.Scan
/-!
String literals of a source: where they are written, and what is taken over from them. A literal on
one line is taken over as it stands; of a literal over several lines, the text between its marks is
folded into one line and quoted.
-/
namespace NodeMarkup

open RuleT

/-- The text `w` stands from `c` to `d`. -/
def Cursor.Spells (c : Cursor) (w : Text) (d : Cursor) : Prop := c.Reaches d ∧ c.rest = w ++ d.rest

namespace Cursor

variable {c d e : Cursor} {v w : Text}

theorem Spells.append (h : c.Spells v d) (h' : d.Spells w e) : c.Spells (v ++ w) e :=
  ⟨h.1.trans h'.1, by rw [h.2, h'.2, List.append_assoc]⟩

theorem Spells.text (h : c.Spells w d) : Range.text ⟨c, d⟩ = w := by
  simp [Range.text, h.2]

theorem spells_advanceBy (n : Nat) (c : Cursor) : c.Spells (c.rest.take n) (c.advanceBy n) :=
  ⟨reaches_advanceBy n c, by rw [rest_advanceBy, List.take_append_drop]⟩

theorem spells_word (h : w <+: c.rest) : c.Spells w (c.advanceBy w.length) := by
  have hspells := c.spells_advanceBy w.length
  rwa [← List.prefix_iff_eq_take.1 h] at hspells

end Cursor

/-- Ignorable text before code is ignorable whatever follows. What is left of a comment runs to the end
of its line, and what follows there is ignorable too. -/
theorem ignorable_take {t : Text} :
    (t.drop (ignorableLength false t) ≠ [] → Ignorable (t.take (ignorableLength false t))) ∧
    (t.drop (ignorableLength true t) ≠ [] → ∃ words g, '\n' ∉ words ∧ Ignorable g ∧
      t.take (ignorableLength true t) = words ++ '\n' :: g) := by
  induction t with
  | nil => simp
  | cons c t ih =>
    obtain ⟨hcode, hcomment⟩ := ih
    constructor
    · rw [ignorableLength]
      split
      · next hblank =>
        intro h
        simp only [Bool.or_eq_true, decide_eq_true_eq, or_assoc] at hblank
        exact .blank hblank (hcode h)
      · split
        · next hhash =>
          intro h
          obtain ⟨words, g, hwords, hg, htake⟩ := hcomment h
          rw [List.take_succ_cons, htake, hhash]
          exact .comment hwords hg
        · intro _
          exact .nil
    · rw [ignorableLength]
      by_cases hc : c = '\n'
      · subst hc
        intro h
        exact ⟨[], _, by simp, hcode h, rfl⟩
      · rw [show decide (c ≠ '\n') = true by simpa using hc]
        intro h
        obtain ⟨words, g, hwords, hg, htake⟩ := hcomment h
        refine ⟨c :: words, g, by simp [Ne.symm hc, hwords], hg, ?_⟩
        rw [List.take_succ_cons, htake]
        rfl

theorem Cursor.spells_skipIgnorable {c : Cursor} (h : c.skipIgnorable.rest ≠ []) :
    ∃ g, Ignorable g ∧ c.Spells g c.skipIgnorable := by
  rw [rest_skipIgnorable] at h
  exact ⟨_, ignorable_take.1 h, c.spells_advanceBy _⟩

namespace Lexeme

variable {mark : Char} {t : Text} {n : Nat}

theorem literalTail_take (hm : mark ≠ '\\') (h : literalTail mark t = some n) :
    literalTail mark (t.take n) = some n := by
  fun_induction literalTail mark t generalizing n with
  | case1 => simp at h
  | case2 => simp at h
  | case3 c t hc ih =>
    obtain ⟨k, hk, rfl⟩ := Option.map_eq_some_iff.1 h
    rw [List.take_succ_cons, List.take_succ_cons, literalTail, if_neg hc, ih hk]
    rfl
  | case4 t =>
    obtain rfl : 1 = n := by simpa using h
    simp [literalTail_cons hm]
  | case5 => simp at h
  | case6 c t _ hc hbreak ih =>
    obtain ⟨k, hk, rfl⟩ := Option.map_eq_some_iff.1 h
    simp only [Bool.or_eq_true, decide_eq_true_eq, not_or] at hbreak
    rw [List.take_succ_cons, literalTail_cons hbreak.1, if_neg hc, if_neg hbreak.2, ih hk]
    rfl

/-- A literal on one line is one by itself. -/
theorem lineLiteral_take (h : lineLiteral t = some n) :
    lineLiteral (t.take n) = some (t.take n).length := by
  have hle := lineLiteral_le h
  cases t with
  | nil => cases h
  | cons c t =>
    simp only [lineLiteral, Option.ite_none_right_eq_some] at h
    obtain ⟨hc, h⟩ := h
    obtain ⟨k, hk, rfl⟩ := Option.map_eq_some_iff.1 h
    have hm : c ≠ '\\' := by
      rintro rfl
      simp at hc
    rw [List.length_take_of_le hle, List.take_succ_cons, lineLiteral, if_pos hc,
      literalTail_take hm hk]
    rfl

theorem tripleLiteral_mark (u : Text) :
    tripleLiteral (tripleMark ++ u) =
      (Text.indexOf? tripleMark u).map fun i => tripleMark.length + (i + tripleMark.length) := by
  simp only [tripleLiteral, Pattern.andThen, Pattern.word_append, Option.bind_eq_bind,
    Option.bind_some, List.drop_left]
  cases Text.indexOf? tripleMark u <;> rfl

theorem indexOf?_of_append {wanted body rest : Text} (hw : wanted ≠ [])
    (h : Text.indexOf? wanted (body ++ wanted ++ rest) = some body.length) :
    Text.indexOf? wanted (body ++ wanted) = some body.length := by
  induction body with
  | nil =>
    cases wanted with
    | nil => exact absurd rfl hw
    | cons c wanted => simp [Text.indexOf?]
  | cons c body ih =>
    rw [List.cons_append, List.cons_append, Text.indexOf?] at h
    split at h
    · simp at h
    · next hmatch =>
      obtain ⟨k, hk, hlength⟩ := Option.map_eq_some_iff.1 h
      obtain rfl : k = body.length := by simpa using hlength
      -- what does not begin the longer text does not begin the shorter one
      have hshort : ¬wanted.isPrefixOf (c :: (body ++ wanted)) := by
        rw [List.isPrefixOf_iff_prefix] at hmatch ⊢
        exact fun hbegins => hmatch (hbegins.trans ⟨rest, by simp⟩)
      rw [List.cons_append, Text.indexOf?, if_neg hshort, ih hk]
      rfl

/-- A literal over several lines is one by itself. -/
theorem tripleLiteral_take (h : tripleLiteral t = some n) :
    tripleLiteral (t.take n) = some (t.take n).length := by
  obtain ⟨body, rest, rfl, rfl⟩ := eq_of_tripleLiteral h
  have hmark : tripleMark ++ body ++ tripleMark ++ rest =
      tripleMark ++ (body ++ tripleMark ++ rest) := by simp only [List.append_assoc]
  rw [hmark, tripleLiteral_mark] at h
  obtain ⟨i, hi, hlength⟩ := Option.map_eq_some_iff.1 h
  obtain rfl : i = body.length := by
    simp only [List.length_append] at hlength
    omega
  have hindex := indexOf?_of_append (by decide) hi
  rw [List.take_left, List.append_assoc, tripleLiteral_mark, hindex]
  simp

end Lexeme

/-- What stands between the marks of a literal. -/
def literalBody (literal : Text) : Text :=
  if Lexeme.tripleMark.isPrefixOf literal then Grammar.inside Lexeme.tripleMark.length literal
  else Grammar.inside 1 literal

/-- What a literal stands for: its body without the backslashes that hide a backslash or a quote. -/
def literalMeaning (literal : Text) : Text := Text.unescape (literalBody literal)

theorem literalBody_quote (t : Text) : literalBody (Text.quote t) = Text.escape t := by
  have hnot : Lexeme.tripleMark.isPrefixOf (Text.quote t) = false := by
    cases t with
    | nil => rfl
    | cons c t =>
      rw [Text.quote, Text.escape]
      split
      · rfl
      · next hc =>
        simp only [Bool.or_eq_true, decide_eq_true_eq, not_or] at hc
        simp [Lexeme.tripleMark, List.isPrefixOf, Ne.symm hc.1]
  rw [literalBody, hnot]
  simp [Grammar.inside, Text.quote]

/-- A quoted text stands for that text. -/
theorem literalMeaning_quote (t : Text) : literalMeaning (Text.quote t) = t := by
  rw [literalMeaning, literalBody_quote, Text.unescape_escape]

/-- What is taken over from the literal of a source: its content, and the code that is written for it. -/
inductive Taken (literal : Text) : Text → Text → Prop where
  | line (whole : Lexeme.lineLiteral literal = some literal.length) :
      Taken literal (literalBody literal) literal
  | lines (whole : Lexeme.tripleLiteral literal = some literal.length) :
      Taken literal (Text.foldLines (literalBody literal))
        (Text.quote (Text.foldLines (literalBody literal)))

namespace Grammar

variable {c : Cursor}

theorem not_isPrefixOf_of_lineLiteral {literal : Text}
    (h : Lexeme.lineLiteral literal = some literal.length) :
    ¬Lexeme.tripleMark.isPrefixOf literal := by
  have hmark : ¬Lexeme.tripleMark <+: literal ++ [] := Lexeme.not_tripleMark_begins h (by simp)
  rwa [List.isPrefixOf_iff_prefix, ← List.append_nil literal]

theorem isPrefixOf_of_tripleLiteral {literal : Text}
    (h : Lexeme.tripleLiteral literal = some literal.length) :
    Lexeme.tripleMark.isPrefixOf literal := by
  obtain ⟨body, rest, htext, -⟩ := Lexeme.eq_of_tripleLiteral h
  rw [List.isPrefixOf_iff_prefix, htext, List.append_assoc, List.append_assoc]
  exact List.prefix_append _ _

/-- A string literal is taken over from the text that it covers. -/
theorem reads_taken_stringLiteral :
    Reads c stringLiteral fun string d => ∃ literal, c.Spells literal d ∧ c.rest ≠ [] ∧
      string.range = ⟨c, d⟩ ∧ Taken literal string.content string.code := by
  apply ((Reads.pattern _).optional (.pattern _)).bind
  intro found d h
  rcases found with _ | raw
  · obtain rfl : d = c := h
    apply (Reads.pattern _).bind
    rintro _ _ ⟨n, hn, rfl, rfl⟩
    have hwhole := Lexeme.lineLiteral_take hn
    have htaken := Taken.line hwhole
    rw [literalBody, if_neg (not_isPrefixOf_of_lineLiteral hwhole)] at htaken
    refine .pure ⟨_, d.spells_advanceBy n, ?_, rfl, htaken⟩
    intro hnil
    rw [hnil] at hn
    cases hn
  · obtain ⟨n, hn, rfl, rfl⟩ := h
    have hwhole := Lexeme.tripleLiteral_take hn
    have htaken := Taken.lines hwhole
    rw [literalBody, if_pos (isPrefixOf_of_tripleLiteral hwhole)] at htaken
    apply (Reads.replaceLast _).bind
    rintro _ _ rfl
    refine .pure ⟨_, c.spells_advanceBy n, ?_, rfl, htaken⟩
    intro hnil
    rw [hnil] at hn
    cases hn

/-- A value that is a string literal is taken over from the text that it covers. -/
def TakenValue (c : Cursor) (v : Value) (d : Cursor) : Prop :=
  v.kind = .string → ∃ literal content, c.skipIgnorable.Spells literal d ∧
    c.skipIgnorable.rest ≠ [] ∧ Taken literal content v.code

theorem reads_taken_literalValue : Reads c literalValue (TakenValue c) := by
  apply ((Reads.framed structured_stringLiteral.keeps reads_taken_stringLiteral).optional
    (.framed structured_stringLiteral.keeps)).bind
  intro found d h
  rcases found with _ | string
  · have hnumber : ∀ branch ∈ [pattern Lexeme.fraction, integer], Keeps branch := by
      simp [(Structured.pattern _).keeps, structured_integer.keeps]
    apply (Reads.of_keepsNegation (Keeps.alt hnumber) (.alt hnumber)).bind
    intro _ _ _
    exact .pure fun hkind => by cases hkind
  · obtain ⟨literal, hspells, hne, -, htaken⟩ := h
    exact .pure fun _ => ⟨literal, _, hspells, hne, htaken⟩

theorem takenValue_skipIgnorable (c : Cursor) : TakenValue c.skipIgnorable = TakenValue c := by
  funext v d
  simp only [TakenValue, Cursor.skipIgnorable_skipIgnorable]

/-- Calls, paths and blocks are no literals. -/
theorem reads_taken_valueBranches (n : Nat) :
    ∀ branch ∈ [literalValue, callValue (valueWithin n), pathValue, blockValue],
      Reads c branch (TakenValue c) := by
  simp only [List.forall_mem_cons, List.not_mem_nil, false_implies, implies_true, and_true]
  refine ⟨reads_taken_literalValue, ?_, ?_, ?_⟩
  · have hv := structured_valueWithin n
    have hbody := structured_callBody hv
    apply (Reads.of_keepsNegation hbody.keeps.scope (.scope hbody.keeps)).bind
    intro _ _ _
    exact .pure fun hkind => by cases hkind
  · apply (Reads.pattern _).bind
    intro _ _ _
    exact .pure fun hkind => by cases hkind
  · apply (Reads.delimited _ _).bind
    intro _ _ _
    apply (Reads.replaceLast _).bind
    intro _ _ _
    exact .pure fun hkind => by cases hkind

theorem reads_taken_value : Reads c value (TakenValue c) := by
  intro e hc hn
  rw [result_value]
  have hbranches := reads_taken_valueBranches (c := c.skipIgnorable) e.cursor.rest.length
  rw [takenValue_skipIgnorable] at hbranches
  exact Reads.alt (keeps_valueBranches _) hbranches e hc hn

end Grammar

/-- The text of the property is its name, a `=` and the literal, with ignorable text between them. -/
def Property.Holds (p : Property) (literal : Text) : Prop :=
  ∃ before behind, Ignorable before ∧ Ignorable behind ∧
    p.range.text = p.name ++ before ++ "=".toList ++ behind ++ literal

/-- The text of the import is its keyword, its name, the word `from` and the literal, with ignorable
text between them. -/
def Import.Holds (i : Import) (literal : Text) : Prop :=
  ∃ before between behind, Ignorable before ∧ Ignorable between ∧ Ignorable behind ∧
    i.range.text = "import".toList ++ before ++ i.className ++ between ++ "from".toList ++ behind
      ++ literal

/-- The string literals of a token stand in its text, and are taken over from there. -/
def Token.HoldsStrings : Token → Prop
  | .ofTag tag => ∀ p ∈ tag.properties, p.value.kind = .string →
      ∃ literal content, p.Holds literal ∧ Taken literal content p.value.code
  | .ofImport i => ∃ literal code, i.Holds literal ∧ Taken literal i.path code
  | .ofVariable _ => True
  | .ofFunction _ => True

namespace Grammar

variable {c : Cursor}

theorem spells_gap_word {word : Text} (hw : word ≠ []) (h : word <+: c.skipIgnorable.rest) :
    ∃ g, Ignorable g ∧ c.Spells (g ++ word) (c.skipIgnorable.advanceBy word.length) := by
  have hne : c.skipIgnorable.rest ≠ [] := by
    intro hnil
    rw [hnil, List.prefix_nil] at h
    exact hw h
  obtain ⟨g, hg, hspells⟩ := Cursor.spells_skipIgnorable hne
  exact ⟨g, hg, hspells.append (Cursor.spells_word h)⟩

theorem reads_taken_property :
    Reads c property fun p _ => p.value.kind = .string →
      ∃ literal content, p.Holds literal ∧ Taken literal content p.value.code := by
  apply reads_propertyHead.bind
  rintro _ _ ⟨n, rest, rfl, ⟨-, hword, rfl⟩⟩
  obtain ⟨before, hbefore, hsign⟩ := spells_gap_word (by decide) hword
  have hspells := (c.spells_advanceBy n).append hsign
  apply (reads_taken_value.optional staysOnMiss_value).bind
  intro found b hvalue
  apply (Reads.requireLast _).bind
  rintro _ _ rfl
  cases found with
  | none => exact .miss
  | some v =>
    simp only [check_then]
    apply (Reads.rangeFrom _).bind
    rintro _ _ ⟨rfl, rfl⟩
    refine .pure fun hkind => ?_
    obtain ⟨literal, content, hliteral, hne, htaken⟩ := hvalue hkind
    obtain ⟨behind, hbehind, hgap⟩ := Cursor.spells_skipIgnorable hne
    refine ⟨literal, content, ⟨before, behind, hbefore, hbehind, ?_⟩, htaken⟩
    have htext := ((hspells.append hgap).append hliteral).text
    simpa only [List.append_assoc] using htext

theorem reads_taken_tagToken : Reads c tagToken fun token _ => token.HoldsStrings := by
  refine (reads_literals ["</".toList, "<".toList]).bind fun opener _ _ => ?_
  refine (Reads.pattern _).bind fun _ _ _ => ?_
  apply (Reads.many structured_property.keeps fun _ => reads_taken_property).bind
  intro properties last hproperties
  refine (Reads.ofState _).bind fun ahead _ _ => ?_
  split
  · exact .miss
  · refine (Reads.require _).bind fun _ _ _ => ?_
    refine (reads_literals ["/>".toList, ">".toList]).bind fun closer _ _ => ?_
    refine (reads_tagKind opener closer).bind fun kind _ _ => ?_
    split
    · exact .refuse _ _
    · exact .pure (hproperties.forall_mem fun _ _ _ h => h)

theorem reads_spells_keyword (word : Text) :
    Reads c (keyword word) fun capture d =>
      word <+: c.rest ∧ d = c.advanceBy word.length ∧ capture.range.start = c := by
  apply (Reads.literal word).bind
  rintro _ _ ⟨hp, rfl, rfl⟩
  exact Reads.negated fun _ => .pure ⟨hp, rfl, rfl⟩

theorem reads_taken_importToken : Reads c importToken fun token _ => token.HoldsStrings := by
  apply (reads_spells_keyword _).bind
  rintro start _ ⟨hword, rfl, hstart⟩
  have hkeyword := Cursor.spells_word hword
  apply (Reads.required _ structured_symbol.keeps (Reads.pattern _)).bind
  rintro _ _ ⟨n, hn, rfl, rfl⟩
  obtain ⟨before, hbefore, hgap⟩ := Cursor.spells_skipIgnorable (Pattern.andThen_one_pos hn).2
  have hname := hgap.append (Cursor.spells_advanceBy n _)
  apply (Reads.required _ (structured_keyword _).keeps (reads_spells_keyword _)).bind
  rintro _ _ ⟨hword', rfl, -⟩
  obtain ⟨between, hbetween, hfrom⟩ := spells_gap_word (by decide) hword'
  apply (Reads.required _ structured_stringLiteral.keeps reads_taken_stringLiteral).bind
  rintro path d ⟨literal, hliteral, hne, hrange, htaken⟩
  obtain ⟨behind, hbehind, hgap'⟩ := Cursor.spells_skipIgnorable hne
  refine .pure ⟨literal, path.code,
    ⟨before, between, behind, hbefore, hbetween, hbehind, ?_⟩, htaken⟩
  have htext := ((((hkeyword.append hname).append hfrom).append hgap').append hliteral).text
  simpa only [hstart, hrange, List.append_assoc] using htext

theorem reads_taken_token : Reads c token fun (found : Token) _ => found.HoldsStrings :=
  reads_token_of_parts (fun _ => trivial) (fun _ => trivial) (fun _ => reads_taken_importToken)
    fun _ => reads_taken_tagToken

end Grammar

/-- Every string literal that a scan yields stands in the source, and is taken over from there. -/
theorem Scan.holdsStrings_drain (source : Text) :
    ∀ token ∈ (Scan.start source).drain.1, token.HoldsStrings :=
  Scan.forall_mem_drain (fun _ => Grammar.reads_taken_token) source

end NodeMarkup
