import NodeMarkup.Proofs.Grammar.Structured
import NodeMarkup.Proofs.Match.Reading
import NodeMarkup.Token.Scan
/-!
Where the tokens of the grammar stand. A token begins where its rule begins, behind the ignorable
text, and ends where its rule stops; the properties of a tag stand one behind the other between its
class and its closer.
-/
namespace NodeMarkup

theorem Pattern.andThen_one_pos {p : Char → Bool} {q : Pattern} {t : Text} {n : Nat}
    (h : Pattern.andThen (.one p) q t = some n) : 0 < n ∧ t ≠ [] := by
  unfold Pattern.andThen at h
  simp only [Option.bind_eq_bind, Option.bind_eq_some_iff] at h
  obtain ⟨k, hk, m, -, hn⟩ := h
  cases t with
  | nil => simp [Pattern.one] at hk
  | cons c rest =>
    have h1 : 1 = k := by
      simp only [Pattern.one, Option.ite_none_right_eq_some, Option.some.injEq] at hk
      exact hk.2
    have hn' : k + m = n := by simpa using hn
    exact ⟨by omega, by simp⟩

/-- A property stands behind the ignorable text at `c` and reaches through `d`. -/
def Property.Stands (c : Cursor) (property : Property) (d : Cursor) : Prop :=
  property.range = ⟨c.skipIgnorable, d⟩ ∧ c.skipIgnorable.Reaches d ∧
    c.skipIgnorable.position < d.position

theorem Property.Stands.reaches {c d : Cursor} {property : Property} (h : property.Stands c d) :
    c.Reaches d :=
  (Cursor.reaches_skipIgnorable c).trans h.2.1

/-- The delimiter at the start of a tag. -/
def Tag.opener (tag : Tag) : Text := if tag.kind = .closing then "</".toList else "<".toList

/-- A tag begins at `c` and reaches through `d`. -/
structure Tag.Stands (c : Cursor) (tag : Tag) (d : Cursor) : Prop where
  range : tag.range = ⟨c, d⟩
  -- The class stands directly behind the opener.
  head : tag.opener ++ tag.className <+: c.rest
  -- The properties stand behind the class, and the closer behind them.
  body : ∃ last,
    Repeats Property.Stands (c.advanceBy (tag.opener ++ tag.className).length) tag.properties last ∧
      tag.closer = last.skipIgnorable
  closer_reaches : tag.closer.Reaches d
  closer_lt : tag.closer.position < d.position
  -- A closing tag has no properties.
  closing : tag.kind = .closing → tag.properties = []

/-- A token begins at `c` and reaches through `d`. -/
structure Token.Stands (c : Cursor) (token : Token) (d : Cursor) : Prop where
  range : token.range = ⟨c, d⟩
  lt : c.position < d.position
  tag : ∀ tag, token = .ofTag tag → tag.Stands c d

theorem Token.Stands.ofTag {c d : Cursor} {tag : Tag} (h : tag.Stands c d)
    (hlt : c.position < d.position) : (Token.ofTag tag).Stands c d := by
  refine ⟨h.range, hlt, ?_⟩
  intro other hother
  cases hother
  exact h

namespace Grammar

open RuleT

variable {c : Cursor}

theorem position_lt_behind_word {word : Text} (hw : word ≠ []) (h : word <+: c.rest) :
    c.position < (c.advanceBy word.length).position := by
  apply Cursor.position_lt_advanceBy (List.length_pos_iff.2 hw)
  intro hnil
  rw [hnil, List.prefix_nil] at h
  exact hw h

theorem reads_keyword {word : Text} (hw : word ≠ []) :
    Reads c (keyword word) fun capture d =>
      c.position < d.position ∧ capture = ⟨word, ⟨c, d⟩⟩ := by
  apply (Reads.literal word).bind
  intro _ _ hread
  obtain ⟨hp, rfl, rfl⟩ := hread
  exact Reads.negated fun _ => .pure ⟨position_lt_behind_word hw hp, rfl⟩

theorem reads_stringLiteral :
    Reads c stringLiteral fun string d => string.range = ⟨c, d⟩ ∧ c.Reaches d := by
  apply ((Reads.pattern _).optional (.pattern _)).bind
  intro found d h
  rcases found with _ | raw
  · obtain rfl : d = c := h
    apply (Reads.pattern _).bind
    intro _ _ hread
    obtain ⟨n, -, rfl, rfl⟩ := hread
    exact .pure ⟨rfl, Cursor.reaches_advanceBy n _⟩
  · obtain ⟨n, -, rfl, rfl⟩ := h
    apply (Reads.replaceLast _).bind
    intro _ _ hd
    subst hd
    exact .pure ⟨rfl, Cursor.reaches_advanceBy n c⟩

theorem reads_importToken : Reads c importToken fun token d => token.Stands c d := by
  apply (reads_keyword (by simp)).bind
  intro _ a hread
  obtain ⟨hlt, rfl⟩ := hread
  apply (Reads.required_reaches _ structured_symbol.keeps).bind
  intro name b hab
  apply (Reads.required_reaches _ (structured_keyword _).keeps).bind
  intro _ d hbd
  apply (Reads.required _ structured_stringLiteral.keeps reads_stringLiteral).bind
  intro path stop hread
  obtain ⟨hpath, hstop⟩ := hread
  have hreach := (hab.trans hbd).trans ((Cursor.reaches_skipIgnorable d).trans hstop)
  refine .pure ⟨?_, Nat.lt_of_lt_of_le hlt hreach.position_le, by simp⟩
  simp [Token.range, hpath]

theorem reads_declaredName {α : Type} {expression : Rule α} (he : Structured expression) :
    Reads c (declaredName expression) fun _ d => c.Reaches d := by
  apply (Reads.framed_reaches structured_symbol.keeps).bind
  intro name a hca
  apply (Reads.optional_framed_reaches structured_typeHint.keeps).bind
  intro _ b hab
  apply (Reads.optional_framed_reaches (structured_initializer he).keeps).bind
  intro _ d hbd
  exact .pure ((hca.trans hab).trans hbd)

theorem reads_variableToken : Reads c variableToken fun token d => token.Stands c d := by
  apply (reads_keyword (by simp)).bind
  intro _ a hread
  obtain ⟨hlt, rfl⟩ := hread
  apply (reads_declaredName structured_literalValue).bind
  intro name b hab
  apply (Reads.rangeFrom _).bind
  intro _ _ hread
  obtain ⟨rfl, rfl⟩ := hread
  exact .pure ⟨rfl, Nat.lt_of_lt_of_le hlt hab.position_le, by simp⟩

theorem reads_parameters : Reads c parameters fun _ d => c.Reaches d := by
  apply (Reads.optional_framed_reaches structured_parameter.keeps).bind
  intro found a hca
  rcases found with _ | first
  · exact .pure hca
  · have hmore : Structured (literal ",".toList >>= fun _ => framed parameter : Rule Capture) :=
      .bind (.literal _) fun _ => .framed structured_parameter
    apply (Reads.of_keepsNegation hmore.keeps.many (.many hmore.keeps)).bind
    intro _ b hab
    apply (Reads.optional_framed_reaches (Structured.literal _).keeps).bind
    intro _ d hbd
    exact .pure ((hca.trans hab).trans hbd)

theorem reads_functionToken : Reads c functionToken fun token d => token.Stands c d := by
  apply (reads_keyword (by simp)).bind
  intro _ a₁ hread
  obtain ⟨hlt, rfl⟩ := hread
  apply (Reads.framed_reaches structured_symbol.keeps).bind
  intro name a₂ h₁
  apply (Reads.required_reaches _ (Structured.literal _).keeps).bind
  intro _ a₃ h₂
  apply reads_parameters.bind
  intro names a₄ h₃
  apply (Reads.required_reaches _ (Structured.literal _).keeps).bind
  intro _ a₅ h₄
  apply (Reads.optional_framed_reaches structured_returnType.keeps).bind
  intro _ a₆ h₅
  have hreach := (((h₁.trans h₂).trans h₃).trans h₄).trans h₅
  rw [check_then]
  apply (Reads.rangeFrom _).bind
  intro _ _ hread
  obtain ⟨rfl, rfl⟩ := hread
  exact .pure ⟨rfl, Nat.lt_of_lt_of_le hlt hreach.position_le, by simp⟩

theorem result_value (e : Engine) :
    value.result e =
      (alt [literalValue, callValue (valueWithin e.cursor.rest.length), pathValue,
        blockValue]).result e := by
  unfold RuleT.result RuleT.run value
  rw [valueWithin]

theorem keeps_valueBranches (n : Nat) :
    ∀ branch ∈ [literalValue, callValue (valueWithin n), pathValue, blockValue], Keeps branch := by
  simp [structured_literalValue.keeps, (structured_callValue (structured_valueWithin n)).keeps,
    structured_pathValue.keeps, structured_blockValue.keeps]

theorem staysOnMiss_value : StaysOnMiss value := by
  intro e h
  rw [result_value] at h ⊢
  exact StaysOnMiss.alt (keeps_valueBranches _) e h

theorem reads_optional_value : Reads c (optional value) fun _ d => c.Reaches d := by
  have hneg : KeepsNegation value := fun e => by
    rw [result_value]
    exact KeepsNegation.alt (keeps_valueBranches _) e
  apply ((Reads.of_keepsNegation structured_value.keeps hneg).optional staysOnMiss_value).mono
  intro found d h
  rcases found with _ | found
  · exact h ▸ Cursor.Reaches.refl c
  · exact h

/-- A property begins with a name of `n` scalar values at `c`, and its `=` goes through `d`. -/
structure PropertyHead (c : Cursor) (n : Nat) (d : Cursor) : Prop where
  name : Lexeme.propertyName c.rest = some n
  sign : "=".toList <+: (c.advanceBy n).skipIgnorable.rest
  stop : d = (c.advanceBy n).skipIgnorable.advanceBy "=".toList.length

theorem PropertyHead.reaches {n : Nat} {d : Cursor} (h : PropertyHead c n d) :
    (c.advanceBy n).Reaches d := by
  rw [h.stop]
  exact (Cursor.reaches_skipIgnorable _).trans (Cursor.reaches_advanceBy _ _)

theorem reads_propertyHead :
    Reads c (seq [pattern Lexeme.propertyName, framed (literal "=".toList)]) fun head d =>
      ∃ n rest, head = ⟨c.rest.take n, ⟨c, c.advanceBy n⟩⟩ :: rest ∧ PropertyHead c n d := by
  apply Reads.seq_cons (Reads.pattern _)
  rintro _ _ ⟨n, hn, rfl, rfl⟩
  apply Reads.seq_cons (Reads.framed (Structured.literal _).keeps (Reads.literal _))
  rintro _ _ ⟨hsign, rfl, -⟩
  exact Reads.seq_nil ⟨n, _, rfl, hn, hsign, rfl⟩

theorem reads_property (c : Cursor) :
    Reads c.skipIgnorable property fun property d => property.Stands c d := by
  apply reads_propertyHead.bind
  rintro _ a ⟨n, rest, rfl, hhead⟩
  obtain ⟨hpos, hne⟩ := Pattern.andThen_one_pos hhead.name
  have hlt := Nat.lt_of_lt_of_le (Cursor.position_lt_advanceBy hpos hne) hhead.reaches.position_le
  have hreach := (Cursor.reaches_advanceBy n _).trans hhead.reaches
  apply reads_optional_value.bind
  intro found b hab
  apply (Reads.requireLast _).bind
  intro _ _ hd
  subst hd
  cases found with
  | none => exact .miss
  | some value =>
    simp only [check_then]
    apply (Reads.rangeFrom _).bind
    intro _ _ hread
    obtain ⟨rfl, rfl⟩ := hread
    exact .pure ⟨rfl, hreach.trans hab, Nat.lt_of_lt_of_le hlt hab.position_le⟩

theorem reads_literals (words : List Text) :
    Reads c (alt (words.map literal)) fun capture d =>
      capture.text ∈ words ∧ capture.text <+: c.skipIgnorable.rest ∧
        d = c.skipIgnorable.advanceBy capture.text.length ∧
        capture.range = ⟨c.skipIgnorable, d⟩ := by
  apply Reads.alt
  · intro branch hb
    obtain ⟨word, -, rfl⟩ := List.mem_map.1 hb
    exact (Structured.literal word).keeps
  · intro branch hb
    obtain ⟨word, hw, rfl⟩ := List.mem_map.1 hb
    apply (Reads.literal word).mono
    intro _ _ hread
    obtain ⟨hp, rfl, rfl⟩ := hread
    exact ⟨hw, hp, rfl, rfl⟩

theorem reads_tagKind (opener closer : Capture) :
    Reads c (tagKind opener closer) fun kind d =>
      d = c ∧ (kind = .closing ↔ opener.text ≠ "<".toList) := by
  unfold tagKind
  split
  · next h _ => exact .pure ⟨rfl, by simpa using h⟩
  · next h _ => exact .pure ⟨rfl, by simpa using h⟩
  · next h _ => exact .pure ⟨rfl, by simpa using h⟩
  · exact .refuse _ _

section TagParts

variable {a b d : Cursor} {opener closer : Capture} {n : Nat} {kind : TagKind}
  {properties : List Property}

theorem tag_head (hmem : opener.text ∈ ["</".toList, "<".toList])
    (hopen : opener.text <+: c.rest) (ha : a = c.advanceBy opener.text.length)
    (hkind : kind = .closing ↔ opener.text ≠ "<".toList) :
    (if kind = .closing then "</".toList else "<".toList) = opener.text ∧
    opener.text ++ a.rest.take n <+: c.rest ∧
    c.advanceBy (opener.text ++ a.rest.take n).length = a.advanceBy n := by
  refine ⟨?_, ?_, ?_⟩
  · by_cases hlt : opener.text = "<".toList
    · rw [if_neg (by simp [hkind, hlt]), hlt]
    · rw [if_pos (hkind.2 hlt)]
      simp only [List.mem_cons, hlt, List.not_mem_nil, or_false] at hmem
      exact hmem.symm
  · obtain ⟨rest, hrest⟩ := hopen
    have harest : a.rest = rest := by rw [ha, Cursor.rest_advanceBy, ← hrest, List.drop_left]
    rw [harest, ← hrest]
    exact (List.prefix_append_right_inj _).2 (List.take_prefix n rest)
  · rw [List.length_append, ← Cursor.advanceBy_advanceBy, ← ha, Cursor.advanceBy_length_take]

end TagParts

theorem reads_tagToken :
    Reads c tagToken fun (token : Token) d => token.Stands c.skipIgnorable d := by
  apply (reads_literals ["</".toList, "<".toList]).bind
  intro opener a hread
  obtain ⟨hmem, hopen, ha, horange⟩ := hread
  apply (Reads.pattern _).bind
  intro _ _ hread
  obtain ⟨n, -, rfl, rfl⟩ := hread
  apply (Reads.many structured_property.keeps reads_property).bind
  intro properties last hprops
  apply (Reads.ofState _).bind
  intro ahead last hd
  subst hd
  split
  · exact .miss
  · apply (Reads.require _).bind
    intro _ last hd
    subst hd
    apply (reads_literals ["/>".toList, ">".toList]).bind
    intro closer d hread
    obtain ⟨hclose, hcloser, hd, hcrange⟩ := hread
    apply (reads_tagKind opener closer).bind
    intro kind d hread
    obtain ⟨rfl, hkind⟩ := hread
    split
    · exact .refuse _ _
    · next hnone =>
      have hclosing : kind = .closing → properties = [] := by
        intro hkind'
        subst hkind'
        cases properties with
        | nil => rfl
        | cons property rest => exact absurd rfl (hnone property rest rfl)
      obtain ⟨hopener, hhead, hstart⟩ := tag_head (n := n) hmem hopen ha hkind
      have hwords : closer.text ≠ [] := by
        intro hnil
        simp [hnil] at hclose
      have hlt : last.skipIgnorable.position < d.position :=
        hd ▸ position_lt_behind_word hwords hcloser
      have hreach : last.skipIgnorable.Reaches d := hd ▸ Cursor.reaches_advanceBy _ _
      have hlast : c.skipIgnorable.Reaches last.skipIgnorable := by
        have hbody := hprops.reaches fun _ _ _ h => h.reaches
        have hclass := hstart ▸ Cursor.reaches_advanceBy _ c.skipIgnorable
        exact (hclass.trans hbody).trans (Cursor.reaches_skipIgnorable last)
      refine .pure (.ofTag ?_ ?_)
      · refine ⟨by simp [horange, hcrange], ?_, ⟨last, ?_, by simp [hcrange]⟩, ?_, ?_, hclosing⟩
        · simpa only [Tag.opener, hopener] using hhead
        · simpa only [Tag.opener, hopener, hstart] using hprops
        · simpa only [hcrange] using hreach
        · simpa only [hcrange] using hlt
      · exact Nat.lt_of_le_of_lt hlast.position_le hlt

/-- A token stands behind the ignorable text, and its rule stops where it ends. -/
theorem reads_token :
    Reads c token fun (found : Token) d => found.Stands c.skipIgnorable d := by
  apply Reads.alt
  · simp [structured_importToken.keeps, structured_variableToken.keeps,
      structured_functionToken.keeps, structured_tagToken.keeps]
  · have htag : Reads c.skipIgnorable tagToken fun found d => found.Stands c.skipIgnorable d := by
      simpa only [Cursor.skipIgnorable_skipIgnorable] using reads_tagToken (c := c.skipIgnorable)
    simp only [List.forall_mem_cons, List.not_mem_nil, false_implies, implies_true, and_true]
    exact ⟨reads_importToken, reads_variableToken, reads_functionToken, htag⟩

end Grammar

end NodeMarkup
