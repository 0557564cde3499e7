import Mathlib.Data.List.Chain
import NodeMarkup.Proofs.Grammar.SelfContained
import NodeMarkup.Proofs.Grammar.Strings

namespace NodeMarkup

namespace Lexeme

/-- What stands between the marks of a literal on one line. -/
inductive LineBody (mark : Char) : Text → Prop where
  | nil : LineBody mark []
  | plain {c : Char} {body : Text} (hmark : c ≠ mark) (hslash : c ≠ '\\') (hbreak : c ≠ '\n')
      (rest : LineBody mark body) : LineBody mark (c :: body)
  | pair {c : Char} {body : Text} (hbreak : c ≠ '\n') (rest : LineBody mark body) :
      LineBody mark ('\\' :: c :: body)

/-- The whole text is one literal on one line. -/
def IsLineLiteral (t : Text) : Prop :=
  ∃ mark body, Text.isQuote mark ∧ LineBody mark body ∧ t = mark :: (body ++ [mark])

variable {mark : Char} {t body : Text} {n : Nat}

theorem LineBody.literalTail_eq (h : LineBody mark body) (hm : mark ≠ '\\') :
    literalTail mark (body ++ [mark]) = some (body.length + 1) := by
  induction h with
  | nil => simp [literalTail_cons hm]
  | plain hmark hslash hbreak _ ih =>
    rw [List.cons_append, literalTail_cons hslash, if_neg hmark, if_neg hbreak, ih]
    rfl
  | pair hbreak _ ih =>
    rw [List.cons_append, List.cons_append, literalTail, if_neg hbreak, ih]
    rfl

theorem exists_lineBody (h : literalTail mark t = some n) :
    ∃ body, LineBody mark body ∧ t.take n = body ++ [mark] := by
  fun_induction literalTail mark t generalizing n with
  | case1 => simp at h
  | case2 => simp at h
  | case3 c t hbreak ih =>
    obtain ⟨k, hk, rfl⟩ := Option.map_eq_some_iff.1 h
    obtain ⟨body, hbody, htake⟩ := ih hk
    exact ⟨'\\' :: c :: body, .pair hbreak hbody, by simp [htake]⟩
  | case4 t =>
    obtain rfl : 1 = n := by simpa using h
    exact ⟨[], .nil, rfl⟩
  | case5 => simp at h
  | case6 c t _ hmark hother ih =>
    obtain ⟨k, hk, rfl⟩ := Option.map_eq_some_iff.1 h
    simp only [Bool.or_eq_true, decide_eq_true_eq, not_or] at hother
    obtain ⟨body, hbody, htake⟩ := ih hk
    exact ⟨c :: body, .plain hmark hother.1 hother.2 hbody, by simp [htake]⟩

/-- The scan for a literal on one line takes the whole text exactly if it has the format. -/
theorem isLineLiteral_iff : IsLineLiteral t ↔ lineLiteral t = some t.length := by
  constructor
  · rintro ⟨mark, body, hquote, hbody, rfl⟩
    have hm : mark ≠ '\\' := by
      rintro rfl
      cases hquote
    unfold Text.isQuote at hquote
    rw [lineLiteral, if_pos hquote, hbody.literalTail_eq hm]
    simp
  · intro h
    cases t with
    | nil => cases h
    | cons mark t =>
      simp only [lineLiteral, Option.ite_none_right_eq_some] at h
      obtain ⟨hquote, h⟩ := h
      obtain ⟨k, hk, hlength⟩ := Option.map_eq_some_iff.1 h
      obtain rfl : k = t.length := by simpa using hlength
      obtain ⟨body, hbody, htake⟩ := exists_lineBody hk
      rw [List.take_length] at htake
      exact ⟨mark, body, hquote, hbody, by rw [htake]⟩

theorem IsLineLiteral.not_mem_break (h : IsLineLiteral t) : '\n' ∉ t := by
  have hline := not_mem_take_of_lineLiteral (isLineLiteral_iff.1 h)
  rwa [List.take_length] at hline

end Lexeme

namespace Text

/-- A text without line breaks and tabs in which no two spaces stand side by side. -/
structure Folded (t : Text) : Prop where
  breaks : '\n' ∉ t
  tabs : '\t' ∉ t
  spaces : t.IsChain fun c next => ¬(c = ' ' ∧ next = ' ')

theorem head?_squeezeSpaces (t : Text) : (squeezeSpaces t).head? = t.head? := by
  induction t with
  | nil => rfl
  | cons c t ih =>
    rw [squeezeSpaces]
    split
    · next hspace =>
      simp only [Bool.and_eq_true, decide_eq_true_eq] at hspace
      rw [ih, hspace.2, hspace.1, List.head?_cons]
    · rfl

theorem isChain_squeezeSpaces (t : Text) :
    (squeezeSpaces t).IsChain fun c next => ¬(c = ' ' ∧ next = ' ') := by
  induction t with
  | nil => exact .nil
  | cons c t ih =>
    rw [squeezeSpaces]
    split
    · exact ih
    · next hspace =>
      refine List.isChain_cons.2 ⟨?_, ih⟩
      rintro next hnext ⟨rfl, rfl⟩
      rw [head?_squeezeSpaces] at hnext
      exact hspace (by simpa using hnext)

theorem folded_foldLines (t : Text) : (foldLines t).Folded := by
  constructor
  case breaks => exact not_mem_foldLines t
  case tabs =>
    intro htab
    obtain ⟨c, hc, heq⟩ := List.mem_map.1 (squeezeSpaces_subset _ htab)
    split at heq
    · cases heq
    · simp [heq] at hc
  case spaces => exact isChain_squeezeSpaces _

theorem head?_escape {t : Text} {c : Char} (h : c ∈ (escape t).head?) :
    c = '\\' ∨ c ∈ t.head? := by
  cases t with
  | nil => cases h
  | cons d t =>
    rw [escape] at h
    split at h
    · exact .inl (by simpa using h.symm)
    · exact .inr h

/-- Escaping puts backslashes into a text, and nothing else comes to stand beside a space. -/
theorem Folded.escape {t : Text} (h : t.Folded) : (escape t).Folded := by
  constructor
  case breaks => exact not_mem_escape h.breaks (by decide)
  case tabs => exact not_mem_escape h.tabs (by decide)
  case spaces =>
    have hspaces := h.spaces
    clear h
    induction t with
    | nil => exact .nil
    | cons c t ih =>
      obtain ⟨hnext, hrest⟩ := List.isChain_cons.1 hspaces
      rw [Text.escape]
      split
      · next hhidden =>
        -- neither the backslash nor what it hides is a space
        refine List.isChain_cons_cons.2 ⟨by simp, List.isChain_cons.2 ⟨?_, ih hrest⟩⟩
        rintro next - ⟨rfl, -⟩
        simp at hhidden
      · refine List.isChain_cons.2 ⟨fun next hhead => ?_, ih hrest⟩
        rcases head?_escape hhead with rfl | hhead
        · simp
        · exact hnext next hhead

theorem Folded.quote {t : Text} (h : t.Folded) : (quote t).Folded := by
  constructor
  case breaks => exact not_mem_quote h.breaks (by decide) (by decide)
  case tabs => exact not_mem_quote h.tabs (by decide) (by decide)
  case spaces =>
    have hinner : (Text.escape t ++ ['"']).IsChain fun c next => ¬(c = ' ' ∧ next = ' ') :=
      List.isChain_append.2 ⟨h.escape.spaces, .singleton _, by simp⟩
    exact List.isChain_cons.2 ⟨by simp, hinner⟩

end Text

namespace Taken

variable {literal content code : Text}

theorem isLineLiteral (h : Taken literal content code) : Lexeme.IsLineLiteral code := by
  rw [Lexeme.isLineLiteral_iff]
  cases h with
  | line whole => exact whole
  | lines => exact Lexeme.lineLiteral_quote (Text.not_mem_foldLines _)

theorem eq_of_line (h : Taken literal content code)
    (hline : Lexeme.lineLiteral literal = some literal.length) :
    content = literalBody literal ∧ code = literal := by
  cases h with
  | line => exact ⟨rfl, rfl⟩
  | lines whole =>
    exact absurd (Grammar.isPrefixOf_of_tripleLiteral whole)
      (Grammar.not_isPrefixOf_of_lineLiteral hline)

theorem folded (h : Taken literal content code) (htriple : Lexeme.tripleMark <+: literal) :
    content.Folded ∧ code.Folded := by
  cases h with
  | line whole =>
    exact absurd (List.isPrefixOf_iff_prefix.2 htriple)
      (Grammar.not_isPrefixOf_of_lineLiteral whole)
  | lines => exact ⟨Text.folded_foldLines _, (Text.folded_foldLines _).quote⟩

end Taken

/-- The code of the string that a property is given is one literal on one line. If the literal of
the source runs over several lines, it is folded. -/
structure Property.OnOneLine (p : Property) : Prop where
  literal : Lexeme.IsLineLiteral p.value.code
  breaks : '\n' ∉ p.value.code
  folded : ∃ literal content, p.Holds literal ∧ Taken literal content p.value.code ∧
    (Lexeme.tripleMark <+: literal → content.Folded ∧ p.value.code.Folded)

/-- Every string that a tag of a source is given is on one line, and a quoted text without line
breaks is one literal wherever it stands. -/
theorem strings_onOneLine :
    (∀ source : Text, ∀ p ∈ Scan.properties source, p.value.kind = .string → p.OnOneLine) ∧
    ∀ t rest : Text, '\n' ∉ t → rest.head? ≠ some '"' →
      ∀ e : Engine, e.Before (Text.quote t ++ rest) →
        ∃ e', Grammar.stringLiteral.result e =
            (.hit ⟨Text.escape t, Text.quote t, ⟨e.cursor, e'.cursor⟩⟩, e') ∧
          e.cursor.Spells (Text.quote t) e'.cursor ∧ e'.Before rest := by
  constructor
  · intro source p hp hkind
    obtain ⟨token, htoken, hp⟩ := List.mem_flatMap.1 hp
    have hstrings := Scan.holdsStrings_drain source token htoken
    cases token with
    | ofTag tag =>
      obtain ⟨literal, content, hholds, htaken⟩ := hstrings p hp hkind
      have hline := htaken.isLineLiteral
      exact ⟨hline, hline.not_mem_break, literal, content, hholds, htaken, htaken.folded⟩
    | ofImport | ofVariable | ofFunction => cases hp
  · intro t rest ht hrest e he
    have hline := Lexeme.lineLiteral_quote ht
    obtain ⟨string, e', hrun, -, he', -⟩ :=
      Grammar.hits_lineLiteral ⟨Text.quote t, hline⟩ hrest e he
    obtain ⟨literal, hspells, -, hrange, htaken⟩ :=
      (Grammar.reads_taken_stringLiteral e rfl he.negate).2 string (by rw [hrun])
    rw [hrun] at hspells hrange
    -- the literal that was read is all that stands before what is left
    obtain rfl : Text.quote t = literal := by
      have hread := hspells.2
      rw [he.rest, he'.rest] at hread
      exact List.append_cancel_right hread
    obtain ⟨hcontent, hcode⟩ := htaken.eq_of_line hline
    rw [literalBody_quote] at hcontent
    refine ⟨e', ?_, hspells, he'⟩
    rw [hrun, ← hcontent, ← hcode, ← hrange]

/-- A literal over two lines with tabs, quotes and a backslash before its closing mark, and an empty
quoted text in front of a tag's end. -/
theorem strings_onOneLine_triple :
    let source := "<A x=\"\"\"a\t \n\t \"b\\\"\"\"/>".toList
    let quoted := Engine.start (Text.quote [] ++ "/>".toList)
    (∃ p ∈ Scan.properties source, p.value.kind = .string ∧
      p.value.code = "\"a \\\"b\\\\\"".toList ∧ p.OnOneLine) ∧
    ∃ e', Grammar.stringLiteral.result quoted =
        (.hit ⟨[], "\"\"".toList, ⟨quoted.cursor, e'.cursor⟩⟩, e') ∧ e'.Before "/>".toList := by
  intro source quoted
  obtain ⟨p, hp, hkind, hcode⟩ : ∃ p ∈ Scan.properties source, p.value.kind = .string ∧
      p.value.code = "\"a \\\"b\\\\\"".toList := by
    decide +kernel
  have hbefore : quoted.Before (Text.quote [] ++ "/>".toList) :=
    ⟨⟨Cursor.rest_start (Text.quote [] ++ "/>".toList), Nat.le_refl _, rfl, rfl⟩, rfl⟩
  obtain ⟨e', hrun, -, hrest⟩ :=
    strings_onOneLine.2 [] "/>".toList (by decide) (by decide) quoted hbefore
  exact ⟨⟨p, hp, hkind, hcode, strings_onOneLine.1 source p hp hkind⟩, e', hrun, hrest⟩

end NodeMarkup
