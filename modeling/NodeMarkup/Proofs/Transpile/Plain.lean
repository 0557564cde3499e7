import NodeMarkup.Proofs.Text.LineBreak
import NodeMarkup.Proofs.Token.Passing
import NodeMarkup.Proofs.Transpile.PassThrough

namespace NodeMarkup

variable {source : Text}

/-- A source in which no token can begin. A keyword is none even inside a longer word, a comment or a
literal, and no `<` or `</` has the first letter of a class directly behind it. -/
structure PlainCode (source : Text) : Prop where
  keyword : ∀ word ∈ Grammar.keywords, ¬word <:+: source
  opening : ∀ c, Lexeme.isSymbolStart c → ¬['<', c] <:+: source
  closing : ∀ c, Lexeme.isSymbolStart c → ¬['<', '/', c] <:+: source

/-- Only the scalar values of the source have to be tried. -/
theorem plainCode_iff (source : Text) :
    PlainCode source ↔ (∀ word ∈ Grammar.keywords, ¬word <:+: source) ∧
      ∀ c ∈ source, Lexeme.isSymbolStart c →
        ¬['<', c] <:+: source ∧ ¬['<', '/', c] <:+: source := by
  constructor
  · intro h
    exact ⟨h.keyword, fun c _ hc => ⟨h.opening c hc, h.closing c hc⟩⟩
  · rintro ⟨hkeyword, htag⟩
    refine ⟨hkeyword, fun c hc hwithin => ?_, fun c hc hwithin => ?_⟩
    · exact (htag c (hwithin.subset (by simp)) hc).1 hwithin
    · exact (htag c (hwithin.subset (by simp)) hc).2 hwithin

instance (source : Text) : Decidable (PlainCode source) :=
  -- the scalar values of the source are tried, and not all there are
  have : Decidable (∀ c ∈ source, Lexeme.isSymbolStart c →
      ¬['<', c] <:+: source ∧ ¬['<', '/', c] <:+: source) := List.decidableBAll _ _
  decidable_of_iff _ (plainCode_iff source).symm

theorem PlainCode.unifyLineBreaks (h : PlainCode source) :
    PlainCode (Text.unifyLineBreaks source) := by
  have hne {c : Char} (hc : Lexeme.isSymbolStart c) : c ≠ '\n' := by
    rintro rfl
    exact absurd hc (by decide)
  constructor
  case keyword =>
    intro word hword hwithin
    have hn : ∀ word ∈ Grammar.keywords, '\n' ∉ word := by decide
    exact h.keyword word hword (Text.infix_of_infix_unifyLineBreaks (hn word hword) hwithin)
  case opening =>
    intro c hc hwithin
    exact h.opening c hc (Text.infix_of_infix_unifyLineBreaks (by simp [(hne hc).symm]) hwithin)
  case closing =>
    intro c hc hwithin
    exact h.closing c hc (Text.infix_of_infix_unifyLineBreaks (by simp [(hne hc).symm]) hwithin)

theorem Lexeme.path_eq_none {u : Text} (h : ∀ c ∈ u.head?, isSymbolStart c = false) :
    path u = none := by
  cases u with
  | nil => rfl
  | cons c u => simp [path, Pattern.andThen, Pattern.one, h c rfl]

/-- No token begins at any place of plain code. -/
theorem PlainCode.passable (h : PlainCode source) : source.Passable [] := by
  refine ⟨fun s _ hs => ?_, .nil, .inr rfl⟩
  rw [List.append_nil]
  constructor
  case keyword =>
    intro word hword hbegins
    exact h.keyword word hword (hbegins.isInfix.trans hs.isInfix)
  case opening =>
    rintro u rfl
    apply Lexeme.path_eq_none
    intro c hc
    by_contra hstart
    obtain ⟨rest, rfl⟩ : ∃ rest, u = c :: rest := List.head?_eq_some_iff.1 hc
    have hbegins : ['<', c] <+: '<' :: c :: rest := ⟨rest, rfl⟩
    exact h.opening c (by simpa using hstart) (hbegins.isInfix.trans hs.isInfix)
  case closing =>
    rintro u rfl
    apply Lexeme.path_eq_none
    intro c hc
    by_contra hstart
    obtain ⟨rest, rfl⟩ : ∃ rest, u = c :: rest := List.head?_eq_some_iff.1 hc
    have hbegins : ['<', '/', c] <+: '<' :: '/' :: c :: rest := ⟨rest, rfl⟩
    exact h.closing c (by simpa using hstart) (hbegins.isInfix.trans hs.isInfix)

/-- A search through plain code comes to the end of the source. -/
theorem PlainCode.drain (h : PlainCode source) :
    (Scan.start source).drain.1 = [] ∧ (Scan.start source).drain.2.1 = .finished := by
  have hseek := Engine.seek_passable (e := .start source) (c := .start source) h.passable
    (by simp) rfl (by simp [Engine.start]) 0
  have hend : ((Cursor.start source).advanceBy source.length).skipIgnorable.atEnd := by
    simp [Cursor.atEnd, Cursor.skipIgnorable]
  rw [Engine.seek_of_atEnd hend] at hseek
  have hnext := Scan.next_of_missed (s := .start source) rfl hseek
  rw [Scan.drain_eq, Scan.take_succ, hnext]
  exact ⟨rfl, rfl⟩

/-- Plain code is accepted and stays as it is. -/
theorem transpile_plainCode (h : PlainCode source) :
    transpile source = .ok (Text.unifyLineBreaks source) := by
  obtain ⟨htokens, hfinished⟩ := h.unifyLineBreaks.drain
  unfold transpile
  rw [transpileIn_eq, transpileLines_eq_splice hfinished (by rw [htokens]; exact .nil)]
  rw [splice, Cursor.rest_start]

/-- Comparisons, tags that are none, and quotes, braces and comments that are never closed. -/
theorem transpile_plainCode_unbalanced :
    PlainCode "a <= b << 1 </ d # it's '\r\nx = \x7b'<-> \"\"\" [\r</1> \\\" <é/>".toList ∧
      transpile "a <= b << 1 </ d # it's '\r\nx = \x7b'<-> \"\"\" [\r</1> \\\" <é/>".toList =
        .ok "a <= b << 1 </ d # it's '\nx = \x7b'<-> \"\"\" [\n</1> \\\" <é/>".toList := by
  have hplain : PlainCode
      "a <= b << 1 </ d # it's '\r\nx = \x7b'<-> \"\"\" [\r</1> \\\" <é/>".toList := by
    decide +kernel
  refine ⟨hplain, (transpile_plainCode hplain).trans (congrArg Except.ok ?_)⟩
  decide +kernel

end NodeMarkup
