import NodeMarkup.Proofs.Node.Shift
import NodeMarkup.Proofs.Text.Absent
import NodeMarkup.Proofs.Text.LineBreak
import NodeMarkup.Proofs.Token.Passing
import NodeMarkup.Proofs.Transpile.PassThrough

namespace NodeMarkup

variable {context : Resource.Context} {front source : Text}

theorem Declarations.sameFunctions_shift (front : Text) (tokens : List Token) :
    (ofTokens tokens).SameFunctions (ofTokens (tokens.map (Token.shift front))) := by
  intro name
  rw [Bool.eq_iff_iff, isFunction_ofTokens, isFunction_ofTokens]
  constructor
  · rintro ⟨header, hmem, hname⟩
    obtain ⟨token, htoken, hshift⟩ := List.mem_map.1 hmem
    cases token with
    | ofImport i => cases hshift
    | ofVariable other => cases hshift
    | ofTag tag => cases hshift
    | ofFunction other =>
      cases hshift
      exact ⟨other, htoken, hname⟩
  · rintro ⟨header, hmem, hname⟩
    exact ⟨_, List.mem_map.2 ⟨_, hmem, rfl⟩, hname⟩

/-- What a source comes to without `front` before it, and with it. -/
inductive SameBehind (front : Text) : Except ParseError Text → Except ParseError Text → Prop where
  | accepted (out : Text) : SameBehind front (.ok out) (.ok (front ++ out))
  | refused {x y : ParseError} (message : y.message = x.message)
      (line : y.line = front.count '\n' + x.line) (column : y.column = x.column) :
      SameBehind front (.error x) (.error y)

section PassesOver

variable {line : Text} (h : PassesOver (line ++ ['\n']) source)
include h

theorem accepted_behind (context : Resource.Context)
    (hfinished : (Scan.start source).drain.2.1 = .finished)
    (hnested : WellNested false (Scan.start source).drain.1) :
    SameBehind (line ++ ['\n']) (transpileLines context source)
      (transpileLines context (line ++ ['\n'] ++ source)) := by
  let front := line ++ ['\n']
  obtain ⟨htokens, hstop⟩ := Scan.drain_behind h
  have hfinished' : (Scan.start (front ++ source)).drain.2.1 = .finished := by
    rw [hstop, hfinished]
    rfl
  obtain ⟨edits, hedits⟩ : ∃ edits, EditsOf context (.ofTokens (Scan.start source).drain.1)
      (Scan.start source).drain.1 edits := hnested.exists_edits rfl
  have hshifted := hedits.shift front (Declarations.sameFunctions_shift front _)
  rw [← htokens] at hshifted
  -- the edits come behind the place where the source itself begins
  have hplace : (Cursor.start (front ++ source)).Reaches ((Cursor.start source).shift front) :=
    ⟨front.length, (Cursor.start_behind line source).symm⟩
  have hgap : Range.text ⟨.start (front ++ source), (Cursor.start source).shift front⟩ = front := by
    simp [Range.text]
  obtain ⟨d, hscanned⟩ := (Scan.yields_drain source).tokens
  obtain ⟨stop, hfollows⟩ := (hedits.ordered hscanned).follows
  have hsplice := splice_before hplace (Edit.follows_shift front hfollows)
  rw [hgap, splice_shift] at hsplice
  rw [transpileLines_eq_splice hfinished hedits, transpileLines_eq_splice hfinished' hshifted,
    hsplice]
  exact .accepted _

theorem refused_behind (context : Resource.Context)
    (hfinished : (Scan.start source).drain.2.1 = .finished) {message : Text} {place : Cursor}
    (hr : Refusal (Scan.start source).drain.1 message place) :
    SameBehind (line ++ ['\n']) (transpileLines context source)
      (transpileLines context (line ++ ['\n'] ++ source)) := by
  obtain ⟨htokens, hstop⟩ := Scan.drain_behind h
  have hfinished' : (Scan.start (line ++ ['\n'] ++ source)).drain.2.1 = .finished := by
    rw [hstop, hfinished]
    rfl
  have hr' := hr.shift (line ++ ['\n'])
  rw [← htokens] at hr'
  obtain ⟨x, hx, hsays⟩ := transpileLines_of_refusal context hfinished hr
  obtain ⟨y, hy, hsays'⟩ := transpileLines_of_refusal context hfinished' hr'
  rw [hx, hy]
  refine .refused (hsays'.message_eq.trans hsays.message_eq.symm) ?_ ?_
  · rw [hsays'.line_eq, hsays.line_eq, Cursor.line_shift, Nat.add_assoc]
  · exact hsays'.column_eq.trans hsays.column_eq.symm

/-- A source comes to the same behind lines that are passed over. -/
theorem transpileLines_behind (context : Resource.Context) :
    SameBehind (line ++ ['\n']) (transpileLines context source)
      (transpileLines context (line ++ ['\n'] ++ source)) := by
  rcases Scan.drain_stopped source with hfinished | ⟨x, hfailed⟩
  · rcases wellNested_or_refusal (Scan.start source).drain.1 with hnested | ⟨message, place, hr⟩
    · exact accepted_behind h context hfinished hnested
    · exact refused_behind h context hfinished hr
  · have hfailed' : (Scan.start (line ++ ['\n'] ++ source)).drain.2.1 =
        .failed (x.shift (line ++ ['\n'])) := by
      rw [(Scan.drain_behind h).2, hfailed]
      rfl
    rw [transpileLines_of_failed hfailed, transpileLines_of_failed hfailed']
    exact .refused rfl rfl rfl

end PassesOver

/-- A line with nothing on it but a comment or a literal, perhaps behind blanks. -/
inductive Inert : Text → Prop where
  | comment {words : Text} (oneLine : '\n' ∉ words) (noReturn : '\r' ∉ words) :
      Inert ('#' :: words)
  | quoted {t : Text} (oneLine : '\n' ∉ t) (noReturn : '\r' ∉ t) : Inert (Text.quote t)
  | literal {w : Text} (mark : w.head? = some '\'') (whole : Lexeme.lineLiteral w = some w.length)
      (noReturn : '\r' ∉ w) : Inert w
  | blank {c : Char} {u : Text} (isBlank : c = ' ' ∨ c = '\t') (rest : Inert u) : Inert (c :: u)

theorem Inert.noReturn {u : Text} (h : Inert u) : '\r' ∉ u := by
  induction h with
  | comment _ noReturn => simpa using noReturn
  | quoted _ noReturn => exact Text.not_mem_quote noReturn (by decide) (by decide)
  | literal _ _ noReturn => exact noReturn
  | blank isBlank _ ih => rcases isBlank with rfl | rfl <;> simpa using ih

theorem Inert.oneLine {u : Text} (h : Inert u) : '\n' ∉ u := by
  induction h with
  | comment oneLine _ => simpa using oneLine
  | quoted oneLine _ => exact Text.not_mem_quote oneLine (by decide) (by decide)
  | @literal w _ whole _ =>
    have := Lexeme.not_mem_take_of_lineLiteral whole
    rwa [List.take_length] at this
  | blank isBlank _ ih => rcases isBlank with rfl | rfl <;> simpa using ih

/-- An inert line is a comment with the end of the line, or a literal behind blanks. -/
theorem Inert.ignorable_or_literal {u : Text} (h : Inert u) :
    Ignorable (u ++ ['\n']) ∨ ∃ blanks w, u = blanks ++ w ∧ Ignorable blanks ∧
      Lexeme.lineLiteral w = some w.length := by
  induction h with
  | comment oneLine _ => exact .inl (.comment oneLine .nil)
  | @quoted t oneLine _ => exact .inr ⟨[], _, rfl, .nil, Lexeme.lineLiteral_quote oneLine⟩
  | @literal w _ whole _ => exact .inr ⟨[], w, rfl, .nil, whole⟩
  | @blank c u isBlank _ ih =>
    have hblank : c = ' ' ∨ c = '\t' ∨ c = '\n' ∨ c = '\r' := by
      rcases isBlank with h | h
      · exact .inl h
      · exact .inr (.inl h)
    rcases ih with hignorable | ⟨blanks, w, rfl, hblanks, hw⟩
    · exact .inl (.blank hblank hignorable)
    · exact .inr ⟨c :: blanks, w, rfl, .blank hblank hblanks, hw⟩

theorem passesOver_ignorable {line : Text} (h : Ignorable (line ++ ['\n'])) (source : Text) :
    PassesOver (line ++ ['\n']) source := by
  apply Engine.seek_eq_of_skipIgnorable
  rw [← Cursor.start_behind]
  unfold Cursor.skipIgnorable
  rw [Cursor.advanceBy_advanceBy, Cursor.rest_advanceBy, Cursor.rest_start, h.length_append,
    List.drop_left]

theorem unrecognisedLength_literal {w rest : Text} (hw : Lexeme.lineLiteral w = some w.length)
    (hrest : rest.Apart) : unrecognisedLength true (w ++ rest) = w.length := by
  obtain ⟨mark, t, rfl, hmark⟩ := Lexeme.head_of_lineLiteral hw
  have hquoted : ((mark :: t ++ rest).head? = some '"' ||
      (true && (mark :: t ++ rest).head? = some '\'')) = true := by
    rcases hmark with rfl | rfl <;> rfl
  unfold unrecognisedLength
  dsimp only
  rw [hquoted, if_pos rfl, Lexeme.literal_append hw hrest]

theorem passesOver_literal {blanks w : Text} (hblanks : Ignorable blanks)
    (hw : Lexeme.lineLiteral w = some w.length) (source : Text) :
    PassesOver (blanks ++ w ++ ['\n']) source := by
  let c := Cursor.start (blanks ++ w ++ ['\n'] ++ source)
  have hrest : c.rest = blanks ++ (w ++ '\n' :: source) := by simp [c]
  obtain ⟨mark, t, hmark, hquote⟩ := Lexeme.head_of_lineLiteral hw
  have hcode : ignorableLength false (w ++ '\n' :: source) = 0 := by
    rw [hmark]
    rcases hquote with rfl | rfl <;> rfl
  -- the search comes to the literal first
  have hskip : c.skipIgnorable = c.advanceBy blanks.length := by
    rw [Cursor.skipIgnorable, hrest, hblanks.length_append, hcode, Nat.add_zero]
  have hplace : c.skipIgnorable.rest = w ++ '\n' :: source := by
    rw [hskip, Cursor.rest_advanceBy, hrest, List.drop_left]
  have hmiss : Misses c.skipIgnorable.rest Grammar.token := by
    rw [hplace, hmark, List.cons_append]
    exact Grammar.misses_token_of_quote hquote
  have hatEnd : ¬c.skipIgnorable.atEnd := by
    rw [Cursor.atEnd, hplace, hmark]
    simp
  -- then it steps over the whole literal, and the line break behind it is ignorable
  have hapart : Text.Apart ('\n' :: source) := by
    intro d hd
    obtain rfl : '\n' = d := by simpa using hd
    decide
  have hstep : c.skipIgnorable.skipUnrecognised true = c.advanceBy (blanks ++ w).length := by
    rw [Cursor.skipUnrecognised, hplace, unrecognisedLength_literal hw hapart, hskip,
      Cursor.advanceBy_advanceBy, List.length_append]
  have hbreak : (c.advanceBy (blanks ++ w).length).rest = '\n' :: source := by
    rw [Cursor.rest_advanceBy, hrest, ← List.append_assoc, List.drop_left]
  have hroom : c.rest.length ≤ (blanks ++ w ++ ['\n'] ++ source).length := by simp [c]
  unfold PassesOver
  rw [Engine.seek_unrecognised rfl hroom hatEnd hmiss]
  apply Engine.seek_eq_of_skipIgnorable
  rw [← Cursor.start_behind, List.length_append, ← Cursor.advanceBy_advanceBy,
    List.length_singleton, Cursor.advanceBy_one]
  change (c.skipIgnorable.skipUnrecognised true).skipIgnorable = _
  rw [hstep, Cursor.skipIgnorable_of_break hbreak]

theorem Inert.passesOver {u : Text} (h : Inert u) (source : Text) :
    PassesOver (u ++ ['\n']) source := by
  rcases h.ignorable_or_literal with hignorable | ⟨blanks, w, rfl, hblanks, hw⟩
  · exact passesOver_ignorable hignorable source
  · exact passesOver_literal hblanks hw source

/-- The line `u` makes no difference to the source behind it. -/
structure Inertness (u source : Text) : Prop where
  accepted : ∀ out, transpile source = .ok out →
    transpile (u ++ '\n' :: source) = .ok (u ++ '\n' :: out)
  refused : ∀ x, transpile source = .error x →
    ∃ y, transpile (u ++ '\n' :: source) = .error y ∧
      y.message = x.message ∧ y.line = x.line + 1 ∧ y.column = x.column
  -- All tokens are those of the source, and none of them stands in the line.
  tokens : (Scan.start (Text.unifyLineBreaks (u ++ '\n' :: source))).drain.1 =
    (Scan.start (Text.unifyLineBreaks source)).drain.1.map (Token.shift (u ++ ['\n']))

/-- Comments and literals on lines of their own are inert, whatever stands in them. -/
theorem transpile_inert {u : Text} (hu : Inert u) (source : Text) : Inertness u source := by
  have hcount : (u ++ ['\n']).count '\n' = 1 := by
    rw [List.count_append, List.count_eq_zero_of_not_mem hu.oneLine]
    rfl
  have hreturn : '\r' ∉ u ++ ['\n'] := by simpa using hu.noReturn
  have hlines : Text.unifyLineBreaks (u ++ '\n' :: source) =
      u ++ ['\n'] ++ Text.unifyLineBreaks source := by
    rw [← Text.unifyLineBreaks_append hreturn, List.append_assoc, List.singleton_append]
  have hpasses := hu.passesOver (Text.unifyLineBreaks source)
  have hsame : SameBehind (u ++ ['\n']) (transpile source) (transpile (u ++ '\n' :: source)) := by
    unfold transpile
    rw [transpileIn_eq, transpileIn_eq, hlines]
    exact transpileLines_behind hpasses .root
  constructor
  case accepted =>
    intro out hout
    rw [hout] at hsame
    generalize transpile (u ++ '\n' :: source) = result at hsame ⊢
    cases hsame with
    | accepted => rw [List.append_assoc, List.singleton_append]
  case refused =>
    intro x hx
    rw [hx] at hsame
    generalize transpile (u ++ '\n' :: source) = result at hsame ⊢
    cases hsame with
    | @refused _ y message line column =>
      rw [hcount, Nat.add_comm] at line
      exact ⟨y, rfl, message, line, column⟩
  case tokens =>
    rw [hlines]
    exact (Scan.drain_behind hpasses).1

/-- A tag in a literal before the same tag in code. -/
theorem transpile_inert_quoted_tag :
    Inert "\t'<A># \\' import'".toList ∧
      Inertness "\t'<A># \\' import'".toList "<A>\n</A>".toList := by
  have hline : Inert "\t'<A># \\' import'".toList :=
    .blank (.inr rfl) (.literal (by decide) (by decide) (by decide))
  exact ⟨hline, transpile_inert hline _⟩

end NodeMarkup
