import NodeMarkup.Proofs.Transpile.Acceptance

namespace NodeMarkup

theorem Declarations.mem_functionHeaders_foldl (header : FunctionHeader) (tokens : List Token)
    (d : Declarations) :
    header ∈ (tokens.foldl declare d).functionHeaders ↔
      .ofFunction header ∈ tokens ∨ header ∈ d.functionHeaders := by
  induction tokens generalizing d with
  | nil => simp
  | cons token tokens ih =>
    rw [List.foldl_cons, ih]
    cases token with
    | ofImport i => simp [declare]
    | ofVariable other => simp [declare]
    | ofTag tag => simp [declare]
    | ofFunction other =>
      simp only [declare, List.mem_cons, Token.ofFunction.injEq]
      constructor
      · intro h
        rcases h with htokens | hother | hd
        · exact .inl (.inr htokens)
        · exact .inl (.inl hother)
        · exact .inr hd
      · intro h
        rcases h with (hother | htokens) | hd
        · exact .inr (.inl hother)
        · exact .inl htokens
        · exact .inr (.inr hd)

theorem Declarations.isFunction_ofTokens (tokens : List Token) (name : Text) :
    (ofTokens tokens).isFunction name ↔
      ∃ header : FunctionHeader, .ofFunction header ∈ tokens ∧ header.name = name := by
  unfold isFunction functionHeader?
  rw [List.find?_isSome]
  constructor
  · intro h
    obtain ⟨header, hmem, hname⟩ := h
    have htoken := (mem_functionHeaders_foldl header tokens empty).1 hmem
    exact ⟨header, htoken.resolve_right (by simp [empty]), by simpa using hname⟩
  · intro h
    obtain ⟨header, htoken, hname⟩ := h
    refine ⟨header, ?_, by simpa using hname⟩
    exact (mem_functionHeaders_foldl header tokens empty).2 (.inl htoken)

variable {context : Resource.Context} {declarations : Declarations}

/-- The edits come one behind the other from `c` on, and none of them is of an empty range. -/
structure Edit.Ordered (c : Cursor) (edits : List Edit) : Prop where
  follows : ∃ stop, Repeats Edit.Follows c edits stop
  lt : ∀ edit ∈ edits, edit.range.start.position < edit.range.stop.position

namespace Edit.Ordered

variable {c d : Cursor} {edits : List Edit}

theorem nil (c : Cursor) : Edit.Ordered c [] := ⟨⟨c, .nil c⟩, by simp⟩

theorem from_before (h : c.Reaches d) (hd : Edit.Ordered d edits) : Edit.Ordered c edits := by
  obtain ⟨⟨stop, hfollows⟩, hlt⟩ := hd
  refine ⟨?_, hlt⟩
  cases hfollows with
  | nil => exact ⟨c, .nil c⟩
  | cons first rest => exact ⟨stop, .cons ⟨h.trans first.1, first.2⟩ rest⟩

theorem cons {edit : Edit} (hstart : c.Reaches edit.range.start)
    (hrange : edit.range.start.Reaches d) (hstop : edit.range.stop = d)
    (hlt : edit.range.start.position < d.position) (hd : Edit.Ordered d edits) :
    Edit.Ordered c (edit :: edits) := by
  obtain ⟨⟨stop, hfollows⟩, hlts⟩ := hd
  refine ⟨⟨stop, .cons ⟨hstart, hrange, hstop⟩ hfollows⟩, ?_⟩
  intro other hother
  rcases List.mem_cons.1 hother with hfirst | hmem
  · rw [hfirst, hstop]
    exact hlt
  · exact hlts other hmem

end Edit.Ordered

theorem EditsOf.ordered {tokens : List Token} {edits : List Edit}
    (h : EditsOf context declarations tokens edits) {c d : Cursor}
    (ht : Repeats Token.Follows c tokens d) : Edit.Ordered c edits := by
  induction h generalizing c with
  | nil => exact .nil c
  | header _ _ ih =>
    cases ht with
    | cons first rest => exact (ih rest).from_before first.advances.1
  | ofImport _ ih =>
    cases ht with
    | cons first rest =>
      obtain ⟨hstart, hrange, hstop⟩ := first.range_eq
      exact .cons hstart hrange hstop first.start_lt (ih rest)
  | single _ _ ih =>
    cases ht with
    | cons first rest =>
      obtain ⟨hstart, hrange, hstop⟩ := first.range_eq
      exact .cons hstart hrange hstop first.start_lt (ih rest)
  | pair _ _ _ _ _ ih =>
    cases ht with
    | @cons _ a _ _ _ first rest =>
      obtain ⟨b, hbody, hclosing⟩ := rest.of_append
      cases hclosing with
      | @cons _ d _ _ _ last rest =>
        obtain ⟨hstart, hrange, -⟩ := first.range_eq
        obtain ⟨-, -, hstop⟩ := last.range_eq
        -- from the end of the opening tag through the body to the end of the closing tag
        have hinside : a.Reaches d :=
          (hbody.reaches fun _ _ _ h => h.advances.1).trans last.advances.1
        have hlt := Nat.lt_of_lt_of_le first.start_lt hinside.position_le
        exact .cons hstart (hrange.trans hinside) hstop hlt (ih rest)

theorem transpileLines_eq_splice {source : Text} {edits : List Edit}
    (h : (Scan.start source).drain.2.1 = .finished)
    (he : EditsOf context (.ofTokens (Scan.start source).drain.1) (Scan.start source).drain.1 edits) :
    transpileLines context source = .ok (splice (.start source) edits) := by
  obtain ⟨d, htokens⟩ := (Scan.yields_drain source).tokens
  obtain ⟨stop, hfollows⟩ := (he.ordered htokens).follows
  have htext := (Draft.finished_ofSource source).text_edited hfollows
  rw [transpileLines_of_edits h he, htext, List.nil_append]

/-- What has become of a source: `lines` are its lines and `tokens` the tokens of these. -/
structure PassThrough (context : Resource.Context) (lines : Text) (tokens : List Token)
    (out : Text) : Prop where
  -- The functions are those of the whole source.
  declared : ∀ name, (Declarations.ofTokens tokens).isFunction name ↔
    ∃ header : FunctionHeader, .ofFunction header ∈ tokens ∧ header.name = name
  exists_edits : ∃ edits, EditsOf context (.ofTokens tokens) tokens edits
  piece : ∀ edits, EditsOf context (.ofTokens tokens) tokens edits →
    ∀ edit ∈ edits, edit.range.IsPiece lines
  ordered : ∀ edits, EditsOf context (.ofTokens tokens) tokens edits →
    edits.Pairwise fun edit later => edit.range.Precedes later.range
  -- The gaps between the edits, with what stands in the ranges of the edits, are the source.
  kept : ∀ edits, EditsOf context (.ofTokens tokens) tokens edits →
    splice (.start lines) (edits.map fun edit => ⟨edit.range, edit.range.text⟩) = lines
  -- The same gaps, with the code of the edits, are the text.
  spliced : ∀ edits, EditsOf context (.ofTokens tokens) tokens edits →
    out = splice (.start lines) edits

/-- An accepted source passes through unchanged but for its edits. -/
theorem transpileIn_passThrough (context : Resource.Context) (source out : Text)
    (h : transpileIn context source = .ok out) :
    PassThrough context (Text.unifyLineBreaks source)
      (Scan.start (Text.unifyLineBreaks source)).drain.1 out := by
  rw [transpileIn_eq] at h
  generalize Text.unifyLineBreaks source = lines at h ⊢
  obtain ⟨d, htokens⟩ := (Scan.yields_drain lines).tokens
  have hordered (edits : List Edit)
      (he : EditsOf context (.ofTokens (Scan.start lines).drain.1) (Scan.start lines).drain.1
        edits) : Edit.Ordered (.start lines) edits :=
    he.ordered htokens
  constructor
  case declared =>
    exact Declarations.isFunction_ofTokens _
  case exists_edits =>
    exact (wellNested_of_transpileLines_ok h).exists_edits rfl
  case piece =>
    intro edits he edit hmem
    obtain ⟨⟨stop, hfollows⟩, hlt⟩ := hordered edits he
    obtain ⟨a, b, ha, ⟨hstart, hrange, hb⟩, -⟩ := hfollows.of_mem (fun _ _ _ h => h.reaches) hmem
    have hplace : Cursor.IsPlace lines edit.range.start := ha.trans hstart
    exact ⟨hplace, hb ▸ hplace.of_reaches hrange, hlt edit hmem⟩
  case ordered =>
    intro edits he
    obtain ⟨stop, hfollows⟩ := (hordered edits he).follows
    exact hfollows.pairwise_precedes fun _ _ _ h => h
  case kept =>
    intro edits he
    obtain ⟨stop, hfollows⟩ := (hordered edits he).follows
    rw [splice_restore hfollows, Cursor.rest_start]
  case spliced =>
    intro edits he
    obtain ⟨stop, hfollows⟩ := (hordered edits he).follows
    have htext := (Draft.finished_ofSource lines).text_edited hfollows
    rw [transpileLines_of_edits (stop_of_transpileLines_ok h) he] at h
    rw [List.nil_append] at htext
    exact (Except.ok.inj h).symm.trans htext

theorem ok_of_toOption {ε α : Type} {x : Except ε α} {value : α} (h : x.toOption = some value) :
    x = .ok value := by
  cases x with
  | ok other => exact congrArg Except.ok (Option.some.inj h)
  | error x => cases h

/-- A tag with a text whose property names a function that is declared behind it. -/
theorem transpileIn_passThrough_forward_function :
    transpileIn .root "<A x=f>hi</A> # end\r\nfunc f():".toList =
      .ok ("create_node(A, \x7b\"x\": funcref(self, \"f\"), \"text\": \"hi\"\x7d, [])".toList
        ++ " # end\nfunc f():".toList) ∧
    PassThrough .root (Text.unifyLineBreaks "<A x=f>hi</A> # end\r\nfunc f():".toList)
      (Scan.start (Text.unifyLineBreaks "<A x=f>hi</A> # end\r\nfunc f():".toList)).drain.1
      ("create_node(A, \x7b\"x\": funcref(self, \"f\"), \"text\": \"hi\"\x7d, [])".toList
        ++ " # end\nfunc f():".toList) := by
  have hok : transpileIn .root "<A x=f>hi</A> # end\r\nfunc f():".toList =
      .ok ("create_node(A, \x7b\"x\": funcref(self, \"f\"), \"text\": \"hi\"\x7d, [])".toList
        ++ " # end\nfunc f():".toList) :=
    ok_of_toOption (by decide +kernel)
  exact ⟨hok, transpileIn_passThrough .root _ _ hok⟩

end NodeMarkup
