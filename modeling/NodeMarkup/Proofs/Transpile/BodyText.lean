import NodeMarkup.Proofs.Text.LineBreak
import NodeMarkup.Proofs.Text.Quoted
import NodeMarkup.Proofs.Transpile.OneNode

namespace NodeMarkup

open RuleT

/-- A text of one line without tags, comments and keywords. -/
structure BodyText (t : Text) : Prop where
  noTag : '<' ∉ t
  noComment : '#' ∉ t
  oneLine : '\n' ∉ t
  noReturn : '\r' ∉ t
  keyword : ∀ word ∈ Grammar.keywords, ¬word <:+: t

variable {t : Text}

theorem Text.prefix_of_prefix_append_cons {word s rest : Text} {c : Char} (hc : c ∉ word)
    (h : word <+: s ++ c :: rest) : word <+: s := by
  rcases List.prefix_or_prefix_of_prefix h (List.prefix_append s (c :: rest)) with hshort | hlong
  · exact hshort
  · -- a longer word would hold the scalar value behind the text
    obtain ⟨more, rfl⟩ := hlong
    have hmore := (List.prefix_append_right_inj s).1 h
    cases more with
    | nil => simp
    | cons d more =>
      obtain ⟨rfl, -⟩ := List.cons_prefix_cons.1 hmore
      simp at hc

theorem not_mem_path (name : Lexeme.path.Whole) {c : Char} (hc : Lexeme.isSymbolPart c = false)
    (hdot : c ≠ '.') : c ∉ name.text := by
  have hname := Lexeme.avoids_path hc hdot name.text _ name.whole
  rwa [List.take_length] at hname

theorem fence_closingText (name : Lexeme.path.Whole) : (closingText name.text).Fence := by
  have hhead : (closingText name.text).head? = some '<' := rfl
  refine ⟨?_, ?_, ?_, ?_⟩
  · rw [hhead]
    simp [isIgnorable]
  · rw [hhead]
    intro c hc
    obtain rfl : '<' = c := by simpa using hc
    decide +kernel
  · simp [closingText, not_mem_path name (c := '"') (by decide) (by decide)]
  · simp [closingText, not_mem_path name (c := '\'') (by decide) (by decide)]

/-- The text of a body is passed over up to the closing tag, whatever quotes stand in it. -/
theorem BodyText.passable (h : BodyText t) (name : Lexeme.path.Whole) :
    t.Passable (closingText name.text) := by
  refine ⟨fun s hs hsuffix => ?_, fence_closingText name, .inl h.noComment⟩
  have hangle (u : Text) : s ++ closingText name.text ≠ '<' :: u := by
    intro heq
    obtain ⟨c, s, rfl⟩ := List.exists_cons_of_ne_nil hs
    obtain ⟨rfl, -⟩ := List.cons.inj heq
    exact h.noTag (hsuffix.subset List.mem_cons_self)
  refine ⟨fun word hword hbegins => ?_, fun u hu => absurd hu (hangle u),
    fun u hu => absurd hu (hangle _)⟩
  have hnone : ∀ word ∈ Grammar.keywords, '<' ∉ word := by decide
  have hshort : word <+: s := Text.prefix_of_prefix_append_cons (hnone word hword) hbegins
  exact h.keyword word hword (hshort.isInfix.trans hsuffix.isInfix)

theorem separator_of_line {line : Nat} {item : Cursor} (h : item.line = line) :
    separator true line item = [] := by
  simp [separator_eq, h]

/-- On a source of one line all places are on that line. -/
theorem Cursor.IsPlace.line_eq_zero {source : Text} {c : Cursor} (h : IsPlace source c)
    (hsource : '\n' ∉ source) : c.line = 0 := by
  obtain ⟨n, rfl⟩ := h
  have hcount : (source.take n).count '\n' = 0 :=
    List.count_eq_zero_of_not_mem fun hmem => hsource (List.mem_of_mem_take hmem)
  rw [line_advanceBy, line_start, rest_start, hcount]

/-- What a body says: its text without tabs, and without the blanks at its ends. -/
def bodyWords (t : Text) : Text := Text.trim (t.filter (· ≠ '\t'))

/-- The text of a body of one line becomes the only property of a node that has none. -/
theorem Node.properties_foldText {node : Node} {stop : Cursor} (h : node.properties = [])
    (hline : '\n' ∉ Range.text ⟨node.body, stop⟩) :
    ∃ range : Range, node.body.Reaches range.start ∧ node.body.Reaches range.stop ∧
      (node.foldText stop).properties =
        if bodyWords (Range.text ⟨node.body, stop⟩) = [] then []
        else [⟨textName, .ofText (bodyWords (Range.text ⟨node.body, stop⟩)), range⟩] := by
  generalize hraw : Range.text ⟨node.body, stop⟩ = raw at hline ⊢
  let start := node.body.advanceBy (raw.takeWhile Text.isBlank).length
  have hstart : node.body.Reaches start := Cursor.reaches_advanceBy _ _
  refine ⟨⟨start, start.advanceBy (Text.trim raw).length⟩, hstart,
    hstart.trans (Cursor.reaches_advanceBy _ _), ?_⟩
  have hwords : Text.trim (raw.filter fun c => c ≠ '\n' && c ≠ '\t') = bodyWords raw := by
    unfold bodyWords
    congr 1
    apply List.filter_congr
    intro c hc
    have hne : c ≠ '\n' := by
      rintro rfl
      exact hline hc
    simp [hne]
  have hnone (change : Value → Value) : node.setProperty? textName change = none := by
    simp [setProperty?, setFirst, h]
  rw [foldText_eq]
  dsimp only
  rw [hraw, hwords]
  by_cases hempty : bodyWords raw = []
  · simp [hempty, h]
  · simp [hempty, hnone, h, start]

/-- The code of a text as the property of a node. A text of nothing is no property. -/
def bodyCode (words : Text) : Text :=
  if words = [] then [] else "\"text\": ".toList ++ Text.quote words

section Render

variable {node : Node} {words : Text} {range : Range} {d : Declarations}

theorem renderProperties_bodyText {line : Nat} {properties : List Property}
    (h : properties = if words = [] then [] else [⟨textName, .ofText words, range⟩])
    (hstart : range.start.line = line) (hstop : range.stop.line = line) :
    renderProperties d true line properties = (bodyCode words, line) := by
  have hname : textName ≠ childrenName := by decide
  have hvalue : (Value.ofText words).render d = Text.quote words := rfl
  by_cases hwords : words = []
  · rw [h, if_pos hwords, bodyCode, if_pos hwords, renderProperties_nil]
  · rw [h, if_neg hwords, bodyCode, if_neg hwords, renderProperties_cons, if_neg hname]
    simp only [separator_of_line hstart, hvalue, hstop]
    simp [textName]

/-- A node on one line that has no property but the text of its body. -/
theorem Node.render_bodyText (hchildren : node.children = [])
    (hproperties : node.properties =
      if words = [] then [] else [⟨textName, .ofText words, range⟩])
    (hstart : range.start.line = node.range.start.line)
    (hstop : range.stop.line = node.range.start.line)
    (hcloser : node.closer.line = node.range.start.line) :
    node.render d =
      "create_node(".toList ++ renderClass node.className ++ ", \x7b".toList ++ bodyCode words
        ++ "\x7d, [])".toList := by
  have hname : decide (textName = childrenName) = false := by decide
  have happended : renderAppended d node.properties = [] := by
    rw [hproperties]
    split
    · rfl
    · simp [renderAppended, hname]
  rw [render_eq, renderProperties_bodyText hproperties hstart hstop, hchildren, happended]
  simp only [renderChildren_nil, separator_of_line hcloser]
  simp

end Render

/-- A class with a text between its two tags. -/
def withBody (name : Lexeme.path.Whole) (t : Text) : Text :=
  "<".toList ++ name.text ++ ">".toList ++ t ++ "</".toList ++ name.text ++ ">".toList

theorem not_mem_withBody (name : Lexeme.path.Whole) {c : Char} (ht : c ∉ t)
    (hc : Lexeme.isSymbolPart c = false) (hmarks : c ∉ ['.', '<', '>', '/']) :
    c ∉ withBody name t := by
  simp only [List.mem_cons, List.not_mem_nil, or_false, not_or] at hmarks
  have hname := not_mem_path name hc hmarks.1
  simp [withBody, hname, ht, hmarks]

theorem drain_withBody (name : Lexeme.path.Whole) (h : BodyText t) :
    ∃ opening closing : Tag,
      (Scan.start (withBody name t)).drain.1 = [.ofTag opening, .ofTag closing] ∧
      (Scan.start (withBody name t)).drain.2.1 = .finished ∧
      opening.className = name.text ∧ opening.properties = [] ∧
      ReadsPair ("<".toList ++ name.text ++ ">".toList) t name.text opening closing := by
  let written : WrittenTag := ⟨name, [], ⟨[], .nil⟩, false⟩
  have hfront : written.text = "<".toList ++ name.text ++ ">".toList := by
    simp [WrittenTag.text, WrittenTag.closer, written]
  have hsource : withBody name t = written.text ++ (t ++ closingText name.text) := by
    simp [withBody, hfront, closingText]
  obtain ⟨more, hhits⟩ := Grammar.hits_token written (t ++ closingText name.text)
  have hopening : Hits (written.text ++ (t ++ closingText name.text)) Grammar.token
      (fun token => ∃ tag, token = Token.ofTag tag ∧ tag.kind = .opening ∧
        tag.className = name.text ∧ tag.properties = []) more (t ++ closingText name.text) := by
    apply hhits.mono
    rintro _ ⟨tag, rfl, hmeans⟩
    exact ⟨tag, rfl, hmeans.kind, hmeans.className, List.forall₂_nil_left_iff.1 hmeans.properties⟩
  obtain ⟨opening, closing, htokens, hfinished, ⟨hclass, hproperties⟩, hpair⟩ :=
    Scan.drain_pair name rfl (h.passable name) hopening
  rw [hsource]
  exact ⟨opening, closing, htokens, hfinished, hclass, hproperties, hfront ▸ hpair⟩

/-- The text of a body becomes one literal that stands for its words, or nothing if it has none. -/
theorem transpile_bodyText (name : Lexeme.path.Whole) (h : BodyText t) :
    transpile ("<".toList ++ name.text ++ ">".toList ++ t ++ "</".toList ++ name.text
        ++ ">".toList) =
      .ok ("create_node(".toList
        ++ (if name.text = "self".toList then "get_script()".toList else name.text)
        ++ ", \x7b".toList
        ++ (if bodyWords t = [] then [] else "\"text\": ".toList ++ Text.quote (bodyWords t))
        ++ "\x7d, [])".toList) ∧
    ∀ rest, Text.unquote? (Text.quote (bodyWords t) ++ rest) = some (bodyWords t, rest) := by
  refine ⟨?_, Text.unquote?_quote (bodyWords t)⟩
  change transpile (withBody name t) = _
  have hlines : Text.unifyLineBreaks (withBody name t) = withBody name t :=
    Text.unifyLineBreaks_of_noReturn (not_mem_withBody name h.noReturn (by decide) (by decide))
  have hbreak := not_mem_withBody name h.oneLine (by decide) (by decide)
  have hsource : withBody name t =
      "<".toList ++ name.text ++ ">".toList ++ (t ++ closingText name.text) := by
    simp [withBody, closingText]
  obtain ⟨opening, closing, htokens, hfinished, hclass, hproperties, hpair⟩ := drain_withBody name h
  have hnode := Node.isPair_ofPair opening closing
  -- the text between the tags is the text of the body
  have hbody : Range.text ⟨(Node.ofTag opening).body, closing.range.start⟩ = t := hpair.text_between
  have hnone : (Node.ofTag opening).properties = [] := hproperties
  have hline : '\n' ∉ Range.text ⟨(Node.ofTag opening).body, closing.range.start⟩ := by
    rw [hbody]
    exact h.oneLine
  obtain ⟨range, hstart, hstop, hfolded⟩ := Node.properties_foldText hnone hline
  rw [hbody] at hfolded
  -- and everything is on one line
  have hplace : Cursor.IsPlace (withBody name t) opening.range.stop := by
    rw [hpair.opens.range, hsource]
    exact Cursor.reaches_advanceBy _ _
  have hzero : (Node.ofPair opening [] closing).range.start.line = 0 := by
    rw [hnode.range, hpair.opens.range]
    exact Cursor.line_start _
  have hcloser : closing.closer.line = 0 := by
    have hreach : Cursor.IsPlace (withBody name t) closing.closer := by
      rw [hpair.closer_eq, hsource]
      exact Cursor.reaches_advanceBy _ _
    exact hreach.line_eq_zero hbreak
  unfold transpile
  rw [transpileIn_eq, hlines, transpileLines_pair (hclass ▸ hpair) (hclass ▸ hsource) htokens hfinished,
    Node.render_bodyText hnode.children (hnode.properties.trans hfolded)
      (by rw [hzero]; exact (hplace.of_reaches hstart).line_eq_zero hbreak)
      (by rw [hzero]; exact (hplace.of_reaches hstop).line_eq_zero hbreak)
      (by rw [hzero, hnode.closer]; exact hcloser),
    hnode.className, hclass]
  rfl

/-- A text with quotes that nothing closes, a brace, a tab and a backslash at its end. -/
theorem transpile_bodyText_unbalanced :
    BodyText "\t\"\"\"it's \x7bé\t\" \\ ".toList ∧
      transpile "<self>\t\"\"\"it's \x7bé\t\" \\ </self>".toList =
        .ok ("create_node(get_script(), \x7b\"text\": ".toList
          ++ "\"\\\"\\\"\\\"it's \x7bé\\\" \\\\\"".toList ++ "\x7d, [])".toList) ∧
      Text.unquote? ("\"\\\"\\\"\\\"it's \x7bé\\\" \\\\\"".toList ++ "\x7d, [])".toList) =
        some ("\"\"\"it's \x7bé\" \\".toList, "\x7d, [])".toList) := by
  have hbody : BodyText "\t\"\"\"it's \x7bé\t\" \\ ".toList :=
    ⟨by decide, by decide, by decide, by decide, by decide⟩
  obtain ⟨hcode, hread⟩ := transpile_bodyText ⟨"self".toList, by decide⟩ hbody
  refine ⟨hbody, ?_, ?_⟩
  · calc transpile "<self>\t\"\"\"it's \x7bé\t\" \\ </self>".toList
        = _ := congrArg transpile (by decide +kernel)
      _ = _ := hcode
      _ = _ := congrArg Except.ok (by decide +kernel)
  · calc Text.unquote? ("\"\\\"\\\"\\\"it's \x7bé\\\" \\\\\"".toList ++ "\x7d, [])".toList)
        = _ := congrArg Text.unquote? (by decide +kernel)
      _ = _ := hread "\x7d, [])".toList
      _ = _ := by decide +kernel

end NodeMarkup
