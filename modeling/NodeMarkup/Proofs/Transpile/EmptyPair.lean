import NodeMarkup.Proofs.Grammar.Twins
import NodeMarkup.Proofs.Node.Trees
import NodeMarkup.Proofs.Token.Order
import NodeMarkup.Proofs.Transpile.BodyText
/-!
Pairs without a body. The code of a node depends on the lines and the indentations of the parts of
its tags, and these stand at the same places in both sources.
-/
namespace NodeMarkup

variable {source : Text}

/-- A range with the text of the whole source goes from its start to its end. -/
theorem Range.IsPiece.whole {r : Range} (h : r.IsPiece source) (ht : r.text = source) :
    r.start = .start source ∧ r.stop.rest = [] := by
  obtain ⟨before, hsplit, hposition⟩ := h.start.split
  obtain ⟨before', hsplit', -⟩ := h.stop.split
  have hlength := congrArg List.length ht
  have hstart := congrArg List.length hsplit
  have hstop := congrArg List.length hsplit'
  rw [Range.text, List.length_take] at hlength
  rw [List.length_append] at hstart hstop
  have hnil : before = [] := List.length_eq_zero_iff.1 (by omega)
  refine ⟨h.start.eq_of_position_eq ?_, List.length_eq_zero_iff.1 (by omega)⟩
  rw [hposition, hnil, Cursor.position_start]
  rfl

/-- A token that the search finds where it begins is what the rule for tokens reads there. -/
theorem Engine.read_of_seek {openTags : Nat} {c : Cursor} {e x : Engine} {token : Token}
    (he : e.Between source) (hc : Cursor.IsPlace source c) (hplace : c.skipIgnorable = c)
    (hcode : ¬c.atEnd) (hseek : e.seek openTags c = (.hit token, x))
    (hstart : token.range.start = c) :
    Grammar.token.result (e.rewind c) = (.hit token, x) := by
  have hkept := Grammar.structured_token.keeps (e.rewind c)
  rw [Engine.seek_of_code he.outer_eq (by rwa [hplace]), hplace] at hseek
  rcases hrun : Grammar.token.result (e.rewind c) with ⟨found | _ | y, e'⟩ <;>
    rw [hrun] at hseek hkept
  · exact hseek
  · -- a token that is found later begins later
    have hskip := Cursor.skipUnrecognised_reaches (openTags == 0) c
    have hlt := Cursor.position_lt_skipUnrecognised (openTags == 0) hcode
    have hsought := sought_seek openTags ((he.rewind hc).kept hkept) (hc.of_reaches hskip)
    dsimp only at hseek
    rw [hseek] at hsought
    cases hsought with
    | found _ follows =>
      have hle := follows.range_eq.1.position_le
      rw [hstart] at hle
      omega
  · cases hseek

/-- A token that covers the whole source is what the rule for tokens reads at its start, and the scan
finds nothing behind it. -/
theorem Scan.read_of_whole {t : Text} {token : Token} (hsource : source = '<' :: t)
    (htokens : (Scan.start source).drain.1 = [token]) (hwhole : token.range.text = source) :
    (Scan.start source).drain.2.1 = .finished ∧
    ∃ x, Grammar.token.result ((Engine.start source).rewind (.start source)) = (.hit token, x) ∧
      x.cursor.rest = [] := by
  have hrest : (Cursor.start source).rest = '<' :: t := (Cursor.rest_start source).trans hsource
  have hplace := Cursor.skipIgnorable_of_code hrest (by decide)
  have hcode : ¬(Cursor.start source).atEnd := by rw [Cursor.atEnd, hrest]; simp
  have hpiece : token.range.IsPiece source := isPiece_of_mem_drain (by simp [htokens])
  obtain ⟨hstart, hstop⟩ := hpiece.whole hwhole
  obtain ⟨n, hn⟩ : ∃ n, source.length = n + 1 := ⟨t.length, by rw [hsource]; rfl⟩
  have hdrain : (Scan.start source).drain = (Scan.start source).take (n + 2) :=
    congrArg (fun k => (Scan.start source).take (k + 1)) hn
  rw [hdrain] at htokens ⊢
  have hbetween := Engine.between_start source
  have hsought := sought_seek 0 hbetween (Cursor.isPlace_start source)
  rcases hseek : (Engine.start source).seek 0 (.start source) with ⟨found | _ | y, x⟩ <;>
    rw [hseek] at hsought
  · have hnext := Scan.next_of_found (s := .start source) rfl hseek
    obtain rfl : found = token := by
      simp only [take_succ, hnext] at htokens
      exact (List.cons.inj htokens).1
    have hx : x.cursor.rest = [] := by
      cases hsought with
      | found _ follows => rw [← follows.range_eq.2.2, hstop]
    have hend : x.cursor.skipIgnorable.atEnd := by
      simp [Cursor.atEnd, Cursor.rest_skipIgnorable, hx, Text.skipIgnorable]
    have hread := Engine.read_of_seek hbetween (Cursor.isPlace_start source) hplace hcode hseek hstart
    refine ⟨?_, x, hread, hx⟩
    have hlast (openTags : Nat) : (Scan.mk x openTags false).next =
        (.miss, ⟨x.rewind x.cursor.skipIgnorable, openTags, true⟩) := Scan.next_of_atEnd rfl hend
    simp only [take_succ, hnext, hlast]
  · simp [take_succ, Scan.next_of_missed (s := .start source) rfl hseek] at htokens
  · simp [take_succ, Scan.next_of_failed (s := .start source) rfl hseek] at htokens

/-- The places are on the same line, and the line is indented alike. -/
structure Cursor.Alike (c d : Cursor) : Prop where
  line : c.line = d.line
  indentation : c.indentation = d.indentation

/-- Behind code on its line a place has the line and the indentation of the code. -/
theorem Cursor.IsPlace.behind_code {front w : Text} {c : Cursor} (h : IsPlace source c)
    (hsplit : source = front ++ (w ++ c.rest)) (hw : '\n' ∉ w) (hc : c.current? ≠ some '\n')
    (hcode : ∀ next ∈ (w ++ c.rest).head?, isIndent next = false) :
    c.line = front.count '\n' ∧ c.indentation = (Text.lastLine front).takeWhile isIndent := by
  refine ⟨?_, h.indentation_behind hsplit hw hc hcode⟩
  rw [← List.append_assoc] at hsplit
  rw [h.line_eq_count hsplit, List.count_append, List.count_eq_zero_of_not_mem hw, Nat.add_zero]

theorem Text.EndsTag.code {a : Text} (h : a.EndsTag) : ∀ next ∈ a.head?, isIndent next = false := by
  obtain ⟨c, hc, hend⟩ := h.head
  intro next hnext
  obtain rfl : c = next := Option.some.inj ((Option.mem_def.1 hc).symm.trans hnext)
  rcases hend with rfl | rfl <;> decide

section Places

variable {front a b : Text} {c d : Cursor}

/-- Before the end of a tag, and behind it, the line and the indentation are those of what stands
before the end. -/
theorem Cursor.IsPlace.at_end (ha : a.EndsTag) (hc : IsPlace (front ++ a) c)
    (hrest : c.rest = a ∨ c.rest = []) :
    c.line = front.count '\n' ∧ c.indentation = (Text.lastLine front).takeWhile isIndent := by
  rcases hrest with hrest | hrest
  · refine hc.behind_code (w := []) (by rw [hrest, List.nil_append]) (by simp) ?_ ?_
    · rw [current?, hrest]
      intro hbreak
      exact ha.noBreak (List.mem_of_mem_head? hbreak)
    · rw [hrest, List.nil_append]
      exact ha.code
  · refine hc.behind_code (w := a) (by rw [hrest, List.append_nil]) ha.noBreak ?_ ?_
    · simp [current?, hrest]
    · rw [hrest, List.append_nil]
      exact ha.code

/-- What stands before the ends of two tags stands at the same place in both. -/
theorem Cursor.Near.alike (ha : a.EndsTag) (hb : b.EndsTag) (hc : IsPlace (front ++ a) c)
    (hd : IsPlace (front ++ b) d) (h : c.Near a b d) : c.Alike d := by
  obtain ⟨u, hu, hu'⟩ := h
  have hend (hrest : c.rest = a ∨ c.rest = []) (hrest' : d.rest = b ∨ d.rest = []) : c.Alike d := by
    obtain ⟨hline, hindent⟩ := hc.at_end ha hrest
    obtain ⟨hline', hindent'⟩ := hd.at_end hb hrest'
    exact ⟨hline.trans hline'.symm, hindent.trans hindent'.symm⟩
  rcases u with _ | _ | ⟨next, u⟩
  · exact hend (.inr hu) (.inr hu')
  · exact hend (.inl hu) (.inl hu')
  · obtain ⟨before, hsplit, -⟩ := hc.split
    obtain ⟨before', hsplit', -⟩ := hd.split
    have hfront : front = before ++ next :: u := by
      rw [hu, Text.ahead, ← List.append_assoc] at hsplit
      exact List.append_cancel_right hsplit
    have hfront' : front = before' ++ next :: u := by
      rw [hu', Text.ahead, ← List.append_assoc] at hsplit'
      exact List.append_cancel_right hsplit'
    obtain rfl : before = before' := List.append_cancel_right (hfront.symm.trans hfront')
    have hread := hc.hasRead hsplit
    have hread' := hd.hasRead hsplit'
    have hcurrent : c.current? = some next := by rw [current?, hu]; rfl
    have hcurrent' : d.current? = some next := by rw [current?, hu']; rfl
    refine ⟨(hc.line_eq_count hsplit).trans (hd.line_eq_count hsplit').symm, ?_⟩
    by_cases hbreak : next = '\n'
    · subst hbreak
      simp [indentation, (hread.fresh hcurrent).1, (hread'.fresh hcurrent').1]
    · rw [hread.indentation (by simpa [hcurrent] using hbreak),
        hread'.indentation (by simpa [hcurrent'] using hbreak), hu, hu']
      rfl

end Places

/-- The properties are the same and stand on the same lines. -/
structure Property.Alike (p q : Property) : Prop where
  name : p.name = q.name
  value : p.value = q.value
  start : p.range.start.Alike q.range.start
  stop : p.range.stop.line = q.range.stop.line

section Render

variable {d : Declarations}

theorem separator_congr {c c' : Cursor} (h : c.Alike c') (first : Bool) (line : Nat) :
    separator first line c = separator first line c' := by
  simp only [separator_eq, h.line, h.indentation]

theorem renderProperties_congr {ps qs : List Property} (h : List.Forall₂ Property.Alike ps qs)
    (first : Bool) (line : Nat) :
    renderProperties d first line ps = renderProperties d first line qs := by
  induction h generalizing first line with
  | nil => rfl
  | cons hp _ ih =>
    rw [renderProperties_cons, renderProperties_cons, hp.name, hp.value, hp.stop,
      separator_congr hp.start, ih, ih]

theorem renderAppended_congr {ps qs : List Property} (h : List.Forall₂ Property.Alike ps qs) :
    renderAppended d ps = renderAppended d qs := by
  have hvalues : (ps.filter (·.name = childrenName)).map Property.value =
      (qs.filter (·.name = childrenName)).map Property.value := by
    induction h with
    | nil => rfl
    | @cons p q _ _ hp _ ih =>
      have hname : decide (p.name = childrenName) = decide (q.name = childrenName) := by rw [hp.name]
      rw [List.filter_cons, List.filter_cons, hname]
      split
      · rw [List.map_cons, List.map_cons, hp.value, ih]
      · exact ih
  have hlast := congrArg List.getLast? hvalues
  rw [List.getLast?_map, List.getLast?_map] at hlast
  have happended (properties : List Property) : renderAppended d properties =
      (((properties.filter (·.name = childrenName)).getLast?.map Property.value).map fun value =>
        " + ".toList ++ value.render d).getD [] := by
    unfold renderAppended
    cases (properties.filter (·.name = childrenName)).getLast? <;> rfl
  rw [happended, happended, hlast]

/-- The code of a node without children is told by its class, its properties and the lines. -/
theorem Node.render_congr {node other : Node} (hclass : node.className = other.className)
    (hproperties : List.Forall₂ Property.Alike node.properties other.properties)
    (hchildren : node.children = []) (hchildren' : other.children = [])
    (hstart : node.range.start.line = other.range.start.line)
    (hcloser : node.closer.Alike other.closer) :
    node.render d = other.render d := by
  rw [render_eq, render_eq, hclass, hchildren, hchildren', hstart, renderProperties_congr hproperties,
    renderAppended_congr hproperties, renderChildren, separator_congr hcloser]

end Render

/-- A body without text changes nothing. -/
theorem Node.foldText_of_nil {node : Node} {stop : Cursor} (h : Range.text ⟨node.body, stop⟩ = []) :
    node.foldText stop = node := by
  rw [foldText_eq]
  rw [h]
  rfl

/-- Nothing that could stand in a tag goes on over its end and the closing tag behind it. -/
theorem endsTag_pair (name : Lexeme.path.Whole) : Text.EndsTag ('>' :: closingText name.text) := by
  have hnot {c : Char} (hc : Lexeme.isSymbolPart c = false) (hmarks : c ∉ ['.', '<', '>', '/']) :
      c ∉ '>' :: closingText name.text := by
    simp only [List.mem_cons, List.not_mem_nil, or_false, not_or] at hmarks
    simp [closingText, not_mem_path name hc hmarks.1, hmarks]
  refine ⟨⟨'>', rfl, .inr rfl⟩, hnot (by decide) (by decide), ?_, hnot (by decide) (by decide)⟩
  intro c hc
  rw [Text.isQuote, Bool.or_eq_false_iff, decide_eq_false_iff_not, decide_eq_false_iff_not]
  constructor
  · rintro rfl
    exact hnot (by decide) (by decide) hc
  · rintro rfl
    exact hnot (by decide) (by decide) hc

theorem passable_nil (name : Lexeme.path.Whole) : Text.Passable [] (closingText name.text) := by
  refine ⟨fun s hs hsuffix => absurd (List.suffix_nil.1 hsuffix) hs, fence_closingText name, ?_⟩
  exact .inl (by simp)

section Pair

variable {name : Lexeme.path.Whole} {inner : Text} {tag : Tag}

/-- The text of a tag up to its end. -/
def beforeEnd (name : Lexeme.path.Whole) (inner : Text) : Text := '<' :: (name.text ++ inner)

/-- The tag without a body and the tag that is opened and closed at once have the same properties. -/
theorem drain_emptyPair
    (htokens : (Scan.start (beforeEnd name inner ++ "/>".toList)).drain.1 = [.ofTag tag])
    (hwhole : tag.range.text = beforeEnd name inner ++ "/>".toList) :
    (Scan.start (beforeEnd name inner ++ "/>".toList)).drain.2.1 = .finished ∧
    tag.closer.rest = "/>".toList ∧
    ∃ opening closing : Tag,
      (Scan.start (beforeEnd name inner ++ '>' :: closingText name.text)).drain.1 =
        [.ofTag opening, .ofTag closing] ∧
      (Scan.start (beforeEnd name inner ++ '>' :: closingText name.text)).drain.2.1 = .finished ∧
      tag.className = opening.className ∧
      List.Forall₂ (Property.Near "/>".toList ('>' :: closingText name.text)) tag.properties
        opening.properties ∧
      ReadsPair (beforeEnd name inner ++ ['>']) [] name.text opening closing := by
  have hsource : beforeEnd name inner ++ "/>".toList =
      '<' :: (name.text ++ (inner ++ "/>".toList)) := by simp [beforeEnd]
  obtain ⟨hfinished, x, hrun, hx⟩ := Scan.read_of_whole hsource htokens hwhole
  have hbefore : ((Engine.start (beforeEnd name inner ++ "/>".toList)).rewind
      (.start (beforeEnd name inner ++ "/>".toList))).Before
        ('<' :: (name.text ++ (inner ++ "/>".toList))) :=
    ⟨⟨(Cursor.rest_start _).trans hsource, by rw [← hsource]; exact Nat.le_refl _, rfl, rfl⟩, rfl⟩
  obtain ⟨e, y, he, hread, hy⟩ := Grammar.tagToken_of_token hbefore hrun
  obtain ⟨hcloser, more, hhits⟩ :=
    Grammar.hits_tagToken_of_single (endsTag_pair name) he hread (hy ▸ hx)
  refine ⟨hfinished, hcloser, ?_⟩
  have hsource' : '<' :: (name.text ++ (inner ++ '>' :: closingText name.text)) =
      beforeEnd name inner ++ ['>'] ++ ([] ++ closingText name.text) := by simp [beforeEnd]
  have htoken := Grammar.hits_token_of_tag rfl hhits
  rw [hsource'] at htoken
  obtain ⟨opening, closing, htokens', hfinished', ⟨hclass, hproperties⟩, hpair⟩ :=
    Scan.drain_pair name rfl (passable_nil name) htoken
  rw [List.append_assoc] at htokens' hfinished'
  exact ⟨opening, closing, htokens', hfinished', hclass, hproperties, hpair⟩

theorem alike_of_near {front a b : Text} (ha : a.EndsTag) (hb : b.EndsTag) {ps qs : List Property}
    (h : List.Forall₂ (Property.Near a b) ps qs) (hps : ∀ p ∈ ps, p.range.IsPiece (front ++ a))
    (hqs : ∀ q ∈ qs, q.range.IsPiece (front ++ b)) : List.Forall₂ Property.Alike ps qs := by
  induction h with
  | nil => exact .nil
  | cons hnear _ ih =>
    obtain ⟨hp, hps⟩ := List.forall_mem_cons.1 hps
    obtain ⟨hq, hqs⟩ := List.forall_mem_cons.1 hqs
    refine .cons ⟨hnear.name, hnear.value, ?_, ?_⟩ (ih hps hqs)
    · exact hnear.start.alike ha hb hp.start hq.start
    · exact (hnear.stop.alike ha hb hp.stop hq.stop).line

/-- The last `>` of an empty pair stands on the line on which the tag without a body ends. -/
theorem alike_closer {opening closing : Tag}
    (hplace : Cursor.IsPlace (beforeEnd name inner ++ "/>".toList) tag.closer)
    (hcloser : tag.closer.rest = "/>".toList)
    (hpair : ReadsPair (beforeEnd name inner ++ ['>']) [] name.text opening closing) :
    tag.closer.Alike closing.closer := by
  let w : Text := '>' :: ("</".toList ++ name.text)
  have hsource : beforeEnd name inner ++ ['>'] ++ ([] ++ closingText name.text) =
      beforeEnd name inner ++ (w ++ ['>']) := by simp [closingText, w]
  have hplace' : Cursor.IsPlace (beforeEnd name inner ++ (w ++ ['>'])) closing.closer := by
    rw [hpair.closer_eq, ← hsource]
    exact Cursor.reaches_advanceBy _ _
  have hrest : closing.closer.rest = ['>'] := by
    have hlength : (beforeEnd name inner ++ ['>'] ++ ([] ++ ("</".toList ++ name.text))).length =
        (beforeEnd name inner ++ w).length := by simp [w]
    rw [hpair.closer_eq, hsource, hlength, Cursor.rest_advanceBy, Cursor.rest_start,
      ← List.append_assoc, List.drop_left]
  have hw : '\n' ∉ w := by
    simp [w, not_mem_path name (c := '\n') (by decide) (by decide)]
  obtain ⟨hline, hindent⟩ := hplace.at_end endsTag_single (.inl hcloser)
  obtain ⟨hline', hindent'⟩ := hplace'.behind_code (by rw [hrest]) hw
    (by simp [Cursor.current?, hrest]) (by simp [w, isIndent])
  exact ⟨hline.trans hline'.symm, hindent.trans hindent'.symm⟩

/-- A pair without a body has the code of a tag without a body, if their parts stand on the same
lines. -/
theorem Node.render_emptyPair {front : Text} {opening closing : Tag}
    (hpair : ReadsPair front [] name.text opening closing)
    (hclass : tag.className = opening.className)
    (hproperties : List.Forall₂ Property.Alike tag.properties opening.properties)
    (hstart : tag.range.start.line = 0) (hcloser : tag.closer.Alike closing.closer)
    (d : Declarations) :
    (Node.ofTag tag).render d = (Node.ofPair opening [] closing).render d := by
  have hnode := Node.isPair_ofPair opening closing
  -- between the tags of the pair there is no text
  have hbody : (Node.ofTag opening).foldText closing.range.start = Node.ofTag opening :=
    Node.foldText_of_nil hpair.text_between
  refine Node.render_congr (hclass.trans hnode.className.symm) ?_ rfl hnode.children ?_ ?_
  · rw [hnode.properties, hbody]
    exact hproperties
  · rw [hnode.range, hpair.opens.range]
    exact hstart.trans (Cursor.line_start _).symm
  · rw [hnode.closer]
    exact hcloser

theorem transpileLines_emptyPair {context : Resource.Context}
    (htokens : (Scan.start (beforeEnd name inner ++ "/>".toList)).drain.1 = [.ofTag tag])
    (hkind : tag.kind = .single) (hclass : tag.className = name.text)
    (hwhole : tag.range.text = beforeEnd name inner ++ "/>".toList) :
    transpileLines context (beforeEnd name inner ++ "/>".toList) =
      transpileLines context (beforeEnd name inner ++ '>' :: closingText name.text) := by
  obtain ⟨hfinished, hcloser, opening, closing, htokens', hfinished', hclass', hproperties, hpair⟩ :=
    drain_emptyPair htokens hwhole
  have hmem : Token.ofTag tag ∈ (Scan.start (beforeEnd name inner ++ "/>".toList)).drain.1 := by
    rw [htokens]
    exact List.mem_singleton_self _
  obtain ⟨hstart, hstop⟩ := (Scan.isPiece_of_mem_drain hmem).whole hwhole
  obtain ⟨_, _, hc, place, hreach, -, -, hstands, -⟩ := Scan.follows_of_mem_drain hmem
  have hplace := hc.of_reaches hreach
  have htag := hstands.tag tag rfl
  have hsource : beforeEnd name inner ++ ['>'] ++ ([] ++ closingText name.text) =
      beforeEnd name inner ++ '>' :: closingText name.text := by simp
  have hopens := hpair.opens.orderly (Cursor.isPlace_start _)
  rw [hsource] at hopens
  -- the parts of the tag stand on the same lines in both sources
  have halike := alike_of_near endsTag_single (endsTag_pair name) hproperties
    (htag.orderly hplace).piece hopens.piece
  have hline : tag.range.start.line = 0 := (congrArg Cursor.line hstart).trans (Cursor.line_start _)
  have hlast := alike_closer (hplace.of_reaches htag.inOrder.reaches) hcloser hpair
  have hname : opening.className = name.text := hclass'.symm.trans hclass
  rw [transpileLines_single htokens hfinished hkind hstart hstop,
    transpileLines_pair (hname ▸ hpair) (by rw [hname, hsource]) htokens' hfinished',
    Node.render_emptyPair hpair hclass' halike hline hlast]
  rfl

end Pair

/-- A tag without a body has the same code as the tag that is opened and closed at once. -/
theorem transpile_emptyPair (name : Lexeme.path.Whole) {inner : Text} (hreturn : '\r' ∉ inner)
    {tag : Tag}
    (htokens : (Scan.start ("<".toList ++ name.text ++ inner ++ "/>".toList)).drain.1 =
      [.ofTag tag])
    (hkind : tag.kind = .single) (hclass : tag.className = name.text)
    (hwhole : tag.range.text = "<".toList ++ name.text ++ inner ++ "/>".toList) :
    transpile ("<".toList ++ name.text ++ inner ++ "/>".toList) =
      transpile ("<".toList ++ name.text ++ inner ++ "></".toList ++ name.text ++ ">".toList) := by
  have hsource : "<".toList ++ name.text ++ inner ++ "/>".toList =
      beforeEnd name inner ++ "/>".toList := by simp [beforeEnd]
  have hsource' : "<".toList ++ name.text ++ inner ++ "></".toList ++ name.text ++ ">".toList =
      beforeEnd name inner ++ '>' :: closingText name.text := by simp [beforeEnd, closingText]
  have hname := not_mem_path name (c := '\r') (by decide) (by decide)
  have hlines : Text.unifyLineBreaks (beforeEnd name inner ++ "/>".toList) =
      beforeEnd name inner ++ "/>".toList :=
    Text.unifyLineBreaks_of_noReturn (by simp [beforeEnd, hname, hreturn])
  have hlines' : Text.unifyLineBreaks (beforeEnd name inner ++ '>' :: closingText name.text) =
      beforeEnd name inner ++ '>' :: closingText name.text :=
    Text.unifyLineBreaks_of_noReturn (by simp [beforeEnd, closingText, hname, hreturn])
  rw [hsource] at htokens hwhole ⊢
  rw [hsource']
  unfold transpile
  rw [transpileIn_eq, transpileIn_eq, hlines, hlines']
  exact transpileLines_emptyPair htokens hkind hclass hwhole

/-- A tag over several lines, with a call, a block, a comment and a literal that hold marks. -/
theorem transpile_emptyPair_lines :
    let inner := "\n  size = f( 1, \x7b a['\x7d'] \x7d ).g # a />\n  text=\"a/>b\"\n\t".toList
    let size := "\n  \"size\": f(1,a['\x7d']).g,".toList
    let text := "\n  \"text\": \"a/>b\"".toList
    transpile ("<ui.Box".toList ++ inner ++ "/>".toList) =
        transpile ("<ui.Box".toList ++ inner ++ "></ui.Box>".toList) ∧
      transpile ("<ui.Box".toList ++ inner ++ "></ui.Box>".toList) =
        .ok ("create_node(ui.Box, \x7b".toList ++ size ++ text ++ "\x7d, [\n\t])".toList) := by
  intro inner size text
  let name : Lexeme.path.Whole := ⟨"ui.Box".toList, by decide⟩
  let source := "<".toList ++ name.text ++ inner ++ "/>".toList
  obtain ⟨tag, htokens, hkind, hclass, hwhole⟩ : ∃ tag, (Scan.start source).drain.1 = [.ofTag tag] ∧
      tag.kind = .single ∧ tag.className = name.text ∧ tag.range.text = source := by
    refine ⟨((Scan.start source).drain.1.filterMap Token.tag?).headD default, ?_, ?_, ?_, ?_⟩ <;>
      decide +kernel
  refine ⟨?_, ok_of_toOption (by decide +kernel)⟩
  calc transpile ("<ui.Box".toList ++ inner ++ "/>".toList)
      = transpile source := congrArg transpile (by decide +kernel)
    _ = _ := transpile_emptyPair name (by decide +kernel) htokens hkind hclass hwhole
    _ = _ := congrArg transpile (by decide +kernel)

end NodeMarkup
