import NodeMarkup.Proofs.Draft.Splice
import NodeMarkup.Proofs.Grammar.RoundTrip
import NodeMarkup.Proofs.Source.Line
import NodeMarkup.Proofs.Token.Passing

namespace NodeMarkup

open RuleT

/-- The text of a closing tag. -/
def closingText (className : Text) : Text := "</".toList ++ (className ++ ">".toList)

theorem length_closingText (className : Text) :
    (closingText className).length = className.length + 3 := by
  simp [closingText]

theorem closingText_append (className rest : Text) :
    closingText className ++ rest = "</".toList ++ (className ++ (">".toList ++ rest)) := by
  simp [closingText]

theorem skipIgnorable_closingText (className rest : Text) :
    Text.skipIgnorable (closingText className ++ rest) = closingText className ++ rest :=
  Text.skipIgnorable_append rfl (by decide) rest

namespace Grammar

theorem hits_closingOpener (t : Text) :
    Hits ("</".toList ++ t) (alt [literal "</".toList, literal "<".toList])
      (fun opener => opener.text = "</".toList) ["</".toList] t := by
  have hcode : Text.skipIgnorable ("</".toList ++ t) = "</".toList ++ t :=
    Text.skipIgnorable_append rfl (by decide) t
  exact (Hits.literal _ t).alt_of_code [] [literal "<".toList] hcode (by simp)
    (Structured.literal _).keeps

theorem hits_closingTagToken (name : Lexeme.path.Whole) (rest : Text) :
    ∃ more, Hits (closingText name.text ++ rest) tagToken
      (fun token => ∃ tag, token = Token.ofTag tag ∧ tag.kind = .closing ∧
        tag.className = name.text) more rest := by
  -- behind the class it goes on like an opening tag without properties
  let written : WrittenTag := ⟨name, [], ⟨[], .nil⟩, false⟩
  obtain ⟨hclosing, -⟩ := closing_closer written rest
  have hclass := hits_path name hclosing.behind.apart
  have hproperties := Hits.many_nil hclosing.givesUp structured_property.keeps
  have hahead := hits_closerAhead hclosing.closer
  rw [closingText_append]
  refine ⟨"</".toList :: name.text :: ([] ++ [[written.closer].flatten]), ?_⟩
  refine Hits.bind (hits_closingOpener _) fun opener hopener => ?_
  refine Hits.bind hclass fun className hname => ?_
  refine Hits.bind hproperties fun properties hnone => ?_
  refine Hits.bind hahead fun ahead htrue => ?_
  subst hnone htrue
  rw [if_neg (by simp)]
  refine hits_closer written fun closer hcloser => ?_
  have hkind : (tagKind opener closer : Rule TagKind) = pure .closing := by
    unfold tagKind
    rw [hopener, hcloser]
    rfl
  rw [hkind]
  exact Hits.pure ⟨_, rfl, rfl, hname⟩

/-- The text of a closing tag is read as one, whatever follows. -/
theorem hits_closingTag (name : Lexeme.path.Whole) (rest : Text) :
    ∃ more, Hits (closingText name.text ++ rest) token
      (fun token => ∃ tag, token = Token.ofTag tag ∧ tag.kind = .closing ∧
        tag.className = name.text) more rest := by
  obtain ⟨more, htag⟩ := hits_closingTagToken name rest
  exact ⟨_, hits_token_of_tag rfl htag⟩

end Grammar

theorem Cursor.Reaches.eq_advanceBy_length {c d : Cursor} {w : Text} (h : c.Reaches d)
    (hw : c.rest = w ++ d.rest) : d = c.advanceBy w.length := by
  have htext : Range.text ⟨c, d⟩ = w := List.append_cancel_right (h.rest_eq_text.1.symm.trans hw)
  have hd := h.eq_advanceBy
  rwa [htext] at hd

/-- A search that stands before a token finds it and goes on behind it. -/
structure Engine.Finds (c d : Cursor) (e e' : Engine) (token : Token) : Prop where
  stands : token.Stands c d
  cursor : e'.cursor = d
  source : e'.source = e.source
  outer : e'.outer = []

theorem Engine.seek_hits {e : Engine} {c : Cursor} {Q : Token → Prop} {more : List Text}
    {w rest : Text} (ho : e.outer = []) (hroom : c.rest.length ≤ e.source.length)
    (hc : c.rest = w ++ rest) (hcode : Text.skipIgnorable (w ++ rest) = w ++ rest) (hw : w ≠ [])
    (h : Hits (w ++ rest) Grammar.token Q more rest) (openTags : Nat) :
    ∃ token e', e.seek openTags c = (.hit token, e') ∧ Q token ∧
      Finds c (c.advanceBy w.length) e e' token := by
  have hplace : c.skipIgnorable = c := Cursor.skipIgnorable_of_rest (by rw [hc, hcode])
  have hatEnd : ¬c.skipIgnorable.atEnd := by simp [hplace, Cursor.atEnd, hc, hw]
  have hbefore : (e.rewind c).Before (w ++ rest) := ⟨⟨hc, hc ▸ hroom, rfl, rfl⟩, rfl⟩
  obtain ⟨token, e', hrun, hQ, he', -⟩ := h _ hbefore
  have hkept := Grammar.structured_token.keeps (e.rewind c)
  have hreads := Grammar.reads_token (c := c) (e.rewind c) rfl rfl
  rw [hrun] at hkept hreads
  have hstands := hreads.2 token rfl
  rw [hplace] at hstands
  have hreach : c.Reaches e'.cursor := hkept.reaches
  have hcursor : e'.cursor = c.advanceBy w.length :=
    hreach.eq_advanceBy_length (by rw [hc, he'.rest])
  refine ⟨token, e', ?_, hQ, hcursor ▸ hstands, hcursor, hkept.source, hkept.outer.trans ho⟩
  rw [seek_of_code ho hatEnd, hplace, hrun]

/-- Two tags and the text between them: `front` is the opening tag, `between` has no token, and the
closing tag ends the source. -/
structure ReadsPair (front between className : Text) (opening closing : Tag) : Prop where
  kind : opening.kind = .opening
  kind' : closing.kind = .closing
  sameClass : closing.className = className
  opens : opening.Stands (.start (front ++ (between ++ closingText className)))
    ((Cursor.start (front ++ (between ++ closingText className))).advanceBy front.length)
  closes : closing.Stands
    ((Cursor.start (front ++ (between ++ closingText className))).advanceBy
      (front ++ between).length)
    ((Cursor.start (front ++ (between ++ closingText className))).advanceBy
      (front ++ (between ++ closingText className)).length)

namespace ReadsPair

variable {front between className : Text} {opening closing : Tag}

theorem text_between (h : ReadsPair front between className opening closing) :
    Range.text ⟨opening.range.stop, closing.range.start⟩ = between := by
  rw [h.opens.range, h.closes.range]
  dsimp only
  rw [List.length_append, ← Cursor.advanceBy_advanceBy, Cursor.text_advanceBy,
    Cursor.rest_advanceBy, Cursor.rest_start, List.drop_left, List.take_left]

/-- The last `>` stands behind the class of the closing tag. -/
theorem closer_eq (h : ReadsPair front between className opening closing) :
    closing.closer = (Cursor.start (front ++ (between ++ closingText className))).advanceBy
      (front ++ (between ++ ("</".toList ++ className))).length := by
  have hopener : closing.opener = "</".toList := by simp [Tag.opener, h.kind']
  obtain ⟨last, hproperties, hcloser⟩ := h.closes.body
  rw [h.closes.closing h.kind', hopener, h.sameClass] at hproperties
  cases hproperties
  rw [Cursor.advanceBy_advanceBy, ← List.length_append, List.append_assoc] at hcloser
  -- what is left is the mark itself
  have hrest : ((Cursor.start (front ++ (between ++ closingText className))).advanceBy
      (front ++ (between ++ ("</".toList ++ className))).length).rest = '>' :: [] := by
    have hsource : front ++ (between ++ closingText className) =
        front ++ (between ++ ("</".toList ++ className)) ++ ['>'] := by
      simp [closingText]
    rw [Cursor.rest_advanceBy, Cursor.rest_start, hsource, List.drop_left]
  rw [hcloser, Cursor.skipIgnorable_of_code hrest (by decide)]

end ReadsPair

theorem Scan.drain_pair {front between : Text} {Q : Tag → Prop} {more : List Text}
    (name : Lexeme.path.Whole) (hfront : front.head? = some '<')
    (hbetween : between.Passable (closingText name.text))
    (hopening : Hits (front ++ (between ++ closingText name.text)) Grammar.token
      (fun token => ∃ tag, token = Token.ofTag tag ∧ tag.kind = .opening ∧ Q tag) more
      (between ++ closingText name.text)) :
    ∃ opening closing : Tag,
      (Scan.start (front ++ (between ++ closingText name.text))).drain.1 =
        [.ofTag opening, .ofTag closing] ∧
      (Scan.start (front ++ (between ++ closingText name.text))).drain.2.1 = .finished ∧
      Q opening ∧ ReadsPair front between name.text opening closing := by
  let source := front ++ (between ++ closingText name.text)
  let c := Cursor.start source
  have hrest : c.rest = front ++ (between ++ closingText name.text) := Cursor.rest_start source
  have hroom (n : Nat) : (c.advanceBy n).rest.length ≤ source.length := by
    rw [Cursor.rest_advanceBy, hrest]
    simp [source]
  obtain ⟨t, ht⟩ : ∃ t, front = '<' :: t := List.head?_eq_some_iff.1 hfront
  -- the opening tag is found at once
  obtain ⟨_, e₁, hseek₁, ⟨opening, rfl, hkind, hQ⟩, hfinds₁⟩ :=
    Engine.seek_hits (e := .start source) (c := c) rfl (hroom 0) hrest
      (Text.skipIgnorable_append ht (by decide) _) (by simp [ht]) hopening 0
  have hsource₁ : e₁.source = source := hfinds₁.source
  -- then the search passes over the text and finds the closing tag
  have hbehind : (c.advanceBy front.length).rest = between ++ closingText name.text := by
    rw [Cursor.rest_advanceBy, hrest, List.drop_left]
  have hplace : (c.advanceBy front.length).advanceBy between.length =
      c.advanceBy (front ++ between).length := by
    rw [Cursor.advanceBy_advanceBy, List.length_append]
  have hclosing : (c.advanceBy (front ++ between).length).rest = closingText name.text ++ [] := by
    rw [← hplace, Cursor.rest_advanceBy, hbehind, List.drop_left, List.append_nil]
  obtain ⟨texts, hhits⟩ := Grammar.hits_closingTag name []
  obtain ⟨_, e₂, hseek₂, ⟨closing, rfl, hkind', hclass⟩, hfinds₂⟩ :=
    Engine.seek_hits (e := e₁) hfinds₁.outer (by rw [hsource₁]; exact hroom _) hclosing
      (skipIgnorable_closingText _ _) (by simp [closingText]) hhits 1
  rw [← hplace, ← Engine.seek_passable hbetween hbehind hfinds₁.outer
    (by rw [hsource₁]; exact hroom _), ← hfinds₁.cursor] at hseek₂
  have hstop : (c.advanceBy (front ++ between).length).advanceBy (closingText name.text).length =
      c.advanceBy source.length := by
    rw [Cursor.advanceBy_advanceBy, ← List.length_append, List.append_assoc]
  -- behind it nothing is left
  have hend : e₂.cursor.skipIgnorable.atEnd := by
    rw [hfinds₂.cursor, hstop]
    simp [Cursor.atEnd, Cursor.rest_skipIgnorable, hrest, source, Text.skipIgnorable]
  have hopens : (Token.ofTag opening).openTags 0 = 1 := by simp [Token.openTags, hkind]
  have hnext₁ : (Scan.start source).next = (.hit (.ofTag opening), ⟨e₁, 1, false⟩) := by
    have hfound := Scan.next_of_found (s := .start source) rfl hseek₁
    rwa [show (Token.ofTag opening).openTags (Scan.start source).openTags = 1 from hopens] at hfound
  have hnext₂ := Scan.next_of_found (s := ⟨e₁, 1, false⟩) rfl hseek₂
  have hlast (openTags : Nat) : (Scan.mk e₂ openTags false).next =
      (.miss, ⟨e₂.rewind e₂.cursor.skipIgnorable, openTags, true⟩) := Scan.next_of_atEnd rfl hend
  have htake (n : Nat) : ((Scan.start source).take (n + 3)).1 = [.ofTag opening, .ofTag closing] ∧
      ((Scan.start source).take (n + 3)).2.1 = .finished := by
    simp only [Scan.take_succ, hnext₁, hnext₂, hlast, and_self]
  obtain ⟨n, hn⟩ : ∃ n, source.length + 1 = n + 3 := by
    refine ⟨source.length - 2, ?_⟩
    have hlength := length_closingText name.text
    simp only [source, List.length_append]
    omega
  have hdrain : (Scan.start source).drain = (Scan.start source).take (n + 3) :=
    congrArg (fun k => (Scan.start source).take k) hn
  refine ⟨opening, closing, ?_, ?_, hQ, hkind, hkind', hclass, hfinds₁.stands.tag _ rfl, ?_⟩
  · rw [hdrain]
    exact (htake n).1
  · rw [hdrain]
    exact (htake n).2
  · have hstands := hfinds₂.stands.tag _ rfl
    rw [hstop] at hstands
    exact hstands

end NodeMarkup
