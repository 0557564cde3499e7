import NodeMarkup.Proofs.Grammar.Values
import NodeMarkup.Proofs.Token.Scan

namespace NodeMarkup

open RuleT

/-- The property has the name and the value that are written. -/
structure WrittenProperty.Means (p : WrittenProperty) (property : Property) : Prop where
  name : property.name = p.name.text
  value : property.value = p.value.value

/-- The tag has the form, the class and the properties that are written. -/
structure WrittenTag.Means (written : WrittenTag) (tag : Tag) : Prop where
  kind : tag.kind = if written.single then .single else .opening
  className : tag.className = written.className.text
  properties : List.Forall₂ WrittenProperty.Means written.properties tag.properties

namespace Grammar

variable {t rest : Text}

theorem marks_value : Marks value := by
  intro e e' found hrun
  rw [result_value] at hrun
  exact Marks.alt (keeps_valueBranches _) e e' found hrun

theorem hits_value (v : WrittenValue) (ht : Text.skipIgnorable t = v.text ++ rest)
    (hrest : rest.Behind) : Hits t value (· = v.value) [v.code] rest := by
  intro e he
  have hlength : (v.text ++ rest).length ≤ t.length := by
    rw [← ht]
    exact Text.skipIgnorable_length_le t
  have hbound : value.result e = (valueWithin (t.length + 1)).result e := by
    unfold RuleT.result RuleT.run value
    rw [he.rest]
  rw [hbound]
  exact hits_written v t rest t.length ht hrest hlength e he

theorem hits_property (p : WrittenProperty) (hrest : rest.Behind) :
    Hits (p.name.text ++ (p.before.text ++ '=' :: (p.behind.text ++ (p.value.text ++ rest))))
      property p.Means [p.name.text, ['='], p.value.code] rest := by
  have hcode : Text.skipIgnorable (p.behind.text ++ (p.value.text ++ rest)) = p.value.text ++ rest := by
    rw [p.behind.ignorable.skip_append, p.value.skip_append]
  have hvalue := hits_value p.value hcode hrest
  generalize p.behind.text ++ (p.value.text ++ rest) = t at hvalue ⊢
  have hname : Hits (p.name.text ++ (p.before.text ++ '=' :: t)) (pattern Lexeme.propertyName)
      (fun capture => capture.text = p.name.text) [p.name.text] (p.before.text ++ '=' :: t) := by
    apply Hits.pattern_append
    have hbehind := p.before.behind (c := '=') (by decide) (by decide) (.inl (by decide)) t
    rw [Lexeme.local_propertyName.append hbehind.apart, p.name.whole]
  have hequals : Hits (p.before.text ++ '=' :: t) (framed (literal "=".toList)) (fun _ => True)
      [['=']] t := by
    have hmark := Hits.mark '=' (show "=".toList = _ from rfl) t
    rw [← p.before.ignorable.skip_append_cons (c := '=') (by decide)] at hmark
    exact (hmark.framed (Structured.literal _).keeps).mono fun _ _ => trivial
  have hhead : Hits (p.name.text ++ (p.before.text ++ '=' :: t))
      (seq [pattern Lexeme.propertyName, framed (literal "=".toList)])
      (fun head => ∃ name more, head = name :: more ∧ name.text = p.name.text)
      [p.name.text, ['=']] t := by
    refine hname.seq_cons fun name hname => ?_
    exact hequals.seq_cons fun _ _ => Hits.seq_nil ⟨name, _, rfl, hname⟩
  refine Hits.bind hhead ?_
  rintro _ ⟨name, more, rfl, hname⟩
  refine Hits.requireLast .missingValue hvalue marks_value ?_
  rintro value rfl
  exact .check ((Hits.rangeFrom _).bind_silent fun _ _ => .pure ⟨hname, rfl⟩)

/-- A text that ends the properties of a tag: a closer, perhaps behind ignorable text. -/
structure Closing (rest : Text) : Prop where
  behind : rest.Behind
  closer : (Text.skipIgnorable rest).head? = some '/' ∨ (Text.skipIgnorable rest).head? = some '>'

theorem Closing.givesUp (h : Closing rest) : GivesUp (Text.skipIgnorable rest) property := by
  have hnone : Lexeme.propertyName (Text.skipIgnorable rest) = none := by
    cases ht : Text.skipIgnorable rest with
    | nil => rfl
    | cons c t =>
      have hc : Lexeme.isSymbolStart c = false := by
        rcases h.closer with hclose | hclose
        · obtain rfl : c = '/' := by simpa [ht] using hclose
          decide
        · obtain rfl : c = '>' := by simpa [ht] using hclose
          decide
      simp [Lexeme.propertyName, Pattern.andThen, Pattern.one, hc]
  exact ((Misses.pattern hnone).givesUp.seq _).bind _

theorem hits_closerAhead
    (h : (Text.skipIgnorable rest).head? = some '/' ∨ (Text.skipIgnorable rest).head? = some '>') :
    Hits rest closerAhead (· = true) [] rest := by
  apply Hits.ofState
  intro e he
  rw [← he, ← Cursor.rest_skipIgnorable] at h
  rw [Bool.or_eq_true, decide_eq_true_eq, decide_eq_true_eq]
  exact h

theorem behind_properties (properties : List WrittenProperty) (hrest : rest.Behind) :
    Text.Behind ((properties.map WrittenProperty.text).flatten ++ rest) := by
  cases properties with
  | nil => exact hrest
  | cons p properties =>
    obtain ⟨c, t, ht, hc⟩ := p.name.head_of_one
    have hdot : c ≠ '.' := by
      rintro rfl
      exact absurd hc (by decide)
    simp only [List.map_cons, List.flatten_cons, WrittenProperty.text, ht, List.append_assoc,
      List.cons_append]
    exact p.gap.behind (beginsOther_of_isSymbolStart hc).code hdot (.inr p.gap_ne_nil) _

theorem hits_properties (properties : List WrittenProperty) (hrest : Closing rest) :
    ∃ more, Hits ((properties.map WrittenProperty.text).flatten ++ rest) (many property)
      (List.Forall₂ WrittenProperty.Means properties) more rest := by
  induction properties with
  | nil =>
    refine ⟨[], (Hits.many_nil hrest.givesUp structured_property.keeps).mono ?_⟩
    rintro _ rfl
    exact .nil
  | cons p properties ih =>
    obtain ⟨more, hmore⟩ := ih
    have hproperty := hits_property p (behind_properties properties hrest.behind)
    have htext : ((p :: properties).map WrittenProperty.text).flatten ++ rest =
        p.gap.text ++ (p.name.text ++ (p.before.text ++ '=' :: (p.behind.text ++
          (p.value.text ++ ((properties.map WrittenProperty.text).flatten ++ rest))))) := by
      simp [WrittenProperty.text]
    rw [← p.name.skip_append, ← p.gap.ignorable.skip_append, ← htext] at hproperty
    have hlt : ((properties.map WrittenProperty.text).flatten ++ rest).length <
        (((p :: properties).map WrittenProperty.text).flatten ++ rest).length := by
      rw [htext]
      simp only [List.length_append, List.length_cons]
      omega
    refine ⟨_, (hproperty.many_cons structured_property.keeps hlt hmore).mono ?_⟩
    rintro _ ⟨q, found, rfl, hq, hfound⟩
    exact .cons hq hfound

theorem hits_opener (name : Lexeme.path.Whole) (t : Text) :
    Hits ('<' :: (name.text ++ t)) (alt [literal "</".toList, literal "<".toList])
      (fun opener => opener.text = "<".toList) [['<']] (name.text ++ t) := by
  obtain ⟨c, w, hw, hc⟩ := name.head_of_one
  have hslash : c ≠ '/' := by
    rintro rfl
    exact absurd hc (by decide)
  refine (Hits.mark '<' rfl _).alt_of_code [literal "</".toList] []
    (Text.skipIgnorable_of_code (by decide)) ?_ (Structured.literal _).keeps
  have hmatch : ¬"</".toList <+: '<' :: (name.text ++ t) := by
    rw [hw]
    simpa [List.cons_prefix_cons] using Ne.symm hslash
  simpa using ⟨(Misses.literal hmatch).givesUp, (Structured.literal _).keeps⟩

theorem closing_closer (tag : WrittenTag) (rest : Text) :
    Closing (tag.gap.text ++ (tag.closer ++ rest)) ∧
      Text.skipIgnorable (tag.gap.text ++ (tag.closer ++ rest)) = tag.closer ++ rest := by
  obtain ⟨c, t, ht, hc⟩ : ∃ c t, tag.closer = c :: t ∧ (c = '/' ∨ c = '>') := by
    unfold WrittenTag.closer
    split
    · exact ⟨'/', ['>'], rfl, .inl rfl⟩
    · exact ⟨'>', [], rfl, .inr rfl⟩
  have hcode : isIgnorable c = false := by rcases hc with rfl | rfl <;> decide
  have hskip : Text.skipIgnorable (tag.gap.text ++ (tag.closer ++ rest)) = tag.closer ++ rest := by
    rw [ht]
    exact tag.gap.ignorable.skip_append_cons hcode _
  refine ⟨⟨?_, ?_⟩, hskip⟩
  · rw [ht]
    exact tag.gap.behind hcode (by rcases hc with rfl | rfl <;> decide)
      (.inl (by rcases hc with rfl | rfl <;> decide)) _
  · rw [hskip, ht]
    simpa using hc

/-- A `>` is read once a closer is owed, and what follows it. -/
theorem hits_angle (hskip : Text.skipIgnorable t = ">".toList ++ rest) {next : Capture → Rule Token}
    {Q : Token → Prop}
    (hn : ∀ closer, closer.text = ">".toList → Hits rest (next closer) Q [] rest) :
    Hits t (require .unclosedTag >>= fun _ => alt [literal "/>".toList, literal ">".toList] >>= next)
      Q [[">".toList].flatten] rest := by
  have hk (word : Text) : Keeps (literal word : Rule Capture) := (Structured.literal word).keeps
  have hliteral := Hits.literal ">".toList rest
  have hup : GivesUp (">".toList ++ rest) (literal "/>".toList : Rule Capture) :=
    (Misses.literal (by simp)).givesUp
  rw [← hskip] at hliteral hup
  exact hliteral.require_alt _ [literal "/>".toList] [] (by simpa using ⟨hup, hk _⟩) (hk _) hn

/-- The closer of a tag is read once it is owed, and what follows it. -/
theorem hits_closer (tag : WrittenTag) {next : Capture → Rule Token} {Q : Token → Prop}
    (hn : ∀ closer, closer.text = tag.closer → Hits rest (next closer) Q [] rest) :
    Hits (tag.gap.text ++ (tag.closer ++ rest))
      (require .unclosedTag >>= fun _ => alt [literal "/>".toList, literal ">".toList] >>= next) Q
      [[tag.closer].flatten] rest := by
  obtain ⟨-, hskip⟩ := closing_closer tag rest
  cases hsingle : tag.single with
  | true =>
    have hcloser : tag.closer = "/>".toList := by simp [WrittenTag.closer, hsingle]
    rw [hcloser] at hskip hn ⊢
    have hliteral := Hits.literal "/>".toList rest
    rw [← hskip] at hliteral
    exact hliteral.require_alt _ [] [literal ">".toList] (by simp) (Structured.literal _).keeps hn
  | false =>
    have hcloser : tag.closer = ">".toList := by simp [WrittenTag.closer, hsingle]
    rw [hcloser] at hskip hn ⊢
    exact hits_angle hskip hn

theorem hits_tagKind (tag : WrittenTag) {opener closer : Capture}
    (hopener : opener.text = "<".toList) (hcloser : closer.text = tag.closer) (rest : Text) :
    Hits rest (tagKind opener closer) (· = if tag.single then .single else .opening) [] rest := by
  unfold tagKind
  rw [hopener, hcloser]
  cases hsingle : tag.single with
  | true =>
    have hne : (tag.closer == ">".toList) = false := by simp [WrittenTag.closer, hsingle]
    rw [hne]
    exact Hits.pure rfl
  | false =>
    have heq : (tag.closer == ">".toList) = true := by simp [WrittenTag.closer, hsingle]
    rw [heq]
    exact Hits.pure rfl

theorem hits_tagToken (tag : WrittenTag) (rest : Text) :
    ∃ more, Hits (tag.text ++ rest) tagToken
      (fun token => ∃ found, token = Token.ofTag found ∧ tag.Means found) more rest := by
  obtain ⟨hclosing, hskip⟩ := closing_closer tag rest
  obtain ⟨texts, hproperties⟩ := hits_properties tag.properties hclosing
  have hclass := hits_path tag.className (behind_properties tag.properties hclosing.behind).apart
  have hahead := hits_closerAhead hclosing.closer
  have htext : tag.text ++ rest = '<' :: (tag.className.text ++
      ((tag.properties.map WrittenProperty.text).flatten ++
        (tag.gap.text ++ (tag.closer ++ rest)))) := by
    simp [WrittenTag.text]
  rw [htext]
  refine ⟨['<'] :: tag.className.text :: (texts ++ [[tag.closer].flatten]), ?_⟩
  refine Hits.bind (hits_opener tag.className _) fun opener hopener => ?_
  refine Hits.bind hclass fun className hname => ?_
  refine Hits.bind hproperties fun properties hfound => ?_
  refine Hits.bind hahead fun ahead htrue => ?_
  subst htrue
  rw [if_neg (by simp)]
  refine hits_closer tag fun closer hcloser => ?_
  refine (hits_tagKind tag hopener hcloser rest).bind fun kind hkind => ?_
  have hmeans : tag.Means ⟨kind, className.text, properties,
      ⟨opener.range.start, closer.range.stop⟩, closer.range.start⟩ := ⟨hkind, hname, hfound⟩
  split
  · next hclosed =>
    exfalso
    revert hkind
    split <;> simp
  · exact Hits.pure ⟨_, rfl, hmeans⟩

/-- What the rule for tags reads is a token, since no other token begins with `<`. -/
theorem hits_token_of_tag {w : Text} {Q : Token → Prop} {more : List Text} (hw : w = '<' :: t)
    (h : Hits w tagToken Q more rest) : Hits w token Q [more.flatten] rest := by
  have hskip : Text.skipIgnorable w = w := by
    rw [hw]
    exact Text.skipIgnorable_of_code (by decide)
  rw [← hskip] at h
  refine h.alt [importToken, variableToken, functionToken] [] ?_ structured_tagToken.keeps
  rw [hskip, hw]
  exact givesUp_declarations (by decide)

/-- A written tag is a token. -/
theorem hits_token (tag : WrittenTag) (rest : Text) :
    ∃ more, Hits (tag.text ++ rest) token
      (fun token => ∃ found, token = Token.ofTag found ∧ tag.Means found) more rest := by
  obtain ⟨more, htag⟩ := hits_tagToken tag rest
  exact ⟨_, hits_token_of_tag rfl htag⟩

end Grammar

/-- What the scan of the text of a written tag comes to. -/
structure ReadsBack (written : WrittenTag) (run : List Token × ScanEnd × Scan) : Prop where
  finished : run.2.1 = .finished
  -- There is one token, which covers the whole text.
  token : ∃ tag, run.1 = [.ofTag tag] ∧ written.Means tag ∧
    tag.range.start = .start written.text ∧ tag.range.text = written.text

theorem Cursor.skipIgnorable_of_code {c : Cursor} {first : Char} {t : Text}
    (hc : c.rest = first :: t) (hfirst : isIgnorable first = false) : c.skipIgnorable = c := by
  simp only [isIgnorable, Bool.or_eq_false_iff, decide_eq_false_iff_not] at hfirst
  have hlength : ignorableLength false c.rest = 0 := by simp [hc, ignorableLength, hfirst]
  rw [Cursor.skipIgnorable, hlength, Cursor.advanceBy_zero]

theorem Scan.next_of_found {s : Scan} {token : Token} {e : Engine} (hs : s.done = false)
    (h : s.engine.seek s.openTags s.engine.cursor = (.hit token, e)) :
    s.next = (.hit token, ⟨e, token.openTags s.openTags, false⟩) := by
  simp [next_eq, hs, h]

theorem Scan.next_of_atEnd {s : Scan} (hs : s.done = false)
    (h : s.engine.cursor.skipIgnorable.atEnd) :
    s.next = (.miss, ⟨s.engine.rewind s.engine.cursor.skipIgnorable, s.openTags, true⟩) := by
  simp [next_eq, hs, Engine.seek_of_atEnd h]

theorem WrittenTag.code_ahead (written : WrittenTag) :
    (Cursor.start written.text).skipIgnorable = .start written.text ∧
      ¬(Cursor.start written.text).atEnd := by
  obtain ⟨t, ht⟩ : ∃ t, written.text = '<' :: t := ⟨_, rfl⟩
  have hrest : (Cursor.start written.text).rest = '<' :: t := (Cursor.rest_start _).trans ht
  exact ⟨Cursor.skipIgnorable_of_code hrest (by decide), by rw [Cursor.atEnd, hrest]; simp⟩

/-- Written tags are read back, whatever their parts are. -/
theorem drain_writtenTag (written : WrittenTag) :
    ReadsBack written (Scan.start written.text).drain := by
  obtain ⟨hplace, hcode⟩ := written.code_ahead
  -- the engine of the search stands before the tag with a new frame
  let before := (Engine.start written.text).rewind (.start written.text)
  have hbefore : before.Before written.text :=
    ⟨⟨Cursor.rest_start written.text, Nat.le_refl _, rfl, rfl⟩, rfl⟩
  obtain ⟨more, hhits⟩ := Grammar.hits_token written []
  rw [List.append_nil] at hhits
  obtain ⟨_, e, hrun, ⟨tag, rfl, hmeans⟩, he, -⟩ := hhits before hbefore
  have hreads := Grammar.reads_token (c := .start written.text) before rfl rfl
  rw [hrun, hplace] at hreads
  have hrange := (hreads.2 _ rfl).range
  -- behind the tag nothing is left
  have hend : e.cursor.skipIgnorable.atEnd := by
    simp [Cursor.atEnd, Cursor.rest_skipIgnorable, he.rest, Text.skipIgnorable]
  have hseek : (Engine.start written.text).seek 0 (.start written.text) =
      (.hit (.ofTag tag), e) := by
    rw [Engine.seek_of_code rfl (by rwa [hplace]), hplace, show Grammar.token.result _ = _ from hrun]
  have hnext : (Scan.start written.text).next =
      (.hit (.ofTag tag), ⟨e, (Token.ofTag tag).openTags 0, false⟩) :=
    Scan.next_of_found rfl hseek
  have hlast (openTags : Nat) : (Scan.mk e openTags false).next =
      (.miss, ⟨e.rewind e.cursor.skipIgnorable, openTags, true⟩) :=
    Scan.next_of_atEnd rfl hend
  have htake (n : Nat) : (Scan.start written.text).take (n + 2) =
      ([.ofTag tag], .finished, ⟨e.rewind e.cursor.skipIgnorable, (Token.ofTag tag).openTags 0,
        true⟩) := by
    simp only [Scan.take_succ, hnext, hlast]
  obtain ⟨n, hn⟩ : ∃ n, written.text.length = n + 1 := ⟨_, rfl⟩
  have hdrain : (Scan.start written.text).drain = (Scan.start written.text).take (n + 2) :=
    congrArg (fun k => (Scan.start written.text).take (k + 1)) hn
  rw [hdrain, htake]
  refine ⟨rfl, tag, rfl, hmeans, ?_, ?_⟩
  · exact congrArg Range.start hrange
  · have htag : tag.range = ⟨.start written.text, e.cursor⟩ := hrange
    simp [htag, Range.text, he.rest]

-- A tag with a call over two lines, and the code of the call.
example :
    let none : Gap := ⟨[], .nil⟩
    let space : Gap := ⟨[' '], .blank (.inl rfl) .nil⟩
    let comment : Gap := ⟨"# first\n".toList, @Ignorable.comment " first".toList [] (by decide) .nil⟩
    let one : WrittenValue := .number ⟨['1'], by decide⟩
    let block : WrittenValue := .block ⟨" a['\x7d'] ".toList, by decide⟩
    let call : WrittenValue := .call ⟨['f'], by decide⟩
      (.some space one (.next comment none block (.done space)))
      (.method space ⟨['g'], by decide⟩ (.none space) .nil)
    let tag : WrittenTag := ⟨⟨"ui.Box".toList, by decide⟩,
      [⟨space, by simp [space], ⟨['x'], by decide⟩, space, none, call⟩], none, true⟩
    tag.text = "<ui.Box x =f( 1# first\n,\x7b a['\x7d'] \x7d ) .g( )/>".toList ∧
      call.code = "f(1,a['\x7d']).g()".toList := by
  decide

end NodeMarkup
