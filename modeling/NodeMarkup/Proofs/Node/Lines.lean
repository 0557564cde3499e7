import NodeMarkup.Proofs.Grammar.Flat
import NodeMarkup.Proofs.Node.Forest
import NodeMarkup.Proofs.Token.Order
/-!
The lines of nodes. The code of a node breaks its lines where the source does: before each item it
goes from the line behind the last item to that of the next, so that the breaks add up to the lines
of the node if no item has a break of its own.
-/
namespace NodeMarkup

variable {α : Type} {d : Declarations} {source : Text} {c : Cursor}

/-- The values stand in ranges of their own, one behind the other, between two places. -/
inductive InOrder (range : α → Range) : Cursor → List α → Cursor → Prop where
  | nil {c d : Cursor} (h : c.Reaches d) : InOrder range c [] d
  | cons {c d : Cursor} {value : α} {values : List α} (start : c.Reaches (range value).start)
      (stop : (range value).start.Reaches (range value).stop)
      (rest : InOrder range (range value).stop values d) : InOrder range c (value :: values) d

namespace InOrder

variable {range : α → Range} {values more : List α} {a b : Cursor}

theorem from_before (h : InOrder range b values a) (hc : c.Reaches b) :
    InOrder range c values a := by
  cases h with
  | nil h => exact .nil (hc.trans h)
  | cons start stop rest => exact .cons (hc.trans start) stop rest

theorem append (h : InOrder range c values a) (hmore : InOrder range a more b) :
    InOrder range c (values ++ more) b := by
  induction h with
  | nil h => exact hmore.from_before h
  | cons start stop _ ih => exact .cons start stop (ih hmore)

theorem to_behind (h : InOrder range c values a) (ha : a.Reaches b) : InOrder range c values b := by
  simpa using h.append (.nil ha)

theorem reaches (h : InOrder range c values a) : c.Reaches a := by
  induction h with
  | nil h => exact h
  | cons start stop _ ih => exact (start.trans stop).trans ih

theorem of_map_eq {others : List α} (h : InOrder range c values a)
    (hmap : others.map range = values.map range) : InOrder range c others a := by
  induction h generalizing others with
  | nil h =>
    obtain rfl : others = [] := by simpa using hmap
    exact .nil h
  | cons start stop _ ih =>
    cases others with
    | nil => cases hmap
    | cons other others =>
      obtain ⟨hother, hothers⟩ := List.cons.inj hmap
      exact .cons (hother ▸ start) (hother ▸ stop) (hother ▸ ih hothers)

theorem position_le (h : InOrder range c values a) :
    ∀ value ∈ values, c.position ≤ (range value).start.position := by
  induction h with
  | nil => simp
  | cons start stop _ ih =>
    refine List.forall_mem_cons.2 ⟨start.position_le, fun value hvalue => ?_⟩
    exact Nat.le_trans (start.trans stop).position_le (ih value hvalue)

/-- A place outside of all the ranges parts the values before it from those behind it. -/
theorem exists_split (h : InOrder range a values b) (ha : Cursor.IsPlace source a)
    (hc : Cursor.IsPlace source c) (hac : a.Reaches c) (hcb : c.Reaches b)
    (hout : ∀ value ∈ values, (range value).stop.position ≤ c.position ∨
      c.position < (range value).start.position) :
    ∃ before after, values = before ++ after ∧ InOrder range a before c ∧
      InOrder range c after b ∧
      (∀ value ∈ before, (range value).stop.position ≤ c.position) ∧
      ∀ value ∈ after, c.position < (range value).start.position := by
  induction h with
  | nil => exact ⟨[], [], rfl, .nil hac, .nil hcb, by simp, by simp⟩
  | @cons a b value values start stop rest ih =>
    obtain ⟨hvalue, hvalues⟩ := List.forall_mem_cons.1 hout
    have hstart := ha.of_reaches start
    rcases hvalue with hbefore | hbehind
    · have hstop := hstart.of_reaches stop
      obtain ⟨before, after, rfl, hitems, hafter, hle, hlt⟩ :=
        ih hstop (hstop.reaches hc hbefore) hcb hvalues
      exact ⟨value :: before, after, rfl, .cons start stop hitems, hafter,
        List.forall_mem_cons.2 ⟨hbefore, hle⟩, hlt⟩
    · have hreach := hc.reaches hstart (Nat.le_of_lt hbehind)
      refine ⟨[], value :: values, rfl, .nil hac, .cons hreach stop rest, by simp, ?_⟩
      refine List.forall_mem_cons.2 ⟨hbehind, fun other hother => ?_⟩
      have hle := Nat.le_trans stop.position_le (rest.position_le other hother)
      omega

end InOrder

theorem count_separator (first : Bool) (line : Nat) {item : Cursor}
    (hi : Cursor.IsPlace source item) :
    (separator first line item).count '\n' = item.line - line := by
  have hindent := List.count_eq_zero_of_not_mem hi.not_mem_indentation
  rw [separator_eq, List.count_append]
  by_cases h : 0 < item.line - line
  · cases first <;> simp [h, hindent]
  · have hzero : item.line - line = 0 := by omega
    cases first <;> simp [hzero]

theorem Value.not_mem_render {v : Value} {x : Char} (h : x ∉ v.code)
    (hx : x ∉ "funcref(self, \")".toList) : x ∉ v.render d := by
  unfold render
  split
  · next name hname =>
    have hcode : name = v.code := by
      unfold identifier? at hname
      split at hname <;> simp_all
    split
    · rw [hcode, List.mem_append, List.mem_append, not_or, not_or]
      have hopening : "funcref(self, \"".toList ⊆ "funcref(self, \")".toList := by decide
      have hclosing : "\")".toList ⊆ "funcref(self, \")".toList := by decide
      exact ⟨⟨fun hmem => hx (hopening hmem), h⟩, fun hmem => hx (hclosing hmem)⟩
    · exact h
  · exact h

/-- The property begins and ends on the same line. -/
def Property.OneLine (p : Property) : Prop := p.range.start.line = p.range.stop.line

instance (p : Property) : Decidable p.OneLine := inferInstanceAs (Decidable (_ = _))

theorem Property.Flat.code {p : Property} (h : p.Flat) (hone : p.OneLine) : '\n' ∉ p.value.code :=
  h.2 (Nat.le_of_eq hone.symm)

theorem count_renderProperties {properties : List Property} {stop : Cursor}
    (h : InOrder Property.range c properties stop) (hc : Cursor.IsPlace source c)
    (hflat : ∀ p ∈ properties, p.Flat) (hone : ∀ p ∈ properties, p.OneLine) (first : Bool)
    {line : Nat} (hline : line ≤ c.line) :
    line + (renderProperties d first line properties).1.count '\n' =
        (renderProperties d first line properties).2 ∧
      (renderProperties d first line properties).2 ≤ stop.line := by
  induction h generalizing first line with
  | nil h => exact ⟨rfl, Nat.le_trans hline h.line_le⟩
  | @cons c _ p properties hstart hrange _ ih =>
    obtain ⟨hp, hflat⟩ := List.forall_mem_cons.1 hflat
    obtain ⟨hp', hone⟩ := List.forall_mem_cons.1 hone
    have hplace := hc.of_reaches hstart
    have hrest := ih (hplace.of_reaches hrange) hflat hone
    have hle := hstart.line_le
    have hsame : p.range.start.line = p.range.stop.line := hp'
    rw [renderProperties_cons]
    split
    · exact hrest first (by omega)
    · obtain ⟨hcount, hstop⟩ := hrest false (Nat.le_refl _)
      have hseparator := count_separator first line hplace
      have hname := List.count_eq_zero_of_not_mem hp.1
      have hvalue := List.count_eq_zero_of_not_mem
        (Value.not_mem_render (d := d) (hp.code hp') (by decide))
      have hmarks : ("\"".toList).count '\n' = 0 ∧ ("\": ".toList).count '\n' = 0 := by decide
      refine ⟨?_, hstop⟩
      dsimp only
      simp only [List.count_append, hseparator, hname, hvalue, hmarks]
      omega

theorem not_mem_renderAppended {properties : List Property} (hflat : ∀ p ∈ properties, p.Flat)
    (hone : ∀ p ∈ properties, p.OneLine) : '\n' ∉ renderAppended d properties := by
  unfold renderAppended
  split
  · simp
  · next p hlast =>
    have hmem : p ∈ properties := (List.mem_filter.1 (List.mem_of_getLast? hlast)).1
    have hvalue : '\n' ∉ p.value.render d :=
      Value.not_mem_render ((hflat p hmem).code (hone p hmem)) (by decide)
    simp [hvalue]

theorem not_mem_renderClass {className : Text} {x : Char} (h : x ∉ className)
    (hx : x ∉ "get_script()".toList) : x ∉ renderClass className := by
  unfold renderClass
  split
  · exact hx
  · exact h

namespace Node

/-- The code of the node has as many line breaks as its source. -/
def Spans (d : Declarations) (node : Node) : Prop :=
  node.range.start.line + (node.render d).count '\n' = node.range.stop.line

theorem count_renderChildren {children : List Node} {stop : Cursor}
    (h : InOrder Node.range c children stop) (hc : Cursor.IsPlace source c)
    (hspans : ∀ child ∈ children, child.Spans d) (first : Bool) {line : Nat}
    (hline : line ≤ c.line) :
    line + (renderChildren d first line children).1.count '\n' =
        (renderChildren d first line children).2 ∧
      (renderChildren d first line children).2 ≤ stop.line := by
  induction h generalizing first line with
  | nil h => exact ⟨rfl, Nat.le_trans hline h.line_le⟩
  | @cons c _ child children hstart hrange _ ih =>
    obtain ⟨hchild, hspans⟩ := List.forall_mem_cons.1 hspans
    have hplace := hc.of_reaches hstart
    obtain ⟨hcount, hstop⟩ := ih (hplace.of_reaches hrange) hspans false (Nat.le_refl _)
    have hseparator := count_separator first line hplace
    have hle := hstart.line_le
    unfold Spans at hchild
    rw [renderChildren_cons]
    refine ⟨?_, hstop⟩
    simp only [List.count_append, hseparator]
    omega

/-- How the items of a node stand in the source. -/
structure Laid (source : Text) (node : Node) : Prop where
  start : Cursor.IsPlace source node.range.start
  className : '\n' ∉ node.className
  flat : ∀ p ∈ node.properties, p.Flat
  items : ∃ a b, InOrder Property.range node.range.start node.properties a ∧
    InOrder Node.range a node.children b ∧ b.Reaches node.closer
  closer : node.closer.line = node.range.stop.line

/-- The breaks before the items of a node add up to its lines. -/
theorem Laid.spans {node : Node} (h : node.Laid source)
    (hone : ∀ p ∈ node.properties, p.OneLine) (hspans : ∀ child ∈ node.children, child.Spans d) :
    node.Spans d := by
  obtain ⟨a, b, hproperties, hchildren, hcloser⟩ := h.items
  have hplace := h.start.of_reaches hproperties.reaches
  obtain ⟨hcount, hle⟩ :=
    count_renderProperties (d := d) hproperties h.start h.flat hone true (Nat.le_refl _)
  obtain ⟨hcount', hle'⟩ := count_renderChildren hchildren hplace hspans true hle
  have hlast := count_separator true (renderChildren d true
    (renderProperties d true node.range.start.line node.properties).2 node.children).2
    ((hplace.of_reaches hchildren.reaches).of_reaches hcloser)
  have hbehind := hcloser.line_le
  have hclass := List.count_eq_zero_of_not_mem (not_mem_renderClass h.className (by decide))
  have happended := List.count_eq_zero_of_not_mem (not_mem_renderAppended (d := d) h.flat hone)
  have hmarks : ("create_node(".toList).count '\n' = 0 ∧ (", \x7b".toList).count '\n' = 0 ∧
      ("\x7d, [".toList).count '\n' = 0 ∧ ("]".toList).count '\n' = 0 ∧
      (")".toList).count '\n' = 0 := by decide
  have hstop := h.closer
  unfold Spans
  rw [render_eq]
  simp only [List.count_append, hclass, happended, hlast, hmarks]
  omega

/-- The property is another one with its value changed or not. -/
structure Revised (change : Value → Value) (p changed : Property) : Prop where
  name : changed.name = p.name
  range : changed.range = p.range
  value : changed.value = p.value ∨ changed.value = change p.value

theorem revised_setFirst {name : Text} {change : Value → Value} {properties changed : List Property}
    (h : setFirst name change properties = some changed) :
    List.Forall₂ (Revised change) properties changed := by
  induction properties generalizing changed with
  | nil => cases h
  | cons p properties ih =>
    rw [setFirst] at h
    split at h
    · cases h
      exact .cons ⟨rfl, rfl, .inr rfl⟩ (List.forall₂_same.2 fun _ _ => ⟨rfl, rfl, .inl rfl⟩)
    · obtain ⟨rest, hrest, rfl⟩ := Option.map_eq_some_iff.1 h
      exact .cons ⟨rfl, rfl, .inl rfl⟩ (ih hrest)

/-- The code is that of a text from the body, without line breaks and between quotes. -/
structure FoldedFrom (raw : Text) (folded : Value) : Prop where
  noBreak : '\n' ∉ folded.code
  not_mem : ∀ x, x ∉ raw → x ≠ '\\' → x ≠ '"' → x ∉ folded.code

/-- All that folding the text of a body can do: nothing, change the value of a property, or add a
property for a part of the body. -/
theorem foldText_cases (stop : Cursor) (node : Node) :
    ∃ properties, node.foldText stop = { node with properties := properties } ∧
      (properties = node.properties ∨
        ∃ folded : Value, FoldedFrom (Range.text ⟨node.body, stop⟩) folded ∧
          (List.Forall₂
              (Revised fun v => ⟨.expression, v.code ++ " + ".toList ++ folded.code⟩)
              node.properties properties ∨
            ∃ k n, k + n ≤ (Range.text ⟨node.body, stop⟩).length ∧
              properties = node.properties ++
                [⟨textName, folded, ⟨node.body.advanceBy k, node.body.advanceBy (k + n)⟩⟩])) := by
  rw [foldText_eq]
  generalize Range.text ⟨node.body, stop⟩ = raw
  dsimp only
  split
  · exact ⟨node.properties, by cases node; rfl, .inl rfl⟩
  · have hfolded : FoldedFrom raw (Value.ofText
        (Text.trim (raw.filter fun c => c ≠ '\n' && c ≠ '\t'))) := by
      refine ⟨Text.not_mem_quote (fun hmem => ?_) (by decide) (by decide),
        fun x hx hslash hquote => Text.not_mem_quote (fun hmem => ?_) hslash hquote⟩
      · simpa using List.mem_filter.1 (Text.trim_subset _ hmem)
      · exact hx (List.mem_filter.1 (Text.trim_subset _ hmem)).1
    split
    · next changed hchanged =>
      obtain ⟨properties, hset, rfl⟩ := Option.map_eq_some_iff.1 hchanged
      exact ⟨properties, rfl, .inr ⟨_, hfolded, .inl (revised_setFirst hset)⟩⟩
    · refine ⟨_, rfl, .inr ⟨_, hfolded, .inr ⟨_, _, Text.length_trim_le raw, ?_⟩⟩⟩
      rw [Cursor.advanceBy_advanceBy]

theorem map_range_of_revised {change : Value → Value} {properties changed : List Property}
    (h : List.Forall₂ (Revised change) properties changed) :
    changed.map Property.range = properties.map Property.range := by
  induction h with
  | nil => rfl
  | cons first _ ih => rw [List.map_cons, List.map_cons, first.range, ih]

theorem exists_of_mem_revised {change : Value → Value} {properties changed : List Property}
    (h : List.Forall₂ (Revised change) properties changed) {p' : Property} (hp' : p' ∈ changed) :
    ∃ p ∈ properties, Revised change p p' := by
  induction h with
  | nil => cases hp'
  | cons first _ ih =>
    rcases List.mem_cons.1 hp' with rfl | hmem
    · exact ⟨_, List.mem_cons_self, first⟩
    · obtain ⟨p, hp, hrevised⟩ := ih hmem
      exact ⟨p, List.mem_cons_of_mem _ hp, hrevised⟩

theorem flat_of_revised {change : Value → Value} {properties changed : List Property}
    (h : List.Forall₂ (Revised change) properties changed)
    (hchange : ∀ v : Value, '\n' ∉ v.code → '\n' ∉ (change v).code)
    (hflat : ∀ p ∈ properties, p.Flat) : ∀ p ∈ changed, p.Flat := by
  intro p' hp'
  obtain ⟨p, hp, hrevised⟩ := exists_of_mem_revised h hp'
  obtain ⟨hname, hcode⟩ := hflat p hp
  refine ⟨hrevised.name ▸ hname, fun hline => ?_⟩
  rw [hrevised.range] at hline
  rcases hrevised.value with hsame | hchanged
  · exact hsame ▸ hcode hline
  · exact hchanged ▸ hchange _ (hcode hline)

/-- The text of a body is folded into a property that stands on the lines of the text, or into one
that stays on its own line. -/
theorem foldText_laid (node : Node) {stop : Cursor}
    (hitems : InOrder Property.range c node.properties node.body) (hstop : node.body.Reaches stop)
    (hflat : ∀ p ∈ node.properties, p.Flat) :
    ∃ properties, node.foldText stop = { node with properties := properties } ∧
      InOrder Property.range c properties stop ∧ ∀ p ∈ properties, p.Flat := by
  obtain ⟨properties, hnode, hcases⟩ := foldText_cases stop node
  refine ⟨properties, hnode, ?_⟩
  rcases hcases with rfl | ⟨folded, hfolded, hrevised | ⟨k, n, hlength, rfl⟩⟩
  · exact ⟨hitems.to_behind hstop, hflat⟩
  · refine ⟨(hitems.of_map_eq (map_range_of_revised hrevised)).to_behind hstop, ?_⟩
    refine flat_of_revised hrevised (fun v hv => ?_) hflat
    simp [hv, hfolded.noBreak]
  · have hrest : (node.body.advanceBy (k + n)).Reaches stop := by
      refine ⟨(Range.text ⟨node.body, stop⟩).length - (k + n), ?_⟩
      rw [Cursor.advanceBy_advanceBy, Nat.add_sub_cancel' hlength]
      exact hstop.eq_advanceBy
    have hpart : (node.body.advanceBy k).Reaches (node.body.advanceBy (k + n)) :=
      ⟨n, by rw [Cursor.advanceBy_advanceBy]⟩
    refine ⟨hitems.append (.cons (Cursor.reaches_advanceBy k _) hpart (.nil hrest)), ?_⟩
    intro p hp
    rcases List.mem_append.1 hp with hmem | hmem
    · exact hflat p hmem
    · rw [List.mem_singleton.1 hmem]
      exact ⟨show '\n' ∉ textName by decide, fun _ => hfolded.noBreak⟩

end Node

theorem Repeats.inOrder {P : Cursor → α → Cursor → Prop} {range : α → Range} {values : List α}
    {stop : Cursor}
    (hP : ∀ a value b, P a value b →
      a.Reaches (range value).start ∧ (range value).start.Reaches b ∧ (range value).stop = b)
    (h : Repeats P c values stop) : InOrder range c values stop := by
  induction h with
  | nil c => exact .nil (.refl c)
  | cons first _ ih =>
    obtain ⟨hstart, hrange, hstop⟩ := hP _ _ _ first
    subst hstop
    exact .cons hstart hrange ih

theorem Tag.Stands.inOrder {tag : Tag} {stop : Cursor} (h : tag.Stands c stop) :
    InOrder Property.range c tag.properties tag.closer := by
  obtain ⟨last, hbody, hcloser⟩ := h.body
  have hproperties : InOrder Property.range c tag.properties last := by
    refine (hbody.inOrder ?_).from_before (Cursor.reaches_advanceBy _ c)
    rintro a p b ⟨hrange, hreach, -⟩
    rw [hrange]
    exact ⟨Cursor.reaches_skipIgnorable a, hreach, rfl⟩
  rw [hcloser]
  exact hproperties.to_behind (Cursor.reaches_skipIgnorable last)

namespace Node

theorem laid_ofTag {tag : Tag} {stop : Cursor} (h : tag.Stands c stop)
    (hc : Cursor.IsPlace source c) (hflat : tag.Flat) : (ofTag tag).Laid source := by
  have hstart : (ofTag tag).range.start = c := congrArg Range.start h.range
  constructor
  case start => exact hstart ▸ hc
  case className => exact hflat.className
  case flat => exact hflat.properties
  case items => exact ⟨tag.closer, tag.closer, hstart ▸ h.inOrder, .nil (.refl _), .refl _⟩
  case closer => exact hflat.closer

/-- The items of a pair: the properties of the opening tag, the text of the body if it is folded, and
the children. -/
theorem ofPair_eq {opening closing : Tag} {children : List Node}
    (hproperties : InOrder Property.range c opening.properties opening.range.stop)
    (hchildren : InOrder Node.range opening.range.stop children closing.range.start)
    (hflat : opening.Flat) :
    ∃ properties a, ofPair opening children closing = ⟨opening.className, properties, children,
        ⟨opening.range.start, closing.range.stop⟩, closing.closer, opening.range.stop⟩ ∧
      InOrder Property.range c properties a ∧
      InOrder Node.range a children closing.range.start ∧ ∀ p ∈ properties, p.Flat := by
  cases children with
  | nil =>
    obtain ⟨properties, hnode, hitems, hflats⟩ :=
      foldText_laid ((ofTag opening).addChildren []) hproperties hchildren.reaches hflat.properties
    refine ⟨properties, closing.range.start, ?_, hitems, .nil (.refl _), hflats⟩
    unfold ofPair
    simp only [List.isEmpty_nil, ↓reduceIte, hnode]
    rfl
  | cons child children =>
    exact ⟨opening.properties, opening.range.stop, rfl, hproperties, hchildren, hflat.properties⟩

theorem laid_ofPair {opening closing : Tag} {children : List Node} {a b stop : Cursor}
    (h : opening.Stands c a) (hchildren : InOrder Node.range a children b)
    (h' : closing.Stands b stop) (hc : Cursor.IsPlace source c) (hflat : opening.Flat)
    (hflat' : closing.Flat) : (ofPair opening children closing).Laid source := by
  have hproperties := h.inOrder.to_behind h.closer_reaches
  have hcloser := h'.inOrder.reaches
  obtain ⟨rfl, rfl⟩ : c = opening.range.start ∧ a = opening.range.stop := by simp [h.range]
  obtain rfl : b = closing.range.start := by simp [h'.range]
  obtain ⟨properties, a, hpair, hitems, hchildren, hflats⟩ := ofPair_eq hproperties hchildren hflat
  rw [hpair]
  exact ⟨hc, hflat.className, hflats, ⟨a, _, hitems, hchildren, hcloser⟩, hflat'.closer⟩

/-- Each property of the node, and of those in it, begins and ends on the same line. -/
inductive OneLine : Node → Prop where
  | intro {node : Node} (properties : ∀ p ∈ node.properties, p.OneLine)
      (children : ∀ child ∈ node.children, child.OneLine) : OneLine node

theorem children_ofPair (opening : Tag) (children : List Node) (closing : Tag) :
    (ofPair opening children closing).children = children := by
  unfold ofPair
  split
  · obtain ⟨properties, hnode, -⟩ :=
      foldText_cases closing.range.start ((ofTag opening).addChildren children)
    dsimp only
    rw [hnode]
    exact children_ofTag_addChildren opening children
  · exact children_ofTag_addChildren opening children

end Node

theorem Token.Follows.stands {tag : Tag} {stop : Cursor} (h : (Token.ofTag tag).Follows c stop) :
    ∃ place, c.Reaches place ∧ place.Reaches stop ∧ tag.Stands place stop := by
  obtain ⟨place, hplace, -, -, hstands, hreach⟩ := h
  exact ⟨place, hplace, hreach, hstands.tag tag rfl⟩

theorem BodyOf.inOrder {tokens : List Token} {nodes : List Node} (h : BodyOf tokens nodes)
    {stop : Cursor} (ht : Repeats Token.Follows c tokens stop) :
    InOrder Node.range c nodes stop := by
  induction h generalizing c stop with
  | nil =>
    cases ht
    exact .nil (.refl c)
  | header _ _ ih =>
    cases ht with
    | cons first rest => exact (ih rest).from_before first.advances.1
  | single _ _ ih =>
    cases ht with
    | cons first rest =>
      obtain ⟨hstart, hrange, rfl⟩ := first.range_eq
      exact .cons hstart hrange (ih rest)
  | pair _ _ _ _ _ _ ih =>
    cases ht with
    | @cons _ a _ _ _ first rest =>
      obtain ⟨b, hbody, hclosing⟩ := rest.of_append
      cases hclosing with
      | cons last rest =>
        obtain ⟨hstart, hrange, -⟩ := first.range_eq
        obtain ⟨-, -, rfl⟩ := last.range_eq
        have hinside := (hbody.reaches fun _ _ _ h => h.advances.1).trans last.advances.1
        exact .cons hstart (hrange.trans hinside) (ih rest)

namespace Node

theorem spans_ofTag {tag : Tag} {stop : Cursor} (h : (Token.ofTag tag).Follows c stop)
    (hc : Cursor.IsPlace source c) (hflat : tag.Flat) (hone : (ofTag tag).OneLine) :
    (ofTag tag).Spans d := by
  obtain ⟨place, hplace, -, hstands⟩ := h.stands
  cases hone with
  | intro hproperties _ =>
    exact (laid_ofTag hstands (hc.of_reaches hplace) hflat).spans hproperties (by simp [ofTag])

/-- The lines of a pair add up if those of its children do; the tokens go on behind the pair. -/
theorem spans_ofPair {opening closing : Tag} {body tokens : List Token} {children : List Node}
    {stop : Cursor} (within : BodyOf body children)
    (ht : Repeats Token.Follows c (.ofTag opening :: (body ++ .ofTag closing :: tokens)) stop)
    (hc : Cursor.IsPlace source c)
    (hflat : ∀ token ∈ Token.ofTag opening :: (body ++ .ofTag closing :: tokens), token.Flat)
    (hone : (ofPair opening children closing).OneLine)
    (hspans : ∀ a b, Repeats Token.Follows a body b → Cursor.IsPlace source a →
      (∀ token ∈ body, token.Flat) → (∀ child ∈ children, child.OneLine) →
      ∀ child ∈ children, child.Spans d) :
    (ofPair opening children closing).Spans d ∧
      ∃ b, Cursor.IsPlace source b ∧ Repeats Token.Follows b tokens stop := by
  obtain ⟨hopening, hflat⟩ := List.forall_mem_cons.1 hflat
  obtain ⟨hbody, hflat⟩ := List.forall_mem_append.1 hflat
  obtain ⟨hclosing, -⟩ := List.forall_mem_cons.1 hflat
  cases ht with
  | @cons _ a _ _ _ first rest =>
    obtain ⟨b, hinside, hbehind⟩ := rest.of_append
    have ha := hc.of_reaches first.advances.1
    have hb := ha.of_reaches (hinside.reaches fun _ _ _ h => h.advances.1)
    cases hbehind with
    | cons last rest =>
      refine ⟨?_, _, hb.of_reaches last.advances.1, rest⟩
      obtain ⟨place, hplace, -, hstands⟩ := first.stands
      obtain ⟨place', hplace', -, hstands'⟩ := last.stands
      have hlaid := laid_ofPair hstands ((within.inOrder hinside).to_behind hplace') hstands'
        (hc.of_reaches hplace) hopening hclosing
      cases hone with
      | intro hproperties hchildren =>
        apply hlaid.spans hproperties
        rw [children_ofPair] at hchildren ⊢
        exact hspans a b hinside ha hbody hchildren

end Node

theorem BodyOf.spans {tokens : List Token} {nodes : List Node} (h : BodyOf tokens nodes)
    {stop : Cursor} (ht : Repeats Token.Follows c tokens stop) (hc : Cursor.IsPlace source c)
    (hflat : ∀ token ∈ tokens, token.Flat) (hone : ∀ node ∈ nodes, node.OneLine) :
    ∀ node ∈ nodes, node.Spans d := by
  induction h generalizing c stop with
  | nil => simp
  | header _ _ ih =>
    cases ht with
    | cons first rest =>
      exact ih rest (hc.of_reaches first.advances.1) (List.forall_mem_cons.1 hflat).2 hone
  | single _ _ ih =>
    obtain ⟨htag, hflat⟩ := List.forall_mem_cons.1 hflat
    obtain ⟨hnode, hone⟩ := List.forall_mem_cons.1 hone
    cases ht with
    | cons first rest =>
      refine List.forall_mem_cons.2 ⟨Node.spans_ofTag first hc htag hnode, ?_⟩
      exact ih rest (hc.of_reaches first.advances.1) hflat hone
  | pair _ _ _ within _ ihWithin ih =>
    obtain ⟨hnode, hone⟩ := List.forall_mem_cons.1 hone
    obtain ⟨hspans, b, hb, hrest⟩ := Node.spans_ofPair (d := d) within ht hc hflat hnode
      fun _ _ ht hc hflat hone => ihWithin ht hc hflat hone
    have hbehind := ih hrest hb (fun token ht => hflat token (by simp [ht])) hone
    exact List.forall_mem_cons.2 ⟨hspans, hbehind⟩

end NodeMarkup
