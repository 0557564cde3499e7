import NodeMarkup.Proofs.Grammar.Shift
import NodeMarkup.Proofs.Node.Forest
/-!
Nodes behind other lines. The code of a node depends on the distances between lines and on
indentations, never on the lines themselves, so nodes have the same code behind any lines, and their
edits are the same but for their places.
-/
namespace NodeMarkup

variable {front : Text} {d d' : Declarations}

theorem separator_shift (front : Text) (first : Bool) (line : Nat) (item : Cursor) :
    separator first (front.count '\n' + line) (item.shift front) = separator first line item := by
  simp only [separator_eq, Cursor.line_shift, Cursor.indentation_shift, Nat.add_sub_add_left]

/-- Both declare the same functions. -/
def Declarations.SameFunctions (d d' : Declarations) : Prop :=
  ∀ name, d'.isFunction name = d.isFunction name

theorem Value.render_congr (hd : d.SameFunctions d') (v : Value) : v.render d' = v.render d := by
  unfold render
  cases v.identifier? with
  | none => rfl
  | some name =>
    dsimp only
    rw [hd name]

theorem renderProperties_shift (hd : d.SameFunctions d') (first : Bool) (line : Nat)
    (properties : List Property) :
    renderProperties d' first (front.count '\n' + line) (properties.map (Property.shift front)) =
      ((renderProperties d first line properties).1,
        front.count '\n' + (renderProperties d first line properties).2) := by
  induction properties generalizing first line with
  | nil => rfl
  | cons property properties ih =>
    rw [List.map_cons, renderProperties_cons, renderProperties_cons]
    by_cases hname : property.name = childrenName
    · rw [if_pos hname, if_pos (show (property.shift front).name = childrenName from hname), ih]
    · rw [if_neg hname, if_neg (show (property.shift front).name ≠ childrenName from hname)]
      have hrest := ih false property.range.stop.line
      dsimp only [Property.shift, Range.start_shift, Range.stop_shift, Cursor.line_shift] at hrest ⊢
      rw [hrest, separator_shift, Value.render_congr hd]

theorem renderAppended_shift (hd : d.SameFunctions d') (properties : List Property) :
    renderAppended d' (properties.map (Property.shift front)) = renderAppended d properties := by
  have hfilter : (properties.map (Property.shift front)).filter (·.name = childrenName) =
      (properties.filter (·.name = childrenName)).map (Property.shift front) :=
    List.filter_map
  unfold renderAppended
  rw [hfilter, List.getLast?_map]
  cases (properties.filter (·.name = childrenName)).getLast? with
  | none => rfl
  | some property => exact congrArg (" + ".toList ++ ·) (Value.render_congr hd property.value)

namespace Node

/-- The second node stands where the first one does, with `front` before it, and has its code. -/
structure Moved (front : Text) (d d' : Declarations) (node moved : Node) : Prop where
  range : moved.range = node.range.shift front
  render : moved.render d' = node.render d

/-- The second node is the first one behind `front`. -/
structure Shifted (front : Text) (d d' : Declarations) (node shifted : Node) : Prop where
  className : shifted.className = node.className
  properties : shifted.properties = node.properties.map (Property.shift front)
  children : List.Forall₂ (Moved front d d') node.children shifted.children
  range : shifted.range = node.range.shift front
  closer : shifted.closer = node.closer.shift front
  body : shifted.body = node.body.shift front

theorem renderChildren_moved {children children' : List Node}
    (h : List.Forall₂ (Moved front d d') children children') (first : Bool) (line : Nat) :
    renderChildren d' first (front.count '\n' + line) children' =
      ((renderChildren d first line children).1,
        front.count '\n' + (renderChildren d first line children).2) := by
  induction h generalizing first line with
  | nil => rfl
  | cons hchild _ ih =>
    simp only [renderChildren_cons, hchild.range, hchild.render, Range.start_shift, Range.stop_shift,
      Cursor.line_shift, separator_shift, ih]

theorem Shifted.moved (hd : d.SameFunctions d') {node shifted : Node}
    (h : Shifted front d d' node shifted) : Moved front d d' node shifted := by
  refine ⟨h.range, ?_⟩
  rw [render_eq, render_eq, h.className, h.properties, h.range, h.closer, Range.start_shift,
    Cursor.line_shift, renderProperties_shift hd, renderAppended_shift hd]
  dsimp only
  rw [renderChildren_moved h.children, separator_shift]

theorem shifted_ofTag (tag : Tag) : Shifted front d d' (ofTag tag) (ofTag (tag.shift front)) :=
  ⟨rfl, rfl, .nil, rfl, rfl, rfl⟩

theorem setFirst_shift (name : Text) (change : Value → Value) (properties : List Property) :
    setFirst name change (properties.map (Property.shift front)) =
      (setFirst name change properties).map (List.map (Property.shift front)) := by
  induction properties with
  | nil => rfl
  | cons property properties ih =>
    rw [List.map_cons, setFirst, setFirst, ih]
    by_cases hname : property.name = name
    · rw [if_pos hname, if_pos (show (property.shift front).name = name from hname)]
      rfl
    · rw [if_neg hname, if_neg (show (property.shift front).name ≠ name from hname)]
      cases setFirst name change properties <;> rfl

theorem Shifted.foldText {node shifted : Node} (h : Shifted front d d' node shifted)
    (stop : Cursor) :
    Shifted front d d' (node.foldText stop) (shifted.foldText (stop.shift front)) := by
  have hraw : Range.text ⟨shifted.body, stop.shift front⟩ = Range.text ⟨node.body, stop⟩ := by
    rw [h.body]
    rfl
  rw [Node.foldText_eq, Node.foldText_eq, hraw]
  generalize Range.text ⟨node.body, stop⟩ = raw
  dsimp only
  split
  · exact h
  · unfold setProperty?
    rw [h.properties, setFirst_shift]
    cases setFirst textName _ node.properties with
    | some properties => exact ⟨h.className, rfl, h.children, h.range, h.closer, h.body⟩
    | none =>
      refine ⟨h.className, ?_, h.children, h.range, h.closer, h.body⟩
      simp only [Option.map_none, h.body, List.map_append, Cursor.advanceBy_shift]
      rfl

theorem Shifted.ofPair {opening closing : Tag} {children children' : List Node}
    (h : List.Forall₂ (Moved front d d') children children') :
    Shifted front d d' (ofPair opening children closing)
      (ofPair (opening.shift front) children' (closing.shift front)) := by
  have hopen : Shifted front d d' ((ofTag opening).addChildren children)
      ((ofTag (opening.shift front)).addChildren children') := ⟨rfl, rfl, h, rfl, rfl, rfl⟩
  have hempty : children'.isEmpty = children.isEmpty := by
    rw [Bool.eq_iff_iff, List.isEmpty_iff_length_eq_zero, List.isEmpty_iff_length_eq_zero,
      h.length_eq]
  have hfolded : Shifted front d d'
      (if children.isEmpty then ((ofTag opening).addChildren children).foldText closing.range.start
        else (ofTag opening).addChildren children)
      (if children.isEmpty then
        ((ofTag (opening.shift front)).addChildren children').foldText
          (closing.range.start.shift front)
        else (ofTag (opening.shift front)).addChildren children') := by
    split
    · exact hopen.foldText _
    · exact hopen
  unfold Node.ofPair
  rw [hempty]
  exact ⟨hfolded.className, hfolded.properties, hfolded.children, rfl, rfl, hfolded.body⟩

end Node

theorem Token.isHeader_shift (token : Token) : (token.shift front).isHeader = token.isHeader := by
  cases token <;> rfl

theorem BodyOf.shift (front : Text) (hd : d.SameFunctions d') {tokens : List Token} {nodes : List Node}
    (h : BodyOf tokens nodes) :
    ∃ nodes', BodyOf (tokens.map (Token.shift front)) nodes' ∧
      List.Forall₂ (Node.Moved front d d') nodes nodes' := by
  induction h with
  | nil => exact ⟨[], .nil, .nil⟩
  | @header token _ _ isHeader _ ih =>
    obtain ⟨nodes', hbody, hmoved⟩ := ih
    exact ⟨nodes', .header (token.isHeader_shift.trans isHeader) hbody, hmoved⟩
  | @single tag _ _ kind _ ih =>
    obtain ⟨nodes', hbody, hmoved⟩ := ih
    exact ⟨_, .single kind hbody, .cons ((Node.shifted_ofTag tag).moved hd) hmoved⟩
  | pair kind kind' sameClass _ _ ihWithin ih =>
    obtain ⟨children', hwithin, hchildren⟩ := ihWithin
    obtain ⟨nodes', hbody, hmoved⟩ := ih
    rw [List.map_cons, List.map_append, List.map_cons]
    exact ⟨_, .pair kind kind' sameClass hwithin hbody,
      .cons ((Node.Shifted.ofPair hchildren).moved hd) hmoved⟩

/-- The same edit in the source with `front` before it. -/
def Edit.shift (front : Text) (edit : Edit) : Edit := { edit with range := edit.range.shift front }

theorem EditsOf.shift {context : Resource.Context} (front : Text) (hd : d.SameFunctions d')
    {tokens : List Token} {edits : List Edit} (h : EditsOf context d tokens edits) :
    EditsOf context d' (tokens.map (Token.shift front)) (edits.map (Edit.shift front)) := by
  induction h with
  | nil => exact .nil
  | @header token _ _ isHeader _ ih => exact .header (token.isHeader_shift.trans isHeader) ih
  | ofImport _ ih => exact .ofImport ih
  | @single tag _ _ kind _ ih =>
    have hmoved : Node.Moved front d d' (.ofTag tag) (.ofTag (tag.shift front)) :=
      (Node.shifted_ofTag tag).moved hd
    rw [List.map_cons, List.map_cons, Edit.shift, ← hmoved.render]
    exact .single kind ih
  | @pair opening closing body _ children _ kind kind' sameClass within _ ih =>
    obtain ⟨children', hwithin, hchildren⟩ := within.shift front hd
    have hmoved : Node.Moved front d d' (.ofPair opening children closing)
        (.ofPair (opening.shift front) children' (closing.shift front)) :=
      (Node.Shifted.ofPair hchildren).moved hd
    rw [List.map_cons, List.map_cons, List.map_append, List.map_cons, Edit.shift, ← hmoved.render]
    exact .pair kind kind' sameClass hwithin ih

theorem Edit.follows_shift (front : Text) {c d : Cursor} {edits : List Edit}
    (h : Repeats Edit.Follows c edits d) :
    Repeats Edit.Follows (c.shift front) (edits.map (Edit.shift front)) (d.shift front) := by
  induction h with
  | nil c => exact .nil _
  | cons first _ ih =>
    obtain ⟨hstart, hrange, hstop⟩ := first
    exact .cons ⟨hstart.shift front, hrange.shift front, congrArg (Cursor.shift front) hstop⟩ ih

theorem splice_shift (front : Text) (c : Cursor) (edits : List Edit) :
    splice (c.shift front) (edits.map (Edit.shift front)) = splice c edits := by
  induction edits generalizing c with
  | nil => rfl
  | cons edit edits ih =>
    have hrest : splice (edit.range.stop.shift front) (edits.map (Edit.shift front)) =
        splice edit.range.stop edits := ih _
    rw [List.map_cons, splice, splice, ← hrest]
    rfl

theorem WellNested.shift {inside : Bool} {tokens : List Token} (h : WellNested inside tokens) :
    WellNested inside (tokens.map (Token.shift front)) := by
  induction h with
  | nil => exact .nil
  | @header _ token _ isHeader _ ih => exact .header (token.isHeader_shift.trans isHeader) ih
  | ofImport _ ih => exact .ofImport ih
  | single kind _ ih => exact .single kind ih
  | pair kind kind' sameClass _ _ ihWithin ih =>
    rw [List.map_cons, List.map_append, List.map_cons]
    exact .pair kind kind' sameClass ihWithin ih

theorem Pending.shift (front : Text) {tokens : List Token} {tags : List Tag}
    (h : Pending tokens tags) :
    Pending (tokens.map (Token.shift front)) (tags.map (Tag.shift front)) := by
  induction h with
  | closed nested => exact .closed nested.shift
  | opened _ kind within ih =>
    rw [List.map_append, List.map_cons]
    exact .opened ih kind within.shift

theorem Refusal.shift (front : Text) {tokens : List Token} {message : Text} {place : Cursor}
    (h : Refusal tokens message place) :
    Refusal (tokens.map (Token.shift front)) message (place.shift front) := by
  cases h with
  | importInside pending =>
    rw [List.map_append, List.map_cons]
    exact .importInside (pending.shift front)
  | closesNothing pending kind =>
    rw [List.map_append, List.map_cons]
    exact .closesNothing (pending.shift front) kind
  | @closesAnother _ _ opening tag _ pending kind otherClass =>
    rw [List.map_append, List.map_cons]
    exact @Refusal.closesAnother _ _ (opening.shift front) (tag.shift front) _
      (pending.shift front) kind otherClass
  | unclosed pending =>
    have hpending := pending.shift front
    rw [List.map_append] at hpending
    exact .unclosed hpending

end NodeMarkup
