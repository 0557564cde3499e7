import NodeMarkup.Proofs.Node.Guarded
import NodeMarkup.Proofs.Node.Trees

namespace NodeMarkup

variable {d : Declarations} {source : Text}

/-- The code of a value: a reference if it is the bare name of a declared function. -/
def Value.plain (d : Declarations) (v : Value) : Text :=
  if v.kind = .symbol ∧ '.' ∉ v.code ∧ d.isFunction v.code then
    "funcref(self, \"".toList ++ v.code ++ "\")".toList
  else v.code

def Property.plain (d : Declarations) (p : Property) : Text :=
  "\"".toList ++ p.name ++ "\": ".toList ++ p.value.plain d

/-- Items with a comma and a space between each two. -/
def listed (items : List Text) : Text := (", ".toList).intercalate items

def plainClass (className : Text) : Text :=
  if className = "self".toList then "get_script()".toList else className

/-- What is appended to the list of children: the value of the last property of that name. -/
def plainAppended (d : Declarations) (properties : List Property) : Text :=
  match properties.reverse.find? (·.name = childrenName) with
  | some p => " + ".toList ++ p.value.plain d
  | none => []

mutual

/-- The code of a node on one line. -/
def Node.plain (d : Declarations) (node : Node) : Text :=
  match node with
  | ⟨className, properties, children, _, _, _⟩ =>
    "create_node(".toList ++ plainClass className ++ ", \x7b".toList
      ++ listed ((properties.filter (·.name ≠ childrenName)).map (Property.plain d))
      ++ "\x7d, [".toList ++ listed (plainChildren d children) ++ "]".toList
      ++ plainAppended d properties ++ ")".toList
termination_by structural node

def plainChildren (d : Declarations) (children : List Node) : List Text :=
  match children with
  | [] => []
  | child :: rest => child.plain d :: plainChildren d rest
termination_by structural children

end

theorem plainChildren_eq (children : List Node) :
    plainChildren d children = children.map (Node.plain d) := by
  induction children with
  | nil => rfl
  | cons child children ih => rw [plainChildren, ih, List.map_cons]

theorem Node.plain_eq (d : Declarations) (node : Node) :
    node.plain d =
      "create_node(".toList ++ plainClass node.className ++ ", \x7b".toList
        ++ listed ((node.properties.filter (·.name ≠ childrenName)).map (Property.plain d))
        ++ "\x7d, [".toList ++ listed (node.children.map (Node.plain d)) ++ "]".toList
        ++ plainAppended d node.properties ++ ")".toList := by
  obtain ⟨className, properties, children, range, closer, body⟩ := node
  unfold plain
  rw [plainChildren_eq]

theorem Value.render_eq_plain (v : Value) : v.render d = v.plain d := by
  have hbare : (v.kind = .symbol && !v.code.contains '.') = true ↔
      v.kind = .symbol ∧ '.' ∉ v.code := by
    simp
  unfold render plain identifier?
  by_cases h : v.kind = .symbol ∧ '.' ∉ v.code
  · rw [if_pos (hbare.2 h)]
    dsimp only
    by_cases hf : d.isFunction v.code = true
    · rw [if_pos hf, if_pos ⟨h.1, h.2, hf⟩]
    · rw [if_neg hf, if_neg fun hall => hf hall.2.2]
  · rw [if_neg (mt hbare.1 h), if_neg fun hall => h ⟨hall.1, hall.2.1⟩]

theorem renderAppended_eq_plain (properties : List Property) :
    renderAppended d properties = plainAppended d properties := by
  have hlast : (properties.filter (·.name = childrenName)).getLast? =
      properties.reverse.find? (·.name = childrenName) := by
    rw [List.getLast?_eq_head?_reverse, ← List.filter_reverse, List.head?_filter]
  unfold renderAppended plainAppended
  rw [hlast]
  cases properties.reverse.find? (·.name = childrenName) with
  | none => rfl
  | some p =>
    dsimp only
    rw [p.value.render_eq_plain]

/-- Items behind others: each has a comma and a space before it but the first of all. -/
def following (first : Bool) (items : List Text) : Text :=
  if first then listed items else items.flatMap (", ".toList ++ ·)

theorem following_cons (first : Bool) (item : Text) (items : List Text) :
    following first (item :: items) =
      (if first then [] else ", ".toList) ++ item ++ following false items := by
  cases first with
  | false => rfl
  | true =>
    change (", ".toList).intercalate (item :: items) = item ++ items.flatMap (", ".toList ++ ·)
    induction items generalizing item with
    | nil => simp [List.intercalate]
    | cons next items ih =>
      rw [List.intercalate_cons_of_ne_nil (List.cons_ne_nil _ _), ih, List.flatMap_cons]
      simp only [List.append_assoc]

section

variable {keep : Char → Bool} {lines : Nat → Prop}

/-- Of what the layout puts before an item nothing but a comma and a space is kept, on whichever of
the given lines the item before it ends. -/
def Cursor.Spaced (keep : Char → Bool) (lines : Nat → Prop) (item : Cursor) : Prop :=
  ∀ first line, lines line →
    (separator first line item).filter keep = if first then [] else (", ".toList).filter keep

/-- Whatever the layout of a node puts before its items is of that kind. -/
inductive Node.Spaced (keep : Char → Bool) (lines : Nat → Prop) : Node → Prop where
  | mk {node : Node} (start : lines node.range.start.line)
      (properties : ∀ p ∈ node.properties,
        p.range.start.Spaced keep lines ∧ lines p.range.stop.line)
      (children : ∀ child ∈ node.children,
        child.range.start.Spaced keep lines ∧ lines child.range.stop.line)
      (closer : node.closer.Spaced keep lines)
      (within : ∀ child ∈ node.children, child.Spaced keep lines) : node.Spaced keep lines

theorem filter_renderProperties {properties : List Property}
    (h : ∀ p ∈ properties, p.range.start.Spaced keep lines ∧ lines p.range.stop.line)
    (first : Bool) {line : Nat} (hline : lines line) :
    (renderProperties d first line properties).1.filter keep =
        (following first
          ((properties.filter (·.name ≠ childrenName)).map (Property.plain d))).filter keep ∧
      lines (renderProperties d first line properties).2 := by
  induction properties generalizing first line with
  | nil =>
    refine ⟨?_, hline⟩
    cases first <;> rfl
  | cons p properties ih =>
    obtain ⟨⟨hstart, hstop⟩, h⟩ := List.forall_mem_cons.1 h
    rw [renderProperties_cons]
    by_cases hname : p.name = childrenName
    · rw [if_pos hname, List.filter_cons_of_neg (by simpa using hname)]
      exact ih h first hline
    · obtain ⟨hcode, hlast⟩ := ih h false hstop
      rw [if_neg hname, List.filter_cons_of_pos (by simpa using hname), List.map_cons,
        following_cons, Property.plain, ← Value.render_eq_plain]
      refine ⟨?_, hlast⟩
      dsimp only
      simp only [List.filter_append, hcode, hstart first line hline, List.append_assoc]
      cases first <;> rfl

theorem filter_renderChildren {children : List Node}
    (h : ∀ child ∈ children, child.range.start.Spaced keep lines ∧ lines child.range.stop.line)
    (hcode : ∀ child ∈ children, (child.render d).filter keep = (child.plain d).filter keep)
    (first : Bool) {line : Nat} (hline : lines line) :
    (renderChildren d first line children).1.filter keep =
        (following first (children.map (Node.plain d))).filter keep ∧
      lines (renderChildren d first line children).2 := by
  induction children generalizing first line with
  | nil =>
    refine ⟨?_, hline⟩
    cases first <;> rfl
  | cons child children ih =>
    obtain ⟨⟨hstart, hstop⟩, h⟩ := List.forall_mem_cons.1 h
    obtain ⟨hchild, hcode⟩ := List.forall_mem_cons.1 hcode
    obtain ⟨hrest, hlast⟩ := ih h hcode false hstop
    rw [renderChildren_cons, List.map_cons, following_cons]
    refine ⟨?_, hlast⟩
    dsimp only
    simp only [List.filter_append, hchild, hrest, hstart first line hline, List.append_assoc]
    cases first <;> rfl

/-- What is kept of the code is what is kept of the plain code. The line behind the last item runs
through the properties and the children, so it is one of the given lines before each item. -/
theorem Node.Spaced.filter_render {node : Node} (h : node.Spaced keep lines) :
    (node.render d).filter keep = (node.plain d).filter keep := by
  induction h with
  | @mk node hstart hproperties hchildren hcloser _ ih =>
    obtain ⟨hproperty, hline⟩ := filter_renderProperties (d := d) hproperties true hstart
    obtain ⟨hchild, hline'⟩ := filter_renderChildren hchildren ih true hline
    have hclose := hcloser true _ hline'
    rw [Node.render_eq, Node.plain_eq, renderAppended_eq_plain]
    simp only [List.filter_append, hproperty, hchild, hclose, if_pos, List.append_nil]
    rfl

end

/-- The character is neither a space nor a tab nor a line break. -/
def isInk (c : Char) : Bool := c ≠ ' ' && c ≠ '\t' && c ≠ '\n'

theorem Cursor.IsPlace.spaced {c : Cursor} (h : c.IsPlace source) :
    c.Spaced isInk fun _ => True := by
  intro first line _
  have hindentation : c.indentation.filter isInk = [] := by
    rw [List.filter_eq_nil_iff]
    intro next hnext
    rcases h.blank_indentation next hnext with rfl | rfl <;> decide
  have hbreaks (n : Nat) : (List.replicate n '\n').filter isInk = [] :=
    List.filter_replicate_of_neg (by decide)
  rw [separator_eq]
  by_cases hline : 0 < c.line - line
  · rw [if_pos hline, if_pos hline, List.filter_append, List.filter_append, hbreaks, hindentation]
    cases first <;> rfl
  · rw [if_neg hline, if_neg hline, List.append_nil]
    cases first <;> rfl

theorem Node.Standing.spaced {node : Node} (h : node.Standing source) :
    node.Spaced isInk fun _ => True := by
  induction h with
  | mk _ hproperties hcloser hchildren ih =>
    refine .mk trivial (fun p hp => ⟨(hproperties p hp).spaced, trivial⟩) ?_ hcloser.spaced ih
    exact fun child hchild => ⟨(hchildren child hchild).start.spaced, trivial⟩

/-- Everything of a node stands on one line of the source. -/
inductive Node.OnLine (line : Nat) : Node → Prop where
  | mk {node : Node} (start : node.range.start.line = line) (stop : node.range.stop.line = line)
      (closer : node.closer.line = line)
      (properties : ∀ p ∈ node.properties, p.range.start.line = line ∧ p.range.stop.line = line)
      (children : ∀ child ∈ node.children, child.OnLine line) : node.OnLine line

theorem Node.OnLine.range {node : Node} {line : Nat} (h : node.OnLine line) :
    node.range.start.line = line ∧ node.range.stop.line = line := by
  cases h with
  | mk start stop _ _ _ => exact ⟨start, stop⟩

/-- On the line on which the item before it ends, an item has no line break before it. -/
theorem Cursor.spaced_of_line (c : Cursor) : c.Spaced (fun _ => true) (· = c.line) := by
  intro first line hline
  have hbreaks : c.line - line = 0 := by omega
  rw [separator_eq, hbreaks]
  cases first <;> rfl

theorem Node.OnLine.spaced {node : Node} {line : Nat} (h : node.OnLine line) :
    node.Spaced (fun _ => true) (· = line) := by
  have hplace {c : Cursor} (hc : c.line = line) : c.Spaced (fun _ => true) (· = line) :=
    hc ▸ c.spaced_of_line
  induction h with
  | mk hstart _ hcloser hproperties hchildren ih =>
    refine .mk hstart ?_ ?_ (hplace hcloser) ih
    · exact fun p hp => ⟨hplace (hproperties p hp).1, (hproperties p hp).2⟩
    · exact fun child hchild => ⟨hplace (hchildren child hchild).range.1,
        (hchildren child hchild).range.2⟩

/-- The layout of a node whose places are all of one source adds and leaves out nothing but spaces,
tabs and line breaks, and on one line not even these. -/
theorem Node.render_layout (d : Declarations) {node : Node} (h : node.Standing source) :
    (node.render d).filter isInk = (node.plain d).filter isInk ∧
      ∀ line, node.OnLine line → node.render d = node.plain d := by
  constructor
  · exact h.spaced.filter_render
  · intro line hline
    have hcode := hline.spaced.filter_render (d := d)
    rwa [List.filter_true, List.filter_true] at hcode

theorem Node.render_layout_two_lines :
    let source := "<A\n\tx=f><B/></A>".toList
    let child (place : Nat → Cursor) : Node :=
      ⟨"B".toList, [], [], ⟨place 8, place 12⟩, place 10, place 12⟩
    let node (place : Nat → Cursor) : Node :=
      ⟨"A".toList, [⟨"x".toList, ⟨.symbol, "f".toList⟩, ⟨place 4, place 7⟩⟩], [child place],
        ⟨place 0, place 16⟩, place 15, place 8⟩
    ∃ place : Nat → Cursor, (∀ n, place n = (Cursor.start source).advanceBy n) ∧
      (node place).render .empty ≠ (node place).plain .empty ∧
      ((node place).render .empty).filter isInk = ((node place).plain .empty).filter isInk ∧
      (child place).render .empty = (child place).plain .empty := by
  intro source child node
  have hchild (place : Nat → Cursor) (h : ∀ n, Cursor.IsPlace source (place n)) :
      (child place).Standing source :=
    .mk (h 8) (List.forall_mem_nil _) (h 10) (List.forall_mem_nil _)
  have hnode (place : Nat → Cursor) (h : ∀ n, Cursor.IsPlace source (place n)) :
      (node place).Standing source :=
    .mk (h 0) (List.forall_mem_singleton.2 (h 4)) (h 15)
      (List.forall_mem_singleton.2 (hchild place h))
  have hline (place : Nat → Cursor) (h : ∀ n ∈ [8, 10, 12], (place n).line = 1) :
      (child place).OnLine 1 :=
    .mk (h 8 (by decide)) (h 12 (by decide)) (h 10 (by decide)) (List.forall_mem_nil _)
      (List.forall_mem_nil _)
  let place (n : Nat) : Cursor := (Cursor.start source).advanceBy n
  have hplace (n : Nat) : Cursor.IsPlace source (place n) := ⟨n, rfl⟩
  refine ⟨place, fun n => rfl, by decide +kernel, ?_, ?_⟩
  · exact (render_layout .empty (hnode place hplace)).1
  · exact (render_layout .empty (hchild place hplace)).2 1 (hline place (by decide +kernel))

end NodeMarkup
