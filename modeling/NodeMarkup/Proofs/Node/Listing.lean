import NodeMarkup.Proofs.Node.Layout

namespace NodeMarkup

variable {d : Declarations} {source : Text}

/-- Items one behind the other, each with blanks before it, and with a comma before these unless it is
the first of all. -/
inductive Listing : Bool → List Text → Text → Prop where
  | nil (first : Bool) : Listing first [] []
  | cons {first : Bool} {gap item rest : Text} {items : List Text}
      (blank : ∀ c ∈ gap, isInk c = false) (more : Listing false items rest) :
      Listing first (item :: items) ((if first then [] else ",".toList) ++ gap ++ item ++ rest)

theorem Cursor.IsPlace.exists_gap {c : Cursor} (h : c.IsPlace source) (first : Bool) (line : Nat) :
    ∃ gap, (∀ x ∈ gap, isInk x = false) ∧
      separator first line c = (if first then [] else ",".toList) ++ gap := by
  have hindentation : ∀ x ∈ c.indentation, isInk x = false := by
    intro x hx
    rcases h.blank_indentation x hx with rfl | rfl <;> decide
  rw [separator_eq]
  by_cases hbreaks : 0 < c.line - line
  · refine ⟨List.replicate (c.line - line) '\n' ++ c.indentation, ?_, ?_⟩
    · intro x hx
      rcases List.mem_append.1 hx with hbreak | hspace
      · rw [List.eq_of_mem_replicate hbreak]
        decide
      · exact hindentation x hspace
    · rw [if_pos hbreaks, if_pos hbreaks]
  · rw [if_neg hbreaks, if_neg hbreaks, List.append_nil]
    cases first with
    | false => exact ⟨[' '], by simp [isInk], rfl⟩
    | true => exact ⟨[], by simp, rfl⟩

/-- A property in the mapping of a node. -/
def Property.entry (d : Declarations) (p : Property) : Text :=
  "\"".toList ++ p.name ++ "\": ".toList ++ p.value.render d

/-- A property behind the children of a node. -/
def Property.operand (d : Declarations) (p : Property) : Text := " + ".toList ++ p.value.render d

namespace Node

/-- The properties that stand in the mapping. -/
def mapped (node : Node) : List Property := node.properties.filter (·.name ≠ childrenName)

/-- The properties that are written to be appended to the children. -/
def appended (node : Node) : List Property := node.properties.filter (·.name = childrenName)

end Node

theorem listing_renderProperties {properties : List Property}
    (h : ∀ p ∈ properties, Cursor.IsPlace source p.range.start) (first : Bool) (line : Nat) :
    Listing first ((properties.filter (·.name ≠ childrenName)).map (Property.entry d))
      (renderProperties d first line properties).1 := by
  induction properties generalizing first line with
  | nil => exact .nil first
  | cons p properties ih =>
    obtain ⟨hp, h⟩ := List.forall_mem_cons.1 h
    rw [renderProperties_cons]
    by_cases hname : p.name = childrenName
    · rw [if_pos hname, List.filter_cons_of_neg (by simpa using hname)]
      exact ih h first line
    · obtain ⟨gap, hblank, hgap⟩ := hp.exists_gap first line
      have hlisting : Listing first (p.entry d :: _) _ := .cons hblank (ih h false p.range.stop.line)
      rw [if_neg hname, List.filter_cons_of_pos (by simpa using hname), List.map_cons]
      dsimp only
      rw [hgap]
      simpa only [Property.entry, List.append_assoc] using hlisting

theorem listing_renderChildren {children : List Node}
    (h : ∀ child ∈ children, Cursor.IsPlace source child.range.start) (first : Bool) (line : Nat) :
    Listing first (children.map (Node.render d)) (renderChildren d first line children).1 := by
  induction children generalizing first line with
  | nil => exact .nil first
  | cons child children ih =>
    obtain ⟨hchild, h⟩ := List.forall_mem_cons.1 h
    obtain ⟨gap, hblank, hgap⟩ := hchild.exists_gap first line
    rw [renderChildren_cons, List.map_cons]
    dsimp only
    rw [hgap]
    exact .cons hblank (ih h false child.range.stop.line)

theorem renderAppended_eq_operands (properties : List Property) :
    renderAppended d properties =
      (properties.filter (·.name = childrenName)).getLast?.toList.flatMap (Property.operand d) := by
  unfold renderAppended
  cases (properties.filter (·.name = childrenName)).getLast? with
  | none => rfl
  | some p => simp [Property.operand]

/-- The code of a node, in its parts: the mapping, the children and what is appended to them. -/
structure Node.Listed (d : Declarations) (node : Node) (entries children operands : Text) :
    Prop where
  code : ∃ gap, (∀ c ∈ gap, isInk c = false) ∧ node.render d =
    "create_node(".toList ++ renderClass node.className ++ ", \x7b".toList ++ entries
      ++ "\x7d, [".toList ++ children ++ gap ++ "]".toList ++ operands ++ ")".toList
  entries : Listing true (node.mapped.map (Property.entry d)) entries
  children : Listing true (node.children.map (Node.render d)) children
  -- The last of the properties to be appended hides those before it.
  operands : operands = node.appended.getLast?.toList.flatMap (Property.operand d)

theorem Node.Standing.exists_listed {node : Node} (h : node.Standing source) (d : Declarations) :
    ∃ entries children operands, node.Listed d entries children operands := by
  cases h with
  | mk _ hproperties hcloser hchildren =>
    let entries := renderProperties d true node.range.start.line node.properties
    let children := renderChildren d true entries.2 node.children
    obtain ⟨gap, hblank, hgap⟩ := hcloser.exists_gap true children.2
    refine ⟨entries.1, children.1, renderAppended d node.properties, ?_⟩
    constructor
    case code => exact ⟨gap, hblank, by rw [Node.render_eq, hgap]; rfl⟩
    case entries => exact listing_renderProperties hproperties true _
    case children =>
      exact listing_renderChildren (fun child hchild => (hchildren child hchild).start) true _
    case operands => exact renderAppended_eq_operands node.properties

/-- With one property to be appended, or none, all are appended. -/
theorem Node.Listed.operands_eq {node : Node} {entries children operands : Text}
    (h : node.Listed d entries children operands) (hone : node.appended.length ≤ 1) :
    operands = node.appended.flatMap (Property.operand d) := by
  rw [h.operands]
  rcases happended : node.appended with _ | ⟨p, _ | ⟨q, more⟩⟩
  · rfl
  · rfl
  · rw [happended] at hone
    simp at hone

/-- The second node is the first one, or stands somewhere in its body. -/
inductive Node.Holds : Node → Node → Prop where
  | self (node : Node) : node.Holds node
  | child {node child other : Node} (mem : child ∈ node.children) (within : child.Holds other) :
      node.Holds other

theorem Node.Standing.of_holds {node other : Node} (h : node.Standing source)
    (hholds : node.Holds other) : other.Standing source := by
  induction hholds with
  | self => exact h
  | child mem _ ih =>
    cases h with
    | mk _ _ _ children => exact ih (children _ mem)

end NodeMarkup
