import NodeMarkup.Proofs.Node.Lines
/-!
Trees of tags. A node forgets which tags it was made of; a tree keeps them, so that it can be
flattened back to the tags in the order of the source. The nodes in a body are those of such trees,
each of them inside the tags of its parent, and their code calls for one node after the other in the
order of the tags.
-/
namespace NodeMarkup

variable {d : Declarations} {c stop : Cursor}

def Token.tag? : Token → Option Tag
  | ofTag tag => some tag
  | _ => none

/-- The tags of a node and of all nodes in it. -/
inductive TagTree where
  | single (tag : Tag) (kind : tag.kind = .single)
  | pair (opening : Tag) (children : List TagTree) (closing : Tag)
      (kind : opening.kind = .opening) (kind' : closing.kind = .closing)
      (sameClass : closing.className = opening.className)

namespace TagTree

mutual

/-- The tags of a tree in the order of the source. -/
def tags (tree : TagTree) : List Tag :=
  match tree with
  | single tag _ => [tag]
  | pair opening children closing _ _ _ => opening :: (tagsOfAll children ++ [closing])
termination_by structural tree

def tagsOfAll (trees : List TagTree) : List Tag :=
  match trees with
  | [] => []
  | tree :: rest => tree.tags ++ tagsOfAll rest
termination_by structural trees

end

mutual

def node (tree : TagTree) : Node :=
  match tree with
  | single tag _ => .ofTag tag
  | pair opening children closing _ _ _ => .ofPair opening (nodesOfAll children) closing
termination_by structural tree

def nodesOfAll (trees : List TagTree) : List Node :=
  match trees with
  | [] => []
  | tree :: rest => tree.node :: nodesOfAll rest
termination_by structural trees

end

theorem tagsOfAll_eq (trees : List TagTree) : tagsOfAll trees = trees.flatMap tags := by
  induction trees with
  | nil => rfl
  | cons tree trees ih => rw [tagsOfAll, ih, List.flatMap_cons]

theorem nodesOfAll_eq (trees : List TagTree) : nodesOfAll trees = trees.map node := by
  induction trees with
  | nil => rfl
  | cons tree trees ih => rw [nodesOfAll, ih, List.map_cons]

section

variable (opening closing : Tag) (children : List TagTree) (kind : opening.kind = .opening)
  (kind' : closing.kind = .closing) (sameClass : closing.className = opening.className)

theorem tags_pair : (pair opening children closing kind kind' sameClass).tags =
    opening :: (children.flatMap tags ++ [closing]) := by
  rw [tags, tagsOfAll_eq]

theorem node_pair : (pair opening children closing kind kind' sameClass).node =
    .ofPair opening (children.map node) closing := by
  rw [node, nodesOfAll_eq]

end

/-- The node of a tree goes from its opening tag through its closing tag. Its children are those of
the tree; they stand between the two tags in their order, none of them overlapping another. -/
inductive Placed : TagTree → Prop where
  | single {tag : Tag} (kind : tag.kind = .single)
      (range : (single tag kind).node.range = tag.range)
      (children : (single tag kind).node.children = []) : Placed (single tag kind)
  | pair {opening closing : Tag} {children : List TagTree} (kind : opening.kind = .opening)
      (kind' : closing.kind = .closing) (sameClass : closing.className = opening.className)
      (range : (pair opening children closing kind kind' sameClass).node.range =
        ⟨opening.range.start, closing.range.stop⟩)
      (same : (pair opening children closing kind kind' sameClass).node.children =
        children.map node)
      (inside : ∀ child ∈ children,
        opening.range.stop.position ≤ child.node.range.start.position ∧
          child.node.range.stop.position ≤ closing.range.start.position)
      (ordered : children.Pairwise fun x y => x.node.range.Precedes y.node.range)
      (within : ∀ child ∈ children, child.Placed) :
      Placed (pair opening children closing kind kind' sameClass)

end TagTree

namespace InOrder

variable {α : Type} {range : α → Range} {values : List α} {a b : Cursor}

theorem stop_le (h : InOrder range a values b) :
    ∀ value ∈ values, (range value).stop.position ≤ b.position := by
  induction h with
  | nil => simp
  | cons _ _ rest ih => exact List.forall_mem_cons.2 ⟨rest.reaches.position_le, ih⟩

theorem pairwise_precedes (h : InOrder range a values b) :
    values.Pairwise fun v w => (range v).Precedes (range w) := by
  induction h with
  | nil => exact .nil
  | cons _ _ rest ih => exact List.pairwise_cons.2 ⟨rest.position_le, ih⟩

end InOrder

namespace Node

theorem range_ofPair (opening : Tag) (children : List Node) (closing : Tag) :
    (ofPair opening children closing).range = ⟨opening.range.start, closing.range.stop⟩ := rfl

theorem className_ofPair (opening : Tag) (children : List Node) (closing : Tag) :
    (ofPair opening children closing).className = opening.className := by
  unfold ofPair
  split
  · obtain ⟨properties, hnode, -⟩ :=
      foldText_cases closing.range.start ((ofTag opening).addChildren children)
    dsimp only
    rw [hnode]
    rfl
  · rfl

end Node

/-- The tags inside a pair, and what is known of their places. -/
theorem TagTree.placed_pair {opening closing : Tag} {trees : List TagTree}
    (kind : opening.kind = .opening) (kind' : closing.kind = .closing)
    (sameClass : closing.className = opening.className)
    (horder : InOrder Node.range opening.range.stop (trees.map node) closing.range.start)
    (hplaced : ∀ tree ∈ trees, tree.Placed) :
    (pair opening trees closing kind kind' sameClass).Placed := by
  have hstart := List.forall_mem_map.1 horder.position_le
  have hstop := List.forall_mem_map.1 horder.stop_le
  apply Placed.pair
  case range => rw [node_pair, Node.range_ofPair]
  case same => rw [node_pair, Node.children_ofPair]
  case inside => exact fun child hchild => ⟨hstart child hchild, hstop child hchild⟩
  case ordered =>
    have hordered := horder.pairwise_precedes
    rwa [List.pairwise_map] at hordered
  case within => exact hplaced

/-- The nodes in a body are those of trees that flatten back to the tags of the body. -/
theorem BodyOf.exists_trees {tokens : List Token} {nodes : List Node} (h : BodyOf tokens nodes)
    (ht : Repeats Token.Follows c tokens stop) :
    ∃ trees : List TagTree, nodes = trees.map TagTree.node ∧
      trees.flatMap TagTree.tags = tokens.filterMap Token.tag? ∧ ∀ tree ∈ trees, tree.Placed := by
  induction h generalizing c stop with
  | nil => exact ⟨[], rfl, rfl, by simp⟩
  | @header token _ _ isHeader _ ih =>
    have htag : token.tag? = none := by
      cases token with
      | ofVariable header => rfl
      | ofFunction header => rfl
      | ofImport i => rfl
      | ofTag tag => simp [Token.isHeader] at isHeader
    cases ht with
    | cons _ rest =>
      rw [List.filterMap_cons_none htag]
      exact ih rest
  | @single tag tokens nodes kind _ ih =>
    cases ht with
    | cons _ rest =>
      obtain ⟨trees, hnodes, htags, hplaced⟩ := ih rest
      refine ⟨.single tag kind :: trees, ?_, ?_, ?_⟩
      · rw [hnodes, List.map_cons, TagTree.node]
      · rw [List.flatMap_cons, htags, TagTree.tags]
        rfl
      · exact List.forall_mem_cons.2 ⟨.single kind rfl rfl, hplaced⟩
  | @pair opening closing body tokens children nodes kind kind' sameClass within _ ihWithin ih =>
    cases ht with
    | cons first rest =>
      obtain ⟨b, hbody, hclosing⟩ := rest.of_append
      cases hclosing with
      | cons last rest =>
        obtain ⟨inner, rfl, hinner, hinside⟩ := ihWithin hbody
        obtain ⟨trees, rfl, htags, hplaced⟩ := ih rest
        obtain ⟨-, -, rfl⟩ := first.range_eq
        have horder : InOrder Node.range opening.range.stop (inner.map TagTree.node)
            closing.range.start := (within.inOrder hbody).to_behind last.range_eq.1
        refine ⟨.pair opening inner closing kind kind' sameClass :: trees, ?_, ?_, ?_⟩
        · rw [List.map_cons, TagTree.node_pair]
        · rw [List.flatMap_cons, htags, TagTree.tags_pair, hinner]
          simp [Token.tag?]
        · refine List.forall_mem_cons.2 ⟨?_, hplaced⟩
          exact TagTree.placed_pair kind kind' sameClass horder hinside

/-- A part of the code of nodes: the beginning of a call that creates a node, or anything else. -/
inductive Piece where
  | call (className : Text)
  | plain (code : Text)

namespace Piece

def text : Piece → Text
  | call className => "create_node(".toList ++ renderClass className
  | plain code => code

def call? : Piece → Option Text
  | call className => some className
  | plain _ => none

theorem text_call (className : Text) :
    (call className).text = "create_node(".toList ++ renderClass className := rfl

theorem text_plain (code : Text) : (plain code).text = code := rfl

end Piece

/-- The line behind the last of the children, if there is one. -/
def lineBehind (line : Nat) (children : List Node) : Nat :=
  match children.getLast? with
  | none => line
  | some child => child.range.stop.line

mutual

/-- The code of a node, with the beginnings of the calls apart. -/
def Node.pieces (d : Declarations) (node : Node) : List Piece :=
  match node with
  | ⟨className, properties, children, range, closer, _⟩ =>
    let (propertyCode, line) := renderProperties d true range.start.line properties
    .call className :: .plain (", \x7b".toList ++ propertyCode ++ "\x7d, [".toList)
      :: childPieces d true line children
      ++ [.plain (separator true (lineBehind line children) closer ++ "]".toList
        ++ renderAppended d properties ++ ")".toList)]
termination_by structural node

def childPieces (d : Declarations) (first : Bool) (line : Nat) (children : List Node) :
    List Piece :=
  match children with
  | [] => []
  | child :: rest =>
    .plain (separator first line child.range.start) :: child.pieces d
      ++ childPieces d false child.range.stop.line rest
termination_by structural children

end

theorem lineBehind_renderChildren (first : Bool) (line : Nat) (children : List Node) :
    (renderChildren d first line children).2 = lineBehind line children := by
  induction children generalizing first line with
  | nil => rfl
  | cons child children ih =>
    rw [renderChildren_cons]
    dsimp only
    rw [ih]
    unfold lineBehind
    rw [List.getLast?_cons]
    cases children.getLast? <;> rfl

theorem Node.pieces_eq (d : Declarations) (node : Node) :
    node.pieces d =
      .call node.className ::
        .plain (", \x7b".toList
          ++ (renderProperties d true node.range.start.line node.properties).1
          ++ "\x7d, [".toList) ::
        (childPieces d true (renderProperties d true node.range.start.line node.properties).2
            node.children
          ++ [.plain (separator true
              (lineBehind (renderProperties d true node.range.start.line node.properties).2
                node.children) node.closer
            ++ "]".toList ++ renderAppended d node.properties ++ ")".toList)]) := by
  obtain ⟨className, properties, children, range, closer, body⟩ := node
  unfold pieces
  rfl

theorem flatMap_text_childPieces {children : List Node}
    (h : ∀ child ∈ children, (child.pieces d).flatMap Piece.text = child.render d) (first : Bool)
    (line : Nat) :
    (childPieces d first line children).flatMap Piece.text =
      (renderChildren d first line children).1 := by
  induction children generalizing first line with
  | nil => rfl
  | cons child children ih =>
    obtain ⟨hchild, hchildren⟩ := List.forall_mem_cons.1 h
    rw [childPieces, renderChildren_cons]
    dsimp only
    rw [← hchild, ← ih hchildren]
    simp only [List.cons_append, List.flatMap_cons, List.flatMap_append, Piece.text_plain,
      List.append_assoc]

/-- What holds of every node whose children it holds of holds of all nodes. -/
theorem Node.induct {P : Node → Prop} (h : ∀ node, (∀ child ∈ node.children, P child) → P node)
    (node : Node) : P node := by
  apply h
  intro child hchild
  exact induct h child
termination_by node
decreasing_by
  have hlt := List.sizeOf_lt_of_mem hchild
  cases node
  simp only [mk.sizeOf_spec] at hlt ⊢
  omega

/-- The pieces make up the code. -/
theorem Node.flatMap_text_pieces (d : Declarations) (node : Node) :
    (node.pieces d).flatMap Piece.text = node.render d := by
  induction node using Node.induct with
  | h node ih =>
    rw [Node.render_eq, Node.pieces_eq, lineBehind_renderChildren, ← flatMap_text_childPieces ih]
    simp only [List.flatMap_cons, List.flatMap_append, List.flatMap_nil, Piece.text_call,
      Piece.text_plain, List.append_assoc, List.append_nil]

/-- The classes of the nodes that some code creates, in the order of the calls. -/
def Piece.calls (pieces : List Piece) : List Text := pieces.filterMap call?

theorem calls_childPieces (first : Bool) (line : Nat) (children : List Node) :
    Piece.calls (childPieces d first line children) =
      children.flatMap fun child => Piece.calls (child.pieces d) := by
  induction children generalizing first line with
  | nil => rfl
  | cons child children ih =>
    have hrest := ih false child.range.stop.line
    unfold Piece.calls at hrest ⊢
    rw [childPieces, List.flatMap_cons, ← hrest, List.cons_append, List.filterMap_cons_none rfl,
      List.filterMap_append]

theorem Node.calls_pieces (node : Node) :
    Piece.calls (node.pieces d) =
      node.className :: node.children.flatMap fun child => Piece.calls (child.pieces d) := by
  have hchildren := calls_childPieces (d := d) true
    (renderProperties d true node.range.start.line node.properties).2 node.children
  unfold Piece.calls at hchildren ⊢
  rw [← hchildren, pieces_eq]
  simp only [List.filterMap_cons, List.filterMap_append, List.filterMap_nil, Piece.call?,
    List.append_nil]

/-- The classes of the tags that begin a node. -/
def beginnings (tags : List Tag) : List Text :=
  (tags.filter fun tag => tag.kind ≠ .closing).map Tag.className

theorem beginnings_append (tags more : List Tag) :
    beginnings (tags ++ more) = beginnings tags ++ beginnings more := by
  simp [beginnings]

mutual

/-- The code of a tree calls for its nodes in the order of the tags that begin them. -/
theorem TagTree.calls_node (d : Declarations) (tree : TagTree) :
    Piece.calls (tree.node.pieces d) = beginnings tree.tags := by
  match tree with
  | .single tag kind =>
    rw [Node.calls_pieces]
    simp [TagTree.node, TagTree.tags, Node.ofTag, beginnings, kind]
  | .pair opening children closing kind kind' sameClass =>
    have hchildren := TagTree.calls_nodesOfAll d children
    calc Piece.calls ((TagTree.pair opening children closing kind kind' sameClass).node.pieces d)
        = opening.className ::
            (TagTree.nodesOfAll children).flatMap fun child => Piece.calls (child.pieces d) := by
          rw [Node.calls_pieces, TagTree.node, Node.className_ofPair, Node.children_ofPair]
      _ = opening.className :: beginnings (TagTree.tagsOfAll children) := by rw [hchildren]
      _ = beginnings (opening :: (TagTree.tagsOfAll children ++ [closing])) := by
          simp [beginnings, kind, kind']
termination_by structural tree

theorem TagTree.calls_nodesOfAll (d : Declarations) (trees : List TagTree) :
    ((TagTree.nodesOfAll trees).flatMap fun child => Piece.calls (child.pieces d)) =
      beginnings (TagTree.tagsOfAll trees) := by
  match trees with
  | [] => rfl
  | tree :: rest =>
    have htree := TagTree.calls_node d tree
    have hrest := TagTree.calls_nodesOfAll d rest
    rw [TagTree.nodesOfAll, TagTree.tagsOfAll, List.flatMap_cons, htree, hrest, beginnings_append]
termination_by structural trees

end

end NodeMarkup
