import Mathlib.Data.List.Forall2
import NodeMarkup.Node.Assembly
import NodeMarkup.Proofs.Draft.Splice
import NodeMarkup.Proofs.Node.Nesting
/-!
What the assembly makes of tokens. Well-nested tokens stand for trees of nodes, which are written
down here from the outside in; the assembly builds them from the inside out with its stack, and the
two agree wherever the tokens come in the order of the source.
-/
namespace NodeMarkup

open Assembly

/-- The first token ends before the second does, and does not begin behind it. -/
def Token.Before (t u : Token) : Prop :=
  t.range.start.position ≤ u.range.start.position ∧ t.range.stop.position < u.range.stop.position

theorem Token.Before.cover_eq {t u : Token} (h : t.Before u) :
    t.range.cover u.range = ⟨t.range.start, u.range.stop⟩ := by
  obtain ⟨hstart, hstop⟩ := h
  unfold Range.cover
  rw [if_neg (by omega), if_pos (by omega)]

namespace Node

/-- Adds nodes behind the other nodes of the body. -/
def addChildren (node : Node) (nodes : List Node) : Node :=
  { node with children := node.children ++ nodes }

theorem addChildren_nil (node : Node) : node.addChildren [] = node := by
  cases node
  simp [addChildren]

theorem children_ofTag_addChildren (tag : Tag) (nodes : List Node) :
    ((ofTag tag).addChildren nodes).children = nodes := rfl

theorem addChild_addChildren (node child : Node) (nodes : List Node) :
    (node.addChild child).addChildren nodes = node.addChildren (child :: nodes) := by
  simp [addChild, addChildren]

/-- The node of a pair of tags with the given children. Without a child, the text between the tags
is folded into a property. -/
def ofPair (opening : Tag) (children : List Node) (closing : Tag) : Node :=
  let node := (ofTag opening).addChildren children
  let node := if children.isEmpty then node.foldText closing.range.start else node
  { node with range := ⟨opening.range.start, closing.range.stop⟩, closer := closing.closer }

theorem range_foldText (stop : Cursor) (node : Node) : (node.foldText stop).range = node.range := by
  rw [foldText_eq]
  dsimp only
  split
  · rfl
  · split
    · next changed h =>
      obtain ⟨properties, -, hnode⟩ := Option.map_eq_some_iff.1 h
      rw [← hnode]
    · rfl

theorem range_folded (stop : Cursor) (node : Node) : (node.folded stop).range = node.range := by
  rw [folded_eq]
  split
  · exact range_foldText stop node
  · rfl

theorem finish_eq_ofPair {opening closing : Tag} (children : List Node)
    (h : (Token.ofTag opening).Before (.ofTag closing)) :
    (((ofTag opening).addChildren children).folded closing.range.start).finish closing =
      ofPair opening children closing := by
  have hcover : opening.range.cover closing.range = ⟨opening.range.start, closing.range.stop⟩ :=
    h.cover_eq
  rw [folded_eq, children_ofTag_addChildren]
  unfold finish ofPair
  by_cases hempty : children.isEmpty
  · simp only [hempty, ↓reduceIte, range_foldText]
    rw [← hcover]
    rfl
  · simp only [hempty]
    rw [← hcover]
    rfl

end Node

/-- The nodes that well-nested tokens in the body of a tag stand for. -/
inductive BodyOf : List Token → List Node → Prop where
  | nil : BodyOf [] []
  | header {token : Token} {tokens : List Token} {nodes : List Node} (isHeader : token.isHeader)
      (rest : BodyOf tokens nodes) : BodyOf (token :: tokens) nodes
  | single {tag : Tag} {tokens : List Token} {nodes : List Node} (kind : tag.kind = .single)
      (rest : BodyOf tokens nodes) : BodyOf (.ofTag tag :: tokens) (.ofTag tag :: nodes)
  | pair {opening closing : Tag} {body tokens : List Token} {children nodes : List Node}
      (kind : opening.kind = .opening) (kind' : closing.kind = .closing)
      (sameClass : closing.className = opening.className) (within : BodyOf body children)
      (rest : BodyOf tokens nodes) :
      BodyOf (.ofTag opening :: (body ++ .ofTag closing :: tokens))
        (.ofPair opening children closing :: nodes)

/-- The edits that well-nested tokens stand for, in their order: one for each import, and one for
each tag or pair of tags that stands in no other. -/
inductive EditsOf (context : Resource.Context) (declarations : Declarations) :
    List Token → List Edit → Prop where
  | nil : EditsOf context declarations [] []
  | header {token : Token} {tokens : List Token} {edits : List Edit} (isHeader : token.isHeader)
      (rest : EditsOf context declarations tokens edits) :
      EditsOf context declarations (token :: tokens) edits
  | ofImport {i : Import} {tokens : List Token} {edits : List Edit}
      (rest : EditsOf context declarations tokens edits) :
      EditsOf context declarations (.ofImport i :: tokens)
        (⟨i.range, "var ".toList ++ i.className ++ " = ResourceLoader.load(".toList
          ++ Text.quote (context.resolve i.path) ++ ")".toList⟩ :: edits)
  | single {tag : Tag} {tokens : List Token} {edits : List Edit} (kind : tag.kind = .single)
      (rest : EditsOf context declarations tokens edits) :
      EditsOf context declarations (.ofTag tag :: tokens)
        (⟨tag.range, (Node.ofTag tag).render declarations⟩ :: edits)
  | pair {opening closing : Tag} {body tokens : List Token} {children : List Node}
      {edits : List Edit} (kind : opening.kind = .opening) (kind' : closing.kind = .closing)
      (sameClass : closing.className = opening.className) (within : BodyOf body children)
      (rest : EditsOf context declarations tokens edits) :
      EditsOf context declarations (.ofTag opening :: (body ++ .ofTag closing :: tokens))
        (⟨⟨opening.range.start, closing.range.stop⟩,
          (Node.ofPair opening children closing).render declarations⟩ :: edits)

variable {context : Resource.Context} {declarations : Declarations}

theorem WellNested.exists_body {inside : Bool} {tokens : List Token} (h : WellNested inside tokens)
    (hi : inside = true) : ∃ nodes, BodyOf tokens nodes := by
  induction h with
  | nil => exact ⟨[], .nil⟩
  | header isHeader _ ih =>
    obtain ⟨nodes, hnodes⟩ := ih hi
    exact ⟨nodes, .header isHeader hnodes⟩
  | ofImport => exact absurd hi (by decide)
  | single kind _ ih =>
    obtain ⟨nodes, hnodes⟩ := ih hi
    exact ⟨_, .single kind hnodes⟩
  | pair kind kind' sameClass _ _ ihWithin ih =>
    obtain ⟨children, hchildren⟩ := ihWithin rfl
    obtain ⟨nodes, hnodes⟩ := ih hi
    exact ⟨_, .pair kind kind' sameClass hchildren hnodes⟩

theorem WellNested.exists_edits {inside : Bool} {tokens : List Token} (h : WellNested inside tokens)
    (hi : inside = false) : ∃ edits, EditsOf context declarations tokens edits := by
  induction h with
  | nil => exact ⟨[], .nil⟩
  | header isHeader _ ih =>
    obtain ⟨edits, hedits⟩ := ih hi
    exact ⟨edits, .header isHeader hedits⟩
  | ofImport _ ih =>
    obtain ⟨edits, hedits⟩ := ih hi
    exact ⟨_, .ofImport hedits⟩
  | single kind _ ih =>
    obtain ⟨edits, hedits⟩ := ih hi
    exact ⟨_, .single kind hedits⟩
  | pair kind kind' sameClass within _ _ ih =>
    obtain ⟨children, hchildren⟩ := within.exists_body rfl
    obtain ⟨edits, hedits⟩ := ih hi
    exact ⟨_, .pair kind kind' sameClass hchildren hedits⟩

namespace Assembly

/-- The assembly behind some more tokens. -/
def run (context : Resource.Context) (declarations : Declarations) (a : Assembly)
    (tokens : List Token) : Except ParseError Assembly :=
  tokens.foldlM (addToken context declarations) a

theorem run_nil (a : Assembly) : a.run context declarations [] = .ok a := rfl

theorem run_cons {a b : Assembly} {token : Token} (tokens : List Token)
    (h : a.addToken context declarations token = .ok b) :
    a.run context declarations (token :: tokens) = b.run context declarations tokens := by
  unfold run
  rw [List.foldlM_cons, h]
  rfl

theorem run_cons_error {a : Assembly} {token : Token} {x : ParseError} (tokens : List Token)
    (h : a.addToken context declarations token = .error x) :
    a.run context declarations (token :: tokens) = .error x := by
  unfold run
  rw [List.foldlM_cons, h]
  rfl

theorem run_append {a b : Assembly} {tokens : List Token} (more : List Token)
    (h : a.run context declarations tokens = .ok b) :
    a.run context declarations (tokens ++ more) = b.run context declarations more := by
  unfold run at h ⊢
  rw [List.foldlM_append, h]
  rfl

theorem addToken_header (a : Assembly) {token : Token} (h : token.isHeader) :
    a.addToken context declarations token = .ok a := by
  cases token with
  | ofVariable header => rfl
  | ofFunction header => rfl
  | ofImport i => simp [Token.isHeader] at h
  | ofTag tag => simp [Token.isHeader] at h

/-- All that a tag can do to an assembly that takes it: it is put on the stack, it is a node by
itself, or it closes the innermost open node. -/
theorem addTag_cases {declarations : Declarations} {tag : Tag} {a b : Assembly}
    (h : a.addTag declarations tag = .ok b) :
    (tag.kind = .opening ∧ b = { a with stack := .ofTag tag :: a.stack }) ∨
    (tag.kind = .single ∧ b = a.attach declarations (.ofTag tag)) ∨
    (tag.kind = .closing ∧ ∃ node rest, a.stack = node :: rest ∧
      node.className = tag.className ∧
      b = attach declarations ((node.folded tag.range.start).finish tag) ⟨rest, a.draft⟩) := by
  rw [addTag_eq] at h
  split at h
  · next hkind =>
    cases h
    exact .inl ⟨hkind, rfl⟩
  · next hkind =>
    cases h
    exact .inr (.inl ⟨hkind, rfl⟩)
  · next hkind =>
    split at h
    · cases h
    · next node rest hstack =>
      split at h
      · cases h
      · next hclass =>
        cases h
        exact .inr (.inr ⟨hkind, node, rest, hstack, not_not.1 hclass, rfl⟩)

theorem addToken_opening (a : Assembly) {tag : Tag} (h : tag.kind = .opening) :
    a.addToken context declarations (.ofTag tag) = .ok { a with stack := .ofTag tag :: a.stack } := by
  simp only [addToken_ofTag, addTag_eq, h]

theorem addToken_single (a : Assembly) {tag : Tag} (h : tag.kind = .single) :
    a.addToken context declarations (.ofTag tag) = .ok (a.attach declarations (.ofTag tag)) := by
  simp only [addToken_ofTag, addTag_eq, h]

theorem addToken_closing {opening closing : Tag} {children rest : List Node} {draft : Draft}
    (hk : closing.kind = .closing) (hc : closing.className = opening.className)
    (h : (Token.ofTag opening).Before (.ofTag closing)) :
    Assembly.addToken context declarations ⟨(Node.ofTag opening).addChildren children :: rest, draft⟩
        (.ofTag closing) =
      .ok (attach declarations (.ofPair opening children closing) ⟨rest, draft⟩) := by
  have hclass : ¬((Node.ofTag opening).addChildren children).className ≠ closing.className := by
    rw [hc]
    exact fun h => h rfl
  simp only [addToken_ofTag, addTag_eq, hk]
  rw [if_neg hclass, Node.finish_eq_ofPair children h]

theorem before_of_pair {opening closing : Tag} {body tokens : List Token}
    (h : (Token.ofTag opening :: (body ++ .ofTag closing :: tokens)).Pairwise Token.Before) :
    (Token.ofTag opening).Before (.ofTag closing) ∧ body.Pairwise Token.Before ∧
      tokens.Pairwise Token.Before := by
  obtain ⟨hopening, hrest⟩ := List.pairwise_cons.1 h
  obtain ⟨hbody, hclosing, -⟩ := List.pairwise_append.1 hrest
  exact ⟨hopening _ (by simp), hbody, (List.pairwise_cons.1 hclosing).2⟩

/-- Well-nested tokens in the body of a tag give their nodes to the innermost open tag. -/
theorem run_body (context : Resource.Context) (declarations : Declarations)
    {tokens : List Token} {nodes : List Node} (h : BodyOf tokens nodes)
    (ho : tokens.Pairwise Token.Before) (parent : Node) (stack : List Node) (draft : Draft) :
    run context declarations ⟨parent :: stack, draft⟩ tokens =
      .ok ⟨parent.addChildren nodes :: stack, draft⟩ := by
  induction h generalizing parent stack with
  | nil => rw [run_nil, Node.addChildren_nil]
  | header isHeader _ ih =>
    rw [run_cons _ (addToken_header _ isHeader), ih (List.pairwise_cons.1 ho).2]
  | single kind _ ih =>
    rw [run_cons _ (addToken_single _ kind)]
    simp only [attach_eq]
    rw [ih (List.pairwise_cons.1 ho).2, Node.addChild_addChildren]
  | @pair opening closing body tokens children nodes kind kind' sameClass _ _ ihWithin ih =>
    obtain ⟨hbefore, hbody, htokens⟩ := before_of_pair ho
    -- the body runs with the opening tag as its innermost open tag
    have hchildren := ihWithin hbody (Node.ofTag opening) (parent :: stack)
    rw [run_cons _ (addToken_opening _ kind), run_append _ hchildren,
      run_cons _ (addToken_closing kind' sameClass hbefore)]
    simp only [attach_eq]
    rw [ih htokens, Node.addChild_addChildren]

/-- Well-nested tokens outside of all tags are written into the draft, edit by edit. -/
theorem run_edits {tokens : List Token} {edits : List Edit}
    (h : EditsOf context declarations tokens edits) (ho : tokens.Pairwise Token.Before)
    (draft : Draft) :
    run context declarations ⟨[], draft⟩ tokens =
      .ok ⟨[], draft.edited edits⟩ := by
  induction h generalizing draft with
  | nil => rfl
  | header isHeader _ ih =>
    rw [run_cons _ (addToken_header _ isHeader), ih (List.pairwise_cons.1 ho).2]
  | @ofImport i _ _ _ ih =>
    have hstep : Assembly.addToken context declarations ⟨[], draft⟩ (.ofImport i) =
        .ok ⟨[], draft.replace i.range (i.render context)⟩ := rfl
    rw [run_cons _ hstep, ih (List.pairwise_cons.1 ho).2]
    rfl
  | single kind _ ih =>
    rw [run_cons _ (addToken_single _ kind)]
    simp only [attach_eq]
    rw [ih (List.pairwise_cons.1 ho).2]
    rfl
  | @pair opening closing body tokens children edits kind kind' sameClass within _ ih =>
    obtain ⟨hbefore, hbody, htokens⟩ := before_of_pair ho
    have hchildren := run_body context declarations within hbody (Node.ofTag opening) [] draft
    rw [run_cons _ (addToken_opening _ kind), run_append _ hchildren,
      run_cons _ (addToken_closing kind' sameClass hbefore)]
    simp only [attach_eq]
    rw [ih htokens]
    rfl

/-- The node is that of the tag, with the children found so far. -/
def IsOpen (node : Node) (tag : Tag) : Prop :=
  ∃ children, node = (Node.ofTag tag).addChildren children

theorem run_pending (context : Resource.Context) (declarations : Declarations)
    {tokens : List Token} {tags : List Tag} (h : Pending tokens tags)
    (ho : tokens.Pairwise Token.Before) (draft : Draft) :
    ∃ stack draft', run context declarations ⟨[], draft⟩ tokens = .ok ⟨stack, draft'⟩ ∧
      List.Forall₂ IsOpen stack tags := by
  induction h with
  | closed nested =>
    obtain ⟨edits, hedits⟩ := nested.exists_edits rfl
    exact ⟨[], _, run_edits hedits ho draft, .nil⟩
  | @opened before body tags opening _ kind within ih =>
    obtain ⟨hbefore, hopened, -⟩ := List.pairwise_append.1 ho
    obtain ⟨stack, draft', hrun, hstack⟩ := ih hbefore
    obtain ⟨children, hchildren⟩ := within.exists_body rfl
    have hbody := run_body context declarations hchildren
      (List.pairwise_cons.1 hopened).2 (Node.ofTag opening) stack draft'
    refine ⟨_, draft', ?_, .cons ⟨children, rfl⟩ hstack⟩
    rw [run_append _ hrun, run_cons _ (addToken_opening _ kind), hbody]

theorem getLast_of_isOpen {stack : List Node} {tags : List Tag} {outermost : Tag}
    (h : List.Forall₂ IsOpen stack (tags ++ [outermost])) :
    ∃ node, stack.getLast? = some node ∧ IsOpen node outermost := by
  have hreverse := List.forall₂_reverse_iff.2 h
  rw [List.reverse_append, List.reverse_singleton, List.singleton_append] at hreverse
  obtain ⟨node, rest, hnode, -, hstack⟩ := List.forall₂_cons_right_iff.1 hreverse
  refine ⟨node, ?_, hnode⟩
  rw [List.getLast?_eq_head?_reverse, hstack, List.head?_cons]

theorem addToken_import_inside {stack : List Node} (draft : Draft) (i : Import)
    (h : stack ≠ []) :
    Assembly.addToken context declarations ⟨stack, draft⟩ (.ofImport i) =
      .error (.ofCursor .importInsideTag i.range.start) := by
  simp [addImport_eq, h]

theorem addToken_closes_nothing (draft : Draft) {tag : Tag} (h : tag.kind = .closing) :
    Assembly.addToken context declarations ⟨[], draft⟩ (.ofTag tag) =
      .error (.ofCursor .nothingToClose tag.range.start) := by
  simp only [addToken_ofTag, addTag_eq, h]

theorem addToken_closes_another {opening tag : Tag} {node : Node} (stack : List Node)
    (draft : Draft) (hn : IsOpen node opening) (hk : tag.kind = .closing)
    (hc : tag.className ≠ opening.className) :
    Assembly.addToken context declarations ⟨node :: stack, draft⟩ (.ofTag tag) =
      .error (.ofCursor (.mismatchedClosingTag opening.className) tag.range.start) := by
  obtain ⟨children, hnode⟩ := hn
  have hclass : node.className = opening.className := by
    rw [hnode]
    rfl
  simp only [addToken_ofTag, addTag_eq, hk, hclass]
  rw [if_pos (Ne.symm hc)]

/-- Tokens that are not well nested come to the error of what is wrong with them. -/
theorem run_refusal (context : Resource.Context) (declarations : Declarations)
    {tokens : List Token} {message : Text} {place : Cursor}
    (h : Refusal tokens message place) (ho : tokens.Pairwise Token.Before) (draft : Draft) :
    ∃ fault, fault.message = message ∧
      (run context declarations ⟨[], draft⟩ tokens >>= finish) = .error (.ofCursor fault place) := by
  cases h with
  | @importInside before after opening tags i pending =>
    obtain ⟨stack, draft', hrun, hstack⟩ :=
      run_pending context declarations pending (List.pairwise_append.1 ho).1 draft
    have hne : stack ≠ [] := by
      intro hnil
      rw [hnil] at hstack
      cases hstack
    refine ⟨.importInsideTag, rfl, ?_⟩
    rw [run_append _ hrun, run_cons_error _ (addToken_import_inside draft' i hne)]
    rfl
  | @closesNothing before after tag pending kind =>
    obtain ⟨stack, draft', hrun, hstack⟩ :=
      run_pending context declarations pending (List.pairwise_append.1 ho).1 draft
    cases hstack
    refine ⟨.nothingToClose, rfl, ?_⟩
    rw [run_append _ hrun, run_cons_error _ (addToken_closes_nothing draft' kind)]
    rfl
  | @closesAnother before after opening tag tags pending kind otherClass =>
    obtain ⟨stack, draft', hrun, hstack⟩ :=
      run_pending context declarations pending (List.pairwise_append.1 ho).1 draft
    cases hstack with
    | @cons node _ rest _ hnode _ =>
      refine ⟨.mismatchedClosingTag opening.className, rfl, ?_⟩
      rw [run_append _ hrun,
        run_cons_error _ (addToken_closes_another rest draft' hnode kind otherClass)]
      rfl
  | @unclosed _ tags outermost pending =>
    obtain ⟨stack, draft', hrun, hstack⟩ := run_pending context declarations pending ho draft
    obtain ⟨node, hlast, children, hnode⟩ := getLast_of_isOpen hstack
    refine ⟨.missingClosingTag, rfl, ?_⟩
    rw [hrun]
    change finish ⟨stack, draft'⟩ = _
    simp only [finish, hlast, hnode]
    rfl

end Assembly

end NodeMarkup
