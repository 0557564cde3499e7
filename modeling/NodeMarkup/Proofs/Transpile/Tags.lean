import NodeMarkup.Proofs.Node.Trees
import NodeMarkup.Proofs.Transpile.Lines

namespace NodeMarkup

open Assembly

variable {context : Resource.Context} {declarations : Declarations} {c d : Cursor}

def Construct.node? : Construct → Option Node
  | ofImport _ => none
  | ofNode node => some node

namespace Assembly

/-- What a token makes the assembly write: an import, or a node that is finished while no other tag
is open. -/
def written? (a : Assembly) : Token → Option Construct
  | .ofImport i => if a.stack.isEmpty then some (.ofImport i) else none
  | .ofTag tag =>
    match tag.kind, a.stack with
    | .single, [] => some (.ofNode (.ofTag tag))
    | .closing, [node] => some (.ofNode ((node.folded tag.range.start).finish tag))
    | _, _ => none
  | _ => none

/-- All that the assembly writes while tokens are added, in the order of writing. -/
def written (context : Resource.Context) (declarations : Declarations) (a : Assembly) :
    List Token → List Construct
  | [] => []
  | token :: tokens =>
    match a.addToken context declarations token with
    | .ok b => (a.written? token).toList ++ written context declarations b tokens
    | .error _ => []

theorem attach_draft (node : Node) (a : Assembly) :
    (a.attach declarations node).draft =
      if a.stack.isEmpty then a.draft.replace node.range (node.render declarations)
      else a.draft := by
  rw [attach_eq]
  split
  · next h => rw [h]; rfl
  · next h => rw [h]; rfl

/-- One more token changes the draft by what it makes the assembly write, and by nothing else. -/
theorem draft_addToken {a b : Assembly} {token : Token}
    (h : a.addToken context declarations token = .ok b) :
    b.draft = a.draft.edited
      ((a.written? token).toList.map (Construct.edit context declarations)) := by
  cases token with
  | ofVariable header =>
    cases h
    rfl
  | ofFunction header =>
    cases h
    rfl
  | ofImport i =>
    simp only [addToken_ofImport, addImport_eq] at h
    split at h
    · next hempty =>
      cases h
      simp only [written?, hempty]
      rfl
    · cases h
  | ofTag tag =>
    simp only [addToken_ofTag, addTag_eq] at h
    split at h
    · next hkind =>
      cases h
      simp only [written?, hkind]
      rfl
    · next hkind =>
      cases h
      rw [attach_draft]
      simp only [written?, hkind]
      cases a.stack <;> rfl
    · next hkind =>
      split at h
      · cases h
      · next node rest hstack =>
        split at h
        · cases h
        · cases h
          rw [attach_draft]
          simp only [written?, hkind, hstack]
          cases rest <;> rfl

theorem written_cons {a b : Assembly} {token : Token} (tokens : List Token)
    (h : a.addToken context declarations token = .ok b) :
    a.written context declarations (token :: tokens) =
      (a.written? token).toList ++ b.written context declarations tokens := by
  rw [written, h]

theorem run_cons_ok {a b : Assembly} {token : Token} {tokens : List Token}
    (h : a.run context declarations (token :: tokens) = .ok b) :
    ∃ a', a.addToken context declarations token = .ok a' ∧
      a'.run context declarations tokens = .ok b := by
  cases hstep : a.addToken context declarations token with
  | ok a' => exact ⟨a', rfl, (run_cons tokens hstep).symm.trans h⟩
  | error x => exact absurd ((run_cons_error tokens hstep).symm.trans h) (by simp)

/-- A run changes the draft by what is written, edit by edit. -/
theorem draft_run {a b : Assembly} {tokens : List Token}
    (h : a.run context declarations tokens = .ok b) :
    b.draft = a.draft.edited
      ((a.written context declarations tokens).map (Construct.edit context declarations)) := by
  induction tokens generalizing a with
  | nil =>
    cases h
    rfl
  | cons token tokens ih =>
    obtain ⟨a', hstep, hrun⟩ := run_cons_ok h
    rw [ih hrun, draft_addToken hstep, written_cons tokens hstep, List.map_append]
    unfold Draft.edited
    rw [List.foldl_append]

theorem written_append {a b : Assembly} {tokens : List Token} (more : List Token)
    (h : a.run context declarations tokens = .ok b) :
    a.written context declarations (tokens ++ more) =
      a.written context declarations tokens ++ b.written context declarations more := by
  induction tokens generalizing a with
  | nil =>
    cases h
    rfl
  | cons token tokens ih =>
    obtain ⟨a', hstep, hrun⟩ := run_cons_ok h
    rw [List.cons_append, written_cons _ hstep, written_cons _ hstep, ih hrun, List.append_assoc]

/-- In the body of a tag nothing is written. -/
theorem written_body (context : Resource.Context) (declarations : Declarations)
    {tokens : List Token} {nodes : List Node} (h : BodyOf tokens nodes)
    (ho : tokens.Pairwise Token.Before) (parent : Node) (stack : List Node) (draft : Draft) :
    written context declarations ⟨parent :: stack, draft⟩ tokens = [] := by
  induction h generalizing parent stack with
  | nil => rfl
  | @header token _ _ isHeader _ ih =>
    have hnone : written? ⟨parent :: stack, draft⟩ token = none := by
      cases token with
      | ofTag tag => simp [Token.isHeader] at isHeader
      | ofVariable header => rfl
      | ofFunction header => rfl
      | ofImport i => rfl
    rw [written_cons _ (addToken_header _ isHeader), hnone, ih (List.pairwise_cons.1 ho).2]
    rfl
  | @single tag _ _ kind _ ih =>
    have hnone : written? ⟨parent :: stack, draft⟩ (.ofTag tag) = none := by
      simp [written?, kind]
    rw [written_cons _ (addToken_single _ kind), hnone]
    exact ih (List.pairwise_cons.1 ho).2 _ _
  | @pair opening closing body tokens children nodes kind kind' sameClass within _ ihWithin ih =>
    obtain ⟨hbefore, hbody, htokens⟩ := before_of_pair ho
    have hrun := run_body context declarations within hbody (Node.ofTag opening) (parent :: stack)
      draft
    have hopening : written? ⟨parent :: stack, draft⟩ (.ofTag opening) = none := by
      simp [written?, kind]
    have hclosing : written? ⟨(Node.ofTag opening).addChildren children :: parent :: stack, draft⟩
        (.ofTag closing) = none := by
      simp [written?, kind']
    rw [written_cons _ (addToken_opening _ kind), written_append _ hrun,
      written_cons _ (addToken_closing kind' sameClass hbefore), hopening, hclosing,
      ihWithin hbody]
    exact ih htokens _ _

/-- Outside of all tags the constructs that the tokens stand for are what is written. -/
theorem written_constructs {tokens : List Token} {constructs : List Construct}
    (h : ConstructsOf tokens constructs) (ho : tokens.Pairwise Token.Before) (draft : Draft) :
    written context declarations ⟨[], draft⟩ tokens = constructs := by
  induction h generalizing draft with
  | nil => rfl
  | @header token _ _ isHeader _ ih =>
    have hnone : written? ⟨[], draft⟩ token = none := by
      cases token with
      | ofVariable header => rfl
      | ofFunction header => rfl
      | ofImport i => simp [Token.isHeader] at isHeader
      | ofTag tag => simp [Token.isHeader] at isHeader
    rw [written_cons _ (addToken_header _ isHeader), hnone, ih (List.pairwise_cons.1 ho).2]
    rfl
  | @ofImport i _ _ _ ih =>
    have hstep : Assembly.addToken context declarations ⟨[], draft⟩ (.ofImport i) =
        .ok ⟨[], draft.replace i.range (i.render context)⟩ := rfl
    rw [written_cons _ hstep, ih (List.pairwise_cons.1 ho).2]
    rfl
  | @single tag _ _ kind _ ih =>
    have hnode : written? ⟨[], draft⟩ (.ofTag tag) = some (.ofNode (.ofTag tag)) := by
      simp [written?, kind]
    rw [written_cons _ (addToken_single _ kind), hnode]
    simp only [attach_eq]
    rw [ih (List.pairwise_cons.1 ho).2]
    rfl
  | @pair opening closing body tokens children constructs kind kind' sameClass within _ ih =>
    obtain ⟨hbefore, hbody, htokens⟩ := before_of_pair ho
    have hrun := run_body context declarations within hbody (Node.ofTag opening) [] draft
    have hopening : written? ⟨[], draft⟩ (.ofTag opening) = none := by simp [written?, kind]
    have hclosing : written? ⟨[(Node.ofTag opening).addChildren children], draft⟩
        (.ofTag closing) = some (.ofNode (.ofPair opening children closing)) := by
      simp only [written?, kind', Node.finish_eq_ofPair children hbefore]
    rw [written_cons _ (addToken_opening _ kind), written_append _ hrun,
      written_cons _ (addToken_closing kind' sameClass hbefore), hopening, hclosing,
      written_body context declarations within hbody]
    simp only [attach_eq]
    rw [ih htokens]
    rfl

end Assembly

/-- Whether a token is allowed in the body of a tag. -/
def Token.fitsInside : Token → Bool
  | ofImport _ => false
  | _ => true

theorem Token.fitsInside_of_isHeader {token : Token} (h : token.isHeader) : token.fitsInside := by
  cases token with
  | ofImport i => simp [isHeader] at h
  | ofVariable header => rfl
  | ofFunction header => rfl
  | ofTag tag => rfl

theorem Token.Follows.from_before {token : Token} {b : Cursor} (h : token.Follows b d)
    (hc : c.Reaches b) : token.Follows c d := by
  obtain ⟨place, hplace, hfollows⟩ := h
  exact ⟨place, hc.trans hplace, hfollows⟩

theorem Repeats.follows_from_before {tokens : List Token} {b : Cursor}
    (h : Repeats Token.Follows b tokens d) (hc : c.Reaches b) :
    ∃ stop, Repeats Token.Follows c tokens stop := by
  cases h with
  | nil => exact ⟨c, .nil c⟩
  | cons first rest => exact ⟨d, .cons (first.from_before hc) rest⟩

/-- Tokens still stand one behind the other when some are left out. -/
theorem Repeats.filter_follows {tokens : List Token} (keep : Token → Bool)
    (h : Repeats Token.Follows c tokens d) :
    ∃ stop, Repeats Token.Follows c (tokens.filter keep) stop := by
  induction h with
  | nil c => exact ⟨c, .nil c⟩
  | @cons c b _ token tokens first _ ih =>
    obtain ⟨stop, hrest⟩ := ih
    by_cases hkeep : keep token
    · rw [List.filter_cons_of_pos hkeep]
      exact ⟨stop, .cons first hrest⟩
    · rw [List.filter_cons_of_neg hkeep]
      exact hrest.follows_from_before first.advances.1

theorem BodyOf.filter_eq {tokens : List Token} {nodes : List Node} (h : BodyOf tokens nodes) :
    tokens.filter Token.fitsInside = tokens := by
  induction h with
  | nil => rfl
  | header isHeader _ ih =>
    rw [List.filter_cons_of_pos (Token.fitsInside_of_isHeader isHeader), ih]
  | single _ _ ih => rw [List.filter_cons_of_pos rfl, ih]
  | pair _ _ _ _ _ ihWithin ih =>
    rw [List.filter_cons_of_pos rfl, List.filter_append, ihWithin, List.filter_cons_of_pos rfl, ih]

/-- Without the imports, what stands outside of all tags is like what stands in the body of one. -/
theorem ConstructsOf.body {tokens : List Token} {constructs : List Construct}
    (h : ConstructsOf tokens constructs) :
    BodyOf (tokens.filter Token.fitsInside) (constructs.filterMap Construct.node?) := by
  induction h with
  | nil => exact .nil
  | header isHeader _ ih =>
    rw [List.filter_cons_of_pos (Token.fitsInside_of_isHeader isHeader)]
    exact .header isHeader ih
  | ofImport _ ih => exact ih
  | single kind _ ih => exact .single kind ih
  | pair kind kind' sameClass within _ ih =>
    rw [List.filter_cons_of_pos rfl, List.filter_append, within.filter_eq,
      List.filter_cons_of_pos rfl]
    exact .pair kind kind' sameClass within ih

theorem filterMap_tag_filter (tokens : List Token) :
    (tokens.filter Token.fitsInside).filterMap Token.tag? =
      tokens.filterMap Token.tag? := by
  rw [List.filterMap_filter]
  apply List.filterMap_congr
  intro token _
  cases token <;> rfl

/-- What has become of the tags of a source: `written` is all that was written for its tokens, and
`nodes` are the nodes among it. -/
structure KeepsTags (context : Resource.Context) (declarations : Declarations) (lines : Text)
    (tokens : List Token) (written : List Construct) (nodes : List Node) (out : Text) : Prop where
  -- No tag is left open, and the draft is the source with what was written and nothing else.
  drafted : ∃ a, (Assembly.ofSource lines).run context declarations tokens = .ok a ∧ a.stack = [] ∧
    a.draft = (Draft.ofSource lines).edited (written.map (Construct.edit context declarations)) ∧
    out = a.draft.text
  -- The nodes are those of trees that flatten back to the tags of the scan.
  forest : ∃ trees : List TagTree, nodes = trees.map TagTree.node ∧
    trees.flatMap TagTree.tags = tokens.filterMap Token.tag? ∧ ∀ tree ∈ trees, tree.Placed
  ordered : nodes.Pairwise fun x y => x.range.Precedes y.range
  code : ∀ node ∈ nodes, node.render declarations = (node.pieces declarations).flatMap Piece.text
  -- The calls are those of the tags that begin a node, in their order.
  calls : Piece.calls (nodes.flatMap (Node.pieces declarations)) =
    ((tokens.filterMap Token.tag?).filter fun tag => tag.kind ≠ .closing).map Tag.className

/-- An accepted source loses no tag, doubles none and puts none into another parent. -/
theorem transpileIn_keepsTags (context : Resource.Context) (source out : Text)
    (h : transpileIn context source = .ok out) :
    let lines := Text.unifyLineBreaks source
    let tokens := (Scan.start lines).drain.1
    let written := (Assembly.ofSource lines).written context (.ofTokens tokens) tokens
    KeepsTags context (.ofTokens tokens) lines tokens written (written.filterMap Construct.node?)
      out := by
  intro lines tokens written
  have h : transpileLines context lines = .ok out := h
  have hbefore := Scan.pairwise_before_drain lines
  have hfinished := stop_of_transpileLines_ok h
  obtain ⟨constructs, hconstructs⟩ := (wellNested_of_transpileLines_ok h).exists_constructs rfl
  have hwritten : written = constructs := Assembly.written_constructs hconstructs hbefore _
  obtain ⟨last, hfollows⟩ := (Scan.yields_drain lines).tokens
  obtain ⟨stop, hkept⟩ := hfollows.filter_follows Token.fitsInside
  have hbody := hconstructs.body
  obtain ⟨trees, hnodes, htags, hplaced⟩ := hbody.exists_trees hkept
  rw [filterMap_tag_filter] at htags
  rw [hwritten]
  constructor
  case drafted =>
    have hedits : EditsOf context (.ofTokens tokens) tokens _ := hconstructs.edits
    have hrun : (Assembly.ofSource lines).run context (.ofTokens tokens) tokens = .ok _ :=
      run_edits hedits hbefore (.ofSource lines)
    have hdraft := draft_run hrun
    change _ = Draft.edited (written.map _) _ at hdraft
    rw [hwritten] at hdraft
    refine ⟨_, hrun, rfl, hdraft, ?_⟩
    rw [transpileLines_of_edits hfinished hedits] at h
    exact (Except.ok.inj h).symm
  case forest => exact ⟨trees, hnodes, htags, hplaced⟩
  case ordered => exact (hbody.inOrder hkept).pairwise_precedes
  case code => exact fun node _ => (Node.flatMap_text_pieces _ node).symm
  case calls =>
    have hcalls := TagTree.calls_nodesOfAll (.ofTokens tokens) trees
    rw [TagTree.nodesOfAll_eq, TagTree.tagsOfAll_eq, htags, ← hnodes] at hcalls
    unfold Piece.calls at hcalls ⊢
    rw [List.filterMap_flatMap]
    exact hcalls

/-- An import, a pair with two nodes in it, one of them with a text, and a node of its own. -/
theorem transpileIn_keepsTags_siblings :
    let source := "import A from \"a\"\r\n<A><B>hé</B> <C/></A>\nx = <self/>".toList
    let lines := Text.unifyLineBreaks source
    let tokens := (Scan.start lines).drain.1
    let written := (Assembly.ofSource lines).written .root (.ofTokens tokens) tokens
    ∃ out, transpileIn .root source = .ok out ∧ KeepsTags .root (.ofTokens tokens) lines tokens
      written (written.filterMap Construct.node?) out := by
  intro source lines tokens written
  have hok : transpileIn .root source = .ok ("var A = ResourceLoader.load(\"res://a\")\n".toList
      ++ "create_node(A, \x7b\x7d, [create_node(B, \x7b\"text\": \"hé\"\x7d, []), ".toList
      ++ "create_node(C, \x7b\x7d, [])])\nx = create_node(get_script(), \x7b\x7d, [])".toList) :=
    ok_of_toOption (by decide +kernel)
  exact ⟨_, hok, transpileIn_keepsTags .root source _ hok⟩

end NodeMarkup
