import NodeMarkup.Proofs.Node.Listing
import NodeMarkup.Proofs.Transpile.Tags

namespace NodeMarkup

variable {context : Resource.Context} {declarations : Declarations} {source : Text} {c d : Cursor}

namespace Assembly

/-- All places of a node that a sound assembly writes are places of the source. -/
theorem Sound.standing_written? {a : Assembly} {token : Token} (h : a.Sound source c)
    (hc : Cursor.IsPlace source c) (ht : token.Follows c d) :
    ∀ node ∈ (a.written? token).toList.filterMap Construct.node?, node.Standing source := by
  cases token with
  | ofVariable header => simp [written?]
  | ofFunction header => simp [written?]
  | ofImport i => by_cases hempty : a.stack.isEmpty <;> simp [written?, hempty, Construct.node?]
  | ofTag tag =>
    obtain ⟨place, hplace, hreach, hstands⟩ := ht.stands
    unfold written?
    dsimp only
    split
    · -- a tag that is a node by itself
      intro node hnode
      rw [List.mem_singleton.1 hnode]
      exact Node.standing_ofTag hstands (hc.of_reaches hplace)
    · -- the closing tag of the only open node
      next node _ hstack =>
      have hopen := (h.stack node (by rw [hstack]; exact List.mem_singleton_self node)).1
      intro other hother
      rw [List.mem_singleton.1 hother]
      exact (hopen.finish hc hplace hstands).1
    · simp

theorem Sound.standing_written {a : Assembly} {tokens : List Token} (h : a.Sound source c)
    (hc : Cursor.IsPlace source c) (ht : Repeats Token.Follows c tokens d) :
    ∀ node ∈ (a.written context declarations tokens).filterMap Construct.node?,
      node.Standing source := by
  -- the assembly is sound at the end of each token, up to the first that does not fit in
  induction ht generalizing a with
  | nil => simp [written]
  | @cons c b stop token tokens first _ ih =>
    cases hadded : a.addToken context declarations token with
    | error x => simp [written, hadded]
    | ok a' =>
      have hsound := (h.addToken context declarations hc first).2 a' hadded
      rw [written_cons tokens hadded, List.filterMap_append]
      intro node hnode
      rcases List.mem_append.1 hnode with hnow | hlater
      · exact h.standing_written? hc first node hnow
      · exact ih hsound (hc.of_reaches first.advances.1) node hlater

end Assembly

/-- The trees that are written for a source, up to the first token that does not fit in. -/
def writtenTrees (context : Resource.Context) (source : Text) : List Node :=
  let tokens := (Scan.start source).drain.1
  ((Assembly.ofSource source).written context (.ofTokens tokens) tokens).filterMap Construct.node?

theorem standing_of_mem_writtenTrees {tree : Node} (h : tree ∈ writtenTrees context source) :
    tree.Standing source := by
  obtain ⟨last, hfollows⟩ := (Scan.yields_drain source).tokens
  exact (Assembly.sound_ofSource source).standing_written (Cursor.isPlace_start source) hfollows
    tree h

/-- The mapping of each node of each tree lists an entry for each property but those that are to be
appended to the children, in their order; of these the last one is appended, and so all of them are if
there is one at most. -/
theorem writtenTrees_listed (context : Resource.Context) (source : Text) {tree node : Node}
    (htree : tree ∈ writtenTrees context source) (hnode : tree.Holds node) (d : Declarations) :
    ∃ entries children operands, node.Listed d entries children operands ∧
      (node.appended.length ≤ 1 → operands = node.appended.flatMap (Property.operand d)) := by
  have hstanding := (standing_of_mem_writtenTrees htree).of_holds hnode
  obtain ⟨entries, children, operands, hlisted⟩ := hstanding.exists_listed d
  exact ⟨entries, children, operands, hlisted, hlisted.operands_eq⟩

/-- A node inside another, with a repeated name and one property to be appended. -/
theorem writtenTrees_listed_inside :
    let source := "<A>\n  <B x=1 children=c x=f\n/></A>".toList
    ∃ tree ∈ writtenTrees .root source, ∃ node ∈ tree.children,
      node.mapped.map (Property.entry .empty) = ["\"x\": 1".toList, "\"x\": f".toList] ∧
      ∃ entries children, node.Listed .empty entries children " + c".toList := by
  intro source
  obtain ⟨tree, htree, node, hnode, hentries, hone, hoperand⟩ :
      ∃ tree ∈ writtenTrees .root source, ∃ node ∈ tree.children,
        node.mapped.map (Property.entry .empty) = ["\"x\": 1".toList, "\"x\": f".toList] ∧
        node.appended.length ≤ 1 ∧
        node.appended.flatMap (Property.operand .empty) = " + c".toList := by
    decide +kernel
  obtain ⟨entries, children, operands, hlisted, hall⟩ :=
    writtenTrees_listed .root source htree (.child hnode (.self node)) .empty
  refine ⟨tree, htree, node, hnode, hentries, entries, children, ?_⟩
  rwa [← hoperand, ← hall hone]

/-- Of two properties to be appended the code has the second one alone. -/
theorem transpile_hides_appended :
    let source := "<A children=a children=b/>".toList
    let code := "create_node(A, \x7b\x7d, [] + b)".toList
    transpile source = .ok code ∧ ∃ tree ∈ writtenTrees .root source, tree.render .empty = code ∧
      tree.appended.map (Property.operand .empty) = [" + a".toList, " + b".toList] := by
  refine ⟨ok_of_toOption (by decide +kernel), ?_⟩
  decide +kernel

end NodeMarkup
