import NodeMarkup.Proofs.Node.Lines
import NodeMarkup.Proofs.Text.Absent
import NodeMarkup.Proofs.Transpile.PassThrough

namespace NodeMarkup

variable {context : Resource.Context} {declarations : Declarations} {source : Text} {c d : Cursor}

/-- What is written in the place of tokens: an import, or the node of a tag that stands in no
other. -/
inductive Construct where
  | ofImport (i : Import)
  | ofNode (node : Node)

namespace Construct

def range : Construct → Range
  | ofImport i => i.range
  | ofNode node => node.range

def render (context : Resource.Context) (declarations : Declarations) : Construct → Text
  | ofImport i => i.render context
  | ofNode node => node.render declarations

def edit (context : Resource.Context) (declarations : Declarations) (construct : Construct) : Edit :=
  ⟨construct.range, construct.render context declarations⟩

/-- The import, or each property of the node and of those in it, begins and ends on the same line. -/
def OneLine : Construct → Prop
  | ofImport i => i.range.start.line = i.range.stop.line
  | ofNode node => node.OneLine

end Construct

/-- The constructs that well-nested tokens stand for, in their order. -/
inductive ConstructsOf : List Token → List Construct → Prop where
  | nil : ConstructsOf [] []
  | header {token : Token} {tokens : List Token} {constructs : List Construct}
      (isHeader : token.isHeader) (rest : ConstructsOf tokens constructs) :
      ConstructsOf (token :: tokens) constructs
  | ofImport {i : Import} {tokens : List Token} {constructs : List Construct}
      (rest : ConstructsOf tokens constructs) :
      ConstructsOf (.ofImport i :: tokens) (.ofImport i :: constructs)
  | single {tag : Tag} {tokens : List Token} {constructs : List Construct}
      (kind : tag.kind = .single) (rest : ConstructsOf tokens constructs) :
      ConstructsOf (.ofTag tag :: tokens) (.ofNode (.ofTag tag) :: constructs)
  | pair {opening closing : Tag} {body tokens : List Token} {children : List Node}
      {constructs : List Construct} (kind : opening.kind = .opening)
      (kind' : closing.kind = .closing) (sameClass : closing.className = opening.className)
      (within : BodyOf body children) (rest : ConstructsOf tokens constructs) :
      ConstructsOf (.ofTag opening :: (body ++ .ofTag closing :: tokens))
        (.ofNode (.ofPair opening children closing) :: constructs)

theorem WellNested.exists_constructs {inside : Bool} {tokens : List Token}
    (h : WellNested inside tokens) (hi : inside = false) :
    ∃ constructs, ConstructsOf tokens constructs := by
  induction h with
  | nil => exact ⟨[], .nil⟩
  | header isHeader _ ih =>
    obtain ⟨constructs, hconstructs⟩ := ih hi
    exact ⟨constructs, .header isHeader hconstructs⟩
  | ofImport _ ih =>
    obtain ⟨constructs, hconstructs⟩ := ih hi
    exact ⟨_, .ofImport hconstructs⟩
  | single kind _ ih =>
    obtain ⟨constructs, hconstructs⟩ := ih hi
    exact ⟨_, .single kind hconstructs⟩
  | pair kind kind' sameClass within _ _ ih =>
    obtain ⟨children, hchildren⟩ := within.exists_body rfl
    obtain ⟨constructs, hconstructs⟩ := ih hi
    exact ⟨_, .pair kind kind' sameClass hchildren hconstructs⟩

theorem ConstructsOf.edits {tokens : List Token} {constructs : List Construct}
    (h : ConstructsOf tokens constructs) :
    EditsOf context declarations tokens (constructs.map (Construct.edit context declarations)) := by
  induction h with
  | nil => exact .nil
  | header isHeader _ ih => exact .header isHeader ih
  | ofImport _ ih => exact .ofImport ih
  | single kind _ ih => exact .single kind ih
  | pair kind kind' sameClass within _ ih => exact .pair kind kind' sameClass within ih

/-- What is in neither text of an import is not in its code, but for the marks of the code. -/
theorem Import.not_mem_render {i : Import} {x : Char} (hfolder : x ∉ context.folder)
    (hclass : x ∉ i.className) (hpath : x ∉ i.path)
    (hx : x ∉ "var = ResourceLoader.load(\"\\/)".toList) : x ∉ i.render context := by
  have hmark {word : Text} (hword : word ⊆ "var = ResourceLoader.load(\"\\/)".toList) : x ∉ word :=
    fun hmem => hx (hword hmem)
  have hne {mark : Char} (hword : [mark] ⊆ "var = ResourceLoader.load(\"\\/)".toList) : x ≠ mark :=
    List.ne_of_not_mem_cons (hmark hword)
  have hresolved := Resource.Context.not_mem_resolve hfolder hpath (hne (by decide))
  have hcode : x ∉ (Value.ofText (context.resolve i.path)).code :=
    Text.not_mem_quote hresolved (hne (by decide)) (hne (by decide))
  rw [render_eq]
  simp only [List.mem_append, not_or]
  exact ⟨⟨⟨⟨hmark (by decide), hclass⟩, hmark (by decide)⟩, hcode⟩, hmark (by decide)⟩

/-- The code of the edit has as many line breaks as its range. -/
def Edit.KeepsLines (edit : Edit) : Prop :=
  edit.range.start.line + edit.code.count '\n' = edit.range.stop.line

theorem ConstructsOf.keepsLines {tokens : List Token} {constructs : List Construct}
    (h : ConstructsOf tokens constructs) (hfolder : '\n' ∉ context.folder)
    (ht : Repeats Token.Follows c tokens d) (hc : Cursor.IsPlace source c)
    (hflat : ∀ token ∈ tokens, token.Flat) (hone : ∀ x ∈ constructs, x.OneLine) :
    ∀ x ∈ constructs, (x.edit context declarations).KeepsLines := by
  induction h generalizing c with
  | nil => simp
  | header _ _ ih =>
    cases ht with
    | cons first rest =>
      exact ih rest (hc.of_reaches first.advances.1) (List.forall_mem_cons.1 hflat).2 hone
  | @ofImport i _ _ _ ih =>
    obtain ⟨htoken, hflat⟩ := List.forall_mem_cons.1 hflat
    obtain ⟨hline, hone⟩ := List.forall_mem_cons.1 hone
    cases ht with
    | cons first rest =>
      refine List.forall_mem_cons.2 ⟨?_, ih rest (hc.of_reaches first.advances.1) hflat hone⟩
      have hcode := List.count_eq_zero_of_not_mem
        (Import.not_mem_render hfolder htoken.1 htoken.2 (by decide))
      have hline : i.range.start.line = i.range.stop.line := hline
      change i.range.start.line + (i.render context).count '\n' = i.range.stop.line
      rw [hcode, Nat.add_zero, hline]
  | single _ _ ih =>
    obtain ⟨htag, hflat⟩ := List.forall_mem_cons.1 hflat
    obtain ⟨hnode, hone⟩ := List.forall_mem_cons.1 hone
    cases ht with
    | cons first rest =>
      refine List.forall_mem_cons.2 ⟨Node.spans_ofTag first hc htag hnode, ?_⟩
      exact ih rest (hc.of_reaches first.advances.1) hflat hone
  | pair _ _ _ within _ ih =>
    obtain ⟨hnode, hone⟩ := List.forall_mem_cons.1 hone
    obtain ⟨hspans, b, hb, hrest⟩ := Node.spans_ofPair within ht hc hflat hnode
      fun _ _ ht hc hflat hone => within.spans ht hc hflat hone
    have hbehind := ih hrest hb (fun token ht => hflat token (by simp [ht])) hone
    exact List.forall_mem_cons.2 ⟨hspans, hbehind⟩

/-- What stands before the place `d` of a source from `c` on, with the code of each edit in the place
of its range. -/
def spliceTo (c : Cursor) : List Edit → Cursor → Text
  | [], d => Range.text ⟨c, d⟩
  | edit :: rest, d =>
    Range.text ⟨c, edit.range.start⟩ ++ edit.code ++ spliceTo edit.range.stop rest d

theorem InOrder.follows {edits : List Edit} (h : InOrder Edit.range c edits d) :
    ∃ stop, Repeats Edit.Follows c edits stop := by
  induction h with
  | nil => exact ⟨_, .nil _⟩
  | cons start stop _ ih =>
    obtain ⟨last, hfollows⟩ := ih
    exact ⟨last, .cons ⟨start, stop, rfl⟩ hfollows⟩

/-- A splice parts at a place that no edit covers. -/
theorem splice_append {before after : List Edit} {stop : Cursor}
    (h : InOrder Edit.range c before d) (hafter : InOrder Edit.range d after stop) :
    splice c (before ++ after) = spliceTo c before d ++ splice d after := by
  induction h with
  | nil h =>
    obtain ⟨last, hfollows⟩ := hafter.follows
    exact splice_before h hfollows
  | cons _ _ _ ih =>
    rw [List.cons_append, splice, spliceTo, ih hafter]
    simp only [List.append_assoc]

theorem line_spliceTo {edits : List Edit} (h : InOrder Edit.range c edits d)
    (hlines : ∀ edit ∈ edits, edit.KeepsLines) :
    c.line + (spliceTo c edits d).count '\n' = d.line := by
  induction h with
  | nil h => exact h.line_eq.symm
  | @cons c d edit edits start _ _ ih =>
    obtain ⟨hedit, hlines⟩ := List.forall_mem_cons.1 hlines
    have hgap := start.line_eq
    have hrest := ih hlines
    unfold Edit.KeepsLines at hedit
    simp only [spliceTo, List.count_append]
    omega

theorem head?_splice {edits : List Edit} (h : InOrder Edit.range c edits d)
    (hlt : ∀ edit ∈ edits, c.position < edit.range.start.position) :
    (splice c edits).head? = c.current? := by
  cases h with
  | nil => rfl
  | @cons _ _ edit edits start _ _ =>
    obtain ⟨hrest, hposition⟩ := start.rest_eq_text
    have hgap : Range.text ⟨c, edit.range.start⟩ ≠ [] := by
      intro hnil
      have hbehind := hlt edit (by simp)
      rw [hnil, Text.byteLength_nil] at hposition
      omega
    rw [Cursor.current?, hrest, splice, List.append_assoc, List.head?_append_of_ne_nil _ hgap,
      List.head?_append_of_ne_nil _ hgap]

/-- The place stands in no range of a construct. -/
def Cursor.Outside (constructs : List Construct) (c : Cursor) : Prop :=
  ∀ x ∈ constructs, x.range.stop.position ≤ c.position ∨ c.position < x.range.start.position

/-- The line numbers of a source, whose lines are `lines`, are those of the text it becomes. -/
structure KeepsLines (context : Resource.Context) (declarations : Declarations) (lines : Text)
    (constructs : List Construct) (out : Text) : Prop where
  -- The code of each outermost node has as many line breaks as its source.
  node : ∀ node, .ofNode node ∈ constructs →
    node.range.start.line + (node.render declarations).count '\n' = node.range.stop.line
  -- What stands outside stands in the text behind the code of the constructs before it, with as many
  -- line breaks before it as in the source.
  outside : ∀ c, Cursor.IsPlace lines c → c.Outside constructs →
    ∃ before after, constructs = before ++ after ∧
      (∀ x ∈ before, x.range.stop.position ≤ c.position) ∧
      (∀ x ∈ after, c.position < x.range.start.position) ∧
      let front := spliceTo (.start lines) (before.map (Construct.edit context declarations)) c
      let behind := splice c (after.map (Construct.edit context declarations))
      out = front ++ behind ∧ behind.head? = c.current? ∧ front.count '\n' = c.line
  total : out.count '\n' = lines.count '\n'

/-- An accepted source whose imports and properties stand on one line each keeps its line numbers,
however its nodes are nested and laid out. -/
theorem transpileIn_keepsLines (context : Resource.Context) (source out : Text)
    (hfolder : '\n' ∉ context.folder) (h : transpileIn context source = .ok out) :
    let lines := Text.unifyLineBreaks source
    let tokens := (Scan.start lines).drain.1
    (∃ constructs, ConstructsOf tokens constructs) ∧
      ∀ constructs, ConstructsOf tokens constructs → (∀ x ∈ constructs, x.OneLine) →
        KeepsLines context (.ofTokens tokens) lines constructs out := by
  rw [transpileIn_eq] at h
  generalize Text.unifyLineBreaks source = lines at h ⊢
  refine ⟨(wellNested_of_transpileLines_ok h).exists_constructs rfl, ?_⟩
  intro constructs hconstructs hone
  let edit := Construct.edit context (.ofTokens (Scan.start lines).drain.1)
  have hstart := Cursor.isPlace_start lines
  obtain ⟨d, htokens⟩ := (Scan.yields_drain lines).tokens
  have hlines : ∀ x ∈ constructs, (edit x).KeepsLines :=
    hconstructs.keepsLines hfolder htokens hstart
      (Scan.forall_mem_drain (fun _ => Grammar.reads_flat_token) lines) hone
  have hedits : EditsOf context _ _ (constructs.map edit) := hconstructs.edits
  have hout : out = splice (.start lines) (constructs.map edit) :=
    Except.ok.inj (h.symm.trans (transpileLines_eq_splice (stop_of_transpileLines_ok h) hedits))
  have horder : InOrder Edit.range (.start lines) (constructs.map edit)
      ((Cursor.start lines).advanceBy lines.length) := by
    obtain ⟨stop, hfollows⟩ := (hedits.ordered htokens).follows
    have hstop := hstart.of_reaches (hfollows.reaches fun _ _ _ h => h.reaches)
    exact (hfollows.inOrder fun _ _ _ h => h).to_behind hstop.reaches_end
  constructor
  case node =>
    intro node hnode
    exact hlines _ hnode
  case outside =>
    intro c hc houtside
    obtain ⟨edits, edits', hparts, hbefore, hafter, hle, hlt⟩ :=
      horder.exists_split hstart hc hc hc.reaches_end (List.forall_mem_map.2 houtside)
    obtain ⟨before, after, rfl, rfl, rfl⟩ := List.map_eq_append_iff.1 hparts
    refine ⟨before, after, rfl, fun x hx => hle _ (List.mem_map_of_mem hx),
      fun x hx => hlt _ (List.mem_map_of_mem hx), ?_⟩
    have hline := line_spliceTo hbefore
      (List.forall_mem_map.2 fun x hx => hlines x (List.mem_append_left _ hx))
    rw [Cursor.line_start, Nat.zero_add] at hline
    refine ⟨?_, head?_splice hafter hlt, hline⟩
    rw [hout, List.map_append]
    exact splice_append hbefore hafter
  case total =>
    have hwhole := splice_append horder (.nil (.refl _))
    have hline := line_spliceTo horder (List.forall_mem_map.2 hlines)
    have hend : ((Cursor.start lines).advanceBy lines.length).rest = [] := by simp
    rw [Cursor.line_start, Nat.zero_add, Cursor.line_end] at hline
    rw [List.append_nil, splice, hend, List.append_nil] at hwhole
    rw [hout, hwhole, hline]

/-- An import, and a pair of tags with a node in it whose text is folded. -/
theorem transpileIn_keepsLines_nested :
    let source := "import A from \"a\"\r\n<A children=b\n\tx=1>\n\t<B>hi</B> # end\n</A>".toList
    let lines := Text.unifyLineBreaks source
    let tokens := (Scan.start lines).drain.1
    ∃ out constructs, transpileIn .root source = .ok out ∧ ConstructsOf tokens constructs ∧
      (∀ x ∈ constructs, x.OneLine) ∧ KeepsLines .root (.ofTokens tokens) lines constructs out := by
  intro source lines tokens
  have hok : transpileIn .root source = .ok ("var A = ResourceLoader.load(\"res://a\")\n".toList
      ++ "create_node(A, \x7b\n\t\"x\": 1\x7d, [\n\t".toList
      ++ "create_node(B, \x7b\"text\": \"hi\"\x7d, [])\n] + b)".toList) :=
    ok_of_toOption (by decide +kernel)
  let place (n : Nat) : Cursor := (Cursor.start lines).advanceBy n
  let i : Import := ⟨"A".toList, "a".toList, ⟨place 0, place 17⟩⟩
  let a : Tag := ⟨.opening, "A".toList,
    [⟨"children".toList, ⟨.symbol, "b".toList⟩, ⟨place 21, place 31⟩⟩,
      ⟨"x".toList, ⟨.number, "1".toList⟩, ⟨place 33, place 36⟩⟩], ⟨place 18, place 37⟩, place 36⟩
  let a' : Tag := ⟨.closing, "A".toList, [], ⟨place 55, place 59⟩, place 58⟩
  let b : Tag := ⟨.opening, "B".toList, [], ⟨place 39, place 42⟩, place 41⟩
  let b' : Tag := ⟨.closing, "B".toList, [], ⟨place 44, place 48⟩, place 47⟩
  have htokens : tokens = [.ofImport i, .ofTag a, .ofTag b, .ofTag b', .ofTag a'] := by
    decide +kernel
  have hchild : (Node.ofPair b [] b').OneLine := by
    refine .intro ?_ (by simp [Node.children_ofPair])
    decide +kernel
  have hnode : (Node.ofPair a [.ofPair b [] b'] a').OneLine := by
    refine .intro ?_ (List.forall_mem_cons.2 ⟨hchild, List.forall_mem_nil _⟩)
    decide +kernel
  have hone : ∀ x ∈ [Construct.ofImport i, .ofNode (.ofPair a [.ofPair b [] b'] a')],
      x.OneLine := by
    have hi : i.range.start.line = i.range.stop.line := by decide +kernel
    exact List.forall_mem_cons.2 ⟨hi, List.forall_mem_cons.2 ⟨hnode, List.forall_mem_nil _⟩⟩
  have hbody : BodyOf (.ofTag b :: ([] ++ .ofTag b' :: [])) [.ofPair b [] b'] :=
    .pair rfl rfl rfl .nil .nil
  have hpair : ConstructsOf (.ofTag a :: ([.ofTag b, .ofTag b'] ++ .ofTag a' :: []))
      [.ofNode (.ofPair a [.ofPair b [] b'] a')] :=
    .pair rfl rfl rfl hbody .nil
  have hconstructs : ConstructsOf tokens
      [.ofImport i, .ofNode (.ofPair a [.ofPair b [] b'] a')] := by
    rw [htokens]
    exact .ofImport hpair
  refine ⟨_, _, hok, hconstructs, hone, ?_⟩
  exact (transpileIn_keepsLines .root source _ (by decide) hok).2 _ hconstructs hone

end NodeMarkup
