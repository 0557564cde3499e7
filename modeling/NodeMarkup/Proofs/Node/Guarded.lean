import NodeMarkup.Proofs.Match.Guarded
import NodeMarkup.Proofs.Lexeme.Extent
import NodeMarkup.Proofs.Node.Trees
/-!
Layout and assembly with every check made. Rendering a node cuts the indentation of lines out of the
source, folding the text of a body cuts out that text, an edit cuts the draft at its two ends and
must not begin before the end of the last one, and the path of an import is cut behind its root.
Between any two tokens the assembly is sound, and then no check fails.
-/
namespace NodeMarkup

open KeepingT

variable {source : Text} {c : Cursor}

section Layout

variable {declarations : Declarations}

theorem Cursor.IsPlace.passes_separator {item : Cursor} (h : Cursor.IsPlace source item)
    (first : Bool) (line : Nat) :
    (separatorM first line item : Guarded Text).Passes (separator first line item) := by
  rw [separator_eq]
  unfold separatorM
  by_cases hbreaks : 0 < item.line - line
  · simp only [if_pos hbreaks]
    exact .check h.indentation? (.pure _)
  · simp only [if_neg hbreaks]
    exact .pure _

theorem passes_renderProperties {properties : List Property}
    (h : ∀ p ∈ properties, Cursor.IsPlace source p.range.start) (first : Bool) (line : Nat) :
    (renderPropertiesM declarations first line properties : Guarded (Text × Nat)).Passes
      (renderProperties declarations first line properties) := by
  induction properties generalizing first line with
  | nil => exact .pure _
  | cons property rest ih =>
    obtain ⟨hproperty, hrest⟩ := List.forall_mem_cons.1 h
    rw [renderPropertiesM, renderProperties_cons]
    by_cases hname : property.name = childrenName
    · rw [if_pos hname, if_pos hname]
      exact ih hrest first line
    · rw [if_neg hname, if_neg hname]
      exact (hproperty.passes_separator _ _).bind ((ih hrest _ _).bind (.pure _))

theorem passes_renderChildren {children : List Node}
    (hstart : ∀ child ∈ children, Cursor.IsPlace source child.range.start)
    (hcode : ∀ child ∈ children,
      (child.renderM declarations : Guarded Text).Passes (child.render declarations))
    (first : Bool) (line : Nat) :
    (renderChildrenM declarations first line children : Guarded (Text × Nat)).Passes
      (renderChildren declarations first line children) := by
  induction children generalizing first line with
  | nil => exact .pure _
  | cons child rest ih =>
    obtain ⟨hchild, hstart⟩ := List.forall_mem_cons.1 hstart
    obtain ⟨hchildCode, hcode⟩ := List.forall_mem_cons.1 hcode
    rw [renderChildrenM, renderChildren_cons]
    exact (hchild.passes_separator _ _).bind
      (hchildCode.bind ((ih hstart hcode _ _).bind (.pure _)))

/-- Everything that the layout of a node looks at is a place of the source: where its properties and
its children begin, and its closer. -/
inductive Node.Standing (source : Text) : Node → Prop where
  | mk {node : Node} (start : Cursor.IsPlace source node.range.start)
      (properties : ∀ p ∈ node.properties, Cursor.IsPlace source p.range.start)
      (closer : Cursor.IsPlace source node.closer)
      (children : ∀ child ∈ node.children, child.Standing source) : node.Standing source

theorem Node.Standing.start {node : Node} (h : node.Standing source) :
    Cursor.IsPlace source node.range.start := by
  cases h with
  | mk start _ _ _ => exact start

theorem Node.Standing.passes_render {node : Node} (h : node.Standing source) :
    (node.renderM declarations : Guarded Text).Passes (node.render declarations) := by
  induction h with
  | @mk node _ hproperties hcloser hchildren ih =>
    have hstart : ∀ child ∈ node.children, Cursor.IsPlace source child.range.start :=
      fun child hchild => (hchildren child hchild).start
    obtain ⟨className, properties, children, range, closer, body⟩ := node
    rw [Node.renderM, Node.render_eq]
    apply (passes_renderProperties hproperties _ _).bind
    apply (passes_renderChildren hstart ih _ _).bind
    exact (hcloser.passes_separator _ _).bind (.pure _)

end Layout

namespace Node

variable {node : Node} {stop : Cursor}

theorem passes_foldText (hbody : Cursor.IsPlace source node.body) (hstop : node.body.Reaches stop) :
    (node.foldTextM stop : Guarded Node).Passes (node.foldText stop) := by
  rw [foldText_eq]
  unfold foldTextM
  apply Passes.check (hbody.text? hstop)
  dsimp only
  split
  · exact .pure _
  · generalize node.setProperty? textName _ = changed
    cases changed with
    | some changed => exact .pure _
    | none =>
      have hstart := hbody.of_reaches
        (Cursor.reaches_advanceBy ((Range.text ⟨node.body, stop⟩).takeWhile Text.isBlank).length _)
      refine .check (hbody.advanceBy? _) (.check (hstart.advanceBy? _) (.check ?_ (.pure _)))
      exact Range.between?_of_reaches (Cursor.reaches_advanceBy _ _)

theorem passes_folded (hbody : Cursor.IsPlace source node.body) (hstop : node.body.Reaches stop) :
    (node.foldedM stop : Guarded Node).Passes (node.folded stop) := by
  rw [folded_eq]
  unfold foldedM
  split
  · exact passes_foldText hbody hstop
  · exact .pure _

end Node

/-- Where an edit follows the last one, it cuts the draft between scalar values. -/
theorem Draft.Finished.passes_replace {d : Draft} {done : Text} (h : d.Finished done c)
    (hwatermark : d.watermark = c.position) {range : Range} (hstart : c.Reaches range.start)
    (hrange : range.start.Reaches range.stop) (replacement : Text) :
    (d.replaceM range replacement : Guarded Draft).Passes (d.replace range replacement) := by
  obtain ⟨hreach, htext⟩ := h.reach_eq hstart
  obtain ⟨hreach', htext'⟩ := h.reach_eq (hstart.trans hrange)
  have hshifted := h.shifted_eq hstart
  have hshifted' := h.shifted_eq (hstart.trans hrange)
  generalize done ++ Range.text ⟨c, range.start⟩ = before at hreach htext hshifted
  generalize done ++ Range.text ⟨c, range.stop⟩ = through at hreach' htext' hshifted'
  -- the two cuts part the draft in three
  have hparts : d.text = before ++ range.text ++ range.stop.rest := by
    rw [htext, List.append_assoc, ← hrange.rest_eq_text.1]
  have hthrough : through = before ++ range.text :=
    List.append_cancel_right (htext'.symm.trans hparts)
  have hbefore : d.text.slice? 0 (d.shifted range.start.position) = some before :=
    Text.slice?_eq_some_iff.2 ⟨[], range.start.rest, htext, rfl, hshifted⟩
  have hcut : d.text.slice? (d.shifted range.start.position) (d.shifted range.stop.position) =
      some range.text :=
    Text.slice?_eq_some_iff.2 ⟨before, range.stop.rest, hparts, hshifted, hthrough ▸ hshifted'⟩
  have hbehind : d.text.slice? (d.shifted range.stop.position) (Text.byteLength d.text) =
      some range.stop.rest := by
    rw [hshifted', htext']
    exact Text.slice?_right through range.stop.rest
  have horder : d.watermark ≤ range.start.position ∧ range.start.position ≤ range.stop.position :=
    ⟨hwatermark ▸ hstart.position_le, hrange.position_le⟩
  have htake : d.text.take before.length = before := by rw [htext, List.take_left]
  have hdrop : d.text.drop through.length = range.stop.rest := by rw [htext', List.drop_left]
  unfold Draft.replaceM
  refine .ensure horder (.check ?_ (.ensure ?_ (.check ?_ (.pure _))))
  · rw [hreach, htake, hbefore]
  · rw [hcut]
    rfl
  · rw [hreach', hdrop, hbehind]

namespace Resource

theorem passes_splitRoot (path : Text) :
    (splitRootM path : Guarded (Text × Text)).Passes (splitRoot path) := by
  rw [splitRoot_eq]
  unfold splitRootM
  cases hn : Text.indexOf? schemeMark path with
  | some n =>
    obtain ⟨before, rest, rfl, rfl⟩ := Text.eq_of_indexOf? hn
    have hlength : Text.byteLength ((before ++ schemeMark ++ rest).take before.length) +
        Text.byteLength schemeMark = Text.byteLength (before ++ schemeMark) := by
      rw [List.append_assoc, List.take_left, Text.byteLength_append]
    have hroot : Text.slice? 0 (Text.byteLength (before ++ schemeMark))
        (before ++ schemeMark ++ rest) = some (before ++ schemeMark) :=
      Text.slice?_eq_some_iff.2 ⟨[], rest, rfl, rfl, rfl⟩
    dsimp only
    rw [← List.length_append, List.take_left, List.drop_left, hlength]
    exact .check hroot (.check (Text.slice?_right _ _) (.pure _))
  | none =>
    dsimp only
    split
    · exact .check (Text.slice?_right ['/'] _) (.pure _)
    · exact .pure _

theorem Context.passes_resolve (context : Context) (path : Text) :
    (context.resolveM path : Guarded Text).Passes (context.resolve path) := by
  have hnormalize (path : Text) : (normalizeM path : Guarded Text).Passes (normalize path) :=
    (passes_splitRoot path).bind (.pure _)
  rw [resolve_eq]
  unfold resolveM
  split
  · exact hnormalize path
  · exact hnormalize _

end Resource

theorem Import.passes_render (context : Resource.Context) (i : Import) :
    (i.renderM context : Guarded Text).Passes (i.render context) :=
  (context.passes_resolve i.path).bind (.pure _)

namespace Node

theorem standing_ofTag {tag : Tag} {stop : Cursor} (h : tag.Stands c stop)
    (hc : Cursor.IsPlace source c) : (ofTag tag).Standing source := by
  have hstart : tag.range.start = c := congrArg Range.start h.range
  apply Standing.mk
  case start => exact hstart ▸ hc
  case properties => exact fun p hp => ((h.orderly hc).piece p hp).start
  case closer => exact hc.of_reaches h.inOrder.reaches
  case children => exact List.forall_mem_nil _

theorem Standing.addChild {node child : Node} (h : node.Standing source)
    (hchild : child.Standing source) : (node.addChild child).Standing source := by
  cases h with
  | mk start properties closer children =>
    refine .mk start properties closer ?_
    intro other hother
    rcases List.mem_append.1 hother with hmem | hmem
    · exact children other hmem
    · rw [List.mem_singleton.1 hmem]
      exact hchild

/-- A folded text begins in the body, and the other properties stay where they are. -/
theorem Standing.foldText {node : Node} (h : node.Standing source)
    (hbody : Cursor.IsPlace source node.body) (stop : Cursor) :
    (node.foldText stop).Standing source := by
  obtain ⟨properties, hnode, hcases⟩ := foldText_cases stop node
  cases h with
  | mk start standing closer children =>
    rw [hnode]
    refine .mk start ?_ closer children
    rcases hcases with rfl | ⟨folded, -, hrevised | ⟨k, n, -, rfl⟩⟩
    · exact standing
    -- a text joined to an older one keeps the range of the older one
    · intro p hp
      have hmem : p.range ∈ node.properties.map Property.range := by
        rw [← map_range_of_revised hrevised]
        exact List.mem_map_of_mem hp
      obtain ⟨q, hq, hrange⟩ := List.mem_map.1 hmem
      exact hrange ▸ standing q hq
    · intro p hp
      rcases List.mem_append.1 hp with hmem | hmem
      · exact standing p hmem
      · rw [List.mem_singleton.1 hmem]
        exact hbody.of_reaches (Cursor.reaches_advanceBy k _)

theorem Standing.folded {node : Node} (h : node.Standing source)
    (hbody : Cursor.IsPlace source node.body) (stop : Cursor) :
    (node.folded stop).Standing source := by
  rw [Node.folded_eq]
  split
  · exact h.foldText hbody stop
  · exact h

/-- The node of a tag that is still open at `c`: it goes as far as its opening tag, and the place is
in its body. -/
structure Open (source : Text) (c : Cursor) (node : Node) : Prop where
  standing : node.Standing source
  stop : node.range.stop = node.body
  start : node.range.start.Reaches node.body
  reached : node.body.Reaches c

theorem Open.body {node : Node} (h : node.Open source c) : Cursor.IsPlace source node.body :=
  h.standing.start.of_reaches h.start

theorem open_ofTag {tag : Tag} {stop : Cursor} (h : tag.Stands c stop)
    (hc : Cursor.IsPlace source c) (hreach : c.Reaches stop) :
    (ofTag tag).Open source stop := by
  have hstart : tag.range.start = c := congrArg Range.start h.range
  have hstop : tag.range.stop = stop := congrArg Range.stop h.range
  refine ⟨standing_ofTag h hc, rfl, ?_, ?_⟩
  · change tag.range.start.Reaches tag.range.stop
    rw [hstart, hstop]
    exact hreach
  · change tag.range.stop.Reaches stop
    rw [hstop]
    exact .refl stop

/-- A closing tag further on makes the node go through that tag. -/
theorem Open.cover_eq {node : Node} {tag : Tag} {place stop : Cursor} (h : node.Open source c)
    (hplace : c.Reaches place) (htag : tag.Stands place stop) :
    node.range.cover tag.range = ⟨node.range.start, stop⟩ := by
  have hstart := ((h.start.trans h.reached).trans hplace).position_le
  have hbody := (h.reached.trans hplace).position_le
  have hcloser := htag.inOrder.reaches.position_le
  have hlt := htag.closer_lt
  unfold Range.cover
  rw [htag.range, h.stop]
  dsimp only
  rw [if_neg (by omega), if_pos (by omega)]

theorem Open.finish {node : Node} {tag : Tag} {place stop : Cursor} (h : node.Open source c)
    (hc : Cursor.IsPlace source c) (hplace : c.Reaches place) (htag : tag.Stands place stop) :
    ((node.folded tag.range.start).finish tag).Standing source ∧
      ((node.folded tag.range.start).finish tag).range = ⟨node.range.start, stop⟩ := by
  have hstanding := h.standing.folded h.body tag.range.start
  have hrange : ((node.folded tag.range.start).finish tag).range = ⟨node.range.start, stop⟩ := by
    change (node.folded tag.range.start).range.cover tag.range = _
    rw [range_folded, h.cover_eq hplace htag]
  refine ⟨?_, hrange⟩
  cases hstanding with
  | mk _ properties _ children =>
    apply Standing.mk
    case start =>
      rw [hrange]
      exact h.standing.start
    case properties => exact properties
    case closer => exact (hc.of_reaches hplace).of_reaches htag.inOrder.reaches
    case children => exact children

theorem Open.addChild {node child : Node} (h : node.Open source c)
    (hchild : child.Standing source) : (node.addChild child).Open source c :=
  ⟨h.standing.addChild hchild, h.stop, h.start, h.reached⟩

theorem Open.of_reaches {node : Node} {d : Cursor} (h : node.Open source c) (hd : c.Reaches d) :
    node.Open source d :=
  ⟨h.standing, h.stop, h.start, h.reached.trans hd⟩

end Node

/-- The last edit of the draft ends at `c` or before it. -/
def Draft.EndsBefore (c : Cursor) (d : Draft) : Prop :=
  ∃ done last, d.Finished done last ∧ d.watermark = last.position ∧ last.Reaches c

namespace Draft

theorem endsBefore_ofSource (source : Text) : (ofSource source).EndsBefore (.start source) := by
  refine ⟨[], .start source, finished_ofSource source, ?_, .refl _⟩
  rw [Cursor.position_start]
  rfl

theorem EndsBefore.of_reaches {d : Draft} {b : Cursor} (h : d.EndsBefore b) (hb : b.Reaches c) :
    d.EndsBefore c := by
  obtain ⟨done, last, hdone, hwatermark, hlast⟩ := h
  exact ⟨done, last, hdone, hwatermark, hlast.trans hb⟩

theorem EndsBefore.replace {d : Draft} {range : Range} (h : d.EndsBefore range.start)
    (hrange : range.start.Reaches range.stop) (code : Text) :
    (d.replaceM range code : Guarded Draft).Passes (d.replace range code) ∧
      (d.replace range code).EndsBefore range.stop := by
  obtain ⟨done, last, hdone, hwatermark, hlast⟩ := h
  refine ⟨hdone.passes_replace hwatermark hlast hrange code, ?_⟩
  have hedit : Edit.Follows last ⟨range, code⟩ range.stop := ⟨hlast, hrange, rfl⟩
  exact ⟨_, range.stop, hdone.replace hedit, rfl, .refl _⟩

end Draft

namespace Assembly

variable (context : Resource.Context) (declarations : Declarations) {d : Cursor}

/-- What holds of the assembly between two tokens, at the end of the first: its open tags are open
there, and nothing is written behind any of them or behind the place. -/
structure Sound (source : Text) (c : Cursor) (a : Assembly) : Prop where
  stack : ∀ node ∈ a.stack, node.Open source c ∧ a.draft.EndsBefore node.range.start
  draft : a.draft.EndsBefore c

theorem sound_ofSource (source : Text) : (ofSource source).Sound source (.start source) :=
  ⟨List.forall_mem_nil _, Draft.endsBefore_ofSource source⟩

theorem Sound.of_reaches {a : Assembly} (h : a.Sound source c) (hd : c.Reaches d) :
    a.Sound source d := by
  refine ⟨?_, h.draft.of_reaches hd⟩
  intro node hnode
  obtain ⟨hopen, hbefore⟩ := h.stack node hnode
  exact ⟨hopen.of_reaches hd, hbefore⟩

theorem Sound.attach {a : Assembly} {node : Node} (h : a.Sound source d)
    (hnode : node.Standing source) (hbefore : a.draft.EndsBefore node.range.start)
    (hreach : node.range.start.Reaches d) (hstop : node.range.stop = d) :
    (a.attachM declarations node : Guarded Assembly).Passes (a.attach declarations node) ∧
      (a.attach declarations node).Sound source d := by
  rw [attach_eq]
  unfold attachM
  cases hstack : a.stack with
  | nil =>
    obtain ⟨hreplace, hends⟩ := hbefore.replace (hstop ▸ hreach) (node.render declarations)
    refine ⟨hnode.passes_render.bind (hreplace.bind (.pure _)), ?_, hstop ▸ hends⟩
    exact List.forall_mem_nil _
  | cons parent rest =>
    obtain ⟨hparent, hrest⟩ := List.forall_mem_cons.1 (hstack ▸ h.stack)
    refine ⟨.pure _, ?_, h.draft⟩
    exact List.forall_mem_cons.2 ⟨⟨hparent.1.addChild hnode, hparent.2⟩, hrest⟩

theorem Sound.addImport {a : Assembly} {i : Import} (h : a.Sound source c)
    (ht : (Token.ofImport i).Follows c d) :
    (a.addImportM context i : ExceptT ParseError Guarded Assembly).run.Passes
        (a.addImport context i) ∧
      ∀ b, a.addImport context i = .ok b → b.Sound source d := by
  obtain ⟨hstart, hreach, hstop⟩ := ht.range_eq
  obtain ⟨hreplace, hends⟩ :=
    (h.draft.of_reaches hstart).replace (hstop ▸ hreach) (i.render context)
  rw [addImport_eq]
  unfold addImportM
  by_cases hempty : a.stack.isEmpty
  · rw [if_pos hempty, if_pos hempty]
    refine ⟨(i.passes_render context).lift_bind (hreplace.lift_bind (.pure _)), ?_⟩
    intro b hb
    cases hb
    refine ⟨?_, hstop ▸ hends⟩
    rw [List.isEmpty_iff.1 hempty]
    exact List.forall_mem_nil _
  · rw [if_neg hempty, if_neg hempty]
    exact ⟨.pure _, by simp⟩

theorem Sound.addTag {a : Assembly} {tag : Tag} (h : a.Sound source c)
    (hc : Cursor.IsPlace source c) (ht : (Token.ofTag tag).Follows c d) :
    (a.addTagM declarations tag : ExceptT ParseError Guarded Assembly).run.Passes
        (a.addTag declarations tag) ∧
      ∀ b, a.addTag declarations tag = .ok b → b.Sound source d := by
  have hmoved := h.of_reaches ht.advances.1
  obtain ⟨place, hplace, hreach, hstands⟩ := ht.stands
  have hisPlace := hc.of_reaches hplace
  have hstart : tag.range.start = place := congrArg Range.start hstands.range
  have hstop : tag.range.stop = d := congrArg Range.stop hstands.range
  have hbefore : a.draft.EndsBefore tag.range.start := hstart ▸ h.draft.of_reaches hplace
  rw [addTag_eq]
  unfold addTagM
  cases tag.kind with
  | opening =>
    refine ⟨.pure _, ?_⟩
    intro b hb
    cases hb
    have hopen := Node.open_ofTag hstands hisPlace hreach
    exact ⟨List.forall_mem_cons.2 ⟨⟨hopen, hbefore⟩, hmoved.stack⟩, hmoved.draft⟩
  | single =>
    obtain ⟨hattach, hsound⟩ := hmoved.attach declarations
      (Node.standing_ofTag hstands hisPlace) hbefore (hstart ▸ hreach) hstop
    refine ⟨hattach.lift, ?_⟩
    intro b hb
    cases hb
    exact hsound
  | closing =>
    dsimp only
    cases hstack : a.stack with
    | nil => exact ⟨.pure _, by simp⟩
    | cons node rest =>
      -- the text of the body is cut in front of the closing tag, which is behind the opening tag
      obtain ⟨⟨hopen, hnode⟩, -⟩ := List.forall_mem_cons.1 (hstack ▸ h.stack)
      obtain ⟨-, hrest⟩ := List.forall_mem_cons.1 (hstack ▸ hmoved.stack)
      dsimp only
      by_cases hclass : node.className ≠ tag.className
      · rw [if_pos hclass, if_pos hclass]
        exact ⟨.pure _, by simp⟩
      · have hpopped : (⟨rest, a.draft⟩ : Assembly).Sound source d := ⟨hrest, hmoved.draft⟩
        obtain ⟨hstanding, hrange⟩ := hopen.finish hc hplace hstands
        have hbody : node.body.Reaches tag.range.start := hstart ▸ hopen.reached.trans hplace
        have hwhole : node.range.start.Reaches d :=
          ((hopen.start.trans hopen.reached).trans hplace).trans hreach
        obtain ⟨hattach, hsound⟩ := hpopped.attach declarations hstanding
          (by rw [hrange]; exact hnode) (by rw [hrange]; exact hwhole) (by rw [hrange])
        rw [if_neg hclass, if_neg hclass]
        refine ⟨(Node.passes_folded hopen.body hbody).lift_bind hattach.lift, ?_⟩
        intro b hb
        cases hb
        exact hsound

/-- One more token fails no check, whatever it comes to. -/
theorem Sound.addToken {a : Assembly} {token : Token} (h : a.Sound source c)
    (hc : Cursor.IsPlace source c) (ht : token.Follows c d) :
    (a.addTokenM context declarations token : ExceptT ParseError Guarded Assembly).run.Passes
        (a.addToken context declarations token) ∧
      ∀ b, a.addToken context declarations token = .ok b → b.Sound source d := by
  have hmoved := h.of_reaches ht.advances.1
  cases token with
  | ofVariable header => exact ⟨.pure _, fun b hb => by cases hb; exact hmoved⟩
  | ofFunction header => exact ⟨.pure _, fun b hb => by cases hb; exact hmoved⟩
  | ofImport i => exact h.addImport context ht
  | ofTag tag => exact h.addTag declarations hc ht

/-- No number of tokens fails a check. -/
theorem Sound.run {a : Assembly} {tokens : List Token} (h : a.Sound source c)
    (hc : Cursor.IsPlace source c) (ht : Repeats Token.Follows c tokens d) :
    (tokens.foldlM (addTokenM context declarations) a :
        ExceptT ParseError Guarded Assembly).run.Passes (a.run context declarations tokens) := by
  induction ht generalizing a with
  | nil => exact .pure _
  | @cons c b stop token tokens first _ ih =>
    obtain ⟨hstep, hsound⟩ := h.addToken context declarations hc first
    rw [List.foldlM_cons]
    cases hadded : a.addToken context declarations token with
    | ok b =>
      rw [hadded] at hstep
      rw [run_cons tokens hadded]
      exact hstep.bind_ok (ih (hsound b hadded) (hc.of_reaches first.advances.1))
    | error x =>
      rw [hadded] at hstep
      rw [run_cons_error tokens hadded]
      exact hstep.bind_error

end Assembly

end NodeMarkup
