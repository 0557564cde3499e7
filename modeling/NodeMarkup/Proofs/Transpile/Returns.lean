import NodeMarkup.Proofs.Grammar.Returns
import NodeMarkup.Proofs.Node.Listing
import NodeMarkup.Proofs.Text.LineBreak
import NodeMarkup.Proofs.Transpile.Tags

namespace NodeMarkup

variable {context : Resource.Context} {declarations : Declarations} {source : Text} {c d : Cursor}

theorem Listing.not_mem {first : Bool} {items : List Text} {t : Text} {x : Char}
    (h : Listing first items t) (hitems : ∀ item ∈ items, x ∉ item) (hink : isInk x = true)
    (hcomma : x ≠ ',') : x ∉ t := by
  induction h with
  | nil => simp
  | @cons first gap item rest items blank _ ih =>
    obtain ⟨hitem, hitems⟩ := List.forall_mem_cons.1 hitems
    have hgap : x ∉ gap := by
      intro hmem
      rw [blank x hmem] at hink
      cases hink
    have hstart : x ∉ (if first then [] else ",".toList) := by
      cases first
      · simpa using hcomma
      · simp
    simp only [List.mem_append, not_or]
    exact ⟨⟨⟨hstart, hgap⟩, hitem⟩, ih hitems⟩

/-- The texts of the node and of those in it have no carriage return. -/
inductive Node.NoReturn : Node → Prop where
  | mk {node : Node} (className : '\r' ∉ node.className)
      (properties : ∀ p ∈ node.properties, p.NoReturn)
      (children : ∀ child ∈ node.children, child.NoReturn) : node.NoReturn

namespace Property.NoReturn

theorem entry {p : Property} (h : p.NoReturn) : '\r' ∉ p.entry declarations := by
  have hvalue := Value.not_mem_render (d := declarations) h.2 (by decide)
  simp only [Property.entry, List.mem_append, not_or]
  exact ⟨⟨⟨by decide, h.1⟩, by decide⟩, hvalue⟩

theorem operand {p : Property} (h : p.NoReturn) : '\r' ∉ p.operand declarations := by
  have hvalue := Value.not_mem_render (d := declarations) h.2 (by decide)
  simp only [Property.operand, List.mem_append, not_or]
  exact ⟨by decide, hvalue⟩

end Property.NoReturn

namespace Node

variable {node child : Node}

/-- The layout puts nothing between the texts of a node that is not blank or a mark. -/
theorem NoReturn.render (h : node.NoReturn) (hs : node.Standing source) :
    '\r' ∉ node.render declarations := by
  induction h with
  | @mk node hclass hproperties _ ih =>
    obtain ⟨entries, children, operands, hlisted⟩ := hs.exists_listed declarations
    obtain ⟨gap, hblank, hcode⟩ := hlisted.code
    have hentries : '\r' ∉ entries := by
      refine hlisted.entries.not_mem (List.forall_mem_map.2 fun p hp => ?_) (by decide) (by decide)
      exact (hproperties p (List.mem_filter.1 hp).1).entry
    have hchildren : '\r' ∉ children := by
      refine hlisted.children.not_mem (List.forall_mem_map.2 fun child hchild => ?_) (by decide)
        (by decide)
      exact ih child hchild (hs.of_holds (.child hchild (.self child)))
    have hoperands : '\r' ∉ operands := by
      rw [hlisted.operands]
      intro hmem
      obtain ⟨p, hp, hmem⟩ := List.mem_flatMap.1 hmem
      have hlast := List.mem_of_getLast? (Option.mem_toList.1 hp)
      exact (hproperties p (List.mem_filter.1 hlast).1).operand hmem
    have hgap : '\r' ∉ gap := fun hmem => by simpa [isInk] using hblank _ hmem
    have hname := not_mem_renderClass hclass (by decide)
    rw [hcode]
    simp only [List.mem_append, not_or]
    exact ⟨⟨⟨⟨⟨⟨⟨⟨⟨by decide, hname⟩, by decide⟩, hentries⟩, by decide⟩, hchildren⟩, hgap⟩,
      by decide⟩, hoperands⟩, by decide⟩

theorem NoReturn.addChild (h : node.NoReturn) (hchild : child.NoReturn) :
    (node.addChild child).NoReturn := by
  cases h with
  | mk hclass hproperties hchildren =>
    refine .mk hclass hproperties fun other hother => ?_
    rcases List.mem_append.1 hother with hmem | hmem
    · exact hchildren other hmem
    · rw [List.mem_singleton.1 hmem]
      exact hchild

theorem NoReturn.foldText (h : node.NoReturn) (hbody : '\r' ∉ node.body.rest) (stop : Cursor) :
    (node.foldText stop).NoReturn := by
  cases h with
  | mk hclass hproperties hchildren =>
    obtain ⟨properties, hnode, hcases⟩ := foldText_cases stop node
    rw [hnode]
    refine .mk hclass ?_ hchildren
    rcases hcases with rfl | ⟨folded, hfolded, hrest⟩
    · exact hproperties
    · have hcode : '\r' ∉ folded.code :=
        hfolded.not_mem _ (fun hmem => hbody (List.mem_of_mem_take hmem)) (by decide) (by decide)
      rcases hrest with hrevised | ⟨k, n, -, rfl⟩
      · -- a text behind an older value
        intro p' hp'
        obtain ⟨p, hp, hrevision⟩ := exists_of_mem_revised hrevised hp'
        obtain ⟨hname, hvalue⟩ := hproperties p hp
        refine ⟨hrevision.name ▸ hname, ?_⟩
        rcases hrevision.value with hsame | hchanged
        · exact hsame ▸ hvalue
        · rw [hchanged]
          simp [hvalue, hcode]
      · intro p hp
        rcases List.mem_append.1 hp with hmem | hmem
        · exact hproperties p hmem
        · rw [List.mem_singleton.1 hmem]
          exact ⟨show '\r' ∉ textName by decide, hcode⟩

theorem NoReturn.folded (h : node.NoReturn) (hbody : '\r' ∉ node.body.rest) (stop : Cursor) :
    (node.folded stop).NoReturn := by
  rw [Node.folded_eq]
  split
  · exact h.foldText hbody stop
  · exact h

theorem NoReturn.finish (h : node.NoReturn) (closing : Tag) : (node.finish closing).NoReturn := by
  cases h with
  | mk hclass hproperties hchildren => exact .mk hclass hproperties hchildren

end Node

theorem Draft.return_not_mem_replace {draft : Draft} {code : Text} (range : Range)
    (h : '\r' ∉ draft.text) (hcode : '\r' ∉ code) : '\r' ∉ (draft.replace range code).text := by
  simp only [Draft.replace_eq, List.mem_append, not_or]
  refine ⟨⟨fun hmem => h (List.mem_of_mem_take hmem), hcode⟩, fun hmem => ?_⟩
  exact h (List.mem_of_mem_drop hmem)

namespace Assembly

/-- Neither the draft nor an open node has a carriage return. -/
structure NoReturn (a : Assembly) : Prop where
  draft : '\r' ∉ a.draft.text
  stack : ∀ node ∈ a.stack, node.NoReturn

theorem NoReturn.attach {a : Assembly} {node : Node} (h : a.NoReturn) (hnode : node.NoReturn)
    (hs : node.Standing source) : (a.attach declarations node).NoReturn := by
  rw [Assembly.attach_eq]
  cases hstack : a.stack with
  | nil => exact ⟨Draft.return_not_mem_replace _ h.draft (hnode.render hs), List.forall_mem_nil _⟩
  | cons parent rest =>
    obtain ⟨hparent, hrest⟩ := List.forall_mem_cons.1 (hstack ▸ h.stack)
    exact ⟨h.draft, List.forall_mem_cons.2 ⟨hparent.addChild hnode, hrest⟩⟩

theorem NoReturn.addTag {a b : Assembly} {tag : Tag} (h : a.NoReturn) (hs : a.Sound source c)
    (hc : Cursor.IsPlace source c) (hsource : '\r' ∉ source)
    (ht : (Token.ofTag tag).Follows c d) (htag : (Token.ofTag tag).NoReturn)
    (hb : a.addTag declarations tag = .ok b) : b.NoReturn := by
  obtain ⟨place, hplace, hreach, hstands⟩ := ht.stands
  have hnode : (Node.ofTag tag).NoReturn := .mk htag.1 htag.2 (List.forall_mem_nil _)
  obtain ⟨-, rfl⟩ | ⟨-, rfl⟩ | ⟨-, node, rest, hstack, -, rfl⟩ := addTag_cases hb
  · exact ⟨h.draft, List.forall_mem_cons.2 ⟨hnode, h.stack⟩⟩
  · exact h.attach hnode (Node.standing_ofTag hstands (hc.of_reaches hplace))
  · -- the text of the body is a part of the source
    obtain ⟨hopen, -⟩ := hs.stack node (by simp [hstack])
    obtain ⟨htop, hrest⟩ := List.forall_mem_cons.1 (hstack ▸ h.stack)
    have hbody : '\r' ∉ node.body.rest := fun hmem => hsource (hopen.body.rest_subset hmem)
    have hpopped : NoReturn ⟨rest, a.draft⟩ := ⟨h.draft, hrest⟩
    exact hpopped.attach ((htop.folded hbody tag.range.start).finish tag)
      (hopen.finish hc hplace hstands).1

/-- One more token brings no carriage return with it. -/
theorem NoReturn.addToken {a b : Assembly} {token : Token} (h : a.NoReturn)
    (hs : a.Sound source c) (hc : Cursor.IsPlace source c) (hsource : '\r' ∉ source)
    (hfolder : '\r' ∉ context.folder) (ht : token.Follows c d) (htoken : token.NoReturn)
    (hb : a.addToken context declarations token = .ok b) : b.NoReturn := by
  cases token with
  | ofVariable header =>
    cases hb
    exact h
  | ofFunction header =>
    cases hb
    exact h
  | ofImport i =>
    simp only [addToken_ofImport, addImport_eq] at hb
    split at hb
    · cases hb
      have hcode := Import.not_mem_render hfolder htoken.1 htoken.2 (by decide)
      exact ⟨Draft.return_not_mem_replace _ h.draft hcode, h.stack⟩
    · cases hb
  | ofTag tag => exact h.addTag hs hc hsource ht htoken hb

theorem NoReturn.run {a b : Assembly} {tokens : List Token} (h : a.NoReturn)
    (hs : a.Sound source c) (hc : Cursor.IsPlace source c) (hsource : '\r' ∉ source)
    (hfolder : '\r' ∉ context.folder) (ht : Repeats Token.Follows c tokens d)
    (htokens : ∀ token ∈ tokens, token.NoReturn)
    (hb : a.run context declarations tokens = .ok b) : b.NoReturn := by
  induction ht generalizing a with
  | nil =>
    cases hb
    exact h
  | cons first _ ih =>
    obtain ⟨htoken, htokens⟩ := List.forall_mem_cons.1 htokens
    obtain ⟨a', hstep, hrun⟩ := run_cons_ok hb
    have hsound := (hs.addToken context declarations hc first).2 a' hstep
    exact ih (h.addToken hs hc hsource hfolder first htoken hstep) hsound
      (hc.of_reaches first.advances.1) htokens hrun

end Assembly

theorem transpileLines_noReturn {out : Text} (hsource : '\r' ∉ source)
    (hfolder : '\r' ∉ context.folder) (h : transpileLines context source = .ok out) :
    '\r' ∉ out := by
  obtain ⟨d, hfollows⟩ := (Scan.yields_drain source).tokens
  have hstart : (Assembly.ofSource source).NoReturn := ⟨hsource, List.forall_mem_nil _⟩
  rw [transpileLines_of_finished (stop_of_transpileLines_ok h)] at h
  cases hrun : (Assembly.ofSource source).run context (.ofTokens (Scan.start source).drain.1)
      (Scan.start source).drain.1 with
  | error x =>
    rw [hrun] at h
    cases h
  | ok a =>
    have ha := hstart.run (Assembly.sound_ofSource source) (Cursor.isPlace_start source) hsource
      hfolder hfollows (Scan.noReturn_drain hsource) hrun
    rw [hrun] at h
    change a.finish = .ok out at h
    unfold Assembly.finish at h
    split at h
    · cases h
      exact ha.draft
    · cases h

/-- Line breaks are unified as in one pass from left to right, which leaves no carriage return and
changes nothing when it is made again. So a source comes to the same as any other of the same lines,
and its code has no carriage return either. -/
theorem transpile_indifferent_to_lineBreaks (source : Text) :
    Text.unifyLineBreaks source = Text.unifyOnce source ∧
    '\r' ∉ Text.unifyLineBreaks source ∧
    Text.unifyLineBreaks (Text.unifyLineBreaks source) = Text.unifyLineBreaks source ∧
    (∀ other, Text.unifyOnce other = Text.unifyOnce source →
      ∀ context, transpileIn context other = transpileIn context source) ∧
    (∀ context out, '\r' ∉ context.folder → transpileIn context source = .ok out → '\r' ∉ out) ∧
    ∀ out, transpile source = .ok out → '\r' ∉ out := by
  have hreturn := Text.return_not_mem_unifyLineBreaks source
  have hcode (context : Resource.Context) (out : Text) (hfolder : '\r' ∉ context.folder)
      (h : transpileIn context source = .ok out) : '\r' ∉ out :=
    transpileLines_noReturn hreturn hfolder h
  refine ⟨Text.unifyLineBreaks_eq_unifyOnce source, hreturn,
    Text.unifyLineBreaks_of_noReturn hreturn, ?_, hcode, fun out => hcode .root out (by decide)⟩
  intro other hother context
  rw [transpileIn_eq, transpileIn_eq, Text.unifyLineBreaks_eq_unifyOnce, hother, Text.unifyLineBreaks_eq_unifyOnce]

/-- All three forms of line breaks, outside and inside a tag. -/
theorem transpile_indifferent_to_lineBreaks_mixed :
    let source := "a\r\r\n<A\r/>\r\n".toList
    let other := "a\n\n<A\n/>\n".toList
    let out := "a\n\ncreate_node(A, \x7b\x7d, [\n])\n".toList
    Text.unifyOnce other = Text.unifyOnce source ∧ transpile source = .ok out ∧
      transpile other = transpile source ∧ '\r' ∉ out := by
  intro source other out
  have hsame : Text.unifyOnce other = Text.unifyOnce source := by decide +kernel
  have hok : transpile source = .ok out := ok_of_toOption (by decide +kernel)
  obtain ⟨-, -, -, hother, -, hcode⟩ := transpile_indifferent_to_lineBreaks source
  exact ⟨hsame, hok, hother other hsame .root, hcode out hok⟩

end NodeMarkup
