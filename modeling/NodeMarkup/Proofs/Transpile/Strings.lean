import NodeMarkup.Proofs.Grammar.Strings
import NodeMarkup.Proofs.Node.Lines
import NodeMarkup.Proofs.Transpile.PassThrough
/-!
What the string literals of a source come to. The code of every literal that a property is given is
written where the property is, even if the text of a body is appended to it, and the code of an import
holds the resource path as a literal.
-/
namespace NodeMarkup

variable {d : Declarations} {p : Property} {properties : List Property} {out : Text}

/-- The code of the value of a property stands in `out` where the property is written: behind its name,
or behind the children if it is the property that is appended to them. -/
structure Property.Shown (properties : List Property) (out : Text) (p : Property) : Prop where
  named : p.name ≠ childrenName →
    "\"".toList ++ p.name ++ "\": ".toList ++ p.value.code <:+: out
  appended : (properties.filter (·.name = childrenName)).getLast? = some p →
    "] + ".toList ++ p.value.code <:+: out

/-- The strings that a tag is given are written into `out`. -/
def Tag.Shown (out : Text) (tag : Tag) : Prop :=
  ∀ p ∈ tag.properties, p.value.kind = .string → p.Shown tag.properties out

theorem Tag.Shown.mono {tag : Tag} {code : Text} (h : tag.Shown code) (hcode : code <:+: out) :
    tag.Shown out := by
  intro p hp hkind
  obtain ⟨hnamed, happended⟩ := h p hp hkind
  exact ⟨fun hname => (hnamed hname).trans hcode, fun hlast => (happended hlast).trans hcode⟩

/-- A property with the same name, whose code begins with the string that the first is given. -/
structure Property.Extends (d : Declarations) (p extended : Property) : Prop where
  name : extended.name = p.name
  code : p.value.kind = .string → p.value.code <+: extended.value.render d

theorem Value.render_of_kind {v : Value} (h : v.kind ≠ .symbol) : v.render d = v.code := by
  simp [render, identifier?, h]

theorem Property.extends_refl (d : Declarations) (p : Property) : p.Extends d p := by
  refine ⟨rfl, fun hkind => ?_⟩
  have hcode : p.value.render d = p.value.code := Value.render_of_kind (by simp [hkind])
  exact hcode ▸ List.prefix_rfl

theorem Property.extends_of_revised {folded : Text} {extended : Property}
    (h : Node.Revised (fun v => ⟨.expression, v.code ++ " + ".toList ++ folded⟩) p extended) :
    p.Extends d extended := by
  refine ⟨h.name, fun hkind => ?_⟩
  rcases h.value with hsame | hchanged
  · rw [hsame]
    exact (p.extends_refl d).code hkind
  · rw [hchanged, Value.render_of_kind (by simp), List.append_assoc]
    exact List.prefix_append _ _

theorem infix_renderProperties (first : Bool) (line : Nat) (hp : p ∈ properties)
    (hname : p.name ≠ childrenName) :
    "\"".toList ++ p.name ++ "\": ".toList ++ p.value.render d <:+:
      (renderProperties d first line properties).1 := by
  induction properties generalizing first line with
  | nil => cases hp
  | cons q properties ih =>
    rw [renderProperties_cons]
    rcases List.mem_cons.1 hp with rfl | hp
    · rw [if_neg hname]
      exact ⟨separator first line p.range.start, _, by simp only [List.append_assoc]; rfl⟩
    · split
      · exact ih first line hp
      · exact (ih false q.range.stop.line hp).trans (List.suffix_append _ _).isInfix

section Forall

variable {α β : Type} {R : α → β → Prop} {xs : List α} {ys : List β} {x : α}

theorem forall₂_exists_of_mem (h : List.Forall₂ R xs ys) (hx : x ∈ xs) : ∃ y ∈ ys, R x y := by
  induction h with
  | nil => cases hx
  | @cons _ y _ ys first _ ih =>
    rcases List.mem_cons.1 hx with rfl | hx
    · exact ⟨y, by simp, first⟩
    · obtain ⟨y', hy', hR⟩ := ih hx
      exact ⟨y', by simp [hy'], hR⟩

theorem forall₂_exists_of_getLast? (h : List.Forall₂ R xs ys) (hx : xs.getLast? = some x) :
    ∃ y, ys.getLast? = some y ∧ R x y := by
  have hreverse := List.forall₂_reverse_iff.2 h
  obtain ⟨before, rfl⟩ := List.getLast?_eq_some_iff.1 hx
  rw [List.reverse_concat, List.forall₂_cons_left_iff] at hreverse
  obtain ⟨y, _, hR, -, hys⟩ := hreverse
  exact ⟨y, by rw [← List.head?_reverse, hys]; rfl, hR⟩

end Forall

namespace Node

variable {node : Node}

theorem infix_render_named (hp : p ∈ node.properties) (hname : p.name ≠ childrenName) :
    "\"".toList ++ p.name ++ "\": ".toList ++ p.value.render d <:+: node.render d := by
  apply (infix_renderProperties true node.range.start.line hp hname).trans
  rw [render_eq]
  exact ⟨"create_node(".toList ++ renderClass node.className ++ ", \x7b".toList, _, by
    simp only [List.append_assoc]; rfl⟩

theorem infix_render_appended
    (hlast : (node.properties.filter (·.name = childrenName)).getLast? = some p) :
    "] + ".toList ++ p.value.render d <:+: node.render d := by
  have happended : renderAppended d node.properties = " + ".toList ++ p.value.render d := by
    rw [renderAppended, hlast]
  have hmark : "] + ".toList = "]".toList ++ " + ".toList := rfl
  rw [render_eq, happended, hmark]
  simp only [← List.append_assoc]
  rw [List.append_assoc _ "]".toList, List.append_assoc _ ("]".toList ++ " + ".toList)]
  exact List.infix_append _ _ _

theorem infix_renderChildren {child : Node} {children : List Node} (first : Bool) (line : Nat)
    (hc : child ∈ children) :
    child.render d <:+: (renderChildren d first line children).1 := by
  induction children generalizing first line with
  | nil => cases hc
  | cons other children ih =>
    rw [renderChildren_cons]
    rcases List.mem_cons.1 hc with rfl | hc
    · exact List.infix_append _ _ _
    · exact (ih false other.range.stop.line hc).trans (List.suffix_append _ _).isInfix

theorem infix_render_child {child : Node} (hc : child ∈ node.children) :
    child.render d <:+: node.render d := by
  let line := (renderProperties d true node.range.start.line node.properties).2
  apply (infix_renderChildren true line hc).trans
  rw [render_eq]
  exact ⟨"create_node(".toList ++ renderClass node.className ++ ", \x7b".toList
      ++ (renderProperties d true node.range.start.line node.properties).1 ++ "\x7d, [".toList, _, by
    simp only [List.append_assoc]; rfl⟩

/-- The properties are others, whose values may be extended, and no more but one for the text of a
body. -/
def Extends (d : Declarations) (properties all : List Property) : Prop :=
  ∃ extended more, all = extended ++ more ∧
    List.Forall₂ (Property.Extends d) properties extended ∧ ∀ p ∈ more, p.name = textName

theorem extends_refl (d : Declarations) (properties : List Property) :
    Extends d properties properties :=
  ⟨properties, [], by simp, List.forall₂_same.2 fun p _ => p.extends_refl d, by simp⟩

theorem extends_foldText (stop : Cursor) (node : Node) :
    Extends d node.properties (node.foldText stop).properties := by
  obtain ⟨folded, hfold, rfl | ⟨text, -, hrevised | ⟨k, n, -, rfl⟩⟩⟩ := foldText_cases stop node
  · rw [hfold]
    exact extends_refl d _
  · rw [hfold]
    exact ⟨folded, [], by simp, hrevised.imp fun _ _ => Property.extends_of_revised, by simp⟩
  · rw [hfold]
    exact ⟨node.properties, _, rfl, List.forall₂_same.2 fun p _ => p.extends_refl d, by simp⟩

theorem extends_ofPair (opening : Tag) (children : List Node) (closing : Tag) :
    Extends d opening.properties (ofPair opening children closing).properties := by
  unfold ofPair
  dsimp only
  split
  · exact extends_foldText _ ((ofTag opening).addChildren children)
  · exact extends_refl d _

/-- A node shows every string that it is given, whatever is appended to it. -/
theorem Extends.shown (h : Extends d properties node.properties) (hp : p ∈ properties)
    (hkind : p.value.kind = .string) : p.Shown properties (node.render d) := by
  obtain ⟨extended, more, hnode, hextended, hmore⟩ := h
  constructor
  case named =>
    intro hname
    obtain ⟨p', hp', hextends⟩ := forall₂_exists_of_mem hextended hp
    have hmem : p' ∈ node.properties := by simp [hnode, hp']
    have hwithin := infix_render_named (d := d) hmem (hextends.name ▸ hname)
    rw [hextends.name] at hwithin
    exact ((List.prefix_append_right_inj _).2 (hextends.code hkind)).isInfix.trans hwithin
  case appended =>
    intro hlast
    have hfilter : List.Forall₂ (Property.Extends d) (properties.filter (·.name = childrenName))
        (extended.filter (·.name = childrenName)) :=
      List.rel_filter (fun _ _ hextends => by simp [hextends.name]) hextended
    obtain ⟨p', hlast', hextends⟩ := forall₂_exists_of_getLast? hfilter hlast
    have hnone : more.filter (·.name = childrenName) = [] := by
      rw [List.filter_eq_nil_iff]
      intro q hq
      rw [hmore q hq]
      decide
    have hnodeLast : (node.properties.filter (·.name = childrenName)).getLast? = some p' := by
      rw [hnode, List.filter_append, hnone, List.append_nil, hlast']
    have hwithin := infix_render_appended (d := d) hnodeLast
    exact ((List.prefix_append_right_inj _).2 (hextends.code hkind)).isInfix.trans hwithin

end Node

theorem Tag.shown_ofTag (tag : Tag) : tag.Shown ((Node.ofTag tag).render d) :=
  fun _ hp hkind => (Node.extends_refl d tag.properties).shown hp hkind

theorem Tag.shown_ofPair (opening : Tag) (children : List Node) (closing : Tag) :
    opening.Shown ((Node.ofPair opening children closing).render d) :=
  fun _ hp hkind => (Node.extends_ofPair opening children closing).shown hp hkind

section Tokens

variable {context : Resource.Context} {tokens : List Token} {tag : Tag}

/-- A tag in a pair is shown by the node of the pair if a tag in the body is shown by a child. -/
theorem Tag.shown_or_mem_behind {opening closing : Tag} {body : List Token} {children : List Node}
    (kind : closing.kind = .closing)
    (hbody : .ofTag tag ∈ body → ∃ child ∈ children, tag.Shown (child.render d))
    (ht : .ofTag tag ∈ Token.ofTag opening :: (body ++ .ofTag closing :: tokens))
    (hk : tag.kind ≠ .closing) :
    tag.Shown ((Node.ofPair opening children closing).render d) ∨ .ofTag tag ∈ tokens := by
  rcases List.mem_cons.1 ht with hfirst | ht
  · cases hfirst
    exact .inl (tag.shown_ofPair children closing)
  rcases List.mem_append.1 ht with hmem | ht
  · obtain ⟨child, hchild, hshown⟩ := hbody hmem
    rw [← Node.children_ofPair opening children closing] at hchild
    exact .inl (hshown.mono (Node.infix_render_child hchild))
  rcases List.mem_cons.1 ht with hlast | ht
  · cases hlast
    exact absurd kind hk
  · exact .inr ht

theorem BodyOf.exists_shown {nodes : List Node} (h : BodyOf tokens nodes)
    (ht : .ofTag tag ∈ tokens) (hk : tag.kind ≠ .closing) : ∃ node ∈ nodes, tag.Shown (node.render d) := by
  induction h with
  | nil => cases ht
  | header isHeader _ ih =>
    rcases List.mem_cons.1 ht with rfl | ht
    · cases isHeader
    · exact ih ht
  | single _ _ ih =>
    rcases List.mem_cons.1 ht with hfirst | ht
    · cases hfirst
      exact ⟨_, by simp, tag.shown_ofTag⟩
    · obtain ⟨node, hnode, hshown⟩ := ih ht
      exact ⟨node, by simp [hnode], hshown⟩
  | pair _ kind' _ _ _ ihWithin ih =>
    rcases Tag.shown_or_mem_behind kind' ihWithin ht hk with hshown | ht
    · exact ⟨_, List.mem_cons_self, hshown⟩
    · obtain ⟨node, hnode, hshown⟩ := ih ht
      exact ⟨node, by simp [hnode], hshown⟩

theorem EditsOf.exists_shown {edits : List Edit} (h : EditsOf context d tokens edits)
    (ht : .ofTag tag ∈ tokens) (hk : tag.kind ≠ .closing) : ∃ edit ∈ edits, tag.Shown edit.code := by
  induction h with
  | nil => cases ht
  | header isHeader _ ih =>
    rcases List.mem_cons.1 ht with rfl | ht
    · cases isHeader
    · exact ih ht
  | ofImport _ ih =>
    rcases List.mem_cons.1 ht with hfirst | ht
    · cases hfirst
    · obtain ⟨edit, hedit, hshown⟩ := ih ht
      exact ⟨edit, by simp [hedit], hshown⟩
  | single _ _ ih =>
    rcases List.mem_cons.1 ht with hfirst | ht
    · cases hfirst
      exact ⟨_, List.mem_cons_self, tag.shown_ofTag⟩
    · obtain ⟨edit, hedit, hshown⟩ := ih ht
      exact ⟨edit, by simp [hedit], hshown⟩
  | pair _ kind' _ within _ ih =>
    rcases Tag.shown_or_mem_behind kind' (fun hbody => within.exists_shown hbody hk) ht hk with
      hshown | ht
    · exact ⟨_, List.mem_cons_self, hshown⟩
    · obtain ⟨edit, hedit, hshown⟩ := ih ht
      exact ⟨edit, by simp [hedit], hshown⟩

theorem BodyOf.not_mem_import {nodes : List Node} (h : BodyOf tokens nodes) (i : Import) :
    .ofImport i ∉ tokens := by
  induction h with
  | nil => simp
  | @header token _ _ isHeader _ ih =>
    cases token <;> simp_all [Token.isHeader]
  | single _ _ ih => simpa using ih
  | pair _ _ _ _ _ ihWithin ih => simp [ihWithin, ih]

theorem EditsOf.exists_import {edits : List Edit} (h : EditsOf context d tokens edits) {i : Import}
    (hi : .ofImport i ∈ tokens) : ∃ edit ∈ edits, edit.code = i.render context := by
  induction h with
  | nil => cases hi
  | header isHeader _ ih =>
    rcases List.mem_cons.1 hi with rfl | hi
    · cases isHeader
    · exact ih hi
  | ofImport _ ih =>
    rcases List.mem_cons.1 hi with hfirst | hi
    · cases hfirst
      exact ⟨_, List.mem_cons_self, rfl⟩
    · obtain ⟨edit, hedit, hcode⟩ := ih hi
      exact ⟨edit, by simp [hedit], hcode⟩
  | single _ _ ih =>
    obtain ⟨edit, hedit, hcode⟩ := ih (by simpa using hi)
    exact ⟨edit, by simp [hedit], hcode⟩
  | pair _ _ _ within _ ih =>
    obtain ⟨edit, hedit, hcode⟩ := ih (by simpa [within.not_mem_import i] using hi)
    exact ⟨edit, by simp [hedit], hcode⟩

end Tokens

theorem infix_splice {edit : Edit} {edits : List Edit} (c : Cursor) (h : edit ∈ edits) :
    edit.code <:+: splice c edits := by
  induction edits generalizing c with
  | nil => cases h
  | cons first edits ih =>
    rw [splice]
    rcases List.mem_cons.1 h with rfl | h
    · exact List.infix_append _ _ _
    · exact (ih first.range.stop h).trans (List.suffix_append _ _).isInfix

/-- What a literal would stand for on one line. -/
def foldedMeaning (literal : Text) : Text :=
  if Lexeme.tripleMark.isPrefixOf literal then Text.foldLines (literalMeaning literal)
  else literalMeaning literal

/-- What is kept of a literal over several lines, and of the literal of an import: its body on one
line, with the backslashes that are written in it. -/
def foldedBody (literal : Text) : Text :=
  if Lexeme.tripleMark.isPrefixOf literal then Text.foldLines (literalBody literal)
  else literalBody literal

theorem Text.unescape_of_not_mem {t : Text} (h : '\\' ∉ t) : unescape t = t := by
  induction t with
  | nil => rfl
  | cons c t ih =>
    simp only [List.mem_cons, not_or] at h
    rw [unescape_cons (Ne.symm h.1), ih h.2]

theorem foldedMeaning_of_not_mem {literal : Text} (h : '\\' ∉ literal) :
    foldedMeaning literal = foldedBody literal := by
  have hbody : '\\' ∉ literalBody literal := by
    unfold literalBody
    split <;> exact Grammar.not_mem_inside _ h
  have hmeaning : literalMeaning literal = literalBody literal := Text.unescape_of_not_mem hbody
  rw [foldedMeaning, foldedBody, hmeaning]

namespace Taken

variable {literal content code : Text}

theorem content_eq (h : Taken literal content code) : content = foldedBody literal := by
  cases h with
  | line whole => rw [foldedBody, if_neg (Grammar.not_isPrefixOf_of_lineLiteral whole)]
  | lines whole => rw [foldedBody, if_pos (Grammar.isPrefixOf_of_tripleLiteral whole)]

/-- A literal on one line is kept with its meaning, another with its body. -/
theorem meaning (h : Taken literal content code) :
    Lexeme.lineLiteral literal = some literal.length ∧
        literalMeaning code = foldedMeaning literal ∨
      Lexeme.tripleLiteral literal = some literal.length ∧
        literalMeaning code = foldedBody literal := by
  cases h with
  | line whole =>
    refine .inl ⟨whole, ?_⟩
    rw [foldedMeaning, if_neg (Grammar.not_isPrefixOf_of_lineLiteral whole)]
  | lines whole =>
    refine .inr ⟨whole, ?_⟩
    rw [literalMeaning_quote, foldedBody, if_pos (Grammar.isPrefixOf_of_tripleLiteral whole)]

end Taken

/-- What the string literals among the tokens of a source come to. -/
structure StringMeanings (context : Resource.Context) (tokens : List Token) (out : Text) : Prop where
  -- A property keeps the meaning of a literal on one line, but the body of a literal over several.
  property : ∀ tag, .ofTag tag ∈ tokens → ∀ p ∈ tag.properties, p.value.kind = .string →
    ∃ literal, p.Holds literal ∧ p.Shown tag.properties out ∧
      (Lexeme.lineLiteral literal = some literal.length ∧
          literalMeaning p.value.code = foldedMeaning literal ∨
        Lexeme.tripleLiteral literal = some literal.length ∧
          literalMeaning p.value.code = foldedBody literal) ∧
      ('\\' ∉ literal → literalMeaning p.value.code = foldedMeaning literal)
  -- An import resolves the body of its literal.
  path : ∀ i, .ofImport i ∈ tokens → ∃ literal code, i.Holds literal ∧
    (Lexeme.lineLiteral literal = some literal.length ∨
      Lexeme.tripleLiteral literal = some literal.length) ∧
    "var ".toList ++ i.className ++ " = ResourceLoader.load(".toList ++ code ++ ")".toList <:+: out ∧
    literalMeaning code = context.resolve (foldedBody literal) ∧
    ('\\' ∉ literal → literalMeaning code = context.resolve (foldedMeaning literal))

/-- Every string that a property is given and every path of an import comes out as a literal, and what
that stands for is told by the literal in the source. -/
theorem transpileIn_stringMeanings (context : Resource.Context) (source out : Text)
    (h : transpileIn context source = .ok out) :
    StringMeanings context (Scan.start (Text.unifyLineBreaks source)).drain.1 out := by
  let lines := Text.unifyLineBreaks source
  let tokens := (Scan.start lines).drain.1
  have hlines : transpileLines context lines = .ok out := h
  have hnested : ∃ edits, EditsOf context (.ofTokens tokens) tokens edits :=
    (wellNested_of_transpileLines_ok hlines).exists_edits rfl
  obtain ⟨edits, hedits⟩ := hnested
  have hsplice := transpileLines_eq_splice (stop_of_transpileLines_ok hlines) hedits
  obtain rfl : out = splice (.start lines) edits := by
    rw [hlines] at hsplice
    exact Except.ok.inj hsplice
  have hstrings := Scan.holdsStrings_drain lines
  constructor
  case property =>
    intro tag htag p hp hkind
    obtain ⟨literal, content, hholds, htaken⟩ := hstrings _ htag p hp hkind
    have hclosing : tag.kind ≠ .closing := by
      intro hclosing
      obtain ⟨_, _, -, hfollows⟩ := Scan.follows_of_mem_drain htag
      obtain ⟨_, -, -, hstands⟩ := hfollows.stands
      rw [hstands.closing hclosing] at hp
      cases hp
    obtain ⟨edit, hedit, hshown⟩ := hedits.exists_shown htag hclosing
    have hmeaning := htaken.meaning
    refine ⟨literal, hholds, (hshown.mono (infix_splice _ hedit)) p hp hkind, hmeaning, ?_⟩
    intro hplain
    rw [foldedMeaning_of_not_mem hplain] at hmeaning ⊢
    exact hmeaning.elim And.right And.right
  case path =>
    intro i hi
    obtain ⟨literal, code, hholds, htaken⟩ := hstrings _ hi
    obtain ⟨edit, hedit, hcode⟩ := hedits.exists_import hi
    have hwithin := infix_splice (.start lines) hedit
    rw [hcode] at hwithin
    have hresolved : literalMeaning (Text.quote (context.resolve i.path)) =
        context.resolve (foldedBody literal) := by
      rw [literalMeaning_quote, htaken.content_eq]
    refine ⟨literal, _, hholds, htaken.meaning.imp And.left And.left, hwithin, hresolved, ?_⟩
    intro hplain
    rw [foldedMeaning_of_not_mem hplain, ← hresolved]
    rfl

/-- An import and a node with a literal of each kind, one of them with a hidden backslash. -/
theorem transpileIn_stringMeanings_both_kinds :
    let source := "import A from 'a'\n<A x=\"b\\\\\" y=\"\"\"c\n\td\"\"\"/>".toList
    ∃ out, transpileIn .root source = .ok out ∧
      StringMeanings .root (Scan.start (Text.unifyLineBreaks source)).drain.1 out := by
  intro source
  have hok : transpileIn .root source = .ok ("var A = ResourceLoader.load(\"res://a\")\n".toList
      ++ "create_node(A, \x7b\"x\": \"b\\\\\", \"y\": \"c d\"\x7d, [])".toList) :=
    ok_of_toOption (by decide +kernel)
  exact ⟨_, hok, transpileIn_stringMeanings .root source _ hok⟩

/-- A hidden backslash in a literal over several lines, or in the literal of an import, is hidden once
more in the code, which then stands for two backslashes where the literal stands for one. -/
theorem transpile_hides_backslash_again :
    let path := "\"a\\\\b\"".toList
    let value := "\"\"\"a\\\\b\"\"\"".toList
    let loaded := "\"res://a\\\\\\\\b\"".toList
    let shown := "\"a\\\\\\\\b\"".toList
    transpile ("import A from ".toList ++ path ++ "\n<A x=".toList ++ value ++ "/>".toList) =
        .ok ("var A = ResourceLoader.load(".toList ++ loaded ++ ")\ncreate_node(A, \x7b\"x\": ".toList
          ++ shown ++ "\x7d, [])".toList) ∧
      literalMeaning shown ≠ Text.foldLines (literalMeaning value) ∧
      literalMeaning loaded ≠ Resource.Context.root.resolve (literalMeaning path) := by
  refine ⟨ok_of_toOption (by decide +kernel), ?_, ?_⟩ <;> decide +kernel

end NodeMarkup
