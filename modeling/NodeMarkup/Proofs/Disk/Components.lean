import NodeMarkup.Proofs.Disk.Path
import Mathlib.Data.List.DropRight
import Mathlib.Data.List.Induction
/-!
Paths by their components. Two spellings of a path differ in pieces that do not count; the
directory of a path, what is left of it behind another one, and the path with another extension are
the same for all of them.
-/
namespace NodeMarkup.Disk

open Text

variable {base path r x : Text} {names init : List Text}

/-- The component that a piece stands for, if it counts. -/
def Component.ofPiece (piece : Text) : Component :=
  if piece = "..".toList then .up else .name piece

/-- The components that say where a path begins. -/
def Anchor.components : Anchor → List Component
  | .relative => []
  | .here => [.here]
  | .root => [.root]

/-- A path leads from a directory along some names, however the two are spelled. -/
def IsBelow (base : Text) (names : List Text) (path : Text) : Prop :=
  (Path.ofText path).components = (Path.ofText base).components ++ names.map .name

instance : Decidable (IsBelow base names path) := inferInstanceAs (Decidable (_ = _))

namespace Component

theorem text_ofPiece (piece : Text) : (ofPiece piece).text = piece := by
  unfold ofPiece
  split
  · next h => exact h.symm
  · rfl

theorem map_text_ofPiece (pieces : List Text) : (pieces.map ofPiece).map text = pieces := by
  simp only [List.map_map, Function.comp_def, text_ofPiece, List.map_id']

theorem map_text_name (names : List Text) : (names.map name).map text = names := by
  rw [List.map_map]
  exact List.map_id names

theorem ofPiece_of_ne {piece : Text} (h : piece ≠ "..".toList) : ofPiece piece = .name piece :=
  if_neg h

/-- The name of no component is `..`. -/
theorem ofPiece_ne_up (piece : Text) : ofPiece piece ≠ .name "..".toList := by
  unfold ofPiece
  split
  · nofun
  · next h => exact fun heq => h (Component.name.inj heq)

/-- A component that does not say where a path begins. -/
def Inner (c : Component) : Prop := c ≠ .here ∧ c ≠ .root

theorem inner_ofPiece (piece : Text) : (ofPiece piece).Inner := by
  unfold ofPiece
  split
  · exact ⟨nofun, nofun⟩
  · exact ⟨nofun, nofun⟩

end Component

/-- Where a path begins can be told from its components. -/
theorem Anchor.eq_of_components_append {a b : Anchor} {l m : List Component}
    (hl : ∀ c ∈ l, c.Inner) (hm : ∀ c ∈ m, c.Inner) (h : a.components ++ l = b.components ++ m) :
    a = b ∧ l = m := by
  cases a with
  | relative =>
    cases b with
    | relative => exact ⟨rfl, h⟩
    | here => exact absurd rfl (hl .here (by rw [show l = .here :: m from h]; simp)).1
    | root => exact absurd rfl (hl .root (by rw [show l = .root :: m from h]; simp)).2
  | here =>
    cases b with
    | relative => exact absurd rfl (hm .here (by rw [← show .here :: l = m from h]; simp)).1
    | here => exact ⟨rfl, (List.cons.inj h).2⟩
    | root => exact absurd (List.cons.inj h).1 nofun
  | root =>
    cases b with
    | relative => exact absurd rfl (hm .root (by rw [← show .root :: l = m from h]; simp)).2
    | here => exact absurd (List.cons.inj h).1 nofun
    | root => exact ⟨rfl, (List.cons.inj h).2⟩

namespace Path

variable {p : Path} {pieces pieces' : List Text}

/-- The pieces of a path that count. -/
def route (p : Path) : List Text := p.pieces.filter counts

theorem components_eq (p : Path) :
    p.components = p.anchor.components ++ p.route.map Component.ofPiece := by
  unfold components
  cases p.anchor with
  | relative => rfl
  | here => rfl
  | root => rfl

section Spelling

theorem filter_dropWhile (pieces : List Text) :
    (pieces.dropWhile fun piece => !counts piece).filter counts = pieces.filter counts := by
  induction pieces with
  | nil => rfl
  | cons piece pieces ih =>
    by_cases hcounts : counts piece = true
    · rw [List.dropWhile_cons_of_neg (by simp [hcounts])]
    · rw [List.dropWhile_cons_of_pos (by simpa using hcounts), ih, List.filter_cons_of_neg hcounts]

theorem filter_dropCounting (n : Nat) (pieces : List Text) :
    (dropCounting n pieces).filter counts = (pieces.filter counts).drop n := by
  fun_induction dropCounting n pieces with
  | case1 => rfl
  | case2 => rfl
  | case3 n piece rest hcounts ih => rw [ih, List.filter_cons_of_pos hcounts, List.drop_succ_cons]
  | case4 n piece rest hcounts ih => rw [ih, List.filter_cons_of_neg hcounts]

theorem route_trimEnd (p : Path) : p.trimEnd.route = p.route := by
  unfold route trimEnd
  dsimp only
  rw [List.filter_reverse, filter_dropWhile, List.filter_reverse, List.reverse_reverse]

theorem trimEnd_isPrefix (p : Path) : p.trimEnd.pieces <+: p.pieces :=
  List.rdropWhile_prefix (fun piece => !counts piece) p.pieces

/-- Behind the last piece that counts, a path ends when it is trimmed. -/
theorem exists_trimEnd (h : p.route = init ++ [x]) :
    ∃ front, p.trimEnd.pieces = front ++ [x] ∧ front.filter counts = init := by
  have hroute : p.trimEnd.pieces.filter counts = init ++ [x] := (route_trimEnd p).trans h
  have hne : p.trimEnd.pieces ≠ [] := by
    intro hnil
    rw [hnil] at hroute
    exact List.cons_ne_nil _ _ (List.append_eq_nil_iff.1 hroute.symm).2
  have hlast : counts (p.trimEnd.pieces.getLast hne) = true := by
    by_contra hnot
    apply List.rdropWhile_last_not (fun piece => !counts piece) p.pieces hne
    change (!counts (p.trimEnd.pieces.getLast hne)) = true
    simpa using hnot
  rw [← List.dropLast_append_getLast hne, List.filter_append, List.filter_singleton,
    hlast] at hroute
  obtain ⟨hinit, hx⟩ := List.append_inj' hroute rfl
  refine ⟨p.trimEnd.pieces.dropLast, ?_, hinit⟩
  rw [← hx]
  exact (List.dropLast_append_getLast hne).symm

/-- A path that can be read back from its text: no piece could be taken for the beginning of the
path, or hides it. -/
structure Legible (p : Path) : Prop where
  slash : ∀ piece ∈ p.pieces, '/' ∉ piece
  relative : p.anchor = .relative → ∀ first ∈ p.pieces.head?, counts first = true
  here : p.anchor = .here → ∀ first ∈ p.pieces.head?, first = []

theorem mem_head?_of_isPrefix (h : pieces' <+: pieces) :
    ∀ first ∈ pieces'.head?, first ∈ pieces.head? := by
  obtain ⟨behind, rfl⟩ := h
  intro first hfirst
  cases pieces' with
  | nil => cases hfirst
  | cons piece pieces' => exact hfirst

theorem Legible.of_isPrefix (h : p.Legible) (hbegin : pieces <+: p.pieces) :
    Legible ⟨p.anchor, pieces⟩ := by
  have hhead := mem_head?_of_isPrefix hbegin
  exact ⟨fun piece hpiece => h.slash piece (hbegin.subset hpiece),
    fun hrelative first hfirst => h.relative hrelative first (hhead first hfirst),
    fun hhere first hfirst => h.here hhere first (hhead first hfirst)⟩

theorem slash_not_mem_ofText (text : Text) : ∀ piece ∈ (ofText text).pieces, '/' ∉ piece := by
  unfold ofText
  split
  · exact fun piece => not_mem_of_mem_split
  · split
    · exact fun piece => not_mem_of_mem_split
    · exact fun piece => not_mem_of_mem_split
  · exact fun piece => not_mem_of_mem_split

theorem head?_of_here (text : Text) (h : (ofText text).anchor = .here) :
    (ofText text).pieces.head? = some [] := by
  revert h
  unfold ofText
  split
  · nofun
  · split
    · next rest hrest =>
      intro _
      cases rest with
      | nil => rfl
      | cons c rest =>
        obtain rfl : c = '/' := by simpa using hrest
        rw [split_cons_separator]
        rfl
    · nofun
  · nofun

theorem legible_ofText (text : Text) : (ofText text).trimEnd.Legible := by
  have hhead := mem_head?_of_isPrefix (trimEnd_isPrefix (ofText text))
  refine ⟨?_, ?_, ?_⟩
  · exact fun piece hpiece => slash_not_mem_ofText text piece ((trimEnd_isPrefix _).subset hpiece)
  · intro hrelative first hfirst
    by_cases hnil : text = []
    · -- the only piece of the empty path is trimmed away
      rw [hnil] at hfirst
      cases hfirst
    · obtain ⟨piece, more, hsplit, hcounts⟩ := exists_split_of_relative hnil hrelative
      have hpiece := hhead first hfirst
      rw [ofText_of_relative hrelative, hsplit] at hpiece
      exact Option.some.inj hpiece ▸ hcounts
  · intro hhere first hfirst
    have hpiece := hhead first hfirst
    rw [head?_of_here text hhere] at hpiece
    exact (Option.some.inj hpiece).symm

/-- The last piece of a path may be exchanged, unless it is the empty one behind a leading dot. -/
theorem Legible.exchange {anchor : Anchor} {front : List Text} {x y : Text}
    (h : Legible ⟨anchor, front ++ [x]⟩) (hx : x ≠ []) (hy : IsPiece y) :
    Legible ⟨anchor, front ++ [y]⟩ := by
  refine ⟨?_, ?_, ?_⟩
  · exact List.forall_mem_append.2
      ⟨(List.forall_mem_append.1 h.slash).1, List.forall_mem_singleton.2 hy.slash⟩
  · intro hrelative first hfirst
    cases front with
    | nil => exact Option.some.inj hfirst ▸ hy.counts
    | cons piece front => exact h.relative hrelative first hfirst
  · intro hhere first hfirst
    cases front with
    | nil => exact absurd (h.here hhere x rfl) hx
    | cons piece front => exact h.here hhere first hfirst

theorem route_concat (anchor : Anchor) (front : List Text) {x : Text} (h : counts x = true) :
    route ⟨anchor, front ++ [x]⟩ = front.filter counts ++ [x] := by
  rw [route, List.filter_append, List.filter_singleton, h]
  rfl

/-- Such a path is read back, if it has pieces. -/
theorem Legible.ofText_toText_of_ne_nil (h : p.Legible) (hnil : p.pieces ≠ []) :
    ofText p.toText = p := by
  obtain ⟨anchor, pieces⟩ := p
  have hsplit : split '/' (join '/' pieces) = pieces := split_join hnil h.slash
  obtain ⟨first, more, rfl⟩ := List.exists_cons_of_ne_nil hnil
  cases anchor with
  | relative =>
    have hfirst : IsPiece first := ⟨h.slash first List.mem_cons_self, h.relative rfl first rfl⟩
    have hanchor : (ofText (join '/' (first :: more))).anchor = .relative := by
      by_cases hmore : more = []
      · rw [hmore, join_singleton]
        exact anchor_ofText_of_isPiece hfirst
      · rw [join_cons _ _ hmore]
        exact anchor_ofText_append hfirst _
    rw [toText, ofText_of_relative hanchor, hsplit]
  | here =>
    obtain rfl : first = [] := h.here rfl first rfl
    by_cases hmore : more = []
    · rw [hmore]
      rfl
    · -- the slash behind the empty piece keeps the dot apart from what follows
      have hjoin : join '/' ([] :: more) = '/' :: join '/' more := join_cons '/' [] hmore
      rw [hjoin] at hsplit
      rw [toText, hjoin]
      exact congrArg (Path.mk .here) hsplit
  | root =>
    rw [toText, ofText, hsplit]

/-- But for pieces that do not count, it is read back in any case. -/
theorem Legible.ofText_toText (h : p.Legible) :
    (ofText p.toText).anchor = p.anchor ∧ (ofText p.toText).route = p.route := by
  by_cases hnil : p.pieces = []
  · obtain ⟨anchor, pieces⟩ := p
    obtain rfl : pieces = [] := hnil
    cases anchor with
    | relative => exact ⟨rfl, rfl⟩
    | here => exact ⟨rfl, rfl⟩
    | root => exact ⟨rfl, rfl⟩
  · rw [h.ofText_toText_of_ne_nil hnil]
    exact ⟨rfl, rfl⟩

/-- The last piece of a path that counts is its last piece at all. -/
def Trimmed (p : Path) : Prop := ∀ x, p.route.getLast? = some x → p.pieces.getLast? = some x

theorem Legible.trimmed_ofText (h : p.trimEnd.Legible) : (ofText p.trimEnd.toText).Trimmed := by
  intro x hx
  rw [h.ofText_toText.2, route_trimEnd] at hx
  obtain ⟨init, hroute⟩ := List.getLast?_eq_some_iff.1 hx
  obtain ⟨front, hfront, -⟩ := exists_trimEnd hroute
  rw [h.ofText_toText_of_ne_nil (by simp [hfront]), hfront, List.getLast?_concat]

theorem toText_isPrefix (h : pieces <+: p.pieces) : toText ⟨p.anchor, pieces⟩ <+: p.toText := by
  obtain ⟨anchor, pieces'⟩ := p
  have hjoin : join '/' pieces <+: join '/' pieces' := by
    obtain ⟨more, hmore⟩ := h
    dsimp only at hmore
    subst hmore
    by_cases hnil : pieces = []
    · rw [hnil]
      exact List.nil_prefix
    · by_cases hmore : more = []
      · simp [hmore]
      · rw [join_append _ hnil hmore]
        exact List.prefix_append _ _
  cases anchor with
  | relative => exact hjoin
  | here => exact (List.prefix_cons_inj _).2 hjoin
  | root => exact (List.prefix_cons_inj _).2 hjoin

end Spelling

end Path

section Below

open Disk.Path

/-- What leads along some names begins where the directory does, and the pieces that count are those
of the directory and then the names. -/
theorem isBelow_iff : IsBelow base names path ↔
    (ofText path).anchor = (ofText base).anchor ∧
      (ofText path).route = (ofText base).route ++ names ∧ "..".toList ∉ names := by
  unfold IsBelow
  rw [components_eq, components_eq, List.append_assoc]
  constructor
  · intro h
    have hpieces (p : Path) : ∀ c ∈ p.route.map Component.ofPiece, c.Inner :=
      List.forall_mem_map.2 fun piece _ => Component.inner_ofPiece piece
    have hnames : ∀ c ∈ names.map Component.name, c.Inner :=
      List.forall_mem_map.2 fun name _ => ⟨nofun, nofun⟩
    -- no piece and no name looks like a beginning, so the two lists part at the same place
    obtain ⟨hanchor, hroute⟩ := Anchor.eq_of_components_append (hpieces _)
      (List.forall_mem_append.2 ⟨hpieces _, hnames⟩) h
    refine ⟨hanchor, ?_, ?_⟩
    · have htexts := congrArg (List.map Component.text) hroute
      rw [List.map_append] at htexts
      simpa only [Component.map_text_ofPiece, Component.map_text_name] using htexts
    · intro hup
      have hmem : Component.name "..".toList ∈ (ofText path).route.map Component.ofPiece := by
        rw [hroute]
        exact List.mem_append_right _ (List.mem_map_of_mem hup)
      obtain ⟨piece, -, hpiece⟩ := List.mem_map.1 hmem
      exact Component.ofPiece_ne_up piece hpiece
  · rintro ⟨hanchor, hroute, hup⟩
    have hnames : names.map Component.ofPiece = names.map .name :=
      List.map_congr_left fun name hname =>
        Component.ofPiece_of_ne fun h => hup (h ▸ hname)
    rw [hanchor, hroute, List.map_append, hnames]

/-- The last name of a path may be exchanged for another one. -/
theorem IsBelow.exchange {path' y : Text} (h : IsBelow base (names ++ [x]) path)
    (hanchor : (ofText path').anchor = (ofText path).anchor)
    (hroute : (ofText path').route = (ofText base).route ++ names ++ [y]) (hy : IsName y) :
    IsBelow base (names ++ [y]) path' := by
  obtain ⟨hbase, -, hup⟩ := isBelow_iff.1 h
  apply isBelow_iff.2
  refine ⟨hanchor.trans hbase, ?_, ?_⟩
  · rw [hroute, List.append_assoc]
  · rw [List.mem_append, List.mem_singleton, not_or]
    exact ⟨fun hmem => hup (List.mem_append_left _ hmem), Ne.symm hy.notUp⟩

theorem IsBelow.isName (h : IsBelow base names path) : ∀ name ∈ names, IsName name := by
  obtain ⟨-, hroute, hup⟩ := isBelow_iff.1 h
  intro name hname
  have hmem : name ∈ (ofText path).route := by
    rw [hroute]
    exact List.mem_append_right _ hname
  obtain ⟨hpiece, hcounts⟩ := List.mem_filter.1 hmem
  exact ⟨⟨slash_not_mem_ofText path name hpiece, hcounts⟩, fun heq => hup (heq ▸ hname)⟩

/-- The directory of a path is spelled as the path begins, and has the same pieces but the last. -/
theorem exists_parent?_of_route {init : List Text} (h : (ofText path).route = init ++ [x]) :
    ∃ directory, parent? path = some directory ∧
      (ofText directory).anchor = (ofText path).anchor ∧ (ofText directory).route = init ∧
      (ofText directory).Trimmed ∧ directory <+: path := by
  obtain ⟨front, hfront, hinit⟩ := exists_trimEnd h
  have hbegin : front <+: (ofText path).trimEnd.pieces := by
    rw [hfront]
    exact List.prefix_append _ _
  have hlegible : (trimEnd ⟨(ofText path).anchor, front⟩).Legible :=
    (legible_ofText path).of_isPrefix ((trimEnd_isPrefix _).trans hbegin)
  have hparent : parent? path = some (toText (trimEnd ⟨(ofText path).anchor, front⟩)) := by
    unfold parent? Path.parent?
    rw [hfront]
    cases hcons : front ++ [x] with
    | nil => simp at hcons
    | cons piece pieces =>
      dsimp only
      rw [← hcons, List.dropLast_concat]
      rfl
  obtain ⟨hanchor, hroute⟩ := hlegible.ofText_toText
  rw [route_trimEnd] at hroute
  refine ⟨_, hparent, hanchor, hroute.trans hinit, hlegible.trimmed_ofText, ?_⟩
  have htext := toText_isPrefix (p := ofText path)
    ((trimEnd_isPrefix ⟨(ofText path).anchor, front⟩).trans
      (hbegin.trans (trimEnd_isPrefix (ofText path))))
  rwa [toText_ofText] at htext

/-- The directory of a path is below the same one, along the same names but the last. -/
theorem IsBelow.exists_parent? (h : IsBelow base (names ++ [x]) path) :
    ∃ directory, parent? path = some directory ∧ IsBelow base names directory := by
  obtain ⟨hanchor, hroute, hup⟩ := isBelow_iff.1 h
  rw [← List.append_assoc] at hroute
  obtain ⟨directory, hparent, hsame, hinit, -⟩ := exists_parent?_of_route hroute
  exact ⟨directory, hparent, isBelow_iff.2 ⟨hsame.trans hanchor, hinit,
    fun hmem => hup (List.mem_append_left _ hmem)⟩⟩

/-- What is left of a path behind a directory that it is below is relative, and spells the names. -/
theorem IsBelow.exists_strip? (h : IsBelow base names path) :
    ∃ r, strip? base path = some r ∧ (ofText r).anchor = .relative ∧ (ofText r).route = names := by
  obtain ⟨hanchor, hroute, -⟩ := isBelow_iff.1 h
  have hbegin : (ofText base).components.isPrefixOf (ofText path).components = true := by
    rw [List.isPrefixOf_iff_prefix, h]
    exact List.prefix_append _ _
  -- what is stripped is printed and read again, so it has to be legible as well
  suffices ∃ q, Path.strip? (ofText base) (ofText path) = some q ∧ q.Legible ∧
      q.anchor = .relative ∧ q.route = names by
    obtain ⟨q, hstrip, hlegible, hrelative, hnames⟩ := this
    obtain ⟨hsame, hsame'⟩ := hlegible.ofText_toText
    refine ⟨q.toText, ?_, hsame.trans hrelative, hsame'.trans hnames⟩
    unfold strip?
    rw [hstrip]
    rfl
  unfold Path.strip?
  rw [if_pos hbegin]
  split
  · next hempty =>
    -- only the empty path has no components, and all of the other one is left behind it
    have hnil : base = [] := by
      by_contra hne
      exact components_ne_nil hne (List.isEmpty_iff.1 hempty)
    subst hnil
    exact ⟨_, rfl, legible_ofText path, hanchor, (route_trimEnd _).trans hroute⟩
  · dsimp only
    generalize hleft : (dropCounting ((ofText base).pieces.filter counts).length
      (ofText path).pieces).dropWhile _ = left
    have hroute' : left.filter counts = names := by
      rw [← hleft, filter_dropWhile, filter_dropCounting]
      exact (congrArg (List.drop _) hroute).trans List.drop_left
    have hlegible : Legible ⟨.relative, left⟩ := by
      refine ⟨?_, ?_, nofun⟩
      · intro piece hpiece
        have hmem : piece ∈ (ofText path).pieces := by
          rw [← hleft] at hpiece
          exact (dropCounting_suffix _ _).subset ((List.dropWhile_suffix _).subset hpiece)
        exact slash_not_mem_ofText path piece hmem
      · intro _ first hfirst
        have hhead := List.head?_dropWhile_not (fun piece => !counts piece)
          (dropCounting ((ofText base).pieces.filter counts).length (ofText path).pieces)
        rw [hleft, Option.mem_def.1 hfirst] at hhead
        simpa using hhead
    refine ⟨_, rfl, hlegible.of_isPrefix (trimEnd_isPrefix _), rfl, ?_⟩
    exact (route_trimEnd _).trans hroute'

/-- A relative path that is put behind a directory leads along its names from there. -/
theorem isBelow_joinPath (hanchor : (ofText r).anchor = .relative)
    (hup : "..".toList ∉ (ofText r).route) (base : Text) :
    IsBelow base (ofText r).route (joinPath base r) := by
  apply isBelow_iff.2
  by_cases hbase : base = []
  · have hjoin : joinPath base r = r := by
      rw [hbase]
      unfold joinPath
      split
      · rfl
      · rfl
    rw [hjoin, hbase]
    exact ⟨hanchor, rfl, hup⟩
  · obtain ⟨pieces, hjoin, hpieces⟩ := exists_ofText_joinPath hbase hanchor
    rw [hjoin]
    refine ⟨rfl, ?_, hup⟩
    unfold route
    rw [List.filter_append, hpieces, ofText_of_relative hanchor]

/-- Names that are joined to a directory lead along them. -/
theorem isBelow_joinPath_join (hnil : names ≠ []) (h : ∀ name ∈ names, IsName name) (base : Text) :
    IsBelow base names (joinPath base (join '/' names)) := by
  have hpieces := ofText_join hnil fun name hname => (h name hname).toIsPiece
  have hroute : (ofText (join '/' names)).route = names := by
    rw [hpieces, route, List.filter_eq_self]
    exact fun name hname => (h name hname).counts
  have hjoined := isBelow_joinPath (congrArg Path.anchor hpieces)
    (by rw [hroute]; exact fun hup => (h _ hup).notUp rfl) base
  rwa [hroute] at hjoined

theorem fileName?_of_route {p : Path} (h : p.route = init ++ [x]) (hx : x ≠ "..".toList) :
    p.fileName? = some x := by
  obtain ⟨front, hfront, -⟩ := exists_trimEnd h
  unfold fileName?
  rw [hfront, List.getLast?_concat]
  exact if_neg hx

/-- A new extension is put behind the stem of the last name. -/
theorem IsBelow.setExtension {extension : Text} (h : IsBelow base (names ++ [x]) path)
    (hrenamed : IsName ((splitExtension x).1 ++ '.' :: extension)) :
    IsBelow base (names ++ [(splitExtension x).1 ++ '.' :: extension])
      (setExtension extension path) := by
  have hx : IsName x := h.isName x (by simp)
  obtain ⟨-, hroute, -⟩ := isBelow_iff.1 h
  rw [← List.append_assoc] at hroute
  obtain ⟨front, hfront, hinit⟩ := exists_trimEnd hroute
  have hname : (ofText path).trimEnd.fileName? = some x :=
    fileName?_of_route ((route_trimEnd _).trans hroute) hx.notUp
  have htrimmed : (ofText path).trimEnd = ⟨(ofText path).anchor, front ++ [x]⟩ := by
    rw [← hfront]
    rfl
  have hlegible := legible_ofText path
  rw [htrimmed] at hlegible
  obtain ⟨hsame, hsame'⟩ := (hlegible.exchange hx.ne_nil hrenamed.toIsPiece).ofText_toText
  have hset : Disk.setExtension extension path =
      toText ⟨(ofText path).anchor, front ++ [(splitExtension x).1 ++ '.' :: extension]⟩ := by
    unfold Disk.setExtension
    dsimp only
    rw [hname]
    dsimp only
    rw [hfront, List.dropLast_concat]
    rfl
  rw [hset]
  refine h.exchange hsame ?_ hrenamed
  rw [hsame', route_concat _ _ hrenamed.counts, hinit]

theorem isName_append_extension {stem old extension : Text} (hx : IsName (stem ++ '.' :: old))
    (hstem : stem ≠ []) (hdot : stem ≠ ".".toList) (hextension : '/' ∉ extension) :
    IsName (stem ++ '.' :: extension) := by
  obtain ⟨c, stem, rfl⟩ := List.exists_cons_of_ne_nil hstem
  refine ⟨⟨?_, counts_iff.2 ⟨by simp, by simp⟩⟩, ?_⟩
  · intro hmem
    rcases List.mem_append.1 hmem with hmem | hmem
    · exact hx.slash (List.mem_append_left _ hmem)
    · exact hextension (List.mem_of_ne_of_mem (by decide) hmem)
  · intro hup
    obtain ⟨rfl, hrest⟩ : c = '.' ∧ stem ++ '.' :: extension = ['.'] := by simpa using hup
    cases stem with
    | nil => exact hdot rfl
    | cons d stem => simp at hrest

theorem getLast?_of_idle {front z : Text} (hfront : Opens front) (hz : ¬counts z = true) :
    ∀ c ∈ (front ++ z).getLast?, c = '/' ∨ c = '.' := by
  intro c hc
  have hidle : z = [] ∨ z = ".".toList := by
    rw [counts_iff, not_and_or, not_not, not_not] at hz
    exact hz
  rcases hidle with rfl | rfl
  · rw [List.append_nil] at hc
    rcases hfront with rfl | ⟨directory, rfl⟩
    · cases hc
    · rw [List.getLast?_concat] at hc
      exact .inl (Option.some.inj hc).symm
  · rw [show ".".toList = ['.'] from rfl, List.getLast?_concat] at hc
    exact .inr (Option.some.inj hc).symm

/-- Where a path ends in a slash or a dot, there is no extension at its end to cut off. -/
theorem withExtension_of_idle {front z old : Text} (hfront : Opens front) (hz : ¬counts z = true)
    (hfound : extension? (front ++ z) = some old) (hslash : '/' ∉ old) (hdot : '.' ∉ old)
    (extension : Text) :
    Disk.withExtension extension (front ++ z) = Disk.setExtension extension (front ++ z) := by
  unfold Disk.withExtension
  rw [hfound]
  dsimp only
  split
  · next hsuffix =>
    have hnil : old = [] := by
      by_contra hne
      obtain ⟨more, c, rfl⟩ : ∃ more c, old = more ++ [c] :=
        ⟨_, _, (List.dropLast_append_getLast hne).symm⟩
      obtain ⟨before, hbefore⟩ := List.isSuffixOf_iff_suffix.1 hsuffix
      have hend := getLast?_of_idle hfront hz
      rw [← hbefore, ← List.append_assoc] at hend
      rcases hend c List.getLast?_concat with rfl | rfl
      · exact hslash (by simp)
      · exact hdot (by simp)
    rw [hnil, List.length_nil, Nat.sub_zero, List.take_length]
  · rfl

/-- The path with another extension leads along the same names, but for the extension of the last
one. -/
theorem IsBelow.withExtension {stem old extension : Text}
    (h : IsBelow base (names ++ [stem ++ '.' :: old]) path) (hstem : stem ≠ [])
    (hdot : stem ≠ ".".toList) (hold : '.' ∉ old) (hextension : '/' ∉ extension) :
    IsBelow base (names ++ [stem ++ '.' :: extension]) (withExtension extension path) := by
  have hx := h.isName (stem ++ '.' :: old) (by simp)
  have hy := isName_append_extension hx hstem hdot hextension
  have hsplit := splitExtension_append hstem hold
  obtain ⟨-, hroute, -⟩ := isBelow_iff.1 h
  rw [← List.append_assoc] at hroute
  obtain ⟨z, hz⟩ : ∃ z, (split '/' path).getLast? = some z :=
    ⟨_, List.getLast?_eq_some_getLast (split_ne_nil '/' path)⟩
  obtain ⟨hslash, front, hfront, rfl⟩ := exists_front hz
  by_cases hcounts : counts z = true
  · -- the path ends in its last name
    have hwhole := ofText_piece hfront ⟨hslash, hcounts⟩
    rw [hwhole, route_concat _ _ hcounts] at hroute
    obtain ⟨hinit, hlast⟩ := List.append_inj' hroute rfl
    obtain rfl : z = stem ++ '.' :: old := (List.cons.inj hlast).1
    have hrenamed : renamed extension (stem ++ '.' :: old) = stem ++ '.' :: extension := by
      unfold renamed
      rw [hsplit, if_neg hdot]
    rw [withExtension_piece hfront hx, hrenamed]
    refine h.exchange ?_ ?_ hy
    · rw [ofText_piece hfront hy.toIsPiece, hwhole]
    · rw [ofText_piece hfront hy.toIsPiece, route_concat _ _ hy.counts, hinit]
  · -- an idle piece is last, and the extension is set as if nothing had been cut off
    have hset := h.setExtension (by rw [hsplit]; exact hy)
    rw [hsplit] at hset
    have hfound : extension? (front ++ z) = some old := by
      unfold extension?
      rw [fileName?_of_route hroute hx.notUp, Option.bind_some, hsplit]
    have hslash : '/' ∉ old := fun hmem =>
      hx.slash (List.mem_append_right _ (List.mem_cons_of_mem _ hmem))
    rw [withExtension_of_idle hfront hcounts hfound hslash hold]
    exact hset

end Below

end NodeMarkup.Disk
