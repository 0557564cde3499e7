import NodeMarkup.Command.Project
import NodeMarkup.Proofs.Text.Pieces
/-!
Paths as texts. A path that is put behind a directory adds its own pieces to those of the directory,
and whatever changes the last piece of a path, or takes the directory away again, leaves the other
pieces as they are spelled.
-/
namespace NodeMarkup.Disk

open Text

variable {front base r x : Text} {init pieces : List Text}

/-- What stands between two slashes of a path and counts. -/
structure IsPiece (x : Text) : Prop where
  slash : '/' ∉ x
  counts : counts x = true

/-- A piece that names something in its directory. -/
structure IsName (x : Text) : Prop extends IsPiece x where
  notUp : x ≠ "..".toList

instance (x : Text) : Decidable (IsName x) :=
  decidable_of_iff ('/' ∉ x ∧ Disk.counts x = true ∧ x ≠ "..".toList)
    ⟨fun h => ⟨⟨h.1, h.2.1⟩, h.2.2⟩, fun h => ⟨h.slash, h.counts, h.notUp⟩⟩

/-- The last piece of a path names something in the directory that the others lead to. -/
def EndsInName (path : Text) : Prop := ∃ x, (split '/' path).getLast? = some x ∧ IsName x

instance (path : Text) : Decidable (EndsInName path) :=
  decidable_of_iff (IsName ((split '/' path).getLast (split_ne_nil '/' path)))
    ⟨fun h => ⟨_, List.getLast?_eq_some_getLast _, h⟩, fun ⟨x, hlast, hx⟩ => by
      rw [List.getLast?_eq_some_getLast (split_ne_nil '/' path)] at hlast
      exact Option.some.inj hlast ▸ hx⟩

theorem counts_iff : counts x = true ↔ x ≠ [] ∧ x ≠ ".".toList := by
  simp only [counts, Bool.and_eq_true, decide_eq_true_eq]

theorem IsPiece.ne_nil (h : IsPiece x) : x ≠ [] := (counts_iff.1 h.counts).1

theorem IsPiece.ne_dot (h : IsPiece x) : x ≠ ".".toList := (counts_iff.1 h.counts).2

/-- A text behind which a new piece begins. -/
def Opens (front : Text) : Prop := front = [] ∨ ∃ directory, front = directory ++ ['/']

theorem split_opens (h : Opens front) (r : Text) :
    split '/' (front ++ r) = (split '/' front).dropLast ++ split '/' r := by
  rcases h with rfl | ⟨directory, rfl⟩
  · rfl
  · rw [List.append_assoc, List.singleton_append, split_append, split_append,
      show split '/' [] = [[]] from rfl, List.dropLast_concat]

theorem getLast?_split_opens (h : Opens front) (r : Text) :
    (split '/' (front ++ r)).getLast? = (split '/' r).getLast? := by
  rw [split_opens h, List.getLast?_append_of_ne_nil _ (split_ne_nil _ _)]

theorem getLast?_split_piece (h : Opens front) (hx : '/' ∉ x) :
    (split '/' (front ++ x)).getLast? = some x := by
  rw [getLast?_split_opens h, split_of_not_mem hx]
  rfl

theorem getLast?_split_join (init : List Text) (hx : '/' ∉ x) :
    (split '/' (join '/' (init ++ [x]))).getLast? = some x := by
  by_cases hinit : init = []
  · rw [hinit, List.nil_append, join_singleton, split_of_not_mem hx]
    rfl
  · rw [join_append _ hinit (List.cons_ne_nil _ _), join_singleton, ← List.singleton_append,
      ← List.append_assoc]
    exact getLast?_split_piece (.inr ⟨_, rfl⟩) hx

/-- A path ends in its last piece. -/
theorem exists_front {path : Text} (h : (split '/' path).getLast? = some x) :
    '/' ∉ x ∧ ∃ front, Opens front ∧ path = front ++ x := by
  obtain ⟨hslash, front, hpath, hfront⟩ := exists_of_getLast?_split h
  exact ⟨hslash, front, hfront, hpath⟩

/-- The text of a directory as it stands before what is put behind it. -/
def leading (base : Text) : Text :=
  if base.isEmpty || base.getLast? = some '/' then base else base ++ ['/']

theorem opens_leading (base : Text) : Opens (leading base) := by
  unfold leading
  split
  · next h =>
    simp only [Bool.or_eq_true, List.isEmpty_iff, decide_eq_true_eq] at h
    rcases h with h | h
    · exact .inl h
    · exact .inr ⟨base.dropLast, (List.dropLast_append_getLast? '/' h).symm⟩
  · exact .inr ⟨base, rfl⟩

theorem joinPath_eq (h : r.head? ≠ some '/') (base : Text) :
    joinPath base r = leading base ++ r := by
  unfold joinPath leading
  rw [if_neg h]
  split
  · rfl
  · rw [List.append_assoc, List.singleton_append]

theorem head?_join (hnil : pieces ≠ []) (h : ∀ piece ∈ pieces, IsPiece piece) :
    (join '/' pieces).head? ≠ some '/' := by
  intro hslash
  have hsplit : split '/' (join '/' pieces) = pieces :=
    split_join hnil fun piece hpiece => (h piece hpiece).slash
  obtain ⟨piece, rest, rfl⟩ := List.exists_cons_of_ne_nil hnil
  obtain ⟨more, hmore⟩ := List.head?_eq_some_iff.1 hslash
  rw [hmore, split_cons_separator] at hsplit
  exact (h piece (by simp)).ne_nil (List.cons.inj hsplit).1.symm

/-- The last piece of a path stays the last behind any directory. -/
theorem getLast?_split_joinPath (base r : Text) :
    (split '/' (joinPath base r)).getLast? = (split '/' r).getLast? := by
  by_cases h : r.head? = some '/'
  · unfold joinPath
    rw [if_pos h]
  · rw [joinPath_eq h, getLast?_split_opens (opens_leading base)]

namespace Path

/-- A piece at its front says that a path is relative. -/
theorem anchor_ofText_append (h : IsPiece x) (more : Text) :
    (ofText (x ++ more)).anchor = .relative := by
  obtain ⟨c, rest, rfl⟩ := List.exists_cons_of_ne_nil h.ne_nil
  have hc : c ≠ '/' := fun hc => h.slash (by simp [hc])
  by_cases hdot : c = '.'
  · subst hdot
    have hrest : rest ≠ [] := fun hrest => h.ne_dot (by rw [hrest]; rfl)
    obtain ⟨next, rest, rfl⟩ := List.exists_cons_of_ne_nil hrest
    have hnext : next ≠ '/' := fun hnext => h.slash (by simp [hnext])
    simp [ofText, hnext]
  · unfold ofText
    split
    · next heq => simp_all
    · next heq => simp_all
    · rfl

theorem ofText_of_relative (h : (ofText x).anchor = .relative) :
    ofText x = ⟨.relative, split '/' x⟩ := by
  revert h
  unfold ofText
  split
  · intro h
    cases h
  · split
    · intro h
      cases h
    · exact fun _ => rfl
  · exact fun _ => rfl

/-- The pieces of some pieces that are joined. -/
theorem ofText_join (hnil : pieces ≠ []) (h : ∀ piece ∈ pieces, IsPiece piece) :
    ofText (join '/' pieces) = ⟨.relative, pieces⟩ := by
  have hsplit : split '/' (join '/' pieces) = pieces := split_join hnil fun x hx => (h x hx).slash
  have hrelative : (ofText (join '/' pieces)).anchor = .relative := by
    cases pieces with
    | nil => exact absurd rfl hnil
    | cons piece pieces =>
      by_cases hpieces : pieces = []
      · rw [hpieces, join_singleton, ← List.append_nil piece]
        exact anchor_ofText_append (h piece List.mem_cons_self) []
      · rw [join_cons _ _ hpieces]
        exact anchor_ofText_append (h piece List.mem_cons_self) _
  rw [ofText_of_relative hrelative, hsplit]

/-- What stands behind a slash adds its pieces to those before the slash. -/
theorem ofText_append_slash (hbase : base ≠ []) (r : Text) :
    ofText (base ++ '/' :: r) =
      ⟨(ofText base).anchor, (ofText base).pieces ++ split '/' r⟩ := by
  obtain ⟨c, rest, rfl⟩ := List.exists_cons_of_ne_nil hbase
  rw [List.cons_append]
  by_cases hc : c = '/'
  · subst hc
    simp only [ofText]
    rw [split_append]
  · by_cases hdot : c = '.'
    · subst hdot
      have hhead : ((rest ++ '/' :: r).isEmpty || (rest ++ '/' :: r).head? = some '/')
          = (rest.isEmpty || rest.head? = some '/') := by
        cases rest <;> simp
      simp only [ofText, hhead]
      split
      · rw [split_append]
      · rw [← List.cons_append, split_append]
    · have hplain (t : Text) : ofText (c :: t) = ⟨.relative, split '/' (c :: t)⟩ := by
        unfold ofText
        split <;> simp_all
      rw [hplain, hplain, ← List.cons_append, split_append]

theorem ofText_opens (hfront : Opens front) (hr : (ofText r).anchor = .relative) :
    ofText (front ++ r) =
      ⟨(ofText front).anchor, (ofText front).pieces.dropLast ++ split '/' r⟩ := by
  rcases hfront with rfl | ⟨directory, rfl⟩
  · exact ofText_of_relative hr
  · rw [List.append_assoc, List.singleton_append]
    by_cases hnil : directory = []
    · subst hnil
      rfl
    · rw [ofText_append_slash hnil, ofText_append_slash hnil, show split '/' [] = [[]] from rfl,
        List.dropLast_concat]

theorem anchor_ofText_of_isPiece (h : IsPiece x) : (ofText x).anchor = .relative := by
  simpa using anchor_ofText_append h []

theorem ofText_piece (hfront : Opens front) (hx : IsPiece x) :
    ofText (front ++ x) = ⟨(ofText front).anchor, (ofText front).pieces.dropLast ++ [x]⟩ := by
  rw [ofText_opens hfront (anchor_ofText_of_isPiece hx), split_of_not_mem hx.slash]

/-- Up to its last piece, the text of a path does not depend on that piece. -/
theorem exists_toText_eq (anchor : Anchor) (init : List Text) :
    ∃ lead, ∀ x, toText ⟨anchor, init ++ [x]⟩ = lead ++ x := by
  have hjoin : ∃ lead, ∀ x, join '/' (init ++ [x]) = lead ++ x := by
    by_cases hinit : init = []
    · exact ⟨[], fun x => by rw [hinit]; exact join_singleton _ _⟩
    · refine ⟨join '/' init ++ ['/'], fun x => ?_⟩
      rw [join_append _ hinit (List.cons_ne_nil _ _), join_singleton, List.append_assoc,
        List.singleton_append]
  obtain ⟨lead, hlead⟩ := hjoin
  cases anchor with
  | relative => exact ⟨lead, hlead⟩
  | here => exact ⟨'.' :: lead, fun x => by rw [toText, hlead]; rfl⟩
  | root => exact ⟨'/' :: lead, fun x => by rw [toText, hlead]; rfl⟩

theorem toText_piece (hfront : Opens front) (hx : IsPiece x) (y : Text) :
    toText ⟨(ofText front).anchor, (ofText front).pieces.dropLast ++ [y]⟩ = front ++ y := by
  obtain ⟨lead, hlead⟩ := exists_toText_eq (ofText front).anchor (ofText front).pieces.dropLast
  have hfull : front ++ x = lead ++ x := by
    rw [← hlead x, ← ofText_piece hfront hx, toText_ofText]
  rw [hlead, List.append_cancel_right hfull]

theorem trimEnd_of_counts (anchor : Anchor) (init : List Text) (h : counts x = true) :
    trimEnd ⟨anchor, init ++ [x]⟩ = ⟨anchor, init ++ [x]⟩ := by
  simp [trimEnd, h]

theorem fileName?_piece (hfront : Opens front) (hx : IsPiece x) :
    (ofText (front ++ x)).fileName? = if x = "..".toList then none else some x := by
  rw [ofText_piece hfront hx, fileName?, trimEnd_of_counts _ _ hx.counts, List.getLast?_concat]

end Path

/-- All that splitting a file name can come to: its last dot parts it, or there is no dot behind
which an extension begins. -/
theorem splitExtension_cases (fileName : Text) :
    (∃ stem extension, splitExtension fileName = (stem, some extension) ∧
      fileName = stem ++ '.' :: extension ∧ stem ≠ []) ∨
    splitExtension fileName = (fileName, none) := by
  unfold splitExtension
  dsimp only
  generalize hextension : (fileName.reverse.takeWhile (· ≠ '.')).reverse = extension
  by_cases hstem : (fileName.take (fileName.length - extension.length - 1)).isEmpty = true
  · exact .inr (if_pos hstem)
  · rw [if_neg hstem]
    refine .inl ⟨_, _, rfl, ?_, fun h => hstem (by rw [h]; rfl)⟩
    have hparts := List.takeWhile_append_dropWhile (p := (· ≠ '.')) (l := fileName.reverse)
    have htake : fileName.reverse.takeWhile (· ≠ '.') = extension.reverse := by
      rw [← hextension, List.reverse_reverse]
    cases hdrop : fileName.reverse.dropWhile (· ≠ '.') with
    | nil =>
      -- without a dot, the extension is all of the name
      rw [hdrop, htake, List.append_nil] at hparts
      have hall : extension = fileName := List.reverse_injective hparts
      exact absurd (by rw [hall]; simp) hstem
    | cons c rest =>
      have hdot : c = '.' := by
        have hhead := List.head?_dropWhile_not (fun c : Char => decide (c ≠ '.')) fileName.reverse
        rw [hdrop] at hhead
        simpa using hhead
      rw [hdrop, htake, hdot] at hparts
      have hname : fileName = rest.reverse ++ '.' :: extension := by
        rw [← List.reverse_reverse fileName, ← hparts]
        simp
      have hlength : fileName.length - extension.length - 1 = rest.reverse.length := by
        rw [hname]
        simp
        omega
      rw [hlength]
      nth_rewrite 2 [hname]
      rw [List.take_left]
      exact hname

theorem stem_ne_nil (h : x ≠ []) : (splitExtension x).1 ≠ [] := by
  rcases splitExtension_cases x with ⟨stem, extension, hsplit, -, hstem⟩ | hsplit
  · rw [hsplit]
    exact hstem
  · rw [hsplit]
    exact h

theorem splitExtension_append {stem extension : Text} (hstem : stem ≠ [])
    (hextension : '.' ∉ extension) :
    splitExtension (stem ++ '.' :: extension) = (stem, some extension) := by
  have htake : ((stem ++ '.' :: extension).reverse.takeWhile (· ≠ '.')).reverse = extension := by
    rw [List.reverse_append, List.reverse_cons, List.append_assoc,
      List.takeWhile_append_of_pos (by
        intro c hc
        have hne : c ≠ '.' := fun h => hextension (by simpa [h] using hc)
        simpa using hne)]
    simp
  have hlength : (stem ++ '.' :: extension).length - extension.length - 1 = stem.length := by
    simp
    omega
  unfold splitExtension
  dsimp only
  rw [htake, hlength, List.take_left, if_neg (by simpa using hstem)]

/-- The file name with another extension. The old one is cut off first, so that of a name which is
`..` without it nothing else is left. -/
def renamed (extension fileName : Text) : Text :=
  if (splitExtension fileName).1 = ".".toList then "..".toList
  else (splitExtension fileName).1 ++ '.' :: extension

theorem setExtension_piece (hfront : Opens front) (hx : IsName x) (extension : Text) :
    setExtension extension (front ++ x) = front ++ ((splitExtension x).1 ++ '.' :: extension) := by
  have hname : (Path.ofText (front ++ x)).trimEnd = Path.ofText (front ++ x) := by
    rw [Path.ofText_piece hfront hx.toIsPiece, Path.trimEnd_of_counts _ _ hx.counts]
  unfold setExtension
  dsimp only
  rw [hname, Path.fileName?_piece hfront hx.toIsPiece, if_neg hx.notUp]
  dsimp only
  rw [Path.ofText_piece hfront hx.toIsPiece, List.dropLast_concat,
    Path.toText_piece hfront hx.toIsPiece]

theorem setExtension_up (hfront : Opens front) (extension : Text) :
    setExtension extension (front ++ "..".toList) = front ++ "..".toList := by
  have hup : IsPiece "..".toList := ⟨by decide, by decide⟩
  have hname : (Path.ofText (front ++ "..".toList)).trimEnd =
      Path.ofText (front ++ "..".toList) := by
    rw [Path.ofText_piece hfront hup, Path.trimEnd_of_counts _ _ hup.counts]
  unfold setExtension
  dsimp only
  rw [hname, Path.fileName?_piece hfront hup, if_pos rfl]

theorem extension?_piece (hfront : Opens front) (hx : IsName x) :
    extension? (front ++ x) = (splitExtension x).2 := by
  unfold extension?
  rw [Path.fileName?_piece hfront hx.toIsPiece, if_neg hx.notUp, Option.bind_some]

/-- Another extension changes the last piece of a path only. -/
theorem withExtension_piece (hfront : Opens front) (hx : IsName x) (extension : Text) :
    withExtension extension (front ++ x) = front ++ renamed extension x := by
  unfold withExtension renamed
  rw [extension?_piece hfront hx]
  rcases splitExtension_cases x with ⟨stem, old, hsplit, hname, hstem⟩ | hsplit
  · have hcut : (front ++ x).take ((front ++ x).length - old.length) =
        front ++ (stem ++ ['.']) := by
      have hlength : (front ++ x).length - old.length = (front ++ (stem ++ ['.'])).length := by
        rw [hname]
        simp
        omega
      rw [hlength, hname,
        show front ++ (stem ++ '.' :: old) = front ++ (stem ++ ['.']) ++ old by simp,
        List.take_left]
    have hsuffix : old.isSuffixOf (front ++ x) = true := by
      rw [List.isSuffixOf_iff_suffix]
      exact ⟨front ++ (stem ++ ['.']), by rw [hname]; simp⟩
    rw [hsplit]
    dsimp only
    rw [if_pos hsuffix, hcut]
    have hslash : '/' ∉ stem ++ ['.'] := fun h => hx.slash (by
      rw [hname]
      rcases List.mem_append.1 h with h | h
      · exact List.mem_append_left _ h
      · exact absurd (List.mem_singleton.1 h) (by decide))
    by_cases hdot : stem = ".".toList
    · rw [if_pos hdot, hdot]
      exact setExtension_up hfront extension
    · have hpiece : IsName (stem ++ ['.']) := by
        refine ⟨⟨hslash, counts_iff.2 ⟨by simp, ?_⟩⟩, ?_⟩
        · intro (h : stem ++ ['.'] = [] ++ ['.'])
          exact hstem (List.append_cancel_right h)
        · intro (h : stem ++ ['.'] = ['.'] ++ ['.'])
          exact hdot (List.append_cancel_right h)
      rw [if_neg hdot, setExtension_piece hfront hpiece, splitExtension_append hstem (by simp)]
  · have hdot : x ≠ ".".toList := hx.ne_dot
    rw [hsplit]
    dsimp only
    rw [if_neg hdot, setExtension_piece hfront hx, hsplit]

theorem isPiece_renamed (hx : IsName x) {extension : Text} (hextension : '/' ∉ extension) :
    IsPiece (renamed extension x) := by
  have hslash : '/' ∉ (splitExtension x).1 := by
    rcases splitExtension_cases x with ⟨stem, old, hsplit, hname, -⟩ | hsplit
    · rw [hsplit]
      exact fun h => hx.slash (by rw [hname]; exact List.mem_append_left _ h)
    · rw [hsplit]
      exact hx.slash
  unfold renamed
  split
  · exact ⟨by decide, by decide⟩
  · refine ⟨?_, counts_iff.2 ⟨by simp, fun h => ?_⟩⟩
    · intro h
      rcases List.mem_append.1 h with h | h
      · exact hslash h
      · rcases List.mem_cons.1 h with h | h
        · exact absurd h (by decide)
        · exact hextension h
    · have hlength := congrArg List.length h
      have hpos := List.length_pos_iff.2 (stem_ne_nil hx.ne_nil)
      simp only [List.length_append, List.length_cons] at hlength
      have hone : (".".toList).length = 1 := rfl
      omega

theorem renamed_of_ne_up {extension : Text} (h : renamed extension x ≠ "..".toList) :
    renamed extension x = (splitExtension x).1 ++ '.' :: extension := by
  unfold renamed at h ⊢
  split
  · next hdot => exact absurd (if_pos hdot) h
  · rfl

namespace Path

theorem dropCounting_zero (pieces : List Text) : dropCounting 0 pieces = pieces := by
  rw [dropCounting]

theorem dropCounting_suffix (n : Nat) (pieces : List Text) : dropCounting n pieces <:+ pieces := by
  fun_induction dropCounting n pieces with
  | case1 => exact List.suffix_refl _
  | case2 => exact List.suffix_refl _
  | case3 _ _ _ _ ih => exact ih.trans (List.suffix_cons _ _)
  | case4 _ _ _ _ ih => exact ih.trans (List.suffix_cons _ _)

/-- Behind all of some pieces that count, the first that counts is the first of those behind them. -/
theorem dropWhile_dropCounting (pieces : List Text) {more : List Text}
    (h : ∀ first ∈ more.head?, counts first = true) :
    (dropCounting (pieces.filter counts).length (pieces ++ more)).dropWhile (fun x => !counts x) =
      more := by
  induction pieces with
  | nil =>
    cases more with
    | nil => rfl
    | cons first more => exact List.dropWhile_cons_of_neg (by simp [h first rfl])
  | cons x pieces ih =>
    by_cases hx : counts x = true
    · rw [List.filter_cons_of_pos hx, List.length_cons, List.cons_append, dropCounting,
        if_pos hx, ih]
    · rw [List.filter_cons_of_neg hx, List.cons_append]
      cases hn : (pieces.filter counts).length with
      | zero =>
        rw [hn, dropCounting_zero] at ih
        rw [dropCounting_zero, List.dropWhile_cons_of_pos (by simpa using hx), ih]
      | succ n =>
        rw [hn] at ih
        rw [dropCounting, if_neg hx, ih]

/-- A path that is put behind a directory adds its pieces, and begins where the directory does. -/
theorem exists_ofText_joinPath (hbase : base ≠ []) (hr : (ofText r).anchor = .relative) :
    ∃ pieces, ofText (joinPath base r) = ⟨(ofText base).anchor, pieces ++ split '/' r⟩ ∧
      pieces.filter counts = (ofText base).pieces.filter counts := by
  have hhead : r.head? ≠ some '/' := by
    intro h
    cases r with
    | nil => cases h
    | cons c rest =>
      obtain rfl : c = '/' := by simpa using h
      cases hr
  rw [joinPath_eq hhead, ofText_opens (opens_leading base) hr]
  by_cases hslash : base.getLast? = some '/'
  · have hbase' : base = base.dropLast ++ ['/'] := (List.dropLast_append_getLast? '/' hslash).symm
    have hleading : leading base = base := if_pos (by simp [hslash])
    rw [hleading]
    refine ⟨_, rfl, ?_⟩
    -- the slash at the end of the directory makes an empty piece
    have hlast : ∃ init, (ofText base).pieces = init ++ [[]] := by
      rw [hbase']
      by_cases hnil : base.dropLast = []
      · exact ⟨[], by rw [hnil]; rfl⟩
      · exact ⟨_, by rw [ofText_append_slash hnil]; rfl⟩
    obtain ⟨init, hinit⟩ := hlast
    rw [hinit, List.dropLast_concat, List.filter_append]
    simp [counts]
  · have hleading : leading base = base ++ ['/'] := if_neg (by simp [hbase, hslash])
    rw [hleading, ofText_append_slash hbase, show split '/' [] = [[]] from rfl,
      List.dropLast_concat]
    exact ⟨_, rfl, rfl⟩

/-- A relative path begins with a piece that counts. -/
theorem exists_split_of_relative (hbase : base ≠ []) (hanchor : (ofText base).anchor = .relative) :
    ∃ first more, split '/' base = first :: more ∧ counts first = true := by
  obtain ⟨first, more, hsplit⟩ := List.exists_cons_of_ne_nil (split_ne_nil '/' base)
  have htext : base = first ∨ ∃ rest, base = first ++ '/' :: rest := by
    have hjoin := join_split '/' base
    rw [hsplit] at hjoin
    by_cases hmore : more = []
    · exact .inl (by rw [← hjoin, hmore]; exact join_singleton _ _)
    · exact .inr ⟨_, by rw [← hjoin]; exact join_cons _ _ hmore⟩
  refine ⟨first, more, hsplit, counts_iff.2 ⟨?_, ?_⟩⟩
  · rintro rfl
    rcases htext with rfl | ⟨rest, rfl⟩
    · exact hbase rfl
    · cases hanchor
  · rintro rfl
    rcases htext with rfl | ⟨rest, rfl⟩
    · cases hanchor
    · cases hanchor

theorem components_ne_nil (hbase : base ≠ []) : (ofText base).components ≠ [] := by
  unfold components
  cases hanchor : (ofText base).anchor with
  | here => simp
  | root => simp
  | relative =>
    obtain ⟨first, more, hsplit, hcounts⟩ := exists_split_of_relative hbase hanchor
    rw [ofText_of_relative hanchor, hsplit, List.filter_cons_of_pos hcounts]
    simp

/-- What is left behind a directory ends in the last piece of the path, unless nothing is left. -/
theorem getLast?_split_strip? {path r : Text} (hpath : (split '/' path).getLast? = some x)
    (hx : IsPiece x) (h : Disk.strip? base path = some r) :
    r = [] ∨ (split '/' r).getLast? = some x := by
  obtain ⟨-, front, hfront, rfl⟩ := exists_front hpath
  unfold Disk.strip? strip? at h
  rw [ofText_piece hfront hx] at h
  split at h
  · split at h
    · rw [Option.map_some, trimEnd_of_counts _ _ hx.counts, toText_piece hfront hx] at h
      exact .inr (Option.some.inj h ▸ hpath)
    · obtain rfl := Option.some.inj h
      generalize hleft : (dropCounting _ _).dropWhile _ = left
      have hsuffix : left <:+ (ofText front).pieces.dropLast ++ [x] :=
        hleft ▸ (List.dropWhile_suffix _).trans (dropCounting_suffix _ _)
      rcases List.suffix_concat_iff.1 hsuffix with rfl | ⟨init, rfl, -⟩
      · exact .inl rfl
      · rw [trimEnd_of_counts _ _ hx.counts]
        exact .inr (getLast?_split_join init hx.slash)
  · cases h

theorem strip?_self (path : Text) : Disk.strip? path path = some [] := by
  have hnothing : trimEnd ⟨.relative, ((dropCounting ((ofText path).pieces.filter counts).length
      (ofText path).pieces).dropWhile fun x => !counts x)⟩ = ⟨.relative, []⟩ := by
    have hleft := dropWhile_dropCounting (ofText path).pieces
      (show ∀ first ∈ ([] : List Text).head?, counts first = true by simp)
    rw [List.append_nil] at hleft
    rw [hleft]
    rfl
  unfold Disk.strip? strip?
  rw [if_pos (List.isPrefixOf_iff_prefix.2 (List.prefix_refl _))]
  dsimp only
  by_cases hnil : path = []
  · subst hnil
    rfl
  · rw [if_neg (by simpa using components_ne_nil hnil), hnothing]
    rfl

end Path

end NodeMarkup.Disk
