import NodeMarkup.Proofs.Text.Pieces
import NodeMarkup.Proofs.Text.Search
import NodeMarkup.Resource.Path
import Mathlib.Data.List.DropRight
import Mathlib.Data.List.Induction
/-!
The canonical form of resource paths. A path is a root and the steps between its slashes; taking the
steps one by one leaves segments in which `..` stands only in front, and only where there is no
root. Such segments are left alone when they are taken again, so resolving a path comes to the same
as resolving it twice, and never leads out of a scheme.
-/
namespace NodeMarkup.Resource

open Text

variable {rooted : Bool} {root rest path scheme s : Text} {stack segments pieces : List Text}

section Segments

/-- What stands between two slashes of a path in its canonical form. -/
structure IsSegment (s : Text) : Prop where
  slash : '/' ∉ s
  ne_nil : s ≠ []
  ne_dot : s ≠ ".".toList

/-- The segments of a path in its canonical form: a `..` has only others before it, and behind a
root there is none. -/
structure Settled (rooted : Bool) (segments : List Text) : Prop where
  segment : ∀ s ∈ segments, IsSegment s
  leading : segments.Pairwise fun before s => s = "..".toList → before = "..".toList
  rooted : rooted = true → "..".toList ∉ segments

/-- All that a step can do to the segments before it, which are given last first. -/
inductive Pushes (rooted : Bool) : List Text → Text → List Text → Prop where
  | skip {stack : List Text} {s : Text} : s = [] ∨ s = ".".toList → Pushes rooted stack s stack
  | back {stack : List Text} {last : Text} :
    last ≠ "..".toList → Pushes rooted (last :: stack) "..".toList stack
  | stay {stack : List Text} : rooted = true → (∀ last ∈ stack.head?, last = "..".toList) →
    Pushes rooted stack "..".toList stack
  | climb {stack : List Text} : rooted = false → (∀ last ∈ stack.head?, last = "..".toList) →
    Pushes rooted stack "..".toList ("..".toList :: stack)
  | enter {stack : List Text} {s : Text} : s ≠ [] → s ≠ ".".toList → s ≠ "..".toList →
    Pushes rooted stack s (s :: stack)

theorem pushes_pushSegment (rooted : Bool) (stack : List Text) (s : Text) :
    Pushes rooted stack s (pushSegment rooted stack s) := by
  unfold pushSegment
  by_cases hskip : s = [] ∨ s = ".".toList
  · rw [if_pos (by simpa using hskip)]
    exact .skip hskip
  · rw [if_neg (by simpa using hskip)]
    rw [not_or] at hskip
    by_cases hup : s = "..".toList
    · subst hup
      rw [if_pos rfl]
      cases stack with
      | nil =>
        cases rooted with
        | true => exact .stay rfl (by simp)
        | false => exact .climb rfl (by simp)
      | cons last stack =>
        by_cases hlast : last = "..".toList
        · subst hlast
          cases rooted with
          | true => exact .stay rfl (by simp)
          | false => exact .climb rfl (by simp)
        · dsimp only
          rw [if_pos hlast]
          exact .back hlast
    · rw [if_neg hup]
      exact .enter hskip.1 hskip.2 hup

theorem pieces_of_segments (h : ∀ s ∈ segments, IsSegment s) :
    ∀ s ∈ segments, '/' ∉ s ∧ s ≠ [] :=
  fun s hs => ⟨(h s hs).slash, (h s hs).ne_nil⟩

theorem settled_nil (rooted : Bool) : Settled rooted [] := ⟨by simp, .nil, by simp⟩

theorem Settled.of_concat (h : Settled rooted (segments ++ [s])) : Settled rooted segments := by
  refine ⟨?_, (List.pairwise_append.1 h.leading).1, ?_⟩
  · exact fun t ht => h.segment t (List.mem_append_left _ ht)
  · exact fun hrooted hmem => h.rooted hrooted (List.mem_append_left _ hmem)

theorem Settled.concat (h : Settled rooted segments) (hs : IsSegment s)
    (hup : s = "..".toList → rooted = false ∧ ∀ t ∈ segments, t = "..".toList) :
    Settled rooted (segments ++ [s]) := by
  refine ⟨?_, ?_, ?_⟩
  · exact List.forall_mem_append.2 ⟨h.segment, List.forall_mem_singleton.2 hs⟩
  · apply List.pairwise_append.2
    refine ⟨h.leading, List.pairwise_singleton _ _, ?_⟩
    intro t ht u hu hsup
    obtain rfl := List.mem_singleton.1 hu
    exact (hup hsup).2 t ht
  · intro hrooted hmem
    rcases List.mem_append.1 hmem with hmem | hmem
    · exact h.rooted hrooted hmem
    · have := (hup (List.mem_singleton.1 hmem).symm).1
      simp [hrooted] at this

/-- Where the last segment is `..`, or there is none, all segments are. -/
theorem Settled.all_up (h : Settled rooted stack.reverse)
    (hlast : ∀ last ∈ stack.head?, last = "..".toList) : ∀ t ∈ stack.reverse, t = "..".toList := by
  cases stack with
  | nil => simp
  | cons last stack =>
    have hup : last = "..".toList := hlast last rfl
    rw [List.reverse_cons]
    intro t ht
    rcases List.mem_append.1 ht with ht | ht
    · have hpairs := h.leading
      rw [List.reverse_cons, List.pairwise_append] at hpairs
      exact hpairs.2.2 t ht last (by simp) hup
    · rw [List.mem_singleton.1 ht, hup]

theorem isSegment_up : IsSegment "..".toList := ⟨by decide, by decide, by decide⟩

theorem Settled.pushSegment (h : Settled rooted stack.reverse) (hs : '/' ∉ s) :
    Settled rooted (pushSegment rooted stack s).reverse := by
  have hpush := pushes_pushSegment rooted stack s
  generalize Resource.pushSegment rooted stack s = stack' at hpush ⊢
  cases hpush with
  | skip => exact h
  | back =>
    rw [List.reverse_cons] at h
    exact h.of_concat
  | stay => exact h
  | climb hrooted hlast =>
    rw [List.reverse_cons]
    exact h.concat isSegment_up fun _ => ⟨hrooted, h.all_up hlast⟩
  | enter hnil hdot hup =>
    rw [List.reverse_cons]
    exact h.concat ⟨hs, hnil, hdot⟩ fun heq => absurd heq hup

/-- The segments that are left of some steps. -/
def settle (rooted : Bool) (pieces : List Text) : List Text :=
  (pieces.foldl (pushSegment rooted) []).reverse

theorem settle_concat (rooted : Bool) (pieces : List Text) (s : Text) :
    settle rooted (pieces ++ [s]) =
      (pushSegment rooted (settle rooted pieces).reverse s).reverse := by
  simp [settle]

/-- Whatever the steps, what is left of them is settled. -/
theorem settled_settle (rooted : Bool) (h : ∀ s ∈ pieces, '/' ∉ s) :
    Settled rooted (settle rooted pieces) := by
  induction pieces using List.reverseRecOn with
  | nil => exact settled_nil rooted
  | append_singleton pieces s ih =>
    obtain ⟨hpieces, hs⟩ := List.forall_mem_append.1 h
    rw [settle_concat]
    apply Settled.pushSegment
    · rw [List.reverse_reverse]
      exact ih hpieces
    · exact hs s (List.mem_singleton_self s)

/-- Segments that are settled stay as they are. -/
theorem Settled.settle_eq (h : Settled rooted segments) : settle rooted segments = segments := by
  induction segments using List.reverseRecOn with
  | nil => rfl
  | append_singleton segments s ih =>
    have hs : IsSegment s := h.segment s (by simp)
    have hbefore : s = "..".toList → ∀ t ∈ segments, t = "..".toList := by
      intro hup t ht
      exact (List.pairwise_append.1 h.leading).2.2 t ht s (by simp) hup
    rw [settle_concat, ih h.of_concat]
    have hpush := pushes_pushSegment rooted segments.reverse s
    generalize hstack : segments.reverse = stack at hpush
    generalize Resource.pushSegment rooted stack s = stack' at hpush ⊢
    cases hpush with
    | skip hskip => exact absurd hskip (not_or.2 ⟨hs.ne_nil, hs.ne_dot⟩)
    | back hlast =>
      -- the segment that is taken back would be a name in front of a `..`
      have hmem := List.mem_reverse.1 (hstack ▸ List.mem_cons_self)
      exact absurd (hbefore rfl _ hmem) hlast
    | stay hrooted => exact absurd (by simp) (h.rooted hrooted)
    | climb => rw [List.reverse_cons, ← hstack, List.reverse_reverse]
    | enter => rw [List.reverse_cons, ← hstack, List.reverse_reverse]

/-- Steps may be settled before others are taken behind them. -/
theorem settle_append (rooted : Bool) (h : ∀ s ∈ pieces, '/' ∉ s) (more : List Text) :
    settle rooted (settle rooted pieces ++ more) = settle rooted (pieces ++ more) := by
  have hagain := congrArg List.reverse (settled_settle rooted h).settle_eq
  unfold settle at hagain ⊢
  rw [List.reverse_reverse] at hagain
  rw [List.foldl_append, List.foldl_append, hagain, List.reverse_reverse]

end Segments

section Steps

/-- The steps of a path behind its root: what stands between the slashes and is not empty. -/
def steps (t : Text) : List Text := (split '/' t).filter (· ≠ [])

theorem not_mem_of_mem_steps {t : Text} (h : s ∈ steps t) : '/' ∉ s :=
  not_mem_of_mem_split (List.mem_of_mem_filter h)

theorem not_mem_of_mem_steps_append {t u : Text} (h : s ∈ steps t ++ steps u) : '/' ∉ s :=
  (List.mem_append.1 h).elim not_mem_of_mem_steps not_mem_of_mem_steps

theorem settled_steps (rooted : Bool) (t : Text) : Settled rooted (settle rooted (steps t)) :=
  settled_settle rooted fun _ => not_mem_of_mem_steps

theorem settled_steps_append (rooted : Bool) (t u : Text) :
    Settled rooted (settle rooted (steps t ++ steps u)) :=
  settled_settle rooted fun _ => not_mem_of_mem_steps_append

theorem steps_append (t u : Text) : steps (t ++ '/' :: u) = steps t ++ steps u := by
  rw [steps, split_append, List.filter_append]
  rfl

theorem steps_nil : steps [] = [] := rfl

theorem steps_cons_slash (t : Text) : steps ('/' :: t) = steps t := steps_append [] t

/-- Slashes at the end of a path make no steps. -/
theorem steps_rdropWhile (t : Text) : steps (t.rdropWhile (· = '/')) = steps t := by
  induction t using List.reverseRecOn with
  | nil => rfl
  | append_singleton t c ih =>
    rw [List.rdropWhile_concat]
    split
    · next hc =>
      obtain rfl : c = '/' := of_decide_eq_true hc
      rw [ih, steps_append, steps_nil, List.append_nil]
    · rfl

theorem steps_join (h : ∀ s ∈ segments, '/' ∉ s ∧ s ≠ []) :
    steps (join '/' segments) = segments := by
  by_cases hnil : segments = []
  · rw [hnil]
    rfl
  · rw [steps, split_join hnil fun s hs => (h s hs).1, List.filter_eq_self]
    exact fun s hs => decide_eq_true (h s hs).2

theorem foldl_pushSegment_steps (rooted : Bool) (t : Text) :
    (split '/' t).foldl (pushSegment rooted) [] = (steps t).foldl (pushSegment rooted) [] := by
  rw [steps, List.foldl_filter]
  congr 1
  funext stack s
  by_cases hs : s = []
  · simp [pushSegment, hs]
  · simp [hs]

end Steps

section Roots

/-- A path parted into its root and the rest: the root goes through the first `://`, or is a leading
slash, or is empty. -/
inductive Parted : Text → Text → Text → Prop where
  | scheme {scheme rest : Text} : ¬schemeMark <:+: scheme →
    Parted (scheme ++ schemeMark ++ rest) (scheme ++ schemeMark) rest
  | slash {rest : Text} : ¬schemeMark <:+: '/' :: rest → Parted ('/' :: rest) ['/'] rest
  | bare {path : Text} : ¬schemeMark <:+: path → path.head? ≠ some '/' → Parted path [] path

theorem Parted.eq_append (h : Parted path root rest) : path = root ++ rest := by
  cases h with
  | scheme => rfl
  | slash => rfl
  | bare => rfl

/-- The mark of a scheme cannot begin inside another, so the first one is found behind a scheme. -/
theorem indexOf?_schemeMark (h : ¬schemeMark <:+: scheme) (rest : Text) :
    indexOf? schemeMark (scheme ++ schemeMark ++ rest) = some scheme.length := by
  induction scheme with
  | nil => exact indexOf?_eq_zero (List.prefix_append _ _)
  | cons c scheme ih =>
    have hbegins : ¬schemeMark <+: c :: (scheme ++ schemeMark ++ rest) := by
      rintro ⟨behind, hbehind⟩
      -- the mark would end before the next one, or else a colon would be a slash
      match scheme, hbehind with
      | [], hbehind => simp [schemeMark] at hbehind
      | [_], hbehind => simp [schemeMark] at hbehind
      | d :: e :: more, hbehind =>
        obtain ⟨rfl, rfl, rfl, -⟩ : ':' = c ∧ '/' = d ∧ '/' = e ∧ _ := by
          simpa [schemeMark] using hbehind
        exact h ⟨[], more, rfl⟩
    have hfound := ih fun hinside => h (hinside.trans (List.suffix_cons c scheme).isInfix)
    rw [List.cons_append, List.cons_append, indexOf?,
      if_neg (by rwa [List.isPrefixOf_iff_prefix]), hfound]
    rfl

theorem Parted.splitRoot_eq (h : Parted path root rest) : splitRoot path = (root, rest) := by
  rw [Resource.splitRoot_eq]
  cases h with
  | scheme hscheme =>
    rw [indexOf?_schemeMark hscheme]
    dsimp only
    rw [← List.length_append, List.take_left, List.drop_left]
  | slash hmark =>
    rw [indexOf?_eq_none_iff.2 hmark]
    rfl
  | bare hmark hhead =>
    rw [indexOf?_eq_none_iff.2 hmark]
    dsimp only
    split
    · exact absurd rfl hhead
    · rfl

theorem exists_parted (path : Text) : ∃ root rest, Parted path root rest := by
  by_cases hmark : schemeMark <:+: path
  · cases hfound : indexOf? schemeMark path with
    | none => exact absurd hmark (indexOf?_eq_none_iff.1 hfound)
    | some n =>
      obtain ⟨scheme, rest, rfl, rfl⟩ := eq_of_indexOf? hfound
      exact ⟨_, _, .scheme (not_infix_of_indexOf? (by decide) hfound)⟩
  · by_cases hhead : path.head? = some '/'
    · obtain ⟨rest, rfl⟩ := List.head?_eq_some_iff.1 hhead
      exact ⟨_, _, .slash hmark⟩
    · exact ⟨_, _, .bare hmark hhead⟩

theorem normalize_eq (h : Parted path root rest) :
    normalize path = root ++ join '/' (settle (!root.isEmpty) (steps rest)) := by
  unfold settle
  rw [normalize_eq_join, h.splitRoot_eq]
  dsimp only
  rw [foldl_pushSegment_steps]

/-- No two slashes follow each other in a path of segments. -/
theorem not_infix_join (h : ∀ s ∈ segments, '/' ∉ s ∧ s ≠ []) :
    ¬['/', '/'] <:+: '/' :: join '/' segments := by
  rintro ⟨before, behind, heq⟩
  have hsplit : split '/' ('/' :: join '/' segments) =
      split '/' before ++ [] :: split '/' behind := by
    rw [← heq, List.append_assoc, List.cons_append, List.cons_append, List.nil_append, split_append,
      split_cons_separator]
  rw [split_cons_separator] at hsplit
  by_cases hnil : segments = []
  · -- one slash is too short for two
    rw [hnil] at heq
    have := congrArg List.length heq
    simp [join] at this
    omega
  · rw [split_join hnil fun s hs => (h s hs).1] at hsplit
    obtain ⟨first, pieces, hbefore⟩ := List.exists_cons_of_ne_nil (split_ne_nil '/' before)
    rw [hbefore, List.cons_append] at hsplit
    have hmem : [] ∈ segments := by
      rw [(List.cons.inj hsplit).2]
      simp
    exact (h [] hmem).2 rfl

theorem head?_join (h : ∀ s ∈ segments, '/' ∉ s ∧ s ≠ []) :
    (join '/' segments).head? ≠ some '/' := by
  intro hhead
  obtain ⟨more, hmore⟩ := List.head?_eq_some_iff.1 hhead
  exact not_infix_join h (by rw [hmore]; exact ⟨[], more, rfl⟩)

/-- A root stays the root of what is put behind it in canonical form. -/
theorem Parted.canonical (h : Parted path root rest) (hsegments : ∀ s ∈ segments, IsSegment s) :
    Parted (root ++ join '/' segments) root (join '/' segments) := by
  have hpieces := pieces_of_segments hsegments
  have hmark : ¬schemeMark <:+: '/' :: join '/' segments := by
    intro hinside
    exact not_infix_join hpieces (List.IsInfix.trans ⟨[':'], [], rfl⟩ hinside)
  cases h with
  | scheme hscheme => exact .scheme hscheme
  | slash => exact .slash hmark
  | bare =>
    exact .bare (fun hinside => hmark (hinside.trans (List.suffix_cons _ _).isInfix))
      (head?_join hpieces)

/-- Settled segments behind their root are left as they are. -/
theorem normalize_join (h : Parted path root rest) (hsegments : Settled (!root.isEmpty) segments) :
    normalize (root ++ join '/' segments) = root ++ join '/' segments := by
  rw [normalize_eq (h.canonical hsegments.segment),
    steps_join (pieces_of_segments hsegments.segment), hsegments.settle_eq]

end Roots

section Folders

variable {folder : Text}

/-- A folder without the slashes at its end. -/
def trimSlashes (folder : Text) : Text := folder.rdropWhile (· = '/')

theorem trimSlashes_append (t u : Text) :
    trimSlashes (t ++ u) = if trimSlashes u = [] then trimSlashes t else t ++ trimSlashes u := by
  unfold trimSlashes List.rdropWhile
  rw [List.reverse_append, List.dropWhile_append]
  by_cases hu : u.reverse.dropWhile (· = '/') = []
  · rw [hu, List.isEmpty_nil, if_pos rfl, List.reverse_nil, if_pos rfl]
  · have hempty : (u.reverse.dropWhile (· = '/')).isEmpty = false := by simpa using hu
    rw [hempty, if_neg Bool.false_ne_true, List.reverse_append, List.reverse_reverse,
      if_neg (by simpa using hu)]

theorem steps_trimSlashes (t : Text) : steps (trimSlashes t) = steps t := steps_rdropWhile t

/-- What a path is put behind a folder with makes no step. -/
theorem steps_separated (colon : Prop) [Decidable colon] (t u : Text) :
    steps (t ++ (if colon then "//".toList else "/".toList) ++ u) = steps t ++ steps u := by
  rw [List.append_assoc]
  split
  · exact (steps_append t _).trans (congrArg (steps t ++ ·) (steps_cons_slash u))
  · exact steps_append t u

theorem joined_eq (folder path : Text) :
    Context.joined folder path = trimSlashes folder ++
      (if (trimSlashes folder).getLast? = some ':' then "//".toList else "/".toList) ++ path := rfl

/-- A path behind a folder with a scheme is in that scheme. Where trimming goes into the mark of the
scheme, the two slashes of the mark are put back. -/
theorem exists_joined_scheme (scheme rest path : Text) :
    ∃ rest', Context.joined (scheme ++ schemeMark ++ rest) path = scheme ++ schemeMark ++ rest' ∧
      steps rest' = steps rest ++ steps path := by
  by_cases hrest : trimSlashes rest = []
  · have htrim : trimSlashes (scheme ++ schemeMark ++ rest) = scheme ++ [':'] := by
      rw [trimSlashes_append, if_pos hrest, trimSlashes_append]
      rfl
    refine ⟨path, ?_, ?_⟩
    · rw [joined_eq, htrim, List.getLast?_concat, if_pos rfl, List.append_assoc scheme [':']]
      rfl
    · rw [← steps_trimSlashes rest, hrest, steps_nil, List.nil_append]
  · have htrim : trimSlashes (scheme ++ schemeMark ++ rest) =
        scheme ++ schemeMark ++ trimSlashes rest := by
      rw [trimSlashes_append, if_neg hrest]
    refine ⟨trimSlashes rest ++ (if (scheme ++ schemeMark ++ trimSlashes rest).getLast? = some ':'
      then "//".toList else "/".toList) ++ path, ?_, ?_⟩
    · rw [joined_eq, htrim]
      simp only [List.append_assoc]
    · rw [steps_separated, steps_trimSlashes]

namespace Context

/-- The path that is brought into canonical form: the import path itself, or behind its folder. -/
def located (context : Context) (path : Text) : Text :=
  if (indexOf? schemeMark path).isSome || path.head? = some '/' || context.folder.isEmpty then path
  else joined context.folder path

theorem resolve_eq_normalize (context : Context) (path : Text) :
    context.resolve path = normalize (context.located path) := by
  rw [resolve_eq]
  unfold located
  split
  · rfl
  · rfl

theorem located_of_relative (context : Context) (hmark : ¬schemeMark <:+: path)
    (hhead : path.head? ≠ some '/') :
    context.located path = if context.folder = [] then path else joined context.folder path := by
  unfold located
  rw [indexOf?_eq_none_iff.2 hmark]
  simp [hhead]

/-- A resolved path is a root and segments, where the root is that of the path that was resolved:
no segment is empty or `.`, a `..` stands only in front and only without a root, and segments that
are so from the start are kept. It is resolved for good, and stays in the scheme of the folder. -/
theorem resolve_canonical (context : Context) (path : Text) :
    (∃ root rest segments, Parted (context.located path) root rest ∧
      context.resolve path = root ++ join '/' segments ∧
      Settled (!root.isEmpty) segments ∧
      ∀ given, Settled (!root.isEmpty) given → rest = join '/' given → segments = given) ∧
    normalize (context.resolve path) = context.resolve path ∧
    ∀ scheme rest, ¬schemeMark <:+: scheme → context.folder = scheme ++ schemeMark ++ rest →
      ¬schemeMark <:+: path → path.head? ≠ some '/' →
        scheme ++ schemeMark <+: context.resolve path := by
  obtain ⟨root, rest, hparted⟩ := exists_parted (context.located path)
  have hresolve := context.resolve_eq_normalize path
  rw [normalize_eq hparted] at hresolve
  have hsettled := settled_steps (!root.isEmpty) rest
  refine ⟨⟨root, rest, _, hparted, hresolve, hsettled, ?_⟩, ?_, ?_⟩
  · intro given hgiven hrest
    rw [hrest, steps_join (pieces_of_segments hgiven.segment), hgiven.settle_eq]
  · rw [hresolve]
    exact normalize_join hparted hsettled
  · -- the root of what is joined is that of the folder, and steps never take it back
    intro scheme rest' hscheme hfolder hmark hhead
    have hne : context.folder ≠ [] := by simp [hfolder, schemeMark]
    obtain ⟨behind, hjoined, -⟩ := exists_joined_scheme scheme rest' path
    rw [resolve_eq_normalize, located_of_relative context hmark hhead, if_neg hne, hfolder, hjoined,
      normalize_eq (.scheme hscheme)]
    exact List.prefix_append _ _

theorem resolve_canonical_climbing :
    ¬schemeMark <:+: "../../a//./b/../c".toList ∧
      "res://".toList <+: (mk [] "res://ui".toList).resolve "../../a//./b/../c".toList :=
  ⟨by decide, (resolve_canonical (mk [] "res://ui".toList) "../../a//./b/../c".toList).2.2
    "res".toList "ui".toList (by decide) rfl (by decide) (by decide)⟩

end Context

end Folders

end NodeMarkup.Resource
