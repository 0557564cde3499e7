import NodeMarkup.Proofs.Lexeme.Nesting
import NodeMarkup.Proofs.Match.Reading
/-!
The grammar of delimited code. The engine finds the end of a block by one scan that counts
delimiters and knows whether it is in a quoted run; the grammar builds balanced code from quoted
runs and from balanced code between delimiters.
-/
namespace NodeMarkup

namespace Lexeme

/-- The rest of a quoted run through the quote that ends it. A backslash hides the scalar value
behind it. -/
inductive RunTail (mark : Char) : Text → Prop where
  | close : RunTail mark [mark]
  | hidden (c : Char) {t : Text} (tail : RunTail mark t) : RunTail mark ('\\' :: c :: t)
  | plain {c : Char} {t : Text} (shown : c ≠ '\\') (inside : c ≠ mark) (tail : RunTail mark t) :
      RunTail mark (c :: t)

/-- Code whose quoted runs are closed and whose delimiters are nested. -/
inductive Balanced (opening closing : Char) : Text → Prop where
  | nil : Balanced opening closing []
  | plain {c : Char} {t : Text} (unquoted : Text.isQuote c = false) (opens : c ≠ opening)
      (closes : c ≠ closing) (rest : Balanced opening closing t) :
      Balanced opening closing (c :: t)
  | quoted {mark : Char} {run t : Text} (quote : Text.isQuote mark = true)
      (tail : RunTail mark run) (rest : Balanced opening closing t) :
      Balanced opening closing (mark :: run ++ t)
  | nested {w t : Text} (inner : Balanced opening closing w) (rest : Balanced opening closing t) :
      Balanced opening closing (opening :: w ++ closing :: t)

variable {opening closing mark : Char} {w t : Text} {depth n : Nat}

section Scan

/-- A scan leaves a quoted run at its end, and has met no delimiter in it. -/
theorem RunTail.scan (h : RunTail mark w) (hmark : Text.isQuote mark) (b : Brackets)
    (depth : Nat) : w.foldlM b.next (.quoted mark, depth) = some (.code, depth) := by
  induction h with
  | close =>
    have hescape : mark ≠ '\\' := by
      rintro rfl
      cases hmark
    simp [Brackets.next, QuoteState.next, hescape]
  | hidden c _ ih => simpa [Brackets.next, QuoteState.next] using ih
  | plain shown inside _ ih => simpa [Brackets.next, QuoteState.next, shown, inside] using ih

variable (hne : opening ≠ closing) (ho : Text.isQuote opening = false)
  (hc : Text.isQuote closing = false)
include hne ho hc

/-- A scan passes over balanced code at any depth, and is behind it as it was before. -/
theorem Balanced.scan (h : Balanced opening closing w) (depth : Nat) :
    w.foldlM (Brackets.pair opening closing).next (.code, depth) = some (.code, depth) := by
  induction h generalizing depth with
  | nil => rfl
  | plain unquoted opens closes _ ih =>
    simpa [Brackets.next, Brackets.pair, unquoted, opens, closes] using ih depth
  | quoted quote tail _ ih =>
    have hrun := tail.scan quote (Brackets.pair opening closing) depth
    simp [Brackets.next, quote, hrun, ih depth]
  | nested _ _ ihInner ihRest =>
    have hopening : (Brackets.pair opening closing).next (.code, depth) opening =
        some (.code, depth + 1) := by simp [Brackets.next, Brackets.pair, ho]
    have hclosing : (Brackets.pair opening closing).next (.code, depth + 1) closing =
        some (.code, depth) := by simp [Brackets.next, Brackets.pair, hc, Ne.symm hne]
    simp [hopening, ihInner (depth + 1), hclosing, ihRest depth]

end Scan

/-- Code that closes `depth` delimiters which were opened before it, and is balanced between
them. -/
inductive Closes (opening closing : Char) : Nat → Text → Prop where
  | balanced {w : Text} (h : Balanced opening closing w) : Closes opening closing 0 w
  | behind {w t : Text} {depth : Nat} (h : Balanced opening closing w)
      (rest : Closes opening closing depth t) :
      Closes opening closing (depth + 1) (w ++ closing :: t)

/-- What may stand before balanced code may stand before code that closes delimiters. -/
theorem Closes.prepend (item : Text)
    (hitem : ∀ u, Balanced opening closing u → Balanced opening closing (item ++ u))
    (h : Closes opening closing depth t) : Closes opening closing depth (item ++ t) := by
  cases h with
  | balanced h => exact .balanced (hitem _ h)
  | behind h rest =>
    rw [← List.append_assoc]
    exact .behind (hitem _ h) rest

/-- An opening delimiter before such code is closed by the first delimiter that the code closes. -/
theorem Closes.opened (h : Closes opening closing (depth + 1) t) :
    Closes opening closing depth (opening :: t) := by
  cases h with
  | @behind w t _ h rest =>
    have hparts : opening :: (w ++ closing :: t) = (opening :: w ++ [closing]) ++ t := by simp
    rw [hparts]
    apply rest.prepend
    intro u hu
    have hnested := Balanced.nested h hu
    rwa [show opening :: w ++ closing :: u = opening :: w ++ [closing] ++ u by simp] at hnested

/-- What a scan has still to read up to the end of the block, by where it stands. -/
def Remains (opening closing : Char) (depth : Nat) : QuoteState → Text → Prop
  | .code, t => Closes opening closing depth t
  | .quoted mark, t => ∃ run rest, t = run ++ rest ∧ RunTail mark run ∧
      Closes opening closing depth rest
  | .escaped mark, t => ∃ c run rest, t = c :: run ++ rest ∧ RunTail mark run ∧
      Closes opening closing depth rest

/-- Inside a quoted run every scalar value is part of the run. -/
theorem Remains.cons {state : QuoteState} {c : Char} (hstate : state ≠ .code)
    (h : Remains opening closing depth (state.next c) t) :
    Remains opening closing depth state (c :: t) := by
  cases state with
  | code => exact absurd rfl hstate
  | escaped mark =>
    obtain ⟨run, rest, rfl, hrun, hrest⟩ := h
    exact ⟨c, run, rest, rfl, hrun, hrest⟩
  | quoted mark =>
    rw [QuoteState.next] at h
    split at h
    · next hescape =>
      obtain ⟨d, run, rest, rfl, hrun, hrest⟩ := h
      exact ⟨c :: d :: run, rest, rfl, hescape ▸ .hidden d hrun, hrest⟩
    · next hescape =>
      split at h
      · next hmark => exact ⟨[c], t, rfl, hmark ▸ .close, h⟩
      · next hmark =>
        obtain ⟨run, rest, rfl, hrun, hrest⟩ := h
        exact ⟨c :: run, rest, rfl, .plain hescape hmark hrun, hrest⟩

/-- What a scan reads up to the end of a block is balanced but for the delimiters that were open. -/
theorem remains_of_blockLength {state : QuoteState}
    (h : blockLength opening closing state depth t = some n) :
    Remains opening closing depth state (t.take n) := by
  fun_induction blockLength opening closing state depth t generalizing n with
  | case1 => cases h
  | case2 depth c t hquote ih =>
    obtain ⟨k, hk, rfl⟩ := Option.map_eq_some_iff.1 h
    obtain ⟨run, rest, htake, hrun, hrest⟩ := ih hk
    rw [List.take_succ_cons, htake]
    exact hrest.prepend (c :: run) fun _ hu => .quoted hquote hrun hu
  | case3 depth t hquote ih =>
    obtain ⟨k, hk, rfl⟩ := Option.map_eq_some_iff.1 h
    exact Closes.opened (ih hk)
  | case4 t =>
    obtain rfl : 0 = n := Option.some.inj h
    exact .balanced .nil
  | case5 t depth hquote hne ih =>
    obtain ⟨k, hk, rfl⟩ := Option.map_eq_some_iff.1 h
    exact .behind .nil (ih hk)
  | case6 depth c t hquote hopening hclosing ih =>
    obtain ⟨k, hk, rfl⟩ := Option.map_eq_some_iff.1 h
    have hunquoted : Text.isQuote c = false := by simpa using hquote
    exact (ih hk).prepend [c] fun _ hu => .plain hunquoted hopening hclosing hu
  | case7 state depth c t hcode ih =>
    obtain ⟨k, hk, rfl⟩ := Option.map_eq_some_iff.1 h
    exact (ih hk).cons (by simpa using hcode)

/-- The scan for the end of a block finds the closing delimiter behind balanced code, and no
other. -/
theorem blockLength_eq_some_iff (hne : opening ≠ closing) (ho : Text.isQuote opening = false)
    (hc : Text.isQuote closing = false) :
    blockLength opening closing .code 0 t = some n ↔
      ∃ w rest, t = w ++ closing :: rest ∧ n = w.length ∧ Balanced opening closing w := by
  constructor
  · intro h
    obtain ⟨w, rest, rfl, rfl⟩ := eq_of_blockLength h
    have hremains := remains_of_blockLength h
    rw [List.take_left] at hremains
    cases hremains with
    | balanced hw => exact ⟨w, rest, rfl, rfl, hw⟩
  · rintro ⟨w, rest, rfl, rfl, hw⟩
    exact blockLength_of_nested (hw.scan hne ho hc 0) hne hc rest

/-- The text is balanced code between delimiters, and what follows it. -/
structure Block (opening closing : Char) (t w rest : Text) : Prop where
  text : t = opening :: (w ++ closing :: rest)
  balanced : Balanced opening closing w

theorem Block.current {c : Cursor} {rest : Text} (h : Block opening closing c.rest w rest) :
    c.current? = some opening := by
  rw [Cursor.current?, h.text, List.head?_cons]

section Unique

variable (hne : opening ≠ closing) (ho : Text.isQuote opening = false)
  (hc : Text.isQuote closing = false)
include hne ho hc

theorem Block.blockLength {rest : Text} (h : Block opening closing t w rest) :
    blockLength opening closing .code 0 t.tail = some w.length := by
  rw [h.text, List.tail_cons, blockLength_eq_some_iff hne ho hc]
  exact ⟨w, rest, rfl, rfl, h.balanced⟩

/-- The end of a block is decided by the scan, so there is only one. -/
theorem Block.unique {rest w' rest' : Text} (h : Block opening closing t w rest)
    (h' : Block opening closing t w' rest') : w' = w ∧ rest' = rest := by
  have hlength : w'.length = w.length := by
    have hsame := (h'.blockLength hne ho hc).symm.trans (h.blockLength hne ho hc)
    exact Option.some.inj hsame
  have htext : w' ++ closing :: rest' = w ++ closing :: rest :=
    (List.cons.inj (h'.text.symm.trans h.text)).2
  obtain ⟨hw, hrest⟩ := List.append_inj htext hlength
  exact ⟨hw, (List.cons.inj hrest).2⟩

end Unique

end Lexeme

open Lexeme

/-- Everything that the engine can make of the delimiters where nothing is owed: there is no block,
one that does not end, or one with balanced code in it. -/
theorem Engine.delimited_cases {opening closing : Char} (hne : opening ≠ closing)
    (ho : Text.isQuote opening = false) (hc : Text.isQuote closing = false) {e : Engine}
    (hf : e.frame.failed = false) (howed : e.frame.obligation = none) :
    (e.cursor.current? ≠ some opening ∧
      e.delimited opening closing = missed none { e with frame := e.frame.settled }) ∨
    (e.cursor.current? = some opening ∧
      (¬∃ w rest, Block opening closing e.cursor.rest w rest) ∧
      e.delimited opening closing =
        (.error (.ofCursor (.unclosedBlock closing) e.cursor.advance),
          { e with frame := e.frame.settled })) ∨
    ∃ w rest, Block opening closing e.cursor.rest w rest ∧
      e.delimited opening closing =
        (.hit ⟨w, ⟨e.cursor.advance, e.cursor.advance.advanceBy w.length⟩⟩,
          { e with frame := e.behindBlock w.length }) := by
  by_cases hopening : e.cursor.current? = some opening
  · refine .inr ?_
    have hrest : e.cursor.rest = opening :: e.cursor.advance.rest := by
      obtain ⟨inside, hinside⟩ := List.head?_eq_some_iff.1 hopening
      rw [Cursor.rest_advance, hinside, List.tail_cons]
    cases hlength : blockLength opening closing .code 0 e.cursor.advance.rest with
    | none =>
      refine .inl ⟨hopening, ?_, delimited_of_unclosed hf hopening hlength⟩
      rintro ⟨w, rest, hblock⟩
      have hfound := hblock.blockLength hne ho hc
      rw [← Cursor.rest_advance, hlength] at hfound
      cases hfound
    | some n =>
      obtain ⟨w, rest, hinside, rfl, hw⟩ := (blockLength_eq_some_iff hne ho hc).1 hlength
      have hrun := delimited_of_block hf hopening hlength
      have htake : e.cursor.advance.rest.take w.length = w := by rw [hinside, List.take_left]
      rw [htake] at hrun
      exact .inr ⟨w, rest, ⟨by rw [hrest, hinside], hw⟩, hrun⟩
  · have hrun : e.delimited opening closing = _ := delimited_of_other hf hopening
    rw [howed] at hrun
    exact .inl ⟨hopening, hrun⟩

/-- What the engine makes of the delimiters, by the text that it has before it. -/
structure Engine.Delimits (opening closing : Char) (e : Engine) : Prop where
  -- A hit says that there is a block, and the other way round.
  hit : (∃ capture, (e.delimited opening closing).1 = .hit capture) ↔
    ∃ w rest, Block opening closing e.cursor.rest w rest
  -- There is one block at most. Its code is captured without the delimiters, and what follows it is
  -- read next.
  block : ∀ w rest, Block opening closing e.cursor.rest w rest →
    (∀ w' rest', Block opening closing e.cursor.rest w' rest' → w' = w ∧ rest' = rest) ∧
    let inner : Range := ⟨e.cursor.advance, e.cursor.advance.advanceBy w.length⟩
    (e.delimited opening closing).1 = .hit ⟨w, inner⟩ ∧ inner.text = w ∧
    (e.delimited opening closing).2.cursor = inner.stop.advance ∧ inner.stop.advance.rest = rest
  -- An error says that a block begins that does not end.
  error : (∃ x, (e.delimited opening closing).1 = .error x) ↔
    e.cursor.current? = some opening ∧ ¬∃ w rest, Block opening closing e.cursor.rest w rest
  -- The error stands behind the opening delimiter.
  place : ∀ x, (e.delimited opening closing).1 = .error x →
    x = ⟨.unclosedBlock closing, e.cursor.advance.line + 1, e.cursor.advance.column + 1⟩
  -- Where no block begins nothing is read.
  miss : (e.delimited opening closing).1 = .miss ↔ e.cursor.current? ≠ some opening
  stays : (e.delimited opening closing).1 = .miss →
    (e.delimited opening closing).2.cursor = e.cursor ∧
    (e.delimited opening closing).2.frame.captures = e.frame.captures

/-- The engine reads exactly the blocks of the grammar. -/
theorem Engine.delimits (opening closing : Char) (hne : opening ≠ closing)
    (ho : Text.isQuote opening = false) (hc : Text.isQuote closing = false) (e : Engine)
    (hf : e.frame.failed = false) (howed : e.frame.obligation = none) :
    e.Delimits opening closing := by
  rcases delimited_cases hne ho hc hf howed with
    ⟨hother, hrun⟩ | ⟨hopening, hnone, hrun⟩ | ⟨w, rest, hblock, hrun⟩
  · have hnone : ¬∃ w rest, Block opening closing e.cursor.rest w rest :=
      fun ⟨_, _, hblock⟩ => hother hblock.current
    have hmiss : (e.delimited opening closing).1 = .miss := by rw [hrun]; rfl
    constructor
    case hit => simp [hmiss, hnone]
    case block => exact fun w rest hblock => absurd ⟨w, rest, hblock⟩ hnone
    case error => simp [hmiss, hother]
    case place => simp [hmiss]
    case miss => simp [hmiss, hother]
    case stays =>
      intro _
      rw [hrun, missed_engine]
      exact ⟨rfl, rfl⟩
  · constructor
    case hit => simp [hrun, hnone]
    case block => exact fun w rest hblock => absurd ⟨w, rest, hblock⟩ hnone
    case error => simp [hrun, hopening, hnone]
    case place => simp [hrun, ParseError.ofCursor]
    case miss => simp [hrun, hopening]
    case stays => simp [hrun]
  · have hsome : ∃ w rest, Block opening closing e.cursor.rest w rest := ⟨w, rest, hblock⟩
    constructor
    case hit => simp [hrun, hsome]
    case error => simp [hrun, hsome]
    case place => simp [hrun]
    case miss => simp [hrun, hblock.current]
    case stays => simp [hrun]
    case block =>
      intro v behind hblock'
      obtain ⟨rfl, rfl⟩ := hblock'.unique hne ho hc hblock
      refine ⟨fun _ _ h => hblock.unique hne ho hc h, ?_⟩
      refine ⟨by rw [hrun], ?_, by rw [hrun]; rfl, ?_⟩
      · simp [Range.text, hblock.text]
      · simp [hblock.text]

/-- A block with a quoted run in it, where a delimiter and a hidden quote stand, and with another
block. -/
theorem Engine.delimits_quoted :
    let w := ['"', ')', '\\', '"', '"', '(', 'a', ')']
    let e := Engine.start ('(' :: (w ++ [')', 'b']))
    e.frame.failed = false ∧ e.frame.obligation = none ∧ e.Delimits '(' ')' ∧
      Block '(' ')' e.cursor.rest w ['b'] ∧
      (e.delimited '(' ')').1 = .hit ⟨w, e.cursor.advance, e.cursor.advance.advanceBy 8⟩ := by
  intro w e
  have hdelimits : e.Delimits '(' ')' :=
    Engine.delimits '(' ')' (by decide) (by decide) (by decide) e rfl rfl
  have hrun : RunTail '"' [')', '\\', '"', '"'] :=
    .plain (by decide) (by decide) (.hidden '"' .close)
  have hinner : Balanced '(' ')' ['a'] := .plain (by decide) (by decide) (by decide) .nil
  have hw : Balanced '(' ')' w := .quoted (by decide) hrun (.nested hinner .nil)
  have hblock : Block '(' ')' e.cursor.rest w ['b'] := ⟨rfl, hw⟩
  exact ⟨rfl, rfl, hdelimits, hblock, (hdelimits.block w ['b'] hblock).2.1⟩

end NodeMarkup
