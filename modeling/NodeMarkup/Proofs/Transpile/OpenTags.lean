import NodeMarkup.Proofs.Grammar.LineLiterals
import NodeMarkup.Proofs.Node.Guarded
import NodeMarkup.Proofs.Token.Passing
import NodeMarkup.Proofs.Transpile.Tags

namespace NodeMarkup

variable {context : Resource.Context} {declarations : Declarations} {lines : Text}

namespace Assembly

theorem length_stack_attach (node : Node) (a : Assembly) :
    (a.attach declarations node).stack.length = a.stack.length := by
  rw [attach_eq]
  split
  · rfl
  · next h => rw [h]; rfl

/-- A token that is not refused changes the number of open nodes as it changes the count of open
tags. A closing tag finds a node to close, so the count does not stay at zero. -/
theorem length_stack_addToken {a b : Assembly} {token : Token}
    (h : a.addToken context declarations token = .ok b) :
    b.stack.length = token.openTags a.stack.length := by
  cases token with
  | ofVariable header =>
    cases h
    rfl
  | ofFunction header =>
    cases h
    rfl
  | ofImport i =>
    simp only [addToken_ofImport, addImport_eq] at h
    split at h
    · cases h
      rfl
    · cases h
  | ofTag tag =>
    obtain ⟨hkind, rfl⟩ | ⟨hkind, rfl⟩ | ⟨hkind, node, rest, hstack, -, rfl⟩ := addTag_cases h
    · simp [Token.openTags, hkind]
    · simp [Token.openTags, hkind, length_stack_attach]
    · simp [Token.openTags, hkind, hstack, length_stack_attach]

theorem length_stack_run {a b : Assembly} {tokens : List Token}
    (h : a.run context declarations tokens = .ok b) :
    b.stack.length = tokens.foldl Token.openTags a.stack.length := by
  induction tokens generalizing a with
  | nil =>
    cases h
    rfl
  | cons token tokens ih =>
    obtain ⟨a', hstep, hrun⟩ := run_cons_ok h
    rw [List.foldl_cons, ← length_stack_addToken hstep, ih hrun]

end Assembly

theorem Scan.openTags_next (s : Scan) :
    s.next.2.openTags =
      match s.next.1 with
      | .hit token => token.openTags s.openTags
      | _ => s.openTags := by
  rw [next_eq]
  split
  · rfl
  · split
    · rfl
    · next hother _ =>
      split
      · next heq => exact absurd heq (hother _)
      · rfl

theorem Scan.openTags_take (n : Nat) (s : Scan) :
    (s.take n).2.2.openTags = (s.take n).1.foldl Token.openTags s.openTags := by
  induction n generalizing s with
  | zero => rfl
  | succ n ih =>
    have hnext := s.openTags_next
    rw [take_succ]
    rcases hrun : s.next with ⟨token | _ | x, s'⟩ <;> rw [hrun] at hnext
    · have hrest := ih s'
      rw [hnext] at hrest
      exact hrest
    · exact hnext
    · exact hnext

namespace Lexeme

variable {run : Text}

theorem literal_of_singleQuoted (hhead : run.head? = some '\'') (h : IsLineLiteral run)
    (behind : Text) : literal (run ++ behind) = some run.length := by
  have hline := lineLiteral_append (isLineLiteral_iff.1 h) behind
  obtain ⟨tail, rfl⟩ := List.head?_eq_some_iff.1 hhead
  have htriple : tripleLiteral ('\'' :: tail ++ behind) = none := by
    simp [tripleLiteral, Pattern.andThen, Pattern.word, tripleMark]
  rw [literal, Pattern.orElse, htriple]
  exact hline

/-- Both marks of the run belong to it. -/
theorem two_le_length_of_isLineLiteral (h : IsLineLiteral run) : 2 ≤ run.length := by
  obtain ⟨mark, body, -, -, rfl⟩ := h
  simp

end Lexeme

/-- A run between single quotes is a literal in code; elsewhere its first quote stands alone. -/
theorem unrecognisedLength_of_singleQuoted {run : Text} (hhead : run.head? = some '\'')
    (h : Lexeme.IsLineLiteral run) (inCode : Bool) (behind : Text) :
    unrecognisedLength inCode (run ++ behind) = if inCode then run.length else 1 := by
  have hliteral := Lexeme.literal_of_singleQuoted hhead h behind
  obtain ⟨tail, rfl⟩ := List.head?_eq_some_iff.1 hhead
  have hword : Text.isWord '\'' = false := by decide +kernel
  rw [List.cons_append] at hliteral ⊢
  cases inCode with
  | true => simp [unrecognisedLength, hliteral]
  | false => simp [unrecognisedLength, hword]

/-- The scan for the next token and the assembly of all tokens before it go in step. -/
structure InStep (lines : Text) (scan : Scan) (a : Assembly) : Prop where
  openTags : scan.openTags = a.stack.length
  -- Where the search comes to a run between single quotes, it goes on behind the run if no node is
  -- open, and behind the first quote otherwise, which is not as far.
  quoted : ∀ (e : Engine) (c : Cursor) (run behind : Text), e.Between lines → c.IsPlace lines →
    run.head? = some '\'' → Lexeme.IsLineLiteral run → c.rest = run ++ behind →
    e.seek scan.openTags c = e.seek scan.openTags
        (if a.stack = [] then c.advanceBy run.length else c.advance) ∧
      c.advance.position < (c.advanceBy run.length).position

theorem inStep_of_openTags {scan : Scan} {a : Assembly} (h : scan.openTags = a.stack.length) :
    InStep lines scan a := by
  refine ⟨h, ?_⟩
  intro e c run behind he hc hhead hrun hrest
  obtain ⟨tail, rfl⟩ := List.head?_eq_some_iff.1 hhead
  have hne : c.rest ≠ [] := by simp [hrest]
  have hcode : c.skipIgnorable = c := by
    rw [Cursor.skipIgnorable, hrest]
    rfl
  constructor
  · have hroom : c.rest.length ≤ e.source.length := by
      rw [he.source_eq]
      obtain ⟨before, hsplit, -⟩ := hc.split
      simp [hsplit]
    have hmiss : Misses c.skipIgnorable.rest Grammar.token := by
      rw [hcode, hrest]
      exact Grammar.misses_token_of_quote (.inr rfl)
    rw [Engine.seek_unrecognised he.outer_eq hroom (by simpa [hcode, Cursor.atEnd] using hne) hmiss,
      hcode, Cursor.skipUnrecognised, hrest, unrecognisedLength_of_singleQuoted hhead hrun, h]
    cases a.stack with
    | nil => rfl
    | cons node rest =>
      rw [if_neg (by simp), if_neg (by simp), Cursor.advanceBy_succ, Cursor.advanceBy_zero]
  · have htail : 0 < tail.length := Nat.lt_of_succ_le
      (Nat.le_of_succ_le_succ (Lexeme.two_le_length_of_isLineLiteral hrun))
    rw [List.length_cons, Cursor.advanceBy_succ]
    apply Cursor.position_lt_advanceBy htail
    rw [Cursor.rest_advance, hrest]
    simp [List.ne_nil_of_length_pos htail]

/-- The second pass over a source as far as its first `n` tokens: how the scan stopped, the scan,
and the assembly of the tokens. -/
def secondPass (context : Resource.Context) (source : Text) (n : Nat) :
    Except ParseError (ScanEnd × Scan × Assembly) := do
  let (declarations, first) ← (Scan.start source).declarations
  let (tokens, stop, scan) := (Scan.again first.engine).take n
  let assembly ← tokens.foldlM (Assembly.addToken context declarations) (.ofSource source)
  return (stop, scan, assembly)

theorem Scan.again_of_declarations {source : Text} {first : Scan}
    (h : (Scan.start source).declarations = .ok (declarations, first)) :
    Scan.again first.engine = Scan.start source := by
  have hfirst : (Scan.start source).drain.2.2 = first := by
    rw [Scan.declarations_eq] at h
    cases hstop : (Scan.start source).drain.2.1 with
    | failed x =>
      rw [hstop] at h
      cases h
    | limit =>
      rw [hstop] at h
      cases h
      rfl
    | finished =>
      rw [hstop] at h
      cases h
      rfl
  rw [← hfirst, Scan.again_drain]

theorem secondPass_of_declarations (context : Resource.Context) {source : Text} {first : Scan}
    (h : (Scan.start source).declarations = .ok (declarations, first)) (n : Nat) :
    secondPass context source n =
      ((Assembly.ofSource source).run context declarations ((Scan.start source).take n).1).map
        fun a => (((Scan.start source).take n).2.1, ((Scan.start source).take n).2.2, a) := by
  unfold secondPass
  rw [h, ← Scan.again_of_declarations h]
  rfl

/-- The whole of the second pass is that with as many tokens as the source can have. -/
theorem transpileLines_eq_secondPass (context : Resource.Context) (source : Text) :
    transpileLines context source = (do
      let (stop, _, assembly) ← secondPass context source (source.length + 1)
      stop.check
      assembly.finish) := by
  cases hfirst : (Scan.start source).declarations with
  | error x =>
    unfold secondPass
    rw [transpileLines_eq, hfirst]
    rfl
  | ok found =>
    obtain ⟨declarations, first⟩ := found
    rw [secondPass_of_declarations context hfirst]
    rw [transpileLines_eq, hfirst]
    change (do
      let assembly ← (Assembly.ofSource source).run context declarations
        (Scan.again first.engine).drain.1
      (Scan.again first.engine).drain.2.1.check
      assembly.finish) = _
    have hdrain : (Scan.start source).drain = (Scan.start source).take (source.length + 1) := rfl
    rw [Scan.again_of_declarations hfirst, hdrain]
    cases (Assembly.ofSource source).run context declarations
      ((Scan.start source).take (source.length + 1)).1 <;> rfl

theorem secondPass_ok {source : Text} {n : Nat} {stop : ScanEnd} {scan : Scan} {a : Assembly}
    (h : secondPass context source n = .ok (stop, scan, a)) :
    ∃ declarations, scan = ((Scan.start source).take n).2.2 ∧
      (Assembly.ofSource source).run context declarations ((Scan.start source).take n).1 =
        .ok a := by
  cases hfirst : (Scan.start source).declarations with
  | error x =>
    unfold secondPass at h
    rw [hfirst] at h
    cases h
  | ok found =>
    obtain ⟨declarations, first⟩ := found
    rw [secondPass_of_declarations context hfirst] at h
    cases hrun : (Assembly.ofSource source).run context declarations
        ((Scan.start source).take n).1 with
    | error x =>
      rw [hrun] at h
      cases h
    | ok b =>
      rw [hrun] at h
      cases h
      exact ⟨declarations, rfl, hrun⟩

/-- The code of a source comes from its second pass, and after any number of tokens of that pass,
none of which was refused, the count of open tags is the number of nodes that are open. So it
decides what a single quote is as the tree does that is being built. -/
theorem openTags_inStep (context : Resource.Context) (source : Text) :
    let lines := Text.unifyLineBreaks source
    (transpileIn context source = (do
      let (stop, _, assembly) ← secondPass context lines (lines.length + 1)
      stop.check
      assembly.finish)) ∧
    ∀ (n : Nat) (stop : ScanEnd) (scan : Scan) (a : Assembly),
      secondPass context lines n = .ok (stop, scan, a) → InStep lines scan a := by
  refine ⟨transpileLines_eq_secondPass context _, ?_⟩
  intro n stop scan a h
  obtain ⟨declarations, rfl, hrun⟩ := secondPass_ok h
  apply inStep_of_openTags
  rw [Scan.openTags_take, Assembly.length_stack_run hrun]
  rfl

/-- In the body of a tag, the search goes into a run between single quotes. -/
theorem openTags_inStep_apostrophe :
    let source := "'<A/>'<B>'<A/>'</B>".toList
    let c := (Cursor.start source).advanceBy 9
    ∃ stop scan a, secondPass .root source 1 = .ok (stop, scan, a) ∧ a.stack.length = 1 ∧
      scan.openTags = 1 ∧ scan.engine.seek 1 c = scan.engine.seek 1 c.advance := by
  intro source c
  have hopen : (secondPass .root source 1).toOption.map (fun pass => pass.2.2.stack.length) =
      some 1 := by decide +kernel
  cases hpass : secondPass .root source 1 with
  | error x =>
    rw [hpass] at hopen
    cases hopen
  | ok pass =>
    obtain ⟨stop, scan, a⟩ := pass
    rw [hpass] at hopen
    have hlength : a.stack.length = 1 := Option.some.inj hopen
    have hstep := (openTags_inStep .root source).2 1 stop scan a hpass
    have htags : scan.openTags = 1 := hstep.openTags.trans hlength
    obtain ⟨_, rfl, -⟩ := secondPass_ok hpass
    have hbetween : ((Scan.start source).take 1).2.2.engine.Between source :=
      (Scan.yields_take 1 (Engine.between_start source) rfl).between
    have hseek := (hstep.quoted _ c "'<A/>'".toList "</B>".toList hbetween
      (Cursor.reaches_advanceBy 9 _) rfl (Lexeme.isLineLiteral_iff.2 (by decide +kernel))
      (by decide +kernel)).1
    rw [if_neg (List.ne_nil_of_length_eq_add_one hlength), htags] at hseek
    exact ⟨stop, _, a, rfl, hlength, htags, hseek⟩

end NodeMarkup
