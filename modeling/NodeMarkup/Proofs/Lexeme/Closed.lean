import NodeMarkup.Proofs.Lexeme.Extent
/-!
Code that stands for itself. A reader of code goes through quoted runs and comments; the scan that
finds the end of a block goes through quoted runs alone.
-/
namespace NodeMarkup

/-- Where a reader of code stands: in a comment, or where a scan for quoted runs stands. -/
inductive CodeState where
  | text (quotes : QuoteState)
  | comment
deriving DecidableEq, Repr, Inhabited

/-- The state behind one more scalar value. A comment runs from a `#` outside every quoted run to
the end of its line. -/
def CodeState.next : CodeState → Char → CodeState
  | text quotes, c => if quotes = .code && c = '#' then comment else text (quotes.next c)
  | comment, c => if c = '\n' then text .code else comment

namespace Text

/-- A reader who comes to the text outside quoted runs and comments leaves it outside them. -/
def SelfContained (t : Text) : Prop := t.foldl CodeState.next (.text .code) = .text .code

/-- All quoted runs of the text are closed in it. -/
def Closed (t : Text) : Prop := t.foldl QuoteState.next .code = .code

instance (t : Text) : Decidable t.SelfContained := inferInstanceAs (Decidable (_ = _))

instance (t : Text) : Decidable t.Closed := inferInstanceAs (Decidable (_ = _))

/-- Each comment of the text ends with a line break of the text, and the quoted runs of the comment
are closed in it. With this the reader and the scan agree behind each comment. They can agree without
it as well, where two comments have one apostrophe each: the scan then takes the code between the two
for a quoted run, and still comes to the end in code. -/
def CommentsEnd : QuoteState → Text → Prop
  | _, [] => True
  | quotes, c :: rest =>
    (quotes = .code ∧ c = '#' → '\n' ∈ rest ∧ Closed (rest.takeWhile (· ≠ '\n'))) ∧
    CommentsEnd (quotes.next c) rest

instance CommentsEnd.decidable (quotes : QuoteState) :
    (t : Text) → Decidable (CommentsEnd quotes t)
  | [] => .isTrue trivial
  | c :: rest =>
    have := CommentsEnd.decidable (quotes.next c) rest
    inferInstanceAs (Decidable ((_ → _) ∧ _))

variable {s t : Text} {quotes : QuoteState}

theorem closed_nil : Closed [] := rfl

theorem Closed.append (hs : s.Closed) (ht : t.Closed) : Closed (s ++ t) := by
  unfold Closed at hs ht ⊢
  rw [List.foldl_append, hs, ht]

theorem closed_of_unquoted (h : ∀ c ∈ t, isQuote c = false) : t.Closed := by
  unfold Closed
  induction t with
  | nil => rfl
  | cons c t ih =>
    have hc : QuoteState.next .code c = .code := by simp [QuoteState.next, h c (by simp)]
    rw [List.foldl_cons, hc]
    exact ih fun d hd => h d (by simp [hd])

theorem CommentsEnd.drop (h : CommentsEnd quotes (s ++ t)) :
    CommentsEnd (s.foldl QuoteState.next quotes) t := by
  induction s generalizing quotes with
  | nil => exact h
  | cons c s ih => exact ih h.2

theorem commentsEnd_of_not_mem (h : '#' ∉ t) (quotes : QuoteState) : CommentsEnd quotes t := by
  induction t generalizing quotes with
  | nil => trivial
  | cons c t ih =>
    simp only [List.mem_cons, not_or] at h
    exact ⟨fun hc => absurd hc.2.symm h.1, ih h.2 _⟩

/-- A text with a line break, cut at the first one. -/
theorem exists_behind_line (h : '\n' ∈ t) :
    ∃ behind, t = t.takeWhile (· ≠ '\n') ++ '\n' :: behind := by
  induction t with
  | nil => cases h
  | cons c t ih =>
    by_cases hc : c = '\n'
    · exact ⟨t, by simp [hc]⟩
    · obtain ⟨behind, hbehind⟩ := ih (by simpa [Ne.symm hc] using h)
      refine ⟨behind, ?_⟩
      rw [List.takeWhile_cons_of_pos (by simpa using hc), List.cons_append, ← hbehind]

theorem foldl_comment {comment : Text} (h : '\n' ∉ comment) :
    comment.foldl CodeState.next .comment = .comment := by
  induction comment with
  | nil => rfl
  | cons c comment ih =>
    simp only [List.mem_cons, not_or] at h
    have hc : CodeState.next .comment c = .comment := if_neg (Ne.symm h.1)
    rw [List.foldl_cons, hc]
    exact ih h.2

section Comment

variable {comment behind : Text}

/-- A reader is behind a comment as he was before it. -/
theorem foldl_behind_comment (h : '\n' ∉ comment) :
    ('#' :: (comment ++ '\n' :: behind)).foldl CodeState.next (.text .code) =
      behind.foldl CodeState.next (.text .code) := by
  rw [List.foldl_cons, List.foldl_append, List.foldl_cons,
    show CodeState.next (.text .code) '#' = .comment from rfl, foldl_comment h]
  rfl

/-- So is the scan for quoted runs, which reads the comment like code. -/
theorem Closed.foldl_behind (h : comment.Closed) :
    ('#' :: (comment ++ ['\n'])).foldl QuoteState.next .code = .code := by
  unfold Closed at h
  rw [List.foldl_cons, List.foldl_append, show QuoteState.next .code '#' = .code from rfl, h]
  rfl

end Comment

/-- Where all comments end, a reader goes through the quoted runs like the scan for these. -/
theorem CommentsEnd.foldl_next (h : CommentsEnd quotes t) :
    t.foldl CodeState.next (.text quotes) = .text (t.foldl QuoteState.next quotes) := by
  -- a comment is read in one piece, so the induction is on the length of the text
  induction hlength : t.length using Nat.strongRecOn generalizing t quotes with
  | _ length ih =>
    cases t with
    | nil => rfl
    | cons c t =>
      by_cases hcomment : quotes = .code ∧ c = '#'
      · obtain ⟨rfl, rfl⟩ := hcomment
        obtain ⟨hbreak, hclosed⟩ := h.1 ⟨rfl, rfl⟩
        have hline : '\n' ∉ t.takeWhile (· ≠ '\n') := fun hmem => by
          simpa using List.all_eq_true.1 List.all_takeWhile _ hmem
        obtain ⟨behind, hsplit⟩ := exists_behind_line hbreak
        generalize t.takeWhile (· ≠ '\n') = comment at hclosed hline hsplit
        subst hsplit
        have hparts : '#' :: (comment ++ '\n' :: behind) =
            '#' :: (comment ++ ['\n']) ++ behind := by simp
        have hbehind : CommentsEnd .code behind := by
          rw [hparts] at h
          have hdrop := h.drop
          rwa [hclosed.foldl_behind] at hdrop
        have hless : behind.length < length := by
          rw [← hlength, hparts, List.length_append, List.length_cons]
          omega
        rw [foldl_behind_comment hline, ih _ hless hbehind rfl, hparts, List.foldl_append,
          hclosed.foldl_behind]
      · have hnext : CodeState.next (.text quotes) c = .text (quotes.next c) :=
          if_neg (by simpa using hcomment)
        have hless : t.length < length := by
          rw [← hlength, List.length_cons]
          exact Nat.lt_succ_self _
        rw [List.foldl_cons, List.foldl_cons, hnext]
        exact ih _ hless h.2 rfl

theorem Closed.selfContained (h : t.Closed) (hc : t.CommentsEnd .code) : t.SelfContained := by
  unfold Closed at h
  rw [SelfContained, CommentsEnd.foldl_next hc, h]

/-- Two comments with one apostrophe each. -/
example : let t : Text := "# a'\nb # c'\n".toList
    t.Closed ∧ t.SelfContained ∧ ¬t.CommentsEnd .code := by decide

theorem SelfContained.append (hs : s.SelfContained) (ht : t.SelfContained) :
    SelfContained (s ++ t) := by
  unfold SelfContained at hs ht ⊢
  rw [List.foldl_append, hs, ht]

section Unmarked

variable (h : ∀ c ∈ ['"', '\'', '#'], c ∉ t)
include h

theorem closed_of_unmarked : t.Closed := by
  apply closed_of_unquoted
  intro c hc
  simp only [isQuote, Bool.or_eq_false_iff, decide_eq_false_iff_not]
  constructor <;> rintro rfl <;> exact h _ (by simp) hc

theorem selfContained_of_unmarked : t.SelfContained :=
  (closed_of_unmarked h).selfContained (commentsEnd_of_not_mem (h '#' (by simp)) _)

end Unmarked

end Text

/-- The run that the scan is in was opened by a quote. -/
def QuoteState.Marked : QuoteState → Prop
  | code => True
  | quoted mark => Text.isQuote mark
  | escaped mark => Text.isQuote mark

namespace QuoteState

variable {state : QuoteState} {c : Char} {t : Text}

theorem Marked.next (h : state.Marked) (c : Char) : (state.next c).Marked := by
  cases state with
  | code =>
    rw [QuoteState.next]
    split
    · next hc => exact hc
    · trivial
  | quoted mark =>
    rw [QuoteState.next]
    split
    · exact h
    · split
      · trivial
      · exact h
  | escaped mark => exact h

theorem Marked.foldl (h : state.Marked) (t : Text) : (t.foldl QuoteState.next state).Marked := by
  induction t generalizing state with
  | nil => exact h
  | cons c t ih => exact ih (h.next c)

/-- Only a quote closes a run. -/
theorem Marked.eq_code (h : state.Marked) (hc : Text.isQuote c = false)
    (hnext : state.next c = .code) : state = .code := by
  cases state with
  | code => rfl
  | quoted mark =>
    have hmark : c ≠ mark := by
      rintro rfl
      exact absurd (show Text.isQuote c from h) (by simp [hc])
    rw [QuoteState.next, if_neg hmark] at hnext
    split at hnext <;> cases hnext
  | escaped mark => cases hnext

theorem Marked.eq_code_of_foldl (h : state.Marked) (ht : ∀ c ∈ t, Text.isQuote c = false)
    (hfold : t.foldl QuoteState.next state = .code) : state = .code := by
  induction t generalizing state with
  | nil => exact hfold
  | cons c t ih =>
    have hnext : state.next c = .code := ih (h.next c) (fun d hd => ht d (by simp [hd])) hfold
    exact h.eq_code (ht c (by simp)) hnext

end QuoteState

namespace Text

variable {s t : Text}

theorem isQuote_of_isBlank {c : Char} (h : isBlank c) : isQuote c = false := by
  simp only [isQuote, Bool.or_eq_false_iff, decide_eq_false_iff_not]
  constructor <;> rintro rfl <;> exact absurd h (by decide)

theorem Closed.of_append_right (h : Closed (s ++ t)) (hs : s.Closed) : t.Closed := by
  unfold Closed at hs h
  rwa [List.foldl_append, hs] at h

theorem Closed.of_append_left (h : Closed (s ++ t)) (ht : ∀ c ∈ t, isQuote c = false) :
    s.Closed := by
  unfold Closed at h
  rw [List.foldl_append] at h
  have hcode : QuoteState.Marked .code := trivial
  exact (hcode.foldl s).eq_code_of_foldl ht h

/-- Blanks at the ends of a text are no part of its quoted runs. -/
theorem Closed.trim (h : t.Closed) : (trim t).Closed := by
  -- blanks in front leave the scan in code, and those behind cannot have ended a run
  have hblank {u : Text} : ∀ c ∈ u.takeWhile isBlank, isQuote c = false := fun c hc =>
    isQuote_of_isBlank (List.all_eq_true.1 List.all_takeWhile c hc)
  have hstart : (trimStart t).Closed := by
    rw [← List.takeWhile_append_dropWhile (p := isBlank) (l := t)] at h
    exact h.of_append_right (closed_of_unquoted hblank)
  have hsplit : trimStart t =
      trimEnd (trimStart t) ++ ((trimStart t).reverse.takeWhile isBlank).reverse := by
    rw [trimEnd, ← List.reverse_append, List.takeWhile_append_dropWhile, List.reverse_reverse]
  rw [hsplit] at hstart
  exact hstart.of_append_left fun c hc => hblank c (List.mem_reverse.1 hc)

end Text

namespace Lexeme

variable {mark : Char} {t : Text} {n : Nat}

/-- A literal ends its quoted run, and no comment begins in it. -/
theorem closes_literalTail (hm : Text.isQuote mark) (h : literalTail mark t = some n) :
    (t.take n).foldl QuoteState.next (.quoted mark) = .code ∧
      Text.CommentsEnd (.quoted mark) (t.take n) := by
  have hescape : mark ≠ '\\' := by
    rintro rfl
    cases hm
  -- the scan stays inside the run up to its mark, so no `#` of the literal is met in code
  fun_induction literalTail mark t generalizing n with
  | case1 => simp at h
  | case2 => simp at h
  | case3 c t hbreak ih =>
    obtain ⟨k, hk, rfl⟩ := Option.map_eq_some_iff.1 h
    have hnext : (QuoteState.next (.quoted mark) '\\').next c = .quoted mark := by
      simp [QuoteState.next]
    rw [List.take_succ_cons, List.take_succ_cons, List.foldl_cons, List.foldl_cons, hnext]
    exact ⟨(ih hk).1, by simp, by simp [QuoteState.next], by rw [hnext]; exact (ih hk).2⟩
  | case4 t =>
    obtain rfl : 1 = n := by simpa using h
    simp [QuoteState.next, hescape, Text.CommentsEnd]
  | case5 => simp at h
  | case6 c t _ hc hplain ih =>
    obtain ⟨k, hk, rfl⟩ := Option.map_eq_some_iff.1 h
    simp only [Bool.or_eq_true, decide_eq_true_eq, not_or] at hplain
    have hnext : QuoteState.next (.quoted mark) c = .quoted mark := by
      simp [QuoteState.next, hplain.1, hc]
    rw [List.take_succ_cons, List.foldl_cons, hnext]
    exact ⟨(ih hk).1, by simp, by rw [hnext]; exact (ih hk).2⟩

theorem closes_lineLiteral (h : lineLiteral t = some n) :
    Text.Closed (t.take n) ∧ Text.CommentsEnd .code (t.take n) := by
  cases t with
  | nil => cases h
  | cons c t =>
    simp only [lineLiteral, Option.ite_none_right_eq_some] at h
    obtain ⟨hc, h⟩ := h
    obtain ⟨k, hk, rfl⟩ := Option.map_eq_some_iff.1 h
    obtain ⟨hclosed, hends⟩ := closes_literalTail hc hk
    have hnext : QuoteState.next .code c = .quoted c := if_pos hc
    have hcode : c ≠ '#' := by
      rintro rfl
      cases hc
    refine ⟨?_, fun h => absurd h.2 hcode, by rwa [hnext]⟩
    rw [Text.Closed, List.take_succ_cons, List.foldl_cons, hnext, hclosed]

theorem closes_quote {u : Text} (h : '\n' ∉ u) :
    (Text.quote u).Closed ∧ (Text.quote u).CommentsEnd .code := by
  have hquote := closes_lineLiteral (lineLiteral_quote h)
  rwa [List.take_length] at hquote

/-- The delimiter that closes a block stands outside every quoted run. -/
theorem foldl_take_of_blockLength {opening closing : Char} {state : QuoteState} {depth : Nat}
    (h : blockLength opening closing state depth t = some n) :
    (t.take n).foldl QuoteState.next state = .code := by
  fun_induction blockLength opening closing state depth t generalizing n with
  | case1 => simp at h
  | case2 depth c t hquote ih =>
    obtain ⟨k, hk, rfl⟩ := Option.map_eq_some_iff.1 h
    simp [QuoteState.next, hquote, ih hk]
  | case3 depth t hquote ih =>
    obtain ⟨k, hk, rfl⟩ := Option.map_eq_some_iff.1 h
    simp [QuoteState.next, hquote, ih hk]
  | case4 t hquote hne =>
    obtain rfl : 0 = n := by simpa using h
    rfl
  | case5 t depth hquote hne ih =>
    obtain ⟨k, hk, rfl⟩ := Option.map_eq_some_iff.1 h
    simp [QuoteState.next, hquote, ih hk]
  | case6 depth c t hquote hopening hclosing ih =>
    obtain ⟨k, hk, rfl⟩ := Option.map_eq_some_iff.1 h
    simp [QuoteState.next, hquote, ih hk]
  | case7 state depth c t hcode ih =>
    obtain ⟨k, hk, rfl⟩ := Option.map_eq_some_iff.1 h
    simpa using ih hk

end Lexeme

end NodeMarkup
