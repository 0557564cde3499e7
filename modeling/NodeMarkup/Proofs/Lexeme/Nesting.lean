import NodeMarkup.Proofs.Source.Line
import NodeMarkup.Proofs.Lexeme.Extent
/-!
Nested code: what a scan that counts brackets outside quoted runs passes over. One step function
serves blocks, where one pair of brackets counts, and default values, where all of them count and a
`,` outside them ends the scan.
-/
namespace NodeMarkup.Lexeme

/-- The brackets that a scan counts, and what ends the scan outside all of them. -/
structure Brackets where
  opens : Char → Bool
  closes : Char → Bool
  ends : Char → Bool

namespace Brackets

/-- One pair of brackets. -/
def pair (opening closing : Char) : Brackets := ⟨(· = opening), (· = closing), fun _ => false⟩

/-- The brackets of an expression in a list of expressions. -/
def expression : Brackets := ⟨isOpening, isClosing, (· = ',')⟩

/-- The scan behind one more scalar value, together with the number of open brackets. There is none
behind a closing bracket that was not opened and behind what ends the scan. -/
def next (b : Brackets) : QuoteState × Nat → Char → Option (QuoteState × Nat)
  | (.code, depth), c =>
    if Text.isQuote c then some (.quoted c, depth)
    else if b.opens c then some (.code, depth + 1)
    else if b.closes c then
      match depth with
      | 0 => none
      | depth + 1 => some (.code, depth)
    else if b.ends c && depth = 0 then none
    else some (.code, depth)
  | (state, depth), c => some (state.next c, depth)

/-- All quoted runs and all brackets of the code are closed in it, each bracket behind the one that
opens it, and nothing in it ends the scan. -/
def Nested (b : Brackets) (w : Text) : Prop := w.foldlM b.next (.code, 0) = some (.code, 0)

instance (b : Brackets) (w : Text) : Decidable (b.Nested w) :=
  inferInstanceAs (Decidable (_ = _))

end Brackets

section Steps

variable {s s' : QuoteState × Nat} {c : Char}

theorem expressionLength_cons (h : Brackets.expression.next s c = some s') (rest : Text) :
    expressionLength s.1 s.2 (c :: rest) = expressionLength s'.1 s'.2 rest + 1 := by
  revert h
  fun_cases Brackets.expression.next s c with
  | case7 state depth _ hcode =>
    rintro ⟨⟩
    rw [expressionLength]
    exact hcode
  | case3 | case5 => rintro ⟨⟩
  | _ =>
    rintro ⟨⟩
    simp_all [expressionLength, Brackets.expression]

theorem blockLength_cons {opening closing : Char}
    (h : (Brackets.pair opening closing).next s c = some s') (rest : Text) :
    blockLength opening closing s.1 s.2 (c :: rest) =
      (blockLength opening closing s'.1 s'.2 rest).map (· + 1) := by
  revert h
  fun_cases (Brackets.pair opening closing).next s c with
  | case7 state depth _ hcode =>
    rintro ⟨⟩
    rw [blockLength]
    exact hcode
  | case3 | case5 => rintro ⟨⟩
  | _ =>
    rintro ⟨⟩
    simp_all [blockLength, Brackets.pair]

/-- What the scan passes over does not end an expression. -/
theorem expressionLength_append {w : Text} (h : w.foldlM Brackets.expression.next s = some s')
    (rest : Text) :
    expressionLength s.1 s.2 (w ++ rest) = w.length + expressionLength s'.1 s'.2 rest := by
  induction w generalizing s with
  | nil =>
    obtain rfl : s = s' := by simpa using h
    simp
  | cons c w ih =>
    rw [List.foldlM_cons, Option.bind_eq_bind, Option.bind_eq_some_iff] at h
    obtain ⟨x, hx, h⟩ := h
    rw [List.cons_append, expressionLength_cons hx, ih h, List.length_cons]
    omega

/-- What the scan passes over does not end a block. -/
theorem blockLength_append_of_scan {opening closing : Char} {w : Text}
    (h : w.foldlM (Brackets.pair opening closing).next s = some s') (rest : Text) :
    blockLength opening closing s.1 s.2 (w ++ rest) =
      (blockLength opening closing s'.1 s'.2 rest).map (· + w.length) := by
  induction w generalizing s with
  | nil =>
    obtain rfl : s = s' := by simpa using h
    simp
  | cons c w ih =>
    rw [List.foldlM_cons, Option.bind_eq_bind, Option.bind_eq_some_iff] at h
    obtain ⟨x, hx, h⟩ := h
    rw [List.cons_append, blockLength_cons hx, ih h, Option.map_map, List.length_cons]
    rfl

end Steps

/-- A nested block ends at the bracket behind it. -/
theorem blockLength_of_nested {opening closing : Char} {w : Text}
    (h : (Brackets.pair opening closing).Nested w) (hne : opening ≠ closing)
    (hquote : Text.isQuote closing = false) (rest : Text) :
    blockLength opening closing .code 0 (w ++ closing :: rest) = some w.length := by
  have hclosing : blockLength opening closing .code 0 (closing :: rest) = some 0 := by
    simp [blockLength, hquote, Ne.symm hne]
  rw [blockLength_append_of_scan h, hclosing]
  simp

/-- Spaces, tabs and line breaks. -/
def isSpacing (c : Char) : Bool := c = ' ' || c = '\t' || c = '\n'

theorem expression_next_spacing {c : Char} (h : isSpacing c) (depth : Nat) :
    Brackets.expression.next (.code, depth) c = some (.code, depth) := by
  simp only [isSpacing, Bool.or_eq_true, decide_eq_true_eq, or_assoc] at h
  rcases h with rfl | rfl | rfl <;> rfl

theorem expression_spacing {gap : Text} (h : ∀ c ∈ gap, isSpacing c) :
    Brackets.expression.Nested gap := by
  unfold Brackets.Nested
  induction gap with
  | nil => rfl
  | cons c gap ih =>
    have hstep := expression_next_spacing (h c (by simp)) 0
    rw [List.foldlM_cons, hstep]
    exact ih fun d hd => h d (by simp [hd])

theorem isBlank_of_isSpacing {c : Char} (h : isSpacing c) : Text.isBlank c := by
  simp only [isSpacing, Bool.or_eq_true, decide_eq_true_eq, or_assoc] at h
  rcases h with rfl | rfl | rfl <;> decide

theorem trimEnd_append {w gap : Text} (hlast : ∀ c ∈ w.getLast?, Text.isBlank c = false)
    (hgap : ∀ c ∈ gap, Text.isBlank c) : Text.trimEnd (w ++ gap) = w := by
  have hdrop : w.reverse.dropWhile Text.isBlank = w.reverse := by
    rw [← List.head?_reverse] at hlast
    cases hw : w.reverse with
    | nil => rfl
    | cons c t =>
      rw [hw] at hlast
      exact List.dropWhile_cons_of_neg (by simp [hlast c rfl])
  unfold Text.trimEnd
  rw [List.reverse_append, List.dropWhile_append_of_pos (by simpa using hgap), hdrop,
    List.reverse_reverse]

/-- A nested default value ends at the `,` or the closing bracket behind it, without the spacing
before that. -/
theorem defaultValue_of_nested {w gap rest : Text} {c : Char} (h : Brackets.expression.Nested w)
    (hne : w ≠ []) (hlast : ∀ c ∈ w.getLast?, Text.isBlank c = false)
    (hgap : ∀ c ∈ gap, isSpacing c) (hc : c = ',' ∨ c = ')') :
    defaultValue (w ++ (gap ++ c :: rest)) = some w.length := by
  have hend : expressionLength .code 0 (c :: rest) = 0 := by
    rcases hc with rfl | rfl <;> rfl
  have hlength : expressionLength .code 0 (w ++ (gap ++ c :: rest)) = (w ++ gap).length := by
    have hw := expressionLength_append h (gap ++ c :: rest)
    have hspacing := expressionLength_append (expression_spacing hgap) (c :: rest)
    rw [hend] at hspacing
    rw [hw, hspacing, List.length_append, Nat.add_zero]
  have htake : (w ++ (gap ++ c :: rest)).take (w ++ gap).length = w ++ gap := by
    rw [← List.append_assoc, List.take_left]
  have htrim := trimEnd_append hlast fun c hc => isBlank_of_isSpacing (hgap c hc)
  have hpos := List.length_pos_iff.2 hne
  unfold defaultValue
  rw [hlength, htake, htrim]
  split
  · omega
  · next n hn => rw [hn]

end NodeMarkup.Lexeme
