import NodeMarkup.Lexeme.Block
import NodeMarkup.Lexeme.Atom
import NodeMarkup.Proofs.Text.Search
/-!
How far patterns reach. Most patterns read as far as they can, so a text that matches as a whole
matches the same way in front of other text only if that text does not go on it; literals and blocks
end at their own marks, whatever follows.
-/
namespace NodeMarkup

/-- Whether a scalar value can go on a name, a number or an empty literal. -/
def isLexemePart (c : Char) : Bool :=
  c.isAlphanum || c = '_' || c = ':' || c = '.' || c = '+' || c = '-' || c = '"'

/-- The text goes on none of the lexemes that may stand before it. -/
def Text.Apart (t : Text) : Prop := ∀ c ∈ t.head?, isLexemePart c = false

theorem Text.Apart.of_class {p : Char → Bool} (hp : ∀ c, p c → isLexemePart c) {c : Char}
    {rest : Text} (h : Text.Apart (c :: rest)) : p c = false := by
  have hc := h c rfl
  cases hpc : p c with
  | false => rfl
  | true => simp [hp c hpc] at hc

theorem Text.Apart.head_ne_quote {rest : Text} (h : Text.Apart rest) : rest.head? ≠ some '"' :=
  fun hquote => absurd (h '"' hquote) (by decide)

namespace Pattern

theorem word_append (w rest : Text) : word w (w ++ rest) = some w.length := by
  unfold word
  rw [if_pos]
  rw [List.isPrefixOf_iff_prefix]
  exact List.prefix_append w rest

theorem word_of_not_prefix {w t : Text} (h : ¬w <+: t) : word w t = none := by
  unfold word
  rw [if_neg]
  rwa [List.isPrefixOf_iff_prefix]

/-- The text that matches lies in the text that is read, and text behind it does not matter as long
as it stands apart. -/
structure Local (p : Pattern) : Prop where
  le : ∀ {t n}, p t = some n → n ≤ t.length
  append : ∀ {rest}, Text.Apart rest → ∀ w, p (w ++ rest) = p w

namespace Local

variable {p q : Pattern} {letters : Char → Bool}

theorem one (hc : ∀ c, letters c → isLexemePart c) : (Pattern.one letters).Local := by
  constructor
  case le =>
    intro t n h
    cases t with
    | nil => simp [Pattern.one] at h
    | cons c t =>
      simp only [Pattern.one, Option.ite_none_right_eq_some, Option.some.injEq] at h
      simp only [List.length_cons]
      omega
  case append =>
    intro rest hrest w
    cases w with
    | nil =>
      cases rest with
      | nil => rfl
      | cons c rest => simp [Pattern.one, hrest.of_class hc]
    | cons c w => rfl

theorem takeWhile_append (hc : ∀ c, letters c → isLexemePart c) {rest : Text}
    (hrest : Text.Apart rest) (w : Text) : (w ++ rest).takeWhile letters = w.takeWhile letters := by
  induction w with
  | nil =>
    cases rest with
    | nil => rfl
    | cons c rest => simp [hrest.of_class hc]
  | cons c w ih => rw [List.cons_append, List.takeWhile_cons, List.takeWhile_cons, ih]

theorem run (hc : ∀ c, letters c → isLexemePart c) : (Pattern.run letters).Local := by
  constructor
  case le =>
    intro t n h
    obtain rfl : (t.takeWhile letters).length = n := by simpa [Pattern.run] using h
    exact (List.takeWhile_prefix letters).length_le
  case append =>
    intro rest hrest w
    simp only [Pattern.run, takeWhile_append hc hrest]

theorem someRun (hc : ∀ c, letters c → isLexemePart c) : (Pattern.someRun letters).Local := by
  constructor
  case le =>
    intro t n h
    cases t with
    | nil => simp [Pattern.someRun] at h
    | cons c t =>
      have hle := (List.takeWhile_prefix (l := t) letters).length_le
      simp only [Pattern.someRun, Option.ite_none_right_eq_some, Option.some.injEq] at h
      simp only [List.length_cons]
      omega
  case append =>
    intro rest hrest w
    cases w with
    | nil =>
      cases rest with
      | nil => rfl
      | cons c rest => simp [Pattern.someRun, hrest.of_class hc]
    | cons c w => simp only [List.cons_append, Pattern.someRun, takeWhile_append hc hrest]

theorem word {w : Text} (hw : ∀ c ∈ w, isLexemePart c) : (Pattern.word w).Local := by
  constructor
  case le =>
    intro t n h
    simp only [Pattern.word, Option.ite_none_right_eq_some, Option.some.injEq] at h
    obtain ⟨hmatch, rfl⟩ := h
    exact (List.isPrefixOf_iff_prefix.1 hmatch).length_le
  case append =>
    intro rest hrest t
    -- a word that begins in the text and goes on behind it would go on with one of its own letters
    have hiff : w <+: t ++ rest ↔ w <+: t := by
      refine ⟨fun h => ?_, fun h => h.trans (List.prefix_append t rest)⟩
      rcases List.prefix_or_prefix_of_prefix h (List.prefix_append t rest) with hshort | hlong
      · exact hshort
      · obtain ⟨more, rfl⟩ := hlong
        cases more with
        | nil => simp
        | cons c more =>
          obtain ⟨tail, rfl⟩ := (List.prefix_append_right_inj t).1 h
          have hc := hrest c rfl
          simp [hw c (by simp)] at hc
    simp only [Pattern.word]
    congr 1
    simp only [List.isPrefixOf_iff_prefix, hiff]

theorem andThen (hp : p.Local) (hq : q.Local) : (Pattern.andThen p q).Local := by
  constructor
  case le =>
    intro t n h
    simp only [Pattern.andThen, Option.bind_eq_bind, Option.bind_eq_some_iff] at h
    obtain ⟨k, hk, m, hm, hn⟩ := h
    have hle := hp.le hk
    have hle' := hq.le hm
    simp only [List.length_drop] at hle'
    obtain rfl : k + m = n := by simpa using hn
    omega
  case append =>
    intro rest hrest w
    simp only [Pattern.andThen, hp.append hrest]
    cases h : p w with
    | none => rfl
    | some n =>
      have hle := hp.le h
      simp only [Option.bind_eq_bind, Option.bind_some]
      rw [List.drop_append_of_le_length hle, hq.append hrest]

theorem orElse (hp : p.Local) (hq : q.Local) : (Pattern.orElse p q).Local := by
  constructor
  case le =>
    intro t n h
    unfold Pattern.orElse at h
    split at h
    · next hk => exact hp.le (hk.trans h)
    · exact hq.le h
  case append =>
    intro rest hrest w
    simp only [Pattern.orElse, hp.append hrest, hq.append hrest]

theorem maybe (hp : p.Local) : (Pattern.maybe p).Local := by
  refine orElse hp ⟨?_, fun _ _ => rfl⟩
  intro t n h
  obtain rfl : 0 = n := by simpa using h
  omega

end Local

end Pattern

namespace Lexeme

theorem isLexemePart_of_isDigit (c : Char) (h : c.isDigit) : isLexemePart c := by
  simp [isLexemePart, Char.isAlphanum, h]

theorem isLexemePart_of_isHexDigit (c : Char) (h : isHexDigit c) : isLexemePart c := by
  have halphanum : c.isAlphanum := by
    unfold isHexDigit at h
    unfold Char.isAlphanum Char.isAlpha Char.isUpper Char.isLower
    simp only [Bool.or_eq_true, Bool.and_eq_true, decide_eq_true_eq, Char.le_def,
      UInt32.le_iff_toNat_le, ge_iff_le] at h ⊢
    have ha : 'a'.val.toNat = 97 := rfl
    have hf : 'f'.val.toNat = 102 := rfl
    have hA : 'A'.val.toNat = 65 := rfl
    have hF : 'F'.val.toNat = 70 := rfl
    have hz : 'z'.val.toNat = 122 := rfl
    have hZ : 'Z'.val.toNat = 90 := rfl
    rcases h with (h | h) | h
    · exact .inr h
    · exact .inl (.inr (by omega))
    · exact .inl (.inl (by omega))
  simp [isLexemePart, halphanum]

theorem isLexemePart_of_isSymbolPart (c : Char) (h : isSymbolPart c) : isLexemePart c := by
  simp only [isSymbolPart, Bool.or_eq_true, decide_eq_true_eq] at h
  rcases h with h | h <;> simp [isLexemePart, h]

theorem isLexemePart_of_isPropertyPart (c : Char) (h : isPropertyPart c) : isLexemePart c := by
  simp only [isPropertyPart, Bool.or_eq_true, decide_eq_true_eq] at h
  rcases h with (h | h) | h
  · exact isLexemePart_of_isSymbolPart c h
  · simp [isLexemePart, h]
  · simp [isLexemePart, h]

theorem isSymbolPart_of_isSymbolStart (c : Char) (h : isSymbolStart c) : isSymbolPart c := by
  simp only [isSymbolStart, Bool.or_eq_true, decide_eq_true_eq] at h
  rcases h with h | h <;> simp [isSymbolPart, Char.isAlphanum, h]

theorem isLexemePart_of_isSymbolStart (c : Char) (h : isSymbolStart c) : isLexemePart c :=
  isLexemePart_of_isSymbolPart c (isSymbolPart_of_isSymbolStart c h)

theorem local_propertyName : propertyName.Local :=
  .andThen (.one isLexemePart_of_isSymbolStart) (.run isLexemePart_of_isPropertyPart)

theorem pathTail_le (t : Text) : pathTail t ≤ t.length := by
  fun_induction pathTail t <;> simp <;> omega

theorem pathTail_of_isSymbolPart {c : Char} (h : isSymbolPart c) (t : Text) :
    pathTail (c :: t) = pathTail t + 1 := by
  have hdot : c ≠ '.' := by
    intro hc
    rw [hc] at h
    exact absurd h (by decide)
  rw [pathTail, if_pos h]
  exact fun _ _ hc _ => hdot hc

/-- The text goes on no symbol and no path. -/
def EndsName (rest : Text) : Prop := ∀ c ∈ rest.head?, isSymbolPart c = false ∧ c ≠ '.'

theorem endsName_of_apart {rest : Text} (h : Text.Apart rest) : EndsName rest := by
  intro c hc
  cases rest with
  | nil => cases hc
  | cons d rest =>
    obtain rfl : d = c := Option.some.inj hc
    refine ⟨h.of_class isLexemePart_of_isSymbolPart, ?_⟩
    rintro rfl
    exact absurd (h '.' rfl) (by decide)

/-- A path does not go on into a text that ends names, nor does a `.` before that text. -/
theorem pathTail_of_endsName {rest : Text} (h : EndsName rest) :
    pathTail rest = 0 ∧ pathTail ('.' :: rest) = 0 := by
  cases rest with
  | nil => exact ⟨rfl, rfl⟩
  | cons c rest =>
    obtain ⟨hpart, hdot⟩ := h c rfl
    have hstart : ¬isSymbolStart c := by
      intro hstart
      simp [isSymbolPart_of_isSymbolStart c hstart] at hpart
    refine ⟨?_, by simp [pathTail, hstart]⟩
    rw [pathTail, if_neg (by simp [hpart])]
    exact fun _ _ hc _ => hdot hc

theorem pathTail_append {rest : Text} (hrest : EndsName rest) (w : Text) :
    pathTail (w ++ rest) = pathTail w := by
  fun_induction pathTail w with
  | case1 => exact (pathTail_of_endsName hrest).1
  | case2 c w hstart ih => simp [pathTail, hstart, ih]
  | case3 c w hstart => simp [pathTail, hstart]
  | case4 c w hdot hpart ih => rw [List.cons_append, pathTail_of_isSymbolPart hpart, ih]
  | case5 c w hdot hpart =>
    by_cases hc : c = '.'
    · subst hc
      cases w with
      | nil => exact (pathTail_of_endsName hrest).2
      | cons d w => exact absurd rfl (hdot d w rfl)
    · rw [List.cons_append, pathTail, if_neg hpart]
      exact fun _ _ h _ => hc h

/-- A path behind a path and a `.` goes it on. -/
theorem pathTail_append_dot {w : Text} (hw : pathTail w = w.length) {c : Char}
    (hc : isSymbolStart c) (t : Text) :
    pathTail (w ++ '.' :: c :: t) = w.length + 2 + pathTail t := by
  fun_induction pathTail w with
  | case1 => simp [pathTail, hc]; omega
  | case2 d w hstart ih =>
    simp only [List.length_cons] at hw ⊢
    simp only [List.cons_append, pathTail, hstart, ↓reduceIte]
    rw [ih (by omega)]
    omega
  | case3 => simp at hw
  | case4 d w hdot hpart ih =>
    simp only [List.length_cons] at hw ⊢
    rw [List.cons_append, pathTail_of_isSymbolPart hpart, ih (by omega)]
    omega
  | case5 => simp at hw

theorem local_path : path.Local := by
  refine .andThen (.one isLexemePart_of_isSymbolStart) ⟨?_, ?_⟩
  · intro t n h
    obtain rfl : pathTail t = n := by simpa using h
    exact pathTail_le t
  · intro rest hrest w
    rw [pathTail_append (endsName_of_apart hrest)]

theorem local_sign : sign.Local := by
  refine .maybe (.one ?_)
  intro c h
  simp only [Bool.or_eq_true, decide_eq_true_eq] at h
  rcases h with h | h <;> simp [isLexemePart, h]

theorem local_decimal : decimal.Local := .andThen local_sign (.someRun isLexemePart_of_isDigit)

theorem local_hexadecimal : hexadecimal.Local :=
  .andThen local_sign
    (.andThen (.word (List.all_eq_true.1 (by decide))) (.someRun isLexemePart_of_isHexDigit))

theorem local_binary : binary.Local := by
  refine .andThen local_sign (.andThen (.word (List.all_eq_true.1 (by decide))) (.someRun ?_))
  intro c h
  simp only [isBinaryDigit, Bool.or_eq_true, decide_eq_true_eq] at h
  rcases h with rfl | rfl <;> decide

theorem local_exponent : exponent.Local := by
  refine .andThen (.one ?_) (.andThen local_sign (.someRun isLexemePart_of_isDigit))
  intro c h
  simp only [Bool.or_eq_true, decide_eq_true_eq] at h
  rcases h with rfl | rfl <;> decide

theorem local_fractionMark : fractionMark.Local := by
  refine .one ?_
  intro c h
  simp only [Bool.or_eq_true, decide_eq_true_eq] at h
  rcases h with rfl | rfl <;> decide

theorem local_fractionTail : fractionTail.Local := by
  refine .orElse (.andThen (.one ?_) (.andThen (.run isLexemePart_of_isDigit)
    (.andThen (.maybe local_exponent) (.maybe local_fractionMark))))
    (.orElse (.andThen local_exponent (.maybe local_fractionMark)) local_fractionMark)
  intro c h
  obtain rfl : c = '.' := by simpa using h
  decide

theorem local_fraction : fraction.Local := .andThen local_decimal local_fractionTail

theorem path_cons (c : Char) (t : Text) :
    path (c :: t) = if isSymbolStart c then some (pathTail t + 1) else none := by
  unfold path Pattern.andThen
  by_cases h : isSymbolStart c <;> simp [Pattern.one, h, Nat.add_comm]

/-- Two paths with a `.` between them are one. -/
theorem path_append_dot {v w : Text} (hv : path v = some v.length) (hw : path w = some w.length) :
    path (v ++ '.' :: w) = some (v ++ '.' :: w).length := by
  cases v with
  | nil => simp [path, Pattern.andThen, Pattern.one] at hv
  | cons c v =>
    cases w with
    | nil => simp [path, Pattern.andThen, Pattern.one] at hw
    | cons d w =>
      simp only [path_cons, Option.ite_none_right_eq_some, Option.some.injEq, List.length_cons,
        Nat.add_right_cancel_iff] at hv hw
      rw [List.cons_append, path_cons, if_pos hv.1, pathTail_append_dot hv.2 hw.1, hw.2]
      simp only [List.length_cons, List.length_append]
      congr 1
      omega

section Numbers

/-- A number, the longest form first. -/
def number : Pattern := .orElse fraction (.orElse hexadecimal (.orElse binary decimal))

theorem local_number : number.Local :=
  .orElse local_fraction (.orElse local_hexadecimal (.orElse local_binary local_decimal))

theorem number_eq_findSome (t : Text) :
    number t = [fraction, hexadecimal, binary, decimal].findSome? (· t) := by
  simp only [number, Pattern.orElse, List.findSome?]
  cases fraction t <;> cases hexadecimal t <;> cases binary t <;> cases decimal t <;> rfl

def isSign (c : Char) : Bool := c = '+' || c = '-'

/-- The length of the sign at the start of a text. -/
def signLength (t : Text) : Nat := if t.head?.any isSign then 1 else 0

theorem sign_eq (t : Text) : sign t = some (signLength t) := by
  cases t with
  | nil => rfl
  | cons c t =>
    by_cases h : c = '+' || c = '-' <;>
      simp [sign, Pattern.maybe, Pattern.orElse, Pattern.one, signLength, isSign, h]

theorem andThen_sign (p : Pattern) (t : Text) :
    Pattern.andThen sign p t = (p (t.drop (signLength t))).map (signLength t + ·) := by
  simp only [Pattern.andThen, sign_eq, Option.bind_eq_bind, Option.bind_some]
  cases p (t.drop (signLength t)) <;> rfl

/-- A digit and then a letter that is no part of a fraction. -/
theorem fraction_of_letter {t v : Text} {c d : Char} (ht : t.drop (signLength t) = d :: c :: v)
    (hd : d.isDigit) (hc : c = 'x' ∨ c = 'b') : fraction t = none := by
  have hletter : c.isDigit = false := by rcases hc with rfl | rfl <;> decide
  have hdecimal : decimal t = some (signLength t + 1) := by
    simp [decimal, andThen_sign, ht, Pattern.someRun, hd, hletter]
  have htail : t.drop (signLength t + 1) = c :: v := by
    rw [← List.drop_drop, ht, List.drop_one, List.tail_cons]
  simp only [fraction, Pattern.andThen, hdecimal, Option.bind_eq_bind, Option.bind_some, htail]
  rcases hc with rfl | rfl <;> rfl

theorem drop_signLength_of_word {t w : Text} {p : Pattern} {n : Nat}
    (h : Pattern.andThen sign (.andThen (.word w) p) t = some n) :
    ∃ v, t.drop (signLength t) = w ++ v := by
  rw [andThen_sign] at h
  obtain ⟨k, hk, -⟩ := Option.map_eq_some_iff.1 h
  simp only [Pattern.andThen, Option.bind_eq_bind, Option.bind_eq_some_iff, Pattern.word,
    Option.ite_none_right_eq_some] at hk
  obtain ⟨_, ⟨hmatch, -⟩, -⟩ := hk
  obtain ⟨v, hv⟩ := List.isPrefixOf_iff_prefix.1 hmatch
  exact ⟨v, hv.symm⟩

/-- All of a decimal integer but its sign are digits. -/
theorem isDigit_of_decimal {t : Text} (h : decimal t = some t.length) :
    ∀ c ∈ t.drop (signLength t), c.isDigit := by
  rw [decimal, andThen_sign] at h
  obtain ⟨k, hk, hlength⟩ := Option.map_eq_some_iff.1 h
  have hdrop : (t.drop (signLength t)).length = t.length - signLength t := List.length_drop
  cases hv : t.drop (signLength t) with
  | nil => simp
  | cons c v =>
    rw [hv] at hk hdrop
    simp only [Pattern.someRun, Option.ite_none_right_eq_some, Option.some.injEq] at hk
    obtain ⟨hc, rfl⟩ := hk
    have hall : v.takeWhile Char.isDigit = v :=
      (List.takeWhile_prefix _).eq_of_length (by simp only [List.length_cons] at hdrop; omega)
    intro d hd
    rcases List.mem_cons.1 hd with rfl | hmem
    · exact hc
    · have hdigits := List.all_takeWhile (p := Char.isDigit) (l := v)
      rw [hall] at hdigits
      exact List.all_eq_true.1 hdigits d hmem

theorem not_word_of_decimal {t w : Text} {p : Pattern} (h : decimal t = some t.length)
    (hw : ∃ c ∈ w, c.isDigit = false) :
    Pattern.andThen sign (.andThen (.word w) p) t = none := by
  cases hword : Pattern.andThen sign (.andThen (.word w) p) t with
  | none => rfl
  | some n =>
    obtain ⟨v, hv⟩ := drop_signLength_of_word hword
    obtain ⟨c, hc, hdigit⟩ := hw
    have := isDigit_of_decimal h c (by rw [hv]; simp [hc])
    simp [hdigit] at this

theorem number_of_hexadecimal {t : Text} {n : Nat} (h : hexadecimal t = some n) :
    number t = some n := by
  obtain ⟨v, hv⟩ := drop_signLength_of_word h
  have hfraction := fraction_of_letter hv (by decide) (.inl rfl)
  simp [number, Pattern.orElse, hfraction, h]

theorem number_of_binary {t : Text} {n : Nat} (h : binary t = some n) : number t = some n := by
  obtain ⟨v, hv⟩ := drop_signLength_of_word h
  have hfraction := fraction_of_letter hv (by decide) (.inr rfl)
  have hhexadecimal : hexadecimal t = none := by
    cases hhex : hexadecimal t with
    | none => rfl
    | some m =>
      obtain ⟨v', hv'⟩ := drop_signLength_of_word hhex
      simp [hv] at hv'
  simp [number, Pattern.orElse, hfraction, hhexadecimal, h]

theorem number_of_decimal {t : Text} (h : decimal t = some t.length) :
    number t = some t.length := by
  have hfraction : fraction t = none := by
    simp [fraction, Pattern.andThen, h, fractionTail, exponent, fractionMark, Pattern.orElse,
      Pattern.one]
  have hhexadecimal : hexadecimal t = none := not_word_of_decimal h ⟨'x', by decide⟩
  have hbinary : binary t = none := not_word_of_decimal h ⟨'b', by decide⟩
  simp [number, Pattern.orElse, hfraction, hhexadecimal, hbinary, h]

theorem number_of_fraction {t : Text} {n : Nat} (h : fraction t = some n) :
    number t = some n := by
  simp [number, Pattern.orElse, h]

/-- A number begins with a sign or a digit. -/
theorem number_eq_none {t : Text} (h : ∀ c ∈ t.head?, isSign c = false ∧ c.isDigit = false) :
    number t = none := by
  cases t with
  | nil => rfl
  | cons c t =>
    obtain ⟨hsign, hdigit⟩ := h c rfl
    have hlength : signLength (c :: t) = 0 := by simp [signLength, hsign]
    have hdecimal : decimal (c :: t) = none := by
      simp [decimal, andThen_sign, hlength, Pattern.someRun, hdigit]
    have hword {d : Char} {w : Text} {p : Pattern} (hd : d.isDigit) :
        Pattern.andThen sign (.andThen (.word (d :: w)) p) (c :: t) = none := by
      cases hrun : Pattern.andThen sign (.andThen (.word (d :: w)) p) (c :: t) with
      | none => rfl
      | some n =>
        obtain ⟨v, hv⟩ := drop_signLength_of_word hrun
        obtain ⟨rfl, -⟩ : c = d ∧ t = w ++ v := by simpa [hlength] using hv
        simp [hdigit] at hd
    have hhexadecimal : hexadecimal (c :: t) = none := hword (by decide)
    have hbinary : binary (c :: t) = none := hword (by decide)
    simp [number, Pattern.orElse, fraction, Pattern.andThen, hdecimal, hhexadecimal, hbinary]

end Numbers

section Literals

variable {mark : Char}

theorem literalTail_cons {c : Char} (hc : c ≠ '\\') (t : Text) :
    literalTail mark (c :: t) =
      if c = mark then some 1
      else if c = '\n' then none
      else (literalTail mark t).map (· + 1) := by
  rw [literalTail]
  · simp [hc]
  · exact fun _ _ h _ => hc h

/-- A literal ends at its mark, whatever follows. -/
theorem literalTail_append (hm : mark ≠ '\\') {t : Text} {n : Nat}
    (h : literalTail mark t = some n) (rest : Text) : literalTail mark (t ++ rest) = some n := by
  fun_induction literalTail mark t generalizing n with
  | case1 => simp at h
  | case2 => simp at h
  | case3 c t hbreak ih =>
    obtain ⟨k, hk, rfl⟩ := Option.map_eq_some_iff.1 h
    simp [literalTail, hbreak, ih hk]
  | case4 t => rwa [List.cons_append, literalTail_cons hm, if_pos rfl]
  | case5 => simp at h
  | case6 c t _ hc hplain ih =>
    obtain ⟨k, hk, rfl⟩ := Option.map_eq_some_iff.1 h
    simp only [Bool.or_eq_true, decide_eq_true_eq, not_or] at hplain
    rw [List.cons_append, literalTail_cons hplain.1, if_neg hc, if_neg hplain.2, ih hk]
    rfl

/-- A literal stays on its line. -/
theorem not_mem_take_of_literalTail (hm : mark ≠ '\n') {t : Text} {n : Nat}
    (h : literalTail mark t = some n) : '\n' ∉ t.take n := by
  fun_induction literalTail mark t generalizing n with
  | case1 => simp at h
  | case2 => simp at h
  | case3 c t hbreak ih =>
    obtain ⟨k, hk, rfl⟩ := Option.map_eq_some_iff.1 h
    simp [Ne.symm hbreak, ih hk]
  | case4 t _ =>
    obtain rfl : 1 = n := by simpa using h
    simp [Ne.symm hm]
  | case5 => simp at h
  | case6 c t _ hmark hother ih =>
    obtain ⟨k, hk, rfl⟩ := Option.map_eq_some_iff.1 h
    simp only [Bool.or_eq_true, decide_eq_true_eq, not_or] at hother
    simp [Ne.symm hother.2, ih hk]

theorem not_mem_take_of_lineLiteral {t : Text} {n : Nat} (h : lineLiteral t = some n) :
    '\n' ∉ t.take n := by
  cases t with
  | nil => simp
  | cons c t =>
    simp only [lineLiteral, Option.ite_none_right_eq_some, Bool.or_eq_true,
      decide_eq_true_eq] at h
    obtain ⟨hc, h⟩ := h
    obtain ⟨k, hk, rfl⟩ := Option.map_eq_some_iff.1 h
    have hne : c ≠ '\n' := by rcases hc with rfl | rfl <;> decide
    simp [Ne.symm hne, not_mem_take_of_literalTail hne hk]

theorem head_of_lineLiteral {t : Text} {n : Nat} (h : lineLiteral t = some n) :
    ∃ c rest, t = c :: rest ∧ (c = '"' ∨ c = '\'') := by
  cases t with
  | nil => cases h
  | cons c rest =>
    simp only [lineLiteral, Option.ite_none_right_eq_some, Bool.or_eq_true,
      decide_eq_true_eq] at h
    exact ⟨c, rest, rfl, h.1⟩

theorem take_of_literalTail {t : Text} {n : Nat} (h : literalTail mark t = some n) :
    ∃ body, t.take n = body ++ [mark] := by
  fun_induction literalTail mark t generalizing n with
  | case1 => simp at h
  | case2 => simp at h
  | case3 c t _ ih =>
    obtain ⟨k, hk, rfl⟩ := Option.map_eq_some_iff.1 h
    obtain ⟨body, hbody⟩ := ih hk
    exact ⟨'\\' :: c :: body, by rw [List.take_succ_cons, List.take_succ_cons, hbody]; rfl⟩
  | case4 t =>
    obtain rfl : 1 = n := by simpa using h
    exact ⟨[], rfl⟩
  | case5 => simp at h
  | case6 c t _ _ _ ih =>
    obtain ⟨k, hk, rfl⟩ := Option.map_eq_some_iff.1 h
    obtain ⟨body, hbody⟩ := ih hk
    exact ⟨c :: body, by rw [List.take_succ_cons, hbody]; rfl⟩

theorem literalTail_le {t : Text} {n : Nat} (h : literalTail mark t = some n) : n ≤ t.length := by
  fun_induction literalTail mark t generalizing n with
  | case1 => simp at h
  | case2 => simp at h
  | case3 c t _ ih =>
    obtain ⟨k, hk, rfl⟩ := Option.map_eq_some_iff.1 h
    have := ih hk
    simp only [List.length_cons]
    omega
  | case4 t =>
    obtain rfl : 1 = n := by simpa using h
    simp
  | case5 => simp at h
  | case6 c t _ _ _ ih =>
    obtain ⟨k, hk, rfl⟩ := Option.map_eq_some_iff.1 h
    have := ih hk
    simp only [List.length_cons]
    omega

theorem lineLiteral_le {t : Text} {n : Nat} (h : lineLiteral t = some n) : n ≤ t.length := by
  cases t with
  | nil => cases h
  | cons c t =>
    simp only [lineLiteral, Option.ite_none_right_eq_some] at h
    obtain ⟨k, hk, rfl⟩ := Option.map_eq_some_iff.1 h.2
    have := literalTail_le hk
    simp only [List.length_cons]
    omega

/-- A literal on one line begins and ends with the same quote, and these are two quotes. -/
theorem take_of_lineLiteral {t : Text} {n : Nat} (h : lineLiteral t = some n) :
    ∃ quote body, (quote = '"' ∨ quote = '\'') ∧ t.take n = [quote] ++ body ++ [quote] := by
  cases t with
  | nil => cases h
  | cons c t =>
    simp only [lineLiteral, Option.ite_none_right_eq_some, Bool.or_eq_true,
      decide_eq_true_eq] at h
    obtain ⟨hc, h⟩ := h
    obtain ⟨k, hk, rfl⟩ := Option.map_eq_some_iff.1 h
    obtain ⟨body, hbody⟩ := take_of_literalTail hk
    exact ⟨c, body, hc, by rw [List.take_succ_cons, hbody]; rfl⟩

theorem lineLiteral_append {t : Text} {n : Nat} (h : lineLiteral t = some n) (rest : Text) :
    lineLiteral (t ++ rest) = some n := by
  cases t with
  | nil => simp [lineLiteral] at h
  | cons c t =>
    simp only [lineLiteral, List.cons_append] at h ⊢
    split at h
    · next hc =>
      obtain ⟨k, hk, rfl⟩ := Option.map_eq_some_iff.1 h
      have hm : c ≠ '\\' := by
        rintro rfl
        simp at hc
      rw [if_pos hc, literalTail_append hm hk]
      rfl
    · simp at h

theorem literalTail_escape {t : Text} (h : '\n' ∉ t) :
    literalTail '"' (Text.escape t ++ ['"']) = some ((Text.escape t).length + 1) := by
  induction t with
  | nil => rfl
  | cons c t ih =>
    simp only [List.mem_cons, not_or] at h
    have htail := ih h.2
    rw [Text.escape]
    split
    · next hc =>
      rw [List.cons_append, List.cons_append, literalTail, if_neg (Ne.symm h.1), htail]
      rfl
    · next hc =>
      simp only [Bool.or_eq_true, decide_eq_true_eq, not_or] at hc
      rw [List.cons_append, literalTail_cons hc.2, if_neg hc.1, if_neg (Ne.symm h.1), htail]
      rfl

/-- A quoted text without line breaks is a literal on one line. -/
theorem lineLiteral_quote {t : Text} (h : '\n' ∉ t) :
    lineLiteral (Text.quote t) = some (Text.quote t).length := by
  rw [Text.quote, List.cons_append, lineLiteral, if_pos (by decide), literalTail_escape h]
  simp

/-- A literal on one line is not the beginning of one over several lines, unless its closing mark is
followed by another. -/
theorem not_tripleMark_begins {w rest : Text} (hw : lineLiteral w = some w.length)
    (hrest : rest.head? ≠ some '"') : ¬tripleMark <+: w ++ rest := by
  rintro ⟨tail, htail⟩
  cases w with
  | nil => simp [lineLiteral] at hw
  | cons c w =>
    cases w with
    | nil =>
      simp [lineLiteral, literalTail] at hw
    | cons d w =>
      obtain ⟨rfl, rfl, h⟩ : '"' = c ∧ '"' = d ∧ '"' :: tail = w ++ rest := by
        simpa [tripleMark] using htail
      -- the second mark would be the last, and a third one would go on the literal
      obtain rfl : w = [] := by
        simpa [lineLiteral, literalTail_cons (show ('"' : Char) ≠ '\\' by decide)] using hw
      exact hrest (by rw [List.nil_append] at h; rw [← h]; rfl)

theorem tripleLiteral_of_lineLiteral {w rest : Text} (hw : lineLiteral w = some w.length)
    (hrest : rest.head? ≠ some '"') : tripleLiteral (w ++ rest) = none := by
  simp [tripleLiteral, Pattern.andThen, Pattern.word_of_not_prefix (not_tripleMark_begins hw hrest)]

theorem literal_append {w rest : Text} (hw : lineLiteral w = some w.length)
    (hrest : Text.Apart rest) : literal (w ++ rest) = some w.length := by
  unfold literal Pattern.orElse
  rw [tripleLiteral_of_lineLiteral hw hrest.head_ne_quote]
  exact lineLiteral_append hw rest

theorem indexOf_tripleMark {body : Text} (hbody : ¬tripleMark <:+: body)
    (hlast : body.getLast? ≠ some '"') (rest : Text) :
    Text.indexOf? tripleMark (body ++ (tripleMark ++ rest)) = some body.length := by
  induction body with
  | nil => simp [tripleMark, Text.indexOf?]
  | cons c body ih =>
    have hmatch : ¬tripleMark <+: c :: body ++ (tripleMark ++ rest) := by
      intro h
      rcases List.prefix_or_prefix_of_prefix h (List.prefix_append _ _) with hshort | hlong
      · exact hbody hshort.isInfix
      · -- a body inside the mark consists of quotes
        have hmem := hlong.subset (List.getLast_mem (List.cons_ne_nil c body))
        have hquote : (c :: body).getLast (List.cons_ne_nil c body) = '"' := by
          simpa [tripleMark] using hmem
        exact hlast (by rw [List.getLast?_eq_some_getLast (List.cons_ne_nil c body), hquote])
    have hrest : Text.indexOf? tripleMark (body ++ (tripleMark ++ rest)) = some body.length := by
      apply ih
      · exact fun h => hbody (h.trans (List.suffix_cons c body).isInfix)
      · intro h
        cases body with
        | nil => simp at h
        | cons d body => exact hlast (by rwa [List.getLast?_cons_cons])
    rw [List.cons_append] at hmatch ⊢
    rw [Text.indexOf?, if_neg (by rwa [List.isPrefixOf_iff_prefix]), hrest]
    rfl

theorem tripleLiteral_body {body : Text} (hbody : ¬tripleMark <:+: body)
    (hlast : body.getLast? ≠ some '"') (rest : Text) :
    tripleLiteral (tripleMark ++ body ++ tripleMark ++ rest) =
      some (tripleMark ++ body ++ tripleMark).length := by
  simp only [List.append_assoc, tripleLiteral, Pattern.andThen, Pattern.word_append,
    Option.bind_eq_bind, Option.bind_some, List.drop_left, indexOf_tripleMark hbody hlast]
  simp

/-- A literal over several lines stands between marks of its own. -/
theorem eq_of_tripleLiteral {t : Text} {n : Nat} (h : tripleLiteral t = some n) :
    ∃ body rest, t = tripleMark ++ body ++ tripleMark ++ rest ∧
      n = (tripleMark ++ body ++ tripleMark).length := by
  obtain ⟨k, hk, h⟩ := Option.bind_eq_some_iff.1 h
  obtain ⟨m, hm, h⟩ := Option.bind_eq_some_iff.1 h
  obtain rfl : k + m = n := Option.some.inj h
  obtain ⟨i, hi, rfl⟩ := Option.map_eq_some_iff.1 hm
  obtain ⟨hword, rfl⟩ : tripleMark.isPrefixOf t ∧ tripleMark.length = k := by
    simpa [Pattern.word] using hk
  obtain ⟨inner, rfl⟩ := List.isPrefixOf_iff_prefix.1 hword
  rw [List.drop_left] at hi
  obtain ⟨body, rest, rfl, rfl⟩ := Text.eq_of_indexOf? hi
  refine ⟨body, rest, ?_, ?_⟩
  · rw [List.append_assoc, List.append_assoc, List.append_assoc]
  · rw [List.length_append, List.length_append, Nat.add_assoc]

/-- A literal over several lines begins and ends with a mark of its own. -/
theorem take_of_tripleLiteral {t : Text} {n : Nat} (h : tripleLiteral t = some n) :
    ∃ body, t.take n = tripleMark ++ body ++ tripleMark := by
  obtain ⟨body, rest, rfl, rfl⟩ := eq_of_tripleLiteral h
  exact ⟨body, List.take_left⟩

theorem literal_le {t : Text} {n : Nat} (h : literal t = some n) : n ≤ t.length := by
  unfold literal Pattern.orElse at h
  split at h
  · next m hm =>
    obtain rfl : m = n := Option.some.inj h
    obtain ⟨body, rest, rfl, rfl⟩ := eq_of_tripleLiteral hm
    simp
  · exact lineLiteral_le h

end Literals

/-- A block ends at its closing delimiter, whatever follows. -/
theorem blockLength_append {opening closing : Char} {state : QuoteState} {depth n : Nat}
    {t : Text} (h : blockLength opening closing state depth t = some n) (rest : Text) :
    blockLength opening closing state depth (t ++ rest) = some n := by
  fun_induction blockLength opening closing state depth t generalizing n with
  | case1 => simp at h
  | case2 depth c t hquote ih =>
    obtain ⟨k, hk, rfl⟩ := Option.map_eq_some_iff.1 h
    simp [blockLength, hquote, ih hk]
  | case3 depth t hquote ih =>
    obtain ⟨k, hk, rfl⟩ := Option.map_eq_some_iff.1 h
    simp [blockLength, hquote, ih hk]
  | case4 t hquote hne => simpa [blockLength, hquote, hne] using h
  | case5 t depth hquote hne ih =>
    obtain ⟨k, hk, rfl⟩ := Option.map_eq_some_iff.1 h
    simp [blockLength, hquote, hne, ih hk]
  | case6 depth c t hquote hopening hclosing ih =>
    obtain ⟨k, hk, rfl⟩ := Option.map_eq_some_iff.1 h
    simp [blockLength, hquote, hopening, hclosing, ih hk]
  | case7 state depth c t hcode ih =>
    obtain ⟨k, hk, rfl⟩ := Option.map_eq_some_iff.1 h
    rw [List.cons_append, blockLength, ih hk]
    · rfl
    · exact hcode

/-- Behind a block stands its closing delimiter. -/
theorem eq_of_blockLength {opening closing : Char} {state : QuoteState} {depth n : Nat} {t : Text}
    (h : blockLength opening closing state depth t = some n) :
    ∃ body rest, t = body ++ closing :: rest ∧ n = body.length := by
  fun_induction blockLength opening closing state depth t generalizing n with
  | case1 => cases h
  | case4 t => exact ⟨[], t, rfl, (Option.some.inj h).symm⟩
  | case2 depth c t _ ih | case3 depth t _ ih | case5 t depth _ _ ih | case6 depth c t _ _ _ ih
  | case7 state depth c t _ ih =>
    obtain ⟨k, hk, rfl⟩ := Option.map_eq_some_iff.1 h
    obtain ⟨body, rest, rfl, rfl⟩ := ih hk
    exact ⟨_ :: body, rest, rfl, rfl⟩

end Lexeme

/-- What the pattern matches does not hold the scalar value. -/
def Pattern.Avoids (c : Char) (p : Pattern) : Prop :=
  ∀ (t : Text) (n : Nat), p t = some n → c ∉ t.take n

namespace Pattern.Avoids

variable {c : Char} {letters : Char → Bool} {p q : Pattern}

theorem one (hc : letters c = false) : (Pattern.one letters).Avoids c := by
  intro t n h
  cases t with
  | nil => simp
  | cons d t =>
    simp only [Pattern.one, Option.ite_none_right_eq_some, Option.some.injEq] at h
    obtain ⟨hd, rfl⟩ := h
    have hne : c ≠ d := by
      rintro rfl
      simp [hc] at hd
    simpa using hne

theorem run (hc : letters c = false) : (Pattern.run letters).Avoids c := by
  intro t n h
  obtain rfl : (t.takeWhile letters).length = n := by simpa [Pattern.run] using h
  rw [← List.prefix_iff_eq_take.1 (List.takeWhile_prefix letters)]
  intro hmem
  have hletter : letters c = true := List.all_eq_true.1 List.all_takeWhile c hmem
  simp [hc] at hletter

theorem andThen (hp : p.Avoids c) (hq : q.Avoids c) : (Pattern.andThen p q).Avoids c := by
  intro t n h
  simp only [Pattern.andThen, Option.bind_eq_bind, Option.bind_eq_some_iff] at h
  obtain ⟨k, hk, m, hm, hn⟩ := h
  obtain rfl : k + m = n := by simpa using hn
  rw [List.take_add, List.mem_append, not_or]
  exact ⟨hp t k hk, hq _ m hm⟩

theorem someRun (hc : letters c = false) : (Pattern.someRun letters).Avoids c := by
  intro t n h
  cases t with
  | nil => simp
  | cons d t =>
    simp only [Pattern.someRun, Option.ite_none_right_eq_some, Option.some.injEq] at h
    obtain ⟨hd, rfl⟩ := h
    have hne : c ≠ d := by
      rintro rfl
      simp [hc] at hd
    have hrun := run hc t _ rfl
    simpa [hne] using hrun

theorem word {w : Text} (hc : c ∉ w) : (Pattern.word w).Avoids c := by
  intro t n h
  simp only [Pattern.word, Option.ite_none_right_eq_some, Option.some.injEq,
    List.isPrefixOf_iff_prefix] at h
  obtain ⟨hbegins, rfl⟩ := h
  rwa [← List.prefix_iff_eq_take.1 hbegins]

theorem orElse (hp : p.Avoids c) (hq : q.Avoids c) : (Pattern.orElse p q).Avoids c := by
  intro t n h
  unfold Pattern.orElse at h
  split at h
  · next m hm =>
    obtain rfl : m = n := Option.some.inj h
    exact hp t m hm
  · exact hq t n h

theorem maybe (hp : p.Avoids c) : (Pattern.maybe p).Avoids c := by
  refine hp.orElse fun t n h => ?_
  obtain rfl : 0 = n := Option.some.inj h
  simp

end Pattern.Avoids

namespace Lexeme

section Path

variable {c : Char} (hc : isSymbolPart c = false) (hdot : c ≠ '.')
include hc hdot

theorem not_mem_take_pathTail (t : Text) : c ∉ t.take (pathTail t) := by
  fun_induction pathTail t with
  | case1 => simp
  | case2 d rest hd ih =>
    have hne : c ≠ d := by
      rintro rfl
      simp [isSymbolPart_of_isSymbolStart _ hd] at hc
    simp [hne, hdot, ih]
  | case3 => simp
  | case4 d rest _ hd ih =>
    have hne : c ≠ d := by
      rintro rfl
      simp [hd] at hc
    simp [hne, ih]
  | case5 => simp

/-- A path holds nothing but symbols and the points between them. -/
theorem avoids_path : path.Avoids c := by
  have hstart : isSymbolStart c = false := by
    cases hs : isSymbolStart c with
    | false => rfl
    | true => exact absurd (isSymbolPart_of_isSymbolStart _ hs) (by simp [hc])
  apply Pattern.Avoids.andThen (.one hstart)
  intro t n h
  obtain rfl : pathTail t = n := by simpa using h
  exact not_mem_take_pathTail hc hdot t

end Path

/-- Numbers hold no mark that opens a quoted run or a comment. -/
theorem avoids_number {c : Char} (hc : c ∈ ['"', '\'', '#']) :
    ∀ p ∈ [fraction, hexadecimal, binary, decimal], p.Avoids c := by
  have hnot (letters : Char → Bool) (h : ['"', '\'', '#'].all fun d => !letters d) :
      letters c = false := by simpa using List.all_eq_true.1 h c hc
  have hword {w : Text} (h : ['"', '\'', '#'].all fun d => d ∉ w) : c ∉ w :=
    of_decide_eq_true (List.all_eq_true.1 h c hc)
  have hdigits : (Pattern.someRun Char.isDigit).Avoids c := .someRun (hnot _ (by decide))
  have hsign : sign.Avoids c := .maybe (.one (hnot (fun c => c = '+' || c = '-') (by decide)))
  have hdecimal : decimal.Avoids c := .andThen hsign hdigits
  have hexponent : exponent.Avoids c :=
    .andThen (.one (hnot (fun c => c = 'e' || c = 'E') (by decide))) (.andThen hsign hdigits)
  have hmark : fractionMark.Avoids c := .one (hnot (fun c => c = 'f' || c = 'F') (by decide))
  have htail : fractionTail.Avoids c :=
    .orElse (.andThen (.one (hnot (· = '.') (by decide))) (.andThen (.run (hnot _ (by decide)))
      (.andThen (.maybe hexponent) (.maybe hmark))))
      (.orElse (.andThen hexponent (.maybe hmark)) hmark)
  have hfraction : fraction.Avoids c := .andThen hdecimal htail
  have hhexadecimal : hexadecimal.Avoids c :=
    .andThen hsign (.andThen (.word (hword (by decide))) (.someRun (hnot isHexDigit (by decide))))
  have hbinary : binary.Avoids c :=
    .andThen hsign (.andThen (.word (hword (by decide)))
      (.someRun (hnot isBinaryDigit (by decide))))
  simp [hfraction, hhexadecimal, hbinary, hdecimal]

theorem avoids_symbol : symbol.Avoids '\n' := .andThen (.one (by decide)) (.run (by decide))

theorem avoids_propertyName : propertyName.Avoids '\n' :=
  .andThen (.one (by decide)) (.run (by decide))

end Lexeme

end NodeMarkup
