import NodeMarkup.Text.Quoted

namespace NodeMarkup.Text

/-- What the rest of a double-quoted literal stands for, and the text behind its closing mark. A
backslash stands for the scalar value after it. -/
def unquoteTail? : Text → Option (Text × Text)
  | [] => none
  | '\\' :: c :: rest => (unquoteTail? rest).map fun (t, behind) => (c :: t, behind)
  | c :: rest =>
    if c = '"' then some ([], rest)
    else (unquoteTail? rest).map fun (t, behind) => (c :: t, behind)

/-- What the double-quoted literal at the start of a text stands for, and the text behind it. -/
def unquote? : Text → Option (Text × Text)
  | '"' :: rest => unquoteTail? rest
  | _ => none

theorem unquoteTail?_cons {c : Char} (hc : c ≠ '\\') (hq : c ≠ '"') (t : Text) :
    unquoteTail? (c :: t) = (unquoteTail? t).map fun (t, behind) => (c :: t, behind) := by
  rw [unquoteTail?, if_neg hq]
  rintro _ _ rfl
  exact absurd rfl hc

theorem unquoteTail?_escape (t rest : Text) :
    unquoteTail? (escape t ++ '"' :: rest) = some (t, rest) := by
  induction t with
  | nil => simp [escape, unquoteTail?]
  | cons c t ih =>
    rw [escape]
    split
    · rw [List.cons_append, List.cons_append, unquoteTail?, ih]
      rfl
    · next hc =>
      simp only [Bool.or_eq_true, decide_eq_true_eq, not_or] at hc
      rw [List.cons_append, unquoteTail?_cons hc.2 hc.1, ih]
      rfl

/-- A quoted text is read back, and nothing in it ends the literal early. -/
theorem unquote?_quote (t rest : Text) : unquote? (quote t ++ rest) = some (t, rest) := by
  rw [quote, List.append_assoc, List.singleton_append, List.cons_append]
  exact unquoteTail?_escape t rest

/-- Takes the backslash off each backslash and each quote that is hidden behind one. Every other
backslash stays. -/
def unescape : Text → Text
  | [] => []
  | '\\' :: c :: rest =>
    if c = '\\' || isQuote c then c :: unescape rest else '\\' :: c :: unescape rest
  | c :: rest => c :: unescape rest

theorem unescape_cons {c : Char} (hc : c ≠ '\\') (t : Text) :
    unescape (c :: t) = c :: unescape t := by
  rw [unescape]
  rintro _ _ rfl
  exact absurd rfl hc

theorem unescape_escape (t : Text) : unescape (escape t) = t := by
  induction t with
  | nil => rfl
  | cons c t ih =>
    rw [escape]
    split
    · next hc =>
      simp only [Bool.or_eq_true, decide_eq_true_eq] at hc
      have hhidden : (c = '\\' || isQuote c) = true := by
        rcases hc with rfl | rfl <;> decide
      rw [unescape, if_pos hhidden, ih]
    · next hc =>
      simp only [Bool.or_eq_true, decide_eq_true_eq, not_or] at hc
      rw [unescape_cons hc.2, ih]

end NodeMarkup.Text
