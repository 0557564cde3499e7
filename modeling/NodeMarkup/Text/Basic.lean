/-!
Texts as lists of scalar values, with the two measures that positions need: bytes in UTF-8 for
offsets, scalar values for columns.
-/
namespace NodeMarkup

/-- A text, one scalar value after the other. -/
abbrev Text := List Char

namespace Text

def toBytes (t : Text) : ByteArray := (String.ofList t).toUTF8

/-- The text of some bytes, if they are valid UTF-8. -/
def ofBytes? (bytes : ByteArray) : Option Text := (String.fromUTF8? bytes).map String.toList

/-- The number of bytes that a text takes in UTF-8. -/
def byteLength : Text → Nat
  | [] => 0
  | c :: rest => c.utf8Size + byteLength rest

@[simp]
theorem byteLength_nil : byteLength [] = 0 := rfl

@[simp]
theorem byteLength_cons (c : Char) (t : Text) :
    byteLength (c :: t) = c.utf8Size + byteLength t := rfl

@[simp]
theorem byteLength_append (s t : Text) : byteLength (s ++ t) = byteLength s + byteLength t := by
  induction s with
  | nil => simp
  | cons c s ih => simp [ih, Nat.add_assoc]

/-- How many leading scalar values it takes to reach byte `n`, all of them if the text is shorter.
A byte inside a scalar value is reached behind that value. -/
def reach : Nat → Text → Nat
  | _, [] => 0
  | n, c :: rest => if n = 0 then 0 else reach (n - c.utf8Size) rest + 1

/-- A whole number of scalar values is reached exactly. -/
theorem reach_byteLength_append (s t : Text) : reach (byteLength s) (s ++ t) = s.length := by
  induction s with
  | nil => cases t <;> simp [reach]
  | cons c s ih =>
    have hc := c.utf8Size_pos
    have hne : byteLength (c :: s) ≠ 0 := by simp only [byteLength_cons]; omega
    simp [reach, ih]
    omega

/-- The pieces of a text between the separators; a text without one is its only piece. -/
def split (separator : Char) : Text → List Text
  | [] => [[]]
  | c :: rest =>
    if c = separator then [] :: split separator rest
    else
      match split separator rest with
      | [] => [[c]]
      | piece :: more => (c :: piece) :: more

/-- The pieces of a text with one separator between each two. -/
def join (separator : Char) (pieces : List Text) : Text :=
  [separator].intercalate pieces

theorem split_ne_nil (separator : Char) (t : Text) : split separator t ≠ [] := by
  cases t with
  | nil => simp [split]
  | cons c t =>
    unfold split
    split
    · simp
    · split <;> simp

theorem join_split (separator : Char) (t : Text) : join separator (split separator t) = t := by
  induction t with
  | nil => rfl
  | cons c t ih =>
    unfold split
    split
    case isTrue h =>
      subst h
      cases hs : split c t with
      | nil => exact absurd hs (split_ne_nil c t)
      | cons piece more =>
        rw [hs] at ih
        simp only [join] at ih ⊢
        rw [← ih]
        simp [List.intercalate]
    case isFalse h =>
      split
      case h_1 hs => exact absurd hs (split_ne_nil separator t)
      case h_2 piece more hs =>
        rw [hs] at ih
        rw [← ih]
        cases more <;> simp [join, List.intercalate]

/-- Where a text begins for the first time, counted in scalar values. -/
def indexOf? (wanted : Text) : Text → Option Nat
  | [] => if wanted.isEmpty then some 0 else none
  | c :: rest =>
    if wanted.isPrefixOf (c :: rest) then some 0 else (indexOf? wanted rest).map (· + 1)

end Text

end NodeMarkup
