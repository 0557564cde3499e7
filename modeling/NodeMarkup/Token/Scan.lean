import NodeMarkup.Grammar.Declaration
import NodeMarkup.Grammar.Tag
import NodeMarkup.Text.Classes
/-!
Scans: the tokens of a source one after the other. A scan tries the rules at each place and steps
over what none of them recognises, so that ordinary code goes by without a token.
-/
namespace NodeMarkup

/-- What is stepped over where no rule applies: a whole literal, so that its text is never read as
code; a whole word, so that no keyword is found inside one; or else one scalar value. In the body of
a tag a single quote is an apostrophe and opens no literal. -/
def unrecognisedLength (inCode : Bool) (t : Text) : Nat :=
  let quoted := t.head? = some '"' || (inCode && t.head? = some '\'')
  match if quoted then Lexeme.literal t else none with
  | some n => n
  | none => max 1 (t.takeWhile Text.isWord).length

namespace Lexeme

theorem tripleLiteral_pos {t : Text} {n : Nat} (h : tripleLiteral t = some n) : 0 < n := by
  unfold tripleLiteral Pattern.andThen at h
  simp only [Option.bind_eq_bind, Option.bind_eq_some_iff, Pattern.word] at h
  obtain ⟨k, hk, m, -, h⟩ := h
  split at hk
  · have : tripleMark.length = 3 := rfl
    simp only [Option.some.injEq] at hk
    simp at h
    omega
  · simp at hk

theorem lineLiteral_pos {t : Text} {n : Nat} (h : lineLiteral t = some n) : 0 < n := by
  unfold lineLiteral at h
  split at h
  · simp at h
  · split at h
    · obtain ⟨m, -, rfl⟩ := Option.map_eq_some_iff.1 h
      omega
    · simp at h

theorem literal_pos {t : Text} {n : Nat} (h : literal t = some n) : 0 < n := by
  unfold literal Pattern.orElse at h
  split at h
  case h_1 m hm =>
    have := tripleLiteral_pos hm
    simp only [Option.some.injEq] at h
    omega
  case h_2 => exact lineLiteral_pos h

end Lexeme

theorem unrecognisedLength_pos (inCode : Bool) (t : Text) : 0 < unrecognisedLength inCode t := by
  unfold unrecognisedLength
  dsimp only
  split
  case h_1 n h =>
    split at h
    · exact Lexeme.literal_pos h
    · simp at h
  case h_2 => omega

/-- Steps over what no rule recognises. -/
def Cursor.skipUnrecognised (inCode : Bool) (c : Cursor) : Cursor :=
  c.advanceBy (unrecognisedLength inCode c.rest)

/-- Stepping over ignorable text and over what no rule recognises leaves less to read. -/
theorem Cursor.length_rest_skip_lt (inCode : Bool) (c : Cursor) (h : ¬c.skipIgnorable.atEnd) :
    (c.skipIgnorable.skipUnrecognised inCode).rest.length < c.rest.length := by
  have hpos := unrecognisedLength_pos inCode c.skipIgnorable.rest
  have hne : c.skipIgnorable.rest ≠ [] := by simpa [Cursor.atEnd] using h
  have hlt : 0 < c.skipIgnorable.rest.length := List.length_pos_iff.2 hne
  have hle : c.skipIgnorable.rest.length ≤ c.rest.length := by simp [Cursor.skipIgnorable]
  simp only [Cursor.skipUnrecognised, Cursor.rest_advanceBy, List.length_drop]
  omega

section Effects

variable {m : Type → Type} [Monad m] [Checks m] [Arena m]

namespace Grammar

/-- A token. The rules are tried in this order. -/
def token : RuleT m Token :=
  RuleT.alt [importToken, variableToken, functionToken, tagToken]

end Grammar

def Cursor.skipUnrecognised? (inCode : Bool) (c : Cursor) : Option Cursor := do
  let rest ← c.rest?
  c.advanceBy? (unrecognisedLength inCode rest)

/-- Looks for the next token from a cursor on, `openTags` being the number of tags that are open
there. A miss says that there is none. -/
def Engine.seekM (openTags : Nat) (cursor : Cursor) (e : Engine) :
    m (Outcome Token × Engine) := do
  let place := cursor.skipIgnorable
  check place cursor.skipIgnorable?
  check place.atEnd (some (Text.byteLength place.source ≤ place.position : Bool))
  if _ : place.atEnd then return (.miss, e.rewind place)
  else
    let (result, e) ← Grammar.token (e.rewind place)
    ensure (e.depth = 0)
    match result with
    | .error x => return (.error x, e)
    | result =>
      if e.depth ≠ 0 then return (.error (.ofCursor .frameLeftOpen e.cursor), e)
      else
        match result with
        | .hit token => return (.hit token, e)
        | _ =>
          let behind := place.skipUnrecognised (openTags == 0)
          check behind (place.skipUnrecognised? (openTags == 0))
          e.seekM openTags behind
termination_by cursor.rest.length
decreasing_by exact cursor.length_rest_skip_lt (openTags == 0) (by assumption)

end Effects

def Engine.seek (openTags : Nat) (cursor : Cursor) (e : Engine) : Outcome Token × Engine :=
  Id.run (e.seekM openTags cursor)

/-- The number of open tags behind a token. -/
def Token.openTags (openTags : Nat) : Token → Nat
  | ofTag tag =>
    match tag.kind with
    | .opening => openTags + 1
    | .single => openTags
    | .closing => openTags - 1
  | _ => openTags

/-- A pass over the tokens of a source. -/
structure Scan where
  engine : Engine
  -- The opening tags without the closing tags so far.
  openTags : Nat
  -- Whether the scan has come to its end or to an error.
  done : Bool
deriving DecidableEq, Repr, Inhabited

inductive ScanEnd where
  -- As many tokens were read as were asked for.
  | limit
  -- There are no more tokens.
  | finished
  | failed (e : ParseError)
deriving DecidableEq, Repr, Inhabited

namespace Scan

section Effects

variable {m : Type → Type} [Monad m] [Checks m] [Arena m]

/-- A new scan of the source of an engine, whatever the engine did before. -/
def againM (e : Engine) : m Scan := return ⟨← Arena.restart e, 0, false⟩

/-- The next token. Behind an error there is none. -/
def nextM (s : Scan) : m (Outcome Token × Scan) :=
  if s.done then return (.miss, s)
  else do
    match ← s.engine.seekM s.openTags s.engine.cursor with
    | (.hit token, engine) => return (.hit token, ⟨engine, token.openTags s.openTags, false⟩)
    | (result, engine) => return (result, ⟨engine, s.openTags, true⟩)

/-- At most `n` tokens, how the scan stopped, and the scan behind them. -/
def takeM : Nat → Scan → m (List Token × ScanEnd × Scan)
  | 0, s => return ([], .limit, s)
  | n + 1, s => do
    match ← s.nextM with
    | (.hit token, s) =>
      let (tokens, stop, s) ← takeM n s
      return (token :: tokens, stop, s)
    | (.miss, s) => return ([], .finished, s)
    | (.error x, s) => return ([], .failed x, s)

/-- All tokens. Each of them covers at least one scalar value of its own. -/
def drainM (s : Scan) : m (List Token × ScanEnd × Scan) := s.takeM (s.engine.source.length + 1)

end Effects

def again (e : Engine) : Scan := Id.run (againM e)

def start (source : Text) : Scan := again (.start source)

def next (s : Scan) : Outcome Token × Scan := Id.run s.nextM

def take (n : Nat) (s : Scan) : List Token × ScanEnd × Scan := Id.run (s.takeM n)

def drain (s : Scan) : List Token × ScanEnd × Scan := Id.run s.drainM

end Scan

end NodeMarkup
