import NodeMarkup.Proofs.Token.Pair
/-!
Words and the keywords inside them. The search steps over a whole word, whose letters may be any
letters, while a keyword is told from the beginning of a longer name by the letters of symbols
alone.
-/
namespace NodeMarkup

open RuleT

variable {α β : Type} {t rest w : Text} {rule : Rule α} {Q : α → Prop} {more : List Text}
  {fault : Fault} {n : Nat}

/-- On the text the rule demands in vain, `n` scalar values further on, what the fault says. -/
def Raises (t : Text) (rule : Rule α) (fault : Fault) (n : Nat) : Prop :=
  ∀ e : Engine, e.Before t → (rule.result e).1 = .error (.ofCursor fault (e.cursor.advanceBy n))

namespace Raises

theorem required (h : GivesUp (Text.skipIgnorable t) rule) (hk : Keeps rule) (fault : Fault) :
    Raises t (RuleT.required fault rule) fault 0 := by
  intro e he
  have hfacing := he.require fault
  have howed : (e.require fault).frame.obligation = some ⟨fault, e.cursor⟩ := by
    unfold Engine.require
    rw [if_neg (by simp [he.failed])]
  have hscope := result_scope_eq hfacing.failed (hk (e.require fault).openFrame)
  rw [h _ hfacing.openFrame, howed] at hscope
  have hrequire : (RuleT.require fault : Rule Unit).result e = (.hit (), e.require fault) := rfl
  unfold RuleT.required RuleT.framed
  rw [result_bind, hrequire]
  dsimp only
  rw [result_bind, hscope]
  rfl

theorem bind (h : Raises t rule fault n) (next : α → Rule β) :
    Raises t (rule >>= next) fault n := by
  intro e he
  have hrun : rule.result e = (.error _, (rule.result e).2) := Prod.ext (h e he) rfl
  rw [result_bind, hrun]

/-- A rule that reads `w` and goes on with one that demands in vain. -/
theorem behind {next : α → Rule β} (h : Hits (w ++ rest) rule Q more rest) (hk : Keeps rule)
    (hn : ∀ value, Q value → Raises rest (next value) fault n) :
    Raises (w ++ rest) (rule >>= next) fault (w.length + n) := by
  intro e he
  obtain ⟨value, e', hrun, hvalue, he', -⟩ := h e he
  have hreach := (hk e).reaches
  rw [hrun] at hreach
  have hcursor : e'.cursor = e.cursor.advanceBy w.length :=
    hreach.eq_advanceBy_length (by rw [he.rest, he'.rest])
  rw [result_bind, hrun]
  dsimp only
  rw [hn value hvalue e' he', hcursor, Cursor.advanceBy_advanceBy]

theorem scope (h : Raises t rule fault n) (hk : Keeps rule) (hcode : Text.skipIgnorable t = t) :
    Raises t (RuleT.scope rule) fault n := by
  intro e he
  have hopen := he.openFrame
  rw [hcode] at hopen
  have hplace : e.openFrame.cursor = e.cursor :=
    Cursor.skipIgnorable_of_rest (he.rest ▸ hcode)
  rw [result_scope_eq he.failed (hk e.openFrame), h _ hopen, hplace]

/-- No branch behind one that demands in vain is tried. -/
theorem alt (h : Raises t rule fault n) (hk : Keeps rule) (hcode : Text.skipIgnorable t = t)
    (after : List (Rule α)) : Raises t (RuleT.alt (rule :: after)) fault n := by
  intro e he
  have hscope : (RuleT.scope rule).result e = (.error _, ((RuleT.scope rule).result e).2) :=
    Prod.ext (h.scope hk hcode e he) rfl
  rw [result_alt _ he.failed, he.discharged_eq, result_firstOf_cons, hscope]

end Raises

/-- The words of the search have all the letters that symbols have. -/
theorem Text.isWord_of_isSymbolPart {c : Char} (h : Lexeme.isSymbolPart c) : Text.isWord c := by
  simp only [Lexeme.isSymbolPart, Bool.or_eq_true] at h
  simp only [Text.isWord, Text.isAlphanumeric, Bool.or_eq_true]
  rcases h with h | h
  · exact .inl (.inl h)
  · exact .inr h

/-- No token but a declaration begins with a letter of a word. -/
theorem Text.code_of_isWord {c : Char} (h : Text.isWord c) :
    isIgnorable c = false ∧ Text.isQuote c = false ∧ c ≠ '<' := by
  have hnone : [' ', '\t', '\n', '\r', '#', '"', '\''].all fun d => !Text.isWord d := by
    decide +kernel
  have hangle : Text.isWord '<' = false := by decide +kernel
  obtain ⟨hcode, hquote⟩ := beginsCode_of_class h hnone
  refine ⟨hcode, hquote, ?_⟩
  rintro rfl
  simp [hangle] at h

/-- The word that a text begins with. It is empty if none stands there. -/
def Text.firstWord (t : Text) : Text := t.takeWhile Text.isWord

/-- The word begins like an import, and its next letter is none of a symbol. -/
def Text.CutsImport (w : Text) : Prop :=
  ∃ c more, w = "import".toList ++ c :: more ∧ Lexeme.isSymbolPart c = false

namespace Grammar

theorem keyword_isWord {word : Text} (h : word ∈ keywords) : ∀ c ∈ word, Text.isWord c := by
  intro c hc
  apply Text.isWord_of_isSymbolPart
  have hall : keywords.all fun word => word.all Lexeme.isSymbolPart := by decide
  exact List.all_eq_true.1 (List.all_eq_true.1 hall word h) c hc

/-- A keyword at the start of a text that is not the first word of the text goes on in that word. -/
theorem firstWord_of_keyword {word : Text} (hword : word ∈ keywords)
    (hnot : Text.firstWord t ∉ keywords) (hbegins : word <+: t) :
    ∃ c u, t = word ++ c :: u ∧ Text.isWord c ∧
      Text.firstWord t = word ++ c :: Text.firstWord u := by
  obtain ⟨v, rfl⟩ := hbegins
  have htake : Text.firstWord (word ++ v) = word ++ Text.firstWord v :=
    List.takeWhile_append_of_pos (keyword_isWord hword)
  rw [htake] at hnot ⊢
  cases v with
  | nil => exact absurd (by simpa [Text.firstWord] using hword) hnot
  | cons c u =>
    cases hc : Text.isWord c with
    | false => exact absurd (by simpa [Text.firstWord, hc] using hword) hnot
    | true => exact ⟨c, u, rfl, hc, by simp [Text.firstWord, hc]⟩

variable {c : Char}

/-- No declaration begins at a word that is no keyword, if the declaration is given up where the
keyword ends inside the word at a letter that no symbol has. -/
theorem givesUp_of_word {word : Text} (hword : word ∈ keywords)
    (hnot : Text.firstWord t ∉ keywords) {next : Capture → Rule α}
    (hnext : ∀ c u, Text.firstWord t = word ++ c :: Text.firstWord u →
      isIgnorable c = false → Lexeme.isSymbolPart c = false →
      ∀ start, GivesUp (c :: u) (next start)) :
    GivesUp t (keyword word >>= next) := by
  by_cases hbegins : word <+: t
  · obtain ⟨c, u, rfl, hc, htake⟩ := firstWord_of_keyword hword hnot hbegins
    cases hpart : Lexeme.isSymbolPart c with
    | true => exact givesUp_keyword_of_part hpart word next
    | false =>
      have hkeyword := hits_keyword (t := c :: u) (by simpa using hpart) word
      have hcode := (Text.code_of_isWord hc).1
      exact GivesUp.behind hkeyword fun start _ => hnext c u htake hcode hpart start
  · exact givesUp_keyword hbegins next

theorem misses_token_of_word (hcode : Text.skipIgnorable t = t) (hne : Text.firstWord t ≠ [])
    (hnot : Text.firstWord t ∉ keywords) (hcut : ¬Text.CutsImport (Text.firstWord t)) :
    Misses t token := by
  have himport : GivesUp t importToken :=
    givesUp_of_word (by simp [keywords]) hnot fun c u htake _ hpart =>
      absurd ⟨c, _, htake, hpart⟩ hcut
  have hvariable : GivesUp t variableToken :=
    givesUp_of_word (by simp [keywords]) hnot fun c u _ hcode hpart _ =>
      (((misses_name hpart hcode).bind _).bind _).givesUp
  have hfunction : GivesUp t functionToken :=
    givesUp_of_word (by simp [keywords]) hnot fun c u _ hcode hpart _ =>
      ((misses_name hpart hcode).bind _).givesUp
  have hangle : t.head? ≠ some '<' := by
    intro hhead
    obtain ⟨u, rfl⟩ := List.head?_eq_some_iff.1 hhead
    have hword : Text.isWord '<' = false := by decide +kernel
    simp [Text.firstWord, hword] at hne
  apply GivesUp.alt
  rw [hcode]
  simp only [List.forall_mem_cons, List.not_mem_nil, false_implies, implies_true, and_true]
  exact ⟨⟨himport, structured_importToken.keeps⟩, ⟨hvariable, structured_variableToken.keeps⟩,
    ⟨hfunction, structured_functionToken.keeps⟩, givesUp_tagToken_of_head hcode hangle,
    structured_tagToken.keeps⟩

theorem raises_importToken (h : Lexeme.isSymbolPart c = false) (hcode : isIgnorable c = false) :
    Raises ("import".toList ++ c :: t) importToken .missingImportName "import".toList.length := by
  have hkeyword := hits_keyword (t := c :: t) (by simpa using h) "import".toList
  have hname := Raises.required (givesUp_symbol (t := t) h hcode) structured_symbol.keeps
    .missingImportName
  exact Raises.behind hkeyword (structured_keyword _).keeps fun _ _ => hname.bind _

theorem raises_token_of_word (hcut : Text.CutsImport (Text.firstWord t)) :
    Raises t token .missingImportName "import".toList.length := by
  obtain ⟨c, more, htake, hpart⟩ := hcut
  have hword : Text.isWord c := by
    have hall : (Text.firstWord t).all Text.isWord := List.all_takeWhile
    exact List.all_eq_true.1 hall c (by simp [htake])
  -- the letter behind `import` is the next one of the text as well
  obtain ⟨u, hu⟩ : Text.firstWord t <+: t := List.takeWhile_prefix _
  rw [htake] at hu
  obtain rfl : "import".toList ++ c :: (more ++ u) = t := by simpa using hu
  have himport := raises_importToken (t := more ++ u) hpart (Text.code_of_isWord hword).1
  exact himport.alt structured_importToken.keeps (Text.skipIgnorable_of_code (by decide)) _

end Grammar

/-- What is stepped over at a word is the word. -/
theorem unrecognisedLength_of_word (inCode : Bool) (h : Text.firstWord t ≠ []) :
    unrecognisedLength inCode t = (Text.firstWord t).length := by
  have hpos := List.length_pos_iff.2 h
  have hquote : t.head? ≠ some '"' ∧ t.head? ≠ some '\'' := by
    cases t with
    | nil => simp
    | cons c t =>
      cases hc : Text.isWord c with
      | false => simp [Text.firstWord, hc] at h
      | true =>
        have hnot := (Text.code_of_isWord hc).2.1
        simpa [Text.isQuote] using hnot
  have hmax : max 1 (Text.firstWord t).length = (Text.firstWord t).length := by omega
  unfold unrecognisedLength
  simp only [hquote, decide_false, Bool.and_false, Bool.or_self, Bool.false_eq_true, ↓reduceIte]
  exact hmax

/-- Where the first code behind a cursor is a word that is no keyword, no token begins and the search
goes on behind the whole word. The exception is a word that begins like an import and goes on with a
letter that no symbol has, which is an error at that letter. -/
theorem Engine.seek_behind_word {source w : Text} {e : Engine} {c place : Cursor}
    (he : e.Between source) (hc : Cursor.IsPlace source c) (hplace : c.skipIgnorable = place)
    (hword : Text.firstWord place.rest = w) (hne : w ≠ []) (hkeyword : w ∉ Grammar.keywords)
    (openTags : Nat) :
    (¬w.CutsImport → (Grammar.token.result (e.rewind place)).1 = .miss ∧
      e.seek openTags c = e.seek openTags (place.advanceBy w.length)) ∧
    (w.CutsImport → (e.seek openTags c).1 =
      .error (.ofCursor .missingImportName (place.advanceBy "import".toList.length))) := by
  subst hplace hword
  have hskip : Text.skipIgnorable c.skipIgnorable.rest = c.skipIgnorable.rest := by
    rw [Cursor.rest_skipIgnorable, Text.skipIgnorable_skipIgnorable]
  have hcode : ¬c.skipIgnorable.atEnd := by
    intro hend
    have hnil : c.skipIgnorable.rest = [] := by simpa [Cursor.atEnd] using hend
    simp [hnil, Text.firstWord] at hne
  have hroom : c.rest.length ≤ e.source.length := by
    rw [he.source_eq, ← Cursor.rest_start source]
    exact Cursor.Reaches.length_rest_le hc
  have hle := (Cursor.reaches_skipIgnorable c).length_rest_le
  have hbefore : (e.rewind c.skipIgnorable).Before c.skipIgnorable.rest :=
    ⟨⟨rfl, Nat.le_trans hle hroom, rfl, rfl⟩, rfl⟩
  constructor
  · intro hcut
    have hmiss := Grammar.misses_token_of_word hskip hne hkeyword hcut
    refine ⟨hmiss.givesUp _ hbefore, ?_⟩
    rw [seek_unrecognised he.outer_eq hroom hcode hmiss, Cursor.skipUnrecognised,
      unrecognisedLength_of_word _ hne]
  · intro hcut
    have hraises := Grammar.raises_token_of_word hcut _ hbefore
    have hrun : Grammar.token.result (e.rewind c.skipIgnorable) = (.error _, _) :=
      Prod.ext hraises rfl
    rw [seek_of_code he.outer_eq hcode, hrun]
    rfl

theorem Engine.seek_behind_word_letter :
    Text.firstWord "varé = 1".toList = "varé".toList ∧ "varé".toList ∉ Grammar.keywords ∧
    ¬Text.CutsImport "varé".toList ∧
    (Engine.start "varé = 1".toList).seek 0 (.start "varé = 1".toList) =
      (Engine.start "varé = 1".toList).seek 0 ((Cursor.start "varé = 1".toList).advanceBy 4) := by
  have hcut : ¬Text.CutsImport "varé".toList := by
    intro hcut
    obtain ⟨c, more, h, -⟩ := hcut
    simp at h
  have hplace : (Cursor.start "varé = 1".toList).skipIgnorable = .start "varé = 1".toList := by
    decide
  have hbehind := Engine.seek_behind_word (Engine.between_start "varé = 1".toList)
    (Cursor.isPlace_start "varé = 1".toList) hplace (w := "varé".toList) (by decide +kernel)
    (by decide) (by decide) 0
  exact ⟨by decide +kernel, by decide, hcut, (hbehind.1 hcut).2⟩

/-- The letter behind `import` goes on the word but ends the keyword, so the word is an error. -/
theorem Scan.drain_import_letter :
    Text.firstWord "importé".toList = "importé".toList ∧ "importé".toList ∉ Grammar.keywords ∧
    (Scan.start "importé".toList).drain.1 = [] ∧
    (Scan.start "importé".toList).drain.2.1 = .failed ⟨.missingImportName, 1, 7⟩ := by
  decide +kernel

end NodeMarkup
