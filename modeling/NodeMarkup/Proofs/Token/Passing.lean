import NodeMarkup.Proofs.Grammar.Values
import NodeMarkup.Proofs.Token.Shift
/-!
Text without tokens. A search steps over it piece by piece: ignorable text, literals, words and
single scalar values.
-/
namespace NodeMarkup

open RuleT

/-- The keywords that begin a token. -/
def Grammar.keywords : List Text := ["import".toList, "var".toList, "func".toList]

/-- No token begins with the text: neither a keyword stands there nor a tag with its class. -/
structure Text.Plain (t : Text) : Prop where
  keyword : ∀ word ∈ Grammar.keywords, ¬word <+: t
  opening : ∀ u, t = '<' :: u → Lexeme.path u = none
  closing : ∀ u, t = '<' :: '/' :: u → Lexeme.path u = none

namespace Grammar

variable {t : Text}

theorem givesUp_keyword {α : Type} {word : Text} (h : ¬word <+: t) (next : Capture → Rule α) :
    GivesUp t (keyword word >>= next) :=
  (((Misses.literal h).bind _).givesUp).bind next

/-- A keyword inside a longer name is none. -/
theorem givesUp_keyword_of_part {α : Type} {c : Char} (h : Lexeme.isSymbolPart c) (word : Text)
    (next : Capture → Rule α) : GivesUp (word ++ c :: t) (keyword word >>= next) := by
  have hpart : Lexeme.symbolPart (c :: t) = some 1 := by simp [Lexeme.symbolPart, Pattern.one, h]
  exact (GivesUp.behind (Hits.literal word (c :: t)) fun _ _ => .negated hpart _).bind next

theorem hits_keyword (h : ∀ c ∈ t.head?, Lexeme.isSymbolPart c = false) (word : Text) :
    Hits (word ++ t) (keyword word) (fun capture => capture.text = word) [word] t := by
  have hpart : Lexeme.symbolPart t = none := by
    cases t with
    | nil => rfl
    | cons c t => simp [Lexeme.symbolPart, Pattern.one, h c rfl]
  exact (Hits.literal word t).bind_silent fun _ htext => .negated hpart fun _ => .pure htext

theorem givesUp_symbol {c : Char} (h : Lexeme.isSymbolPart c = false)
    (hcode : isIgnorable c = false) :
    GivesUp (Text.skipIgnorable (c :: t)) symbol := by
  have hstart : Lexeme.isSymbolStart c = false := by
    cases hs : Lexeme.isSymbolStart c with
    | false => rfl
    | true => simp [Lexeme.isSymbolPart_of_isSymbolStart c hs] at h
  have hnone : Lexeme.symbol (c :: t) = none := by
    simp [Lexeme.symbol, Pattern.andThen, Pattern.one, hstart]
  rw [Text.skipIgnorable_of_code hcode]
  exact (Misses.pattern hnone).givesUp

theorem misses_name {c : Char} (h : Lexeme.isSymbolPart c = false)
    (hcode : isIgnorable c = false) :
    Misses (c :: t) (framed symbol) :=
  (givesUp_symbol h hcode).framed structured_symbol.keeps

theorem givesUp_tagToken_of_head (hcode : Text.skipIgnorable t = t) (h : t.head? ≠ some '<') :
    GivesUp t tagToken := by
  have hopener : Misses t (alt [literal "</".toList, literal "<".toList] : Rule Capture) := by
    apply GivesUp.alt
    rw [hcode]
    intro word hword
    simp only [List.mem_cons, List.not_mem_nil, or_false] at hword
    rcases hword with rfl | rfl <;>
      exact ⟨(Misses.literal_of_head (c := '<') rfl h).givesUp, (Structured.literal _).keeps⟩
  exact hopener.givesUp.bind _

/-- A `<` or `</` without a class behind it opens no tag. -/
theorem givesUp_tagToken (hcode : Text.skipIgnorable t = t) (h : t.Plain) :
    GivesUp t tagToken := by
  have hk (word : Text) : Keeps (literal word : Rule Capture) := (Structured.literal word).keeps
  have hclass {u : Text} (hu : Lexeme.path u = none) {next : Capture → Rule Token} :
      GivesUp u (pattern Lexeme.path >>= next) := (Misses.pattern hu).givesUp.bind _
  by_cases hclosing : "</".toList <+: t
  · obtain ⟨u, rfl⟩ := hclosing
    have hopener := (Hits.literal "</".toList u).alt_of_code [] [literal "<".toList] hcode (by simp)
      (hk _)
    exact GivesUp.behind hopener fun _ _ => hclass (h.closing u rfl)
  · have hslash : GivesUp t (literal "</".toList : Rule Capture) := (Misses.literal hclosing).givesUp
    by_cases hopening : "<".toList <+: t
    · obtain ⟨u, rfl⟩ := hopening
      have hopener := (Hits.literal "<".toList u).alt_of_code [literal "</".toList] [] hcode
        (by simpa using ⟨hslash, hk _⟩) (hk _)
      exact GivesUp.behind hopener fun _ _ => hclass (h.opening u rfl)
    · refine givesUp_tagToken_of_head hcode fun hhead => hopening ?_
      obtain ⟨u, rfl⟩ := List.head?_eq_some_iff.1 hhead
      exact ⟨u, rfl⟩

theorem misses_token (hcode : Text.skipIgnorable t = t) (h : t.Plain) : Misses t token := by
  have hword := h.keyword
  simp only [keywords, List.forall_mem_cons, List.not_mem_nil, false_implies, implies_true,
    and_true] at hword
  obtain ⟨himport, hvar, hfunc⟩ := hword
  apply GivesUp.alt
  rw [hcode]
  simp only [List.forall_mem_cons, List.not_mem_nil, false_implies, implies_true, and_true]
  exact ⟨⟨givesUp_keyword himport _, structured_importToken.keeps⟩,
    ⟨givesUp_keyword hvar _, structured_variableToken.keeps⟩,
    ⟨givesUp_keyword hfunc _, structured_functionToken.keeps⟩,
    givesUp_tagToken hcode h, structured_tagToken.keeps⟩

theorem misses_token_of_quote {c : Char} {t : Text} (hc : c = '"' ∨ c = '\'') :
    Misses (c :: t) token := by
  have hcode : Text.skipIgnorable (c :: t) = c :: t :=
    Text.skipIgnorable_of_code (by rcases hc with rfl | rfl <;> decide)
  have hne : c ≠ '<' := by rcases hc with rfl | rfl <;> decide
  refine misses_token hcode ⟨?_, fun u hu => ?_, fun u hu => ?_⟩
  · rcases hc with rfl | rfl <;> simp [keywords]
  · exact absurd (List.cons.inj hu).1 hne
  · exact absurd (List.cons.inj hu).1 hne

end Grammar

/-- Where no token begins, the search goes on behind what is not recognised. -/
theorem Engine.seek_unrecognised {e : Engine} {c : Cursor} (ho : e.outer = [])
    (hroom : c.rest.length ≤ e.source.length) (hcode : ¬c.skipIgnorable.atEnd)
    (hmiss : Misses c.skipIgnorable.rest Grammar.token) (openTags : Nat) :
    e.seek openTags c =
      e.seek openTags (c.skipIgnorable.skipUnrecognised (openTags == 0)) := by
  have hle := (Cursor.reaches_skipIgnorable c).length_rest_le
  have hbefore : (e.rewind c.skipIgnorable).Before c.skipIgnorable.rest :=
    ⟨⟨rfl, Nat.le_trans hle hroom, rfl, rfl⟩, rfl⟩
  rw [seek_of_code ho hcode, hmiss _ hbefore]
  let missed : Outcome Token × Engine := (e.rewind c.skipIgnorable).missed none
  exact seek_congr (show missed.2.source = e.source from rfl) rfl openTags _

/-- Text that nothing before it runs into: it goes on no word and no ignorable text, and no literal
ends in it. -/
structure Text.Fence (tail : Text) : Prop where
  code : ∀ c ∈ tail.head?, isIgnorable c = false
  notWord : ∀ c ∈ tail.head?, Text.isWord c = false
  unquoted : '"' ∉ tail ∧ '\'' ∉ tail

theorem Text.Fence.nil : Text.Fence [] := ⟨by simp, by simp, by simp⟩

theorem Lexeme.getLast_of_literal {t : Text} {n : Nat} (h : literal t = some n) :
    ∃ mark, (t.take n).getLast? = some mark ∧ (mark = '"' ∨ mark = '\'') := by
  unfold literal Pattern.orElse at h
  split at h
  · next m hm =>
    obtain rfl : m = n := Option.some.inj h
    obtain ⟨body, hbody⟩ := take_of_tripleLiteral hm
    refine ⟨'"', ?_, .inl rfl⟩
    rw [hbody, List.getLast?_append]
    rfl
  · obtain ⟨mark, body, hmark, hbody⟩ := take_of_lineLiteral h
    exact ⟨mark, by rw [hbody, List.getLast?_concat], hmark⟩

/-- A literal that begins before a fence ends before it. -/
theorem Lexeme.literal_le_of_fence {s tail : Text} {n : Nat} (ht : tail.Fence)
    (h : literal (s ++ tail) = some n) : n ≤ s.length := by
  by_contra hlt
  obtain ⟨k, rfl⟩ : ∃ k, n = s.length + k := ⟨n - s.length, by omega⟩
  have hle := literal_le h
  obtain ⟨mark, hlast, hmark⟩ := getLast_of_literal h
  -- the last mark of the literal would stand behind the fence
  have hne : tail.take k ≠ [] := by
    apply List.ne_nil_of_length_pos
    rw [List.length_append] at hle
    rw [List.length_take]
    omega
  rw [List.take_length_add_append, List.getLast?_append_of_ne_nil _ hne] at hlast
  have hmem : mark ∈ tail := List.mem_of_mem_take (List.mem_of_getLast? hlast)
  rcases hmark with rfl | rfl
  · exact ht.unquoted.1 hmem
  · exact ht.unquoted.2 hmem

theorem ignorableLength_of_code {c : Char} {t : Text} (h : isIgnorable c = false) :
    ignorableLength false (c :: t) = 0 := by
  simp only [isIgnorable, Bool.or_eq_false_iff, decide_eq_false_iff_not] at h
  simp [ignorableLength, h]

theorem ignorableLength_le (inComment : Bool) (t : Text) :
    ignorableLength inComment t ≤ t.length := by
  induction t generalizing inComment with
  | nil => simp [ignorableLength]
  | cons c t ih =>
    have hcode := ih false
    cases inComment with
    | true =>
      rw [ignorableLength, List.length_cons]
      exact Nat.succ_le_succ (ih _)
    | false =>
      rw [ignorableLength, List.length_cons]
      split
      · omega
      · split
        · exact Nat.succ_le_succ (ih true)
        · omega

/-- Ignorable text ends at a fence, unless a comment runs through it. -/
theorem ignorableLength_append_le {s tail : Text} (ht : tail.Fence) (h : '#' ∉ s ∨ tail = []) :
    ignorableLength false (s ++ tail) ≤ s.length := by
  rcases h with hcomment | rfl
  · induction s with
    | nil =>
      cases tail with
      | nil => simp [ignorableLength]
      | cons c tail =>
        rw [List.nil_append, ignorableLength_of_code (ht.code c rfl)]
        exact Nat.zero_le _
    | cons c s ih =>
      simp only [List.mem_cons, not_or] at hcomment
      have hrest := ih hcomment.2
      rw [List.cons_append, ignorableLength, List.length_cons]
      split
      · omega
      · rw [if_neg (Ne.symm hcomment.1)]
        omega
  · rw [List.append_nil]
    exact ignorableLength_le false s

theorem unrecognisedLength_append_le (inCode : Bool) {s tail : Text} (hs : s ≠ [])
    (ht : tail.Fence) : unrecognisedLength inCode (s ++ tail) ≤ s.length := by
  have hpos := List.length_pos_iff.2 hs
  have hword : ((s ++ tail).takeWhile Text.isWord).length ≤ s.length := by
    have hfence : tail.takeWhile Text.isWord = [] := by
      cases tail with
      | nil => rfl
      | cons c tail => simp [ht.notWord c rfl]
    rw [List.takeWhile_append]
    split
    · exact Nat.le_of_eq (by rw [hfence, List.append_nil])
    · exact (List.takeWhile_prefix _).length_le
  unfold unrecognisedLength
  dsimp only
  split
  · next n hn =>
    split at hn
    · exact Lexeme.literal_le_of_fence ht hn
    · cases hn
  · omega

/-- A text in which no token begins, and of which nothing runs into the tail behind it. -/
structure Text.Passable (t tail : Text) : Prop where
  plain : ∀ s, s ≠ [] → s <:+ t → Text.Plain (s ++ tail)
  fence : tail.Fence
  comment : '#' ∉ t ∨ tail = []

theorem Text.Passable.drop {t tail : Text} (h : t.Passable tail) (n : Nat) :
    Text.Passable (t.drop n) tail := by
  refine ⟨fun s hs hsuffix => h.plain s hs (hsuffix.trans (List.drop_suffix n t)), h.fence, ?_⟩
  exact h.comment.imp_left fun hnot hmem => hnot (List.mem_of_mem_drop hmem)

/-- One turn of a search over text without tokens steps over a piece of the text. -/
theorem Engine.seek_step {e : Engine} {c : Cursor} {t tail : Text} (h : t.Passable tail)
    (ht : t ≠ []) (hc : c.rest = t ++ tail) (ho : e.outer = [])
    (hroom : c.rest.length ≤ e.source.length) (openTags : Nat) :
    ∃ n, 0 < n ∧ n ≤ t.length ∧ e.seek openTags c = e.seek openTags (c.advanceBy n) := by
  have hignorable := ignorableLength_append_le h.fence h.comment
  rw [← hc] at hignorable
  rcases Nat.eq_zero_or_pos (ignorableLength false c.rest) with hzero | hpos
  · -- the text begins with code, which is no token
    have hplace : c.skipIgnorable = c := by rw [Cursor.skipIgnorable, hzero, Cursor.advanceBy_zero]
    have hcode : Text.skipIgnorable c.rest = c.rest := by
      rw [Text.skipIgnorable, hzero, List.drop_zero]
    have hmiss : Misses c.rest Grammar.token := by
      apply Grammar.misses_token hcode
      rw [hc]
      exact h.plain t ht List.suffix_rfl
    have hatEnd : ¬c.atEnd := by simp [Cursor.atEnd, hc, ht]
    have hlength := unrecognisedLength_append_le (openTags == 0) ht h.fence
    rw [← hc] at hlength
    refine ⟨_, unrecognisedLength_pos (openTags == 0) c.rest, hlength, ?_⟩
    rw [seek_unrecognised ho hroom (by rwa [hplace]) (by rwa [hplace]), hplace]
    rfl
  · refine ⟨_, hpos, hignorable, seek_eq_of_skipIgnorable ?_ openTags e⟩
    exact (Cursor.skipIgnorable_skipIgnorable c).symm

/-- A search passes over text without tokens and goes on right behind it. -/
theorem Engine.seek_passable {e : Engine} {c : Cursor} {t tail : Text} (h : t.Passable tail)
    (hc : c.rest = t ++ tail) (ho : e.outer = []) (hroom : c.rest.length ≤ e.source.length)
    (openTags : Nat) : e.seek openTags c = e.seek openTags (c.advanceBy t.length) := by
  -- each turn of the search leaves less of the text
  induction hlength : t.length using Nat.strongRecOn generalizing c t with
  | _ length ih =>
    by_cases ht : t = []
    · subst ht
      rw [← hlength, List.length_nil, Cursor.advanceBy_zero]
    · obtain ⟨n, hpos, hle, hstep⟩ := seek_step h ht hc ho hroom openTags
      have hrest : (c.advanceBy n).rest = t.drop n ++ tail := by
        rw [Cursor.rest_advanceBy, hc, List.drop_append_of_le_length hle]
      have hless : (t.drop n).length < length := by
        rw [List.length_drop]
        omega
      have hroom' : (c.advanceBy n).rest.length ≤ e.source.length :=
        Nat.le_trans (Cursor.reaches_advanceBy n c).length_rest_le hroom
      have htotal : n + (length - n) = length := by omega
      rw [hstep, ih _ hless (h.drop n) hrest hroom' rfl, Cursor.advanceBy_advanceBy,
        List.length_drop, hlength, htotal]

end NodeMarkup
