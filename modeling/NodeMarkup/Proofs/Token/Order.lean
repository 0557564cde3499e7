import NodeMarkup.Proofs.Grammar.Bounds
import NodeMarkup.Proofs.Token.Scan

namespace NodeMarkup

open RuleT

/-- The range begins and ends between scalar values of the source, and holds something. -/
structure Range.IsPiece (source : Text) (r : Range) : Prop where
  start : Cursor.IsPlace source r.start
  stop : Cursor.IsPlace source r.stop
  lt : r.start.position < r.stop.position

namespace Repeats

variable {α : Type} {P : Cursor → α → Cursor → Prop} {c d : Cursor} {values : List α}

theorem of_mem (hP : ∀ a value b, P a value b → a.Reaches b) (h : Repeats P c values d)
    {value : α} (hv : value ∈ values) : ∃ a b, c.Reaches a ∧ P a value b ∧ b.Reaches d := by
  induction h with
  | nil => simp at hv
  | @cons c b stop first values hfirst hrest ih =>
    rcases List.mem_cons.1 hv with rfl | hmem
    · exact ⟨c, b, .refl c, hfirst, hrest.reaches hP⟩
    · obtain ⟨a, b', ha, hvalue, hb'⟩ := ih hmem
      exact ⟨a, b', (hP _ _ _ hfirst).trans ha, hvalue, hb'⟩

theorem pairwise_precedes {range : α → Range}
    (hP : ∀ a value b, P a value b →
      a.Reaches (range value).start ∧ (range value).start.Reaches b ∧ (range value).stop = b)
    (h : Repeats P c values d) :
    values.Pairwise fun v w => (range v).Precedes (range w) := by
  induction h with
  | nil => exact .nil
  | @cons c b stop first values hfirst hrest ih =>
    refine List.pairwise_cons.2 ⟨fun w hw => ?_, ih⟩
    obtain ⟨a, b', hba, hw', -⟩ :=
      hrest.of_mem (fun a v b h => (hP a v b h).1.trans (hP a v b h).2.1) hw
    obtain ⟨-, -, hstop⟩ := hP _ _ _ hfirst
    unfold Range.Precedes
    rw [hstop]
    exact (hba.trans (hP _ _ _ hw').1).position_le

end Repeats

/-- The properties of a tag stand between its class and its closer, in the order in which the tag
has them. -/
structure Tag.Orderly (source : Text) (tag : Tag) : Prop where
  -- The tag begins with its opener and its class.
  head : tag.opener ++ tag.className <+: tag.range.start.rest
  piece : ∀ p ∈ tag.properties, p.range.IsPiece source
  behind_class : ∀ p ∈ tag.properties,
    tag.range.start.position + Text.byteLength (tag.opener ++ tag.className)
      ≤ p.range.start.position
  before_closer : ∀ p ∈ tag.properties, p.range.stop.position ≤ tag.closer.position
  ordered : tag.properties.Pairwise fun p q => p.range.Precedes q.range

theorem Tag.Stands.orderly {source : Text} {c d : Cursor} {tag : Tag} (h : tag.Stands c d)
    (hc : Cursor.IsPlace source c) : tag.Orderly source := by
  obtain ⟨last, hbody, hcloser⟩ := h.body
  have hclass := Cursor.reaches_advanceBy (tag.opener ++ tag.className).length c
  have hposition : (c.advanceBy (tag.opener ++ tag.className).length).position =
      c.position + Text.byteLength (tag.opener ++ tag.className) := by
    rw [Cursor.position_advanceBy, ← List.prefix_iff_eq_take.1 h.head]
  have hproperty {p : Property} (hp : p ∈ tag.properties) :
      ∃ a b, (c.advanceBy (tag.opener ++ tag.className).length).Reaches a ∧ p.Stands a b ∧
        b.Reaches last :=
    hbody.of_mem (fun _ _ _ h => h.reaches) hp
  constructor
  case head =>
    rw [h.range]
    exact h.head
  case piece =>
    intro p hp
    obtain ⟨a, b, ha, ⟨hrange, hreach, hlt⟩, -⟩ := hproperty hp
    have hstart := (hc.of_reaches (hclass.trans ha)).of_reaches (Cursor.reaches_skipIgnorable a)
    rw [hrange]
    exact ⟨hstart, hstart.of_reaches hreach, hlt⟩
  case behind_class =>
    intro p hp
    obtain ⟨a, b, ha, ⟨hrange, -, -⟩, -⟩ := hproperty hp
    rw [hrange, h.range, ← hposition]
    exact (ha.trans (Cursor.reaches_skipIgnorable a)).position_le
  case before_closer =>
    intro p hp
    obtain ⟨a, b, -, ⟨hrange, -, -⟩, hb⟩ := hproperty hp
    rw [hrange, hcloser]
    exact (hb.trans (Cursor.reaches_skipIgnorable last)).position_le
  case ordered =>
    apply hbody.pairwise_precedes
    intro a p b hread
    obtain ⟨hrange, hreach, -⟩ := hread
    rw [hrange]
    exact ⟨Cursor.reaches_skipIgnorable a, hreach, rfl⟩

theorem Token.Follows.range_eq {c d : Cursor} {token : Token} (h : token.Follows c d) :
    c.Reaches token.range.start ∧ token.range.start.Reaches d ∧ token.range.stop = d := by
  obtain ⟨place, hplace, -, -, hstands, hreach⟩ := h
  rw [hstands.range]
  exact ⟨hplace, hreach, rfl⟩

theorem Token.Follows.start_lt {c d : Cursor} {token : Token} (h : token.Follows c d) :
    token.range.start.position < d.position := by
  obtain ⟨place, -, -, -, hstands, -⟩ := h
  rw [hstands.range]
  exact hstands.lt

theorem Scan.pairwise_drain (source : Text) :
    (Scan.start source).drain.1.Pairwise fun t u => t.range.Precedes u.range := by
  obtain ⟨d, htokens⟩ := (yields_drain source).tokens
  exact htokens.pairwise_precedes fun _ _ _ h => h.range_eq

theorem Scan.follows_of_mem_drain {source : Text} {token : Token}
    (h : token ∈ (Scan.start source).drain.1) :
    ∃ a b, Cursor.IsPlace source a ∧ token.Follows a b := by
  obtain ⟨d, htokens⟩ := (yields_drain source).tokens
  obtain ⟨a, b, ha, hfollows, -⟩ := htokens.of_mem (fun _ _ _ h => h.advances.1) h
  exact ⟨a, b, ha, hfollows⟩

theorem Scan.isPiece_of_mem_drain {source : Text} {token : Token}
    (h : token ∈ (Scan.start source).drain.1) : token.range.IsPiece source := by
  obtain ⟨a, b, ha, place, hplace, -, -, hstands, hreach⟩ := follows_of_mem_drain h
  rw [hstands.range]
  exact ⟨ha.of_reaches hplace, (ha.of_reaches hplace).of_reaches hreach, hstands.lt⟩

/-- What the scan of a source comes to. -/
structure OrderlyScan (source : Text) : Prop where
  -- The scan stops at the end of the source or with an error.
  stops :
    let (_, stop, scan) := (Scan.start source).drain
    (stop = .finished ∧ scan.engine.cursor.atEnd) ∨ ∃ x, stop = .failed x
  -- Behind its end a scan yields nothing, and stays as it is.
  ended :
    let (_, _, scan) := (Scan.start source).drain
    scan.next = (.miss, scan)
  -- However many tokens are asked for, there are no more.
  unbounded : ∀ n, (Scan.start source).drain.1.length < n →
    (Scan.start source).take n = (Scan.start source).drain
  -- A turn of the search that finds no token goes on at a later byte.
  turn : ∀ (openTags : Nat) (c : Cursor) (e e' : Engine), e.Between source →
    ¬c.skipIgnorable.atEnd →
    Grammar.token.result (e.rewind c.skipIgnorable) = (.miss, e') →
    let next := c.skipIgnorable.skipUnrecognised (openTags == 0)
    e.seek openTags c = e'.seek openTags next ∧ c.position < next.position
  -- No repetition of a rule is ended by its bound.
  repetition : ∀ (α : Type) (rule : Rule α) (e : Engine) (n : Nat), Structured rule →
    e.source = source → Cursor.IsPlace source e.cursor → e.cursor.rest.length < n →
    (many rule).result e = (manyWithin rule n).result e
  -- No value is cut short by the bound on values inside each other.
  nesting : ∀ (e : Engine) (n : Nat), e.cursor.rest.length < n →
    Grammar.value.result e = (Grammar.valueWithin n).result e
  -- Every token is a piece of the source that begins with code.
  piece : ∀ t ∈ (Scan.start source).drain.1, t.range.IsPiece source ∧
    ∃ code, t.range.start.current? = some code ∧ isIgnorable code = false
  ordered : (Scan.start source).drain.1.Pairwise fun t u => t.range.Precedes u.range
  tag : ∀ tag, Token.ofTag tag ∈ (Scan.start source).drain.1 → tag.Orderly source
  count : (Scan.start source).drain.1.length ≤ Text.byteLength source

/-- Every scan is orderly, whatever the source. -/
theorem orderly_scan (source : Text) : OrderlyScan source := by
  have hyields := Scan.yields_drain source
  have hlimit := Scan.drain_stop_ne_limit source
  constructor
  case stops =>
    rcases Scan.drain_stopped source with hfinished | hfailed
    · exact .inl ⟨hfinished, hyields.finished hfinished⟩
    · exact .inr hfailed
  case ended =>
    have hdone : (Scan.start source).drain.2.2.done = true := by
      cases h : (Scan.start source).drain.2.2.done with
      | true => rfl
      | false => exact absurd (hyields.done.1 h) hlimit
    exact Scan.next_of_done hdone
  case unbounded =>
    intro n hn
    exact Scan.take_eq_of_stopped hlimit hn
  case turn =>
    intro openTags c e e' he hcode hmiss
    refine ⟨?_, ?_⟩
    · rw [Engine.seek_of_code he.outer_eq hcode, hmiss]
    · have hlt := Cursor.position_lt_skipUnrecognised (openTags == 0) hcode
      exact Nat.lt_of_le_of_lt (Cursor.reaches_skipIgnorable c).position_le hlt
  case repetition =>
    intro α rule e n hrule hsource hplace hn
    subst hsource
    exact result_many hrule.keeps hplace hn
  case nesting =>
    intro e n hn
    exact Grammar.result_value_eq hn
  case piece =>
    intro t ht
    obtain ⟨a, b, -, place, -, hskip, hcode, hstands, -⟩ := Scan.follows_of_mem_drain ht
    refine ⟨Scan.isPiece_of_mem_drain ht, ?_⟩
    rw [hstands.range, ← hskip]
    apply Cursor.current_skipIgnorable
    rw [hskip]
    simpa [Cursor.atEnd] using hcode
  case ordered =>
    exact Scan.pairwise_drain source
  case tag =>
    intro tag htag
    obtain ⟨a, b, ha, place, hplace, -, -, hstands, -⟩ := Scan.follows_of_mem_drain htag
    exact (hstands.tag tag rfl).orderly (ha.of_reaches hplace)
  case count =>
    exact Nat.le_trans (Scan.length_drain_le source) (Text.length_le_byteLength source)

end NodeMarkup
