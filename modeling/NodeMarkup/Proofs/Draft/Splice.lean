import Mathlib.Data.List.Chain
import NodeMarkup.Draft
import NodeMarkup.Proofs.Match.Reading
/-!
Replacing ranges one after the other is splicing. A draft is read as a finished text up to the end
of the last replaced range and, behind it, what the source has there; the offset is the difference
in length between the two texts before that place.
-/
namespace NodeMarkup

theorem Cursor.Reaches.rest_eq_text {c d : Cursor} (h : c.Reaches d) :
    c.rest = Range.text ⟨c, d⟩ ++ d.rest ∧
      d.position = c.position + Text.byteLength (Range.text ⟨c, d⟩) := by
  obtain ⟨between, hrest, hposition⟩ := h.rest_eq
  have htext : Range.text ⟨c, d⟩ = between := by
    simp [Range.text, hrest]
  rw [htext]
  exact ⟨hrest, hposition⟩

/-- A range of a source with the code that is put in its place. -/
structure Edit where
  range : Range
  code : Text

/-- The edit begins at `c` or behind it, and ends at `d`. -/
def Edit.Follows (c : Cursor) (edit : Edit) (d : Cursor) : Prop :=
  c.Reaches edit.range.start ∧ edit.range.start.Reaches d ∧ edit.range.stop = d

theorem Edit.Follows.reaches {c d : Cursor} {edit : Edit} (h : edit.Follows c d) : c.Reaches d :=
  h.1.trans h.2.1

/-- The ranges lie at places of the source, none is inverted, and each begins at the end of the one
before it or behind it. -/
structure Edit.LeftToRight (source : Text) (edits : List Edit) : Prop where
  place : ∀ edit ∈ edits, Cursor.IsPlace source edit.range.start ∧
    Cursor.IsPlace source edit.range.stop ∧ edit.range.start.position ≤ edit.range.stop.position
  ordered : edits.IsChain fun edit next => edit.range.stop.position ≤ next.range.start.position

/-- Byte positions are enough for the order: at places of one source they tell which cursor reaches
which. -/
theorem Edit.LeftToRight.repeats {source : Text} {edits : List Edit} {c : Cursor}
    (h : LeftToRight source edits) (hc : Cursor.IsPlace source c)
    (hfirst : ∀ edit ∈ edits.head?, c.position ≤ edit.range.start.position) :
    ∃ stop, Repeats Follows c edits stop := by
  induction edits generalizing c with
  | nil => exact ⟨c, .nil c⟩
  | cons edit edits ih =>
    obtain ⟨hstart, hstop, hle⟩ := h.place edit List.mem_cons_self
    obtain ⟨hnext, hordered⟩ := List.isChain_cons.1 h.ordered
    have hrest : LeftToRight source edits :=
      ⟨fun later hmem => h.place later (List.mem_cons_of_mem _ hmem), hordered⟩
    obtain ⟨stop, hstops⟩ := ih hrest hstop hnext
    have hfollows : edit.Follows c edit.range.stop :=
      ⟨hc.reaches hstart (hfirst edit rfl), hstart.reaches hstop hle, rfl⟩
    exact ⟨stop, .cons hfollows hstops⟩

/-- What is left to read at a cursor, with the code of each edit in the place of its range. -/
def splice (c : Cursor) : List Edit → Text
  | [] => c.rest
  | edit :: rest => Range.text ⟨c, edit.range.start⟩ ++ edit.code ++ splice edit.range.stop rest

/-- Splicing the text of each range into its own place changes nothing, so what a splice keeps is
exactly what stands outside the ranges. -/
theorem splice_restore {c d : Cursor} {edits : List Edit} (h : Repeats Edit.Follows c edits d) :
    splice c (edits.map fun edit => ⟨edit.range, edit.range.text⟩) = c.rest := by
  induction h with
  | nil c => rfl
  | @cons c d stop edit edits hfirst _ ih =>
    obtain ⟨hstart, hrange, hstop⟩ := hfirst
    subst hstop
    have hgap := hstart.rest_eq_text.1
    have hcut := hrange.rest_eq_text.1
    calc splice c ((edit :: edits).map fun edit => ⟨edit.range, edit.range.text⟩)
        = Range.text ⟨c, edit.range.start⟩ ++ edit.range.text ++
            splice edit.range.stop (edits.map fun edit => ⟨edit.range, edit.range.text⟩) := rfl
      _ = Range.text ⟨c, edit.range.start⟩ ++ (edit.range.text ++ edit.range.stop.rest) := by
        rw [ih, List.append_assoc]
      _ = c.rest := by rw [← hcut, ← hgap]

/-- What stands before all edits is kept. -/
theorem splice_before {c d stop : Cursor} {edits : List Edit} (h : c.Reaches d)
    (he : Repeats Edit.Follows d edits stop) :
    splice c edits = Range.text ⟨c, d⟩ ++ splice d edits := by
  cases he with
  | nil => exact h.rest_eq_text.1
  | @cons _ _ _ edit edits first _ =>
    have hgap : Range.text ⟨c, edit.range.start⟩ =
        Range.text ⟨c, d⟩ ++ Range.text ⟨d, edit.range.start⟩ := by
      have hrest := h.rest_eq_text.1
      rw [first.1.rest_eq_text.1, (h.trans first.1).rest_eq_text.1, ← List.append_assoc] at hrest
      exact List.append_cancel_right hrest
    rw [splice, splice, hgap]
    simp only [List.append_assoc]

namespace Draft

/-- Up to the place `c` of its source the draft is `done`, and behind it nothing is replaced yet. -/
structure Finished (d : Draft) (done : Text) (c : Cursor) : Prop where
  text : d.text = done ++ c.rest
  offset : d.offset = (Text.byteLength done : Int) - c.position

theorem finished_ofSource (source : Text) : (ofSource source).Finished [] (.start source) := by
  constructor <;> simp [ofSource]

variable {d : Draft} {done : Text} {c : Cursor}

theorem Finished.shifted_eq (h : d.Finished done c) {place : Cursor} (hp : c.Reaches place) :
    d.shifted place.position = Text.byteLength (done ++ Range.text ⟨c, place⟩) := by
  have hposition := hp.rest_eq_text.2
  have hoffset := h.offset
  -- the place is as far behind the finished text as it is behind `c` in the source
  unfold shifted
  rw [Text.byteLength_append]
  omega

theorem Finished.reach_eq (h : d.Finished done c) {place : Cursor} (hp : c.Reaches place) :
    Text.reach (d.shifted place.position) d.text = (done ++ Range.text ⟨c, place⟩).length ∧
      d.text = (done ++ Range.text ⟨c, place⟩) ++ place.rest := by
  have htext : d.text = (done ++ Range.text ⟨c, place⟩) ++ place.rest := by
    rw [h.text, List.append_assoc, ← hp.rest_eq_text.1]
  refine ⟨?_, htext⟩
  rw [h.shifted_eq hp, htext]
  exact Text.reach_byteLength_append _ _

theorem Finished.replace (h : d.Finished done c) {edit : Edit} {stop : Cursor}
    (he : edit.Follows c stop) :
    (d.replace edit.range edit.code).Finished
      (done ++ Range.text ⟨c, edit.range.start⟩ ++ edit.code) stop := by
  obtain ⟨hstart, hrange, hstop⟩ := he
  subst hstop
  obtain ⟨hreach, htext⟩ := h.reach_eq hstart
  obtain ⟨hreach', htext'⟩ := h.reach_eq (hstart.trans hrange)
  constructor
  case text =>
    have hbefore : d.text.take (Text.reach (d.shifted edit.range.start.position) d.text) =
        done ++ Range.text ⟨c, edit.range.start⟩ := by
      rw [hreach, htext, List.take_left]
    have hbehind : d.text.drop (Text.reach (d.shifted edit.range.stop.position) d.text) =
        edit.range.stop.rest := by
      rw [hreach', htext', List.drop_left]
    change d.text.take _ ++ edit.code ++ d.text.drop _ = _
    rw [hbefore, hbehind]
  case offset =>
    have hgap := hstart.rest_eq_text.2
    have hle := hrange.position_le
    have hoffset := h.offset
    change d.offset + ((Text.byteLength edit.code : Int) - edit.range.byteLength) = _
    simp only [Text.byteLength_append, Range.byteLength]
    omega

/-- The draft with more edits, one after the other. -/
def edited (edits : List Edit) (d : Draft) : Draft :=
  edits.foldl (fun d edit => d.replace edit.range edit.code) d

/-- Behind the last of some edits from left to right, all that a splice has there is done. -/
theorem Finished.edited {edits : List Edit} {stop : Cursor} (h : d.Finished done c)
    (he : Repeats Edit.Follows c edits stop) :
    ∃ more, splice c edits = more ++ stop.rest ∧
      (d.edited edits).Finished (done ++ more) stop := by
  induction he generalizing d done with
  | nil c => exact ⟨[], rfl, by simpa [Draft.edited] using h⟩
  | @cons c b stop edit edits hfirst _ ih =>
    have hstop : edit.range.stop = b := hfirst.2.2
    obtain ⟨more, hsplice, hmore⟩ := ih (h.replace hfirst)
    refine ⟨Range.text ⟨c, edit.range.start⟩ ++ edit.code ++ more, ?_, ?_⟩
    · rw [splice, hstop, hsplice, List.append_assoc _ more]
    · simpa [Draft.edited] using hmore

/-- Edits from left to right come to one splice. -/
theorem Finished.text_edited {edits : List Edit} {stop : Cursor} (h : d.Finished done c)
    (he : Repeats Edit.Follows c edits stop) :
    (d.edited edits).text = done ++ splice c edits := by
  obtain ⟨more, hsplice, hmore⟩ := h.edited he
  rw [hmore.text, hsplice, List.append_assoc]

theorem watermark_edited {edits : List Edit} {stop : Cursor} (hd : d.watermark = c.position)
    (he : Repeats Edit.Follows c edits stop) : (d.edited edits).watermark = stop.position := by
  induction he generalizing d with
  | nil c => exact hd
  | @cons c b stop edit edits hfirst _ ih =>
    have hstop : edit.range.stop = b := hfirst.2.2
    exact ih (d := d.replace edit.range edit.code) (congrArg Cursor.position hstop)

/-- The offset is the difference in length between the whole texts: behind the last replaced range
they are equal. -/
theorem Finished.offset_eq {source : Text} (h : d.Finished done c) (hc : Cursor.IsPlace source c) :
    d.offset = (Text.byteLength d.text : Int) - Text.byteLength source := by
  obtain ⟨before, hsource, hposition⟩ := hc.split
  have hoffset := h.offset
  rw [h.text, hsource, Text.byteLength_append, Text.byteLength_append]
  omega

/-- A byte of the source stands between two characters of the draft, as far from its start as the
offset says. -/
structure CutsAt (d : Draft) (position : Nat) : Prop where
  unclipped : (d.shifted position : Int) = position + d.offset
  boundary : ∃ before behind, d.text = before ++ behind ∧
    d.shifted position = Text.byteLength before

theorem Finished.cutsAt (h : d.Finished done c) {place : Cursor} (hp : c.Reaches place) :
    d.CutsAt place.position := by
  constructor
  case unclipped =>
    have hle := hp.position_le
    have hoffset := h.offset
    unfold shifted
    omega
  case boundary => exact ⟨_, _, (h.reach_eq hp).2, h.shifted_eq hp⟩

/-- What holds while edits are applied to a source one after the other, and at their end. -/
structure Splices (source : Text) (edits : List Edit) : Prop where
  text : ((ofSource source).edited edits).text = splice (.start source) edits
  -- The splice has every gap between the ranges: with the ranges' own texts it is the source.
  gaps : splice (.start source) (edits.map fun edit => ⟨edit.range, edit.range.text⟩) = source
  offset : ∀ past, past <+: edits → ((ofSource source).edited past).offset =
    (Text.byteLength ((ofSource source).edited past).text : Int) - Text.byteLength source
  -- Every edit is behind the ones before it, and its ends are cut out of the text they left.
  cuts : ∀ past edit, past ++ [edit] <+: edits →
    ((ofSource source).edited past).watermark ≤ edit.range.start.position ∧
      ((ofSource source).edited past).CutsAt edit.range.start.position ∧
      ((ofSource source).edited past).CutsAt edit.range.stop.position

theorem edited_splices (source : Text) (edits : List Edit) (h : Edit.LeftToRight source edits) :
    Splices source edits := by
  have hfinished := finished_ofSource source
  obtain ⟨stop, hfollow⟩ := h.repeats (Cursor.isPlace_start source) (by simp)
  constructor
  case text => simpa using hfinished.text_edited hfollow
  case gaps => simpa using splice_restore hfollow
  -- whatever edits are past, the draft is finished up to the end of the last of them
  case offset =>
    rintro past ⟨more, rfl⟩
    obtain ⟨c, hpast, -⟩ := hfollow.of_append
    obtain ⟨done, -, hdone⟩ := hfinished.edited hpast
    exact hdone.offset_eq (hpast.reaches fun _ _ _ hedit => hedit.reaches)
  case cuts =>
    rintro past edit ⟨more, rfl⟩
    rw [List.append_assoc] at hfollow
    obtain ⟨c, hpast, hlater⟩ := hfollow.of_append
    obtain ⟨done, -, hdone⟩ := hfinished.edited hpast
    cases hlater with
    | cons hedit _ =>
      obtain ⟨hgap, hrange, rfl⟩ := hedit
      have hwatermark : ((ofSource source).edited past).watermark = c.position :=
        watermark_edited (by simp [ofSource]) hpast
      exact ⟨hwatermark ▸ hgap.position_le, hdone.cutsAt hgap, hdone.cutsAt (hgap.trans hrange)⟩

/-- Two edits at one place, a character that goes, a range that grows and an empty edit behind. -/
theorem edited_splices_accents :
    let source : Text := ['é', 'a', 'b', 'ü']
    let range (start stop : Nat) : Range := ⟨.ofPosition source start, .ofPosition source stop⟩
    let edits : List Edit :=
      [⟨range 0 0, ['x', 'y']⟩, ⟨range 0 2, []⟩, ⟨range 2 4, ['é', 'é', '€']⟩, ⟨range 4 4, []⟩]
    Edit.LeftToRight source edits ∧ Splices source edits ∧
      splice (.start source) edits = ['x', 'y', 'é', 'é', '€', 'ü'] := by
  intro source range edits
  have hedits : Edit.LeftToRight source edits := by
    have hplace (position : Nat) : Cursor.IsPlace source (.ofPosition source position) := ⟨_, rfl⟩
    constructor
    case place =>
      intro edit hedit
      simp only [edits, List.mem_cons, List.not_mem_nil, or_false] at hedit
      obtain rfl | rfl | rfl | rfl := hedit <;> exact ⟨hplace _, hplace _, by decide⟩
    case ordered => decide
  exact ⟨hedits, edited_splices source edits hedits, by decide⟩

end Draft

end NodeMarkup
