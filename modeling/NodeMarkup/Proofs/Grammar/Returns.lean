import NodeMarkup.Proofs.Grammar.SelfContained
import NodeMarkup.Proofs.Grammar.Strings
import NodeMarkup.Proofs.Token.Order
/-!
Tokens of a source without carriage returns. What is captured is taken from the source, and what
takes the place of a capture brings no carriage return with it, so no text of a token has one.
-/
namespace NodeMarkup

open RuleT

variable {source : Text} {c : Cursor}

theorem Cursor.IsPlace.rest_subset (h : c.IsPlace source) : c.rest ⊆ source := by
  obtain ⟨before, hsplit, -⟩ := h.split
  rw [hsplit]
  exact List.subset_append_right before c.rest

/-- The captures of a frame in the source have no carriage return. -/
def Watch.noReturn (source : Text) : Watch where
  since := Cursor.IsPlace source
  within _ := True
  holds t := '\r' ∉ t
  since_of_reaches hreach hc := hc.of_reaches hreach
  within_of_reaches _ _ := trivial
  holds_nil := by simp
  holds_append hs ht := by simp [hs, ht]

theorem Watch.takes_noReturn (h : '\r' ∉ source) (p : Pattern) :
    (Watch.noReturn source).Takes p ('\r' ∉ ·) := by
  intro c n hc _ _ hmem
  have hplace : c.IsPlace source := hc
  exact h (hplace.rest_subset (List.mem_of_mem_take hmem))

theorem Watch.noReturn_overValues (h : '\r' ∉ source) :
    (Watch.noReturn source).OverValues fun v => '\r' ∉ v.code := by
  have htakes (p : Pattern) :
      (Watch.noReturn source).Takes p fun t => (Watch.noReturn source).holds t ∧ '\r' ∉ t :=
    fun c n hc hp hin => ⟨takes_noReturn h p c n hc hp hin, takes_noReturn h p c n hc hp hin⟩
  have htrim (t : Text) (h : '\r' ∉ t) : '\r' ∉ Text.trim t :=
    fun hmem => h (Text.trim_subset t hmem)
  constructor
  case empty => simp
  case lines =>
    intro c t hc ht
    have hplace : c.IsPlace source := hc
    have hfold : '\r' ∉ Text.foldLines t :=
      Text.not_mem_foldLines_of_not_mem (fun hmem => h (hplace.rest_subset (ht hmem))) (by decide)
    have hquote := Text.not_mem_quote hfold (by decide) (by decide)
    exact ⟨hquote, hquote⟩
  case string => exact htakes _
  case number => exact fun p _ => htakes p
  case path => exact htakes _
  case mark => exact fun word _ => takes_noReturn h _
  case inner =>
    intro c n hc _ _ hmem
    have hplace : c.IsPlace source := hc
    have hinside := hplace.of_reaches (Cursor.reaches_advance c)
    exact h (hinside.rest_subset (List.mem_of_mem_take hmem))
  case block => exact fun t h => ⟨htrim t h, htrim t h⟩
  case call => exact fun t h => h

/-- Neither the name nor the code of the property has a carriage return. -/
def Property.NoReturn (p : Property) : Prop := '\r' ∉ p.name ∧ '\r' ∉ p.value.code

/-- The texts of the token have no carriage return. -/
def Token.NoReturn : Token → Prop
  | ofImport i => '\r' ∉ i.className ∧ '\r' ∉ i.path
  | ofTag tag => '\r' ∉ tag.className ∧ ∀ p ∈ tag.properties, p.NoReturn
  | ofVariable _ => True
  | ofFunction _ => True

namespace Grammar

theorem reads_noReturn_property (h : '\r' ∉ source) :
    Reads c property fun p _ => p.range.start.IsPlace source → p.NoReturn := by
  apply reads_propertyHead.bind
  rintro _ a ⟨n, rest, rfl, hhead⟩
  have hreach := (Cursor.reaches_advanceBy n c).trans hhead.reaches
  have hvalue : Reads a value fun v _ => c.IsPlace source → '\r' ∉ v.code := by
    intro e ha hn
    refine ⟨(reads_flat_value e ha hn).1, fun v hv hc => ?_⟩
    exact (reads_watched_value (Watch.noReturn_overValues h) (hc.of_reaches hreach) e ha hn).2 v hv
      trivial
  apply (hvalue.optional staysOnMiss_value).bind
  intro found b hfound
  refine (Reads.requireLast _).bind fun _ _ _ => ?_
  rcases found with _ | value
  · exact .miss
  · simp only [check_then]
    apply (Reads.rangeFrom _).bind
    rintro _ _ ⟨rfl, rfl⟩
    refine .pure fun hc => ⟨?_, hfound hc⟩
    exact fun hmem => h (hc.rest_subset (List.mem_of_mem_take hmem))

theorem reads_noReturn_token (h : '\r' ∉ source) :
    Reads c token fun (found : Token) _ =>
      ∀ p ∈ found.properties, p.range.start.IsPlace source → p.NoReturn :=
  reads_token_properties fun _ => reads_noReturn_property h

end Grammar

theorem Range.IsPiece.text_subset {r : Range} (h : r.IsPiece source) : r.text ⊆ source := by
  intro x hx
  exact h.start.rest_subset (List.mem_of_mem_take hx)

/-- The content of a literal is taken from it. -/
theorem Taken.not_mem {literal content code : Text} {x : Char} (h : Taken literal content code)
    (hx : x ∉ literal) (hspace : x ≠ ' ') : x ∉ content := by
  have hbody : x ∉ literalBody literal := by
    unfold literalBody
    split <;> exact Grammar.not_mem_inside _ hx
  cases h with
  | line => exact hbody
  | lines => exact Text.not_mem_foldLines_of_not_mem hbody hspace

theorem Scan.noReturn_drain (h : '\r' ∉ source) :
    ∀ token ∈ (Scan.start source).drain.1, token.NoReturn := by
  intro token htoken
  have hproperties := Scan.forall_mem_drain (fun _ => Grammar.reads_noReturn_token h) source token
    htoken
  have hpiece := Scan.isPiece_of_mem_drain htoken
  cases token with
  | ofVariable header => trivial
  | ofFunction header => trivial
  | ofImport i =>
    obtain ⟨literal, code, ⟨before, between, behind, -, -, -, htext⟩, htaken⟩ :=
      Scan.holdsStrings_drain source _ htoken
    have hpath : literal ⊆ source := by
      refine List.Subset.trans ?_ hpiece.text_subset
      exact htext ▸ List.subset_append_right _ _
    have hclass : i.className ⊆ source := by
      refine List.Subset.trans (fun x hx => ?_) hpiece.text_subset
      change x ∈ i.range.text
      rw [htext]
      simp [hx]
    exact ⟨fun hmem => h (hclass hmem), htaken.not_mem (fun hmem => h (hpath hmem)) (by decide)⟩
  | ofTag tag =>
    have horderly := (orderly_scan source).tag tag htoken
    have hclass : tag.className ⊆ source := fun x hx =>
      hpiece.start.rest_subset (horderly.head.subset (List.mem_append_right _ hx))
    exact ⟨fun hmem => h (hclass hmem), fun p hp => hproperties p hp (horderly.piece p hp).start⟩

end NodeMarkup
