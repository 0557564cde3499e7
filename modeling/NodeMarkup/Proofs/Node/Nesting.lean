import Mathlib.Data.List.Induction
import NodeMarkup.Token.Basic
/-!
How tags are nested, as a language of token sequences and without a stack. Every sequence either
leaves some opening tags unmatched, one inside the other, or has a first token that does not fit in.
-/
namespace NodeMarkup

/-- Whether a token is the header of a variable or of a function, which stands anywhere. -/
def Token.isHeader : Token → Bool
  | ofVariable _ => true
  | ofFunction _ => true
  | _ => false

/-- The tags match: a closing tag has the class of the innermost tag that is open before it, and no
opening tag stays without its closing tag. The flag says that the tokens stand in the body of a tag,
where imports are not allowed. -/
inductive WellNested : Bool → List Token → Prop where
  | nil {inside : Bool} : WellNested inside []
  | header {inside : Bool} {token : Token} {tokens : List Token} (isHeader : token.isHeader)
      (rest : WellNested inside tokens) : WellNested inside (token :: tokens)
  | ofImport {i : Import} {tokens : List Token} (rest : WellNested false tokens) :
      WellNested false (.ofImport i :: tokens)
  | single {inside : Bool} {tag : Tag} {tokens : List Token} (kind : tag.kind = .single)
      (rest : WellNested inside tokens) : WellNested inside (.ofTag tag :: tokens)
  | pair {inside : Bool} {opening closing : Tag} {body tokens : List Token}
      (kind : opening.kind = .opening) (kind' : closing.kind = .closing)
      (sameClass : closing.className = opening.className) (within : WellNested true body)
      (rest : WellNested inside tokens) :
      WellNested inside (.ofTag opening :: (body ++ .ofTag closing :: tokens))

/-- The opening tags that the tokens leave unmatched, innermost first. Before, between and behind
them the tokens are well nested. -/
inductive Pending : List Token → List Tag → Prop where
  | closed {tokens : List Token} (nested : WellNested false tokens) : Pending tokens []
  | opened {before body : List Token} {tags : List Tag} {opening : Tag}
      (outer : Pending before tags) (kind : opening.kind = .opening)
      (within : WellNested true body) :
      Pending (before ++ .ofTag opening :: body) (opening :: tags)

/-- What is wrong with how the tokens are nested: the wording, and the place of the first token that
does not fit in. If all fit in, it is the outermost opening tag that stays unmatched. -/
inductive Refusal : List Token → Text → Cursor → Prop where
  | importInside {before after : List Token} {opening : Tag} {tags : List Tag} {i : Import}
      (pending : Pending before (opening :: tags)) :
      Refusal (before ++ .ofImport i :: after) "Imports can't appear inside a tag".toList
        i.range.start
  | closesNothing {before after : List Token} {tag : Tag} (pending : Pending before [])
      (kind : tag.kind = .closing) :
      Refusal (before ++ .ofTag tag :: after) "This tag is closing nothing".toList tag.range.start
  | closesAnother {before after : List Token} {opening tag : Tag} {tags : List Tag}
      (pending : Pending before (opening :: tags)) (kind : tag.kind = .closing)
      (otherClass : tag.className ≠ opening.className) :
      Refusal (before ++ .ofTag tag :: after)
        ("This tag doesn't match with parent tag \"".toList ++ opening.className ++ "\"".toList)
        tag.range.start
  | unclosed {tokens : List Token} {tags : List Tag} {outermost : Tag}
      (pending : Pending tokens (tags ++ [outermost])) :
      Refusal tokens "Missing closing tag for this tag".toList outermost.range.start

theorem WellNested.append {inside : Bool} {xs ys : List Token} (hx : WellNested inside xs)
    (hy : WellNested inside ys) : WellNested inside (xs ++ ys) := by
  induction hx with
  | nil => exact hy
  | header isHeader _ ih => exact .header isHeader (ih hy)
  | ofImport _ ih => exact .ofImport (ih hy)
  | single kind _ ih => exact .single kind (ih hy)
  | pair kind kind' sameClass within _ _ ih =>
    rw [List.cons_append, List.append_assoc, List.cons_append]
    exact .pair kind kind' sameClass within (ih hy)

theorem Pending.append {before more : List Token} {tags : List Tag} (hp : Pending before tags)
    (hm : WellNested (!tags.isEmpty) more) : Pending (before ++ more) tags := by
  cases hp with
  | closed nested => exact .closed (nested.append hm)
  | opened outer kind within =>
    rw [List.append_assoc, List.cons_append]
    exact .opened outer kind (within.append hm)

theorem Pending.wellNested {tokens : List Token} (h : Pending tokens []) :
    WellNested false tokens := by
  cases h with
  | closed nested => exact nested

theorem Pending.close {before : List Token} {opening closing : Tag} {tags : List Tag}
    (hp : Pending before (opening :: tags)) (hk : closing.kind = .closing)
    (hc : closing.className = opening.className) :
    Pending (before ++ [.ofTag closing]) tags := by
  cases hp with
  | @opened outside body _ _ outer kind within =>
    have hpair : WellNested (!tags.isEmpty) (.ofTag opening :: (body ++ [.ofTag closing])) :=
      .pair kind hk hc within .nil
    rw [List.append_assoc, List.cons_append]
    exact outer.append hpair

theorem Refusal.append {tokens : List Token} {message : Text} {place : Cursor} (token : Token)
    (h : Refusal tokens message place) (hp : ∀ tags, ¬Pending tokens tags) :
    Refusal (tokens ++ [token]) message place := by
  cases h with
  | importInside pending =>
    rw [List.append_assoc, List.cons_append]
    exact .importInside pending
  | closesNothing pending kind =>
    rw [List.append_assoc, List.cons_append]
    exact .closesNothing pending kind
  | closesAnother pending kind otherClass =>
    rw [List.append_assoc, List.cons_append]
    exact .closesAnother pending kind otherClass
  | unclosed pending => exact absurd pending (hp _)

/-- One more token behind a sequence in which all tokens fit in. -/
theorem Pending.step {tokens : List Token} {tags : List Tag} (hp : Pending tokens tags)
    (token : Token) :
    (∃ tags, Pending (tokens ++ [token]) tags) ∨
      ∃ message place, Refusal (tokens ++ [token]) message place := by
  cases token with
  | ofVariable header => exact .inl ⟨tags, hp.append (.header rfl .nil)⟩
  | ofFunction header => exact .inl ⟨tags, hp.append (.header rfl .nil)⟩
  | ofImport i =>
    cases tags with
    | nil => exact .inl ⟨[], hp.append (.ofImport .nil)⟩
    | cons opening tags => exact .inr ⟨_, _, .importInside hp⟩
  | ofTag tag =>
    cases hk : tag.kind with
    | opening => exact .inl ⟨tag :: tags, .opened hp hk .nil⟩
    | single => exact .inl ⟨tags, hp.append (.single hk .nil)⟩
    | closing =>
      cases tags with
      | nil => exact .inr ⟨_, _, .closesNothing hp hk⟩
      | cons opening tags =>
        by_cases hc : tag.className = opening.className
        · exact .inl ⟨tags, hp.close hk hc⟩
        · exact .inr ⟨_, _, .closesAnother hp hk hc⟩

theorem pending_or_refusal (tokens : List Token) :
    (∃ tags, Pending tokens tags) ∨ ∃ message place, Refusal tokens message place := by
  -- from the first token on, so that the first one that does not fit in is the one found
  induction tokens using List.reverseRecOn with
  | nil => exact .inl ⟨[], .closed .nil⟩
  | append_singleton tokens token ih =>
    by_cases hp : ∃ tags, Pending tokens tags
    · obtain ⟨tags, hp⟩ := hp
      exact hp.step token
    · rcases ih with hpending | ⟨message, place, hr⟩
      · exact absurd hpending hp
      · exact .inr ⟨message, place, hr.append token fun tags h => hp ⟨tags, h⟩⟩

/-- Tokens that are not well nested are refused for a reason. -/
theorem wellNested_or_refusal (tokens : List Token) :
    WellNested false tokens ∨ ∃ message place, Refusal tokens message place := by
  rcases pending_or_refusal tokens with ⟨tags, hp⟩ | hr
  · rcases List.eq_nil_or_concat tags with htags | ⟨inner, outermost, htags⟩
    · subst htags
      exact .inl hp.wellNested
    · rw [htags, List.concat_eq_append] at hp
      exact .inr ⟨_, _, .unclosed hp⟩
  · exact .inr hr

end NodeMarkup
