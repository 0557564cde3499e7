import NodeMarkup.Proofs.Match.Running
/-!
Two runs up to the end of a tag. The texts before them are the same up to the place where the tag ends,
and a rule that does not look behind that place does the same in both. There is one lemma for each way
to build a rule. Each of them says how the rule may miss, since only what has taken back all that it
did lets the rule around it go on.
-/
namespace NodeMarkup

open RuleT

variable {α β γ δ : Type}

namespace Text

/-- What can end a tag. Nothing that stands in a tag goes on with it or ends in it. -/
structure EndsTag (a : Text) : Prop where
  head : ∃ c ∈ a.head?, c = '/' ∨ c = '>'
  noBreak : '\n' ∉ a
  noQuote : ∀ c ∈ a, isQuote c = false
  noBrace : '\x7d' ∉ a

/-- What is left to read in a tag that ends with `a`: some text and the end, or nothing, where a comment
has run over the end. -/
def ahead (a : Text) : Option Text → Text
  | some u => u ++ a
  | none => []

variable {a b : Text}

theorem EndsTag.ne_nil (h : a.EndsTag) : a ≠ [] := by
  obtain ⟨c, hc, -⟩ := h.head
  rintro rfl
  cases hc

theorem EndsTag.apart (h : a.EndsTag) : a.Apart := by
  obtain ⟨c, hc, hend⟩ := h.head
  intro d hd
  obtain rfl : c = d := Option.some.inj ((Option.mem_def.1 hc).symm.trans hd)
  rcases hend with rfl | rfl <;> decide

theorem EndsTag.ignorableLength (h : a.EndsTag) : ignorableLength false a = 0 := by
  obtain ⟨c, hc, hend⟩ := h.head
  obtain ⟨t, rfl⟩ := List.head?_eq_some_iff.1 hc
  rcases hend with rfl | rfl <;> rfl

theorem ignorableLength_of_oneLine {t : Text} (h : '\n' ∉ t) :
    NodeMarkup.ignorableLength true t = t.length := by
  induction t with
  | nil => rfl
  | cons c t ih =>
    simp only [List.mem_cons, not_or] at h
    have hc : decide (c ≠ '\n') = true := by simpa using Ne.symm h.1
    rw [NodeMarkup.ignorableLength, hc, ih h.2, List.length_cons]

/-- A comment that does not end before the tag does runs over its end. -/
theorem ignorableLength_ahead (u : Text) :
    (∃ v, ∀ a : Text, a.EndsTag → (u ++ a).drop (ignorableLength false (u ++ a)) = ahead a v) ∧
    ∃ v, ∀ a : Text, a.EndsTag → (u ++ a).drop (ignorableLength true (u ++ a)) = ahead a v := by
  induction u with
  | nil =>
    refine ⟨⟨some [], fun a ha => ?_⟩, none, fun a ha => ?_⟩
    · rw [List.nil_append, ha.ignorableLength]
      rfl
    · rw [List.nil_append, ignorableLength_of_oneLine ha.noBreak, List.drop_length]
      rfl
  | cons c u ih =>
    obtain ⟨⟨v, hcode⟩, w, hcomment⟩ := ih
    constructor
    · by_cases hblank : (c = ' ' || c = '\t' || c = '\n' || c = '\r') = true
      · refine ⟨v, fun a ha => ?_⟩
        rw [List.cons_append, NodeMarkup.ignorableLength, if_pos hblank, List.drop_succ_cons,
          hcode a ha]
      · by_cases hhash : c = '#'
        · refine ⟨w, fun a ha => ?_⟩
          rw [List.cons_append, NodeMarkup.ignorableLength, if_neg hblank, if_pos hhash,
            List.drop_succ_cons, hcomment a ha]
        · refine ⟨some (c :: u), fun a ha => ?_⟩
          rw [List.cons_append, NodeMarkup.ignorableLength, if_neg hblank, if_neg hhash]
          rfl
    · by_cases hbreak : c = '\n'
      · refine ⟨v, fun a ha => ?_⟩
        rw [List.cons_append, NodeMarkup.ignorableLength, hbreak, List.drop_succ_cons]
        exact hcode a ha
      · refine ⟨w, fun a ha => ?_⟩
        have hc : decide (c ≠ '\n') = true := by simpa using hbreak
        rw [List.cons_append, NodeMarkup.ignorableLength, hc, List.drop_succ_cons, hcomment a ha]

/-- Where the next code stands does not depend on how the tag ends. -/
theorem skipIgnorable_ahead (u : Option Text) :
    ∃ v, ∀ a : Text, a.EndsTag → skipIgnorable (ahead a u) = ahead a v := by
  cases u with
  | none => exact ⟨none, fun _ _ => rfl⟩
  | some u => exact (ignorableLength_ahead u).1

theorem ahead_injective (ha : a.EndsTag) {u v : Option Text} (h : ahead a u = ahead a v) : u = v := by
  have hne := ha.ne_nil
  cases u <;> cases v <;> simp_all [ahead]

/-- Whether something is read does not depend on how the tag ends. -/
theorem length_ahead_eq_iff (ha : a.EndsTag) (hb : b.EndsTag) {u v : Option Text}
    (h : (ahead a v).length ≤ (ahead a u).length) :
    (ahead b v).length = (ahead b u).length ↔ (ahead a v).length = (ahead a u).length := by
  have hpos := List.length_pos_iff.2 ha.ne_nil
  have hpos' := List.length_pos_iff.2 hb.ne_nil
  cases u <;> cases v <;> simp only [ahead, List.length_append, List.length_nil] at h ⊢ <;> omega

end Text

/-- How a rule may miss: with traces in its frame, with all that it did taken back, or not at all. -/
inductive Manner where
  | loose
  | clean
  | firm
deriving DecidableEq

/-- What two rules come to from `e` and `e'`, which stand before tags that end with `a` and `b`. An error
of the first rule leaves open what the second does. -/
inductive TwinResult (a b : Text) (m : Manner) (R : α → β → Prop) (e e' : Engine) :
    Outcome α × Engine → Outcome β × Engine → Prop where
  | hit {value : α} {value' : β} {x x' : Engine} (u : Option Text) (more : List Text)
      (related : R value value') (before : x.Before (.ahead a u)) (before' : x'.Before (.ahead b u))
      (texts : x.texts = e.texts ++ more) (texts' : x'.texts = e'.texts ++ more) :
      TwinResult a b m R e e' (.hit value, x) (.hit value', x')
  | miss (hm : m = .loose) {x x' : Engine} : TwinResult a b m R e e' (.miss, x) (.miss, x')
  | missed (hm : m ≠ .firm) : TwinResult a b m R e e' (e.missed none) (e'.missed none)
  | error (x : ParseError) {y : Engine} {result : Outcome β × Engine} :
      TwinResult a b m R e e' (.error x, y) result

/-- The rules do the same whether the tag ends with `a` or with `b`. -/
def Twins (a b : Text) (m : Manner) (R : α → β → Prop) (rule : Rule α) (rule' : Rule β) : Prop :=
  ∀ (u : Option Text) (e e' : Engine), e.Before (.ahead a u) → e'.Before (.ahead b u) →
    TwinResult a b m R e e' (rule.result e) (rule'.result e')

variable {a b : Text} {m n : Manner} {R : α → β → Prop} {S : γ → δ → Prop}

/-- The places stand before the same text of the tag. -/
def Cursor.Near (a b : Text) (c d : Cursor) : Prop :=
  ∃ u, c.rest = .ahead a u ∧ d.rest = .ahead b u

structure Capture.Near (a b : Text) (x y : Capture) : Prop where
  text : x.text = y.text
  start : x.range.start.Near a b y.range.start

namespace TwinResult

variable {e e' x x' : Engine} {r : Outcome α × Engine} {r' : Outcome β × Engine}

/-- Results of later runs are results of the runs that led there. -/
theorem behind {more : List Text} (h : TwinResult a b n R x x' r r') (hm : n = .firm ∨ m = .loose)
    (ht : x.texts = e.texts ++ more) (ht' : x'.texts = e'.texts ++ more) :
    TwinResult a b m R e e' r r' := by
  cases h with
  | hit u next related before before' texts texts' =>
    refine .hit u (more ++ next) related before before' ?_ ?_
    · rw [texts, ht, List.append_assoc]
    · rw [texts', ht', List.append_assoc]
  | miss hn => exact .miss (hm.resolve_left (by simp [hn]))
  | missed hn => exact .miss (hm.resolve_left hn)
  | error x => exact .error x

theorem of_hit {value : α} (h : TwinResult a b m R e e' (.hit value, x) r') :
    ∃ value' x' u more, r' = (.hit value', x') ∧ R value value' ∧ x.Before (.ahead a u) ∧
      x'.Before (.ahead b u) ∧ x.texts = e.texts ++ more ∧ x'.texts = e'.texts ++ more := by
  generalize hr : (Outcome.hit value, x) = r at h
  cases h with
  | hit u more related before before' texts texts' =>
    cases hr
    exact ⟨_, _, u, more, rfl, related, before, before', texts, texts'⟩
  | miss hm => cases hr
  | missed hm => cases hr
  | error x => cases hr

theorem of_hits {rule : Rule α} {rule' : Rule β} {P : α → Prop} {Q : β → Prop} {more : List Text}
    {t t' : Text} {u : Option Text} (h : Hits t rule P more (.ahead a u))
    (h' : Hits t' rule' Q more (.ahead b u)) (hR : ∀ value value', P value → Q value' → R value value')
    (he : e.Before t) (he' : e'.Before t') :
    TwinResult a b m R e e' (rule.result e) (rule'.result e') := by
  obtain ⟨value, x, hrun, hvalue, hx, htexts⟩ := h e he
  obtain ⟨value', x', hrun', hvalue', hx', htexts'⟩ := h' e' he'
  rw [hrun, hrun']
  exact .hit u more (hR _ _ hvalue hvalue') hx hx' htexts htexts'

theorem of_misses {rule : Rule α} {rule' : Rule β} {t t' : Text} (h : Misses t rule)
    (h' : Misses t' rule') (hm : m ≠ .firm) (he : e.Before t) (he' : e'.Before t') :
    TwinResult a b m R e e' (rule.result e) (rule'.result e') := by
  rw [h e he, h' e' he']
  exact .missed hm

theorem of_givesUp {rule : Rule α} {rule' : Rule β} {t t' : Text} (h : GivesUp t rule)
    (h' : GivesUp t' rule') (he : e.Before t) (he' : e'.Before t') :
    TwinResult a b .loose R e e' (rule.result e) (rule'.result e') := by
  have hrun : rule.result e = (.miss, (rule.result e).2) := Prod.ext (h e he) rfl
  have hrun' : rule'.result e' = (.miss, (rule'.result e').2) := Prod.ext (h' e' he') rfl
  rw [hrun, hrun']
  exact .miss rfl

end TwinResult

/-- The pattern reads what stands before the end of a tag as it would without the end. -/
structure Pattern.StopsAt (a : Text) (p : Pattern) : Prop where
  le : ∀ {t n}, p t = some n → n ≤ t.length
  append : ∀ w, p (w ++ a) = p w

theorem Pattern.Local.stopsAt {p : Pattern} (h : p.Local) (ha : a.EndsTag) : p.StopsAt a :=
  ⟨h.le, h.append ha.apart⟩

theorem Pattern.StopsAt.ahead {p : Pattern} (h : p.StopsAt a) (u : Option Text) :
    p (.ahead a u) = p (u.getD []) := by
  cases u with
  | none => rfl
  | some u => exact h.append u

theorem Text.take_ahead {u : Option Text} {n : Nat} (h : n ≤ (u.getD []).length) (a : Text) :
    (ahead a u).take n = (u.getD []).take n ∧ (ahead a u).drop n = ahead a (u.map (List.drop n)) := by
  cases u with
  | none => simp [ahead]
  | some u =>
    have hle : n ≤ u.length := h
    exact ⟨List.take_append_of_le_length hle, List.drop_append_of_le_length hle⟩

namespace Twins

variable {rule : Rule α} {rule' : Rule β}

theorem mono {P : α → β → Prop} (h : Twins a b m R rule rule') (hP : ∀ x y, R x y → P x y) :
    Twins a b m P rule rule' := by
  intro u e e' he he'
  have hresult := h u e e' he he'
  generalize rule.result e = r at hresult ⊢
  generalize rule'.result e' = r' at hresult ⊢
  cases hresult with
  | hit u more related before before' texts texts' =>
    exact .hit u more (hP _ _ related) before before' texts texts'
  | miss hm => exact .miss hm
  | missed hm => exact .missed hm
  | error x => exact .error x

theorem loosen (h : Twins a b m R rule rule') : Twins a b .loose R rule rule' :=
  fun u e e' he he' =>
    (h u e e' he he').behind (.inr rfl) (List.append_nil _).symm (List.append_nil _).symm

theorem pure {value : α} {value' : β} (h : R value value') :
    Twins a b m R (Pure.pure value) (Pure.pure value') :=
  fun u _ _ he he' => .hit u [] h he he' (by simp) (by simp)

theorem miss : Twins a b .loose R RuleT.miss RuleT.miss := fun _ _ _ _ _ => .miss rfl

theorem cursor : Twins a b m (Cursor.Near a b) RuleT.cursor RuleT.cursor :=
  fun u _ _ he he' => .hit u [] ⟨u, he.rest, he'.rest⟩ he he' (by simp) (by simp)

section Bind

variable {next : α → Rule γ} {next' : β → Rule δ}

theorem bind (h : Twins a b m R rule rule')
    (hn : ∀ x y, R x y → Twins a b .loose S (next x) (next' y)) :
    Twins a b .loose S (rule >>= next) (rule' >>= next') := by
  intro u e e' he he'
  have hresult := h u e e' he he'
  rw [result_bind, result_bind]
  generalize rule.result e = r at hresult ⊢
  generalize rule'.result e' = r' at hresult ⊢
  cases hresult with
  | hit u more related before before' texts texts' =>
    exact (hn _ _ related u _ _ before before').behind (.inr rfl) texts texts'
  | miss hm => exact .miss rfl
  | missed hm => exact .miss rfl
  | error x => exact .error x

/-- A rule that goes on with one that cannot miss may miss as before. -/
theorem bind_firm (h : Twins a b m R rule rule')
    (hn : ∀ x y, R x y → Twins a b .firm S (next x) (next' y)) :
    Twins a b m S (rule >>= next) (rule' >>= next') := by
  intro u e e' he he'
  have hresult := h u e e' he he'
  rw [result_bind, result_bind]
  generalize rule.result e = r at hresult ⊢
  generalize rule'.result e' = r' at hresult ⊢
  cases hresult with
  | hit u more related before before' texts texts' =>
    exact (hn _ _ related u _ _ before before').behind (.inl rfl) texts texts'
  | miss hm => exact .miss hm
  | missed hm => exact .missed hm
  | error x => exact .error x

end Bind

theorem optional (h : Twins a b .clean R rule rule') :
    Twins a b .firm (Option.Rel R) (RuleT.optional rule) (RuleT.optional rule') := by
  intro u e e' he he'
  have hresult := h u e e' he he'
  rw [result_optional, result_optional]
  generalize rule.result e = r at hresult ⊢
  generalize rule'.result e' = r' at hresult ⊢
  cases hresult with
  | hit u more related before before' texts texts' =>
    exact .hit u more (.some related) before before' texts texts'
  | miss hm => cases hm
  | missed hm =>
    have hx : (e.missed none : Outcome α × Engine).2.Before (.ahead a u) := he.missed
    have hx' : (e'.missed none : Outcome β × Engine).2.Before (.ahead b u) := he'.missed
    exact .hit u [] .none hx hx' (List.append_nil _).symm (List.append_nil _).symm
  | error x => exact .error x

theorem pattern {p : Pattern} (hp : p.StopsAt a) (hp' : p.StopsAt b) :
    Twins a b .clean (Capture.Near a b) (RuleT.pattern p) (RuleT.pattern p) := by
  intro u e e' he he'
  cases hn : p (u.getD []) with
  | none =>
    exact .of_misses (.pattern ((hp.ahead u).trans hn)) (.pattern ((hp'.ahead u).trans hn))
      (by decide) he he'
  | some n =>
    obtain ⟨htake, hdrop⟩ := Text.take_ahead (hp.le hn) a
    obtain ⟨htake', hdrop'⟩ := Text.take_ahead (hp.le hn) b
    obtain ⟨x, y, hrun, hx, hy, htexts⟩ := Hits.pattern ((hp.ahead u).trans hn) e he
    obtain ⟨x', y', hrun', hx', hy', htexts'⟩ := Hits.pattern ((hp'.ahead u).trans hn) e' he'
    have hread := (Reads.pattern p e rfl he.negate).2
    have hread' := (Reads.pattern p e' rfl he'.negate).2
    rw [hrun] at hread
    rw [hrun'] at hread'
    obtain ⟨_, -, -, hcapture⟩ := hread x rfl
    obtain ⟨_, -, -, hcapture'⟩ := hread' x' rfl
    have hnear : x.range.start.Near a b x'.range.start := by
      rw [hcapture, hcapture']
      exact ⟨u, he.rest, he'.rest⟩
    rw [hdrop] at hy
    rw [hdrop'] at hy'
    rw [htake] at hx htexts
    rw [htake'] at hx' htexts'
    rw [hrun, hrun']
    exact .hit _ _ ⟨hx.trans hx'.symm, hnear⟩ hy hy' htexts htexts'

section Frames

variable (ha : a.EndsTag) (hb : b.EndsTag) (hk : Keeps rule) (hk' : Keeps rule')
include ha hb hk hk'

/-- What the rules come to in frames of their own, whatever the frames around them owe. -/
theorem result_scope (h : Twins a b m R rule rule') {u : Option Text} {e e' : Engine}
    (he : e.Facing (.ahead a u)) (he' : e'.Facing (.ahead b u)) :
    (RuleT.scope rule).result e = e.discharged.missed e.frame.obligation ∧
        (RuleT.scope rule').result e' = e'.discharged.missed e'.frame.obligation ∨
      TwinResult a b .firm (fun x y => R x.1 y.1 ∧ x.2.text = y.2.text) e e'
        ((RuleT.scope rule).result e) ((RuleT.scope rule').result e') := by
  obtain ⟨v, hv⟩ := Text.skipIgnorable_ahead u
  have hopen := he.openFrame
  have hopen' := he'.openFrame
  rw [hv a ha] at hopen
  rw [hv b hb] at hopen'
  have hinner := h v _ _ hopen hopen'
  have hresult := result_scope_eq he.failed (hk e.openFrame)
  have hresult' := result_scope_eq he'.failed (hk' e'.openFrame)
  generalize hr : rule.result e.openFrame = r at hinner hresult
  generalize hr' : rule'.result e'.openFrame = r' at hinner hresult'
  cases hinner with
  | hit w more related before before' texts texts' =>
    obtain ⟨capture, y, hrun, htext, hy, hmore⟩ := he.result_scope_of_hit hk hr before texts
    obtain ⟨capture', y', hrun', htext', hy', hmore'⟩ :=
      he'.result_scope_of_hit hk' hr' before' texts'
    rw [hrun, hrun']
    exact .inr (.hit w _ ⟨related, htext.trans htext'.symm⟩ hy hy' hmore hmore')
  | miss hm => exact .inl ⟨hresult, hresult'⟩
  | missed hm => exact .inl ⟨hresult, hresult'⟩
  | error x =>
    rw [hresult]
    exact .inr (.error x)

theorem scope (h : Twins a b m R rule rule') :
    Twins a b .clean (fun x y => R x.1 y.1 ∧ x.2.text = y.2.text) (RuleT.scope rule)
      (RuleT.scope rule') := by
  intro u e e' he he'
  rcases h.result_scope ha hb hk hk' he.toFacing he'.toFacing with ⟨hrun, hrun'⟩ | hresult
  · rw [hrun, hrun', he.discharged_eq, he'.discharged_eq, he.obligation, he'.obligation]
    exact .missed (by decide)
  · exact hresult.behind (.inl rfl) (List.append_nil _).symm (List.append_nil _).symm

theorem framed (h : Twins a b m R rule rule') :
    Twins a b .clean R (RuleT.framed rule) (RuleT.framed rule') :=
  (h.scope ha hb hk hk').bind_firm fun _ _ hxy => .pure hxy.1

/-- A rule that has to hit does not miss. -/
theorem required (fault : Fault) (h : Twins a b m R rule rule') :
    Twins a b .firm R (RuleT.required fault rule) (RuleT.required fault rule') := by
  intro u e e' he he'
  have hrequire (e : Engine) : (RuleT.require fault : Rule Unit).result e = (.hit (), e.require fault) :=
    rfl
  unfold RuleT.required RuleT.framed
  rw [result_bind, result_bind, hrequire, hrequire]
  dsimp only
  rw [result_bind, result_bind]
  rcases h.result_scope ha hb hk hk' (he.require fault) (he'.require fault) with ⟨hrun, -⟩ | hresult
  · have howed : (e.require fault).frame.obligation = some ⟨fault, e.cursor⟩ := by
      simp [Engine.require, he.failed]
    rw [hrun, howed]
    exact .error _
  · generalize (RuleT.scope rule).result (e.require fault) = r at hresult ⊢
    generalize (RuleT.scope rule').result (e'.require fault) = r' at hresult ⊢
    cases hresult with
    | hit v more related before before' texts texts' =>
      rw [Engine.texts_require] at texts texts'
      exact .hit v more related.1 before before' texts texts'
    | miss hm => cases hm
    | missed hm => exact absurd rfl hm
    | error x => exact .error x

end Frames

section Alternatives

variable (ha : a.EndsTag) (hb : b.EndsTag) {P : α → α → Prop} {branches : List (Rule α)}
  (h : ∀ branch ∈ branches, Twins a b .loose P branch branch ∧ Keeps branch)
include ha hb h

/-- Branches that all miss leave no trace but the mark of the latest match. -/
theorem result_firstOf {u : Option Text} {e e' : Engine} (he : e.Before (.ahead a u))
    (he' : e'.Before (.ahead b u)) :
    (∃ x x', (RuleT.firstOf branches).result e = (.miss, x) ∧
        (RuleT.firstOf branches).result e' = (.miss, x') ∧
        (x = e ∨ x = (e.missed none : Outcome α × Engine).2) ∧
        (x' = e' ∨ x' = (e'.missed none : Outcome α × Engine).2)) ∨
      TwinResult a b .firm P e e' ((RuleT.firstOf branches).result e)
        ((RuleT.firstOf branches).result e') := by
  induction branches generalizing e e' with
  | nil => exact .inl ⟨e, e', rfl, rfl, .inl rfl, .inl rfl⟩
  | cons branch branches ih =>
    obtain ⟨⟨htwins, hk⟩, h⟩ := List.forall_mem_cons.1 h
    have hfirst := htwins.scope ha hb hk hk u e e' he he'
    rw [result_firstOf_cons, result_firstOf_cons]
    generalize (RuleT.scope branch).result e = r at hfirst ⊢
    generalize (RuleT.scope branch).result e' = r' at hfirst ⊢
    cases hfirst with
    | hit v more related before before' texts texts' =>
      exact .inr (.hit v more related.1 before before' texts texts')
    | miss hm => cases hm
    | error x => exact .inr (.error x)
    | missed hm =>
      have hx : (e.missed none : Outcome α × Engine).2.Before (.ahead a u) := he.missed
      have hx' : (e'.missed none : Outcome α × Engine).2.Before (.ahead b u) := he'.missed
      rcases ih h hx hx' with ⟨x, x', hrun, hrun', hleft, hleft'⟩ | hresult
      · refine .inl ⟨x, x', hrun, hrun', .inr ?_, .inr ?_⟩
        · rcases hleft with rfl | rfl <;> rfl
        · rcases hleft' with rfl | rfl <;> rfl
      · exact .inr (hresult.behind (.inl rfl) (List.append_nil _).symm (List.append_nil _).symm)

theorem alt : Twins a b .clean P (RuleT.alt branches) (RuleT.alt branches) := by
  intro u e e' he he'
  rw [result_alt _ he.failed, result_alt _ he'.failed, he.discharged_eq, he'.discharged_eq,
    he.obligation, he'.obligation]
  rcases result_firstOf ha hb h he he' with ⟨x, x', hrun, hrun', hleft, hleft'⟩ | hresult
  · have hmissed : (x.missed none : Outcome α × Engine) = e.missed none := by
      rcases hleft with rfl | rfl <;> rfl
    have hmissed' : (x'.missed none : Outcome α × Engine) = e'.missed none := by
      rcases hleft' with rfl | rfl <;> rfl
    rw [hrun, hrun']
    dsimp only
    rw [hmissed, hmissed']
    exact .missed (by decide)
  · generalize (RuleT.firstOf branches).result e = r at hresult ⊢
    generalize (RuleT.firstOf branches).result e' = r' at hresult ⊢
    cases hresult with
    | hit v more related before before' texts texts' =>
      exact .hit v more related before before' texts texts'
    | miss hm => cases hm
    | missed hm => exact absurd rfl hm
    | error x => exact .error x

end Alternatives

theorem seq_nil {P : α → β → Prop} :
    Twins a b m (List.Forall₂ P) (RuleT.seq []) (RuleT.seq []) := .pure .nil

theorem seq_cons {P : α → β → Prop} {steps : List (Rule α)} {steps' : List (Rule β)}
    (h : Twins a b m P rule rule')
    (hs : Twins a b .loose (List.Forall₂ P) (RuleT.seq steps) (RuleT.seq steps')) :
    Twins a b .loose (List.Forall₂ P) (RuleT.seq (rule :: steps)) (RuleT.seq (rule' :: steps')) := by
  intro u e e' he he'
  have hfirst := h u e e' he he'
  rw [result_seq_cons, result_seq_cons]
  generalize rule.result e = r at hfirst ⊢
  generalize rule'.result e' = r' at hfirst ⊢
  cases hfirst with
  | miss hm => exact .miss rfl
  | missed hm => exact .miss rfl
  | error x => exact .error x
  | @hit value value' x x' v more related before before' texts texts' =>
    have hrest := hs v x x' before before'
    dsimp only
    generalize (RuleT.seq steps).result x = r at hrest ⊢
    generalize (RuleT.seq steps').result x' = r' at hrest ⊢
    have hbehind : TwinResult a b .loose (List.Forall₂ P) e e' r r' :=
      hrest.behind (.inr rfl) texts texts'
    cases hbehind with
    | hit w more' hvalues before before' texts texts' =>
      exact .hit w more' (.cons related hvalues) before before' texts texts'
    | miss hm => exact .miss rfl
    | missed hm => exact .miss rfl
    | error x => exact .error x

/-- A rule that has to hit, and what follows it. -/
theorem requireLast (fault : Fault) {next : Option α → Rule γ} {next' : Option β → Rule δ}
    (h : Twins a b .clean R rule rule') (hm : Marks rule) (hm' : Marks rule')
    (hn : ∀ x y, R x y → Twins a b .loose S (next (some x)) (next' (some y))) :
    Twins a b .loose S
      (RuleT.optional rule >>= fun found => RuleT.requireLast fault >>= fun _ => next found)
      (RuleT.optional rule' >>= fun found => RuleT.requireLast fault >>= fun _ => next' found) := by
  intro u e e' he he'
  have hfirst := h u e e' he he'
  rw [result_bind, result_bind, result_optional, result_optional]
  generalize hr : rule.result e = r at hfirst ⊢
  generalize hr' : rule'.result e' = r' at hfirst ⊢
  cases hfirst with
  | miss hm => cases hm
  | error x => exact .error x
  | missed _ =>
    -- what was missed last is not marked as a match, so the demand is not met
    let x := (e.missed none : Outcome α × Engine).2
    have hlast : (RuleT.requireLast fault : Rule Unit).result x =
        (.error (.ofCursor fault x.cursor), x) := by
      change x.requireLast fault = _
      simp [Engine.requireLast, x, Engine.missed, he.failed]
    change TwinResult a b .loose S e e'
      ((RuleT.requireLast fault >>= fun _ => next none).result x) _
    rw [result_bind, hlast]
    exact .error _
  | @hit value value' x x' v more related before before' texts texts' =>
    have hlast : (RuleT.requireLast fault : Rule Unit).result x = (.hit (), x) := by
      change x.requireLast fault = _
      simp [Engine.requireLast, hm _ _ _ hr]
    have hlast' : (RuleT.requireLast fault : Rule Unit).result x' = (.hit (), x') := by
      change x'.requireLast fault = _
      simp [Engine.requireLast, hm' _ _ _ hr']
    change TwinResult a b .loose S e e'
      ((RuleT.requireLast fault >>= fun _ => next (some value)).result x)
      ((RuleT.requireLast fault >>= fun _ => next' (some value')).result x')
    rw [result_bind, result_bind, hlast, hlast']
    exact (hn _ _ related v x x' before before').behind (.inr rfl) texts texts'

section Repetitions

variable (ha : a.EndsTag) (hb : b.EndsTag) (hk : Keeps rule) (hk' : Keeps rule')
include ha hb hk hk'

/-- Repetitions do the same within any two bounds above what is left to read. -/
theorem result_manyWithin (h : Twins a b m R rule rule') (i j : Nat) {u : Option Text} {e e' : Engine}
    (he : e.Before (.ahead a u)) (he' : e'.Before (.ahead b u)) (hi : e.cursor.rest.length < i)
    (hj : e'.cursor.rest.length < j) :
    TwinResult a b .firm (List.Forall₂ R) e e' ((RuleT.manyWithin rule i).result e)
      ((RuleT.manyWithin rule' j).result e') := by
  induction i generalizing j u e e' with
  | zero => omega
  | succ i ih =>
    obtain ⟨j, rfl⟩ : ∃ k, j = k + 1 := ⟨j - 1, by omega⟩
    have hfirst := h.scope ha hb hk hk' u e e' he he'
    have hkept := hk.scope e
    have hkept' := hk'.scope e'
    rw [result_manyWithin_succ, result_manyWithin_succ]
    generalize (RuleT.scope rule).result e = r at hfirst hkept ⊢
    generalize (RuleT.scope rule').result e' = r' at hfirst hkept' ⊢
    cases hfirst with
    | miss hm => cases hm
    | error x => exact .error x
    | missed hm =>
      have hx : (e.missed none : Outcome α × Engine).2.Before (.ahead a u) := he.missed
      have hx' : (e'.missed none : Outcome β × Engine).2.Before (.ahead b u) := he'.missed
      exact .hit u [] .nil hx hx' (List.append_nil _).symm (List.append_nil _).symm
    | @hit value value' x x' v more related before before' texts texts' =>
      have hreach : e.cursor.Reaches x.cursor := hkept.reaches
      have hreach' : e'.cursor.Reaches x'.cursor := hkept'.reaches
      have hle := hreach.length_rest_le
      rw [he.rest, before.rest] at hle
      -- both have read on, or neither has
      have hmoved : x'.cursor.position = e'.cursor.position ↔
          x.cursor.position = e.cursor.position := by
        rw [hreach.position_eq_iff, hreach'.position_eq_iff, he.rest, he'.rest, before.rest,
          before'.rest]
        exact Text.length_ahead_eq_iff ha hb hle
      dsimp only
      simp only [hmoved]
      split
      · exact .hit v more (.cons related.1 .nil) before before' texts texts'
      · next hread =>
        have hless : x.cursor.rest.length < e.cursor.rest.length := by
          have hposition := hreach.position_le
          exact hreach.length_rest_lt (by omega)
        have hless' : x'.cursor.rest.length < e'.cursor.rest.length := by
          have hposition := hreach'.position_le
          exact hreach'.length_rest_lt (by omega)
        have hrest := ih j before before' (by omega) (by omega)
        generalize (RuleT.manyWithin rule i).result x = r at hrest ⊢
        generalize (RuleT.manyWithin rule' j).result x' = r' at hrest ⊢
        have hbehind : TwinResult a b .firm (List.Forall₂ R) e e' r r' :=
          hrest.behind (.inl rfl) texts texts'
        cases hbehind with
        | hit w more' hvalues before before' texts texts' =>
          exact .hit w more' (.cons related.1 hvalues) before before' texts texts'
        | miss hm => cases hm
        | missed hm => exact absurd rfl hm
        | error x => exact .error x

theorem many (h : Twins a b m R rule rule') :
    Twins a b .firm (List.Forall₂ R) (RuleT.many rule) (RuleT.many rule') := by
  intro u e e' he he'
  have hroom := he.room
  have hroom' := he'.room
  have hlength : e.cursor.rest.length < e.source.length + 2 := by rw [he.rest]; omega
  have hlength' : e'.cursor.rest.length < e'.source.length + 2 := by rw [he'.rest]; omega
  exact h.result_manyWithin ha hb hk hk' _ _ he he' hlength hlength'

end Repetitions

/-- Where the first rule hits on one engine, the second hits on every engine. -/
theorem hits (h : Twins a b m R rule rule') (ha : a.EndsTag) {u : Option Text} {e x : Engine}
    {value : α} (he : e.Before (.ahead a u)) (hrun : rule.result e = (.hit value, x)) :
    ∃ v more, x.Before (.ahead a v) ∧ Hits (.ahead b u) rule' (R value) more (.ahead b v) := by
  have hstart : (Engine.start (.ahead b u)).Before (.ahead b u) :=
    ⟨⟨Cursor.rest_start _, Nat.le_refl _, rfl, rfl⟩, rfl⟩
  have hfirst := h u e _ he hstart
  rw [hrun] at hfirst
  obtain ⟨-, -, v, more, -, -, hx, -, htexts, -⟩ := hfirst.of_hit
  refine ⟨v, more, hx, fun e' he' => ?_⟩
  have hnext := h u e e' he he'
  rw [hrun] at hnext
  obtain ⟨value', x', w, more', hrun', hR, hy, hx', hmore, htexts'⟩ := hnext.of_hit
  -- what is left and what was captured is told by the first rule
  obtain rfl : v = w := Text.ahead_injective ha (hx.rest.symm.trans hy.rest)
  obtain rfl : more = more' := List.append_cancel_left (htexts.symm.trans hmore)
  exact ⟨value', x', hrun', hR, hx', htexts'⟩

end Twins

end NodeMarkup
