import NodeMarkup.Node.Layout
import NodeMarkup.Proofs.Grammar.Flat
import NodeMarkup.Proofs.Lexeme.Closed
import NodeMarkup.Proofs.Token.Scan

namespace NodeMarkup

open RuleT

namespace Value

/-- The kinds of values in which no code of a block can stand. -/
def plainKinds : List ValueKind := [.string, .number, .symbol]

/-- The code of the value closes its quoted runs, and is self-contained if no block is in it. -/
structure Closes (v : Value) : Prop where
  closed : v.code.Closed
  selfContained : v.kind ∈ plainKinds → v.code.SelfContained
  symbol : v.kind = .symbol → ∀ c ∈ ['"', '\'', '#', '\n', '\\'], c ∉ v.code

theorem closes_of_literal {t : Text} (h : t.Closed ∧ t.CommentsEnd .code) : Closes ⟨.string, t⟩ :=
  ⟨h.1, fun _ => h.1.selfContained h.2, fun hkind => by cases hkind⟩

theorem closes_of_block {kind : ValueKind} {t : Text} (hkind : kind ∉ plainKinds) (h : t.Closed) :
    Closes ⟨kind, t⟩ := by
  refine ⟨h, fun hplain => absurd hplain hkind, ?_⟩
  rintro rfl
  exact absurd (by decide) hkind

end Value

/-- The captures of a frame close their quoted runs, wherever it has read to. -/
def Watch.closed : Watch where
  since _ := True
  within _ := True
  holds := Text.Closed
  since_of_reaches _ _ := trivial
  within_of_reaches _ _ := trivial
  holds_nil := Text.closed_nil
  holds_append := Text.Closed.append

theorem Watch.closed_overValues : Watch.closed.OverValues Value.Closes := by
  constructor
  case empty =>
    intro kind
    exact ⟨Text.closed_nil, fun _ => rfl, by simp⟩
  case lines =>
    intro _ t _ _
    have hquote := Lexeme.closes_quote (Text.not_mem_foldLines t)
    exact ⟨hquote.1, Value.closes_of_literal hquote⟩
  case string =>
    intro c n _ hn _
    have hliteral := Lexeme.closes_lineLiteral hn
    exact ⟨hliteral.1, Value.closes_of_literal hliteral⟩
  case number =>
    intro p hp c n _ hn _
    have hmarks : ∀ d ∈ ['"', '\'', '#'], d ∉ c.rest.take n := fun d hd =>
      Lexeme.avoids_number hd p hp _ n hn
    have hclosed := Text.closed_of_unmarked hmarks
    exact ⟨hclosed, hclosed, fun _ => Text.selfContained_of_unmarked hmarks,
      fun hkind => by cases hkind⟩
  case path =>
    intro c n _ hn _
    have hmarks : ∀ d ∈ ['"', '\'', '#'] ++ ['\n', '\\'], d ∉ c.rest.take n := by
      have hpart : (['"', '\'', '#'] ++ ['\n', '\\']).all fun d =>
          Lexeme.isSymbolPart d = false ∧ d ≠ '.' := by decide
      intro d hd
      obtain ⟨hd, hdot⟩ := of_decide_eq_true (List.all_eq_true.1 hpart d hd)
      exact Lexeme.avoids_path hd hdot _ n hn
    have hfirst : ∀ d ∈ ['"', '\'', '#'], d ∉ c.rest.take n := fun d hd =>
      hmarks d (List.mem_append_left _ hd)
    have hclosed := Text.closed_of_unmarked hfirst
    exact ⟨hclosed, hclosed, fun _ => Text.selfContained_of_unmarked hfirst, fun _ => hmarks⟩
  case mark =>
    intro word hword c n _ hn _
    have hmarks : ∀ word ∈ ["(".toList, ",".toList, ")".toList, ".".toList],
        ['"', '\'', '#'].all (· ∉ word) := by decide
    have hword := List.all_eq_true.1 (hmarks word hword)
    exact Text.closed_of_unmarked fun d hd =>
      Pattern.Avoids.word (of_decide_eq_true (hword d hd)) _ n hn
  case inner =>
    intro c n _ hn _
    exact Lexeme.foldl_take_of_blockLength hn
  case block => exact fun t h => ⟨h.trim, Value.closes_of_block (by decide) h.trim⟩
  case call => exact fun t h => Value.closes_of_block (by decide) h

theorem Text.escape_of_not_mem {t : Text} (hq : '"' ∉ t) (hb : '\\' ∉ t) : escape t = t := by
  induction t with
  | nil => rfl
  | cons c t ih =>
    simp only [List.mem_cons, not_or] at hq hb
    rw [escape, if_neg (by simp [Ne.symm hq.1, Ne.symm hb.1]), ih hq.2 hb.2]

/-- The code in which a value is written closes its quoted runs as well, also where it is a
reference to a function. -/
theorem Value.Closes.render {v : Value} (h : v.Closes) (declarations : Declarations) :
    (v.render declarations).Closed ∧
      (v.kind ∈ plainKinds → (v.render declarations).SelfContained) := by
  unfold Value.render
  split
  · next name hname =>
    split
    · -- the name of the function stands between quotes
      obtain ⟨hkind, rfl⟩ : v.kind = .symbol ∧ v.code = name := by
        simp only [identifier?, Option.ite_none_right_eq_some, Bool.and_eq_true, decide_eq_true_eq,
          Option.some.injEq] at hname
        exact ⟨hname.1.1, hname.2⟩
      have hmark := h.symbol hkind
      have hquote := Lexeme.closes_quote (hmark '\n' (by simp))
      have hcode : "funcref(self, \"".toList ++ v.code ++ "\")".toList =
          "funcref(self, ".toList ++ Text.quote v.code ++ ")".toList := by
        rw [Text.quote, Text.escape_of_not_mem (hmark '"' (by simp)) (hmark '\\' (by simp))]
        simp
      have hopening : Text.Closed "funcref(self, ".toList := by decide
      have hopening' : Text.SelfContained "funcref(self, ".toList := by decide
      have hclosing : Text.Closed ")".toList := by decide
      have hclosing' : Text.SelfContained ")".toList := by decide
      rw [hcode]
      exact ⟨(hopening.append hquote.1).append hclosing, fun _ =>
        (hopening'.append (hquote.1.selfContained hquote.2)).append hclosing'⟩
    · exact ⟨h.closed, h.selfContained⟩
  · exact ⟨h.closed, h.selfContained⟩

/-- The properties of a tag. Other tokens have none. -/
def Token.properties : Token → List Property
  | ofTag tag => tag.properties
  | _ => []

namespace Grammar

variable {c : Cursor}

theorem reads_property_value {Q : Value → Prop} (hvalue : ∀ d, Reads d value fun v _ => Q v) :
    Reads c property fun p _ => Q p.value := by
  apply reads_propertyHead.bind
  rintro _ d ⟨n, rest, rfl, -⟩
  refine ((hvalue d).optional staysOnMiss_value).bind fun found _ h => ?_
  refine (Reads.requireLast _).bind fun _ _ _ => ?_
  rcases found with _ | value
  · exact .miss
  · simp only [check_then]
    exact (Reads.rangeFrom _).bind fun _ _ _ => .pure h

theorem reads_tagToken_properties {Q : Property → Prop}
    (hproperty : ∀ d, Reads d property fun p _ => Q p) :
    Reads c tagToken fun token _ => ∀ p ∈ token.properties, Q p := by
  refine (reads_literals ["</".toList, "<".toList]).bind fun opener _ _ => ?_
  refine (Reads.pattern _).bind fun className _ _ => ?_
  apply (Reads.many structured_property.keeps fun d => hproperty d.skipIgnorable).bind
  intro properties last hproperties
  refine (Reads.ofState _).bind fun ahead _ _ => ?_
  split
  · exact .miss
  · refine (Reads.require _).bind fun _ _ _ => ?_
    refine (reads_literals ["/>".toList, ">".toList]).bind fun closer _ _ => ?_
    refine (reads_tagKind opener closer).bind fun kind _ _ => ?_
    split
    · exact .refuse _ _
    · exact .pure (hproperties.forall_mem fun _ _ _ h => h)

theorem reads_importToken_import : Reads c importToken fun token _ => ∃ i, token = .ofImport i := by
  refine (reads_keyword (by simp)).bind fun _ _ _ => ?_
  refine (Reads.required_reaches _ structured_symbol.keeps).bind fun _ _ _ => ?_
  refine (Reads.required_reaches _ (structured_keyword _).keeps).bind fun _ _ _ => ?_
  exact (Reads.required_reaches _ structured_stringLiteral.keeps).bind fun _ _ _ => .pure ⟨_, rfl⟩

theorem reads_token_properties {Q : Property → Prop}
    (hproperty : ∀ d, Reads d property fun p _ => Q p) :
    Reads c token fun (found : Token) _ => ∀ p ∈ found.properties, Q p := by
  refine reads_token_of_parts (fun _ => by simp [Token.properties])
    (fun _ => by simp [Token.properties]) (fun _ => ?_) fun _ => ?_
  · apply reads_importToken_import.mono
    rintro _ _ ⟨i, rfl⟩
    simp [Token.properties]
  · exact reads_tagToken_properties hproperty

end Grammar

/-- The properties of all tags of a source. -/
def Scan.properties (source : Text) : List Property :=
  (Scan.start source).drain.1.flatMap Token.properties

theorem Scan.closes_values (source : Text) : ∀ p ∈ Scan.properties source, p.value.Closes := by
  have htokens : ∀ token ∈ (Scan.start source).drain.1,
      ∀ p ∈ token.properties, p.value.Closes := by
    refine Scan.forall_mem_drain (fun _ => Grammar.reads_token_properties fun _ =>
      Grammar.reads_property_value fun d => ?_) source
    apply (Grammar.reads_watched_value Watch.closed_overValues (c := d) trivial).mono
    exact fun _ _ h => h trivial
  intro p hp
  obtain ⟨token, htoken, hp⟩ := List.mem_flatMap.1 hp
  exact htokens token htoken p hp

/-- The code of each property of each tag of a source closes its quoted runs. If it is a string, a
number or a path, or if its comments end in it, then a reader of code leaves it outside quoted runs
and comments. -/
theorem Scan.properties_selfContained (source : Text) {p : Property}
    (hp : p ∈ Scan.properties source) (declarations : Declarations) :
    (p.value.render declarations).Closed ∧
    (p.value.kind ∈ Value.plainKinds → (p.value.render declarations).SelfContained) ∧
    ((p.value.render declarations).CommentsEnd .code →
      (p.value.render declarations).SelfContained) := by
  obtain ⟨hclosed, hplain⟩ := (Scan.closes_values source p hp).render declarations
  exact ⟨hclosed, hplain, hclosed.selfContained⟩

theorem Scan.properties_selfContained_comment :
    let source := "<A x=\x7b[1, # it\n2]\x7d/>".toList
    ∃ p ∈ Scan.properties source, p.value.code = "[1, # it\n2]".toList ∧
      (p.value.render .empty).SelfContained := by
  intro source
  obtain ⟨p, hp, hcode, hends⟩ : ∃ p ∈ Scan.properties source,
      p.value.code = "[1, # it\n2]".toList ∧ (p.value.render .empty).CommentsEnd .code := by
    decide +kernel
  exact ⟨p, hp, hcode, (Scan.properties_selfContained source hp .empty).2.2 hends⟩

/-- The line break that ends the comment is trimmed off the block, so what is written behind the
code of the value is read as part of the comment. -/
theorem Scan.properties_open_comment :
    let source := "<A x=\x7ba # c\n\x7d/>".toList
    '\r' ∉ source ∧ ∃ p ∈ Scan.properties source,
      p.value.render (.ofTokens (Scan.start source).drain.1) = "a # c".toList ∧
      ¬(p.value.render (.ofTokens (Scan.start source).drain.1)).SelfContained := by
  decide +kernel

end NodeMarkup
