import Tapgres.Filter.Recognise

/-!
# The parser answers

On a token list that ends in `End` no parsing function runs off the list or out of fuel, and the parser
accepts exactly the filters.

* `parser_answers` — every parsing function stops in front of `End`, or with a parse error;
* `parse_iff_isFilter` — the parser succeeds on the filters and only there, and what it builds matches
  the messages the filter means.
-/

namespace Tapgres.Filter

open Tapgres.Net

variable {env : FilterEnv}

/-- The list ends in `End`. -/
def Ended (ts : List Token) : Prop := ∃ body last, ts = body ++ [last] ∧ last.kind = .end

theorem Ended.cons {t : Token} {ts : List Token} (h : Ended (t :: ts)) (ht : t.kind ≠ .end) :
    Ended ts := by
  obtain ⟨body, last, heq, hlast⟩ := h
  cases body with
  | nil =>
    obtain ⟨rfl, rfl⟩ := List.cons.inj heq
    exact absurd hlast ht
  | cons b body =>
    obtain ⟨rfl, rfl⟩ := List.cons.inj heq
    exact ⟨body, last, rfl, hlast⟩

theorem Ended.exists_cons {ts : List Token} (h : Ended ts) : ∃ t rest, ts = t :: rest := by
  obtain ⟨body, last, rfl, _⟩ := h
  exact List.exists_cons_of_ne_nil (by simp)

/-- A result that leaves the end to be read, or a parse error. -/
inductive Answers {α : Type} (ts : List Token) : Except Stop (α × List Token) → Prop where
  | ok {a : α} {rest : List Token} (ended : Ended rest) (shrinks : rest.length ≤ ts.length) :
      Answers ts (.ok (a, rest))
  | error (e : FilterParseError) : Answers ts (.error (.error e))

theorem Answers.mono {α : Type} {ts ts' : List Token} {r : Except Stop (α × List Token)}
    (h : Answers ts r) (hlen : ts.length ≤ ts'.length) : Answers ts' r := by
  cases h with
  | ok ended shrinks => exact .ok ended (shrinks.trans hlen)
  | error e => exact .error e

/-- **Sequencing.**  What follows an answer may rely on the end being there still. -/
theorem Answers.bind {α β : Type} {ts : List Token} {x : Except Stop (α × List Token)}
    {f : α × List Token → Except Stop (β × List Token)} (hx : Answers ts x)
    (hf : ∀ a rest, Ended rest → rest.length ≤ ts.length → Answers rest (f (a, rest))) :
    Answers ts (x >>= f) := by
  cases hx with
  | ok ended shrinks => exact (hf _ _ ended shrinks).mono shrinks
  | error e => exact .error e

/-! ### Tokens and operands -/

theorem take_answers {ts : List Token} (h : Ended ts) : Answers ts (take ts) := by
  obtain ⟨t, rest, rfl⟩ := h.exists_cons
  rw [take_cons]
  split
  · exact .ok h le_rfl
  · exact .ok (h.cons ‹_›) (by simp)

/-- An optional token other than `End` is taken or left. -/
theorem takeIf_answers (kind : TokenKind) (hkind : kind ≠ .end) {ts : List Token} (h : Ended ts) :
    (∃ rest, takeIf kind ts = .ok (true, rest) ∧ Ended rest ∧ rest.length < ts.length) ∨
      takeIf kind ts = .ok (false, ts) := by
  obtain ⟨t, rest, rfl⟩ := h.exists_cons
  by_cases ht : t.kind = kind
  · exact .inl ⟨rest, takeIf_of_eq ht rest, h.cons (by rwa [ht]), by simp⟩
  · exact .inr (takeIf_of_ne ht rest)

/-- A required token other than `End` is consumed, or missed with an error. -/
theorem expect_answers (kind : TokenKind) (hkind : kind ≠ .end) (message : String) {ts : List Token}
    (h : Ended ts) :
    (∃ rest, expect kind message ts = .ok rest ∧ Ended rest ∧ rest.length < ts.length) ∨
      ∃ e, expect kind message ts = .error (.error e) := by
  obtain ⟨t, rest, rfl⟩ := h.exists_cons
  by_cases ht : t.kind = kind
  · exact .inl ⟨rest, expect_of_eq ht message rest, h.cons (by rwa [ht]), by simp⟩
  · exact .inr ⟨_, expect_of_ne ht message rest⟩

theorem valueOf_end (env : FilterEnv) (field : Field) : valueOf env field .end = none := by
  cases field <;> rfl

theorem parseValue_answers (field : Field) {ts : List Token} (h : Ended ts) :
    Answers ts (parseValue env field ts) := by
  obtain ⟨t, rest, rfl⟩ := h.exists_cons
  rcases parseValue_cons env field t rest with ⟨v, hv, hparse⟩ | ⟨_, e, hparse⟩
  · rw [hparse]
    refine .ok (h.cons fun hend => ?_) (by simp)
    rw [hend, valueOf_end] at hv
    cases hv
  · rw [hparse]
    exact .error e

theorem parseString_answers (error : String) {ts : List Token} (h : Ended ts) :
    Answers ts (parseString error ts) := by
  apply (take_answers h).bind
  intro t rest hrest _
  dsimp only
  split
  · exact .ok hrest le_rfl
  · exact .error _

theorem setLoop_answers (field : Field) {n : ℕ} (acc : List Value) {ts : List Token} (h : Ended ts)
    (hn : ts.length ≤ n) : Answers ts (setLoop env field n acc ts) := by
  induction n generalizing acc ts with
  | zero =>
    obtain ⟨t, rest, rfl⟩ := h.exists_cons
    simp at hn
  | succ n ih =>
    apply (parseValue_answers field h).bind
    intro v rest hrest hlen
    rcases takeIf_answers .comma (by simp) hrest with ⟨rest', htake, hrest', hlt⟩ | htake
    · obtain ⟨next, rest'', rfl⟩ := hrest'.exists_cons
      simp only [htake, ok_bind, if_true, peek_cons]
      split
      · exact .error _
      · exact (ih _ hrest' (by omega)).mono hlt.le
    · simp only [htake, ok_bind, Bool.false_eq_true, if_false]
      rcases expect_answers .rightBrace (by simp) "expected ',' or '\x7d' in set" hrest
        with ⟨rest', hexpect, hrest', hlt⟩ | ⟨e, hexpect⟩
      · rw [hexpect]
        exact .ok hrest' hlt.le
      · rw [hexpect]
        exact .error e

theorem parseSet_answers (field : Field) {ts : List Token} (h : Ended ts) :
    Answers ts (parseSet env field ts) := by
  rw [parseSet]
  rcases expect_answers .leftBrace (by simp) "expected '\x7b' after 'in'" h
    with ⟨rest, hexpect, hrest, hlt⟩ | ⟨e, hexpect⟩
  · obtain ⟨next, rest', rfl⟩ := hrest.exists_cons
    simp only [hexpect, ok_bind, peek_cons]
    split
    · exact .error _
    · exact (setLoop_answers field [] hrest le_rfl).mono hlt.le
  · rw [hexpect]
    exact .error e

/-! ### Predicates -/

/-- A text operator on another field is an error; on a text field the rest is read. -/
theorem requireTextField_answers {α : Type} {field : Field} {position : ℕ} {operator : String}
    {ts : List Token} {f : Unit → Except Stop (α × List Token)} (hf : Answers ts (f ())) :
    Answers ts (requireTextField field position operator >>= f) := by
  rw [requireTextField]
  split
  · exact hf
  · exact .error _

theorem parseComparison_answers (field : Field) (operator : Token) {ts : List Token} (h : Ended ts) :
    Answers ts (parseComparison env field operator ts) := by
  rw [parseComparison]
  split
  · exact (parseValue_answers field h).bind fun _ _ hrest _ => .ok hrest le_rfl
  · exact (parseValue_answers field h).bind fun _ _ hrest _ => .ok hrest le_rfl
  · exact requireTextField_answers
      ((parseString_answers _ h).bind fun _ _ hrest _ => .ok hrest le_rfl)
  · apply requireTextField_answers
    obtain ⟨t, rest, rfl⟩ := h.exists_cons
    rw [peek_cons, ok_bind]
    apply (parseString_answers _ h).bind
    intro pattern rest hrest _
    dsimp only
    split
    · exact .error _
    · exact .ok hrest le_rfl
  · exact (parseSet_answers field h).bind fun _ _ hrest _ => .ok hrest le_rfl
  · exact .error _

theorem parsePredicate_answers {ts : List Token} (h : Ended ts) :
    Answers ts (parsePredicate env ts) := by
  apply (take_answers h).bind
  intro fieldToken rest hrest _
  dsimp only
  split
  · split
    · exact .error _
    · apply (take_answers hrest).bind
      intro operator rest' hrest' _
      exact (parseComparison_answers _ operator hrest').bind fun _ _ hend _ => .ok hend le_rfl
  · exact .error _

/-! ### Boolean structure -/

/-- On a list that ends in `End` the parsing function answers, if the fuel is enough for the list. -/
def AnswersOn (env : FilterEnv) (s : Symbol) (n : ℕ) : Prop :=
  ∀ (e : Expr) (ts : List Token), Ended ts → 4 * ts.length + s.fuel ≤ n → Answers ts (parserOf env s n e ts)

section Turns

variable {l : Chain} {n : ℕ}

theorem whole_answers (hoperand : AnswersOn env l.operand n) (htail : AnswersOn env l.tail n) :
    AnswersOn env l.whole (n + 1) := by
  intro e ts h hn
  rw [l.whole_fuel] at hn
  rw [l.whole_turn]
  apply (hoperand e ts h (by omega)).bind
  intro first rest hrest _
  exact htail first rest hrest (by rw [l.tail_fuel]; omega)

theorem tail_answers (hoperand : AnswersOn env l.operand n) (htail : AnswersOn env l.tail n) :
    AnswersOn env l.tail (n + 1) := by
  intro e ts h hn
  rw [l.tail_fuel] at hn
  rw [l.tail_turn]
  dsimp only
  rcases takeIf_answers l.kind (by cases l <;> simp [Chain.kind]) h with ⟨rest, htake, hrest, hlt⟩ | htake
  · rw [htake, ok_bind]
    refine Answers.mono ((hoperand e rest hrest (by omega)).bind fun next rest' hrest' _ => ?_) hlt.le
    exact htail (l.join e next) rest' hrest' (by rw [l.tail_fuel]; omega)
  · rw [htake]
    exact .ok h le_rfl

theorem parseNot_answers (hnot : AnswersOn env .not n) (hprimary : AnswersOn env .primary n) :
    AnswersOn env .not (n + 1) := by
  intro e ts h hn
  simp only [Symbol.fuel] at hn
  rw [parseNot_turn]
  dsimp only
  rcases takeIf_answers .not (by simp) h with ⟨rest, htake, hrest, hlt⟩ | htake
  · rw [htake, ok_bind]
    have hinner := hnot e rest hrest (by simp only [Symbol.fuel]; omega)
    exact Answers.mono (hinner.bind fun _ _ hrest' _ => .ok hrest' le_rfl) hlt.le
  · rw [htake]
    exact hprimary e ts h (by simp only [Symbol.fuel]; omega)

theorem parsePrimary_answers (hor : AnswersOn env .or n) : AnswersOn env .primary (n + 1) := by
  intro e ts h hn
  simp only [Symbol.fuel] at hn
  rw [parsePrimary_turn]
  dsimp only
  rcases takeIf_answers .leftParen (by simp) h with ⟨rest, htake, hrest, hlt⟩ | htake
  · rw [htake, ok_bind]
    have hinner := hor e rest hrest (by simp only [Symbol.fuel]; omega)
    refine Answers.mono (hinner.bind fun inner rest' hrest' _ => ?_) hlt.le
    rcases expect_answers .rightParen (by simp) "expected ')'" hrest'
      with ⟨rest'', hexpect, hrest'', hlt'⟩ | ⟨err, hexpect⟩
    · rw [hexpect]
      exact .ok hrest'' hlt'.le
    · rw [hexpect]
      exact .error err
  · rw [htake]
    exact (parsePredicate_answers h).bind fun _ _ hrest _ => .ok hrest le_rfl

end Turns

/-- **No parsing function runs off the list or out of fuel.** -/
theorem parser_answers (s : Symbol) (n : ℕ) : AnswersOn env s n := by
  induction n generalizing s with
  | zero =>
    intro e ts h hn
    cases s <;> simp [Symbol.fuel] at hn
  | succ n ih =>
    cases s with
    | or => exact whole_answers (l := .or) (ih _) (ih _)
    | orTail => exact tail_answers (l := .or) (ih _) (ih _)
    | and => exact whole_answers (l := .and) (ih _) (ih _)
    | andTail => exact tail_answers (l := .and) (ih _) (ih _)
    | not => exact parseNot_answers (ih _) (ih _)
    | primary => exact parsePrimary_answers (ih _)

/-- **The parser answers**: an expression or a parse error. -/
theorem parse_answers {tokens : List Token} (h : Ended tokens) :
    (∃ e, parse env tokens = .ok e) ∨ ∃ err, parse env tokens = .error (.error err) := by
  have hor : Answers tokens (parseOr env (parserFuel tokens) tokens) :=
    parser_answers .or _ (.predicate ⟨.clientIp, .in []⟩) tokens h le_rfl
  rw [parse]
  generalize parseOr env (parserFuel tokens) tokens = r at hor
  cases hor with
  | @ok e rest ended _ =>
    obtain ⟨t, rest, rfl⟩ := ended.exists_cons
    simp only [ok_bind, peek_cons]
    split
    · exact .inl ⟨e, rfl⟩
    · exact .inr ⟨_, rfl⟩
  | error err => exact .inr ⟨err, rfl⟩

/-! ### The filters, and only they -/

/-- The list ends in `End`, which stands nowhere else. -/
def SingleEnd (tokens : List Token) : Prop :=
  ∃ body last, tokens = body ++ [last] ∧ last.kind = .end ∧ ∀ t ∈ body, t.kind ≠ .end

theorem SingleEnd.ended {tokens : List Token} (h : SingleEnd tokens) : Ended tokens := by
  obtain ⟨body, last, heq, hlast, _⟩ := h
  exact ⟨body, last, heq, hlast⟩

/-- What the parser accepts is a filter. -/
theorem isFilter_of_parse {tokens : List Token} (h : SingleEnd tokens) {e : Expr}
    (hparse : parse env tokens = .ok e) : ∃ p, IsFilter env tokens p := by
  obtain ⟨body, last, rfl, hlast, hbody⟩ := h
  simp only [parse, bind_eq_ok] at hparse
  obtain ⟨⟨e', ts⟩, hor, t, hpeek, hparse⟩ := hparse
  have hloop : parserOf env .or (parserFuel (body ++ [last])) (.predicate ⟨.clientIp, .in []⟩)
      (body ++ [last]) = .ok (e', ts) := hor
  obtain ⟨used, p, htokens, hderives⟩ := parser_sound hloop
  cases ts with
  | nil => cases hpeek
  | cons t' rest =>
    cases hpeek
    dsimp only at hparse
    split at hparse
    · rename_i hend
      -- the end that was seen is the one at the end
      obtain rfl : rest = [] := by
        by_contra hne
        obtain ⟨rest', x, rfl⟩ := (List.eq_nil_or_concat rest).resolve_left hne
        have hsplit : body ++ [last] = (used ++ t :: rest') ++ [x] := by simp [htokens]
        obtain ⟨hmem, _⟩ := List.append_inj' hsplit rfl
        exact hbody t (by simp [hmem]) hend
      exact ⟨p, used.map Token.kind, by rw [htokens]; simp [hend], hderives⟩
    · cases hparse

/-- A filter is accepted, and what is built means what the filter means. -/
theorem parse_of_isFilter {tokens : List Token} {p : Meaning} (h : IsFilter env tokens p) :
    ∃ e, parse env tokens = .ok e ∧ ∀ m, e.matches env m = true ↔ p m := by
  obtain ⟨u, hkinds, hderives⟩ := h
  obtain ⟨used, last, rfl, hused, hlast⟩ := List.map_eq_append_iff.mp hkinds
  obtain ⟨last, rfl, hend⟩ := List.map_eq_singleton_iff.mp hlast
  obtain ⟨e, hor, hp⟩ := parser_complete hderives used last [] (parserFuel (used ++ [last]))
    (.predicate ⟨.clientIp, .in []⟩) hused (by rw [hend]; simp [Symbol.Stops])
    (by simp only [parserFuel, Symbol.fuel, List.length_append]; omega)
  refine ⟨e, ?_, hp⟩
  rw [parserOf] at hor
  rw [parse, hor]
  simp only [ok_bind, peek_cons, hend, if_true, pure_eq_ok]

/-- **The parser accepts exactly its grammar**: on a token list with a single trailing `End` a filter
comes back exactly when the list is one, and otherwise a parse error; and the filter that comes back
matches exactly the messages the grammar says it means. -/
theorem parse_iff_isFilter (env : FilterEnv) (expression : String) (tokens : List Token)
    (h : SingleEnd tokens) :
    ((∃ filter, DisplayFilter.ofTokens env expression tokens = .ok filter) ↔
        ∃ p, IsFilter env tokens p) ∧
      ((∃ err, DisplayFilter.ofTokens env expression tokens = .error (.error err)) ↔
        ¬∃ p, IsFilter env tokens p) ∧
      ∀ filter p, DisplayFilter.ofTokens env expression tokens = .ok filter → IsFilter env tokens p →
        ∀ m, filter.matches env m = true ↔ p m := by
  have hfilter : ∀ p, IsFilter env tokens p → ∃ e, (∀ m, e.matches env m = true ↔ p m) ∧
      DisplayFilter.ofTokens env expression tokens = .ok ⟨expression, some e⟩ := by
    intro p hp
    obtain ⟨e, hparse, hmeans⟩ := parse_of_isFilter hp
    exact ⟨e, hmeans, by rw [DisplayFilter.ofTokens, hparse]; rfl⟩
  rcases @parse_answers env _ h.ended with ⟨e, hparse⟩ | ⟨err, hparse⟩
  · have hofTokens : DisplayFilter.ofTokens env expression tokens = .ok ⟨expression, some e⟩ := by
      rw [DisplayFilter.ofTokens, hparse]
      rfl
    have hacc := isFilter_of_parse h hparse
    refine ⟨⟨fun _ => hacc, fun _ => ⟨_, hofTokens⟩⟩, ⟨?_, fun hno => absurd hacc hno⟩, ?_⟩
    · rintro ⟨err, herr⟩
      rw [hofTokens] at herr
      cases herr
    · intro filter p hok hp
      obtain ⟨e', hmeans, hok'⟩ := hfilter p hp
      cases hok.symm.trans hok'
      exact hmeans
  · have hofTokens : DisplayFilter.ofTokens env expression tokens = .error (.error err) := by
      rw [DisplayFilter.ofTokens, hparse]
      rfl
    have hno : ∀ filter, DisplayFilter.ofTokens env expression tokens ≠ .ok filter := by
      intro filter hok
      rw [hofTokens] at hok
      cases hok
    have hnot : ¬∃ p, IsFilter env tokens p := by
      rintro ⟨p, hp⟩
      obtain ⟨e, _, hok⟩ := hfilter p hp
      exact hno _ hok
    exact ⟨⟨fun ⟨filter, hok⟩ => absurd hok (hno filter), fun hp => absurd hp hnot⟩,
      ⟨fun _ => hnot, fun _ => ⟨err, hofTokens⟩⟩, fun filter p hok => absurd hok (hno filter)⟩

/-- `message.type == "DataRow" or message.type == "Query" and not message.text contains "users"` -/
def precedenceTokens : List Token :=
  [⟨.word "message.type", 0⟩, ⟨.equal, 13⟩, ⟨.string "DataRow", 16⟩, ⟨.or, 26⟩,
    ⟨.word "message.type", 29⟩, ⟨.equal, 42⟩, ⟨.string "Query", 45⟩, ⟨.and, 53⟩, ⟨.not, 57⟩,
    ⟨.word "message.text", 61⟩, ⟨.contains, 74⟩, ⟨.string "users", 83⟩, ⟨.end, 90⟩]

theorem parse_iff_isFilter_precedence :
    ∃ p, IsFilter ⟨fun _ => none, fun _ => none, fun _ _ => false⟩ precedenceTokens p :=
  (parse_iff_isFilter _ "" precedenceTokens
      ⟨precedenceTokens.dropLast, ⟨.end, 90⟩, rfl, rfl, by decide⟩).1.mp
    ⟨⟨"", some (.or (.predicate ⟨.messageType, .equal (.text "DataRow")⟩)
      (.and (.predicate ⟨.messageType, .equal (.text "Query")⟩)
        (.not (.predicate ⟨.messageText, .contains "users"⟩))))⟩, by decide⟩

end Tapgres.Filter
