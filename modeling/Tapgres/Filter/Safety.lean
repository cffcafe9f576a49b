import Tapgres.Filter.Cursor

/-!
# Parsing a filter never panics

The parser by its cursor does what `Filter.parse` does on the tokens from the cursor on, and the cursor
stays on the tokens; with `lex_follows` this is the whole of `DisplayFilter::parse`.

* `take_tracks`, `takeIf_tracks`, `expect_tracks` — the operations that move the cursor;
* `parserOf_tracks`, `parse_follows` — the parser;
* `displayFilter_parse_safe` — parsing any text answers, slices at char boundaries and indexes tokens only.
-/

namespace Tapgres.Filter.Indexed

open Tapgres.Net Tapgres.Lib.Utf8 Tapgres.Lib.Trace

variable {env : FilterEnv} {tokens : List Token}

/-- What is left to read is what stands from the cursor on. -/
def At (tokens : List Token) {α : Type} (r : α × ℕ) (r' : α × List Token) : Prop :=
  r.1 = r'.1 ∧ r.2 < tokens.length ∧ r'.2 = tokens.drop r.2

/-- The cursor stays on the tokens, and the outcome is that of reading what stands from it on. -/
def Tracks (tokens : List Token) {α : Type} (m : Reading (α × ℕ)) (x : Except Stop (α × List Token)) : Prop :=
  Follows (· < tokens.length) (At tokens) m x

section Rules

variable {α β γ : Type} {S : β → γ → Prop} {c : ℕ}

theorem tracks_pure (hc : c < tokens.length) (a : α) :
    Tracks tokens (pure (a, c)) (pure (a, tokens.drop c)) := .pure ⟨rfl, hc, rfl⟩

theorem Tracks.bind {m : Reading (α × ℕ)} {x : Except Stop (α × List Token)} {f : α × ℕ → Reading β}
    {g : α × List Token → Except Stop γ} (h : Tracks tokens m x)
    (hf : ∀ a c, c < tokens.length → Follows (· < tokens.length) S (f (a, c)) (g (a, tokens.drop c))) :
    Follows (· < tokens.length) S (m >>= f) (x >>= g) := by
  refine Follows.bind h ?_
  intro (a, c) (a', ts) ⟨ha, hc, hts⟩
  dsimp only at ha hc hts
  rw [← ha, hts]
  exact hf a c hc

/-! ### The cursor -/

theorem token_at (hc : c < tokens.length) :
    ∃ token, tokens[c]? = some token ∧ tokens.drop c = token :: tokens.drop (c + 1) :=
  ⟨tokens[c], List.getElem?_eq_getElem hc, List.drop_eq_getElem_cons hc⟩

theorem peek_follows (hc : c < tokens.length) {f : Token → Reading β} {g : Token → Except Stop γ}
    (hf : ∀ token, Follows (· < tokens.length) S (f token) (g token)) :
    Follows (· < tokens.length) S (peek tokens c >>= f) (Filter.peek (tokens.drop c) >>= g) := by
  obtain ⟨token, ht, hdrop⟩ := token_at hc
  rw [peek_eq ht, hdrop, peek_cons, ok_bind]
  exact .after rfl (by simpa using hc) (hf token)

theorem errorHere_follows (hc : c < tokens.length) (message : String) :
    Follows (· < tokens.length) S (errorHere message tokens c) (Filter.errorHere message (tokens.drop c)) := by
  obtain ⟨token, ht, hdrop⟩ := token_at hc
  rw [errorHere_eq ht, hdrop, errorHere_cons]
  exact .error rfl (by simpa using hc)

theorem take_tracks (h : Ended tokens) (hc : c < tokens.length) :
    Tracks tokens (take tokens c) (Filter.take (tokens.drop c)) := by
  obtain ⟨token, ht, hdrop⟩ := token_at hc
  rw [take_eq ht, hdrop, take_cons]
  by_cases hend : token.kind = .end
  · rw [if_pos hend, if_pos hend]
    exact .ok rfl (by simpa using hc) ⟨rfl, hc, hdrop.symm⟩
  · rw [if_neg hend, if_neg hend]
    have hnext := next_lt h ht hend
    exact .ok rfl (by simpa using ⟨hc, hnext⟩) ⟨rfl, hnext, rfl⟩

theorem takeIf_tracks (h : Ended tokens) (hc : c < tokens.length) {kind : TokenKind} (hkind : kind ≠ .end) :
    Tracks tokens (takeIf kind tokens c) (Filter.takeIf kind (tokens.drop c)) := by
  obtain ⟨token, ht, hdrop⟩ := token_at hc
  rw [takeIf_eq ht, hdrop, takeIf_cons]
  by_cases heq : token.kind = kind
  · rw [if_pos heq, if_pos heq]
    have hnext := next_lt h ht (by rwa [heq])
    exact .ok rfl (by simpa using ⟨hc, hnext⟩) ⟨rfl, hnext, rfl⟩
  · rw [if_neg heq, if_neg heq]
    exact .ok rfl (by simpa using hc) ⟨rfl, hc, hdrop.symm⟩

theorem expect_tracks (h : Ended tokens) (hc : c < tokens.length) {kind : TokenKind} (hkind : kind ≠ .end)
    (message : String) {f : ℕ → Reading β} {g : List Token → Except Stop γ}
    (hf : ∀ c, c < tokens.length → Follows (· < tokens.length) S (f c) (g (tokens.drop c))) :
    Follows (· < tokens.length) S (expect kind message tokens c >>= f)
      (Filter.expect kind message (tokens.drop c) >>= g) := by
  obtain ⟨token, ht, hdrop⟩ := token_at hc
  rw [expect_eq ht, hdrop]
  by_cases heq : token.kind = kind
  · have hnext := next_lt h ht (by rwa [heq])
    rw [if_pos heq, expect_of_eq heq, ok_bind]
    exact .after rfl (by simpa using ⟨hc, hnext⟩) (hf _ hnext)
  · rw [if_neg heq, expect_of_ne heq, bind_of_error rfl]
    exact .error rfl (by simpa using hc)

end Rules

/-! ### Operands -/

theorem parseValue_tracks (h : Ended tokens) (field : Field) {c : ℕ} (hc : c < tokens.length) :
    Tracks tokens (parseValue env field tokens c) (Filter.parseValue env field (tokens.drop c)) := by
  refine (take_tracks h hc).bind fun token c hc => ?_
  obtain ⟨kind, position⟩ := token
  cases field with
  | clientIp =>
    dsimp only
    cases tokenValue ⟨kind, position⟩ with
    | none => exact .fail _
    | some value =>
      dsimp only
      cases env.parseIp value with
      | none => exact .fail _
      | some ip => exact tracks_pure hc _
  | clientPort =>
    cases kind with
    | word value =>
      dsimp only
      cases parseU16 value with
      | none => exact .fail _
      | some port => exact tracks_pure hc _
    | _ => exact .fail _
  | messageType =>
    cases kind with
    | string value => exact tracks_pure hc _
    | _ => exact .fail _
  | messageText =>
    cases kind with
    | string value => exact tracks_pure hc _
    | _ => exact .fail _
  | messageDirection =>
    cases kind with
    | string value =>
      dsimp only
      cases parseDirection value with
      | none => exact .fail _
      | some direction => exact tracks_pure hc _
    | _ => exact .fail _

theorem parseString_tracks (h : Ended tokens) (error : String) {c : ℕ} (hc : c < tokens.length) :
    Tracks tokens (parseString error tokens c) (Filter.parseString error (tokens.drop c)) := by
  refine (take_tracks h hc).bind fun token c hc => ?_
  obtain ⟨kind, position⟩ := token
  cases kind with
  | string value => exact tracks_pure hc _
  | _ => exact .fail _

theorem requireTextField_follows {β γ : Type} {S : β → γ → Prop} (field : Field) (position : ℕ)
    (operator : String) {f : Unit → Reading β} {g : Unit → Except Stop γ}
    (hf : Follows (· < tokens.length) S (f ()) (g ())) :
    Follows (· < tokens.length) S (requireTextField field position operator >>= f)
      (Filter.requireTextField field position operator >>= g) := by
  rw [requireTextField, Filter.requireTextField]
  split
  · exact .after rfl (by simp [pure]) hf
  · exact .fail _

theorem setLoop_tracks (h : Ended tokens) (field : Field) (n : ℕ) (values : List Value) {c : ℕ}
    (hc : c < tokens.length) :
    Tracks tokens (setLoop env field tokens n values c)
      (Filter.setLoop env field n values (tokens.drop c)) := by
  induction n generalizing values c with
  | zero => exact .fail _
  | succ n ih =>
    refine (parseValue_tracks h field hc).bind fun value c hc => ?_
    refine (takeIf_tracks h hc (by simp)).bind fun taken c hc => ?_
    cases taken with
    | true =>
      refine peek_follows hc fun token => ?_
      split
      · exact errorHere_follows hc _
      · exact ih _ hc
    | false => exact expect_tracks h hc (by simp) _ fun c hc => tracks_pure hc _

theorem parseSet_tracks (h : Ended tokens) (field : Field) {c : ℕ} (hc : c < tokens.length) :
    Tracks tokens (parseSet env field tokens c) (Filter.parseSet env field (tokens.drop c)) := by
  refine expect_tracks h hc (by simp) _ fun c hc => ?_
  refine peek_follows hc fun token => ?_
  split
  · exact errorHere_follows hc _
  · rw [List.length_drop]
    exact setLoop_tracks h field _ _ hc

/-! ### Predicates -/

theorem parseComparison_tracks (h : Ended tokens) (field : Field) (operator : Token) {c : ℕ}
    (hc : c < tokens.length) :
    Tracks tokens (parseComparison env field operator tokens c)
      (Filter.parseComparison env field operator (tokens.drop c)) := by
  obtain ⟨kind, position⟩ := operator
  cases kind with
  | equal => exact (parseValue_tracks h field hc).bind fun value c hc => tracks_pure hc _
  | notEqual => exact (parseValue_tracks h field hc).bind fun value c hc => tracks_pure hc _
  | contains =>
    refine requireTextField_follows field position _ ?_
    exact (parseString_tracks h _ hc).bind fun needle c hc => tracks_pure hc _
  | «matches» =>
    refine requireTextField_follows field position _ (peek_follows hc fun token => ?_)
    refine (parseString_tracks h _ hc).bind fun pattern c hc => ?_
    dsimp only
    cases env.regexError pattern with
    | some error => exact .fail _
    | none => exact tracks_pure hc _
  | «in» => exact (parseSet_tracks h field hc).bind fun values c hc => tracks_pure hc _
  | _ => exact .fail _

theorem parsePredicate_tracks (h : Ended tokens) {c : ℕ} (hc : c < tokens.length) :
    Tracks tokens (parsePredicate env tokens c) (Filter.parsePredicate env (tokens.drop c)) := by
  refine (take_tracks h hc).bind fun fieldToken c hc => ?_
  obtain ⟨kind, position⟩ := fieldToken
  cases kind with
  | word fieldName =>
    dsimp only
    cases Field.parse fieldName with
    | none => exact .fail _
    | some field =>
      refine (take_tracks h hc).bind fun operator c hc => ?_
      exact (parseComparison_tracks h field operator hc).bind fun comparison c hc => tracks_pure hc _
  | _ => exact .fail _

/-! ### Boolean structure -/

/-- The parsing function of a nonterminal. -/
def parserOf (env : FilterEnv) (tokens : List Token) : Symbol → ℕ → Expr → ℕ → Reading (Expr × ℕ)
  | .or, n, _, c => parseOr env tokens n c
  | .orTail, n, e, c => orLoop env tokens n e c
  | .and, n, _, c => parseAnd env tokens n c
  | .andTail, n, e, c => andLoop env tokens n e c
  | .not, n, _, c => parseNot env tokens n c
  | .primary, n, _, c => parsePrimary env tokens n c

/-- **Every parsing function** reads from the cursor on what `Filter.parse` reads. -/
theorem parserOf_tracks (h : Ended tokens) (s : Symbol) (n : ℕ) (e : Expr) {c : ℕ} (hc : c < tokens.length) :
    Tracks tokens (parserOf env tokens s n e c) (Filter.parserOf env s n e (tokens.drop c)) := by
  induction n generalizing s e c with
  | zero =>
    cases s <;> simp only [parserOf, parseOr, orLoop, parseAnd, andLoop, parseNot, parsePrimary,
      Filter.parserOf, Filter.parseOr, Filter.orLoop, Filter.parseAnd, Filter.andLoop, Filter.parseNot,
      Filter.parsePrimary] <;> exact .fail _
  | succ n ih =>
    cases s with
    | or =>
      rw [parserOf, Filter.parserOf, parseOr, Filter.parseOr]
      exact (ih .and e hc).bind fun first c hc => ih .orTail first hc
    | orTail =>
      rw [parserOf, Filter.parserOf, orLoop, Filter.orLoop]
      refine (takeIf_tracks h hc (by simp)).bind fun taken c hc => ?_
      cases taken with
      | true => exact (ih .and e hc).bind fun right c hc => ih .orTail _ hc
      | false => exact tracks_pure hc _
    | and =>
      rw [parserOf, Filter.parserOf, parseAnd, Filter.parseAnd]
      exact (ih .not e hc).bind fun first c hc => ih .andTail first hc
    | andTail =>
      rw [parserOf, Filter.parserOf, andLoop, Filter.andLoop]
      refine (takeIf_tracks h hc (by simp)).bind fun taken c hc => ?_
      cases taken with
      | true => exact (ih .not e hc).bind fun right c hc => ih .andTail _ hc
      | false => exact tracks_pure hc _
    | not =>
      rw [parserOf, Filter.parserOf, parseNot, Filter.parseNot]
      refine (takeIf_tracks h hc (by simp)).bind fun taken c hc => ?_
      cases taken with
      | true => exact (ih .not e hc).bind fun inner c hc => tracks_pure hc _
      | false => exact ih .primary e hc
    | primary =>
      rw [parserOf, Filter.parserOf, parsePrimary, Filter.parsePrimary]
      refine (takeIf_tracks h hc (by simp)).bind fun taken c hc => ?_
      cases taken with
      | true =>
        refine (ih .or e hc).bind fun expression c hc => ?_
        exact expect_tracks h hc (by simp) _ fun c hc => tracks_pure hc _
      | false => exact (parsePredicate_tracks h hc).bind fun p c hc => tracks_pure hc _

/-- **The parser by its cursor** is the parser, and its cursor stays on the tokens. -/
theorem parse_follows (h : Ended tokens) :
    Follows (· < tokens.length) (fun a b : Expr => a = b) (parse env tokens) (Filter.parse env tokens) := by
  have hlength : 0 < tokens.length := by
    obtain ⟨token, rest, rfl⟩ := h.exists_cons
    exact Nat.succ_pos _
  have hor : Tracks tokens (parserOf env tokens .or (parserFuel tokens) (.predicate ⟨.clientIp, .in []⟩) 0)
      _ := parserOf_tracks h .or _ _ hlength
  refine hor.bind fun expression c hc => ?_
  refine peek_follows hc fun token => ?_
  split
  · exact .pure rfl
  · exact errorHere_follows hc _

/-! ### The whole -/

/-- `DisplayFilter::parse`, by positions and cursor. -/
def displayFilterParse (env : FilterEnv) (expression : String) : Except Stop DisplayFilter :=
  let expression := trim expression.toList
  if expression = [] then pure {}
  else do
    let tokens ← (lex expression).result
    let root ← (parse env tokens).result
    pure ⟨String.ofList expression, some root⟩

/-- Every position sliced at is a char boundary within the trimmed text; the tokens end in their only
`End`; the cursor stays on the tokens while they are parsed, and would through any other sequence of its
operations; and the outcome is a filter or an error. -/
structure SafeParse (env : FilterEnv) (expression : String) : Prop where
  slices : ∀ p ∈ (lex (trim expression.toList)).visited, IsBoundary (trim expression.toList) p
  ended : ∀ tokens, (lex (trim expression.toList)).result = .ok tokens → SingleEnd tokens
  cursor : ∀ tokens, (lex (trim expression.toList)).result = .ok tokens →
    ∀ c ∈ (parse env tokens).visited, c < tokens.length
  sequences : ∀ tokens, (lex (trim expression.toList)).result = .ok tokens →
    ∀ ops, Stays tokens (runOps tokens ops 0)
  answers : (∃ filter, displayFilterParse env expression = .ok filter) ∨
    ∃ e, displayFilterParse env expression = .error (.error e)

theorem lex_singleEnd {input : Str} {tokens : List Token} (h : (lex input).result = .ok tokens) :
    SingleEnd tokens := by
  rw [(lex_follows input).result_eq] at h
  rcases lexLoop_answers (input.length + 1) 0 input (Nat.lt_succ_self _) with ⟨tokens', hlex, hend⟩ | ⟨e, hlex⟩
  · rw [Filter.lex, hlex] at h
    rwa [← Except.ok.inj h]
  · rw [Filter.lex, hlex] at h
    cases h

/-- The source's parse is the one without positions. -/
theorem displayFilterParse_eq (env : FilterEnv) (expression : String) :
    displayFilterParse env expression = DisplayFilter.parse env expression := by
  rw [displayFilterParse, DisplayFilter.parse]
  split
  · rfl
  · rw [(lex_follows _).result_eq]
    cases hlex : Filter.lex (trim expression.toList) with
    | error stop => rfl
    | ok tokens =>
      have hend := lex_singleEnd ((lex_follows _).result_eq.trans hlex)
      rw [ok_bind, ok_bind, (parse_follows hend.ended).result_eq]
      rfl

/-- **Parsing a filter never panics**, whatever the text. -/
theorem displayFilter_parse_safe (env : FilterEnv) (expression : String) : SafeParse env expression := by
  refine ⟨(lex_follows _).visited, fun tokens => lex_singleEnd, ?_, ?_, ?_⟩
  · intro tokens hlex
    exact (parse_follows (lex_singleEnd hlex).ended).visited
  · intro tokens hlex ops
    have hend := (lex_singleEnd hlex).ended
    obtain ⟨token, rest, rfl⟩ := hend.exists_cons
    exact ops_stay hend ops (Nat.succ_pos _)
  · rw [displayFilterParse_eq]
    exact displayFilter_parse_answers env expression

end Tapgres.Filter.Indexed
