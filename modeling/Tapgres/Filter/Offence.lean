import Tapgres.Filter.Refusal

/-!
# The token a parse error names

A filter that is refused goes wrong at one token: what stands before it can be completed to a filter,
and with it that is no longer so.  The parser's errors carry the position of that token:

* `Offends` — in front of a token stands what can be completed, and the token makes the function fail;
* `Offends.first` … `Offends.predicate` — where each production of the grammar goes wrong;
* `parser_offends` — every parse error is at such a token;
* `parse_offends` — of a whole token list, in terms of the grammar.
-/

namespace Tapgres.Filter

open Tapgres.Net

variable {env : FilterEnv}

/-! ### Boolean structure -/

/-- A token that stops the operands of a chain and is not its operator stops the chain. -/
theorem Chain.tail_stops_of {l : Chain} {kind : TokenKind} (h : l.operand.Stops kind) (hne : kind ≠ l.kind) :
    l.tail.Stops kind := by
  cases l with
  | or => exact ⟨hne, h⟩
  | and => exact hne

/-- A parsing function stops in front of a token that cannot continue what it has read, a loop when it
starts at one. -/
theorem parser_stops {s : Symbol} {n : ℕ} {e e' : Expr} {ts rest : List Token} {t : Token}
    (h : parserOf env s n e ts = .ok (e', t :: rest))
    (hstart : ∀ l : Chain, s = l.tail → ∀ t rest, ts = t :: rest → l.operand.Stops t.kind) :
    s.Stops t.kind := by
  induction n generalizing s e e' ts rest t with
  | zero => cases s <;> cases h
  | succ n ih =>
    -- a loop goes on from where an operand has stopped
    have hloops : ∀ {l : Chain} {e first e₁ e' : Expr} {ts ts' : List Token},
        parserOf env l.operand n e ts = .ok (first, ts') →
        parserOf env l.tail n e₁ ts' = .ok (e', t :: rest) → l.tail.Stops t.kind := by
      intro l e first e₁ e' ts ts' hoperand hloop
      refine ih hloop fun l' hl t' rest' hts => ?_
      obtain rfl := Chain.tail_inj hl
      subst hts
      exact ih hoperand fun l' hl => absurd hl (l.operand_ne_tail l')
    generalize hnext : t :: rest = next at h
    cases parser_cases h with
    | @whole l _ _ _ _ _ _ hfirst hloop =>
      subst hnext
      rw [← l.tail_stops]
      exact hloops hfirst hloop
    | more _ hoperand hloop =>
      subst hnext
      exact hloops hoperand hloop
    | @done l _ _ hne => exact Chain.tail_stops_of (hstart l rfl t rest hnext.symm) (hne t rest hnext.symm)
    | negated _ _ => exact trivial
    | plain _ => exact trivial
    | parens _ _ _ => exact trivial
    | predicate _ => exact trivial

/-- The tokens derive, and are read up to `v` and `t` whatever follows these. -/
structure ReadsTo (env : FilterEnv) (s : Symbol) (u v : List Token) (t : Token) : Prop where
  derives : ∃ p, Derives env s (u.map Token.kind) p
  reads : ∀ rest e n, 4 * u.length + s.fuel ≤ n →
    ∃ e', parserOf env s n e (u ++ (v ++ t :: rest)) = .ok (e', v ++ t :: rest)

/-- What a parsing function has read it reads whatever follows the token `t`, up to which nothing changes. -/
theorem parser_ahead {s : Symbol} (hs : ∀ l : Chain, s ≠ l.tail) {n : ℕ} {e e' : Expr} {ts v rest : List Token}
    {t : Token} (h : parserOf env s n e ts = .ok (e', v ++ t :: rest)) :
    ∃ u, ts = u ++ (v ++ t :: rest) ∧ ReadsTo env s u v t := by
  obtain ⟨u, p, rfl, hderives⟩ := parser_sound h
  refine ⟨u, rfl, ⟨p, hderives⟩, ?_⟩
  obtain ⟨next, tail, hnext⟩ := List.exists_cons_of_ne_nil (show v ++ t :: rest ≠ [] by simp)
  have hstops : s.Stops next.kind := by
    rw [hnext] at h
    exact parser_stops h fun l hbad => absurd hbad (hs l)
  intro rest' e₂ n' hn
  obtain ⟨tail, htail⟩ := starts_same hnext.symm rest'
  rw [htail]
  obtain ⟨e₃, hrun, _⟩ := parser_complete hderives u next tail n' e₂ rfl hstops hn
  exact ⟨e₃, hrun⟩

/-- The tokens can be completed to what the symbol derives, and with `t` behind them its parsing function
fails. -/
structure Offends (env : FilterEnv) (s : Symbol) (used : List Token) (t : Token) : Prop where
  completes : ∃ more p, Derives env s (used.map Token.kind ++ more) p
  refuses : ∀ e n, 4 * used.length + s.fuel + 4 ≤ n → Refuses (parserOf env s n e) used t

/-- One parser behind another, of which the first reads up to where the second refuses. -/
theorem Refuses.seq {α β : Type} {f : List Token → Except Stop (α × List Token)}
    {g : α × List Token → Except Stop β} {u v : List Token} {t : Token}
    (hread : ∀ rest, ∃ a, f (u ++ (v ++ t :: rest)) = .ok (a, v ++ t :: rest))
    (h : ∀ a, Refuses (fun ts => g (a, ts)) v t) : Refuses (fun ts => f ts >>= g) (u ++ v) t := by
  intro rest
  obtain ⟨a, ha⟩ := hread rest
  obtain ⟨e, herror⟩ := h a rest
  exact ⟨e, by dsimp only; rw [List.append_assoc, ha]; exact herror⟩

/-- A parser behind an optional token that is there. -/
theorem Refuses.taken {α : Type} {kind : TokenKind} {opr : Token} (hopr : opr.kind = kind)
    {f : Bool × List Token → Except Stop α} {used : List Token} {t : Token}
    (h : Refuses (fun ts => f (true, ts)) used t) :
    Refuses (fun ts => takeIf kind ts >>= f) (opr :: used) t := by
  intro rest
  obtain ⟨e, herror⟩ := h rest
  exact ⟨e, by dsimp only; rw [List.cons_append, takeIf_of_eq hopr]; exact herror⟩

/-- And one that is not there: it is not there either when something else follows `t`. -/
theorem Refuses.passed {α : Type} {kind : TokenKind} {f : Bool × List Token → Except Stop α}
    {used rest : List Token} {t : Token}
    (hpassed : takeIf kind (used ++ t :: rest) = .ok (false, used ++ t :: rest))
    (h : Refuses (fun ts => f (false, ts)) used t) : Refuses (fun ts => takeIf kind ts >>= f) used t := by
  intro rest'
  obtain ⟨next, tail, hnext⟩ := List.exists_cons_of_ne_nil (show used ++ t :: rest ≠ [] by simp)
  have hne : next.kind ≠ kind := by
    intro hkind
    rw [hnext, takeIf_of_eq hkind] at hpassed
    cases hpassed
  obtain ⟨tail, hts⟩ := starts_same hnext.symm rest'
  obtain ⟨e, herror⟩ := h rest'
  dsimp only at herror
  rw [hts] at herror ⊢
  exact ⟨e, by dsimp only; rw [takeIf_of_ne hne]; exact herror⟩

/-- Tokens that go wrong at one that offends, which is where the error is. -/
def ErrsAt (env : FilterEnv) (s : Symbol) (ts : List Token) (err : FilterParseError) : Prop :=
  ∃ used t rest, ts = used ++ t :: rest ∧ err.position = t.position ∧ Offends env s used t

/-! #### Where each production goes wrong -/

namespace Offends

variable {l : Chain} {used u v : List Token} {opr t : Token}

/-- In the first operand of a chain. -/
theorem first (h : Offends env l.operand used t) : Offends env l.whole used t where
  completes := by
    obtain ⟨more, hfirst⟩ := h.completes
    refine ⟨more, ?_⟩
    rw [← List.append_nil (_ ++ more)]
    exact Chain.derives hfirst Chain.derives_nil
  refuses e n hn := by
    rw [l.whole_fuel] at hn
    obtain ⟨n, rfl⟩ := Nat.exists_eq_add_one_of_ne_zero (by omega : n ≠ 0)
    rw [l.whole_turn]
    exact (h.refuses e n (by omega)).bind _

/-- Behind the first operand. -/
theorem rest (hread : ReadsTo env l.operand u v t) (h : Offends env l.tail v t) :
    Offends env l.whole (u ++ v) t where
  completes := by
    obtain ⟨more, htail⟩ := h.completes
    refine ⟨more, ?_⟩
    rw [List.map_append, List.append_assoc]
    exact Chain.derives hread.derives htail
  refuses e n hn := by
    have hrefuses := h.refuses
    rw [l.tail_fuel] at hrefuses
    rw [l.whole_fuel, List.length_append] at hn
    obtain ⟨n, rfl⟩ := Nat.exists_eq_add_one_of_ne_zero (by omega : n ≠ 0)
    rw [l.whole_turn]
    exact Refuses.seq (fun rest => hread.reads rest e n (by omega)) fun first => hrefuses first n (by omega)

/-- In an operand behind an operator. -/
theorem next (hopr : opr.kind = l.kind) (h : Offends env l.operand used t) :
    Offends env l.tail (opr :: used) t where
  completes := by
    obtain ⟨more, hnext⟩ := h.completes
    refine ⟨more, ?_⟩
    rw [← List.append_nil (_ ++ more), List.map_cons, hopr]
    exact Chain.derives_more hnext Chain.derives_nil
  refuses e n hn := by
    rw [l.tail_fuel, List.length_cons] at hn
    obtain ⟨n, rfl⟩ := Nat.exists_eq_add_one_of_ne_zero (by omega : n ≠ 0)
    rw [l.tail_turn]
    exact Refuses.taken hopr ((h.refuses e n (by omega)).bind _)

/-- Behind such an operand. -/
theorem more (hopr : opr.kind = l.kind) (hread : ReadsTo env l.operand u v t)
    (h : Offends env l.tail v t) : Offends env l.tail (opr :: (u ++ v)) t where
  completes := by
    obtain ⟨more, htail⟩ := h.completes
    refine ⟨more, ?_⟩
    rw [List.map_cons, hopr, List.map_append, List.cons_append, List.append_assoc]
    exact Chain.derives_more hread.derives htail
  refuses e n hn := by
    have hrefuses := h.refuses
    rw [l.tail_fuel] at hrefuses
    rw [l.tail_fuel, List.length_cons, List.length_append] at hn
    obtain ⟨n, rfl⟩ := Nat.exists_eq_add_one_of_ne_zero (by omega : n ≠ 0)
    rw [l.tail_turn]
    refine Refuses.taken hopr (Refuses.seq (fun rest => hread.reads rest e n (by omega)) fun next => ?_)
    exact hrefuses (l.join e next) n (by omega)

theorem negated (hopr : opr.kind = .not) (h : Offends env .not used t) :
    Offends env .not (opr :: used) t where
  completes := by
    obtain ⟨more, p, hp⟩ := h.completes
    have hnegated := Derives.negated hp
    rw [← hopr] at hnegated
    exact ⟨more, _, hnegated⟩
  refuses e n hn := by
    rw [List.length_cons] at hn
    obtain ⟨n, rfl⟩ := Nat.exists_eq_add_one_of_ne_zero (by omega : n ≠ 0)
    rw [parseNot_turn]
    exact Refuses.taken hopr ((h.refuses e n (by omega)).bind _)

theorem plain {rest : List Token} (htake : takeIf .not (used ++ t :: rest) = .ok (false, used ++ t :: rest))
    (h : Offends env .primary used t) : Offends env .not used t where
  completes := by
    obtain ⟨more, p, hp⟩ := h.completes
    exact ⟨more, _, .plain hp⟩
  refuses e n hn := by
    have hrefuses := h.refuses
    simp only [Symbol.fuel] at hn hrefuses
    obtain ⟨n, rfl⟩ := Nat.exists_eq_add_one_of_ne_zero (by omega : n ≠ 0)
    rw [parseNot_turn]
    exact Refuses.passed htake (hrefuses e n (by omega))

theorem parens (hopr : opr.kind = .leftParen) (h : Offends env .or used t) :
    Offends env .primary (opr :: used) t where
  completes := by
    obtain ⟨more, p, hp⟩ := h.completes
    have hparens := Derives.parens hp
    rw [List.cons_append, List.append_assoc, ← hopr] at hparens
    exact ⟨more ++ [.rightParen], _, hparens⟩
  refuses e n hn := by
    have hrefuses := h.refuses
    rw [List.length_cons] at hn
    simp only [Symbol.fuel] at hn hrefuses
    obtain ⟨n, rfl⟩ := Nat.exists_eq_add_one_of_ne_zero (by omega : n ≠ 0)
    rw [parsePrimary_turn]
    exact Refuses.taken hopr ((hrefuses e n (by omega)).bind _)

/-- Where a parenthesis should close. -/
theorem unclosed (hopr : opr.kind = .leftParen) (hread : ReadsTo env .or u [] t)
    (hright : t.kind ≠ .rightParen) : Offends env .primary (opr :: u) t where
  completes := by
    obtain ⟨p, hp⟩ := hread.derives
    have hparens := Derives.parens hp
    rw [List.cons_append, ← hopr] at hparens
    exact ⟨[.rightParen], _, hparens⟩
  refuses e n hn := by
    have hreads := hread.reads
    rw [List.length_cons] at hn
    simp only [Symbol.fuel] at hn hreads
    obtain ⟨n, rfl⟩ := Nat.exists_eq_add_one_of_ne_zero (by omega : n ≠ 0)
    have hexpect : Refuses (expect .rightParen "expected ')'") [] t := fun rest =>
      ⟨_, expect_of_ne hright _ rest⟩
    rw [parsePrimary_turn, ← List.append_nil u]
    refine Refuses.taken hopr (Refuses.seq (fun rest => hreads rest e n (by omega)) fun inner => ?_)
    exact hexpect.bind fun ts => .ok (inner, ts)

theorem predicate {rest : List Token}
    (htake : takeIf .leftParen (used ++ t :: rest) = .ok (false, used ++ t :: rest))
    (hcompletes : ∃ more p, IsPredicate env (used.map Token.kind ++ more) p)
    (hrefuses : Refuses (parsePredicate env) used t) : Offends env .primary used t where
  completes := by
    obtain ⟨more, p, hp⟩ := hcompletes
    exact ⟨more, p, .predicate hp⟩
  refuses e n hn := by
    simp only [Symbol.fuel] at hn
    obtain ⟨n, rfl⟩ := Nat.exists_eq_add_one_of_ne_zero (by omega : n ≠ 0)
    rw [parsePrimary_turn]
    exact Refuses.passed htake (hrefuses.bind _)

end Offends

/-! #### Every error is at a token that offends -/

section Productions

variable {l : Chain} {n : ℕ} {e : Expr} {ts : List Token} {err : FilterParseError}

theorem whole_offends
    (hoperand : ∀ {e ts err}, parserOf env l.operand n e ts = .error (.error err) →
      ErrsAt env l.operand ts err)
    (htail : ∀ {e ts err}, parserOf env l.tail n e ts = .error (.error err) → ErrsAt env l.tail ts err)
    (h : parserOf env l.whole (n + 1) e ts = .error (.error err)) : ErrsAt env l.whole ts err := by
  simp only [l.whole_turn, bind_eq_error] at h
  rcases h with h | ⟨⟨first, ts'⟩, hfirst, h⟩
  · obtain ⟨used, t, rest, rfl, hposition, hoffends⟩ := hoperand h
    exact ⟨used, t, rest, rfl, hposition, hoffends.first⟩
  · obtain ⟨v, t, rest, rfl, hposition, hoffends⟩ := htail h
    obtain ⟨u, rfl, hread⟩ := parser_ahead l.operand_ne_tail hfirst
    exact ⟨u ++ v, t, rest, (List.append_assoc ..).symm, hposition, .rest hread hoffends⟩

theorem tail_offends
    (hoperand : ∀ {e ts err}, parserOf env l.operand n e ts = .error (.error err) →
      ErrsAt env l.operand ts err)
    (htail : ∀ {e ts err}, parserOf env l.tail n e ts = .error (.error err) → ErrsAt env l.tail ts err)
    (h : parserOf env l.tail (n + 1) e ts = .error (.error err)) : ErrsAt env l.tail ts err := by
  simp only [l.tail_turn, bind_eq_error] at h
  rcases h with h | ⟨⟨taken, ts'⟩, htake, h⟩
  · cases ts <;> cases h
  rcases takeIf_sound htake with ⟨rfl, opr, rfl, hopr⟩ | ⟨rfl, rfl, _⟩
  · simp only [bind_eq_error] at h
    rcases h with h | ⟨⟨next, ts''⟩, hnext, h⟩
    · obtain ⟨used, t, rest, rfl, hposition, hoffends⟩ := hoperand h
      exact ⟨opr :: used, t, rest, rfl, hposition, hoffends.next hopr⟩
    · obtain ⟨v, t, rest, rfl, hposition, hoffends⟩ := htail h
      obtain ⟨u, rfl, hread⟩ := parser_ahead l.operand_ne_tail hnext
      exact ⟨opr :: (u ++ v), t, rest, by simp, hposition, .more hopr hread hoffends⟩
  · cases h

theorem parseNot_offends
    (hnot : ∀ {e ts err}, parserOf env .not n e ts = .error (.error err) → ErrsAt env .not ts err)
    (hprimary : ∀ {e ts err}, parserOf env .primary n e ts = .error (.error err) →
      ErrsAt env .primary ts err)
    (h : parserOf env .not (n + 1) e ts = .error (.error err)) : ErrsAt env .not ts err := by
  simp only [parseNot_turn, bind_eq_error] at h
  rcases h with h | ⟨⟨taken, ts'⟩, htake, h⟩
  · cases ts <;> cases h
  rcases takeIf_sound htake with ⟨rfl, opr, rfl, hopr⟩ | ⟨rfl, rfl, _⟩
  · simp only [bind_eq_error] at h
    rcases h with h | ⟨_, _, h⟩
    · obtain ⟨used, t, rest, rfl, hposition, hoffends⟩ := hnot h
      exact ⟨opr :: used, t, rest, rfl, hposition, hoffends.negated hopr⟩
    · cases h
  · dsimp only at h
    obtain ⟨used, t, rest, rfl, hposition, hoffends⟩ := hprimary h
    exact ⟨used, t, rest, rfl, hposition, .plain htake hoffends⟩

theorem parsePrimary_offends (henv : Usable env)
    (hor : ∀ {e ts err}, parserOf env .or n e ts = .error (.error err) → ErrsAt env .or ts err)
    (h : parserOf env .primary (n + 1) e ts = .error (.error err)) : ErrsAt env .primary ts err := by
  simp only [parsePrimary_turn, bind_eq_error] at h
  rcases h with h | ⟨⟨taken, ts'⟩, htake, h⟩
  · cases ts <;> cases h
  rcases takeIf_sound htake with ⟨rfl, opr, rfl, hopr⟩ | ⟨rfl, rfl, _⟩
  · simp only [bind_eq_error] at h
    rcases h with h | ⟨⟨inner, ts''⟩, hinner, h⟩
    · obtain ⟨used, t, rest, rfl, hposition, hoffends⟩ := hor h
      exact ⟨opr :: used, t, rest, rfl, hposition, hoffends.parens hopr⟩
    · rcases h with h | ⟨_, _, h⟩
      · cases ts'' with
        | nil => cases h
        | cons t rest =>
          by_cases hright : t.kind = .rightParen
          · rw [expect_of_eq hright] at h
            cases h
          rw [expect_of_ne hright] at h
          cases h
          obtain ⟨u, rfl, hread⟩ := parser_ahead (v := []) Chain.or_ne_tail hinner
          exact ⟨opr :: u, t, rest, rfl, rfl, .unclosed hopr hread hright⟩
      · cases h
  · simp only [bind_eq_error] at h
    rcases h with h | ⟨_, _, h⟩
    · obtain ⟨used, t, rest, rfl, hposition, hcompletes, hrefuses⟩ := parsePredicate_offends henv h
      exact ⟨used, t, rest, rfl, hposition, .predicate htake hcompletes hrefuses⟩
    · cases h

end Productions

/-- **Every parse error is at such a token.** -/
theorem parser_offends (henv : Usable env) {s : Symbol} {n : ℕ} {e : Expr} {ts : List Token}
    {err : FilterParseError} (h : parserOf env s n e ts = .error (.error err)) : ErrsAt env s ts err := by
  induction n generalizing s e ts err with
  | zero => cases s <;> cases h
  | succ n ih =>
    cases s with
    | or => exact whole_offends (l := .or) ih ih h
    | orTail => exact tail_offends (l := .or) ih ih h
    | and => exact whole_offends (l := .and) ih ih h
    | andTail => exact tail_offends (l := .and) ih ih h
    | not => exact parseNot_offends ih ih h
    | primary => exact parsePrimary_offends henv ih h

/-! ### Whole token lists -/

/-- Tokens of given kinds. -/
def placed (kinds : List TokenKind) : List Token := kinds.map fun kind => ⟨kind, 0⟩

theorem placed_kinds (kinds : List TokenKind) : (placed kinds).map Token.kind = kinds := by
  rw [placed, List.map_map]
  exact List.map_id kinds

/-- An expression to hand to a parsing function that does not look at it. -/
def unread : Expr := .predicate ⟨.clientIp, .in []⟩

/-- What derives is read up to the end behind it, on any fuel from some on. -/
theorem parser_reads {used : List Token} {more : List TokenKind} {p : Meaning}
    (h : Derives env .or (used.map Token.kind ++ more) p) {n : ℕ}
    (hn : 4 * (used.length + more.length) + 4 ≤ n) (e : Expr) {last : Token} (hlast : last.kind = .end)
    (rest : List Token) :
    ∃ e', parserOf env .or n e (used ++ (placed more ++ last :: rest)) = .ok (e', last :: rest) := by
  have hkinds : (used ++ placed more).map Token.kind = used.map Token.kind ++ more := by
    rw [List.map_append, placed_kinds]
  have hstops : Symbol.or.Stops last.kind := by rw [hlast]; simp [Symbol.Stops]
  obtain ⟨e', hrun, _⟩ := parser_complete h (used ++ placed more) last rest n e hkinds hstops
    (by simpa [placed, Symbol.fuel] using hn)
  exact ⟨e', by rw [← List.append_assoc]; exact hrun⟩

/-- In front of a token at which the parser fails stands no filter, and with it none starts. -/
theorem Offends.not_viable {used : List Token} {t : Token} (h : Offends env .or used t) :
    (t.kind ≠ .end → ¬Viable env ((used ++ [t]).map Token.kind)) ∧
      (t.kind = .end → ¬∃ p, Derives env .or (used.map Token.kind) p) := by
  constructor
  · intro _ hviable
    obtain ⟨more, p, hderives⟩ := hviable
    have hbound : 4 * ((used ++ [t]).length + more.length) + 4 ≤ 4 * (used.length + more.length) + 8 := by
      simp
      omega
    obtain ⟨e', hrun⟩ := @parser_reads env _ _ _ hderives _ hbound unread ⟨.end, 0⟩ rfl []
    obtain ⟨err, herror⟩ := h.refuses unread (4 * (used.length + more.length) + 8)
      (by simp only [Symbol.fuel]; omega) (placed more ++ [⟨.end, 0⟩])
    rw [List.append_assoc, List.singleton_append, herror] at hrun
    cases hrun
  · intro hend hsentence
    obtain ⟨p, hderives⟩ := hsentence
    rw [← List.append_nil (used.map Token.kind)] at hderives
    obtain ⟨e', hrun⟩ := parser_reads hderives (n := 4 * used.length + 8) (by simp) unread hend []
    obtain ⟨err, herror⟩ := h.refuses unread (4 * used.length + 8) (by simp [Symbol.fuel]) []
    rw [placed, List.map_nil, List.nil_append, herror] at hrun
    cases hrun

/-- **The token a parse error names** is the first one with which the list is no start of a filter. -/
theorem parse_offends (henv : Usable env) {tokens : List Token} {err : FilterParseError}
    (h : parse env tokens = .error (.error err)) :
    ∃ used t rest, tokens = used ++ t :: rest ∧ err.position = t.position ∧
      Viable env (used.map Token.kind) ∧
      (t.kind ≠ .end → ¬Viable env ((used ++ [t]).map Token.kind)) ∧
      (t.kind = .end → ¬∃ p, Derives env .or (used.map Token.kind) p) := by
  rw [parse, bind_eq_error] at h
  rcases h with h | ⟨⟨e, rest⟩, hor, h⟩
  · have hparser : parserOf env .or (parserFuel tokens) unread tokens = .error (.error err) := h
    obtain ⟨used, t, rest, rfl, hposition, hoffends⟩ := parser_offends henv hparser
    exact ⟨used, t, rest, rfl, hposition, hoffends.completes, hoffends.not_viable⟩
  · cases rest with
    | nil => cases h
    | cons t rest =>
      dsimp only at h
      rw [peek_cons, ok_bind] at h
      by_cases hend : t.kind = .end
      · simp only [if_pos hend] at h
        cases h
      have hparser : parserOf env .or (parserFuel tokens) unread tokens = .ok (e, [] ++ t :: rest) := hor
      obtain ⟨u, rfl, ⟨⟨p, hderives⟩, hread⟩⟩ := parser_ahead Chain.or_ne_tail hparser
      simp only [if_neg hend] at h
      cases h
      refine ⟨u, t, rest, rfl, rfl, ⟨[], p, by rwa [List.append_nil]⟩, ?_, fun h => absurd h hend⟩
      intro _ hviable
      obtain ⟨more, q, hmore⟩ := hviable
      -- the parser would read past `t`
      have hbound : 4 * ((u ++ [t]).length + more.length) + 4 ≤ 4 * (u.length + more.length) + 8 := by
        simp
        omega
      obtain ⟨e₁, hrun⟩ := @parser_reads env _ _ _ hmore _ hbound unread ⟨.end, 0⟩ rfl []
      obtain ⟨e₂, hstop⟩ := hread (placed more ++ [⟨.end, 0⟩]) unread (4 * (u.length + more.length) + 8)
        (by simp [Symbol.fuel]; omega)
      rw [List.append_assoc, List.singleton_append] at hrun
      rw [List.nil_append, hrun] at hstop
      simp at hstop

end Tapgres.Filter
