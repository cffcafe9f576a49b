import Tapgres.Filter.Grammar

/-!
# The parser recognises the grammar

* `parsePredicate_sound`, `parsePredicate_complete` — a predicate is read exactly when it is one;
* `parser_cases` — what a turn of a parsing function that succeeds does, by the productions;
* `parser_sound` — what a parsing function consumes derives from its nonterminal;
* `parser_complete` — on a derivation, in front of a token that cannot continue it, the parsing
  function consumes exactly the derivation and builds an expression that means what it means.
-/

namespace Tapgres.Filter

open Tapgres.Net

variable {env : FilterEnv}

/-- A bind succeeds where both halves do. -/
theorem bind_eq_ok {ε α β : Type} {x : Except ε α} {f : α → Except ε β} {b : β} :
    (x >>= f) = .ok b ↔ ∃ a, x = .ok a ∧ f a = .ok b := by
  cases x <;> simp [bind, Except.bind]

@[simp] theorem ok_bind {ε α β : Type} (a : α) (f : α → Except ε β) : (Except.ok a >>= f) = f a := rfl

@[simp] theorem error_bind {ε α β : Type} (e : ε) (f : α → Except ε β) :
    ((Except.error e : Except ε α) >>= f) = .error e := rfl

@[simp] theorem pure_eq_ok {ε α : Type} (a : α) : (pure a : Except ε α) = .ok a := rfl

/-! ### Reading tokens -/

@[simp] theorem peek_cons (t : Token) (ts : List Token) : peek (t :: ts) = .ok t := rfl

@[simp] theorem peek_nil : peek [] = .error .panic := rfl

@[simp] theorem take_nil : take [] = .error .panic := rfl

theorem take_cons (t : Token) (ts : List Token) :
    take (t :: ts) = .ok (t, if t.kind = .end then t :: ts else ts) := rfl

theorem take_of_ne_end {t : Token} (h : t.kind ≠ .end) (ts : List Token) :
    take (t :: ts) = .ok (t, ts) := by
  rw [take_cons, if_neg h]

@[simp] theorem takeIf_nil (kind : TokenKind) : takeIf kind [] = .error .panic := rfl

theorem takeIf_cons (kind : TokenKind) (t : Token) (ts : List Token) :
    takeIf kind (t :: ts) = .ok (if t.kind = kind then (true, ts) else (false, t :: ts)) := rfl

theorem takeIf_of_eq {kind : TokenKind} {t : Token} (h : t.kind = kind) (ts : List Token) :
    takeIf kind (t :: ts) = .ok (true, ts) := by
  rw [takeIf_cons, if_pos h]

theorem takeIf_of_ne {kind : TokenKind} {t : Token} (h : t.kind ≠ kind) (ts : List Token) :
    takeIf kind (t :: ts) = .ok (false, t :: ts) := by
  rw [takeIf_cons, if_neg h]

@[simp] theorem errorHere_cons {α : Type} (message : String) (t : Token) (ts : List Token) :
    (errorHere message (t :: ts) : Except Stop α) = errorAt t.position message := rfl

@[simp] theorem expect_nil (kind : TokenKind) (message : String) :
    expect kind message [] = .error .panic := rfl

theorem expect_of_eq {kind : TokenKind} {t : Token} (h : t.kind = kind) (message : String)
    (ts : List Token) : expect kind message (t :: ts) = .ok ts := by
  show (if t.kind = kind then pure ts else errorHere message (t :: ts)) = _
  rw [if_pos h]
  rfl

theorem expect_of_ne {kind : TokenKind} {t : Token} (h : t.kind ≠ kind) (message : String)
    (ts : List Token) : expect kind message (t :: ts) = errorAt t.position message := by
  show (if t.kind = kind then pure ts else errorHere message (t :: ts)) = _
  rw [if_neg h]
  rfl

theorem expect_eq_ok {kind : TokenKind} {message : String} {ts rest : List Token} :
    expect kind message ts = .ok rest ↔ ∃ t, ts = t :: rest ∧ t.kind = kind := by
  cases ts with
  | nil => simp
  | cons t ts =>
    by_cases h : t.kind = kind
    · simp [expect_of_eq h, h]
    · simp [expect_of_ne h, errorAt, h]

/-! ### Operands -/

/-- A token that is no operand is refused with an error, and one that is stands for its value. -/
theorem parseValue_cons (env : FilterEnv) (field : Field) (t : Token) (ts : List Token) :
    (∃ v, valueOf env field t.kind = some v ∧ parseValue env field (t :: ts) = .ok (v, ts)) ∨
      (valueOf env field t.kind = none ∧ ∃ e, parseValue env field (t :: ts) = .error (.error e)) := by
  obtain ⟨kind, position⟩ := t
  show (∃ v, valueOf env field kind = some v ∧ _) ∨ (valueOf env field kind = none ∧ _)
  fun_cases valueOf env field kind with
  | case1 value =>
    cases hip : env.parseIp value <;>
      simp [parseValue, take_cons, tokenValue, hip, errorAt]
  | case2 value =>
    cases hip : env.parseIp value <;>
      simp [parseValue, take_cons, tokenValue, hip, errorAt]
  | case3 value =>
    cases hport : parseU16 value <;> simp [parseValue, take_cons, hport, errorAt]
  | case4 value => simp [parseValue, take_cons]
  | case5 value => simp [parseValue, take_cons]
  | case6 value =>
    cases hdir : parseDirection value <;> simp [parseValue, take_cons, hdir, errorAt]
  | case7 =>
    refine .inr ⟨rfl, ?_⟩
    cases field <;> cases kind <;> first | exact ⟨_, rfl⟩ | simp_all

theorem parseValue_of_some {field : Field} {t : Token} {v : Value}
    (h : valueOf env field t.kind = some v) (ts : List Token) :
    parseValue env field (t :: ts) = .ok (v, ts) := by
  rcases parseValue_cons env field t ts with ⟨v', hv, hparse⟩ | ⟨hnone, _⟩
  · rw [hparse, Option.some.inj (hv.symm.trans h)]
  · rw [hnone] at h
    cases h

theorem parseValue_sound {field : Field} {ts rest : List Token} {v : Value}
    (h : parseValue env field ts = .ok (v, rest)) :
    ∃ t, ts = t :: rest ∧ valueOf env field t.kind = some v := by
  cases ts with
  | nil => cases h
  | cons t ts =>
    rcases parseValue_cons env field t ts with ⟨v', hv, hparse⟩ | ⟨_, e, hparse⟩
    · rw [hparse] at h
      cases h
      exact ⟨t, rfl, hv⟩
    · rw [hparse] at h
      cases h

theorem valueOf_rightBrace (env : FilterEnv) (field : Field) : valueOf env field .rightBrace = none := by
  cases field <;> rfl

/-! ### Sets -/

/-- A list of values does not start with the closing brace. -/
theorem IsList.starts {field : Field} {kinds : List TokenKind} {vs : List Value}
    (h : IsList env field kinds vs) : ∃ kind rest, kinds = kind :: rest ∧ kind ≠ .rightBrace := by
  have hne : ∀ {kind v}, valueOf env field kind = some v → kind ≠ .rightBrace := by
    rintro _ v hv rfl
    rw [valueOf_rightBrace] at hv
    cases hv
  cases h with
  | one hv => exact ⟨_, _, rfl, hne hv⟩
  | more hv _ => exact ⟨_, _, rfl, hne hv⟩

/-- What the set loop consumes is a list of values and the closing brace. -/
theorem setLoop_sound {field : Field} {n : ℕ} {acc vs : List Value} {ts rest : List Token}
    (h : setLoop env field n acc ts = .ok (vs, rest)) :
    ∃ used brace new, ts = used ++ brace :: rest ∧ brace.kind = .rightBrace ∧
      IsList env field (used.map Token.kind) new ∧ vs = acc ++ new := by
  induction n generalizing acc ts with
  | zero => cases h
  | succ n ih =>
    simp only [setLoop, bind_eq_ok] at h
    obtain ⟨⟨v, ts'⟩, hvalue, ⟨taken, ts''⟩, htake, h⟩ := h
    obtain ⟨t, rfl, hv⟩ := parseValue_sound hvalue
    cases ts' with
    | nil => cases htake
    | cons comma ts' =>
      by_cases hcomma : comma.kind = .comma
      · rw [takeIf_of_eq hcomma] at htake
        cases htake
        simp only [if_true, bind_eq_ok] at h
        obtain ⟨next, hnext, h⟩ := h
        split at h
        · cases ts'' <;> cases h
        · obtain ⟨used, brace, new, rfl, hbrace, hlist, rfl⟩ := ih h
          refine ⟨t :: comma :: used, brace, v :: new, rfl, hbrace, ?_, by simp⟩
          rw [List.map_cons, List.map_cons, hcomma]
          exact .more hv hlist
      · rw [takeIf_of_ne hcomma] at htake
        cases htake
        simp only [Bool.false_eq_true, if_false, bind_eq_ok, expect_eq_ok] at h
        obtain ⟨rest', ⟨brace, hts, hbrace⟩, h⟩ := h
        cases h
        exact ⟨[t], brace, [v], by rw [hts]; rfl, hbrace, .one hv, rfl⟩

/-- On a list of values and the closing brace the set loop reads just these. -/
theorem setLoop_complete {field : Field} {kinds : List TokenKind} {new : List Value}
    (h : IsList env field kinds new) (brace : Token) (hbrace : brace.kind = .rightBrace)
    (rest : List Token) : ∀ (used : List Token) (n : ℕ) (acc : List Value),
      used.map Token.kind = kinds → used.length ≤ n →
        setLoop env field n acc (used ++ brace :: rest) = .ok (acc ++ new, rest) := by
  induction h with
  | one hv =>
    intro used n acc hused hn
    obtain ⟨t, rfl, rfl⟩ := List.map_eq_singleton_iff.mp hused
    obtain ⟨n, rfl⟩ : ∃ k, n = k + 1 := ⟨n - 1, by simp at hn; omega⟩
    have hcomma : brace.kind ≠ .comma := by rw [hbrace]; simp
    simp [setLoop, parseValue_of_some hv, takeIf_of_ne hcomma, expect_of_eq hbrace]
  | more hv hs ih =>
    intro used n acc hused hn
    obtain ⟨t, used, rfl, rfl, htail⟩ := List.map_eq_cons_iff.mp hused
    obtain ⟨comma, used, rfl, hcomma, hlist⟩ := List.map_eq_cons_iff.mp htail
    obtain ⟨n, rfl⟩ : ∃ k, n = k + 1 := ⟨n - 1, by simp at hn; omega⟩
    have hloop := fun acc => ih used n acc hlist (by simp at hn; omega)
    obtain ⟨kind, kinds, rfl, hnext⟩ := hs.starts
    obtain ⟨next, used, rfl, rfl, _⟩ := List.map_eq_cons_iff.mp hlist
    simp only [List.cons_append] at hloop ⊢
    simp [setLoop, parseValue_of_some hv, takeIf_of_eq hcomma, hnext, hloop]

theorem parseSet_sound {field : Field} {ts rest : List Token} {vs : List Value}
    (h : parseSet env field ts = .ok (vs, rest)) :
    ∃ used kinds, ts = used ++ rest ∧ used.map Token.kind = .leftBrace :: kinds ++ [.rightBrace] ∧
      IsList env field kinds vs := by
  simp only [parseSet, bind_eq_ok, expect_eq_ok] at h
  obtain ⟨ts', ⟨left, rfl, hleft⟩, next, hnext, h⟩ := h
  cases ts' with
  | nil => cases hnext
  | cons next' ts' =>
    split at h
    · cases h
    · obtain ⟨used, right, new, hts, hright, hlist, rfl⟩ := setLoop_sound h
      refine ⟨left :: used ++ [right], used.map Token.kind, by rw [hts]; simp, ?_, hlist⟩
      simp [hleft, hright]

theorem parseSet_complete {field : Field} {kinds : List TokenKind} {vs : List Value}
    (hlist : IsList env field kinds vs) {used : List Token}
    (hused : used.map Token.kind = .leftBrace :: kinds ++ [.rightBrace]) (rest : List Token) :
    parseSet env field (used ++ rest) = .ok (vs, rest) := by
  obtain ⟨left, used, rfl, hleft, htail⟩ := List.map_eq_cons_iff.mp hused
  obtain ⟨used, closing, rfl, hkinds, hclosing⟩ := List.map_eq_append_iff.mp htail
  obtain ⟨right, rfl, hright⟩ := List.map_eq_singleton_iff.mp hclosing
  obtain ⟨kind, kinds, rfl, hne⟩ := hlist.starts
  obtain ⟨next, used, rfl, rfl, _⟩ := List.map_eq_cons_iff.mp hkinds
  have hloop := setLoop_complete hlist right hright rest (next :: used)
    (next :: (used ++ right :: rest)).length [] hkinds (by simp)
  simp only [List.cons_append, List.nil_append, List.append_assoc] at hloop ⊢
  simp only [parseSet, expect_of_eq hleft, ok_bind, peek_cons, hne, if_false, hloop]

/-! ### Predicates -/

theorem parseString_of_string {t : Token} {value : String} (h : t.kind = .string value)
    (error : String) (ts : List Token) : parseString error (t :: ts) = .ok (value, ts) := by
  rw [parseString, take_of_ne_end (by rw [h]; simp), ok_bind]
  simp only [h, pure_eq_ok]

theorem take_sound {ts rest : List Token} {t : Token} (h : take ts = .ok (t, rest))
    (hend : t.kind ≠ .end) : ts = t :: rest := by
  cases ts with
  | nil => cases h
  | cons t' ts =>
    rw [take_cons] at h
    cases h
    rw [if_neg hend]

theorem parseString_sound {error : String} {ts rest : List Token} {value : String}
    (h : parseString error ts = .ok (value, rest)) : ∃ t, ts = t :: rest ∧ t.kind = .string value := by
  simp only [parseString, bind_eq_ok] at h
  obtain ⟨⟨t, ts'⟩, htake, h⟩ := h
  dsimp only at h
  split at h
  · rename_i value' hkind
    cases h
    exact ⟨t, take_sound htake (by rw [hkind]; simp), hkind⟩
  · cases h

theorem requireTextField_sound {field : Field} {position : ℕ} {operator : String} {u : Unit}
    (h : requireTextField field position operator = .ok u) : field.isText = true := by
  rw [requireTextField] at h
  split at h
  · assumption
  · cases h

/-- A comparison that is read completes its field and operator to a predicate. -/
theorem parseComparison_sound {field : Field} {operator : Token} {ts rest : List Token}
    {c : Comparison} (h : parseComparison env field operator ts = .ok (c, rest)) :
    operator.kind ≠ .end ∧ ∃ used p, ts = used ++ rest ∧
      IsPredicate env (.word field.name :: operator.kind :: used.map Token.kind) p := by
  rw [parseComparison] at h
  split at h
  · rename_i hop
    simp only [bind_eq_ok] at h
    obtain ⟨⟨v, ts'⟩, hvalue, h⟩ := h
    cases h
    obtain ⟨t, rfl, hv⟩ := parseValue_sound hvalue
    exact ⟨by rw [hop]; simp, [t], _, rfl, by rw [hop]; exact .equal hv⟩
  · rename_i hop
    simp only [bind_eq_ok] at h
    obtain ⟨⟨v, ts'⟩, hvalue, h⟩ := h
    cases h
    obtain ⟨t, rfl, hv⟩ := parseValue_sound hvalue
    exact ⟨by rw [hop]; simp, [t], _, rfl, by rw [hop]; exact .notEqual hv⟩
  · rename_i hop
    simp only [bind_eq_ok] at h
    obtain ⟨_, htext, ⟨needle, ts'⟩, hstring, h⟩ := h
    cases h
    obtain ⟨t, rfl, ht⟩ := parseString_sound hstring
    have hpredicate : IsPredicate env _ _ := .contains needle (requireTextField_sound htext)
    exact ⟨by rw [hop]; simp, [t], _, rfl, by rwa [hop, List.map_singleton, ht]⟩
  · rename_i hop
    simp only [bind_eq_ok] at h
    obtain ⟨_, htext, token, _, ⟨pattern, ts'⟩, hstring, h⟩ := h
    dsimp only at h
    split at h
    · cases h
    · rename_i hcompiles
      cases h
      obtain ⟨t, rfl, ht⟩ := parseString_sound hstring
      have hpredicate : IsPredicate env _ _ := .matches (requireTextField_sound htext) hcompiles
      exact ⟨by rw [hop]; simp, [t], _, rfl, by rwa [hop, List.map_singleton, ht]⟩
  · rename_i hop
    simp only [bind_eq_ok] at h
    obtain ⟨⟨values, ts'⟩, hset, h⟩ := h
    cases h
    obtain ⟨used, kinds, rfl, hkinds, hlist⟩ := parseSet_sound hset
    exact ⟨by rw [hop]; simp, used, _, rfl, by rw [hop, hkinds]; exact .in hlist⟩
  · cases h

/-- What `parse_predicate` consumes is a predicate. -/
theorem parsePredicate_sound {ts rest : List Token} {predicate : Predicate}
    (h : parsePredicate env ts = .ok (predicate, rest)) :
    ∃ used p, ts = used ++ rest ∧ IsPredicate env (used.map Token.kind) p := by
  simp only [parsePredicate, bind_eq_ok] at h
  obtain ⟨⟨fieldToken, ts'⟩, htake, h⟩ := h
  dsimp only at h
  split at h
  · rename_i fieldName hkind
    split at h
    · cases h
    · rename_i field hfield
      simp only [bind_eq_ok] at h
      obtain ⟨⟨operator, ts''⟩, hoperator, ⟨c, ts'''⟩, hcomparison, h⟩ := h
      cases h
      obtain ⟨hop, used, p, rfl, hp⟩ := parseComparison_sound hcomparison
      obtain rfl := take_sound hoperator hop
      obtain rfl := take_sound htake (by rw [hkind]; simp)
      refine ⟨fieldToken :: operator :: used, p, rfl, ?_⟩
      rw [List.map_cons, List.map_cons, hkind, field_parse_eq_some.mp hfield]
      exact hp
  · cases h

/-- Behind a field and an operator only the comparison is left to read. -/
theorem parsePredicate_of_comparison {field : Field} {op : TokenKind} {kinds : List TokenKind}
    {used rest : List Token} {c : Comparison}
    (hused : used.map Token.kind = .word field.name :: op :: kinds) (hop : op ≠ .end)
    (h : ∀ operator operand, operator.kind = op → operand.map Token.kind = kinds →
      parseComparison env field operator (operand ++ rest) = .ok (c, rest)) :
    parsePredicate env (used ++ rest) = .ok (⟨field, c⟩, rest) := by
  obtain ⟨fieldToken, used, rfl, hfield, htail⟩ := List.map_eq_cons_iff.mp hused
  obtain ⟨operator, operand, rfl, hoperator, hoperand⟩ := List.map_eq_cons_iff.mp htail
  rw [List.cons_append, parsePredicate, take_of_ne_end (by rw [hfield]; simp), ok_bind]
  simp only [hfield, field_parse_name, List.cons_append]
  rw [take_of_ne_end (by rwa [hoperator]), ok_bind, h operator operand hoperator hoperand]
  rfl

/-- On a predicate `parse_predicate` consumes exactly it, and builds what it means. -/
theorem parsePredicate_complete {u : List TokenKind} {p : Meaning} (h : IsPredicate env u p)
    {used : List Token} (hused : used.map Token.kind = u) (rest : List Token) :
    ∃ predicate, parsePredicate env (used ++ rest) = .ok (predicate, rest) ∧
      ∀ m, predicate.matches env m = true ↔ p m := by
  cases h with
  | @equal field kind value hv =>
    refine ⟨⟨field, .equal value⟩, parsePredicate_of_comparison hused (by simp) ?_,
      predicate_matches_iff env _⟩
    intro operator operand hop hoperand
    obtain ⟨t, rfl, rfl⟩ := List.map_eq_singleton_iff.mp hoperand
    simp [parseComparison, hop, parseValue_of_some hv]
  | @notEqual field kind value hv =>
    refine ⟨⟨field, .notEqual value⟩, parsePredicate_of_comparison hused (by simp) ?_,
      predicate_matches_iff env _⟩
    intro operator operand hop hoperand
    obtain ⟨t, rfl, rfl⟩ := List.map_eq_singleton_iff.mp hoperand
    simp [parseComparison, hop, parseValue_of_some hv]
  | @«in» field kinds values hlist =>
    refine ⟨⟨field, .in values⟩, parsePredicate_of_comparison hused (by simp) ?_,
      predicate_matches_iff env _⟩
    intro operator operand hop hoperand
    simp [parseComparison, hop, parseSet_complete hlist hoperand]
  | @contains field needle htext =>
    refine ⟨⟨field, .contains needle⟩, parsePredicate_of_comparison hused (by simp) ?_,
      predicate_matches_iff env _⟩
    intro operator operand hop hoperand
    obtain ⟨t, rfl, ht⟩ := List.map_eq_singleton_iff.mp hoperand
    simp [parseComparison, hop, requireTextField, htext, parseString_of_string ht]
  | @«matches» field pattern htext hcompiles =>
    refine ⟨⟨field, .matches pattern⟩, parsePredicate_of_comparison hused (by simp) ?_,
      predicate_matches_iff env _⟩
    intro operator operand hop hoperand
    obtain ⟨t, rfl, ht⟩ := List.map_eq_singleton_iff.mp hoperand
    simp [parseComparison, hop, requireTextField, htext, parseString_of_string ht, hcompiles]

/-! ### Turns of the parsing functions -/

/-- The parsing function of a nonterminal; a loop goes on from the expression read so far. -/
def parserOf (env : FilterEnv) : Symbol → ℕ → Expr → List Token → Except Stop (Expr × List Token)
  | .or, n, _, ts => parseOr env n ts
  | .orTail, n, e, ts => orLoop env n e ts
  | .and, n, _, ts => parseAnd env n ts
  | .andTail, n, e, ts => andLoop env n e ts
  | .not, n, _, ts => parseNot env n ts
  | .primary, n, _, ts => parsePrimary env n ts

/-- The two nonterminals that are a chain of operands. -/
inductive Chain where
  | or
  | and

namespace Chain

def whole : Chain → Symbol
  | .or => .or
  | .and => .and

def tail : Chain → Symbol
  | .or => .orTail
  | .and => .andTail

def operand : Chain → Symbol
  | .or => .and
  | .and => .not

def kind : Chain → TokenKind
  | .or => .or
  | .and => .and

def join : Chain → Expr → Expr → Expr
  | .or => .or
  | .and => .and

variable (l : Chain)

theorem whole_turn (n : ℕ) (e : Expr) :
    parserOf env l.whole (n + 1) e = fun ts =>
      parserOf env l.operand n e ts >>= fun y => parserOf env l.tail n y.1 y.2 := by
  funext ts
  cases l with
  | or =>
    show parseOr env (n + 1) ts = _
    rw [parseOr]
    rfl
  | and =>
    show parseAnd env (n + 1) ts = _
    rw [parseAnd]
    rfl

theorem tail_turn (n : ℕ) (e : Expr) :
    parserOf env l.tail (n + 1) e = fun ts => takeIf l.kind ts >>= fun
      | (true, ts) => parserOf env l.operand n e ts >>= fun y => parserOf env l.tail n (l.join e y.1) y.2
      | (false, ts) => .ok (e, ts) := by
  funext ts
  cases l with
  | or =>
    show orLoop env (n + 1) e ts = _
    rw [orLoop]
    congr 1
    funext y
    obtain ⟨taken, ts⟩ := y
    cases taken <;> rfl
  | and =>
    show andLoop env (n + 1) e ts = _
    rw [andLoop]
    congr 1
    funext y
    obtain ⟨taken, ts⟩ := y
    cases taken <;> rfl

variable {l}

theorem derives {u v : List TokenKind} (hfirst : ∃ p, Derives env l.operand u p)
    (htail : ∃ q, Derives env l.tail v q) : ∃ r, Derives env l.whole (u ++ v) r := by
  obtain ⟨p, hp⟩ := hfirst
  obtain ⟨q, hq⟩ := htail
  cases l with
  | or => exact ⟨_, .or hp hq⟩
  | and => exact ⟨_, .and hp hq⟩

theorem derives_nil : ∃ q, Derives env l.tail [] q := by
  cases l with
  | or => exact ⟨_, .orNil⟩
  | and => exact ⟨_, .andNil⟩

theorem derives_more {u v : List TokenKind} (hnext : ∃ p, Derives env l.operand u p)
    (htail : ∃ q, Derives env l.tail v q) : ∃ r, Derives env l.tail (l.kind :: u ++ v) r := by
  obtain ⟨p, hp⟩ := hnext
  obtain ⟨q, hq⟩ := htail
  cases l with
  | or => exact ⟨_, .orMore hp hq⟩
  | and => exact ⟨_, .andMore hp hq⟩

end Chain

theorem parseNot_turn (n : ℕ) (e : Expr) :
    parserOf env .not (n + 1) e = fun ts => takeIf .not ts >>= fun
      | (true, ts) => parserOf env .not n e ts >>= fun y => .ok (.not y.1, y.2)
      | (false, ts) => parserOf env .primary n e ts := by
  funext ts
  rw [parserOf, parseNot]
  congr 1
  funext y
  obtain ⟨taken, ts⟩ := y
  cases taken <;> rfl

theorem parsePrimary_turn (n : ℕ) (e : Expr) :
    parserOf env .primary (n + 1) e = fun ts => takeIf .leftParen ts >>= fun
      | (true, ts) => parserOf env .or n e ts >>= fun y =>
        expect .rightParen "expected ')'" y.2 >>= fun ts => .ok (y.1, ts)
      | (false, ts) => parsePredicate env ts >>= fun y => .ok (.predicate y.1, y.2) := by
  funext ts
  rw [parserOf, parsePrimary]
  congr 1
  funext y
  obtain ⟨taken, ts⟩ := y
  cases taken <;> rfl

/-- An optional token that was taken stands in front of what is left. -/
theorem takeIf_sound {kind : TokenKind} {taken : Bool} {ts rest : List Token}
    (h : takeIf kind ts = .ok (taken, rest)) :
    (taken = true ∧ ∃ t, ts = t :: rest ∧ t.kind = kind) ∨
      (taken = false ∧ rest = ts ∧ ∀ t rest, ts = t :: rest → t.kind ≠ kind) := by
  cases ts with
  | nil => cases h
  | cons t ts =>
    by_cases hkind : t.kind = kind
    · rw [takeIf_of_eq hkind] at h
      cases h
      exact .inl ⟨rfl, t, rfl, hkind⟩
    · rw [takeIf_of_ne hkind] at h
      cases h
      refine .inr ⟨rfl, rfl, fun t' rest hts => ?_⟩
      obtain ⟨rfl, _⟩ := List.cons.inj hts
      exact hkind

/-- What a parsing function that succeeds does in its turn, by the productions of the grammar. -/
inductive ParserTurn (env : FilterEnv) (n : ℕ) : Symbol → Expr → List Token → Expr → List Token → Prop
  | whole {l : Chain} {e first e' : Expr} {ts ts' rest : List Token}
      (hfirst : parserOf env l.operand n e ts = .ok (first, ts'))
      (hloop : parserOf env l.tail n first ts' = .ok (e', rest)) : ParserTurn env n l.whole e ts e' rest
  | more {l : Chain} {e next e' : Expr} {opr : Token} {ts ts' rest : List Token} (hopr : opr.kind = l.kind)
      (hnext : parserOf env l.operand n e ts = .ok (next, ts'))
      (hloop : parserOf env l.tail n (l.join e next) ts' = .ok (e', rest)) :
      ParserTurn env n l.tail e (opr :: ts) e' rest
  | done {l : Chain} {e : Expr} {ts : List Token} (hne : ∀ t rest, ts = t :: rest → t.kind ≠ l.kind) :
      ParserTurn env n l.tail e ts e ts
  | negated {e inner : Expr} {bang : Token} {ts rest : List Token} (hbang : bang.kind = .not)
      (hinner : parserOf env .not n e ts = .ok (inner, rest)) :
      ParserTurn env n .not e (bang :: ts) (.not inner) rest
  | plain {e e' : Expr} {ts rest : List Token}
      (hprimary : parserOf env .primary n e ts = .ok (e', rest)) : ParserTurn env n .not e ts e' rest
  | parens {e inner : Expr} {left right : Token} {ts rest : List Token} (hleft : left.kind = .leftParen)
      (hinner : parserOf env .or n e ts = .ok (inner, right :: rest)) (hright : right.kind = .rightParen) :
      ParserTurn env n .primary e (left :: ts) inner rest
  | predicate {e : Expr} {predicate : Predicate} {ts rest : List Token}
      (hpredicate : parsePredicate env ts = .ok (predicate, rest)) :
      ParserTurn env n .primary e ts (.predicate predicate) rest

section Turns

variable {l : Chain} {n : ℕ} {e e' : Expr} {ts rest : List Token}

theorem whole_cases (h : parserOf env l.whole (n + 1) e ts = .ok (e', rest)) :
    ParserTurn env n l.whole e ts e' rest := by
  simp only [l.whole_turn, bind_eq_ok] at h
  obtain ⟨⟨first, ts'⟩, hfirst, hloop⟩ := h
  exact .whole hfirst hloop

theorem tail_cases (h : parserOf env l.tail (n + 1) e ts = .ok (e', rest)) :
    ParserTurn env n l.tail e ts e' rest := by
  simp only [l.tail_turn, bind_eq_ok] at h
  obtain ⟨⟨taken, ts'⟩, htake, h⟩ := h
  rcases takeIf_sound htake with ⟨rfl, opr, rfl, hopr⟩ | ⟨rfl, rfl, hne⟩
  · obtain ⟨⟨next, ts''⟩, hnext, hloop⟩ := bind_eq_ok.mp h
    exact .more hopr hnext hloop
  · cases h
    exact .done hne

theorem parseNot_cases (h : parserOf env .not (n + 1) e ts = .ok (e', rest)) :
    ParserTurn env n .not e ts e' rest := by
  simp only [parseNot_turn, bind_eq_ok] at h
  obtain ⟨⟨taken, ts'⟩, htake, h⟩ := h
  rcases takeIf_sound htake with ⟨rfl, bang, rfl, hbang⟩ | ⟨rfl, rfl, _⟩
  · obtain ⟨⟨inner, ts''⟩, hinner, h⟩ := bind_eq_ok.mp h
    cases h
    exact .negated hbang hinner
  · exact .plain h

theorem parsePrimary_cases (h : parserOf env .primary (n + 1) e ts = .ok (e', rest)) :
    ParserTurn env n .primary e ts e' rest := by
  simp only [parsePrimary_turn, bind_eq_ok] at h
  obtain ⟨⟨taken, ts'⟩, htake, h⟩ := h
  rcases takeIf_sound htake with ⟨rfl, left, rfl, hleft⟩ | ⟨rfl, rfl, _⟩
  · simp only [bind_eq_ok, expect_eq_ok] at h
    obtain ⟨⟨inner, ts''⟩, hinner, rest', ⟨right, hts, hright⟩, h⟩ := h
    cases h
    rw [show ts'' = right :: rest from hts] at hinner
    exact .parens hleft hinner hright
  · obtain ⟨⟨predicate, ts''⟩, hpredicate, h⟩ := bind_eq_ok.mp h
    cases h
    exact .predicate hpredicate

end Turns

/-- **What a turn does** that succeeds. -/
theorem parser_cases {s : Symbol} {n : ℕ} {e e' : Expr} {ts rest : List Token}
    (h : parserOf env s (n + 1) e ts = .ok (e', rest)) : ParserTurn env n s e ts e' rest := by
  cases s with
  | or => exact whole_cases (l := .or) h
  | orTail => exact tail_cases (l := .or) h
  | and => exact whole_cases (l := .and) h
  | andTail => exact tail_cases (l := .and) h
  | not => exact parseNot_cases h
  | primary => exact parsePrimary_cases h

/-! ### Soundness -/

/-- **Soundness.**  What a parsing function consumes derives from its nonterminal, on any fuel. -/
theorem parser_sound {s : Symbol} {n : ℕ} {e e' : Expr} {ts rest : List Token}
    (h : parserOf env s n e ts = .ok (e', rest)) :
    ∃ used p, ts = used ++ rest ∧ Derives env s (used.map Token.kind) p := by
  induction n generalizing s e e' ts rest with
  | zero => cases s <;> cases h
  | succ n ih =>
    cases parser_cases h with
    | whole hfirst hloop =>
      obtain ⟨u, p, rfl, hu⟩ := ih hfirst
      obtain ⟨v, q, rfl, hv⟩ := ih hloop
      obtain ⟨r, hr⟩ := Chain.derives ⟨p, hu⟩ ⟨q, hv⟩
      exact ⟨u ++ v, r, by simp, by rwa [List.map_append]⟩
    | @more l _ _ _ opr _ _ _ hopr hnext hloop =>
      obtain ⟨u, p, rfl, hu⟩ := ih hnext
      obtain ⟨v, q, rfl, hv⟩ := ih hloop
      obtain ⟨r, hr⟩ := Chain.derives_more ⟨p, hu⟩ ⟨q, hv⟩
      exact ⟨opr :: u ++ v, r, by simp, by simpa [hopr] using hr⟩
    | done _ =>
      obtain ⟨q, hq⟩ := Chain.derives_nil
      exact ⟨[], q, rfl, hq⟩
    | @negated _ _ bang _ _ hbang hinner =>
      obtain ⟨u, p, rfl, hu⟩ := ih hinner
      exact ⟨bang :: u, _, rfl, by rw [List.map_cons, hbang]; exact .negated hu⟩
    | plain hprimary =>
      obtain ⟨u, p, rfl, hu⟩ := ih hprimary
      exact ⟨u, p, rfl, .plain hu⟩
    | @parens _ _ left right _ _ hleft hinner hright =>
      obtain ⟨u, p, rfl, hu⟩ := ih hinner
      have hparens := Derives.parens hu
      exact ⟨left :: u ++ [right], p, by simp, by simpa [hleft, hright] using hparens⟩
    | predicate hpredicate =>
      obtain ⟨u, p, rfl, hu⟩ := parsePredicate_sound hpredicate
      exact ⟨u, p, rfl, .predicate hu⟩

/-! ### Completeness -/

/-- A token that cannot continue what the nonterminal derives. -/
def Symbol.Stops : Symbol → TokenKind → Prop
  | .or, kind | .orTail, kind => kind ≠ .or ∧ kind ≠ .and
  | .and, kind | .andTail, kind => kind ≠ .and
  | .not, _ | .primary, _ => True

/-- The fuel of a parsing function, besides four for each token it reads. -/
def Symbol.fuel : Symbol → ℕ
  | .or => 4
  | .orTail | .and => 3
  | .andTail | .not => 2
  | .primary => 1

/-- How a nonterminal's meaning joins that of the expression read so far. -/
def Symbol.joins : Symbol → Prop → Prop → Prop
  | .orTail, before, p => before ∨ p
  | .andTail, before, p => before ∧ p
  | _, _, p => p

theorem IsPredicate.starts {u : List TokenKind} {p : Meaning} (h : IsPredicate env u p) :
    ∃ name rest, u = .word name :: rest := by
  cases h <;> exact ⟨_, _, rfl⟩

theorem Derives.primary_starts {u : List TokenKind} {p : Meaning} (h : Derives env .primary u p) :
    ∃ kind rest, u = kind :: rest ∧ kind ≠ .not := by
  cases h with
  | parens _ => exact ⟨.leftParen, _, rfl, by simp⟩
  | predicate h =>
    obtain ⟨name, rest, rfl⟩ := h.starts
    exact ⟨.word name, rest, rfl, by simp⟩

/-- Behind the first part of an `or` comes an `Or` or the token that stops it. -/
theorem Derives.orTail_starts {v : List TokenKind} {q : Meaning} (h : Derives env .orTail v q)
    {used : List Token} (hused : used.map Token.kind = v) {t : Token} (ht : Symbol.or.Stops t.kind)
    (rest : List Token) : ∃ t' rest', used ++ t :: rest = t' :: rest' ∧ Symbol.and.Stops t'.kind := by
  cases h with
  | orNil =>
    obtain rfl := List.map_eq_nil_iff.mp hused
    exact ⟨t, rest, rfl, ht.2⟩
  | orMore _ _ =>
    obtain ⟨t', used, rfl, ht', _⟩ := List.map_eq_cons_iff.mp hused
    exact ⟨t', _, rfl, by rw [ht']; simp [Symbol.Stops]⟩

/-! #### Chains of operands -/

namespace Chain

variable (l : Chain)

theorem whole_fuel : l.whole.fuel = l.operand.fuel + 1 := by cases l <;> rfl

theorem tail_fuel : l.tail.fuel = l.operand.fuel := by cases l <;> rfl

theorem tail_stops : l.tail.Stops = l.whole.Stops := by cases l <;> rfl

theorem tail_inj {l l' : Chain} (h : l.tail = l'.tail) : l = l' := by
  cases l <;> cases l' <;> first | rfl | cases h

theorem or_ne_tail : Symbol.or ≠ l.tail := by cases l <;> simp [tail]

theorem operand_ne_tail (l' : Chain) : l.operand ≠ l'.tail := by cases l <;> cases l' <;> simp [operand, tail]

theorem whole_joins (before p : Prop) : l.whole.joins before p = p := by cases l <;> rfl

theorem operand_joins (before p : Prop) : l.operand.joins before p = p := by cases l <;> rfl

theorem joins_assoc (a b c : Prop) : l.tail.joins (l.tail.joins a b) c ↔ l.tail.joins a (l.tail.joins b c) := by
  cases l with
  | or => exact or_assoc
  | and => exact and_assoc

theorem join_matches (e e' : Expr) (m : DisplayMessage) :
    (l.join e e').matches env m = true ↔ l.tail.joins (e.matches env m = true) (e'.matches env m = true) := by
  cases l with
  | or => simp only [join, Expr.matches, Bool.or_eq_true, tail, Symbol.joins]
  | and => simp only [join, Expr.matches, Bool.and_eq_true, tail, Symbol.joins]

variable {l}

theorem ne_of_stops {kind : TokenKind} (h : l.tail.Stops kind) : kind ≠ l.kind := by
  cases l with
  | or => exact h.1
  | and => exact h

/-- Behind an operand comes the operator or the token that stops the chain; either stops the operand. -/
theorem tail_starts {v : List TokenKind} {q : Meaning} (h : Derives env l.tail v q) {used : List Token}
    (hused : used.map Token.kind = v) {t : Token} (ht : l.whole.Stops t.kind) (rest : List Token) :
    ∃ t' rest', used ++ t :: rest = t' :: rest' ∧ l.operand.Stops t'.kind := by
  cases l with
  | or => exact h.orTail_starts hused ht rest
  | and =>
    obtain ⟨t', rest', hnext⟩ : ∃ t' rest', used ++ t :: rest = t' :: rest' :=
      List.exists_cons_of_ne_nil (by simp)
    exact ⟨t', rest', hnext, trivial⟩

end Chain

/-! #### One production at a time -/

/-- In front of a token that stops it, the parsing function consumes just these tokens and builds an
expression with this meaning. -/
def Completes (env : FilterEnv) (s : Symbol) (u : List TokenKind) (p : Meaning) : Prop :=
  ∀ (used : List Token) (t : Token) (rest : List Token) (n : ℕ) (e : Expr),
    used.map Token.kind = u → s.Stops t.kind → 4 * used.length + s.fuel ≤ n →
      ∃ e', parserOf env s n e (used ++ t :: rest) = .ok (e', t :: rest) ∧
        ∀ m, e'.matches env m = true ↔ s.joins (e.matches env m = true) (p m)

namespace Completes

variable {l : Chain} {u v : List TokenKind} {p q : Meaning}

theorem whole (hderives : Derives env l.tail v q) (hfirst : Completes env l.operand u p)
    (htail : Completes env l.tail v q) :
    Completes env l.whole (u ++ v) fun m => l.tail.joins (p m) (q m) := by
  intro used t rest n e hused hstops hn
  obtain ⟨a, b, rfl, ha, hb⟩ := List.map_eq_append_iff.mp hused
  rw [List.length_append, l.whole_fuel] at hn
  obtain ⟨n, rfl⟩ : ∃ k, n = k + 1 := ⟨n - 1, by omega⟩
  obtain ⟨t', rest', hnext, hstops'⟩ := Chain.tail_starts hderives hb hstops rest
  obtain ⟨first, hfirst, hp⟩ := hfirst a t' rest' n e ha hstops' (by omega)
  obtain ⟨e', hloop, hq⟩ := htail b t rest n first hb (by rwa [l.tail_stops]) (by rw [l.tail_fuel]; omega)
  refine ⟨e', ?_, fun m => ?_⟩
  · rw [l.whole_turn, List.append_assoc, hnext]
    dsimp only
    rw [hfirst, ok_bind, ← hnext]
    exact hloop
  · rw [hq m, hp m, l.operand_joins, l.whole_joins]

theorem nil {c : Prop} (hunit : ∀ a, l.tail.joins a c ↔ a) : Completes env l.tail [] fun _ => c := by
  intro used t rest n e hused hstops hn
  obtain rfl := List.map_eq_nil_iff.mp hused
  have hpos : 0 < l.tail.fuel := by cases l <;> decide
  obtain ⟨n, rfl⟩ : ∃ k, n = k + 1 := ⟨n - 1, by omega⟩
  refine ⟨e, ?_, fun m => (hunit _).symm⟩
  rw [l.tail_turn, List.nil_append]
  dsimp only
  rw [takeIf_of_ne (Chain.ne_of_stops hstops)]
  rfl

theorem more (hderives : Derives env l.tail v q) (hnext : Completes env l.operand u p)
    (htail : Completes env l.tail v q) :
    Completes env l.tail (l.kind :: u ++ v) fun m => l.tail.joins (p m) (q m) := by
  intro used t rest n e hused hstops hn
  obtain ⟨opr, used, rfl, hopr, hused⟩ := List.map_eq_cons_iff.mp hused
  obtain ⟨a, b, rfl, ha, hb⟩ := List.map_eq_append_iff.mp hused
  rw [List.length_cons, List.length_append, l.tail_fuel] at hn
  obtain ⟨n, rfl⟩ : ∃ k, n = k + 1 := ⟨n - 1, by omega⟩
  obtain ⟨t', rest', hfollows, hstops'⟩ := Chain.tail_starts hderives hb (l.tail_stops ▸ hstops) rest
  obtain ⟨next, hnext, hp⟩ := hnext a t' rest' n e ha hstops' (by omega)
  obtain ⟨e', hloop, hq⟩ := htail b t rest n (l.join e next) hb hstops (by rw [l.tail_fuel]; omega)
  refine ⟨e', ?_, fun m => ?_⟩
  · rw [l.tail_turn, List.cons_append, List.append_assoc, hfollows]
    dsimp only
    rw [takeIf_of_eq hopr, ok_bind]
    dsimp only
    rw [hnext, ok_bind, ← hfollows]
    exact hloop
  · rw [hq m, l.join_matches, hp m, l.operand_joins, l.joins_assoc]

theorem negated (h : Completes env .not u p) : Completes env .not (.not :: u) fun m => ¬p m := by
  intro used t rest n e hused hstops hn
  obtain ⟨bang, used, rfl, hbang, hused⟩ := List.map_eq_cons_iff.mp hused
  rw [List.length_cons] at hn
  obtain ⟨n, rfl⟩ : ∃ k, n = k + 1 := ⟨n - 1, by omega⟩
  obtain ⟨inner, hinner, hp⟩ := h used t rest n e hused trivial (by omega)
  refine ⟨.not inner, ?_, fun m => ?_⟩
  · simp only [parserOf] at hinner
    rw [parserOf, List.cons_append, parseNot, takeIf_of_eq hbang, ok_bind]
    simp only [if_true, hinner, ok_bind, pure_eq_ok]
  · rw [Expr.matches, Bool.not_eq_true', ← Bool.not_eq_true, hp m]
    rfl

theorem plain (hderives : Derives env .primary u p) (h : Completes env .primary u p) :
    Completes env .not u p := by
  intro used t rest n e hused hstops hn
  obtain ⟨kind, kinds, rfl, hkind⟩ := hderives.primary_starts
  simp only [Symbol.fuel] at hn
  obtain ⟨n, rfl⟩ : ∃ k, n = k + 1 := ⟨n - 1, by omega⟩
  obtain ⟨e', hprimary, hp⟩ := h used t rest n e hused trivial (by simp only [Symbol.fuel]; omega)
  refine ⟨e', ?_, hp⟩
  obtain ⟨t', used, rfl, rfl, _⟩ := List.map_eq_cons_iff.mp hused
  simp only [parserOf] at hprimary
  rw [parserOf, List.cons_append, parseNot, takeIf_of_ne hkind, ok_bind]
  exact hprimary

theorem parens (h : Completes env .or u p) :
    Completes env .primary (.leftParen :: u ++ [.rightParen]) p := by
  intro used t rest n e hused hstops hn
  obtain ⟨left, used, rfl, hleft, hused⟩ := List.map_eq_cons_iff.mp hused
  obtain ⟨inside, closing, rfl, hinside, hclosing⟩ := List.map_eq_append_iff.mp hused
  obtain ⟨right, rfl, hright⟩ := List.map_eq_singleton_iff.mp hclosing
  simp only [List.length_cons, List.length_append, Symbol.fuel] at hn
  obtain ⟨n, rfl⟩ : ∃ k, n = k + 1 := ⟨n - 1, by omega⟩
  obtain ⟨e', hor, hp⟩ := h inside right (t :: rest) n e hinside
    (by rw [hright]; simp [Symbol.Stops]) (by simp only [Symbol.fuel]; omega)
  refine ⟨e', ?_, hp⟩
  simp only [parserOf] at hor
  rw [parserOf, List.cons_append, parsePrimary, takeIf_of_eq hleft, ok_bind, List.append_assoc,
    List.singleton_append]
  simp only [if_true, hor, ok_bind, expect_of_eq hright, pure_eq_ok]

theorem predicate (h : IsPredicate env u p) : Completes env .primary u p := by
  intro used t rest n e hused hstops hn
  simp only [Symbol.fuel] at hn
  obtain ⟨n, rfl⟩ : ∃ k, n = k + 1 := ⟨n - 1, by omega⟩
  obtain ⟨predicate, hparse, hp⟩ := parsePredicate_complete h hused (t :: rest)
  refine ⟨.predicate predicate, ?_, hp⟩
  obtain ⟨name, kinds, rfl⟩ := h.starts
  obtain ⟨t', used, rfl, hword, _⟩ := List.map_eq_cons_iff.mp hused
  rw [List.cons_append] at hparse ⊢
  rw [parserOf, parsePrimary, takeIf_of_ne (by rw [hword]; simp), ok_bind]
  simp only [Bool.false_eq_true, if_false, hparse, ok_bind, pure_eq_ok]

end Completes

/-- **Completeness.**  On what a nonterminal derives, in front of a token that stops it, its parsing
function consumes just that and builds an expression with the derivation's meaning. -/
theorem parser_complete {s : Symbol} {u : List TokenKind} {p : Meaning} (h : Derives env s u p) :
    Completes env s u p := by
  induction h with
  | or _ htail ihfirst ihtail => exact .whole (l := .or) htail ihfirst ihtail
  | orNil => exact .nil (l := .or) fun a => Iff.of_eq (or_false a)
  | orMore _ htail ihnext ihtail => exact .more (l := .or) htail ihnext ihtail
  | and _ htail ihfirst ihtail => exact .whole (l := .and) htail ihfirst ihtail
  | andNil => exact .nil (l := .and) fun a => Iff.of_eq (and_true a)
  | andMore _ htail ihnext ihtail => exact .more (l := .and) htail ihnext ihtail
  | negated _ ih => exact ih.negated
  | plain hinner ih => exact .plain hinner ih
  | parens _ ih => exact ih.parens
  | predicate h => exact .predicate h

end Tapgres.Filter
