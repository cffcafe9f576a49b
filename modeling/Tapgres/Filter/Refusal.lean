import Tapgres.Filter.Answers

/-!
# Where a predicate goes wrong

A predicate that is refused goes wrong at one token: what stands before it can be completed to a
predicate, and with it that is no longer so.

* `Refuses` — a parsing function fails at a token, whatever follows;
* `parseSet_offends`, `parseComparison_offends`, `parsePredicate_offends` — what stands before that token
  can be completed.
-/

namespace Tapgres.Filter

open Tapgres.Net

/-- The library accepts some IP address and compiles some pattern. -/
structure Usable (env : FilterEnv) : Prop where
  ip : ∃ text ip, env.parseIp text = some ip
  regex : ∃ pattern, env.regexError pattern = none

/-- The kinds can be completed to a filter. -/
def Viable (env : FilterEnv) (kinds : List TokenKind) : Prop := ∃ more p, Derives env .or (kinds ++ more) p

variable {env : FilterEnv}

theorem Viable.of_append {kinds more : List TokenKind} (h : Viable env (kinds ++ more)) :
    Viable env kinds := by
  obtain ⟨rest, p, hderives⟩ := h
  rw [List.append_assoc] at hderives
  exact ⟨more ++ rest, p, hderives⟩

/-- A bind fails where its first half does, or its second. -/
theorem bind_eq_error {ε α β : Type} {x : Except ε α} {f : α → Except ε β} {e : ε} :
    (x >>= f) = .error e ↔ x = .error e ∨ ∃ a, x = .ok a ∧ f a = .error e := by
  cases x <;> simp [bind, Except.bind]

/-- The first token is the same, whatever follows behind `t`. -/
theorem starts_same {used ts rest : List Token} {next t : Token} (h : next :: ts = used ++ t :: rest)
    (rest' : List Token) : ∃ tail, used ++ t :: rest' = next :: tail := by
  cases used with
  | nil => exact ⟨rest', by rw [(List.cons.inj h).1]; rfl⟩
  | cons _ used => exact ⟨used ++ t :: rest', by rw [(List.cons.inj h).1]; rfl⟩

/-! ### Predicates -/

/-- A parsing function stops with an error at the last of the tokens `used ++ [t]`, whatever follows. -/
def Refuses {α : Type} (f : List Token → Except Stop α) (used : List Token) (t : Token) : Prop :=
  ∀ rest, ∃ e, f (used ++ t :: rest) = .error (.error e)

theorem parseValue_offends {field : Field} {ts : List Token} {e : FilterParseError}
    (h : parseValue env field ts = .error (.error e)) :
    ∃ t rest, ts = t :: rest ∧ e.position = t.position ∧ valueOf env field t.kind = none := by
  cases ts with
  | nil => cases h
  | cons t ts =>
    refine ⟨t, ts, rfl, ?_, ?_⟩
    · simp only [parseValue, take_cons, ok_bind] at h
      cases field <;> dsimp only at h
      all_goals repeat' split at h
      all_goals cases h
      all_goals rfl
    · rcases parseValue_cons env field t ts with ⟨v, _, hparse⟩ | ⟨hnone, _⟩
      · rw [hparse] at h
        cases h
      · exact hnone

theorem parseValue_refuses {field : Field} {t : Token} (h : valueOf env field t.kind = none) :
    Refuses (parseValue env field) [] t := by
  intro rest
  rcases parseValue_cons env field t rest with ⟨v, hv, _⟩ | ⟨_, herror⟩
  · rw [h] at hv
    cases hv
  · exact herror

/-- Every field has a value. -/
theorem operand_exists (henv : Usable env) (field : Field) :
    ∃ kind value, valueOf env field kind = some value := by
  cases field with
  | clientIp =>
    obtain ⟨text, ip, hip⟩ := henv.ip
    exact ⟨.word text, .ip ip, by rw [valueOf, hip]; rfl⟩
  | clientPort =>
    have hport : parseU16 "0" = some 0 := by decide +kernel
    exact ⟨.word "0", .port 0, by rw [valueOf, hport]; rfl⟩
  | messageType => exact ⟨.string "", .text "", rfl⟩
  | messageText => exact ⟨.string "", .text "", rfl⟩
  | messageDirection =>
    have hdirection : parseDirection "f2b" = some .frontendToBackend := by decide +kernel
    exact ⟨.string "f2b", .direction .frontendToBackend, by rw [valueOf, hdirection]; rfl⟩

/-- A turn of the set loop that takes a comma. -/
theorem setLoop_comma {field : Field} {t comma : Token} {v : Value} (hv : valueOf env field t.kind = some v)
    (hcomma : comma.kind = .comma) (n : ℕ) (acc : List Value) (next : Token) (ts : List Token) :
    setLoop env field (n + 1) acc (t :: comma :: next :: ts)
      = if next.kind = .rightBrace then errorAt next.position "expected a value after ','"
        else setLoop env field n (acc ++ [v]) (next :: ts) := by
  rw [setLoop, parseValue_of_some hv, ok_bind]
  dsimp only
  rw [takeIf_of_eq hcomma]
  rfl

/-- A turn that does not. -/
theorem setLoop_last {field : Field} {t last : Token} {v : Value} (hv : valueOf env field t.kind = some v)
    (hlast : last.kind ≠ .comma) (n : ℕ) (acc : List Value) (ts : List Token) :
    setLoop env field (n + 1) acc (t :: last :: ts)
      = if last.kind = .rightBrace then .ok (acc ++ [v], ts)
        else errorAt last.position "expected ',' or '\x7d' in set" := by
  rw [setLoop, parseValue_of_some hv, ok_bind]
  dsimp only
  rw [takeIf_of_ne hlast, ok_bind]
  by_cases hbrace : last.kind = .rightBrace
  · simp only [Bool.false_eq_true, if_false, expect_of_eq hbrace, ok_bind, if_pos hbrace, pure_eq_ok]
  · simp only [Bool.false_eq_true, if_false, expect_of_ne hbrace, if_neg hbrace]
    rfl

/-- The set loop goes wrong behind values of the field's type, at what is no value or ends no list. -/
theorem setLoop_offends (henv : Usable env) {field : Field} {n : ℕ} {acc : List Value} {ts : List Token}
    {e : FilterParseError} (h : setLoop env field n acc ts = .error (.error e)) :
    ∃ used t rest, ts = used ++ t :: rest ∧ e.position = t.position ∧
      (∃ more values, IsList env field (used.map Token.kind ++ more) values) ∧
      ∀ acc n, used.length < n → Refuses (setLoop env field n acc) used t := by
  obtain ⟨kind, value, hkind⟩ := operand_exists henv field
  induction n generalizing acc ts with
  | zero => cases h
  | succ n ih =>
    have hfirst := h
    rw [setLoop, bind_eq_error] at hfirst
    rcases hfirst with hfirst | ⟨⟨v, ts'⟩, hvalue, hturn⟩
    · obtain ⟨t, rest, rfl, hposition, hnone⟩ := parseValue_offends hfirst
      refine ⟨[], t, rest, rfl, hposition, ⟨[kind], [value], .one hkind⟩, ?_⟩
      intro acc n hn rest
      obtain ⟨n, rfl⟩ := Nat.exists_eq_add_one_of_ne_zero (Nat.ne_zero_of_lt hn)
      obtain ⟨e', herror⟩ := parseValue_refuses hnone rest
      rw [List.nil_append] at herror
      exact ⟨e', by rw [List.nil_append, setLoop, herror]; rfl⟩
    obtain ⟨t, rfl, hv⟩ := parseValue_sound hvalue
    cases ts' with
    | nil => cases hturn
    | cons comma ts' =>
      by_cases hcomma : comma.kind = .comma
      · cases ts' with
        | nil =>
          dsimp only at hturn
          rw [takeIf_of_eq hcomma] at hturn
          cases hturn
        | cons next ts' =>
          rw [setLoop_comma hv hcomma] at h
          by_cases hbrace : next.kind = .rightBrace
          · rw [if_pos hbrace] at h
            cases h
            refine ⟨[t, comma], next, ts', rfl, rfl, ⟨[kind], [v, value], ?_⟩, ?_⟩
            · rw [List.map_cons, List.map_cons, hcomma]
              exact .more hv (.one hkind)
            · intro acc n hn rest
              obtain ⟨n, rfl⟩ := Nat.exists_eq_add_one_of_ne_zero (Nat.ne_zero_of_lt hn)
              exact ⟨_, (setLoop_comma hv hcomma n acc next rest).trans (if_pos hbrace)⟩
          · rw [if_neg hbrace] at h
            obtain ⟨used, t', rest, hts, hposition, ⟨more, values, hlist⟩, hrefuses⟩ := ih h
            refine ⟨t :: comma :: used, t', rest, by rw [hts]; rfl, hposition, ⟨more, v :: values, ?_⟩, ?_⟩
            · rw [List.map_cons, List.map_cons, hcomma]
              exact .more hv hlist
            · intro acc n hn rest'
              obtain ⟨n, rfl⟩ := Nat.exists_eq_add_one_of_ne_zero (Nat.ne_zero_of_lt hn)
              rw [List.length_cons, List.length_cons] at hn
              obtain ⟨e', herror⟩ := hrefuses (acc ++ [v]) n (by omega) rest'
              obtain ⟨tail, htail⟩ := starts_same hts rest'
              rw [htail] at herror
              refine ⟨e', ?_⟩
              rw [List.cons_append, List.cons_append, htail, setLoop_comma hv hcomma, if_neg hbrace, herror]
      · rw [setLoop_last hv hcomma] at h
        by_cases hbrace : comma.kind = .rightBrace
        · rw [if_pos hbrace] at h
          cases h
        · rw [if_neg hbrace] at h
          cases h
          refine ⟨[t], comma, ts', rfl, rfl, ⟨[], [v], .one hv⟩, ?_⟩
          intro acc n hn rest
          obtain ⟨n, rfl⟩ := Nat.exists_eq_add_one_of_ne_zero (Nat.ne_zero_of_lt hn)
          exact ⟨_, (setLoop_last hv hcomma n acc rest).trans (if_neg hbrace)⟩

/-- A set: the brace, values, the closing brace. -/
theorem parseSet_offends (henv : Usable env) {field : Field} {ts : List Token} {e : FilterParseError}
    (h : parseSet env field ts = .error (.error e)) :
    ∃ used t rest, ts = used ++ t :: rest ∧ e.position = t.position ∧
      (∃ more kinds values, used.map Token.kind ++ more = .leftBrace :: kinds ++ [.rightBrace] ∧
        IsList env field kinds values) ∧
      Refuses (parseSet env field) used t := by
  obtain ⟨kind, value, hkind⟩ := operand_exists henv field
  cases ts with
  | nil => cases h
  | cons left ts =>
    by_cases hleft : left.kind = .leftBrace
    · cases ts with
      | nil =>
        rw [parseSet, expect_of_eq hleft] at h
        cases h
      | cons next ts =>
        have hset : ∀ rest, parseSet env field (left :: next :: rest)
            = if next.kind = .rightBrace then errorAt next.position "set cannot be empty"
              else setLoop env field (next :: rest).length [] (next :: rest) := by
          intro rest
          rw [parseSet, expect_of_eq hleft]
          rfl
        rw [hset] at h
        by_cases hbrace : next.kind = .rightBrace
        · rw [if_pos hbrace] at h
          cases h
          refine ⟨[left], next, ts, rfl, rfl, ⟨[kind, .rightBrace], [kind], [value], ?_, .one hkind⟩, ?_⟩
          · rw [List.map_singleton, hleft]
            rfl
          · intro rest
            exact ⟨_, (hset rest).trans (if_pos hbrace)⟩
        · rw [if_neg hbrace] at h
          obtain ⟨used, t, rest, hts, hposition, ⟨more, values, hlist⟩, hrefuses⟩ := setLoop_offends henv h
          refine ⟨left :: used, t, rest, by rw [hts]; rfl, hposition,
            ⟨more ++ [.rightBrace], _, values, ?_, hlist⟩, ?_⟩
          · rw [List.map_cons, hleft, List.cons_append, List.cons_append, List.append_assoc]
          · intro rest'
            obtain ⟨tail, htail⟩ := starts_same hts rest'
            obtain ⟨e', herror⟩ := hrefuses [] (used ++ t :: rest').length (by simp) rest'
            rw [htail] at herror
            exact ⟨e', by rw [List.cons_append, htail, hset, if_neg hbrace, herror]⟩
    · have hmissing : ∀ rest, parseSet env field (left :: rest)
          = errorAt left.position "expected '\x7b' after 'in'" := by
        intro rest
        rw [parseSet, expect_of_ne hleft]
        rfl
      rw [hmissing] at h
      cases h
      exact ⟨[], left, ts, rfl, rfl, ⟨_, [kind], [value], rfl, .one hkind⟩, fun rest => ⟨_, hmissing rest⟩⟩

theorem parseString_offends {message : String} {ts : List Token} {e : FilterParseError}
    (h : parseString message ts = .error (.error e)) :
    ∃ t rest, ts = t :: rest ∧ e.position = t.position ∧ ∀ value, t.kind ≠ .string value := by
  cases ts with
  | nil => cases h
  | cons t ts =>
    by_cases hstring : ∃ value, t.kind = .string value
    · obtain ⟨value, hvalue⟩ := hstring
      rw [parseString_of_string hvalue] at h
      cases h
    · refine ⟨t, ts, rfl, ?_, fun value hvalue => hstring ⟨value, hvalue⟩⟩
      rw [parseString, take_cons, ok_bind] at h
      dsimp only at h
      split at h <;> cases h
      rfl

theorem parseString_refuses {t : Token} (h : ∀ value, t.kind ≠ .string value) (message : String) :
    Refuses (parseString message) [] t := by
  intro rest
  rw [List.nil_append, parseString, take_cons, ok_bind]
  dsimp only
  split
  · exact absurd ‹_› (h _)
  · exact ⟨_, rfl⟩

/-- What follows a failure does not matter. -/
theorem Refuses.bind {α β : Type} {f : List Token → Except Stop α} {used : List Token} {t : Token}
    (h : Refuses f used t) (g : α → Except Stop β) : Refuses (fun ts => f ts >>= g) used t := by
  intro rest
  obtain ⟨e, herror⟩ := h rest
  exact ⟨e, by dsimp only; rw [herror]; rfl⟩

/-- A text operator on another field is refused, whatever comes next. -/
theorem requireTextField_refuses {field : Field} (htext : field.isText = false) (position : ℕ)
    (operator : String) : ∃ message, ∀ {α : Type} (next : Unit → Except Stop α),
      requireTextField field position operator >>= next = errorAt position message := by
  refine ⟨s!"operator '{operator}' is not valid for '{field.name}'", ?_⟩
  intro _ next
  rw [requireTextField, htext]
  rfl

/-- A comparison that goes wrong at its operator, or behind a part that can be completed to a predicate. -/
def ComparisonErrs (env : FilterEnv) (field : Field) (operator : Token) (ts : List Token)
    (e : FilterParseError) : Prop :=
  (e.position = operator.position ∧ ∀ ts, ∃ e, parseComparison env field operator ts = .error (.error e)) ∨
    (operator.kind ≠ .end ∧ ∃ used t rest, ts = used ++ t :: rest ∧ e.position = t.position ∧
      (∃ more p, IsPredicate env (.word field.name :: operator.kind :: used.map Token.kind ++ more) p) ∧
      Refuses (parseComparison env field operator) used t)

section Comparison

variable {field : Field} {position : ℕ} {ts : List Token} {e : FilterParseError}

/-- One operand, of a value. -/
theorem value_errs {op : TokenKind} {kind : TokenKind} {p : Meaning} {f : Value → Comparison}
    (hne : op ≠ .end) (hpredicate : IsPredicate env [.word field.name, op, kind] p)
    (hparses : ∀ ts, parseComparison env field ⟨op, position⟩ ts
      = (parseValue env field ts >>= fun (value, ts) => pure (f value, ts)))
    (h : parseComparison env field ⟨op, position⟩ ts = .error (.error e)) :
    ComparisonErrs env field ⟨op, position⟩ ts e := by
  rw [hparses, bind_eq_error] at h
  rcases h with h | ⟨_, _, h⟩
  · obtain ⟨t, rest, rfl, hposition, hnone⟩ := parseValue_offends h
    refine .inr ⟨hne, [], t, rest, rfl, hposition, ⟨[kind], p, hpredicate⟩, ?_⟩
    intro rest'
    rw [hparses]
    exact (parseValue_refuses hnone).bind _ rest'
  · cases h

/-- A text operator on another field. -/
theorem notText_errs {op : TokenKind} {operator : String}
    {next : List Token → Unit → Except Stop (Comparison × List Token)} (htext : field.isText = false)
    (hparses : ∀ ts, parseComparison env field ⟨op, position⟩ ts
      = requireTextField field position operator >>= next ts)
    (h : parseComparison env field ⟨op, position⟩ ts = .error (.error e)) :
    ComparisonErrs env field ⟨op, position⟩ ts e := by
  obtain ⟨message, hmessage⟩ := requireTextField_refuses htext position operator
  have hrefused : ∀ ts, parseComparison env field ⟨op, position⟩ ts = errorAt position message :=
    fun ts => (hparses ts).trans (hmessage _)
  rw [hrefused] at h
  cases h
  exact .inl ⟨rfl, fun ts => ⟨_, hrefused ts⟩⟩

theorem contains_errs (htext : field.isText = true)
    (h : parseComparison env field ⟨.contains, position⟩ ts = .error (.error e)) :
    ComparisonErrs env field ⟨.contains, position⟩ ts e := by
  have haccepted : ∀ ts, parseComparison env field ⟨.contains, position⟩ ts
      = (parseString "contains requires a quoted string" ts >>= fun y =>
        pure (.contains y.1, y.2)) := by
    intro ts
    show (requireTextField field position "contains" >>= _) = _
    rw [requireTextField, htext]
    rfl
  rw [haccepted, bind_eq_error] at h
  rcases h with h | ⟨_, _, h⟩
  · obtain ⟨t, rest, rfl, hposition, hstring⟩ := parseString_offends h
    refine .inr ⟨by simp, [], t, rest, rfl, hposition, ⟨[.string ""], _, .contains "" htext⟩, ?_⟩
    intro rest
    rw [haccepted]
    exact (parseString_refuses hstring _).bind _ rest
  · cases h

/-- A pattern that does not compile is an error at its string, too. -/
theorem matches_errs (henv : Usable env) (htext : field.isText = true)
    (h : parseComparison env field ⟨.matches, position⟩ ts = .error (.error e)) :
    ComparisonErrs env field ⟨.matches, position⟩ ts e := by
  obtain ⟨pattern, hpattern⟩ := henv.regex
  have haccepted : ∀ t ts, parseComparison env field ⟨.matches, position⟩ (t :: ts)
      = (parseString "matches requires a quoted string" (t :: ts) >>= fun y =>
        (env.regexError y.1).elim (pure (.matches y.1, y.2)) fun error =>
          errorAt t.position s!"invalid regex: {error}") := by
    intro t ts
    show (requireTextField field position "matches" >>= _) = _
    rw [requireTextField, htext]
    show (parseString _ _ >>= _) = _
    congr 1
    funext y
    obtain ⟨value, ts⟩ := y
    dsimp only
    cases env.regexError value <;> rfl
  cases ts with
  | nil =>
    have hnone : parseComparison env field ⟨.matches, position⟩ [] = .error .panic := by
      show (requireTextField field position "matches" >>= _) = _
      rw [requireTextField, htext]
      rfl
    rw [hnone] at h
    cases h
  | cons t ts =>
    have hcompletes : IsPredicate env [.word field.name, .matches, .string pattern] _ :=
      .matches htext hpattern
    refine .inr ⟨by simp, [], t, ts, rfl, ?_, ⟨[.string pattern], _, hcompletes⟩, ?_⟩
    · rw [haccepted, bind_eq_error] at h
      rcases h with h | ⟨⟨p, ts'⟩, _, h⟩
      · obtain ⟨t', rest, hts, hposition, _⟩ := parseString_offends h
        rw [hposition, (List.cons.inj hts).1]
      · cases herror : env.regexError p with
        | none =>
          rw [herror] at h
          cases h
        | some error =>
          rw [herror] at h
          cases h
          rfl
    · intro rest
      rw [List.nil_append, haccepted]
      by_cases hstring : ∃ value, t.kind = .string value
      · obtain ⟨value, hvalue⟩ := hstring
        rw [haccepted, parseString_of_string hvalue, ok_bind] at h
        rw [parseString_of_string hvalue, ok_bind]
        dsimp only at h ⊢
        cases herror : env.regexError value with
        | none =>
          rw [herror] at h
          cases h
        | some error => exact ⟨_, rfl⟩
      · exact (parseString_refuses (fun value hvalue => hstring ⟨value, hvalue⟩) _).bind _ rest

theorem in_errs (henv : Usable env)
    (h : parseComparison env field ⟨.in, position⟩ ts = .error (.error e)) :
    ComparisonErrs env field ⟨.in, position⟩ ts e := by
  rcases bind_eq_error.mp (show parseSet env field ts >>= _ = _ from h) with h | ⟨_, _, h⟩
  · obtain ⟨used, t, rest, rfl, hposition, ⟨more, kinds, values, hkinds, hlist⟩, hrefuses⟩ :=
      parseSet_offends henv h
    have hset := IsPredicate.in hlist
    simp only [List.cons_append] at hset hkinds
    rw [← hkinds] at hset
    exact .inr ⟨by simp, used, t, rest, rfl, hposition, ⟨more, _, hset⟩, hrefuses.bind _⟩
  · cases h

/-- Every comparison that goes wrong does so. -/
theorem parseComparison_offends (henv : Usable env) {operator : Token}
    (h : parseComparison env field operator ts = .error (.error e)) :
    ComparisonErrs env field operator ts e := by
  obtain ⟨kind, value, hkind⟩ := operand_exists henv field
  obtain ⟨op, position⟩ := operator
  cases op with
  | equal => exact value_errs (by simp) (.equal hkind) (fun _ => rfl) h
  | notEqual => exact value_errs (by simp) (.notEqual hkind) (fun _ => rfl) h
  | contains =>
    cases htext : field.isText with
    | false => exact notText_errs htext (fun _ => rfl) h
    | true => exact contains_errs htext h
  | «matches» =>
    cases htext : field.isText with
    | false => exact notText_errs htext (fun _ => rfl) h
    | true => exact matches_errs henv htext h
  | «in» => exact in_errs henv h
  | _ =>
    cases h
    exact .inl ⟨rfl, fun ts => ⟨_, rfl⟩⟩

end Comparison

/-- Behind a field comes its comparison; the end is not consumed. -/
theorem parsePredicate_operator {field : Field} {fieldToken : Token}
    (hkind : fieldToken.kind = .word (Field.name field)) (operator : Token) (rest : List Token) :
    parsePredicate env (fieldToken :: operator :: rest)
      = (parseComparison env field operator (if operator.kind = .end then operator :: rest else rest) >>=
        fun (c, ts) => pure (⟨field, c⟩, ts)) := by
  rw [parsePredicate, take_of_ne_end (by rw [hkind]; simp), ok_bind]
  simp only [hkind, field_parse_name]
  rfl

/-- Without one the predicate goes wrong at once. -/
theorem parsePredicate_noField {fieldToken : Token}
    (hfield : ¬∃ field, fieldToken.kind = .word (Field.name field)) (ts : List Token) :
    ∃ e, e.position = fieldToken.position ∧ parsePredicate env (fieldToken :: ts) = .error (.error e) := by
  rw [parsePredicate, take_cons, ok_bind]
  dsimp only
  split
  · rename_i fieldName hkind
    cases hparse : Field.parse fieldName with
    | none => exact ⟨_, rfl, rfl⟩
    | some field =>
      rw [field_parse_eq_some.mp hparse] at hkind
      exact absurd ⟨field, hkind⟩ hfield
  · exact ⟨_, rfl, rfl⟩

/-- **A predicate goes wrong** behind a part that can be completed to one. -/
theorem parsePredicate_offends (henv : Usable env) {ts : List Token} {e : FilterParseError}
    (h : parsePredicate env ts = .error (.error e)) :
    ∃ used t rest, ts = used ++ t :: rest ∧ e.position = t.position ∧
      (∃ more p, IsPredicate env (used.map Token.kind ++ more) p) ∧
      Refuses (parsePredicate env) used t := by
  cases ts with
  | nil => cases h
  | cons fieldToken ts =>
    by_cases hfield : ∃ field, fieldToken.kind = .word (Field.name field)
    · obtain ⟨field, hkind⟩ := hfield
      have hend : fieldToken.kind ≠ .end := by rw [hkind]; simp
      cases ts with
      | nil =>
        rw [parsePredicate, take_of_ne_end hend, ok_bind] at h
        simp only [hkind, field_parse_name] at h
        cases h
      | cons operator ts =>
        rw [parsePredicate_operator hkind, bind_eq_error] at h
        rcases h with h | ⟨_, _, h⟩
        · rcases parseComparison_offends henv h with ⟨hposition, hrefused⟩ |
            ⟨hne, used, t, rest, hts, hposition, ⟨more, p, hp⟩, hrefuses⟩
          · obtain ⟨kind, value, hvalue⟩ := operand_exists henv field
            have hcompletes := IsPredicate.equal hvalue
            rw [← hkind] at hcompletes
            refine ⟨[fieldToken], operator, ts, rfl, hposition, ⟨[.equal, kind], _, hcompletes⟩, ?_⟩
            intro rest
            obtain ⟨e', herror⟩ := hrefused (if operator.kind = .end then operator :: rest else rest)
            exact ⟨e', by rw [List.singleton_append, parsePredicate_operator hkind, herror]; rfl⟩
          · rw [if_neg hne] at hts
            refine ⟨fieldToken :: operator :: used, t, rest, by rw [hts]; rfl, hposition, ⟨more, p, ?_⟩, ?_⟩
            · rw [List.map_cons, List.map_cons, hkind]
              exact hp
            · intro rest'
              obtain ⟨e', herror⟩ := hrefuses rest'
              refine ⟨e', ?_⟩
              rw [List.cons_append, List.cons_append, parsePredicate_operator hkind, if_neg hne, herror]
              rfl
        · cases h
    · obtain ⟨e', hposition, herror⟩ := @parsePredicate_noField env _ hfield ts
      rw [herror] at h
      cases h
      have hcompletes : IsPredicate env [.word (Field.name .messageText), .equal, .string ""] _ :=
        .equal (show valueOf env .messageText (.string "") = some (.text "") from rfl)
      refine ⟨[], fieldToken, ts, rfl, hposition, ⟨_, _, hcompletes⟩, ?_⟩
      intro rest
      obtain ⟨e'', _, herror'⟩ := @parsePredicate_noField env _ hfield rest
      exact ⟨e'', herror'⟩

end Tapgres.Filter
