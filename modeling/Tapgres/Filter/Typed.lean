import Tapgres.Filter.Print

/-!
# Accepted filters are well typed

The evaluator answers `false` where an operand is not of its field's type, and finds no text in a field
that has none.  The parser builds no such predicate:

* `DisplayFilter.evaluate` — the evaluation of a filter that stops at either of the two;
* `parsePredicate_fits`, `parser_fits` — what each parsing function builds fits;
* `parse_comparison` — a lone `!=` and the `==` with the same operands are accepted together;
* `accepted_filter_typed` — so evaluation never stops, on any message.
-/

namespace Tapgres.Filter

open Tapgres.Net
open Tapgres.Lib

variable {env : FilterEnv}

/-! ### Evaluation that stops on a mismatch -/

/-- `equals`, which stops where the code falls back to `false`. -/
def Field.equalsTyped (field : Field) (value : Value) (message : DisplayMessage) : Option Bool :=
  match field, value with
  | .clientIp, .ip expected => some (message.client.ip == expected)
  | .clientPort, .port expected => some (message.client.port == expected)
  | .messageType, .text expected => some (message.kind == expected)
  | .messageText, .text expected => some (message.text == expected)
  | .messageDirection, .direction expected => some (message.direction == expected)
  | _, _ => none

/-- `values.iter().any(..)`, which looks no further than the first value that equals. -/
def Field.equalsAny (field : Field) (message : DisplayMessage) : List Value → Option Bool
  | [] => some false
  | value :: values => do
    if ← field.equalsTyped value message then some true else field.equalsAny message values

def Predicate.evaluate (env : FilterEnv) (predicate : Predicate) (message : DisplayMessage) : Option Bool :=
  match predicate.comparison with
  | .equal value => predicate.field.equalsTyped value message
  | .notEqual value => (predicate.field.equalsTyped value message).map (!·)
  | .contains needle => (predicate.field.text message).map fun value => strContains value needle
  | .matches pattern => (predicate.field.text message).map fun value => env.regexIsMatch pattern value
  | .in values => predicate.field.equalsAny message values

def Expr.evaluate (env : FilterEnv) : Expr → DisplayMessage → Option Bool
  | .predicate p, message => p.evaluate env message
  | .and left right, message => do if ← left.evaluate env message then right.evaluate env message else some false
  | .or left right, message => do if ← left.evaluate env message then some true else right.evaluate env message
  | .not inner, message => (inner.evaluate env message).map (!·)

/-- The filter's answer to a message, unless evaluation stops. -/
def DisplayFilter.evaluate (env : FilterEnv) (filter : DisplayFilter) (message : DisplayMessage) :
    Option Bool :=
  match filter.root with
  | none => some true
  | some expression => expression.evaluate env message

/-- The predicates of an expression. -/
def Expr.predicates : Expr → List Predicate
  | .predicate p => [p]
  | .and left right => left.predicates ++ right.predicates
  | .or left right => left.predicates ++ right.predicates
  | .not inner => inner.predicates

def DisplayFilter.predicates (filter : DisplayFilter) : List Predicate :=
  match filter.root with
  | none => []
  | some expression => expression.predicates

theorem equalsTyped_of_fits {field : Field} {value : Value} (h : field.fits value = true)
    (message : DisplayMessage) : field.equalsTyped value message = some (field.equals value message) := by
  cases field <;> cases value <;> first | rfl | cases h

theorem equalsAny_of_fits {field : Field} {values : List Value}
    (h : ∀ value ∈ values, field.fits value = true) (message : DisplayMessage) :
    field.equalsAny message values = some (values.any fun value => field.equals value message) := by
  induction values with
  | nil => rfl
  | cons value values ih =>
    have htail := ih fun v hv => h v (List.mem_cons_of_mem value hv)
    rw [Field.equalsAny, equalsTyped_of_fits (h value List.mem_cons_self), htail, List.any_cons]
    cases field.equals value message <;> rfl

theorem text_of_isText {field : Field} (h : field.isText = true) (message : DisplayMessage) :
    ∃ text, field.text message = some text := by
  cases field <;> first | exact ⟨_, rfl⟩ | cases h

/-- A predicate that fits is evaluated to its answer. -/
theorem predicate_evaluate {p : Predicate} (h : p.Fits env) (message : DisplayMessage) :
    p.evaluate env message = some (p.matches env message) := by
  obtain ⟨field, comparison⟩ := p
  cases comparison with
  | equal value => exact equalsTyped_of_fits h message
  | notEqual value =>
    show (field.equalsTyped value message).map (!·) = _
    rw [equalsTyped_of_fits h]
    rfl
  | contains needle =>
    obtain ⟨text, htext⟩ := text_of_isText h message
    simp [Predicate.evaluate, Predicate.matches, htext]
  | «matches» pattern =>
    obtain ⟨text, htext⟩ := text_of_isText h.1 message
    simp [Predicate.evaluate, Predicate.matches, htext]
  | «in» values => exact equalsAny_of_fits h.2 message

theorem expr_evaluate {e : Expr} (h : e.Fits env) (message : DisplayMessage) :
    e.evaluate env message = some (e.matches env message) := by
  induction e with
  | predicate p => exact predicate_evaluate h message
  | and left right ihLeft ihRight =>
    rw [Expr.evaluate, ihLeft h.1, ihRight h.2, Expr.matches]
    cases left.matches env message <;> rfl
  | or left right ihLeft ihRight =>
    rw [Expr.evaluate, ihLeft h.1, ihRight h.2, Expr.matches]
    cases left.matches env message <;> rfl
  | not inner ih =>
    rw [Expr.evaluate, ih h]
    rfl

theorem Expr.fits_iff {e : Expr} : e.Fits env ↔ ∀ p ∈ e.predicates, p.Fits env := by
  induction e with
  | predicate p => simp [Expr.Fits, Expr.predicates]
  | and left right ihLeft ihRight =>
    rw [Expr.Fits, ihLeft, ihRight, Expr.predicates, List.forall_mem_append]
  | or left right ihLeft ihRight =>
    rw [Expr.Fits, ihLeft, ihRight, Expr.predicates, List.forall_mem_append]
  | not inner ih => exact ih

/-! ### What the parser builds -/

theorem fits_of_valueOf {field : Field} {kind : TokenKind} {value : Value}
    (h : valueOf env field kind = some value) : field.fits value = true := by
  unfold valueOf at h
  split at h
  · obtain ⟨ip, _, rfl⟩ := Option.map_eq_some_iff.mp h
    rfl
  · obtain ⟨ip, _, rfl⟩ := Option.map_eq_some_iff.mp h
    rfl
  · obtain ⟨port, _, rfl⟩ := Option.map_eq_some_iff.mp h
    rfl
  · cases h
    rfl
  · cases h
    rfl
  · obtain ⟨direction, _, rfl⟩ := Option.map_eq_some_iff.mp h
    rfl
  · cases h

theorem IsList.fits {field : Field} {kinds : List TokenKind} {values : List Value}
    (h : IsList env field kinds values) : values ≠ [] ∧ ∀ value ∈ values, field.fits value = true := by
  induction h with
  | one hv => exact ⟨List.cons_ne_nil _ _, List.forall_mem_singleton.mpr (fits_of_valueOf hv)⟩
  | more hv _ ih => exact ⟨List.cons_ne_nil _ _, List.forall_mem_cons.mpr ⟨fits_of_valueOf hv, ih.2⟩⟩

theorem parseComparison_fits {field : Field} {operator : Token} {ts rest : List Token} {c : Comparison}
    (h : parseComparison env field operator ts = .ok (c, rest)) : Predicate.Fits env ⟨field, c⟩ := by
  rw [parseComparison] at h
  split at h
  · simp only [bind_eq_ok] at h
    obtain ⟨⟨v, ts'⟩, hvalue, h⟩ := h
    cases h
    obtain ⟨_, _, hv⟩ := parseValue_sound hvalue
    exact fits_of_valueOf hv
  · simp only [bind_eq_ok] at h
    obtain ⟨⟨v, ts'⟩, hvalue, h⟩ := h
    cases h
    obtain ⟨_, _, hv⟩ := parseValue_sound hvalue
    exact fits_of_valueOf hv
  · simp only [bind_eq_ok] at h
    obtain ⟨_, htext, ⟨needle, ts'⟩, _, h⟩ := h
    cases h
    exact requireTextField_sound htext
  · simp only [bind_eq_ok] at h
    obtain ⟨_, htext, token, _, ⟨pattern, ts'⟩, _, h⟩ := h
    dsimp only at h
    split at h
    · cases h
    · rename_i hcompiles
      cases h
      exact ⟨requireTextField_sound htext, hcompiles⟩
  · simp only [bind_eq_ok] at h
    obtain ⟨⟨values, ts'⟩, hset, h⟩ := h
    cases h
    obtain ⟨_, _, _, _, hlist⟩ := parseSet_sound hset
    exact hlist.fits
  · cases h

theorem parsePredicate_fits {ts rest : List Token} {predicate : Predicate}
    (h : parsePredicate env ts = .ok (predicate, rest)) : predicate.Fits env := by
  simp only [parsePredicate, bind_eq_ok] at h
  obtain ⟨⟨fieldToken, ts'⟩, _, h⟩ := h
  dsimp only at h
  split at h
  · split at h
    · cases h
    · simp only [bind_eq_ok] at h
      obtain ⟨⟨operator, ts''⟩, _, ⟨c, ts'''⟩, hcomparison, h⟩ := h
      cases h
      exact parseComparison_fits hcomparison
  · cases h

theorem Chain.join_fits {l : Chain} {e e' : Expr} (he : e.Fits env) (he' : e'.Fits env) :
    (l.join e e').Fits env := by
  cases l with
  | or => exact ⟨he, he'⟩
  | and => exact ⟨he, he'⟩

/-- **Every parsing function builds what fits**, and a loop from an expression that fits. -/
theorem parser_fits {s : Symbol} {n : ℕ} {e e' : Expr} {ts rest : List Token} (he : e.Fits env)
    (h : parserOf env s n e ts = .ok (e', rest)) : e'.Fits env := by
  induction n generalizing s e e' ts rest with
  | zero => cases s <;> cases h
  | succ n ih =>
    cases parser_cases h with
    | whole hfirst hloop => exact ih (ih he hfirst) hloop
    | more _ hnext hloop => exact ih (Chain.join_fits he (ih he hnext)) hloop
    | done _ => exact he
    | @negated _ inner _ _ _ _ hinner =>
      show Expr.Fits env inner
      exact ih he hinner
    | plain hprimary => exact ih he hprimary
    | parens _ hinner _ => exact ih he hinner
    | predicate hpredicate => exact parsePredicate_fits hpredicate

/-! ### A lone comparison -/

/-- A loop takes nothing, or joins what it takes to what it was handed. -/
theorem Chain.tail_result {l : Chain} {n : ℕ} {e e' : Expr} {ts rest : List Token}
    (h : parserOf env l.tail n e ts = .ok (e', rest)) :
    (e' = e ∧ ∀ other, parserOf env l.tail n other ts = .ok (other, rest)) ∨
      ∃ left right, e' = l.join left right := by
  induction n generalizing e ts with
  | zero => cases l <;> cases h
  | succ n ih =>
    simp only [l.tail_turn, bind_eq_ok] at h
    obtain ⟨⟨taken, ts'⟩, htake, h⟩ := h
    cases taken with
    | true =>
      obtain ⟨⟨next, ts''⟩, _, hloop⟩ := bind_eq_ok.mp h
      rcases ih hloop with ⟨rfl, _⟩ | hjoined
      · exact .inr ⟨e, next, rfl⟩
      · exact .inr hjoined
    | false =>
      cases h
      refine .inl ⟨rfl, fun other => ?_⟩
      simp only [l.tail_turn, htake]
      rfl

/-- Behind a word comes a predicate, and then the two loops. -/
theorem parseOr_word {word : String} {t : Token} (ht : t.kind = .word word) (n : ℕ) (ts : List Token) :
    parseOr env (n + 4) (t :: ts) = (do
      let (p, rest) ← parsePredicate env (t :: ts)
      let (e, rest) ← andLoop env (n + 2) (.predicate p) rest
      orLoop env (n + 3) e rest) := by
  have hnot : t.kind ≠ .not := by rw [ht]; simp
  have hparen : t.kind ≠ .leftParen := by rw [ht]; simp
  rw [parseOr, parseAnd, parseNot, takeIf_of_ne hnot, ok_bind]
  simp only [Bool.false_eq_true, if_false]
  rw [parsePrimary, takeIf_of_ne hparen, ok_bind]
  simp only [Bool.false_eq_true, if_false]
  cases parsePredicate env (t :: ts) <;> rfl

/-- A field and an operator that takes one value. -/
theorem parsePredicate_of_value {field : Field} {build : Value → Comparison} {position : ℕ} {operator : Token}
    (hop : ∀ ts, parseComparison env field operator ts
      = (do let (value, ts) ← parseValue env field ts; pure (build value, ts)))
    (hend : operator.kind ≠ .end) (ts : List Token) :
    parsePredicate env (⟨.word field.name, position⟩ :: operator :: ts)
      = (do let (value, ts) ← parseValue env field ts; pure (⟨field, build value⟩, ts)) := by
  rw [parsePredicate, take_of_ne_end (by simp), ok_bind]
  simp only [field_parse_name]
  rw [take_of_ne_end hend, ok_bind]
  simp only [hop]
  cases parseValue env field ts <;> rfl

/-- **A lone `!=` is read as the `==` with the same operands would be.** -/
theorem parse_comparison {field : Field} {p₁ p₂ : ℕ} {ts : List Token} {p : Predicate}
    (h : parse env (⟨.word field.name, p₁⟩ :: ⟨.notEqual, p₂⟩ :: ts) = .ok (.predicate p)) :
    ∃ value, p = ⟨field, .notEqual value⟩ ∧
      parse env (⟨.word field.name, p₁⟩ :: ⟨.equal, p₂⟩ :: ts)
        = .ok (.predicate ⟨field, .equal value⟩) := by
  have hfuel : ∀ operator : Token,
      parserFuel (⟨.word field.name, p₁⟩ :: operator :: ts) = (4 * ts.length + 8) + 4 := by
    intro operator
    simp [parserFuel]
    omega
  have hne := fun ts => @parsePredicate_of_value env field .notEqual p₁ ⟨.notEqual, p₂⟩ (fun _ => rfl)
    (by simp) ts
  have heq := fun ts => @parsePredicate_of_value env field .equal p₁ ⟨.equal, p₂⟩ (fun _ => rfl)
    (by simp) ts
  rw [parse, hfuel, parseOr_word rfl, hne] at h
  simp only [bind_eq_ok] at h
  obtain ⟨⟨e, rest⟩, ⟨⟨q, rest₁⟩, ⟨⟨value, rest₂⟩, hvalue, hq⟩, ⟨e₁, rest₃⟩, hand, hor⟩, hend⟩ := h
  cases hq
  have hroot : e = .predicate p ∧ ∃ t, peek rest = .ok t ∧ t.kind = .end := by
    obtain ⟨t, hpeek, hend⟩ := hend
    dsimp only at hend
    split at hend
    · cases hend
      exact ⟨rfl, t, hpeek, ‹_›⟩
    · cases rest <;> cases hend
  obtain ⟨rfl, t, hpeek, hkind⟩ := hroot
  have hand' : parserOf env Chain.and.tail (4 * ts.length + 8 + 2)
      (.predicate ⟨field, .notEqual value⟩) rest₂ = .ok (e₁, rest₃) := hand
  have hor' : parserOf env Chain.or.tail (4 * ts.length + 8 + 3) e₁ rest₃ = .ok (.predicate p, rest) := hor
  rcases Chain.tail_result hor' with ⟨rfl, horLoop⟩ | ⟨_, _, hbad⟩
  · rcases Chain.tail_result hand' with ⟨hp, handLoop⟩ | ⟨_, _, hbad⟩
    · cases hp
      simp only [Chain.tail, parserOf] at horLoop handLoop
      refine ⟨value, rfl, ?_⟩
      rw [parse, hfuel, parseOr_word rfl, heq, hvalue]
      simp only [ok_bind, pure_eq_ok, handLoop, horLoop, hpeek, hkind, if_true]
    · cases hbad
  · cases hbad

/-! ### The text of a comparison -/

/-- A field between blanks, an operator and what stands behind it. -/
def comparisonText (lead : Utf8.Str) (field : Field) (gap operator operand : Utf8.Str) : String :=
  String.ofList (lead ++ (field.name.toList ++ gap ++ operator) ++ operand)

/-- The text of an operator of equality, and its token. -/
def EqualityOperator (operator : Utf8.Str) (kind : TokenKind) : Prop :=
  (operator = "!=".toList ∧ kind = .notEqual) ∨ (operator = "==".toList ∧ kind = .equal)

theorem lexLoop_equality {operator : Utf8.Str} {kind : TokenKind} (h : EqualityOperator operator kind)
    (n position : ℕ) (rest : Utf8.Str) :
    lexLoop (n + 1) position (operator ++ rest) = (do
      let tokens ← lexLoop n (position + 2) rest
      pure (⟨kind, position⟩ :: tokens)) := by
  rcases h with ⟨rfl, rfl⟩ | ⟨rfl, rfl⟩
  · exact lexLoop_operator (show "!=".toList = '!' :: ['='] from rfl) (by decide) (by decide)
      (fun _ => rfl) (by decide) n position rest
  · exact lexLoop_operator (show "==".toList = '=' :: ['='] from rfl) (by decide) (by decide)
      (fun _ => rfl) (by decide) n position rest

/-- Blanks and then an operator end a word. -/
theorem gap_ends_word {gap operator : Utf8.Str} {kind : TokenKind} (h : EqualityOperator operator kind)
    (hgap : ∀ c ∈ gap, Utf8.isWhitespace c = true) (rest : Utf8.Str) :
    (gap ++ (operator ++ rest)).takeWhile isWordChar = [] := by
  cases gap with
  | nil => rcases h with ⟨rfl, rfl⟩ | ⟨rfl, rfl⟩ <;> rfl
  | cons c gap =>
    have hborder : Bordered (c :: (gap ++ (operator ++ rest))) :=
      .inr ⟨c, _, rfl, hgap c List.mem_cons_self⟩
    exact hborder.takeWhile

/-- The name of a field is a word. -/
theorem lexLoop_field (field : Field) {rest : Utf8.Str} (hend : rest.takeWhile isWordChar = [])
    (n position : ℕ) :
    lexLoop (n + 1) position (field.name.toList ++ rest) = (do
      let tokens ← lexLoop n (position + Utf8.byteLen field.name.toList) rest
      pure (⟨.word field.name, position⟩ :: tokens)) := by
  have hne : field.name.toList ≠ [] := by cases field <;> decide
  have hall : field.name.toList.all (fun c => isWordChar c && c != '\x22') = true := by
    cases field <;> decide
  have hchars : ∀ c ∈ field.name.toList, isWordChar c = true ∧ c ≠ '\x22' := by
    intro c hc
    simpa using List.all_eq_true.mp hall c hc
  have hstep := lexLoop_unquoted hne hchars hend n position
  rw [wordKind_field] at hstep
  exact hstep

theorem lex_comparison {operator gap : Utf8.Str} {kind : TokenKind} (h : EqualityOperator operator kind)
    (hgap : ∀ c ∈ gap, Utf8.isWhitespace c = true) (field : Field) (operand : Utf8.Str) :
    lex (field.name.toList ++ gap ++ operator ++ operand) = (do
      let tokens ← lexLoop (field.name.toList.length + operand.length + 1)
        (Utf8.byteLen field.name.toList + Utf8.byteLen gap + 2) operand
      pure (⟨.word field.name, 0⟩ ::
        ⟨kind, Utf8.byteLen field.name.toList + Utf8.byteLen gap⟩ :: tokens)) := by
  have hlen : (field.name.toList ++ gap ++ operator ++ operand).length + 1
      = gap.length + (field.name.toList.length + operand.length + 1 + 1) + 1 := by
    have htwo : operator.length = 2 := by rcases h with ⟨rfl, _⟩ | ⟨rfl, _⟩ <;> rfl
    simp only [List.length_append, htwo]
    omega
  rw [lex, hlen, List.append_assoc, List.append_assoc, lexLoop_field field (gap_ends_word h hgap operand),
    lexLoop_blanks hgap, lexLoop_equality h, Nat.zero_add]
  cases lexLoop (field.name.toList.length + operand.length + 1)
    (Utf8.byteLen field.name.toList + Utf8.byteLen gap + 2) operand <;> rfl

/-- Trimming takes the blanks in front, and those at the end of what stands behind the operator. -/
theorem trim_comparison {operator lead gap : Utf8.Str} {kind : TokenKind}
    (h : EqualityOperator operator kind) (hlead : ∀ c ∈ lead, Utf8.isWhitespace c = true) (field : Field)
    (operand : Utf8.Str) :
    trim (lead ++ (field.name.toList ++ gap ++ operator) ++ operand)
      = field.name.toList ++ gap ++ operator ++ operand.rdropWhile Utf8.isWhitespace := by
  obtain ⟨c, tail, hfirst, hblank⟩ := (lexes_field field).first
  have hdrop : (lead ++ (field.name.toList ++ gap ++ operator) ++ operand).dropWhile Utf8.isWhitespace
      = field.name.toList ++ gap ++ operator ++ operand := by
    rw [List.append_assoc, List.dropWhile_append_of_pos hlead, hfirst]
    exact List.dropWhile_cons_of_neg (by simp [hblank])
  have hlast : ∃ body, operator = body ++ ['='] := by
    rcases h with ⟨rfl, _⟩ | ⟨rfl, _⟩
    · exact ⟨['!'], rfl⟩
    · exact ⟨['='], rfl⟩
  obtain ⟨body, rfl⟩ := hlast
  have hbody : (field.name.toList ++ gap ++ (body ++ ['='])).reverse.dropWhile Utf8.isWhitespace
      = (field.name.toList ++ gap ++ (body ++ ['='])).reverse := by
    rw [← List.append_assoc, List.reverse_append]
    exact List.dropWhile_cons_of_neg (by decide)
  rw [trim, hdrop, List.rdropWhile, List.rdropWhile, List.reverse_append, List.dropWhile_append, hbody]
  split
  · rename_i hempty
    rw [List.isEmpty_iff.mp hempty, List.reverse_reverse, List.reverse_nil, List.append_nil]
  · rw [List.reverse_append, List.reverse_reverse]

variable (env) in
/-- What is parsed of the text of a comparison. -/
theorem parse_comparisonText {operator lead gap : Utf8.Str} {kind : TokenKind}
    (h : EqualityOperator operator kind) (hlead : ∀ c ∈ lead, Utf8.isWhitespace c = true)
    (hgap : ∀ c ∈ gap, Utf8.isWhitespace c = true) (field : Field) (operand : Utf8.Str) :
    ∃ expression, DisplayFilter.parse env (comparisonText lead field gap operator operand) = (do
      let tokens ← lexLoop (field.name.toList.length + (operand.rdropWhile Utf8.isWhitespace).length + 1)
        (Utf8.byteLen field.name.toList + Utf8.byteLen gap + 2) (operand.rdropWhile Utf8.isWhitespace)
      let root ← parse env (⟨.word field.name, 0⟩ ::
        ⟨kind, Utf8.byteLen field.name.toList + Utf8.byteLen gap⟩ :: tokens)
      pure ⟨expression, some root⟩) := by
  have hne : field.name.toList ++ gap ++ operator ++ operand.rdropWhile Utf8.isWhitespace ≠ [] := by
    cases field <;> simp [Field.name]
  refine ⟨String.ofList (field.name.toList ++ gap ++ operator ++ operand.rdropWhile Utf8.isWhitespace), ?_⟩
  rw [DisplayFilter.parse, comparisonText, String.toList_ofList, trim_comparison h hlead, if_neg hne,
    lex_comparison h hgap]
  cases lexLoop (field.name.toList.length + (operand.rdropWhile Utf8.isWhitespace).length + 1)
    (Utf8.byteLen field.name.toList + Utf8.byteLen gap + 2) (operand.rdropWhile Utf8.isWhitespace) <;> rfl

/-- **`!=` is the complement of `==`**: where a text is accepted as a lone `!=`, the text with `==` in its
place is accepted, and matches the other messages. -/
theorem notEqual_complements {lead gap : Utf8.Str} (hlead : ∀ c ∈ lead, Utf8.isWhitespace c = true)
    (hgap : ∀ c ∈ gap, Utf8.isWhitespace c = true) {field : Field} {operand : Utf8.Str}
    {filter : DisplayFilter} {p : Predicate}
    (h : DisplayFilter.parse env (comparisonText lead field gap "!=".toList operand) = .ok filter)
    (hroot : filter.root = some (.predicate p)) :
    ∃ filter', DisplayFilter.parse env (comparisonText lead field gap "==".toList operand) = .ok filter' ∧
      ∀ m, filter.matches env m = !filter'.matches env m := by
  obtain ⟨e₁, hne⟩ := parse_comparisonText env (.inl ⟨rfl, rfl⟩) hlead hgap field operand
  obtain ⟨e₂, heq⟩ := parse_comparisonText env (.inr ⟨rfl, rfl⟩) hlead hgap field operand
  rw [hne] at h
  simp only [bind_eq_ok] at h
  obtain ⟨tokens, hlex, root, hparse, h⟩ := h
  cases h
  obtain rfl := Option.some.inj hroot
  obtain ⟨value, rfl, hother⟩ := parse_comparison hparse
  refine ⟨⟨e₂, some (.predicate ⟨field, .equal value⟩)⟩, ?_, fun m => rfl⟩
  rw [heq, hlex, ok_bind, hother]
  rfl

/-! ### Accepted filters -/

/-- What `parse` answers to an accepted text fits. -/
theorem parse_fits {tokens : List Token} {root : Expr} (h : parse env tokens = .ok root) :
    root.Fits env := by
  simp only [parse, bind_eq_ok] at h
  obtain ⟨⟨e, rest⟩, hor, t, _, h⟩ := h
  dsimp only at h
  split at h
  · cases h
    -- `parse_or` does not look at the expression it is handed
    have hstart : Expr.Fits env (.predicate ⟨.messageText, .contains ""⟩) := rfl
    have hparser : parserOf env .or (parserFuel tokens) (.predicate ⟨.messageText, .contains ""⟩) tokens
        = .ok (root, rest) := hor
    exact parser_fits hstart hparser
  · cases rest <;> cases h

theorem displayFilter_parse_root {expression : String} {filter : DisplayFilter}
    (h : DisplayFilter.parse env expression = .ok filter) :
    filter.root = none ∨ ∃ root, filter.root = some root ∧ root.Fits env := by
  rw [DisplayFilter.parse] at h
  split at h
  · cases h
    exact .inl rfl
  · simp only [DisplayFilter.ofTokens, bind_eq_ok] at h
    obtain ⟨tokens, _, root, hparse, h⟩ := h
    cases h
    exact .inr ⟨root, rfl, parse_fits hparse⟩

/-- **Accepted filters are well typed**: in the tree of an accepted text every operand is of its field's
type, text operators stand on text fields and no set is empty, and evaluating the filter reaches no
mismatch on any message; `!=` is the negation of `==` everywhere in the tree, and the text of a lone `!=`
is accepted with `==` in its place, as the filter of the other messages. -/
theorem accepted_filter_typed (env : FilterEnv) :
    (∀ expression filter, DisplayFilter.parse env expression = .ok filter →
      (∀ p ∈ filter.predicates, p.Fits env) ∧
        (∀ m, filter.evaluate env m = some (filter.matches env m)) ∧
        ∀ field value, ⟨field, .notEqual value⟩ ∈ filter.predicates → ∀ m,
          Predicate.matches env ⟨field, .notEqual value⟩ m
            = !Predicate.matches env ⟨field, .equal value⟩ m) ∧
      ∀ lead field gap operand filter p, (∀ c ∈ lead, Utf8.isWhitespace c = true) →
        (∀ c ∈ gap, Utf8.isWhitespace c = true) →
        DisplayFilter.parse env (comparisonText lead field gap "!=".toList operand) = .ok filter →
        filter.root = some (.predicate p) →
        ∃ filter', DisplayFilter.parse env (comparisonText lead field gap "==".toList operand)
            = .ok filter' ∧
          ∀ m, filter.matches env m = !filter'.matches env m := by
  refine ⟨?_, fun lead field gap operand filter p hlead hgap h hroot =>
    notEqual_complements hlead hgap h hroot⟩
  intro expression filter h
  rcases displayFilter_parse_root h with hroot | ⟨root, hroot, hfits⟩
  · refine ⟨?_, fun m => ?_, fun _ _ _ _ => rfl⟩
    · simp [DisplayFilter.predicates, hroot]
    · simp [DisplayFilter.evaluate, DisplayFilter.matches, hroot]
  · refine ⟨?_, fun m => ?_, fun _ _ _ _ => rfl⟩
    · rw [DisplayFilter.predicates, hroot]
      exact Expr.fits_iff.mp hfits
    · rw [DisplayFilter.evaluate, DisplayFilter.matches, hroot]
      exact expr_evaluate hfits m

/-- The filter of the text ` client.port != 40005`. -/
def otherPort : DisplayFilter where
  expression := "client.port != 40005"
  root := some (.predicate ⟨.clientPort, .notEqual (.port 40005)⟩)

theorem accepted_filter_typed_otherPort :
    (∀ m, otherPort.evaluate loopbackEnv m = some (otherPort.matches loopbackEnv m)) ∧
      ∃ filter', DisplayFilter.parse loopbackEnv
          (comparisonText [' '] .clientPort [' '] "==".toList " 40005".toList) = .ok filter' ∧
        ∀ m, otherPort.matches loopbackEnv m = !filter'.matches loopbackEnv m := by
  have hblank : ∀ c ∈ [' '], Utf8.isWhitespace c = true := by
    intro c hc
    obtain rfl := List.mem_singleton.mp hc
    rfl
  have htext : DisplayFilter.parse loopbackEnv " client.port != 40005" = .ok otherPort := by
    decide +kernel
  have hparts : DisplayFilter.parse loopbackEnv
      (comparisonText [' '] .clientPort [' '] "!=".toList " 40005".toList) = .ok otherPort := by
    decide +kernel
  have htyped := accepted_filter_typed loopbackEnv
  exact ⟨(htyped.1 _ otherPort htext).2.1, htyped.2 [' '] .clientPort [' '] _ otherPort _ hblank hblank
    hparts rfl⟩

end Tapgres.Filter
