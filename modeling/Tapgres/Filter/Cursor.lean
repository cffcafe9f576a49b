import Tapgres.Filter.Positions

/-!
# The parser by its cursor

`Parser` as the code has it: the tokens stay where they are and a cursor walks over them; `peek` indexes
the tokens at the cursor, and panics behind the last.  `Filter.parse` takes the tokens off a list.  Every
cursor indexed at, and every one the parser moves to, is recorded.

* `take_eq`, `takeIf_eq`, `expect_eq` — what the three do on a cursor that stands on a token;
* `ops_stay` — no sequence of them leads the cursor past the `End` the tokens end in.
-/

namespace Tapgres.Filter.Indexed

open Tapgres.Net Tapgres.Lib.Utf8 Tapgres.Lib.Trace

/-- A computation that records where the cursor stands. -/
abbrev Reading (α : Type) := Traced ℕ Stop α

def peek (tokens : List Token) (cursor : ℕ) : Reading Token := do
  Traced.visit cursor
  match tokens[cursor]? with
  | some token => pure token
  | none => .fail .panic

/-- `self.cursor += 1` -/
def advance (cursor : ℕ) : Reading ℕ := do
  Traced.visit (cursor + 1)
  pure (cursor + 1)

def errorHere {α : Type} (message : String) (tokens : List Token) (cursor : ℕ) : Reading α := do
  let token ← peek tokens cursor
  errorAt token.position message

def take (tokens : List Token) (cursor : ℕ) : Reading (Token × ℕ) := do
  let token ← peek tokens cursor
  if token.kind = .end then pure (token, cursor)
  else
    let cursor ← advance cursor
    pure (token, cursor)

def takeIf (kind : TokenKind) (tokens : List Token) (cursor : ℕ) : Reading (Bool × ℕ) := do
  let token ← peek tokens cursor
  if token.kind = kind then
    let cursor ← advance cursor
    pure (true, cursor)
  else pure (false, cursor)

def expect (kind : TokenKind) (message : String) (tokens : List Token) (cursor : ℕ) : Reading ℕ := do
  let token ← peek tokens cursor
  if token.kind = kind then advance cursor else errorHere message tokens cursor

/-! ### On a token -/

section OnToken

variable {tokens : List Token} {cursor : ℕ} {token : Token}

theorem peek_eq (ht : tokens[cursor]? = some token) : peek tokens cursor = ⟨[cursor], .ok token⟩ := by
  rw [peek, ht]
  rfl

theorem errorHere_eq {α : Type} (ht : tokens[cursor]? = some token) (message : String) :
    (errorHere message tokens cursor : Reading α) = ⟨[cursor], .error (.error ⟨message, token.position⟩)⟩ := by
  rw [errorHere, peek_eq ht]
  rfl

theorem take_eq (ht : tokens[cursor]? = some token) :
    take tokens cursor = if token.kind = .end then ⟨[cursor], .ok (token, cursor)⟩
      else ⟨[cursor, cursor + 1], .ok (token, cursor + 1)⟩ := by
  rw [take, peek_eq ht, bind_of_ok rfl]
  split <;> rfl

theorem takeIf_eq (ht : tokens[cursor]? = some token) (kind : TokenKind) :
    takeIf kind tokens cursor = if token.kind = kind then ⟨[cursor, cursor + 1], .ok (true, cursor + 1)⟩
      else ⟨[cursor], .ok (false, cursor)⟩ := by
  rw [takeIf, peek_eq ht, bind_of_ok rfl]
  split <;> rfl

theorem expect_eq (ht : tokens[cursor]? = some token) (kind : TokenKind) (message : String) :
    expect kind message tokens cursor = if token.kind = kind then ⟨[cursor, cursor + 1], .ok (cursor + 1)⟩
      else ⟨[cursor, cursor], .error (.error ⟨message, token.position⟩)⟩ := by
  rw [expect, peek_eq ht, bind_of_ok rfl]
  split
  · rfl
  · rw [errorHere_eq ht]
    rfl

/-- A cursor on a token other than `End` has another token behind it. -/
theorem next_lt (h : Ended tokens) (ht : tokens[cursor]? = some token) (hkind : token.kind ≠ .end) :
    cursor + 1 < tokens.length := by
  obtain ⟨body, last, rfl, hlast⟩ := h
  have hlt := (List.getElem?_eq_some_iff.mp ht).1
  rw [List.length_append, List.length_singleton] at hlt ⊢
  by_contra hno
  rw [show cursor = body.length by omega, List.getElem?_concat_length] at ht
  exact hkind (by rw [← Option.some.inj ht, hlast])

end OnToken

/-! ### Any sequence -/

/-- The operations that move the cursor; none of them asks for an `End`. -/
inductive CursorOp where
  | take
  | takeIf (kind : {kind : TokenKind // kind ≠ .end})
  | expect (kind : {kind : TokenKind // kind ≠ .end}) (message : String)

/-- One operation, and where it leaves the cursor. -/
def CursorOp.run (tokens : List Token) (cursor : ℕ) : CursorOp → Reading ℕ
  | .take => do
    let (_, cursor) ← Indexed.take tokens cursor
    pure cursor
  | .takeIf kind => do
    let (_, cursor) ← Indexed.takeIf kind tokens cursor
    pure cursor
  | .expect kind message => Indexed.expect kind message tokens cursor

def runOps (tokens : List Token) : List CursorOp → ℕ → Reading ℕ
  | [], cursor => pure cursor
  | op :: ops, cursor => do
    let cursor ← op.run tokens cursor
    runOps tokens ops cursor

/-- The cursor stays on the tokens, and the outcome is no panic. -/
def Stays (tokens : List Token) (m : Reading ℕ) : Prop :=
  (∀ c ∈ m.visited, c < tokens.length) ∧
    ((∃ c, m.result = .ok c ∧ c < tokens.length) ∨ ∃ e, m.result = .error (.error e))

theorem op_stays {tokens : List Token} (h : Ended tokens) {cursor : ℕ} (hc : cursor < tokens.length)
    (op : CursorOp) : Stays tokens (op.run tokens cursor) := by
  have ht : tokens[cursor]? = some tokens[cursor] := List.getElem?_eq_getElem hc
  generalize tokens[cursor] = token at ht
  have hnext := next_lt h ht
  have hone : ∀ c ∈ [cursor], c < tokens.length := by
    intro c hmem
    rw [List.mem_singleton.mp hmem]
    exact hc
  have htwo : token.kind ≠ .end → ∀ c ∈ [cursor, cursor + 1], c < tokens.length := by
    intro hkind c hmem
    rcases List.mem_pair.mp hmem with rfl | rfl
    · exact hc
    · exact hnext hkind
  cases op with
  | take =>
    rw [CursorOp.run, take_eq ht]
    by_cases hend : token.kind = .end
    · rw [if_pos hend, bind_of_ok rfl]
      exact ⟨hone, .inl ⟨cursor, rfl, hc⟩⟩
    · rw [if_neg hend, bind_of_ok rfl]
      exact ⟨htwo hend, .inl ⟨cursor + 1, rfl, hnext hend⟩⟩
  | takeIf kind =>
    rw [CursorOp.run, takeIf_eq ht]
    by_cases hkind : token.kind = kind.1
    · have hne : token.kind ≠ .end := by
        rw [hkind]
        exact kind.2
      rw [if_pos hkind, bind_of_ok rfl]
      exact ⟨htwo hne, .inl ⟨cursor + 1, rfl, hnext hne⟩⟩
    · rw [if_neg hkind, bind_of_ok rfl]
      exact ⟨hone, .inl ⟨cursor, rfl, hc⟩⟩
  | expect kind message =>
    rw [CursorOp.run, expect_eq ht]
    by_cases hkind : token.kind = kind.1
    · have hne : token.kind ≠ .end := by
        rw [hkind]
        exact kind.2
      rw [if_pos hkind]
      exact ⟨htwo hne, .inl ⟨cursor + 1, rfl, hnext hne⟩⟩
    · rw [if_neg hkind]
      exact ⟨by simpa using hc, .inr ⟨_, rfl⟩⟩

/-- **Any sequence** of `take`, `take_if` and `expect` keeps the cursor on the tokens. -/
theorem ops_stay {tokens : List Token} (h : Ended tokens) (ops : List CursorOp) {cursor : ℕ}
    (hc : cursor < tokens.length) : Stays tokens (runOps tokens ops cursor) := by
  induction ops generalizing cursor with
  | nil => exact ⟨by simp [runOps, pure], .inl ⟨cursor, rfl, hc⟩⟩
  | cons op ops ih =>
    obtain ⟨hvisited, hresult⟩ := op_stays h hc op
    rw [runOps]
    rcases hresult with ⟨next, hok, hnext⟩ | ⟨e, herror⟩
    · obtain ⟨hmore, houtcome⟩ := ih hnext
      rw [bind_of_ok hok]
      refine ⟨?_, houtcome⟩
      intro c hc
      rcases List.mem_append.mp hc with hc | hc
      · exact hvisited c hc
      · exact hmore c hc
    · rw [bind_of_error herror]
      exact ⟨hvisited, .inr ⟨e, rfl⟩⟩

/-! ### Operands -/

def parseValue (env : FilterEnv) (field : Field) (tokens : List Token) (cursor : ℕ) :
    Reading (Value × ℕ) := do
  let (token, cursor) ← take tokens cursor
  match field with
  | .clientIp =>
    match tokenValue token with
    | none => errorAt token.position "client.ip requires an IP address"
    | some value =>
      match env.parseIp value with
      | none => errorAt token.position s!"invalid IP address '{value}'"
      | some ip => pure (.ip ip, cursor)
  | .clientPort =>
    match token.kind with
    | .word value =>
      match parseU16 value with
      | none => errorAt token.position s!"invalid client port '{value}'"
      | some port => pure (.port port, cursor)
    | _ => errorAt token.position "client.port requires an integer"
  | .messageType | .messageText =>
    match token.kind with
    | .string value => pure (.text value, cursor)
    | _ => errorAt token.position s!"{field.name} requires a quoted string"
  | .messageDirection =>
    match token.kind with
    | .string value =>
      match parseDirection value with
      | none => errorAt token.position s!"invalid direction '{value}' (expected f2b or b2f)"
      | some direction => pure (.direction direction, cursor)
    | _ => errorAt token.position "message.direction requires a quoted string"

def parseString (error : String) (tokens : List Token) (cursor : ℕ) : Reading (String × ℕ) := do
  let (token, cursor) ← take tokens cursor
  match token.kind with
  | .string value => pure (value, cursor)
  | _ => errorAt token.position error

def requireTextField (field : Field) (position : ℕ) (operator : String) : Reading Unit :=
  if field.isText then pure ()
  else errorAt position s!"operator '{operator}' is not valid for '{field.name}'"

/-- The loop of `parse_set`. -/
def setLoop (env : FilterEnv) (field : Field) (tokens : List Token) :
    ℕ → List Value → ℕ → Reading (List Value × ℕ)
  | 0, _, _ => .fail .fuel
  | n + 1, values, cursor => do
    let (value, cursor) ← parseValue env field tokens cursor
    let (taken, cursor) ← takeIf .comma tokens cursor
    if taken then
      let token ← peek tokens cursor
      if token.kind = .rightBrace then errorHere "expected a value after ','" tokens cursor
      else setLoop env field tokens n (values ++ [value]) cursor
    else
      let cursor ← expect .rightBrace "expected ',' or '\x7d' in set" tokens cursor
      pure (values ++ [value], cursor)

def parseSet (env : FilterEnv) (field : Field) (tokens : List Token) (cursor : ℕ) :
    Reading (List Value × ℕ) := do
  let cursor ← expect .leftBrace "expected '\x7b' after 'in'" tokens cursor
  let token ← peek tokens cursor
  if token.kind = .rightBrace then errorHere "set cannot be empty" tokens cursor
  else setLoop env field tokens (tokens.length - cursor) [] cursor

/-- The comparison behind a field and its operator. -/
def parseComparison (env : FilterEnv) (field : Field) (operator : Token) (tokens : List Token)
    (cursor : ℕ) : Reading (Comparison × ℕ) :=
  match operator.kind with
  | .equal => do
    let (value, cursor) ← parseValue env field tokens cursor
    pure (.equal value, cursor)
  | .notEqual => do
    let (value, cursor) ← parseValue env field tokens cursor
    pure (.notEqual value, cursor)
  | .contains => do
    requireTextField field operator.position "contains"
    let (needle, cursor) ← parseString "contains requires a quoted string" tokens cursor
    pure (.contains needle, cursor)
  | .matches => do
    requireTextField field operator.position "matches"
    let token ← peek tokens cursor
    let (pattern, cursor) ← parseString "matches requires a quoted string" tokens cursor
    match env.regexError pattern with
    | some error => errorAt token.position s!"invalid regex: {error}"
    | none => pure (.matches pattern, cursor)
  | .in => do
    let (values, cursor) ← parseSet env field tokens cursor
    pure (.in values, cursor)
  | _ => errorAt operator.position
      s!"expected an operator after '{field.name}' (==, !=, contains, matches, or in)"

def parsePredicate (env : FilterEnv) (tokens : List Token) (cursor : ℕ) : Reading (Predicate × ℕ) := do
  let (fieldToken, cursor) ← take tokens cursor
  match fieldToken.kind with
  | .word fieldName =>
    match Field.parse fieldName with
    | none => errorAt fieldToken.position s!"unknown filter field '{fieldName}'"
    | some field =>
      let (operator, cursor) ← take tokens cursor
      let (comparison, cursor) ← parseComparison env field operator tokens cursor
      pure (⟨field, comparison⟩, cursor)
  | _ => errorAt fieldToken.position "expected a filter field"

/-! ### Boolean structure -/

mutual

def parseOr (env : FilterEnv) (tokens : List Token) : ℕ → ℕ → Reading (Expr × ℕ)
  | 0, _ => .fail .fuel
  | n + 1, cursor => do
    let (expression, cursor) ← parseAnd env tokens n cursor
    orLoop env tokens n expression cursor

/-- The loop of `parse_or`. -/
def orLoop (env : FilterEnv) (tokens : List Token) : ℕ → Expr → ℕ → Reading (Expr × ℕ)
  | 0, _, _ => .fail .fuel
  | n + 1, expression, cursor => do
    let (taken, cursor) ← takeIf .or tokens cursor
    if taken then
      let (right, cursor) ← parseAnd env tokens n cursor
      orLoop env tokens n (.or expression right) cursor
    else pure (expression, cursor)

def parseAnd (env : FilterEnv) (tokens : List Token) : ℕ → ℕ → Reading (Expr × ℕ)
  | 0, _ => .fail .fuel
  | n + 1, cursor => do
    let (expression, cursor) ← parseNot env tokens n cursor
    andLoop env tokens n expression cursor

/-- The loop of `parse_and`. -/
def andLoop (env : FilterEnv) (tokens : List Token) : ℕ → Expr → ℕ → Reading (Expr × ℕ)
  | 0, _, _ => .fail .fuel
  | n + 1, expression, cursor => do
    let (taken, cursor) ← takeIf .and tokens cursor
    if taken then
      let (right, cursor) ← parseNot env tokens n cursor
      andLoop env tokens n (.and expression right) cursor
    else pure (expression, cursor)

def parseNot (env : FilterEnv) (tokens : List Token) : ℕ → ℕ → Reading (Expr × ℕ)
  | 0, _ => .fail .fuel
  | n + 1, cursor => do
    let (taken, cursor) ← takeIf .not tokens cursor
    if taken then
      let (inner, cursor) ← parseNot env tokens n cursor
      pure (.not inner, cursor)
    else parsePrimary env tokens n cursor

def parsePrimary (env : FilterEnv) (tokens : List Token) : ℕ → ℕ → Reading (Expr × ℕ)
  | 0, _ => .fail .fuel
  | n + 1, cursor => do
    let (taken, cursor) ← takeIf .leftParen tokens cursor
    if taken then
      let (expression, cursor) ← parseOr env tokens n cursor
      let cursor ← expect .rightParen "expected ')'" tokens cursor
      pure (expression, cursor)
    else
      let (p, cursor) ← parsePredicate env tokens cursor
      pure (.predicate p, cursor)

end

def parse (env : FilterEnv) (tokens : List Token) : Reading Expr := do
  let (expression, cursor) ← parseOr env tokens (parserFuel tokens) 0
  let token ← peek tokens cursor
  if token.kind = .end then pure expression
  else errorHere "expected a boolean operator or end of expression" tokens cursor

end Tapgres.Filter.Indexed
