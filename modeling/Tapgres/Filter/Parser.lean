import Tapgres.Filter.Syntax

/-!
# The display filter parser

The recursive descent over the tokens of a filter, as the code has it.  The parser's cursor is the list
of tokens still to be read; `peek` on an empty list is the indexing past the last token at which the
code would panic.  Recursion and loops run on fuel, and `parse` gives them enough (`parse_answers`).
-/

namespace Tapgres.Filter

open Tapgres.Net

inductive TokenKind where
  | word (value : String)
  | string (value : String)
  | equal
  | notEqual
  | contains
  | matches
  | in
  | and
  | or
  | not
  | leftParen
  | rightParen
  | leftBrace
  | rightBrace
  | comma
  | end
  deriving DecidableEq, Repr

structure Token where
  kind : TokenKind
  position : ℕ
  deriving DecidableEq, Repr

structure FilterParseError where
  message : String
  position : ℕ
  deriving DecidableEq, Repr

/-- The `Display` of a parse error. -/
def FilterParseError.display (error : FilterParseError) : String :=
  error.message ++ " at byte " ++ toString error.position

/-- Why a parse stops without a result. -/
inductive Stop where
  | error (e : FilterParseError)
  | panic
  | fuel
  deriving DecidableEq, Repr

/-! ### Reading tokens -/

def peek : List Token → Except Stop Token
  | [] => .error .panic
  | token :: _ => .ok token

def errorAt {α : Type} (position : ℕ) (message : String) : Except Stop α :=
  .error (.error ⟨message, position⟩)

def errorHere {α : Type} (message : String) (ts : List Token) : Except Stop α := do
  let token ← peek ts
  errorAt token.position message

/-- The next token; the cursor stays in front of the last one. -/
def take (ts : List Token) : Except Stop (Token × List Token) := do
  let token ← peek ts
  pure (token, if token.kind = .end then ts else ts.tail)

def takeIf (kind : TokenKind) (ts : List Token) : Except Stop (Bool × List Token) := do
  let token ← peek ts
  pure (if token.kind = kind then (true, ts.tail) else (false, ts))

def expect (kind : TokenKind) (message : String) (ts : List Token) : Except Stop (List Token) := do
  let token ← peek ts
  if token.kind = kind then pure ts.tail else errorHere message ts

/-! ### Values -/

def tokenValue (token : Token) : Option String :=
  match token.kind with
  | .word value | .string value => some value
  | _ => none

/-- `eq_ignore_ascii_case` -/
def eqIgnoreAsciiCase (a b : String) : Bool :=
  a.toList.map Char.toLower == b.toList.map Char.toLower

def parseDirection (value : String) : Option MessageDirection :=
  if eqIgnoreAsciiCase value "f2b" || value == "F→B" then some .frontendToBackend
  else if eqIgnoreAsciiCase value "b2f" || value == "B→F" then some .backendToFrontend
  else none

/-- The number written by decimal digits. -/
def digitsValue (digits : List Char) : ℕ :=
  digits.foldl (fun n c => 10 * n + (c.toNat - '0'.toNat)) 0

/-- `u16::from_str`: digits, at least one, with an optional sign. -/
def parseU16 (value : String) : Option UInt16 :=
  let digits := match value.toList with
    | '+' :: digits => digits
    | digits => digits
  if digits ≠ [] ∧ digits.all Char.isDigit ∧ digitsValue digits < 2 ^ 16
  then some (UInt16.ofNat (digitsValue digits)) else none

def parseValue (env : FilterEnv) (field : Field) (ts : List Token) : Except Stop (Value × List Token) := do
  let (token, ts) ← take ts
  match field with
  | .clientIp =>
    match tokenValue token with
    | none => errorAt token.position "client.ip requires an IP address"
    | some value =>
      match env.parseIp value with
      | none => errorAt token.position s!"invalid IP address '{value}'"
      | some ip => pure (.ip ip, ts)
  | .clientPort =>
    match token.kind with
    | .word value =>
      match parseU16 value with
      | none => errorAt token.position s!"invalid client port '{value}'"
      | some port => pure (.port port, ts)
    | _ => errorAt token.position "client.port requires an integer"
  | .messageType | .messageText =>
    match token.kind with
    | .string value => pure (.text value, ts)
    | _ => errorAt token.position s!"{field.name} requires a quoted string"
  | .messageDirection =>
    match token.kind with
    | .string value =>
      match parseDirection value with
      | none => errorAt token.position s!"invalid direction '{value}' (expected f2b or b2f)"
      | some direction => pure (.direction direction, ts)
    | _ => errorAt token.position "message.direction requires a quoted string"

def parseString (error : String) (ts : List Token) : Except Stop (String × List Token) := do
  let (token, ts) ← take ts
  match token.kind with
  | .string value => pure (value, ts)
  | _ => errorAt token.position error

def requireTextField (field : Field) (position : ℕ) (operator : String) : Except Stop Unit :=
  if field.isText then pure ()
  else errorAt position s!"operator '{operator}' is not valid for '{field.name}'"

/-- The loop of `parse_set`: a value, then a comma and another, or the closing brace. -/
def setLoop (env : FilterEnv) (field : Field) :
    ℕ → List Value → List Token → Except Stop (List Value × List Token)
  | 0, _, _ => .error .fuel
  | n + 1, values, ts => do
    let (value, ts) ← parseValue env field ts
    let (taken, ts) ← takeIf .comma ts
    if taken then
      let token ← peek ts
      if token.kind = .rightBrace then errorHere "expected a value after ','" ts
      else setLoop env field n (values ++ [value]) ts
    else
      let ts ← expect .rightBrace "expected ',' or '\x7d' in set" ts
      pure (values ++ [value], ts)

def parseSet (env : FilterEnv) (field : Field) (ts : List Token) : Except Stop (List Value × List Token) := do
  let ts ← expect .leftBrace "expected '\x7b' after 'in'" ts
  let token ← peek ts
  if token.kind = .rightBrace then errorHere "set cannot be empty" ts
  else setLoop env field ts.length [] ts

/-- The comparison behind a field and its operator. -/
def parseComparison (env : FilterEnv) (field : Field) (operator : Token) (ts : List Token) :
    Except Stop (Comparison × List Token) :=
  match operator.kind with
  | .equal => do
    let (value, ts) ← parseValue env field ts
    pure (.equal value, ts)
  | .notEqual => do
    let (value, ts) ← parseValue env field ts
    pure (.notEqual value, ts)
  | .contains => do
    requireTextField field operator.position "contains"
    let (needle, ts) ← parseString "contains requires a quoted string" ts
    pure (.contains needle, ts)
  | .matches => do
    requireTextField field operator.position "matches"
    let token ← peek ts
    let (pattern, ts) ← parseString "matches requires a quoted string" ts
    match env.regexError pattern with
    | some error => errorAt token.position s!"invalid regex: {error}"
    | none => pure (.matches pattern, ts)
  | .in => do
    let (values, ts) ← parseSet env field ts
    pure (.in values, ts)
  | _ => errorAt operator.position
      s!"expected an operator after '{field.name}' (==, !=, contains, matches, or in)"

def parsePredicate (env : FilterEnv) (ts : List Token) : Except Stop (Predicate × List Token) := do
  let (fieldToken, ts) ← take ts
  match fieldToken.kind with
  | .word fieldName =>
    match Field.parse fieldName with
    | none => errorAt fieldToken.position s!"unknown filter field '{fieldName}'"
    | some field =>
      let (operator, ts) ← take ts
      let (comparison, ts) ← parseComparison env field operator ts
      pure (⟨field, comparison⟩, ts)
  | _ => errorAt fieldToken.position "expected a filter field"

/-! ### Boolean structure -/

mutual

def parseOr (env : FilterEnv) : ℕ → List Token → Except Stop (Expr × List Token)
  | 0, _ => .error .fuel
  | n + 1, ts => do
    let (expression, ts) ← parseAnd env n ts
    orLoop env n expression ts

/-- The loop of `parse_or`. -/
def orLoop (env : FilterEnv) : ℕ → Expr → List Token → Except Stop (Expr × List Token)
  | 0, _, _ => .error .fuel
  | n + 1, expression, ts => do
    let (taken, ts) ← takeIf .or ts
    if taken then
      let (right, ts) ← parseAnd env n ts
      orLoop env n (.or expression right) ts
    else pure (expression, ts)

def parseAnd (env : FilterEnv) : ℕ → List Token → Except Stop (Expr × List Token)
  | 0, _ => .error .fuel
  | n + 1, ts => do
    let (expression, ts) ← parseNot env n ts
    andLoop env n expression ts

/-- The loop of `parse_and`. -/
def andLoop (env : FilterEnv) : ℕ → Expr → List Token → Except Stop (Expr × List Token)
  | 0, _, _ => .error .fuel
  | n + 1, expression, ts => do
    let (taken, ts) ← takeIf .and ts
    if taken then
      let (right, ts) ← parseNot env n ts
      andLoop env n (.and expression right) ts
    else pure (expression, ts)

def parseNot (env : FilterEnv) : ℕ → List Token → Except Stop (Expr × List Token)
  | 0, _ => .error .fuel
  | n + 1, ts => do
    let (taken, ts) ← takeIf .not ts
    if taken then
      let (inner, ts) ← parseNot env n ts
      pure (.not inner, ts)
    else parsePrimary env n ts

def parsePrimary (env : FilterEnv) : ℕ → List Token → Except Stop (Expr × List Token)
  | 0, _ => .error .fuel
  | n + 1, ts => do
    let (taken, ts) ← takeIf .leftParen ts
    if taken then
      let (expression, ts) ← parseOr env n ts
      let ts ← expect .rightParen "expected ')'" ts
      pure (expression, ts)
    else
      let (p, ts) ← parsePredicate env ts
      pure (.predicate p, ts)

end

/-- Each token costs at most four calls, and so does the end of the list. -/
def parserFuel (tokens : List Token) : ℕ := 4 * tokens.length + 4

def parse (env : FilterEnv) (tokens : List Token) : Except Stop Expr := do
  let (expression, ts) ← parseOr env (parserFuel tokens) tokens
  let token ← peek ts
  if token.kind = .end then pure expression
  else errorHere "expected a boolean operator or end of expression" ts

/-- The filter of an expression's tokens. -/
def DisplayFilter.ofTokens (env : FilterEnv) (expression : String) (tokens : List Token) :
    Except Stop DisplayFilter := do
  let root ← parse env tokens
  pure ⟨expression, some root⟩

end Tapgres.Filter
