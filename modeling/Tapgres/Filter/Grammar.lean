import Tapgres.Filter.Parser

/-!
# The grammar of display filters

What the filter language is, apart from any parser: which token lists are filters, and what each says
of a message.

* or := and (Or and)*, and := not (And not)*, not := Not not | primary, primary := '(' or ')' | predicate;
* a predicate is a field, an operator and an operand that fits both;
* the meaning is a property of messages: disjunction, conjunction and negation as written, `!=` the
  negation of `==`, and `in` the disjunction of `==` over the set.
-/

namespace Tapgres.Filter

open Tapgres.Net

/-- What a filter says of a message. -/
abbrev Meaning := DisplayMessage → Prop

/-! ### Operands -/

/-- The value of the field's type that a token stands for. -/
def valueOf (env : FilterEnv) (field : Field) (kind : TokenKind) : Option Value :=
  match field, kind with
  | .clientIp, .word value | .clientIp, .string value => (env.parseIp value).map .ip
  | .clientPort, .word value => (parseU16 value).map .port
  | .messageType, .string value | .messageText, .string value => some (.text value)
  | .messageDirection, .string value => (parseDirection value).map .direction
  | _, _ => none

/-- Values of the field's type, separated by commas: at least one, and no comma behind the last. -/
inductive IsList (env : FilterEnv) (field : Field) : List TokenKind → List Value → Prop where
  | one {kind : TokenKind} {value : Value} (h : valueOf env field kind = some value) :
      IsList env field [kind] [value]
  | more {kind : TokenKind} {value : Value} {kinds : List TokenKind} {values : List Value}
      (h : valueOf env field kind = some value) (hs : IsList env field kinds values) :
      IsList env field (kind :: .comma :: kinds) (value :: values)

/-- Field, operator and operand. -/
inductive IsPredicate (env : FilterEnv) : List TokenKind → Meaning → Prop where
  | equal {field : Field} {kind : TokenKind} {value : Value} (h : valueOf env field kind = some value) :
      IsPredicate env [.word field.name, .equal, kind] fun m => field.value m = value
  | notEqual {field : Field} {kind : TokenKind} {value : Value}
      (h : valueOf env field kind = some value) :
      IsPredicate env [.word field.name, .notEqual, kind] fun m => ¬field.value m = value
  | in {field : Field} {kinds : List TokenKind} {values : List Value}
      (h : IsList env field kinds values) :
      IsPredicate env (.word field.name :: .in :: .leftBrace :: kinds ++ [.rightBrace])
        fun m => ∃ value ∈ values, field.value m = value
  | contains {field : Field} (needle : String) (h : field.isText = true) :
      IsPredicate env [.word field.name, .contains, .string needle]
        fun m => ∃ text, field.text m = some text ∧ needle.toList <:+: text.toList
  | matches {field : Field} {pattern : String} (h : field.isText = true)
      (hcompiles : env.regexError pattern = none) :
      IsPredicate env [.word field.name, .matches, .string pattern]
        fun m => ∃ text, field.text m = some text ∧ env.regexIsMatch pattern text = true

/-! ### Boolean structure -/

/-- The nonterminals; the two tails are the starred parts of `or` and `and`. -/
inductive Symbol where
  | or
  | orTail
  | and
  | andTail
  | not
  | primary
  deriving DecidableEq, Repr

/-- **The grammar**, with the meaning of every derivation. -/
inductive Derives (env : FilterEnv) : Symbol → List TokenKind → Meaning → Prop where
  | or {u v : List TokenKind} {p q : Meaning} (first : Derives env .and u p)
      (tail : Derives env .orTail v q) : Derives env .or (u ++ v) fun m => p m ∨ q m
  | orNil : Derives env .orTail [] fun _ => False
  | orMore {u v : List TokenKind} {p q : Meaning} (next : Derives env .and u p)
      (tail : Derives env .orTail v q) : Derives env .orTail (.or :: u ++ v) fun m => p m ∨ q m
  | and {u v : List TokenKind} {p q : Meaning} (first : Derives env .not u p)
      (tail : Derives env .andTail v q) : Derives env .and (u ++ v) fun m => p m ∧ q m
  | andNil : Derives env .andTail [] fun _ => True
  | andMore {u v : List TokenKind} {p q : Meaning} (next : Derives env .not u p)
      (tail : Derives env .andTail v q) : Derives env .andTail (.and :: u ++ v) fun m => p m ∧ q m
  | negated {u : List TokenKind} {p : Meaning} (inner : Derives env .not u p) :
      Derives env .not (.not :: u) fun m => ¬p m
  | plain {u : List TokenKind} {p : Meaning} (inner : Derives env .primary u p) : Derives env .not u p
  | parens {u : List TokenKind} {p : Meaning} (inner : Derives env .or u p) :
      Derives env .primary (.leftParen :: u ++ [.rightParen]) p
  | predicate {u : List TokenKind} {p : Meaning} (h : IsPredicate env u p) : Derives env .primary u p

/-- The token list is a filter with this meaning: an or-expression followed by the end. -/
def IsFilter (env : FilterEnv) (tokens : List Token) (p : Meaning) : Prop :=
  ∃ u, tokens.map Token.kind = u ++ [.end] ∧ Derives env .or u p

end Tapgres.Filter
