import Tapgres.Filter.Message
import Tapgres.Lib.Utf8

/-!
# Display filters

The typed expression a display filter is parsed into, and its evaluation on a message.  IP addresses
and regular expressions come from libraries: `FilterEnv` holds what the filter uses of them, and a
compiled regex is represented by the pattern it was built from.

* `equals_iff` — `==` compares the field's own value;
* `text_contains_iff` — `contains` is the occurrence of the needle;
* `predicate_matches_iff` — what a predicate says of a message.
-/

namespace Tapgres.Filter

open Tapgres.Net
open Tapgres.Lib

/-- What the filter language takes from elsewhere. -/
structure FilterEnv where
  /-- `IpAddr::from_str` -/
  parseIp : String → Option IpAddr
  /-- What building the case-insensitive regex of a pattern fails with; `none` where it compiles. -/
  regexError : String → Option String
  /-- `is_match` of the regex built from a pattern. -/
  regexIsMatch : String → String → Bool

inductive Field where
  | clientIp
  | clientPort
  | messageType
  | messageText
  | messageDirection
  deriving DecidableEq, Repr

def Field.parse (value : String) : Option Field :=
  match value with
  | "client.ip" => some .clientIp
  | "client.port" => some .clientPort
  | "message.type" => some .messageType
  | "message.text" => some .messageText
  | "message.direction" => some .messageDirection
  | _ => none

def Field.name : Field → String
  | .clientIp => "client.ip"
  | .clientPort => "client.port"
  | .messageType => "message.type"
  | .messageText => "message.text"
  | .messageDirection => "message.direction"

def Field.isText : Field → Bool
  | .messageType | .messageText => true
  | _ => false

inductive Value where
  | ip (expected : IpAddr)
  | port (expected : UInt16)
  | text (expected : String)
  | direction (expected : MessageDirection)
  deriving DecidableEq, Repr

def Field.equals (field : Field) (value : Value) (message : DisplayMessage) : Bool :=
  match field, value with
  | .clientIp, .ip expected => message.client.ip == expected
  | .clientPort, .port expected => message.client.port == expected
  | .messageType, .text expected => message.kind == expected
  | .messageText, .text expected => message.text == expected
  | .messageDirection, .direction expected => message.direction == expected
  | _, _ => false

def Field.text (field : Field) (message : DisplayMessage) : Option String :=
  match field with
  | .messageType => some message.kind
  | .messageText => some message.text
  | _ => none

inductive Comparison where
  | equal (value : Value)
  | notEqual (value : Value)
  | contains (needle : String)
  | matches (pattern : String)
  | in (values : List Value)
  deriving DecidableEq, Repr

structure Predicate where
  field : Field
  comparison : Comparison
  deriving DecidableEq, Repr

/-- `value.contains(needle)` -/
def strContains (value needle : String) : Bool := (Utf8.find needle.toList value.toList).isSome

def Predicate.matches (env : FilterEnv) (predicate : Predicate) (message : DisplayMessage) : Bool :=
  match predicate.comparison with
  | .equal value => predicate.field.equals value message
  | .notEqual value => !predicate.field.equals value message
  | .contains needle => (predicate.field.text message).any fun value => strContains value needle
  | .matches pattern => (predicate.field.text message).any fun value => env.regexIsMatch pattern value
  | .in values => values.any fun value => predicate.field.equals value message

inductive Expr where
  | predicate (p : Predicate)
  | and (left right : Expr)
  | or (left right : Expr)
  | not (inner : Expr)
  deriving DecidableEq, Repr

def Expr.matches (env : FilterEnv) : Expr → DisplayMessage → Bool
  | .predicate p, message => p.matches env message
  | .and left right, message => left.matches env message && right.matches env message
  | .or left right, message => left.matches env message || right.matches env message
  | .not inner, message => !inner.matches env message

/-- A parsed display filter; without a root it lets every message through. -/
structure DisplayFilter where
  expression : String := ""
  root : Option Expr := none
  deriving DecidableEq, Repr

def DisplayFilter.isEmpty (filter : DisplayFilter) : Bool := filter.root.isNone

def DisplayFilter.matches (env : FilterEnv) (filter : DisplayFilter) (message : DisplayMessage) : Bool :=
  match filter.root with
  | none => true
  | some expression => expression.matches env message

/-! ### What a comparison compares -/

/-- The value a message has in a field. -/
def Field.value (field : Field) (message : DisplayMessage) : Value :=
  match field with
  | .clientIp => .ip message.client.ip
  | .clientPort => .port message.client.port
  | .messageType => .text message.kind
  | .messageText => .text message.text
  | .messageDirection => .direction message.direction

/-- `equals` compares the field's own value, and is false on a value of another type. -/
theorem equals_iff (field : Field) (value : Value) (message : DisplayMessage) :
    field.equals value message = true ↔ field.value message = value := by
  cases field <;> cases value <;> simp [Field.equals, Field.value]

theorem text_contains_iff (value needle : String) :
    strContains value needle = true ↔ needle.toList <:+: value.toList := by
  rw [strContains, Option.isSome_iff_ne_none, ne_eq, Utf8.find_eq_none, not_not]

/-- What a predicate says of a message. -/
def Predicate.Says (env : FilterEnv) (predicate : Predicate) (message : DisplayMessage) : Prop :=
  match predicate.comparison with
  | .equal value => predicate.field.value message = value
  | .notEqual value => ¬predicate.field.value message = value
  | .contains needle =>
    ∃ text, predicate.field.text message = some text ∧ needle.toList <:+: text.toList
  | .matches pattern =>
    ∃ text, predicate.field.text message = some text ∧ env.regexIsMatch pattern text = true
  | .in values => ∃ value ∈ values, predicate.field.value message = value

theorem predicate_matches_iff (env : FilterEnv) (predicate : Predicate) (message : DisplayMessage) :
    predicate.matches env message = true ↔ predicate.Says env message := by
  obtain ⟨field, comparison⟩ := predicate
  cases comparison with
  | equal value => exact equals_iff field value message
  | notEqual value => simp [Predicate.matches, Predicate.Says, ← equals_iff]
  | contains needle => simp [Predicate.matches, Predicate.Says, Option.any_eq_true, text_contains_iff]
  | «matches» pattern => simp [Predicate.matches, Predicate.Says, Option.any_eq_true]
  | «in» values => simp [Predicate.matches, Predicate.Says, equals_iff]

theorem field_parse_name (field : Field) : Field.parse field.name = some field := by
  cases field <;> rfl

theorem field_parse_eq_some {value : String} {field : Field} :
    Field.parse value = some field ↔ value = field.name := by
  constructor
  · intro h
    unfold Field.parse at h
    split at h <;> cases h <;> rfl
  · rintro rfl
    exact field_parse_name field

end Tapgres.Filter
