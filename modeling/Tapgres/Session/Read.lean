import Tapgres.Lib.Utf8
import Tapgres.Session.Record

/-!
# Reading a saved session

The three readers of a session file.  A file is what opening it gives: an I/O error, or its lines, each
of which may fail to be read.

* `readWith_eq` — a consumer is fed the records of the lines before the first bad one, in order;
* `readAll_eq_ok`, `readTail_eq` — on a valid file the whole reader returns every record, and the
  bounded reader the newest of them with the number it dropped.
-/

namespace Tapgres.Session

open Tapgres.Decode Tapgres.Lib

abbrev SessionFile := Except String (List (Except String String))

/-- `line.trim().is_empty()` -/
def isBlank (line : String) : Bool := line.toList.all Utf8.isWhitespace

/-- One line that was read: a record, or nothing on a blank line. -/
def readLine (env : SessionEnv) (path : String) (lineNumber : ℕ) (line : String) :
    Except SessionError (Option Output) :=
  if isBlank line then .ok none
  else
    match env.fromStr line with
    | .error source => .error (.invalidRecord path lineNumber source)
    | .ok value =>
      match (env.schemaVersionOf value).filter (· < 2 ^ 32) with
      | none =>
        .error (.invalidRecord path lineNumber "schema_version must be an unsigned 32-bit integer")
      | some found =>
        if found ≠ schemaVersion then .error (.unsupportedSchema path lineNumber found)
        else
          match env.fromValue value with
          | .error source => .error (.invalidRecord path lineNumber source)
          | .ok record => (record.intoOutput env path lineNumber).map some

/-- The loop of `read_with`; the consumer is a function on its own state. -/
def readLines {σ : Type} (env : SessionEnv) (path : String) (consume : σ → Output → σ) :
    ℕ → σ → List (Except String String) → σ × Except SessionError Unit
  | _, s, [] => (s, .ok ())
  | index, s, line :: lines =>
    match line with
    | .error source => (s, .error (.io path source))
    | .ok line =>
      match readLine env path (index + 1) line with
      | .error e => (s, .error e)
      | .ok none => readLines env path consume (index + 1) s lines
      | .ok (some output) => readLines env path consume (index + 1) (consume s output) lines

def readWith {σ : Type} (env : SessionEnv) (path : String) (file : SessionFile)
    (consume : σ → Output → σ) (s : σ) : σ × Except SessionError Unit :=
  match file with
  | .error source => (s, .error (.io path source))
  | .ok lines => readLines env path consume 0 s lines

def readAll (env : SessionEnv) (path : String) (file : SessionFile) :
    Except SessionError (List Output) :=
  match readWith env path file (fun outputs output => outputs ++ [output]) [] with
  | (outputs, .ok _) => .ok outputs
  | (_, .error e) => .error e

/-- The consumer of `read_tail`: the newest records, at most `cap`, and how many went before them. -/
def keepTail (cap : ℕ) (s : List Output × ℕ) (output : Output) : List Output × ℕ :=
  let (outputs, dropped) := s
  if cap = 0 then (outputs, dropped + 1)
  else if outputs.length = cap then (outputs.tail ++ [output], dropped + 1)
  else (outputs ++ [output], dropped)

def readTail (env : SessionEnv) (path : String) (file : SessionFile) (cap : ℕ) :
    Except SessionError (List Output × ℕ) :=
  match readWith env path file (keepTail cap) ([], 0) with
  | (s, .ok _) => .ok s
  | (_, .error e) => .error e

/-! ### What the readers return -/

/-- The records of the lines before the first bad one, and how the reading ends. -/
def records (env : SessionEnv) (path : String) :
    ℕ → List (Except String String) → List Output × Except SessionError Unit
  | _, [] => ([], .ok ())
  | index, line :: lines =>
    match line with
    | .error source => ([], .error (.io path source))
    | .ok line =>
      match readLine env path (index + 1) line with
      | .error e => ([], .error e)
      | .ok none => records env path (index + 1) lines
      | .ok (some output) =>
        (output :: (records env path (index + 1) lines).1, (records env path (index + 1) lines).2)

def fileRecords (env : SessionEnv) (path : String) (file : SessionFile) :
    List Output × Except SessionError Unit :=
  match file with
  | .error source => ([], .error (.io path source))
  | .ok lines => records env path 0 lines

variable {env : SessionEnv} {path : String}

theorem readLines_eq {σ : Type} (consume : σ → Output → σ) (index : ℕ) (s : σ)
    (lines : List (Except String String)) :
    readLines env path consume index s lines
      = ((records env path index lines).1.foldl consume s, (records env path index lines).2) := by
  induction lines generalizing index s with
  | nil => rfl
  | cons line lines ih =>
    cases line with
    | error source => rfl
    | ok line =>
      rw [readLines, records]
      cases readLine env path (index + 1) line with
      | error e => rfl
      | ok output =>
        cases output with
        | none => exact ih (index + 1) s
        | some output => exact ih (index + 1) (consume s output)

/-- **A consumer is fed the records before the first bad line, in order.** -/
theorem readWith_eq {σ : Type} (file : SessionFile) (consume : σ → Output → σ) (s : σ) :
    readWith env path file consume s
      = ((fileRecords env path file).1.foldl consume s, (fileRecords env path file).2) := by
  cases file with
  | error source => rfl
  | ok lines => exact readLines_eq consume 0 s lines

theorem foldl_snoc {α : Type} (l acc : List α) :
    l.foldl (fun outputs output => outputs ++ [output]) acc = acc ++ l := by
  induction l generalizing acc with
  | nil => simp
  | cons x l ih => simp [ih]

theorem readAll_eq_ok {file : SessionFile} {outputs : List Output} :
    readAll env path file = .ok outputs ↔ fileRecords env path file = (outputs, .ok ()) := by
  rw [readAll, readWith_eq, foldl_snoc, List.nil_append]
  obtain ⟨rs, result⟩ := fileRecords env path file
  cases result <;> simp

/-- The bounded consumer keeps the newest records. -/
theorem foldl_keepTail (cap : ℕ) (l : List Output) :
    l.foldl (keepTail cap) ([], 0) = (l.drop (l.length - cap), l.length - cap) := by
  induction l using List.reverseRecOn with
  | nil => simp
  | append_singleton l x ih =>
    rw [List.foldl_append, ih, List.foldl_cons, List.foldl_nil, keepTail, List.length_append,
      List.length_singleton]
    have hlen : (l.drop (l.length - cap)).length = l.length - (l.length - cap) := List.length_drop
    by_cases hcap : cap = 0
    · subst hcap
      simp
    by_cases hfull : cap ≤ l.length
    · have hdrop : l.length + 1 - cap = (l.length - cap) + 1 := by omega
      rw [if_neg hcap, if_pos (by omega), List.tail_drop, hdrop,
        List.drop_append_of_le_length (by omega)]
    · rw [if_neg hcap, if_neg (by omega), show l.length - cap = 0 by omega,
        show l.length + 1 - cap = 0 by omega, List.drop_zero, List.drop_zero]

/-- **On a valid file the bounded reader returns its newest records.** -/
theorem readTail_eq {file : SessionFile} {outputs : List Output}
    (h : readAll env path file = .ok outputs) (cap : ℕ) :
    readTail env path file cap
      = .ok (outputs.drop (outputs.length - cap), outputs.length - cap) := by
  rw [readTail, readWith_eq, readAll_eq_ok.mp h, foldl_keepTail]

end Tapgres.Session
