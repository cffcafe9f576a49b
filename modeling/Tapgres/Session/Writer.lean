import Tapgres.Lib.Run
import Tapgres.Session.Record

/-!
# The session recorder

The JSONL writer, and how both consumers of output records use it: each record is written until the
first failure, which takes the writer away.  A writer is the list of what has been written; whether a
write fails is the file system's choice (`WriteFaults`).

* `handed_prefix` — what a recorder is handed is a prefix of what arrives;
* `handed_eq_iff` — it is handed everything exactly when no write but the last fails.
-/

namespace Tapgres.Session

open Tapgres.Decode Tapgres.Lib.Run

/-- The file at `path` holds one line for each output in `written`. -/
structure SessionWriter where
  path : String
  written : List Output
  deriving DecidableEq, Repr

/-- What the next write fails with, if it does. -/
abbrev WriteFaults := SessionWriter → Output → Option SessionError

def SessionWriter.create (path : String) : SessionWriter := ⟨path, []⟩

/-- A write that fails leaves the writer as it was.  On the disk some of its line may be left, which a
`LineWriter` had passed on; nothing is written behind it. -/
def SessionWriter.write (faults : WriteFaults) (writer : SessionWriter) (output : Output) :
    Except SessionError SessionWriter :=
  match faults writer output with
  | some error => .error error
  | none => .ok { writer with written := writer.written ++ [output] }

/-- Write to the recorder there is, and take it away if that fails. -/
def recordOutput (faults : WriteFaults) (recorder : Option SessionWriter) (output : Output) :
    Option SessionWriter × Option SessionError :=
  match recorder with
  | none => (none, none)
  | some writer =>
    match writer.write faults output with
    | .ok writer => (some writer, none)
    | .error error => (none, some error)

/-! ### What a recorder is handed -/

/-- One output record, with what it hands to the recorder. -/
def recordStep (faults : WriteFaults) (recorder : Option SessionWriter) (output : Output) :
    Option SessionWriter × List Output :=
  ((recordOutput faults recorder output).1, if recorder.isSome then [output] else [])

/-- The records handed to a recorder while `outputs` arrive. -/
def handed (faults : WriteFaults) (recorder : Option SessionWriter) (outputs : List Output) :
    List Output :=
  (run (recordStep faults) recorder outputs).2

/-- No write of these but the last fails. -/
def WritesAllButLast (faults : WriteFaults) (writer : SessionWriter) (outputs : List Output) : Prop :=
  ∀ pre output post, outputs = pre ++ output :: post → post ≠ [] →
    faults { writer with written := writer.written ++ pre } output = none

variable {faults : WriteFaults}

theorem handed_none (outputs : List Output) : handed faults none outputs = [] := by
  induction outputs with
  | nil => rfl
  | cons output outputs ih => exact ih

theorem handed_cons (writer : SessionWriter) (output : Output) (outputs : List Output) :
    handed faults (some writer) (output :: outputs)
      = output :: handed faults (recordOutput faults (some writer) output).1 outputs := rfl

theorem recordOutput_of_none {writer : SessionWriter} {output : Output}
    (h : faults writer output = none) :
    recordOutput faults (some writer) output
      = (some { writer with written := writer.written ++ [output] }, none) := by
  rw [recordOutput, SessionWriter.write, h]

theorem recordOutput_of_some {writer : SessionWriter} {output : Output} {error : SessionError}
    (h : faults writer output = some error) :
    recordOutput faults (some writer) output = (none, some error) := by
  rw [recordOutput, SessionWriter.write, h]

/-- A writer that has written outputs without a fault holds them all. -/
theorem foldlM_write {writer writer' : SessionWriter} {outputs : List Output}
    (h : outputs.foldlM (SessionWriter.write faults) writer = .ok writer') :
    writer' = { writer with written := writer.written ++ outputs } := by
  induction outputs generalizing writer with
  | nil =>
    cases h
    rw [List.append_nil]
  | cons output outputs ih =>
    rw [List.foldlM_cons, SessionWriter.write] at h
    cases hfault : faults writer output with
    | none =>
      rw [hfault] at h
      rw [ih h, List.append_assoc, List.singleton_append]
    | some error =>
      rw [hfault] at h
      cases h

/-- What a recorder is handed is a prefix of what arrives. -/
theorem handed_prefix (recorder : Option SessionWriter) (outputs : List Output) :
    handed faults recorder outputs <+: outputs := by
  induction outputs generalizing recorder with
  | nil => exact List.prefix_refl _
  | cons output outputs ih =>
    cases recorder with
    | none => exact ⟨output :: outputs, by rw [handed_none]; rfl⟩
    | some writer =>
      rw [handed_cons]
      exact List.cons_prefix_cons.mpr ⟨rfl, ih _⟩

theorem writesAllButLast_cons {writer : SessionWriter} {output : Output} {outputs : List Output} :
    WritesAllButLast faults writer (output :: outputs) ↔
      (outputs ≠ [] → faults writer output = none) ∧
        WritesAllButLast faults { writer with written := writer.written ++ [output] } outputs := by
  constructor
  · intro h
    refine ⟨fun hne => by simpa using h [] output outputs rfl hne, ?_⟩
    intro pre x post heq hne
    have hx := h (output :: pre) x post (by rw [heq]; rfl) hne
    simpa using hx
  · rintro ⟨hfirst, hrest⟩ pre x post heq hne
    cases pre with
    | nil =>
      obtain ⟨rfl, rfl⟩ := List.cons.inj heq
      simpa using hfirst hne
    | cons y pre =>
      obtain ⟨rfl, rfl⟩ := List.cons.inj heq
      have hx := hrest pre x post rfl hne
      simpa using hx

/-- **A recorder is handed everything exactly when no write but the last fails.** -/
theorem handed_eq_iff {writer : SessionWriter} {outputs : List Output} :
    handed faults (some writer) outputs = outputs ↔ WritesAllButLast faults writer outputs := by
  induction outputs generalizing writer with
  | nil => exact ⟨fun _ pre _ _ heq => by simp at heq, fun _ => rfl⟩
  | cons output outputs ih =>
    rw [handed_cons, writesAllButLast_cons, List.cons_inj_right]
    cases hfault : faults writer output with
    | none =>
      rw [recordOutput_of_none hfault, ih]
      simp
    | some error =>
      rw [recordOutput_of_some hfault, handed_none]
      constructor
      · rintro rfl
        exact ⟨fun hne => absurd rfl hne, fun pre _ _ heq => by simp at heq⟩
      · rintro ⟨hfirst, _⟩
        by_contra hne
        cases hfirst (Ne.symm hne)

end Tapgres.Session
