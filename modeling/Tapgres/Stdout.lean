import Tapgres.Lib.Rest
import Tapgres.Replay

/-!
# Output to the terminal

`run_stdout` (`main.rs`): a source runs on the main thread and delivers its records into a channel; the
consumer thread records each of them, filters it and prints it.  When the source returns the channel is
closed and the consumer joined.  What a source does is left open (`Source`); the two threads take their
steps in any order.

* `recording`, `Transcript` — what a list of records leaves on stdout, on stderr and in the recorded file;
* `foldl_receive` — the consumer's loop leaves just this;
* `stdout_exit` — so does every run, for the records received so far; once the source has returned, the
  program always comes to its exit, with every record delivered received, and with the first error there is.
-/

namespace Tapgres.Stdout

open Relation (ReflTransGen)
open Tapgres.Decode Tapgres.Filter Tapgres.Session Tapgres.Tui Tapgres.Replay Tapgres.Lib.Rest

/-! ### What records leave behind -/

section Transcript

variable (env : AppEnv) (filter : DisplayFilter)

/-- The line of stdout for a record, if it has one. -/
def stdoutLine : Output → Option String
  | .message message _ => some message.rendered
  | .line text => some text
  | .status _ => none

/-- The line of stderr for a record, if it has one. -/
def stderrLine : Output → Option String
  | .status text => some text
  | _ => none

/-- What these records put on stdout. -/
def shown (outputs : List Output) : List String :=
  (outputs.filter fun output => output.matchesFilter env.filter filter).filterMap stdoutLine

/-- What they put on stderr. -/
def statuses (outputs : List Output) : List String :=
  (outputs.filter fun output => output.matchesFilter env.filter filter).filterMap stderrLine

/-- The records that are written, and the error of the first write that fails, if one does. -/
def recording (faults : WriteFaults) (writer : SessionWriter) : List Output → List Output × Option SessionError
  | [] => ([], none)
  | output :: outputs =>
    match faults writer output with
    | some error => ([], some error)
    | none =>
      let (written, error) := recording faults { writer with written := writer.written ++ [output] } outputs
      (output :: written, error)

/-- The message about a recording that has stopped. -/
def recordingStopped (error : SessionError) : String := "tapgres: recording stopped: " ++ error.display

/-- What is left behind: the lines of the two streams, the file, and the message when its recording
stopped. -/
structure Transcript where
  stdout : List String
  stderr : List String
  file : Option SessionWriter
  stopped : Option String
  deriving DecidableEq, Repr

/-- What these records leave behind.  The message about the recording stands where the write failed; of its line
the file holds nothing here, though some of it may be on the disk.  Writing to the terminal is taken to
succeed. -/
def transcript (save : Option SessionWriter) (outputs : List Output) : Transcript :=
  match save with
  | none => ⟨shown env filter outputs, statuses env filter outputs, none, none⟩
  | some writer =>
    let (written, error) := recording env.faults writer outputs
    let file := some { writer with written := writer.written ++ written }
    match error with
    | none => ⟨shown env filter outputs, statuses env filter outputs, file, none⟩
    | some error =>
      ⟨shown env filter outputs,
        statuses env filter written ++ [recordingStopped error]
          ++ statuses env filter (outputs.drop written.length),
        file, some (recordingStopped error)⟩

end Transcript

/-! ### The program -/

/-- What a source does next. -/
inductive Move (σ ε : Type) where
  | work (next : σ)
  | deliver (output : Output) (next : σ)
  | ret (result : Except ε Unit)

/-- A source: its states, and what it may do in each. -/
abbrev Source (σ ε : Type) := σ → Move σ ε → Prop

/-- What the consumer thread returns when it does not return `Ok`. -/
inductive PrinterError where
  | recording (message : String)
  | flush (error : SessionError)
  deriving DecidableEq, Repr

inductive ExitError (ε : Type) where
  | source (error : ε)
  | printer (error : PrinterError)
  deriving DecidableEq, Repr

structure RunStdout (σ ε : Type) where
  source : σ
  /-- What `source()` has returned. -/
  returned : Option (Except ε Unit)
  /-- `OUTPUT_TX` holds the sender. -/
  tx : Bool
  queue : List Output
  printer : Printer
  /-- The file behind the recorder, also when the recorder is gone. -/
  file : Option SessionWriter
  /-- What the consumer thread has returned. -/
  consumer : Option (Except PrinterError Unit)
  exit : Option (Except (ExitError ε) Unit)
  /-- The records delivered so far. -/
  sent : List Output
  /-- Those that the consumer has received. -/
  received : List Output

variable {σ ε : Type}

/-- Everything in front of the call of `source`; `creates` is what creating the file fails with. -/
def RunStdout.begin (creates : String → Option SessionError) (save : Option String) (source : σ) :
    Except SessionError (RunStdout σ ε) :=
  match save.bind creates with
  | some error => .error error
  | none =>
    let recorder := save.map SessionWriter.create
    .ok
      { source, returned := none, tx := true, queue := [], printer := .new recorder, file := recorder
        consumer := none, exit := none, sent := [], received := [] }

/-- `deliver`: without a channel, the record goes to the terminal. -/
def RunStdout.deliver (s : RunStdout σ ε) (output : Output) : RunStdout σ ε :=
  if s.tx then { s with queue := s.queue ++ [output], sent := s.sent ++ [output] }
  else
    { s with
        printer :=
          { s.printer with
              stdout := s.printer.stdout ++ (stdoutLine output).toList
              stderr := s.printer.stderr ++ (stderrLine output).toList }
        sent := s.sent ++ [output] }

/-- One turn of the consumer's loop. -/
def RunStdout.receive (env : AppEnv) (filter : DisplayFilter) (s : RunStdout σ ε) (output : Output)
    (rest : List Output) : RunStdout σ ε :=
  let printer := s.printer.receive env filter output
  { s with
      queue := rest, printer, file := printer.recorder.or s.file, received := s.received ++ [output] }

/-- The consumer thread behind its loop; `flushes` is what flushing the recorder fails with. -/
def finish (flushes : SessionWriter → Option SessionError) (printer : Printer) :
    Except PrinterError Unit :=
  match printer.recorder.bind flushes with
  | some error => .error (.flush error)
  | none =>
    match printer.recorderError with
    | some message => .error (.recording message)
    | none => .ok ()

/-- `result?; consumer_result?; Ok(())` -/
def exitResult (result : Except ε Unit) (consumer : Except PrinterError Unit) :
    Except (ExitError ε) Unit :=
  match result with
  | .error error => .error (.source error)
  | .ok _ =>
    match consumer with
    | .error error => .error (.printer error)
    | .ok _ => .ok ()

/-- One step of either thread. -/
inductive StdoutStep (env : AppEnv) (filter : DisplayFilter) (flushes : SessionWriter → Option SessionError)
    (source : Source σ ε) (s : RunStdout σ ε) : RunStdout σ ε → Prop where
  | work {next : σ} (hrunning : s.returned = none) (hmove : source s.source (.work next)) :
      StdoutStep env filter flushes source s { s with source := next }
  | deliver {output : Output} {next : σ} (hrunning : s.returned = none)
      (hmove : source s.source (.deliver output next)) :
      StdoutStep env filter flushes source s ({ s with source := next }.deliver output)
  | ret {result : Except ε Unit} (hrunning : s.returned = none) (hmove : source s.source (.ret result)) :
      StdoutStep env filter flushes source s { s with returned := some result }
  | closeOutput (hreturned : s.returned ≠ none) (htx : s.tx = true) :
      StdoutStep env filter flushes source s { s with tx := false }
  | recv {output : Output} {rest : List Output} (hrunning : s.consumer = none)
      (hqueue : s.queue = output :: rest) :
      StdoutStep env filter flushes source s (s.receive env filter output rest)
  /-- `recv` fails: the channel is empty and its sender gone. -/
  | finish (hrunning : s.consumer = none) (hqueue : s.queue = []) (htx : s.tx = false) :
      StdoutStep env filter flushes source s { s with consumer := some (finish flushes s.printer) }
  | join {result : Except ε Unit} {consumer : Except PrinterError Unit} (hrunning : s.exit = none)
      (hreturned : s.returned = some result) (htx : s.tx = false) (hconsumer : s.consumer = some consumer) :
      StdoutStep env filter flushes source s { s with exit := some (exitResult result consumer) }

/-! ### The consumer's loop -/

section Loop

variable (env : AppEnv) (filter : DisplayFilter)

theorem shown_append (outputs more : List Output) :
    shown env filter (outputs ++ more) = shown env filter outputs ++ shown env filter more := by
  rw [shown, List.filter_append, List.filterMap_append]
  rfl

theorem statuses_append (outputs more : List Output) :
    statuses env filter (outputs ++ more) = statuses env filter outputs ++ statuses env filter more := by
  rw [statuses, List.filter_append, List.filterMap_append]
  rfl

/-- Printing a record appends its lines. -/
theorem print_eq (printer : Printer) (output : Output) :
    printer.print env filter output
      = { printer with
            stdout := printer.stdout ++ shown env filter [output]
            stderr := printer.stderr ++ statuses env filter [output] } := by
  unfold Printer.print shown statuses
  by_cases hmatches : output.matchesFilter env.filter filter = true
  · rw [if_pos hmatches, List.filter_cons_of_pos hmatches]
    cases output <;> simp [stdoutLine, stderrLine]
  · rw [if_neg hmatches, List.filter_cons_of_neg hmatches]
    simp

variable {env filter} {faults : WriteFaults} {writer : SessionWriter}

theorem recording_begins (outputs : List Output) : (recording faults writer outputs).1 <+: outputs := by
  induction outputs generalizing writer with
  | nil => exact List.prefix_refl _
  | cons output outputs ih =>
    rw [recording]
    cases faults writer output with
    | some error => exact List.nil_prefix
    | none => exact List.cons_prefix_cons.mpr ⟨rfl, ih⟩

/-- A recording with one record more: the record is written unless the recording has stopped before. -/
theorem recording_snoc (outputs : List Output) (output : Output) :
    recording faults writer (outputs ++ [output])
      = match recording faults writer outputs with
        | (written, some error) => (written, some error)
        | (written, none) =>
          match faults { writer with written := writer.written ++ written } output with
          | some error => (written, some error)
          | none => (written ++ [output], none) := by
  induction outputs generalizing writer with
  | nil =>
    show recording faults writer [output] = match faults { writer with written := writer.written ++ [] } output with
      | some error => ([], some error)
      | none => ([output], none)
    rw [List.append_nil, recording]
    rfl
  | cons first outputs ih =>
    rw [List.cons_append, recording, recording]
    cases faults writer first with
    | some error => rfl
    | none =>
      simp only [ih, List.append_assoc, List.singleton_append]
      rcases recording faults { writer with written := writer.written ++ [first] } outputs
        with ⟨written, _ | error⟩
      · simp only
        cases faults { writer with written := writer.written ++ first :: written } output <;> rfl
      · rfl

/-- A recording that no write has stopped has written all. -/
theorem recording_whole {outputs written : List Output}
    (h : recording faults writer outputs = (written, none)) : written = outputs := by
  induction outputs generalizing writer written with
  | nil => cases h; rfl
  | cons output outputs ih =>
    rw [recording] at h
    cases hfault : faults writer output with
    | some error =>
      rw [hfault] at h
      cases h
    | none =>
      rcases hrest : recording faults { writer with written := writer.written ++ [output] } outputs
        with ⟨rest, error⟩
      rw [hfault] at h
      simp only [hrest] at h
      cases h
      rw [ih hrest]

theorem record_none {printer : Printer} (h : printer.recorder = none) (output : Output) :
    printer.record env output = printer := by
  rw [Printer.record, h]
  show { printer with recorder := none } = printer
  rw [← h]

theorem record_ok {printer : Printer} (h : printer.recorder = some writer) {output : Output}
    (hfault : env.faults writer output = none) :
    printer.record env output
      = { printer with recorder := some { writer with written := writer.written ++ [output] } } := by
  rw [Printer.record, h, recordOutput_of_none hfault]

theorem record_fault {printer : Printer} (h : printer.recorder = some writer) {output : Output}
    {error : SessionError} (hfault : env.faults writer output = some error) :
    printer.record env output
      = { printer with
            recorder := none, recorderError := some (recordingStopped error)
            stderr := printer.stderr ++ [recordingStopped error] } := by
  rw [Printer.record, h, recordOutput_of_some hfault]
  rfl

theorem transcript_whole {outputs written : List Output}
    (h : recording env.faults writer outputs = (written, none)) :
    transcript env filter (some writer) outputs
      = ⟨shown env filter outputs, statuses env filter outputs,
          some { writer with written := writer.written ++ outputs }, none⟩ := by
  rw [transcript, h, recording_whole h]

theorem transcript_stopped {outputs written : List Output} {error : SessionError}
    (h : recording env.faults writer outputs = (written, some error)) :
    transcript env filter (some writer) outputs
      = ⟨shown env filter outputs,
          statuses env filter written ++ [recordingStopped error]
            ++ statuses env filter (outputs.drop written.length),
          some { writer with written := writer.written ++ written }, some (recordingStopped error)⟩ := by
  rw [transcript, h]

/-- Stdout shows the same with a recording and without. -/
theorem transcript_stdout (save : Option SessionWriter) (outputs : List Output) :
    (transcript env filter save outputs).stdout = shown env filter outputs := by
  cases save with
  | none => rfl
  | some writer =>
    rcases hrecording : recording env.faults writer outputs with ⟨written, _ | error⟩
    · rw [transcript_whole hrecording]
    · rw [transcript_stopped hrecording]

/-- The printer that has left this transcript behind. -/
def Transcript.printer (t : Transcript) : Printer :=
  { recorder := if t.stopped.isSome then none else t.file
    recorderError := t.stopped, stdout := t.stdout, stderr := t.stderr }

variable (env filter) in
/-- **One turn of the loop takes the transcript one record further.** -/
theorem receive_transcript (save : Option SessionWriter) (outputs : List Output) (output : Output) :
    let next := (transcript env filter save outputs).printer.receive env filter output
    (transcript env filter save (outputs ++ [output])).printer = next ∧
      (transcript env filter save (outputs ++ [output])).file
        = next.recorder.or (transcript env filter save outputs).file := by
  intro next
  have hnext : next = _ := print_eq env filter _ output
  cases save with
  | none =>
    rw [hnext, record_none rfl]
    simp only [transcript, Transcript.printer, shown_append, statuses_append]
    exact ⟨rfl, rfl⟩
  | some writer =>
    have hsnoc := @recording_snoc env.faults writer outputs output
    rcases hrecording : recording env.faults writer outputs with ⟨written, _ | error⟩
    · rw [hrecording] at hsnoc
      have hwritten := recording_whole hrecording
      subst hwritten
      have hrecorder : (transcript env filter (some writer) written).printer.recorder
          = some { writer with written := writer.written ++ written } := by
        rw [transcript_whole hrecording]
        rfl
      cases hfault : env.faults { writer with written := writer.written ++ written } output with
      | none =>
        simp only [hfault] at hsnoc
        rw [hnext, record_ok hrecorder hfault, transcript_whole hsnoc, transcript_whole hrecording]
        simp only [Transcript.printer, shown_append, statuses_append, List.append_assoc]
        exact ⟨rfl, rfl⟩
      | some error =>
        simp only [hfault] at hsnoc
        rw [hnext, record_fault hrecorder hfault, transcript_stopped hsnoc, transcript_whole hrecording]
        simp only [Transcript.printer, shown_append, List.drop_left]
        exact ⟨rfl, rfl⟩
    · rw [hrecording] at hsnoc
      have hrecorder : (transcript env filter (some writer) outputs).printer.recorder = none := by
        rw [transcript_stopped hrecording]
        rfl
      have hlen : written.length ≤ outputs.length := by
        have hprefix := @recording_begins env.faults writer outputs
        rw [hrecording] at hprefix
        exact hprefix.length_le
      rw [hnext, record_none hrecorder, transcript_stopped hsnoc, transcript_stopped hrecording]
      simp only [Transcript.printer, shown_append, statuses_append, List.append_assoc,
        List.drop_append_of_le_length hlen]
      exact ⟨trivial, rfl⟩

end Loop

/-! ### Runs -/

variable (env : AppEnv) (filter : DisplayFilter) (flushes : SessionWriter → Option SessionError)

/-- How the threads stand to each other, with what they have left behind. -/
structure Sound (save : Option SessionWriter) (s : RunStdout σ ε) : Prop where
  printer : s.printer = (transcript env filter save s.received).printer
  file : s.file = (transcript env filter save s.received).file
  flow : s.received ++ s.queue = s.sent
  held : s.returned = none → s.tx = true
  ended : ∀ result, s.consumer = some result →
    s.tx = false ∧ s.queue = [] ∧ result = finish flushes s.printer
  exited : ∀ result, s.exit = some result → ∃ returned consumer,
    s.returned = some returned ∧ s.consumer = some consumer ∧ result = exitResult returned consumer

variable {env filter flushes} {source : Source σ ε} {save : Option SessionWriter} {s after : RunStdout σ ε}

theorem begin_sound {creates : String → Option SessionError} {path : Option String} {start : σ}
    (h : RunStdout.begin (ε := ε) creates path start = .ok s) :
    Sound env filter flushes (path.map .create) s := by
  unfold RunStdout.begin at h
  split at h
  · cases h
  · cases h
    constructor
    · cases path <;> rfl
    · cases path <;> rfl
    · rfl
    · exact fun _ => rfl
    · exact fun _ h => by cases h
    · exact fun _ h => by cases h

theorem sound_step (h : Sound env filter flushes save s) (hstep : StdoutStep env filter flushes source s after) :
    Sound env filter flushes save after := by
  cases hstep with
  | work hrunning hmove => exact ⟨h.printer, h.file, h.flow, h.held, h.ended, h.exited⟩
  | @deliver output next hrunning hmove =>
    have htx : s.tx = true := h.held hrunning
    rw [RunStdout.deliver, if_pos htx]
    refine ⟨h.printer, h.file, ?_, h.held, ?_, h.exited⟩
    · show s.received ++ (s.queue ++ [output]) = _
      rw [← List.append_assoc, h.flow]
    · intro result hresult
      rw [(h.ended result hresult).1] at htx
      cases htx
  | ret hrunning hmove =>
    refine ⟨h.printer, h.file, h.flow, fun hreturned => (by cases hreturned), h.ended, ?_⟩
    intro result hresult
    obtain ⟨returned, _, hreturned, _⟩ := h.exited result hresult
    rw [hrunning] at hreturned
    cases hreturned
  | closeOutput hreturned htx =>
    refine ⟨h.printer, h.file, h.flow, fun hrunning => absurd hrunning hreturned, ?_, h.exited⟩
    intro result hresult
    rw [(h.ended result hresult).1] at htx
    cases htx
  | @recv output rest hrunning hqueue =>
    obtain ⟨hprinter, hfile⟩ := receive_transcript env filter save s.received output
    rw [← h.printer] at hprinter hfile
    refine ⟨hprinter.symm, ?_, ?_, h.held, ?_, h.exited⟩
    · show (s.printer.receive env filter output).recorder.or s.file = _
      rw [h.file]
      exact hfile.symm
    · show (s.received ++ [output]) ++ rest = s.sent
      rw [← h.flow, hqueue, List.append_assoc, List.singleton_append]
    · intro result hresult
      have hnone : s.consumer = some result := hresult
      rw [hrunning] at hnone
      cases hnone
  | finish hrunning hqueue htx =>
    refine ⟨h.printer, h.file, h.flow, h.held, ?_, ?_⟩
    · intro result hresult
      exact ⟨htx, hqueue, (Option.some.inj hresult).symm⟩
    · intro result hresult
      obtain ⟨_, consumer, _, hconsumer, _⟩ := h.exited result hresult
      rw [hrunning] at hconsumer
      cases hconsumer
  | @join result consumer hrunning hreturned htx hconsumer =>
    refine ⟨h.printer, h.file, h.flow, h.held, h.ended, ?_⟩
    intro exit hexit
    exact ⟨result, consumer, hreturned, hconsumer, (Option.some.inj hexit).symm⟩

theorem sound_run {s₀ : RunStdout σ ε} (h : Sound env filter flushes save s₀)
    (hreach : ReflTransGen (StdoutStep env filter flushes source) s₀ s) :
    Sound env filter flushes save s := by
  induction hreach with
  | refl => exact h
  | tail _ hstep ih => exact sound_step ih hstep

/-! ### The exit -/

/-- What is still to be done when the source has returned. -/
def RunStdout.remaining (s : RunStdout σ ε) : ℕ :=
  s.tx.toNat + s.queue.length + s.consumer.isNone.toNat + s.exit.isNone.toNat

theorem returned_step (hreturned : s.returned ≠ none)
    (hstep : StdoutStep env filter flushes source s after) :
    after.returned ≠ none ∧ after.remaining < s.remaining := by
  cases hstep with
  | work hrunning => exact absurd hrunning hreturned
  | deliver hrunning => exact absurd hrunning hreturned
  | ret hrunning => exact absurd hrunning hreturned
  | closeOutput _ htx => exact ⟨hreturned, by simp [RunStdout.remaining, htx]⟩
  | recv _ hqueue => exact ⟨hreturned, by simp [RunStdout.remaining, RunStdout.receive, hqueue]⟩
  | finish hrunning => exact ⟨hreturned, by simp [RunStdout.remaining, hrunning]⟩
  | join hrunning => exact ⟨hreturned, by simp [RunStdout.remaining, hrunning]⟩

/-- Where no step is left the program has come to its exit. -/
theorem exit_of_stuck (hreturned : s.returned ≠ none)
    (hstuck : ∀ after, ¬ StdoutStep env filter flushes source s after) : s.exit ≠ none := by
  intro hexit
  obtain ⟨result, hresult⟩ := Option.ne_none_iff_exists'.mp hreturned
  have htx : s.tx = false := by
    cases htx : s.tx with
    | false => rfl
    | true => exact absurd (.closeOutput hreturned htx) (hstuck _)
  cases hconsumer : s.consumer with
  | some consumer => exact hstuck _ (.join hexit hresult htx hconsumer)
  | none =>
    cases hqueue : s.queue with
    | nil => exact hstuck _ (.finish hconsumer hqueue htx)
    | cons output rest => exact hstuck _ (.recv hconsumer hqueue)

/-- **Once the source has returned, the program comes to its exit.** -/
theorem returned_settles (hreturned : s.returned ≠ none) :
    Settles (StdoutStep env filter flushes source) (fun last => last.exit ≠ none) s :=
  settles_of_measure (fun s => s.returned ≠ none) RunStdout.remaining
    (fun _ _ hreturned hstep => (returned_step hreturned hstep).1)
    (fun _ _ hreturned hstep => (returned_step hreturned hstep).2)
    (fun _ hreturned hstuck => exit_of_stuck hreturned hstuck) hreturned

/-- **`run_stdout` prints what it is given, and ends.**  In every run, whatever the source and in whatever
order the threads go on: the records received and those waiting are the records delivered, in order; the
terminal and the file hold just what the received records leave behind.  At the exit every record delivered
has been received, and the error is that of the source, or else that of the consumer.  Once the source has
returned every run is finite and comes to the exit. -/
theorem stdout_exit (env : AppEnv) (filter : DisplayFilter) (flushes : SessionWriter → Option SessionError)
    (source : Source σ ε) (creates : String → Option SessionError) (path : Option String) (start : σ)
    (s₀ s : RunStdout σ ε) (hbegin : RunStdout.begin creates path start = .ok s₀)
    (hreach : ReflTransGen (StdoutStep env filter flushes source) s₀ s) :
    let left := transcript env filter (path.map SessionWriter.create) s.received
    (s.received ++ s.queue = s.sent ∧ s.printer.stdout = left.stdout ∧ s.printer.stderr = left.stderr ∧
      s.file = left.file) ∧
    (∀ result, s.exit = some result → s.received = s.sent ∧ ∃ returned, s.returned = some returned ∧
      result = exitResult returned (finish flushes left.printer)) ∧
    (s.returned ≠ none →
      Settles (StdoutStep env filter flushes source) (fun last => last.exit ≠ none) s) := by
  intro left
  have hsound : Sound env filter flushes (path.map SessionWriter.create) s :=
    sound_run (begin_sound hbegin) hreach
  refine ⟨⟨hsound.flow, ?_, ?_, hsound.file⟩, ?_, returned_settles⟩
  · rw [hsound.printer]
    rfl
  · rw [hsound.printer]
    rfl
  · intro result hresult
    obtain ⟨returned, consumer, hreturned, hconsumer, hexit⟩ := hsound.exited result hresult
    obtain ⟨_, hqueue, hfinish⟩ := hsound.ended consumer hconsumer
    refine ⟨?_, returned, hreturned, ?_⟩
    · rw [← hsound.flow, hqueue, List.append_nil]
    · rw [hexit, hfinish, hsound.printer]

/-- A source of two records. -/
def twoRecords : Source ℕ String
  | 0, .deliver output next => output = .line "SELECT 1" ∧ next = 1
  | 1, .deliver output next => output = .status "listening" ∧ next = 2
  | 2, .ret result => result = .ok ()
  | _, _ => False

/-- A disk with room for one record. -/
def fullDisk : AppEnv :=
  ⟨⟨fun _ => none, fun _ => none, fun _ _ => false⟩, fun writer _ =>
    if writer.written = [] then none else some (.io writer.path "No space left on device")⟩

/-- The two records delivered, the first of them received. -/
def twoDelivered : RunStdout ℕ String :=
  let writer : SessionWriter := ⟨"out.jsonl", [.line "SELECT 1"]⟩
  { source := 2, returned := none, tx := true, queue := [.status "listening"]
    printer := ⟨some writer, none, ["SELECT 1"], []⟩, file := some writer, consumer := none, exit := none
    sent := [.line "SELECT 1", .status "listening"], received := [.line "SELECT 1"] }

/-- The program at its exit. -/
def twoEnded : RunStdout ℕ String :=
  let writer : SessionWriter := ⟨"out.jsonl", [.line "SELECT 1"]⟩
  let message := recordingStopped (.io "out.jsonl" "No space left on device")
  { source := 2, returned := some (.ok ()), tx := false, queue := []
    printer := ⟨none, some message, ["SELECT 1"], [message, "listening"]⟩, file := some writer
    consumer := some (.error (.recording message)), exit := some (.error (.printer (.recording message)))
    sent := [.line "SELECT 1", .status "listening"], received := [.line "SELECT 1", .status "listening"] }

theorem twoDelivered_run {s₀ : RunStdout ℕ String}
    (hbegin : RunStdout.begin (fun _ => none) (some "out.jsonl") 0 = .ok s₀) :
    ReflTransGen (StdoutStep fullDisk {} (fun _ => none) twoRecords) s₀ twoDelivered := by
  cases hbegin
  have hfirst : twoRecords 0 (.deliver (.line "SELECT 1") 1) := ⟨rfl, rfl⟩
  have hsecond : twoRecords 1 (.deliver (.status "listening") 2) := ⟨rfl, rfl⟩
  refine .head (.deliver rfl hfirst) (.head (.deliver rfl hsecond) (.head (.recv rfl rfl) ?_))
  exact .refl

/-- The source returns, and the rest is received while the disk is full. -/
theorem twoEnded_run :
    ReflTransGen (StdoutStep fullDisk {} (fun _ => none) twoRecords) twoDelivered twoEnded := by
  have hreturn : twoRecords 2 (.ret (.ok ())) := rfl
  refine .head (.ret rfl hreturn) (.head (.closeOutput (by simp) rfl) (.head (.recv rfl rfl) ?_))
  refine .head (.finish rfl rfl rfl) (.head (.join rfl rfl rfl rfl) ?_)
  exact .refl

theorem stdout_exit_two :
    let left := transcript fullDisk {} (some (SessionWriter.create "out.jsonl")) twoEnded.received
    twoEnded.received = twoEnded.sent ∧ twoEnded.printer.stdout = left.stdout ∧
      twoEnded.printer.stderr = left.stderr ∧ twoEnded.file = left.file := by
  obtain ⟨⟨_, hshown⟩, hexit, _⟩ := stdout_exit fullDisk {} (fun _ => none) twoRecords (fun _ => none)
    (some "out.jsonl") 0 _ twoEnded rfl ((twoDelivered_run rfl).trans twoEnded_run)
  exact ⟨(hexit _ rfl).1, hshown⟩

end Tapgres.Stdout
