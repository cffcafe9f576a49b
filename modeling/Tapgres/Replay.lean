import Tapgres.Tui.App

/-!
# Replaying a session while saving it

`--replay F --save G` runs in two ways.  On stdout the whole file is streamed through the channel to the
printer; in the TUI a bounded reader puts the newest records on the channel, behind a status line that
says how many were left out.  Both consumers record what they receive.

* `tui_handed`, `stdout_handed` — each recorder is handed what its source puts on the channel;
* `savesAll_iff` — both are handed exactly the file's records, just when the file fits into the TUI's
  history (up to one coincidence) and no write but the last fails.
-/

namespace Tapgres.Replay

open Tapgres.Decode Tapgres.Filter Tapgres.State Tapgres.Session Tapgres.Tui Tapgres.Lib.Run

/-! ### The sources -/

/-- The status line about records the history has no room for. -/
def outsideHistory (dropped : ℕ) : Output :=
  .status (s!"replay: showing the newest {historyCap} records; {dropped} earlier records "
    ++ "are outside TUI history")

/-- What the source of `run_replay` puts on the channel. -/
def tuiSource (env : SessionEnv) (path : String) (file : SessionFile) : List Output :=
  match readTail env path file historyCap with
  | .ok (outputs, dropped) => (if dropped > 0 then [outsideHistory dropped] else []) ++ outputs
  | .error error => [.status (s!"⚠ replay source error: {error.display}")]

/-- What the source of `run_stdout` puts on the channel for a replay. -/
def stdoutSource (env : SessionEnv) (path : String) (file : SessionFile) : List Output :=
  (readWith env path file (fun channel output => channel ++ [output]) []).1

/-! ### The printer -/

/-- The consumer thread of `run_stdout`. -/
structure Printer where
  recorder : Option SessionWriter
  recorderError : Option String
  stdout : List String
  stderr : List String
  deriving DecidableEq, Repr

def Printer.new (recorder : Option SessionWriter) : Printer := ⟨recorder, none, [], []⟩

variable (env : AppEnv) (filter : DisplayFilter)

/-- The recording half of the loop body. -/
def Printer.record (printer : Printer) (output : Output) : Printer :=
  match recordOutput env.faults printer.recorder output with
  | (recorder, none) => { printer with recorder := recorder }
  | (recorder, some error) =>
    let message := "tapgres: recording stopped: " ++ error.display
    { printer with
        recorder := recorder, recorderError := some message, stderr := printer.stderr ++ [message] }

/-- The printing half of the loop body. -/
def Printer.print (printer : Printer) (output : Output) : Printer :=
  if output.matchesFilter env.filter filter then
    match output with
    | .message message _ => { printer with stdout := printer.stdout ++ [message.rendered] }
    | .line text => { printer with stdout := printer.stdout ++ [text] }
    | .status text => { printer with stderr := printer.stderr ++ [text] }
  else printer

def Printer.receive (printer : Printer) (output : Output) : Printer :=
  (printer.record env output).print env filter output

/-- A record received by the printer, with what it hands to the recorder. -/
def printStep (printer : Printer) (output : Output) : Printer × List Output :=
  (printer.receive env filter output, if printer.recorder.isSome then [output] else [])

theorem print_recorder (printer : Printer) (output : Output) :
    (printer.print env filter output).recorder = printer.recorder := by
  unfold Printer.print
  split
  · cases output <;> rfl
  · rfl

theorem receive_recorder (printer : Printer) (output : Output) :
    (printer.receive env filter output).recorder
      = (recordOutput env.faults printer.recorder output).1 := by
  rw [Printer.receive, print_recorder, Printer.record]
  rcases recordOutput env.faults printer.recorder output with ⟨recorder, _ | error⟩ <;> rfl

/-- The printer hands the channel's records to the recorder as they come. -/
theorem prints_handed (printer : Printer) (outputs : List Output) :
    (run (printStep env filter) printer outputs).2
      = handed env.faults printer.recorder outputs := by
  induction outputs generalizing printer with
  | nil => rfl
  | cons output outputs ih =>
    show _ ++ (run (printStep env filter) (printer.receive env filter output) outputs).2 = _
    rw [ih, receive_recorder]
    rfl

/-! ### What the two ways of replaying save -/

/-- The records handed to the recorder in the TUI, when the channel's records arrive in these frames. -/
def tuiSaved (metrics : Metrics) (rich : Bool) (writer : SessionWriter) (frames : List (List Output)) :
    List Output :=
  (run (frameStep env) { App.new "replay" metrics rich filter [] with recorder := some writer }
    frames).2

/-- The records handed to the recorder on the stdout path. -/
def stdoutSaved (writer : SessionWriter) (channel : List Output) : List Output :=
  (run (printStep env filter) (Printer.new (some writer)) channel).2

variable {env filter}

theorem tui_handed (metrics : Metrics) (rich : Bool) (writer : SessionWriter)
    (frames : List (List Output)) :
    tuiSaved env filter metrics rich writer frames = handed env.faults (some writer) frames.flatten :=
  frames_handed _ rfl frames

theorem stdout_handed (writer : SessionWriter) (channel : List Output) :
    stdoutSaved env filter writer channel = handed env.faults (some writer) channel :=
  prints_handed env filter _ channel

variable {senv : SessionEnv} {path : String} {file : SessionFile} {outputs : List Output}

theorem stdoutSource_eq (h : readAll senv path file = .ok outputs) :
    stdoutSource senv path file = outputs := by
  rw [stdoutSource, readWith_eq, readAll_eq_ok.mp h, foldl_snoc, List.nil_append]

theorem tuiSource_of_le (h : readAll senv path file = .ok outputs)
    (hlen : outputs.length ≤ historyCap) : tuiSource senv path file = outputs := by
  have hzero : outputs.length - historyCap = 0 := Nat.sub_eq_zero_of_le hlen
  rw [tuiSource, readTail_eq h, hzero]
  simp

theorem tuiSource_of_lt (h : readAll senv path file = .ok outputs)
    (hlen : historyCap < outputs.length) :
    tuiSource senv path file = outsideHistory (outputs.length - historyCap)
      :: outputs.drop (outputs.length - historyCap) := by
  have hpos : outputs.length - historyCap > 0 := Nat.sub_pos_of_lt hlen
  rw [tuiSource, readTail_eq h]
  simp only [if_pos hpos, List.singleton_append]

/-- The file fits into the TUI's history; or it is one record longer, and this record, the first, is
the very status line that takes its place. -/
def Fits (outputs : List Output) : Prop :=
  outputs.length ≤ historyCap ∨
    (outputs.length = historyCap + 1 ∧ outputs.head? = some (outsideHistory 1))

/-- What the TUI's source puts on the channel is the file exactly when the file fits; otherwise it is
too short to begin with. -/
theorem tuiSource_prefix_iff (h : readAll senv path file = .ok outputs) :
    outputs <+: tuiSource senv path file ↔ tuiSource senv path file = outputs ∧ Fits outputs := by
  by_cases hlen : outputs.length ≤ historyCap
  · rw [tuiSource_of_le h hlen]
    exact ⟨fun _ => ⟨rfl, .inl hlen⟩, fun _ => List.prefix_refl _⟩
  · rw [Nat.not_le] at hlen
    have hsource := tuiSource_of_lt h hlen
    have hsourceLen : (tuiSource senv path file).length = historyCap + 1 := by
      rw [hsource, List.length_cons, List.length_drop]
      omega
    constructor
    · intro hpre
      have hle := hpre.length_le
      have heq := hpre.eq_of_length (by omega)
      refine ⟨heq.symm, .inr ⟨by omega, ?_⟩⟩
      rw [heq, hsource, List.head?_cons, show outputs.length - historyCap = 1 by omega]
    · rintro ⟨heq, _⟩
      rw [heq]

/-- A file that fits arrives whole. -/
theorem tuiSource_of_fits (h : readAll senv path file = .ok outputs) (hfits : Fits outputs) :
    tuiSource senv path file = outputs := by
  rcases hfits with hlen | ⟨hlen, hhead⟩
  · exact tuiSource_of_le h hlen
  · have hone : outputs.length - historyCap = 1 := by omega
    rw [tuiSource_of_lt h (by omega), hone]
    cases outputs with
    | nil => cases hhead
    | cons first rest =>
      cases hhead
      rfl

/-- **The TUI saves the file exactly when it fits and the writes succeed.** -/
theorem tuiSaved_eq_iff (h : readAll senv path file = .ok outputs) (metrics : Metrics) (rich : Bool)
    (writer : SessionWriter) {frames : List (List Output)}
    (hframes : frames.flatten = tuiSource senv path file) :
    tuiSaved env filter metrics rich writer frames = outputs ↔
      Fits outputs ∧ WritesAllButLast env.faults writer outputs := by
  rw [tui_handed, hframes]
  constructor
  · intro hsaved
    have hpre : outputs <+: tuiSource senv path file := hsaved ▸ handed_prefix _ _
    obtain ⟨heq, hfits⟩ := (tuiSource_prefix_iff h).mp hpre
    rw [heq] at hsaved
    exact ⟨hfits, handed_eq_iff.mp hsaved⟩
  · rintro ⟨hfits, hwrites⟩
    rw [tuiSource_of_fits h hfits]
    exact handed_eq_iff.mpr hwrites

/-- **Saving during replay is complete on both paths** exactly when the file fits into the TUI's history
and no write but the last fails. -/
theorem savesAll_iff (h : readAll senv path file = .ok outputs) (metrics : Metrics) (rich : Bool)
    (writer : SessionWriter) {frames : List (List Output)}
    (hframes : frames.flatten = tuiSource senv path file) :
    (tuiSaved env filter metrics rich writer frames = outputs ∧
        stdoutSaved env filter writer (stdoutSource senv path file) = outputs) ↔
      Fits outputs ∧ WritesAllButLast env.faults writer outputs := by
  rw [tuiSaved_eq_iff h metrics rich writer hframes, stdoutSource_eq h, stdout_handed, handed_eq_iff,
    and_assoc, and_self]

/-! ### A session longer than the history -/

/-- A stored line, as it stands in a file. -/
def validLine : String :=
  "\x7b\"schema_version\":1,\"timestamp\":\"2026-07-17T12:34:56.789+01:00\"," ++
    "\"record_type\":\"line\",\"text\":\"valid\"\x7d"

/-- The libraries, as far as this line needs them. -/
def validLineEnv : SessionEnv where
  Json := Unit
  fromStr line := if line = validLine then .ok () else .error "expected value at line 1 column 1"
  schemaVersionOf _ := some 1
  fromValue _ := .ok ⟨1, "2026-07-17T12:34:56.789+01:00", .line "valid"⟩
  parseRfc3339 timestamp :=
    if timestamp = "2026-07-17T12:34:56.789+01:00" then .ok () else .error "premature end of input"
  parseAddr _ := .error "invalid socket address syntax"
  showAddr address := toString address.port.toNat
  debugStr text := "\"" ++ text ++ "\""

/-- A file of `n` such lines. -/
def validFile (n : ℕ) : SessionFile := .ok (List.replicate n (.ok validLine))

theorem readAll_validFile (n : ℕ) :
    readAll validLineEnv "session.jsonl" (validFile n) = .ok (List.replicate n (.line "valid")) := by
  have hline : ∀ index, readLine validLineEnv "session.jsonl" index validLine
      = .ok (some (.line "valid")) := fun _ => rfl
  have hrecords : ∀ n index, records validLineEnv "session.jsonl" index
      (List.replicate n (.ok validLine)) = (List.replicate n (.line "valid"), .ok ()) := by
    intro n
    induction n with
    | zero => exact fun _ => rfl
    | succ n ih =>
      intro index
      rw [List.replicate_succ, records]
      simp only [hline, ih, List.replicate_succ]
  exact readAll_eq_ok.mpr (hrecords n 0)

/-- Nothing fails to be written. -/
def faultless : AppEnv := ⟨⟨fun _ => none, fun _ => none, fun _ _ => false⟩, fun _ _ => none⟩

/-- The last record of a history finds the disk full. -/
def fullDisk : AppEnv :=
  { faultless with
      faults := fun writer _ =>
        if writer.written.length + 1 = historyCap then some (.io writer.path "No space left on device") else none }

/-- A session as long as the history, which arrives in two frames and whose last write fails. -/
theorem savesAll_full :
    tuiSaved fullDisk {} (Metrics.withLimits 10) false (.create "out.jsonl")
          [List.replicate (historyCap - 1) (.line "valid"), [.line "valid"]]
        = List.replicate historyCap (.line "valid") ∧
      stdoutSaved fullDisk {} (.create "out.jsonl")
          (stdoutSource validLineEnv "session.jsonl" (validFile historyCap))
        = List.replicate historyCap (.line "valid") := by
  have hread := readAll_validFile historyCap
  have hframes : [List.replicate (historyCap - 1) (Output.line "valid"), [.line "valid"]].flatten
      = tuiSource validLineEnv "session.jsonl" (validFile historyCap) := by
    rw [tuiSource_of_le hread (List.length_replicate).le, List.flatten_cons, List.flatten_singleton,
      ← List.replicate_one, List.replicate_append_replicate]
    rfl
  refine (savesAll_iff hread (Metrics.withLimits 10) false _ hframes).mpr ⟨.inl (List.length_replicate).le, ?_⟩
  intro pre output post heq hpost
  have hlength := congrArg List.length heq
  rw [List.length_replicate, List.length_append, List.length_cons] at hlength
  have hpos := List.length_pos_iff.mpr hpost
  refine if_neg ?_
  show ([] ++ pre).length + 1 ≠ historyCap
  rw [List.nil_append]
  omega

/-- **One record more than the history holds**: the file is valid, and its first record does not reach
the recorder. -/
theorem long_session_loses_record :
    readAll validLineEnv "session.jsonl" (validFile (historyCap + 1))
        = .ok (List.replicate (historyCap + 1) (.line "valid")) ∧
      tuiSaved faultless {} (Metrics.withLimits 10) false (.create "out.jsonl")
          [tuiSource validLineEnv "session.jsonl" (validFile (historyCap + 1))]
        ≠ List.replicate (historyCap + 1) (.line "valid") := by
  have hread := readAll_validFile (historyCap + 1)
  refine ⟨hread, ?_⟩
  intro hsaved
  have hfits := ((tuiSaved_eq_iff hread (Metrics.withLimits 10) false _ (by simp)).mp hsaved).1
  rcases hfits with hlen | ⟨_, hhead⟩
  · rw [List.length_replicate] at hlen
    omega
  · rw [List.replicate_succ, List.head?_cons] at hhead
    cases hhead

end Tapgres.Replay
