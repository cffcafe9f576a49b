import Tapgres.Session.RoundTrip
import Tapgres.Stdout

/-!
# Replaying the file of a run that was stopped

`--save` on the command line writes a record before it prints it, a line at a time.  However the program
is stopped, its file holds the lines of the records written and perhaps a beginning of the next one
(`Left`).  `--replay` streams a file to the printer before it has seen its end.

* `replaySource` — the loop of `read_with` as a source of `run_stdout`, one line a move;
* `replay_settles` — every such run comes to its exit, with the lines of the records in front of the first
  bad line, and with the error of that line;
* `interrupted_replays` — so what a stopped run has shown is shown again, whatever the filter, and a
  torn line costs the record it belongs to and no other.
-/

namespace Tapgres.Stdout

open Relation (ReflTransGen)
open Tapgres.Decode Tapgres.Filter Tapgres.Session Tapgres.Tui Tapgres.Replay
open Tapgres.Lib Tapgres.Lib.Lines Tapgres.Lib.Rest Tapgres.Lib.Utf8

/-! ### The source of a replay -/

/-- The next turn of the loop of `read_with`; a state is the index of the next line and what is left of the
file. -/
def replayMove (env : SessionEnv) (path : String) : ℕ × SessionFile → Move (ℕ × SessionFile) SessionError
  | (_, .error source) => .ret (.error (.io path source))
  | (_, .ok []) => .ret (.ok ())
  | (_, .ok (.error source :: _)) => .ret (.error (.io path source))
  | (index, .ok (.ok line :: lines)) =>
    match readLine env path (index + 1) line with
    | .error error => .ret (.error error)
    | .ok none => .work (index + 1, .ok lines)
    | .ok (some output) => .deliver output (index + 1, .ok lines)

def replaySource (env : SessionEnv) (path : String) : Source (ℕ × SessionFile) SessionError :=
  fun state move => replayMove env path state = move

/-- What is still to come of the file in this state. -/
def ahead (env : SessionEnv) (path : String) : ℕ × SessionFile → List Output × Except SessionError Unit
  | (_, .error source) => ([], .error (.io path source))
  | (index, .ok lines) => records env path index lines

/-- The lines still to be read. -/
def linesLeft : ℕ × SessionFile → ℕ
  | (_, .error _) => 0
  | (_, .ok lines) => lines.length

/-- The move gives out the first of what is still to come, and what follows it is still to come after it. -/
def GivesOut (env : SessionEnv) (path : String) (state : ℕ × SessionFile) :
    Move (ℕ × SessionFile) SessionError → Prop
  | .work next => ahead env path state = ahead env path next ∧ linesLeft next < linesLeft state
  | .deliver output next =>
    ahead env path state = (output :: (ahead env path next).1, (ahead env path next).2) ∧
      linesLeft next < linesLeft state
  | .ret result => ahead env path state = ([], result)

variable {senv : SessionEnv} {path : String}

theorem givesOut_replayMove (state : ℕ × SessionFile) :
    GivesOut senv path state (replayMove senv path state) := by
  obtain ⟨index, source | _ | ⟨source | line, lines⟩⟩ := state
  · rfl
  · rfl
  · rfl
  · rw [replayMove]
    cases hread : readLine senv path (index + 1) line with
    | error error =>
      show records senv path index (.ok line :: lines) = ([], .error error)
      rw [records, hread]
    | ok output =>
      cases output with
      | none =>
        refine ⟨?_, Nat.lt_succ_self _⟩
        show records senv path index (.ok line :: lines) = records senv path (index + 1) lines
        rw [records, hread]
      | some output =>
        refine ⟨?_, Nat.lt_succ_self _⟩
        show records senv path index (.ok line :: lines) = _
        rw [records, hread]
        rfl

/-! ### Runs of a replay -/

/-- What has been delivered and what is still to come make up the file. -/
structure Streams (env : SessionEnv) (path : String) (file : SessionFile)
    (s : RunStdout (ℕ × SessionFile) SessionError) : Prop where
  running : s.returned = none → fileRecords env path file
    = (s.sent ++ (ahead env path s.source).1, (ahead env path s.source).2)
  returned : ∀ result, s.returned = some result → fileRecords env path file = (s.sent, result)

variable {env : AppEnv} {filter : DisplayFilter} {flushes : SessionWriter → Option SessionError}
  {save : Option SessionWriter} {file : SessionFile} {s after : RunStdout (ℕ × SessionFile) SessionError}

@[simp] theorem deliver_sent {σ ε : Type} (s : RunStdout σ ε) (output : Output) :
    (s.deliver output).sent = s.sent ++ [output] := by
  unfold RunStdout.deliver
  split <;> rfl

@[simp] theorem deliver_source {σ ε : Type} (s : RunStdout σ ε) (output : Output) :
    (s.deliver output).source = s.source := by
  unfold RunStdout.deliver
  split <;> rfl

@[simp] theorem deliver_returned {σ ε : Type} (s : RunStdout σ ε) (output : Output) :
    (s.deliver output).returned = s.returned := by
  unfold RunStdout.deliver
  split <;> rfl

theorem streams_step (h : Streams senv path file s)
    (hstep : StdoutStep env filter flushes (replaySource senv path) s after) :
    Streams senv path file after := by
  have hgives := @givesOut_replayMove senv path s.source
  cases hstep with
  | work hrunning hmove =>
    rw [show replayMove senv path s.source = _ from hmove] at hgives
    refine ⟨fun _ => ?_, h.returned⟩
    rw [h.running hrunning, hgives.1]
  | @deliver output next hrunning hmove =>
    rw [show replayMove senv path s.source = _ from hmove] at hgives
    constructor
    · intro _
      rw [h.running hrunning, hgives.1, deliver_sent, deliver_source, List.append_assoc,
        List.singleton_append]
    · intro result hresult
      rw [deliver_returned] at hresult
      rw [show s.returned = some result from hresult] at hrunning
      cases hrunning
  | @ret result hrunning hmove =>
    rw [show replayMove senv path s.source = _ from hmove] at hgives
    have hahead : ahead senv path s.source = ([], result) := hgives
    refine ⟨fun hnone => (by cases hnone), ?_⟩
    intro result' hresult
    rw [h.running hrunning, hahead, List.append_nil, Option.some.inj hresult]
  | closeOutput => exact ⟨h.running, h.returned⟩
  | recv => exact ⟨h.running, h.returned⟩
  | finish => exact ⟨h.running, h.returned⟩
  | join => exact ⟨h.running, h.returned⟩

theorem begin_streams {creates : String → Option SessionError} {save : Option String}
    (h : RunStdout.begin creates save (0, file) = .ok s) : Streams senv path file s := by
  unfold RunStdout.begin at h
  split at h
  · cases h
  · cases h
    refine ⟨fun _ => ?_, fun _ hresult => (by cases hresult)⟩
    cases file <;> rfl

theorem streams_run {s₀ : RunStdout (ℕ × SessionFile) SessionError} (h : Streams senv path file s₀)
    (hreach : ReflTransGen (StdoutStep env filter flushes (replaySource senv path)) s₀ s) :
    Streams senv path file s := by
  induction hreach with
  | refl => exact h
  | tail _ hstep ih => exact streams_step ih hstep

/-- What is still to be done of a replay. -/
def leftToDo (s : RunStdout (ℕ × SessionFile) SessionError) : ℕ :=
  2 * linesLeft s.source + s.returned.isNone.toNat + s.remaining

/-- Each step of a replay leaves less to be done. -/
theorem leftToDo_step (hsound : Sound env filter flushes save s)
    (hstep : StdoutStep env filter flushes (replaySource senv path) s after) :
    leftToDo after < leftToDo s := by
  have hgives := @givesOut_replayMove senv path s.source
  cases hstep with
  | @work next hrunning hmove =>
    rw [show replayMove senv path s.source = _ from hmove] at hgives
    have hless := hgives.2
    show 2 * linesLeft next + s.returned.isNone.toNat + s.remaining < _
    rw [leftToDo]
    omega
  | @deliver output next hrunning hmove =>
    rw [show replayMove senv path s.source = _ from hmove] at hgives
    have hless := hgives.2
    have hremaining : (RunStdout.deliver { s with source := next } output).remaining = s.remaining + 1 := by
      rw [RunStdout.deliver, if_pos (hsound.held hrunning)]
      simp [RunStdout.remaining]
      omega
    rw [leftToDo, leftToDo, deliver_source, deliver_returned, hremaining]
    show 2 * linesLeft next + s.returned.isNone.toNat + _ < _
    omega
  | ret hrunning hmove =>
    show 2 * linesLeft s.source + 0 + s.remaining < _
    rw [leftToDo, hrunning]
    simp
  | closeOutput hreturned htx =>
    show 2 * linesLeft s.source + s.returned.isNone.toNat + _ < _
    simp [leftToDo, RunStdout.remaining, htx]
  | recv hrunning hqueue =>
    show 2 * linesLeft s.source + s.returned.isNone.toNat + _ < _
    simp [leftToDo, RunStdout.remaining, RunStdout.receive, hqueue]
  | finish hrunning hqueue htx =>
    show 2 * linesLeft s.source + s.returned.isNone.toNat + _ < _
    simp [leftToDo, RunStdout.remaining, hrunning]
  | join hrunning hreturned htx hconsumer =>
    show 2 * linesLeft s.source + s.returned.isNone.toNat + _ < _
    simp [leftToDo, RunStdout.remaining, hrunning]

/-- A replay that can do nothing has come to its exit. -/
theorem replay_stuck (hstuck : ∀ after, ¬ StdoutStep env filter flushes (replaySource senv path) s after) :
    s.exit ≠ none := by
  refine exit_of_stuck (fun hrunning => ?_) hstuck
  cases hmove : replayMove senv path s.source with
  | work next => exact hstuck _ (.work hrunning hmove)
  | deliver output next => exact hstuck _ (.deliver hrunning hmove)
  | ret result => exact hstuck _ (.ret hrunning hmove)

/-- What a replay has shown and answered at its exit, when the file holds these records in front of its end
or its first bad line. -/
def Replayed (env : AppEnv) (filter : DisplayFilter) (flushes : SessionWriter → Option SessionError)
    (save : Option SessionWriter) (found : List Output × Except SessionError Unit)
    (s : RunStdout (ℕ × SessionFile) SessionError) : Prop :=
  s.printer.stdout = shown env filter found.1 ∧
    s.exit = some (exitResult found.2 (finish flushes (transcript env filter save found.1).printer))

/-- **A replay comes to its exit**, whatever the order of its steps, and has shown the records in front of
the first bad line. -/
theorem replay_settles (hsound : Sound env filter flushes save s) (hstreams : Streams senv path file s) :
    Settles (StdoutStep env filter flushes (replaySource senv path))
      (Replayed env filter flushes save (fileRecords senv path file)) s := by
  refine settles_of_measure (fun s => Sound env filter flushes save s ∧ Streams senv path file s) leftToDo
    (fun _ _ h hstep => ⟨sound_step h.1 hstep, streams_step h.2 hstep⟩)
    (fun _ _ h hstep => leftToDo_step h.1 hstep) ?_ ⟨hsound, hstreams⟩
  intro last h hstuck
  obtain ⟨exit, hexit⟩ := Option.ne_none_iff_exists'.mp (replay_stuck hstuck)
  obtain ⟨result, consumer, hresult, hconsumer, rfl⟩ := h.1.exited exit hexit
  obtain ⟨_, hqueue, hfinish⟩ := h.1.ended consumer hconsumer
  have hreceived : last.received = last.sent := by rw [← h.1.flow, hqueue, List.append_nil]
  rw [h.2.returned result hresult]
  refine ⟨?_, ?_⟩
  · rw [h.1.printer, hreceived]
    exact transcript_stdout _ _
  · rw [hexit, hfinish, h.1.printer, hreceived]

/-! ### What a stopped run leaves -/

/-- The text of a record, as the recorder writes it in front of a newline. -/
def recordText (libs : SessionLibs) (now : String) (output : Output) : List Char :=
  (libs.toWriter (.fromOutput libs.env now output)).toList

/-- The file of a run that is stopped here: the lines of the records written, and behind them some of the
bytes of the next one's line, which the program was writing or could not write. -/
structure Left {σ ε : Type} (libs : SessionLibs) (clock : ℕ → String) (s : RunStdout σ ε)
    (writer : SessionWriter) (piece : List UInt8) : Prop where
  file : s.file = some writer
  piece : piece = [] ∨ ∃ output, s.sent[writer.written.length]? = some output ∧
    piece <+: encode (ended '\n' (recordText libs (clock writer.written.length) output))

/-- The bytes of this file. -/
def leftBytes (libs : SessionLibs) (clock : ℕ → String) (writer : SessionWriter) (piece : List UInt8) :
    List UInt8 :=
  encode (fileText (writer.lines libs clock)).toList ++ piece

/-- `serde_json` refuses an object whose end is missing; no beginning of one is blank. -/
structure Unfinished (libs : SessionLibs) (record : StoredRecord) : Prop where
  printed : ∀ piece, piece ≠ [] → piece <+: (libs.toWriter record).toList → isBlank (.ofList piece) = false
  refused : ∀ piece, piece ≠ [] → piece <+: (libs.toWriter record).toList →
    piece ≠ (libs.toWriter record).toList → ∃ message, libs.fromStr (.ofList piece) = .error message

/-- The next record, if all of its text is there. -/
def finished (libs : SessionLibs) (now : String) (next : Option Output) (piece : List UInt8) : List Output :=
  next.toList.filter fun output => (encode (recordText libs now output)).isPrefixOf piece

/-- Some of its text is there, and not all of it. -/
def Torn (libs : SessionLibs) (now : String) (next : Option Output) (piece : List UInt8) : Prop :=
  piece ≠ [] ∧ finished libs now next piece = []

/-- The error of such a line: the text ends inside a character, or it is the beginning of an object. -/
inductive TornError (libs : SessionLibs) (path : String) (lineNumber : ℕ) (piece : List UInt8) :
    SessionError → Prop
  | character (cut : decode piece = none) :
    TornError libs path lineNumber piece (.io path "stream did not contain valid UTF-8")
  | record {text : List Char} {message : String} (cut : decode piece = some text)
    (refused : libs.fromStr (.ofList text) = .error message) :
    TornError libs path lineNumber piece (.invalidRecord path lineNumber message)

/-- What the file of a stopped run is read as. -/
structure Recovered (libs : SessionLibs) (clock : ℕ → String) (path : String) (writer : SessionWriter)
    (sent : List Output) (piece : List UInt8) (found : List Output × Except SessionError Unit) : Prop where
  outputs : found.1
    = writer.written ++ finished libs (clock writer.written.length) sent[writer.written.length]? piece
  whole : ¬Torn libs (clock writer.written.length) sent[writer.written.length]? piece → found.2 = .ok ()
  torn : Torn libs (clock writer.written.length) sent[writer.written.length]? piece →
    ∃ error, TornError libs path (writer.written.length + 1) piece error ∧ found.2 = .error error

/-- The records of some lines that are read, with what follows them. -/
theorem records_read {senv : SessionEnv} {path : String} {lines : List String} {outputs : List Output}
    (h : List.Forall₂ (fun line output => ∀ n, readLine senv path n line = .ok (some output)) lines outputs)
    (index : ℕ) (rest : List (Except String String)) :
    records senv path index (lines.map .ok ++ rest)
      = (outputs ++ (records senv path (index + lines.length) rest).1,
          (records senv path (index + lines.length) rest).2) := by
  induction h generalizing index with
  | nil => rfl
  | @cons line output lines outputs hline _ ih =>
    rw [List.map_cons, List.cons_append, records]
    simp only [hline, ih, List.length_cons, List.cons_append]
    rw [show index + 1 + lines.length = index + (lines.length + 1) by omega]

/-- A line without line endings in it. -/
def OneLine (line : String) : Prop := '\n' ∉ line.toList ∧ '\r' ∉ line.toList

theorem fileText_toList (lines : List String) :
    (fileText lines).toList = (lines.map String.toList).flatMap (ended '\n') := by
  rw [fileText, String.toList_ofList, List.flatMap_map]

theorem encode_ended (line : List Char) : encode (ended '\n' line) = ended 10 (encode line) :=
  List.flatMap_append

theorem encode_fileText (lines : List String) :
    encode (fileText lines).toList = (lines.map fun line => encode line.toList).flatMap (ended 10) := by
  rw [fileText_toList, encode, List.flatMap_assoc, List.flatMap_map, List.flatMap_map]
  exact List.flatMap_congr fun line _ => encode_ended line.toList

theorem fileText_snoc (lines : List String) (line : String) :
    encode (fileText lines).toList ++ encode (ended '\n' line.toList)
      = encode (fileText (lines ++ [line])).toList := by
  rw [← encode_append, fileText_toList, fileText_toList, List.map_append, List.flatMap_append]
  simp

/-- A file of lines, read back. -/
theorem ofBytes_lines {lines : List String} (h : ∀ line ∈ lines, OneLine line) :
    SessionFile.ofBytes (encode (fileText lines).toList) = .ok (lines.map .ok) := by
  have hnewline : ∀ line ∈ lines.map String.toList, '\n' ∉ line := by
    intro line hline
    obtain ⟨l, hl, rfl⟩ := List.mem_map.mp hline
    exact (h l hl).1
  rw [ofBytes_encode, SessionFile.ofText, fileText_toList, lines_ended hnewline, List.map_map, List.map_map]
  refine congrArg Except.ok (List.map_congr_left fun line hline => ?_)
  show Except.ok (String.ofList (dropCr '\r' line.toList)) = _
  rw [dropCr_of_not_mem (h line hline).2, String.ofList_toList]

/-- The bytes of a line without line endings in it. -/
theorem OneLine.bytes {line : String} (h : OneLine line) :
    10 ∉ encode line.toList ∧ 13 ∉ encode line.toList := by
  constructor
  · intro hmem
    obtain ⟨c, hc, hin⟩ := List.mem_flatMap.mp hmem
    exact h.1 (newline_written.2 c hin ▸ hc)
  · intro hmem
    obtain ⟨c, hc, hin⟩ := List.mem_flatMap.mp hmem
    exact h.2 (cr_written.2 c hin ▸ hc)

/-- The same with a last line that has no newline. -/
theorem ofBytes_unended {lines : List String} (h : ∀ line ∈ lines, OneLine line) {piece : List UInt8}
    (hpiece : 10 ∉ piece) (hne : piece ≠ []) :
    SessionFile.ofBytes (encode (fileText lines).toList ++ piece)
      = .ok (lines.map .ok ++ [decodeLine piece]) := by
  have hnewline : ∀ line ∈ lines.map fun line => encode line.toList, 10 ∉ line := by
    intro line hline
    obtain ⟨l, hl, rfl⟩ := List.mem_map.mp hline
    exact (h l hl).bytes.1
  rw [SessionFile.ofBytes, encode_fileText, lines_unended hnewline hpiece hne, List.map_append, List.map_map,
    List.map_map]
  refine congrArg (fun front => Except.ok (front ++ _)) (List.map_congr_left fun line hline => ?_)
  show decodeLine (dropCr 13 (encode line.toList)) = .ok line
  rw [dropCr_of_not_mem (h line hline).bytes.2, decodeLine_encode, String.ofList_toList]

/-- What is asked of the libraries for the records of a run: that they are stored under an RFC 3339 time,
and printed so that they can be read back. -/
structure Prints (libs : SessionLibs) (clock : ℕ → String) (outputs : List Output) : Prop where
  times : ∀ i, libs.parseRfc3339 (clock i) = .ok ()
  storable : ∀ output ∈ outputs, Storable libs output
  back : ∀ i, ∀ output ∈ outputs, PrintsBack libs (.fromOutput libs.env (clock i) output)
  unfinished : ∀ i, ∀ output ∈ outputs, Unfinished libs (.fromOutput libs.env (clock i) output)

section Left

variable {libs : SessionLibs} {clock : ℕ → String} {sent : List Output}

/-- The line of a record is read as the record. -/
theorem Prints.reads (h : Prints libs clock sent) {output : Output} (hmem : output ∈ sent) (i : ℕ) (path : String)
    (n : ℕ) :
    readLine libs.env path n (libs.toWriter (.fromOutput libs.env (clock i) output)) = .ok (some output) :=
  readLine_written (h.back i output hmem) (fromOutput_version _ _ _)
    (fromOutput_fits (h.storable output hmem) _)
    (intoOutput_fromOutput (h.storable output hmem) (h.times i) path n)

theorem Prints.oneLine (h : Prints libs clock sent) {output : Output} (hmem : output ∈ sent) (i : ℕ) :
    OneLine (libs.toWriter (.fromOutput libs.env (clock i) output)) :=
  ⟨(h.back i output hmem).newline, (h.back i output hmem).carriageReturn⟩

/-- The lines of the records written. -/
theorem Prints.lines (h : Prints libs clock sent) {writer : SessionWriter}
    (hwritten : writer.written <+: sent) (path : String) :
    (∀ line ∈ writer.lines libs clock, OneLine line) ∧
      List.Forall₂ (fun line output => ∀ n, readLine libs.env path n line = .ok (some output))
        (writer.lines libs clock) writer.written := by
  have hmem : ∀ output ∈ writer.written, output ∈ sent := fun _ houtput => hwritten.mem houtput
  rw [SessionWriter.lines]
  constructor
  · intro line hline
    obtain ⟨i, hi, rfl⟩ := List.mem_mapIdx.mp hline
    exact h.oneLine (hmem _ (List.getElem_mem hi)) i
  · rw [List.forall₂_iff_get]
    refine ⟨List.length_mapIdx, ?_⟩
    intro i hi hi' n
    simp only [List.get_eq_getElem, List.getElem_mapIdx]
    exact h.reads (hmem _ (List.getElem_mem hi')) i path n

/-- What is in the file of the next record, when some of its line is. -/
theorem finished_some {now : String} {output : Output} {piece : List UInt8} :
    finished libs now (some output) piece
      = if encode (recordText libs now output) <+: piece then [output] else [] := by
  rw [finished, Option.toList_some]
  split
  · rename_i hwhole
    exact List.filter_cons_of_pos (List.isPrefixOf_iff_prefix.mpr hwhole)
  · rename_i hpart
    exact List.filter_cons_of_neg (mt List.isPrefixOf_iff_prefix.mp hpart)

theorem finished_none {now : String} {piece : List UInt8} : finished libs now none piece = [] := rfl

/-- The text of a record is not empty. -/
theorem Prints.ne_nil (h : Prints libs clock sent) {output : Output} (hmem : output ∈ sent) (i : ℕ) :
    encode (recordText libs (clock i) output) ≠ [] := by
  intro hnil
  have htext : recordText libs (clock i) output = [] := by
    have hdecode := decode_encode (recordText libs (clock i) output)
    rw [hnil] at hdecode
    exact (Option.some.inj ((decode_encode []).symm.trans hdecode)).symm
  have hprinted := (h.back i output hmem).printed
  rw [isBlank, show (libs.toWriter _).toList = [] from htext] at hprinted
  cases hprinted

/-- Nothing of the next record is in a file that ends behind the last line. -/
theorem Prints.finished_nil (h : Prints libs clock sent) (i j : ℕ) :
    finished libs (clock i) sent[j]? [] = [] := by
  cases hnext : sent[j]? with
  | none => exact finished_none
  | some output =>
    rw [finished_some, if_neg]
    exact fun hprefix => h.ne_nil (List.mem_of_getElem? hnext) i (List.prefix_nil.mp hprefix)

/-- **A torn line is refused**, for the character or for the object that is cut. -/
theorem Prints.torn (h : Prints libs clock sent) {output : Output} (hmem : output ∈ sent) (i : ℕ)
    {piece : List UInt8} (hne : piece ≠ []) (hpiece : piece <+: encode (recordText libs (clock i) output))
    (hpart : piece ≠ encode (recordText libs (clock i) output)) (path : String) (n : ℕ) :
    ∃ error, TornError libs path (n + 1) piece error ∧
      records libs.env path n [decodeLine piece] = ([], .error error) := by
  cases hdecode : decode piece with
  | none => exact ⟨_, .character hdecode, by rw [decodeLine, hdecode, records]⟩
  | some text =>
    have hbytes : encode text = piece := decode_eq_some.mp hdecode
    have hprefix : text <+: recordText libs (clock i) output := decode_beginning hpiece hdecode
    have hunfinished := h.unfinished i output hmem
    have htext : text ≠ [] := fun hnil => hne (by rw [← hbytes, hnil]; rfl)
    obtain ⟨message, hmessage⟩ := hunfinished.refused text htext hprefix fun hall => hpart (by
      rw [← hbytes, hall]
      rfl)
    refine ⟨_, .record hdecode hmessage, ?_⟩
    have htorn : readLine libs.env path (n + 1) (.ofList text)
        = .error (.invalidRecord path (n + 1) message) := by
      rw [readLine, hunfinished.printed text htext hprefix, if_neg Bool.false_ne_true]
      rw [show libs.env.fromStr (.ofList text) = _ from hmessage]
    rw [← hbytes, decodeLine_encode, records, htorn]

/-- **What the file of a stopped run is read as.** -/
theorem Prints.recovered (h : Prints libs clock sent) {writer : SessionWriter}
    (hwritten : writer.written <+: sent) {piece : List UInt8}
    (hpiece : piece = [] ∨ ∃ output, sent[writer.written.length]? = some output ∧
      piece <+: encode (ended '\n' (recordText libs (clock writer.written.length) output))) (path : String) :
    Recovered libs clock path writer sent piece
      (fileRecords libs.env path (.ofBytes (leftBytes libs clock writer piece))) := by
  obtain ⟨hone, hreads⟩ := h.lines hwritten path
  have hlength : (writer.lines libs clock).length = writer.written.length := List.length_mapIdx
  have hfile : ∀ rest, fileRecords libs.env path (.ok ((writer.lines libs clock).map .ok ++ rest))
      = (writer.written ++ (records libs.env path writer.written.length rest).1,
          (records libs.env path writer.written.length rest).2) := by
    intro rest
    show records libs.env path 0 _ = _
    rw [records_read hreads, Nat.zero_add, hlength]
  by_cases hempty : piece = []
  · subst hempty
    have hfound : fileRecords libs.env path (.ofBytes (leftBytes libs clock writer []))
        = (writer.written, .ok ()) := by
      have hnone := hfile []
      rw [List.append_nil] at hnone
      rw [leftBytes, List.append_nil, ofBytes_lines hone, hnone, records, List.append_nil]
    rw [hfound]
    exact ⟨by rw [h.finished_nil, List.append_nil], fun _ => rfl, fun htorn => absurd rfl htorn.1⟩
  · obtain ⟨output, hnext, hpiece⟩ := hpiece.resolve_left hempty
    have hmem : output ∈ sent := List.mem_of_getElem? hnext
    have hline := h.oneLine hmem writer.written.length
    rw [encode_ended] at hpiece
    have hfinished := @finished_some libs (clock writer.written.length) output piece
    rw [← hnext] at hfinished
    by_cases hwhole : encode (recordText libs (clock writer.written.length) output) <+: piece
    · rw [if_pos hwhole] at hfinished
      have hrecord : records libs.env path writer.written.length
          [.ok (libs.toWriter (.fromOutput libs.env (clock writer.written.length) output))]
          = ([output], .ok ()) := by
        rw [records, h.reads hmem]
        rfl
      -- the newline is there, or it alone is missing
      have htext : SessionFile.ofBytes (leftBytes libs clock writer piece)
          = .ok ((writer.lines libs clock).map .ok
              ++ [.ok (libs.toWriter (.fromOutput libs.env (clock writer.written.length) output))]) := by
        rcases List.prefix_concat_iff.mp hpiece with rfl | hpiece
        · rw [leftBytes, ← ended, ← encode_ended, recordText, fileText_snoc, ofBytes_lines, List.map_append]
          · rfl
          · intro line hmem
            rcases List.mem_append.mp hmem with hmem | hmem
            · exact hone line hmem
            · exact List.mem_singleton.mp hmem ▸ hline
        · rw [← hwhole.eq_of_length_le hpiece.length_le, leftBytes, recordText, ofBytes_unended hone hline.bytes.1
            (h.ne_nil hmem _), decodeLine_encode, String.ofList_toList]
      rw [htext, hfile, hrecord]
      exact ⟨by rw [hfinished], fun _ => rfl, fun htorn => absurd htorn.2 (by rw [hfinished]; simp)⟩
    · rw [if_neg hwhole] at hfinished
      have hpiece : piece <+: encode (recordText libs (clock writer.written.length) output) := by
        rcases List.prefix_concat_iff.mp hpiece with rfl | hpiece
        · exact absurd (List.prefix_append _ _) hwhole
        · exact hpiece
      obtain ⟨error, herror, hrecord⟩ := h.torn hmem _ hempty hpiece
        (fun hall => hwhole (hall ▸ List.prefix_refl _)) path writer.written.length
      rw [leftBytes, ofBytes_unended hone (fun hnl => hline.bytes.1 (hpiece.mem hnl)) hempty, hfile, hrecord]
      exact ⟨by rw [hfinished], fun hwhole => absurd ⟨hempty, hfinished⟩ hwhole, fun _ => ⟨error, herror, rfl⟩⟩

end Left

/-! ### Two runs -/

theorem exitResult_ok {ε : Type} {result : Except ε Unit} {consumer : Except PrinterError Unit}
    (h : exitResult result consumer = .ok ()) : consumer = .ok () := by
  rcases result with error | _
  · cases h
  · rcases consumer with error | _
    · cases h
    · rfl

/-- A consumer that returns `Ok` has had no error from the recorder. -/
theorem finish_ok {printer : Printer} (h : finish flushes printer = .ok ()) :
    printer.recorderError = none := by
  rw [finish] at h
  cases hflush : printer.recorder.bind flushes with
  | some error =>
    rw [hflush] at h
    cases h
  | none =>
    cases hrecording : printer.recorderError with
    | none => rfl
    | some message =>
      rw [hflush, hrecording] at h
      cases h

/-- What the file of a run holds: a beginning of what was received, all of it while nothing has stopped the
recording. -/
theorem file_written {σ ε : Type} {save : String} {s : RunStdout σ ε}
    (h : Sound env filter flushes (some (SessionWriter.create save)) s) {writer : SessionWriter}
    (hfile : s.file = some writer) :
    writer.written <+: s.received ∧ (s.printer.recorderError = none → writer.written = s.received) := by
  rw [h.file] at hfile
  rw [h.printer]
  have hbegins := @recording_begins env.faults (SessionWriter.create save) s.received
  rcases hrecording : recording env.faults (SessionWriter.create save) s.received
    with ⟨written, _ | error⟩
  · rw [transcript_whole hrecording] at hfile
    cases hfile
    exact ⟨List.prefix_refl _, fun _ => rfl⟩
  · rw [transcript_stopped hrecording] at hfile ⊢
    rw [hrecording] at hbegins
    cases hfile
    exact ⟨hbegins, fun hnone => (by cases hnone)⟩

/-- **What a stopped run has shown is shown again.**  A run with `--save` is stopped anywhere, also while it
writes a line, between any two bytes, and its file replayed, with any filter.  The replay comes to its exit
in every order of its steps.  It shows the records written, and the next one if all of its text is there, in
order and no others; and it fails exactly if there is only a part of that text, with the error of its line.
Unless the recording had failed this is everything that was on stdout when the run was stopped; and a run
that came to its exit without an error is replayed whole. -/
theorem interrupted_replays {σ ε : Type} (libs : SessionLibs) (clock : ℕ → String)
    (env : AppEnv) (filter : DisplayFilter) (flushes : SessionWriter → Option SessionError)
    (source : Source σ ε) (creates : String → Option SessionError) (save : String) (start : σ)
    (s₀ s : RunStdout σ ε) (hbegin : RunStdout.begin creates (some save) start = .ok s₀)
    (hreach : ReflTransGen (StdoutStep env filter flushes source) s₀ s)
    (hprints : Prints libs clock s.sent) (writer : SessionWriter) (piece : List UInt8)
    (hleft : Left libs clock s writer piece)
    (env' : AppEnv) (filter' : DisplayFilter) (flushes' : SessionWriter → Option SessionError)
    (creates' : String → Option SessionError) (save' : Option String) (path : String)
    (r₀ r : RunStdout (ℕ × SessionFile) SessionError)
    (hbegin' : RunStdout.begin creates' save' (0, .ofBytes (leftBytes libs clock writer piece)) = .ok r₀)
    (hreach' : ReflTransGen (StdoutStep env' filter' flushes' (replaySource libs.env path)) r₀ r) :
    ∃ found, Recovered libs clock path writer s.sent piece found ∧
      (s.printer.recorderError = none → s.printer.stdout <+: shown env filter found.1) ∧
      (s.exit = some (.ok ()) → found = (s.sent, .ok ())) ∧
      Settles (StdoutStep env' filter' flushes' (replaySource libs.env path))
        (Replayed env' filter' flushes' (save'.map SessionWriter.create) found) r := by
  have hsound : Sound env filter flushes (some (SessionWriter.create save)) s :=
    sound_run (begin_sound hbegin) hreach
  obtain ⟨hwritten, hall⟩ := file_written hsound hleft.file
  have hsent : s.received <+: s.sent := ⟨s.queue, hsound.flow⟩
  have hrecovered := hprints.recovered (hwritten.trans hsent) hleft.piece path
  refine ⟨_, hrecovered, ?_, ?_, ?_⟩
  · intro hrecording
    rw [hsound.printer, hrecovered.outputs, shown_append, hall hrecording]
    exact ⟨shown env filter _, congrArg (· ++ _) (transcript_stdout _ _)⟩
  · intro hexit
    obtain ⟨returned, consumer, _, hconsumer, hresult⟩ := hsound.exited _ hexit
    obtain ⟨_, hqueue, rfl⟩ := hsound.ended consumer hconsumer
    have hsame : s.received = s.sent := by rw [← hsound.flow, hqueue, List.append_nil]
    have hwhole : writer.written = s.sent := (hall (finish_ok (exitResult_ok hresult.symm))).trans hsame
    -- there is no next record, so nothing of it is in the file
    have hnone : s.sent[writer.written.length]? = none := by rw [hwhole, List.getElem?_length]
    have hempty : piece = [] := by
      refine hleft.piece.resolve_right ?_
      rintro ⟨output, hnext, _⟩
      rw [hnone] at hnext
      cases hnext
    refine Prod.ext ?_ (hrecovered.whole fun htorn => htorn.1 hempty)
    rw [hrecovered.outputs, hnone, finished_none, List.append_nil, hwhole]
  · exact replay_settles (sound_run (begin_sound hbegin') hreach')
      (streams_run (begin_streams hbegin') hreach')

/-- A source of a line and a row. -/
def lineThenRow : Source ℕ String
  | 0, .deliver output next => output = lineOutput ∧ next = 1
  | 1, .deliver output next => output = rowOutput ∧ next = 2
  | 2, .ret result => result = .ok ()
  | _, _ => False

/-- The line is written, the row is waiting. -/
def oneWritten : RunStdout ℕ String :=
  let writer : SessionWriter := ⟨"out.jsonl", [lineOutput]⟩
  { source := 2, returned := none, tx := true, queue := [rowOutput]
    printer := ⟨some writer, none, ["a\n\"b\""], []⟩, file := some writer, consumer := none, exit := none
    sent := [lineOutput, rowOutput], received := [lineOutput] }

theorem oneWritten_run {s₀ : RunStdout ℕ String}
    (hbegin : RunStdout.begin (fun _ => none) (some "out.jsonl") 0 = .ok s₀) :
    ReflTransGen (StdoutStep faultless {} (fun _ => none) lineThenRow) s₀ oneWritten := by
  cases hbegin
  have hfirst : lineThenRow 0 (.deliver lineOutput 1) := ⟨rfl, rfl⟩
  have hsecond : lineThenRow 1 (.deliver rowOutput 2) := ⟨rfl, rfl⟩
  refine .head (.deliver rfl hfirst) (.head (.deliver rfl hsecond) (.head (.recv rfl rfl) ?_))
  exact .refl

/-- No beginning of a text with a brace in front is blank. -/
theorem brace_not_blank {text piece : List Char} (hbrace : ∃ rest, text = '\x7b' :: rest) (hne : piece ≠ [])
    (hpiece : piece <+: text) : isBlank (.ofList piece) = false := by
  obtain ⟨rest, rfl⟩ := hbrace
  cases piece with
  | nil => exact absurd rfl hne
  | cons c piece =>
    have hspace : Utf8.isWhitespace '\x7b' = false := by decide
    rw [isBlank, String.toList_ofList, (List.cons_prefix_cons.mp hpiece).1, List.all_cons, hspace,
      Bool.false_and]

theorem lineText_brace : ∃ rest, lineText.toList = '\x7b' :: rest := by
  unfold lineText
  rw [String.toList_append]
  exact ⟨_, rfl⟩

theorem rowText_brace : ∃ rest, rowText.toList = '\x7b' :: rest := by
  unfold rowText
  simp only [String.toList_append, List.append_assoc]
  exact ⟨_, rfl⟩

/-- How a text begins, by its characters. -/
theorem beginning (text : String) {front rest : String} {chars : List Char} (htext : text = front ++ rest)
    (hfront : front = .ofList chars) : chars <+: text.toList := by
  rw [htext, hfront, String.toList_append, String.toList_ofList]
  exact List.prefix_append _ _

/-- The row's text does not begin with the line's: their times differ. -/
theorem line_not_beginning : ¬lineText.toList <+: rowText.toList := by
  intro h
  have hline := (beginning lineText rfl rfl).trans h
  have hrow := beginning rowText (String.append_assoc.trans (String.append_assoc.trans rfl)) rfl
  rcases List.prefix_or_prefix_of_prefix hline hrow with h | h
  · revert h
    decide +kernel
  · revert h
    decide +kernel

theorem unfinished_line : Unfinished savedLibs lineRecord := by
  constructor <;> rw [toWriter_line]
  · exact fun piece => brace_not_blank lineText_brace
  · intro piece _ hpiece hpart
    have hrow : String.ofList piece ≠ rowText := by
      intro hrow
      have harrow := arrow_row
      rw [← hrow, String.toList_ofList] at harrow
      exact arrow_line (hpiece.mem harrow)
    have hline : String.ofList piece ≠ lineText := by
      intro hline
      rw [← hline, String.toList_ofList] at hpart
      exact hpart rfl
    exact ⟨_, (if_neg hrow).trans (if_neg hline)⟩

theorem unfinished_row : Unfinished savedLibs rowRecord := by
  constructor <;> rw [toWriter_row]
  · exact fun piece => brace_not_blank rowText_brace
  · intro piece _ hpiece hpart
    have hrow : String.ofList piece ≠ rowText := by
      intro hrow
      rw [← hrow, String.toList_ofList] at hpart
      exact hpart rfl
    have hline : String.ofList piece ≠ lineText := by
      intro hline
      rw [← String.toList_ofList (l := piece), hline] at hpiece
      exact line_not_beginning hpiece
    exact ⟨_, (if_neg hrow).trans (if_neg hline)⟩

/-- The bytes of the row's text up to its arrow, and the first byte of the arrow. -/
def arrowCut : List UInt8 := encode (rowText.toList.takeWhile (· != '→')) ++ [0xe2]

/-- A text at the first place where a character stands. -/
theorem takeWhile_ne_append {c : Char} {text : List Char} (h : c ∈ text) :
    ∃ post, text = text.takeWhile (· != c) ++ c :: post := by
  induction text with
  | nil => cases h
  | cons d text ih =>
    by_cases hd : d = c
    · exact ⟨text, by simp [hd]⟩
    · obtain ⟨post, hpost⟩ := ih ((List.mem_cons.mp h).resolve_left (Ne.symm hd))
      refine ⟨post, ?_⟩
      rw [List.takeWhile_cons_of_pos (by simpa using hd), List.cons_append, ← hpost]

theorem arrowCut_prefix : arrowCut <+: encode rowText.toList := by
  obtain ⟨post, hpost⟩ := takeWhile_ne_append arrow_row
  have harrow : encode ('→' :: post) = [0xe2] ++ ([0x86, 0x92] ++ encode post) := by
    rw [encode, List.flatMap_cons]
    rfl
  refine ⟨[0x86, 0x92] ++ encode post, ?_⟩
  conv => rhs; rw [hpost, encode_append, harrow]
  rw [arrowCut, List.append_assoc]

theorem decode_arrowCut : decode arrowCut = none :=
  decode_inside (c := '→') (by decide) (by decide) (by decide)

/-- The run is stopped in the middle of the arrow of the row, and its file replayed. -/
theorem interrupted_replays_torn :
    ∃ found, Recovered savedLibs (fun _ => lineRecord.timestamp) "out.jsonl" ⟨"out.jsonl", [lineOutput]⟩
        [lineOutput, rowOutput] arrowCut found ∧
      found = ([lineOutput], .error (.io "out.jsonl" "stream did not contain valid UTF-8")) ∧
      ["a\n\"b\""] <+: shown faultless {} found.1 := by
  have hrow : StoredRecord.fromOutput savedLibs.env lineRecord.timestamp rowOutput = rowRecord := by decide
  have hline : StoredRecord.fromOutput savedLibs.env lineRecord.timestamp lineOutput = lineRecord := rfl
  have hprints : Prints savedLibs (fun _ => lineRecord.timestamp) oneWritten.sent := by
    constructor
    · exact fun _ => by simp [savedLibs]
    · intro output houtput
      rcases List.mem_pair.mp houtput with rfl | rfl
      · trivial
      · exact storable_row
    · intro _ output houtput
      rcases List.mem_pair.mp houtput with rfl | rfl
      · exact hline ▸ printsBack_line
      · exact hrow ▸ printsBack_row
    · intro _ output houtput
      rcases List.mem_pair.mp houtput with rfl | rfl
      · exact hline ▸ unfinished_line
      · exact hrow ▸ unfinished_row
  have hrecord : recordText savedLibs lineRecord.timestamp rowOutput = rowText.toList := by
    rw [recordText, hrow, toWriter_row]
  have hleft : Left savedLibs (fun _ => lineRecord.timestamp) oneWritten ⟨"out.jsonl", [lineOutput]⟩
      arrowCut := by
    refine ⟨rfl, .inr ⟨rowOutput, rfl, ?_⟩⟩
    rw [hrecord, encode_ended]
    exact arrowCut_prefix.trans (List.prefix_append _ _)
  obtain ⟨found, hrecovered, hshown, _⟩ := interrupted_replays savedLibs (fun _ => lineRecord.timestamp)
    faultless {} (fun _ => none) lineThenRow (fun _ => none) "out.jsonl" 0 _ oneWritten rfl
    (oneWritten_run rfl) hprints ⟨"out.jsonl", [lineOutput]⟩ arrowCut hleft faultless {} (fun _ => none)
    (fun _ => none) none "out.jsonl" _ _ rfl .refl
  -- the arrow is not whole, so neither is the row
  have hnothing : finished savedLibs lineRecord.timestamp (some rowOutput) arrowCut = [] := by
    rw [finished_some, if_neg]
    intro hwhole
    rw [hrecord] at hwhole
    have hdecode := decode_encode rowText.toList
    rw [hwhole.eq_of_length_le arrowCut_prefix.length_le, decode_arrowCut] at hdecode
    cases hdecode
  refine ⟨found, hrecovered, ?_, hshown rfl⟩
  obtain ⟨error, herror, hresult⟩ := hrecovered.torn ⟨by simp [arrowCut], hnothing⟩
  refine Prod.ext ?_ ?_
  · rw [hrecovered.outputs]
    exact congrArg ([lineOutput] ++ ·) hnothing
  · rw [hresult]
    cases herror with
    | character _ => rfl
    | record hcut _ =>
      rw [decode_arrowCut] at hcut
      cases hcut

end Tapgres.Stdout
