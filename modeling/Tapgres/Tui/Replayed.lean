import Tapgres.Tui.Live
import Tapgres.Tui.Reopen

/-!
# A replay in the running TUI

The source of `run_replay` (`tui.rs`): the newest records of a file go into the channel, behind a status line
if there are older ones, and the channel is closed.

* `Delivers` — what the source has sent, and what is left of it, in every state;
* `newest_tuiSource` — the status line does not cost a record its place;
* `replay_frames` — whatever happens meanwhile, the frame behind the last record is drawn from the newest records
  of the file;
* `replay_drawn` — such a frame can always be reached.
-/

namespace Tapgres.Tui

open Relation (ReflTransGen)
open Tapgres.Decode Tapgres.Filter Tapgres.State Tapgres.Session Tapgres.Replay Tapgres.Lib.Run

/-- The source behind the reading of the file: the records still to be delivered, until the channel is
closed. -/
def replayLive : LiveSource (Option (List Output))
  | some (output :: rest), .deliver given next => given = output ∧ next = some rest
  | some [], .closeOutput next => next = none
  | none, .ret => True
  | _, _ => False

/-- What has been sent of `all`, and what is left. -/
def Delivers (all : List Output) (s : Live (Option (List Output))) : Prop :=
  s.printed = [] ∧
    match s.source with
    | some (some rest) => s.tx = true ∧ s.sent ++ rest = all
    | _ => s.tx = false ∧ s.sent = all

section Delivers

variable {fenv : FilterEnv} {senv : SessionEnv} {all : List Output} {s after : Live (Option (List Output))}

/-- The other thread leaves the source alone, and all that it has sent. -/
theorem Delivers.same (h : Delivers all s) (hprinted : after.printed = s.printed)
    (hsource : after.source = s.source) (htx : after.tx = s.tx) (hsent : after.sent = s.sent) :
    Delivers all after := by
  rw [Delivers, hprinted, hsource, htx, hsent]
  exact h

theorem Delivers.step (h : Delivers all s) (hstep : LiveStep fenv senv replayLive s after) :
    Delivers all after := by
  cases hstep with
  | @work state _ hsource hmove =>
    rcases state with _ | _ | _ <;> exact absurd hmove id
  | @count state _ _ hsource hmove =>
    rcases state with _ | _ | _ <;> exact absurd hmove id
  | @deliver state next output hsource hmove =>
    rcases state with _ | _ | ⟨first, rest⟩
    · exact absurd hmove id
    · exact absurd hmove id
    · obtain ⟨rfl, rfl⟩ := hmove
      rw [Delivers, hsource] at h
      obtain ⟨hprinted, htx, hsent⟩ := h
      rw [Live.deliver, if_pos htx]
      refine ⟨hprinted, htx, ?_⟩
      show s.sent ++ [output] ++ rest = all
      rwa [List.append_assoc]
  | @closeOutput state next hsource hmove =>
    rcases state with _ | _ | ⟨first, rest⟩
    · exact absurd hmove id
    · obtain rfl := hmove
      rw [Delivers, hsource] at h
      obtain ⟨hprinted, _, hsent⟩ := h
      rw [List.append_nil] at hsent
      exact ⟨hprinted, rfl, hsent⟩
    · exact absurd hmove id
  | @ret state hsource hmove =>
    rcases state with _ | _ | ⟨first, rest⟩
    · rw [Delivers, hsource] at h
      exact h
    · exact absurd hmove id
    · exact absurd hmove id
  | key io hphase key more =>
    refine h.same ?_ ?_ ?_ ?_
    all_goals
      unfold Live.key
      dsimp only
      split <;> rfl
  | recv => exact h.same rfl rfl rfl rfl
  | turn => exact h.same rfl rfl rfl rfl
  | draw => exact h.same rfl rfl rfl rfl
  | timeout => exact h.same rfl rfl rfl rfl
  | ready => exact h.same rfl rfl rfl rfl
  | other => exact h.same rfl rfl rfl rfl
  | fail => exact h.same rfl rfl rfl rfl

theorem Delivers.run {start : Live (Option (List Output))} (h : Delivers all start)
    (hreach : ReflTransGen (LiveStep fenv senv replayLive) start s) : Delivers all s := by
  induction hreach with
  | refl => exact h
  | tail _ hstep ih => exact ih.step hstep

theorem begin_delivers {creates : String → Option SessionError} {save : Option String} {mode : String}
    {metrics : Metrics} {rich : Bool} {filter : DisplayFilter} {splashLines : List String}
    (h : Live.begin creates save mode metrics rich filter splashLines (some all) = .ok s) : Delivers all s := by
  unfold Live.begin at h
  split at h <;> cases h
  exact ⟨rfl, rfl, rfl⟩

/-- What has been sent is a beginning, and all of it once the channel is closed. -/
theorem Delivers.sent (h : Delivers all s) : s.sent <+: all ∧ (s.tx = false → s.sent = all) := by
  obtain ⟨_, h⟩ := h
  split at h
  · obtain ⟨htx, hsent⟩ := h
    refine ⟨⟨_, hsent⟩, fun hclosed => ?_⟩
    rw [htx] at hclosed
    cases hclosed
  · obtain ⟨_, hsent⟩ := h
    rw [hsent]
    exact ⟨List.prefix_refl _, fun _ => rfl⟩

end Delivers

/-- **The status line costs no record its place** in the history. -/
theorem newest_tuiSource {senv : SessionEnv} {path : String} {file : SessionFile} {outputs : List Output}
    (hread : readAll senv path file = .ok outputs) : newest (tuiSource senv path file) = newest outputs := by
  by_cases hlen : outputs.length ≤ historyCap
  · rw [tuiSource_of_le hread hlen]
  · rw [Nat.not_le] at hlen
    have hone : (outsideHistory (outputs.length - historyCap)
        :: outputs.drop (outputs.length - historyCap)).length - historyCap = 1 := by
      rw [List.length_cons, List.length_drop]
      omega
    rw [tuiSource_of_lt hread hlen, newest, hone, List.drop_one, List.tail_cons]
    rfl

/-- **What a replay is drawn from**, for every valid file, whatever happens meanwhile: nothing is printed past the
TUI, and once the channel has been closed and found empty, the history is the newest records of the file, unless
it has been cleared or another session opened. -/
theorem replay_frames (fenv : FilterEnv) (senv : SessionEnv) {path : String} {file : SessionFile}
    {outputs : List Output} (hread : readAll senv path file = .ok outputs)
    {creates : String → Option SessionError} {save : Option String} {metrics : Metrics} {rich : Bool}
    {filter : DisplayFilter} {start s : Live (Option (List Output))}
    (hbegin : Live.begin creates save "replay" metrics rich filter [] (some (tuiSource senv path file)) = .ok start)
    (hreach : ReflTransGen (LiveStep fenv senv replayLive) start s) :
    s.printed = [] ∧ s.sent <+: tuiSource senv path file ∧
      ∀ logH, s.phase = .drawing logH → s.tx = false → s.drained = s.sent.length → s.cleared = 0 →
        .opened ∉ s.effects → s.app.events = newest outputs := by
  have hdelivers := (begin_delivers hbegin).run hreach
  have hsound := sound_run (begin_sound hbegin) hreach
  obtain ⟨hsent, hclosed⟩ := hdelivers.sent
  refine ⟨hdelivers.1, hsent, ?_⟩
  intro logH hphase htx hdrained hcleared hopened
  obtain ⟨hreceived, _, hcap, _⟩ := hsound.drawing logH hphase
  obtain ⟨_, base, hholds⟩ := hsound.history hopened
  have hbegins := (List.prefix_append _ _).trans hsound.flow
  have hall : s.received = tuiSource senv path file := by
    rw [← hclosed htx]
    exact hbegins.eq_of_length (by rw [← hreceived, hdrained])
  rw [hcleared, List.drop_zero, hall] at hholds
  rw [hholds.newest hcap, newest_tuiSource hread]

/-! ### The frame is reached -/

/-- The channel is empty and open, with `rest` still to come, and nothing has been cleared or opened. -/
structure Between (rest : List Output) (s : Live (Option (List Output))) : Prop where
  source : s.source = some (some rest)
  tx : s.tx = true
  queue : s.queue = []
  phase : s.phase = .draining
  cleared : s.cleared = 0
  opened : .opened ∉ s.effects

section Between

variable {fenv : FilterEnv} {senv : SessionEnv} {rest : List Output} {s : Live (Option (List Output))}

/-- One record is delivered and received. -/
theorem Between.next {output : Output} (h : Between (output :: rest) s) :
    ∃ after, ReflTransGen (LiveStep fenv senv replayLive) s after ∧ Between rest after := by
  have hlive : s.returned = false := by rw [Live.returned, h.phase]
  let moved : Live (Option (List Output)) := { s with source := some (some rest) }
  have hdeliver : LiveStep fenv senv replayLive s (moved.deliver output) := .deliver h.source ⟨rfl, rfl⟩
  have hmoved : moved.deliver output
      = { moved with queue := s.queue ++ [output], sent := s.sent ++ [output] } :=
    deliver_of_open moved h.tx hlive output
  rw [hmoved, h.queue] at hdeliver
  refine ⟨_, (ReflTransGen.single hdeliver).tail (.recv quietIo h.phase rfl), ?_⟩
  refine ⟨rfl, h.tx, rfl, h.phase, h.cleared, ?_⟩
  intro hmem
  exact (List.mem_append.mp hmem).elim h.opened (opened_receiveTrace output)

/-- So are all of them. -/
theorem Between.all (h : Between rest s) :
    ∃ after, ReflTransGen (LiveStep fenv senv replayLive) s after ∧ Between [] after := by
  induction rest generalizing s with
  | nil => exact ⟨s, .refl, h⟩
  | cons output rest ih =>
    obtain ⟨next, hnext, hbetween⟩ := h.next
    obtain ⟨after, hafter, hall⟩ := ih hbetween
    exact ⟨after, hnext.trans hafter, hall⟩

theorem begin_between {creates : String → Option SessionError} {save : Option String} {mode : String}
    {metrics : Metrics} {rich : Bool} {filter : DisplayFilter} {splashLines : List String}
    (h : Live.begin creates save mode metrics rich filter splashLines (some rest) = .ok s) : Between rest s := by
  unfold Live.begin at h
  split at h <;> cases h
  exact ⟨rfl, rfl, rfl, rfl, rfl, List.not_mem_nil⟩

/-- **Every replay can come to that frame**, on a terminal of any height. -/
theorem replay_drawn (fenv : FilterEnv) (senv : SessionEnv) {creates : String → Option SessionError}
    {save : Option String} {mode : String} {metrics : Metrics} {rich : Bool} {filter : DisplayFilter}
    {splashLines : List String} {start : Live (Option (List Output))}
    (hbegin : Live.begin creates save mode metrics rich filter splashLines (some rest) = .ok start) (termH : ℕ) :
    ∃ s, ReflTransGen (LiveStep fenv senv replayLive) start s ∧ s.phase = .drawing (logHeight termH) ∧
      s.tx = false ∧ s.drained = s.sent.length ∧ s.cleared = 0 ∧ .opened ∉ s.effects := by
  obtain ⟨all, hreach, hall⟩ := (begin_between hbegin).all
  let closed : Live (Option (List Output)) := { all with source := some none, tx := false }
  have hclose : LiveStep fenv senv replayLive all closed := .closeOutput hall.source rfl
  have hturn : LiveStep fenv senv replayLive closed (closed.turn ⟨fenv, quietIo.faults⟩ termH) :=
    .turn quietIo termH hall.phase hall.queue
  exact ⟨_, (hreach.tail hclose).tail hturn, rfl, rfl, rfl, hall.cleared, hall.opened⟩

end Between

/-- A file of two records more than the history holds: its newest fill the history. -/
theorem replay_frames_full :
    ∃ start s, Live.begin (fun _ => none) none "replay" Metrics.new false {} []
        (some (tuiSource validLineEnv "session.jsonl" (validFile (historyCap + 2)))) = .ok start ∧
      ReflTransGen (LiveStep plainFilterEnv validLineEnv replayLive) start s ∧ s.phase = .drawing 14 ∧
      s.printed = [] ∧ s.app.events = List.replicate historyCap (.line "valid") := by
  have hbegin : ∃ start, Live.begin (fun _ => none) none "replay" Metrics.new false {} []
      (some (tuiSource validLineEnv "session.jsonl" (validFile (historyCap + 2)))) = .ok start := ⟨_, rfl⟩
  obtain ⟨start, hbegin⟩ := hbegin
  obtain ⟨s, hreach, hphase, htx, hdrained, hcleared, hopened⟩ :=
    replay_drawn plainFilterEnv validLineEnv hbegin 24
  obtain ⟨hprinted, _, hframes⟩ :=
    replay_frames plainFilterEnv validLineEnv (readAll_validFile (historyCap + 2)) hbegin hreach
  refine ⟨start, s, hbegin, hreach, hphase, hprinted, ?_⟩
  rw [hframes _ hphase htx hdrained hcleared hopened, newest, List.length_replicate, List.drop_replicate,
    Nat.sub_sub_self (Nat.le_add_right historyCap 2)]

end Tapgres.Tui
