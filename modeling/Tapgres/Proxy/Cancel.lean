import Tapgres.Lib.Run
import Tapgres.Proxy.Relay

/-!
# The relay of a cancel request

`raw_relay` of `proxy.rs`: two `tokio::io::copy` joined by `try_join!`.  Each copies until it reads the
end of its stream, and shuts nothing down; only when both have ended, or one has failed, are the two
streams dropped.

* `cancelStep_propagates` — what a step must not do for a close to be passed on in every state;
* `close_propagated_iff` — and what the steps of a run must not do.
-/

namespace Tapgres.Proxy

open Tapgres.Net Tapgres.Flow Tapgres.Lib.Run

/-- The stream from one peer, and the copy of it to the other. -/
structure CopyLeg where
  /-- The peer has closed its sending direction. -/
  closed : Bool
  /-- What the peer has sent and the copy has still to read. -/
  unread : Bytes
  /-- What the copy has read and still to write. -/
  buffer : Bytes
  /-- The copy has read the end of the stream. -/
  readDone : Bool
  written : Bytes
  deriving DecidableEq, Repr

/-- The copy has returned. -/
def CopyLeg.finished (leg : CopyLeg) : Bool := leg.readDone && leg.buffer.isEmpty

structure Cancel where
  client : CopyLeg
  server : CopyLeg
  /-- One of the copies has failed. -/
  failed : Bool
  deriving DecidableEq, Repr

/-- `raw_relay` as it is entered: the request itself is with the server. -/
def Cancel.start (head : Bytes) : Cancel :=
  { client := { closed := false, unread := [], buffer := [], readDone := false, written := head }
    server := { closed := false, unread := [], buffer := [], readDone := false, written := [] }
    failed := false }

def Cancel.leg (c : Cancel) : Role → CopyLeg
  | .client => c.client
  | .server => c.server

def Cancel.setLeg (c : Cancel) (role : Role) (leg : CopyLeg) : Cancel :=
  match role with
  | .client => { c with client := leg }
  | .server => { c with server := leg }

/-- `try_join!` has returned, and with it `raw_relay`: both streams are dropped, and so shut down. -/
def Cancel.over (c : Cancel) : Bool := c.failed || c.client.finished && c.server.finished

/-- What a peer or a copy may do. -/
inductive CancelAction where
  | send (role : Role) (bytes : Bytes)
  | close (role : Role)
  /-- A read that returns at most `n` bytes. -/
  | read (role : Role) (n : ℕ)
  /-- A read that returns the end of the stream. -/
  | eof (role : Role)
  /-- A write that takes at most `n` bytes. -/
  | write (role : Role) (n : ℕ)
  /-- A read or write that fails. -/
  | fail
  deriving DecidableEq, Repr

/-- The actions of the copies, failures apart. -/
def CancelAction.isCopy : CancelAction → Bool
  | .read .. | .eof .. | .write .. => true
  | _ => false

/-- One action; what it writes.  An action that is not possible changes nothing, as a poll that is not
ready. -/
def cancelStep (c : Cancel) : CancelAction → Cancel × List (Role × Bytes)
  | .send role bytes =>
    let leg := c.leg role
    (if leg.closed then c else c.setLeg role { leg with unread := leg.unread ++ bytes }, [])
  | .close role => (c.setLeg role { c.leg role with closed := true }, [])
  | .read role n =>
    let leg := c.leg role
    (if c.over || leg.readDone then c
      else c.setLeg role { leg with buffer := leg.buffer ++ leg.unread.take n, unread := leg.unread.drop n },
      [])
  | .eof role =>
    let leg := c.leg role
    (if !c.over && leg.closed && leg.unread.isEmpty then c.setLeg role { leg with readDone := true } else c,
      [])
  | .write role n =>
    let leg := c.leg role
    if c.over then (c, [])
    else
      (c.setLeg role { leg with written := leg.written ++ leg.buffer.take n, buffer := leg.buffer.drop n },
        [(role, leg.buffer.take n)])
  | .fail => ({ c with failed := true }, [])

/-! ### Passing a close on -/

/-- The peer has closed, and all it sent has been forwarded. -/
def CopyLeg.Drained (leg : CopyLeg) : Prop := leg.closed = true ∧ leg.unread = [] ∧ leg.buffer = []

instance (leg : CopyLeg) : Decidable leg.Drained := inferInstanceAs (Decidable (_ ∧ _ ∧ _))

/-- The server has closed, the client waits for the end of the relay's stream, and the relay for the end
of the client's. -/
def Cancel.Deadlocked (c : Cancel) : Prop :=
  c.server.closed = true ∧ c.server.finished = true ∧ c.client.closed = false ∧ c.client.unread = [] ∧
    c.client.buffer = [] ∧ c.over = false

instance (c : Cancel) : Decidable c.Deadlocked := inferInstanceAs (Decidable (_ ∧ _ ∧ _ ∧ _ ∧ _ ∧ _))

/-- A close has been passed on: where a peer has closed and all it sent has been forwarded, the stream to
the other has been shut down. -/
structure Cancel.Propagates (c : Cancel) : Prop where
  shut : ∀ role, (c.leg role).Drained → c.over = true
  notDeadlocked : ¬c.Deadlocked

/-- What a step must not do while the relay runs: close a stream of which all has been forwarded, or
forward the rest of one that is closed. -/
def Unfinished (c : Cancel) : CancelAction → Prop
  | .close role => c.over = true ∨ (c.leg role).unread ≠ [] ∨ (c.leg role).buffer ≠ []
  | .write role n =>
    c.over = true ∨ (c.leg role).closed = false ∨ (c.leg role).unread ≠ [] ∨ (c.leg role).buffer.drop n ≠ []
  | _ => True

/-- The copies read no further than the end. -/
def Cancel.Ok (c : Cancel) : Prop :=
  ∀ role, (c.leg role).readDone = true → (c.leg role).closed = true ∧ (c.leg role).unread = []

@[simp] theorem leg_setLeg_self (c : Cancel) (role : Role) (leg : CopyLeg) :
    (c.setLeg role leg).leg role = leg := by
  cases role <;> rfl

theorem leg_setLeg_of_ne (c : Cancel) {role role' : Role} (h : role' ≠ role) (leg : CopyLeg) :
    (c.setLeg role leg).leg role' = c.leg role' := by
  cases role <;> cases role' <;> first | rfl | exact absurd rfl h

theorem finished_drained {c : Cancel} (hok : c.Ok) {role : Role} (h : (c.leg role).finished = true) :
    (c.leg role).Drained := by
  obtain ⟨hdone, hbuffer⟩ := Bool.and_eq_true_iff.mp h
  obtain ⟨hclosed, hunread⟩ := hok role hdone
  exact ⟨hclosed, hunread, List.isEmpty_iff.mp hbuffer⟩

theorem over_eq (c : Cancel) (role : Role) :
    c.over = (c.failed || (c.leg role).finished && (c.leg (other role)).finished) := by
  cases role
  · rfl
  · rw [Cancel.over, Bool.and_comm]
    rfl

/-- A relay that is over has passed everything on. -/
theorem propagates_of_over {c : Cancel} (h : c.over = true) : c.Propagates :=
  ⟨fun _ _ => h, fun ⟨_, _, _, _, _, hover⟩ => by rw [h] at hover; cases hover⟩

theorem propagates_of_shut {c : Cancel} (hok : c.Ok) (h : ∀ role, (c.leg role).Drained → c.over = true) :
    c.Propagates := by
  refine ⟨h, fun ⟨_, hfinished, _, _, _, hover⟩ => ?_⟩
  rw [h .server (finished_drained hok hfinished)] at hover
  cases hover

/-- A change of one leg of a running relay is passed on unless it leaves that leg drained: the other copy
has not returned. -/
theorem setLeg_propagates {c : Cancel} (hok : c.Ok) (hgood : c.Propagates) (hover : c.over = false)
    {role : Role} {leg : CopyLeg} (hok' : (c.setLeg role leg).Ok) :
    (c.setLeg role leg).Propagates ↔ ¬leg.Drained := by
  have hnot : ∀ r, ¬(c.leg r).Drained := fun r hdrained => by
    rw [hgood.shut r hdrained] at hover
    cases hover
  have hother : other role ≠ role := by cases role <;> decide
  have hrunning : (c.setLeg role leg).over = false := by
    have hfailed : (c.setLeg role leg).failed = c.failed := by cases role <;> rfl
    have hreturned : (c.leg (other role)).finished = false :=
      Bool.eq_false_iff.mpr fun h => hnot _ (finished_drained hok h)
    rw [over_eq c role, Bool.or_eq_false_iff] at hover
    rw [over_eq _ role, hfailed, hover.1, leg_setLeg_of_ne c hother, hreturned, Bool.and_false]
    rfl
  constructor
  · intro h hdrained
    rw [h.shut role (by rwa [leg_setLeg_self])] at hrunning
    cases hrunning
  · intro h
    apply propagates_of_shut hok'
    intro r hdrained
    by_cases hr : r = role
    · subst hr
      rw [leg_setLeg_self] at hdrained
      exact absurd hdrained h
    · rw [leg_setLeg_of_ne c hr] at hdrained
      exact absurd hdrained (hnot r)

theorem setLeg_ok {c : Cancel} (hok : c.Ok) {role : Role} {leg : CopyLeg}
    (h : leg.readDone = true → leg.closed = true ∧ leg.unread = []) : (c.setLeg role leg).Ok := by
  intro r hdone
  by_cases hr : r = role
  · subst hr
    rw [leg_setLeg_self] at hdone ⊢
    exact h hdone
  · rw [leg_setLeg_of_ne c hr] at hdone ⊢
    exact hok r hdone

theorem cancelStep_ok (c : Cancel) (a : CancelAction) (hok : c.Ok) : (cancelStep c a).1.Ok := by
  cases a with
  | send role bytes =>
    show Cancel.Ok (if (c.leg role).closed then c else _)
    split
    · exact hok
    · rename_i hopen
      exact setLeg_ok hok fun hdone => absurd (hok role hdone).1 hopen
  | close role => exact setLeg_ok hok fun hdone => ⟨rfl, (hok role hdone).2⟩
  | read role n =>
    show Cancel.Ok (if c.over || (c.leg role).readDone then c else _)
    split
    · exact hok
    · rename_i hreading
      exact setLeg_ok hok fun hdone => absurd (Bool.or_eq_true_iff.mpr (.inr hdone)) hreading
  | eof role =>
    show Cancel.Ok (if !c.over && (c.leg role).closed && (c.leg role).unread.isEmpty then _ else c)
    split
    · rename_i hend
      simp only [Bool.and_eq_true, List.isEmpty_iff] at hend
      exact setLeg_ok hok fun _ => ⟨hend.1.2, hend.2⟩
    · exact hok
  | write role n =>
    rw [cancelStep]
    split
    · exact hok
    · exact setLeg_ok hok (hok role)
  | fail => exact hok

/-- A relay that is over stays over. -/
theorem cancelStep_over (c : Cancel) (a : CancelAction) (h : c.over = true) :
    (cancelStep c a).1.over = true := by
  cases a with
  | send role bytes =>
    show Cancel.over (if (c.leg role).closed then c else _) = true
    split
    · exact h
    · cases role <;> exact h
  | close role => cases role <;> exact h
  | read role n => simp [cancelStep, h]
  | eof role => simp [cancelStep, h]
  | write role n => simp [cancelStep, h]
  | fail => rfl

/-- **One step** passes every close on exactly when it does not finish the stream of a closed peer. -/
theorem cancelStep_propagates (c : Cancel) (a : CancelAction) (hok : c.Ok) (hgood : c.Propagates) :
    (cancelStep c a).1.Propagates ↔ Unfinished c a := by
  cases hover : c.over with
  | true =>
    apply iff_of_true (propagates_of_over (cancelStep_over c a hover))
    cases a <;> first | exact .inl hover | trivial
  | false =>
    have hok' := cancelStep_ok c a hok
    have hnot : ∀ r, ¬(c.leg r).Drained := fun r hdrained => by
      rw [hgood.shut r hdrained] at hover
      cases hover
    cases a with
    | send role bytes =>
      refine iff_of_true ?_ trivial
      show Cancel.Propagates (if (c.leg role).closed then c else _)
      change Cancel.Ok (if (c.leg role).closed then c else _) at hok'
      split
      · exact hgood
      · rename_i hopen
        rw [if_neg hopen] at hok'
        exact (setLeg_propagates hok hgood hover hok').mpr fun hdrained => hopen hdrained.1
    | close role =>
      apply (setLeg_propagates hok hgood hover hok').trans
      simp [CopyLeg.Drained, Unfinished, hover, imp_iff_not_or]
    | read role n =>
      refine iff_of_true ?_ trivial
      show Cancel.Propagates (if c.over || (c.leg role).readDone then c else _)
      change Cancel.Ok (if c.over || (c.leg role).readDone then c else _) at hok'
      split
      · exact hgood
      · rename_i hreading
        rw [if_neg hreading] at hok'
        refine (setLeg_propagates hok hgood hover hok').mpr fun ⟨hclosed, hdrop, hbuffer⟩ => ?_
        -- nothing is read of it only if there was nothing
        obtain ⟨hempty, htake⟩ := List.append_eq_nil_iff.mp hbuffer
        have hunread : (c.leg role).unread = [] := by
          rw [← List.take_append_drop n (c.leg role).unread, htake, List.nil_append]
          exact hdrop
        exact hnot role ⟨hclosed, hunread, hempty⟩
    | eof role =>
      refine iff_of_true ?_ trivial
      show Cancel.Propagates (if !c.over && (c.leg role).closed && (c.leg role).unread.isEmpty then _ else c)
      change Cancel.Ok (if !c.over && (c.leg role).closed && (c.leg role).unread.isEmpty then _ else c) at hok'
      split
      · rename_i hend
        rw [if_pos hend] at hok'
        exact (setLeg_propagates hok hgood hover hok').mpr fun hdrained => hnot role hdrained
      · exact hgood
    | write role n =>
      rw [cancelStep, if_neg (by simp [hover])] at hok' ⊢
      apply (setLeg_propagates hok hgood hover hok').trans
      simp [CopyLeg.Drained, Unfinished, hover, imp_iff_not_or]
    | fail => exact iff_of_true (propagates_of_over rfl) trivial

/-- **A close is passed on in every state of a run** exactly when no step of the run, while the relay runs,
finishes the stream of a closed peer. -/
theorem close_propagated_iff (head : Bytes) (actions : List CancelAction) :
    (∀ pre post, actions = pre ++ post → (run cancelStep (.start head) pre).1.Propagates) ↔
      Meets cancelStep Unfinished (.start head) actions := by
  have hstart : (Cancel.start head).Ok := fun role => by cases role <;> exact nofun
  have hgood : (Cancel.start head).Propagates :=
    propagates_of_shut hstart fun role hdrained => by cases role <;> cases hdrained.1
  exact always_iff_meets cancelStep Cancel.Ok Cancel.Propagates cancelStep_ok cancelStep_propagates
    hstart hgood actions

/-- The first half of a cancel request: its length and its code. -/
def cancelHead : Bytes := [0x00, 0x00, 0x00, 0x10, 0x04, 0xd2, 0x16, 0x2e]

/-- The client sends the other half, which is forwarded; the server cancels, and closes. -/
def canceled : List CancelAction :=
  [.send .client [0, 0, 0, 7, 0, 0, 0, 9], .read .client 8, .write .client 8, .close .server, .eof .server]

/-- Where this leaves the relay. -/
def canceledRelay : Cancel :=
  { client := { closed := false, unread := [], buffer := [], readDone := false
                written := cancelHead ++ [0, 0, 0, 7, 0, 0, 0, 9] }
    server := { closed := true, unread := [], buffer := [], readDone := true, written := [] }
    failed := false }

/-- **The deadlock**: the server has closed, the client waits for the end of its stream, and neither copy can
move. -/
theorem cancel_deadlocks :
    (run cancelStep (.start cancelHead) canceled).1 = canceledRelay ∧ canceledRelay.Deadlocked ∧
      ¬canceledRelay.Propagates ∧
      ∀ a, a.isCopy = true → (cancelStep canceledRelay a).1 = canceledRelay := by
  have hdeadlocked : canceledRelay.Deadlocked := by decide
  refine ⟨by decide, hdeadlocked, fun h => h.notDeadlocked hdeadlocked, ?_⟩
  intro a ha
  have hrunning : canceledRelay.over = false := rfl
  cases a with
  | send role bytes => cases ha
  | close role => cases ha
  | read role n =>
    cases role
    · simp [cancelStep, canceledRelay, Cancel.leg, Cancel.setLeg]
    · rfl
  | eof role => cases role <;> rfl
  | write role n =>
    rw [cancelStep, if_neg (by rw [hrunning]; decide)]
    cases role <;> simp [canceledRelay, Cancel.leg, Cancel.setLeg]
  | fail => cases ha

end Tapgres.Proxy
