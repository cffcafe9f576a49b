import Mathlib.Data.List.Basic
import Mathlib.Tactic.Common

/-!
# Runs of a machine that reads inputs and writes outputs

A deterministic machine is a step function `σ → ε → σ × List ω`: it reads one input, moves to a new
state and writes some outputs.  This file has the run over a list of inputs, the condition that every
step of a run meets, and the induction rules that carry an invariant over a whole run:

* `run_append` — a run over `es ++ fs` is the run over `es` followed by the run over `fs`;
* `run_invariant` — what holds at the start and is kept by each step holds at the end, for a property
  of the state, the inputs read so far and the outputs written so far;
* `run_invariant_of_meets` — the same when every step of the run meets a condition on the state it
  starts from and the input it reads;
* `always_iff_meets`, `written_iff_meets` — a condition on the steps that is exact for each step is exact
  for the run, for a property of the states and for one of what has been written;
* `always_iff_meets_of_meets` — the first of them on runs whose steps meet a condition besides;
* `run_last` — what is set in good states only is that of the last good state.

Nothing here names a concrete machine.
-/

namespace Tapgres.Lib.Run

variable {σ ε ω : Type*} (step : σ → ε → σ × List ω)

/-- The run over a list of inputs: the final state and everything written, in order. -/
def run : σ → List ε → σ × List ω
  | s, [] => (s, [])
  | s, e :: es => ((run (step s e).1 es).1, (step s e).2 ++ (run (step s e).1 es).2)

@[simp] theorem run_nil (s : σ) : run step s [] = (s, []) := rfl

theorem run_cons (s : σ) (e : ε) (es : List ε) :
    run step s (e :: es) = ((run step (step s e).1 es).1, (step s e).2 ++ (run step (step s e).1 es).2) :=
  rfl

@[simp] theorem run_singleton (s : σ) (e : ε) : run step s [e] = step s e := by
  simp [run]

theorem run_append (s : σ) (es fs : List ε) :
    run step s (es ++ fs)
      = ((run step (run step s es).1 fs).1, (run step s es).2 ++ (run step (run step s es).1 fs).2) := by
  induction es generalizing s with
  | nil => simp
  | cons e es ih => simp [run_cons, ih, List.append_assoc]

/-- Every step of the run from `s` meets `ok`, a condition on the state before it and its input. -/
def Meets (ok : σ → ε → Prop) : σ → List ε → Prop
  | _, [] => True
  | s, e :: es => ok s e ∧ Meets ok (step s e).1 es

theorem meets_and {ok ok' : σ → ε → Prop} (s : σ) (es : List ε) :
    Meets step (fun s e => ok s e ∧ ok' s e) s es ↔ Meets step ok s es ∧ Meets step ok' s es := by
  induction es generalizing s with
  | nil => simp [Meets]
  | cons e es ih =>
    simp only [Meets, ih]
    tauto

/-- A run meets `ok` exactly when `ok` holds at each place the run can be cut before an input. -/
theorem meets_iff {ok : σ → ε → Prop} (s : σ) (es : List ε) :
    Meets step ok s es ↔ ∀ pre e post, es = pre ++ e :: post → ok (run step s pre).1 e := by
  induction es generalizing s with
  | nil => simp [Meets]
  | cons e es ih =>
    rw [Meets, ih]
    constructor
    · rintro ⟨h0, h⟩ pre e' post heq
      cases pre with
      | nil =>
        obtain ⟨rfl, rfl⟩ := List.cons.inj heq
        exact h0
      | cons x pre =>
        obtain ⟨rfl, rfl⟩ := List.cons.inj heq
        exact h pre e' post rfl
    · intro h
      exact ⟨h [] e es rfl, fun pre e' post heq => h (e :: pre) e' post (by rw [heq]; rfl)⟩

/-- **The run rule, with a condition on the steps.**  `Inv` speaks of the inputs read so far, the state
and the outputs written so far. -/
theorem run_invariant_of_meets {ok : σ → ε → Prop} (Inv : List ε → σ → List ω → Prop) {s₀ : σ}
    (h0 : Inv [] s₀ [])
    (hstep : ∀ past s out e, Inv past s out → ok s e →
      Inv (past ++ [e]) (step s e).1 (out ++ (step s e).2))
    {es : List ε} (hes : Meets step ok s₀ es) :
    Inv es (run step s₀ es).1 (run step s₀ es).2 := by
  suffices h : ∀ es past s out, Inv past s out → Meets step ok s es →
      Inv (past ++ es) (run step s es).1 (out ++ (run step s es).2) by
    simpa using h es [] s₀ [] h0 hes
  intro es
  induction es with
  | nil => intro past s out hinv _; simpa using hinv
  | cons e es ih =>
    intro past s out hinv hm
    have h := ih (past ++ [e]) _ _ (hstep past s out e hinv hm.1) hm.2
    simpa [run_cons, List.append_assoc] using h

theorem meets_of_forall {ok : σ → ε → Prop} {p : ε → Prop} (hok : ∀ s e, p e → ok s e) (s : σ)
    {es : List ε} (hes : ∀ e ∈ es, p e) : Meets step ok s es := by
  induction es generalizing s with
  | nil => trivial
  | cons e es ih =>
    exact ⟨hok s e (hes e (by simp)), ih _ fun e' he' => hes e' (by simp [he'])⟩

/-- **The run rule.**  A property of the inputs read, the state and the outputs written that holds
before the first input and is kept by every step holds after the run. -/
theorem run_invariant (Inv : List ε → σ → List ω → Prop) {s₀ : σ} (h0 : Inv [] s₀ [])
    (hstep : ∀ past s out e, Inv past s out → Inv (past ++ [e]) (step s e).1 (out ++ (step s e).2))
    (es : List ε) : Inv es (run step s₀ es).1 (run step s₀ es).2 :=
  run_invariant_of_meets step Inv h0 (fun past s out e h _ => hstep past s out e h)
    (meets_of_forall step (p := fun _ => True) (fun _ _ _ => trivial) s₀ fun _ _ => trivial)

/-- **The exact run rule, on runs whose steps meet a condition.**  Where, in the states that meet an
invariant, a step that meets `pre` ends in a good state exactly when it meets `ok`, all states of a run
whose steps meet `pre` are good exactly when all its steps meet `ok`. -/
theorem always_iff_meets_of_meets {pre ok : σ → ε → Prop} (Inv Good : σ → Prop)
    (hgood : ∀ s, Inv s → Good s)
    (hstep : ∀ s e, Inv s → pre s e → (Good (step s e).1 ↔ ok s e))
    (hinv : ∀ s e, Inv s → pre s e → ok s e → Inv (step s e).1) {s : σ} (hs : Inv s) {es : List ε}
    (hes : Meets step pre s es) :
    (∀ past rest, es = past ++ rest → Good (run step s past).1) ↔ Meets step ok s es := by
  induction es generalizing s with
  | nil =>
    refine ⟨fun _ => trivial, ?_⟩
    intro _ past rest heq
    rw [(List.append_eq_nil_iff.mp heq.symm).1]
    exact hgood s hs
  | cons e es ih =>
    constructor
    · intro hall
      have hok : ok s e := (hstep s e hs hes.1).mp (by simpa using hall [e] es rfl)
      refine ⟨hok, (ih (hinv s e hs hes.1 hok) hes.2).mp fun past rest heq => ?_⟩
      exact hall (e :: past) rest (by rw [heq]; rfl)
    · rintro ⟨hok, hmeets⟩ past rest heq
      cases past with
      | nil => exact hgood s hs
      | cons a past =>
        obtain ⟨rfl, rfl⟩ := List.cons.inj heq
        exact (ih (hinv s e hs hes.1 hok) hes.2).mpr hmeets past rest rfl

/-- **The exact run rule.**  Where, in the states that meet an invariant, a step from a good state is good
exactly when it meets `ok`, all states of a run are good exactly when all its steps meet `ok`. -/
theorem always_iff_meets {ok : σ → ε → Prop} (Inv Good : σ → Prop)
    (hinv : ∀ s e, Inv s → Inv (step s e).1)
    (hstep : ∀ s e, Inv s → Good s → (Good (step s e).1 ↔ ok s e)) {s : σ} (hs : Inv s) (hgood : Good s)
    (es : List ε) :
    (∀ pre post, es = pre ++ post → Good (run step s pre).1) ↔ Meets step ok s es := by
  have hes : Meets step (fun _ _ => True) s es :=
    meets_of_forall step (p := fun _ => True) (fun _ _ _ => trivial) s fun _ _ => trivial
  exact always_iff_meets_of_meets step (fun s => Inv s ∧ Good s) Good (fun _ h => h.2)
    (fun s e h _ => hstep s e h.1 h.2)
    (fun s e h _ hok => ⟨hinv s e h.1, (hstep s e h.1 h.2).mpr hok⟩) ⟨hs, hgood⟩ hes

/-- The same for a property of what has been written, which holds of the beginnings of what it holds of. -/
theorem written_iff_meets {ok : σ → ε → Prop} (Inv : σ → List ω → Prop) (Good : List ω → Prop)
    (hinv : ∀ s out e, Inv s out → Inv (step s e).1 (out ++ (step s e).2))
    (hbegun : ∀ out more, Good (out ++ more) → Good out)
    (hstep : ∀ s out e, Inv s out → Good out → (Good (out ++ (step s e).2) ↔ ok s e)) {s : σ}
    {out : List ω} (hs : Inv s out) (hgood : Good out) (es : List ε) :
    Good (out ++ (run step s es).2) ↔ Meets step ok s es := by
  induction es generalizing s out with
  | nil => simpa [Meets] using hgood
  | cons e es ih =>
    rw [run_cons, ← List.append_assoc, Meets]
    constructor
    · intro h
      have hnext := hbegun _ _ h
      exact ⟨(hstep s out e hs hgood).mp hnext, (ih (hinv s out e hs) hnext).mp h⟩
    · rintro ⟨hok, hmeets⟩
      exact (ih (hinv s out e hs) ((hstep s out e hs hgood).mpr hok)).mpr hmeets

/-! ### The last good state -/

/-- Of the states of the run over `es` the last good one is that after `pre`. -/
def LastAt (good : σ → Prop) (s : σ) (pre es : List ε) : Prop :=
  good (run step s pre).1 ∧ ∃ post, es = pre ++ post ∧
    ∀ mid rest, post = mid ++ rest → mid ≠ [] → ¬good (run step s (pre ++ mid)).1

theorem lastAt_self {good : σ → Prop} {s : σ} {es : List ε} (h : good (run step s es).1) :
    LastAt step good s es es := by
  refine ⟨h, [], (List.append_nil es).symm, ?_⟩
  intro mid rest hmid hne
  exact absurd (List.append_eq_nil_iff.mp hmid.symm).1 hne

theorem LastAt.snoc {good : σ → Prop} {s : σ} {pre es : List ε} (h : LastAt step good s pre es) {e : ε}
    (hbad : ¬good (run step s (es ++ [e])).1) : LastAt step good s pre (es ++ [e]) := by
  obtain ⟨hgood, post, rfl, hpost⟩ := h
  refine ⟨hgood, post ++ [e], List.append_assoc .., ?_⟩
  intro mid rest hmid hne
  rcases List.eq_nil_or_concat rest with rfl | ⟨rest, e', rfl⟩
  · rw [List.append_nil] at hmid
    rwa [← hmid, ← List.append_assoc]
  · rw [List.concat_eq_append, ← List.append_assoc] at hmid
    exact hpost mid rest (List.append_inj_left' hmid rfl) hne

/-- **What only good states set is that of the last good state**, and there as here the invariant holds. -/
theorem run_last {α : Type*} {ok : σ → ε → Prop} {good : σ → Prop} (Inv : σ → Prop) (value : σ → α)
    (hinv : ∀ s e, Inv s → ok s e → Inv (step s e).1)
    (hkept : ∀ s e, Inv s → ok s e → ¬good (step s e).1 → value (step s e).1 = value s) {s : σ}
    (hs : Inv s) (hgood : good s) {es : List ε} (hes : Meets step ok s es) :
    Inv (run step s es).1 ∧ ∃ pre, LastAt step good s pre es ∧ Inv (run step s pre).1 ∧
      value (run step s es).1 = value (run step s pre).1 := by
  have hrun := run_invariant_of_meets step (fun past state _ => state = (run step s past).1 ∧ Inv state ∧
    ∃ pre, LastAt step good s pre past ∧ Inv (run step s pre).1 ∧ value state = value (run step s pre).1)
    ⟨rfl, hs, [], lastAt_self step hgood, hs, rfl⟩ ?_ hes
  · exact hrun.2
  intro past state _ e ⟨hstate, hstate', pre, hlast, hpre, hvalue⟩ hok
  have hnext : (step state e).1 = (run step s (past ++ [e])).1 := by
    rw [run_append, run_singleton, hstate]
  have hinv' : Inv (step state e).1 := hinv state e hstate' hok
  refine ⟨hnext, hinv', ?_⟩
  by_cases hgood' : good (step state e).1
  · rw [hnext] at hgood' hinv' ⊢
    exact ⟨_, lastAt_self step hgood', hinv', rfl⟩
  · refine ⟨pre, hlast.snoc step ?_, hpre, (hkept state e hstate' hok hgood').trans hvalue⟩
    rwa [← hnext]

end Tapgres.Lib.Run
