import Mathlib.Algebra.BigOperators.Group.Finset.Basic
import Tapgres.Lib.Run

/-!
# Interleaved runs

The inputs of a machine may belong to components that have nothing to do with each other: `label` says
which component an input belongs to.  A component is separate when there is a relation `Alike k` between
states such that an input of `k` does the same in states alike for `k`, and any other input leaves the
state alike to what it was.  Then the run over an interleaving is, for each component, the run over the
inputs of that component alone:

* `alike_run` — the states at the end are alike, and what is heard of the component is what the lone run
  writes;
* `measure_run` — a measure that an input moves by the same amount in states alike is, after the
  interleaving, the sum over the lone runs.

Nothing here names a concrete machine.
-/

namespace Tapgres.Lib.Interleave

open Tapgres.Lib.Run

variable {σ ε ω κ M : Type*}

/-- The machine, heard at some inputs only. -/
def heard (step : σ → ε → σ × List ω) (mine : ε → Bool) (s : σ) (e : ε) : σ × List ω :=
  ((step s e).1, if mine e then (step s e).2 else [])

variable [DecidableEq κ] [AddCommGroup M]

/-- The input belongs to the component. -/
def labelled (label : ε → Option κ) (k : κ) (e : ε) : Bool := label e = some k

/-- The components of a machine are separate. -/
structure Separable (step : σ → ε → σ × List ω) (label : ε → Option κ) (Alike : κ → σ → σ → Prop)
    (measure : σ → M) : Prop where
  own : ∀ k s s' e, Alike k s s' → label e = some k →
    Alike k (step s e).1 (step s' e).1 ∧ (step s e).2 = (step s' e).2 ∧
      measure (step s e).1 - measure s = measure (step s' e).1 - measure s'
  other : ∀ k s s' e, Alike k s s' → label e ≠ some k → Alike k (step s e).1 s'

variable {step : σ → ε → σ × List ω} {label : ε → Option κ} {Alike : κ → σ → σ → Prop} {measure : σ → M}

/-- **An interleaving is, for each component, its lone run.** -/
theorem alike_run (h : Separable step label Alike measure) {k : κ} {s s' : σ} (hs : Alike k s s')
    (es : List ε) :
    Alike k (run step s es).1 (run step s' (es.filter (labelled label k))).1 ∧
      (run (heard step (labelled label k)) s es).2 = (run step s' (es.filter (labelled label k))).2 := by
  induction es generalizing s s' with
  | nil => exact ⟨hs, rfl⟩
  | cons e es ih =>
    by_cases hk : label e = some k
    · have hmine : labelled label k e = true := decide_eq_true hk
      obtain ⟨halike, hout, _⟩ := h.own k s s' e hs hk
      obtain ⟨ihalike, ihout⟩ := ih halike
      rw [List.filter_cons_of_pos hmine, run_cons, run_cons, run_cons, heard, if_pos hmine, hout]
      exact ⟨ihalike, congrArg (fun out => (step s' e).2 ++ out) ihout⟩
    · have hmine : ¬labelled label k e = true := fun h => hk (of_decide_eq_true h)
      obtain ⟨ihalike, ihout⟩ := ih (h.other k s s' e hs hk)
      rw [List.filter_cons_of_neg hmine, run_cons, run_cons, heard, if_neg hmine]
      exact ⟨ihalike, ihout⟩

/-- **The measure of an interleaving is the sum over its components.** -/
theorem measure_run (h : Separable step label Alike measure) {s : σ} (hs : ∀ k, Alike k s s)
    (hzero : measure s = 0) (K : Finset κ) {es : List ε} (hK : ∀ e ∈ es, ∃ k ∈ K, label e = some k) :
    measure (run step s es).1 = ∑ k ∈ K, measure (run step s (es.filter (labelled label k))).1 := by
  induction es using List.reverseRecOn with
  | nil => simp [hzero]
  | append_singleton es e ih =>
    have ih := ih fun e' he' => hK e' (List.mem_append_left _ he')
    obtain ⟨k, hk, hlabel⟩ := hK e (by simp)
    have hlast : ∀ s, (run step s [e]).1 = (step s e).1 := fun s => by rw [run_singleton]
    -- only the lone run of the component of the last input goes one step further
    have hown : (es ++ [e]).filter (labelled label k) = es.filter (labelled label k) ++ [e] := by
      have hmine : labelled label k e = true := decide_eq_true hlabel
      rw [List.filter_append, List.filter_cons_of_pos hmine, List.filter_nil]
    have hother : ∀ k' ∈ K, k' ≠ k →
        measure (run step s ((es ++ [e]).filter (labelled label k'))).1
          - measure (run step s (es.filter (labelled label k'))).1 = 0 := by
      intro k' _ hne
      have hmine : ¬labelled label k' e = true := by
        intro h
        exact hne (Option.some.inj ((of_decide_eq_true h).symm.trans hlabel))
      rw [List.filter_append, List.filter_cons_of_neg hmine, List.filter_nil, List.append_nil, sub_self]
    obtain ⟨_, _, hmoves⟩ := h.own k _ _ e (alike_run h (hs k) es).1 hlabel
    have hsum := Finset.sum_eq_single k hother fun hnot => absurd hk hnot
    rw [Finset.sum_sub_distrib, hown, run_append, hlast, ← hmoves, ← ih, sub_left_inj] at hsum
    rw [run_append, hlast]
    exact hsum.symm

end Tapgres.Lib.Interleave
