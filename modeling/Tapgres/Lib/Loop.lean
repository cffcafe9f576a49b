import Mathlib.Logic.Relation
import Mathlib.Tactic.Common

/-!
# Loops with an exit, run on fuel

The body of a `loop { … }` is a function `turn : σ → σ ⊕ ρ`: it either comes round again with a new
state (`inl`) or leaves the loop with a result (`inr`).  `loop turn n s` runs at most `n` turns.

* `Ends turn s r` — the loop started in `s` leaves with `r`, on some fuel; it is a function of `s`
  (`Ends.unique`) and does not depend on how much more fuel there is (`loop_mono`);
* `ends_of_measure` — a measure that falls on every turn that comes round ends the loop, with a bound
  on the fuel;
* `Ends.invariant` — the invariant rule for the state in which the loop is left;
* `Ends.related` — the rule for two loops that are run side by side.

Nothing here names a concrete loop.
-/

namespace Tapgres.Lib.Loop

variable {σ ρ : Type*} (turn : σ → σ ⊕ ρ)

/-- At most `n` turns of the loop; `none` when the fuel runs out. -/
def loop : ℕ → σ → Option ρ
  | 0, _ => none
  | n + 1, s =>
    match turn s with
    | .inl s' => loop n s'
    | .inr r => some r

/-- The loop started in `s` is left with result `r`. -/
def Ends (s : σ) (r : ρ) : Prop := ∃ n, loop turn n s = some r

/-- One turn that comes round again. -/
def Turns (s s' : σ) : Prop := turn s = .inl s'

variable {turn}

theorem loop_succ_inl {s s' : σ} (h : turn s = .inl s') (n : ℕ) :
    loop turn (n + 1) s = loop turn n s' := by
  rw [loop, h]

theorem loop_succ_inr {s : σ} {r : ρ} (h : turn s = .inr r) (n : ℕ) :
    loop turn (n + 1) s = some r := by
  rw [loop, h]

/-- More fuel does not change the result. -/
theorem loop_mono {n m : ℕ} {s : σ} {r : ρ} (h : loop turn n s = some r) (hnm : n ≤ m) :
    loop turn m s = some r := by
  induction n generalizing s m with
  | zero => simp [loop] at h
  | succ n ih =>
    obtain ⟨m, rfl⟩ : ∃ k, m = k + 1 := ⟨m - 1, by omega⟩
    cases ht : turn s with
    | inl s' =>
      rw [loop_succ_inl ht] at h ⊢
      exact ih h (by omega)
    | inr r' =>
      rw [loop_succ_inr ht] at h ⊢
      exact h

theorem Ends.unique {s : σ} {r r' : ρ} (h : Ends turn s r) (h' : Ends turn s r') : r = r' := by
  obtain ⟨n, hn⟩ := h
  obtain ⟨m, hm⟩ := h'
  have h1 := loop_mono hn (Nat.le_max_left n m)
  have h2 := loop_mono hm (Nat.le_max_right n m)
  rw [h1] at h2
  exact Option.some.inj h2

theorem Ends.exit {s : σ} {r : ρ} (h : turn s = .inr r) : Ends turn s r :=
  ⟨1, loop_succ_inr h 0⟩

theorem Ends.round {s s' : σ} {r : ρ} (h : turn s = .inl s') (hr : Ends turn s' r) :
    Ends turn s r := by
  obtain ⟨n, hn⟩ := hr
  exact ⟨n + 1, by rw [loop_succ_inl h, hn]⟩

theorem Ends.of_turns {s s' : σ} {r : ρ} (h : Relation.ReflTransGen (Turns turn) s s')
    (hr : Ends turn s' r) : Ends turn s r := by
  induction h using Relation.ReflTransGen.head_induction_on with
  | refl => exact hr
  | head h1 _ ih => exact Ends.round h1 ih

/-- A loop that ends still ends, with the same result, after turns that come round. -/
theorem Ends.after {s s' : σ} {r : ρ} (hr : Ends turn s r)
    (h : Relation.ReflTransGen (Turns turn) s s') : Ends turn s' r := by
  induction h with
  | refl => exact hr
  | tail _ hturn ih =>
    obtain ⟨n, hn⟩ := ih
    cases n with
    | zero => simp [loop] at hn
    | succ n =>
      rw [loop_succ_inl hturn] at hn
      exact ⟨n, hn⟩

/-- A loop whose turns are those of another, seen through `f`, ends where the other does. -/
theorem Ends.map {σ' ρ' : Type*} {turn' : σ' → σ' ⊕ ρ'} {f : σ → σ'} {g : ρ → ρ'}
    (hround : ∀ s t, turn s = .inl t → turn' (f s) = .inl (f t))
    (hexit : ∀ s r, turn s = .inr r → turn' (f s) = .inr (g r)) {s : σ} {r : ρ}
    (h : Ends turn s r) : Ends turn' (f s) (g r) := by
  obtain ⟨n, hn⟩ := h
  induction n generalizing s with
  | zero => simp [loop] at hn
  | succ n ih =>
    cases ht : turn s with
    | inl s' =>
      rw [loop_succ_inl ht] at hn
      exact Ends.round (hround s s' ht) (ih hn)
    | inr r' =>
      rw [loop_succ_inr ht] at hn
      exact Ends.exit (Option.some.inj hn ▸ hexit s r' ht)

/-- **The rule for two loops.**  Two loops whose turns keep a relation between their states, and go round or
are left together, end together. -/
theorem Ends.related {σ' ρ' : Type*} {turn' : σ' → σ' ⊕ ρ'} (R : σ → σ' → Prop) (Post : ρ → ρ' → Prop)
    (hturn : ∀ s t, R s t → Sum.LiftRel R Post (turn s) (turn' t)) {s : σ} {t : σ'} {r : ρ} (hR : R s t)
    (h : Ends turn s r) : ∃ r', Ends turn' t r' ∧ Post r r' := by
  obtain ⟨n, hn⟩ := h
  induction n generalizing s t with
  | zero => simp [loop] at hn
  | succ n ih =>
    have hboth := hturn s t hR
    cases hs : turn s with
    | inl s' =>
      rw [loop_succ_inl hs] at hn
      rw [hs] at hboth
      obtain ⟨t', ht, hR'⟩ : ∃ t', turn' t = .inl t' ∧ R s' t' := by
        cases ht : turn' t with
        | inl t' =>
          rw [ht] at hboth
          exact ⟨t', rfl, Sum.liftRel_inl_inl.mp hboth⟩
        | inr t' =>
          rw [ht] at hboth
          exact absurd hboth Sum.not_liftRel_inl_inr
      obtain ⟨r', hends, hpost⟩ := ih hR' hn
      exact ⟨r', Ends.round ht hends, hpost⟩
    | inr s' =>
      rw [loop_succ_inr hs] at hn
      obtain rfl := Option.some.inj hn
      rw [hs] at hboth
      cases ht : turn' t with
      | inl t' =>
        rw [ht] at hboth
        exact absurd hboth Sum.not_liftRel_inr_inl
      | inr t' =>
        rw [ht] at hboth
        exact ⟨t', Ends.exit ht, Sum.liftRel_inr_inr.mp hboth⟩

/-- **The invariant rule.**  What holds on entry and is kept by each turn that comes round holds in the
last state before the exit. -/
theorem Ends.invariant (Inv : σ → Prop) (Post : ρ → Prop)
    (hround : ∀ s s', Inv s → turn s = .inl s' → Inv s')
    (hexit : ∀ s r, Inv s → turn s = .inr r → Post r)
    {s : σ} {r : ρ} (hs : Inv s) (h : Ends turn s r) : Post r := by
  obtain ⟨n, hn⟩ := h
  induction n generalizing s with
  | zero => simp [loop] at hn
  | succ n ih =>
    cases ht : turn s with
    | inl s' =>
      rw [loop_succ_inl ht] at hn
      exact ih (hround s s' hs ht) hn
    | inr r' =>
      rw [loop_succ_inr ht] at hn
      exact Option.some.inj hn ▸ hexit s r' hs ht

/-- **The invariant rule for a loop that is left with a state**: what each turn keeps holds at the end. -/
theorem Ends.kept {turn : σ → σ ⊕ σ} (Inv : σ → Prop) (hturn : ∀ s, Inv s → (turn s).elim Inv Inv)
    {s r : σ} (hs : Inv s) (h : Ends turn s r) : Inv r := by
  refine Ends.invariant Inv Inv ?_ ?_ hs h
  · intro s s' hs ht
    have := hturn s hs
    rwa [ht] at this
  · intro s r hs ht
    have := hturn s hs
    rwa [ht] at this

/-- A loop that ends passes through a last state, reached by turns that come round. -/
theorem Ends.last {s : σ} {r : ρ} (h : Ends turn s r) :
    ∃ s', Relation.ReflTransGen (Turns turn) s s' ∧ turn s' = .inr r := by
  refine Ends.invariant (fun s' => Relation.ReflTransGen (Turns turn) s s')
    (fun r => ∃ s', Relation.ReflTransGen (Turns turn) s s' ∧ turn s' = .inr r)
    ?_ ?_ Relation.ReflTransGen.refl h
  · intro s₁ s₂ h₁ h₂
    exact h₁.tail h₂
  · intro s₁ r' h₁ h₂
    exact ⟨s₁, h₁, h₂⟩

/-- **Termination.**  A measure that falls on every turn that comes round bounds the fuel the loop
needs.  `Inv` is what the falling may rely on. -/
theorem ends_of_measure (Inv : σ → Prop) (μ : σ → ℕ)
    (hround : ∀ s s', Inv s → turn s = .inl s' → Inv s' ∧ μ s' < μ s) :
    ∀ n s, Inv s → μ s < n → ∃ r, loop turn n s = some r := by
  intro n
  induction n with
  | zero => intro s _ h; omega
  | succ n ih =>
    intro s hs hμ
    cases ht : turn s with
    | inl s' =>
      obtain ⟨hs', hlt⟩ := hround s s' hs ht
      rw [loop_succ_inl ht]
      exact ih s' hs' (by omega)
    | inr r => exact ⟨r, loop_succ_inr ht n⟩

end Tapgres.Lib.Loop
