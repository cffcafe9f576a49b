import Tapgres.Lib.Loop

/-!
# While loops whose body may fail

`while cond { body }` as a loop with an exit: it is left with the state where the condition fails, or
with the error of the body.

* `WhileStep cond body` — one round of the body;
* `whileTurn_cases` — how a loop that ends has ended;
* `whileTurn_ends` — a measure that falls in each round ends it;
* `Ends.of_whileSteps` — rounds that lead to a state where the condition fails end the loop there.
-/

namespace Tapgres.Lib.Loop

variable {σ ε : Type*} {cond : σ → Bool} {body : σ → Except ε σ}

/-- One turn of `while cond { body }`. -/
def whileTurn (cond : σ → Bool) (body : σ → Except ε σ) (s : σ) : σ ⊕ Except ε σ :=
  if cond s then
    match body s with
    | .ok s' => .inl s'
    | .error e => .inr (.error e)
  else .inr (.ok s)

/-- The condition holds in `s`, and the body leads to `s'`. -/
def WhileStep (cond : σ → Bool) (body : σ → Except ε σ) (s s' : σ) : Prop :=
  cond s = true ∧ body s = .ok s'

theorem turns_whileTurn_iff {s s' : σ} : Turns (whileTurn cond body) s s' ↔ WhileStep cond body s s' := by
  rw [Turns, WhileStep, whileTurn]
  cases hcond : cond s with
  | false => simp
  | true =>
    cases hbody : body s with
    | error e => simp
    | ok t => simp

theorem whileTurn_done {s : σ} (hcond : cond s = false) : whileTurn cond body s = .inr (.ok s) := by
  rw [whileTurn, if_neg (by rw [hcond]; exact Bool.false_ne_true)]

/-- The relation of the rounds is that of the turns. -/
theorem whileSteps_iff {s s' : σ} :
    Relation.ReflTransGen (WhileStep cond body) s s' ↔
      Relation.ReflTransGen (Turns (whileTurn cond body)) s s' := by
  have hsame : WhileStep cond body = Turns (whileTurn cond body) := by
    funext s s'
    exact propext turns_whileTurn_iff.symm
  rw [hsame]

/-- **How a loop has ended**: some rounds, and then the condition fails or the body does. -/
theorem whileTurn_cases {s : σ} {r : Except ε σ} (h : Ends (whileTurn cond body) s r) :
    ∃ s', Relation.ReflTransGen (WhileStep cond body) s s' ∧
      ((cond s' = false ∧ r = .ok s') ∨ (cond s' = true ∧ ∃ e, body s' = .error e ∧ r = .error e)) := by
  obtain ⟨s', hsteps, hexit⟩ := h.last
  refine ⟨s', whileSteps_iff.mpr hsteps, ?_⟩
  rw [whileTurn] at hexit
  cases hcond : cond s' with
  | false =>
    left
    rw [hcond] at hexit
    exact ⟨rfl, (Sum.inr.inj hexit).symm⟩
  | true =>
    right
    cases hbody : body s' with
    | ok t => simp [hcond, hbody] at hexit
    | error e =>
      rw [hcond, hbody] at hexit
      exact ⟨rfl, e, rfl, (Sum.inr.inj hexit).symm⟩

/-- **Termination.** -/
theorem whileTurn_ends (μ : σ → ℕ) (hround : ∀ s s', WhileStep cond body s s' → μ s' < μ s) {n : ℕ} {s : σ}
    (hn : μ s < n) : ∃ r, loop (whileTurn cond body) n s = some r := by
  refine ends_of_measure (fun _ => True) μ ?_ n s trivial hn
  intro s s' _ hturn
  exact ⟨trivial, hround s s' (turns_whileTurn_iff.mp hturn)⟩

theorem Ends.of_whileSteps {s s' : σ} (h : Relation.ReflTransGen (WhileStep cond body) s s')
    (hcond : cond s' = false) : Ends (whileTurn cond body) s (.ok s') :=
  Ends.of_turns (whileSteps_iff.mp h) (Ends.exit (whileTurn_done hcond))

end Tapgres.Lib.Loop
