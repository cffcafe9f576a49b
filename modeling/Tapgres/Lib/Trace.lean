import Mathlib.Tactic.Common

/-!
# Computations that record what they touch

A computation reads some structure by indices: it records each index it uses, and it returns a value or
stops.  The record is kept when it stops.  A second computation may do the same without the indices;
`Follows` says that the first returns and stops as the second does, and touches good indices only:

* `Follows.bind` — sequencing, with any relation between the values passed on;
* `Follows.after` — a step that only the first computation makes;
* `Follows.visited`, `Follows.result_eq` — what a whole run gives.

Nothing here names a concrete structure.
-/

namespace Tapgres.Lib.Trace

variable {ω ε α β γ δ : Type}

/-- What was touched, in order, and the outcome. -/
structure Traced (ω ε α : Type) where
  visited : List ω
  result : Except ε α

namespace Traced

/-- Stop without a value. -/
def fail (e : ε) : Traced ω ε α := ⟨[], .error e⟩

/-- Touch an index. -/
def visit (w : ω) : Traced ω ε Unit := ⟨[w], .ok ()⟩

/-- Nothing more is touched behind a stop. -/
def bind (m : Traced ω ε α) (f : α → Traced ω ε β) : Traced ω ε β :=
  match m.result with
  | .ok a => ⟨m.visited ++ (f a).visited, (f a).result⟩
  | .error e => ⟨m.visited, .error e⟩

end Traced

instance : Monad (Traced ω ε) where
  pure a := ⟨[], .ok a⟩
  bind := Traced.bind

theorem bind_of_ok {m : Traced ω ε α} {a : α} (h : m.result = .ok a) (f : α → Traced ω ε β) :
    m >>= f = ⟨m.visited ++ (f a).visited, (f a).result⟩ := by
  show Traced.bind m f = _
  rw [Traced.bind, h]

theorem bind_of_error {m : Traced ω ε α} {e : ε} (h : m.result = .error e) (f : α → Traced ω ε β) :
    m >>= f = ⟨m.visited, .error e⟩ := by
  show Traced.bind m f = _
  rw [Traced.bind, h]

/-- The first computation touches good indices only, and its outcome is that of the second. -/
inductive Follows (P : ω → Prop) (R : α → β → Prop) (m : Traced ω ε α) : Except ε β → Prop
  | ok {a : α} {b : β} (hresult : m.result = .ok a) (hvisited : ∀ w ∈ m.visited, P w) (hrel : R a b) :
      Follows P R m (.ok b)
  | error {e : ε} (hresult : m.result = .error e) (hvisited : ∀ w ∈ m.visited, P w) :
      Follows P R m (.error e)

variable {P : ω → Prop} {R : α → β → Prop} {S : γ → δ → Prop}

theorem Follows.pure {a : α} {b : β} (h : R a b) :
    Follows P R (Pure.pure a : Traced ω ε α) (Pure.pure b : Except ε β) :=
  .ok rfl (by simp [Pure.pure]) h

theorem Follows.fail (e : ε) : Follows P R (Traced.fail e : Traced ω ε α) (.error e) :=
  .error rfl (by simp [Traced.fail])

theorem Follows.visited {m : Traced ω ε α} {x : Except ε β} (h : Follows P R m x) :
    ∀ w ∈ m.visited, P w := by
  cases h with
  | ok _ hvisited _ => exact hvisited
  | error _ hvisited => exact hvisited

theorem Follows.result_eq {m : Traced ω ε α} {x : Except ε α} (h : Follows P (· = ·) m x) :
    m.result = x := by
  cases h with
  | ok hresult _ hrel => rw [hresult, hrel]
  | error hresult _ => exact hresult

theorem Follows.mono {m : Traced ω ε α} {x : Except ε β} {R' : α → β → Prop} (h : Follows P R m x)
    (hR : ∀ a b, R a b → R' a b) : Follows P R' m x := by
  cases h with
  | ok hresult hvisited hrel => exact .ok hresult hvisited (hR _ _ hrel)
  | error hresult hvisited => exact .error hresult hvisited

/-- **A step that only the first computation makes.** -/
theorem Follows.after {m : Traced ω ε α} {a : α} {f : α → Traced ω ε γ} {y : Except ε δ}
    (hresult : m.result = .ok a) (hvisited : ∀ w ∈ m.visited, P w) (hf : Follows P S (f a) y) :
    Follows P S (m >>= f) y := by
  have hboth : ∀ w ∈ m.visited ++ (f a).visited, P w := by
    intro w hw
    rcases List.mem_append.mp hw with hw | hw
    · exact hvisited w hw
    · exact hf.visited w hw
  rw [bind_of_ok hresult]
  cases hf with
  | ok hfresult _ hrel => exact .ok hfresult hboth hrel
  | error hfresult _ => exact .error hfresult hboth

/-- **Sequencing.** -/
theorem Follows.bind {m : Traced ω ε α} {x : Except ε β} {f : α → Traced ω ε γ} {g : β → Except ε δ}
    (h : Follows P R m x) (hf : ∀ a b, R a b → Follows P S (f a) (g b)) :
    Follows P S (m >>= f) (x >>= g) := by
  cases h with
  | ok hresult hvisited hrel => exact .after hresult hvisited (hf _ _ hrel)
  | error hresult hvisited =>
    rw [bind_of_error hresult]
    exact .error rfl hvisited

end Tapgres.Lib.Trace
