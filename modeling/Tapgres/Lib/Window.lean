import Mathlib.Data.List.Basic
import Mathlib.Tactic.Common

/-!
# What must not happen between two events

A list of events, some of which open a window and some of which close it: `Open` says that the window is
open at the end of the list, and `NoneWhileOpen` that no forbidden event stands in it while the window is
open.

* `open_append` — whether the window is open at the end of two lists;
* `noneWhileOpen_append` — two lists put together;
* `NoneWhileOpen.between` — nothing forbidden stands between an opening and the closing behind it.

Nothing here names a concrete event.
-/

namespace Tapgres.Lib.Window

variable {ω : Type*} (opens closes forbidden : ω → Prop)

/-- An event has opened the window, and none has closed it since. -/
def Open (es : List ω) : Prop :=
  ∃ pre e post, es = pre ++ e :: post ∧ opens e ∧ ∀ x ∈ post, ¬closes x

/-- While the window is open, no forbidden event follows. -/
def NoneWhileOpen (es : List ω) : Prop :=
  ∀ pre e post, es = pre ++ e :: post → Open opens closes pre → ¬forbidden e

variable {opens closes forbidden}

theorem not_open_of_forall {es : List ω} (h : ∀ e ∈ es, ¬opens e) : ¬Open opens closes es := by
  rintro ⟨pre, e, post, rfl, he, _⟩
  exact h e (by simp) he

theorem open_append {es fs : List ω} :
    Open opens closes (es ++ fs)
      ↔ Open opens closes fs ∨ (Open opens closes es ∧ ∀ x ∈ fs, ¬closes x) := by
  constructor
  · rintro ⟨pre, e, post, heq, he, hpost⟩
    rcases List.append_eq_append_iff.mp heq with ⟨mid, rfl, rfl⟩ | ⟨mid, rfl, hfs⟩
    · exact .inl ⟨mid, e, post, rfl, he, hpost⟩
    · cases mid with
      | nil => exact .inl ⟨[], e, post, hfs.symm, he, hpost⟩
      | cons x mid =>
        obtain ⟨rfl, rfl⟩ := List.cons.inj hfs
        exact .inr ⟨⟨pre, e, mid, rfl, he, fun x hx => hpost x (by simp [hx])⟩,
          fun x hx => hpost x (by simp [hx])⟩
  · rintro (⟨pre, e, post, rfl, he, hpost⟩ | ⟨⟨pre, e, post, rfl, he, hpost⟩, hfs⟩)
    · exact ⟨es ++ pre, e, post, by simp, he, hpost⟩
    · refine ⟨pre, e, post ++ fs, by simp, he, ?_⟩
      intro x hx
      rcases List.mem_append.mp hx with hx | hx
      · exact hpost x hx
      · exact hfs x hx

theorem noneWhileOpen_nil : NoneWhileOpen opens closes forbidden [] := by
  intro pre e post heq
  simp at heq

theorem noneWhileOpen_append {es fs : List ω} :
    NoneWhileOpen opens closes forbidden (es ++ fs) ↔
      NoneWhileOpen opens closes forbidden es ∧
        ∀ pre e post, fs = pre ++ e :: post → Open opens closes (es ++ pre) → ¬forbidden e := by
  constructor
  · intro h
    refine ⟨?_, ?_⟩
    · intro pre e post heq
      exact h pre e (post ++ fs) (by simp [heq])
    · intro pre e post heq
      exact h (es ++ pre) e post (by simp [heq])
  · rintro ⟨hes, hfs⟩ pre e post heq hopen
    rcases List.append_eq_append_iff.mp heq with ⟨mid, rfl, hmid⟩ | ⟨mid, rfl, hfs'⟩
    · exact hfs mid e post hmid hopen
    · cases mid with
      | nil => exact hfs [] e post hfs'.symm (by simpa using hopen)
      | cons x mid =>
        obtain ⟨rfl, rfl⟩ := List.cons.inj hfs'
        exact hes pre e mid rfl hopen

/-- Events that are not forbidden may always follow. -/
theorem noneWhileOpen_append_of_forall {es fs : List ω} (hfs : ∀ e ∈ fs, ¬forbidden e) :
    NoneWhileOpen opens closes forbidden (es ++ fs) ↔ NoneWhileOpen opens closes forbidden es := by
  rw [noneWhileOpen_append]
  refine ⟨And.left, fun h => ⟨h, ?_⟩⟩
  rintro pre e post rfl _
  exact hfs e (by simp)

/-- Behind an open window, forbidden events are none at all. -/
theorem NoneWhileOpen.nil_of_open {es fs : List ω} (h : NoneWhileOpen opens closes forbidden (es ++ fs))
    (hopen : Open opens closes es) (hfs : ∀ e ∈ fs, forbidden e) : fs = [] := by
  cases fs with
  | nil => rfl
  | cons e fs =>
    exact absurd (hfs e (by simp)) ((noneWhileOpen_append.mp h).2 [] e fs rfl (by simpa using hopen))

/-- **Between an opening and the closing behind it** nothing forbidden stands. -/
theorem NoneWhileOpen.between {pre mid post : List ω} {o : ω}
    (h : NoneWhileOpen opens closes forbidden (pre ++ o :: (mid ++ post))) (ho : opens o)
    (hmid : ∀ x ∈ mid, ¬closes x) : ∀ x ∈ mid, ¬forbidden x := by
  intro x hx
  obtain ⟨before, after, rfl⟩ := List.append_of_mem hx
  refine h (pre ++ o :: before) x (after ++ post) (by simp) ⟨pre, o, before, rfl, ho, fun y hy => ?_⟩
  exact hmid y (by simp [hy])

end Tapgres.Lib.Window
