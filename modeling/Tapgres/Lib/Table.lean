import Mathlib.Data.List.AList

/-!
# Counting the entries of a finite map

`countWhere p m` is the number of entries of `m` whose value `p` accepts.  What an insertion or a removal
does to it is read off the value found under the key before:

* `countWhere_erase`, `countWhere_insert` — the entry found under the key leaves the count, and the new
  one joins it.

Nothing here names a concrete map.
-/

namespace Tapgres.Lib.Table

variable {α β : Type*} [DecidableEq α] (p : β → Bool)

/-- The number of entries whose value `p` accepts. -/
def countWhere (m : AList fun _ : α => β) : ℕ := m.entries.countP fun e => p e.2

/-- What one entry, or none, adds to the count. -/
def share (b : Option β) : ℕ := if b.any p then 1 else 0

omit [DecidableEq α] in
@[simp] theorem countWhere_empty : countWhere p (∅ : AList fun _ : α => β) = 0 := rfl

@[simp] theorem share_none : share p none = 0 := rfl

theorem share_some (b : β) : share p (some b) = if p b then 1 else 0 := rfl

/-- The entry under the key leaves the count. -/
theorem countWhere_erase (m : AList fun _ : α => β) (a : α) :
    countWhere p (m.erase a) + share p (m.lookup a) = countWhere p m := by
  by_cases ha : a ∈ m
  · obtain ⟨b, before, behind, _, hentries, herased⟩ := List.exists_of_kerase (AList.mem_keys.mp ha)
    have hlookup : m.lookup a = some b := by
      rw [← Option.mem_def, AList.mem_lookup_iff, hentries]
      simp
    have herase : (m.erase a).entries = before ++ behind := herased
    rw [hlookup, share_some, countWhere, countWhere, herase, hentries, List.countP_append,
      List.countP_append, List.countP_cons]
    dsimp only
    omega
  · have herase : (m.erase a).entries = m.entries := List.kerase_of_notMem_keys ha
    rw [AList.lookup_eq_none.mpr ha, share_none, countWhere, herase]
    rfl

/-- And the new one joins it. -/
theorem countWhere_insert (m : AList fun _ : α => β) (a : α) (b : β) :
    countWhere p (m.insert a b) + share p (m.lookup a) = countWhere p m + share p (some b) := by
  have hentries : (m.insert a b).entries = ⟨a, b⟩ :: (m.erase a).entries := rfl
  have herase := countWhere_erase p m a
  rw [countWhere] at herase
  rw [countWhere, hentries, List.countP_cons, share_some]
  dsimp only
  omega

end Tapgres.Lib.Table
