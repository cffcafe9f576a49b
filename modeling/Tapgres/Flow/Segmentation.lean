import Tapgres.Flow.Reassembly
import Mathlib.Data.Nat.Find

/-!
# Reassembly of a fixed segmentation

A stream is cut into non-empty parts once and for all, and the parts arrive in any order and any number
of times.  The state of the direction is then a picture of the set of parts that have arrived:

* `leading` — how many parts in front have all arrived;
* `Pictures` — `rxbuf` holds the leading parts, `next_seq` points at the first missing one, and the
  out-of-order map holds exactly the arrived parts beyond it;
* `flushOoo_waiting` — the drain consumes all buffered parts up to the next missing one;
* `arrivals_exact` — the picture after every sequence of arrivals.
-/

namespace Tapgres.Flow

open Std (ExtTreeMap LawfulEqCmp)
open Tapgres.Net Tapgres.Pgwire Tapgres.Decode Tapgres.Lib.SeqSpace

/-! ### The segmentation -/

/-- A stream shorter than `2^31` bytes, cut into non-empty parts. -/
structure Segmentation where
  parts : List Bytes
  nonempty : ∀ b ∈ parts, b ≠ []
  short : parts.flatten.length < 2 ^ 31

namespace Segmentation

variable (cut : Segmentation)

/-- The position of the first byte of part `i`. -/
def start (i : ℕ) : ℕ := (cut.parts.take i).flatten.length

/-- The sequence number of the first byte of part `i`. -/
def key (base : BitVec 32) (i : ℕ) : BitVec 32 := seqAt base (cut.start i)

/-- One arrival of part `i`: a data segment at its own sequence number. -/
def arrive (base : BitVec 32) (d : Direction) (i : Fin cut.parts.length) : Direction :=
  d.feed (cut.key base i) false cut.parts[i]

/-- The direction after the SYN and a sequence of arrivals. -/
def arrivals (role : Role) (client : SocketAddr) (isn : BitVec 32)
    (arrived : List (Fin cut.parts.length)) : Direction :=
  arrived.foldl (cut.arrive (isn + 1)) ((Direction.new role client).feed isn true [])

/-- The number of leading parts that have all arrived. -/
def leading (arrived : List (Fin cut.parts.length)) : ℕ :=
  Nat.findGreatest (fun k => ∀ i < k, i ∈ arrived.map Fin.val) cut.parts.length

variable {cut}

theorem take_succ {i : ℕ} {b : Bytes} (hb : cut.parts[i]? = some b) :
    (cut.parts.take (i + 1)).flatten = (cut.parts.take i).flatten ++ b := by
  rw [List.take_add_one, hb, List.flatten_append]
  simp

theorem start_succ {i : ℕ} {b : Bytes} (hb : cut.parts[i]? = some b) :
    cut.start (i + 1) = cut.start i + b.length := by
  rw [start, take_succ hb, List.length_append]
  rfl

theorem nonempty_get {i : ℕ} {b : Bytes} (hb : cut.parts[i]? = some b) : b ≠ [] :=
  cut.nonempty b (List.mem_of_getElem? hb)

theorem start_le (cut : Segmentation) {i j : ℕ} (hij : i ≤ j) : cut.start i ≤ cut.start j := by
  induction j, hij using Nat.le_induction with
  | base => exact le_refl _
  | succ j _ ih =>
    refine ih.trans ?_
    cases hb : cut.parts[j]? with
    | none =>
      have hlen : cut.parts.length ≤ j := by simpa using hb
      rw [start, start, List.take_of_length_le hlen, List.take_of_length_le (by omega)]
    | some b =>
      rw [start_succ hb]
      omega

/-- A part starts at or behind the end of every earlier one. -/
theorem end_le {i j : ℕ} {b : Bytes} (hb : cut.parts[i]? = some b) (hij : i < j) :
    cut.start i + b.length ≤ cut.start j := by
  rw [← start_succ hb]
  exact start_le cut hij

theorem start_lt {i j : ℕ} {b : Bytes} (hb : cut.parts[i]? = some b) (hij : i < j) :
    cut.start i < cut.start j := by
  have hend := end_le hb hij
  have hpos := List.length_pos_iff.mpr (nonempty_get hb)
  omega

theorem start_bound (cut : Segmentation) (i : ℕ) : cut.start i < 2 ^ 31 := by
  have hshort := cut.short
  have hle : cut.start i ≤ cut.start (max i cut.parts.length) := start_le cut (Nat.le_max_left _ _)
  have hall : cut.start (max i cut.parts.length) = cut.parts.flatten.length := by
    rw [start, List.take_of_length_le (Nat.le_max_right _ _)]
  omega

/-- A sequence number names one part. -/
theorem key_inj {base : BitVec 32} {i j : ℕ} {b c : Bytes} (hi : cut.parts[i]? = some b)
    (hj : cut.parts[j]? = some c) (h : cut.key base i = cut.key base j) : i = j := by
  have hboundi := start_bound cut i
  have hboundj := start_bound cut j
  have hstart := (seqAt_inj base (by omega) (by omega)).mp h
  rcases Nat.lt_trichotomy i j with hlt | heq | hgt
  · have := start_lt hi hlt
    omega
  · exact heq
  · have := start_lt hj hgt
    omega

end Segmentation

open Segmentation

/-! ### What the out-of-order map holds -/

variable {cut : Segmentation} {base : BitVec 32} {arrived : ℕ → Prop}

/-- The map holds exactly the arrived parts from `k` on, each under its own sequence number. -/
def Waiting (cut : Segmentation) (base : BitVec 32) (arrived : ℕ → Prop) (k : ℕ) (ooo : OooMap) : Prop :=
  ∀ key b, ooo[key]? = some b ↔
    ∃ i, arrived i ∧ k ≤ i ∧ key = cut.key base i ∧ cut.parts[i]? = some b

/-- The state of a direction pictures the parts that have arrived: the first `k` are delivered, part `k`
is missing, and the later ones wait. -/
structure Pictures (cut : Segmentation) (base : BitVec 32) (arrived : ℕ → Prop) (k : ℕ)
    (d : Direction) : Prop where
  le : k ≤ cut.parts.length
  before : ∀ i < k, arrived i
  missing : ¬arrived k
  rxbuf : d.rxbuf = (cut.parts.take k).flatten
  next : d.nextSeq = some (cut.key base k)
  ooo : Waiting cut base arrived k d.ooo

/-- A part found in the map under the number of part `k` is part `k`. -/
theorem Waiting.get {k : ℕ} {ooo : OooMap} (h : Waiting cut base arrived k ooo) {b : Bytes}
    (hk : cut.parts[k]? = some b) {c : Bytes} (hc : ooo[cut.key base k]? = some c) :
    arrived k ∧ c = b := by
  obtain ⟨i, hi, _, hkey, hpart⟩ := (h _ _).mp hc
  obtain rfl := key_inj hk hpart hkey
  exact ⟨hi, Option.some.inj (hpart.symm.trans hk)⟩

theorem Waiting.absent {k : ℕ} {ooo : OooMap} (h : Waiting cut base arrived k ooo)
    (hin : ∀ i, arrived i → i < cut.parts.length) (hnone : ooo[cut.key base k]? = none) :
    ¬arrived k := by
  intro hk
  have hget := List.getElem?_eq_getElem (hin k hk)
  have hsome := (h _ _).mpr ⟨k, hk, le_refl k, rfl, hget⟩
  rw [hnone] at hsome
  cases hsome

/-- Taking part `k` out leaves the arrived parts from `k + 1` on. -/
theorem Waiting.erase {k : ℕ} {ooo : OooMap} (h : Waiting cut base arrived k ooo) {b : Bytes}
    (hk : cut.parts[k]? = some b) : Waiting cut base arrived (k + 1) (ooo.erase (cut.key base k)) := by
  intro key c
  rw [ExtTreeMap.getElem?_erase]
  split
  · rename_i hkey
    obtain rfl := LawfulEqCmp.compare_eq_iff_eq.mp hkey
    constructor
    · intro hc
      cases hc
    · rintro ⟨i, _, hle, hkey', hi⟩
      have := key_inj hk hi hkey'
      omega
  · rename_i hkey
    rw [LawfulEqCmp.compare_eq_iff_eq] at hkey
    rw [h key c]
    constructor
    · rintro ⟨i, hi, hle, rfl, hpart⟩
      have hne : i ≠ k := fun heq => hkey (by rw [heq])
      exact ⟨i, hi, by omega, rfl, hpart⟩
    · rintro ⟨i, hi, hle, rfl, hpart⟩
      exact ⟨i, hi, by omega, rfl, hpart⟩

/-- Buffering part `i`, beyond the missing one, adds it to the parts that have arrived. -/
theorem Waiting.insert {k i : ℕ} {ooo : OooMap} (h : Waiting cut base arrived k ooo) {b : Bytes}
    (hi : cut.parts[i]? = some b) (hle : k ≤ i) :
    Waiting cut base (fun j => arrived j ∨ j = i) k (ooo.insert (cut.key base i) b) := by
  intro key c
  rw [ExtTreeMap.getElem?_insert]
  split
  · rename_i hkey
    obtain rfl := LawfulEqCmp.compare_eq_iff_eq.mp hkey
    constructor
    · intro hc
      exact ⟨i, .inr rfl, hle, rfl, by rw [hi, hc]⟩
    · rintro ⟨j, _, _, hkey', hj⟩
      obtain rfl := key_inj hi hj hkey'
      rw [← hi, hj]
  · rename_i hkey
    rw [LawfulEqCmp.compare_eq_iff_eq] at hkey
    rw [h key c]
    constructor
    · rintro ⟨j, hj, hrest⟩
      exact ⟨j, .inl hj, hrest⟩
    · rintro ⟨j, hj | rfl, hle', rfl, hpart⟩
      · exact ⟨j, hj, hle', rfl, hpart⟩
      · exact absurd rfl hkey

/-- **The drain.**  From part `k` on it consumes the buffered parts up to the next missing one. -/
theorem flushOoo_waiting (hin : ∀ i, arrived i → i < cut.parts.length) (n : ℕ) (ooo : OooMap) (k : ℕ)
    (hk : k ≤ cut.parts.length) (hwait : Waiting cut base arrived k ooo) (hn : ooo.size ≤ n) :
    ∃ (k' : ℕ) (ooo' : OooMap),
      flushOoo n ooo (cut.key base k) (cut.parts.take k).flatten
        = (ooo', cut.key base k', (cut.parts.take k').flatten) ∧
      k ≤ k' ∧ k' ≤ cut.parts.length ∧ (∀ i, k ≤ i → i < k' → arrived i) ∧ ¬arrived k' ∧
      Waiting cut base arrived k' ooo' := by
  induction n generalizing ooo k with
  | zero =>
    have hempty : ooo = ∅ := ooo_eq_empty hn
    refine ⟨k, ooo, rfl, le_refl k, hk, fun i hi hi' => absurd hi' (by omega), ?_, hwait⟩
    exact hwait.absent hin (by rw [hempty]; simp)
  | succ n ih =>
    rw [flushOoo]
    cases hget : ooo[cut.key base k]? with
    | none =>
      exact ⟨k, ooo, rfl, le_refl k, hk, fun i hi hi' => absurd hi' (by omega),
        hwait.absent hin hget, hwait⟩
    | some c =>
      have hlt : k < cut.parts.length := by
        obtain ⟨i, hi, hle, _, _⟩ := (hwait _ _).mp hget
        have := hin i hi
        omega
      have hpart := List.getElem?_eq_getElem hlt
      obtain ⟨hak, rfl⟩ := hwait.get hpart hget
      have hsize : (ooo.erase (cut.key base k)).size ≤ n := ooo_size_erase hget hn
      obtain ⟨k', ooo', hrun, hle, hle', hall, hmiss, hwait'⟩ :=
        ih (ooo.erase (cut.key base k)) (k + 1) hlt (hwait.erase hpart) hsize
      refine ⟨k', ooo', ?_, by omega, hle', ?_, hmiss, hwait'⟩
      · have hkey : cut.key base k + BitVec.ofNat 32 cut.parts[k].length = cut.key base (k + 1) := by
          rw [key, key, seqAt_add, start_succ hpart]
        show flushOoo n _ (cut.key base k + BitVec.ofNat 32 cut.parts[k].length)
          ((cut.parts.take k).flatten ++ cut.parts[k]) = _
        rw [hkey, ← take_succ hpart]
        exact hrun
      · intro i hi hi'
        rcases Nat.eq_or_lt_of_le hi with rfl | hlt'
        · exact hak
        · exact hall i hlt' hi'

/-! ### One arrival -/

/-- A part that is not the missing one is buffered or dropped, and the missing part stays where it is. -/
theorem Pictures.buffered {k : ℕ} {d : Direction} (h : Pictures cut base arrived k d) {i : ℕ} {b : Bytes}
    (hpart : cut.parts[i]? = some b) (hki : k < i) :
    Pictures cut base (fun j => arrived j ∨ j = i) k { d with ooo := d.ooo.insert (cut.key base i) b } := by
  refine ⟨h.le, ?_, ?_, h.rxbuf, h.next, h.ooo.insert hpart hki.le⟩
  · intro j hj
    exact .inl (h.before j hj)
  · rintro (hk | hk)
    · exact h.missing hk
    · omega

theorem Pictures.dropped {k : ℕ} {d : Direction} (h : Pictures cut base arrived k d) {i : ℕ} (hik : i < k) :
    Pictures cut base (fun j => arrived j ∨ j = i) k d := by
  have hsame : (fun j => arrived j ∨ j = i) = arrived := by
    funext j
    refine propext ⟨?_, .inl⟩
    rintro (hj | rfl)
    · exact hj
    · exact h.before _ hik
  rw [hsame]
  exact h

/-- The missing part is delivered, and the drain follows. -/
theorem Pictures.delivered {k : ℕ} {d : Direction} (h : Pictures cut base arrived k d)
    (hin : ∀ i, arrived i → i < cut.parts.length) {b : Bytes} (hpart : cut.parts[k]? = some b) :
    ∃ k', Pictures cut base (fun j => arrived j ∨ j = k) k' (d.deliver (cut.key base k) b) := by
  have hlt : k < cut.parts.length := (List.getElem?_eq_some_iff.mp hpart).1
  have hwait : Waiting cut base (fun j => arrived j ∨ j = k) (k + 1) d.ooo := by
    intro key c
    rw [h.ooo key c]
    constructor
    · rintro ⟨j, hj, hjk, hrest⟩
      have hne : j ≠ k := fun heq => h.missing (heq ▸ hj)
      exact ⟨j, .inl hj, by omega, hrest⟩
    · rintro ⟨j, hj | hj, hjk, hrest⟩
      · exact ⟨j, hj, by omega, hrest⟩
      · omega
  have hin' : ∀ j, arrived j ∨ j = k → j < cut.parts.length := by
    rintro j (hj | rfl)
    · exact hin j hj
    · exact hlt
  obtain ⟨k', ooo', hrun, hle', hlen, hall, hmiss, hwait'⟩ :=
    flushOoo_waiting hin' d.ooo.size d.ooo (k + 1) hlt hwait (le_refl _)
  have hdel : d.deliver (cut.key base k) b
      = { d with ooo := ooo', nextSeq := some (cut.key base k'),
                 rxbuf := (cut.parts.take k').flatten } := by
    have hkey : cut.key base k + BitVec.ofNat 32 b.length = cut.key base (k + 1) := by
      rw [key, key, seqAt_add, ← start_succ hpart]
    have hrx : d.rxbuf ++ b = (cut.parts.take (k + 1)).flatten := by
      rw [h.rxbuf, take_succ hpart]
    rw [Direction.deliver]
    simp only [hkey, hrx, hrun]
  rw [hdel]
  refine ⟨k', hlen, ?_, hmiss, rfl, rfl, hwait'⟩
  intro j hj
  rcases Nat.lt_trichotomy j k with hbefore | rfl | hafter
  · exact .inl (h.before j hbefore)
  · exact .inr rfl
  · exact hall j hafter hj

/-- **One arrival.**  The state pictures the parts that had arrived and the one that has just come. -/
theorem Pictures.feed {k : ℕ} {d : Direction} (h : Pictures cut base arrived k d)
    (hin : ∀ i, arrived i → i < cut.parts.length) {i : ℕ} {b : Bytes}
    (hpart : cut.parts[i]? = some b) :
    ∃ k', Pictures cut base (fun j => arrived j ∨ j = i) k' (d.feed (cut.key base i) false b) := by
  have hilt : i < cut.parts.length := (List.getElem?_eq_some_iff.mp hpart).1
  have hboundi := start_bound cut i
  have hboundk := start_bound cut k
  rcases feed_cases h.next hboundk hboundi (nonempty_get hpart) with
    ⟨hahead, hfeed⟩ | ⟨hold, hfeed⟩ | ⟨hle, hgt, hfeed⟩
  · -- ahead of the missing part
    have hki : k < i := by
      by_contra hnot
      have := start_le cut (Nat.le_of_not_lt hnot)
      omega
    rw [key, hfeed]
    exact ⟨k, h.buffered hpart hki⟩
  · -- delivered before
    have hik : i < k := by
      by_contra hnot
      have := start_le cut (Nat.le_of_not_lt hnot)
      have := List.length_pos_iff.mpr (nonempty_get hpart)
      omega
    rw [key, hfeed]
    exact ⟨k, h.dropped hik⟩
  · -- the missing part itself
    have hik : i = k := by
      rcases Nat.lt_trichotomy i k with hlt | heq | hlt
      · have := end_le hpart hlt
        omega
      · exact heq
      · have hk := List.getElem?_eq_getElem (hlt.trans hilt)
        have := start_lt hk hlt
        omega
    subst hik
    rw [Nat.sub_self, List.drop_zero] at hfeed
    rw [key, hfeed]
    exact h.delivered hin hpart

/-! ### All arrivals -/

/-- **The picture after a whole run**, by induction on the arrivals. -/
theorem pictures_arrivals (cut : Segmentation) (role : Role) (client : SocketAddr) (isn : BitVec 32)
    (arrived : List (Fin cut.parts.length)) :
    ∃ k, Pictures cut (isn + 1) (fun j => j ∈ arrived.map Fin.val) k
      (cut.arrivals role client isn arrived) := by
  induction arrived using List.reverseRecOn with
  | nil =>
    refine ⟨0, Nat.zero_le _, fun i hi => absurd hi (by omega), by simp, ?_, ?_, ?_⟩
    · simp [arrivals, Direction.feed, Direction.new]
    · simp [arrivals, Direction.feed, key, start]
    · intro key b
      simp [arrivals, Direction.feed, Direction.new]
  | append_singleton arrived i ih =>
    obtain ⟨k, hk⟩ := ih
    have hin : ∀ j, j ∈ arrived.map Fin.val → j < cut.parts.length := by
      intro j hj
      obtain ⟨x, _, rfl⟩ := List.mem_map.mp hj
      exact x.isLt
    obtain ⟨k', hk'⟩ := hk.feed hin (List.getElem?_eq_getElem i.isLt)
    have hset : (fun j => j ∈ (arrived ++ [i]).map Fin.val)
        = fun j => j ∈ arrived.map Fin.val ∨ j = i.val := by
      funext j
      rw [List.map_append, List.mem_append, List.map_singleton, List.mem_singleton]
    refine ⟨k', ?_⟩
    rw [hset, arrivals, List.foldl_append]
    exact hk'

theorem arrivals_frame (cut : Segmentation) (role : Role) (client : SocketAddr) (isn : BitVec 32)
    (arrived : List (Fin cut.parts.length)) :
    ∃ nextSeq ooo rxbuf, cut.arrivals role client isn arrived
      = { Direction.new role client with nextSeq := nextSeq, ooo := ooo, rxbuf := rxbuf } := by
  induction arrived using List.reverseRecOn with
  | nil => exact ⟨some (isn + 1), ∅, [], rfl⟩
  | append_singleton arrived i ih =>
    obtain ⟨nextSeq, ooo, rxbuf, h⟩ := ih
    obtain ⟨nextSeq', ooo', added, h'⟩ :=
      feed_frame (cut.arrivals role client isn arrived) (cut.key (isn + 1) i) false cut.parts[i]
    refine ⟨nextSeq', ooo', rxbuf ++ added, ?_⟩
    rw [arrivals, List.foldl_append]
    show (cut.arrivals role client isn arrived).feed (cut.key (isn + 1) i) false cut.parts[i] = _
    rw [h', h]

theorem Pictures.leading {cut : Segmentation} {base : BitVec 32} {arrived : List (Fin cut.parts.length)}
    {k : ℕ} {d : Direction} (h : Pictures cut base (fun j => j ∈ arrived.map Fin.val) k d) :
    cut.leading arrived = k := by
  rw [Segmentation.leading, Nat.findGreatest_eq_iff]
  refine ⟨h.le, fun _ => h.before, ?_⟩
  intro j hj _ hall
  exact h.missing (hall k hj)

/-- The map that holds the arrived parts from `k` on is one map. -/
theorem Waiting.unique {k : ℕ} {ooo ooo' : OooMap} (h : Waiting cut base arrived k ooo)
    (h' : Waiting cut base arrived k ooo') : ooo = ooo' := by
  refine ExtTreeMap.ext_getElem? ?_
  intro key
  refine Option.ext fun b => ?_
  rw [h key b, h' key b]

/-- **The bookkeeping is exact.**  After every sequence of arrivals, with `k` leading parts arrived,
`rxbuf` is parts `0 .. k-1`, `next_seq` points at part `k`, and the out-of-order map holds exactly the
arrived parts beyond `k`.  The state depends only on the set of parts that have arrived. -/
theorem arrivals_exact (cut : Segmentation) (role : Role) (client : SocketAddr) (isn : BitVec 32)
    (arrived : List (Fin cut.parts.length)) :
    (cut.arrivals role client isn arrived).rxbuf
        = (cut.parts.take (cut.leading arrived)).flatten ∧
      (cut.arrivals role client isn arrived).nextSeq
        = some (cut.key (isn + 1) (cut.leading arrived)) ∧
      (∀ key b, (cut.arrivals role client isn arrived).ooo[key]? = some b ↔
        ∃ i ∈ arrived, cut.leading arrived < i ∧ key = cut.key (isn + 1) i ∧ b = cut.parts[i]) ∧
      ∀ arrived' : List (Fin cut.parts.length), (∀ i, i ∈ arrived' ↔ i ∈ arrived) →
        cut.arrivals role client isn arrived' = cut.arrivals role client isn arrived := by
  obtain ⟨k, hk⟩ := pictures_arrivals cut role client isn arrived
  rw [hk.leading]
  refine ⟨hk.rxbuf, hk.next, ?_, ?_⟩
  · intro key b
    rw [hk.ooo key b]
    constructor
    · rintro ⟨j, hj, hle, hkey, hpart⟩
      obtain ⟨i, hi, rfl⟩ := List.mem_map.mp hj
      have hne : k ≠ i.val := fun heq => hk.missing (heq ▸ hj)
      have hget : cut.parts[i.val]? = some cut.parts[i] := List.getElem?_eq_getElem i.isLt
      exact ⟨i, hi, by omega, hkey, Option.some.inj (hpart.symm.trans hget)⟩
    · rintro ⟨i, hi, hlt, hkey, rfl⟩
      exact ⟨i, List.mem_map_of_mem hi, hlt.le, hkey, List.getElem?_eq_getElem i.isLt⟩
  · intro arrived' hsame
    obtain ⟨k', hk'⟩ := pictures_arrivals cut role client isn arrived'
    have hset : (fun j => j ∈ arrived'.map Fin.val) = fun j => j ∈ arrived.map Fin.val := by
      funext j
      simp only [List.mem_map, hsame]
    rw [hset] at hk'
    obtain rfl : k = k' := hk.leading.symm.trans hk'.leading
    have hooo := hk.ooo.unique hk'.ooo
    have hnext := hk.next.trans hk'.next.symm
    have hrx := hk.rxbuf.trans hk'.rxbuf.symm
    obtain ⟨nextSeq, ooo, rxbuf, hd⟩ := arrivals_frame cut role client isn arrived
    obtain ⟨nextSeq', ooo', rxbuf', hd'⟩ := arrivals_frame cut role client isn arrived'
    rw [hd, hd'] at hooo hnext hrx
    rw [hd, hd']
    simp only at hooo hnext hrx
    rw [hooo, hnext, hrx]

/-- Three parts; the last one arrives first and again later, the middle one is missing. -/
example : Segmentation.leading ⟨[[1], [2, 3], [4]], by decide, by decide⟩ [2, 0, 2] = 1 := by decide

end Tapgres.Flow
