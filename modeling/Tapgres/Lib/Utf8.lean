import Mathlib.Algebra.GroupWithZero.Nat
import Mathlib.Data.List.Infix

/-!
# Strings by their characters, offsets in bytes

A UTF-8 string is the list of its characters; an offset counts bytes, so only some offsets lie between
characters.  Slicing at any other offset fails.

* `splitAt_eq_some` — an offset splits the string exactly when it is the length of a prefix;
* `sliceTo_append`, `sliceFrom_append`, `slice_append` — slicing along a known decomposition;
* `find_eq_some`, `find_eq_none` — the search for a pattern gives its first occurrence;
* `infix_append_cons`, `firstAt_of_separator`, `firstAt_of_notMem` — where it can occur, told from a
  character it does not contain, or from its first;
* `decode_eq_some`, `decode_beginning`, `decode_inside` — which bytes are a text, and which beginnings of a
  text's bytes.

Nothing here names a concrete text.
-/

namespace Tapgres.Lib.Utf8

/-- A string, by its characters. -/
abbrev Str := List Char

/-- The length in bytes. -/
def byteLen (s : Str) : ℕ := (s.map Char.utf8Size).sum

@[simp] theorem byteLen_nil : byteLen [] = 0 := rfl

@[simp] theorem byteLen_cons (c : Char) (s : Str) : byteLen (c :: s) = c.utf8Size + byteLen s := by
  simp [byteLen]

@[simp] theorem byteLen_append (s t : Str) : byteLen (s ++ t) = byteLen s + byteLen t := by
  simp [byteLen]

/-- The offset lies between two characters, or at an end. -/
def IsBoundary (s : Str) (n : ℕ) : Prop := ∃ p q, s = p ++ q ∧ byteLen p = n

theorem isBoundary_append (p q : Str) : IsBoundary (p ++ q) (byteLen p) := ⟨p, q, rfl, rfl⟩

/-- The characters with the property `White_Space`. -/
def isWhitespace (c : Char) : Bool :=
  let n := c.toNat
  (9 ≤ n && n ≤ 13) || n == 0x20 || n == 0x85 || n == 0xa0 || n == 0x1680 ||
    (0x2000 ≤ n && n ≤ 0x200a) || n == 0x2028 || n == 0x2029 || n == 0x202f || n == 0x205f ||
    n == 0x3000

/-! ### Slicing -/

/-- What lies before and behind an offset; nothing if it is not a boundary. -/
def splitAt : Str → ℕ → Option (Str × Str)
  | s, 0 => some ([], s)
  | [], _ + 1 => none
  | c :: s, n + 1 =>
    if c.utf8Size ≤ n + 1 then (splitAt s (n + 1 - c.utf8Size)).map fun (p, q) => (c :: p, q) else none

/-- `&s[..n]` -/
def sliceTo (s : Str) (n : ℕ) : Option Str := (splitAt s n).map Prod.fst

/-- `&s[n..]` -/
def sliceFrom (s : Str) (n : ℕ) : Option Str := (splitAt s n).map Prod.snd

/-- `&s[a..b]` -/
def slice (s : Str) (a b : ℕ) : Option Str :=
  if a ≤ b then (sliceTo s b).bind fun p => sliceFrom p a else none

@[simp] theorem splitAt_zero (s : Str) : splitAt s 0 = some ([], s) := by
  cases s <;> rfl

theorem splitAt_cons {c : Char} {s : Str} {n : ℕ} (hn : c.utf8Size ≤ n) :
    splitAt (c :: s) n = (splitAt s (n - c.utf8Size)).map fun (p, q) => (c :: p, q) := by
  have hpos := c.utf8Size_pos
  obtain ⟨n, rfl⟩ : ∃ k, n = k + 1 := ⟨n - 1, by omega⟩
  rw [splitAt, if_pos hn]

/-- An offset inside the first character is no boundary. -/
theorem splitAt_inside {c : Char} (s : Str) {n : ℕ} (h0 : 0 < n) (hn : n < c.utf8Size) :
    splitAt (c :: s) n = none := by
  obtain ⟨n, rfl⟩ : ∃ k, n = k + 1 := ⟨n - 1, by omega⟩
  rw [splitAt, if_neg (by omega)]

/-- Splitting behind a known prefix. -/
theorem splitAt_append (p q : Str) (n : ℕ) :
    splitAt (p ++ q) (byteLen p + n) = (splitAt q n).map fun (a, b) => (p ++ a, b) := by
  induction p with
  | nil => simp
  | cons c p ih =>
    rw [List.cons_append, splitAt_cons (by rw [byteLen_cons]; omega),
      show byteLen (c :: p) + n - c.utf8Size = byteLen p + n by rw [byteLen_cons]; omega, ih]
    cases splitAt q n <;> rfl

theorem splitAt_eq_some {s p q : Str} {n : ℕ} :
    splitAt s n = some (p, q) ↔ s = p ++ q ∧ byteLen p = n := by
  constructor
  · induction s, n using splitAt.induct generalizing p with
    | case1 s =>
      intro h
      rw [splitAt_zero] at h
      cases h
      exact ⟨rfl, rfl⟩
    | case2 n =>
      intro h
      cases h
    | case3 c s n hn ih =>
      intro h
      rw [splitAt, if_pos hn] at h
      obtain ⟨⟨p', q'⟩, h', heq⟩ := Option.map_eq_some_iff.mp h
      cases heq
      obtain ⟨rfl, hlen⟩ := ih h'
      exact ⟨rfl, by rw [byteLen_cons, hlen]; omega⟩
    | case4 c s n hn =>
      intro h
      rw [splitAt, if_neg hn] at h
      cases h
  · rintro ⟨rfl, rfl⟩
    have h := splitAt_append p q 0
    simpa using h

theorem sliceTo_append (p q : Str) : sliceTo (p ++ q) (byteLen p) = some p := by
  rw [sliceTo, splitAt_eq_some.mpr ⟨rfl, rfl⟩]
  rfl

theorem sliceFrom_append (p q : Str) : sliceFrom (p ++ q) (byteLen p) = some q := by
  rw [sliceFrom, splitAt_eq_some.mpr ⟨rfl, rfl⟩]
  rfl

theorem slice_append (p q r : Str) :
    slice (p ++ q ++ r) (byteLen p) (byteLen p + byteLen q) = some q := by
  have h := sliceTo_append (p ++ q) r
  rw [byteLen_append] at h
  rw [slice, if_pos (Nat.le_add_right _ _), h]
  exact sliceFrom_append p q

/-! ### Searching -/

/-- `s.find(pat)`: the byte offset of the first occurrence. -/
def find (pat : Str) : Str → Option ℕ
  | [] => if pat = [] then some 0 else none
  | c :: s => if pat.isPrefixOf (c :: s) then some 0 else (find pat s).map (c.utf8Size + ·)

/-- `pat` occurs behind `pre`, and nowhere earlier. -/
def FirstAt (pat pre s : Str) : Prop :=
  pre ++ pat <+: s ∧ ∀ pre', pre' ++ pat <+: s → pre.length ≤ pre'.length

theorem find_eq_none {pat s : Str} : find pat s = none ↔ ¬pat <:+: s := by
  induction s with
  | nil => simp [find]
  | cons c s ih =>
    rw [find, List.infix_cons_iff]
    split
    · rename_i h
      simp [List.isPrefixOf_iff_prefix.mp h]
    · rename_i h
      rw [List.isPrefixOf_iff_prefix] at h
      simp [h, ih]

theorem find_eq_some {pat s : Str} {n : ℕ} :
    find pat s = some n ↔ ∃ pre, FirstAt pat pre s ∧ byteLen pre = n := by
  induction s generalizing n with
  | nil =>
    rw [find]
    constructor
    · intro h
      split at h
      · rename_i hpat
        cases h
        exact ⟨[], ⟨by simp [hpat], fun _ _ => Nat.zero_le _⟩, rfl⟩
      · cases h
    · rintro ⟨pre, ⟨hpre, _⟩, rfl⟩
      obtain ⟨rfl, rfl⟩ := List.append_eq_nil_iff.mp (List.prefix_nil.mp hpre)
      rfl
  | cons c s ih =>
    rw [find]
    by_cases h : pat <+: c :: s
    · rw [if_pos (List.isPrefixOf_iff_prefix.mpr h)]
      constructor
      · rintro ⟨⟩
        exact ⟨[], ⟨h, fun _ _ => Nat.zero_le _⟩, rfl⟩
      · rintro ⟨pre, ⟨_, hmin⟩, rfl⟩
        have := hmin [] h
        rw [List.length_nil, Nat.le_zero, List.length_eq_zero_iff] at this
        rw [this]
        rfl
    · rw [if_neg (mt List.isPrefixOf_iff_prefix.mp h), Option.map_eq_some_iff]
      -- the pattern starts behind the first character, in both directions
      have hstart : ∀ pre, pre ++ pat <+: c :: s → ∃ pre', pre = c :: pre' ∧ pre' ++ pat <+: s := by
        intro pre hpre
        cases pre with
        | nil => exact absurd hpre h
        | cons d pre =>
          rw [List.cons_append, List.cons_prefix_cons] at hpre
          obtain ⟨rfl, hpre⟩ := hpre
          exact ⟨pre, rfl, hpre⟩
      constructor
      · rintro ⟨m, hm, rfl⟩
        obtain ⟨pre, ⟨hpre, hmin⟩, rfl⟩ := ih.mp hm
        refine ⟨c :: pre, ⟨List.cons_prefix_cons.mpr ⟨rfl, hpre⟩, ?_⟩, by simp⟩
        intro pre' hpre'
        obtain ⟨pre'', rfl, hpre''⟩ := hstart pre' hpre'
        simpa using hmin pre'' hpre''
      · rintro ⟨pre, ⟨hpre, hmin⟩, rfl⟩
        obtain ⟨pre', rfl, hpre'⟩ := hstart pre hpre
        refine ⟨byteLen pre', ih.mpr ⟨pre', ⟨hpre', fun pre'' hpre'' => ?_⟩, rfl⟩, by simp⟩
        simpa using hmin (c :: pre'') (List.cons_prefix_cons.mpr ⟨rfl, hpre''⟩)

/-- An occurrence of a pattern without `d` lies on one side of any `d` of the text. -/
theorem occurs_beside {pat pre p q : Str} {d : Char} (hd : d ∉ pat) (h : pre ++ pat <+: p ++ d :: q) :
    pre ++ pat <+: p ∨ p ++ [d] <+: pre := by
  have hsep : p ++ [d] <+: p ++ d :: q := ⟨q, by simp⟩
  have hpre : pre <+: p ++ d :: q := (List.prefix_append pre pat).trans h
  by_cases hlen : (pre ++ pat).length ≤ p.length
  · exact .inl (List.prefix_of_prefix_length_le h (List.prefix_append p _) hlen)
  · by_cases hle : p.length + 1 ≤ pre.length
    · exact .inr (List.prefix_of_prefix_length_le hsep hpre (by simpa using hle))
    · -- otherwise the `d` is a character of the pattern
      obtain ⟨t, rfl⟩ := List.prefix_of_prefix_length_le hpre (List.prefix_append p _) (by omega)
      have hinside := List.prefix_of_prefix_length_le hsep h (by simp at hlen ⊢; omega)
      rw [List.append_assoc, List.prefix_append_right_inj] at hinside
      exact absurd (hinside.subset (by simp)) hd

theorem infix_append_cons {pat p q : Str} {d : Char} (hd : d ∉ pat) :
    pat <:+: p ++ d :: q ↔ pat <:+: p ∨ pat <:+: q := by
  constructor
  · intro ⟨pre, post, h⟩
    have hpre : pre ++ pat <+: p ++ d :: q := ⟨post, h⟩
    rcases occurs_beside hd hpre with hleft | ⟨pre', hright⟩
    · exact .inl ((List.suffix_append pre pat).isInfix.trans hleft.isInfix)
    · right
      rw [← hright] at h
      exact ⟨pre', post, by simpa using h⟩
  · intro h
    rcases h with h | h
    · exact List.infix_append_of_infix_left h
    · exact List.infix_append_of_infix_right (List.infix_cons h)

/-- Behind a separator that the pattern does not contain, and nowhere before it. -/
theorem firstAt_of_separator {pat p rest : Str} {d : Char} (hd : d ∉ pat) (hp : ¬pat <:+: p) :
    FirstAt pat (p ++ [d]) (p ++ [d] ++ pat ++ rest) := by
  refine ⟨⟨rest, rfl⟩, fun pre hpre => ?_⟩
  have hpre : pre ++ pat <+: p ++ d :: (pat ++ rest) := by simpa using hpre
  rcases occurs_beside hd hpre with hleft | hright
  · exact absurd ((List.suffix_append pre pat).isInfix.trans hleft.isInfix) hp
  · exact hright.length_le

/-- A pattern's first character tells where it cannot stand. -/
theorem firstAt_of_notMem {c : Char} {pat pre rest : Str} (hc : c ∉ pre) :
    FirstAt (c :: pat) pre (pre ++ c :: pat ++ rest) := by
  refine ⟨⟨rest, by simp⟩, fun pre' hpre' => ?_⟩
  by_contra hlt
  have hfirst : pre' ++ [c] <+: pre ++ c :: pat ++ rest := List.IsPrefix.trans ⟨pat, by simp⟩ hpre'
  have hpre : pre <+: pre ++ c :: pat ++ rest := ⟨c :: pat ++ rest, by simp⟩
  have hinside : pre' ++ [c] <+: pre := List.prefix_of_prefix_length_le hfirst hpre (by simp; omega)
  exact hc (hinside.subset (by simp))

/-- There is only one first occurrence. -/
theorem FirstAt.unique {pat pre pre' s : Str} (h : FirstAt pat pre s) (h' : FirstAt pat pre' s) :
    pre = pre' := by
  have hlen := Nat.le_antisymm (h.2 pre' h'.1) (h'.2 pre h.1)
  have hp : pre <+: s := (List.prefix_append pre pat).trans h.1
  have hp' : pre' <+: s := (List.prefix_append pre' pat).trans h'.1
  exact (List.prefix_of_prefix_length_le hp hp' hlen.le).eq_of_length hlen

/-! ### Bytes -/

/-- The bytes of a text. -/
def encode (s : Str) : List UInt8 := s.flatMap String.utf8EncodeChar

/-- `String::from_utf8` -/
def decode (bytes : List UInt8) : Option Str := bytes.toByteArray.utf8Decode?.map Array.toList

theorem encode_append (s t : Str) : encode (s ++ t) = encode s ++ encode t := List.flatMap_append

theorem length_le_length_encode (s : Str) : s.length ≤ (encode s).length := by
  induction s with
  | nil => exact Nat.le_refl 0
  | cons c s ih =>
    have hpos := c.utf8Size_pos
    rw [encode, List.flatMap_cons, List.length_append, String.length_utf8EncodeChar, List.length_cons]
    exact (Nat.add_le_add ih hpos).trans_eq (Nat.add_comm ..)

theorem toByteArray_encode (s : Str) : (encode s).toByteArray = s.utf8Encode := rfl

theorem toByteArray_inj {a b : List UInt8} (h : a.toByteArray = b.toByteArray) : a = b := by
  have hdata := congrArg ByteArray.data h
  simpa using hdata

/-- Bytes are the text they are the bytes of, and no other bytes are a text. -/
theorem decode_eq_some {bytes : List UInt8} {s : Str} : decode bytes = some s ↔ encode s = bytes := by
  constructor
  · intro h
    obtain ⟨chars, hchars, rfl⟩ := Option.map_eq_some_iff.mp h
    obtain ⟨text, htext⟩ := ByteArray.isSome_utf8Decode?_iff.mp (Option.isSome_of_eq_some hchars)
    rw [htext, List.utf8Decode?_utf8Encode] at hchars
    cases hchars
    exact (toByteArray_inj htext).symm
  · rintro rfl
    rw [decode, toByteArray_encode, List.utf8Decode?_utf8Encode]
    rfl

theorem decode_encode (s : Str) : decode (encode s) = some s := decode_eq_some.mpr rfl

/-- A beginning of a text's bytes, where it is a text, is a beginning of the text. -/
theorem decode_beginning {piece : List UInt8} {s p : Str} (hpiece : piece <+: encode s)
    (h : decode piece = some p) : p <+: s := by
  obtain ⟨rest, hrest⟩ := hpiece
  refine List.isPrefix_of_utf8Encode_append_eq_utf8Encode rest.toByteArray ?_
  rw [← toByteArray_encode, ← toByteArray_encode, decode_eq_some.mp h, ← hrest, List.toByteArray_append]

/-- Bytes that end inside a character are no text. -/
theorem decode_inside {p : Str} {c : Char} {front : List UInt8} (hfront : front <+: String.utf8EncodeChar c)
    (hne : front ≠ []) (hpart : front ≠ String.utf8EncodeChar c) : decode (encode p ++ front) = none := by
  have hone : encode [c] = String.utf8EncodeChar c := List.flatMap_singleton ..
  cases h : decode (encode p ++ front) with
  | none => rfl
  | some q =>
    have hq := decode_eq_some.mp h
    obtain ⟨more, rfl⟩ := decode_beginning (hq.symm ▸ List.prefix_append _ _) (decode_encode p)
    rw [encode_append, List.append_cancel_left_eq] at hq
    -- what follows `p` would be a beginning of the one character
    have hmore := decode_beginning (s := [c]) (hone.symm ▸ hfront) (decode_eq_some.mpr hq)
    rcases List.prefix_cons_iff.mp hmore with rfl | ⟨rest, rfl, hrest⟩
    · exact absurd hq.symm hne
    · rw [List.prefix_nil.mp hrest, hone] at hq
      exact absurd hq.symm hpart

/-- The bytes of a character of several bytes are all from 0x80 on. -/
theorem byte_high {n k m : ℕ} (hk : 0 < k) (hm : 0x80 ≤ m) (hkm : k + m ≤ 256) :
    ¬UInt8.ofNat (n % k + m) < 0x80 := by
  have hmod := Nat.mod_lt n hk
  rw [UInt8.lt_iff_toNat_lt, UInt8.toNat_ofNat', Nat.mod_eq_of_lt (by omega)]
  exact Nat.not_lt.mpr (Nat.le_add_left_of_le hm)

/-- A byte below 0x80 is the character with this number. -/
theorem eq_of_mem_utf8EncodeChar {b : UInt8} {c : Char} (hb : b < 0x80)
    (h : b ∈ String.utf8EncodeChar c) : c.toNat = b.toNat := by
  -- every byte of a longer character is too large
  have hhigh : ∀ {n k m : ℕ}, 0 < k → 0x80 ≤ m → k + m ≤ 256 → b ≠ UInt8.ofNat (n % k + m) := by
    rintro n k m hk hm hkm rfl
    exact byte_high hk hm hkm hb
  unfold String.utf8EncodeChar at h
  dsimp only at h
  split at h
  · rename_i hsmall
    rw [List.mem_singleton.mp h, UInt8.toNat_ofNat', Nat.mod_eq_of_lt (Nat.lt_of_le_of_lt hsmall (by decide))]
    rfl
  split at h
  · rcases List.mem_pair.mp h with h | h
    · exact absurd h (hhigh (by decide) (by decide) (by decide))
    · exact absurd h (hhigh (by decide) (by decide) (by decide))
  split at h
  · simp only [List.mem_cons, List.not_mem_nil, or_false] at h
    rcases h with h | h | h
    · exact absurd h (hhigh (by decide) (by decide) (by decide))
    · exact absurd h (hhigh (by decide) (by decide) (by decide))
    · exact absurd h (hhigh (by decide) (by decide) (by decide))
  · simp only [List.mem_cons, List.not_mem_nil, or_false] at h
    rcases h with h | h | h | h
    · exact absurd h (hhigh (by decide) (by decide) (by decide))
    · exact absurd h (hhigh (by decide) (by decide) (by decide))
    · exact absurd h (hhigh (by decide) (by decide) (by decide))
    · exact absurd h (hhigh (by decide) (by decide) (by decide))

end Tapgres.Lib.Utf8
