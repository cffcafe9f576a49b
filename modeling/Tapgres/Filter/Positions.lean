import Tapgres.Filter.Lexer
import Tapgres.Lib.Trace

/-!
# The lexer by byte positions

`lex` and `lex_string` as they slice their input: at every position they read, with the panic of a slice
off a char boundary and of the `unwrap` behind it.  `Filter.lex` reads the same characters without
positions to go astray.

* `lexString_follows`, `lexLoop_follows` — each loop does what it does there, and slices at boundaries;
* `lex_follows` — so lexing never panics, and every position it slices at is a char boundary.
-/

namespace Tapgres.Filter.Indexed

open Tapgres.Lib Tapgres.Lib.Utf8 Tapgres.Lib.Trace

/-- A computation that records the positions it slices at. -/
abbrev Slicing (α : Type) := Traced ℕ Stop α

def errorAt {α : Type} (position : ℕ) (message : String) : Slicing α :=
  .fail (.error ⟨message, position⟩)

/-- `&input[position..]` -/
def sliceFrom (input : Str) (position : ℕ) : Slicing Str := do
  Traced.visit position
  match Utf8.sliceFrom input position with
  | some rest => pure rest
  | none => .fail .panic

/-- `&input[start..position]` -/
def slice (input : Str) (start position : ℕ) : Slicing Str := do
  Traced.visit start
  Traced.visit position
  match Utf8.slice input start position with
  | some s => pure s
  | none => .fail .panic

/-- `input[position..].chars().next().unwrap()` -/
def charAt (input : Str) (position : ℕ) : Slicing Char := do
  match ← sliceFrom input position with
  | ch :: _ => pure ch
  | [] => .fail .panic

/-! ### The lexer -/

/-- The loop of `lex_string`. -/
def lexStringLoop (input : Str) (start : ℕ) (raw : Bool) : ℕ → ℕ → Str → Slicing (String × ℕ)
  | 0, _, _ => .fail .fuel
  | n + 1, position, value =>
    if position < byteLen input then do
      let ch ← charAt input position
      let position := position + ch.utf8Size
      if ch = '\x22' then pure (String.ofList value, position)
      else if ch ≠ '\\' ∨ raw = true then lexStringLoop input start raw n position (value ++ [ch])
      else if position = byteLen input then errorAt start "unterminated string literal"
      else
        let escaped ← charAt input position
        let position := position + escaped.utf8Size
        match unescape escaped with
        | some c => lexStringLoop input start raw n position (value ++ [c])
        | none =>
          errorAt (position - escaped.utf8Size - 1) ("unsupported escape '\\" ++ String.singleton escaped
            ++ "' (use a raw string for regexes)")
    else errorAt start "unterminated string literal"

def lexString (input : Str) (start : ℕ) (raw : Bool) : Slicing (String × ℕ) :=
  lexStringLoop input start raw (input.length + 1) (start + if raw then 2 else 1) []

/-- The loop of `lex` over the characters of a word: where the word ends. -/
def wordEnd (input : Str) : ℕ → ℕ → Slicing ℕ
  | 0, _ => .fail .fuel
  | n + 1, position =>
    if position < byteLen input then do
      let ch ← charAt input position
      if isWhitespace ch || isDelimiter ch then pure position
      else wordEnd input n (position + ch.utf8Size)
    else pure position

/-- The loop of `lex`. -/
def lexLoop (input : Str) : ℕ → ℕ → Slicing (List Token)
  | 0, _ => .fail .fuel
  | n + 1, position =>
    if position < byteLen input then do
      let current ← charAt input position
      if isWhitespace current then lexLoop input n (position + current.utf8Size)
      else
        let start := position
        match simpleToken current with
        | some kind =>
          let tokens ← lexLoop input n (position + current.utf8Size)
          pure (⟨kind, start⟩ :: tokens)
        | none =>
          -- the code slices here once for each operator of two characters
          let rest ← sliceFrom input start
          match operatorOf rest with
          | some (kind, len) =>
            let tokens ← lexLoop input n (position + len)
            pure (⟨kind, start⟩ :: tokens)
          | none =>
            if current == '=' || current == '&' || current == '|' then
              errorAt start ("unexpected operator '" ++ String.singleton current ++ "'")
            else if current = '\x22' then
              let (value, next) ← lexString input start false
              let tokens ← lexLoop input n next
              pure (⟨.string value, start⟩ :: tokens)
            else
              let rest ← sliceFrom input start
              if ['r', '\x22'].isPrefixOf rest then
                let (value, next) ← lexString input start true
                let tokens ← lexLoop input n next
                pure (⟨.string value, start⟩ :: tokens)
              else
                let position ← wordEnd input (input.length + 1) start
                if position = start then
                  errorAt start ("unexpected character '" ++ String.singleton current ++ "'")
                else
                  let word ← slice input start position
                  let tokens ← lexLoop input n position
                  pure (⟨wordKind (String.ofList word), start⟩ :: tokens)
    else pure [⟨.end, byteLen input⟩]

/-- Every turn but the last takes a character. -/
def lex (input : Str) : Slicing (List Token) := lexLoop input (input.length + 1) 0

/-! ### Reading at a boundary -/

section Read

variable {α β : Type} {input pre rest : Str} {R : α → β → Prop} {x : Except Stop β}

/-- At a boundary inside the text there is something left. -/
theorem before_end {c : Char} (hinput : input = pre ++ c :: rest) : byteLen pre < byteLen input := by
  have hpos := c.utf8Size_pos
  rw [hinput, byteLen_append, byteLen_cons]
  omega

theorem not_before_end (hinput : input = pre) : ¬byteLen pre < byteLen input := by
  rw [hinput]
  exact lt_irrefl _

theorem sliceFrom_follows {f : Str → Slicing α} (hinput : input = pre ++ rest)
    (hf : Follows (IsBoundary input) R (f rest) x) :
    Follows (IsBoundary input) R (sliceFrom input (byteLen pre) >>= f) x := by
  have heq : sliceFrom input (byteLen pre) = ⟨[byteLen pre], .ok rest⟩ := by
    rw [sliceFrom, hinput, Utf8.sliceFrom_append]
    rfl
  rw [heq]
  refine .after rfl ?_ hf
  intro w hw
  rw [List.mem_singleton.mp hw]
  exact ⟨pre, rest, hinput, rfl⟩

theorem charAt_follows {c : Char} {f : Char → Slicing α} (hinput : input = pre ++ c :: rest)
    (hf : Follows (IsBoundary input) R (f c) x) :
    Follows (IsBoundary input) R (charAt input (byteLen pre) >>= f) x := by
  have heq : charAt input (byteLen pre) = ⟨[byteLen pre], .ok c⟩ := by
    rw [charAt, sliceFrom, hinput, Utf8.sliceFrom_append]
    rfl
  rw [heq]
  refine .after rfl ?_ hf
  intro w hw
  rw [List.mem_singleton.mp hw]
  exact ⟨pre, c :: rest, hinput, rfl⟩

theorem slice_follows {word : Str} {f : Str → Slicing α} (hinput : input = pre ++ word ++ rest)
    (hf : Follows (IsBoundary input) R (f word) x) :
    Follows (IsBoundary input) R (slice input (byteLen pre) (byteLen (pre ++ word)) >>= f) x := by
  have heq : slice input (byteLen pre) (byteLen (pre ++ word))
      = ⟨[byteLen pre, byteLen (pre ++ word)], .ok word⟩ := by
    rw [slice, hinput, byteLen_append, Utf8.slice_append]
    rfl
  rw [heq]
  refine .after rfl ?_ hf
  intro w hw
  rcases List.mem_cons.mp hw with rfl | hw
  · exact ⟨pre, word ++ rest, by rw [hinput, List.append_assoc], rfl⟩
  · rw [List.mem_singleton.mp hw]
    exact ⟨pre ++ word, rest, hinput, rfl⟩

end Read

/-! ### The loops -/

/-- The literal ends where the rest of the text begins, which is shorter than `limit`. -/
def EndsAt (input : Str) (limit : ℕ) (r : String × ℕ) (r' : String × ℕ × Str) : Prop :=
  r.1 = r'.1 ∧ r.2 = r'.2.1 ∧ r'.2.2.length < limit ∧ ∃ pre, input = pre ++ r'.2.2 ∧ byteLen pre = r.2

theorem lexStringLoop_follows {input : Str} (start : ℕ) (raw : Bool) {limit : ℕ} (n : ℕ) {pre rest : Str}
    (value : Str) (hinput : input = pre ++ rest) (hlimit : rest.length ≤ limit) (hn : rest.length < n) :
    Follows (IsBoundary input) (EndsAt input limit) (lexStringLoop input start raw n (byteLen pre) value)
      (Filter.lexString start raw (byteLen pre) value rest) := by
  induction n generalizing pre value rest with
  | zero => omega
  | succ n ih =>
    rw [lexStringLoop]
    cases rest with
    | nil =>
      rw [if_neg (not_before_end (by simpa using hinput))]
      exact .fail _
    | cons ch rest =>
      rw [List.length_cons] at hn hlimit
      have hnext : input = pre ++ [ch] ++ rest := by simp [hinput]
      have hlen : byteLen (pre ++ [ch]) = byteLen pre + ch.utf8Size := by simp
      rw [if_pos (before_end hinput), Filter.lexString.eq_def]
      apply charAt_follows hinput
      dsimp only
      split
      · rename_i hquote
        refine .pure ⟨rfl, ?_, hlimit, pre ++ [ch], hnext, hlen⟩
        rw [hquote]
        rfl
      split
      · rw [← hlen]
        exact ih _ hnext (by omega) (by omega)
      rename_i hquote hescape
      have hback : ch.utf8Size = 1 := by
        rw [not_not.mp (not_or.mp hescape).1]
        rfl
      cases rest with
      | nil =>
        rw [if_pos (by rw [← hlen, hnext, List.append_nil])]
        exact .fail _
      | cons escaped rest =>
        rw [List.length_cons] at hn hlimit
        have hlast : input = pre ++ [ch] ++ [escaped] ++ rest := by simp [hinput]
        rw [← hlen, if_neg (before_end hnext).ne]
        apply charAt_follows hnext
        dsimp only
        cases unescape escaped with
        | some c =>
          have hpos : byteLen (pre ++ [ch] ++ [escaped]) = byteLen pre + 1 + escaped.utf8Size := by
            simp [hback, Nat.add_assoc]
          have hloop := ih (value ++ [c]) hlast (by omega) (by omega)
          rw [hpos] at hloop
          rw [hlen, hback]
          exact hloop
        | none =>
          have hpos : byteLen (pre ++ [ch]) + escaped.utf8Size - escaped.utf8Size - 1 = byteLen pre := by
            rw [hlen, hback]
            omega
          rw [hpos]
          exact .fail _

theorem wordEnd_follows {input : Str} (n : ℕ) {pre rest : Str} (hinput : input = pre ++ rest)
    (hn : rest.length < n) :
    Follows (IsBoundary input) (fun a b : ℕ => a = b) (wordEnd input n (byteLen pre))
      (.ok (byteLen (pre ++ rest.takeWhile isWordChar))) := by
  induction n generalizing pre rest with
  | zero => omega
  | succ n ih =>
    rw [wordEnd]
    cases rest with
    | nil =>
      rw [if_neg (not_before_end (by simpa using hinput))]
      exact .pure (by simp)
    | cons ch rest =>
      rw [List.length_cons] at hn
      rw [if_pos (before_end hinput)]
      apply charAt_follows hinput
      split
      · rename_i hend
        rw [List.takeWhile_cons_of_neg (by simp [isWordChar, hend]), List.append_nil]
        exact .pure rfl
      · rename_i hword
        have hnext : input = pre ++ [ch] ++ rest := by simp [hinput]
        have hloop := ih hnext (by omega)
        rw [List.append_assoc, List.singleton_append] at hloop
        rw [List.takeWhile_cons_of_pos (by simpa [isWordChar] using hword)]
        simpa using hloop

theorem byteLen_pos {s : Str} (h : s ≠ []) : 0 < byteLen s := by
  obtain ⟨c, rest, rfl⟩ := List.exists_cons_of_ne_nil h
  have := c.utf8Size_pos
  rw [byteLen_cons]
  omega

/-- An operator is of one-byte characters. -/
theorem operatorOf_byteLen {s : Str} {kind : TokenKind} {len : ℕ} (h : operatorOf s = some (kind, len)) :
    byteLen (s.take len) = len := by
  unfold operatorOf at h
  split at h <;> cases h <;> rfl

theorem rawPrefix_iff (current : Char) (rest : Str) :
    ['r', '\x22'].isPrefixOf (current :: rest) = true ↔ current = 'r' ∧ rest.head? = some '\x22' := by
  rw [List.isPrefixOf_iff_prefix, List.cons_prefix_cons, eq_comm]
  cases rest with
  | nil => simp
  | cons c rest =>
    rw [List.cons_prefix_cons, List.head?_cons, Option.some_inj, eq_comm (a := '\x22')]
    simp

/-- From a boundary on, `n` turns of the loop do what they do there. -/
def LoopFollows (input : Str) (n : ℕ) : Prop :=
  ∀ {pre rest : Str}, input = pre ++ rest → rest.length < n →
    Follows (IsBoundary input) (fun a b : List Token => a = b) (lexLoop input n (byteLen pre))
      (Filter.lexLoop n (byteLen pre) rest)

section Turn

variable {input pre rest : Str} {n : ℕ}

/-- A token, and the turns behind it. -/
theorem token_follows (h : LoopFollows input n) (token : Token) (hinput : input = pre ++ rest)
    (hn : rest.length < n) {next : ℕ} (hnext : byteLen pre = next) :
    Follows (IsBoundary input) (fun a b : List Token => a = b)
      (do let tokens ← lexLoop input n next; pure (token :: tokens))
      (do let tokens ← Filter.lexLoop n next rest; pure (token :: tokens)) := by
  subst hnext
  exact (h hinput hn).bind fun tokens tokens' heq => .pure (by rw [heq])

/-- A literal whose opening quote ends at `next`, and the turns behind it. -/
theorem literal_follows (h : LoopFollows input n) (raw : Bool) (hinput : input = pre ++ rest)
    (hn : rest.length ≤ n) {start next : ℕ} (hnext : byteLen pre = next)
    (hquote : next = start + if raw then 2 else 1) :
    Follows (IsBoundary input) (fun a b : List Token => a = b)
      (do
        let (value, next) ← lexString input start raw
        let tokens ← lexLoop input n next
        pure (⟨.string value, start⟩ :: tokens))
      (do
        let (value, next, rest) ← Filter.lexString start raw next [] rest
        let tokens ← Filter.lexLoop n next rest
        pure (⟨.string value, start⟩ :: tokens)) := by
  have hshort : rest.length < input.length + 1 := by
    rw [hinput, List.length_append]
    omega
  rw [lexString, ← hquote, ← hnext]
  refine (lexStringLoop_follows start raw (input.length + 1) [] hinput hn hshort).bind ?_
  intro (value, next) (value', next', rest') ⟨hvalue, hnext, hless, pre', hends, hat⟩
  dsimp only at hvalue hnext hless hends hat ⊢
  rw [← hvalue, ← hnext]
  exact token_follows h _ hends hless hat

/-- A word, and the turns behind it. -/
theorem word_follows (h : LoopFollows input n) {current : Char} (hinput : input = pre ++ current :: rest)
    (hn : rest.length < n) :
    Follows (IsBoundary input) (fun a b : List Token => a = b)
      (do
        let position ← wordEnd input (input.length + 1) (byteLen pre)
        if position = byteLen pre then
          errorAt (byteLen pre) ("unexpected character '" ++ String.singleton current ++ "'")
        else
          let word ← slice input (byteLen pre) position
          let tokens ← lexLoop input n position
          pure (⟨wordKind (String.ofList word), byteLen pre⟩ :: tokens))
      (let word := (current :: rest).takeWhile isWordChar
        if word = [] then
          Filter.errorAt (byteLen pre) ("unexpected character '" ++ String.singleton current ++ "'")
        else do
          let tokens ← Filter.lexLoop n (byteLen pre + byteLen word) ((current :: rest).drop word.length)
          pure (⟨wordKind (String.ofList word), byteLen pre⟩ :: tokens)) := by
  have hshort : (current :: rest).length < input.length + 1 := by
    rw [hinput, List.length_append]
    omega
  have hword := wordEnd_follows (input.length + 1) hinput hshort
  have htake : (current :: rest).takeWhile isWordChar <+: current :: rest := List.takeWhile_prefix _
  have hword' := List.prefix_iff_eq_append.mp htake
  refine .after hword.result_eq hword.visited ?_
  generalize (current :: rest).takeWhile isWordChar = word at *
  by_cases hempty : word = []
  · rw [if_pos (by rw [hempty, List.append_nil]), if_pos hempty]
    exact .fail _
  · have hlength := List.length_pos_iff.mpr hempty
    have hlt := byteLen_pos hempty
    have hsplit : input = pre ++ word ++ (current :: rest).drop word.length := by
      rw [List.append_assoc, hword', hinput]
    have hrest : ((current :: rest).drop word.length).length < n := by
      rw [List.length_drop, List.length_cons]
      omega
    rw [if_neg (by rw [byteLen_append]; omega), if_neg hempty]
    apply slice_follows hsplit
    rw [← byteLen_append]
    exact token_follows h _ hsplit hrest rfl

end Turn

/-- **The loop by positions.**  Its branches are those of the loop without them. -/
theorem lexLoop_follows (input : Str) (n : ℕ) : LoopFollows input n := by
  induction n with
  | zero =>
    intro pre rest _ hn
    omega
  | succ n ih =>
    intro pre rest hinput hn
    rw [lexLoop]
    cases rest with
    | nil =>
      have hend : input = pre := by simpa using hinput
      rw [if_neg (not_before_end hend), hend]
      exact .pure rfl
    | cons current rest =>
      rw [List.length_cons] at hn
      have hnext : input = pre ++ [current] ++ rest := by simp [hinput]
      have hpos : byteLen (pre ++ [current]) = byteLen pre + current.utf8Size := by simp
      rw [if_pos (before_end hinput), Filter.lexLoop]
      apply charAt_follows hinput
      dsimp only
      split
      · rw [← hpos]
        exact ih hnext (by omega)
      cases simpleToken current with
      | some kind => exact token_follows ih _ hnext (by omega) hpos
      | none =>
        apply sliceFrom_follows hinput
        dsimp only
        cases hoperator : operatorOf (current :: rest) with
        | some operator =>
          obtain ⟨kind, len⟩ := operator
          have hlen := (operatorOf_spec hoperator).2
          have hsplit : input = pre ++ (current :: rest).take len ++ (current :: rest).drop len := by
            rw [List.append_assoc, List.take_append_drop, hinput]
          have hrest : ((current :: rest).drop len).length < n := by
            rw [List.length_drop, List.length_cons]
            omega
          exact token_follows ih _ hsplit hrest (by rw [byteLen_append, operatorOf_byteLen hoperator])
        | none =>
          dsimp only
          split
          · exact .fail _
          split
          · rename_i hquote
            have hone : byteLen (pre ++ [current]) = byteLen pre + 1 := by
              rw [hpos, hquote]
              rfl
            exact literal_follows ih false hnext (by omega) hone rfl
          apply sliceFrom_follows hinput
          by_cases hraw : current = 'r' ∧ rest.head? = some '\x22'
          · obtain ⟨tail, rfl⟩ : ∃ tail, rest = '\x22' :: tail := List.head?_eq_some_iff.mp hraw.2
            have htwo : byteLen (pre ++ ['r', '\x22']) = byteLen pre + 2 := by
              rw [byteLen_append]
              rfl
            have hsplit : input = pre ++ ['r', '\x22'] ++ tail := by simp [hinput, hraw.1]
            rw [List.length_cons] at hn
            rw [if_pos ((rawPrefix_iff _ _).mpr hraw), if_pos hraw]
            exact literal_follows ih true hsplit (by omega) htwo rfl
          · rw [if_neg (mt (rawPrefix_iff _ _).mp hraw), if_neg hraw]
            exact word_follows ih hinput (by omega)

/-- **Lexing by positions** reads what `Filter.lex` reads, and slices at char boundaries only. -/
theorem lex_follows (input : Str) :
    Follows (IsBoundary input) (fun a b : List Token => a = b) (lex input) (Filter.lex input) := by
  have hloop : LoopFollows input (input.length + 1) := lexLoop_follows input _
  exact @hloop [] input rfl (Nat.lt_succ_self _)

end Tapgres.Filter.Indexed
