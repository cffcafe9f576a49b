import Tapgres.Filter.Print
import Tapgres.Filter.Positions

/-!
# How tokens are spelled

The lexical structure of filter texts, apart from any lexer: what a token looks like in a text, what is
no token, and where tokens stand.

* `Spells`, `Faulty` — a text that starts with a token, or with what is none;
* `Scanned` — tokens one behind the other, with blanks between them, and what is left;
* `spells_or_faulty` — one of the two stands wherever no blank does;
* `lexLoop_spells`, `lexLoop_faulty` — what the lexer does in front of each;
* `scanned_cases`, `lex_scanned`, `lex_faulty` — so its tokens are those of the text, at their positions.
-/

namespace Tapgres.Filter

open Tapgres.Lib

/-- Nothing but blanks. -/
def Blank (s : Utf8.Str) : Prop := ∀ c ∈ s, Utf8.isWhitespace c = true

/-! ### The judgements -/

/-- What stands between the quotes of a literal, and what it stands for. -/
inductive Escaped : Utf8.Str → Utf8.Str → Prop where
  | nil : Escaped [] []
  | plain {c : Char} {body value : Utf8.Str} (hquote : c ≠ '\x22') (hescape : c ≠ '\\')
      (more : Escaped body value) : Escaped (c :: body) (c :: value)
  | escape {c d : Char} {body value : Utf8.Str} (h : unescape c = some d) (more : Escaped body value) :
      Escaped ('\\' :: c :: body) (d :: value)

/-- In front of `rest`, the text is a token. -/
inductive Spells : TokenKind → Utf8.Str → Utf8.Str → Prop where
  | simple {c : Char} {kind : TokenKind} (h : simpleToken c = some kind) (rest : Utf8.Str) :
      Spells kind [c] rest
  | operator {text rest : Utf8.Str} {kind : TokenKind}
      (h : operatorOf (text ++ rest) = some (kind, text.length)) : Spells kind text rest
  | literal {body value : Utf8.Str} (h : Escaped body value) (rest : Utf8.Str) :
      Spells (.string (String.ofList value)) ('\x22' :: body ++ ['\x22']) rest
  | raw {body : Utf8.Str} (h : '\x22' ∉ body) (rest : Utf8.Str) :
      Spells (.string (String.ofList body)) ('r' :: '\x22' :: body ++ ['\x22']) rest
  | word {word rest : Utf8.Str} (hne : word ≠ []) (hchars : ∀ c ∈ word, isWordChar c = true)
      (hquote : word.head? ≠ some '\x22') (hraw : ¬['r', '\x22'] <+: word)
      (hend : rest.takeWhile isWordChar = []) : Spells (wordKind (String.ofList word)) word rest

/-- The text starts with what is no token; the fault lies at the offset. -/
inductive Faulty : Utf8.Str → ℕ → Prop where
  | operator {c : Char} {rest : Utf8.Str} (h : c = '=' ∨ c = '&' ∨ c = '|') (hlone : rest.head? ≠ some c) :
      Faulty (c :: rest) 0
  | unclosed {body value tail : Utf8.Str} (h : Escaped body value) (htail : tail = [] ∨ tail = ['\\']) :
      Faulty ('\x22' :: (body ++ tail)) 0
  | unclosedRaw {body : Utf8.Str} (h : '\x22' ∉ body) : Faulty ('r' :: '\x22' :: body) 0
  | escape {body value : Utf8.Str} {c : Char} (h : Escaped body value) (hc : unescape c = none)
      (rest : Utf8.Str) : Faulty ('\x22' :: (body ++ '\\' :: c :: rest)) (1 + Utf8.byteLen body)

/-- From a position on the text has these tokens, and behind the last one stands the rest. -/
inductive Scanned : ℕ → Utf8.Str → List Token → ℕ → Utf8.Str → Prop where
  | done {position : ℕ} {s : Utf8.Str} : Scanned position s [] position s
  | token {position next : ℕ} {blanks text rest s : Utf8.Str} {kind : TokenKind} {tokens : List Token}
      (hblanks : Blank blanks) (h : Spells kind text rest)
      (more : Scanned (position + Utf8.byteLen blanks + Utf8.byteLen text) rest tokens next s) :
      Scanned position (blanks ++ (text ++ rest)) (⟨kind, position + Utf8.byteLen blanks⟩ :: tokens) next s

theorem Blank.append {s t : Utf8.Str} (hs : Blank s) (ht : Blank t) : Blank (s ++ t) := by
  intro c hc
  rcases List.mem_append.mp hc with hc | hc
  · exact hs c hc
  · exact ht c hc

theorem Spells.ne_end {kind : TokenKind} {text rest : Utf8.Str} (h : Spells kind text rest) :
    kind ≠ .end := by
  cases h with
  | simple h => exact simpleToken_ne_end h
  | operator h => exact (operatorOf_spec h).1
  | literal => simp
  | raw => simp
  | word => exact wordKind_ne_end _

theorem Spells.ne_nil {kind : TokenKind} {text rest : Utf8.Str} (h : Spells kind text rest) :
    text ≠ [] := by
  cases h with
  | simple => exact List.cons_ne_nil _ _
  | operator h => exact List.ne_nil_of_length_pos (operatorOf_spec h).2
  | literal => exact List.cons_ne_nil _ _
  | raw => exact List.cons_ne_nil _ _
  | word hne => exact hne

/-- The tokens stand where their positions say. -/
theorem Scanned.next_eq {position next : ℕ} {s rest : Utf8.Str} {tokens : List Token}
    (h : Scanned position s tokens next rest) :
    ∃ read, s = read ++ rest ∧ next = position + Utf8.byteLen read := by
  induction h with
  | done => exact ⟨[], rfl, rfl⟩
  | @token position _ blanks text _ _ _ _ _ _ _ ih =>
    obtain ⟨read, rfl, rfl⟩ := ih
    refine ⟨blanks ++ text ++ read, by simp, ?_⟩
    simp only [Utf8.byteLen_append]
    omega

/-- A token of the text starts at its position. -/
theorem Scanned.token_at {position next : ℕ} {s rest : Utf8.Str} {tokens : List Token}
    (h : Scanned position s tokens next rest) {t : Token} (ht : t ∈ tokens) :
    ∃ read text behind, s = read ++ (text ++ behind) ∧ t.position = position + Utf8.byteLen read ∧
      Spells t.kind text behind := by
  induction h with
  | done => cases ht
  | @token position _ blanks text rest _ _ _ _ hspells _ ih =>
    rcases List.mem_cons.mp ht with rfl | ht
    · exact ⟨blanks, text, rest, rfl, rfl, hspells⟩
    · obtain ⟨read, text', behind, rfl, hposition, hspells'⟩ := ih ht
      refine ⟨blanks ++ text ++ read, text', behind, by simp, ?_, hspells'⟩
      rw [hposition]
      simp only [Utf8.byteLen_append]
      omega

/-! ### Every text starts with one or the other -/

/-- Behind an opening quote: up to the closing one, to the end of the text, or to a wrong escape. -/
theorem literal_cases (s : Utf8.Str) :
    (∃ body value rest, s = body ++ '\x22' :: rest ∧ Escaped body value) ∨
      (∃ body value tail, s = body ++ tail ∧ Escaped body value ∧ (tail = [] ∨ tail = ['\\'])) ∨
      ∃ body value c rest, s = body ++ '\\' :: c :: rest ∧ Escaped body value ∧ unescape c = none := by
  match s with
  | [] => exact .inr (.inl ⟨[], [], [], rfl, .nil, .inl rfl⟩)
  | c :: s =>
    by_cases hquote : c = '\x22'
    · subst hquote
      exact .inl ⟨[], [], s, rfl, .nil⟩
    by_cases hescape : c = '\\'
    · subst hescape
      match s with
      | [] => exact .inr (.inl ⟨[], [], ['\\'], rfl, .nil, .inr rfl⟩)
      | d :: s =>
        cases hd : unescape d with
        | none => exact .inr (.inr ⟨[], [], d, s, rfl, .nil, hd⟩)
        | some x =>
          rcases literal_cases s with ⟨body, value, rest, rfl, h⟩ | ⟨body, value, tail, rfl, h, htail⟩ |
            ⟨body, value, e, rest, rfl, h, he⟩
          · exact .inl ⟨'\\' :: d :: body, x :: value, rest, rfl, .escape hd h⟩
          · exact .inr (.inl ⟨'\\' :: d :: body, x :: value, tail, rfl, .escape hd h, htail⟩)
          · exact .inr (.inr ⟨'\\' :: d :: body, x :: value, e, rest, rfl, .escape hd h, he⟩)
    · rcases literal_cases s with ⟨body, value, rest, rfl, h⟩ | ⟨body, value, tail, rfl, h, htail⟩ |
        ⟨body, value, e, rest, rfl, h, he⟩
      · exact .inl ⟨c :: body, c :: value, rest, rfl, .plain hquote hescape h⟩
      · exact .inr (.inl ⟨c :: body, c :: value, tail, rfl, .plain hquote hescape h, htail⟩)
      · exact .inr (.inr ⟨c :: body, c :: value, e, rest, rfl, .plain hquote hescape h, he⟩)

/-- What is neither blank, nor a bracket, nor part of an operator belongs to a word. -/
theorem isWordChar_of_none {c : Char} {rest : Utf8.Str} (hblank : Utf8.isWhitespace c = false)
    (hsimple : simpleToken c = none) (hoperator : operatorOf (c :: rest) = none)
    (hlone : ¬(c = '=' ∨ c = '&' ∨ c = '|')) : isWordChar c = true := by
  have hbang : c ≠ '!' := by
    intro h
    subst h
    unfold operatorOf at hoperator
    split at hoperator <;> simp_all
  unfold simpleToken at hsimple
  split at hsimple <;> simp_all [isWordChar, isDelimiter]

/-- **A text that does not start with a blank starts with a token, or is faulty.** -/
theorem spells_or_faulty {c : Char} {s : Utf8.Str} (hblank : Utf8.isWhitespace c = false) :
    (∃ kind text rest, c :: s = text ++ rest ∧ Spells kind text rest) ∨ ∃ offset, Faulty (c :: s) offset := by
  cases hsimple : simpleToken c with
  | some kind => exact .inl ⟨kind, [c], s, rfl, .simple hsimple s⟩
  | none =>
    cases hoperator : operatorOf (c :: s) with
    | some found =>
      obtain ⟨kind, len⟩ := found
      have hlen : ((c :: s).take len).length = len := by
        unfold operatorOf at hoperator
        split at hoperator <;> cases hoperator <;> simp_all
      refine .inl ⟨kind, (c :: s).take len, (c :: s).drop len, (List.take_append_drop _ _).symm, .operator ?_⟩
      rw [List.take_append_drop, hlen]
      exact hoperator
    | none =>
      by_cases hlone : c = '=' ∨ c = '&' ∨ c = '|'
      · refine .inr ⟨0, .operator hlone ?_⟩
        intro hhead
        obtain ⟨rest, rfl⟩ : ∃ rest, s = c :: rest := by
          cases s with
          | nil => cases hhead
          | cons d rest => exact ⟨rest, by rw [Option.some.inj hhead]⟩
        rcases hlone with rfl | rfl | rfl <;> simp [operatorOf] at hoperator
      by_cases hquote : c = '\x22'
      · subst hquote
        rcases literal_cases s with ⟨body, value, rest, rfl, h⟩ | ⟨body, value, tail, rfl, h, htail⟩ |
          ⟨body, value, e, rest, rfl, h, he⟩
        · exact .inl ⟨_, _, rest, by simp, .literal h rest⟩
        · exact .inr ⟨0, .unclosed h htail⟩
        · exact .inr ⟨_, .escape h he rest⟩
      by_cases hraw : ['r', '\x22'] <+: c :: s
      · obtain ⟨body, hbody⟩ := hraw
        obtain ⟨rfl, rfl⟩ := List.cons.inj hbody
        by_cases hmem : '\x22' ∈ body
        · obtain ⟨pre, rest, rfl, hpre⟩ := List.eq_append_cons_of_mem hmem
          exact .inl ⟨_, _, rest, by simp, .raw hpre rest⟩
        · exact .inr ⟨0, .unclosedRaw hmem⟩
      have hc := isWordChar_of_none hblank hsimple hoperator hlone
      have hword : (c :: s).takeWhile isWordChar = c :: s.takeWhile isWordChar :=
        List.takeWhile_cons_of_pos hc
      refine .inl ⟨_, (c :: s).takeWhile isWordChar, (c :: s).dropWhile isWordChar,
        List.takeWhile_append_dropWhile.symm, .word ?_ (fun _ => List.mem_takeWhile_imp) ?_ ?_ ?_⟩
      · rw [hword]
        exact List.cons_ne_nil _ _
      · rw [hword]
        simpa using hquote
      · exact fun h => hraw (h.trans (List.takeWhile_prefix _))
      · cases hrest : (c :: s).dropWhile isWordChar with
        | nil => rfl
        | cons d rest =>
          have hd : isWordChar d = false := by
            have hne : (c :: s).dropWhile isWordChar ≠ [] := by rw [hrest]; exact List.cons_ne_nil _ _
            have hhead := List.head_dropWhile_not isWordChar hne
            simpa only [hrest, List.head_cons] using hhead
          exact List.takeWhile_cons_of_neg (by simp [hd])

/-! ### The lexer in front of each -/

theorem lexString_body {body value : Utf8.Str} (h : Escaped body value) (start position : ℕ)
    (read s : Utf8.Str) :
    lexString start false position read (body ++ s)
      = lexString start false (position + Utf8.byteLen body) (read ++ value) s := by
  induction h generalizing position read with
  | nil => simp
  | @plain c body value hquote hescape _ ih =>
    rw [List.cons_append, lexString.eq_def]
    dsimp only
    rw [if_neg hquote, if_pos (.inl hescape), ih, Utf8.byteLen_cons, Nat.add_assoc, List.append_assoc,
      List.singleton_append]
  | @escape c d body value hc _ ih =>
    have hslash : ('\\' : Char).utf8Size = 1 := rfl
    rw [List.cons_append, List.cons_append, lexString.eq_def]
    dsimp only
    rw [if_neg (by decide), if_neg (by decide), hc]
    dsimp only
    rw [ih, Utf8.byteLen_cons, Utf8.byteLen_cons, hslash, List.append_assoc, List.singleton_append,
      Nat.add_assoc, Nat.add_assoc]

theorem lexString_raw {body : Utf8.Str} (h : '\x22' ∉ body) (start position : ℕ) (read s : Utf8.Str) :
    lexString start true position read (body ++ s)
      = lexString start true (position + Utf8.byteLen body) (read ++ body) s := by
  induction body generalizing position read with
  | nil => simp
  | cons c body ih =>
    have hquote : c ≠ '\x22' := fun hc => h (hc ▸ List.mem_cons_self)
    have htail : '\x22' ∉ body := fun hmem => h (List.mem_cons_of_mem c hmem)
    rw [List.cons_append, lexString.eq_def]
    dsimp only
    rw [if_neg hquote, if_pos (.inr rfl), ih htail, Utf8.byteLen_cons, Nat.add_assoc, List.append_assoc,
      List.singleton_append]

/-- The closing quote. -/
theorem lexString_quote (start : ℕ) (raw : Bool) (position : ℕ) (read rest : Utf8.Str) :
    lexString start raw position read ('\x22' :: rest) = .ok (String.ofList read, position + 1, rest) := by
  rw [lexString.eq_def]
  rfl

/-- In front of a quote, or of an `r` and a quote, the loop reads a literal. -/
theorem lexLoop_quote (n position : ℕ) (s : Utf8.Str) :
    lexLoop (n + 1) position ('\x22' :: s) = (do
      let (value, next, rest) ← lexString position false (position + 1) [] s
      let tokens ← lexLoop n next rest
      pure (⟨.string value, position⟩ :: tokens)) := by
  have hsimple : simpleToken '\x22' = none := rfl
  rw [lexLoop, if_neg (by decide), hsimple]
  dsimp only
  rw [operatorOf_eq_none (by decide)]
  dsimp only
  rw [if_neg (by decide), if_pos rfl]

theorem lexLoop_raw (n position : ℕ) (s : Utf8.Str) :
    lexLoop (n + 1) position ('r' :: '\x22' :: s) = (do
      let (value, next, rest) ← lexString position true (position + 2) [] s
      let tokens ← lexLoop n next rest
      pure (⟨.string value, position⟩ :: tokens)) := by
  have hsimple : simpleToken 'r' = none := rfl
  rw [lexLoop, if_neg (by decide), hsimple]
  dsimp only
  rw [operatorOf_eq_none (by decide)]
  dsimp only
  rw [if_neg (by decide), if_neg (by decide), if_pos ⟨rfl, rfl⟩, List.tail_cons]

/-- The characters of operators are no blanks and no brackets. -/
theorem operatorOf_head {c : Char} {s : Utf8.Str} {found : TokenKind × ℕ}
    (h : operatorOf (c :: s) = some found) : Utf8.isWhitespace c = false ∧ simpleToken c = none := by
  unfold operatorOf at h
  split at h
  all_goals first | (rename_i heq; cases heq; decide) | cases h

/-- **A token is read**, and the loop goes on behind it. -/
theorem lexLoop_spells {kind : TokenKind} {text rest : Utf8.Str} (h : Spells kind text rest)
    (n position : ℕ) :
    lexLoop (n + 1) position (text ++ rest) = (do
      let tokens ← lexLoop n (position + Utf8.byteLen text) rest
      pure (⟨kind, position⟩ :: tokens)) := by
  cases h with
  | @simple c _ hkind =>
    have hblank : Utf8.isWhitespace c = false := by
      unfold simpleToken at hkind
      split at hkind <;> first | decide | cases hkind
    exact lexLoop_simple hkind hblank n position rest
  | operator hop =>
    obtain ⟨c, tail, rfl⟩ := List.exists_cons_of_ne_nil (Spells.operator hop).ne_nil
    obtain ⟨hblank, hsimple⟩ := operatorOf_head hop
    have hbytes := Indexed.operatorOf_byteLen hop
    rw [List.take_left] at hbytes
    rw [List.cons_append] at hop ⊢
    rw [lexLoop, if_neg (by simp [hblank]), hsimple]
    dsimp only
    rw [hop]
    dsimp only
    rw [← List.cons_append, List.drop_left, hbytes]
  | @literal body value hbody =>
    have hsize : ('\x22' : Char).utf8Size = 1 := rfl
    have hlen : position + Utf8.byteLen ('\x22' :: body ++ ['\x22'])
        = position + 1 + Utf8.byteLen body + 1 := by
      simp [hsize]
      omega
    rw [hlen]
    simp only [List.cons_append, List.append_assoc, List.nil_append]
    rw [lexLoop_quote, lexString_body hbody, lexString_quote, List.nil_append]
    rfl
  | @raw body hbody =>
    have hsize : ('\x22' : Char).utf8Size = 1 := rfl
    have hr : ('r' : Char).utf8Size = 1 := rfl
    have hlen : position + Utf8.byteLen ('r' :: '\x22' :: body ++ ['\x22'])
        = position + 2 + Utf8.byteLen body + 1 := by
      simp [hsize, hr]
      omega
    rw [hlen]
    simp only [List.cons_append, List.append_assoc, List.nil_append]
    rw [lexLoop_raw, lexString_raw hbody, lexString_quote, List.nil_append]
    rfl
  | word hne hchars hquote hraw hend => exact lexLoop_word hne hchars hquote hraw hend n position

/-- The loop of `lex_string` stops at the end of the text, with or without a lone backslash. -/
theorem lexString_unclosed (start position : ℕ) (read : Utf8.Str) {tail : Utf8.Str}
    (htail : tail = [] ∨ tail = ['\\']) :
    lexString start false position read tail = errorAt start "unterminated string literal" := by
  rcases htail with rfl | rfl
  · rfl
  · rw [lexString.eq_def]
    dsimp only
    rw [if_neg (by decide), if_neg (by decide)]

/-- At a wrong escape it stops, at the backslash. -/
theorem lexString_escape (start position : ℕ) (read rest : Utf8.Str) {c : Char} (hc : unescape c = none) :
    ∃ message, lexString start false position read ('\\' :: c :: rest) = errorAt position message := by
  rw [lexString.eq_def]
  dsimp only
  rw [if_neg (by decide), if_neg (by decide), hc]
  exact ⟨_, rfl⟩

/-- **A fault is reported where it lies.** -/
theorem lexLoop_faulty {s : Utf8.Str} {offset : ℕ} (h : Faulty s offset) (n position : ℕ) :
    ∃ message, lexLoop (n + 1) position s = errorAt (position + offset) message := by
  cases h with
  | @operator c rest hc hlone =>
    have hnone : Utf8.isWhitespace c = false ∧ simpleToken c = none ∧ operatorOf (c :: rest) = none := by
      refine ⟨?_, ?_, ?_⟩
      · rcases hc with rfl | rfl | rfl <;> decide
      · rcases hc with rfl | rfl | rfl <;> rfl
      · unfold operatorOf
        split <;> simp_all
    rw [lexLoop, if_neg (by simp [hnone.1]), hnone.2.1]
    dsimp only
    rw [hnone.2.2]
    dsimp only
    rw [if_pos (by rcases hc with rfl | rfl | rfl <;> rfl)]
    exact ⟨_, rfl⟩
  | unclosed hbody htail =>
    rw [lexLoop_quote, lexString_body hbody, lexString_unclosed _ _ _ htail]
    exact ⟨_, rfl⟩
  | @unclosedRaw body hbody =>
    have hend := lexString_raw hbody position (position + 2) [] []
    rw [List.append_nil] at hend
    rw [lexLoop_raw, hend]
    exact ⟨_, rfl⟩
  | @escape body _ c hbody hc rest =>
    obtain ⟨message, herror⟩ := lexString_escape position (position + 1 + Utf8.byteLen body)
      ([] ++ _) rest hc
    rw [lexLoop_quote, lexString_body hbody, herror, Nat.add_assoc]
    exact ⟨message, rfl⟩

/-! ### The lexer on a text -/

/-- Behind what was scanned the loop goes on, with fuel enough for what is left. -/
theorem lexLoop_scanned {position next : ℕ} {s rest : Utf8.Str} {tokens : List Token}
    (h : Scanned position s tokens next rest) {n : ℕ} (hn : s.length < n) :
    ∃ m, rest.length < m ∧ lexLoop n position s = (do
      let more ← lexLoop m next rest
      pure (tokens ++ more)) := by
  induction h generalizing n with
  | @done position s =>
    refine ⟨n, hn, ?_⟩
    cases lexLoop n position s <;> rfl
  | @token position next blanks text rest s kind tokens hblanks hspells _ ih =>
    have hpos := List.length_pos_iff.mpr hspells.ne_nil
    simp only [List.length_append] at hn
    obtain ⟨k, rfl⟩ : ∃ k, n = blanks.length + (k + 1) := ⟨n - blanks.length - 1, by omega⟩
    obtain ⟨m, hm, hrun⟩ := ih (n := k) (by omega)
    refine ⟨m, hm, ?_⟩
    rw [lexLoop_blanks hblanks, lexLoop_spells hspells, hrun]
    cases lexLoop m next s <;> rfl

/-- Blanks at the end of a text. -/
theorem lexLoop_end {blanks : Utf8.Str} (hblanks : Blank blanks) {n : ℕ} (hn : blanks.length < n)
    (position : ℕ) : lexLoop n position blanks = .ok [⟨.end, position + Utf8.byteLen blanks⟩] := by
  obtain ⟨k, rfl⟩ : ∃ k, n = blanks.length + (k + 1) := ⟨n - blanks.length - 1, by omega⟩
  have hrun := lexLoop_blanks hblanks (k + 1) position []
  rw [List.append_nil] at hrun
  rw [hrun]
  rfl

/-- **The tokens of a text are what `lex` answers.** -/
theorem lex_scanned {s blanks : Utf8.Str} {next : ℕ} {tokens : List Token}
    (h : Scanned 0 s tokens next blanks) (hblanks : Blank blanks) :
    lex s = .ok (tokens ++ [⟨.end, Utf8.byteLen s⟩]) := by
  obtain ⟨m, hm, hrun⟩ := lexLoop_scanned h (Nat.lt_succ_self _)
  obtain ⟨read, rfl, rfl⟩ := h.next_eq
  rw [lex, hrun, lexLoop_end hblanks hm, ok_bind, pure_eq_ok, Utf8.byteLen_append, Nat.zero_add]

/-- **A fault behind tokens is what `lex` reports.** -/
theorem lex_faulty {s blanks rest : Utf8.Str} {next offset : ℕ} {tokens : List Token}
    (h : Scanned 0 s tokens next (blanks ++ rest)) (hblanks : Blank blanks) (hfault : Faulty rest offset) :
    ∃ message, lex s = errorAt (next + Utf8.byteLen blanks + offset) message := by
  obtain ⟨m, hm, hrun⟩ := lexLoop_scanned h (Nat.lt_succ_self _)
  obtain ⟨k, rfl⟩ : ∃ k, m = blanks.length + (k + 1) := by
    have hne : 0 < rest.length := by cases hfault <;> simp
    rw [List.length_append] at hm
    exact ⟨m - blanks.length - 1, by omega⟩
  obtain ⟨message, herror⟩ := lexLoop_faulty hfault k (next + Utf8.byteLen blanks)
  refine ⟨message, ?_⟩
  rw [lex, hrun, lexLoop_blanks hblanks, herror]
  rfl

/-- **Every text has one reading**: tokens up to its end, or up to a fault. -/
theorem scanned_cases (position : ℕ) (s : Utf8.Str) :
    (∃ tokens next blanks, Scanned position s tokens next blanks ∧ Blank blanks) ∨
      ∃ tokens next blanks rest offset, Scanned position s tokens next (blanks ++ rest) ∧ Blank blanks ∧
        Faulty rest offset := by
  induction hlen : s.length using Nat.strong_induction_on generalizing position s with
  | _ k ih =>
    have hblanks : Blank (s.takeWhile Utf8.isWhitespace) := fun c hc => List.mem_takeWhile_imp hc
    have hsplit : s = s.takeWhile Utf8.isWhitespace ++ s.dropWhile Utf8.isWhitespace :=
      List.takeWhile_append_dropWhile.symm
    cases hrest : s.dropWhile Utf8.isWhitespace with
    | nil =>
      rw [hrest, List.append_nil] at hsplit
      exact .inl ⟨[], position, s, .done, by rw [hsplit]; exact hblanks⟩
    | cons c rest =>
      have hc : Utf8.isWhitespace c = false := by
        have hne : s.dropWhile Utf8.isWhitespace ≠ [] := by rw [hrest]; exact List.cons_ne_nil _ _
        have hhead := List.head_dropWhile_not Utf8.isWhitespace hne
        simpa only [hrest, List.head_cons] using hhead
      rw [hrest] at hsplit
      rcases spells_or_faulty (s := rest) hc with ⟨kind, text, behind, hfront, hspells⟩ | ⟨offset, hfault⟩
      · rw [hfront] at hsplit
        have hpos := List.length_pos_iff.mpr hspells.ne_nil
        have hless : behind.length < k := by
          rw [← hlen, hsplit, List.length_append, List.length_append]
          omega
        rcases ih _ hless (position + Utf8.byteLen (s.takeWhile Utf8.isWhitespace) + Utf8.byteLen text)
          behind rfl with ⟨tokens, next, blanks, hmore, hend⟩ | ⟨tokens, next, blanks, r, offset, hmore, hend⟩
        · have hscanned := Scanned.token hblanks hspells hmore
          rw [← hsplit] at hscanned
          exact .inl ⟨_, next, blanks, hscanned, hend⟩
        · have hscanned := Scanned.token hblanks hspells hmore
          rw [← hsplit] at hscanned
          exact .inr ⟨_, next, blanks, r, offset, hscanned, hend⟩
      · exact .inr ⟨[], position, _, c :: rest, offset, by rw [← hsplit]; exact .done, hblanks, hfault⟩

end Tapgres.Filter
