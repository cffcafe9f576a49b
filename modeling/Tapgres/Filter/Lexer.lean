import Tapgres.Filter.Answers
import Mathlib.Data.List.DropRight

/-!
# The lexer of display filters

From the text of a filter to its tokens, as the code has it.  The text is the list of its characters;
a position counts bytes.  Since the lexer goes forward by whole characters, it is given the position
and what stands from there on.  The loop runs on fuel, and `lex` gives it enough (`lexLoop_answers`),
so that parsing a text always answers (`displayFilter_parse_answers`).
-/

namespace Tapgres.Filter

open Tapgres.Net
open Tapgres.Lib

/-! ### Characters -/

/-- The token of a single character. -/
def simpleToken : Char → Option TokenKind
  | '(' => some .leftParen
  | ')' => some .rightParen
  | '\x7b' => some .leftBrace
  | '\x7d' => some .rightBrace
  | ',' => some .comma
  | _ => none

/-- The operator a text starts with, and how long it is. -/
def operatorOf : Utf8.Str → Option (TokenKind × ℕ)
  | '=' :: '=' :: _ => some (.equal, 2)
  | '!' :: '=' :: _ => some (.notEqual, 2)
  | '&' :: '&' :: _ => some (.and, 2)
  | '|' :: '|' :: _ => some (.or, 2)
  | '!' :: _ => some (.not, 1)
  | _ => none

/-- The characters of operators and brackets, which end a word. -/
def isDelimiter (c : Char) : Bool :=
  c == '(' || c == ')' || c == '\x7b' || c == '\x7d' || c == ',' || c == '=' || c == '!' || c == '&'
    || c == '|'

def isWordChar (c : Char) : Bool := !(Utf8.isWhitespace c || isDelimiter c)

/-- What an escaped character stands for. -/
def unescape : Char → Option Char
  | '\x22' => some '\x22'
  | '\\' => some '\\'
  | 'n' => some '\n'
  | 'r' => some '\r'
  | 't' => some '\t'
  | _ => none

/-! ### The loops -/

/-- The loop of `lex_string`, behind the opening quote: what the literal stands for, and where it ends. -/
def lexString (start : ℕ) (raw : Bool) : ℕ → Utf8.Str → Utf8.Str → Except Stop (String × ℕ × Utf8.Str)
  | _, _, [] => errorAt start "unterminated string literal"
  | position, value, ch :: rest =>
    if ch = '\x22' then pure (String.ofList value, position + 1, rest)
    else if ch ≠ '\\' ∨ raw = true then lexString start raw (position + ch.utf8Size) (value ++ [ch]) rest
    else
      match rest with
      | [] => errorAt start "unterminated string literal"
      | escaped :: rest =>
        match unescape escaped with
        | some c => lexString start raw (position + 1 + escaped.utf8Size) (value ++ [c]) rest
        | none =>
          errorAt position ("unsupported escape '\\" ++ String.singleton escaped
            ++ "' (use a raw string for regexes)")

/-- The token of a word: a keyword in any case of its letters, or the word itself. -/
def wordKind (word : String) : TokenKind :=
  if eqIgnoreAsciiCase word "and" then .and
  else if eqIgnoreAsciiCase word "or" then .or
  else if eqIgnoreAsciiCase word "not" then .not
  else if eqIgnoreAsciiCase word "contains" then .contains
  else if eqIgnoreAsciiCase word "matches" then .matches
  else if eqIgnoreAsciiCase word "in" then .in
  else .word word

/-- The loop of `lex`. -/
def lexLoop : ℕ → ℕ → Utf8.Str → Except Stop (List Token)
  | 0, _, _ => .error .fuel
  | _ + 1, position, [] => pure [⟨.end, position⟩]
  | n + 1, position, current :: rest =>
    if Utf8.isWhitespace current then lexLoop n (position + current.utf8Size) rest
    else
      match simpleToken current with
      | some kind => do
        let tokens ← lexLoop n (position + current.utf8Size) rest
        pure (⟨kind, position⟩ :: tokens)
      | none =>
        match operatorOf (current :: rest) with
        | some (kind, len) => do
          let tokens ← lexLoop n (position + len) ((current :: rest).drop len)
          pure (⟨kind, position⟩ :: tokens)
        | none =>
          if current == '=' || current == '&' || current == '|' then
            errorAt position ("unexpected operator '" ++ String.singleton current ++ "'")
          else if current = '\x22' then do
            let (value, next, rest) ← lexString position false (position + 1) [] rest
            let tokens ← lexLoop n next rest
            pure (⟨.string value, position⟩ :: tokens)
          else if current = 'r' ∧ rest.head? = some '\x22' then do
            let (value, next, rest) ← lexString position true (position + 2) [] rest.tail
            let tokens ← lexLoop n next rest
            pure (⟨.string value, position⟩ :: tokens)
          else
            let word := (current :: rest).takeWhile isWordChar
            if word = [] then
              errorAt position ("unexpected character '" ++ String.singleton current ++ "'")
            else do
              let tokens ← lexLoop n (position + Utf8.byteLen word) ((current :: rest).drop word.length)
              pure (⟨wordKind (String.ofList word), position⟩ :: tokens)

/-- Every turn but the last takes a character. -/
def lex (input : Utf8.Str) : Except Stop (List Token) := lexLoop (input.length + 1) 0 input

/-- `str::trim` -/
def trim (s : Utf8.Str) : Utf8.Str := (s.dropWhile Utf8.isWhitespace).rdropWhile Utf8.isWhitespace

/-- `DisplayFilter::parse` -/
def DisplayFilter.parse (env : FilterEnv) (expression : String) : Except Stop DisplayFilter :=
  let expression := trim expression.toList
  if expression = [] then pure {}
  else do
    let tokens ← lex expression
    DisplayFilter.ofTokens env (String.ofList expression) tokens

/-! ### The lexer answers -/

/-- Tokens that end in `End`, which stands nowhere else, or a lexical error. -/
def Lexed (r : Except Stop (List Token)) : Prop :=
  (∃ tokens, r = .ok tokens ∧ SingleEnd tokens) ∨ ∃ e, r = .error (.error e)

theorem Lexed.cons {r : Except Stop (List Token)} (h : Lexed r) {token : Token}
    (hkind : token.kind ≠ .end) : Lexed (do let tokens ← r; pure (token :: tokens)) := by
  rcases h with ⟨tokens, rfl, body, last, rfl, hlast, hbody⟩ | ⟨e, rfl⟩
  · refine .inl ⟨token :: (body ++ [last]), rfl, token :: body, last, rfl, hlast, ?_⟩
    intro t ht
    rcases List.mem_cons.mp ht with rfl | ht
    · exact hkind
    · exact hbody t ht
  · exact .inr ⟨e, rfl⟩

theorem simpleToken_ne_end {c : Char} {kind : TokenKind} (h : simpleToken c = some kind) :
    kind ≠ .end := by
  unfold simpleToken at h
  split at h <;> cases h <;> decide

theorem operatorOf_spec {s : Utf8.Str} {kind : TokenKind} {len : ℕ}
    (h : operatorOf s = some (kind, len)) : kind ≠ .end ∧ 0 < len := by
  unfold operatorOf at h
  split at h <;> cases h <;> decide

theorem wordKind_ne_end (word : String) : wordKind word ≠ .end := by
  unfold wordKind
  repeat' split
  all_goals simp

/-- A literal ends behind its opening quote, or is an error. -/
theorem lexString_answers (start : ℕ) (raw : Bool) (position : ℕ) (value rest : Utf8.Str) :
    (∃ text next rest', lexString start raw position value rest = .ok (text, next, rest') ∧
        rest'.length < rest.length) ∨
      ∃ e, lexString start raw position value rest = .error (.error e) := by
  induction position, value, rest using lexString.induct raw with
  | case1 => exact .inr ⟨_, rfl⟩
  | case2 position value rest =>
    rw [lexString.eq_def]
    dsimp only
    rw [if_pos rfl]
    exact .inl ⟨_, _, _, rfl, by simp⟩
  | case3 position value ch rest hquote hplain ih =>
    rw [lexString.eq_def]
    dsimp only
    rw [if_neg hquote, if_pos hplain]
    rcases ih with ⟨text, next, rest', hrun, hlen⟩ | herror
    · exact .inl ⟨text, next, rest', hrun, by rw [List.length_cons]; omega⟩
    · exact .inr herror
  | case4 position value ch hquote hescape =>
    rw [lexString.eq_def]
    dsimp only
    rw [if_neg hquote, if_neg hescape]
    exact .inr ⟨_, rfl⟩
  | case5 position value ch hquote hescape escaped rest c hc ih =>
    rw [lexString.eq_def]
    dsimp only
    rw [if_neg hquote, if_neg hescape, hc]
    rcases ih with ⟨text, next, rest', hrun, hlen⟩ | herror
    · exact .inl ⟨text, next, rest', hrun, by simp only [List.length_cons]; omega⟩
    · exact .inr herror
  | case6 position value ch hquote hescape escaped rest hc =>
    rw [lexString.eq_def]
    dsimp only
    rw [if_neg hquote, if_neg hescape, hc]
    exact .inr ⟨_, rfl⟩

/-- A literal token and what follows it. -/
theorem lexString_lexed {start : ℕ} {raw : Bool} {position n : ℕ} {rest : Utf8.Str}
    {kind : String → TokenKind} (hkind : ∀ text, kind text ≠ .end)
    (hloop : ∀ next (rest' : Utf8.Str), rest'.length < rest.length → Lexed (lexLoop n next rest')) :
    Lexed (do
      let (value, next, rest') ← lexString start raw position [] rest
      let tokens ← lexLoop n next rest'
      pure (⟨kind value, start⟩ :: tokens)) := by
  rcases lexString_answers start raw position [] rest with ⟨text, next, rest', hrun, hlen⟩ | ⟨e, hrun⟩
  · rw [hrun]
    exact (hloop next rest' hlen).cons (hkind text)
  · rw [hrun]
    exact .inr ⟨e, rfl⟩

/-- **The loop answers** when its fuel exceeds the text. -/
theorem lexLoop_answers (n position : ℕ) (s : Utf8.Str) (hn : s.length < n) :
    Lexed (lexLoop n position s) := by
  induction n generalizing position s with
  | zero => omega
  | succ n ih =>
    cases s with
    | nil => exact .inl ⟨_, rfl, [], ⟨.end, position⟩, rfl, rfl, by simp⟩
    | cons current rest =>
      rw [List.length_cons] at hn
      rw [lexLoop]
      split
      · exact ih _ rest (by omega)
      split
      · rename_i kind hkind
        exact (ih _ rest (by omega)).cons (simpleToken_ne_end hkind)
      split
      · rename_i kind len hoperator
        obtain ⟨hkind, hlen⟩ := operatorOf_spec hoperator
        exact (ih _ _ (by rw [List.length_drop, List.length_cons]; omega)).cons hkind
      split
      · exact .inr ⟨_, rfl⟩
      split
      · exact lexString_lexed (fun _ => by simp) fun next rest' hlen => ih next rest' (by omega)
      split
      · exact lexString_lexed (fun _ => by simp) fun next rest' hlen =>
          ih next rest' (by rw [List.length_tail] at hlen; omega)
      · dsimp only
        split
        · exact .inr ⟨_, rfl⟩
        · rename_i hword
          have hpos := List.length_pos_iff.mpr hword
          exact (ih _ _ (by rw [List.length_drop, List.length_cons]; omega)).cons (wordKind_ne_end _)

/-- **Parsing the text of a filter answers**: a filter, or an error with its position. -/
theorem displayFilter_parse_answers (env : FilterEnv) (expression : String) :
    (∃ filter, DisplayFilter.parse env expression = .ok filter) ∨
      ∃ e, DisplayFilter.parse env expression = .error (.error e) := by
  rw [DisplayFilter.parse]
  split
  · exact .inl ⟨_, rfl⟩
  · rcases lexLoop_answers _ 0 (trim expression.toList) (Nat.lt_succ_self _) with
      ⟨tokens, hlex, hend⟩ | ⟨e, hlex⟩
    · rw [lex, hlex, ok_bind, DisplayFilter.ofTokens]
      rcases @parse_answers env _ hend.ended with ⟨root, hparse⟩ | ⟨e, hparse⟩
      · rw [hparse]
        exact .inl ⟨_, rfl⟩
      · rw [hparse]
        exact .inr ⟨e, rfl⟩
    · rw [lex, hlex]
      exact .inr ⟨e, rfl⟩

end Tapgres.Filter
