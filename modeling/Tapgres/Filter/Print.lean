import Tapgres.Filter.Lexer
import Mathlib.Data.List.Forall2

/-!
# Printing filters

A filter expression is printed with parentheses around every compound operand, its strings quoted, and
blanks between the tokens.  The text is parsed back to a filter that matches the same messages:

* `Expr.lexemes`, `Expr.print` — the printed tokens, and the text for any choice of blanks;
* `Lexes` — a lexeme that becomes its token in front of a blank, and leaves the rest alone;
* `lexes_lexemes`, `lexLoop_joined` — every printed lexeme is one, and the lexer on a printed text;
* `derives_kinds` — the printed tokens are a filter of the grammar, with the meaning of the tree;
* `parse_print` — the round trip.
-/

namespace Tapgres.Filter

open Tapgres.Net
open Tapgres.Lib

/-! ### The printed text -/

def escapeChar (c : Char) : Utf8.Str := if c = '\x22' ∨ c = '\\' then ['\\', c] else [c]

/-- A string literal that stands for `text`. -/
def quoted (text : String) : Utf8.Str := '\x22' :: (text.toList.flatMap escapeChar ++ ['\x22'])

def directionName : MessageDirection → String
  | .frontendToBackend => "f2b"
  | .backendToFrontend => "b2f"

section Lexemes

variable (showIp : IpAddr → String)

def Value.lexeme : Value → Utf8.Str
  | .ip expected => (showIp expected).toList
  | .port expected => (toString expected.toNat).toList
  | .text expected => quoted expected
  | .direction expected => quoted (directionName expected)

/-- The values of a set, with commas between them. -/
def setLexemes : List Value → List Utf8.Str
  | [] => []
  | [value] => [value.lexeme showIp]
  | value :: values => value.lexeme showIp :: [','] :: setLexemes values

def Comparison.lexemes : Comparison → List Utf8.Str
  | .equal value => ["==".toList, value.lexeme showIp]
  | .notEqual value => ["!=".toList, value.lexeme showIp]
  | .contains needle => ["contains".toList, quoted needle]
  | .matches pattern => ["matches".toList, quoted pattern]
  | .in values => "in".toList :: ['\x7b'] :: setLexemes showIp values ++ [['\x7d']]

/-- Everything but a single predicate. -/
def Expr.isCompound : Expr → Bool
  | .predicate _ => false
  | _ => true

/-- An operand: in parentheses where it is compound. -/
def bracketed (compound : Bool) (lexemes : List Utf8.Str) : List Utf8.Str :=
  if compound then ['('] :: lexemes ++ [[')']] else lexemes

def Expr.lexemes : Expr → List Utf8.Str
  | .predicate p => p.field.name.toList :: p.comparison.lexemes showIp
  | .and left right =>
    bracketed left.isCompound left.lexemes ++ "and".toList :: bracketed right.isCompound right.lexemes
  | .or left right =>
    bracketed left.isCompound left.lexemes ++ "or".toList :: bracketed right.isCompound right.lexemes
  | .not inner => "not".toList :: bracketed inner.isCompound inner.lexemes

end Lexemes

/-- Where blanks stand in a text: any before and behind it, and at least one between two tokens. -/
structure Layout where
  lead : Utf8.Str
  trail : Utf8.Str
  gap : ℕ → Utf8.Str
  lead_blank : ∀ c ∈ lead, Utf8.isWhitespace c = true
  trail_blank : ∀ c ∈ trail, Utf8.isWhitespace c = true
  gap_blank : ∀ i, ∀ c ∈ gap i, Utf8.isWhitespace c = true
  gap_ne : ∀ i, gap i ≠ []

/-- Lexemes with the gaps between them. -/
def joined (gap : ℕ → Utf8.Str) : List Utf8.Str → Utf8.Str
  | [] => []
  | [lexeme] => lexeme
  | lexeme :: lexemes => lexeme ++ gap 0 ++ joined (fun i => gap (i + 1)) lexemes

/-- The printed text of an expression. -/
def Expr.print (showIp : IpAddr → String) (layout : Layout) (e : Expr) : String :=
  String.ofList (layout.lead ++ joined layout.gap (e.lexemes showIp) ++ layout.trail)

/-! ### The expressions that can be printed -/

/-- The value is of the field's type. -/
def Field.fits : Field → Value → Bool
  | .clientIp, .ip _ => true
  | .clientPort, .port _ => true
  | .messageType, .text _ => true
  | .messageText, .text _ => true
  | .messageDirection, .direction _ => true
  | _, _ => false

/-- Operands of the field's type, text operators on text fields, sets that are not empty and patterns
that compile. -/
def Predicate.Fits (env : FilterEnv) (p : Predicate) : Prop :=
  match p.comparison with
  | .equal value => p.field.fits value = true
  | .notEqual value => p.field.fits value = true
  | .contains _ => p.field.isText = true
  | .matches pattern => p.field.isText = true ∧ env.regexError pattern = none
  | .in values => values ≠ [] ∧ ∀ value ∈ values, p.field.fits value = true

def Expr.Fits (env : FilterEnv) : Expr → Prop
  | .predicate p => p.Fits env
  | .and left right => left.Fits env ∧ right.Fits env
  | .or left right => left.Fits env ∧ right.Fits env
  | .not inner => inner.Fits env

def Value.addresses : Value → List IpAddr
  | .ip expected => [expected]
  | _ => []

def Comparison.addresses : Comparison → List IpAddr
  | .equal value => value.addresses
  | .notEqual value => value.addresses
  | .in values => values.flatMap Value.addresses
  | _ => []

/-- The IP addresses an expression compares with. -/
def Expr.addresses : Expr → List IpAddr
  | .predicate p => p.comparison.addresses
  | .and left right => left.addresses ++ right.addresses
  | .or left right => left.addresses ++ right.addresses
  | .not inner => inner.addresses

/-- What is assumed of the library on an address: it reads back what it prints, which consists of
hexadecimal digits, dots and colons, not of digits alone. -/
structure PrintsIp (env : FilterEnv) (showIp : IpAddr → String) (ip : IpAddr) : Prop where
  inverse : env.parseIp (showIp ip) = some ip
  chars : ∀ c ∈ (showIp ip).toList, c.isDigit = true ∨ ('a' ≤ c ∧ c ≤ 'f') ∨ c = '.' ∨ c = ':'
  separated : ∃ c ∈ (showIp ip).toList, c = '.' ∨ c = ':'

/-! ### One lexeme -/

/-- Nothing follows, or a blank. -/
def Bordered (rest : Utf8.Str) : Prop := rest = [] ∨ ∃ c r, rest = c :: r ∧ Utf8.isWhitespace c = true

/-- A lexeme that starts and ends with a character that is not blank, and becomes its token. -/
structure Lexes (lexeme : Utf8.Str) (kind : TokenKind) : Prop where
  first : ∃ c r, lexeme = c :: r ∧ Utf8.isWhitespace c = false
  last : ∃ r c, lexeme = r ++ [c] ∧ Utf8.isWhitespace c = false
  step : ∀ n position rest, Bordered rest → lexLoop (n + 1) position (lexeme ++ rest)
    = do
      let tokens ← lexLoop n (position + Utf8.byteLen lexeme) rest
      pure (⟨kind, position⟩ :: tokens)

theorem operatorOf_eq_none {c : Char} (h : c ≠ '=' ∧ c ≠ '!' ∧ c ≠ '&' ∧ c ≠ '|') (s : Utf8.Str) :
    operatorOf (c :: s) = none := by
  obtain ⟨heq, hbang, hand, hor⟩ := h
  unfold operatorOf
  split <;> simp_all

theorem simpleToken_eq_none {c : Char}
    (h : c ≠ '(' ∧ c ≠ ')' ∧ c ≠ '\x7b' ∧ c ≠ '\x7d' ∧ c ≠ ',') : simpleToken c = none := by
  unfold simpleToken
  split <;> simp_all

theorem Bordered.takeWhile {rest : Utf8.Str} (h : Bordered rest) : rest.takeWhile isWordChar = [] := by
  rcases h with rfl | ⟨c, r, rfl, hc⟩
  · rfl
  · rw [List.takeWhile_cons, if_neg]
    simp [isWordChar, hc]

/-- A word character is neither blank nor part of an operator or bracket. -/
theorem isWordChar_spec {c : Char} (h : isWordChar c = true) :
    Utf8.isWhitespace c = false ∧ simpleToken c = none ∧
      (∀ s, operatorOf (c :: s) = none) ∧ (c == '=' || c == '&' || c == '|') = false := by
  have hparts := h
  simp only [isWordChar, isDelimiter, Bool.not_eq_true', Bool.or_eq_false_iff, beq_eq_false_iff_ne]
    at hparts
  obtain ⟨hblank, ⟨⟨⟨⟨⟨⟨⟨h1, h2⟩, h3⟩, h4⟩, h5⟩, h6⟩, h7⟩, h8⟩, h9⟩ := hparts
  refine ⟨hblank, simpleToken_eq_none ⟨h1, h2, h3, h4, h5⟩, ?_, ?_⟩
  · exact operatorOf_eq_none ⟨h6, h7, h8, h9⟩
  · simp [h6, h8, h9]

/-- A word that does not start as a literal, up to a character that ends it. -/
theorem lexLoop_word {word rest : Utf8.Str} (hne : word ≠ []) (hchars : ∀ c ∈ word, isWordChar c = true)
    (hquote : word.head? ≠ some '\x22') (hraw : ¬['r', '\x22'] <+: word)
    (hend : rest.takeWhile isWordChar = []) (n position : ℕ) :
    lexLoop (n + 1) position (word ++ rest) = (do
      let tokens ← lexLoop n (position + Utf8.byteLen word) rest
      pure (⟨wordKind (String.ofList word), position⟩ :: tokens)) := by
  obtain ⟨c, tail, rfl⟩ := List.exists_cons_of_ne_nil hne
  obtain ⟨hblank, hsimple, hoperator, hlone⟩ := isWordChar_spec (hchars c List.mem_cons_self)
  have htake : (c :: tail ++ rest).takeWhile isWordChar = c :: tail := by
    rw [List.takeWhile_append_of_pos hchars, hend, List.append_nil]
  have hraw' : ¬(c = 'r' ∧ (tail ++ rest).head? = some '\x22') := by
    intro ⟨hr, hhead⟩
    cases tail with
    | nil =>
      cases rest with
      | nil => cases hhead
      | cons d rest =>
        obtain rfl := Option.some.inj hhead
        rw [List.takeWhile_cons_of_pos (by decide)] at hend
        cases hend
    | cons d tail =>
      obtain rfl := Option.some.inj hhead
      exact hraw ⟨tail, by rw [hr]; rfl⟩
  rw [List.cons_append, lexLoop, if_neg (by simp [hblank]), hsimple]
  dsimp only
  rw [hoperator]
  dsimp only
  rw [if_neg (by simp [hlone]), if_neg (by simpa using hquote), if_neg hraw', ← List.cons_append, htake,
    if_neg hne, List.drop_left]

/-- Without quotes in it, a word does not start as a literal. -/
theorem lexLoop_unquoted {word : String} (hne : word.toList ≠ [])
    (hchars : ∀ c ∈ word.toList, isWordChar c = true ∧ c ≠ '\x22') {rest : Utf8.Str}
    (hend : rest.takeWhile isWordChar = []) (n position : ℕ) :
    lexLoop (n + 1) position (word.toList ++ rest) = (do
      let tokens ← lexLoop n (position + Utf8.byteLen word.toList) rest
      pure (⟨wordKind word, position⟩ :: tokens)) := by
  have hquote : '\x22' ∉ word.toList := fun hmem => (hchars _ hmem).2 rfl
  have hstep := lexLoop_word hne (fun x hx => (hchars x hx).1) (fun h => hquote (List.mem_of_head? h))
    (fun h => hquote (h.subset (by simp))) hend n position
  rw [String.ofList_toList] at hstep
  exact hstep

/-- **Words.**  Characters that end no word and are no quotes, up to a blank. -/
theorem lexes_word {word : String} (hne : word.toList ≠ [])
    (hchars : ∀ c ∈ word.toList, isWordChar c = true ∧ c ≠ '\x22') :
    Lexes word.toList (wordKind word) := by
  have hblank : ∀ c ∈ word.toList, Utf8.isWhitespace c = false := fun c hc =>
    (isWordChar_spec (hchars c hc).1).1
  obtain ⟨c, tail, hword⟩ := List.exists_cons_of_ne_nil hne
  refine ⟨⟨c, tail, hword, hblank c (by rw [hword]; exact List.mem_cons_self)⟩, ?_, ?_⟩
  · exact ⟨word.toList.dropLast, word.toList.getLast hne, (List.dropLast_append_getLast hne).symm,
      hblank _ (List.getLast_mem hne)⟩
  · intro n position rest hrest
    exact lexLoop_unquoted hne hchars hrest.takeWhile n position

/-- The same for a given word. -/
theorem lexes_keyword {word : String}
    (hchars : word.toList.all (fun c => isWordChar c && c != '\x22') = true) (hne : word.toList ≠ []) :
    Lexes word.toList (wordKind word) := by
  refine lexes_word hne ?_
  intro c hc
  simpa using List.all_eq_true.mp hchars c hc

/-- Double operators do not look at what follows. -/
theorem lexLoop_operator {s : Utf8.Str} {kind : TokenKind} {c : Char} {tail : Utf8.Str}
    (hs : s = c :: tail) (hfirst : Utf8.isWhitespace c = false) (hsimple : simpleToken c = none)
    (hoperator : ∀ rest, operatorOf (s ++ rest) = some (kind, s.length))
    (hbytes : Utf8.byteLen s = s.length) (n position : ℕ) (rest : Utf8.Str) :
    lexLoop (n + 1) position (s ++ rest) = (do
      let tokens ← lexLoop n (position + Utf8.byteLen s) rest
      pure (⟨kind, position⟩ :: tokens)) := by
  have hop := hoperator rest
  rw [hs, List.cons_append] at hop ⊢
  rw [lexLoop, if_neg (by simp [hfirst]), hsimple]
  dsimp only
  rw [hop]
  dsimp only
  rw [← List.cons_append, ← hs, List.drop_left, hbytes]

theorem lexes_operator {s : Utf8.Str} {kind : TokenKind} {c : Char} {tail : Utf8.Str}
    (hs : s = c :: tail) (hfirst : Utf8.isWhitespace c = false) (hsimple : simpleToken c = none)
    (hoperator : ∀ rest, operatorOf (s ++ rest) = some (kind, s.length))
    (hlast : ∃ r d, s = r ++ [d] ∧ Utf8.isWhitespace d = false) (hbytes : Utf8.byteLen s = s.length) :
    Lexes s kind :=
  ⟨⟨c, tail, hs, hfirst⟩, hlast, fun n position rest _ =>
    lexLoop_operator hs hfirst hsimple hoperator hbytes n position rest⟩

theorem lexLoop_simple {c : Char} {kind : TokenKind} (hkind : simpleToken c = some kind)
    (hblank : Utf8.isWhitespace c = false) (n position : ℕ) (rest : Utf8.Str) :
    lexLoop (n + 1) position ([c] ++ rest) = (do
      let tokens ← lexLoop n (position + Utf8.byteLen [c]) rest
      pure (⟨kind, position⟩ :: tokens)) := by
  rw [List.singleton_append, lexLoop, if_neg (by simp [hblank]), hkind]
  simp

theorem lexes_simple {c : Char} {kind : TokenKind} (hkind : simpleToken c = some kind)
    (hblank : Utf8.isWhitespace c = false) : Lexes [c] kind :=
  ⟨⟨c, [], rfl, hblank⟩, ⟨[], c, rfl, hblank⟩, fun n position rest _ =>
    lexLoop_simple hkind hblank n position rest⟩

/-! ### String literals -/

theorem unescape_escaped {c : Char} (h : c = '\x22' ∨ c = '\\') : unescape c = some c := by
  rcases h with rfl | rfl <;> rfl

/-- An escaped text is read back up to the closing quote. -/
theorem lexString_escaped (start position : ℕ) (text value rest : Utf8.Str) :
    lexString start false position value (text.flatMap escapeChar ++ '\x22' :: rest)
      = .ok (String.ofList (value ++ text),
          position + Utf8.byteLen (text.flatMap escapeChar) + 1, rest) := by
  induction text generalizing position value with
  | nil =>
    rw [List.flatMap_nil, List.nil_append, lexString.eq_def]
    simp
  | cons c text ih =>
    rw [List.flatMap_cons, escapeChar]
    by_cases hc : c = '\x22' ∨ c = '\\'
    · have hsize : c.utf8Size = 1 := by rcases hc with rfl | rfl <;> rfl
      rw [if_pos hc, lexString.eq_def]
      simp only [List.cons_append, List.nil_append]
      rw [if_neg (by decide), if_neg (by decide), unescape_escaped hc]
      dsimp only
      rw [ih, List.append_assoc, List.singleton_append]
      have hslash : ('\\' : Char).utf8Size = 1 := rfl
      have hbytes : position + 1 + c.utf8Size + Utf8.byteLen (text.flatMap escapeChar) + 1
          = position + Utf8.byteLen ('\\' :: c :: text.flatMap escapeChar) + 1 := by
        rw [Utf8.byteLen_cons, Utf8.byteLen_cons, hslash, hsize]
        omega
      rw [hbytes]
    · have hplain := hc
      rw [not_or] at hplain
      rw [if_neg hc, List.singleton_append, List.cons_append, lexString.eq_def]
      dsimp only
      rw [if_neg hplain.1, if_pos (.inl hplain.2), ih, List.append_assoc, List.singleton_append,
        Utf8.byteLen_cons, Nat.add_assoc position]

/-- **String literals.** -/
theorem lexes_quoted (text : String) : Lexes (quoted text) (.string text) := by
  refine ⟨⟨_, _, rfl, by decide⟩, ⟨'\x22' :: text.toList.flatMap escapeChar, '\x22', rfl, by decide⟩, ?_⟩
  intro n position rest _
  have hread := lexString_escaped position (position + 1) text.toList [] rest
  have hbytes : position + 1 + Utf8.byteLen (text.toList.flatMap escapeChar) + 1
      = position + Utf8.byteLen (quoted text) := by
    have hquote : ('\x22' : Char).utf8Size = 1 := rfl
    rw [quoted, Utf8.byteLen_cons, Utf8.byteLen_append, Utf8.byteLen_cons, Utf8.byteLen_nil, hquote]
    omega
  rw [List.nil_append, String.ofList_toList, hbytes] at hread
  have hsplit : quoted text ++ rest
      = '\x22' :: (text.toList.flatMap escapeChar ++ '\x22' :: rest) := by
    simp [quoted]
  have hsimple : simpleToken '\x22' = none := rfl
  rw [hsplit, lexLoop, if_neg (by decide), hsimple]
  dsimp only
  rw [operatorOf_eq_none (by decide)]
  dsimp only
  rw [if_neg (by decide), if_pos rfl, hread]
  rfl

/-! ### Words that are no keywords -/

/-- A character below the letters is no letter, nor the upper case of one. -/
theorem toLower_isAlpha_eq_false {c : Char} (h : c.toNat < 0x41) : c.toLower.isAlpha = false := by
  have hval : c.val.toNat < 0x41 := h
  have hupper : ¬(c.val ≥ 'A'.val ∧ c.val ≤ 'Z'.val) := by
    rintro ⟨hle, -⟩
    have hle' : ('A' : Char).val.toNat ≤ c.val.toNat := hle
    have hcode : ('A' : Char).val.toNat = 0x41 := rfl
    omega
  have hlower : ¬(c.val ≥ 'a'.val) := by
    intro hle
    have hle' : ('a' : Char).val.toNat ≤ c.val.toNat := hle
    have hcode : ('a' : Char).val.toNat = 0x61 := rfl
    omega
  have hsame : c.toLower = c := dif_neg hupper
  rw [hsame]
  show (decide (c.val ≥ 'A'.val ∧ c.val ≤ 'Z'.val) ||
    (decide (c.val ≥ 'a'.val) && decide (c.val ≤ 'z'.val))) = false
  rw [decide_eq_false hupper, decide_eq_false hlower]
  rfl

/-- A word with such a character equals no keyword, in any case of its letters. -/
theorem eqIgnoreAsciiCase_eq_false {word keyword : String} {c : Char} (hmem : c ∈ word.toList)
    (hc : c.toNat < 0x41) (hkeyword : keyword.toList.all (fun k => k.toLower.isAlpha) = true) :
    eqIgnoreAsciiCase word keyword = false := by
  rw [eqIgnoreAsciiCase, beq_eq_false_iff_ne]
  intro heq
  have hlower : c.toLower ∈ keyword.toList.map Char.toLower := by
    rw [← heq]
    exact List.mem_map_of_mem hmem
  obtain ⟨k, hk, hkc⟩ := List.mem_map.mp hlower
  have halpha := List.all_eq_true.mp hkeyword k hk
  rw [hkc, toLower_isAlpha_eq_false hc] at halpha
  cases halpha

theorem wordKind_of_mem {word : String} {c : Char} (hmem : c ∈ word.toList) (hc : c.toNat < 0x41) :
    wordKind word = .word word := by
  have hno : ∀ keyword : String, keyword.toList.all (fun k => k.toLower.isAlpha) = true →
      eqIgnoreAsciiCase word keyword = false := fun _ => eqIgnoreAsciiCase_eq_false hmem hc
  unfold wordKind
  rw [hno "and" (by decide), hno "or" (by decide), hno "not" (by decide), hno "contains" (by decide),
    hno "matches" (by decide), hno "in" (by decide)]
  rfl

theorem wordKind_field (field : Field) : wordKind field.name = .word field.name := by
  cases field <;> decide

theorem lexes_field (field : Field) : Lexes field.name.toList (.word field.name) := by
  rw [← wordKind_field]
  exact lexes_keyword (by cases field <;> decide) (by cases field <;> decide)

/-- Decimal digits and the characters of printed addresses belong to words. -/
theorem isWordChar_of_code {c : Char} (h : 0x2d < c.toNat ∧ c.toNat < 0x3b ∨
    0x60 < c.toNat ∧ c.toNat < 0x67) : isWordChar c = true ∧ c ≠ '\x22' := by
  have hdistinct : ∀ d : Char, d.toNat ≠ c.toNat → c ≠ d := by
    rintro d hd rfl
    exact hd rfl
  refine ⟨?_, hdistinct _ (by simp; omega)⟩
  rw [isWordChar, Bool.not_eq_true', Bool.or_eq_false_iff]
  constructor
  · simp [Utf8.isWhitespace]
    omega
  · simp only [isDelimiter, Bool.or_eq_false_iff, beq_eq_false_iff_ne]
    refine ⟨⟨⟨⟨⟨⟨⟨⟨?_, ?_⟩, ?_⟩, ?_⟩, ?_⟩, ?_⟩, ?_⟩, ?_⟩, ?_⟩
    all_goals exact hdistinct _ (by simp; omega)

/-- A decimal number is a word, and is read back. -/
theorem lexes_port (port : UInt16) :
    Lexes (toString port.toNat).toList (.word (toString port.toNat)) ∧
      parseU16 (toString port.toNat) = some port := by
  have hdigits : (toString port.toNat).toList = Nat.toDigits 10 port.toNat := Nat.toList_repr
  have hdigit : ∀ c ∈ Nat.toDigits 10 port.toNat, c.isDigit = true := fun c hc =>
    Nat.isDigit_of_mem_toDigits (by decide) (by decide) hc
  have hcode : ∀ c : Char, c.isDigit = true → 0x30 ≤ c.toNat ∧ c.toNat ≤ 0x39 := fun _ =>
    Char.isDigit_iff_toNat.mp
  obtain ⟨c, tail, hcons⟩ := List.exists_cons_of_ne_nil (Nat.toDigits_ne_nil (n := port.toNat) (b := 10))
  have hc := hcode c (hdigit c (by rw [hcons]; exact List.mem_cons_self))
  constructor
  · have hkind : wordKind (toString port.toNat) = .word (toString port.toNat) :=
      wordKind_of_mem (c := c) (by rw [hdigits, hcons]; exact List.mem_cons_self) (by omega)
    rw [← hkind]
    refine lexes_word (by rw [hdigits]; exact Nat.toDigits_ne_nil) ?_
    intro x hx
    rw [hdigits] at hx
    have hxc := hcode x (hdigit x hx)
    exact isWordChar_of_code (by omega)
  · have hsign : ∀ digits, c :: tail ≠ '+' :: digits := by
      intro digits heq
      obtain ⟨rfl, _⟩ := List.cons.inj heq
      exact absurd hc (by decide)
    have hvalue : digitsValue (Nat.toDigits 10 port.toNat) = port.toNat :=
      Nat.ofDigitChars_toDigits (by decide) (by decide)
    have hread : Nat.toDigits 10 port.toNat ≠ [] ∧ (Nat.toDigits 10 port.toNat).all Char.isDigit ∧
        digitsValue (Nat.toDigits 10 port.toNat) < 2 ^ 16 := by
      refine ⟨Nat.toDigits_ne_nil, List.all_eq_true.mpr hdigit, ?_⟩
      rw [hvalue]
      exact port.toNat_lt
    rw [parseU16, hdigits, hcons]
    split
    · rename_i digits heq
      exact absurd heq (hsign digits)
    · rw [← hcons, if_pos hread, hvalue, UInt16.ofNat_toNat]

/-- So is a printed address. -/
theorem lexes_ip {env : FilterEnv} {showIp : IpAddr → String} {ip : IpAddr} (h : PrintsIp env showIp ip) :
    Lexes (showIp ip).toList (.word (showIp ip)) := by
  obtain ⟨c, hmem, hc⟩ := h.separated
  have hkind : wordKind (showIp ip) = .word (showIp ip) := by
    refine wordKind_of_mem hmem ?_
    rcases hc with rfl | rfl
    · decide
    · decide
  rw [← hkind]
  refine lexes_word (List.ne_nil_of_mem hmem) ?_
  intro x hx
  refine isWordChar_of_code ?_
  rcases h.chars x hx with hdigit | ⟨hlow, hhigh⟩ | rfl | rfl
  · have hcode : 0x30 ≤ x.toNat ∧ x.toNat ≤ 0x39 := Char.isDigit_iff_toNat.mp hdigit
    omega
  · have hlow' : 0x61 ≤ x.toNat := hlow
    have hhigh' : x.toNat ≤ 0x66 := hhigh
    omega
  · exact .inl (by decide)
  · exact .inl (by decide)

/-! ### The printed tokens -/

section Kinds

variable (showIp : IpAddr → String)

/-- The token a printed value becomes. -/
def Value.kind : Value → TokenKind
  | .ip expected => .word (showIp expected)
  | .port expected => .word (toString expected.toNat)
  | .text expected => .string expected
  | .direction expected => .string (directionName expected)

def setKinds : List Value → List TokenKind
  | [] => []
  | [value] => [value.kind showIp]
  | value :: values => value.kind showIp :: .comma :: setKinds values

def Comparison.kinds : Comparison → List TokenKind
  | .equal value => [.equal, value.kind showIp]
  | .notEqual value => [.notEqual, value.kind showIp]
  | .contains needle => [.contains, .string needle]
  | .matches pattern => [.matches, .string pattern]
  | .in values => .in :: .leftBrace :: setKinds showIp values ++ [.rightBrace]

def bracketedKinds (compound : Bool) (kinds : List TokenKind) : List TokenKind :=
  if compound then .leftParen :: kinds ++ [.rightParen] else kinds

def Expr.kinds : Expr → List TokenKind
  | .predicate p => .word p.field.name :: p.comparison.kinds showIp
  | .and left right =>
    bracketedKinds left.isCompound left.kinds ++ .and :: bracketedKinds right.isCompound right.kinds
  | .or left right =>
    bracketedKinds left.isCompound left.kinds ++ .or :: bracketedKinds right.isCompound right.kinds
  | .not inner => .not :: bracketedKinds inner.isCompound inner.kinds

end Kinds

variable {env : FilterEnv} {showIp : IpAddr → String}

theorem lexes_value {value : Value} (hip : ∀ ip ∈ value.addresses, PrintsIp env showIp ip) :
    Lexes (value.lexeme showIp) (value.kind showIp) := by
  cases value with
  | ip expected => exact lexes_ip (hip expected (List.mem_singleton.mpr rfl))
  | port expected => exact (lexes_port expected).1
  | text expected => exact lexes_quoted expected
  | direction expected => exact lexes_quoted (directionName expected)

theorem lexes_equal : Lexes "==".toList .equal :=
  lexes_operator (show "==".toList = '=' :: ['='] from rfl) (by decide) (by decide) (fun _ => rfl)
    ⟨['='], '=', rfl, by decide⟩ (by decide)

theorem lexes_notEqual : Lexes "!=".toList .notEqual :=
  lexes_operator (show "!=".toList = '!' :: ['='] from rfl) (by decide) (by decide) (fun _ => rfl)
    ⟨['!'], '=', rfl, by decide⟩ (by decide)

theorem lexes_set {values : List Value}
    (hip : ∀ value ∈ values, ∀ ip ∈ value.addresses, PrintsIp env showIp ip) :
    List.Forall₂ Lexes (setLexemes showIp values) (setKinds showIp values) := by
  induction values using setKinds.induct with
  | case1 => exact .nil
  | case2 value => exact .cons (lexes_value (hip value (List.mem_singleton.mpr rfl))) .nil
  | case3 value values hmore ih =>
    obtain ⟨next, rest, rfl⟩ := List.exists_cons_of_ne_nil hmore
    have hcomma : Lexes [','] .comma := lexes_simple (by decide) (by decide)
    exact .cons (lexes_value (hip value List.mem_cons_self))
      (.cons hcomma (ih fun v hv => hip v (List.mem_cons_of_mem value hv)))

theorem lexes_comparison {comparison : Comparison}
    (hip : ∀ ip ∈ comparison.addresses, PrintsIp env showIp ip) :
    List.Forall₂ Lexes (comparison.lexemes showIp) (comparison.kinds showIp) := by
  cases comparison with
  | equal value => exact .cons lexes_equal (.cons (lexes_value hip) .nil)
  | notEqual value => exact .cons lexes_notEqual (.cons (lexes_value hip) .nil)
  | contains needle =>
    have hword : Lexes "contains".toList .contains := lexes_keyword (by decide) (by decide)
    exact .cons hword (.cons (lexes_quoted needle) .nil)
  | «matches» pattern =>
    have hword : Lexes "matches".toList .matches := lexes_keyword (by decide) (by decide)
    exact .cons hword (.cons (lexes_quoted pattern) .nil)
  | «in» values =>
    have hword : Lexes "in".toList .in := lexes_keyword (by decide) (by decide)
    have hleft : Lexes ['\x7b'] .leftBrace := lexes_simple (by decide) (by decide)
    have hright : Lexes ['\x7d'] .rightBrace := lexes_simple (by decide) (by decide)
    have hset := lexes_set fun value hvalue ip hmem =>
      hip ip (List.mem_flatMap.mpr ⟨value, hvalue, hmem⟩)
    exact List.rel_append (.cons hword (.cons hleft hset)) (.cons hright .nil)

theorem lexes_bracketed {lexemes : List Utf8.Str} {kinds : List TokenKind} (compound : Bool)
    (h : List.Forall₂ Lexes lexemes kinds) :
    List.Forall₂ Lexes (bracketed compound lexemes) (bracketedKinds compound kinds) := by
  cases compound with
  | false => exact h
  | true =>
    have hleft : Lexes ['('] .leftParen := lexes_simple (by decide) (by decide)
    have hright : Lexes [')'] .rightParen := lexes_simple (by decide) (by decide)
    exact List.rel_append (.cons hleft h) (.cons hright .nil)

/-- **Every printed lexeme becomes its token.** -/
theorem lexes_lexemes {e : Expr} (hip : ∀ ip ∈ e.addresses, PrintsIp env showIp ip) :
    List.Forall₂ Lexes (e.lexemes showIp) (e.kinds showIp) := by
  induction e with
  | predicate p => exact .cons (lexes_field p.field) (lexes_comparison hip)
  | and left right ihLeft ihRight =>
    have hword : Lexes "and".toList .and := lexes_keyword (by decide) (by decide)
    exact List.rel_append (lexes_bracketed _ (ihLeft fun ip h => hip ip (List.mem_append_left _ h)))
      (.cons hword (lexes_bracketed _ (ihRight fun ip h => hip ip (List.mem_append_right _ h))))
  | or left right ihLeft ihRight =>
    have hword : Lexes "or".toList .or := lexes_keyword (by decide) (by decide)
    exact List.rel_append (lexes_bracketed _ (ihLeft fun ip h => hip ip (List.mem_append_left _ h)))
      (.cons hword (lexes_bracketed _ (ihRight fun ip h => hip ip (List.mem_append_right _ h))))
  | not inner ih =>
    have hword : Lexes "not".toList .not := lexes_keyword (by decide) (by decide)
    exact .cons hword (lexes_bracketed _ (ih hip))

/-! ### The lexer on a printed text -/

/-- Blanks are passed over. -/
theorem lexLoop_blanks {blanks : Utf8.Str} (hblanks : ∀ c ∈ blanks, Utf8.isWhitespace c = true)
    (n position : ℕ) (rest : Utf8.Str) :
    lexLoop (blanks.length + n) position (blanks ++ rest)
      = lexLoop n (position + Utf8.byteLen blanks) rest := by
  induction blanks generalizing position with
  | nil => rw [List.length_nil, Nat.zero_add, List.nil_append, Utf8.byteLen_nil, Nat.add_zero]
  | cons c blanks ih =>
    have hc := hblanks c List.mem_cons_self
    rw [List.length_cons, Nat.add_right_comm, List.cons_append, lexLoop, if_pos hc,
      ih fun x hx => hblanks x (List.mem_cons_of_mem c hx), Utf8.byteLen_cons, Nat.add_assoc]

/-- Behind the first lexeme stand blanks, then the others. -/
theorem joined_cons {gap : ℕ → Utf8.Str} (hblank : ∀ i, ∀ c ∈ gap i, Utf8.isWhitespace c = true)
    (hne : ∀ i, gap i ≠ []) (lexeme : Utf8.Str) (lexemes : List Utf8.Str) :
    ∃ blanks, (∀ c ∈ blanks, Utf8.isWhitespace c = true) ∧
      Bordered (blanks ++ joined (fun i => gap (i + 1)) lexemes) ∧
      joined gap (lexeme :: lexemes) = lexeme ++ (blanks ++ joined (fun i => gap (i + 1)) lexemes) := by
  cases lexemes with
  | nil => exact ⟨[], by simp, .inl rfl, by simp [joined]⟩
  | cons next lexemes =>
    refine ⟨gap 0, hblank 0, ?_, by simp [joined]⟩
    obtain ⟨c, blanks, hgap⟩ := List.exists_cons_of_ne_nil (hne 0)
    refine .inr ⟨c, blanks ++ joined (fun i => gap (i + 1)) (next :: lexemes), ?_, ?_⟩
    · rw [hgap, List.cons_append]
    · exact hblank 0 c (by rw [hgap]; exact List.mem_cons_self)

/-- **The lexer on a printed text**: the tokens of its lexemes, and the end. -/
theorem lexLoop_joined {lexemes : List Utf8.Str} {kinds : List TokenKind}
    (h : List.Forall₂ Lexes lexemes kinds) {gap : ℕ → Utf8.Str}
    (hblank : ∀ i, ∀ c ∈ gap i, Utf8.isWhitespace c = true) (hne : ∀ i, gap i ≠ []) (n position : ℕ)
    (hn : (joined gap lexemes).length < n) :
    ∃ tokens, lexLoop n position (joined gap lexemes) = .ok tokens ∧
      tokens.map Token.kind = kinds ++ [.end] := by
  induction h generalizing gap n position with
  | nil =>
    obtain ⟨n, rfl⟩ := Nat.exists_eq_add_one_of_ne_zero (Nat.ne_of_gt (Nat.zero_lt_of_lt hn))
    exact ⟨[⟨.end, position⟩], rfl, rfl⟩
  | @cons lexeme kind lexemes kinds hlexeme _ ih =>
    obtain ⟨blanks, hblanks, hborder, hjoined⟩ := joined_cons hblank hne lexeme lexemes
    obtain ⟨c, r, hfirst, _⟩ := hlexeme.first
    rw [hjoined, List.length_append, List.length_append, hfirst, List.length_cons] at hn
    obtain ⟨m, rfl⟩ : ∃ m, n = blanks.length + m + 1 := ⟨n - blanks.length - 1, by omega⟩
    obtain ⟨tokens, hrun, hkinds⟩ := ih (fun i => hblank (i + 1)) (fun i => hne (i + 1)) m
      (position + Utf8.byteLen lexeme + Utf8.byteLen blanks) (by omega)
    refine ⟨⟨kind, position⟩ :: tokens, ?_, by rw [List.map_cons, hkinds, List.cons_append]⟩
    rw [hjoined, hlexeme.step _ _ _ hborder, lexLoop_blanks hblanks, hrun]
    rfl

/-- A printed text neither starts nor ends with a blank. -/
theorem joined_ends {lexemes : List Utf8.Str} {kinds : List TokenKind}
    (h : List.Forall₂ Lexes lexemes kinds) (hlexemes : lexemes ≠ []) (gap : ℕ → Utf8.Str) :
    (∃ c r, joined gap lexemes = c :: r ∧ Utf8.isWhitespace c = false) ∧
      ∃ r c, joined gap lexemes = r ++ [c] ∧ Utf8.isWhitespace c = false := by
  induction h generalizing gap with
  | nil => exact absurd rfl hlexemes
  | @cons lexeme kind lexemes kinds hlexeme _ ih =>
    cases lexemes with
    | nil => exact ⟨hlexeme.first, hlexeme.last⟩
    | cons next lexemes =>
      obtain ⟨c, r, hfirst, hc⟩ := hlexeme.first
      obtain ⟨_, r', c', hlast, hc'⟩ := ih (List.cons_ne_nil next lexemes) fun i => gap (i + 1)
      refine ⟨⟨c, r ++ gap 0 ++ joined (fun i => gap (i + 1)) (next :: lexemes), ?_, hc⟩,
        lexeme ++ gap 0 ++ r', c', ?_, hc'⟩
      · show lexeme ++ gap 0 ++ joined (fun i => gap (i + 1)) (next :: lexemes) = _
        rw [hfirst, List.cons_append, List.cons_append]
      · show lexeme ++ gap 0 ++ joined (fun i => gap (i + 1)) (next :: lexemes) = _
        rw [hlast, List.append_assoc (lexeme ++ gap 0)]

/-- Trimming takes the blanks around a text, and no more. -/
theorem trim_of_ends {lead s trail : Utf8.Str} (hlead : ∀ c ∈ lead, Utf8.isWhitespace c = true)
    (htrail : ∀ c ∈ trail, Utf8.isWhitespace c = true)
    (hfirst : ∃ c r, s = c :: r ∧ Utf8.isWhitespace c = false)
    (hlast : ∃ r c, s = r ++ [c] ∧ Utf8.isWhitespace c = false) : trim (lead ++ s ++ trail) = s := by
  obtain ⟨c, r, hs, hc⟩ := hfirst
  obtain ⟨r', c', hs', hc'⟩ := hlast
  have hdrop : (lead ++ s ++ trail).dropWhile Utf8.isWhitespace = s ++ trail := by
    rw [List.append_assoc, List.dropWhile_append_of_pos hlead, hs, List.cons_append,
      List.dropWhile_cons_of_neg (by simp [hc])]
  rw [trim, hdrop, List.rdropWhile, List.reverse_append,
    List.dropWhile_append_of_pos fun x hx => htrail x (List.mem_reverse.mp hx), hs',
    List.reverse_append, List.reverse_singleton, List.singleton_append,
    List.dropWhile_cons_of_neg (by simp [hc']), List.reverse_cons, List.reverse_reverse]

/-! ### The printed tokens are a filter -/

theorem Derives.congr {symbol : Symbol} {u : List TokenKind} {p q : Meaning}
    (h : Derives env symbol u p) (hpq : ∀ m, p m ↔ q m) : Derives env symbol u q := by
  obtain rfl : p = q := funext fun m => propext (hpq m)
  exact h

/-- A primary alone is an expression. -/
theorem Derives.or_of_primary {u : List TokenKind} {p : Meaning} (h : Derives env .primary u p) :
    Derives env .or u p := by
  have hor := Derives.or (Derives.and (Derives.plain h) .andNil) .orNil
  rw [List.append_nil, List.append_nil] at hor
  exact hor.congr fun m => by simp

theorem valueOf_kind {field : Field} {value : Value} (hfits : field.fits value = true)
    (hip : ∀ ip ∈ value.addresses, PrintsIp env showIp ip) :
    valueOf env field (value.kind showIp) = some value := by
  cases value with
  | ip expected =>
    have hinverse := (hip expected (List.mem_singleton.mpr rfl)).inverse
    cases field <;> simp_all [Field.fits, Value.kind, valueOf]
  | port expected =>
    have hinverse := (lexes_port expected).2
    cases field <;> simp_all [Field.fits, Value.kind, valueOf]
  | text expected => cases field <;> first | rfl | cases hfits
  | direction expected =>
    have hinverse : parseDirection (directionName expected) = some expected := by
      cases expected <;> decide
    cases field <;> simp_all [Field.fits, Value.kind, valueOf]

theorem isList_setKinds {field : Field} {values : List Value} (hne : values ≠ [])
    (hfits : ∀ value ∈ values, field.fits value = true)
    (hip : ∀ value ∈ values, ∀ ip ∈ value.addresses, PrintsIp env showIp ip) :
    IsList env field (setKinds showIp values) values := by
  induction values using setKinds.induct with
  | case1 => exact absurd rfl hne
  | case2 value =>
    have hmem : value ∈ [value] := List.mem_singleton.mpr rfl
    exact .one (valueOf_kind (hfits value hmem) (hip value hmem))
  | case3 value values hmore ih =>
    obtain ⟨next, rest, rfl⟩ := List.exists_cons_of_ne_nil hmore
    have htail := ih hmore (fun v hv => hfits v (List.mem_cons_of_mem value hv))
      fun v hv => hip v (List.mem_cons_of_mem value hv)
    exact .more (valueOf_kind (hfits value List.mem_cons_self) (hip value List.mem_cons_self)) htail

/-- A printed predicate is one, with its own meaning. -/
theorem derives_predicate {p : Predicate} (hfits : p.Fits env)
    (hip : ∀ ip ∈ p.comparison.addresses, PrintsIp env showIp ip) :
    Derives env .primary (.word p.field.name :: p.comparison.kinds showIp)
      fun m => p.matches env m = true := by
  suffices hsays : Derives env .primary (.word p.field.name :: p.comparison.kinds showIp) (p.Says env) from
    hsays.congr fun m => (predicate_matches_iff env p m).symm
  obtain ⟨field, comparison⟩ := p
  cases comparison with
  | equal value => exact .predicate (.equal (valueOf_kind hfits hip))
  | notEqual value => exact .predicate (.notEqual (valueOf_kind hfits hip))
  | contains needle => exact .predicate (.contains needle hfits)
  | «matches» pattern => exact .predicate (.matches hfits.1 hfits.2)
  | «in» values =>
    have hlist := isList_setKinds hfits.1 hfits.2 fun value hvalue ip hmem =>
      hip ip (List.mem_flatMap.mpr ⟨value, hvalue, hmem⟩)
    exact .predicate (.in hlist)

/-- An operand is a primary: a predicate, or an expression in parentheses. -/
theorem derives_bracketed {e : Expr} {p : Meaning}
    (hpredicate : e.isCompound = false → Derives env .primary (e.kinds showIp) p)
    (hcompound : Derives env .or (e.kinds showIp) p) :
    Derives env .primary (bracketedKinds e.isCompound (e.kinds showIp)) p := by
  cases hcompoundCase : e.isCompound with
  | false => exact hpredicate hcompoundCase
  | true => exact .parens hcompound

/-- **The printed tokens derive from the grammar**, with the meaning of the tree. -/
theorem derives_kinds {e : Expr} (hfits : e.Fits env)
    (hip : ∀ ip ∈ e.addresses, PrintsIp env showIp ip) :
    Derives env .or (e.kinds showIp) (fun m => e.matches env m = true) ∧
      Derives env .primary (bracketedKinds e.isCompound (e.kinds showIp))
        (fun m => e.matches env m = true) := by
  suffices hor : (e.isCompound = false →
      Derives env .primary (e.kinds showIp) fun m => e.matches env m = true) ∧
        Derives env .or (e.kinds showIp) (fun m => e.matches env m = true) from
    ⟨hor.2, derives_bracketed hor.1 hor.2⟩
  induction e with
  | predicate p =>
    have hp := derives_predicate hfits hip
    exact ⟨fun _ => hp, hp.or_of_primary⟩
  | and left right ihLeft ihRight =>
    have hleft := ihLeft hfits.1 fun ip h => hip ip (List.mem_append_left _ h)
    have hright := ihRight hfits.2 fun ip h => hip ip (List.mem_append_right _ h)
    have htail := Derives.andMore (.plain (derives_bracketed hright.1 hright.2)) .andNil
    have hboth := Derives.or (.and (.plain (derives_bracketed hleft.1 hleft.2)) htail) .orNil
    rw [List.append_nil, List.append_nil] at hboth
    refine ⟨?_, hboth.congr fun m => by simp [Expr.matches]⟩
    intro h
    cases h
  | or left right ihLeft ihRight =>
    have hleft := ihLeft hfits.1 fun ip h => hip ip (List.mem_append_left _ h)
    have hright := ihRight hfits.2 fun ip h => hip ip (List.mem_append_right _ h)
    have hnext := Derives.and (.plain (derives_bracketed hright.1 hright.2)) .andNil
    have hfirst := Derives.and (.plain (derives_bracketed hleft.1 hleft.2)) .andNil
    have heither := Derives.or hfirst (.orMore hnext .orNil)
    rw [List.append_nil, List.append_nil, List.append_nil] at heither
    refine ⟨?_, heither.congr fun m => by simp [Expr.matches]⟩
    intro h
    cases h
  | not inner ih =>
    have hinner := ih hfits hip
    have hnegated := Derives.negated (.plain (derives_bracketed hinner.1 hinner.2))
    have hnot := Derives.or (.and hnegated .andNil) .orNil
    rw [List.append_nil, List.append_nil] at hnot
    refine ⟨?_, hnot.congr fun m => by simp [Expr.matches]⟩
    intro h
    cases h

/-! ### The round trip -/

/-- **Filter text round-trips**: printing any expression whose operands fit their fields, with any blanks
between its tokens, gives a text that parses to a filter matching the same messages. -/
theorem parse_print {e : Expr} (hfits : e.Fits env) (hip : ∀ ip ∈ e.addresses, PrintsIp env showIp ip)
    (layout : Layout) :
    ∃ filter, DisplayFilter.parse env (e.print showIp layout) = .ok filter ∧
      ∀ message, filter.matches env message = e.matches env message := by
  have hlexes := lexes_lexemes hip
  have hlexemes : e.lexemes showIp ≠ [] := by cases e <;> simp [Expr.lexemes]
  obtain ⟨hfirst, hlast⟩ := joined_ends hlexes hlexemes layout.gap
  have htrim := trim_of_ends layout.lead_blank layout.trail_blank hfirst hlast
  obtain ⟨tokens, hlex, hkinds⟩ :=
    lexLoop_joined hlexes layout.gap_blank layout.gap_ne _ 0 (Nat.lt_succ_self _)
  obtain ⟨root, hparse, hmeaning⟩ := parse_of_isFilter ⟨e.kinds showIp, hkinds, (derives_kinds hfits hip).1⟩
  refine ⟨⟨String.ofList (joined layout.gap (e.lexemes showIp)), some root⟩, ?_, ?_⟩
  · obtain ⟨c, r, hjoined, _⟩ := hfirst
    rw [DisplayFilter.parse, Expr.print, String.toList_ofList, htrim, if_neg (by simp [hjoined]), lex, hlex,
      ok_bind, DisplayFilter.ofTokens, hparse]
    rfl
  · intro message
    exact Bool.eq_iff_iff.mpr (hmeaning message)

/-- `127.0.0.1`, the address in the example below. -/
def loopback : IpAddr := .v4 0x7f000001#32

def loopbackEnv : FilterEnv where
  parseIp value := if value = "127.0.0.1" then some loopback else none
  regexError _ := none
  regexIsMatch _ _ := false

/-- One blank between two tokens. -/
def spaced : Layout where
  lead := []
  trail := []
  gap _ := [' ']
  lead_blank := by simp
  trail_blank := by simp
  gap_blank _ c hc := by
    obtain rfl := List.mem_singleton.mp hc
    rfl
  gap_ne := by simp

/-- A conjunction with a negated disjunction, over a text with a backslash, a quote and a newline. -/
def nestedExpr : Expr :=
  .and (.predicate ⟨.clientIp, .equal (.ip loopback)⟩)
    (.not (.or (.predicate ⟨.messageText, .contains "a\\b\x22c\n"⟩)
      (.predicate ⟨.clientPort, .in [.port 5432, .port 40005]⟩)))

theorem loopback_printsIp : PrintsIp loopbackEnv (fun _ => "127.0.0.1") loopback := by
  refine ⟨rfl, ?_, '.', by decide, .inl rfl⟩
  intro c hc
  have hall : "127.0.0.1".toList.all (fun c => c.isDigit || c == '.') = true := by decide
  have hchar := List.all_eq_true.mp hall c hc
  rw [Bool.or_eq_true, beq_iff_eq] at hchar
  exact hchar.imp_right fun hdot => .inr (.inl hdot)

theorem parse_print_nested :
    ∃ filter, DisplayFilter.parse loopbackEnv (nestedExpr.print (fun _ => "127.0.0.1") spaced) = .ok filter ∧
      ∀ message, filter.matches loopbackEnv message = nestedExpr.matches loopbackEnv message :=
  parse_print (show nestedExpr.Fits loopbackEnv from ⟨rfl, rfl, by simp, by decide⟩)
    (fun ip hip => by
      obtain rfl : ip = loopback := List.mem_singleton.mp hip
      exact loopback_printsIp)
    spaced

end Tapgres.Filter
