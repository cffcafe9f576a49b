import Tapgres.Filter.Safety
import Tapgres.Filter.Spelling
import Tapgres.Filter.Offence

/-!
# Where a refused filter goes wrong

A filter text goes wrong at a fault of its spelling, at the first token with which it is no start of a
filter, or at its end.  The parser reports that place in the text it has trimmed:

* `OffendsAt`, `OffendsAt.unique` — the place, of which there is one;
* `offends_of_error` — the lexer and the parser report it;
* `OffendsAt.behind` — blanks in front of the text move it;
* `filter_error_position` — so the position is one in the text as given when no blank stands in front.
-/

namespace Tapgres.Filter

open Tapgres.Lib

/-- What a text goes wrong at: the token or the escape that starts at a position, or its end. -/
inductive Offence where
  | at (position : ℕ)
  | end
  deriving DecidableEq, Repr

/-- The text goes wrong there. -/
inductive OffendsAt (env : FilterEnv) (s : Utf8.Str) : Offence → Prop where
  | fault {tokens : List Token} {next offset : ℕ} {blanks rest : Utf8.Str}
      (scanned : Scanned 0 s tokens next (blanks ++ rest)) (hblanks : Blank blanks)
      (hfault : Faulty rest offset) : OffendsAt env s (.at (next + Utf8.byteLen blanks + offset))
  | token {before after : List Token} {t : Token} {next : ℕ} {blanks : Utf8.Str}
      (scanned : Scanned 0 s (before ++ t :: after) next blanks) (hblanks : Blank blanks)
      (viable : Viable env (before.map Token.kind))
      (refused : ¬Viable env ((before ++ [t]).map Token.kind)) : OffendsAt env s (.at t.position)
  | end {tokens : List Token} {next : ℕ} {blanks : Utf8.Str} (scanned : Scanned 0 s tokens next blanks)
      (hblanks : Blank blanks) (viable : Viable env (tokens.map Token.kind))
      (incomplete : ¬∃ p, Derives env .or (tokens.map Token.kind) p) : OffendsAt env s .end

variable {env : FilterEnv}

/-! ### There is one such place -/

/-- A list becomes no start of a filter at one of its tokens. -/
theorem refused_unique {before before' after after' : List Token} {t t' : Token}
    (heq : before ++ t :: after = before' ++ t' :: after') (hviable : Viable env (before.map Token.kind))
    (hviable' : Viable env (before'.map Token.kind))
    (hrefused : ¬Viable env ((before ++ [t]).map Token.kind))
    (hrefused' : ¬Viable env ((before' ++ [t']).map Token.kind)) : t = t' := by
  -- the shorter of two such parts, with its token, is no part of the other
  have hpart : ∀ {b b' a a' : List Token} {x x' : Token}, b ++ x :: a = b' ++ x' :: a' →
      Viable env (b'.map Token.kind) → ¬Viable env ((b ++ [x]).map Token.kind) → b'.length ≤ b.length := by
    intro b b' a a' x x' h hv hr
    by_contra hlt
    have hsub : b ++ [x] <+: b' := by
      have hfirst : b ++ [x] <+: b ++ x :: a := ⟨a, by simp⟩
      have hsecond : b' <+: b ++ x :: a := ⟨x' :: a', h.symm⟩
      refine List.prefix_of_prefix_length_le hfirst hsecond ?_
      rw [List.length_append, List.length_singleton]
      omega
    obtain ⟨tail, htail⟩ := hsub
    rw [← htail, List.map_append] at hv
    exact hr hv.of_append
  have hlen := Nat.le_antisymm (hpart heq.symm hviable hrefused') (hpart heq hviable' hrefused)
  exact (List.cons.inj (List.append_inj heq hlen).2).1

theorem lex_of_scanned {s blanks : Utf8.Str} {tokens tokens' : List Token} {next next' : ℕ}
    {blanks' : Utf8.Str} (h : Scanned 0 s tokens next blanks) (hblanks : Blank blanks)
    (h' : Scanned 0 s tokens' next' blanks') (hblanks' : Blank blanks') : tokens = tokens' := by
  have heq := (lex_scanned h hblanks).symm.trans (lex_scanned h' hblanks')
  exact (List.append_inj' (Except.ok.inj heq) rfl).1

/-- A text that is read to its end is not at fault. -/
theorem not_faulty_of_scanned {s blanks blanks' rest : Utf8.Str} {tokens tokens' : List Token}
    {next next' offset : ℕ} (h : Scanned 0 s tokens next blanks) (hblanks : Blank blanks)
    (h' : Scanned 0 s tokens' next' (blanks' ++ rest)) (hblanks' : Blank blanks') :
    ¬Faulty rest offset := by
  intro hfault
  obtain ⟨message, hlex⟩ := lex_faulty h' hblanks' hfault
  rw [lex_scanned h hblanks] at hlex
  cases hlex

/-- **A text goes wrong at one place.** -/
theorem OffendsAt.unique {s : Utf8.Str} {o o' : Offence} (h : OffendsAt env s o) (h' : OffendsAt env s o') :
    o = o' := by
  cases h with
  | fault scanned hblanks hfault =>
    cases h' with
    | fault scanned' hblanks' hfault' =>
      obtain ⟨message, hlex⟩ := lex_faulty scanned hblanks hfault
      obtain ⟨message', hlex'⟩ := lex_faulty scanned' hblanks' hfault'
      rw [hlex] at hlex'
      rw [errorAt, errorAt, Except.error.injEq, Stop.error.injEq, FilterParseError.mk.injEq] at hlex'
      rw [hlex'.2]
    | token scanned' hblanks' _ _ =>
      exact absurd hfault (not_faulty_of_scanned scanned' hblanks' scanned hblanks)
    | «end» scanned' hblanks' _ _ =>
      exact absurd hfault (not_faulty_of_scanned scanned' hblanks' scanned hblanks)
  | token scanned hblanks viable refused =>
    cases h' with
    | fault scanned' hblanks' hfault' =>
      exact absurd hfault' (not_faulty_of_scanned scanned hblanks scanned' hblanks')
    | token scanned' hblanks' viable' refused' =>
      rw [refused_unique (lex_of_scanned scanned hblanks scanned' hblanks') viable viable' refused refused']
    | «end» scanned' hblanks' viable' _ =>
      rw [← lex_of_scanned scanned hblanks scanned' hblanks', List.append_cons, List.map_append] at viable'
      exact absurd viable'.of_append refused
  | «end» scanned hblanks viable _ =>
    cases h' with
    | fault scanned' hblanks' hfault' =>
      exact absurd hfault' (not_faulty_of_scanned scanned hblanks scanned' hblanks')
    | token scanned' hblanks' _ refused' =>
      rw [lex_of_scanned scanned hblanks scanned' hblanks', List.append_cons, List.map_append] at viable
      exact absurd viable.of_append refused'
    | «end» _ _ _ _ => rfl

/-! ### It is reported -/

/-- **The lexer and the parser report where a text goes wrong.** -/
theorem offends_of_error (henv : Usable env) {s : Utf8.Str} {err : FilterParseError}
    (h : (lex s >>= parse env) = .error (.error err)) :
    OffendsAt env s (.at err.position) ∨ OffendsAt env s .end ∧ err.position = Utf8.byteLen s := by
  rcases scanned_cases 0 s with ⟨tokens, next, blanks, hscanned, hblanks⟩ |
    ⟨tokens, next, blanks, rest, offset, hscanned, hblanks, hfault⟩
  · rw [lex_scanned hscanned hblanks, ok_bind] at h
    obtain ⟨used, t, rest, htokens, hposition, hviable, hrefused, hincomplete⟩ := parse_offends henv h
    have hends : ∀ x ∈ tokens, x.kind ≠ .end := by
      intro x hx
      obtain ⟨_, _, _, _, _, hspells⟩ := hscanned.token_at hx
      exact hspells.ne_end
    rcases List.eq_nil_or_concat rest with rfl | ⟨body, last, rfl⟩
    · -- the end token
      obtain ⟨rfl, hlast⟩ := List.append_inj' htokens rfl
      obtain ⟨rfl, _⟩ := List.cons.inj hlast
      exact .inr ⟨.end hscanned hblanks hviable (hincomplete rfl), hposition⟩
    · rw [List.concat_eq_append, ← List.cons_append, ← List.append_assoc] at htokens
      obtain ⟨rfl, _⟩ := List.append_inj' htokens rfl
      have ht := hends t (by simp)
      rw [hposition]
      exact .inl (.token hscanned hblanks hviable (hrefused ht))
  · obtain ⟨message, hlex⟩ := lex_faulty hscanned hblanks hfault
    rw [hlex] at h
    cases h
    exact .inl (.fault hscanned hblanks hfault)

/-! ### Blanks around a text -/

def Token.shift (k : ℕ) (t : Token) : Token := ⟨t.kind, t.position + k⟩

def Offence.shift (k : ℕ) : Offence → Offence
  | .at position => .at (position + k)
  | .end => .end

theorem shift_kinds (k : ℕ) (tokens : List Token) :
    (tokens.map (Token.shift k)).map Token.kind = tokens.map Token.kind := by
  rw [List.map_map]
  rfl

theorem Scanned.shift {position next : ℕ} {s rest : Utf8.Str} {tokens : List Token}
    (h : Scanned position s tokens next rest) (k : ℕ) :
    Scanned (position + k) s (tokens.map (Token.shift k)) (next + k) rest := by
  induction h with
  | done => exact .done
  | @token position next blanks text _ _ kind _ hblanks hspells _ ih =>
    rw [List.map_cons, Token.shift]
    have hposition : position + k + Utf8.byteLen blanks = position + Utf8.byteLen blanks + k := by omega
    have hnext : position + k + Utf8.byteLen blanks + Utf8.byteLen text
        = position + Utf8.byteLen blanks + Utf8.byteLen text + k := by omega
    rw [← hnext] at ih
    rw [← hposition]
    exact .token hblanks hspells ih

/-- In front of a text, blanks move its tokens; where it has none, they stand in front of what is left. -/
theorem Scanned.behind {s rest lead : Utf8.Str} {tokens : List Token} {next : ℕ}
    (h : Scanned 0 s tokens next rest) (hlead : Blank lead) :
    ∃ next' lead', Scanned 0 (lead ++ s) (tokens.map (Token.shift (Utf8.byteLen lead))) next' (lead' ++ rest) ∧
      Blank lead' ∧ next' + Utf8.byteLen lead' = next + Utf8.byteLen lead := by
  cases h with
  | done => exact ⟨0, lead, .done, hlead, rfl⟩
  | @token _ _ blanks text _ _ kind _ hblanks hspells more =>
    have hmore := more.shift (Utf8.byteLen lead)
    have hfront : 0 + Utf8.byteLen (lead ++ blanks) + Utf8.byteLen text
        = 0 + Utf8.byteLen blanks + Utf8.byteLen text + Utf8.byteLen lead := by
      rw [Utf8.byteLen_append]
      omega
    rw [← hfront] at hmore
    have hscanned := Scanned.token (hlead.append hblanks) hspells hmore
    rw [List.append_assoc] at hscanned
    refine ⟨next + Utf8.byteLen lead, [], ?_, by simp [Blank], rfl⟩
    rw [List.map_cons, Token.shift, List.nil_append]
    have hposition : 0 + Utf8.byteLen blanks + Utf8.byteLen lead = 0 + Utf8.byteLen (lead ++ blanks) := by
      rw [Utf8.byteLen_append]
      omega
    rw [hposition]
    exact hscanned

/-- **Blanks in front of a text move the place it goes wrong at.** -/
theorem OffendsAt.behind {s lead : Utf8.Str} {o : Offence} (h : OffendsAt env s o) (hlead : Blank lead) :
    OffendsAt env (lead ++ s) (o.shift (Utf8.byteLen lead)) := by
  cases h with
  | @fault _ next offset blanks rest scanned hblanks hfault =>
    obtain ⟨next', lead', hscanned, hlead', hnext⟩ := scanned.behind hlead
    rw [← List.append_assoc] at hscanned
    have hfault' : OffendsAt env (lead ++ s) _ := .fault hscanned (hlead'.append hblanks) hfault
    have hposition : next' + Utf8.byteLen (lead' ++ blanks) + offset
        = next + Utf8.byteLen blanks + offset + Utf8.byteLen lead := by
      rw [Utf8.byteLen_append]
      omega
    rw [hposition] at hfault'
    exact hfault'
  | @token before after t next blanks scanned hblanks viable refused =>
    obtain ⟨next', lead', hscanned, hlead', hnext⟩ := scanned.behind hlead
    rw [List.map_append, List.map_cons] at hscanned
    refine .token hscanned (hlead'.append hblanks) (by rwa [shift_kinds]) ?_
    intro hviable
    rw [List.map_append, shift_kinds] at hviable
    exact refused (by rw [List.map_append]; exact hviable)
  | «end» scanned hblanks viable incomplete =>
    obtain ⟨next', lead', hscanned, hlead', hnext⟩ := scanned.behind hlead
    exact .end hscanned (hlead'.append hblanks) (by rwa [shift_kinds]) (by rwa [shift_kinds])

theorem Faulty.boundary {s : Utf8.Str} {offset : ℕ} (h : Faulty s offset) : Utf8.IsBoundary s offset := by
  cases h with
  | operator => exact ⟨[], _, rfl, rfl⟩
  | unclosed => exact ⟨[], _, rfl, rfl⟩
  | unclosedRaw => exact ⟨[], _, rfl, rfl⟩
  | @escape body _ c _ _ rest =>
    have hquote : ('\x22' : Char).utf8Size = 1 := rfl
    exact ⟨'\x22' :: body, '\\' :: c :: rest, rfl, by rw [Utf8.byteLen_cons, hquote]⟩

/-- The place is a position of the text. -/
theorem OffendsAt.boundary {s : Utf8.Str} {position : ℕ} (h : OffendsAt env s (.at position)) :
    Utf8.IsBoundary s position := by
  cases h with
  | @fault _ _ offset blanks rest scanned _ hfault =>
    obtain ⟨read, rfl, rfl⟩ := scanned.next_eq
    obtain ⟨p, q, rfl, rfl⟩ := hfault.boundary
    exact ⟨read ++ blanks ++ p, q, by simp, by simp only [Utf8.byteLen_append]; omega⟩
  | @token before after t _ _ scanned _ _ _ =>
    obtain ⟨read, text, rest, rfl, hposition, _⟩ := scanned.token_at (t := t) (by simp)
    exact ⟨read, text ++ rest, rfl, by omega⟩

/-! ### The text as given -/

/-- `str::trim_end` -/
def trimEnd (s : Utf8.Str) : Utf8.Str := s.rdropWhile Utf8.isWhitespace

/-- What trimming takes, and what it leaves. -/
theorem trim_parts (s : Utf8.Str) (h : trim s ≠ []) :
    ∃ lead trail, Blank lead ∧ Blank trail ∧ s = lead ++ (trim s ++ trail) ∧
      trimEnd s = lead ++ trim s ∧ lead = s.takeWhile Utf8.isWhitespace := by
  have hlead : Blank (s.takeWhile Utf8.isWhitespace) := fun c hc => List.mem_takeWhile_imp hc
  have hsplit : s = s.takeWhile Utf8.isWhitespace ++ s.dropWhile Utf8.isWhitespace :=
    List.takeWhile_append_dropWhile.symm
  have htrail : Blank (s.dropWhile Utf8.isWhitespace |>.rtakeWhile Utf8.isWhitespace) := fun c hc =>
    List.mem_rtakeWhile_imp hc
  have hrest : s.dropWhile Utf8.isWhitespace
      = trim s ++ (s.dropWhile Utf8.isWhitespace).rtakeWhile Utf8.isWhitespace :=
    (List.rdropWhile_append_rtakeWhile).symm
  refine ⟨_, _, hlead, htrail, ?_, ?_, rfl⟩
  · rw [← hrest]
    exact hsplit
  · have hne : (s.dropWhile Utf8.isWhitespace).reverse.dropWhile Utf8.isWhitespace ≠ [] := by
      intro hnil
      exact h (by rw [trim, List.rdropWhile, hnil, List.reverse_nil])
    rw [trimEnd, List.rdropWhile]
    conv_lhs => rw [hsplit]
    rw [List.reverse_append, List.dropWhile_append, if_neg (by simpa using hne), List.reverse_append,
      List.reverse_reverse]
    rfl

/-- Blanks in front are trimmed away. -/
theorem trim_behind {w : Utf8.Str} (hw : Blank w) (s : Utf8.Str) : trim (w ++ s) = trim s := by
  rw [trim, trim, List.dropWhile_append_of_pos hw]

theorem byteLen_eq_zero {s : Utf8.Str} : Utf8.byteLen s = 0 ↔ s = [] := by
  constructor
  · intro h
    cases s with
    | nil => rfl
    | cons c s =>
      have := c.utf8Size_pos
      rw [Utf8.byteLen_cons] at h
      omega
  · intro h
    rw [h]
    rfl

/-- A rejected text, trimmed, is rejected by the lexer or the parser. -/
theorem rejected_trimmed {expression : String} {err : FilterParseError}
    (h : Indexed.displayFilterParse env expression = .error (.error err)) :
    trim expression.toList ≠ [] ∧ (lex (trim expression.toList) >>= parse env) = .error (.error err) := by
  rw [Indexed.displayFilterParse_eq, DisplayFilter.parse] at h
  split at h
  · cases h
  · rename_i hne
    refine ⟨hne, ?_⟩
    cases hlex : lex (trim expression.toList) with
    | error stop =>
      rw [hlex, error_bind] at h
      rw [error_bind]
      cases h
      rfl
    | ok tokens =>
      rw [hlex, ok_bind, DisplayFilter.ofTokens] at h
      rw [ok_bind]
      cases hparse : parse env tokens with
      | error stop =>
        rw [hparse, error_bind] at h
        cases h
        rfl
      | ok root =>
        rw [hparse] at h
        cases h

/-- The position is one of the text as given, between two characters, and what the text goes wrong at
starts there: a token, an escape, or its end, behind which stand at most blanks. -/
def PointsAt (env : FilterEnv) (input : Utf8.Str) (position : ℕ) : Prop :=
  position ≤ Utf8.byteLen input ∧ Utf8.IsBoundary input position ∧
    (OffendsAt env (trimEnd input) (.at position) ∨
      OffendsAt env (trimEnd input) .end ∧ position = Utf8.byteLen (trimEnd input))

/-- Blanks that stand in front of the trimmed text come between the position and the place. -/
theorem pointsAt_iff {input lead s trail : Utf8.Str} {position : ℕ} (hlead : Blank lead)
    (hinput : input = lead ++ (s ++ trail)) (htrimEnd : trimEnd input = lead ++ s)
    (h : OffendsAt env s (.at position) ∨ OffendsAt env s .end ∧ position = Utf8.byteLen s) :
    PointsAt env input position ↔ lead = [] := by
  constructor
  · rintro ⟨_, _, hat⟩
    rw [htrimEnd] at hat
    rw [← byteLen_eq_zero]
    rcases h with h | ⟨h, rfl⟩
    · rcases hat with hat | ⟨hat, _⟩
      · have heq := hat.unique (h.behind hlead)
        rw [Offence.shift, Offence.at.injEq] at heq
        omega
      · cases hat.unique (h.behind hlead)
    · rcases hat with hat | ⟨_, hlen⟩
      · cases hat.unique (h.behind hlead)
      · rw [Utf8.byteLen_append] at hlen
        omega
  · intro hnil
    rw [hnil, List.nil_append] at hinput htrimEnd
    have hboundary : Utf8.IsBoundary s position := by
      rcases h with h | ⟨_, rfl⟩
      · exact h.boundary
      · exact ⟨s, [], (List.append_nil s).symm, rfl⟩
    obtain ⟨p, q, rfl, rfl⟩ := hboundary
    rw [PointsAt, htrimEnd, hinput]
    refine ⟨?_, ⟨p, q ++ trail, by rw [List.append_assoc], rfl⟩, h⟩
    simp only [Utf8.byteLen_append]
    omega

/-- **Error positions are positions in the trimmed text**: they point at what the text as given goes
wrong at exactly when it does not start with a blank; an error at the end of the text is at the end of
the text as given exactly when that has no blanks around it; and blanks put in front of a rejected text do
not move the position at all. -/
theorem filter_error_position (henv : Usable env) {expression : String} {err : FilterParseError}
    (h : Indexed.displayFilterParse env expression = .error (.error err)) :
    (PointsAt env expression.toList err.position ↔
        ∀ c, expression.toList.head? = some c → Utf8.isWhitespace c = false) ∧
      (OffendsAt env (trimEnd expression.toList) .end →
        (err.position = Utf8.byteLen expression.toList ↔ trim expression.toList = expression.toList)) ∧
      ∀ w, Blank w → ∃ err',
        Indexed.displayFilterParse env (String.ofList (w ++ expression.toList)) = .error (.error err') ∧
          (err'.position = err.position + Utf8.byteLen w ↔ w = []) := by
  obtain ⟨hne, herror⟩ := rejected_trimmed h
  obtain ⟨lead, trail, hlead, htrail, hinput, htrimEnd, htake⟩ := trim_parts expression.toList hne
  have hoffends := offends_of_error henv herror
  refine ⟨?_, ?_, ?_⟩
  · rw [pointsAt_iff hlead hinput htrimEnd hoffends, htake]
    cases expression.toList with
    | nil => simp
    | cons c s =>
      rw [List.takeWhile_cons]
      cases hc : Utf8.isWhitespace c <;> simp [hc]
  · intro hend
    rw [htrimEnd] at hend
    have hposition : err.position = Utf8.byteLen (trim expression.toList) := by
      rcases hoffends with hat | ⟨_, hposition⟩
      · cases hend.unique (hat.behind hlead)
      · exact hposition
    rw [hposition]
    constructor
    · intro hlen
      have hlen' := congrArg Utf8.byteLen hinput
      simp only [Utf8.byteLen_append] at hlen'
      have hleadNil := byteLen_eq_zero.mp (show Utf8.byteLen lead = 0 by omega)
      have htrailNil := byteLen_eq_zero.mp (show Utf8.byteLen trail = 0 by omega)
      rw [hleadNil, htrailNil, List.nil_append, List.append_nil] at hinput
      exact hinput.symm
    · intro heq
      rw [heq]
  · intro w hw
    refine ⟨err, ?_, ?_⟩
    · rw [Indexed.displayFilterParse] at h ⊢
      rw [String.toList_ofList, trim_behind hw]
      exact h
    · rw [← byteLen_eq_zero]
      omega

theorem loopbackEnv_usable : Usable loopbackEnv :=
  ⟨⟨"127.0.0.1", loopback, rfl⟩, ⟨"", rfl⟩⟩

/-- A text without blanks around it, refused at its last token. -/
theorem filter_error_position_unquoted :
    PointsAt loopbackEnv "message.type == Query".toList 16 := by
  have hrejected : Indexed.displayFilterParse loopbackEnv "message.type == Query"
      = .error (.error ⟨"message.type requires a quoted string", 16⟩) := by
    decide +kernel
  have hhead : "message.type == Query".toList.head? = some 'm' := by decide +kernel
  refine (filter_error_position loopbackEnv_usable hrejected).1.mpr ?_
  intro c hc
  rw [hhead] at hc
  obtain rfl := Option.some.inj hc
  rfl

/-- Behind a blank of three bytes the reported position lies within it. -/
theorem filter_error_position_not_boundary :
    Indexed.displayFilterParse loopbackEnv "\u3000(x"
        = .error (.error ⟨"unknown filter field 'x'", 1⟩) ∧
      ¬Utf8.IsBoundary "\u3000(x".toList 1 := by
  refine ⟨by decide +kernel, ?_⟩
  intro ⟨p, q, hsplit, hlen⟩
  have hnone : Utf8.splitAt "\u3000(x".toList 1 = none := by decide +kernel
  rw [Utf8.splitAt_eq_some.mpr ⟨hsplit, hlen⟩] at hnone
  cases hnone

end Tapgres.Filter
