import Tapgres.Pgwire

/-!
# A concrete decoder

`framed` decodes as pgwire does the negotiation packets, a `Startup` without parameters and the messages
without a body that a short session needs; any other packet is an error.  It shows that the laws of a
`Decoder` can be met together (`framed_consumes`, `framed_appends`, `framed_idles`, `framed_waits`,
`framed_negotiates`), and it is the decoder of the concrete runs in this development.

A packet is cut off the buffer by `cut`: its length field, which counts itself, stands at an offset, 0
for the packets before the session and 1, behind the type byte, for those in it.
-/

namespace Tapgres.Pgwire

open Tapgres.Net

/-- A big-endian number. -/
def beNat (bs : Bytes) : ℕ := bs.foldl (fun n b => n * 256 + b.toNat) 0

/-- The length of the packet at the front of the buffer, once its length field is there. -/
def packetLength (offset : ℕ) (buf : Bytes) : Option ℕ :=
  if buf.length < offset + 4 then none else some (offset + beNat ((buf.drop offset).take 4))

/-- Wait for a whole packet, then `parse` it and take it off the buffer; a length shorter than the
length field is an error. -/
def cut {M : Type} (offset : ℕ) (parse : Bytes → Except String M) (buf : Bytes) : Decoded M :=
  match packetLength offset buf with
  | none => (.ok none, buf)
  | some n =>
    if n < offset + 4 then (.error "invalid message length", buf)
    else if buf.length < n then (.ok none, buf)
    else
      match parse (buf.take n) with
      | .ok m => (.ok (some m), buf.drop n)
      | .error e => (.error e, buf.drop n)

/-- Take the first `n` bytes for the message `m`. -/
def takeAs {M : Type} (n : ℕ) (m : M) (buf : Bytes) : Decoded M := (.ok (some m), buf.drop n)

def parseStartup (packet : Bytes) : Except String FrontendMessage :=
  if packet = [0, 0, 0, 9, 0, 3, 0, 0, 0] then .ok (.startup ⟨3, 0, []⟩)
  else .error "invalid startup packet"

def parseFrontend (packet : Bytes) : Except String FrontendMessage :=
  if packet = [0x53, 0, 0, 0, 4] then .ok .sync
  else if packet = [0x48, 0, 0, 0, 4] then .ok .flush
  else if packet = [0x58, 0, 0, 0, 4] then .ok .terminate
  else .error "invalid message type"

def parseBackend (packet : Bytes) : Except String BackendMessage :=
  if packet = [0x52, 0, 0, 0, 8, 0, 0, 0, 0] then .ok (.authentication .ok)
  else if packet = [0x5a, 0, 0, 0, 5, 0x49] then .ok (.readyForQuery .idle)
  else if packet = [0x31, 0, 0, 0, 4] then .ok .parseComplete
  else if packet = [0x6e, 0, 0, 0, 4] then .ok .noData
  else .error "invalid message type"

def framedFrontend (buf : Bytes) (ctx : DecodeContext) : Decoded FrontendMessage :=
  if ctx.awaitingFrontendSsl then
    if buf.length < 8 then (.ok none, buf)
    else if packetCode buf = sslMagic then takeAs 8 (.sslNegotiation .postgresSsl) buf
    else if packetCode buf = gssMagic then takeAs 8 (.sslNegotiation .postgresGss) buf
    else (.ok (some (.sslNegotiation .none)), buf)
  else if ctx.awaitingFrontendStartup then cut 0 parseStartup buf
  else cut 1 parseFrontend buf

/-- The one-byte answer to a negotiation request. -/
def framedAnswer (accept : UInt8) (response : NegotiationResponse → BackendMessage) (buf : Bytes) :
    Decoded BackendMessage :=
  match buf with
  | [] => (.ok none, buf)
  | b :: rest =>
    if b = accept then (.ok (some (response .accept)), rest)
    else if b = 0x4e then (.ok (some (response .refuse)), rest)
    else (.error "invalid negotiation response", buf)

def framedBackend (buf : Bytes) (ctx : DecodeContext) : Decoded BackendMessage :=
  if ctx.awaitingBackendSslResponse then framedAnswer 0x53 .sslResponse buf
  else if ctx.awaitingBackendGssResponse then framedAnswer 0x47 .gssEncResponse buf
  else cut 1 parseBackend buf

def framed : Decoder := ⟨framedFrontend, framedBackend, fun s => "\"" ++ s ++ "\""⟩

/-! ### The laws -/

/-- What `cut` does when it gives nothing, or a message. -/
theorem cut_none {M : Type} {offset : ℕ} {parse : Bytes → Except String M} {buf rest : Bytes}
    (h : cut offset parse buf = (.ok none, rest)) : rest = buf := by
  rw [cut] at h
  split at h
  · cases h
    rfl
  · split at h
    · cases h
    · split at h
      · cases h
        rfl
      · split at h <;> cases h

theorem cut_some {M : Type} {offset : ℕ} {parse : Bytes → Except String M} {buf rest : Bytes} {m : M}
    (h : cut offset parse buf = (.ok (some m), rest)) :
    ∃ n, packetLength offset buf = some n ∧ offset + 4 ≤ n ∧ n ≤ buf.length ∧
      parse (buf.take n) = .ok m ∧ rest = buf.drop n := by
  rw [cut] at h
  split at h
  · cases h
  · rename_i n hn
    split at h
    · cases h
    · split at h
      · cases h
      · split at h
        · rename_i m' hm
          cases h
          exact ⟨n, hn, by omega, by omega, hm, rfl⟩
        · cases h

theorem packetLength_append {offset n : ℕ} {buf : Bytes} (more : Bytes)
    (h : packetLength offset buf = some n) : packetLength offset (buf ++ more) = some n := by
  rw [packetLength] at h ⊢
  split at h
  · cases h
  · rw [if_neg (by rw [List.length_append]; omega), ← h, List.drop_append_of_le_length (by omega),
      List.take_append_of_le_length (by rw [List.length_drop]; omega)]

theorem cut_append {M : Type} {offset : ℕ} {parse : Bytes → Except String M} {buf rest : Bytes} {m : M}
    (more : Bytes) (h : cut offset parse buf = (.ok (some m), rest)) :
    cut offset parse (buf ++ more) = (.ok (some m), rest ++ more) := by
  obtain ⟨n, hlen, hn, hle, hparse, rfl⟩ := cut_some h
  rw [cut, packetLength_append more hlen]
  simp only
  rw [if_neg (by omega), if_neg (by rw [List.length_append]; omega),
    List.take_append_of_le_length hle, hparse, List.drop_append_of_le_length hle]

theorem exists_front {n : ℕ} {buf : Bytes} (hn : 0 < n) (hle : n ≤ buf.length) :
    ∃ wire, wire ≠ [] ∧ buf = wire ++ buf.drop n := by
  refine ⟨buf.take n, ?_, (List.take_append_drop n buf).symm⟩
  intro hnil
  have hlen := congrArg List.length hnil
  rw [List.length_take, List.length_nil] at hlen
  omega

/-- A message taken off the buffer leaves a shorter suffix. -/
theorem cut_front {M : Type} {offset : ℕ} {parse : Bytes → Except String M} {buf rest : Bytes} {m : M}
    (h : cut offset parse buf = (.ok (some m), rest)) : ∃ wire, wire ≠ [] ∧ buf = wire ++ rest := by
  obtain ⟨n, _, hn, hle, _, rfl⟩ := cut_some h
  exact exists_front (by omega) hle

theorem takeAs_front {M : Type} {n : ℕ} {m : M} {buf rest : Bytes} (hn : 0 < n) (hle : n ≤ buf.length)
    (h : takeAs n m buf = (.ok (some m), rest)) : ∃ wire, wire ≠ [] ∧ buf = wire ++ rest := by
  cases h
  exact exists_front hn hle

theorem framedAnswer_cases {accept : UInt8} {response : NegotiationResponse → BackendMessage}
    {buf rest : Bytes} {m : Option BackendMessage}
    (h : framedAnswer accept response buf = (.ok m, rest)) :
    (m = none ∧ rest = buf) ∨ ∃ b s, buf = b :: rest ∧ m = some (response s) ∧
      ∀ more, framedAnswer accept response (buf ++ more) = (.ok m, rest ++ more) := by
  cases buf with
  | nil =>
    cases h
    exact .inl ⟨rfl, rfl⟩
  | cons b tail =>
    rw [framedAnswer] at h
    split at h
    · rename_i hb
      cases h
      exact .inr ⟨b, .accept, rfl, rfl, fun more => by rw [List.cons_append, framedAnswer, if_pos hb]⟩
    · rename_i hb
      split at h
      · rename_i hb'
        cases h
        exact .inr ⟨b, .refuse, rfl, rfl,
          fun more => by rw [List.cons_append, framedAnswer, if_neg hb, if_pos hb']⟩
      · cases h

/-- The three things the frontend decoder can give: nothing, the peek, or a message. -/
theorem framedFrontend_cases {buf rest : Bytes} {ctx : DecodeContext} {m : Option FrontendMessage}
    (h : framedFrontend buf ctx = (.ok m, rest)) :
    (m = none ∧ rest = buf) ∨
      (m = some (.sslNegotiation .none) ∧ rest = buf ∧ ctx.awaitingFrontendSsl = true) ∨
      ∃ msg wire, m = some msg ∧ msg.isPeek = false ∧ wire ≠ [] ∧ buf = wire ++ rest := by
  rw [framedFrontend] at h
  have hcut : ∀ offset parse, (∀ packet msg, parse packet = .ok msg → FrontendMessage.isPeek msg = false) →
      cut offset parse buf = (.ok m, rest) → (m = none ∧ rest = buf) ∨
        ∃ msg wire, m = some msg ∧ msg.isPeek = false ∧ wire ≠ [] ∧ buf = wire ++ rest := by
    intro offset parse hpeek hc
    cases m with
    | none => exact .inl ⟨rfl, cut_none hc⟩
    | some msg =>
      obtain ⟨n, _, _, _, hparse, _⟩ := cut_some hc
      obtain ⟨wire, hwire⟩ := cut_front hc
      exact .inr ⟨msg, wire, rfl, hpeek _ _ hparse, hwire⟩
  split at h
  · rename_i hssl
    split at h
    · cases h
      exact .inl ⟨rfl, rfl⟩
    · rename_i hlen
      split at h
      · obtain ⟨hm, _⟩ := Prod.mk.inj h
        cases Except.ok.inj hm
        obtain ⟨wire, hwire⟩ := takeAs_front (by omega) (by omega) h
        exact .inr (.inr ⟨_, wire, rfl, rfl, hwire⟩)
      · split at h
        · obtain ⟨hm, _⟩ := Prod.mk.inj h
          cases Except.ok.inj hm
          obtain ⟨wire, hwire⟩ := takeAs_front (by omega) (by omega) h
          exact .inr (.inr ⟨_, wire, rfl, rfl, hwire⟩)
        · cases h
          exact .inr (.inl ⟨rfl, rfl, hssl⟩)
  · split at h
    · refine (hcut 0 parseStartup (fun packet msg hp => ?_) h).imp_right .inr
      rw [parseStartup] at hp
      split at hp <;> cases hp
      rfl
    · refine (hcut 1 parseFrontend (fun packet msg hp => ?_) h).imp_right .inr
      rw [parseFrontend] at hp
      repeat' (split at hp)
      all_goals cases hp
      all_goals rfl

theorem framedBackend_cases {buf rest : Bytes} {ctx : DecodeContext} {m : Option BackendMessage}
    (h : framedBackend buf ctx = (.ok m, rest)) :
    (m = none ∧ rest = buf) ∨ ∃ msg wire, m = some msg ∧ wire ≠ [] ∧ buf = wire ++ rest := by
  rw [framedBackend] at h
  split at h
  · rcases framedAnswer_cases h with hnone | ⟨b, s, rfl, rfl, _⟩
    · exact .inl hnone
    · exact .inr ⟨_, [b], rfl, by simp, rfl⟩
  · split at h
    · rcases framedAnswer_cases h with hnone | ⟨b, s, rfl, rfl, _⟩
      · exact .inl hnone
      · exact .inr ⟨_, [b], rfl, by simp, rfl⟩
    · cases m with
      | none => exact .inl ⟨rfl, cut_none h⟩
      | some msg =>
        obtain ⟨wire, hwire⟩ := cut_front h
        exact .inr ⟨msg, wire, rfl, hwire⟩

theorem framed_consumes : framed.Consumes where
  frontend_none buf ctx rest h := by
    rcases framedFrontend_cases h with ⟨_, hrest⟩ | ⟨hm, _⟩ | ⟨_, _, hm, _⟩
    · exact hrest
    · cases hm
    · cases hm
  frontend_peek buf ctx m rest h hpeek := by
    rcases framedFrontend_cases h with ⟨hm, _⟩ | ⟨_, hrest, hssl⟩ | ⟨msg, _, hm, hmsg, _⟩
    · cases hm
    · exact ⟨hrest, hssl⟩
    · cases hm
      rw [hpeek] at hmsg
      cases hmsg
  frontend_some buf ctx m rest h hpeek := by
    rcases framedFrontend_cases h with ⟨hm, _⟩ | ⟨hm, _⟩ | ⟨msg, wire, hm, _, hwire⟩
    · cases hm
    · cases hm
      cases hpeek
    · exact ⟨wire, hwire⟩
  backend_none buf ctx rest h := by
    rcases framedBackend_cases h with ⟨_, hrest⟩ | ⟨_, _, hm, _⟩
    · exact hrest
    · cases hm
  backend_some buf ctx m rest h := by
    rcases framedBackend_cases h with ⟨hm, _⟩ | ⟨_, wire, _, hwire⟩
    · cases hm
    · exact ⟨wire, hwire⟩

/-- What `framed` decodes does not depend on the bytes behind it. -/
theorem framedFrontend_append {buf rest : Bytes} {ctx : DecodeContext} {m : FrontendMessage} (more : Bytes)
    (h : framedFrontend buf ctx = (.ok (some m), rest)) :
    framedFrontend (buf ++ more) ctx = (.ok (some m), rest ++ more) := by
  rw [framedFrontend] at h ⊢
  split at h
  · rename_i hssl
    rw [if_pos hssl]
    split at h
    · cases h
    · rename_i hlen
      rw [if_neg (by rw [List.length_append]; omega), packetCode_append (by omega)]
      have htake : ∀ msg, takeAs 8 msg buf = (.ok (some m), rest) →
          takeAs 8 msg (buf ++ more) = (.ok (some m), rest ++ more) := by
        intro msg hmsg
        cases hmsg
        rw [takeAs, List.drop_append_of_le_length (by omega)]
      split at h
      · rename_i hcode
        rw [if_pos hcode]
        exact htake _ h
      · rename_i hcode
        rw [if_neg hcode]
        split at h
        · rename_i hcode'
          rw [if_pos hcode']
          exact htake _ h
        · rename_i hcode'
          cases h
          rw [if_neg hcode']
  · rename_i hssl
    rw [if_neg hssl]
    split at h
    · rename_i hstartup
      rw [if_pos hstartup]
      exact cut_append more h
    · rename_i hstartup
      rw [if_neg hstartup]
      exact cut_append more h

theorem framedBackend_append {buf rest : Bytes} {ctx : DecodeContext} {m : BackendMessage} (more : Bytes)
    (h : framedBackend buf ctx = (.ok (some m), rest)) :
    framedBackend (buf ++ more) ctx = (.ok (some m), rest ++ more) := by
  rw [framedBackend] at h ⊢
  split at h
  · rename_i hssl
    rw [if_pos hssl]
    rcases framedAnswer_cases h with ⟨hm, _⟩ | ⟨_, _, _, _, happend⟩
    · cases hm
    · exact happend more
  · rename_i hssl
    rw [if_neg hssl]
    split at h
    · rename_i hgss
      rw [if_pos hgss]
      rcases framedAnswer_cases h with ⟨hm, _⟩ | ⟨_, _, _, _, happend⟩
      · cases hm
      · exact happend more
    · rename_i hgss
      rw [if_neg hgss]
      exact cut_append more h

theorem framed_appends : framed.Appends where
  frontend _ _ _ more h := framedFrontend_append more h
  backend _ _ _ more h := framedBackend_append more h

/-- The beginning of a packet is waited on. -/
theorem cut_begun {M : Type} {offset : ℕ} {parse : Bytes → Except String M} {begun more : Bytes} {m : M}
    (hmore : more ≠ []) (h : cut offset parse (begun ++ more) = (.ok (some m), [])) :
    cut offset parse begun = (.ok none, begun) := by
  obtain ⟨n, hlen, hn, hle, _, hdrop⟩ := cut_some h
  have hall : (begun ++ more).length ≤ n := List.drop_eq_nil_iff.mp hdrop.symm
  have hpos := List.length_pos_iff.mpr hmore
  rw [List.length_append] at hle hall
  rw [cut]
  cases hb : packetLength offset begun with
  | none => rfl
  | some k =>
    have hk := packetLength_append more hb
    rw [hlen] at hk
    obtain rfl := Option.some.inj hk
    simp only
    rw [if_neg (by omega), if_pos (by omega)]

/-- Of an answer, a byte long, no byte is a beginning. -/
theorem framedAnswer_begun {accept : UInt8} {response : NegotiationResponse → BackendMessage}
    {begun more : Bytes} {m : BackendMessage} (hmore : more ≠ [])
    (h : framedAnswer accept response (begun ++ more) = (.ok (some m), [])) :
    framedAnswer accept response begun = (.ok none, begun) := by
  cases begun with
  | nil => rfl
  | cons b tail =>
    rcases framedAnswer_cases h with ⟨hm, _⟩ | ⟨_, _, hbuf, _, _⟩
    · cases hm
    · exact absurd (List.append_eq_nil_iff.mp (List.cons.inj hbuf).2).2 hmore

theorem framed_idles : framed.Idles where
  frontend ctx := by
    show framedFrontend [] ctx = _
    rw [framedFrontend]
    split
    · rfl
    · split <;> rfl
  backend ctx := by
    show framedBackend [] ctx = _
    rw [framedBackend]
    split
    · rfl
    · split <;> rfl

theorem framed_waits : framed.Waits where
  frontend begun more ctx m hmore h := by
    change framedFrontend (begun ++ more) ctx = _ at h
    show framedFrontend begun ctx = _
    rw [framedFrontend] at h ⊢
    split at h
    · rename_i hssl
      rw [if_pos hssl]
      by_cases hlen : begun.length < 8
      · rw [if_pos hlen]
      · -- a request is eight bytes long, and a peek leaves what there is
        have hpos := List.length_pos_iff.mpr hmore
        rw [if_neg (by rw [List.length_append]; omega)] at h
        have hleft : (begun ++ more).drop 8 ≠ [] := by
          rw [ne_eq, List.drop_eq_nil_iff, List.length_append]
          omega
        split at h
        · exact absurd (Prod.mk.inj h).2 hleft
        · split at h
          · exact absurd (Prod.mk.inj h).2 hleft
          · exact absurd (List.append_eq_nil_iff.mp (Prod.mk.inj h).2).2 hmore
    · rename_i hssl
      rw [if_neg hssl]
      split at h
      · rename_i hstartup
        rw [if_pos hstartup]
        exact cut_begun hmore h
      · rename_i hstartup
        rw [if_neg hstartup]
        exact cut_begun hmore h
  backend begun more ctx m hmore h := by
    change framedBackend (begun ++ more) ctx = _ at h
    show framedBackend begun ctx = _
    rw [framedBackend] at h ⊢
    split at h
    · rename_i hssl
      rw [if_pos hssl]
      exact framedAnswer_begun hmore h
    · rename_i hssl
      rw [if_neg hssl]
      split at h
      · rename_i hgss
        rw [if_pos hgss]
        exact framedAnswer_begun hmore h
      · rename_i hgss
        rw [if_neg hgss]
        exact cut_begun hmore h

/-- No message cut off as a packet is an answer to a negotiation request. -/
theorem parseBackend_not_answer {packet : Bytes} {m : BackendMessage} (h : parseBackend packet = .ok m) :
    (∀ s, m ≠ .sslResponse s) ∧ ∀ s, m ≠ .gssEncResponse s := by
  rw [parseBackend] at h
  repeat' (split at h)
  all_goals cases h
  all_goals exact ⟨fun _ => nofun, fun _ => nofun⟩

/-- Where a backend message comes from: an answer needs its flag. -/
theorem framedBackend_answer {buf rest : Bytes} {ctx : DecodeContext} {m : BackendMessage}
    (h : framedBackend buf ctx = (.ok (some m), rest)) :
    (∀ s, m = .sslResponse s → ctx.awaitingBackendSslResponse = true) ∧
      ∀ s, m = .gssEncResponse s → ctx.awaitingBackendGssResponse = true := by
  rw [framedBackend] at h
  split at h
  · rename_i hssl
    refine ⟨fun _ _ => hssl, ?_⟩
    intro s hs
    rcases framedAnswer_cases h with ⟨hm, _⟩ | ⟨_, _, _, hm, _⟩
    · cases hm
    · cases hm
      cases hs
  · split at h
    · rename_i hgss
      refine ⟨?_, fun _ _ => hgss⟩
      intro s hs
      rcases framedAnswer_cases h with ⟨hm, _⟩ | ⟨_, _, _, hm, _⟩
      · cases hm
      · cases hm
        cases hs
    · obtain ⟨_, _, _, _, hparse, _⟩ := cut_some h
      obtain ⟨hssl, hgss⟩ := parseBackend_not_answer hparse
      exact ⟨fun s hs => absurd hs (hssl s), fun s hs => absurd hs (hgss s)⟩

theorem framed_negotiates : framed.Negotiates where
  short buf ctx hssl hlen := by
    show framedFrontend buf ctx = _
    rw [framedFrontend, if_pos hssl, if_pos hlen]
  peek buf ctx hssl hlen hcode hcode' := by
    show framedFrontend buf ctx = _
    rw [framedFrontend, if_pos hssl, if_neg (by omega), if_neg hcode, if_neg hcode']
  request buf ctx r rest h := by
    change framedFrontend buf ctx = _ at h
    rw [framedFrontend] at h
    split at h
    · assumption
    · split at h
      · obtain ⟨_, _, _, _, hparse, _⟩ := cut_some h
        rw [parseStartup] at hparse
        split at hparse <;> cases hparse
      · obtain ⟨_, _, _, _, hparse, _⟩ := cut_some h
        rw [parseFrontend] at hparse
        repeat' (split at hparse)
        all_goals cases hparse
  sslAnswer buf ctx s rest h := (framedBackend_answer h).1 s rfl
  gssAnswer buf ctx s rest h := (framedBackend_answer h).2 s rfl
  backendFlags buf ctx ctx' hssl hgss := by
    show framedBackend buf ctx = framedBackend buf ctx'
    rw [framedBackend, framedBackend, hssl, hgss]

theorem framed_recognises : framed.Recognises where
  request q ctx hssl := by
    show framedFrontend q.wire ctx = _
    rw [framedFrontend, if_pos hssl]
    cases q <;> decide
  refusal q ctx hssl hgss := by
    show framedBackend [refuseByte] ctx = _
    rw [framedBackend, hssl, hgss]
    cases q <;> decide

theorem framed_startsUp : framed.StartsUp := by
  intro buf ctx m rest hstartup h
  change framedFrontend buf ctx = _ at h
  rw [framedFrontend, if_pos hstartup] at h
  split at h
  · split at h
    · cases h
    · split at h
      · cases h
        rfl
      · split at h
        · cases h
          rfl
        · cases h
          rfl
  · obtain ⟨_, _, _, _, hparse, _⟩ := cut_some h
    rw [parseStartup] at hparse
    split at hparse <;> cases hparse
    rfl

theorem framed_replies : framed.Replies := by
  intro buf ctx m rest hawaits h
  change framedBackend buf ctx = _ at h
  rw [framedBackend] at h
  split at h
  · rcases framedAnswer_cases h with ⟨hm, _⟩ | ⟨_, _, _, hm, _⟩
    · cases hm
    · cases hm
      rfl
  · rename_i hssl
    rw [if_pos (hawaits.resolve_left hssl)] at h
    rcases framedAnswer_cases h with ⟨hm, _⟩ | ⟨_, _, _, hm, _⟩
    · cases hm
    · cases hm
      rfl

theorem framed_lawful : framed.Lawful :=
  ⟨⟨framed_consumes, framed_idles, framed_negotiates⟩, framed_appends, framed_waits⟩

end Tapgres.Pgwire
