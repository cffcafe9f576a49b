import Tapgres.Proxy.Handshake

/-!
# Opening a connection, await by await

`handle_connection` of `proxy.rs` from its first read to its relay, cut at its awaits, any of which may
fail.  `Proxy.Handshake` has the same part of the source with every await but the reads taken to succeed.

* `Setup.resume` — what follows the end of an await;
* `Setup.Foresees` — where a setup leads if nothing more fails;
* `setup_refines` — so a setup fails, with an error to report, or leads where `handleConnection` says; and
  what the two peers have been told by then is a beginning of what they are told there.
-/

namespace Tapgres.Proxy

open Relation (ReflTransGen)
open Tapgres.Net Tapgres.Pgwire Tapgres.Decode

/-- An await of `handle_connection`, with the values that live across it. -/
inductive Await where
  /-- `client.read_exact` -/
  | head
  /-- The server of a cancel request is connected to. -/
  | cancelConnect (head : Bytes)
  | cancelWrite (head : Bytes)
  /-- One byte is written to the client. -/
  | answer (byte : UInt8) (client : ProxyStream)
  /-- The TLS handshake with the client. -/
  | accept
  | connect (client : ProxyStream) (initial : Bytes)
  /-- The SSLRequest is written to the server. -/
  | probe (client : ProxyStream) (initial : Bytes)
  /-- `server.read_exact` -/
  | reply (client : ProxyStream) (initial : Bytes)
  /-- The TLS handshake with the server. -/
  | connectTls (client : ProxyStream) (initial : Bytes)
  /-- The client's initial bytes are written upstream. -/
  | forward (client server : ProxyStream) (initial : Bytes)
  deriving DecidableEq, Repr

/-- An await, and what the proxy itself has written to either peer before. -/
structure Setup where
  await : Await
  replies : Bytes
  probe : Bytes
  deriving DecidableEq, Repr

def Setup.start : Setup := ⟨.head, [], []⟩

/-- What follows an await. -/
inductive Continues where
  | await (next : Setup)
  /-- `raw_relay` -/
  | rawRelay (head : Bytes)
  /-- The two pumps; `initial` has been written upstream. -/
  | pumps (replies probe initial : Bytes) (client server : ProxyStream)
  | returned (error : Option String)
  deriving DecidableEq, Repr

/-- Both transports are up: the client's initial bytes, if any, go upstream. -/
def Setup.initial (s : Setup) (client server : ProxyStream) (initial : Bytes) : Continues :=
  if initial.isEmpty then .pumps s.replies s.probe initial client server
  else .await { s with await := .forward client server initial }

/-- The await has ended with the bytes it read, or failed.  Of a write that fails nothing counts as sent, though
`write_all` may have written a part. -/
def Setup.resume (noUpstreamTls : Bool) (s : Setup) (result : Except String Bytes) : Continues :=
  match s.await, result with
  -- fewer than eight bytes: nothing to tap
  | .head, .error _ => .returned none
  | .head, .ok head =>
    let body := head.drop 4
    if body = cancelMagic then .await { s with await := .cancelConnect head }
    else if body = sslMagic then .await { s with await := .answer acceptByte .tls }
    else if body = gssMagic then .await { s with await := .answer refuseByte .plain }
    else .await { s with await := .connect .plain head }
  | .cancelConnect head, .ok _ => .await { s with await := .cancelWrite head }
  | .cancelWrite head, .ok _ => .rawRelay head
  | .answer byte .tls, .ok _ => .await { s with await := .accept, replies := s.replies ++ [byte] }
  | .answer byte .plain, .ok _ => .await { s with await := .connect .plain [], replies := s.replies ++ [byte] }
  | .accept, .ok _ => .await { s with await := .connect .tls [] }
  | .connect client initial, .ok _ =>
    if noUpstreamTls then s.initial client .plain initial
    else .await { s with await := .probe client initial }
  | .probe client initial, .ok _ =>
    .await { s with await := .reply client initial, probe := s.probe ++ sslRequest }
  | .reply client initial, .ok reply =>
    if reply = [acceptByte] then .await { s with await := .connectTls client initial }
    else s.initial client .plain initial
  -- no answer: stay cleartext upstream
  | .reply client initial, .error _ => s.initial client .plain initial
  | .connectTls client initial, .ok _ => s.initial client .tls initial
  | .forward client server initial, .ok _ => .pumps s.replies s.probe initial client server
  | _, .error e => .returned (some e)

/-! ### Where a setup leads -/

/-- What the peers make of an await: the client sends `sent` in the clear, and the server answers the probe
with `reply` or closes. -/
def Await.Supplied (reply : Option UInt8) (sent : Bytes) (a : Await) : Except String Bytes → Prop
  | .ok bytes =>
    match a with
    | .head => 8 ≤ sent.length ∧ bytes = sent.take 8
    | .reply .. => some bytes = reply.map fun byte => [byte]
    | _ => bytes = []
  | .error _ =>
    match a with
    | .head => sent.length < 8
    | .reply .. => reply = none
    | _ => True

/-- The relay to which these values lead. -/
def openedOf (noUpstreamTls : Bool) (reply : Option UInt8) (sent replies initial : Bytes)
    (client : ProxyStream) : Opened :=
  { replies, initial, unread := sent.drop 8, client
    probe := if noUpstreamTls then [] else sslRequest
    server := if !noUpstreamTls && reply = some acceptByte then .tls else .plain }

/-- Which of the server's bytes has decided its transport, and what the probe was, when the transports are
up. -/
structure Settled (noUpstreamTls : Bool) (reply : Option UInt8) (probe : Bytes) (server : ProxyStream) :
    Prop where
  probe : probe = if noUpstreamTls then [] else sslRequest
  server : server = if !noUpstreamTls && reply = some acceptByte then .tls else .plain

/-- The setup is on its way to where `handled` is: with its values so far, and what it still does when
nothing fails, it gets there. -/
def Setup.Foresees (noUpstreamTls : Bool) (reply : Option UInt8) (sent : Bytes) (handled : Handled)
    (s : Setup) : Prop :=
  let leads (replies initial : Bytes) (client : ProxyStream) : Prop :=
    handled = .relay (openedOf noUpstreamTls reply sent replies initial client)
  match s.await with
  | .head => s.replies = [] ∧ s.probe = [] ∧ handled = handleConnection noUpstreamTls reply sent
  | .cancelConnect head | .cancelWrite head =>
    s.replies = [] ∧ s.probe = [] ∧ handled = .cancel head (sent.drop 8)
  | .answer byte client => s.probe = [] ∧ leads (s.replies ++ [byte]) [] client
  | .accept => s.probe = [] ∧ leads s.replies [] .tls
  | .connect client initial => s.probe = [] ∧ leads s.replies initial client
  | .probe client initial => s.probe = [] ∧ noUpstreamTls = false ∧ leads s.replies initial client
  | .reply client initial => s.probe = sslRequest ∧ noUpstreamTls = false ∧ leads s.replies initial client
  | .connectTls client initial =>
    Settled noUpstreamTls reply s.probe .tls ∧ leads s.replies initial client
  | .forward client server initial =>
    Settled noUpstreamTls reply s.probe server ∧ leads s.replies initial client

/-- What the proxy itself tells the client and the server, without what it passes on from one to the other. -/
def Handled.told : Handled → Bytes × Bytes
  | .nothing | .cancel .. => ([], [])
  | .relay opened => (opened.replies, opened.probe)

/-- Where a connection is when its setup is over; nowhere, when an await has failed. -/
def Continues.handled (unread : Bytes) : Continues → Option Handled
  | .rawRelay head => some (.cancel head unread)
  | .pumps replies probe initial client server =>
    some (.relay { replies, probe, initial, client, server, unread })
  | .returned none => some .nothing
  | .await _ | .returned (some _) => none

/-- What follows leads to `handled`, unless an await has failed. -/
def Continues.Leads (noUpstreamTls : Bool) (reply : Option UInt8) (sent : Bytes) (handled : Handled) :
    Continues → Prop
  | .await next => next.Foresees noUpstreamTls reply sent handled
  | c => ∀ h, c.handled (sent.drop 8) = some h → h = handled

section Steps

variable {noUpstreamTls : Bool} {reply : Option UInt8} {sent : Bytes} {handled : Handled}

/-- The pumps start. -/
theorem pumps_leads {replies probe initial : Bytes} {client server : ProxyStream}
    (hsettled : Settled noUpstreamTls reply probe server)
    (hleads : handled = .relay (openedOf noUpstreamTls reply sent replies initial client)) :
    (Continues.pumps replies probe initial client server).Leads noUpstreamTls reply sent handled := by
  intro h hh
  cases hh
  rw [hleads, openedOf, ← hsettled.probe, ← hsettled.server]

/-- A failed await leads nowhere. -/
theorem failed_leads (e : String) :
    (Continues.returned (some e)).Leads noUpstreamTls reply sent handled := by
  intro h hh
  cases hh

/-- The transports are up. -/
theorem initial_leads {s : Setup} {client server : ProxyStream} {initial : Bytes}
    (hsettled : Settled noUpstreamTls reply s.probe server)
    (hleads : handled = .relay (openedOf noUpstreamTls reply sent s.replies initial client)) :
    (s.initial client server initial).Leads noUpstreamTls reply sent handled := by
  rw [Setup.initial]
  split
  · exact pumps_leads hsettled hleads
  · exact ⟨hsettled, hleads⟩

/-- The client's first eight bytes decide. -/
theorem head_leads {s : Setup} (hawait : s.await = .head)
    (h : s.Foresees noUpstreamTls reply sent handled) (hlong : 8 ≤ sent.length) :
    (s.resume noUpstreamTls (.ok (sent.take 8))).Leads noUpstreamTls reply sent handled := by
  obtain ⟨await, replies, probe⟩ := s
  obtain rfl : await = .head := hawait
  obtain ⟨hreplies, hprobe, hhandled⟩ := h
  obtain rfl : replies = [] := hreplies
  obtain rfl : probe = [] := hprobe
  have hlen : (sent.take 8).length = 8 := by rw [List.length_take]; omega
  have hcode : packetCode (sent.take 8) = (sent.take 8).drop 4 := by
    rw [packetCode, List.take_of_length_le (by rw [List.length_drop]; omega)]
  rw [← List.take_append_drop 8 sent, handleConnection_code hlen, hcode] at hhandled
  show Continues.Leads _ _ _ _ (if (sent.take 8).drop 4 = cancelMagic then _ else _)
  by_cases hcancel : (sent.take 8).drop 4 = cancelMagic
  · rw [if_pos hcancel] at hhandled ⊢
    exact ⟨rfl, rfl, hhandled⟩
  · rw [if_neg hcancel] at hhandled ⊢
    by_cases hssl : (sent.take 8).drop 4 = sslMagic
    · rw [if_pos hssl]
      simp only [hssl, if_true, true_or] at hhandled
      exact ⟨rfl, hhandled⟩
    · rw [if_neg hssl]
      by_cases hgss : (sent.take 8).drop 4 = gssMagic
      · rw [if_pos hgss]
        have hnotSsl : gssMagic ≠ sslMagic := by decide
        simp only [hgss, hnotSsl, if_true, if_false, or_true] at hhandled
        exact ⟨rfl, hhandled⟩
      · rw [if_neg hgss]
        simp only [hssl, hgss, if_false, or_self] at hhandled
        exact ⟨rfl, hhandled⟩

/-- **One await keeps the course**, whether it fails or not. -/
theorem resume_leads {s : Setup} (h : s.Foresees noUpstreamTls reply sent handled)
    {result : Except String Bytes} (hresult : s.await.Supplied reply sent result) :
    (s.resume noUpstreamTls result).Leads noUpstreamTls reply sent handled := by
  obtain ⟨await, replies, probe⟩ := s
  cases await with
  | head =>
    cases result with
    | ok bytes =>
      obtain ⟨hlong, rfl⟩ := hresult
      exact head_leads rfl h hlong
    | error e =>
      have hshort : sent.length < 8 := hresult
      obtain ⟨_, _, hhandled⟩ := h
      rw [handleConnection, if_pos hshort] at hhandled
      intro h' hh'
      cases hh'
      exact hhandled.symm
  | cancelConnect head =>
    cases result with
    | ok bytes => exact h
    | error e => exact failed_leads e
  | cancelWrite head =>
    cases result with
    | ok bytes =>
      intro h' hh'
      cases hh'
      exact h.2.2.symm
    | error e => exact failed_leads e
  | answer byte client =>
    cases result with
    | ok bytes => cases client <;> exact h
    | error e => cases client <;> exact failed_leads e
  | accept =>
    cases result with
    | ok bytes => exact h
    | error e => exact failed_leads e
  | connect client initial =>
    cases result with
    | ok bytes =>
      show Continues.Leads _ _ _ _ (if noUpstreamTls then _ else _)
      split
      · rename_i htls
        exact initial_leads ⟨h.1.trans (by rw [if_pos htls]), by rw [htls]; rfl⟩ h.2
      · rename_i htls
        exact ⟨h.1, by simpa using htls, h.2⟩
    | error e => exact failed_leads e
  | probe client initial =>
    cases result with
    | ok bytes =>
      obtain ⟨rfl, htls, hleads⟩ := h
      exact ⟨rfl, htls, hleads⟩
    | error e => exact failed_leads e
  | reply client initial =>
    obtain ⟨hprobe, rfl, hleads⟩ := h
    have hplain : reply ≠ some acceptByte → Settled false reply probe .plain := fun hreply =>
      ⟨hprobe, by simp [hreply]⟩
    cases result with
    | ok bytes =>
      have hbytes : some bytes = reply.map fun byte => [byte] := hresult
      obtain ⟨byte, rfl, rfl⟩ := Option.map_eq_some_iff.mp hbytes.symm
      show Continues.Leads _ _ _ _ (if [byte] = [acceptByte] then _ else _)
      split
      · rename_i haccepts
        obtain rfl : byte = acceptByte := by simpa using haccepts
        exact ⟨⟨hprobe, rfl⟩, hleads⟩
      · rename_i hrefuses
        exact initial_leads (hplain (by simpa using hrefuses)) hleads
    | error e =>
      obtain rfl : reply = none := hresult
      exact initial_leads (hplain (by decide)) hleads
  | connectTls client initial =>
    cases result with
    | ok bytes => exact initial_leads h.1 h.2
    | error e => exact failed_leads e
  | forward client server initial =>
    cases result with
    | ok bytes =>
      obtain ⟨hsettled, hleads⟩ := h
      exact pumps_leads hsettled hleads
    | error e => exact failed_leads e

/-- What has been told so far is a beginning of what is told. -/
theorem Setup.Foresees.told {s : Setup} (h : s.Foresees noUpstreamTls reply sent handled) :
    s.replies <+: handled.told.1 ∧ s.probe <+: handled.told.2 := by
  have hopened : ∀ replies initial client, handled = .relay (openedOf noUpstreamTls reply sent replies initial client) →
      handled.told = (replies, if noUpstreamTls then [] else sslRequest) := by
    intro replies initial client hleads
    rw [hleads]
    rfl
  obtain ⟨await, replies, probe⟩ := s
  cases await with
  | head =>
    obtain ⟨rfl, rfl, _⟩ := h
    exact ⟨List.nil_prefix, List.nil_prefix⟩
  | cancelConnect head =>
    obtain ⟨rfl, rfl, _⟩ := h
    exact ⟨List.nil_prefix, List.nil_prefix⟩
  | cancelWrite head =>
    obtain ⟨rfl, rfl, _⟩ := h
    exact ⟨List.nil_prefix, List.nil_prefix⟩
  | answer byte client =>
    obtain ⟨rfl, hleads⟩ := h
    rw [hopened _ _ _ hleads]
    exact ⟨List.prefix_append .., List.nil_prefix⟩
  | accept =>
    obtain ⟨rfl, hleads⟩ := h
    rw [hopened _ _ _ hleads]
    exact ⟨List.prefix_refl _, List.nil_prefix⟩
  | connect client initial =>
    obtain ⟨rfl, hleads⟩ := h
    rw [hopened _ _ _ hleads]
    exact ⟨List.prefix_refl _, List.nil_prefix⟩
  | probe client initial =>
    obtain ⟨rfl, _, hleads⟩ := h
    rw [hopened _ _ _ hleads]
    exact ⟨List.prefix_refl _, List.nil_prefix⟩
  | reply client initial =>
    obtain ⟨rfl, rfl, hleads⟩ := h
    rw [hopened _ _ _ hleads]
    exact ⟨List.prefix_refl _, List.prefix_refl _⟩
  | connectTls client initial =>
    obtain ⟨⟨rfl, _⟩, hleads⟩ := h
    rw [hopened _ _ _ hleads]
    exact ⟨List.prefix_refl _, List.prefix_refl _⟩
  | forward client server initial =>
    obtain ⟨⟨rfl, _⟩, hleads⟩ := h
    rw [hopened _ _ _ hleads]
    exact ⟨List.prefix_refl _, List.prefix_refl _⟩

end Steps

/-- From one await to the next. -/
def Resumes (noUpstreamTls : Bool) (reply : Option UInt8) (sent : Bytes) (s s' : Setup) : Prop :=
  ∃ result, s.await.Supplied reply sent result ∧ s.resume noUpstreamTls result = .await s'

/-- **Every setup keeps the course.** -/
theorem resumes_foresees {noUpstreamTls : Bool} {reply : Option UInt8} {sent : Bytes} {s : Setup}
    (h : ReflTransGen (Resumes noUpstreamTls reply sent) Setup.start s) :
    s.Foresees noUpstreamTls reply sent (handleConnection noUpstreamTls reply sent) := by
  induction h with
  | refl => exact ⟨rfl, rfl, rfl⟩
  | tail _ hstep ih =>
    obtain ⟨result, hresult, hnext⟩ := hstep
    have hleads := resume_leads ih hresult
    rwa [hnext] at hleads

/-- How many awaits are left at most. -/
def Await.left : Await → ℕ
  | .head => 8
  | .cancelConnect _ => 2
  | .cancelWrite _ => 1
  | .answer .. => 7
  | .accept => 6
  | .connect .. => 5
  | .probe .. => 4
  | .reply .. => 3
  | .connectTls .. => 2
  | .forward .. => 1

/-- What follows is over, or has fewer awaits left. -/
def Continues.Nearer (n : ℕ) : Continues → Prop
  | .await next => next.await.left < n
  | .returned (some _) => False
  | _ => True

theorem initial_nearer {s : Setup} {client server : ProxyStream} {initial : Bytes} {n : ℕ} (hn : 1 < n) :
    (s.initial client server initial).Nearer n := by
  rw [Setup.initial]
  split
  · trivial
  · exact hn

/-- Each await can end without an error. -/
theorem resume_nearer (noUpstreamTls : Bool) (reply : Option UInt8) (sent : Bytes) (s : Setup) :
    ∃ result, s.await.Supplied reply sent result ∧ (s.resume noUpstreamTls result).Nearer s.await.left := by
  obtain ⟨await, replies, probe⟩ := s
  cases await with
  | head =>
    by_cases hlong : 8 ≤ sent.length
    · refine ⟨.ok (sent.take 8), ⟨hlong, rfl⟩, ?_⟩
      show Continues.Nearer _ (if (sent.take 8).drop 4 = cancelMagic then _ else _)
      split
      · exact (by decide : 2 < 8)
      · split
        · exact (by decide : 7 < 8)
        · split
          · exact (by decide : 7 < 8)
          · exact (by decide : 5 < 8)
    · exact ⟨.error "", Nat.lt_of_not_le hlong, trivial⟩
  | answer byte client =>
    refine ⟨.ok [], rfl, ?_⟩
    cases client with
    | plain => exact (by decide : 5 < 7)
    | tls => exact (by decide : 6 < 7)
  | connect client initial =>
    refine ⟨.ok [], rfl, ?_⟩
    show Continues.Nearer _ (if noUpstreamTls then _ else _)
    split
    · exact initial_nearer (by decide : 1 < 5)
    · exact (by decide : 4 < 5)
  | reply client initial =>
    cases reply with
    | none => exact ⟨.error "", rfl, initial_nearer (by decide : 1 < 3)⟩
    | some byte =>
      refine ⟨.ok [byte], rfl, ?_⟩
      show Continues.Nearer _ (if [byte] = [acceptByte] then _ else _)
      split
      · exact (by decide : 2 < 3)
      · exact initial_nearer (by decide : 1 < 3)
  | connectTls client initial => exact ⟨.ok [], rfl, initial_nearer (by decide : 1 < 2)⟩
  | cancelConnect head => exact ⟨.ok [], rfl, (by decide : 1 < 2)⟩
  | cancelWrite head => exact ⟨.ok [], rfl, trivial⟩
  | accept => exact ⟨.ok [], rfl, (by decide : 5 < 6)⟩
  | probe client initial => exact ⟨.ok [], rfl, (by decide : 3 < 4)⟩
  | forward client server initial => exact ⟨.ok [], rfl, trivial⟩

/-- Without an error, a setup comes to its end. -/
theorem setup_completes (noUpstreamTls : Bool) (reply : Option UInt8) (sent : Bytes) (n : ℕ) :
    ∀ s : Setup, s.await.left ≤ n → ∃ s' result, ReflTransGen (Resumes noUpstreamTls reply sent) s s' ∧
      s'.await.Supplied reply sent result ∧
      ∃ h, (s'.resume noUpstreamTls result).handled (sent.drop 8) = some h := by
  induction n with
  | zero =>
    intro s hn
    cases hawait : s.await <;> rw [hawait] at hn <;> cases hn
  | succ n ih =>
    intro s hn
    obtain ⟨result, hresult, hnearer⟩ := resume_nearer noUpstreamTls reply sent s
    cases hcont : s.resume noUpstreamTls result with
    | await next =>
      rw [hcont] at hnearer
      have hlt : next.await.left < s.await.left := hnearer
      obtain ⟨s', result', hreach, hend⟩ := ih next (by omega)
      exact ⟨s', result', .head ⟨result, hresult, hcont⟩ hreach, hend⟩
    | rawRelay head => exact ⟨s, result, .refl, hresult, _, by rw [hcont]; rfl⟩
    | pumps replies probe initial client server => exact ⟨s, result, .refl, hresult, _, by rw [hcont]; rfl⟩
    | returned error =>
      cases error with
      | none => exact ⟨s, result, .refl, hresult, _, by rw [hcont]; rfl⟩
      | some e =>
        rw [hcont] at hnearer
        exact hnearer.elim

/-- A setup that ends without an error ends where `handleConnection` does. -/
theorem setup_ends {noUpstreamTls : Bool} {reply : Option UInt8} {sent : Bytes} {s : Setup}
    (hreach : ReflTransGen (Resumes noUpstreamTls reply sent) Setup.start s) {result : Except String Bytes}
    (hresult : s.await.Supplied reply sent result) {h : Handled}
    (hh : (s.resume noUpstreamTls result).handled (sent.drop 8) = some h) :
    h = handleConnection noUpstreamTls reply sent := by
  have hleads := resume_leads (resumes_foresees hreach) hresult
  generalize s.resume noUpstreamTls result = c at hh hleads
  cases c with
  | await next => cases hh
  | rawRelay head => exact hleads h hh
  | pumps replies probe initial client server => exact hleads h hh
  | returned error => cases error <;> exact hleads h hh

/-- **The setup refines `handleConnection`.**  Whatever awaits have failed or not, the proxy has told the
peers a beginning of what it tells them there, and a setup that ends without an error to report ends there;
and one can. -/
theorem setup_refines (noUpstreamTls : Bool) (reply : Option UInt8) (sent : Bytes) :
    (∀ s result, ReflTransGen (Resumes noUpstreamTls reply sent) Setup.start s →
      s.await.Supplied reply sent result →
      s.replies <+: (handleConnection noUpstreamTls reply sent).told.1 ∧
        s.probe <+: (handleConnection noUpstreamTls reply sent).told.2 ∧
        ∀ h, (s.resume noUpstreamTls result).handled (sent.drop 8) = some h →
          h = handleConnection noUpstreamTls reply sent) ∧
      ∃ s result, ReflTransGen (Resumes noUpstreamTls reply sent) Setup.start s ∧
        s.await.Supplied reply sent result ∧
        (s.resume noUpstreamTls result).handled (sent.drop 8)
          = some (handleConnection noUpstreamTls reply sent) := by
  refine ⟨fun s result hreach hresult => ?_, ?_⟩
  · obtain ⟨hreplies, hprobe⟩ := (resumes_foresees hreach).told
    exact ⟨hreplies, hprobe, fun h hh => setup_ends hreach hresult hh⟩
  · obtain ⟨s, result, hreach, hresult, h, hh⟩ :=
      setup_completes noUpstreamTls reply sent 8 Setup.start (Nat.le_refl _)
    exact ⟨s, result, hreach, hresult, by rw [hh, setup_ends hreach hresult hh]⟩

end Tapgres.Proxy
