import Tapgres.Flow.Accounting

/-!
# Opening and closing over a run

A FIN leaves the entry of a connection in the table, marked closed, where it absorbs what trails behind;
an RST removes the entry, so that the next segment of the same connection opens a new one.  A run of one
connection, from the client's SYN on, is followed through its phases (`Phase`):

* `table_handle_phase` — one segment moves the run to its next phase;
* `no_phantom_iff` — exactly one connection is opened, and none is live after the close, in exactly the
  runs in which nothing comes after an RST and all segments fall under one key;
* `segments_after_reset` — a run that opens a second connection.
-/

namespace Tapgres.Flow

open Tapgres.Net Tapgres.Pgwire Tapgres.Decode Tapgres.State Tapgres.Lib.Run

/-! ### Runs of one connection -/

/-- The run of a fresh table over segments. -/
def tableRun (pg : Decoder) (pgPort : UInt16) (connectionCap : ℕ) (segs : List TcpSegment) : ConnTable :=
  (run (ConnTable.handle pg pgPort) (ConnTable.withMetrics (Metrics.withLimits connectionCap)) segs).1

/-- The segment is a FIN or an RST. -/
def closes (seg : TcpSegment) : Bool := seg.fin || seg.rst

/-- No SYN after the first FIN or RST. -/
def NoSynAfterClose (segs : List TcpSegment) : Prop :=
  segs.Pairwise fun a b => closes a = true → b.syn = false

/-- The segment travels from `a` to `b`. -/
def Travels (a b : Endpoint) (seg : TcpSegment) : Prop :=
  (seg.src, seg.srcPort) = a ∧ (seg.dst, seg.dstPort) = b

/-- Segments of one 4-tuple whose server owns the watched port, beginning with the client's SYN, with no
SYN after the first FIN or RST of either side. -/
structure OneConnection (pgPort : UInt16) (client server : Endpoint) (syn : TcpSegment)
    (rest : List TcpSegment) : Prop where
  port : server.2 = pgPort
  first : Travels client server syn ∧ syn.syn = true
  tuple : ∀ seg ∈ rest, Travels client server seg ∨ Travels server client seg
  noSyn : NoSynAfterClose (syn :: rest)

/-- Exactly one connection is ever opened, and from the first FIN or RST on none is live. -/
def NoPhantom (pg : Decoder) (pgPort : UInt16) (connectionCap : ℕ) (segs : List TcpSegment) : Prop :=
  (tableRun pg pgPort connectionCap segs).metrics.connsOpened = 1 ∧
    ∀ pre post, segs = pre ++ post → (∃ seg ∈ pre, closes seg = true) →
      (tableRun pg pgPort connectionCap pre).metrics.connsLive = 0

/-! ### One segment -/

/-- What a call does to the number of connections opened: it grows when an entry has to be opened. -/
theorem table_handle_opened (pg : Decoder) {pgPort : UInt16} (t : ConnTable) {seg : TcpSegment}
    {key : ConnKey} (hkey : connKey seg pgPort = some key) :
    (t.handle pg pgPort seg).1.metrics.connsOpened
      = t.metrics.connsOpened + if t.shouldOpen key seg then 1 else 0 := by
  obtain ⟨conn, hconn⟩ := admit_lookup t key pgPort seg
  obtain ⟨closing, _, hsettled⟩ := table_handle_cases pg t hkey hconn
  obtain ⟨_, _, hopened, _, _⟩ := handle_kept pg pgPort conn (t.admitSegment key pgPort seg).1.metrics seg
  have hsame : (t.handle pg pgPort seg).1.metrics.connsOpened
      = (t.admitSegment key pgPort seg).1.metrics.connsOpened := by
    rw [← hopened]
    generalize (t.handle pg pgPort seg).1 = t' at hsettled
    cases hsettled <;> simp
  rw [hsame, ConnTable.admitSegment]
  split <;> rfl

/-- Only the entry of its own key is touched by a segment. -/
theorem table_handle_lookup_ne (pg : Decoder) {pgPort : UInt16} (t : ConnTable) {seg : TcpSegment}
    {k : ConnKey} (hkey : connKey seg pgPort ≠ some k) :
    (t.handle pg pgPort seg).1.map.lookup k = t.map.lookup k := by
  cases hseg : connKey seg pgPort with
  | none => rw [table_handle_none pg t hseg]
  | some key =>
    have hne : k ≠ key := by
      rintro rfl
      exact hkey hseg
    obtain ⟨conn, hconn⟩ := admit_lookup t key pgPort seg
    obtain ⟨closing, _, hsettled⟩ := table_handle_cases pg t hseg hconn
    have hadm : (t.admitSegment key pgPort seg).1.map.lookup k = t.map.lookup k := by
      rcases admit_cases t key pgPort seg with ⟨_, _, _, h⟩ | ⟨_, h⟩ <;> rw [h]
      exact openEntry_lookup_ne t hne
    rw [← hadm]
    generalize (t.handle pg pgPort seg).1 = t' at hsettled
    cases hsettled with
    | reset rst => exact AList.lookup_erase_ne hne
    | closed rst fin live => exact AList.lookup_insert_ne hne
    | kept rst fin => exact AList.lookup_insert_ne hne

/-- After an RST the entry is gone. -/
theorem table_handle_reset (pg : Decoder) {pgPort : UInt16} (t : ConnTable) {seg : TcpSegment}
    {key : ConnKey} (hkey : connKey seg pgPort = some key) (hrst : seg.rst = true) :
    (t.handle pg pgPort seg).1.map.lookup key = none := by
  obtain ⟨conn, hconn⟩ := admit_lookup t key pgPort seg
  obtain ⟨closing, _, hsettled⟩ := table_handle_cases pg t hkey hconn
  generalize (t.handle pg pgPort seg).1 = t' at hsettled
  cases hsettled with
  | reset rst => simp
  | closed rst fin live => rw [hrst] at rst; cases rst
  | kept rst fin => rw [hrst] at rst; cases rst

/-! ### Phases -/

/-- The entry of `key` is there, its mark and its lifecycle agree, and the metrics have opened one
connection, `live` of which is live. -/
structure Entry (t : ConnTable) (key : ConnKey) (closed : Bool) : Prop where
  opened : t.metrics.connsOpened = 1
  live : t.metrics.connsLive = if closed then 0 else 1
  conn : ∃ conn, t.map.lookup key = some conn ∧ conn.metricsClosed = closed ∧
    t.metrics.lifecycleOf conn.stats = some (if closed then .closed else .opened)

/-- Where a run of one connection is, given the segments handled so far. -/
inductive Phase (key : ConnKey) (past : List TcpSegment) (t : ConnTable) : Prop
  | fresh (start : past = []) (lookup : t.map.lookup key = none) (opened : t.metrics.connsOpened = 0)
      (live : t.metrics.connsLive = 0)
  | live (open_ : ∀ s ∈ past, closes s = false) (entry : Entry t key false)
  | tombstone (closed : ∃ s ∈ past, closes s = true) (entry : Entry t key true)
  | gone (reset : ∃ s ∈ past, s.rst = true) (opened : t.metrics.connsOpened = 1)
      (live : t.metrics.connsLive = 0)

/-- A segment handled by a live entry: it stays, turns into a tombstone, or goes. -/
theorem settled_live {t t' : ConnTable} {key : ConnKey} {conn : Connection} {metrics : Metrics}
    {seg : TcpSegment} {closing : List Event} {past : List TcpSegment}
    (h : Settled t key conn metrics seg t' closing) (hpast : ∀ s ∈ past, closes s = false)
    (hclosed : conn.metricsClosed = false) (hlife : metrics.lifecycleOf conn.stats = some .opened)
    (hopened : metrics.connsOpened = 1) (hlive : metrics.connsLive = 1) :
    Phase key (past ++ [seg]) t' := by
  obtain ⟨hlive', hlife'⟩ := closeConnection_of_opened hlife
  cases h with
  | reset rst => exact .gone ⟨seg, by simp, rst⟩ (by simpa using hopened) (by simp [hlive', hlive])
  | closed rst fin live =>
    exact .tombstone ⟨seg, by simp, by simp [closes, fin]⟩ ⟨by simpa using hopened, by simp [hlive', hlive], _,
      AList.lookup_insert _, rfl, hlife'⟩
  | kept rst fin =>
    refine .live (fun s hs => ?_) ⟨hopened, hlive, conn, AList.lookup_insert _, hclosed, hlife⟩
    rcases List.mem_append.mp hs with hs | hs
    · exact hpast s hs
    · have hfin : seg.fin = false := by
        apply Bool.eq_false_iff.mpr
        intro hfin
        rw [hclosed] at fin
        cases fin hfin
      rw [List.mem_singleton.mp hs, closes, hfin, rst]
      rfl

/-- A segment handled by a tombstone: it stays, or goes. -/
theorem settled_tombstone {t t' : ConnTable} {key : ConnKey} {conn : Connection} {metrics : Metrics}
    {seg : TcpSegment} {closing : List Event} {past : List TcpSegment}
    (h : Settled t key conn metrics seg t' closing) (hpast : ∃ s ∈ past, closes s = true)
    (hclosed : conn.metricsClosed = true) (hlife : metrics.lifecycleOf conn.stats = some .closed)
    (hopened : metrics.connsOpened = 1) (hlive : metrics.connsLive = 0) :
    Phase key (past ++ [seg]) t' := by
  cases h with
  | reset rst =>
    rw [closeConnection_of_closed hlife]
    exact .gone ⟨seg, by simp, rst⟩ hopened hlive
  | closed rst fin live =>
    rw [hclosed] at live
    cases live
  | kept rst fin =>
    obtain ⟨s, hs, hcloses⟩ := hpast
    exact .tombstone ⟨s, List.mem_append_left _ hs, hcloses⟩
      ⟨hopened, hlive, conn, AList.lookup_insert _, hclosed, hlife⟩

/-- **The step lemma.**  A segment of the connection's key that comes after no RST, and is a SYN only
before the close, moves the run to its next phase. -/
theorem table_handle_phase (pg : Decoder) {pgPort : UInt16} {t : ConnTable} {key : ConnKey}
    {past : List TcpSegment} (h : Phase key past t) {seg : TcpSegment}
    (hkey : connKey seg pgPort = some key) (hreset : ∀ s ∈ past, s.rst = false)
    (hsyn : (∃ s ∈ past, closes s = true) → seg.syn = false) :
    Phase key (past ++ [seg]) (t.handle pg pgPort seg).1 := by
  obtain ⟨conn, hconn⟩ := admit_lookup t key pgPort seg
  obtain ⟨closing, _, hsettled⟩ := table_handle_cases pg t hkey hconn
  obtain ⟨hstats, hmark, hopened', hlive', hlife'⟩ :=
    handle_kept pg pgPort conn (t.admitSegment key pgPort seg).1.metrics seg
  -- the entry found there before, if it is not opened afresh
  have hkept : ∀ {c}, t.map.lookup key = some c → ¬(seg.syn = true ∧ c.metricsClosed = true) →
      (t.admitSegment key pgPort seg).1 = t ∧ conn = c := by
    intro c hc hno
    have hadm : t.admitSegment key pgPort seg = (t, []) := by
      rcases admit_cases t key pgPort seg with ⟨_, _, _, h⟩ | ⟨hopen, _⟩
      · exact h
      · rw [ConnTable.shouldOpen, hc] at hopen
        exact absurd (Bool.and_eq_true_iff.mp hopen) hno
    rw [hadm] at hconn ⊢
    exact ⟨rfl, Option.some.inj (hconn.symm.trans hc)⟩
  cases h with
  | fresh hnil hlookup hopened hlive =>
    subst hnil
    have hadm : (t.admitSegment key pgPort seg).1 = t.openEntry key := by
      rcases admit_cases t key pgPort seg with ⟨_, hc, _⟩ | ⟨_, h⟩
      · rw [hlookup] at hc
        cases hc
      · rw [h]
    rw [hadm] at hsettled hopened' hlive' hlife' hstats hmark hconn
    cases Option.some.inj ((openEntry_lookup t key).symm.trans hconn)
    refine settled_live hsettled (by simp) hmark ?_ ?_ ?_
    · rw [hstats, hlife']
      exact openConnection_lifecycleOf t.metrics _ _ false
    · rw [hopened']
      show t.metrics.connsOpened + 1 = 1
      rw [hopened]
    · rw [hlive']
      show t.metrics.connsLive + 1 = 1
      rw [hlive]
      rfl
  | live hopen hentry =>
    obtain ⟨hopened, hlive, c, hc, hclosed, hlife⟩ := hentry
    obtain ⟨hsame, rfl⟩ := hkept hc (by rw [hclosed]; simp)
    rw [hsame] at hsettled hopened' hlive' hlife' hstats hmark
    exact settled_live hsettled hopen (hmark.trans hclosed) (by rw [hstats, hlife', hlife]; rfl)
      (hopened'.trans hopened) (hlive'.trans hlive)
  | tombstone hpast hentry =>
    obtain ⟨hopened, hlive, c, hc, hclosed, hlife⟩ := hentry
    obtain ⟨hsame, rfl⟩ := hkept hc (by rw [hsyn hpast]; simp)
    rw [hsame] at hsettled hopened' hlive' hlife' hstats hmark
    exact settled_tombstone hsettled hpast (hmark.trans hclosed) (by rw [hstats, hlife', hlife]; rfl)
      (hopened'.trans hopened) (hlive'.trans hlive)
  | gone hgone _ _ =>
    obtain ⟨s, hs, hrst⟩ := hgone
    rw [hreset s hs] at hrst
    cases hrst

/-! ### Whole runs -/

/-- All segments fall under one key, nothing comes after an RST, and no SYN after a close. -/
structure Orderly (pgPort : UInt16) (key : ConnKey) (segs : List TcpSegment) : Prop where
  key : ∀ s ∈ segs, connKey s pgPort = some key
  reset : ∀ s ∈ segs.dropLast, s.rst = false
  noSyn : NoSynAfterClose segs

theorem Orderly.prefix_of {pgPort : UInt16} {key : ConnKey} {segs more : List TcpSegment}
    (h : Orderly pgPort key (segs ++ more)) : Orderly pgPort key segs := by
  refine ⟨fun s hs => h.key s (List.mem_append_left _ hs), fun s hs => h.reset s ?_,
    (List.pairwise_append.mp h.noSyn).1⟩
  rcases eq_or_ne more [] with rfl | hne
  · rwa [List.append_nil]
  · rw [List.dropLast_append_of_ne_nil hne]
    exact List.mem_append_left _ (List.mem_of_mem_dropLast hs)

/-- What an orderly run asks of its last segment. -/
theorem Orderly.last {pgPort : UInt16} {key : ConnKey} {past : List TcpSegment} {seg : TcpSegment}
    (h : Orderly pgPort key (past ++ [seg])) :
    connKey seg pgPort = some key ∧ (∀ s ∈ past, s.rst = false) ∧
      ((∃ s ∈ past, closes s = true) → seg.syn = false) := by
  refine ⟨h.key seg (by simp), fun s hs => h.reset s (by rwa [List.dropLast_concat]), ?_⟩
  rintro ⟨s, hs, hcloses⟩
  exact (List.pairwise_append.mp h.noSyn).2.2 s hs seg (List.mem_singleton_self _) hcloses

/-- **The run lemma.**  An orderly run passes through the phases. -/
theorem tableRun_phase (pg : Decoder) {pgPort : UInt16} (connectionCap : ℕ) {key : ConnKey}
    {segs : List TcpSegment} (h : Orderly pgPort key segs) :
    Phase key segs (tableRun pg pgPort connectionCap segs) := by
  have hstart : Phase key [] (ConnTable.withMetrics (Metrics.withLimits connectionCap)) :=
    .fresh rfl rfl rfl rfl
  have hrun := run_invariant (ConnTable.handle pg pgPort)
    (fun past t _ => Orderly pgPort key past → Phase key past t)
    (fun _ => hstart)
    (fun past t _ seg hphase horderly => by
      obtain ⟨hkey, hreset, hsyn⟩ := horderly.last
      exact table_handle_phase pg (hphase horderly.prefix_of) hkey hreset hsyn)
    segs
  exact hrun h

/-- Nothing is ever taken back from the count of opened connections. -/
theorem run_opened_mono (pg : Decoder) (pgPort : UInt16) (t : ConnTable) (segs : List TcpSegment) :
    t.metrics.connsOpened ≤ (run (ConnTable.handle pg pgPort) t segs).1.metrics.connsOpened := by
  induction segs generalizing t with
  | nil => exact le_refl _
  | cons seg segs ih =>
    refine le_trans ?_ (ih _)
    cases hkey : connKey seg pgPort with
    | none => rw [table_handle_none pg t hkey]
    | some key =>
      rw [table_handle_opened pg t hkey]
      exact Nat.le_add_right _ _

/-- A key that no segment has fallen under has no entry. -/
theorem run_lookup_none (pg : Decoder) {pgPort : UInt16} {k : ConnKey} {t : ConnTable}
    (ht : t.map.lookup k = none) {segs : List TcpSegment} (h : ∀ s ∈ segs, connKey s pgPort ≠ some k) :
    (run (ConnTable.handle pg pgPort) t segs).1.map.lookup k = none := by
  induction segs generalizing t with
  | nil => exact ht
  | cons seg segs ih =>
    refine ih ?_ fun s hs => h s (List.mem_cons_of_mem _ hs)
    rw [table_handle_lookup_ne pg t (h seg List.mem_cons_self), ht]

/-- Where the entry is missing, the next segment of the key opens one more connection. -/
theorem tableRun_opens (pg : Decoder) {pgPort : UInt16} (connectionCap : ℕ) {key : ConnKey}
    {pre : List TcpSegment} {seg : TcpSegment} (post : List TcpSegment)
    (hlookup : (tableRun pg pgPort connectionCap pre).map.lookup key = none)
    (hkey : connKey seg pgPort = some key) :
    (tableRun pg pgPort connectionCap pre).metrics.connsOpened + 1
      ≤ (tableRun pg pgPort connectionCap (pre ++ seg :: post)).metrics.connsOpened := by
  have hopened := table_handle_opened pg (tableRun pg pgPort connectionCap pre) hkey
  rw [ConnTable.shouldOpen, hlookup] at hopened
  have hrun : tableRun pg pgPort connectionCap (pre ++ seg :: post)
      = (run (ConnTable.handle pg pgPort)
          ((tableRun pg pgPort connectionCap pre).handle pg pgPort seg).1 post).1 := by
    rw [tableRun, run_append, run_cons]
    rfl
  rw [hrun]
  exact hopened ▸ run_opened_mono pg pgPort _ post

theorem OneConnection.connKey_first {pgPort : UInt16} {client server : Endpoint} {syn : TcpSegment}
    {rest : List TcpSegment} (h : OneConnection pgPort client server syn rest) :
    connKey syn pgPort = some ⟨client, server⟩ := by
  obtain ⟨⟨hsrc, hdst⟩, _⟩ := h.first
  have hport : syn.dstPort = pgPort := by
    rw [← h.port, ← hdst]
  rw [connKey, if_pos hport, hsrc, hdst]

/-- Every segment of the connection falls under some key. -/
theorem OneConnection.connKey_rest {pgPort : UInt16} {client server : Endpoint} {syn : TcpSegment}
    {rest : List TcpSegment} (h : OneConnection pgPort client server syn rest) {seg : TcpSegment}
    (hseg : seg ∈ rest) : ∃ key, connKey seg pgPort = some key := by
  have hport := h.port
  rw [connKey]
  rcases h.tuple seg hseg with ⟨_, hdst⟩ | ⟨hsrc, _⟩
  · exact ⟨_, if_pos (by rw [← hport, ← hdst])⟩
  · split
    · exact ⟨_, rfl⟩
    · exact ⟨_, if_pos (by rw [← hport, ← hsrc])⟩

section OneOpened

variable {pg : Decoder} {pgPort : UInt16} {connectionCap : ℕ} {client server : Endpoint} {syn : TcpSegment}
  {rest : List TcpSegment} (h : OneConnection pgPort client server syn rest)
  (hone : (tableRun pg pgPort connectionCap (syn :: rest)).metrics.connsOpened = 1)

include h hone

/-- Where one connection is opened in all, a segment behind another one finds its entry. -/
theorem lookup_of_one_opened {pre post : List TcpSegment} {seg : TcpSegment} {key : ConnKey}
    (heq : syn :: rest = pre ++ seg :: post) (hne : pre ≠ []) (hkey : connKey seg pgPort = some key) :
    (tableRun pg pgPort connectionCap pre).map.lookup key ≠ none := by
  intro hnone
  -- the first segment has opened one, and this one opens another
  have hsyn : 1 ≤ (tableRun pg pgPort connectionCap [syn]).metrics.connsOpened :=
    @tableRun_opens pg _ connectionCap _ [] syn [] rfl h.connKey_first
  have hopen : 1 ≤ (tableRun pg pgPort connectionCap pre).metrics.connsOpened := by
    cases pre with
    | nil => exact absurd rfl hne
    | cons a pre =>
      obtain ⟨rfl, _⟩ := List.cons.inj heq
      exact hsyn.trans (run_opened_mono pg pgPort _ pre)
  have htwo := tableRun_opens pg connectionCap post hnone hkey
  rw [← heq, hone] at htwo
  omega

/-- Where one connection is opened in all, every segment belongs to it. -/
theorem connKey_of_one_opened {seg : TcpSegment} (hseg : seg ∈ rest) :
    connKey seg pgPort = connKey syn pgPort := by
  by_contra hne
  obtain ⟨key, hkey⟩ := h.connKey_rest hseg
  rw [hkey, h.connKey_first] at hne
  -- the first segment under the other key finds no entry
  have hsome : ((syn :: rest).find? fun s => connKey s pgPort == some key).isSome :=
    List.find?_isSome.mpr ⟨seg, List.mem_cons_of_mem _ hseg, by simp [hkey]⟩
  obtain ⟨s, hs⟩ := Option.isSome_iff_exists.mp hsome
  obtain ⟨hskey, pre, post, heq, hpre⟩ := List.find?_eq_some_iff_append.mp hs
  have hpre_ne : pre ≠ [] := by
    rintro rfl
    obtain ⟨rfl, _⟩ := List.cons.inj heq
    rw [beq_iff_eq, h.connKey_first] at hskey
    exact hne hskey.symm
  have hnone : (tableRun pg pgPort connectionCap pre).map.lookup key = none :=
    run_lookup_none pg rfl fun s' hs' hk => by simpa [hk] using hpre s' hs'
  exact lookup_of_one_opened h hone heq hpre_ne (by simpa using hskey) hnone

/-- Where one connection is opened in all, no RST stands in front of another segment: it would remove the
entry. -/
theorem no_reset_of_one_opened {r : TcpSegment} (hr : r ∈ (syn :: rest).dropLast) : r.rst = false := by
  refine Bool.eq_false_iff.mpr fun hrst => ?_
  have hkey : ∀ x ∈ syn :: rest, connKey x pgPort = some ⟨client, server⟩ := by
    intro x hx
    rcases List.mem_cons.mp hx with rfl | hx
    · exact h.connKey_first
    · rw [connKey_of_one_opened h hone hx, h.connKey_first]
  obtain ⟨pre, mid, hmid⟩ := List.append_of_mem hr
  obtain ⟨s, post, hbehind⟩ :=
    List.exists_cons_of_ne_nil (l := mid ++ [(syn :: rest).getLast (List.cons_ne_nil _ _)]) (by simp)
  have heq : syn :: rest = (pre ++ [r]) ++ s :: post := by
    rw [← hbehind]
    conv_lhs => rw [← List.dropLast_append_getLast (List.cons_ne_nil syn rest), hmid]
    simp
  have hnone : (tableRun pg pgPort connectionCap (pre ++ [r])).map.lookup ⟨client, server⟩ = none := by
    rw [tableRun, run_append, run_singleton]
    exact table_handle_reset pg _ (hkey r (by rw [heq]; simp)) hrst
  exact lookup_of_one_opened h hone heq (by simp) (hkey s (by rw [heq]; simp)) hnone

end OneOpened

/-- An orderly run opens its connection once, and leaves none live behind a FIN or RST. -/
theorem noPhantom_of_orderly {pg : Decoder} {pgPort : UInt16} {connectionCap : ℕ} {key : ConnKey}
    {syn : TcpSegment} {rest : List TcpSegment} (horderly : Orderly pgPort key (syn :: rest)) :
    NoPhantom pg pgPort connectionCap (syn :: rest) := by
  constructor
  · cases tableRun_phase pg connectionCap horderly with
    | fresh start _ _ _ => cases start
    | live _ entry => exact entry.opened
    | tombstone _ entry => exact entry.opened
    | gone _ opened _ => exact opened
  · rintro pre post heq ⟨seg, hseg, hcloses⟩
    rw [heq] at horderly
    cases tableRun_phase pg connectionCap horderly.prefix_of with
    | fresh start _ _ live => exact live
    | live open_ _ =>
      rw [open_ seg hseg] at hcloses
      cases hcloses
    | tombstone _ entry => exact entry.live
    | gone _ _ live => exact live

/-- **No phantom connection**, exactly when nothing comes after an RST and all segments fall under the
key of the first (they do, unless the client's port is the watched port as well). -/
theorem no_phantom_iff (pg : Decoder) (pgPort : UInt16) (connectionCap : ℕ) (client server : Endpoint)
    (syn : TcpSegment) (rest : List TcpSegment) (h : OneConnection pgPort client server syn rest) :
    NoPhantom pg pgPort connectionCap (syn :: rest) ↔
      (∀ seg ∈ (syn :: rest).dropLast, seg.rst = false) ∧
        ∀ seg ∈ rest, connKey seg pgPort = connKey syn pgPort := by
  constructor
  · intro hphantom
    exact ⟨fun _ => no_reset_of_one_opened h hphantom.1, fun _ => connKey_of_one_opened h hphantom.1⟩
  · intro hregular
    obtain ⟨hreset, hkeys⟩ := hregular
    have hsame : ∀ s ∈ syn :: rest, connKey s pgPort = some ⟨client, server⟩ := by
      intro s hs
      rcases List.mem_cons.mp hs with rfl | hs
      · exact h.connKey_first
      · rw [hkeys s hs, h.connKey_first]
    exact noPhantom_of_orderly ⟨hsame, hreset, h.noSyn⟩

/-- The client connects and closes; the server closes too, and the client acknowledges. -/
def cleanClose : List TcpSegment :=
  [{ serverSegment 0 [] with syn := true }, { clientSegment 1 [] with fin := true },
    { serverSegment 1 [] with fin := true }, clientSegment 2 []]

theorem no_phantom_cleanClose :
    NoPhantom framed 5432 10 ({ clientSegment 0 [] with syn := true } :: cleanClose) := by
  refine (no_phantom_iff framed 5432 10 (.v4 0x0a000001, 40001) (.v4 0x0a000002, 5432)
    { clientSegment 0 [] with syn := true } cleanClose ⟨rfl, ⟨⟨rfl, rfl⟩, rfl⟩, ?_, ?_⟩).mpr
    ⟨by decide, by decide⟩
  · simp [cleanClose, Travels, clientSegment, serverSegment]
  · simp [cleanClose, NoSynAfterClose, closes, clientSegment, serverSegment]

/-- The client connects; the server resets twice. -/
def repeatedReset : List TcpSegment :=
  [{ serverSegment 1 [] with rst := true }, { serverSegment 1 [] with rst := true }]

/-- **A phantom**: the second RST finds the entry gone, and opens a connection that never was. -/
theorem segments_after_reset :
    OneConnection 5432 (.v4 0x0a000001, 40001) (.v4 0x0a000002, 5432)
        { clientSegment 0 [] with syn := true } repeatedReset ∧
      ¬NoPhantom framed 5432 10 ({ clientSegment 0 [] with syn := true } :: repeatedReset) := by
  refine ⟨⟨rfl, ⟨⟨rfl, rfl⟩, rfl⟩, ?_, ?_⟩, ?_⟩
  · simp [repeatedReset, Travels, serverSegment]
  · simp [repeatedReset, NoSynAfterClose, closes, clientSegment, serverSegment]
  · intro h
    exact absurd h.1 (by decide)

end Tapgres.Flow
