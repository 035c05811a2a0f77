import AgentTransport.Windows
import AgentTransport.ReceiverRun
import AgentTransport.Emission

/-!
# Bitmap and byte counter

A payload is written at its offset, whatever its length, and marks the fragment that the
offset lies in. The bitmap says which bytes of a message are there, and the counter how many,
as long as every payload that is written is the whole of its fragment.
-/
namespace AgentTransport
open ByteString Fragmentation Transition

variable {Addr : Type} [DecidableEq Addr]

/-- The payload is the whole of the fragment in which it is written. -/
def WholeFragment (ps : ℕ) (pkt : Packet) (payload : List UInt8) : Prop :=
  ps ∣ pkt.offset.toNat ∧
    payload.length = fragLen ps pkt.msgLen.toNat (pkt.offset.toNat / ps)

instance (ps : ℕ) (pkt : Packet) (payload : List UInt8) :
    Decidable (WholeFragment ps pkt payload) :=
  inferInstanceAs (Decidable (_ ∧ _))

/-- The positions at which a payload is written. -/
def span (pkt : Packet) (payload : List UInt8) : ℕ × ℕ :=
  (pkt.offset.toNat, pkt.offset.toNat + payload.length)

/-- Every position of `data` lies in one of the ranges. -/
def Filled (data : List UInt8) (ranges : List (ℕ × ℕ)) : Prop :=
  ∀ p < data.length, ∃ r ∈ ranges, r.1 ≤ p ∧ p < r.2

namespace InMsg

/-- The counter stays within the message and says the same as the bitmap. -/
structure Agrees (ps : ℕ) (m : InMsg) : Prop where
  le : m.receivedBytes ≤ m.totalLen
  all_iff : m.receivedBytes = m.totalLen ↔ ∀ b ∈ m.received, b = true
  missing : m.complete = false → ∃ off, m.firstMissingOffset ps = some off

/-- An entry of `len` bytes in which `ranges` were written: they are the fragments that the
bitmap marks, and the counter is the length of these. -/
structure Counts (ps len : ℕ) (ranges : List (ℕ × ℕ)) (m : InMsg) : Prop where
  totalLen : m.totalLen = len
  length_buf : m.buf.length = len
  length_received : m.received.length = count ps len
  receivedBytes : m.receivedBytes = covered ps len m.received
  ranges : ∀ r, r ∈ ranges ↔ ∃ i, m.received[i]? = some true ∧ r = fragRange ps len i

variable {cfg : TransportConfig} {ps len : ℕ} {ranges : List (ℕ × ℕ)} {m m' : InMsg}
  {pkt : Packet} {payload : List UInt8} {now : ℕ}

theorem Counts.new (cfg : TransportConfig) (hpos : 0 < len) (now : ℕ) :
    (InMsg.new cfg len now).Counts cfg.packetSize len [] where
  totalLen := rfl
  length_buf := List.length_replicate
  length_received := by
    have h := count_pos cfg.packetSize_pos hpos
    simp only [InMsg.new, List.length_replicate]
    omega
  receivedBytes := (covered_replicate_false _).symm
  ranges r := by simp [InMsg.new, List.getElem?_replicate]

theorem Counts.of_sameContent (h : m.Counts ps len ranges) (hc : SameContent m m') :
    m'.Counts ps len ranges where
  totalLen := hc.totalLen.trans h.totalLen
  length_buf := by rw [hc.buf, h.length_buf]
  length_received := by rw [hc.received, h.length_received]
  receivedBytes := by rw [hc.receivedBytes, hc.received, h.receivedBytes]
  ranges := by
    rw [hc.received]
    exact h.ranges

/-- What is in the buffer is what the entry reassembles. -/
theorem Counts.rebuilds (h : m.Counts ps len ranges) : m.Rebuilds ps m.buf := by
  obtain rfl := h.length_buf
  exact ⟨h.totalLen, h.length_received, ⟨rfl, fun _ _ => rfl⟩, h.receivedBytes⟩

theorem Counts.all_iff (hps : 0 < ps) (h : m.Counts ps len ranges) :
    m.complete ↔ ∀ b ∈ m.received, b = true := by
  rw [h.rebuilds.complete_iff hps, ← h.rebuilds.length_received]
  constructor
  · intro hall b hb
    obtain ⟨i, hi, rfl⟩ := List.mem_iff_getElem.mp hb
    have hbit := hall i hi
    rw [List.getElem?_eq_getElem hi] at hbit
    exact Option.some.inj hbit
  · intro hall i hi
    rw [List.getElem?_eq_getElem hi, hall _ (List.getElem_mem hi)]

theorem Counts.agrees (hps : 0 < ps) (h : m.Counts ps len ranges) : m.Agrees ps where
  le := h.rebuilds.le
  all_iff := by
    rw [← h.all_iff hps, complete, beq_iff_eq]
  missing hopen := by
    obtain ⟨off, hoff, _⟩ := h.rebuilds.exists_missing hps hopen
    exact ⟨off, hoff⟩

/-- A complete entry was written to everywhere. -/
theorem Counts.filled (hps : 0 < ps) (h : m.Counts ps len ranges) (hc : m.complete) :
    Filled m.buf ranges := by
  intro p hp
  have hbit := (h.rebuilds.complete_iff hps).mp hc (p / ps) (div_lt_count hps hp)
  rw [h.length_buf] at hp
  exact ⟨_, (h.ranges _).mpr ⟨p / ps, hbit, rfl⟩, Nat.div_mul_le_self p ps, lt_fragEnd_div hps hp⟩

/-- Bitmap, counter and buffer go on to agree exactly with the whole fragments. -/
theorem Counts.stored_iff (h : m.Counts cfg.packetSize len ranges) (hlen : pkt.msgLen.toNat = len)
    (hfits : m.Fits cfg pkt payload) (now : ℕ) :
    (m.stored cfg pkt payload now).Counts cfg.packetSize len (span pkt payload :: ranges) ↔
      WholeFragment cfg.packetSize pkt payload := by
  subst hlen
  obtain ⟨hbit, hend⟩ := hfits
  have hi : pkt.offset.toNat / cfg.packetSize < m.received.length :=
    (List.getElem?_eq_some_iff.mp hbit).1
  have hmarked : ∀ j, (m.received.set (pkt.offset.toNat / cfg.packetSize) true)[j]? = some true ↔
      m.received[j]? = some true ∨ j = pkt.offset.toNat / cfg.packetSize := by
    intro j
    rw [List.getElem?_set]
    split_ifs with hj
    · simp [hj]
    · simp [Ne.symm hj]
  constructor
  · intro hs
    have hbytes := hs.receivedBytes
    simp only [stored, covered_set hbit, h.receivedBytes] at hbytes
    obtain ⟨j, -, hj⟩ := (hs.ranges _).mp List.mem_cons_self
    refine ⟨?_, by omega⟩
    rw [show pkt.offset.toNat = j * cfg.packetSize from congrArg Prod.fst hj]
    exact Nat.dvd_mul_left _ _
  · rintro ⟨hdvd, hwhole⟩
    have hlt := lt_fragEnd cfg.packetSize_pos (h.length_received ▸ hi)
    have hspan : span pkt payload = fragRange cfg.packetSize pkt.msgLen.toNat
        (pkt.offset.toNat / cfg.packetSize) := by
      rw [fragLen] at hwhole
      rw [Nat.div_mul_cancel hdvd] at hwhole hlt
      rw [span, fragRange, Nat.div_mul_cancel hdvd, hwhole, Nat.add_sub_cancel' hlt.le]
    constructor
    · exact h.totalLen
    · rw [← h.length_buf] at hend ⊢
      exact length_overwrite hend
    · rw [stored, List.length_set, h.length_received]
    · simp only [stored, covered_set hbit, h.receivedBytes, hwhole]
    · intro r
      simp only [stored, hmarked, List.mem_cons, h.ranges, hspan]
      constructor
      · rintro (rfl | ⟨i, hbit, rfl⟩)
        · exact ⟨_, Or.inr rfl, rfl⟩
        · exact ⟨i, Or.inl hbit, rfl⟩
      · rintro ⟨i, hold | rfl, rfl⟩
        · exact Or.inr ⟨i, hold, rfl⟩
        · exact Or.inl rfl

end InMsg

/-- The payload of a DATA packet is going to be written. -/
def ReceiverCore.Writes (r : ReceiverCore Addr) (src : Addr) (pkt : Packet)
    (payload : List UInt8) (now : ℕ) : Prop :=
  (src, pkt.msgId) ∉ r.completed ∧ r.refuses (src, pkt.msgId) = false ∧ 0 < pkt.msgLen.toNat ∧
    (r.entryFor src pkt now).Fits r.cfg pkt payload

instance (r : ReceiverCore Addr) (src : Addr) (pkt : Packet) (payload : List UInt8) (now : ℕ) :
    Decidable (r.Writes src pkt payload now) :=
  inferInstanceAs (Decidable (_ ∧ _ ∧ _ ∧ _))

/-- All packets of a message state the same length. -/
def ReceiverCall.Consistent (L : MsgKey Addr → ℕ) : ReceiverCall Addr → Prop
  | .handleData src pkt _ _ _ => pkt.msgLen.toNat = L (src, pkt.msgId)
  | .tick _ _ => True

/-- A receiver, the ranges written in the buffer of each entry, and the messages delivered,
each with the ranges that were written in its buffer. -/
structure Tally (Addr : Type) where
  core : ReceiverCore Addr
  written : MsgKey Addr → List (ℕ × ℕ)
  delivered : List (List UInt8 × List (ℕ × ℕ))

namespace Tally

def new (cfg : TransportConfig) : Tally Addr := ⟨ReceiverCore.new cfg, fun _ => [], []⟩

/-- What a call writes in the buffer of a key. -/
def writtenBy (s : Tally Addr) (c : ReceiverCall Addr) (k : MsgKey Addr) : List (ℕ × ℕ) :=
  match c with
  | .handleData src pkt payload now _ =>
    if k = (src, pkt.msgId) ∧ s.core.Writes src pkt payload now then [span pkt payload] else []
  | .tick _ _ => []

/-- The ranges of a key after a call: none without an entry. -/
def record (s : Tally Addr) (c : ReceiverCall Addr) (r' : ReceiverCore Addr) (k : MsgKey Addr) :
    List (ℕ × ℕ) :=
  if k ∈ r'.incoming then s.writtenBy c k ++ s.written k else []

def step (s : Tally Addr) (c : ReceiverCall Addr) : Option (Tally Addr) :=
  (s.core.call c).map fun next =>
    ⟨next.1, s.record c next.1, s.delivered ++ (deliveries next.2).map fun d =>
      (d.2, s.writtenBy c d.1 ++ s.written d.1)⟩

/-- The lengths are those of `L`, and what is written is the whole of its fragment. -/
def Whole (L : MsgKey Addr → ℕ) (s : Tally Addr) (c : ReceiverCall Addr) : Prop :=
  c.Consistent L ∧
    match c with
    | .handleData src pkt payload now _ => s.core.Writes src pkt payload now →
      WholeFragment s.core.cfg.packetSize pkt payload
    | .tick _ _ => True

instance (L : MsgKey Addr → ℕ) (s : Tally Addr) : DecidablePred (s.Whole L) := fun c =>
  match c with
  | .handleData src pkt payload now _ =>
    inferInstanceAs (Decidable (pkt.msgLen.toNat = L (src, pkt.msgId) ∧
      (s.core.Writes src pkt payload now → WholeFragment s.core.cfg.packetSize pkt payload)))
  | .tick _ _ => inferInstanceAs (Decidable (True ∧ True))

structure Inv (cfg : TransportConfig) (L : MsgKey Addr → ℕ) (s : Tally Addr) : Prop where
  cfg_eq : s.core.cfg = cfg
  entries : ∀ k m, s.core.incoming.lookup k = some m →
    m.Counts cfg.packetSize (L k) (s.written k)
  idle : ∀ k, k ∉ s.core.incoming → s.written k = []
  delivered : ∀ d ∈ s.delivered, Filled d.1 d.2

variable {cfg : TransportConfig} {L : MsgKey Addr → ℕ} {s s' : Tally Addr}
  {src : Addr} {pkt : Packet} {payload : List UInt8} {now : ℕ}

theorem Inv.new (cfg : TransportConfig) (L : MsgKey Addr → ℕ) :
    Inv cfg L (Tally.new cfg : Tally Addr) where
  cfg_eq := rfl
  entries k m hm := by simp [Tally.new, ReceiverCore.new] at hm
  idle _ _ := rfl
  delivered d hd := by simp [Tally.new] at hd

/-- The entry that a packet is written to. -/
theorem Inv.entryFor (h : Inv cfg L s) (hlen : pkt.msgLen.toNat = L (src, pkt.msgId))
    (hpos : 0 < pkt.msgLen.toNat) (now : ℕ) :
    (s.core.entryFor src pkt now).Counts cfg.packetSize (L (src, pkt.msgId))
      (s.written (src, pkt.msgId)) := by
  apply ReceiverCore.entryFor_cases (P := fun m =>
    m.Counts cfg.packetSize (L (src, pkt.msgId)) (s.written (src, pkt.msgId)))
  · exact h.entries _
  · intro hnot
    rw [h.idle _ hnot, ← hlen, h.cfg_eq]
    exact InMsg.Counts.new cfg hpos now

/-- A packet that is neither late nor refused leaves an entry that counts what was written. -/
theorem Inv.accept (h : Inv cfg L s) {order : ScheduleOrder Addr}
    (hok : s.Whole L (.handleData src pkt payload now order))
    (hlive : (src, pkt.msgId) ∉ s.core.completed)
    (hroom : s.core.refuses (src, pkt.msgId) = false) (hpos : 0 < pkt.msgLen.toNat) {m : InMsg}
    (hm : (s.core.entryFor src pkt now).accept s.core.cfg pkt payload now = some m) :
    m.Counts cfg.packetSize (L (src, pkt.msgId))
      (s.writtenBy (.handleData src pkt payload now order) (src, pkt.msgId) ++
        s.written (src, pkt.msgId)) := by
  obtain ⟨hlen, hwhole⟩ := hok
  have hentry := h.entryFor hlen hpos now
  rcases InMsg.accept_cases hm with ⟨hnot, rfl⟩ | ⟨hfits, -, rfl⟩
  · rw [writtenBy, if_neg fun hw => hnot hw.2.2.2.2]
    exact hentry
  · have hw : s.core.Writes src pkt payload now := ⟨hlive, hroom, hpos, hfits⟩
    rw [writtenBy, if_pos ⟨rfl, hw⟩]
    have hwhole := hwhole hw
    rw [h.cfg_eq] at hfits hwhole ⊢
    exact (hentry.stored_iff hlen hfits now).mpr hwhole

/-- A call keeps the invariant if it keeps the entries and fills what it delivers. -/
theorem Inv.next (h : Inv cfg L s) {c : ReceiverCall Addr} {r' : ReceiverCore Addr}
    {acts : List (Action Addr)} (hcfg : r'.cfg = s.core.cfg)
    (hentries : ∀ k m, r'.incoming.lookup k = some m →
      m.Counts cfg.packetSize (L k) (s.writtenBy c k ++ s.written k))
    (hdelivered : ∀ k data, (k, data) ∈ deliveries acts →
      Filled data (s.writtenBy c k ++ s.written k)) :
    Inv cfg L ⟨r', s.record c r', s.delivered ++ (deliveries acts).map fun d =>
      (d.2, s.writtenBy c d.1 ++ s.written d.1)⟩ where
  cfg_eq := hcfg.trans h.cfg_eq
  entries k m hm := by
    dsimp only
    rw [record, if_pos (KeyMap.mem_iff_lookup.mpr ⟨m, hm⟩)]
    exact hentries k m hm
  idle k hk := if_neg hk
  delivered d hd := by
    rcases List.mem_append.mp hd with hold | hnew
    · exact h.delivered d hold
    · obtain ⟨⟨k, data⟩, hmem, rfl⟩ := List.mem_map.mp hnew
      exact hdelivered k data hmem

theorem Inv.handleData (h : Inv cfg L s) {order : ScheduleOrder Addr}
    (hok : s.Whole L (.handleData src pkt payload now order)) {r' : ReceiverCore Addr}
    {acts : List (Action Addr)}
    (hd : ReceiverCore.DataStep s.core src pkt payload now r' acts) :
    (∀ k m, r'.incoming.lookup k = some m → m.Counts cfg.packetSize (L k)
      (s.writtenBy (.handleData src pkt payload now order) k ++ s.written k)) ∧
    ∀ k data, (k, data) ∈ deliveries acts → Filled data
      (s.writtenBy (.handleData src pkt payload now order) k ++ s.written k) := by
  have hother : ∀ k m, (k = (src, pkt.msgId) → ¬ s.core.Writes src pkt payload now) →
      s.core.incoming.lookup k = some m → m.Counts cfg.packetSize (L k)
        (s.writtenBy (.handleData src pkt payload now order) k ++ s.written k) := by
    intro k m hk hm
    rw [writtenBy, if_neg fun hw => hk hw.1 hw.2]
    exact h.entries k m hm
  cases hd with
  | duplicate hdup =>
    exact ⟨fun k m hm => hother k m (fun _ hw => hw.1 hdup) hm, fun k data hmem => by cases hmem⟩
  | refused hlive hfull =>
    refine ⟨fun k m hm => hother k m (fun _ hw => ?_) hm, fun k data hmem => by cases hmem⟩
    have hroom := hw.2.1
    rw [hfull] at hroom
    cases hroom
  | store hlive hroom hpos hm hopen hs =>
    refine ⟨fun k m' hm' => ?_, fun k data hmem => ?_⟩
    · obtain ⟨m₁, hm₁, hsame⟩ := hs.content hm'
      refine InMsg.Counts.of_sameContent ?_ hsame
      rw [ReceiverCore.enter, KeyMap.lookup_insert_eq] at hm₁
      split_ifs at hm₁ with hk
      · obtain rfl := Option.some.inj hm₁
        rw [hk]
        exact h.accept hok hlive hroom hpos hm
      · exact hother k m₁ (fun heq => absurd heq hk) hm₁
    · rw [hs.deliveries] at hmem
      cases hmem
  | deliver hlive hroom hdata hs =>
    refine ⟨fun k m' hm' => ?_, fun k data hmem => ?_⟩
    · obtain ⟨m₁, hm₁, hsame⟩ := hs.content hm'
      refine InMsg.Counts.of_sameContent ?_ hsame
      simp only [ReceiverCore.deliver, KeyMap.lookup_erase_eq] at hm₁
      split_ifs at hm₁ with hk
      exact hother k m₁ (fun heq => absurd heq hk) hm₁
    · rw [deliveries_deliver, hs.deliveries, List.mem_singleton] at hmem
      obtain ⟨rfl, rfl⟩ := Prod.mk.inj hmem
      rcases hdata with ⟨_, rfl⟩ | ⟨hpos, m, hm, hcomplete, rfl⟩
      · exact fun p hp => absurd hp (Nat.not_lt_zero p)
      · exact (h.accept hok hlive hroom hpos hm).filled cfg.packetSize_pos hcomplete

theorem Inv.step (h : Inv cfg L s) {c : ReceiverCall Addr} (hok : s.Whole L c)
    (hstep : s.step c = some s') : Inv cfg L s' := by
  obtain ⟨⟨r', acts⟩, hcall, rfl⟩ := Option.map_eq_some_iff.mp hstep
  have hcfg := ReceiverCore.call_cfg hcall
  cases c with
  | handleData src pkt payload now order =>
    obtain ⟨hentries, hdelivered⟩ := h.handleData hok (ReceiverCore.handleData_spec hcall)
    exact h.next hcfg hentries hdelivered
  | tick now order =>
    refine h.next hcfg (fun k m hm => ?_) fun k data hmem => ?_
    · obtain ⟨m₀, hm₀, hsame⟩ := ReceiverCore.tick_content hcall hm
      exact (h.entries k m₀ hm₀).of_sameContent hsame
    · rw [ReceiverCore.tick_deliveries hcall] at hmem
      cases hmem

/-- If every payload that is written is the whole of its fragment, then counter and bitmap of
every entry agree, and nothing is delivered that was not written. Any other payload makes
them disagree about what was written. -/
theorem counts_agree (cfg : TransportConfig) (L : MsgKey Addr → ℕ) {evs : List (ReceiverCall Addr)}
    (h : Run step (Whole L) (new cfg) evs s) :
    (∀ k m, s.core.incoming.lookup k = some m → m.Agrees cfg.packetSize) ∧
    (∀ d ∈ s.delivered, Filled d.1 d.2) ∧
    ∀ src pkt payload now, pkt.msgLen.toNat = L (src, pkt.msgId) →
      s.core.Writes src pkt payload now →
        (((s.core.entryFor src pkt now).stored cfg pkt payload now).Counts cfg.packetSize
            (L (src, pkt.msgId)) (span pkt payload :: s.written (src, pkt.msgId)) ↔
          WholeFragment cfg.packetSize pkt payload) := by
  have hinv : Inv cfg L s :=
    h.invariant (fun _ _ _ hs hok hstep => hs.step hok hstep) (Inv.new cfg L)
  refine ⟨fun k m hm => (hinv.entries k m hm).agrees cfg.packetSize_pos, hinv.delivered, ?_⟩
  intro src pkt payload now hlen hw
  obtain ⟨-, -, hpos, hfits⟩ := hw
  rw [hinv.cfg_eq] at hfits
  exact (hinv.entryFor hlen hpos now).stored_iff hlen hfits now

/-- The two fragments of five bytes, in the other order. -/
theorem counts_agree_five : ∃ s : Tally ℕ,
    s.delivered = [([1, 2, 3, 4, 5], [(0, 4), (4, 5)])] ∧ ∀ d ∈ s.delivered, Filled d.1 d.2 := by
  have hrun : Run step (Whole fun _ => 5) (new tinyConfig : Tally ℕ)
      [.handleData 0 ⟨.data, 0, 1, 5, 4, 1⟩ [5] 0 default,
        .handleData 0 ⟨.data, 0, 1, 5, 0, 4⟩ [1, 2, 3, 4] 0 default] _ := run_of_guarded rfl
  exact ⟨_, rfl, (counts_agree tinyConfig (fun _ => 5) hrun).2.1⟩

/-- Eight bytes of which the first two come alone: both fragments are marked, two bytes are
missing, and there is nothing to ask for. Twelve bytes of which the first eight come in one
packet: the last four are delivered without having been written. -/
theorem counts_disagree :
    (∃ s : Tally ℕ, Run step (fun _ c => c.Consistent fun _ => 8) (new tinyConfig)
        [.handleData 0 ⟨.data, 0, 1, 8, 0, 2⟩ [1, 2] 0 default,
          .handleData 0 ⟨.data, 0, 1, 8, 4, 4⟩ [5, 6, 7, 8] 0 default] s ∧
      ∃ m, s.core.incoming.lookup (0, 1) = some m ∧ m.received = [true, true] ∧
        m.receivedBytes = 6 ∧ m.totalLen = 8 ∧ m.complete = false ∧
          m.firstMissingOffset 4 = none ∧ ¬ m.Agrees 4) ∧
    ∃ s : Tally ℕ, Run step (fun _ c => c.Consistent fun _ => 12) (new tinyConfig)
        [.handleData 0 ⟨.data, 0, 1, 12, 0, 8⟩ [1, 2, 3, 4, 5, 6, 7, 8] 0 default,
          .handleData 0 ⟨.data, 0, 1, 12, 4, 4⟩ [5, 6, 7, 8] 0 default] s ∧
      ∃ d ∈ s.delivered, d.1 = [1, 2, 3, 4, 5, 6, 7, 8, 0, 0, 0, 0] ∧ ¬ Filled d.1 d.2 := by
  constructor
  · refine ⟨_, run_of_admitted rfl (admitted_of_forall ?_ _), _, rfl, rfl, rfl, rfl, rfl, rfl, ?_⟩
    · simp [ReceiverCall.Consistent]
    · intro hagrees
      obtain ⟨off, hoff⟩ := hagrees.missing rfl
      cases hoff
  · refine ⟨_, run_of_admitted rfl (admitted_of_forall ?_ _), _, List.mem_singleton.mpr rfl, rfl,
      ?_⟩
    · simp [ReceiverCall.Consistent]
    · intro hfilled
      obtain ⟨r, hr, -, hhi⟩ := hfilled 8 (by decide)
      have hspans : ∀ r ∈ [(4, 8), (0, 8)], r.2 ≤ 8 := by decide
      exact absurd hhi (hspans r hr).not_gt

end Tally
end AgentTransport
