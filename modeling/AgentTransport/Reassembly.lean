import AgentTransport.Handling

/-!
# Reassembly from canonical fragments

A canonical fragment starts at a multiple of the fragment size and carries all the
bytes up to the next multiple or to the end. While a message is fed with canonical
fragments its buffer, its bitmap and its byte counter say the same thing, and the
message completes with the last missing fragment and holds the bytes that were sent.
-/
namespace AgentTransport
open ByteString Fragmentation

variable {Addr : Type} [DecidableEq Addr]

/-- A DATA packet that carries a canonical fragment of `data`. -/
structure IsFragment (ps : ℕ) (data : List UInt8) (pkt : Packet) (payload : List UInt8) :
    Prop where
  msgLen : pkt.msgLen.toNat = data.length
  aligned : ps ∣ pkt.offset.toNat
  offset_lt : pkt.offset.toNat < data.length
  payload : payload = slice data pkt.offset.toNat (min (pkt.offset.toNat + ps) data.length)

namespace IsFragment

variable {ps : ℕ} {data payload : List UInt8} {pkt : Packet}

theorem offset_eq (h : IsFragment ps data pkt payload) :
    pkt.offset.toNat = pkt.offset.toNat / ps * ps :=
  (Nat.div_mul_cancel h.aligned).symm

theorem lt_count (hps : 0 < ps) (h : IsFragment ps data pkt payload) :
    pkt.offset.toNat / ps < count ps data.length :=
  div_lt_count hps h.offset_lt

theorem payload_eq (h : IsFragment ps data pkt payload) :
    payload = fragment ps data (pkt.offset.toNat / ps) := by
  rw [fragment, fragEnd, ← h.offset_eq]
  exact h.payload

theorem end_le (h : IsFragment ps data pkt payload) :
    pkt.offset.toNat + payload.length ≤ data.length := by
  have hlt := h.offset_lt
  rw [h.payload, length_slice]
  omega

end IsFragment

namespace InMsg

/-- An entry that reassembles `data`: the buffer agrees with `data` on every marked
fragment, and the byte counter is the length of the marked fragments. -/
structure Rebuilds (ps : ℕ) (data : List UInt8) (m : InMsg) : Prop where
  totalLen : m.totalLen = data.length
  length_received : m.received.length = count ps data.length
  assembled : Assembled ps data m.buf m.received
  receivedBytes : m.receivedBytes = covered ps data.length m.received

variable {ps : ℕ} {data : List UInt8} {m m' : InMsg}

theorem Rebuilds.of_sameContent (h : m.Rebuilds ps data) (hc : SameContent m m') :
    m'.Rebuilds ps data where
  totalLen := hc.totalLen.trans h.totalLen
  length_received := by rw [hc.received, h.length_received]
  assembled := by
    rw [hc.received, hc.buf]
    exact h.assembled
  receivedBytes := by rw [hc.receivedBytes, hc.received, h.receivedBytes]

/-- A new entry has received nothing. -/
theorem Rebuilds.new (cfg : TransportConfig) (hne : data ≠ []) (now : ℕ) :
    (InMsg.new cfg data.length now).Rebuilds cfg.packetSize data where
  totalLen := rfl
  length_received := by
    have h := count_pos cfg.packetSize_pos (List.length_pos_of_ne_nil hne)
    simp only [InMsg.new, List.length_replicate]
    omega
  assembled := assembled_replicate 0 _
  receivedBytes := (covered_replicate_false _).symm

theorem Rebuilds.le (h : m.Rebuilds ps data) : m.receivedBytes ≤ m.totalLen := by
  rw [h.receivedBytes, h.totalLen]
  exact covered_le

/-- A message is complete when all its fragments are there. -/
theorem Rebuilds.complete_iff (hps : 0 < ps) (h : m.Rebuilds ps data) :
    m.complete ↔ ∀ i < count ps data.length, m.received[i]? = some true := by
  have hcov : covered ps data.length m.received = data.length ↔ _ :=
    covered_eq_iff hps h.length_received
  rw [h.length_received] at hcov
  rw [← hcov]
  simp only [complete, h.receivedBytes, h.totalLen, beq_iff_eq]

/-- A complete message is the message that was sent. -/
theorem Rebuilds.buf_eq (hps : 0 < ps) (h : m.Rebuilds ps data) (hc : m.complete) :
    m.buf = data := by
  apply h.assembled.eq hps h.length_received
  intro i hi
  exact (h.complete_iff hps).mp hc i (h.length_received ▸ hi)

theorem Rebuilds.bit_cases (h : m.Rebuilds ps data) {i : ℕ} (hi : i < count ps data.length) :
    m.received[i]? = some false ∨ m.received[i]? = some true := by
  rw [← h.length_received] at hi
  rw [List.getElem?_eq_getElem hi]
  cases m.received[i] with
  | false => exact Or.inl rfl
  | true => exact Or.inr rfl

/-- Taking a canonical fragment marks it, and keeps the entry right. -/
theorem Rebuilds.accept {cfg : TransportConfig} {pkt : Packet} {payload : List UInt8}
    (h : m.Rebuilds cfg.packetSize data) (hf : IsFragment cfg.packetSize data pkt payload)
    (now : ℕ) :
    ∃ m', m.accept cfg pkt payload now = some m' ∧ m'.Rebuilds cfg.packetSize data ∧
      (∀ j, m'.received[j]? = some true ↔
        m.received[j]? = some true ∨ j = pkt.offset.toNat / cfg.packetSize) ∧
      m'.grantedTo = m.grantedTo ∧
      (m' = m ∨ m' = m.stored cfg pkt payload now) := by
  have hlt := hf.lt_count cfg.packetSize_pos
  rcases h.bit_cases hlt with hbit | hbit
  · -- the fragment is missing and is written
    have hfits : m.Fits cfg pkt payload := ⟨hbit, by rw [hf.msgLen]; exact hf.end_le⟩
    refine ⟨m.stored cfg pkt payload now, ?_, ⟨h.totalLen, ?_, ?_, ?_⟩, fun j => ?_, rfl, Or.inr rfl⟩
    · rw [accept_of_fits hfits, if_pos (by rw [h.assembled.length_buf]; exact hf.end_le)]
    · simp only [stored, List.length_set, h.length_received]
    · have hw := h.assembled.write cfg.packetSize_pos hlt
      rw [← hf.payload_eq, ← hf.offset_eq] at hw
      exact hw
    · have hlen : payload.length =
          fragLen cfg.packetSize data.length (pkt.offset.toNat / cfg.packetSize) := by
        rw [hf.payload_eq, length_fragment]
      simp only [stored, covered_set hbit, h.receivedBytes, hlen]
    · simp only [stored, List.getElem?_set]
      rw [← h.length_received] at hlt
      split_ifs with hj
      · simp [hj]
      · simp [Ne.symm hj]
  · -- a duplicate
    have hfits : ¬ m.Fits cfg pkt payload := fun hfit => by
      have := hfit.1
      rw [hbit] at this
      cases this
    refine ⟨m, accept_of_not_fits hfits, h, fun j => ?_, rfl, Or.inl rfl⟩
    constructor
    · exact Or.inl
    · rintro (hj | rfl)
      · exact hj
      · exact hbit

end InMsg

namespace ReceiverCore

/-- The receiver reassembles: every entry is an incomplete message of its sender. -/
def Reassembles (D : MsgKey Addr → List UInt8) (r : ReceiverCore Addr) : Prop :=
  ∀ k m, r.incoming.lookup k = some m → m.Rebuilds r.cfg.packetSize (D k) ∧ m.complete = false

variable {D : MsgKey Addr → List UInt8} {r r' : ReceiverCore Addr} {src : Addr} {pkt : Packet}
  {payload : List UInt8} {now : ℕ} {acts : List (Action Addr)}

/-- The entry of `key`, if there is one, is an incomplete message with the bytes `data`. -/
def RebuildsAt (key : MsgKey Addr) (data : List UInt8) (r : ReceiverCore Addr) : Prop :=
  ∀ m, r.incoming.lookup key = some m → m.Rebuilds r.cfg.packetSize data ∧ m.complete = false

/-- The entry a fragment is written to, whatever other entries hold. -/
theorem RebuildsAt.entryFor {data : List UInt8} (h : r.RebuildsAt (src, pkt.msgId) data)
    (hf : IsFragment r.cfg.packetSize data pkt payload) (now : ℕ) :
    (r.entryFor src pkt now).Rebuilds r.cfg.packetSize data ∧
      (r.entryFor src pkt now).complete = false := by
  apply entryFor_cases (P := fun m => m.Rebuilds r.cfg.packetSize data ∧ m.complete = false)
  · exact h
  · intro _
    have hpos : 0 < data.length := Nat.lt_of_le_of_lt (Nat.zero_le _) hf.offset_lt
    rw [hf.msgLen]
    refine ⟨InMsg.Rebuilds.new r.cfg (List.ne_nil_of_length_pos hpos) now, ?_⟩
    simp only [InMsg.complete, InMsg.new, beq_eq_false_iff_ne, ne_eq]
    omega

/-- The entry a fragment is written to. -/
theorem Reassembles.entryFor (h : r.Reassembles D) (hf : IsFragment r.cfg.packetSize
    (D (src, pkt.msgId)) pkt payload) (now : ℕ) :
    (r.entryFor src pkt now).Rebuilds r.cfg.packetSize (D (src, pkt.msgId)) ∧
      (r.entryFor src pkt now).complete = false :=
  RebuildsAt.entryFor (h _) hf now

/-- A canonical fragment is safe if the entry it is for reassembles its message. -/
theorem safeData_of_rebuilds {data : List UInt8}
    (hr : (r.entryFor src pkt now).Rebuilds r.cfg.packetSize data)
    (hf : IsFragment r.cfg.packetSize data pkt payload) : r.SafeData src pkt payload now := by
  intro _ _ _ hfits
  obtain ⟨m', hm', hr', _⟩ := hr.accept hf now
  rw [InMsg.accept_of_fits hfits] at hm'
  split_ifs at hm' with hb
  obtain rfl := Option.some.inj hm'
  refine ⟨?_, Or.inl hr'.le⟩
  rw [hr.totalLen, ← hr.assembled.length_buf]
  exact hb

/-- No canonical fragment makes the receiver panic. -/
theorem Reassembles.handleData_isSome (h : r.Reassembles D) (hf : IsFragment r.cfg.packetSize
    (D (src, pkt.msgId)) pkt payload) (now : ℕ) (order : ScheduleOrder Addr) :
    (r.handleData src pkt payload now order).isSome := by
  have hcount : CountersFit r :=
    ⟨fun k m hm => by rw [(h k m hm).1.assembled.length_buf, (h k m hm).1.totalLen],
      fun k m hm => Or.inl (h k m hm).1.le⟩
  rw [ReceiverCore.handleData_isSome hcount]
  exact safeData_of_rebuilds (h.entryFor hf now).1 hf

/-- What a fragment does that is neither late nor refused: it is marked in the entry, or it
completes the message. -/
theorem RebuildsAt.takes {data : List UInt8} (h : r.RebuildsAt (src, pkt.msgId) data)
    (hf : IsFragment r.cfg.packetSize data pkt payload) (hlive : (src, pkt.msgId) ∉ r.completed)
    (hroom : r.refuses (src, pkt.msgId) = false) (hd : DataStep r src pkt payload now r' acts) :
    ∃ m, m.Rebuilds r.cfg.packetSize data ∧
      (∀ j, m.received[j]? = some true ↔ (r.entryFor src pkt now).received[j]? = some true ∨
        j = pkt.offset.toNat / r.cfg.packetSize) ∧
      m.grantedTo = (r.entryFor src pkt now).grantedTo ∧
      ((m.complete = false ∧ Scheduled (r.enter (src, pkt.msgId) m) now r' acts) ∨
        (m.complete = true ∧ ∃ acts', acts = .deliver src pkt.msgId data :: acts' ∧
          Scheduled (r.deliver (src, pkt.msgId) src data).1 now r' acts')) := by
  obtain ⟨m, hm, hr, hbits, hwindow, _⟩ := (h.entryFor hf now).1.accept hf now
  refine ⟨m, hr, hbits, hwindow, ?_⟩
  cases hd with
  | duplicate hdup => exact absurd hdup hlive
  | refused _ hfull =>
    rw [hroom] at hfull
    cases hfull
  | store _ _ _ hstored hopen hs =>
    obtain rfl := Option.some.inj (hstored.symm.trans hm)
    exact Or.inl ⟨hopen, hs⟩
  | deliver _ _ hdata hs =>
    have hpos : 0 < data.length := Nat.lt_of_le_of_lt (Nat.zero_le _) hf.offset_lt
    rcases hdata with ⟨hzero, _⟩ | ⟨_, m', hstored, hcomplete, rfl⟩
    · rw [hf.msgLen] at hzero
      omega
    · obtain rfl := Option.some.inj (hstored.symm.trans hm)
      rw [hr.buf_eq r.cfg.packetSize_pos hcomplete] at hs ⊢
      exact Or.inr ⟨hcomplete, _, rfl, hs⟩

/-- An entry that is fed with canonical fragments goes on reassembling, whatever comes for
other keys. -/
theorem RebuildsAt.dataStep {key : MsgKey Addr} {data : List UInt8} (h : r.RebuildsAt key data)
    (hf : (src, pkt.msgId) = key → IsFragment r.cfg.packetSize data pkt payload)
    (hs : DataStep r src pkt payload now r' acts) : r'.RebuildsAt key data := by
  unfold RebuildsAt
  rw [hs.cfg_eq]
  intro m₁ hm₁
  refine hs.entries (E := fun k m => k = key →
      m.Rebuilds r.cfg.packetSize data ∧ m.complete = false)
    (fun k m hE _ hk => ?_) (fun m _ hm hopen hk => ?_) (fun k m hm hk => h m (hk ▸ hm)) key m₁
    hm₁ rfl
  · have hc := InMsg.issueGrant_content r.cfg k now false m
    exact ⟨(hE hk).1.of_sameContent hc, hc.complete.trans (hE hk).2⟩
  · subst hk
    obtain ⟨m', hm', hr', _⟩ := (h.entryFor (hf rfl) now).1.accept (hf rfl) now
    obtain rfl := Option.some.inj (hm.symm.trans hm')
    exact ⟨hr', hopen⟩

theorem RebuildsAt.tick {key : MsgKey Addr} {data : List UInt8} {order : TickOrder Addr}
    (h : r.RebuildsAt key data) (ht : r.tick now order = some (r', acts)) :
    r'.RebuildsAt key data := by
  intro m' hm'
  obtain ⟨m, hm, hc⟩ := tick_content ht hm'
  rw [tick_cfg ht]
  exact ⟨(h m hm).1.of_sameContent hc, hc.complete.trans (h m hm).2⟩

/-- `handle_data` on canonical fragments keeps the receiver reassembling. -/
theorem Reassembles.dataStep (h : r.Reassembles D) (hf : IsFragment r.cfg.packetSize
    (D (src, pkt.msgId)) pkt payload) (hs : DataStep r src pkt payload now r' acts) :
    r'.Reassembles D := fun k =>
  RebuildsAt.dataStep (h k) (fun hk => hk ▸ hf) hs

theorem Reassembles.tick {order : TickOrder Addr} (h : r.Reassembles D)
    (ht : r.tick now order = some (r', acts)) : r'.Reassembles D := fun k =>
  RebuildsAt.tick (h k) ht

end ReceiverCore
end AgentTransport
