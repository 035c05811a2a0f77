import AgentTransport.Tracing
import AgentTransport.Reassembly

/-!
# End-to-end integrity

The receiver takes `offset / packet_size` for the number of a fragment, so a message
arrives intact if all its fragments start at multiples of the fragment size. All
ranges the sender sends do, but for those that a GRANT unlocks after a RESEND has left
`next_send` inside a fragment. Where that never happens every delivered message is the
one that was started, and where it does a message can arrive with holes.
-/
namespace AgentTransport
open ByteString Fragmentation Transition

variable {Addr : Type} [DecidableEq Addr]

/-- The messages that the transport is for. -/
def Sendable (data : List UInt8) : Prop := data ≠ [] ∧ data.length < 2 ^ 32

instance : DecidablePred Sendable := fun _ => inferInstanceAs (Decidable (_ ∧ _))

/-- A GRANT that makes the sender go on from inside a fragment. -/
def GrantSplits (cfg : TransportConfig) (o : OutMsg) (pkt : Packet) : Prop :=
  o.Unlocks pkt ∧ o.nextSend < min pkt.offset.toNat o.data.length ∧ ¬ cfg.packetSize ∣ o.nextSend

instance (cfg : TransportConfig) (o : OutMsg) : DecidablePred (GrantSplits cfg o) :=
  fun _ => inferInstanceAs (Decidable (_ ∧ _))

/-- Runs with sendable messages. -/
def Policy.sendable : Policy := ⟨Sendable, fun _ _ _ => True, fun _ _ _ => True⟩

/-- Runs with sendable messages in which no GRANT splits a fragment. -/
def Policy.whole : Policy := ⟨Sendable, fun cfg o pkt => ¬ GrantSplits cfg o pkt, fun _ _ _ => True⟩

instance : DecidablePred Policy.whole.start := inferInstanceAs (DecidablePred Sendable)

instance (cfg : TransportConfig) (o : OutMsg) : DecidablePred (Policy.whole.grant cfg o) :=
  fun pkt => inferInstanceAs (Decidable (¬ GrantSplits cfg o pkt))

instance (cfg : TransportConfig) (o : OutMsg) : DecidablePred (Policy.whole.resend cfg o) :=
  fun _ => inferInstanceAs (Decidable True)

/-- The datagram with fragment `i` of a message. -/
def fragmentDatagram (cfg : TransportConfig) (rcv : Addr) (key : MsgKey Addr) (data : List UInt8)
    (i : ℕ) : Datagram Addr :=
  ⟨key.1, rcv, dataPacket data key.2 (i * cfg.packetSize) (fragEnd cfg.packetSize data.length i)⟩

section Frames

variable {ps : ℕ} {data : List UInt8} {msgId : UInt64}

/-- The packet of a whole fragment is canonical. -/
theorem isFragment_dataHeader (hps : 0 < ps) (hlen : data.length < 2 ^ 32) {i : ℕ}
    (hi : i < count ps data.length) :
    IsFragment ps data (dataHeader data msgId (i * ps) (fragEnd ps data.length i))
      (slice data (i * ps) (fragEnd ps data.length i)) := by
  have hlt := (lt_count_iff hps).mp hi
  have hoff : (UInt32.ofNat (i * ps)).toNat = i * ps := toNat_ofNat_u32 (by omega)
  refine ⟨toNat_ofNat_u32 hlen, ?_, ?_, ?_⟩
  · simp only [dataHeader, hoff]
    exact Nat.dvd_mul_left ps i
  · simp only [dataHeader, hoff]
    exact hlt
  · simp only [dataHeader, hoff]
    rfl

/-- Fragment `i` of a message, as the receiver gets it. -/
def framed (ps : ℕ) (data : List UInt8) (msgId : UInt64) (i : ℕ) : Packet × List UInt8 :=
  (dataHeader data msgId (i * ps) (fragEnd ps data.length i),
    slice data (i * ps) (fragEnd ps data.length i))

theorem framed_spec (hps : 0 < ps) (hlen : data.length < 2 ^ 32) (msgId : UInt64) {i : ℕ}
    (hi : i < count ps data.length) :
    ∃ pkt payload, framed ps data msgId i = (pkt, payload) ∧ pkt.msgId = msgId ∧
      IsFragment ps data pkt payload ∧ pkt.offset.toNat / ps = i := by
  have hlt := (lt_count_iff hps).mp hi
  have hoff : (UInt32.ofNat (i * ps)).toNat = i * ps := toNat_ofNat_u32 (by omega)
  refine ⟨_, _, rfl, rfl, isFragment_dataHeader hps hlen hi, ?_⟩
  rw [dataHeader, hoff, Nat.mul_div_cancel i hps]

/-- The datagram of a fragment decodes to a packet which names the fragment. -/
theorem decode_fragment (hps : 0 < ps) (hlen : data.length < 2 ^ 32) (msgId : UInt64) {i : ℕ}
    (hi : i < count ps data.length) :
    ∃ pkt payload,
      Packet.decode (dataPacket data msgId (i * ps) (fragEnd ps data.length i)) =
        .ok (pkt, payload) ∧
      pkt.typ = .data ∧ pkt.msgId = msgId ∧ IsFragment ps data pkt payload ∧
      pkt.offset.toNat / ps = i := by
  obtain ⟨pkt, payload, hframed, hid, hf, hidx⟩ := framed_spec hps hlen msgId hi
  obtain ⟨rfl, rfl⟩ := Prod.mk.inj hframed
  exact ⟨_, _, decode_dataPacket hlen msgId _ _, rfl, hid, hf, hidx⟩

theorem frames_isFragment (hps : 0 < ps) (hlen : data.length < 2 ^ 32) {rs : List (ℕ × ℕ)}
    (hrs : ∀ r ∈ rs, ∃ i < count ps data.length, r = fragRange ps data.length i) :
    ∀ x ∈ frames data msgId rs, IsFragment ps data x.1 x.2 := by
  rintro x ⟨r, hr, rfl⟩
  obtain ⟨i, hi, rfl⟩ := hrs r hr
  exact isFragment_dataHeader hps hlen hi

/-- From a boundary `pump` sends whole fragments. -/
theorem pumpRanges_whole {len limit next : ℕ} (hps : 0 < ps) (hl : limit ≤ len)
    (hnext : next < limit → ps ∣ next) :
    ∀ r ∈ pumpRanges ps len limit next, ∃ i < count ps len, r = fragRange ps len i := by
  intro r hr
  have hlt : next < limit := by
    by_contra hle
    rw [pumpRanges_of_le hps (Nat.not_lt.mp hle)] at hr
    cases hr
  obtain ⟨j, rfl⟩ := hnext hlt
  rw [Nat.mul_comm, pumpRanges_aligned hps] at hr
  obtain ⟨i, hi, rfl⟩ := List.mem_map.mp hr
  rw [List.mem_range'_1] at hi
  refine ⟨i, ?_, rfl⟩
  have hilt : i < count ps limit := by omega
  rw [lt_count_iff hps] at hilt ⊢
  omega

end Frames

namespace OutMsg

variable {cfg : TransportConfig} {o : OutMsg} {pkt : Packet}

theorem startRanges_whole (cfg : TransportConfig) (data : List UInt8) :
    ∀ r ∈ startRanges cfg data, ∃ i < count cfg.packetSize data.length,
      r = fragRange cfg.packetSize data.length i :=
  pumpRanges_whole cfg.packetSize_pos (Nat.min_le_right _ _) fun _ => Nat.dvd_zero _

theorem grantRanges_whole (h : ¬ GrantSplits cfg o pkt) :
    ∀ r ∈ o.grantRanges cfg pkt, ∃ i < count cfg.packetSize o.data.length,
      r = fragRange cfg.packetSize o.data.length i := by
  intro r hr
  unfold grantRanges at hr
  split_ifs at hr with hu
  · refine pumpRanges_whole cfg.packetSize_pos (Nat.min_le_right _ _) (fun hlt => ?_) r hr
    by_contra hsplit
    exact h ⟨hu, hlt, hsplit⟩
  · cases hr

theorem answerRanges_whole (cfg : TransportConfig) (o : OutMsg) (pkt : Packet) :
    ∀ r ∈ o.answerRanges cfg pkt, ∃ i < count cfg.packetSize o.data.length,
      r = fragRange cfg.packetSize o.data.length i := by
  intro r hr
  obtain ⟨i, _, hi, rfl⟩ := mem_resendRanges hr
  refine ⟨i, ?_, rfl⟩
  have hle : o.resendEnd pkt ≤ o.data.length := Nat.min_le_right _ _
  rw [lt_count_iff cfg.packetSize_pos] at hi ⊢
  omega

theorem pokeRanges_whole (hne : o.data ≠ []) (hnext : o.nextSend ≤ o.data.length) :
    ∀ r ∈ o.pokeRanges cfg, ∃ i < count cfg.packetSize o.data.length,
      r = fragRange cfg.packetSize o.data.length i := by
  intro r hr
  have hpos := List.length_pos_of_ne_nil hne
  exact ⟨_, div_lt_count cfg.packetSize_pos (by omega), List.mem_singleton.mp hr⟩

end OutMsg

namespace Transfer

/-- A transfer in which nothing is wrong: all packets sent are canonical, and the
receiver is reassembling them or has handed the message over. -/
structure Faithful (cfg : TransportConfig) (data : List UInt8) (t : Transfer) : Prop where
  out : ∀ o, t.out = some o → o.data = data ∧ o.nextSend ≤ data.length
  sent : ∀ x ∈ t.sent, IsFragment cfg.packetSize data x.1 x.2
  entry : ∀ m, t.entry = some m → m.Rebuilds cfg.packetSize data ∧ m.complete = false
  delivered : ∀ d ∈ t.delivered, d = data

variable {cfg : TransportConfig} {p : Policy} {rcv : Addr} {key : MsgKey Addr}
  {data : List UInt8} {t t' : Transfer}

/-- The entry a fragment is written to. -/
theorem Faithful.entryFor (h : Faithful cfg data t) {pkt : Packet} {payload : List UInt8}
    (hsent : (pkt, payload) ∈ t.sent) (now : ℕ) :
    (t.entryFor cfg pkt now).Rebuilds cfg.packetSize data := by
  have hf := h.sent _ hsent
  unfold Transfer.entryFor
  cases hm : t.entry with
  | some m => exact (h.entry m hm).1
  | none =>
    have hpos : 0 < data.length := Nat.lt_of_le_of_lt (Nat.zero_le _) hf.offset_lt
    rw [Option.getD_none, hf.msgLen]
    exact InMsg.Rebuilds.new cfg (List.ne_nil_of_length_pos hpos) now

omit [DecidableEq Addr] in
theorem Faithful.step (h : Faithful cfg data t) (hs : Sendable data)
    (hp : ∀ o pkt, p.grant cfg o pkt → ¬ GrantSplits cfg o pkt)
    (hstep : Step cfg p rcv key t t') : Faithful cfg data t' := by
  -- packets that were just sent join those sent before
  have hsend : ∀ rs : List (ℕ × ℕ), (∀ r ∈ rs, ∃ i < count cfg.packetSize data.length,
      r = fragRange cfg.packetSize data.length i) →
      ∀ x ∈ t.sent ∪ frames data key.2 rs, IsFragment cfg.packetSize data x.1 x.2 := by
    intro rs hrs x hx
    rcases hx with hx | hx
    · exact h.sent x hx
    · exact frames_isFragment cfg.packetSize_pos hs.2 hrs x hx
  cases hstep with
  | @grant o pkt now hout hok =>
    obtain ⟨rfl, hnext⟩ := h.out _ hout
    refine ⟨?_, hsend _ (OutMsg.grantRanges_whole (hp o pkt hok)), h.entry, h.delivered⟩
    intro o' ho'
    obtain rfl := Option.some.inj ho'
    exact ⟨OutMsg.handleGrant_data cfg rcv pkt now o,
      OutMsg.handleGrant_nextSend_le cfg rcv pkt now hnext⟩
  | @resend o pkt now hout hpkt hok =>
    obtain ⟨rfl, hnext⟩ := h.out _ hout
    refine ⟨?_, hsend _ (OutMsg.answerRanges_whole cfg o pkt), h.entry, h.delivered⟩
    intro o' ho'
    obtain rfl := Option.some.inj ho'
    exact ⟨rfl, OutMsg.handleResend_nextSend_le cfg rcv pkt now hnext⟩
  | busy now hout =>
    have ho := h.out _ hout
    refine ⟨?_, h.sent, h.entry, h.delivered⟩
    intro o' ho'
    obtain rfl := Option.some.inj ho'
    exact ho
  | poke now hout hdone =>
    obtain ⟨rfl, hnext⟩ := h.out _ hout
    refine ⟨?_, hsend _ (OutMsg.pokeRanges_whole hs.1 hnext), h.entry, h.delivered⟩
    intro o' ho'
    obtain rfl := Option.some.inj ho'
    exact ⟨rfl, hnext⟩
  | reclaim hout hdone =>
    refine ⟨?_, h.sent, h.entry, h.delivered⟩
    intro o ho
    cases ho
  | @store m pkt payload now hsent hm hopen =>
    obtain ⟨m', hm', hr, _⟩ := (h.entryFor hsent now).accept (h.sent _ hsent) now
    obtain rfl := Option.some.inj (hm.symm.trans hm')
    refine ⟨h.out, h.sent, ?_, h.delivered⟩
    intro m₁ hm₁
    obtain rfl := Option.some.inj hm₁
    exact ⟨hr, hopen⟩
  | @deliver pkt payload d now hsent hdata =>
    refine ⟨h.out, h.sent, ?_, ?_⟩
    · intro m hm
      cases hm
    · intro d' hd'
      rcases hd' with rfl | hd'
      · have hf := h.sent _ hsent
        rcases hdata with ⟨hzero, _⟩ | ⟨_, m, hm, hcomplete, rfl⟩
        · have hlt := hf.offset_lt
          rw [← hf.msgLen] at hlt
          exact absurd hzero (Nat.ne_of_gt (Nat.lt_of_le_of_lt (Nat.zero_le _) hlt))
        · obtain ⟨m', hm', hr, _⟩ := (h.entryFor hsent now).accept hf now
          obtain rfl := Option.some.inj (hm.symm.trans hm')
          exact hr.buf_eq cfg.packetSize_pos hcomplete
      · exact h.delivered d' hd'
  | @rewindow m m' hentry hsame =>
    obtain ⟨hr, hopen⟩ := h.entry _ hentry
    refine ⟨h.out, h.sent, ?_, h.delivered⟩
    intro m₁ hm₁
    obtain rfl := Option.some.inj hm₁
    exact ⟨hr.of_sameContent hsame, hsame.complete.trans hopen⟩
  | ask hentry hoff => exact ⟨h.out, h.sent, h.entry, h.delivered⟩
  | giveUp hentry hoff =>
    refine ⟨h.out, h.sent, ?_, h.delivered⟩
    intro m hm
    cases hm

omit [DecidableEq Addr] in
theorem Faithful.first (hs : Sendable data) (now : ℕ) :
    Faithful cfg data (Transfer.first cfg key.2 data now) := by
  refine ⟨?_, ?_, ?_, ?_⟩
  · intro o ho
    obtain rfl := Option.some.inj ho
    exact ⟨rfl, pumpEnd_le (Nat.zero_le _)⟩
  · exact frames_isFragment cfg.packetSize_pos hs.2 (OutMsg.startRanges_whole cfg data)
  · intro m hm
    cases hm
  · intro d hd
    cases hd

omit [DecidableEq Addr] in
theorem Faithful.of_steps {now : ℕ} (hs : Sendable data)
    (hp : ∀ o pkt, p.grant cfg o pkt → ¬ GrantSplits cfg o pkt)
    (h : Steps cfg p rcv key (Transfer.first cfg key.2 data now) t) : Faithful cfg data t :=
  h.invariant (Faithful.first hs now) fun _ _ hf hstep => hf.step hs hp hstep

end Transfer

namespace Network

/-- In a run in which no GRANT splits a fragment, every message that is delivered
carries the bytes it was started with. -/
theorem integrity (cfg : TransportConfig) (rcv : Addr) {evs : List (Event Addr)}
    {s : Network Addr}
    (h : Run (Network.step rcv) (Network.Admits Policy.whole) (Network.new cfg) evs s) :
    ∀ key data, (key, data) ∈ s.delivered → (key, data) ∈ s.started := by
  intro key data hmem
  have hdel : data ∈ (s.transfer rcv key).delivered := hmem
  obtain ⟨data', now, hstarted, hs, hsteps⟩ :=
    (Traced.of_run h).of_delivered (fun data hs => hs.2) hdel
  rw [(Transfer.Faithful.of_steps hs (fun _ _ hg => hg) hsteps).delivered data hdel]
  exact hstarted

/-- A policy that restricts nothing but the messages is met if they are sendable. -/
theorem admits_sendable (s : Network Addr) {e : Event Addr}
    (h : ∀ src msgId data now, e = .start src msgId data now → Sendable data) :
    s.Admits Policy.sendable e := by
  cases e with
  | start src msgId data now => exact h _ _ _ _ rfl
  | deliver => exact fun _ _ _ _ _ _ _ => ⟨fun _ => trivial, fun _ => trivial⟩
  | drop => trivial
  | duplicate => trivial
  | senderTick => trivial
  | receiverTick => trivial

theorem admitted_sendable (rcv : Addr) {evs : List (Event Addr)}
    (h : ∀ src msgId data now, .start src msgId data now ∈ evs → Sendable data)
    (s : Network Addr) : Admitted (Network.step rcv) (Network.Admits Policy.sendable) evs s := by
  induction evs generalizing s with
  | nil => trivial
  | cons e evs ih =>
    refine ⟨admits_sendable s ?_, fun t _ => ih (fun src msgId data now hmem =>
      h src msgId data now (List.mem_cons_of_mem _ hmem)) t⟩
    rintro src msgId data now rfl
    exact h src msgId data now List.mem_cons_self

theorem integrity_ten : ∃ s : Network ℕ,
    Run (Network.step 1) (Network.Admits Policy.whole) (Network.new evenConfig) evenRun s ∧
    s.delivered = [((0, 1), [1, 2, 3, 4, 5, 6, 7, 8, 9, 10])] ∧
    ∀ key data, (key, data) ∈ s.delivered → (key, data) ∈ s.started := by
  have hout : (exec (guarded (Network.step 1) (Network.Admits Policy.whole)) evenRun
      (Network.new evenConfig)).map Network.delivered =
        some [((0, 1), [1, 2, 3, 4, 5, 6, 7, 8, 9, 10])] := by
    decide +kernel
  obtain ⟨s, hs, hdel⟩ := Option.map_eq_some_iff.mp hout
  exact ⟨s, run_of_guarded hs, hdel, integrity evenConfig 1 (run_of_guarded hs)⟩

/-- Fragments of four bytes, grants of six. -/
def sixConfig : TransportConfig :=
  { tinyConfig with grantIncrement := 6, grantIncrement_lt := by decide }

/-- The first GRANT and one of the two fragments resent for it are lost. The RESEND
has moved `next_send` to 10, and the next GRANT sends the bytes from there on. -/
def lossyRun : List (Event ℕ) :=
  [.start 0 1 [1, 2, 3, 4, 5, 6, 7, 8, 9, 10, 11, 12, 13, 14] 0,
    .deliver 0 0 default, .drop 0, .receiverTick 1 default, .deliver 0 1 default, .drop 1,
    .deliver 0 1 default, .deliver 0 1 default, .deliver 0 1 default, .receiverTick 2 default,
    .deliver 0 2 default, .deliver 0 2 default]

/-- The message arrives with two bytes missing. -/
theorem integrity_fails : ∃ s : Network ℕ,
    Run (Network.step 1) (Network.Admits Policy.sendable) (Network.new sixConfig) lossyRun s ∧
    s.started = [((0, 1), [1, 2, 3, 4, 5, 6, 7, 8, 9, 10, 11, 12, 13, 14])] ∧
    s.delivered = [((0, 1), [1, 2, 3, 4, 5, 6, 7, 8, 0, 0, 11, 12, 13, 14])] := by
  have hout : (exec (Network.step 1) lossyRun (Network.new sixConfig)).map
      (fun s => (s.started, s.delivered)) =
        some ([((0, 1), [1, 2, 3, 4, 5, 6, 7, 8, 9, 10, 11, 12, 13, 14])],
          [((0, 1), [1, 2, 3, 4, 5, 6, 7, 8, 0, 0, 11, 12, 13, 14])]) := by
    decide +kernel
  obtain ⟨s, hs, hview⟩ := Option.map_eq_some_iff.mp hout
  obtain ⟨hstarted, hdelivered⟩ := Prod.mk.inj hview
  refine ⟨s, run_of_admitted hs (admitted_sendable 1 ?_ _), hstarted, hdelivered⟩
  intro src msgId data now hmem
  obtain ⟨-, -, rfl, -⟩ : src = 0 ∧ msgId = 1 ∧
      data = [1, 2, 3, 4, 5, 6, 7, 8, 9, 10, 11, 12, 13, 14] ∧ now = 0 := by
    simpa [lossyRun] using hmem
  exact ⟨by decide, by decide⟩

end Network
end AgentTransport
