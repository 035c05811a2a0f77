import AgentTransport.Tracing

/-!
# Done means transmitted

`handle_resend` moves `next_send` to the end of the range it answers, past bytes that
`pump` never sent. The bytes before that range were received, and so sent: a RESEND
starts at the first fragment the receiver misses. The invariant says of every packet,
of every received fragment and of every RESEND that all bytes before it were sent. It
holds for fragments cut at any place, so the runs are not restricted.
-/
namespace AgentTransport
open ByteString Fragmentation Transition

variable {Addr : Type} [DecidableEq Addr]

/-- One of the packets carries the byte of `data` at `pos`. -/
def Carried (data : List UInt8) (sent : Set (Packet × List UInt8)) (pos : ℕ) : Prop :=
  ∃ x ∈ sent, x.1.offset.toNat ≤ pos ∧ pos < x.1.offset.toNat + x.2.length ∧
    x.2[pos - x.1.offset.toNat]? = data[pos]?

def CarriedBelow (data : List UInt8) (sent : Set (Packet × List UInt8)) (n : ℕ) : Prop :=
  ∀ pos < n, Carried data sent pos

/-- Ranges that go on from `base`: each reaches the end of its fragment, and between
`base` and its end nothing is left out. -/
def GoesOn (ps len base : ℕ) (rs : List (ℕ × ℕ)) : Prop :=
  ∀ r ∈ rs, r.1 ≤ r.2 ∧ r.2 ≤ len ∧ min ((r.1 / ps + 1) * ps) len ≤ r.2 ∧
    ∀ pos, base ≤ pos → pos < r.2 → ∃ r' ∈ rs, r'.1 ≤ pos ∧ pos < r'.2

section Carrying

variable {data : List UInt8} {sent sent' : Set (Packet × List UInt8)} {n : ℕ}

theorem CarriedBelow.mono (h : CarriedBelow data sent n) (hsub : sent ⊆ sent') {n' : ℕ}
    (hle : n' ≤ n) : CarriedBelow data sent' n' := by
  intro pos hpos
  obtain ⟨x, hx, hcarry⟩ := h pos (Nat.lt_of_lt_of_le hpos hle)
  exact ⟨x, hsub hx, hcarry⟩

/-- The packet of a range carries the range. -/
theorem carried_frames (hlen : data.length < 2 ^ 32) (msgId : UInt64) {rs : List (ℕ × ℕ)}
    {r : ℕ × ℕ} (hr : r ∈ rs) (hle : r.2 ≤ data.length) {pos : ℕ} (hlo : r.1 ≤ pos)
    (hhi : pos < r.2) : Carried data (frames data msgId rs) pos := by
  have hoff : (UInt32.ofNat r.1).toNat = r.1 := toNat_ofNat_u32 (by omega)
  refine ⟨_, ⟨r, hr, rfl⟩, ?_, ?_, ?_⟩
  · simp only [dataHeader, hoff]
    exact hlo
  · simp only [dataHeader, hoff, length_slice]
    omega
  · simp only [dataHeader, hoff]
    rw [getElem?_slice, if_pos (by omega)]
    congr 1
    omega

/-- Ranges that go on from a point below which all is sent carry all up to their ends. -/
theorem GoesOn.carriedBelow (hlen : data.length < 2 ^ 32) {ps base : ℕ} {rs : List (ℕ × ℕ)}
    (h : GoesOn ps data.length base rs) (hbase : CarriedBelow data sent base) (msgId : UInt64)
    {n : ℕ} (hn : ∀ pos, base ≤ pos → pos < n → ∃ r ∈ rs, r.1 ≤ pos ∧ pos < r.2) :
    CarriedBelow data (sent ∪ frames data msgId rs) n := by
  intro pos hpos
  by_cases hlt : pos < base
  · exact hbase.mono Set.subset_union_left le_rfl pos hlt
  · obtain ⟨r, hr, hlo, hhi⟩ := hn pos (Nat.not_lt.mp hlt) hpos
    obtain ⟨x, hx, hcarry⟩ := carried_frames hlen msgId hr (h r hr).2.1 hlo hhi
    exact ⟨x, Set.subset_union_right hx, hcarry⟩

theorem goesOn_pumpRanges {ps len limit : ℕ} (hps : 0 < ps) (hl : limit ≤ len) (next : ℕ) :
    GoesOn ps len next (pumpRanges ps len limit next) := by
  intro r hr
  have hend := pumpRanges_le_pumpEnd hps hr
  obtain ⟨j, hj, rfl⟩ := (mem_pumpRanges hps).mp hr
  have hdiv := Nat.div_mul_le_self (next + j * ps) ps
  refine ⟨?_, Nat.min_le_right _ _, ?_, fun pos hlo hhi => ?_⟩
  · simp only
    omega
  · simp only
    rw [Nat.add_mul]
    omega
  · exact exists_pumpRange hps hlo (Nat.lt_of_lt_of_le hhi hend)

/-- A position whose fragment is asked for lies in the range of that fragment. -/
theorem exists_resendRange {ps len fin start pos : ℕ} (hps : 0 < ps) (hstart : start < fin)
    (hlo : start ≤ pos) (hhi : pos / ps < count ps fin) (hpos : pos < len) :
    ∃ r ∈ resendRanges ps len fin start, r.1 ≤ pos ∧ pos < r.2 := by
  have hdiv : start / ps ≤ pos / ps := Nat.div_le_div_right hlo
  refine ⟨fragRange ps len (pos / ps), ?_, Nat.div_mul_le_self pos ps, lt_fragEnd_div hps hpos⟩
  rw [resendRanges, if_pos hstart]
  refine List.mem_map.mpr ⟨pos / ps, ?_, rfl⟩
  rw [List.mem_range'_1]
  omega

/-- A fragment reaches its own end, which is all that `GoesOn` asks of one range. -/
theorem fragRange_reaches {ps len i : ℕ} (hps : 0 < ps) (hi : i * ps ≤ len) :
    (fragRange ps len i).1 ≤ (fragRange ps len i).2 ∧ (fragRange ps len i).2 ≤ len ∧
      min (((fragRange ps len i).1 / ps + 1) * ps) len ≤ (fragRange ps len i).2 := by
  refine ⟨?_, fragEnd_le i, ?_⟩
  · simp only [fragRange, fragEnd]
    omega
  · simp only [fragRange, Nat.mul_div_cancel i hps, fragEnd_eq]
    exact le_rfl

theorem goesOn_resendRanges {ps len fin : ℕ} (hps : 0 < ps) (hfin : fin ≤ len) (start : ℕ) :
    GoesOn ps len start (resendRanges ps len fin start) := by
  intro r hr
  have hstart : start < fin := by
    by_contra hle
    rw [resendRanges, if_neg hle] at hr
    cases hr
  obtain ⟨i, _, hi, rfl⟩ := mem_resendRanges hr
  have hilt := (lt_count_iff hps).mp hi
  obtain ⟨hle, hend, hreach⟩ := fragRange_reaches hps (show i * ps ≤ len by omega)
  refine ⟨hle, hend, hreach, fun pos hlo hhi => exists_resendRange hps hstart hlo ?_ (by omega)⟩
  have hfrag : pos < i * ps + ps := Nat.lt_of_lt_of_le hhi (Nat.min_le_left _ _)
  have hdiv : pos / ps < i + 1 := Nat.div_lt_of_lt_mul (by rw [Nat.mul_comm, Nat.add_mul]; omega)
  omega

/-- A probe repeats the fragment before `next`. -/
theorem goesOn_poke {ps len next : ℕ} (hps : 0 < ps) (hnext : next ≤ len) :
    GoesOn ps len next [fragRange ps len ((next - 1) / ps)] := by
  intro r hr
  obtain rfl := List.mem_singleton.mp hr
  have hdiv := Nat.div_mul_le_self (next - 1) ps
  obtain ⟨hle, hend, hreach⟩ := fragRange_reaches hps
    (show (next - 1) / ps * ps ≤ len by omega)
  refine ⟨hle, hend, hreach, fun pos hlo hhi => ⟨_, hr, ?_, hhi⟩⟩
  simp only [fragRange]
  omega

end Carrying

namespace Transfer

/-- What is known to be sent: all bytes before `next_send`, before the end of every
packet, before the end of every received fragment, and before every RESEND. -/
structure Transmits (cfg : TransportConfig) (data : List UInt8) (t : Transfer) : Prop where
  out : ∀ o, t.out = some o → o.data = data ∧ o.nextSend ≤ data.length ∧
    CarriedBelow data t.sent o.nextSend ∧ (o.doneAt.isSome → data.length ≤ o.nextSend)
  sent : ∀ x ∈ t.sent, x.1.msgLen.toNat = data.length ∧
    min ((x.1.offset.toNat / cfg.packetSize + 1) * cfg.packetSize) data.length ≤
      x.1.offset.toNat + x.2.length ∧
    CarriedBelow data t.sent (x.1.offset.toNat + x.2.length)
  entry : ∀ m, t.entry = some m →
    m.received.length = max (count cfg.packetSize data.length) 1 ∧
    ∀ i, m.received[i]? = some true →
      CarriedBelow data t.sent (min ((i + 1) * cfg.packetSize) data.length)
  resends : ∀ pkt ∈ t.resends, CarriedBelow data t.sent (min pkt.offset.toNat data.length)

variable {cfg : TransportConfig} {p : Policy} {rcv : Addr} {key : MsgKey Addr}
  {data : List UInt8} {t t' : Transfer}

/-- Sending ranges that go on from a sent point keeps what is known. -/
theorem Transmits.send (h : Transmits cfg data t) (hlen : data.length < 2 ^ 32) {base : ℕ}
    (hbase : CarriedBelow data t.sent base) {rs : List (ℕ × ℕ)}
    (hrs : GoesOn cfg.packetSize data.length base rs) {msgId : UInt64} (out : Option OutMsg)
    (hout : ∀ o, out = some o → o.data = data ∧ o.nextSend ≤ data.length ∧
      CarriedBelow data (t.sent ∪ frames data msgId rs) o.nextSend ∧
        (o.doneAt.isSome → data.length ≤ o.nextSend)) :
    Transmits cfg data { t with out := out, sent := t.sent ∪ frames data msgId rs } where
  out := hout
  sent x hx := by
    rcases hx with hx | ⟨r, hr, rfl⟩
    · obtain ⟨hmsg, hreach, hbelow⟩ := h.sent x hx
      exact ⟨hmsg, hreach, hbelow.mono Set.subset_union_left le_rfl⟩
    · obtain ⟨hle, hend, hreach, hgap⟩ := hrs r hr
      have hoff : (UInt32.ofNat r.1).toNat = r.1 := toNat_ofNat_u32 (by omega)
      have hsum : r.1 + (slice data r.1 r.2).length = r.2 := by
        rw [length_slice]
        omega
      simp only [dataHeader, hoff, hsum]
      exact ⟨toNat_ofNat_u32 hlen, hreach, hrs.carriedBelow hlen hbase msgId hgap⟩
  entry m hm := by
    obtain ⟨hcount, hbits⟩ := h.entry m hm
    exact ⟨hcount, fun i hi => (hbits i hi).mono Set.subset_union_left le_rfl⟩
  resends pkt hpkt := (h.resends pkt hpkt).mono Set.subset_union_left le_rfl

/-- An entry that takes a packet still marks only what was sent. -/
theorem Transmits.accept (h : Transmits cfg data t) {pkt : Packet} {payload : List UInt8}
    {now : ℕ} {m : InMsg} (hsent : (pkt, payload) ∈ t.sent)
    (hm : (t.entryFor cfg pkt now).accept cfg pkt payload now = some m) :
    m.received.length = max (count cfg.packetSize data.length) 1 ∧
      ∀ i, m.received[i]? = some true →
        CarriedBelow data t.sent (min ((i + 1) * cfg.packetSize) data.length) := by
  obtain ⟨hmsg, hreach, hbelow⟩ := h.sent _ hsent
  have hentry : (t.entryFor cfg pkt now).received.length =
      max (count cfg.packetSize data.length) 1 ∧
      ∀ i, (t.entryFor cfg pkt now).received[i]? = some true →
        CarriedBelow data t.sent (min ((i + 1) * cfg.packetSize) data.length) := by
    unfold Transfer.entryFor
    cases hold : t.entry with
    | some m₀ => exact h.entry m₀ hold
    | none =>
      rw [Option.getD_none, InMsg.new]
      refine ⟨by rw [List.length_replicate, hmsg], fun i hi => ?_⟩
      simp [List.getElem?_replicate] at hi
  rcases InMsg.accept_cases hm with ⟨_, rfl⟩ | ⟨_, _, rfl⟩
  · exact hentry
  · refine ⟨?_, fun i hi => ?_⟩
    · simp only [InMsg.stored, List.length_set]
      exact hentry.1
    · by_cases hnew : i = pkt.offset.toNat / cfg.packetSize
      · rw [hnew]
        exact hbelow.mono (Set.Subset.refl _) hreach
      · simp only [InMsg.stored, List.getElem?_set_ne (Ne.symm hnew)] at hi
        exact hentry.2 i hi

omit [DecidableEq Addr] in
/-- Where a RESEND starts, everything before was received. -/
theorem Transmits.missing (h : Transmits cfg data t) (hlen : data.length < 2 ^ 32) {m : InMsg}
    (hm : t.entry = some m) {off : ℕ} (hoff : m.missingInWindow cfg = some off) :
    CarriedBelow data t.sent (min (m.resendPacket cfg key off).offset.toNat data.length) := by
  obtain ⟨hcount, hbits⟩ := h.entry m hm
  obtain ⟨i, hi, rfl, _, _, hbefore⟩ := InMsg.missingInWindow_spec hoff
  have hle : i * cfg.packetSize ≤ data.length := by
    rcases Nat.eq_zero_or_pos i with rfl | hpos
    · simp
    · exact ((lt_count_iff cfg.packetSize_pos).mp (by omega)).le
  have hnat : (m.resendPacket cfg key (i * cfg.packetSize)).offset.toNat =
      i * cfg.packetSize := toNat_ofNat_u32 (by omega)
  rw [hnat]
  rcases Nat.eq_zero_or_pos i with rfl | hpos
  · intro pos hlt
    simp at hlt
  · have hlast := hbits (i - 1) (hbefore (i - 1) (by omega))
    rwa [Nat.sub_add_cancel hpos] at hlast

omit [DecidableEq Addr] in
theorem Transmits.step (h : Transmits cfg data t) (hlen : data.length < 2 ^ 32)
    (hstep : Step cfg p rcv key t t') : Transmits cfg data t' := by
  have hps := cfg.packetSize_pos
  cases hstep with
  | @grant o pkt now hout hok =>
    obtain ⟨rfl, hnext, hbelow, hdone⟩ := h.out _ hout
    by_cases hu : o.Unlocks pkt
    · have hgo := goesOn_pumpRanges hps
        (Nat.min_le_right pkt.offset.toNat o.data.length) o.nextSend
      rw [OutMsg.handleGrant_of_unlocks cfg rcv pkt now hu, OutMsg.grantRanges, if_pos hu]
      refine h.send hlen hbelow hgo _ fun o' ho' => ?_
      obtain rfl := Option.some.inj ho'
      refine ⟨rfl, pumpEnd_le hnext,
        hgo.carriedBelow hlen hbelow key.2 fun pos hlo hhi => exists_pumpRange hps hlo hhi, ?_⟩
      intro hsome
      simp only [OutMsg.pumped] at hsome ⊢
      split_ifs at hsome with hle
      · exact hle
      · cases hsome
    · rw [OutMsg.handleGrant_of_not_unlocks cfg rcv pkt now hu, OutMsg.grantRanges, if_neg hu,
        frames_nil, Set.union_empty]
      refine ⟨fun o' ho' => ?_, h.sent, h.entry, h.resends⟩
      obtain rfl := Option.some.inj ho'
      exact ⟨rfl, hnext, hbelow, hdone⟩
  | @resend o pkt now hout hpkt hok =>
    obtain ⟨rfl, hnext, hbelow, hdone⟩ := h.out _ hout
    have hbase := h.resends pkt hpkt
    have hfin : o.resendEnd pkt ≤ o.data.length := Nat.min_le_right _ _
    have hgo := goesOn_resendRanges hps hfin (min pkt.offset.toNat o.data.length)
    refine h.send hlen hbase hgo _ fun o' ho' => ?_
    obtain rfl := Option.some.inj ho'
    refine ⟨rfl, OutMsg.handleResend_nextSend_le cfg rcv pkt now hnext, ?_, ?_⟩
    · rw [OutMsg.handleResend_nextSend]
      intro pos hpos
      by_cases hold : pos < o.nextSend
      · exact hbelow.mono Set.subset_union_left le_rfl pos hold
      · refine hgo.carriedBelow hlen hbase key.2 (fun q hlo hhi => ?_) pos
          (show pos < o.resendEnd pkt by omega)
        exact exists_resendRange hps (by omega) hlo (div_lt_count hps hhi) (by omega)
    · intro hsome
      rw [OutMsg.handleResend_nextSend]
      rcases (OutMsg.handleResend_doneAt cfg rcv pkt now o).mp hsome with hold | ⟨_, hnew⟩
      · exact (hdone hold).trans (Nat.le_max_left _ _)
      · exact hnew.trans (Nat.le_max_right _ _)
  | busy now hout =>
    have ho := h.out _ hout
    refine ⟨fun o' ho' => ?_, h.sent, h.entry, h.resends⟩
    obtain rfl := Option.some.inj ho'
    exact ho
  | @poke o now hout hnone =>
    obtain ⟨rfl, hnext, hbelow, hdone⟩ := h.out _ hout
    refine h.send hlen hbelow (goesOn_poke hps hnext) _ fun o' ho' => ?_
    obtain rfl := Option.some.inj ho'
    exact ⟨rfl, hnext, hbelow.mono Set.subset_union_left le_rfl, hdone⟩
  | reclaim hout hdone =>
    refine ⟨fun o ho => ?_, h.sent, h.entry, h.resends⟩
    cases ho
  | store now hsent hm hopen =>
    refine ⟨h.out, h.sent, fun m₁ hm₁ => ?_, h.resends⟩
    obtain rfl := Option.some.inj hm₁
    exact h.accept hsent hm
  | deliver now hsent hdata =>
    refine ⟨h.out, h.sent, fun m hm => ?_, h.resends⟩
    cases hm
  | rewindow hentry hsame =>
    refine ⟨h.out, h.sent, fun m₁ hm₁ => ?_, h.resends⟩
    obtain rfl := Option.some.inj hm₁
    rw [hsame.received]
    exact h.entry _ hentry
  | ask hentry hoff =>
    refine ⟨h.out, h.sent, h.entry, fun pkt hpkt => ?_⟩
    rcases hpkt with rfl | hpkt
    · exact h.missing hlen hentry hoff
    · exact h.resends pkt hpkt
  | giveUp hentry hoff =>
    refine ⟨h.out, h.sent, fun m hm => ?_, h.resends⟩
    cases hm

omit [DecidableEq Addr] in
theorem Transmits.of_steps {now : ℕ} (hlen : data.length < 2 ^ 32)
    (h : Steps cfg p rcv key (first cfg key.2 data now) t) : Transmits cfg data t := by
  have hps := cfg.packetSize_pos
  have hidle : Transmits cfg data idle :=
    ⟨by simp [idle], by simp [idle], by simp [idle], by simp [idle]⟩
  have hzero : CarriedBelow data idle.sent 0 := fun pos hpos => absurd hpos (Nat.not_lt_zero pos)
  have hgo := goesOn_pumpRanges hps (Nat.min_le_right cfg.unscheduledBytes data.length) 0
  refine h.invariant ?_ fun _ _ ht hstep => ht.step hlen hstep
  have hfirst : Transmits cfg data { idle with
      out := some (OutMsg.started cfg data now)
      sent := idle.sent ∪ frames data key.2 (OutMsg.startRanges cfg data) } := by
    refine hidle.send hlen hzero hgo _ fun o ho => ?_
    obtain rfl := Option.some.inj ho
    refine ⟨rfl, pumpEnd_le (Nat.zero_le _),
      hgo.carriedBelow hlen hzero key.2 fun pos hlo hhi => exists_pumpRange hps hlo hhi, ?_⟩
    intro hsome
    simp only [OutMsg.started, OutMsg.pumped] at hsome ⊢
    split_ifs at hsome with hle
    · exact hle
    · cases hsome
  rw [show idle.sent = ∅ from rfl, Set.empty_union] at hfirst
  exact hfirst

end Transfer

namespace Network

/-- A DATA packet with the byte of `data` at `pos` was sent for the message `key`. -/
def ByteEmitted (rcv : Addr) (s : Network Addr) (key : MsgKey Addr) (data : List UInt8)
    (pos : ℕ) : Prop :=
  ∃ d ∈ s.emitted, ∃ pkt payload, d.src = key.1 ∧ d.dest = rcv ∧
    Packet.decode d.bytes = .ok (pkt, payload) ∧ pkt.typ = .data ∧ pkt.msgId = key.2 ∧
    pkt.offset.toNat ≤ pos ∧ pos < pkt.offset.toNat + payload.length ∧
    payload[pos - pkt.offset.toNat]? = data[pos]?

theorem byteEmitted_of_carried {rcv : Addr} {s : Network Addr} {key : MsgKey Addr}
    {data : List UInt8} {pos : ℕ} (h : Carried data (s.transfer rcv key).sent pos) :
    s.ByteEmitted rcv key data pos := by
  obtain ⟨⟨pkt, payload⟩, ⟨d, hd, hsrc, hdest, hdec, htyp, hid⟩, hcarry⟩ := h
  exact ⟨d, hd, pkt, payload, hsrc, hdest, hdec, htyp, hid, hcarry⟩

/-- Done means transmitted: every byte below `next_send` has been sent, and all bytes
of a message that is done and not yet reclaimed. -/
theorem done_transmitted (cfg : TransportConfig) (rcv : Addr) {evs : List (Event Addr)}
    {s : Network Addr}
    (h : Run (Network.step rcv) (Network.Admits Policy.any) (Network.new cfg) evs s)
    (key : MsgKey Addr) {o : OutMsg}
    (ho : (s.senders key.1).out.lookup (rcv, key.2) = some o) (hlen : o.data.length < 2 ^ 32) :
    (∀ pos < o.nextSend, s.ByteEmitted rcv key o.data pos) ∧
      ((s.senders key.1).isDone rcv key.2 → ∀ pos < o.data.length,
        s.ByteEmitted rcv key o.data pos) := by
  have htraced := Traced.of_run h
  obtain ⟨now, hsteps⟩ := htraced.traced key o.data (htraced.out_data key o ho) hlen
  have ht := Transfer.Transmits.of_steps hlen hsteps
  obtain ⟨_, _, hbelow, hdone⟩ := ht.out o ho
  refine ⟨fun pos hpos => byteEmitted_of_carried (hbelow pos hpos), fun hisDone pos hpos => ?_⟩
  have hsome : o.doneAt.isSome := by
    rw [SenderCore.isDone, ho] at hisDone
    exact hisDone
  exact byteEmitted_of_carried (hbelow pos (Nat.lt_of_lt_of_le hpos (hdone hsome)))

/-- A RESEND has moved the sender on, and a GRANT has sent the rest. -/
theorem done_transmitted_ten : ∃ s : Network ℕ,
    exec (Network.step 1) evenRun (Network.new evenConfig) = some s ∧
    (s.senders 0).isDone 1 1 ∧
    ∀ pos < 10, s.ByteEmitted 1 (0, 1) [1, 2, 3, 4, 5, 6, 7, 8, 9, 10] pos := by
  have hout : (exec (Network.step 1) evenRun (Network.new evenConfig)).map
      (fun s => ((s.senders 0).isDone 1 1, ((s.senders 0).out.lookup (1, 1)).map OutMsg.data)) =
        some (true, some [1, 2, 3, 4, 5, 6, 7, 8, 9, 10]) := by
    decide +kernel
  obtain ⟨s, hs, hview⟩ := Option.map_eq_some_iff.mp hout
  obtain ⟨hdone, hsender⟩ := Prod.mk.inj hview
  obtain ⟨o, ho, hdata⟩ := Option.map_eq_some_iff.mp hsender
  have hrun : Run (Network.step 1) (Network.Admits Policy.any) (Network.new evenConfig) evenRun s :=
    (run_of_exec hs).weaken fun s e _ => s.admits_any e
  obtain ⟨_, hall⟩ := done_transmitted evenConfig 1 hrun (0, 1) ho (by rw [hdata]; decide)
  rw [hdata] at hall
  exact ⟨s, hs, hdone, hall hdone⟩

end Network
end AgentTransport
