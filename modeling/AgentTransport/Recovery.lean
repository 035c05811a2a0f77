import AgentTransport.Integrity
import AgentTransport.Transmission
import AgentTransport.Windows

/-!
# Recovery

A message that both sides still hold can be delivered: the receiver asks for its first
missing fragment, the sender answers with that fragment, and so on until none is
missing. A window that has been received in full is raised by a tick. An entry that
was given up in between is built anew by the answer. The bitmap and the byte counter
must agree for this, which they do where no GRANT splits a fragment, and the sums of the
grants must not overflow.
-/
namespace AgentTransport
open ByteString Fragmentation Transition

variable {Addr : Type} [DecidableEq Addr]

/-- The events of a network that loses nothing and repeats nothing, without starts. -/
def Recovers (_ : Network Addr) : Event Addr → Prop
  | .deliver _ _ _ => True
  | .senderTick _ _ _ => True
  | .receiverTick _ _ => True
  | _ => False

/-- The message can be granted to its end: the sum of a grant fits, or none is needed. -/
def InMsg.Grantable (cfg : TransportConfig) (m : InMsg) : Prop :=
  m.SumFits cfg ∨ m.totalLen ≤ m.grantedTo

namespace Network

/-- What every run keeps, and what steps need in order to be possible. -/
structure Healthy (cfg : TransportConfig) (s : Network Addr) : Prop extends Wired cfg s where
  counters : s.receiver.CountersFit
  apart : s.receiver.CompletedApart
  windows : s.receiver.WindowsFit
  room : s.receiver.incoming.keys.length ≤ cfg.maxIncoming

variable {cfg : TransportConfig} {rcv : Addr} {s s' : Network Addr} {key : MsgKey Addr}

theorem Healthy.new (cfg : TransportConfig) : Healthy cfg (Network.new cfg : Network Addr) where
  toWired := Wired.new cfg
  counters := ReceiverCore.CountersFit.new cfg
  apart := ReceiverCore.CompletedApart.new cfg
  windows k m hm := by simp [Network.new, ReceiverCore.new] at hm
  room := Nat.zero_le _

theorem Healthy.effect {e : Event Addr} (h : Healthy cfg s) (he : Effect rcv s e s') :
    Healthy cfg s' where
  toWired := h.toWired.effect he
  counters := by
    cases he with
    | data _ _ _ _ _ hr => exact h.counters.handleData hr
    | receiverTick _ hr => exact h.counters.tick hr
    | _ => exact h.counters
  apart := by
    cases he with
    | data _ _ _ _ _ hr => exact h.apart.dataStep (ReceiverCore.handleData_spec hr)
    | receiverTick _ hr => exact h.apart.tick hr
    | _ => exact h.apart
  windows := by
    cases he with
    | data _ _ _ _ _ hr => exact h.windows.dataStep (ReceiverCore.handleData_spec hr)
    | receiverTick _ hr => exact h.windows.tick hr
    | _ => exact h.windows
  room := by
    have hroom := h.room
    rw [← h.receiver_cfg] at hroom ⊢
    cases he with
    | data _ _ _ _ _ hr =>
      exact ReceiverCore.length_keys_dataStep hroom (ReceiverCore.handleData_spec hr)
    | receiverTick _ hr =>
      exact le_trans (KeyMap.length_keys_le fun k => ReceiverCore.tick_mem hr) hroom
    | _ => exact hroom

theorem Healthy.step {e : Event Addr} (h : Healthy cfg s) (hs : s.step rcv e = some s') :
    Healthy cfg s' := h.effect (step_spec hs)

section Forward

variable (rcv)

variable {now i : ℕ} {d : Datagram Addr} {pkt : Packet} {payload : List UInt8}
  {r' : ReceiverCore Addr} {acts : List (Action Addr)}

theorem step_receiverTick {order : TickOrder Addr} (hclock : s.clock ≤ now)
    (hr : s.receiver.tick now order = some (r', acts)) :
    s.step rcv (.receiverTick now order) =
      some (emit rcv acts { s with clock := now, receiver := r' }) := by
  simp only [Network.step, if_pos hclock, runReceiver, hr, Option.map_some]

theorem step_resend (order : ScheduleOrder Addr) (hd : s.flight[i]? = some d)
    (hclock : s.clock ≤ now) (hdec : Packet.decode d.bytes = .ok (pkt, payload))
    (htyp : pkt.typ = .resend) :
    s.step rcv (.deliver i now order) =
      some ((s.taken i now).runSender d.dest fun c => c.handleResend d.src pkt now) := by
  simp only [Network.step, hd, if_pos hclock, arrive, hdec, htyp]
  rfl

theorem step_data {order : ScheduleOrder Addr} (hd : s.flight[i]? = some d)
    (hclock : s.clock ≤ now) (hdest : d.dest = rcv)
    (hdec : Packet.decode d.bytes = .ok (pkt, payload)) (htyp : pkt.typ = .data)
    (hr : s.receiver.handleData d.src pkt payload now order = some (r', acts)) :
    s.step rcv (.deliver i now order) =
      some (emit rcv acts { s.taken i now with receiver := r' }) := by
  simp only [Network.step, hd, if_pos hclock, arrive, hdec, htyp, if_pos hdest, runReceiver, hr,
    Option.map_some]
  rfl

end Forward

/-- The sender still holds the bytes of the message. -/
def Holds (rcv : Addr) (s : Network Addr) (key : MsgKey Addr) (data : List UInt8) : Prop :=
  ∃ o, (s.senders key.1).out.lookup (rcv, key.2) = some o ∧ o.data = data

/-- `s'` is reached without losses, and the messages handed over on the way are `ds`. -/
def Continues (rcv : Addr) (s s' : Network Addr) (ds : List (MsgKey Addr × List UInt8)) : Prop :=
  (∃ evs, Run (Network.step rcv) Recovers s evs s') ∧ s'.delivered = s.delivered ++ ds

variable {data : List UInt8} {ds ds' : List (MsgKey Addr × List UInt8)}

theorem Continues.trans {s'' : Network Addr} (h : Continues rcv s s' ds)
    (h' : Continues rcv s' s'' ds') : Continues rcv s s'' (ds ++ ds') := by
  obtain ⟨⟨evs, hrun⟩, hdel⟩ := h
  obtain ⟨⟨evs', hrun'⟩, hdel'⟩ := h'
  refine ⟨⟨evs ++ evs', hrun.append hrun'⟩, ?_⟩
  rw [hdel', hdel, List.append_assoc]

theorem Continues.single {e : Event Addr} (hok : Recovers s e) (h : s.step rcv e = some s')
    (hdel : s'.delivered = s.delivered ++ ds) : Continues rcv s s' ds :=
  ⟨⟨[e], Run.single hok h⟩, hdel⟩

/-- A window that was received in full is raised past the first missing fragment. -/
theorem regrant (h : Healthy cfg s) (hinc : 2 ≤ cfg.grantIncrement)
    (hholds : s.Holds rcv key data) {m : InMsg} (hm : s.receiver.incoming.lookup key = some m)
    (hr : m.Rebuilds cfg.packetSize data) (hopen : m.complete = false) (hgrant : m.Grantable cfg) :
    ∃ s' m' off, Continues rcv s s' [] ∧ Healthy cfg s' ∧ s'.Holds rcv key data ∧
      s'.receiver.incoming.lookup key = some m' ∧ InMsg.SameContent m m' ∧
      m'.unansweredResends = m.unansweredResends ∧ m'.missingInWindow cfg = some off ∧
      m'.Grantable cfg := by
  obtain ⟨off, hfirst, hoff, hlt⟩ := hr.exists_missing cfg.packetSize_pos hopen
  cases hmiss : m.missingInWindow cfg with
  | some off' =>
    exact ⟨s, m, off', ⟨⟨[], Run.nil⟩, (List.append_nil _).symm⟩, h, hholds, hm,
      InMsg.SameContent.refl m, rfl, hmiss, hgrant⟩
  | none =>
    have hfull : m.grantedTo ≤ off := by
      by_contra hgranted
      rw [InMsg.missingInWindow, hfirst, Option.filter_some, if_pos] at hmiss
      · cases hmiss
      · exact decide_eq_true (by omega)
    have hfit : m.SumFits cfg := hgrant.resolve_right fun hall => by
      rw [hr.totalLen] at hall
      omega
    have hcfg := h.receiver_cfg
    obtain ⟨now, hclock, hstarve⟩ : ∃ now, s.clock ≤ now ∧ cfg.starveThreshold ≤ now - m.lastGrant :=
      ⟨s.clock + m.lastGrant + cfg.starveThreshold, by omega, by omega⟩
    obtain ⟨⟨r', acts⟩, ht⟩ :=
      Option.isSome_iff_exists.mp (h.counters.tick_isSome now default)
    obtain ⟨m', hm', hsame, hraised, hcount⟩ := ReceiverCore.tick_regrants ht (by rwa [hcfg]) hm
      (by rwa [hcfg]) (by rwa [hcfg]) (hfull.trans hoff) (by rwa [hr.totalLen]) (by rwa [hcfg])
    have hstep := step_receiverTick rcv hclock ht
    have hdel : deliveries acts = [] := ReceiverCore.tick_deliveries ht
    refine ⟨_, m', off, Continues.single (e := .receiverTick now default) trivial hstep
      (by rw [← hdel]; rfl), h.step hstep, hholds, hm', hsame, hcount, ?_, Or.inl ?_⟩
    · have hfirst' : m'.firstMissingOffset cfg.packetSize = some off := by
        rw [← hfirst, InMsg.firstMissingOffset, hsame.received]
        rfl
      rw [InMsg.missingInWindow, hfirst', Option.filter_some, if_pos]
      exact decide_eq_true (by omega)
    · rwa [InMsg.SumFits, hsame.receivedBytes]

/-- What a sender does with a RESEND for a message it holds. -/
theorem runSender_resend {o : OutMsg} {host : Addr} {pkt : Packet}
    (hcfg : (s.senders host).cfg = cfg)
    (ho : (s.senders host).out.lookup (rcv, pkt.msgId) = some o) (now : ℕ) :
    (s.runSender host fun c => c.handleResend rcv pkt now).delivered = s.delivered ∧
      (s.runSender host fun c => c.handleResend rcv pkt now).Holds rcv (host, pkt.msgId) o.data ∧
      ∀ r ∈ o.answerRanges cfg pkt, (⟨host, rcv, dataPacket o.data pkt.msgId r.1 r.2⟩ :
        Datagram Addr) ∈ (s.runSender host fun c => c.handleResend rcv pkt now).flight := by
  have hacts : ((s.senders host).handleResend rcv pkt now).2 =
      sendRanges rcv pkt.msgId o.data (o.answerRanges cfg pkt) := by
    rw [SenderCore.handleResend, SenderCore.update_outputs, ho, hcfg]
    exact OutMsg.handleResend_acts cfg rcv pkt now o
  refine ⟨?_, ⟨(o.handleResend cfg rcv pkt now).1, ?_, rfl⟩, fun r hr => ?_⟩
  · simp only [runSender, emit, hacts, deliveries_sendRanges, List.append_nil]
  · simp only [runSender, emit, Function.update_self]
    rw [SenderCore.handleResend, SenderCore.lookup_update, if_pos rfl, ho, hcfg, Option.map_some]
  · simp only [runSender, emit, hacts]
    exact List.mem_append_right _ (mem_datagrams.mpr ⟨rfl, List.mem_map.mpr ⟨r, hr, rfl⟩⟩)

/-- A tick asks for the first missing fragment. It comes so late that the message starves, and
so it grants the message to the end if a later sum could overflow. -/
theorem ask (h : Healthy cfg s) (hlen : data.length < 2 ^ 32) (hholds : s.Holds rcv key data)
    {m : InMsg} (hm : s.receiver.incoming.lookup key = some m)
    (hr : m.Rebuilds cfg.packetSize data) (hopen : m.complete = false) (hgrant : m.Grantable cfg)
    {off : ℕ} (hoff : m.missingInWindow cfg = some off) :
    ∃ s' bytes q, Continues rcv s s' [] ∧ Healthy cfg s' ∧ s'.Holds rcv key data ∧
      key ∉ s'.receiver.completed ∧ s'.receiver.refuses key = false ∧
      ((s'.receiver.incoming.lookup key = none ∧
        maxUnansweredResends < m.unansweredResends + 1) ∨
        ∃ m', s'.receiver.incoming.lookup key = some m' ∧ InMsg.SameContent m m' ∧
          (data.length + cfg.grantIncrement ≤ 2 ^ 64 ∨ m'.totalLen ≤ m'.grantedTo)) ∧
      (⟨rcv, key.1, bytes⟩ : Datagram Addr) ∈ s'.flight ∧
      Packet.decode bytes = .ok (m.resendPacket cfg key off, q) := by
  have hcfg := h.receiver_cfg
  obtain ⟨_, _, _, hlt⟩ := hr.exists_missing cfg.packetSize_pos hopen
  rw [← hr.totalLen] at hlt hlen
  obtain ⟨now, hclock, hlate, hstarve⟩ : ∃ now, s.clock ≤ now ∧
      cfg.resendTimeout ≤ now - m.lastProgress ∧ cfg.starveThreshold ≤ now - m.lastGrant :=
    ⟨s.clock + m.lastProgress + cfg.resendTimeout + m.lastGrant + cfg.starveThreshold,
      by omega, by omega, by omega⟩
  obtain ⟨⟨r', acts⟩, ht⟩ := Option.isSome_iff_exists.mp (h.counters.tick_isSome now default)
  have hkey : key ∈ s.receiver.incoming := KeyMap.mem_iff_lookup.mpr ⟨m, hm⟩
  obtain ⟨⟨bytes, q, hsend, hdec⟩, hentry⟩ :=
    ReceiverCore.tick_asks ht hm (by rwa [hcfg]) (by rwa [hcfg])
  have hroom := ReceiverCore.refuses_tick ht (by rw [hcfg]; exact h.room) hkey
  have hdel : deliveries acts = [] := ReceiverCore.tick_deliveries ht
  have hstep := step_receiverTick rcv hclock ht
  have hlive : key ∉ r'.completed := fun hin => by
    obtain ⟨r₁, _, hs, _, hcompleted, _⟩ := ReceiverCore.tick_spec ht
    rw [hs.completed, hcompleted] at hin
    exact h.apart key hin hkey
  have hsettled : ∀ m', r'.incoming.lookup key = some m' → InMsg.SameContent m m' →
      data.length + cfg.grantIncrement ≤ 2 ^ 64 ∨ m'.totalLen ≤ m'.grantedTo := by
    intro m' hm' hsame
    by_cases hsmall : data.length + cfg.grantIncrement ≤ 2 ^ 64
    · exact Or.inl hsmall
    right
    rcases hgrant with hfit | hall
    · have htotal := hr.totalLen
      exact ReceiverCore.tick_reaches ht (by rw [hcfg]; omega) hm hm' (by rwa [hcfg]) hlen
        (h.windows key m hm) hlt (by rwa [hcfg])
    · rw [hsame.totalLen]
      exact hall.trans (ReceiverCore.tick_grantedTo ht hm hm')
  rw [hcfg] at hdec
  refine ⟨_, bytes, q, Continues.single (e := .receiverTick now default) trivial hstep
    (by rw [← hdel]; rfl), h.step hstep, hholds, hlive, hroom, hentry.imp_right ?_, ?_, hdec⟩
  · rintro ⟨m', hm', hsame⟩
    exact ⟨m', hm', hsame, hsettled m' hm' hsame⟩
  · exact List.mem_append_right _ (mem_datagrams.mpr ⟨rfl, hsend⟩)

omit [DecidableEq Addr] in
/-- The RESEND for fragment `i` covers fragment `i`. -/
theorem mem_answerRanges {m : InMsg} {o : OutMsg} {i : ℕ} (hlen : o.data.length < 2 ^ 32)
    (hinc : 2 ≤ cfg.grantIncrement) (hi : i < count cfg.packetSize o.data.length)
    (hgranted : i * cfg.packetSize < m.grantedTo) (hwindow : m.grantedTo ≤ o.data.length) :
    fragRange cfg.packetSize o.data.length i ∈
      o.answerRanges cfg (m.resendPacket cfg key (i * cfg.packetSize)) := by
  have hps := cfg.packetSize_pos
  have hlt := (lt_count_iff hps).mp hi
  have hstart : (m.resendPacket cfg key (i * cfg.packetSize)).offset.toNat =
      i * cfg.packetSize := toNat_ofNat_u32 (by omega)
  have hspan : (m.resendPacket cfg key (i * cfg.packetSize)).length.toNat =
      min (m.grantedTo - i * cfg.packetSize) cfg.grantIncrement := toNat_ofNat_u32 (by omega)
  have hmin : min (i * cfg.packetSize) o.data.length = i * cfg.packetSize := by omega
  have hcount : i < count cfg.packetSize (min (i * cfg.packetSize +
      min (m.grantedTo - i * cfg.packetSize) cfg.grantIncrement) o.data.length) :=
    (lt_count_iff hps).mpr (by omega)
  rw [OutMsg.answerRanges, OutMsg.resendEnd, hstart, hspan, hmin, resendRanges, if_pos (by omega)]
  refine List.mem_map.mpr ⟨i, ?_, rfl⟩
  rw [List.mem_range'_1, Nat.mul_div_cancel i hps]
  omega

/-- The sender answers a RESEND with the fragment it is for. -/
theorem answer (h : Healthy cfg s) (hholds : s.Holds rcv key data) {bytes q : List UInt8}
    (hflight : (⟨rcv, key.1, bytes⟩ : Datagram Addr) ∈ s.flight) {pkt : Packet}
    (hdec : Packet.decode bytes = .ok (pkt, q)) (htyp : pkt.typ = .resend)
    (hid : pkt.msgId = key.2) {i : ℕ}
    (hi : ∀ o : OutMsg, o.data = data →
      fragRange cfg.packetSize data.length i ∈ o.answerRanges cfg pkt) :
    ∃ s', Continues rcv s s' [] ∧ Healthy cfg s' ∧ s'.Holds rcv key data ∧
      s'.receiver = s.receiver ∧ fragmentDatagram cfg rcv key data i ∈ s'.flight := by
  obtain ⟨o, ho, rfl⟩ := hholds
  obtain ⟨src, msgId⟩ := key
  dsimp only at hid ho
  subst hid
  obtain ⟨j, hj⟩ := List.mem_iff_getElem?.mp hflight
  have hstep : s.step rcv (.deliver j s.clock default) =
      some ((s.taken j s.clock).runSender src fun c => c.handleResend rcv pkt s.clock) :=
    step_resend rcv default hj le_rfl hdec htyp
  obtain ⟨hsame, hholds', hsent⟩ :=
    runSender_resend (s := s.taken j s.clock) (h.senders_cfg src) ho s.clock
  have hrecv : ((s.taken j s.clock).runSender src fun c =>
      c.handleResend rcv pkt s.clock).receiver = s.receiver := rfl
  have hdel : ((s.taken j s.clock).runSender src fun c =>
      c.handleResend rcv pkt s.clock).delivered = s.delivered ++ [] := by
    rw [hsame]
    exact (List.append_nil _).symm
  have hhealthy := h.step hstep
  have hfirst := hsent _ (hi o rfl)
  generalize (s.taken j s.clock).runSender src (fun c => c.handleResend rcv pkt s.clock) = s' at *
  exact ⟨s', Continues.single (e := .deliver j s.clock default) trivial hstep hdel, hhealthy,
    hholds', hrecv, hfirst⟩

/-- The entry a missing fragment goes to, a new one or the one at hand, still lacks it. -/
theorem entryFor_fragment {r : ReceiverCore Addr} {src : Addr} {pkt : Packet}
    {payload : List UInt8} {i : ℕ} (hcfg : r.cfg = cfg) (hs : Sendable data)
    (hi : i < count cfg.packetSize data.length) (hf : IsFragment cfg.packetSize data pkt payload)
    (hr : ∀ m, r.incoming.lookup (src, pkt.msgId) = some m →
      m.Rebuilds cfg.packetSize data ∧ m.received[i]? = some false) (now : ℕ) :
    (r.entryFor src pkt now).Rebuilds cfg.packetSize data ∧
      (r.entryFor src pkt now).received[i]? = some false ∧
      (∀ m, r.incoming.lookup (src, pkt.msgId) = some m → r.entryFor src pkt now = m) ∧
      (r.incoming.lookup (src, pkt.msgId) = none →
        r.entryFor src pkt now = InMsg.new cfg data.length now) := by
  unfold ReceiverCore.entryFor
  cases hm : r.incoming.lookup (src, pkt.msgId) with
  | some m =>
    obtain ⟨hrm, hbit⟩ := hr m hm
    exact ⟨hrm, hbit, fun m' hm' => Option.some.inj hm', fun hnone => by cases hnone⟩
  | none =>
    have hnew := InMsg.Rebuilds.new cfg hs.1 now
    rw [Option.getD_none, hf.msgLen, hcfg]
    refine ⟨hnew, ?_, fun m' hm' => (by cases hm'), fun _ => rfl⟩
    rcases hnew.bit_cases hi with hbit | hbit
    · exact hbit
    · simp [InMsg.new, List.getElem?_replicate] at hbit

/-- The fragment arrives: the message is handed over, or its entry has grown. -/
theorem take (h : Healthy cfg s) (hs : Sendable data) {i : ℕ}
    (hi : i < count cfg.packetSize data.length)
    (hflight : fragmentDatagram cfg rcv key data i ∈ s.flight)
    (hlive : key ∉ s.receiver.completed) (hroom : s.receiver.refuses key = false)
    (hr : ∀ m, s.receiver.incoming.lookup key = some m →
      m.Rebuilds cfg.packetSize data ∧ m.received[i]? = some false)
    (hholds : s.Holds rcv key data) :
    ∃ s', Healthy cfg s' ∧ s'.Holds rcv key data ∧
      (Continues rcv s s' [(key, data)] ∨ Continues rcv s s' [] ∧
        ∃ m', s'.receiver.incoming.lookup key = some m' ∧ m'.Rebuilds cfg.packetSize data ∧
          m'.complete = false ∧ m'.unansweredResends = 0 ∧
          (∀ m, s.receiver.incoming.lookup key = some m → m.receivedBytes < m'.receivedBytes ∧
            m.grantedTo ≤ m'.grantedTo) ∧
          (s.receiver.incoming.lookup key = none → m'.receivedBytes ≤ cfg.packetSize ∧
            min cfg.unscheduledBytes data.length ≤ m'.grantedTo)) := by
  have hps := cfg.packetSize_pos
  have hcfg := h.receiver_cfg
  obtain ⟨src, msgId⟩ := key
  obtain ⟨pkt, payload, hdec, htyp, rfl, hf, hidx⟩ := decode_fragment hps hs.2 msgId hi
  obtain ⟨j, hj⟩ := List.mem_iff_getElem?.mp hflight
  obtain ⟨hrebuilds, hbit, hold, hfresh⟩ := entryFor_fragment hcfg hs hi hf hr s.clock
  have hsafe : s.receiver.SafeData src pkt payload s.clock :=
    ReceiverCore.safeData_of_rebuilds (by rwa [hcfg]) (by rwa [hcfg])
  obtain ⟨⟨r', acts⟩, hd⟩ := Option.isSome_iff_exists.mp
    ((ReceiverCore.handleData_isSome h.counters src pkt payload s.clock default).mpr hsafe)
  have hstep : s.step rcv (.deliver j s.clock default) = some (emit rcv acts
      { s.taken j s.clock with receiver := r' }) := step_data rcv hj le_rfl rfl hdec htyp hd
  have hhealthy := h.step hstep
  obtain ⟨m₁, hm₁, hr₁, hbits, _, hstored⟩ := hrebuilds.accept hf s.clock
  have hnew : m₁ = (s.receiver.entryFor src pkt s.clock).stored cfg pkt payload s.clock := by
    rcases hstored with rfl | hstored
    · have htrue := (hbits i).mpr (Or.inr hidx.symm)
      rw [hbit] at htrue
      cases htrue
    · exact hstored
  refine ⟨_, hhealthy, hholds, ?_⟩
  cases ReceiverCore.handleData_spec hd with
  | duplicate hdup => exact absurd hdup hlive
  | refused _ hfull =>
    rw [hroom] at hfull
    cases hfull
  | @store m _ _ _ _ _ hm hopen hsched =>
    right
    rw [hcfg] at hm
    obtain rfl := Option.some.inj (hm.symm.trans hm₁)
    refine ⟨Continues.single (e := .deliver j s.clock default) trivial hstep
      (by rw [← hsched.deliveries]; rfl), ?_⟩
    have hput : (s.receiver.enter (src, pkt.msgId) m).incoming.lookup (src, pkt.msgId) = some m := by
      rw [ReceiverCore.enter, KeyMap.lookup_insert_eq, if_pos rfl]
    obtain ⟨m', hm', hsame, hmore, hcount⟩ := hsched.grows hput
    refine ⟨m', hm', hr₁.of_sameContent hsame, hsame.complete.trans hopen, ?_, fun m₀ hm₀ => ?_,
      fun hnone => ?_⟩
    · rw [hcount, hnew]
      rfl
    · rw [hsame.receivedBytes, hnew, ← hold m₀ hm₀]
      rw [hnew] at hmore
      have hpos : 0 < payload.length := by
        rw [hf.payload_eq, length_fragment, hidx]
        exact fragLen_pos hps hi
      exact ⟨Nat.lt_add_of_pos_right hpos, hmore⟩
    · rw [hsame.receivedBytes, hnew, hfresh hnone]
      rw [hnew, hfresh hnone] at hmore
      have hlen := congrArg List.length hf.payload
      rw [length_slice] at hlen
      simp only [InMsg.stored, InMsg.new] at hmore ⊢
      exact ⟨by omega, hmore⟩
  | @deliver d _ acts' _ _ hdata hsched =>
    left
    have hdone : d = data := by
      rcases hdata with ⟨hzero, _⟩ | ⟨_, m, hm, hcomplete, rfl⟩
      · have hlt := hf.offset_lt
        have hmsg := hf.msgLen
        omega
      · rw [hcfg] at hm
        obtain rfl := Option.some.inj (hm.symm.trans hm₁)
        exact hr₁.buf_eq hps hcomplete
    refine Continues.single (e := .deliver j s.clock default) trivial hstep ?_
    rw [← hdone]
    exact congrArg (s.delivered ++ ·) (by rw [deliveries_deliver, hsched.deliveries])

/-- One round: the first missing fragment is asked for, sent and taken. -/
theorem round (h : Healthy cfg s) (hs : Sendable data) (hinc : 2 ≤ cfg.grantIncrement)
    (hagain : min cfg.packetSize (data.length - 1) + cfg.grantIncrement < 2 ^ 64 ∨
      data.length ≤ cfg.unscheduledBytes)
    (hholds : s.Holds rcv key data) {m : InMsg} (hm : s.receiver.incoming.lookup key = some m)
    (hr : m.Rebuilds cfg.packetSize data) (hopen : m.complete = false) (hgrant : m.Grantable cfg) :
    ∃ s', Healthy cfg s' ∧ s'.Holds rcv key data ∧
      (Continues rcv s s' [(key, data)] ∨ Continues rcv s s' [] ∧
        ∃ m', s'.receiver.incoming.lookup key = some m' ∧ m'.Rebuilds cfg.packetSize data ∧
          m'.complete = false ∧ m'.Grantable cfg ∧ m'.unansweredResends = 0 ∧
          (m.unansweredResends + 1 ≤ maxUnansweredResends →
            m.receivedBytes < m'.receivedBytes)) := by
  have hps := cfg.packetSize_pos
  obtain ⟨s₁, m₁, off, hc₁, h₁, hholds₁, hm₁, hsame₁, hcount, hoff, hgrant₁⟩ :=
    regrant h hinc hholds hm hr hopen hgrant
  have hr₁ := hr.of_sameContent hsame₁
  obtain ⟨i, hi, rfl, hgranted, hbit, _⟩ := InMsg.missingInWindow_spec hoff
  have hwindow := h₁.windows key m₁ hm₁
  rw [hr₁.totalLen] at hwindow
  rw [hr₁.length_received] at hi
  obtain ⟨s₂, bytes, q, hc₂, h₂, hholds₂, hlive, hroom, hentry, hflight, hdec⟩ :=
    ask h₁ hs.2 hholds₁ hm₁ hr₁ (hsame₁.complete.trans hopen) hgrant₁ hoff
  obtain ⟨s₃, hc₃, h₃, hholds₃, hrecv, hfragment⟩ := answer (i := i) h₂ hholds₂ hflight hdec rfl rfl
    fun o ho => by
      subst ho
      exact mem_answerRanges hs.2 hinc hi hgranted hwindow
  rw [← hrecv] at hlive hroom hentry
  obtain ⟨s₄, h₄, hholds₄, hnext⟩ := take h₃ hs hi hfragment hlive hroom (fun m₂ hm₂ => by
    rcases hentry with ⟨hnone, _⟩ | ⟨m₂', hm₂', hsame₂, _⟩
    · rw [hnone] at hm₂
      cases hm₂
    · obtain rfl := Option.some.inj (hm₂.symm.trans hm₂')
      exact ⟨hr₁.of_sameContent hsame₂, by rw [hsame₂.received]; exact hbit⟩) hholds₃
  have hc := (hc₁.trans hc₂).trans hc₃
  refine ⟨s₄, h₄, hholds₄, ?_⟩
  rcases hnext with hdone | ⟨hc₄, m', hm', hr', hopen', hzero, hgrown, hfresh⟩
  · exact Or.inl (hc.trans hdone)
  · obtain ⟨_, _, _, hlt⟩ := hr'.exists_missing hps hopen'
    refine Or.inr ⟨hc.trans hc₄, m', hm', hr', hopen', ?_, hzero, fun hfew => ?_⟩
    · unfold InMsg.Grantable InMsg.SumFits
      rw [hr'.totalLen]
      rcases hentry with ⟨hnone, _⟩ | ⟨m₂, hm₂, hsame₂, hsettled⟩
      · -- the entry was given up, and built anew with one fragment
        obtain ⟨hone, hwin⟩ := hfresh hnone
        omega
      · obtain ⟨_, hmore⟩ := hgrown m₂ hm₂
        rw [hsame₂.totalLen, hr₁.totalLen] at hsettled
        omega
    · rcases hentry with ⟨_, hmany⟩ | ⟨m₂, hm₂, hsame₂, _⟩
      · omega
      · obtain ⟨hmore, _⟩ := hgrown m₂ hm₂
        rwa [hsame₂.receivedBytes, hsame₁.receivedBytes] at hmore

/-- Round after round the message grows until it is handed over. -/
theorem rounds (hs : Sendable data) (hinc : 2 ≤ cfg.grantIncrement)
    (hagain : min cfg.packetSize (data.length - 1) + cfg.grantIncrement < 2 ^ 64 ∨
      data.length ≤ cfg.unscheduledBytes) (n : ℕ) :
    ∀ {s : Network Addr} {m : InMsg}, Healthy cfg s → s.Holds rcv key data →
      s.receiver.incoming.lookup key = some m → m.Rebuilds cfg.packetSize data →
      m.complete = false → m.Grantable cfg → m.unansweredResends + 1 ≤ maxUnansweredResends →
      data.length ≤ m.receivedBytes + n → ∃ s', Continues rcv s s' [(key, data)] := by
  induction n with
  | zero =>
    intro s m h hholds hm hr hopen hgrant hfew hn
    obtain ⟨_, _, _, hlt⟩ := hr.exists_missing cfg.packetSize_pos hopen
    omega
  | succ n ih =>
    intro s m h hholds hm hr hopen hgrant hfew hn
    obtain ⟨s', h', hholds', hdone | ⟨hc, m', hm', hr', hopen', hgrant', hzero, hgrown⟩⟩ :=
      round h hs hinc hagain hholds hm hr hopen hgrant
    · exact ⟨s', hdone⟩
    · have hlt := hgrown hfew
      obtain ⟨s'', hc'⟩ :=
        ih h' hholds' hm' hr' hopen' hgrant' (by rw [hzero]; decide) (by omega)
      exact ⟨s'', hc.trans hc'⟩

/-- In a run in which no GRANT splits a fragment, a message that both sides hold can be
delivered without further losses, if the sum of its next grant fits, or all of it was granted,
and if it could be granted to the end again after it was given up. -/
theorem recoverable (cfg : TransportConfig) (hinc : 2 ≤ cfg.grantIncrement) (rcv : Addr)
    {evs : List (Event Addr)} {s : Network Addr}
    (h : Run (Network.step rcv) (Network.Admits Policy.whole) (Network.new cfg) evs s)
    {key : MsgKey Addr} {m : InMsg} {o : OutMsg}
    (hm : s.receiver.incoming.lookup key = some m)
    (ho : (s.senders key.1).out.lookup (rcv, key.2) = some o)
    (hgrant : m.receivedBytes + cfg.grantIncrement < 2 ^ 64 ∨ m.totalLen ≤ m.grantedTo)
    (hagain : min cfg.packetSize (o.data.length - 1) + cfg.grantIncrement < 2 ^ 64 ∨
      o.data.length ≤ cfg.unscheduledBytes) :
    ∃ evs' s', Run (Network.step rcv) Recovers s evs' s' ∧
      s'.delivered = s.delivered ++ [(key, o.data)] := by
  have htraced := Traced.of_run h
  have hstarted := htraced.out_data key o ho
  have hs := htraced.admitted _ _ hstarted
  obtain ⟨now, hsteps⟩ := htraced.traced _ _ hstarted hs.2
  have hfaithful := Transfer.Faithful.of_steps hs (fun _ _ hg => hg) hsteps
  obtain ⟨hr, hopen⟩ := hfaithful.entry m hm
  have hhealthy : Healthy cfg s :=
    h.invariant (fun _ _ _ hh _ hstep => hh.step hstep) (Healthy.new cfg)
  -- the first round may find the entry given up, the later ones do not
  obtain ⟨s₁, h₁, hholds₁, hdone | ⟨hc, m₁, hm₁, hr₁, hopen₁, hgrant₁, hzero, _⟩⟩ :=
    round hhealthy hs hinc hagain ⟨o, ho, rfl⟩ hm hr hopen hgrant
  · obtain ⟨⟨evs', hrun⟩, hdel⟩ := hdone
    exact ⟨evs', s₁, hrun, hdel⟩
  · obtain ⟨s₂, hc'⟩ := rounds hs hinc hagain o.data.length h₁ hholds₁ hm₁ hr₁ hopen₁ hgrant₁
      (by rw [hzero]; decide) (Nat.le_add_left _ _)
    obtain ⟨⟨evs', hrun⟩, hdel⟩ := hc.trans hc'
    exact ⟨evs', s₂, hrun, hdel⟩

/-- The first GRANT was lost, a RESEND made up for it, and then the last fragment was lost. -/
theorem recoverable_ten : ∃ (s : Network ℕ) (evs : List (Event ℕ)) (s' : Network ℕ),
    Run (Network.step 1) (Network.Admits Policy.whole) (Network.new evenConfig)
      (evenRun.take 7 ++ [.drop 0]) s ∧
    s.flight = [] ∧ s.delivered = [] ∧ Run (Network.step 1) Recovers s evs s' ∧
    s'.delivered = [((0, 1), [1, 2, 3, 4, 5, 6, 7, 8, 9, 10])] := by
  have hout : (exec (guarded (Network.step 1) (Network.Admits Policy.whole))
      (evenRun.take 7 ++ [.drop 0]) (Network.new evenConfig)).map (fun s =>
        (s.flight.length, s.delivered.length,
          (s.receiver.incoming.lookup (0, 1)).map InMsg.receivedBytes,
          ((s.senders 0).out.lookup (1, 1)).map OutMsg.data)) =
            some (0, 0, some 8, some [1, 2, 3, 4, 5, 6, 7, 8, 9, 10]) := by
    decide +kernel
  obtain ⟨s, hs, hview⟩ := Option.map_eq_some_iff.mp hout
  simp only [Prod.mk.injEq] at hview
  obtain ⟨hflight, hdelivered, hentry, hsender⟩ := hview
  have hdel : s.delivered = [] := List.eq_nil_of_length_eq_zero hdelivered
  obtain ⟨m, hm, hbytes⟩ := Option.map_eq_some_iff.mp hentry
  obtain ⟨o, ho, hdata⟩ := Option.map_eq_some_iff.mp hsender
  have hrun := run_of_guarded hs
  obtain ⟨evs, s', hrun', hnew⟩ := recoverable evenConfig (by decide) 1 hrun hm ho
    (Or.inl (by rw [hbytes]; decide)) (Or.inl (by rw [hdata]; decide))
  exact ⟨s, evs, s', hrun, List.eq_nil_of_length_eq_zero hflight, hdel, hrun',
    by rw [hnew, hdel, hdata]; rfl⟩

end Network

/-- A transfer in which nothing is missing and yet the byte counter is not full. -/
structure Transfer.Stuck (data : List UInt8) (t : Transfer) : Prop where
  entry : ∃ m, t.entry = some m ∧ (∀ i : ℕ, m.received[i]? ≠ some false) ∧ m.complete = false
  out : ∀ o, t.out = some o → o.data = data
  sent : ∀ x ∈ t.sent, x.1.msgLen.toNat = data.length
  delivered : t.delivered = ∅

namespace Transfer

variable {cfg : TransportConfig} {p : Policy} {rcv : Addr} {key : MsgKey Addr}
  {data : List UInt8} {t t' : Transfer}

theorem Stuck.send (h : Stuck data t) (hlen : data.length < 2 ^ 32) {o : OutMsg}
    (ho : o.data = data) (msgId : UInt64) (rs : List (ℕ × ℕ)) :
    Stuck data { t with out := some o, sent := t.sent ∪ frames data msgId rs } where
  entry := h.entry
  out o' ho' := by
    obtain rfl := Option.some.inj ho'
    exact ho
  sent x hx := by
    rcases hx with hx | ⟨r, _, rfl⟩
    · exact h.sent x hx
    · exact toNat_ofNat_u32 hlen
  delivered := h.delivered

omit [DecidableEq Addr] in
/-- No packet completes the message, and no tick asks for anything or gives it up. -/
theorem Stuck.step (h : Stuck data t) (hs : Sendable data) (hstep : Step cfg p rcv key t t') :
    Stuck data t' := by
  obtain ⟨m, hm, hfull, hopen⟩ := h.entry
  have haccept : ∀ {pkt payload now m'},
      (t.entryFor cfg pkt now).accept cfg pkt payload now = some m' → m' = m := by
    intro pkt payload now m' hm'
    rw [entryFor, hm, Option.getD_some, InMsg.accept_of_not_fits fun hfits => hfull _ hfits.1] at hm'
    exact (Option.some.inj hm').symm
  have hmiss : ∀ {off m'}, t.entry = some m' → m'.missingInWindow cfg ≠ some off := by
    intro off m' hm' hoff
    obtain rfl := Option.some.inj (hm.symm.trans hm')
    obtain ⟨i, _, _, _, hbit, _⟩ := InMsg.missingInWindow_spec hoff
    exact hfull i hbit
  cases hstep with
  | @grant o pkt now hout =>
    obtain rfl := h.out o hout
    exact h.send hs.2 (OutMsg.handleGrant_data cfg rcv pkt now o) key.2 _
  | @resend o pkt now hout =>
    obtain rfl := h.out o hout
    have hdata : (o.handleResend cfg rcv pkt now).1.data = o.data := rfl
    exact h.send hs.2 hdata key.2 _
  | @busy o now hout =>
    refine ⟨h.entry, fun o' ho' => ?_, h.sent, h.delivered⟩
    obtain rfl := Option.some.inj ho'
    exact h.out o hout
  | @poke o now hout =>
    obtain rfl := h.out o hout
    have hdata : ({ o with lastProgress := now } : OutMsg).data = o.data := rfl
    exact h.send hs.2 hdata key.2 _
  | reclaim => exact ⟨h.entry, fun o ho => (by cases ho), h.sent, h.delivered⟩
  | store now hsent hm' =>
    obtain rfl := haccept hm'
    exact ⟨⟨_, rfl, hfull, hopen⟩, h.out, h.sent, h.delivered⟩
  | deliver now hsent hdata =>
    rcases hdata with ⟨hzero, _⟩ | ⟨_, m', hm', hcomplete, _⟩
    · have hpos := List.length_pos_of_ne_nil hs.1
      rw [h.sent _ hsent] at hzero
      omega
    · obtain rfl := haccept hm'
      rw [hopen] at hcomplete
      cases hcomplete
  | rewindow hentry hsame =>
    obtain rfl := Option.some.inj (hm.symm.trans hentry)
    refine ⟨⟨_, rfl, ?_, hsame.complete.trans hopen⟩, h.out, h.sent, h.delivered⟩
    rw [hsame.received]
    exact hfull
  | ask hentry hoff => exact absurd hoff (hmiss hentry)
  | giveUp hentry hoff => exact absurd hoff (hmiss hentry)

omit [DecidableEq Addr] in
theorem Stuck.steps (h : Stuck data t) (hs : Sendable data) (hsteps : Steps cfg p rcv key t t') :
    Stuck data t' := by
  induction hsteps with
  | refl => exact h
  | tail _ hstep ih => exact ih.step hs hstep

end Transfer

namespace Network

/-- The first GRANT and one of the fragments resent for it are lost. The GRANT that
follows makes the sender go on from byte 10, in pieces that the receiver takes for the
last two fragments. -/
def stuckRun : List (Event ℕ) :=
  [.start 0 1 [1, 2, 3, 4, 5, 6, 7, 8, 9, 10, 11, 12, 13, 14, 15, 16] 0,
    .deliver 0 0 default, .drop 0, .receiverTick 1 default, .deliver 0 1 default, .drop 1,
    .deliver 0 1 default, .deliver 0 1 default, .deliver 0 1 default, .deliver 0 1 default,
    .deliver 0 1 default]

/-- Nothing is missing at the receiver and nothing is in flight, both sides hold the
message, and no continuation delivers it. -/
theorem recoverable_fails : ∃ s : Network ℕ,
    Run (Network.step 1) (Network.Admits Policy.sendable) (Network.new sixConfig) stuckRun s ∧
    (0, 1) ∈ s.receiver.incoming ∧ (1, 1) ∈ (s.senders 0).out ∧
    ∀ evs s', Run (Network.step 1) Recovers s evs s' → ∀ data, ((0, 1), data) ∉ s'.delivered := by
  have hout : (exec (Network.step 1) stuckRun (Network.new sixConfig)).map
      (fun s => (s.started, s.delivered)) =
        some ([((0, 1), [1, 2, 3, 4, 5, 6, 7, 8, 9, 10, 11, 12, 13, 14, 15, 16])], []) := by
    decide +kernel
  have hsides : (exec (Network.step 1) stuckRun (Network.new sixConfig)).map
      (fun s => (((s.senders 0).out.lookup (1, 1)).isSome,
        (s.receiver.incoming.lookup (0, 1)).map fun m => (m.received, m.complete))) =
        some (true, some ([true, true, true, true], false)) := by
    decide +kernel
  obtain ⟨s, hs, hview⟩ := Option.map_eq_some_iff.mp hout
  rw [hs] at hsides
  obtain ⟨hstarted, hdelivered⟩ := Prod.mk.inj hview
  obtain ⟨hsender, hreceiver⟩ := Prod.mk.inj (Option.some.inj hsides)
  obtain ⟨o, ho⟩ := Option.isSome_iff_exists.mp hsender
  obtain ⟨m, hm, hbits⟩ := Option.map_eq_some_iff.mp hreceiver
  obtain ⟨hreceived, hopen⟩ := Prod.mk.inj hbits
  have hrun : Run (Network.step 1) (Network.Admits Policy.sendable) (Network.new sixConfig)
      stuckRun s := by
    refine run_of_admitted hs (admitted_sendable 1 ?_ _)
    intro src msgId data now hmem
    obtain ⟨-, -, rfl, -⟩ : src = 0 ∧ msgId = 1 ∧
        data = [1, 2, 3, 4, 5, 6, 7, 8, 9, 10, 11, 12, 13, 14, 15, 16] ∧ now = 0 := by
      simpa [stuckRun] using hmem
    exact ⟨by decide, by decide⟩
  have htraced := Traced.of_run hrun
  have hmem : ((0, 1), [1, 2, 3, 4, 5, 6, 7, 8, 9, 10, 11, 12, 13, 14, 15, 16]) ∈ s.started := by
    rw [hstarted]
    exact List.mem_singleton.mpr rfl
  have hsend := htraced.admitted _ _ hmem
  obtain ⟨now, hsteps⟩ := htraced.traced _ _ hmem hsend.2
  have hstuck : Transfer.Stuck [1, 2, 3, 4, 5, 6, 7, 8, 9, 10, 11, 12, 13, 14, 15, 16]
      (s.transfer 1 (0, 1)) := by
    refine ⟨⟨m, hm, ?_, hopen⟩, fun o ho => (hsteps.out_within o ho).1, ?_, ?_⟩
    · rw [hreceived]
      intro i hi
      have hin := List.mem_of_getElem? hi
      simp at hin
    · exact fun x hx => ((Transfer.Transmits.of_steps hsend.2 hsteps).sent x hx).1
    · ext data
      simp [transfer, hdelivered]
  refine ⟨s, hrun, KeyMap.mem_iff_lookup.mpr ⟨m, hm⟩, KeyMap.mem_iff_lookup.mpr ⟨o, ho⟩, ?_⟩
  intro evs s' hcont data hdata
  have hcont' : Run (Network.step 1) (Network.Admits Policy.sendable) s evs s' :=
    hcont.weaken fun u e hok => admits_sendable u fun src msgId data now heq => by
      subst heq
      cases hok
  have hend := hstuck.steps hsend (htraced.steps_of_run hcont' hmem hsend.2)
  have hin : data ∈ (s'.transfer 1 (0, 1)).delivered := hdata
  rw [hend.delivered] at hin
  cases hin

end Network
end AgentTransport
