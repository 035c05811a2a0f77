import AgentTransport.Projection

/-!
# Every event moves the transfers

A network state has a transfer for each key. An event of the network is for each key
a sequence of moves of its transfer, often an empty one. So what the moves of a
transfer keep is an invariant of the network.
-/
namespace AgentTransport
open Transition

variable {Addr : Type} [DecidableEq Addr]

namespace Network

/-- What the network says about the message `key`. -/
def transfer (rcv : Addr) (s : Network Addr) (key : MsgKey Addr) : Transfer where
  out := (s.senders key.1).out.lookup (rcv, key.2)
  entry := s.receiver.incoming.lookup key
  sent := {x | ∃ d ∈ s.emitted, d.src = key.1 ∧ d.dest = rcv ∧
    Packet.decode d.bytes = .ok x ∧ x.1.typ = .data ∧ x.1.msgId = key.2}
  resends := {pkt | ∃ d ∈ s.emitted, ∃ q, d.src = rcv ∧ d.dest = key.1 ∧
    Packet.decode d.bytes = .ok (pkt, q) ∧ pkt.typ = .resend ∧ pkt.msgId = key.2}
  delivered := {data | (key, data) ∈ s.delivered}

variable {rcv : Addr} {s : Network Addr} {key : MsgKey Addr}

theorem sent_emit (src : Addr) (acts : List (Action Addr)) :
    ((emit src acts s).transfer rcv key).sent =
      (s.transfer rcv key).sent ∪ {x | src = key.1 ∧ x ∈ packetsFor .data rcv key.2 acts} := by
  ext x
  simp only [transfer, emit, List.mem_append, mem_datagrams, Set.mem_ofPred_eq, Set.mem_union]
  constructor
  · rintro ⟨d, hd | ⟨rfl, hd⟩, hsrc, rfl, hdec, htyp, hid⟩
    · exact Or.inl ⟨d, hd, hsrc, rfl, hdec, htyp, hid⟩
    · exact Or.inr ⟨hsrc, d.bytes, hd, hdec, htyp, hid⟩
  · rintro (⟨d, hd, hx⟩ | ⟨rfl, bytes, hd, hx⟩)
    · exact ⟨d, Or.inl hd, hx⟩
    · exact ⟨⟨key.1, rcv, bytes⟩, Or.inr ⟨rfl, hd⟩, rfl, rfl, hx⟩

theorem resends_emit (src : Addr) (acts : List (Action Addr)) :
    ((emit src acts s).transfer rcv key).resends =
      (s.transfer rcv key).resends ∪
        {pkt | src = rcv ∧ ∃ q, (pkt, q) ∈ packetsFor .resend key.1 key.2 acts} := by
  ext x
  simp only [transfer, emit, List.mem_append, mem_datagrams, Set.mem_ofPred_eq, Set.mem_union]
  constructor
  · rintro ⟨d, hd | ⟨rfl, hd⟩, q, hsrc, hdest, hdec, htyp, hid⟩
    · exact Or.inl ⟨d, hd, q, hsrc, hdest, hdec, htyp, hid⟩
    · exact Or.inr ⟨hsrc, q, d.bytes, hdest ▸ hd, hdec, htyp, hid⟩
  · rintro (⟨d, hd, hx⟩ | ⟨rfl, q, bytes, hd, hx⟩)
    · exact ⟨d, Or.inl hd, hx⟩
    · exact ⟨⟨src, key.1, bytes⟩, Or.inr ⟨rfl, hd⟩, q, rfl, rfl, hx⟩

/-- The transfers after a sender ran. -/
theorem transfer_runSender {host : Addr}
    {handler : SenderCore Addr → SenderCore Addr × List (Action Addr)}
    (hdata : EmitsOnly (· = .data) (handler (s.senders host)).2)
    (hdel : deliveries (handler (s.senders host)).2 = []) (key : MsgKey Addr) :
    (s.runSender host handler).transfer rcv key = { s.transfer rcv key with
      out := if key.1 = host then (handler (s.senders host)).1.out.lookup (rcv, key.2)
        else (s.transfer rcv key).out
      sent := (s.transfer rcv key).sent ∪
        {x | host = key.1 ∧ x ∈ packetsFor .data rcv key.2 (handler (s.senders host)).2} } := by
  have hempty := hdata.packetsFor_eq (show PacketType.resend ≠ .data by decide) key.1 key.2
  apply Transfer.ext
  · simp only [transfer, runSender, emit, Function.update_apply]
    split_ifs <;> rfl
  · rfl
  · exact sent_emit host _
  · refine (resends_emit host _).trans ?_
    simp only [hempty, Set.mem_empty_iff_false, exists_false, and_false, Set.ofPred_false,
      Set.union_empty]
    rfl
  · simp only [transfer, runSender, emit, hdel, List.append_nil]

/-- The transfers after the receiver ran. -/
theorem transfer_runReceiver (rcv : Addr) (s : Network Addr) (r' : ReceiverCore Addr)
    {acts : List (Action Addr)} (hdata : EmitsOnly (· ≠ .data) acts) (key : MsgKey Addr) :
    (emit rcv acts { s with receiver := r' }).transfer rcv key = { s.transfer rcv key with
      entry := r'.incoming.lookup key
      resends := (s.transfer rcv key).resends ∪
        {pkt | ∃ q, (pkt, q) ∈ packetsFor .resend key.1 key.2 acts}
      delivered := (s.transfer rcv key).delivered ∪ {data | (key, data) ∈ deliveries acts} } := by
  have hempty := hdata.packetsFor_eq (show ¬ PacketType.data ≠ .data from not_not.mpr rfl) rcv key.2
  apply Transfer.ext
  · rfl
  · rfl
  · refine (sent_emit rcv _).trans ?_
    simp only [hempty, Set.mem_empty_iff_false, and_false, Set.ofPred_false, Set.union_empty]
    rfl
  · refine (resends_emit rcv _).trans ?_
    simp only [true_and]
    rfl
  · ext data
    simp only [transfer, emit, Set.mem_ofPred_eq, List.mem_append, Set.mem_union]

/-- A handler on the sender's entry `k` moves at most the transfer of the message that
`k` names, from the entry it finds there. -/
theorem transfer_update (rcv : Addr) (s : Network Addr) (host : Addr) (k : MsgKey Addr)
    (f : SenderCore Addr → SenderCore Addr × List (Action Addr))
    {handler : OutMsg → OutMsg × List (Action Addr)} (rs : OutMsg → List (ℕ × ℕ))
    (hf : f (s.senders host) = (s.senders host).update k handler)
    (hacts : ∀ m, (handler m).2 = sendRanges k.1 k.2 m.data (rs m)) {key : MsgKey Addr}
    (hlen : ∀ o, (s.transfer rcv key).out = some o → o.data.length < 2 ^ 32) :
    (s.runSender host f).transfer rcv key = s.transfer rcv key ∨
      ∃ o, key.1 = host ∧ k = (rcv, key.2) ∧ (s.transfer rcv key).out = some o ∧
        (s.runSender host f).transfer rcv key = { s.transfer rcv key with
          out := some (handler o).1
          sent := (s.transfer rcv key).sent ∪ frames o.data key.2 (rs o) } := by
  have houtputs := (s.senders host).update_outputs k handler
  have hlook := (s.senders host).lookup_update k handler (rcv, key.2)
  rw [← hf] at houtputs hlook
  cases hm : (s.senders host).out.lookup k with
  | none =>
    left
    rw [hm, Option.map_none, Option.getD_none] at houtputs
    have hout : (f (s.senders host)).1.out.lookup (rcv, key.2) =
        (s.senders host).out.lookup (rcv, key.2) := by
      rw [hlook]
      split_ifs with hk
      · rw [hk, hm, Option.map_none]
      · rfl
    rw [transfer_runSender (by rw [houtputs]; exact EmitsOnly.nil) (by rw [houtputs]; rfl) key,
      houtputs, hout]
    apply Transfer.ext
    · dsimp only
      split_ifs with hk
      · rw [← hk]
        rfl
      · rfl
    · rfl
    · simp [packetsFor]
    · rfl
    · rfl
  | some m =>
    rw [hm, Option.map_some, Option.getD_some, hacts] at houtputs
    rw [transfer_runSender (by rw [houtputs]; exact emitsOnly_sendRanges _ _ _ _)
      (by rw [houtputs]; exact deliveries_sendRanges _ _ _ _) key, houtputs, hlook]
    by_cases hown : key.1 = host ∧ k = (rcv, key.2)
    · obtain ⟨rfl, rfl⟩ := hown
      refine Or.inr ⟨m, rfl, rfl, hm, ?_⟩
      rw [packetsFor_sendRanges (hlen m hm)]
      simp only [if_true, true_and, hm, Option.map_some, Set.ofPred_mem_eq]
    · left
      apply Transfer.ext
      · dsimp only
        split_ifs with hhost hk
        · exact absurd ⟨hhost, hk.symm⟩ hown
        · rw [← hhost]
          rfl
        · rfl
      · rfl
      · rcases not_and_or.mp hown with hhost | hk
        · simp [Ne.symm hhost]
        · rw [packetsFor_sendRanges_of_ne hk]
          simp
      · rfl
      · rfl

/-- Facts about how the hosts and the network are set up. -/
structure Wired (cfg : TransportConfig) (s : Network Addr) : Prop where
  senders_cfg : ∀ a, (s.senders a).cfg = cfg
  receiver_cfg : s.receiver.cfg = cfg
  flight_emitted : ∀ d ∈ s.flight, d ∈ s.emitted

variable {cfg : TransportConfig} {p : Policy} {s' : Network Addr} {e : Event Addr}

omit [DecidableEq Addr] in
theorem Wired.new (cfg : TransportConfig) : Wired cfg (Network.new cfg : Network Addr) where
  senders_cfg _ := rfl
  receiver_cfg := rfl
  flight_emitted d hd := by cases hd

theorem Wired.runSender (h : Wired cfg s) {host : Addr}
    {f : SenderCore Addr → SenderCore Addr × List (Action Addr)}
    (hf : (f (s.senders host)).1.cfg = (s.senders host).cfg) :
    Wired cfg (s.runSender host f) where
  senders_cfg a := by
    simp only [Network.runSender, emit, Function.update_apply]
    split_ifs with ha
    · rw [hf, h.senders_cfg]
    · exact h.senders_cfg a
  receiver_cfg := h.receiver_cfg
  flight_emitted d hd := by
    rcases List.mem_append.mp hd with hd | hd
    · exact List.mem_append_left _ (h.flight_emitted d hd)
    · exact List.mem_append_right _ hd

omit [DecidableEq Addr] in
theorem Wired.runReceiver (h : Wired cfg s) {r' : ReceiverCore Addr} {acts : List (Action Addr)}
    (hcfg : r'.cfg = s.receiver.cfg) : Wired cfg (emit rcv acts { s with receiver := r' }) where
  senders_cfg := h.senders_cfg
  receiver_cfg := hcfg.trans h.receiver_cfg
  flight_emitted d hd := by
    rcases List.mem_append.mp hd with hd | hd
    · exact List.mem_append_left _ (h.flight_emitted d hd)
    · exact List.mem_append_right _ hd

omit [DecidableEq Addr] in
theorem Wired.taken (h : Wired cfg s) (i now : ℕ) : Wired cfg (s.taken i now) where
  senders_cfg := h.senders_cfg
  receiver_cfg := h.receiver_cfg
  flight_emitted d hd := h.flight_emitted d (List.mem_of_mem_eraseIdx hd)

theorem Wired.effect (h : Wired cfg s) (he : Effect rcv s e s') : Wired cfg s' := by
  cases he with
  | @start src msgId data now =>
    have h' : Wired cfg ({ s with clock := now, started := s.started ++ [((src, msgId), data)] } :
        Network Addr) := ⟨h.senders_cfg, h.receiver_cfg, h.flight_emitted⟩
    exact h'.runSender (SenderCore.update_cfg _ _ _)
  | ignored => exact h.taken _ _
  | data hd hclock hdest hdec htyp hr =>
    exact (h.taken _ _).runReceiver (ReceiverCore.handleData_spec hr).cfg_eq
  | grant => exact (h.taken _ _).runSender (SenderCore.update_cfg _ _ _)
  | resend => exact (h.taken _ _).runSender (SenderCore.update_cfg _ _ _)
  | busy => exact (h.taken _ _).runSender (SenderCore.update_cfg _ _ _)
  | drop =>
    exact ⟨h.senders_cfg, h.receiver_cfg,
      fun d hd => h.flight_emitted d (List.mem_of_mem_eraseIdx hd)⟩
  | @duplicate i d hd =>
    refine ⟨h.senders_cfg, h.receiver_cfg, fun d' hd' => ?_⟩
    rcases List.mem_append.mp hd' with hd' | hd'
    · exact h.flight_emitted d' hd'
    · rw [List.mem_singleton.mp hd']
      exact h.flight_emitted d (List.mem_of_getElem? hd)
  | @senderTick host now order hclock =>
    have h' : Wired cfg ({ s with clock := now } : Network Addr) :=
      ⟨h.senders_cfg, h.receiver_cfg, h.flight_emitted⟩
    exact h'.runSender (SenderCore.tick_cfg _ _ _)
  | @receiverTick now order r' acts hclock hr =>
    have h' : Wired cfg ({ s with clock := now } : Network Addr) :=
      ⟨h.senders_cfg, h.receiver_cfg, h.flight_emitted⟩
    exact h'.runReceiver (ReceiverCore.tick_cfg hr)

/-- The probes a tick of a sender sends for one message. -/
theorem packetsFor_tick (c : SenderCore Addr) (now : ℕ) (order : MapOrder (MsgKey Addr))
    (dest : Addr) (msgId : UInt64) :
    packetsFor .data dest msgId (c.tick now order).2 =
      {x | ∃ m, c.out.lookup (dest, msgId) = some m ∧ m.lingers c.cfg now ∧
        x ∈ packetsFor .data dest msgId
          (sendRanges dest msgId m.data (m.tickEntry c.cfg now).2)} := by
  ext x
  constructor
  · rintro ⟨bytes, hmem, hx⟩
    obtain ⟨k, m, hm, hlinger, ha⟩ := (c.mem_tick_acts now order).mp hmem
    have hk : k = (dest, msgId) := by
      by_contra hne
      have hin : x ∈ packetsFor .data dest msgId
          (sendRanges k.1 k.2 m.data (m.tickEntry c.cfg now).2) := ⟨bytes, ha, hx⟩
      rw [packetsFor_sendRanges_of_ne hne] at hin
      cases hin
    subst hk
    exact ⟨m, hm, hlinger, bytes, ha, hx⟩
  · rintro ⟨m, hm, hlinger, bytes, ha, hx⟩
    exact ⟨bytes, (c.mem_tick_acts now order).mpr ⟨_, m, hm, hlinger, ha⟩, hx⟩

theorem emitsOnly_tick (c : SenderCore Addr) (now : ℕ) (order : MapOrder (MsgKey Addr)) :
    EmitsOnly (· = .data) (c.tick now order).2 := by
  intro dest bytes hmem
  obtain ⟨k, m, _, _, ha⟩ := (c.mem_tick_acts now order).mp hmem
  exact emitsOnly_sendRanges _ _ _ _ dest bytes ha

theorem deliveries_senderTick (c : SenderCore Addr) (now : ℕ) (order : MapOrder (MsgKey Addr)) :
    deliveries (c.tick now order).2 = [] := by
  apply deliveries_of_sends
  intro a ha
  obtain ⟨k, m, _, _, ha⟩ := (c.mem_tick_acts now order).mp ha
  obtain ⟨r, _, rfl⟩ := List.mem_map.mp ha
  exact ⟨_, _, rfl⟩

/-- A tick of a sender reclaims the entry of a message, probes it, or leaves it. -/
theorem steps_senderTick (hcfg : ∀ a, (s.senders a).cfg = cfg) (host : Addr) (now : ℕ)
    (order : MapOrder (MsgKey Addr)) (key : MsgKey Addr)
    (hlen : ∀ o, (s.transfer rcv key).out = some o → o.data.length < 2 ^ 32) :
    Transfer.Steps cfg p rcv key (s.transfer rcv key)
      ((s.runSender host fun c => c.tick now order).transfer rcv key) := by
  rw [transfer_runSender (emitsOnly_tick _ now order) (deliveries_senderTick _ now order) key,
    packetsFor_tick, SenderCore.lookup_tick, hcfg host]
  by_cases hhost : host = key.1
  swap
  · have hsame : ({ s.transfer rcv key with
        out := if key.1 = host then ((((s.senders host).out.lookup (rcv, key.2)).filter
          fun m => m.lingers cfg now).map fun m => (m.tickEntry cfg now).1)
          else (s.transfer rcv key).out
        sent := (s.transfer rcv key).sent ∪ {x | host = key.1 ∧ x ∈ {x | ∃ m,
          (s.senders host).out.lookup (rcv, key.2) = some m ∧ m.lingers cfg now ∧
          x ∈ packetsFor .data rcv key.2
            (sendRanges rcv key.2 m.data (m.tickEntry cfg now).2)}} } : Transfer) =
        s.transfer rcv key := by
      apply Transfer.ext
      · exact if_neg (Ne.symm hhost)
      · rfl
      · simp [hhost]
      · rfl
      · rfl
    rw [hsame]
  subst hhost
  simp only [if_true, true_and]
  cases hm : (s.senders key.1).out.lookup (rcv, key.2) with
  | none =>
    have hout : (s.transfer rcv key).out = none := hm
    have hsame : ({ s.transfer rcv key with
        out := none
        sent := (s.transfer rcv key).sent ∪ ∅ } : Transfer) = s.transfer rcv key := by
      rw [← hout, Set.union_empty]
    simp only [Option.filter_none, Option.map_none, reduceCtorEq, false_and, exists_false,
      Set.ofPred_false, Set.mem_empty_iff_false]
    rw [hsame]
  | some m =>
    have hout : (s.transfer rcv key).out = some m := hm
    simp only [Option.some.injEq, exists_eq_left']
    by_cases hlinger : m.lingers cfg now
    · simp only [hlinger, true_and, Option.filter_some, if_true, Option.map_some,
        packetsFor_sendRanges (hlen m hout), Set.ofPred_mem_eq]
      unfold OutMsg.tickEntry
      split_ifs with hstalled
      · exact Relation.ReflTransGen.single
          (Transfer.Step.poke now hout (OutMsg.doneAt_of_stalled hstalled))
      · have hsame : ({ s.transfer rcv key with
            out := some m
            sent := (s.transfer rcv key).sent ∪ frames m.data key.2 [] } : Transfer) =
            s.transfer rcv key := by
          rw [frames_nil, Set.union_empty, ← hout]
        rw [hsame]
    · have hdone : m.doneAt.isSome := by
        by_contra hnone
        rw [Option.not_isSome_iff_eq_none] at hnone
        simp [OutMsg.lingers, hnone] at hlinger
      have hreclaim : ({ s.transfer rcv key with
          out := none
          sent := (s.transfer rcv key).sent ∪ ∅ } : Transfer) =
          { s.transfer rcv key with out := none } := by
        rw [Set.union_empty]
      simp only [hlinger, Option.filter_some, Bool.false_eq_true, if_false, Option.map_none,
        false_and, Set.ofPred_false, Set.mem_empty_iff_false]
      rw [hreclaim]
      exact Relation.ReflTransGen.single (Transfer.Step.reclaim hout hdone)

/-- The start of another message. -/
theorem transfer_start_of_ne {src : Addr} {msgId : UInt64} {data : List UInt8} {now : ℕ}
    {key : MsgKey Addr} (hne : key ≠ (src, msgId)) :
    (({ s with clock := now, started := s.started ++ [((src, msgId), data)] } :
      Network Addr).runSender src fun c => c.start rcv msgId data now).transfer rcv key =
        s.transfer rcv key := by
  have hacts := (s.senders src).start_acts rcv msgId data now
  have hlook := (s.senders src).lookup_start rcv msgId data now (rcv, key.2)
  rw [transfer_runSender (by rw [hacts]; exact emitsOnly_sendRanges _ _ _ _)
    (by rw [hacts]; exact deliveries_sendRanges _ _ _ _) key]
  apply Transfer.ext
  · dsimp only
    split_ifs with hsrc
    · rw [hlook, if_neg]
      · rw [← hsrc]
        rfl
      · intro hid
        exact hne (Prod.ext hsrc (Prod.mk.inj hid).2)
    · rfl
  · rfl
  · dsimp only
    by_cases hsrc : src = key.1
    · rw [hacts, packetsFor_sendRanges_of_ne]
      · simp [transfer]
      · intro hid
        exact hne (Prod.ext hsrc.symm (Prod.mk.inj hid).2.symm)
    · simp [hsrc, transfer]
  · rfl
  · rfl

theorem steps_receiverTick {now : ℕ} {order : TickOrder Addr} {r' : ReceiverCore Addr}
    {acts : List (Action Addr)} (hcfg : s.receiver.cfg = cfg)
    (hr : s.receiver.tick now order = some (r', acts)) (key : MsgKey Addr) :
    Transfer.Steps cfg p rcv key (s.transfer rcv key)
      ((emit rcv acts { s with clock := now, receiver := r' }).transfer rcv key) := by
  have honly := ReceiverCore.tick_emitsOnly hr
  have hview := transfer_runReceiver rcv { s with clock := now } r'
    (honly.mono (by rintro t (rfl | rfl) <;> simp)) key
  have hdel : (s.transfer rcv key).delivered ∪ {data | (key, data) ∈ deliveries acts} =
      (s.transfer rcv key).delivered := by
    simp [ReceiverCore.tick_deliveries hr]
  refine hview ▸ ?_
  change Transfer.Steps cfg p rcv key (s.transfer rcv key) { s.transfer rcv key with
    entry := r'.incoming.lookup key
    resends := (s.transfer rcv key).resends ∪
      {pkt | ∃ q, (pkt, q) ∈ packetsFor .resend key.1 key.2 acts}
    delivered := (s.transfer rcv key).delivered ∪ {data | (key, data) ∈ deliveries acts} }
  rw [hdel]
  exact Transfer.steps_tick rfl hcfg hr

/-- Every event but the start of the message moves its transfer. -/
theorem steps_effect (h : Wired cfg s) (hok : s.Admits p e) (he : Effect rcv s e s')
    (key : MsgKey Addr) (hkey : ∀ data now, e ≠ .start key.1 key.2 data now)
    (hlen : ∀ o, (s.transfer rcv key).out = some o → o.data.length < 2 ^ 32) :
    Transfer.Steps cfg p rcv key (s.transfer rcv key) (s'.transfer rcv key) := by
  cases he with
  | @start src msgId data now hclock hfresh =>
    have hne : key ≠ (src, msgId) := by
      rintro rfl
      exact hkey data now rfl
    rw [transfer_start_of_ne hne]
  | ignored => exact Relation.ReflTransGen.refl
  | @data i now order d pkt payload r' acts hd hclock hdest hdec htyp hr =>
    have hstep := ReceiverCore.handleData_spec hr
    have honly := hstep.emitsOnly
    rw [transfer_runReceiver rcv (s.taken i now) r' (honly.mono (by rintro t (rfl | rfl) <;> simp)) key,
      honly.packetsFor_eq (by simp)]
    simp only [Set.mem_empty_iff_false, exists_false, Set.ofPred_false, Set.union_empty]
    refine Transfer.steps_dataStep rfl h.receiver_cfg ?_ hstep
    rintro rfl
    exact ⟨d, h.flight_emitted d (List.mem_of_getElem? hd), rfl, hdest, hdec, htyp, rfl⟩
  | @grant i now order d pkt payload hd hclock hdec htyp =>
    have hmove := transfer_update rcv (s.taken i now) d.dest (d.src, pkt.msgId)
      (fun c => c.handleGrant d.src pkt now) (fun o => o.grantRanges cfg pkt) rfl
      (fun m => by rw [OutMsg.handleGrant_acts, ← h.senders_cfg d.dest]; rfl) hlen
    rcases hmove with hsame | ⟨o, hhost, hk, hout, hnew⟩
    · rw [hsame]
      exact Relation.ReflTransGen.refl
    · obtain ⟨hsrc, hid⟩ := Prod.mk.inj hk
      have hgrant : p.grant cfg o pkt := by
        rw [← h.senders_cfg d.dest]
        refine (hok d hd pkt payload hdec o ?_).1 htyp
        rw [hsrc, hid, ← hhost]
        exact hout
      have hcfg : ((s.taken i now).senders d.dest).cfg = cfg := h.senders_cfg d.dest
      rw [hnew, hsrc, hcfg]
      exact Relation.ReflTransGen.single (Transfer.Step.grant pkt now hout hgrant)
  | @resend i now order d pkt payload hd hclock hdec htyp =>
    have hmove := transfer_update rcv (s.taken i now) d.dest (d.src, pkt.msgId)
      (fun c => c.handleResend d.src pkt now) (fun o => o.answerRanges cfg pkt) rfl
      (fun m => by rw [OutMsg.handleResend_acts, ← h.senders_cfg d.dest]; rfl) hlen
    rcases hmove with hsame | ⟨o, hhost, hk, hout, hnew⟩
    · rw [hsame]
      exact Relation.ReflTransGen.refl
    · obtain ⟨hsrc, hid⟩ := Prod.mk.inj hk
      have hresend : p.resend cfg o pkt := by
        rw [← h.senders_cfg d.dest]
        refine (hok d hd pkt payload hdec o ?_).2 htyp
        rw [hsrc, hid, ← hhost]
        exact hout
      have hpkt : pkt ∈ (s.transfer rcv key).resends :=
        ⟨d, h.flight_emitted d (List.mem_of_getElem? hd), payload, hsrc, hhost.symm, hdec, htyp, hid⟩
      have hcfg : ((s.taken i now).senders d.dest).cfg = cfg := h.senders_cfg d.dest
      rw [hnew, hsrc, hcfg]
      exact Relation.ReflTransGen.single (Transfer.Step.resend pkt now hout hpkt hresend)
  | @busy i now order d pkt payload hd hclock hdec htyp =>
    have hbusy : ∀ c : SenderCore Addr, (c.handleBusy d.src pkt now, ([] : List (Action Addr))) =
        c.update (d.src, pkt.msgId) fun m => (m.handleBusy now, []) := by
      intro c
      refine Prod.ext rfl ?_
      rw [SenderCore.update_outputs]
      cases c.out.lookup (d.src, pkt.msgId) <;> rfl
    have hmove := transfer_update rcv (s.taken i now) d.dest (d.src, pkt.msgId)
      (fun c => (c.handleBusy d.src pkt now, [])) (fun _ => []) (hbusy _) (fun m => rfl) hlen
    rcases hmove with hsame | ⟨o, hhost, hk, hout, hnew⟩
    · rw [hsame]
      exact Relation.ReflTransGen.refl
    · rw [hnew, frames_nil, Set.union_empty]
      exact Relation.ReflTransGen.single (Transfer.Step.busy now hout)
  | drop => exact Relation.ReflTransGen.refl
  | duplicate => exact Relation.ReflTransGen.refl
  | @senderTick host now order hclock =>
    exact steps_senderTick h.senders_cfg host now order key hlen
  | @receiverTick now order r' acts hclock hr =>
    exact steps_receiverTick h.receiver_cfg hr key

/-- The entry a sender holds for a message after it ran. -/
theorem out_runSender (rcv : Addr) (s : Network Addr) (host : Addr)
    (f : SenderCore Addr → SenderCore Addr × List (Action Addr)) (key : MsgKey Addr) :
    ((s.runSender host f).transfer rcv key).out =
      if key.1 = host then (f (s.senders host)).1.out.lookup (rcv, key.2)
      else (s.transfer rcv key).out := by
  simp only [transfer, runSender, emit, Function.update_apply]
  split_ifs <;> rfl

theorem out_data_update {host : Addr} {k : MsgKey Addr}
    {f : SenderCore Addr → SenderCore Addr × List (Action Addr)}
    {handler : OutMsg → OutMsg × List (Action Addr)}
    (hf : (f (s.senders host)).1 = ((s.senders host).update k handler).1)
    (hdata : ∀ m, (handler m).1.data = m.data) {o' : OutMsg}
    (ho' : ((s.runSender host f).transfer rcv key).out = some o') :
    ∃ o, (s.transfer rcv key).out = some o ∧ o'.data = o.data := by
  rw [out_runSender, hf, SenderCore.lookup_update] at ho'
  split_ifs at ho' with hhost hk
  · obtain ⟨o, ho, rfl⟩ := Option.map_eq_some_iff.mp ho'
    rw [← hk, ← hhost] at ho
    exact ⟨o, ho, hdata o⟩
  · rw [← hhost] at ho'
    exact ⟨o', ho', rfl⟩
  · exact ⟨o', ho', rfl⟩

/-- Only a start changes the bytes of the entries of the senders. -/
theorem out_data_effect (he : Effect rcv s e s')
    (hstart : ∀ data now, e ≠ .start key.1 key.2 data now) {o' : OutMsg}
    (ho' : (s'.transfer rcv key).out = some o') :
    ∃ o, (s.transfer rcv key).out = some o ∧ o'.data = o.data := by
  cases he with
  | @start src msgId data now hclock hfresh =>
    rw [out_runSender, SenderCore.lookup_start] at ho'
    split_ifs at ho' with hsrc hid
    · obtain rfl := (Prod.mk.inj hid).2
      subst hsrc
      exact absurd rfl (hstart data now)
    · rw [← hsrc] at ho'
      exact ⟨o', ho', rfl⟩
    · exact ⟨o', ho', rfl⟩
  | ignored => exact ⟨o', ho', rfl⟩
  | data => exact ⟨o', ho', rfl⟩
  | @grant i now _ d =>
    exact out_data_update (s := s.taken i now) rfl (OutMsg.handleGrant_data _ _ _ _) ho'
  | @resend i now _ d =>
    exact out_data_update (s := s.taken i now) rfl (fun _ => rfl) ho'
  | @busy i now _ d => exact out_data_update (s := s.taken i now) rfl (fun _ => rfl) ho'
  | drop => exact ⟨o', ho', rfl⟩
  | duplicate => exact ⟨o', ho', rfl⟩
  | @senderTick host now order hclock =>
    rw [out_runSender, SenderCore.lookup_tick] at ho'
    split_ifs at ho' with hhost
    · obtain ⟨o, ho, rfl⟩ := Option.map_eq_some_iff.mp ho'
      rw [← hhost] at ho
      refine ⟨o, (Option.filter_eq_some_iff.mp ho).1, ?_⟩
      unfold OutMsg.tickEntry
      split_ifs <;> rfl
    · exact ⟨o', ho', rfl⟩
  | receiverTick => exact ⟨o', ho', rfl⟩

/-- The start of a message that was not started before makes its first transfer. -/
theorem transfer_start (h : Wired cfg s) {data : List UInt8} (hlen : data.length < 2 ^ 32)
    (hidle : s.transfer rcv key = Transfer.idle) (now : ℕ) :
    (({ s with clock := now, started := s.started ++ [(key, data)] } : Network Addr).runSender
      key.1 fun c => c.start rcv key.2 data now).transfer rcv key =
        Transfer.first cfg key.2 data now := by
  have hacts := (s.senders key.1).start_acts rcv key.2 data now
  have hlook := (s.senders key.1).lookup_start rcv key.2 data now (rcv, key.2)
  rw [transfer_runSender (by rw [hacts]; exact emitsOnly_sendRanges _ _ _ _)
    (by rw [hacts]; exact deliveries_sendRanges _ _ _ _) key]
  dsimp only
  rw [hacts, hlook, packetsFor_sendRanges hlen, h.senders_cfg, if_pos rfl, if_pos rfl]
  have hentry := congrArg Transfer.entry hidle
  have hsent := congrArg Transfer.sent hidle
  have hresends := congrArg Transfer.resends hidle
  have hdelivered := congrArg Transfer.delivered hidle
  apply Transfer.ext
  · rfl
  · exact hentry
  · simp only [true_and, Set.ofPred_mem_eq]
    exact (congrArg (· ∪ _) hsent).trans (Set.empty_union _)
  · exact hresends
  · exact hdelivered

/-- The invariant of every run: a message that was not started is idle, and the
transfer of a started one has come about by its moves. -/
structure Traced (cfg : TransportConfig) (p : Policy) (rcv : Addr) (s : Network Addr) : Prop
    extends Wired cfg s where
  nodup : (s.started.map Prod.fst).Nodup
  admitted : ∀ key data, (key, data) ∈ s.started → p.start data
  idle : ∀ key, key ∉ s.started.map Prod.fst → s.transfer rcv key = Transfer.idle
  out_data : ∀ key o, (s.transfer rcv key).out = some o → (key, o.data) ∈ s.started
  traced : ∀ key data, (key, data) ∈ s.started → data.length < 2 ^ 32 →
    ∃ now, Transfer.Steps cfg p rcv key (Transfer.first cfg key.2 data now) (s.transfer rcv key)

theorem Traced.new (cfg : TransportConfig) (p : Policy) (rcv : Addr) :
    Traced cfg p rcv (Network.new cfg : Network Addr) where
  toWired := Wired.new cfg
  nodup := List.nodup_nil
  admitted key data h := by cases h
  idle key _ := by
    apply Transfer.ext <;> simp [transfer, Network.new, SenderCore.new, ReceiverCore.new,
      Transfer.idle]
  out_data key o ho := by simp [transfer, Network.new, SenderCore.new] at ho
  traced key data h := by cases h

/-- An event that starts nothing keeps the invariant. -/
theorem Traced.move (h : Traced cfg p rcv s) (hok : s.Admits p e) (he : Effect rcv s e s')
    (hstart : ∀ src msgId data now, e ≠ .start src msgId data now)
    (hsame : s'.started = s.started) : Traced cfg p rcv s' where
  toWired := h.toWired.effect he
  nodup := by
    rw [hsame]
    exact h.nodup
  admitted := by
    rw [hsame]
    exact h.admitted
  idle key hkey := by
    rw [hsame] at hkey
    have hidle := h.idle key hkey
    have hsteps := steps_effect h.toWired hok he key (fun data now => hstart _ _ data now)
      (fun o ho => by rw [hidle] at ho; cases ho)
    rw [hidle] at hsteps
    exact hsteps.idle_eq
  out_data key o' ho' := by
    rw [hsame]
    obtain ⟨o, ho, hdata⟩ := out_data_effect he (fun data now => hstart _ _ data now) ho'
    rw [hdata]
    exact h.out_data key o ho
  traced key data hmem hlen := by
    rw [hsame] at hmem
    obtain ⟨now, hsteps⟩ := h.traced key data hmem hlen
    refine ⟨now, hsteps.trans (steps_effect h.toWired hok he key
      (fun data now => hstart _ _ data now) fun o ho => ?_)⟩
    rw [(hsteps.out_within o ho).1]
    exact hlen

/-- The start of a message keeps the invariant. -/
theorem Traced.start (h : Traced cfg p rcv s) {src : Addr} {msgId : UInt64} {data : List UInt8}
    {now : ℕ} (hok : s.Admits p (.start src msgId data now)) (hclock : s.clock ≤ now)
    (hfresh : (src, msgId) ∉ s.started.map Prod.fst) :
    Traced cfg p rcv (({ s with
      clock := now, started := s.started ++ [((src, msgId), data)] } : Network Addr).runSender
        src fun c => c.start rcv msgId data now) := by
  have he : Effect rcv s (.start src msgId data now) _ := Effect.start hclock hfresh
  have hother : ∀ key : MsgKey Addr, key ≠ (src, msgId) → ∀ data' now',
      Event.start src msgId data now ≠ .start key.1 key.2 data' now' := by
    intro key hne data' now' heq
    obtain ⟨hsrc, hid, _, _⟩ := Event.start.inj heq
    exact hne (Prod.ext hsrc.symm hid.symm)
  refine ⟨h.toWired.effect he, ?_, ?_, ?_, ?_, ?_⟩
  · change ((s.started ++ [((src, msgId), data)]).map Prod.fst).Nodup
    rw [List.map_append, List.map_singleton, List.nodup_append]
    refine ⟨h.nodup, List.nodup_singleton _, ?_⟩
    rintro a ha b hb rfl
    rw [List.mem_singleton.mp hb] at ha
    exact hfresh ha
  · intro key data' hmem
    rcases List.mem_append.mp hmem with hmem | hmem
    · exact h.admitted key data' hmem
    · obtain ⟨_, rfl⟩ := Prod.mk.inj (List.mem_singleton.mp hmem)
      exact hok
  · intro key hkey
    change key ∉ (s.started ++ [((src, msgId), data)]).map Prod.fst at hkey
    rw [List.map_append, List.mem_append, not_or] at hkey
    have hne : key ≠ (src, msgId) := fun heq => hkey.2 (by simp [heq])
    have hidle := h.idle key hkey.1
    have hsteps := steps_effect h.toWired hok he key (hother key hne)
      (fun o ho => by rw [hidle] at ho; cases ho)
    rw [hidle] at hsteps
    exact hsteps.idle_eq
  · intro key o' ho'
    by_cases hkey : key = (src, msgId)
    · subst hkey
      rw [out_runSender, if_pos rfl, SenderCore.lookup_start, if_pos rfl] at ho'
      obtain rfl := Option.some.inj ho'
      exact List.mem_append_right _ (List.mem_singleton.mpr rfl)
    · obtain ⟨o, ho, hdata⟩ := out_data_effect he (hother key hkey) ho'
      rw [hdata]
      exact List.mem_append_left _ (h.out_data key o ho)
  · intro key data' hmem hlen
    rcases List.mem_append.mp hmem with hmem | hmem
    · have hne : key ≠ (src, msgId) := by
        rintro rfl
        exact hfresh (List.mem_map.mpr ⟨_, hmem, rfl⟩)
      obtain ⟨now', hsteps⟩ := h.traced key data' hmem hlen
      refine ⟨now', hsteps.trans ?_⟩
      refine steps_effect h.toWired hok he key (hother key hne) fun o ho => ?_
      rw [(hsteps.out_within o ho).1]
      exact hlen
    · obtain ⟨rfl, rfl⟩ := Prod.mk.inj (List.mem_singleton.mp hmem)
      have hfirst := transfer_start h.toWired hlen (h.idle _ hfresh) now
      refine ⟨now, ?_⟩
      rw [hfirst]

theorem Traced.step (h : Traced cfg p rcv s) (hok : s.Admits p e)
    (hs : s.step rcv e = some s') : Traced cfg p rcv s' := by
  have he := step_spec hs
  cases he with
  | @start src msgId data now hclock hfresh => exact h.start hok hclock hfresh
  | ignored hd hclock hskip => exact h.move hok (.ignored hd hclock hskip) (by simp) rfl
  | data hd hclock hdest hdec htyp hr =>
    exact h.move hok (.data hd hclock hdest hdec htyp hr) (by simp) rfl
  | grant hd hclock hdec htyp => exact h.move hok (.grant hd hclock hdec htyp) (by simp) rfl
  | resend hd hclock hdec htyp => exact h.move hok (.resend hd hclock hdec htyp) (by simp) rfl
  | busy hd hclock hdec htyp => exact h.move hok (.busy hd hclock hdec htyp) (by simp) rfl
  | drop hi => exact h.move hok (.drop hi) (by simp) rfl
  | duplicate hd => exact h.move hok (.duplicate hd) (by simp) rfl
  | senderTick hclock => exact h.move hok (.senderTick hclock) (by simp) rfl
  | receiverTick hclock hr => exact h.move hok (.receiverTick hclock hr) (by simp) rfl

theorem Traced.of_run {evs : List (Event Addr)}
    (h : Run (Network.step rcv) (Network.Admits p) (Network.new cfg) evs s) :
    Traced cfg p rcv s :=
  h.invariant (fun _ _ _ ht hok hs => ht.step hok hs) (Traced.new cfg p rcv)

/-- What is delivered was started, and its transfer has moved by the moves. -/
theorem Traced.of_delivered {data : List UInt8} (h : Traced cfg p rcv s)
    (hshort : ∀ data, p.start data → data.length < 2 ^ 32)
    (hdel : data ∈ (s.transfer rcv key).delivered) :
    ∃ data' now, (key, data') ∈ s.started ∧ p.start data' ∧
      Transfer.Steps cfg p rcv key (Transfer.first cfg key.2 data' now) (s.transfer rcv key) := by
  by_cases hkey : key ∈ s.started.map Prod.fst
  · obtain ⟨⟨_, data'⟩, hstarted, rfl⟩ := List.mem_map.mp hkey
    have hs := h.admitted _ _ hstarted
    obtain ⟨now, hsteps⟩ := h.traced _ _ hstarted (hshort _ hs)
    exact ⟨data', now, hstarted, hs, hsteps⟩
  · rw [h.idle key hkey] at hdel
    cases hdel

theorem started_subset {e : Event Addr} (he : Effect rcv s e s') : s.started ⊆ s'.started := by
  cases he with
  | start => exact fun _ hmem => List.mem_append_left _ hmem
  | _ => exact fun _ hmem => hmem

/-- From any state of a run on, a started message moves by its moves. -/
theorem Traced.steps_of_run {data : List UInt8} (h : Traced cfg p rcv s) {evs : List (Event Addr)}
    (hrun : Run (Network.step rcv) (Network.Admits p) s evs s') (hstarted : (key, data) ∈ s.started)
    (hlen : data.length < 2 ^ 32) :
    Transfer.Steps cfg p rcv key (s.transfer rcv key) (s'.transfer rcv key) := by
  have hall : Traced cfg p rcv s' ∧ (key, data) ∈ s'.started ∧
      Transfer.Steps cfg p rcv key (s.transfer rcv key) (s'.transfer rcv key) := by
    refine hrun.invariant (P := fun u => Traced cfg p rcv u ∧ (key, data) ∈ u.started ∧
      Transfer.Steps cfg p rcv key (s.transfer rcv key) (u.transfer rcv key)) ?_
      ⟨h, hstarted, Relation.ReflTransGen.refl⟩
    rintro u e u' ⟨hu, hmem, hsteps⟩ hok hstep
    have he := step_spec hstep
    refine ⟨hu.step hok hstep, started_subset he hmem, hsteps.trans ?_⟩
    refine steps_effect hu.toWired hok he key (fun data' now' heq => ?_) fun o ho => ?_
    · subst heq
      cases he with
      | start _ hfresh => exact hfresh (List.mem_map.mpr ⟨_, hmem, rfl⟩)
    · obtain ⟨now, hfirst⟩ := hu.traced key data hmem hlen
      rw [(hfirst.out_within o ho).1]
      exact hlen
  exact hall.2.2

end Network
end AgentTransport
