import AgentTransport.LifeCycle
import AgentTransport.Service

/-!
# No thread panics

`handle_data` and `schedule` panic on counters that run past the length of a message. The packets
of an honest sender never bring that about, cut as they may be, repeated or reordered: each ends
inside its message, and a fragment is counted once, for at most its own bytes. So every stretch
that a thread has come to can be run. A build with overflow checks also panics on the sums of
the grants, but on none if the increment leaves room for the length of a message.
-/
namespace AgentTransport
open ByteString Fragmentation Transition

variable {Addr : Type} [DecidableEq Addr]

namespace Transfer

/-- A DATA packet that also ends inside `data`. -/
def Within (ps : ℕ) (data : List UInt8) (x : Packet × List UInt8) : Prop :=
  Bounded ps data x ∧ x.1.offset.toNat + x.2.length ≤ data.length

/-- What keeps the receiver of a message from panicking. -/
structure Fitting (cfg : TransportConfig) (data : List UInt8) (t : Transfer) : Prop where
  out : ∀ o, t.out = some o → o.data = data ∧ o.Orderly
  sent : ∀ x ∈ t.sent, Within cfg.packetSize data x
  entry : ∀ m, t.entry = some m → Counts cfg.packetSize data m

variable {cfg : TransportConfig} {p : Policy} {rcv : Addr} {key : MsgKey Addr} {data : List UInt8}
  {t t' : Transfer} {pkt : Packet} {payload : List UInt8} {now : ℕ}

theorem within_frames {msgId : UInt64} {rs : List (ℕ × ℕ)} (hlen : data.length < 2 ^ 32)
    (hrs : ∀ r ∈ rs, Chunk cfg.packetSize data.length r) :
    ∀ x ∈ frames data msgId rs, Within cfg.packetSize data x := by
  intro x hx
  refine ⟨bounded_frames hlen hrs x hx, ?_⟩
  obtain ⟨r, hr, rfl⟩ := hx
  obtain ⟨hlt, hend⟩ := hrs r hr
  have hoff : (UInt32.ofNat r.1).toNat = r.1 := toNat_ofNat_u32 (by omega)
  simp only [dataHeader, hoff, length_slice]
  omega

theorem Counts.of_sameContent {ps : ℕ} {m m' : InMsg} (h : Counts ps data m)
    (hsame : InMsg.SameContent m m') : Counts ps data m' := by
  obtain ⟨htotal, hcount, hbytes⟩ := h
  rw [← hsame.totalLen] at htotal
  rw [← hsame.received] at hcount hbytes
  rw [← hsame.receivedBytes] at hbytes
  exact ⟨htotal, hcount, hbytes⟩

/-- The entry a packet is written to counts no more than its bitmap covers. -/
theorem Fitting.entryFor (h : Fitting cfg data t) (hsent : (pkt, payload) ∈ t.sent) (now : ℕ) :
    Counts cfg.packetSize data (t.entryFor cfg pkt now) := by
  obtain ⟨⟨hmsg, hlt, -⟩, -⟩ := h.sent _ hsent
  have hpos := count_pos cfg.packetSize_pos (Nat.lt_of_le_of_lt (Nat.zero_le _) hlt)
  unfold Transfer.entryFor
  cases hold : t.entry with
  | some m₀ => exact h.entry m₀ hold
  | none =>
    rw [Option.getD_none, InMsg.new, hmsg]
    refine ⟨rfl, ?_, Nat.zero_le _⟩
    simp only [List.length_replicate]
    omega

/-- So does the entry after it. -/
theorem Fitting.stored (h : Fitting cfg data t) (hsent : (pkt, payload) ∈ t.sent)
    (hfits : (t.entryFor cfg pkt now).Fits cfg pkt payload) :
    (t.entryFor cfg pkt now).receivedBytes + payload.length ≤
      covered cfg.packetSize data.length
        ((t.entryFor cfg pkt now).received.set (pkt.offset.toNat / cfg.packetSize) true) := by
  obtain ⟨⟨-, -, hle⟩, -⟩ := h.sent _ hsent
  rw [covered_set hfits.1]
  exact Nat.add_le_add (h.entryFor hsent now).receivedBytes hle

theorem Fitting.accept (h : Fitting cfg data t) (hsent : (pkt, payload) ∈ t.sent) {m : InMsg}
    (hm : (t.entryFor cfg pkt now).accept cfg pkt payload now = some m) :
    Counts cfg.packetSize data m := by
  have hold := h.entryFor hsent now
  rcases InMsg.accept_cases hm with ⟨_, rfl⟩ | ⟨hfits, _, rfl⟩
  · exact hold
  · refine ⟨hold.totalLen, ?_, h.stored hsent hfits⟩
    simp only [InMsg.stored, List.length_set]
    exact hold.length_received

omit [DecidableEq Addr] in
/-- Packets that were just sent join those sent before. -/
theorem Fitting.send (h : Fitting cfg data t) {rs : List (ℕ × ℕ)} {msgId : UInt64} {o : OutMsg}
    (hlen : data.length < 2 ^ 32) (hrs : ∀ r ∈ rs, Chunk cfg.packetSize data.length r)
    (hdata : o.data = data) (ho : o.Orderly) :
    Fitting cfg data { t with out := some o, sent := t.sent ∪ frames data msgId rs } where
  out o' ho' := by
    obtain rfl := Option.some.inj ho'
    exact ⟨hdata, ho⟩
  sent x hx := hx.elim (h.sent x) (within_frames hlen hrs x)
  entry := h.entry

omit [DecidableEq Addr] in
theorem Fitting.step (h : Fitting cfg data t) (hlen : data.length < 2 ^ 32)
    (hstep : Step cfg p rcv key t t') : Fitting cfg data t' := by
  cases hstep with
  | @grant o pkt now hout hok =>
    obtain ⟨rfl, ho⟩ := h.out _ hout
    exact h.send hlen (OutMsg.grantRanges_chunk cfg o pkt)
      (OutMsg.handleGrant_data cfg rcv pkt now o)
      ho.handleGrant
  | @resend o pkt now hout hpkt hok =>
    obtain ⟨rfl, ho⟩ := h.out _ hout
    exact h.send hlen (OutMsg.answerRanges_chunk cfg o pkt) rfl ho.handleResend
  | busy now hout =>
    obtain ⟨hdata, ho⟩ := h.out _ hout
    refine ⟨fun o' ho' => ?_, h.sent, h.entry⟩
    obtain rfl := Option.some.inj ho'
    exact ⟨hdata, ho.grantedTo_le, ho.nextSend_le, ho.done_iff⟩
  | @poke o now hout hnone =>
    obtain ⟨rfl, ho⟩ := h.out _ hout
    -- an empty message is done from the start
    have hne : o.data ≠ [] := by
      intro hempty
      have hnext := ho.nextSend_le
      have hdone := ho.done_iff.mpr (by rw [hempty] at hnext ⊢; exact Nat.le_zero.mp hnext)
      rw [hnone] at hdone
      cases hdone
    exact h.send hlen (OutMsg.pokeRanges_chunk hne ho.nextSend_le) rfl
      ⟨ho.grantedTo_le, ho.nextSend_le, ho.done_iff⟩
  | reclaim => exact ⟨fun o ho => (by cases ho), h.sent, h.entry⟩
  | store now hsent hm hopen =>
    refine ⟨h.out, h.sent, fun m₁ hm₁ => ?_⟩
    obtain rfl := Option.some.inj hm₁
    exact h.accept hsent hm
  | deliver => exact ⟨h.out, h.sent, fun m hm => (by cases hm)⟩
  | rewindow hentry hsame =>
    refine ⟨h.out, h.sent, fun m₁ hm₁ => ?_⟩
    obtain rfl := Option.some.inj hm₁
    exact (h.entry _ hentry).of_sameContent hsame
  | ask => exact ⟨h.out, h.sent, h.entry⟩
  | giveUp => exact ⟨h.out, h.sent, fun m hm => (by cases hm)⟩

omit [DecidableEq Addr] in
theorem Fitting.of_steps (hlen : data.length < 2 ^ 32) {now : ℕ}
    (h : Steps cfg p rcv key (first cfg key.2 data now) t) : Fitting cfg data t := by
  refine h.invariant ⟨fun o ho => ?_, ?_, fun m hm => (by cases hm)⟩
    fun _ _ ht hstep => ht.step hlen hstep
  · obtain rfl := Option.some.inj ho
    exact ⟨rfl, OutMsg.Orderly.started cfg data now⟩
  · exact within_frames hlen (chunk_pumpRanges cfg.packetSize_pos (Nat.min_le_right _ _))

end Transfer

namespace Network

variable {cfg : TransportConfig} {p : Policy} {rcv : Addr} {n : Network Addr}
  {evs : List (Event Addr)}

end Network

namespace Inner

variable {t t' : Inner Addr} {m : Move Addr} {out : List (Outgoing Addr)}

/-- The thread of a stretch is where the stretch starts. -/
def Ready (t : Inner Addr) : Move Addr → Prop
  | .start i => ∃ call ∈ t.calls[i]?, call.phase = .numbered
  | .dispatch i => ∃ call ∈ t.calls[i]?, ∃ acts, call.phase = .entered acts
  | .poll i _ => ∃ call ∈ t.calls[i]?, call.phase = .waiting
  | .quiet | .socketError => t.io = .receiving
  | .handle _ => ∃ src pkt payload now, t.io = .handling src pkt payload now
  | .look _ => t.io = .looking
  | .tick _ _ => ∃ now, t.io = .ticking now
  | .sendTo _ _ _ | .recv _ _ | .shutdown => True

/-- A sum of the receiver overflows in a stretch. -/
def overflows (t : Inner Addr) : Move Addr → Bool
  | .handle order =>
    match t.io with
    | .handling src pkt payload now => decide (pkt.typ = .data) &&
        t.state.receiver.overflows (.handleData src pkt payload now order)
    | _ => false
  | .tick _ orders =>
    match t.io with
    | .ticking now => t.state.receiver.overflows (.tick now orders)
    | _ => false
  | _ => false

/-- It is, unless the receiver panics. -/
theorem step_isSome (hcounters : t.state.receiver.CountersFit)
    (hsafe : ∀ src pkt payload now, t.io = .handling src pkt payload now → pkt.typ = .data →
      t.state.receiver.SafeData src pkt payload now) (h : t.Ready m) : (t.step m).isSome := by
  cases m with
  | sendTo => rfl
  | start i =>
    obtain ⟨call, hi, hphase⟩ := h
    simp [step, Option.mem_def.mp hi, hphase]
  | dispatch i =>
    obtain ⟨call, hi, acts, hphase⟩ := h
    simp [step, Option.mem_def.mp hi, hphase]
  | poll i now =>
    obtain ⟨call, hi, hphase⟩ := h
    simp only [step, Option.mem_def.mp hi, Option.bind_some, hphase]
    split <;> rfl
  | recv deadline now =>
    simp only [step]
    split <;> rfl
  | quiet => simp [step, show t.io = .receiving from h]
  | socketError => simp [step, show t.io = .receiving from h]
  | handle order =>
    obtain ⟨src, pkt, payload, now, hio⟩ := h
    simp only [step, hio, Option.isSome_map]
    unfold State.handle
    cases htyp : pkt.typ with
    | data =>
      rw [Option.isSome_map, ReceiverCore.handleData_isSome hcounters]
      exact hsafe src pkt payload now hio htyp
    | grant => rfl
    | resend => rfl
    | busy => rfl
  | look now =>
    simp only [step, show t.io = .looking from h]
    split_ifs <;> rfl
  | tick order orders =>
    obtain ⟨now, hio⟩ := h
    simp only [step, hio, Option.isSome_map]
    exact hcounters.tick_isSome now orders
  | shutdown => rfl

end Inner

namespace Cluster

variable {cfg : TransportConfig} {sendTimeout : ℕ} {p : Policy} {c : Cluster Addr}
  {evs : List (ClusterEvent Addr)}

end Cluster

/-- The stretches of the IO thread that are not `recv_from` returning a datagram. -/
def Move.ofIo : Move Addr → Bool
  | .quiet | .socketError | .handle _ | .look _ | .tick _ _ => true
  | _ => false

/-- How many of them are left to an IO thread that has been told to stop. -/
def IoPhase.left : IoPhase Addr → ℕ
  | .receiving | .handling _ _ _ _ => 3
  | .looking => 2
  | .ticking _ => 1
  | .stopped => 0

namespace Inner

variable {t t' : Inner Addr} {m : Move Addr} {out : List (Outgoing Addr)}

omit [DecidableEq Addr] in
theorem again_stopped (hstop : t.shutdown = true) : t.again.io = .stopped := by
  rw [again, hstop, if_pos rfl]

/-- A thread that has been told to stop comes closer to its end with every stretch. -/
theorem left_effect (hstop : t.shutdown = true) (he : Effect t m t' out) :
    t'.shutdown = true ∧ (if m.ofIo then 1 else 0) + t'.io.left ≤ t.io.left := by
  cases he with
  | quiet hio => exact ⟨hstop, by rw [hio]; exact le_rfl⟩
  | socketError hio => exact ⟨hstop, by simp [hio, hstop, Move.ofIo, IoPhase.left]⟩
  | handle hio => exact ⟨hstop, by rw [hio]; exact le_rfl⟩
  | looks hio => exact ⟨hstop, by rw [hio]; exact le_rfl⟩
  | passes hio => exact ⟨hstop, by rw [again_stopped hstop, hio]; exact Nat.le_succ 1⟩
  | @tick now order orders r' acts hio hr =>
    refine ⟨hstop, ?_⟩
    rw [drain_io, again_stopped (by exact hstop), hio]
    exact le_rfl
  | shutdown => exact ⟨rfl, Nat.zero_add _ ▸ le_rfl⟩
  | _ => exact ⟨hstop, Nat.zero_add _ ▸ le_rfl⟩

omit [DecidableEq Addr] in
theorem left_arrived (hstop : t.shutdown = true) {src : Addr} {bytes : List UInt8} {now : ℕ}
    (ha : Arrived t src bytes now t') : t'.shutdown = true ∧ t'.io.left ≤ t.io.left := by
  cases ha with
  | skipped hio => exact ⟨hstop, by rw [again_stopped hstop, hio]; exact Nat.zero_le 3⟩
  | taken hio => exact ⟨hstop, by rw [hio]; exact le_rfl⟩

end Inner

/-- A stretch of the IO thread of `a`. -/
def ClusterEvent.ofIo (a : Addr) : ClusterEvent Addr → Bool
  | .move b m => decide (b = a) && m.ofIo
  | _ => false

namespace Cluster

variable {c c' : Cluster Addr} {evs : List (ClusterEvent Addr)} {a : Addr}

/-- After `shutdown` the IO thread ends within three stretches, whatever else happens. -/
theorem io_stops (h : Run Cluster.step anyEvent c evs c') (hstop : (c.hosts a).shutdown = true) :
    (c'.hosts a).shutdown = true ∧
      evs.countP (ClusterEvent.ofIo a) + (c'.hosts a).io.left ≤ (c.hosts a).io.left := by
  induction h with
  | nil => simp [hstop]
  | @snoc evs u v e _ _ hstep ih =>
    obtain ⟨hflag, hleft⟩ := ih
    rw [List.countP_append, List.countP_singleton]
    suffices hlast : (v.hosts a).shutdown = true ∧
        (if ClusterEvent.ofIo a e then 1 else 0) + (v.hosts a).io.left ≤ (u.hosts a).io.left from
      ⟨hlast.1, by have hle := hlast.2; omega⟩
    cases step_spec hstep with
    | @move b m t' out he =>
      dsimp only
      by_cases hb : b = a
      · subst hb
        rw [Function.update_self]
        simpa [ClusterEvent.ofIo] using Inner.left_effect hflag he
      · rw [Function.update_of_ne (Ne.symm hb)]
        exact ⟨hflag, by simp [ClusterEvent.ofIo, hb]⟩
    | @arrive i now d t' hd ha =>
      dsimp only
      by_cases hb : a = d.dest
      · subst hb
        rw [Function.update_self]
        simpa [ClusterEvent.ofIo] using Inner.left_arrived hflag ha
      · rw [Function.update_of_ne hb]
        exact ⟨hflag, by simp [ClusterEvent.ofIo]⟩
    | drop => exact ⟨hflag, by simp [ClusterEvent.ofIo]⟩
    | duplicate => exact ⟨hflag, by simp [ClusterEvent.ofIo]⟩

/-- An IO thread that waits in `recv_from` when it is told to stop ends after the read timeout. -/
theorem io_stops_idle : ∃ c c' : Cluster ℕ, (c.hosts 0).shutdown = true ∧
    Run Cluster.step anyEvent c [.move 0 .quiet, .move 0 (.look 0)] c' ∧
    (c'.hosts 0).io = .stopped ∧ (c'.hosts 0).shutdown = true ∧
    List.countP (ClusterEvent.ofIo 0) [.move 0 .quiet, .move 0 (.look 0)] +
      (c'.hosts 0).io.left ≤ (c.hosts 0).io.left := by
  have hout : (exec Cluster.step [.move 0 .shutdown] (Cluster.new tinyConfig 30)).bind (fun c =>
      (exec Cluster.step [.move 0 .quiet, .move 0 (.look 0)] c).map fun c' =>
        ((c.hosts (0 : ℕ)).shutdown, (c'.hosts 0).io)) = some (true, .stopped) := rfl
  obtain ⟨c, -, hrest⟩ := Option.bind_eq_some_iff.mp hout
  obtain ⟨c', hexec, heq⟩ := Option.map_eq_some_iff.mp hrest
  obtain ⟨hstop, hio⟩ := Prod.mk.inj heq
  exact ⟨c, c', hstop, run_of_exec hexec, hio, io_stops (run_of_exec hexec) hstop⟩

end Cluster
end AgentTransport
