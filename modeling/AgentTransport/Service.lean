import AgentTransport.Alignment
import AgentTransport.Transmission
import AgentTransport.Wire

/-!
# What the transport does for its callers

Every run of a cluster is, for the receiver of each host, a run of the network. So what `recv`
returns was given to a `send_to` at its source, and when `send_to` returns `Ok` all bytes of its
message are on the wire or in the queues.
-/
namespace AgentTransport
open Transition

variable {Addr : Type} [DecidableEq Addr]

namespace Cluster

variable {cfg : TransportConfig} {sendTimeout : ℕ} {p : Policy} {c : Cluster Addr}
  {evs : List (ClusterEvent Addr)}

/-- Every run of a cluster is a run of the network that the receiver of `b` sees. -/
theorem explained
    (h : Run Cluster.step (Cluster.Admits p) (Cluster.new cfg sendTimeout) evs c) (b : Addr) :
    ∃ evs' n, Run (Network.stepAnytime b) (Network.Admits p) (Network.new cfg) evs' n ∧
      Explains b c n := by
  obtain ⟨evs', n, hrun, -, -, hexplains⟩ := (simulates cfg p b).run h
    ⟨fun _ => Inner.Consistent.new cfg p sendTimeout 0, Network.Wired.new cfg,
      Explains.new b cfg sendTimeout⟩
  exact ⟨evs', n, hrun, hexplains⟩

end Cluster

/-- Host 0 sends three bytes to host 1, and both calls return. -/
def letter : List (ClusterEvent ℕ) :=
  [.move 0 (.sendTo 1 [1, 2, 3] 0), .move 0 (.start 0), .move 0 (.dispatch 0), .arrive 0 1,
    .move 1 (.handle default), .move 1 (.recv 9 2), .move 0 (.poll 0 3)]

/-- The policy that admits this message, and no GRANT or RESEND. -/
def letterOnly : Policy := ⟨(· = [1, 2, 3]), fun _ _ _ => False, fun _ _ _ => False⟩

instance : DecidablePred letterOnly.start :=
  inferInstanceAs (DecidablePred (· = ([1, 2, 3] : List UInt8)))

instance (cfg : TransportConfig) (o : OutMsg) : DecidablePred (letterOnly.grant cfg o) :=
  fun _ => inferInstanceAs (Decidable False)

instance (cfg : TransportConfig) (o : OutMsg) : DecidablePred (letterOnly.resend cfg o) :=
  fun _ => inferInstanceAs (Decidable False)

/-- A run of `letterOnly` is one of every policy that admits its message. -/
theorem run_of_letterOnly {p : Policy} (hp : p.start [1, 2, 3]) {evs : List (ClusterEvent ℕ)}
    {c : Cluster ℕ} (h : exec (guarded Cluster.step (Cluster.Admits letterOnly)) evs
      (Cluster.new Network.evenConfig 30) = some c) :
    Run Cluster.step (Cluster.Admits p) (Cluster.new Network.evenConfig 30) evs c := by
  refine (run_of_guarded h).weaken fun _ _ hok => hok.mono ?_ ?_ ?_
  · rintro data rfl
    exact hp
  · exact fun _ _ _ h => h.elim
  · exact fun _ _ _ h => h.elim

/-- The run of `letter`. -/
theorem letter_run {p : Policy} (hp : p.start [1, 2, 3]) : ∃ c : Cluster ℕ,
    Run Cluster.step (Cluster.Admits p) (Cluster.new Network.evenConfig 30) letter c ∧
    (c.hosts 1).received = [(0, [1, 2, 3])] ∧ (c.hosts 1).delivered = [((0, 1), [1, 2, 3])] ∧
    (c.hosts 0).made = [((1, 1), [1, 2, 3])] ∧ (c.hosts 0).returned = [((1, 1), .ok 1)] := by
  have hout : (exec (guarded Cluster.step (Cluster.Admits letterOnly)) letter
      (Cluster.new Network.evenConfig 30)).map (fun c => ((c.hosts 1).received,
        (c.hosts 1).delivered, (c.hosts 0).made, (c.hosts 0).returned)) =
        some ([(0, [1, 2, 3])], [((0, 1), [1, 2, 3])], [((1, 1), [1, 2, 3])], [((1, 1), .ok 1)]) :=
    rfl
  obtain ⟨c, hexec, heq⟩ := Option.map_eq_some_iff.mp hout
  simp only [Prod.mk.injEq] at heq
  exact ⟨c, run_of_letterOnly hp hexec, heq⟩

namespace Cluster

variable {cfg : TransportConfig} {sendTimeout : ℕ} {c : Cluster Addr}
  {evs : List (ClusterEvent Addr)}

end Cluster

namespace Inner

variable {t t' : Inner Addr} {m : Move Addr} {out : List (Outgoing Addr)}

/-- What was delivered has been received, or waits for a `recv`. -/
def HandsOver (t : Inner Addr) : Prop :=
  t.received ++ t.state.completed = t.delivered.map fun d => (d.1.1, d.2)

omit [DecidableEq Addr] in
theorem HandsOver.drain (h : t.HandsOver) (acts : List (Action Addr)) :
    (t.drain acts).1.HandsOver := by
  unfold HandsOver at h ⊢
  rw [drain_received, drain_completed, drain_delivered, List.map_append, ← List.append_assoc, h]

theorem HandsOver.effect (h : t.HandsOver) (he : Effect t m t' out) : t'.HandsOver := by
  cases he with
  | sendTo => exact h
  | start => exact h
  | dispatch => exact HandsOver.drain (t := t.setPhase _ _ _) h _
  | done => exact h
  | expired => exact h
  | waits => exact h
  | takes hmsg =>
    unfold HandsOver at h ⊢
    rw [hmsg] at h
    rwa [List.append_assoc]
  | nothing => exact h
  | quiet => exact h
  | socketError => exact h
  | @handle _ _ _ _ _ st _ acts hio hst =>
    refine HandsOver.drain (t := { t with state := st, io := .looking }) ?_ acts
    unfold HandsOver at h ⊢
    rwa [(State.handled hst).completed]
  | looks => exact h
  | passes => exact h
  | @tick now order orders r' acts hio hr =>
    exact HandsOver.drain (t := { t with state := { t.state with
        sender := (t.state.sender.tick now order).1
        receiver := r' } : Inner Addr }.again) h _
  | shutdown => exact h

omit [DecidableEq Addr] in
theorem HandsOver.arrived (h : t.HandsOver) {src : Addr} {bytes : List UInt8} {now : ℕ}
    (ha : Arrived t src bytes now t') : t'.HandsOver := by
  cases ha <;> exact h

end Inner

namespace Transfer

variable {cfg : TransportConfig} {p p' : Policy} {rcv : Addr} {key : MsgKey Addr}
  {data : List UInt8} {t t' : Transfer}

omit [DecidableEq Addr] in
/-- A message that fits the unscheduled window is granted from the start. -/
theorem Steps.granted_of_short {now : ℕ} (hshort : data.length ≤ cfg.unscheduledBytes)
    (h : Steps cfg p rcv key (first cfg key.2 data now) t) :
    ∀ o, t.out = some o → o.data.length ≤ o.grantedTo := by
  refine h.out_invariant (E := fun o => o.data.length ≤ o.grantedTo) ?_ ?_ ?_ ?_
  · simp only [OutMsg.started, OutMsg.pumped, OutMsg.new]
    omega
  · intro o pkt now hle _
    rwa [OutMsg.handleGrant_of_not_unlocks cfg rcv pkt now fun hu => by
      have := hu.1
      omega]
  · intro o pkt now hle _
    exact hle.trans (Nat.le_max_left _ _)
  · intro o now hle
    exact hle

omit [DecidableEq Addr] in
/-- So no GRANT splits a fragment of it. -/
theorem Steps.whole_of_short {now : ℕ} (hshort : data.length ≤ cfg.unscheduledBytes)
    (h : Steps cfg p rcv key (first cfg key.2 data now) t) :
    Steps cfg Policy.whole rcv key (first cfg key.2 data now) t := by
  induction h with
  | refl => exact Relation.ReflTransGen.refl
  | tail hsteps hstep ih =>
    refine ih.tail (hstep.restrict (fun o pkt hout _ hsplits => ?_) fun _ _ _ _ => trivial)
    have hgranted := Steps.granted_of_short hshort hsteps o hout
    have hu := hsplits.1.1
    omega

end Transfer

namespace Transfer

variable {cfg : TransportConfig} {p : Policy} {rcv : Addr} {key : MsgKey Addr}
  {data : List UInt8} {t : Transfer}

omit [DecidableEq Addr] in
/-- A message that the sender has dropped was sent to its end. -/
theorem Steps.carried_of_gone {now : ℕ} (hlen : data.length < 2 ^ 32)
    (h : Steps cfg p rcv key (first cfg key.2 data now) t) (hgone : t.out = none) :
    CarriedBelow data t.sent data.length := by
  induction h with
  | refl => cases hgone
  | tail hsteps hstep ih =>
    have ht := Transmits.of_steps hlen hsteps
    cases hstep with
    | grant => cases hgone
    | resend => cases hgone
    | busy => cases hgone
    | poke => cases hgone
    | reclaim hout hdone =>
      obtain ⟨_, _, hbelow, hall⟩ := ht.out _ hout
      exact hbelow.mono (Set.Subset.refl _) (hall hdone)
    | store => exact ih hgone
    | deliver => exact ih hgone
    | rewindow => exact ih hgone
    | ask => exact ih hgone
    | giveUp => exact ih hgone

end Transfer

namespace Inner

variable {t t' : Inner Addr} {m : Move Addr} {out : List (Outgoing Addr)} {key : MsgKey Addr}

omit [DecidableEq Addr] in
/-- A call that has returned does not wait for its message to be entered. -/
theorem Numbered.not_awaits (h : Numbered t) {r : Except TransportError UInt64}
    (hr : (key, r) ∈ t.returned) : ¬ t.Awaits key.2 := by
  rintro ⟨call, hcall, hid, -⟩
  have hall := (h.accounted.map Prod.snd).nodup_iff.mpr (by rw [List.map_map]; exact h.nodup)
  rw [List.map_append, List.map_map, List.nodup_append] at hall
  refine hall.2.2 _ (List.mem_map_of_mem hcall) _ ?_ hid
  exact List.mem_map_of_mem (List.mem_map_of_mem hr)

/-- A packet with the byte of `data` at `pos` is on the wire or waits in the queues. -/
def ByteOut (t : Inner Addr) (key : MsgKey Addr) (data : List UInt8) (pos : ℕ) : Prop :=
  ∃ x ∈ t.wired ++ t.state.tx.queues.flatten, ∃ pkt payload, x.1 = key.1 ∧
    Packet.decode x.2 = .ok (pkt, payload) ∧ pkt.typ = .data ∧ pkt.msgId = key.2 ∧
    pkt.offset.toNat ≤ pos ∧ pos < pkt.offset.toNat + payload.length ∧
    payload[pos - pkt.offset.toNat]? = data[pos]?

/-- What the network emitted for a call that has returned went out here. -/
theorem Mirrors.byteOut {b a : Addr} {n : Network Addr} {id : UInt64} {data : List UInt8} {pos : ℕ}
    {ops : List (TxOp Addr)} (h : Mirrors b a t [] n) (hn : Numbered t) (hq : Queued t ops)
    {r : UInt64} (hr : ((b, id), .ok r) ∈ t.returned) (hbyte : n.ByteEmitted b (a, id) data pos) :
    t.ByteOut (b, id) data pos := by
  obtain ⟨d, hd, pkt, payload, hsrc, hdest, hdec, htyp, hid, hrest⟩ := hbyte
  have hgave : ¬ t.GaveUp (b, pkt.msgId) := by
    intro hgave
    rw [hid] at hgave
    cases hn.result_eq hr hgave
  refine ⟨(d.dest, d.bytes), hq.perm.mem_iff.mpr ?_, pkt, payload, hdest, hdec, htyp, hid, hrest⟩
  rcases h.emitted d hd hsrc hdest pkt payload hdec htyp hgave with hout | ⟨call, hcall, _, hkey, _⟩
  · rwa [show sends ([] : List (Action Addr)) = [] from rfl, List.append_nil] at hout
  · refine absurd hr ?_
    rw [hdest, hid] at hkey
    rw [← hkey]
    exact hn.not_returned hcall _

end Inner

/-- Runs with messages that fit the unscheduled window. -/
def Policy.short (cfg : TransportConfig) : Policy :=
  ⟨fun data => Sendable data ∧ data.length ≤ cfg.unscheduledBytes, fun _ _ _ => True,
    fun _ _ _ => True⟩

/-- What keeps the fragments of all messages whole: no GRANT splits one, or every message fits
the unscheduled window, or the windows are multiples of the fragment size. -/
inductive Policy.KeepsWhole (cfg : TransportConfig) : Policy → Prop
  | unsplit : KeepsWhole cfg Policy.whole
  | short : KeepsWhole cfg (Policy.short cfg)
  | aligned (hun : cfg.packetSize ∣ cfg.unscheduledBytes) (hpos : 0 < cfg.unscheduledBytes)
      (hinc : cfg.packetSize ∣ cfg.grantIncrement)
      (hsum : 2 ^ 32 + cfg.grantIncrement ≤ 2 ^ 64) : KeepsWhole cfg Policy.sendable

/-- What is delivered was started, if the fragments stay whole. -/
theorem Network.started_of_delivered {cfg : TransportConfig} {p : Policy} (hp : p.KeepsWhole cfg)
    {rcv : Addr} {n : Network Addr} {evs : List (Event Addr)}
    (h : Run (Network.stepAnytime rcv) (Network.Admits p) (Network.new cfg) evs n)
    {key : MsgKey Addr} {data : List UInt8} (hdel : (key, data) ∈ n.delivered) :
    (key, data) ∈ n.started := by
  have hdel : data ∈ (n.transfer rcv key).delivered := hdel
  cases hp with
  | unsplit =>
    obtain ⟨data', now, hstarted, hs, hsteps⟩ :=
      (Traced.of_runAnytime h).of_delivered (fun data hs => hs.2) hdel
    rw [(Transfer.Faithful.of_steps hs (fun _ _ hg => hg) hsteps).delivered data hdel]
    exact hstarted
  | short =>
    obtain ⟨data', now, hstarted, ⟨hs, hshort⟩, hsteps⟩ :=
      (Traced.of_runAnytime h).of_delivered (fun data hs => hs.1.2) hdel
    rw [(Transfer.Faithful.of_steps hs (fun _ _ hg => hg)
      (hsteps.whole_of_short hshort)).delivered data hdel]
    exact hstarted
  | aligned hun hpos hinc hsum =>
    have hleveled := Leveled.of_runAnytime hun hpos hinc hsum h
    obtain ⟨data', now, hstarted, hs, -⟩ :=
      hleveled.toTraced.of_delivered (fun data hs => hs.2) hdel
    rw [(hleveled.transfers hpos hstarted).2.2.delivered data hdel]
    exact hstarted

namespace Cluster

variable {cfg : TransportConfig} {sendTimeout : ℕ} {p : Policy} {c : Cluster Addr}
  {evs : List (ClusterEvent Addr)}

theorem handsOver (h : Run Cluster.step (Cluster.Admits p) (Cluster.new cfg sendTimeout) evs c) :
    ∀ a, (c.hosts a).HandsOver :=
  hosts_invariant (G := Inner.Admits p) rfl (fun _ _ _ _ ht _ he => ht.effect he)
    (fun _ _ _ _ _ ht ha => ht.arrived ha) h

/-- In the network `b` receives and delivers as it does in the cluster. What has been started are
the messages of the calls that went on, the senders hold the same entries, but for those of calls
that gave up, and no datagram for either side is missing. -/
theorem refines_network
    (h : Run Cluster.step (Cluster.Admits p) (Cluster.new cfg sendTimeout) evs c) (b : Addr) :
    ∃ evs' n, Run (Network.stepAnytime b) (Network.Admits p) (Network.new cfg) evs' n ∧
      n.receiver = (c.hosts b).state.receiver ∧ n.delivered = (c.hosts b).delivered ∧
      (∀ a id data, ((a, id), data) ∈ n.started ↔
        ((b, id), data) ∈ (c.hosts a).made ∧ ¬ (c.hosts a).Awaits id) ∧
      (∀ a id, ¬ (c.hosts a).GaveUp (b, id) →
        (n.senders a).out.lookup (b, id) = (c.hosts a).state.sender.out.lookup (b, id)) ∧
      ∀ d ∈ c.flight, d.Concerns b → d ∈ n.flight := by
  obtain ⟨evs', n, hrun, hhosts, hflight⟩ := explained h b
  obtain ⟨hreceiver, hdelivered⟩ := (hhosts b).own rfl
  rw [deliveries_nil, List.append_nil] at hdelivered
  exact ⟨evs', n, hrun, hreceiver, hdelivered, fun a => (hhosts a).started,
    fun a => (hhosts a).out, hflight⟩

/-- After `letter` the network of host 1 has delivered what host 1 has. The message is started in
it, and its sender holds the entry that host 0 holds. -/
theorem refines_network_letter : ∃ (c : Cluster ℕ) (evs : List (Event ℕ)) (n : Network ℕ),
    Run (Network.stepAnytime 1) (Network.Admits Policy.whole) (Network.new Network.evenConfig)
      evs n ∧
    n.receiver = (c.hosts 1).state.receiver ∧ n.delivered = [((0, 1), [1, 2, 3])] ∧
    ((0, 1), [1, 2, 3]) ∈ n.started ∧
    (n.senders 0).out.lookup (1, 1) = (c.hosts 0).state.sender.out.lookup (1, 1) ∧
    ∀ d ∈ c.flight, d.Concerns 1 → d ∈ n.flight := by
  obtain ⟨c, hrun, -, hdelivered, hmade, hreturned⟩ :=
    letter_run (show Policy.whole.start _ from ⟨by decide, by decide⟩)
  have hok : (((1, 1) : MsgKey ℕ), Except.ok 1) ∈ (c.hosts 0).returned := by
    rw [hreturned]
    exact List.mem_singleton.mpr rfl
  have hgave : ¬ (c.hosts 0).GaveUp (1, 1) := by simp [Inner.GaveUp, hreturned]
  obtain ⟨evs, n, hrun', hreceiver, hsame, hstarted, hout, hflight⟩ := refines_network hrun 1
  rw [hdelivered] at hsame
  have hawaits := (consistent hrun 0).toNumbered.not_awaits hok
  exact ⟨c, evs, n, hrun', hreceiver, hsame, (hstarted 0 1 _).mpr ⟨by simp [hmade], hawaits⟩,
    hout 0 1 hgave, hflight⟩

/-- What the receiver of `b` delivered was given to a `send_to` at its source, if the network
that it sees delivers only what was started. -/
theorem Explains.made {b : Addr} {n : Network Addr} (h : Explains b c n)
    (hsound : ∀ key data, (key, data) ∈ n.delivered → (key, data) ∈ n.started) {a : Addr}
    {id : UInt64} {data : List UInt8} (hdel : ((a, id), data) ∈ (c.hosts b).delivered) :
    ((b, id), data) ∈ (c.hosts a).made := by
  have hown := ((h.hosts b).own rfl).2
  rw [deliveries_nil, List.append_nil] at hown
  exact (((h.hosts a).started id data).mp (hsound (a, id) data (hown ▸ hdel))).1

/-- In every run in which the fragments stay whole, `recv` returns what was delivered, each
message once and in this order, and everything delivered was given to a `send_to` at its source
with its destination. -/
theorem recv_faithful (hp : p.KeepsWhole cfg)
    (h : Run Cluster.step (Cluster.Admits p) (Cluster.new cfg sendTimeout) evs c) (b : Addr) :
    (c.hosts b).received ++ (c.hosts b).state.completed =
        (c.hosts b).delivered.map (fun d => (d.1.1, d.2)) ∧
      ∀ a id data, ((a, id), data) ∈ (c.hosts b).delivered →
        ((b, id), data) ∈ (c.hosts a).made := by
  refine ⟨handsOver h b, fun a id data hdel => ?_⟩
  obtain ⟨evs', n, hrun, hexplains⟩ := explained h b
  exact hexplains.made (fun _ _ => Network.started_of_delivered hp hrun) hdel

theorem recv_faithful_letter : ∃ c : Cluster ℕ, (c.hosts 1).received = [(0, [1, 2, 3])] ∧
    (c.hosts 1).received ++ (c.hosts 1).state.completed =
        (c.hosts 1).delivered.map (fun d => (d.1.1, d.2)) ∧
      ∀ a id data, ((a, id), data) ∈ (c.hosts 1).delivered →
        ((1, id), data) ∈ (c.hosts a).made := by
  obtain ⟨c, hrun, hreceived, -⟩ :=
    letter_run (show Policy.sendable.start _ from ⟨by decide, by decide⟩)
  exact ⟨c, hreceived,
    recv_faithful (.aligned (by decide) (by decide) (by decide) (by decide)) hrun 1⟩

/-- When `send_to` has returned `Ok`, every byte of its message is on the wire or in the queues
of its host. -/
theorem ok_transmitted
    (h : Run Cluster.step (Cluster.Admits Policy.any) (Cluster.new cfg sendTimeout) evs c)
    (a : Addr) {key : MsgKey Addr} {r : UInt64} {data : List UInt8}
    (hok : (key, .ok r) ∈ (c.hosts a).returned) (hmade : (key, data) ∈ (c.hosts a).made)
    (hlen : data.length < 2 ^ 32) : ∀ pos < data.length, (c.hosts a).ByteOut key data pos := by
  obtain ⟨b, id⟩ := key
  have hc := consistent h a
  obtain ⟨ops, hq⟩ := queued (h.weaken fun _ _ _ => trivial) a
  obtain ⟨evs', n, hrun, hexplains⟩ := explained h b
  have hmirrors := hexplains.hosts a
  have hgave : ¬ (c.hosts a).GaveUp (b, id) := fun hgave => by
    cases hc.toNumbered.result_eq hok hgave
  have hstarted : ((a, id), data) ∈ n.started :=
    (hmirrors.started id data).mpr ⟨hmade, hc.toNumbered.not_awaits hok⟩
  obtain ⟨now, hsteps⟩ := (Network.Traced.of_runAnytime hrun).traced _ _ hstarted hlen
  have hout : (n.transfer b (a, id)).out = (c.hosts a).state.sender.out.lookup (b, id) :=
    hmirrors.out id hgave
  have hcarried : CarriedBelow data (n.transfer b (a, id)).sent data.length := by
    cases hm : (c.hosts a).state.sender.out.lookup (b, id) with
    | none => exact hsteps.carried_of_gone hlen (hout.trans hm)
    | some o =>
      obtain ⟨_, _, hbelow, hall⟩ :=
        (Transfer.Transmits.of_steps hlen hsteps).out o (hout.trans hm)
      rcases hc.owned _ o hm with ⟨call, hcall, hkey, -⟩ | ⟨hdone, -⟩
      · rw [← hkey] at hok
        exact absurd hok (hc.toNumbered.not_returned hcall _)
      · exact hbelow.mono (Set.Subset.refl _) (hall hdone)
  exact fun pos hpos => hmirrors.byteOut hc.toNumbered hq hok
    (Network.byteEmitted_of_carried (hcarried pos hpos))

theorem ok_transmitted_letter : ∃ c : Cluster ℕ, (c.hosts 0).returned = [((1, 1), .ok 1)] ∧
    ∀ pos < 3, (c.hosts 0).ByteOut (1, 1) [1, 2, 3] pos := by
  obtain ⟨c, hrun, -, -, hmade, hreturned⟩ := letter_run (show Policy.any.start _ from trivial)
  have hok : ((1, 1), .ok 1) ∈ (c.hosts 0).returned := hreturned ▸ List.mem_singleton.mpr rfl
  have hsent : ((1, 1), [1, 2, 3]) ∈ (c.hosts 0).made := hmade ▸ List.mem_singleton.mpr rfl
  exact ⟨c, hreturned, ok_transmitted hrun 0 hok hsent (by decide)⟩

end Cluster

end AgentTransport
