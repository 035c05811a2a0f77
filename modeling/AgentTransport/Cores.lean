import AgentTransport.Duplicates
import AgentTransport.LifeCycle
import AgentTransport.Service

/-!
# The cores of a host

The threads of a host call its cores one at a time. So what holds after any calls of a core
holds in a host, whatever its threads do, and no two of these calls start the same message.
-/
namespace AgentTransport
open Transition

variable {Addr : Type} [DecidableEq Addr]

/-- A call of the sender delivers nothing. -/
theorem SenderCore.deliveries_call (s : SenderCore Addr) (c : SenderCall Addr) :
    deliveries (s.call c).2 = [] := by
  apply deliveries_of_sends
  intro a ha
  obtain ⟨key, data, r, -, rfl⟩ := mem_call.mp ha
  exact ⟨_, _, rfl⟩

namespace Inner

variable {t t' : Inner Addr} {m : Move Addr} {out : List (Outgoing Addr)} {cfg : TransportConfig}
  {p : Policy}

/-- The receiver has come to where it is by its calls, and these have delivered what the
transport has. -/
def Receives (cfg : TransportConfig) (t : Inner Addr) : Prop :=
  ∃ calls s, Run Session.step anyEvent (Session.new cfg) calls s ∧
    s.core = t.state.receiver ∧ deliveries s.outputs = t.delivered

theorem Receives.congr (h : Receives cfg t) (hreceiver : t'.state.receiver = t.state.receiver)
    (hdelivered : t'.delivered = t.delivered) : Receives cfg t' := by
  obtain ⟨calls, s, hrun, hcore, hout⟩ := h
  exact ⟨calls, s, hrun, hcore.trans hreceiver.symm, hout.trans hdelivered.symm⟩

/-- A call more. -/
theorem Receives.call (h : Receives cfg t) (c : ReceiverCall Addr) (acts : List (Action Addr))
    (hcall : t.state.receiver.call c = some (t'.state.receiver, acts))
    (hdelivered : t'.delivered = t.delivered ++ deliveries acts) : Receives cfg t' := by
  obtain ⟨calls, s, hrun, hcore, hout⟩ := h
  have hstep : s.step c = some ⟨t'.state.receiver, s.outputs ++ acts,
      s.record c t'.state.receiver⟩ := by
    rw [Session.step, hcore, hcall]
    rfl
  refine ⟨_, _, hrun.snoc trivial hstep, rfl, ?_⟩
  rw [deliveries_append, hout, hdelivered]

theorem Receives.effect (h : Receives cfg t) (hc : t.Consistent cfg p) (he : Effect t m t' out) :
    Receives cfg t' := by
  -- a stretch of which the receiver sees nothing
  have hdrain : ∀ {u : Inner Addr} {acts : List (Action Addr)}, Receives cfg u →
      deliveries acts = [] → Receives cfg (u.drain acts).1 := by
    intro u acts hu hnone
    refine hu.congr (drain_receiver u acts) ?_
    rw [drain_delivered, hnone, List.append_nil]
  cases he with
  | @dispatch i call acts hi hphase =>
    refine hdrain (u := t.setPhase i call .waiting) (h.congr rfl rfl) ?_
    rw [hc.entered call (List.mem_of_getElem? hi) acts hphase]
    exact deliveries_sendRanges _ _ _ _
  | @handle src pkt payload now order st notified acts hio hst =>
    cases State.handled hst with
    | @data r' acts htyp hr =>
      refine h.call (.handleData src pkt payload now order) acts ?_ ?_
      · rw [drain_receiver]
        exact hr
      · rw [drain_delivered]
    | grant =>
      exact hdrain (u := { t with state := _, io := .looking }) (h.congr rfl rfl)
        (t.state.sender.deliveries_call (.grant src pkt now))
    | resend =>
      exact hdrain (u := { t with state := _, io := .looking }) (h.congr rfl rfl)
        (t.state.sender.deliveries_call (.resend src pkt now))
    | busy => exact hdrain (u := { t with state := _, io := .looking }) (h.congr rfl rfl) rfl
  | @tick now order orders r' acts hio hr =>
    refine h.call (.tick now orders) acts ?_ ?_
    · rw [drain_receiver]
      exact hr
    · rw [drain_delivered, deliveries_append, Network.deliveries_senderTick, List.nil_append]
      rfl
  | _ => exact h.congr rfl rfl

theorem Receives.arrived (h : Receives cfg t) {src : Addr} {bytes : List UInt8} {now : ℕ}
    (ha : Arrived t src bytes now t') : Receives cfg t' := by
  cases ha <;> exact h.congr rfl rfl

/-- The sender has come to where it is by its calls, which start every message that was given to
`send_to` once at most. -/
def Sends (cfg : TransportConfig) (t : Inner Addr) : Prop :=
  ∃ calls, t.state.sender = (SenderCore.new cfg).after calls ∧
    (calls.filterMap SenderCall.begins).Nodup ∧
    ∀ dest id data now, .start dest id data now ∈ calls →
      ((dest, id), data) ∈ t.made ∧ ¬ t.Awaits id

theorem Sends.congr (h : Sends cfg t) (hsender : t'.state.sender = t.state.sender)
    (hmade : ∀ dest id data, ((dest, id), data) ∈ t.made → ¬ t.Awaits id →
      ((dest, id), data) ∈ t'.made ∧ ¬ t'.Awaits id) : Sends cfg t' := by
  obtain ⟨calls, hafter, hnodup, hstarts⟩ := h
  refine ⟨calls, hsender.trans hafter, hnodup, fun dest id data now hmem => ?_⟩
  obtain ⟨hold, hnot⟩ := hstarts dest id data now hmem
  exact hmade dest id data hold hnot

/-- A call more that starts no message. -/
theorem Sends.call (h : Sends cfg t) {c : SenderCall Addr} (hbegins : c.begins = none)
    (hsender : t'.state.sender = (t.state.sender.call c).1) (hmade : t'.made = t.made)
    (hawaits : ∀ id, t'.Awaits id → t.Awaits id) : Sends cfg t' := by
  obtain ⟨calls, hafter, hnodup, hstarts⟩ := h
  refine ⟨calls ++ [c], ?_, ?_, fun dest id data now hmem => ?_⟩
  · rw [SenderCore.after_append, ← hafter]
    exact hsender
  · rw [List.filterMap_append, List.filterMap_cons_none hbegins, List.filterMap_nil,
      List.append_nil]
    exact hnodup
  · rcases List.mem_append.mp hmem with hmem | hmem
    · obtain ⟨hold, hnot⟩ := hstarts dest id data now hmem
      exact ⟨hmade ▸ hold, fun h => hnot (hawaits id h)⟩
    · rw [← List.mem_singleton.mp hmem] at hbegins
      cases hbegins

/-- A call of `send_to` starts its message. -/
theorem Sends.start (h : Sends cfg t) (hn : Numbered t) {i : ℕ} {call : SendCall Addr}
    (hi : t.calls[i]? = some call) (hphase : call.phase = .numbered)
    {acts : List (Action Addr)} :
    Sends cfg { t.setPhase i call (.entered acts) with
      state := { t.state with
        sender := (t.state.sender.start call.dest call.msgId call.data call.now).1 } } := by
  obtain ⟨calls, hafter, hnodup, hstarts⟩ := h
  have hawaits : ∀ id, ({ t.setPhase i call (.entered acts) with
      state := { t.state with
        sender := (t.state.sender.start call.dest call.msgId call.data call.now).1 } } :
          Inner Addr).Awaits id → t.Awaits id ∧ id ≠ call.msgId :=
    fun id => (awaits_setPhase hn hi (by simp)).mp
  refine ⟨calls ++ [.start call.dest call.msgId call.data call.now], ?_, ?_,
    fun dest id data now hmem => ?_⟩
  · rw [SenderCore.after_append, ← hafter]
    rfl
  · rw [List.filterMap_append]
    refine hnodup.append (List.nodup_singleton _)
      (List.disjoint_singleton.mpr fun hmem : (call.dest, call.msgId) ∈ _ => ?_)
    obtain ⟨c, hc, hbegins⟩ := List.mem_filterMap.mp hmem
    cases c with
    | start dest id data now =>
      obtain ⟨rfl, rfl⟩ := Prod.mk.inj (Option.some.inj hbegins)
      exact (hstarts _ _ _ _ hc).2 ((awaits_iff hn hi).mpr hphase)
    | _ => cases hbegins
  · rcases List.mem_append.mp hmem with hmem | hmem
    · obtain ⟨hold, hnot⟩ := hstarts dest id data now hmem
      exact ⟨hold, fun h => hnot (hawaits id h).1⟩
    · obtain ⟨rfl, rfl, rfl, rfl⟩ := SenderCall.start.inj (List.mem_singleton.mp hmem)
      exact ⟨hn.data call (List.mem_of_getElem? hi), fun h => (hawaits _ h).2 rfl⟩

theorem Sends.effect (h : Sends cfg t) (hc : t.Consistent cfg p) (hcount : t.Counts m)
    (he : Effect t m t' out) : Sends cfg t' := by
  have hn := hc.toNumbered
  cases he with
  | sendTo dest data now =>
    refine h.congr rfl fun dest' id data' hold hnot => ⟨List.mem_append_left _ hold, ?_⟩
    rintro ⟨call, hcall, rfl, hphase⟩
    rcases List.mem_append.mp hcall with hcall | hcall
    · exact hnot ⟨call, hcall, rfl, hphase⟩
    · -- its number is new
      rw [List.mem_singleton.mp hcall] at hold
      have hle := hn.below _ hold
      have hcounts : t.made.length + 1 < 2 ^ 64 := hcount
      rw [hn.counter, UInt64.toNat_ofNat_of_lt' hcounts] at hle
      omega
  | start hi hphase => exact h.start hn hi hphase
  | @dispatch i call acts hi hphase =>
    refine h.congr (drain_sender _ acts) fun dest id data hold hnot => ⟨hold, fun hawaits => ?_⟩
    exact hnot ((awaits_setPhase hn hi (by simp)).mp hawaits).1
  | done hi hphase =>
    exact h.congr rfl fun dest id data hold hnot => ⟨hold, fun hawaits =>
      hnot ((awaits_leave hi (by simp [hphase]) rfl).mp hawaits)⟩
  | @expired i now call hi hphase =>
    exact h.call (c := .finish call.dest call.msgId) rfl rfl rfl fun id =>
      (awaits_leave hi (by simp [hphase]) rfl).mp
  | @handle src pkt payload now order st notified acts hio hst =>
    cases State.handled hst with
    | data => exact h.congr (drain_sender _ _) fun _ _ _ hold hnot => ⟨hold, hnot⟩
    | grant => exact h.call (c := .grant src pkt now) rfl (drain_sender _ _) rfl fun _ => id
    | resend => exact h.call (c := .resend src pkt now) rfl (drain_sender _ _) rfl fun _ => id
    | busy => exact h.call (c := .busy src pkt now) rfl (drain_sender _ _) rfl fun _ => id
  | @tick now order orders r' acts hio hr =>
    exact h.call (c := .tick now order) rfl (drain_sender _ _) rfl fun _ => id
  | _ => exact h.congr rfl fun _ _ _ hold hnot => ⟨hold, hnot⟩

theorem Sends.arrived (h : Sends cfg t) {src : Addr} {bytes : List UInt8} {now : ℕ}
    (ha : Arrived t src bytes now t') : Sends cfg t' := by
  cases ha <;> exact h.congr rfl fun _ _ _ hold hnot => ⟨hold, hnot⟩

end Inner

namespace Cluster

variable {cfg : TransportConfig} {sendTimeout : ℕ} {p : Policy} {c : Cluster Addr}
  {evs : List (ClusterEvent Addr)}

theorem driven (h : Run Cluster.step (Cluster.Admits p) (Cluster.new cfg sendTimeout) evs c)
    (a : Addr) : (c.hosts a).Consistent cfg p ∧ (c.hosts a).Receives cfg ∧ (c.hosts a).Sends cfg :=
  hosts_invariant (P := fun t => t.Consistent cfg p ∧ t.Receives cfg ∧ t.Sends cfg)
    ⟨Inner.Consistent.new cfg p sendTimeout 0, ⟨[], _, Run.nil, rfl, rfl⟩,
      ⟨[], rfl, List.nodup_nil, fun _ _ _ _ hmem => by cases hmem⟩⟩
    (fun _ _ _ _ ht hok he => ⟨ht.1.effect hok he, ht.2.1.effect ht.1 he,
      ht.2.2.effect ht.1 hok.1 he⟩)
    (fun _ _ _ _ _ ht ha => ⟨ht.1.arrived ha, ht.2.1.arrived ha, ht.2.2.arrived ha⟩) h a

/-- A host delivers the message of one call again only when as many others have been delivered in
between as it remembers. `recv` returns what was delivered, in this order. What is remembered and
what is being received is bounded. -/
theorem recv_once
    (h : Run Cluster.step (Cluster.Admits Policy.any) (Cluster.new cfg sendTimeout) evs c)
    (b : Addr) :
    let t := c.hosts b
    t.received ++ t.state.completed = t.delivered.map (fun d => (d.1.1, d.2)) ∧
      (∀ i j key data data', i < j → t.delivered[i]? = some (key, data) →
        t.delivered[j]? = some (key, data') → i + completedCache < j) ∧
      t.state.receiver.completed.length ≤ completedCache ∧
      t.state.receiver.incoming.keys.length ≤ cfg.maxIncoming := by
  intro t
  obtain ⟨-, ⟨calls, s, hrun, hcore, hout⟩, -⟩ := driven h b
  have hord : Session.Orderly cfg s :=
    hrun.invariant (fun _ _ _ ho _ hs => ho.step hs) (Session.Orderly.new cfg)
  refine ⟨handsOver h b, fun i j key data data' hij hi hj => ?_, ?_, ?_⟩
  · apply hord.spaced i j key hij
    · rw [List.getElem?_map, hout, hi]
      rfl
    · rw [List.getElem?_map, hout, hj]
      rfl
  · rw [← hcore, hord.completed, Recent.length_rtake]
    exact Nat.min_le_left _ _
  · rw [← hcore]
    exact hord.room

/-- After `letter` host 1 has received one message. -/
theorem recv_once_letter : ∃ c : Cluster ℕ, (c.hosts 1).received = [(0, [1, 2, 3])] ∧
    let t := c.hosts 1
    t.received ++ t.state.completed = t.delivered.map (fun d => (d.1.1, d.2)) ∧
      (∀ i j key data data', i < j → t.delivered[i]? = some (key, data) →
        t.delivered[j]? = some (key, data') → i + completedCache < j) ∧
      t.state.receiver.completed.length ≤ completedCache ∧
      t.state.receiver.incoming.keys.length ≤ Network.evenConfig.maxIncoming := by
  obtain ⟨c, hrun, hreceived, -⟩ := letter_run (p := Policy.any) trivial
  exact ⟨c, hreceived, recv_once hrun 1⟩

/-- An entry of a sender core is the message of a call, and it is done exactly if everything of it
was sent. None is left behind: its call is running, or the message is done and its call has
returned `Ok`. Such an entry does not outlive a tick after the linger period, and a call that
gives up leaves none. -/
theorem entries_owned
    (h : Run Cluster.step (Cluster.Admits Policy.any) (Cluster.new cfg sendTimeout) evs c)
    (a : Addr) :
    let t := c.hosts a
    (∀ key m, t.state.sender.out.lookup key = some m → (key, m.data) ∈ t.made ∧ m.Orderly ∧
      (t.Runs key ∨ m.doneAt.isSome ∧ (key, .ok key.2) ∈ t.returned)) ∧
    (∀ key, t.GaveUp key → t.state.sender.out.lookup key = none) ∧
    ∀ now order orders t' out, t.io = .ticking now → t.step (.tick order orders) = some (t', out) →
      ∀ key m, t'.state.sender.out.lookup key = some m →
        t'.Runs key ∨ ∃ d, m.doneAt = some d ∧ now - d < cfg.linger := by
  have hc := consistent h a
  obtain ⟨-, -, calls, hafter, -, hstarts⟩ := driven h a
  refine ⟨fun key m hm => ?_, fun key hgave => hc.owned.gone hc.toNumbered hgave, ?_⟩
  · have howned := hc.owned key m hm
    rw [hafter] at hm
    obtain ⟨now, hstart⟩ := (SenderCore.begun_after cfg calls).started key m hm
    exact ⟨(hstarts _ _ _ _ hstart).1, SenderCore.orderly_after cfg calls key m hm, howned⟩
  intro now order orders t' out hio hstep key m hm
  have he := Inner.step_spec hstep
  rcases hc.owned.effect hc.toNumbered he key m hm with hruns | ⟨hdone, -⟩
  · exact Or.inl hruns
  -- the tick found the entry in its linger period
  obtain ⟨d, hd⟩ := Option.isSome_iff_exists.mp hdone
  refine Or.inr ⟨d, hd, ?_⟩
  cases he with
  | tick hio' hr =>
    obtain rfl := IoPhase.ticking.inj (hio.symm.trans hio')
    rw [Inner.drain_sender] at hm
    obtain ⟨m₀, -, hlingers, hsame⟩ := Inner.entry_tick _ _ _ hm
    rw [hc.sender_cfg] at hlingers
    by_contra hlate
    rw [OutMsg.lingers_eq_false.mpr ⟨d, hsame ▸ hd, Nat.le_of_not_lt hlate⟩] at hlingers
    cases hlingers

/-- Host 0 ticks after `letter`, with an entry that no call owns. -/
theorem entries_owned_letter : ∃ c : Cluster ℕ,
    (c.hosts 0).io = .ticking 6000000 ∧ (c.hosts 0).calls.length = 0 ∧
    ((c.hosts 0).state.sender.out.lookup (1, 1)).isSome ∧
    let t := c.hosts 0
    (∀ key m, t.state.sender.out.lookup key = some m → (key, m.data) ∈ t.made ∧ m.Orderly ∧
      (t.Runs key ∨ m.doneAt.isSome ∧ (key, .ok key.2) ∈ t.returned)) ∧
    (∀ key, t.GaveUp key → t.state.sender.out.lookup key = none) ∧
    ∀ now order orders t' out, t.io = .ticking now → t.step (.tick order orders) = some (t', out) →
      ∀ key m, t'.state.sender.out.lookup key = some m →
        t'.Runs key ∨ ∃ d, m.doneAt = some d ∧ now - d < Network.evenConfig.linger := by
  have hout : (exec (guarded Cluster.step (Cluster.Admits letterOnly))
      (letter ++ [.move 0 .quiet, .move 0 (.look 6000000)])
      (Cluster.new Network.evenConfig 30)).map (fun c => ((c.hosts 0).io, (c.hosts 0).calls.length,
        ((c.hosts 0).state.sender.out.lookup (1, 1)).isSome)) = some (.ticking 6000000, 0, true) :=
    rfl
  obtain ⟨c, hexec, heq⟩ := Option.map_eq_some_iff.mp hout
  simp only [Prod.mk.injEq] at heq
  exact ⟨c, heq.1, heq.2.1, heq.2.2,
    entries_owned (run_of_letterOnly (p := Policy.any) trivial hexec) 0⟩

end Cluster
end AgentTransport
