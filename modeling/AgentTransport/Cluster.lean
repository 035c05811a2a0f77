import AgentTransport.SendCalls

/-!
# Hosts that run the transport

Every address runs a transport with its threads. Datagrams travel over a network that may lose,
duplicate and delay them in any order, and never makes one up. The clock goes on where a thread
reads it.
-/
namespace AgentTransport
open Transition

variable {Addr : Type} [DecidableEq Addr]

structure Cluster (Addr : Type) where
  hosts : Addr → Inner Addr
  flight : List (Datagram Addr)
  clock : ℕ

inductive ClusterEvent (Addr : Type) where
  /-- A thread of the host `a` goes on for a stretch. -/
  | move (a : Addr) (m : Move Addr)
  /-- `recv_from` at its destination returns the datagram at place `i` of the flight list. -/
  | arrive (i now : ℕ)
  | drop (i : ℕ)
  | duplicate (i : ℕ)

namespace Inner

variable {t t' : Inner Addr} {m : Move Addr} {out : List (Outgoing Addr)}

omit [DecidableEq Addr] in
/-- What a datagram from the socket does to a transport. -/
inductive Arrived (t : Inner Addr) (src : Addr) (bytes : List UInt8) (now : ℕ) : Inner Addr → Prop
  | skipped {e : String} (hio : t.io = .receiving) (hdec : Packet.decode bytes = .error e) :
      Arrived t src bytes now t.again
  | taken {pkt : Packet} {payload : List UInt8} (hio : t.io = .receiving)
      (hdec : Packet.decode bytes = .ok (pkt, payload)) :
      Arrived t src bytes now { t with io := .handling src pkt payload now }

omit [DecidableEq Addr] in
theorem arrive_spec {src : Addr} {bytes : List UInt8} {now : ℕ}
    (h : t.arrive src bytes now = some t') : Arrived t src bytes now t' := by
  unfold arrive at h
  split at h
  · split at h
    · obtain rfl := Option.some.inj h
      exact .skipped ‹_› ‹_›
    · obtain rfl := Option.some.inj h
      exact .taken ‹_› ‹_›
  · cases h

/-- The stretches a policy admits: the messages that are sent, and the GRANTs and RESENDs that
are handled for a message. Besides, fewer than `2 ^ 64` calls are made. -/
def Admits (p : Policy) (t : Inner Addr) (m : Move Addr) : Prop :=
  t.Counts m ∧
  (∀ dest data now, m = .sendTo dest data now → p.start data) ∧
  ∀ order, m = .handle order → ∀ src pkt payload now, t.io = .handling src pkt payload now →
    ∀ o, t.state.sender.out.lookup (src, pkt.msgId) = some o →
      (pkt.typ = .grant → p.grant t.state.sender.cfg o pkt) ∧
      (pkt.typ = .resend → p.resend t.state.sender.cfg o pkt)

omit [DecidableEq Addr] in
/-- The packet that the IO thread has, and its source. -/
def inHand (t : Inner Addr) : Option (Addr × Packet) :=
  match t.io with
  | .handling src pkt _ _ => some (src, pkt)
  | _ => none

/-- What a policy says of one move. -/
def Meets (p : Policy) (t : Inner Addr) : Move Addr → Prop
  | .sendTo _ data _ => p.start data
  | .handle _ => ∀ x ∈ t.inHand, ∀ o ∈ t.state.sender.out.lookup (x.1, x.2.msgId),
    (x.2.typ = .grant → p.grant t.state.sender.cfg o x.2) ∧
    (x.2.typ = .resend → p.resend t.state.sender.cfg o x.2)
  | _ => True

theorem admits_iff (p : Policy) (t : Inner Addr) (m : Move Addr) :
    t.Admits p m ↔ t.Counts m ∧ t.Meets p m := by
  refine and_congr_right fun _ => ?_
  cases m with
  | sendTo dest data now => simp [Meets]
  | handle order =>
    cases hio : t.io with
    | handling src pkt payload now =>
      simp only [Meets, inHand, hio]
      refine ⟨fun h x hx o ho => ?_,
        fun h => ⟨by simp, fun _ _ src' pkt' payload' now' heq o ho => ?_⟩⟩
      · obtain rfl := Option.some.inj hx
        exact h.2 order rfl src pkt payload now rfl o ho
      · obtain ⟨rfl, rfl, rfl, rfl⟩ := IoPhase.handling.inj heq
        exact h _ rfl o ho
    | _ => simp [Meets, inHand, hio]
  | _ => simp [Meets]

instance (p : Policy) [DecidablePred p.start] [∀ cfg o, DecidablePred (p.grant cfg o)]
    [∀ cfg o, DecidablePred (p.resend cfg o)] (t : Inner Addr) : DecidablePred (t.Meets p) :=
  fun m =>
  match m with
  | .sendTo _ data _ => inferInstanceAs (Decidable (p.start data))
  | .handle _ => inferInstanceAs (Decidable (∀ x ∈ t.inHand,
      ∀ o ∈ t.state.sender.out.lookup (x.1, x.2.msgId),
        (x.2.typ = .grant → p.grant t.state.sender.cfg o x.2) ∧
        (x.2.typ = .resend → p.resend t.state.sender.cfg o x.2)))
  | .start _ | .dispatch _ | .poll _ _ | .recv _ _ | .quiet | .socketError | .look _ | .tick _ _
  | .shutdown => inferInstanceAs (Decidable True)

instance (p : Policy) [DecidablePred p.start] [∀ cfg o, DecidablePred (p.grant cfg o)]
    [∀ cfg o, DecidablePred (p.resend cfg o)] (t : Inner Addr) : DecidablePred (t.Admits p) :=
  fun m => decidable_of_iff' _ (t.admits_iff p m)

/-- The invariant of every transport: besides the numbers and the owners of the entries, what
waits to be dispatched is what `start` gave out, and what was sent met the policy. -/
structure Consistent (cfg : TransportConfig) (p : Policy) (t : Inner Addr) : Prop
    extends Numbered t where
  owned : t.Owned
  sender_cfg : t.state.sender.cfg = cfg
  receiver_cfg : t.state.receiver.cfg = cfg
  entered : ∀ call ∈ t.calls, ∀ acts, call.phase = .entered acts →
    acts = sendRanges call.dest call.msgId call.data (OutMsg.startRanges cfg call.data)
  admitted : ∀ x ∈ t.made, p.start x.2

theorem Consistent.new (cfg : TransportConfig) (p : Policy) (sendTimeout now : ℕ) :
    Consistent cfg p (Inner.new cfg sendTimeout now : Inner Addr) where
  toNumbered := Numbered.new cfg sendTimeout now
  owned key m hm := by simp [Inner.new, State.new, SenderCore.new] at hm
  sender_cfg := rfl
  receiver_cfg := rfl
  entered call hcall := by cases hcall
  admitted x hx := by cases hx

variable {cfg : TransportConfig} {p : Policy}

theorem Consistent.effect (h : Consistent cfg p t) (hok : t.Admits p m)
    (he : Effect t m t' out) : Consistent cfg p t' := by
  have hnumbered := h.toNumbered.effect hok.1 he
  have howned := h.owned.effect h.toNumbered he
  -- a call that moves on to another phase
  have hset : ∀ {i : ℕ} {call : SendCall Addr} {phase : SendPhase Addr},
      t.calls[i]? = some call →
      (∀ acts, phase = .entered acts →
        acts = sendRanges call.dest call.msgId call.data (OutMsg.startRanges cfg call.data)) →
      ∀ call' ∈ (t.setPhase i call phase).calls, ∀ acts, call'.phase = .entered acts →
        acts = sendRanges call'.dest call'.msgId call'.data
          (OutMsg.startRanges cfg call'.data) := by
    intro i call phase hi hacts call' hcall' acts hphase
    rcases List.mem_or_eq_of_mem_set hcall' with hold | rfl
    · exact h.entered call' hold acts hphase
    · exact hacts acts hphase
  have herase : ∀ {i : ℕ}, ∀ call ∈ t.calls.eraseIdx i, ∀ acts, call.phase = .entered acts →
      acts = sendRanges call.dest call.msgId call.data (OutMsg.startRanges cfg call.data) :=
    fun call hcall => h.entered call (List.mem_of_mem_eraseIdx hcall)
  cases he with
  | sendTo dest data now =>
    refine ⟨hnumbered, howned, h.sender_cfg, h.receiver_cfg, fun call hcall acts hphase => ?_,
      fun x hx => ?_⟩
    · rcases List.mem_append.mp hcall with hcall | hcall
      · exact h.entered call hcall acts hphase
      · rw [List.mem_singleton.mp hcall] at hphase
        cases hphase
    · rcases List.mem_append.mp hx with hx | hx
      · exact h.admitted x hx
      · rw [List.mem_singleton.mp hx]
        exact hok.2.1 dest data now rfl
  | start hi hphase =>
    refine ⟨hnumbered, howned, ?_, h.receiver_cfg, hset hi fun acts heq => ?_, h.admitted⟩
    · exact (SenderCore.update_cfg _ _ _).trans h.sender_cfg
    · rw [← SendPhase.entered.inj heq, SenderCore.start_acts, h.sender_cfg]
  | dispatch hi hphase =>
    refine ⟨hnumbered, howned, ?_, ?_, hset hi (fun acts heq => by cases heq), h.admitted⟩
    · rw [drain_sender]
      exact h.sender_cfg
    · rw [drain_receiver]
      exact h.receiver_cfg
  | done => exact ⟨hnumbered, howned, h.sender_cfg, h.receiver_cfg, herase, h.admitted⟩
  | expired => exact ⟨hnumbered, howned, h.sender_cfg, h.receiver_cfg, herase, h.admitted⟩
  | waits => exact h
  | takes => exact ⟨hnumbered, howned, h.sender_cfg, h.receiver_cfg, h.entered, h.admitted⟩
  | nothing => exact h
  | quiet => exact ⟨hnumbered, howned, h.sender_cfg, h.receiver_cfg, h.entered, h.admitted⟩
  | socketError => exact ⟨hnumbered, howned, h.sender_cfg, h.receiver_cfg, h.entered, h.admitted⟩
  | handle hio hst =>
    obtain ⟨hsender, hreceiver⟩ := (State.handled hst).cfg
    refine ⟨hnumbered, howned, ?_, ?_, h.entered, h.admitted⟩
    · rw [drain_sender]
      exact hsender.trans h.sender_cfg
    · rw [drain_receiver]
      exact hreceiver.trans h.receiver_cfg
  | looks => exact ⟨hnumbered, howned, h.sender_cfg, h.receiver_cfg, h.entered, h.admitted⟩
  | passes => exact ⟨hnumbered, howned, h.sender_cfg, h.receiver_cfg, h.entered, h.admitted⟩
  | tick hio hr =>
    refine ⟨hnumbered, howned, ?_, ?_, h.entered, h.admitted⟩
    · rw [drain_sender]
      exact (SenderCore.tick_cfg _ _ _).trans h.sender_cfg
    · rw [drain_receiver]
      exact (ReceiverCore.tick_cfg hr).trans h.receiver_cfg
  | shutdown => exact ⟨hnumbered, howned, h.sender_cfg, h.receiver_cfg, h.entered, h.admitted⟩

/-- A transport on which only the IO thread has moved on. -/
theorem Consistent.of_io (h : Consistent cfg p t) (io : IoPhase Addr) :
    Consistent cfg p { t with io := io } :=
  ⟨h.toNumbered.congr rfl rfl rfl rfl, h.owned, h.sender_cfg, h.receiver_cfg, h.entered, h.admitted⟩

theorem Consistent.arrived (h : Consistent cfg p t) {src : Addr} {bytes : List UInt8} {now : ℕ}
    (ha : Arrived t src bytes now t') : Consistent cfg p t' := by
  cases ha with
  | skipped => exact h.of_io _
  | taken => exact h.of_io _

end Inner

namespace Cluster

def new (cfg : TransportConfig) (sendTimeout : ℕ) : Cluster Addr :=
  ⟨fun _ => Inner.new cfg sendTimeout 0, [], 0⟩

def step (c : Cluster Addr) : ClusterEvent Addr → Option (Cluster Addr)
  | .move a m =>
    if c.clock ≤ m.now.getD c.clock then
      ((c.hosts a).step m).map fun next =>
        { hosts := Function.update c.hosts a next.1
          flight := c.flight ++ next.2.map fun x => ⟨a, x.1, x.2⟩
          clock := m.now.getD c.clock }
    else none
  | .arrive i now =>
    if c.clock ≤ now then
      c.flight[i]?.bind fun d => ((c.hosts d.dest).arrive d.src d.bytes now).map fun t =>
        { hosts := Function.update c.hosts d.dest t
          flight := c.flight.eraseIdx i
          clock := now }
    else none
  | .drop i =>
    if i < c.flight.length then some { c with flight := c.flight.eraseIdx i } else none
  | .duplicate i => c.flight[i]?.map fun d => { c with flight := c.flight ++ [d] }

/-- What an event does to a cluster. -/
inductive Effect (c : Cluster Addr) : ClusterEvent Addr → Cluster Addr → Prop
  | move {a : Addr} {m : Move Addr} {t' : Inner Addr} {out : List (Outgoing Addr)}
      (he : Inner.Effect (c.hosts a) m t' out) :
      Effect c (.move a m)
        { hosts := Function.update c.hosts a t'
          flight := c.flight ++ out.map fun x => ⟨a, x.1, x.2⟩
          clock := m.now.getD c.clock }
  | arrive {i now : ℕ} {d : Datagram Addr} {t' : Inner Addr} (hd : c.flight[i]? = some d)
      (ha : Inner.Arrived (c.hosts d.dest) d.src d.bytes now t') :
      Effect c (.arrive i now)
        { hosts := Function.update c.hosts d.dest t'
          flight := c.flight.eraseIdx i
          clock := now }
  | drop {i : ℕ} : Effect c (.drop i) { c with flight := c.flight.eraseIdx i }
  | duplicate {i : ℕ} {d : Datagram Addr} (hd : c.flight[i]? = some d) :
      Effect c (.duplicate i) { c with flight := c.flight ++ [d] }

theorem step_spec {c c' : Cluster Addr} {e : ClusterEvent Addr} (h : c.step e = some c') :
    Effect c e c' := by
  cases e with
  | move a m =>
    simp only [step] at h
    split_ifs at h
    obtain ⟨⟨t', out⟩, hm, rfl⟩ := Option.map_eq_some_iff.mp h
    exact .move (Inner.step_spec hm)
  | arrive i now =>
    simp only [step] at h
    split_ifs at h
    obtain ⟨d, hd, h⟩ := Option.bind_eq_some_iff.mp h
    obtain ⟨t', ht, rfl⟩ := Option.map_eq_some_iff.mp h
    exact .arrive hd (Inner.arrive_spec ht)
  | drop i =>
    simp only [step] at h
    split_ifs at h
    obtain rfl := Option.some.inj h
    exact .drop
  | duplicate i =>
    obtain ⟨d, hd, rfl⟩ := Option.map_eq_some_iff.mp h
    exact .duplicate hd

/-- The events in which the moves meet `G`. -/
def Guards (G : Inner Addr → Move Addr → Prop) (c : Cluster Addr) : ClusterEvent Addr → Prop
  | .move a m => G (c.hosts a) m
  | _ => True

/-- The events a policy admits. -/
def Admits (p : Policy) (c : Cluster Addr) (e : ClusterEvent Addr) : Prop :=
  c.Guards (Inner.Admits p) e

instance (p : Policy) [DecidablePred p.start] [∀ cfg o, DecidablePred (p.grant cfg o)]
    [∀ cfg o, DecidablePred (p.resend cfg o)] (c : Cluster Addr) : DecidablePred (c.Admits p) :=
  fun e =>
  match e with
  | .move a m => inferInstanceAs (Decidable ((c.hosts a).Admits p m))
  | .arrive _ _ | .drop _ | .duplicate _ => inferInstanceAs (Decidable True)

/-- What a policy admits, a more generous one admits. -/
theorem Admits.mono {p p' : Policy} {c : Cluster Addr} {e : ClusterEvent Addr} (h : c.Admits p e)
    (hstart : ∀ data, p.start data → p'.start data)
    (hgrant : ∀ cfg o pkt, p.grant cfg o pkt → p'.grant cfg o pkt)
    (hresend : ∀ cfg o pkt, p.resend cfg o pkt → p'.resend cfg o pkt) : c.Admits p' e := by
  cases e with
  | move a m =>
    obtain ⟨hcount, hsend, hhandle⟩ := h
    refine ⟨hcount, fun dest data now heq => hstart data (hsend dest data now heq),
      fun order heq src pkt payload now hio o ho => ?_⟩
    have hboth := hhandle order heq src pkt payload now hio o ho
    exact ⟨fun htyp => hgrant _ _ _ (hboth.1 htyp), fun htyp => hresend _ _ _ (hboth.2 htyp)⟩
  | _ => trivial

variable {cfg : TransportConfig} {sendTimeout : ℕ} {p : Policy} {c c' : Cluster Addr}
  {evs : List (ClusterEvent Addr)} {G : Inner Addr → Move Addr → Prop}

/-- What every transport keeps, a step of the cluster keeps of every host. -/
theorem hosts_step {P : Inner Addr → Prop}
    (heffect : ∀ t m t' out, P t → G t m → Inner.Effect t m t' out → P t')
    (harrive : ∀ t src bytes now t', P t → Inner.Arrived t src bytes now t' → P t')
    (hc : ∀ a, P (c.hosts a)) {e : ClusterEvent Addr} (hok : c.Guards G e)
    (hstep : c.step e = some c') (a : Addr) : P (c'.hosts a) := by
  have hupdate : ∀ {b : Addr} {t' : Inner Addr}, P t' → P (Function.update c.hosts b t' a) := by
    intro b t' ht'
    rw [Function.update_apply]
    split_ifs
    · exact ht'
    · exact hc a
  cases step_spec hstep with
  | move he => exact hupdate (heffect _ _ _ _ (hc _) hok he)
  | arrive hd ha => exact hupdate (harrive _ _ _ _ _ (hc _) ha)
  | drop => exact hc a
  | duplicate => exact hc a

/-- What every transport keeps holds of every host. -/
theorem hosts_invariant {P : Inner Addr → Prop} (hnew : P (Inner.new cfg sendTimeout 0))
    (heffect : ∀ t m t' out, P t → G t m → Inner.Effect t m t' out → P t')
    (harrive : ∀ t src bytes now t', P t → Inner.Arrived t src bytes now t' → P t')
    (h : Run Cluster.step (Cluster.Guards G) (Cluster.new cfg sendTimeout) evs c) :
    ∀ a, P (c.hosts a) :=
  h.invariant (P := fun c => ∀ a, P (c.hosts a))
    (fun _ _ _ hc hok hstep => hosts_step heffect harrive hc hok hstep) fun _ => hnew

/-- Every run meets the guard that asks for nothing. -/
theorem run_unguarded (h : Run Cluster.step anyEvent c evs c') :
    Run Cluster.step (Cluster.Guards fun _ _ => True) c evs c' :=
  h.weaken fun _ e _ => by cases e <;> trivial

theorem consistent_step (hc : ∀ a, (c.hosts a).Consistent cfg p) {e : ClusterEvent Addr}
    (hok : c.Admits p e) (hstep : c.step e = some c') : ∀ a, (c'.hosts a).Consistent cfg p :=
  hosts_step (fun _ _ _ _ ht hok he => ht.effect hok he) (fun _ _ _ _ _ ht ha => ht.arrived ha) hc
    hok hstep

theorem consistent
    (h : Run Cluster.step (Cluster.Admits p) (Cluster.new cfg sendTimeout) evs c) :
    ∀ a, (c.hosts a).Consistent cfg p :=
  h.invariant (fun _ _ _ hc hok hstep => consistent_step hc hok hstep)
    fun _ => Inner.Consistent.new cfg p sendTimeout 0

end Cluster
end AgentTransport
