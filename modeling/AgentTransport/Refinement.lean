import AgentTransport.Cluster
import AgentTransport.Simulation

/-!
# Hosts with queues and threads refine the network

Seen from the receiver of one host, a cluster is the network of senders and one receiver: what
waits in the queues or to be dispatched is in flight there already, and the network keeps a copy
of everything, so that nothing that arrives late can be missing. The network has no use for its
clock, as a thread may work with a time that is over.
-/
namespace AgentTransport
open Transition

variable {Addr : Type} [DecidableEq Addr]

namespace Network

/-- A step of the network, whatever its clock says. -/
def stepAnytime (rcv : Addr) (s : Network Addr) (e : Event Addr) : Option (Network Addr) :=
  ({ s with clock := 0 } : Network Addr).step rcv e

variable {cfg : TransportConfig} {p : Policy} {rcv : Addr} {s s' : Network Addr} {e : Event Addr}

omit [DecidableEq Addr] in
theorem Wired.unclocked (h : Wired cfg s) : Wired cfg ({ s with clock := 0 } : Network Addr) :=
  ⟨h.senders_cfg, h.receiver_cfg, h.flight_emitted⟩

theorem Wired.stepAnytime (h : Wired cfg s) (hs : s.stepAnytime rcv e = some s') : Wired cfg s' :=
  h.unclocked.effect (step_spec hs)

theorem Traced.stepAnytime (h : Traced cfg p rcv s) (hok : s.Admits p e)
    (hs : s.stepAnytime rcv e = some s') : Traced cfg p rcv s' := by
  have h0 : Traced cfg p rcv ({ s with clock := 0 } : Network Addr) :=
    ⟨h.toWired.unclocked, h.nodup, h.admitted, h.idle, h.out_data, h.traced⟩
  refine h0.step ?_ hs
  cases e <;> exact hok

theorem Traced.of_runAnytime {evs : List (Event Addr)}
    (h : Run (Network.stepAnytime rcv) (Network.Admits p) (Network.new cfg) evs s) :
    Traced cfg p rcv s :=
  h.invariant (fun _ _ _ ht hok hs => ht.stepAnytime hok hs) (Traced.new cfg p rcv)

theorem Wired.of_runAnytime {evs : List (Event Addr)} (h : Wired cfg s)
    (hrun : Run (Network.stepAnytime rcv) (Network.Admits p) s evs s') : Wired cfg s' :=
  hrun.invariant (fun _ _ _ ht _ hs => ht.stepAnytime hs) h

/-- A datagram in flight may arrive, and be in flight still. -/
theorem exists_replay (p : Policy) (rcv : Addr) {d : Datagram Addr} (hd : d ∈ s.flight)
    (hok : ∀ pkt payload, Packet.decode d.bytes = .ok (pkt, payload) →
      ∀ o, (s.senders d.dest).out.lookup (d.src, pkt.msgId) = some o →
        (pkt.typ = .grant → p.grant (s.senders d.dest).cfg o pkt) ∧
        (pkt.typ = .resend → p.resend (s.senders d.dest).cfg o pkt)) :
    ∃ fl, s.flight ⊆ fl ∧ ∀ now order s',
      ({ s with clock := now, flight := fl } : Network Addr).arrive rcv d order = some s' →
      ∃ evs, Run (Network.stepAnytime rcv) (Network.Admits p) s evs s' := by
  obtain ⟨i, hi⟩ := List.mem_iff_getElem?.mp hd
  obtain ⟨hlt, -⟩ := List.getElem?_eq_some_iff.mp hi
  refine ⟨(s.flight ++ [d]).eraseIdx i, Threads.subset_eraseIdx_concat hi,
    fun now order s' hs' => ?_⟩
  have hi' : (s.flight ++ [d])[i]? = some d := by rwa [List.getElem?_append_left hlt]
  have hfirst : s.stepAnytime rcv (.duplicate i) =
      some { s with clock := 0, flight := s.flight ++ [d] } := by
    simp only [Network.stepAnytime, Network.step, hi, Option.map_some]
  refine ⟨[.duplicate i] ++ [.deliver i now order],
    (Run.single (show s.Admits p (.duplicate i) from trivial) hfirst).snoc ?_ ?_⟩
  · intro d' hd'
    obtain rfl := Option.some.inj (hi'.symm.trans hd')
    exact hok
  · simp only [Network.stepAnytime, Network.step, hi', Nat.zero_le, if_true]
    exact hs'

/-- Nothing but the host `a` has moved, and nothing is lost. -/
structure MovedAt (rcv a : Addr) (s s' : Network Addr) : Prop where
  senders : ∀ x, x ≠ a → s'.senders x = s.senders x
  receiver : a ≠ rcv → s'.receiver = s.receiver ∧ s'.delivered = s.delivered
  started : ∀ key data, key.1 ≠ a → ((key, data) ∈ s'.started ↔ (key, data) ∈ s.started)
  flight : s.flight ⊆ s'.flight
  emitted : ∀ d ∈ s'.emitted, d.src ≠ a → d ∈ s.emitted

omit [DecidableEq Addr] in
theorem MovedAt.refl (rcv a : Addr) (s : Network Addr) : MovedAt rcv a s s :=
  ⟨fun _ _ => rfl, fun _ => ⟨rfl, rfl⟩, fun _ _ _ => Iff.rfl, fun _ h => h, fun _ h _ => h⟩

omit [DecidableEq Addr] in
theorem MovedAt.trans {a : Addr} {s₁ s₂ s₃ : Network Addr} (h : MovedAt rcv a s₁ s₂)
    (h' : MovedAt rcv a s₂ s₃) : MovedAt rcv a s₁ s₃ where
  senders x hx := (h'.senders x hx).trans (h.senders x hx)
  receiver ha := ⟨(h'.receiver ha).1.trans (h.receiver ha).1,
    (h'.receiver ha).2.trans (h.receiver ha).2⟩
  started key data hk := (h'.started key data hk).trans (h.started key data hk)
  flight := fun _ hd => h'.flight (h.flight hd)
  emitted d hd hsrc := h.emitted d (h'.emitted d hd hsrc) hsrc

/-- A sender that runs moves its own host. -/
theorem MovedAt.runSender (rcv a : Addr) {fl : List (Datagram Addr)} (hfl : s.flight ⊆ fl)
    (now : ℕ) (f : SenderCore Addr → SenderCore Addr × List (Action Addr))
    (hdel : deliveries (f (s.senders a)).2 = []) :
    MovedAt rcv a s
      (({ s with clock := now, flight := fl } : Network Addr).runSender a f) where
  senders x hx := by simp only [Network.runSender, emit, Function.update_of_ne hx]
  receiver _ := ⟨rfl, by simp only [Network.runSender, emit, hdel, List.append_nil]⟩
  started _ _ _ := Iff.rfl
  flight _ hd := List.mem_append_left _ (hfl hd)
  emitted d hd hsrc := by
    rcases List.mem_append.mp hd with hd | hd
    · exact hd
    · exact absurd (mem_datagrams.mp hd).1 hsrc

omit [DecidableEq Addr] in
theorem MovedAt.runReceiver {fl : List (Datagram Addr)} (hfl : s.flight ⊆ fl) (now : ℕ)
    (r' : ReceiverCore Addr) (acts : List (Action Addr)) :
    MovedAt rcv rcv s
      (emit rcv acts { s with clock := now, flight := fl, receiver := r' }) where
  senders _ _ := rfl
  receiver hne := absurd rfl hne
  started _ _ _ := Iff.rfl
  flight _ hd := List.mem_append_left _ (hfl hd)
  emitted d hd hsrc := by
    rcases List.mem_append.mp hd with hd | hd
    · exact hd
    · exact absurd (mem_datagrams.mp hd).1 hsrc

end Network

section Sends

omit [DecidableEq Addr]

theorem mem_sends {acts : List (Action Addr)} {x : Outgoing Addr} :
    x ∈ sends acts ↔ .send x.1 x.2 ∈ acts := by
  simp only [sends, List.mem_filterMap]
  constructor
  · rintro ⟨a, ha, hx⟩
    cases a with
    | send dest bytes =>
      obtain rfl := Option.some.inj hx
      exact ha
    | deliver => cases hx
  · intro ha
    exact ⟨_, ha, rfl⟩

theorem sends_append (acts acts' : List (Action Addr)) :
    sends (acts ++ acts') = sends acts ++ sends acts' := List.filterMap_append

/-- The datagrams of actions are what the actions send. -/
theorem mem_datagrams_sends {src : Addr} {acts : List (Action Addr)} {d : Datagram Addr} :
    d ∈ datagrams src acts ↔ d.src = src ∧ (d.dest, d.bytes) ∈ sends acts := by
  rw [mem_datagrams, mem_sends]

/-- What is sent for a message carries its number. -/
theorem of_mem_sendRanges {dest : Addr} {msgId : UInt64} {data : List UInt8} {rs : List (ℕ × ℕ)}
    {x : Outgoing Addr} (hx : x ∈ sends (sendRanges dest msgId data rs)) :
    x.1 = dest ∧ ∀ pkt payload, Packet.decode x.2 = .ok (pkt, payload) →
      pkt.typ = .data ∧ pkt.msgId = msgId := by
  obtain ⟨r, _, hr⟩ := List.mem_map.mp (mem_sends.mp hx)
  obtain ⟨hdest, hbytes⟩ := Action.send.inj hr
  refine ⟨hdest.symm, fun pkt payload hdec => ?_⟩
  rw [← hbytes] at hdec
  rw [(eq_of_decode_dataPacket hdec).1]
  exact ⟨rfl, rfl⟩

end Sends

/-- The packets that go to the receiver of `b` or come from it. -/
def Packet.Concerns (b src dest : Addr) (pkt : Packet) : Prop :=
  if pkt.typ = .data then dest = b else src = b

omit [DecidableEq Addr] in
theorem Packet.concerns_data {src dest : Addr} {pkt : Packet} (htyp : pkt.typ = .data) :
    pkt.Concerns dest src dest := by
  rw [Packet.Concerns, if_pos htyp]

omit [DecidableEq Addr] in
theorem Packet.concerns_control {src dest : Addr} {pkt : Packet} (htyp : pkt.typ ≠ .data) :
    pkt.Concerns src src dest := by
  rw [Packet.Concerns, if_neg htyp]

def Datagram.Concerns (b : Addr) (d : Datagram Addr) : Prop :=
  ∃ pkt payload, Packet.decode d.bytes = .ok (pkt, payload) ∧ pkt.Concerns b d.src d.dest

namespace Inner

/-- The packets that wait in the queues, or to be dispatched. -/
def Holds (t : Inner Addr) (x : Outgoing Addr) : Prop :=
  x ∈ t.state.tx.queues.flatten ∨
    ∃ call ∈ t.calls, ∃ acts, call.phase = .entered acts ∧ x ∈ sends acts

/-- The call with this number has not entered its message. -/
def Awaits (t : Inner Addr) (msgId : UInt64) : Prop :=
  ∃ call ∈ t.calls, call.msgId = msgId ∧ call.phase = .numbered

/-- What the host `a` with the transport `t` has to do with the network that the receiver of
`b` sees. `acts` is what the cores have given out and is not drained yet. -/
structure Mirrors (b a : Addr) (t : Inner Addr) (acts : List (Action Addr)) (n : Network Addr) :
    Prop where
  out : ∀ id, ¬ t.GaveUp (b, id) →
    (n.senders a).out.lookup (b, id) = t.state.sender.out.lookup (b, id)
  started : ∀ id data, ((a, id), data) ∈ n.started ↔ ((b, id), data) ∈ t.made ∧ ¬ t.Awaits id
  holds : ∀ x, t.Holds x ∨ x ∈ sends acts → Datagram.Concerns b ⟨a, x.1, x.2⟩ →
    ⟨a, x.1, x.2⟩ ∈ n.flight
  hand : ∀ src pkt payload now, t.io = .handling src pkt payload now → pkt.Concerns b src a →
    ∃ bytes, Packet.decode bytes = .ok (pkt, payload) ∧ ⟨src, a, bytes⟩ ∈ n.flight
  emitted : ∀ d ∈ n.emitted, d.src = a → d.dest = b → ∀ pkt payload,
    Packet.decode d.bytes = .ok (pkt, payload) → pkt.typ = .data → ¬ t.GaveUp (b, pkt.msgId) →
    (d.dest, d.bytes) ∈ t.emitted ++ sends acts ∨ ∃ call ∈ t.calls, ∃ acts',
      call.key = (d.dest, pkt.msgId) ∧ call.phase = .entered acts' ∧ (d.dest, d.bytes) ∈ sends acts'
  own : a = b → n.receiver = t.state.receiver ∧ n.delivered = t.delivered ++ deliveries acts

variable {b a : Addr} {t t' : Inner Addr} {acts acts' : List (Action Addr)} {n n' : Network Addr}
  {fl : List (Datagram Addr)}

theorem Mirrors.new (b a : Addr) (cfg : TransportConfig) (sendTimeout now : ℕ) :
    Mirrors b a (Inner.new cfg sendTimeout now) [] (Network.new cfg) where
  out _ _ := rfl
  started id data := by simp [Network.new, Inner.new]
  holds x hx := by
    rcases hx with (hx | ⟨call, hcall, _⟩) | hx
    · simp [Inner.new, State.new, TxQueues.new] at hx
    · cases hcall
    · cases hx
  hand src pkt payload now hio := by cases hio
  emitted d hd := by cases hd
  own _ := ⟨rfl, rfl⟩

/-- A host that has not moved. -/
theorem Mirrors.frame {x : Addr} (h : Mirrors b x t acts n) (hm : Network.MovedAt b a n n')
    (hne : x ≠ a) : Mirrors b x t acts n' where
  out id hid := by
    rw [hm.senders x hne]
    exact h.out id hid
  started id data := (hm.started (x, id) data hne).trans (h.started id data)
  holds y hy hc := hm.flight (h.holds y hy hc)
  hand src pkt payload now hio hc := by
    obtain ⟨bytes, hdec, hmem⟩ := h.hand src pkt payload now hio hc
    exact ⟨bytes, hdec, hm.flight hmem⟩
  emitted d hd hsrc := h.emitted d (hm.emitted d hd (by rwa [hsrc])) hsrc
  own hx := by
    obtain ⟨hreceiver, hdelivered⟩ := hm.receiver fun hab => hne (hx.trans hab.symm)
    rw [hreceiver, hdelivered]
    exact h.own hx

/-- The IO thread has moved on and holds no packet. -/
theorem Mirrors.of_io (h : Mirrors b a t acts n) (io : IoPhase Addr)
    (hio : ∀ src pkt payload now, io ≠ .handling src pkt payload now) :
    Mirrors b a { t with io := io } acts n :=
  ⟨h.out, h.started, h.holds, fun src pkt payload now heq => absurd heq (hio src pkt payload now),
    h.emitted, h.own⟩

/-- A drain hands the actions on. -/
theorem Mirrors.drain (h : Mirrors b a t acts n) :
    Mirrors b a (t.drain acts).1 [] n ∧
      ∀ x ∈ (t.drain acts).2, Datagram.Concerns b ⟨a, x.1, x.2⟩ → ⟨a, x.1, x.2⟩ ∈ n.flight := by
  have hqueues := t.drain_queues acts
  have hfrom : ∀ x, x ∈ (t.drain acts).2 ∨ x ∈ (t.drain acts).1.state.tx.queues.flatten →
      t.Holds x ∨ x ∈ sends acts := by
    intro x hx
    rcases List.mem_append.mp (hqueues.mem_iff.mp (List.mem_append.mpr hx)) with hx | hx
    · exact Or.inl (Or.inl hx)
    · exact Or.inr hx
  refine ⟨⟨?_, h.started, ?_, h.hand, ?_, ?_⟩, fun x hx => h.holds x (hfrom x (Or.inl hx))⟩
  · rw [drain_sender]
    exact h.out
  · rintro x ((hx | hx) | hx)
    · exact h.holds x (hfrom x (Or.inr hx))
    · exact h.holds x (Or.inl (Or.inr hx))
    · cases hx
  · intro d hd hsrc hdest pkt payload hdec htyp hgave
    rw [show sends ([] : List (Action Addr)) = [] from rfl, List.append_nil]
    exact h.emitted d hd hsrc hdest pkt payload hdec htyp hgave
  · intro hab
    rw [drain_receiver, drain_delivered, deliveries_nil, List.append_nil]
    exact h.own hab

/-- The sender core of the host runs, here and in the network. -/
theorem Mirrors.runSender (h : Mirrors b a t acts n) (hfl : n.flight ⊆ fl) (now : ℕ)
    (f : SenderCore Addr → SenderCore Addr × List (Action Addr)) (s' : SenderCore Addr)
    (acts' : List (Action Addr))
    (hlook : ∀ id, ¬ t.GaveUp (b, id) →
      (f (n.senders a)).1.out.lookup (b, id) = s'.out.lookup (b, id))
    (hsub : ∀ x ∈ sends acts', Datagram.Concerns b ⟨a, x.1, x.2⟩ → x ∈ sends (f (n.senders a)).2)
    (hsup : ∀ x ∈ sends (f (n.senders a)).2, x.1 = b → ∀ pkt payload,
      Packet.decode x.2 = .ok (pkt, payload) → ¬ t.GaveUp (b, pkt.msgId) → x ∈ sends acts')
    (hdel : deliveries acts' = []) (hdel' : deliveries (f (n.senders a)).2 = []) :
    Mirrors b a { t with state := { t.state with sender := s' } } (acts ++ acts')
      (({ n with clock := now, flight := fl } : Network Addr).runSender a f) where
  out id hid := by
    simp only [Network.runSender, Network.emit, Function.update_self]
    exact hlook id hid
  started := h.started
  holds x hx hc := by
    rw [sends_append, List.mem_append, ← or_assoc] at hx
    rcases hx with hx | hx
    · exact List.mem_append_left _ (hfl (h.holds x hx hc))
    · exact List.mem_append_right _ (mem_datagrams_sends.mpr ⟨rfl, hsub x hx hc⟩)
  hand src pkt payload now' hio hc := by
    obtain ⟨bytes, hdec, hmem⟩ := h.hand src pkt payload now' hio hc
    exact ⟨bytes, hdec, List.mem_append_left _ (hfl hmem)⟩
  emitted d hd hsrc hdest pkt payload hdec htyp hgave := by
    rw [sends_append, ← List.append_assoc]
    rcases List.mem_append.mp hd with hd | hd
    · rcases h.emitted d hd hsrc hdest pkt payload hdec htyp hgave with hd | hd
      · exact Or.inl (List.mem_append_left _ hd)
      · exact Or.inr hd
    · have hx := (mem_datagrams_sends.mp hd).2
      exact Or.inl (List.mem_append_right _ (hsup _ hx hdest pkt payload hdec hgave))
  own hab := by
    obtain ⟨hreceiver, hdelivered⟩ := h.own hab
    simp only [Network.runSender, Network.emit, hdel', List.append_nil, deliveries_append, hdel]
    exact ⟨hreceiver, hdelivered⟩

/-- The sender core runs on a message to another host. -/
theorem Mirrors.sender_other (h : Mirrors b a t acts n) (s' : SenderCore Addr)
    (acts' : List (Action Addr))
    (hlook : ∀ id, s'.out.lookup (b, id) = t.state.sender.out.lookup (b, id))
    (hnot : ∀ x ∈ sends acts', ¬ Datagram.Concerns b ⟨a, x.1, x.2⟩)
    (hdel : deliveries acts' = []) :
    Mirrors b a { t with state := { t.state with sender := s' } } (acts ++ acts') n where
  out id hid := (h.out id hid).trans (hlook id).symm
  started := h.started
  holds x hx hc := by
    rw [sends_append, List.mem_append, ← or_assoc] at hx
    rcases hx with hx | hx
    · exact h.holds x hx hc
    · exact absurd hc (hnot x hx)
  hand := h.hand
  emitted d hd hsrc hdest pkt payload hdec htyp hgave := by
    rw [sends_append, ← List.append_assoc]
    rcases h.emitted d hd hsrc hdest pkt payload hdec htyp hgave with hd | hd
    · exact Or.inl (List.mem_append_left _ hd)
    · exact Or.inr hd
  own hab := by
    rw [deliveries_append, hdel, List.append_nil]
    exact h.own hab

/-- The receiver core of `b` runs, here and in the network. -/
theorem Mirrors.runReceiver (h : Mirrors b b t acts n) (hfl : n.flight ⊆ fl) (now : ℕ)
    (r' : ReceiverCore Addr) (acts' : List (Action Addr)) :
    Mirrors b b { t with state := { t.state with receiver := r' } } (acts ++ acts')
      (Network.emit b acts' { n with clock := now, flight := fl, receiver := r' }) where
  out := h.out
  started := h.started
  holds x hx hc := by
    rw [sends_append, List.mem_append, ← or_assoc] at hx
    rcases hx with hx | hx
    · exact List.mem_append_left _ (hfl (h.holds x hx hc))
    · exact List.mem_append_right _ (mem_datagrams_sends.mpr ⟨rfl, hx⟩)
  hand src pkt payload now' hio hc := by
    obtain ⟨bytes, hdec, hmem⟩ := h.hand src pkt payload now' hio hc
    exact ⟨bytes, hdec, List.mem_append_left _ (hfl hmem)⟩
  emitted d hd hsrc hdest pkt payload hdec htyp hgave := by
    rw [sends_append, ← List.append_assoc]
    rcases List.mem_append.mp hd with hd | hd
    · rcases h.emitted d hd hsrc hdest pkt payload hdec htyp hgave with hd | hd
      · exact Or.inl (List.mem_append_left _ hd)
      · exact Or.inr hd
    · exact Or.inl (List.mem_append_right _ (mem_datagrams_sends.mp hd).2)
  own _ := by
    refine ⟨rfl, ?_⟩
    simp only [Network.emit, deliveries_append, ← List.append_assoc, (h.own rfl).2]

/-- The receiver core of another host runs. -/
theorem Mirrors.receiver_other (h : Mirrors b a t acts n) (hne : a ≠ b) (r' : ReceiverCore Addr)
    (honly : EmitsOnly (· ≠ .data) acts') :
    Mirrors b a { t with state := { t.state with receiver := r' } } (acts ++ acts') n where
  out := h.out
  started := h.started
  holds x hx hc := by
    rw [sends_append, List.mem_append, ← or_assoc] at hx
    rcases hx with hx | hx
    · exact h.holds x hx hc
    · obtain ⟨pkt, payload, hdec, hconcerns⟩ := hc
      obtain ⟨pkt', q, hbytes, htyp⟩ := honly _ _ (mem_sends.mp hx)
      have heq := (Packet.eq_of_decode_encode (hbytes ▸ hdec)).1
      rw [Packet.Concerns, heq, if_neg htyp] at hconcerns
      exact absurd hconcerns hne
  hand := h.hand
  emitted d hd hsrc hdest pkt payload hdec htyp hgave := by
    rw [sends_append, ← List.append_assoc]
    rcases h.emitted d hd hsrc hdest pkt payload hdec htyp hgave with hd | hd
    · exact Or.inl (List.mem_append_left _ hd)
    · exact Or.inr hd
  own hab := absurd hab hne

section Calls

variable {i : ℕ} {call : SendCall Addr} {phase : SendPhase Addr} {id : UInt64}

omit [DecidableEq Addr] in
@[simp] theorem setPhase_made : (t.setPhase i call phase).made = t.made := rfl

omit [DecidableEq Addr] in
/-- A call that goes on has entered its message. -/
theorem awaits_setPhase (hn : Numbered t) (hi : t.calls[i]? = some call)
    (hphase : phase ≠ .numbered) :
    (t.setPhase i call phase).Awaits id ↔ t.Awaits id ∧ id ≠ call.msgId := by
  constructor
  · rintro ⟨call', hcall', hid, hnumbered⟩
    rcases Threads.mem_set hn.nodup_ids hi hcall' with rfl | ⟨hold, hne⟩
    · exact absurd hnumbered hphase
    · exact ⟨⟨call', hold, hid, hnumbered⟩, hid ▸ hne⟩
  · rintro ⟨⟨call', hcall', rfl, hnumbered⟩, hne⟩
    exact ⟨call', Threads.mem_set_of_ne hi hcall' hne, rfl, hnumbered⟩

omit [DecidableEq Addr] in
/-- The message of a running call is entered, but for a call at its very beginning. -/
theorem awaits_iff (hn : Numbered t) (hi : t.calls[i]? = some call) :
    t.Awaits call.msgId ↔ call.phase = .numbered := by
  have hmem := List.mem_of_getElem? hi
  constructor
  · rintro ⟨call', hcall', hid, hnumbered⟩
    rwa [← List.inj_on_of_nodup_map hn.nodup_ids hcall' hmem hid]
  · exact fun hnumbered => ⟨call, hmem, rfl, hnumbered⟩

omit [DecidableEq Addr] in
/-- A call that returns had entered its message. -/
theorem awaits_leave (hi : t.calls[i]? = some call) (hphase : call.phase ≠ .numbered)
    (hcalls : t'.calls = t.calls.eraseIdx i) : t'.Awaits id ↔ t.Awaits id := by
  unfold Awaits
  rw [hcalls]
  constructor
  · rintro ⟨call', hcall', hrest⟩
    exact ⟨call', List.mem_of_mem_eraseIdx hcall', hrest⟩
  · rintro ⟨call', hcall', hid, hnumbered⟩
    refine ⟨call', Threads.mem_eraseIdx_of_ne hi hcall' (f := SendCall.phase) ?_, hid, hnumbered⟩
    rw [hnumbered]
    exact Ne.symm hphase

omit [DecidableEq Addr] in
/-- Whoever holds packets is not affected by a call that holds none. -/
theorem entered_leave (hi : t.calls[i]? = some call) (hphase : call.phase = .waiting)
    {call' : SendCall Addr} {acts : List (Action Addr)} (hcall' : call' ∈ t.calls)
    (hentered : call'.phase = .entered acts) : call' ∈ t.calls.eraseIdx i := by
  refine Threads.mem_eraseIdx_of_ne hi hcall' (f := SendCall.phase) ?_
  simp [hentered, hphase]

end Calls

variable {cfg : TransportConfig} {p : Policy} {m : Move Addr} {out : List (Outgoing Addr)}

/-- A call that draws its number is not seen by the network. -/
theorem Mirrors.sendTo (h : Mirrors b a t [] n) (hn : Numbered t)
    (hcount : t.made.length + 1 < 2 ^ 64) (dest : Addr) (data : List UInt8) (now : ℕ) :
    Mirrors b a { t with
      msgCounter := t.msgCounter + 1
      calls := t.calls ++ [⟨dest, t.msgCounter, data, now, now + t.sendTimeout, .numbered⟩]
      made := t.made ++ [((dest, t.msgCounter), data)] } [] n where
  out := h.out
  started id data' := by
    have hcounter : t.msgCounter.toNat = t.made.length + 1 := by
      rw [hn.counter, UInt64.toNat_ofNat_of_lt' hcount]
    have hnew : ∀ {data'' : List UInt8}, ((b, id), data'') ∈ t.made → id ≠ t.msgCounter := by
      rintro data'' hmade rfl
      have hle := hn.below _ hmade
      rw [hcounter] at hle
      omega
    rw [h.started id data']
    constructor
    · rintro ⟨hmade, hnot⟩
      refine ⟨List.mem_append_left _ hmade, ?_⟩
      rintro ⟨call, hcall, hid, hnumbered⟩
      rcases List.mem_append.mp hcall with hcall | hcall
      · exact hnot ⟨call, hcall, hid, hnumbered⟩
      · rw [List.mem_singleton.mp hcall] at hid
        exact hnew hmade hid.symm
    · rintro ⟨hmade, hnot⟩
      have hnot' : ¬ t.Awaits id := fun ⟨call, hcall, hrest⟩ =>
        hnot ⟨call, List.mem_append_left _ hcall, hrest⟩
      rcases List.mem_append.mp hmade with hmade | hmade
      · exact ⟨hmade, hnot'⟩
      · refine absurd ⟨_, List.mem_append_right _ (List.mem_singleton.mpr rfl), ?_, rfl⟩ hnot
        exact ((Prod.mk.inj (Prod.mk.inj (List.mem_singleton.mp hmade)).1).2).symm
  holds x hx hc := by
    refine h.holds x (Or.inl ?_) hc
    rcases hx with (hx | ⟨call, hcall, acts, hphase, hx⟩) | hx
    · exact Or.inl hx
    · rcases List.mem_append.mp hcall with hcall | hcall
      · exact Or.inr ⟨call, hcall, acts, hphase, hx⟩
      · rw [List.mem_singleton.mp hcall] at hphase
        cases hphase
    · cases hx
  hand := h.hand
  emitted d hd hsrc hdest pkt payload hdec htyp hgave := by
    rcases h.emitted d hd hsrc hdest pkt payload hdec htyp hgave with hd | ⟨call, hcall, hrest⟩
    · exact Or.inl hd
    · exact Or.inr ⟨call, List.mem_append_left _ hcall, hrest⟩
  own := h.own

/-- A call that returns is not seen by the network either. What it gave up is not looked at. -/
theorem Mirrors.leave (h : Mirrors b a t [] n) {i : ℕ} {call : SendCall Addr}
    (hi : t.calls[i]? = some call) (hphase : call.phase = .waiting)
    {result : Except TransportError UInt64} {s' : SenderCore Addr}
    (hlook : ∀ id, ¬ ((b, id) = call.key ∧ result = .error sendTimedOut) →
      s'.out.lookup (b, id) = t.state.sender.out.lookup (b, id)) :
    Mirrors b a { t with
      state := { t.state with sender := s' }
      calls := t.calls.eraseIdx i
      returned := t.returned ++ [(call.key, result)] } [] n where
  out id hid := by
    have hnot : ¬ t.GaveUp (b, id) := fun hgave => hid (List.mem_append_left _ hgave)
    refine (h.out id hnot).trans (hlook id fun hsame => hid ?_).symm
    rw [Inner.GaveUp, hsame.1, ← hsame.2]
    exact List.mem_append_right _ (List.mem_singleton.mpr rfl)
  started id data := by
    refine (h.started id data).trans (and_congr_right fun _ => not_congr ?_)
    exact (awaits_leave hi (by simp [hphase]) rfl).symm
  holds x hx hc := by
    refine h.holds x (Or.inl ?_) hc
    rcases hx with (hx | ⟨call', hcall', hrest⟩) | hx
    · exact Or.inl hx
    · exact Or.inr ⟨call', List.mem_of_mem_eraseIdx hcall', hrest⟩
    · cases hx
  hand := h.hand
  emitted d hd hsrc hdest pkt payload hdec htyp hgave := by
    have hnot : ¬ t.GaveUp (b, pkt.msgId) := fun hold => hgave (List.mem_append_left _ hold)
    rcases h.emitted d hd hsrc hdest pkt payload hdec htyp hnot with
      hd | ⟨call', hcall', acts', hrest⟩
    · exact Or.inl hd
    · exact Or.inr ⟨call', entered_leave hi hphase hcall' hrest.2.1, acts', hrest⟩
  own := h.own

/-- What a call has got from `start` is drained. -/
theorem Mirrors.dispatch (h : Mirrors b a t [] n) (hc : t.Consistent cfg p) {i : ℕ}
    {call : SendCall Addr} {acts : List (Action Addr)} (hi : t.calls[i]? = some call)
    (hphase : call.phase = .entered acts) : Mirrors b a (t.setPhase i call .waiting) acts n where
  out := h.out
  started id data := by
    rw [h.started id data, awaits_setPhase hc.toNumbered hi (by simp)]
    refine and_congr_right fun _ => not_congr ⟨fun hawaits => ⟨hawaits, ?_⟩, And.left⟩
    rintro rfl
    rw [awaits_iff hc.toNumbered hi, hphase] at hawaits
    cases hawaits
  holds x hx hconcerns := by
    refine h.holds x (Or.inl ?_) hconcerns
    rcases hx with (hx | ⟨call', hcall', acts', hphase', hx⟩) | hx
    · exact Or.inl hx
    · rcases List.mem_or_eq_of_mem_set hcall' with hold | rfl
      · exact Or.inr ⟨call', hold, acts', hphase', hx⟩
      · cases hphase'
    · exact Or.inr ⟨call, List.mem_of_getElem? hi, acts, hphase, hx⟩
  hand := h.hand
  emitted d hd hsrc hdest pkt payload hdec htyp hgave := by
    rcases h.emitted d hd hsrc hdest pkt payload hdec htyp hgave with
      hd | ⟨call', hcall', acts', hkey, hphase', hx⟩
    · rw [show sends ([] : List (Action Addr)) = [] from rfl, List.append_nil] at hd
      exact Or.inl (List.mem_append_left _ hd)
    · by_cases hid : call'.msgId = call.msgId
      · obtain rfl := List.inj_on_of_nodup_map hc.nodup_ids hcall' (List.mem_of_getElem? hi) hid
        rw [hphase] at hphase'
        obtain rfl := SendPhase.entered.inj hphase'
        exact Or.inl (List.mem_append_right _ hx)
      · exact Or.inr ⟨call', Threads.mem_set_of_ne hi hcall' hid, acts', hkey, hphase', hx⟩
  own hab := by
    rw [hc.entered call (List.mem_of_getElem? hi) acts hphase, deliveries_sendRanges]
    exact h.own hab


/-- What `start` gave out waits with its call. -/
theorem Mirrors.enter (h : Mirrors b a t acts n) (hn : Numbered t) {i : ℕ} {call : SendCall Addr}
    (hi : t.calls[i]? = some call) (hphase : call.phase = .numbered) {rs : List (ℕ × ℕ)}
    (hacts : acts = sendRanges call.dest call.msgId call.data rs)
    (started : List (MsgKey Addr × List UInt8))
    (hstarted : ∀ id data, ((a, id), data) ∈ started ↔
      ((a, id), data) ∈ n.started ∨ id = call.msgId ∧ ((b, id), data) ∈ t.made) :
    Mirrors b a (t.setPhase i call (.entered acts)) [] { n with started := started } where
  out := h.out
  started id data := by
    rw [hstarted, h.started, awaits_setPhase hn hi (by simp)]
    by_cases hid : id = call.msgId
    · have hawaits : t.Awaits call.msgId := (awaits_iff hn hi).mpr hphase
      simp [hid, hawaits]
    · simp [hid]
  holds x hx hconcerns := by
    refine h.holds x ?_ hconcerns
    rcases hx with (hx | ⟨call', hcall', acts', hphase', hx⟩) | hx
    · exact Or.inl (Or.inl hx)
    · rcases List.mem_or_eq_of_mem_set hcall' with hold | rfl
      · exact Or.inl (Or.inr ⟨call', hold, acts', hphase', hx⟩)
      · obtain rfl := SendPhase.entered.inj hphase'
        exact Or.inr hx
    · cases hx
  hand := h.hand
  emitted d hd hsrc hdest pkt payload hdec htyp hgave := by
    rcases h.emitted d hd hsrc hdest pkt payload hdec htyp hgave with
      hd | ⟨call', hcall', acts', hkey, hphase', hx⟩
    · rcases List.mem_append.mp hd with hd | hx
      · exact Or.inl (List.mem_append_left _ hd)
      · right
        obtain ⟨hto, hpkt⟩ := of_mem_sendRanges (hacts ▸ hx)
        have hlt := (List.getElem?_eq_some_iff.mp hi).1
        refine ⟨_, List.mem_set hlt _, acts, ?_, rfl, hx⟩
        exact Prod.ext hto.symm (hpkt pkt payload hdec).2.symm
    · have hne : call'.msgId ≠ call.msgId := by
        intro hid
        obtain rfl := List.inj_on_of_nodup_map hn.nodup_ids hcall' (List.mem_of_getElem? hi) hid
        rw [hphase] at hphase'
        cases hphase'
      exact Or.inr ⟨call', Threads.mem_set_of_ne hi hcall' hne, acts', hkey, hphase', hx⟩
  own hab := by
    obtain ⟨hreceiver, hdelivered⟩ := h.own hab
    rw [hacts, deliveries_sendRanges, List.append_nil] at hdelivered
    exact ⟨hreceiver, by rw [deliveries_nil, List.append_nil]; exact hdelivered⟩

omit [DecidableEq Addr] in
/-- Packets to another host do not concern `b`. -/
theorem not_concerns_sendRanges {dest : Addr} (hne : dest ≠ b) {msgId : UInt64}
    {data : List UInt8} {rs : List (ℕ × ℕ)} {x : Outgoing Addr}
    (hx : x ∈ sends (sendRanges dest msgId data rs)) :
    ¬ Datagram.Concerns b ⟨a, x.1, x.2⟩ := by
  rintro ⟨pkt, payload, hdec, hconcerns⟩
  obtain ⟨hdest, hpkt⟩ := of_mem_sendRanges hx
  rw [Packet.Concerns, if_pos (hpkt pkt payload hdec).1] at hconcerns
  exact hne (hdest.symm.trans hconcerns)

/-- A call enters its message: a start in the network, if the message is for `b`. -/
theorem Mirrors.start (h : Mirrors b a t [] n) (hc : t.Consistent cfg p) (hw : Network.Wired cfg n)
    {i : ℕ} {call : SendCall Addr}
    (hi : t.calls[i]? = some call) (hphase : call.phase = .numbered) :
    ∃ evs n', Run (Network.stepAnytime b) (Network.Admits p) n evs n' ∧ Network.MovedAt b a n n' ∧
      Mirrors b a { t.setPhase i call
          (.entered (t.state.sender.start call.dest call.msgId call.data call.now).2) with
        state := { t.state with
          sender := (t.state.sender.start call.dest call.msgId call.data call.now).1 } } [] n' := by
  have hmade := hc.data call (List.mem_of_getElem? hi)
  have hacts := t.state.sender.start_acts call.dest call.msgId call.data call.now
  have hlook := t.state.sender.lookup_start call.dest call.msgId call.data call.now
  rw [hc.sender_cfg] at hacts hlook
  by_cases hdest : call.dest = b
  · subst hdest
    have hn'acts := (n.senders a).start_acts call.dest call.msgId call.data call.now
    have hn'look := (n.senders a).lookup_start call.dest call.msgId call.data call.now
    rw [hw.senders_cfg] at hn'acts hn'look
    have hfresh : (a, call.msgId) ∉ n.started.map Prod.fst := by
      intro hmem
      obtain ⟨⟨_, data⟩, hstarted, rfl⟩ := List.mem_map.mp hmem
      exact ((h.started call.msgId data).mp hstarted).2
        ((awaits_iff hc.toNumbered hi).mpr hphase)
    have hrun := h.runSender (fun _ hd => hd) call.now
      (fun c => c.start call.dest call.msgId call.data call.now)
      (t.state.sender.start call.dest call.msgId call.data call.now).1
      (t.state.sender.start call.dest call.msgId call.data call.now).2
      (fun id hid => by
        rw [hlook, hn'look]
        split_ifs
        · rfl
        · exact h.out id hid)
      (fun x hx _ => by rwa [hn'acts, ← hacts]) (fun x hx _ _ _ _ _ => by rwa [hacts, ← hn'acts])
      (by rw [hacts]; exact deliveries_sendRanges _ _ _ _)
      (by rw [hn'acts]; exact deliveries_sendRanges _ _ _ _)
    refine ⟨[.start a call.msgId call.data call.now], _, Run.single (hc.admitted _ hmade) ?_, ?_,
      hrun.enter (hc.toNumbered.congr rfl rfl rfl rfl) hi hphase hacts
        (n.started ++ [((a, call.msgId), call.data)]) fun id data => ?_⟩
    · simp only [Network.stepAnytime, Network.step, Nat.zero_le, true_and, hfresh,
        not_false_eq_true, if_true]
      rfl
    · have hmoved := Network.MovedAt.runSender (s := n) call.dest a (fun _ hd => hd) call.now
        (fun c => c.start call.dest call.msgId call.data call.now)
        (by rw [hn'acts]; exact deliveries_sendRanges _ _ _ _)
      refine ⟨hmoved.senders, hmoved.receiver, fun key data hk => ?_, hmoved.flight, hmoved.emitted⟩
      dsimp only
      rw [List.mem_append, List.mem_singleton, or_iff_left]
      intro heq
      exact hk (congrArg (fun x => x.1.1) heq)
    · rw [List.mem_append, List.mem_singleton]
      refine or_congr Iff.rfl ⟨fun heq => ?_, ?_⟩
      · obtain ⟨hkey, rfl⟩ := Prod.mk.inj heq
        obtain ⟨_, rfl⟩ := Prod.mk.inj hkey
        exact ⟨rfl, hmade⟩
      · rintro ⟨rfl, hmem⟩
        have hsame := List.inj_on_of_nodup_map hc.nodup hmem hmade rfl
        rw [(Prod.mk.inj hsame).2]
  · have hother := h.sender_other (t.state.sender.start call.dest call.msgId call.data call.now).1
      (t.state.sender.start call.dest call.msgId call.data call.now).2
      (fun id => by
        rw [hlook, if_neg fun heq => hdest (Prod.mk.inj heq).1.symm])
      (fun x hx => by
        rw [hacts] at hx
        exact not_concerns_sendRanges hdest hx)
      (by rw [hacts]; exact deliveries_sendRanges _ _ _ _)
    refine ⟨[], n, Run.nil, Network.MovedAt.refl b a n,
      hother.enter (hc.toNumbered.congr rfl rfl rfl rfl) hi hphase hacts n.started
        fun id data => ?_⟩
    rw [iff_self_or]
    rintro ⟨rfl, hmem⟩
    have hsame := List.inj_on_of_nodup_map hc.nodup hmem hmade rfl
    exact absurd (Prod.mk.inj (Prod.mk.inj hsame).1).1.symm hdest

/-- A handler of the sender core runs for the packet that the IO thread holds. -/
theorem Mirrors.update (h : Mirrors b a t [] n) (hc : t.Consistent cfg p) (hw : Network.Wired cfg n)
    {src : Addr} {pkt : Packet} {payload : List UInt8} {now : ℕ} (order : ScheduleOrder Addr)
    (hio : t.io = .handling src pkt payload now) (htyp : pkt.typ ≠ .data)
    (hok : ∀ o, t.state.sender.out.lookup (src, pkt.msgId) = some o →
      (pkt.typ = .grant → p.grant cfg o pkt) ∧ (pkt.typ = .resend → p.resend cfg o pkt))
    (f : SenderCore Addr → SenderCore Addr × List (Action Addr))
    (handler : OutMsg → OutMsg × List (Action Addr)) (rs : OutMsg → List (ℕ × ℕ))
    (hf : ∀ c : SenderCore Addr, c.cfg = cfg → f c = c.update (src, pkt.msgId) handler)
    (hacts : ∀ m, (handler m).2 = sendRanges src pkt.msgId m.data (rs m))
    (harrive : ∀ (x : Network Addr) bytes, Packet.decode bytes = .ok (pkt, payload) →
      x.clock = now → x.arrive b ⟨src, a, bytes⟩ order = some (x.runSender a f)) :
    ∃ evs n', Run (Network.stepAnytime b) (Network.Admits p) n evs n' ∧ Network.MovedAt b a n n' ∧
      Mirrors b a { t with state := { t.state with sender := (f t.state.sender).1 } }
        (f t.state.sender).2 n' := by
  have hlook := t.state.sender.lookup_update (src, pkt.msgId) handler
  have houts := t.state.sender.update_outputs (src, pkt.msgId) handler
  rw [← hf _ hc.sender_cfg] at hlook houts
  cases hm : t.state.sender.out.lookup (src, pkt.msgId) with
  | none =>
    -- a packet for a message that the sender does not know
    rw [hm, Option.map_none, Option.getD_none] at houts
    rw [houts]
    refine ⟨[], n, Run.nil, Network.MovedAt.refl b a n, ?_⟩
    refine h.sender_other _ [] (fun id => ?_) (fun x hx => by cases hx) rfl
    rw [hlook]
    split_ifs with hk
    · rw [hk, hm, Option.map_none]
    · rfl
  | some m =>
    rw [hm, Option.map_some, Option.getD_some, hacts] at houts
    by_cases hsrc : src = b
    · subst hsrc
      have hnot : ¬ t.GaveUp (src, pkt.msgId) := by
        intro hgave
        rw [hc.owned.gone hc.toNumbered hgave] at hm
        cases hm
      have hm' : (n.senders a).out.lookup (src, pkt.msgId) = some m := (h.out _ hnot).trans hm
      have hnlook := (n.senders a).lookup_update (src, pkt.msgId) handler
      have hnouts := (n.senders a).update_outputs (src, pkt.msgId) handler
      rw [← hf _ (hw.senders_cfg a)] at hnlook hnouts
      rw [hm', Option.map_some, Option.getD_some, hacts] at hnouts
      obtain ⟨bytes, hdec, hmem⟩ := h.hand src pkt payload now hio (Packet.concerns_control htyp)
      obtain ⟨fl, hfl, hreplay⟩ := Network.exists_replay p src hmem
        (fun pkt' payload' hdec' o ho => by
          obtain ⟨rfl, rfl⟩ := Prod.mk.inj (Except.ok.inj (hdec.symm.trans hdec'))
          rw [hw.senders_cfg]
          rw [show (n.senders a).out.lookup (src, pkt.msgId) = some o from ho] at hm'
          exact hok o (hm.trans hm'.symm))
      obtain ⟨evs, hrun⟩ := hreplay now order _
        (harrive ({ n with clock := now, flight := fl } : Network Addr) bytes hdec rfl)
      refine ⟨evs, _, hrun, Network.MovedAt.runSender src a hfl now f ?_,
        h.runSender hfl now f (f t.state.sender).1 (f t.state.sender).2 (fun id hid => ?_)
          (fun x hx _ => ?_) (fun x hx _ _ _ _ _ => ?_) ?_ ?_⟩
      · rw [hnouts]
        exact deliveries_sendRanges _ _ _ _
      · rw [hnlook, hlook, hm', hm]
        split_ifs
        · rfl
        · exact h.out id hid
      · rwa [hnouts, ← houts]
      · rwa [houts, ← hnouts]
      · rw [houts]
        exact deliveries_sendRanges _ _ _ _
      · rw [hnouts]
        exact deliveries_sendRanges _ _ _ _
    · refine ⟨[], n, Run.nil, Network.MovedAt.refl b a n,
        h.sender_other (f t.state.sender).1 (f t.state.sender).2 (fun id => ?_) (fun x hx => ?_) ?_⟩
      · rw [hlook, if_neg fun heq => hsrc (Prod.mk.inj heq).1.symm]
      · rw [houts] at hx
        exact not_concerns_sendRanges hsrc hx
      · rw [houts]
        exact deliveries_sendRanges _ _ _ _

/-- The packet of the IO thread is handled: it arrives in the network, if it concerns `b`. -/
theorem Mirrors.handle (h : Mirrors b a t [] n) (hc : t.Consistent cfg p) (hw : Network.Wired cfg n)
    {src : Addr} {pkt : Packet} {payload : List UInt8} {now : ℕ} {order : ScheduleOrder Addr}
    {st : State Addr} (hio : t.io = .handling src pkt payload now)
    (hok : ∀ o, t.state.sender.out.lookup (src, pkt.msgId) = some o →
      (pkt.typ = .grant → p.grant cfg o pkt) ∧ (pkt.typ = .resend → p.resend cfg o pkt))
    (hst : State.Handled t.state src pkt payload now order st acts) :
    ∃ evs n', Run (Network.stepAnytime b) (Network.Admits p) n evs n' ∧ Network.MovedAt b a n n' ∧
      Mirrors b a { t with state := st, io := .looking } acts n' := by
  have hmoved : ∀ {st : State Addr} {acts : List (Action Addr)}, (∃ evs n',
      Run (Network.stepAnytime b) (Network.Admits p) n evs n' ∧ Network.MovedAt b a n n' ∧
        Mirrors b a { t with state := st } acts n') → ∃ evs n',
      Run (Network.stepAnytime b) (Network.Admits p) n evs n' ∧ Network.MovedAt b a n n' ∧
        Mirrors b a { t with state := st, io := .looking } acts n' := by
    rintro st acts ⟨evs, n', hrun, hm, hmirrors⟩
    exact ⟨evs, n', hrun, hm, hmirrors.of_io .looking (by simp)⟩
  refine hmoved ?_
  cases hst with
  | @data r' acts htyp hr =>
    by_cases hab : a = b
    · subst hab
      obtain ⟨bytes, hdec, hmem⟩ := h.hand src pkt payload now hio (Packet.concerns_data htyp)
      obtain ⟨fl, hfl, hreplay⟩ := Network.exists_replay p a hmem
        (fun pkt' payload' hdec' o ho => by
          obtain ⟨rfl, rfl⟩ := Prod.mk.inj (Except.ok.inj (hdec.symm.trans hdec'))
          simp [htyp])
      obtain ⟨evs, hrun⟩ := hreplay now order
        (Network.emit a acts { n with clock := now, flight := fl, receiver := r' }) (by
          simp only [Network.arrive, hdec, htyp, if_true, Network.runReceiver, (h.own rfl).1, hr,
            Option.map_some])
      exact ⟨evs, _, hrun, Network.MovedAt.runReceiver hfl now r' acts,
        h.runReceiver hfl now r' acts⟩
    · refine ⟨[], n, Run.nil, Network.MovedAt.refl b a n, h.receiver_other hab r' ?_⟩
      exact (ReceiverCore.handleData_spec hr).emitsOnly.mono (by rintro t (rfl | rfl) <;> simp)
  | grant htyp =>
    refine h.update hc hw order hio (by simp [htyp]) hok (fun c => c.handleGrant src pkt now)
      (OutMsg.handleGrant cfg src pkt now) (OutMsg.grantRanges cfg pkt)
      (fun c hcfg => by rw [SenderCore.handleGrant, hcfg])
      (fun m => OutMsg.handleGrant_acts cfg src pkt now m) fun x bytes hdec hclock => ?_
    simp only [Network.arrive, hdec, htyp, hclock]
  | resend htyp =>
    refine h.update hc hw order hio (by simp [htyp]) hok (fun c => c.handleResend src pkt now)
      (OutMsg.handleResend cfg src pkt now) (OutMsg.answerRanges cfg pkt)
      (fun c hcfg => by rw [SenderCore.handleResend, hcfg])
      (fun m => OutMsg.handleResend_acts cfg src pkt now m) fun x bytes hdec hclock => ?_
    simp only [Network.arrive, hdec, htyp, hclock]
  | busy htyp =>
    refine h.update hc hw order hio (by simp [htyp]) hok (fun c => (c.handleBusy src pkt now, []))
      (fun m => (m.handleBusy now, [])) (fun _ => []) (fun c hcfg => ?_) (fun m => rfl)
      fun x bytes hdec hclock => ?_
    · refine Prod.ext rfl ?_
      rw [SenderCore.update_outputs]
      cases c.out.lookup (src, pkt.msgId) <;> rfl
    · simp only [Network.arrive, hdec, htyp, hclock]

/-- The sender core ticks, here and in the network. -/
theorem Mirrors.senderTick (h : Mirrors b a t [] n) (hc : t.Consistent cfg p)
    (hw : Network.Wired cfg n) (now : ℕ) (order : MapOrder (MsgKey Addr)) :
    ∃ evs n', Run (Network.stepAnytime b) (Network.Admits p) n evs n' ∧ Network.MovedAt b a n n' ∧
      Mirrors b a { t with state := { t.state with sender := (t.state.sender.tick now order).1 } }
        (t.state.sender.tick now order).2 n' := by
  have hagree : ∀ id m, t.state.sender.out.lookup (b, id) = some m →
      (n.senders a).out.lookup (b, id) = some m := by
    intro id m hm
    refine (h.out id fun hgave => ?_).trans hm
    rw [hc.owned.gone hc.toNumbered hgave] at hm
    cases hm
  refine ⟨[.senderTick a now order], _, Run.single trivial ?_,
    Network.MovedAt.runSender b a (fun _ hd => hd) now (fun c => c.tick now order)
      (Network.deliveries_senderTick _ _ _),
    h.runSender (fun _ hd => hd) now (fun c => c.tick now order) (t.state.sender.tick now order).1
      (t.state.sender.tick now order).2 (fun id hid => ?_) (fun x hx hconcerns => ?_)
      (fun x hx hdest pkt payload hdec hgave => ?_) (Network.deliveries_senderTick _ _ _)
      (Network.deliveries_senderTick _ _ _)⟩
  · simp only [Network.stepAnytime, Network.step, Nat.zero_le, if_true]
  · rw [SenderCore.lookup_tick, SenderCore.lookup_tick, hw.senders_cfg, hc.sender_cfg,
      h.out id hid]
  · obtain ⟨k, m, hm, hlingers, hmem⟩ := (SenderCore.mem_tick_acts _ _ _).mp (mem_sends.mp hx)
    have hk : k.1 = b := by
      by_contra hne
      exact not_concerns_sendRanges hne (mem_sends.mpr hmem) hconcerns
    obtain ⟨dest, id⟩ := k
    obtain rfl := hk
    rw [hc.sender_cfg] at hlingers hmem
    refine mem_sends.mpr ((SenderCore.mem_tick_acts _ _ _).mpr ⟨_, m, hagree id m hm, ?_⟩)
    rw [hw.senders_cfg]
    exact ⟨hlingers, hmem⟩
  · obtain ⟨k, m, hm, hlingers, hmem⟩ := (SenderCore.mem_tick_acts _ _ _).mp (mem_sends.mp hx)
    obtain ⟨hto, hpkt⟩ := of_mem_sendRanges (mem_sends.mpr hmem)
    obtain ⟨dest, id⟩ := k
    obtain rfl : b = dest := hdest.symm.trans hto
    obtain rfl : pkt.msgId = id := (hpkt pkt payload hdec).2
    rw [hw.senders_cfg] at hlingers hmem
    refine mem_sends.mpr ((SenderCore.mem_tick_acts _ _ _).mpr
      ⟨_, m, (h.out _ hgave).symm.trans hm, ?_⟩)
    rw [hc.sender_cfg]
    exact ⟨hlingers, hmem⟩

/-- A tick of the host: one of its sender, and for `b` one of the receiver. -/
theorem Mirrors.tick (h : Mirrors b a t [] n) (hc : t.Consistent cfg p) (hw : Network.Wired cfg n)
    (now : ℕ) (order : MapOrder (MsgKey Addr)) {orders : TickOrder Addr} {r' : ReceiverCore Addr}
    (hr : t.state.receiver.tick now orders = some (r', acts)) :
    ∃ evs n', Run (Network.stepAnytime b) (Network.Admits p) n evs n' ∧ Network.MovedAt b a n n' ∧
      Mirrors b a { t with state := { t.state with
          sender := (t.state.sender.tick now order).1
          receiver := r' } : Inner Addr }.again
        ((t.state.sender.tick now order).2 ++ acts) n' := by
  obtain ⟨evs, n₁, hrun, hmoved, hmirrors⟩ := h.senderTick hc hw now order
  have hio : ∀ src pkt payload now', (if t.shutdown then .stopped else .receiving : IoPhase Addr) ≠
      .handling src pkt payload now' := by
    intro src pkt payload now'
    split_ifs <;> simp
  by_cases hab : a = b
  · subst hab
    refine ⟨evs ++ [.receiverTick now orders], _,
      hrun.snoc (show n₁.Admits p (.receiverTick now orders) from trivial) ?_,
      hmoved.trans (Network.MovedAt.runReceiver (fun _ hd => hd) now r' acts),
      (hmirrors.runReceiver (fun _ hd => hd) now r' acts).of_io _ hio⟩
    simp only [Network.stepAnytime, Network.step, Nat.zero_le, if_true, Network.runReceiver,
      (hmirrors.own rfl).1, hr, Option.map_some]
  · refine ⟨evs, n₁, hrun, hmoved, (hmirrors.receiver_other hab r' ?_).of_io _ hio⟩
    exact (ReceiverCore.tick_emitsOnly hr).mono (by rintro t (rfl | rfl) <;> simp)

/-- Every stretch of a host is a run of the network, in which nothing but the host moves. What
it puts on the wire is in flight there. -/
theorem Mirrors.effect (h : Mirrors b a t [] n) (hc : t.Consistent cfg p)
    (hw : Network.Wired cfg n) (hok : t.Admits p m)
    (he : Effect t m t' out) :
    ∃ evs n', Run (Network.stepAnytime b) (Network.Admits p) n evs n' ∧ Network.MovedAt b a n n' ∧
      Mirrors b a t' [] n' ∧
      ∀ x ∈ out, Datagram.Concerns b ⟨a, x.1, x.2⟩ → ⟨a, x.1, x.2⟩ ∈ n'.flight := by
  -- a stretch that the network does not see
  have hstill : ∀ {t' : Inner Addr}, Mirrors b a t' [] n → ∃ evs n',
      Run (Network.stepAnytime b) (Network.Admits p) n evs n' ∧ Network.MovedAt b a n n' ∧
        Mirrors b a t' [] n' ∧ ∀ x ∈ ([] : List (Outgoing Addr)),
          Datagram.Concerns b ⟨a, x.1, x.2⟩ → ⟨a, x.1, x.2⟩ ∈ n'.flight :=
    fun hmirrors => ⟨[], n, Run.nil, Network.MovedAt.refl b a n, hmirrors, fun _ hx => by cases hx⟩
  cases he with
  | sendTo dest data now => exact hstill (h.sendTo hc.toNumbered hok.1 dest data now)
  | start hi hphase =>
    obtain ⟨evs, n', hrun, hmoved, hmirrors⟩ := h.start hc hw hi hphase
    exact ⟨evs, n', hrun, hmoved, hmirrors, fun x hx => by cases hx⟩
  | dispatch hi hphase =>
    obtain ⟨hmirrors, hsent⟩ := (h.dispatch hc hi hphase).drain
    exact ⟨[], n, Run.nil, Network.MovedAt.refl b a n, hmirrors, hsent⟩
  | done hi hphase => exact hstill (h.leave hi hphase fun id _ => rfl)
  | @expired i now call hi hphase =>
    refine hstill (h.leave hi hphase fun id hnot => ?_)
    rw [SenderCore.finish, KeyMap.lookup_erase_eq]
    exact if_neg fun heq => hnot ⟨heq, rfl⟩
  | waits => exact hstill h
  | takes => exact hstill ⟨h.out, h.started, h.holds, h.hand, h.emitted, h.own⟩
  | nothing => exact hstill h
  | quiet => exact hstill (h.of_io _ (by simp))
  | socketError => exact hstill (h.of_io _ (by intros; split_ifs <;> simp))
  | @handle src pkt payload now order st notified acts hio hst =>
    have hpolicy := hok.2.2 order rfl src pkt payload now hio
    rw [hc.sender_cfg] at hpolicy
    obtain ⟨evs, n', hrun, hmoved, hmirrors⟩ := h.handle hc hw hio hpolicy (State.handled hst)
    exact ⟨evs, n', hrun, hmoved, hmirrors.drain⟩
  | looks =>
    exact hstill
      ⟨h.out, h.started, h.holds, fun _ _ _ _ heq => (by cases heq), h.emitted, h.own⟩
  | passes => exact hstill (h.of_io _ (by intros; split_ifs <;> simp))
  | @tick now order orders r' acts hio hr =>
    obtain ⟨evs, n', hrun, hmoved, hmirrors⟩ := h.tick hc hw now order hr
    exact ⟨evs, n', hrun, hmoved, hmirrors.drain⟩
  | shutdown => exact hstill ⟨h.out, h.started, h.holds, h.hand, h.emitted, h.own⟩

end Inner

namespace Cluster

/-- The network that the receiver of `b` sees. -/
structure Explains (b : Addr) (c : Cluster Addr) (n : Network Addr) : Prop where
  hosts : ∀ a, Inner.Mirrors b a (c.hosts a) [] n
  flight : ∀ d ∈ c.flight, d.Concerns b → d ∈ n.flight

variable {cfg : TransportConfig} {sendTimeout : ℕ} {p : Policy} {b : Addr} {c c' : Cluster Addr}
  {n : Network Addr}

/-- The host `a` has moved, in the cluster and in the network. -/
theorem Explains.update (h : Explains b c n) {a : Addr} {t' : Inner Addr} {n' : Network Addr}
    (hmoved : Network.MovedAt b a n n') (hmirrors : Inner.Mirrors b a t' [] n')
    {fl : List (Datagram Addr)} (hfl : ∀ d ∈ fl, d.Concerns b → d ∈ n'.flight) (now : ℕ) :
    Explains b ⟨Function.update c.hosts a t', fl, now⟩ n' where
  hosts x := by
    dsimp only
    by_cases hx : x = a
    · subst hx
      rw [Function.update_self]
      exact hmirrors
    · rw [Function.update_of_ne hx]
      exact (h.hosts x).frame hmoved hx
  flight := hfl

theorem Explains.effect (h : Explains b c n) (hc : ∀ a, (c.hosts a).Consistent cfg p)
    (hw : Network.Wired cfg n)
    {e : ClusterEvent Addr} (hok : c.Admits p e) (he : Effect c e c') :
    ∃ evs n', Run (Network.stepAnytime b) (Network.Admits p) n evs n' ∧ Explains b c' n' := by
  cases he with
  | @move a m t' out he =>
    obtain ⟨evs, n', hrun, hmoved, hmirrors, hsent⟩ :=
      (h.hosts a).effect (hc a) hw hok he
    refine ⟨evs, n', hrun, h.update hmoved hmirrors (fun d hd hconcerns => ?_) _⟩
    rcases List.mem_append.mp hd with hd | hd
    · exact hmoved.flight (h.flight d hd hconcerns)
    · obtain ⟨x, hx, rfl⟩ := List.mem_map.mp hd
      exact hsent x hx hconcerns
  | @arrive i now d t' hd ha =>
    refine ⟨[], n, Run.nil, h.update (Network.MovedAt.refl b d.dest n) ?_ (fun d' hd' =>
      h.flight d' (List.mem_of_mem_eraseIdx hd')) now⟩
    have hmirrors := h.hosts d.dest
    cases ha with
    | skipped => exact hmirrors.of_io _ (by intros; split_ifs <;> simp)
    | taken hio hdec =>
      refine ⟨hmirrors.out, hmirrors.started, hmirrors.holds, ?_, hmirrors.emitted, hmirrors.own⟩
      intro src pkt payload now' heq hconcerns
      obtain ⟨rfl, rfl, rfl, rfl⟩ := IoPhase.handling.inj heq
      exact ⟨d.bytes, hdec, h.flight d (List.mem_of_getElem? hd) ⟨_, _, hdec, hconcerns⟩⟩
  | drop =>
    exact ⟨[], n, Run.nil, h.hosts, fun d hd => h.flight d (List.mem_of_mem_eraseIdx hd)⟩
  | @duplicate i d hd =>
    refine ⟨[], n, Run.nil, h.hosts, fun d' hd' => ?_⟩
    rcases List.mem_append.mp hd' with hd' | hd'
    · exact h.flight d' hd'
    · rw [List.mem_singleton.mp hd']
      exact h.flight d (List.mem_of_getElem? hd)

theorem Explains.new (b : Addr) (cfg : TransportConfig) (sendTimeout : ℕ) :
    Explains b (Cluster.new cfg sendTimeout) (Network.new cfg) :=
  ⟨fun a => Inner.Mirrors.new b a cfg sendTimeout 0, fun d hd => by cases hd⟩

/-- Every step of a cluster is a run of the network that the receiver of `b` sees. -/
theorem simulates (cfg : TransportConfig) (p : Policy) (b : Addr) :
    Simulates Cluster.step (Cluster.Admits p) (Network.stepAnytime b) (Network.Admits p)
      fun c n => (∀ a, (c.hosts a).Consistent cfg p) ∧ Network.Wired cfg n ∧ Explains b c n := by
  refine Simulates.of_invariant (fun c e c' hc hok hstep => consistent_step hc hok hstep) ?_
  rintro c e c' n hc ⟨hw, hexplains⟩ hok hstep
  obtain ⟨evs, n', hrun, hexplains'⟩ := hexplains.effect hc hw hok (step_spec hstep)
  exact ⟨evs, n', hrun, hw.of_runAnytime hrun, hexplains'⟩

end Cluster
end AgentTransport
