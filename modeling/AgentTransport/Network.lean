import AgentTransport.Sender
import AgentTransport.Receiver
import AgentTransport.Transition

/-!
# Senders and a receiver over a network

Every host runs a sender core, and the host `rcv` runs the receiver core. The network
may lose, duplicate and delay datagrams in any order. It never makes one up: what is
in flight was sent. The events carry the time at which they happen.

`started`, `emitted` and `delivered` are histories. No host reads them, but a message
number is used for one message only, as the counter of `send_to` guarantees.
-/
namespace AgentTransport
open Transition

variable {Addr : Type} [DecidableEq Addr]

structure Network (Addr : Type) where
  senders : Addr → SenderCore Addr
  receiver : ReceiverCore Addr
  flight : List (Datagram Addr)
  clock : ℕ
  started : List (MsgKey Addr × List UInt8)
  emitted : List (Datagram Addr)
  delivered : List (MsgKey Addr × List UInt8)

inductive Event (Addr : Type) where
  /-- The host `src` starts a message. -/
  | start (src : Addr) (msgId : UInt64) (data : List UInt8) (now : ℕ)
  /-- The datagram at place `i` of the flight list arrives. -/
  | deliver (i now : ℕ) (order : ScheduleOrder Addr)
  | drop (i : ℕ)
  | duplicate (i : ℕ)
  | senderTick (host : Addr) (now : ℕ) (order : MapOrder (MsgKey Addr))
  | receiverTick (now : ℕ) (order : TickOrder Addr)

namespace Network

def new (cfg : TransportConfig) : Network Addr :=
  ⟨fun _ => SenderCore.new cfg, ReceiverCore.new cfg, [], 0, [], [], []⟩

/-- Carry out the actions of the host `src`. -/
def emit (src : Addr) (acts : List (Action Addr)) (s : Network Addr) : Network Addr :=
  { s with
    flight := s.flight ++ datagrams src acts
    emitted := s.emitted ++ datagrams src acts
    delivered := s.delivered ++ deliveries acts }

/-- Run a handler of the sender at `host`. -/
def runSender (s : Network Addr) (host : Addr)
    (handler : SenderCore Addr → SenderCore Addr × List (Action Addr)) : Network Addr :=
  emit host (handler (s.senders host)).2
    { s with senders := Function.update s.senders host (handler (s.senders host)).1 }

/-- Run a handler of the receiver. -/
def runReceiver (rcv : Addr) (s : Network Addr)
    (handler : ReceiverCore Addr → Option (ReceiverCore Addr × List (Action Addr))) :
    Option (Network Addr) :=
  (handler s.receiver).map fun next => emit rcv next.2 { s with receiver := next.1 }

/-- What the IO loop of the host `d.dest` does with a datagram. -/
def arrive (rcv : Addr) (s : Network Addr) (d : Datagram Addr) (order : ScheduleOrder Addr) :
    Option (Network Addr) :=
  match Packet.decode d.bytes with
  | .error _ => some s
  | .ok (pkt, payload) =>
    match pkt.typ with
    | .data =>
      if d.dest = rcv then
        s.runReceiver rcv fun r => r.handleData d.src pkt payload s.clock order
      else some s
    | .grant => some (s.runSender d.dest fun c => c.handleGrant d.src pkt s.clock)
    | .resend => some (s.runSender d.dest fun c => c.handleResend d.src pkt s.clock)
    | .busy => some (s.runSender d.dest fun c => (c.handleBusy d.src pkt s.clock, []))

def step (rcv : Addr) (s : Network Addr) : Event Addr → Option (Network Addr)
  | .start src msgId data now =>
    if s.clock ≤ now ∧ (src, msgId) ∉ s.started.map Prod.fst then
      some (({ s with clock := now, started := s.started ++ [((src, msgId), data)] } :
        Network Addr).runSender src fun c => c.start rcv msgId data now)
    else none
  | .deliver i now order =>
    match s.flight[i]? with
    | none => none
    | some d =>
      if s.clock ≤ now then
        ({ s with clock := now, flight := s.flight.eraseIdx i } : Network Addr).arrive rcv d order
      else none
  | .drop i =>
    if i < s.flight.length then some { s with flight := s.flight.eraseIdx i } else none
  | .duplicate i => s.flight[i]?.map fun d => { s with flight := s.flight ++ [d] }
  | .senderTick host now order =>
    if s.clock ≤ now then
      some (({ s with clock := now } : Network Addr).runSender host fun c => c.tick now order)
    else none
  | .receiverTick now order =>
    if s.clock ≤ now then
      ({ s with clock := now } : Network Addr).runReceiver rcv fun r => r.tick now order
    else none

/-- The state once the datagram at place `i` has been taken out. -/
def taken (s : Network Addr) (i now : ℕ) : Network Addr :=
  { s with clock := now, flight := s.flight.eraseIdx i }

/-- What an event does to a state. -/
inductive Effect (rcv : Addr) (s : Network Addr) : Event Addr → Network Addr → Prop
  | start {src : Addr} {msgId : UInt64} {data : List UInt8} {now : ℕ} (hclock : s.clock ≤ now)
      (hfresh : (src, msgId) ∉ s.started.map Prod.fst) :
      Effect rcv s (.start src msgId data now)
        (({ s with clock := now, started := s.started ++ [((src, msgId), data)] } :
          Network Addr).runSender src fun c => c.start rcv msgId data now)
  | ignored {i now : ℕ} {order : ScheduleOrder Addr} {d : Datagram Addr}
      (hd : s.flight[i]? = some d) (hclock : s.clock ≤ now)
      (hskip : ∀ pkt payload, Packet.decode d.bytes = .ok (pkt, payload) →
        pkt.typ = .data ∧ d.dest ≠ rcv) :
      Effect rcv s (.deliver i now order) (s.taken i now)
  | data {i now : ℕ} {order : ScheduleOrder Addr} {d : Datagram Addr} {pkt : Packet}
      {payload : List UInt8} {r' : ReceiverCore Addr} {acts : List (Action Addr)}
      (hd : s.flight[i]? = some d) (hclock : s.clock ≤ now) (hdest : d.dest = rcv)
      (hdec : Packet.decode d.bytes = .ok (pkt, payload)) (htyp : pkt.typ = .data)
      (hr : s.receiver.handleData d.src pkt payload now order = some (r', acts)) :
      Effect rcv s (.deliver i now order) (emit rcv acts { s.taken i now with receiver := r' })
  | grant {i now : ℕ} {order : ScheduleOrder Addr} {d : Datagram Addr} {pkt : Packet}
      {payload : List UInt8} (hd : s.flight[i]? = some d) (hclock : s.clock ≤ now)
      (hdec : Packet.decode d.bytes = .ok (pkt, payload)) (htyp : pkt.typ = .grant) :
      Effect rcv s (.deliver i now order)
        ((s.taken i now).runSender d.dest fun c => c.handleGrant d.src pkt now)
  | resend {i now : ℕ} {order : ScheduleOrder Addr} {d : Datagram Addr} {pkt : Packet}
      {payload : List UInt8} (hd : s.flight[i]? = some d) (hclock : s.clock ≤ now)
      (hdec : Packet.decode d.bytes = .ok (pkt, payload)) (htyp : pkt.typ = .resend) :
      Effect rcv s (.deliver i now order)
        ((s.taken i now).runSender d.dest fun c => c.handleResend d.src pkt now)
  | busy {i now : ℕ} {order : ScheduleOrder Addr} {d : Datagram Addr} {pkt : Packet}
      {payload : List UInt8} (hd : s.flight[i]? = some d) (hclock : s.clock ≤ now)
      (hdec : Packet.decode d.bytes = .ok (pkt, payload)) (htyp : pkt.typ = .busy) :
      Effect rcv s (.deliver i now order)
        ((s.taken i now).runSender d.dest fun c => (c.handleBusy d.src pkt now, []))
  | drop {i : ℕ} (hi : i < s.flight.length) :
      Effect rcv s (.drop i) { s with flight := s.flight.eraseIdx i }
  | duplicate {i : ℕ} {d : Datagram Addr} (hd : s.flight[i]? = some d) :
      Effect rcv s (.duplicate i) { s with flight := s.flight ++ [d] }
  | senderTick {host : Addr} {now : ℕ} {order : MapOrder (MsgKey Addr)} (hclock : s.clock ≤ now) :
      Effect rcv s (.senderTick host now order)
        (({ s with clock := now } : Network Addr).runSender host fun c => c.tick now order)
  | receiverTick {now : ℕ} {order : TickOrder Addr} {r' : ReceiverCore Addr}
      {acts : List (Action Addr)} (hclock : s.clock ≤ now)
      (hr : s.receiver.tick now order = some (r', acts)) :
      Effect rcv s (.receiverTick now order)
        (emit rcv acts { s with clock := now, receiver := r' })

/-- The specification of `step`. -/
theorem step_spec {rcv : Addr} {s s' : Network Addr} {e : Event Addr}
    (h : s.step rcv e = some s') : Effect rcv s e s' := by
  cases e with
  | start src msgId data now =>
    simp only [step] at h
    split_ifs at h with hok
    obtain rfl := Option.some.inj h
    exact .start hok.1 hok.2
  | deliver i now order =>
    simp only [step] at h
    cases hd : s.flight[i]? with
    | none =>
      rw [hd] at h
      cases h
    | some d =>
      rw [hd] at h
      dsimp only at h
      split_ifs at h with hclock
      unfold arrive at h
      cases hdec : Packet.decode d.bytes with
      | error msg =>
        rw [hdec] at h
        obtain rfl := Option.some.inj h
        exact .ignored hd hclock fun pkt payload hok => by rw [hok] at hdec; cases hdec
      | ok pair =>
        obtain ⟨pkt, payload⟩ := pair
        rw [hdec] at h
        dsimp only at h
        cases htyp : pkt.typ with
        | data =>
          rw [htyp] at h
          dsimp only at h
          split_ifs at h with hdest
          · obtain ⟨⟨r', acts⟩, hr, rfl⟩ := Option.map_eq_some_iff.mp h
            exact .data hd hclock hdest hdec htyp hr
          · obtain rfl := Option.some.inj h
            refine .ignored hd hclock fun pkt' payload' hok => ?_
            rw [hok] at hdec
            obtain ⟨rfl, rfl⟩ := Prod.mk.inj (Except.ok.inj hdec)
            exact ⟨htyp, hdest⟩
        | grant =>
          rw [htyp] at h
          obtain rfl := Option.some.inj h
          exact .grant hd hclock hdec htyp
        | resend =>
          rw [htyp] at h
          obtain rfl := Option.some.inj h
          exact .resend hd hclock hdec htyp
        | busy =>
          rw [htyp] at h
          obtain rfl := Option.some.inj h
          exact .busy hd hclock hdec htyp
  | drop i =>
    simp only [step] at h
    split_ifs at h with hi
    obtain rfl := Option.some.inj h
    exact .drop hi
  | duplicate i =>
    obtain ⟨d, hd, rfl⟩ := Option.map_eq_some_iff.mp h
    exact .duplicate hd
  | senderTick host now order =>
    simp only [step] at h
    split_ifs at h with hclock
    obtain rfl := Option.some.inj h
    exact .senderTick hclock
  | receiverTick now order =>
    simp only [step] at h
    split_ifs at h with hclock
    obtain ⟨⟨r', acts⟩, hr, rfl⟩ := Option.map_eq_some_iff.mp h
    exact .receiverTick hclock hr

/-- Fragments of four bytes, grants of one fragment. -/
def evenConfig : TransportConfig :=
  { tinyConfig with grantIncrement := 4, grantIncrement_lt := by decide }

/-- A message of three fragments. The first GRANT is lost, and a RESEND moves the sender on. -/
def evenRun : List (Event ℕ) :=
  [.start 0 1 [1, 2, 3, 4, 5, 6, 7, 8, 9, 10] 0, .deliver 0 0 default, .drop 0,
    .receiverTick 1 default, .deliver 0 1 default, .deliver 0 1 default, .deliver 0 2 default,
    .deliver 0 2 default]

end Network
end AgentTransport
