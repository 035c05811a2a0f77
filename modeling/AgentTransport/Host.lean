import AgentTransport.Projection
import AgentTransport.TxQueues

/-!
# One host

A host is the sender, the receiver, the messages that wait to be received by the
application, and the queues of outgoing packets. All of it is behind one lock. Here are the
parts of the IO loop that run with the lock held, each with the datagrams it puts on the
wire and with whether it wakes the threads that wait. `none` is a panic.
-/
namespace AgentTransport

variable {Addr : Type} [DecidableEq Addr]

/-- How many packets a flush takes from the queues at most. -/
def flushBudget : ℕ := 256

/-- What the lock guards. -/
structure State (Addr : Type) where
  sender : SenderCore Addr
  receiver : ReceiverCore Addr
  /-- Messages that no `recv` has taken yet. -/
  completed : List (Addr × List UInt8)
  tx : TxQueues Addr

/-- What a stretch with the lock held leaves: the state, whether it called `notify_all`, and
what it sent. -/
structure Outcome (Addr : Type) where
  state : State Addr
  notified : Bool
  sent : List (Outgoing Addr)

/-- A datagram from the socket, and the moment it is looked at. -/
structure Arrival (Addr : Type) where
  src : Addr
  bytes : List UInt8
  now : ℕ
  order : ScheduleOrder Addr

/-- The moment of a tick, and the map orders it meets. -/
structure Beat (Addr : Type) where
  now : ℕ
  sender : MapOrder (MsgKey Addr)
  receiver : TickOrder Addr

namespace State

def new (cfg : TransportConfig) : State Addr :=
  ⟨SenderCore.new cfg, ReceiverCore.new cfg, [], TxQueues.new⟩

/-- One pass of the loop of `drain`. The flag says that a message was delivered. -/
def drainOne (now : State Addr × Bool) : Action Addr → (State Addr × Bool) × List (Outgoing Addr)
  | .deliver src _ data =>
    (({ now.1 with completed := now.1.completed ++ [(src, data)] }, true), [])
  | .send dest bytes =>
    let classified := now.1.tx.classify dest bytes
    (({ now.1 with tx := classified.1 }, now.2), classified.2.toList)

/-- Queue the DATA packets, hand over what was delivered, and flush the queues. -/
def drain (st : State Addr) (acts : List (Action Addr)) : Outcome Addr :=
  let drained := Loop.forEach drainOne acts (st, false)
  let flushed := drained.1.1.tx.popBatch flushBudget
  { state := { drained.1.1 with tx := flushed.1 }
    notified := drained.1.2
    sent := drained.2 ++ flushed.2 }

/-- The handler of a packet. A GRANT that leaves its message done wakes the waiters. -/
def handle (st : State Addr) (src : Addr) (pkt : Packet) (payload : List UInt8) (now : ℕ)
    (order : ScheduleOrder Addr) : Option (State Addr × Bool × List (Action Addr)) :=
  match pkt.typ with
  | .data => (st.receiver.handleData src pkt payload now order).map fun next =>
    ({ st with receiver := next.1 }, false, next.2)
  | .grant =>
    let next := st.sender.handleGrant src pkt now
    some ({ st with sender := next.1 }, next.1.isDone src pkt.msgId, next.2)
  | .resend =>
    let next := st.sender.handleResend src pkt now
    some ({ st with sender := next.1 }, false, next.2)
  | .busy => some ({ st with sender := st.sender.handleBusy src pkt now }, false, [])

/-- The stretch of the loop for a packet. -/
def onPacket (st : State Addr) (src : Addr) (pkt : Packet) (payload : List UInt8) (now : ℕ)
    (order : ScheduleOrder Addr) : Option (Outcome Addr) :=
  (st.handle src pkt payload now order).map fun next =>
    let out := next.1.drain next.2.2
    { out with notified := next.2.1 || out.notified }

/-- The stretch of the loop for a tick. -/
def onTick (st : State Addr) (beat : Beat Addr) : Option (Outcome Addr) :=
  let sent := st.sender.tick beat.now beat.sender
  (st.receiver.tick beat.now beat.receiver).map fun next =>
    ({ st with sender := sent.1, receiver := next.1 } : State Addr).drain (sent.2 ++ next.2)

/-- The first half of an iteration, for the datagram that came if one came, and whether the
iteration goes on. It does not after a datagram that does not decode. -/
def onArrival (st : State Addr) (arrival : Option (Arrival Addr)) : Option (Outcome Addr × Bool) :=
  match arrival with
  | none => some (⟨st, false, []⟩, true)
  | some a =>
    match Packet.decode a.bytes with
    | .error _ => some (⟨st, false, []⟩, false)
    | .ok (pkt, payload) => (st.onPacket a.src pkt payload a.now a.order).map (·, true)

/-- The second half of an iteration: a tick, if it is time for one. -/
def onBeat (first : Outcome Addr) (beat : Option (Beat Addr)) : Option (Outcome Addr) :=
  match beat with
  | none => some first
  | some b => (first.state.onTick b).map fun out =>
    ⟨out.state, first.notified || out.notified, first.sent ++ out.sent⟩

/-- One iteration of `io_loop`. -/
def iterate (st : State Addr) (arrival : Option (Arrival Addr)) (beat : Option (Beat Addr)) :
    Option (Outcome Addr) :=
  (st.onArrival arrival).bind fun next => if next.2 then onBeat next.1 beat else some next.1

omit [DecidableEq Addr] in
theorem drainLoop_spec (acts : List (Action Addr)) (now : State Addr × Bool) :
    (Loop.forEach drainOne acts now).1.1.sender = now.1.sender ∧
      (Loop.forEach drainOne acts now).1.1.receiver = now.1.receiver ∧
      (Loop.forEach drainOne acts now).1.1.completed =
        now.1.completed ++ (deliveries acts).map (fun d => (d.1.1, d.2)) ∧
      (Loop.forEach drainOne acts now).1.2 = (now.2 || !(deliveries acts).isEmpty) := by
  induction acts generalizing now with
  | nil => simp
  | cons a acts ih =>
    obtain ⟨hsender, hreceiver, hcompleted, hflag⟩ := ih (drainOne now a).1
    rw [Loop.forEach_cons]
    dsimp only
    rw [hsender, hreceiver, hcompleted, hflag]
    cases a with
    | deliver src msgId data =>
      refine ⟨rfl, rfl, ?_, ?_⟩
      · simp [drainOne]
      · simp [drainOne]
    | send dest bytes => exact ⟨rfl, rfl, rfl, rfl⟩

omit [DecidableEq Addr] in
/-- Draining leaves both cores alone. It hands over what was delivered, and wakes the waiters
if there was something. -/
theorem drain_spec (st : State Addr) (acts : List (Action Addr)) :
    (st.drain acts).state.sender = st.sender ∧ (st.drain acts).state.receiver = st.receiver ∧
      (st.drain acts).state.completed =
        st.completed ++ (deliveries acts).map (fun d => (d.1.1, d.2)) ∧
      ((st.drain acts).notified = true ↔ deliveries acts ≠ []) := by
  obtain ⟨hsender, hreceiver, hcompleted, hflag⟩ := drainLoop_spec acts (st, false)
  refine ⟨hsender, hreceiver, hcompleted, ?_⟩
  simp only [drain, hflag]
  simp

end State
end AgentTransport
