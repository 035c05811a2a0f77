import AgentTransport.Host
import AgentTransport.Transition

/-!
# A transport and its threads

Any number of threads call `send_to` and `recv`, and one thread runs `io_loop`. A thread holds
the lock for one stretch at a time. It reads the clock before it takes the lock, so that others
may have gone on when it works with the time it has read. Which thread is woken when is left
open: a waiting thread may look again at any moment.

`made`, `returned`, `received`, `delivered`, `emitted` and `wired` are histories: the calls of
`send_to`, what they returned, what `recv` returned, what the cores delivered, the packets the
cores gave out, and the packets that went to the socket.
-/
namespace AgentTransport

variable {Addr : Type} [DecidableEq Addr]

/-- The kinds of error the calls return. -/
inductive ErrorKind where
  | timedOut
  | wouldBlock
  deriving DecidableEq, Repr

structure TransportError where
  kind : ErrorKind
  text : String
  deriving DecidableEq, Repr

def sendTimedOut : TransportError := ⟨.timedOut, "homa send_to timeout"⟩

def recvTimedOut : TransportError := ⟨.wouldBlock, "homa recv timeout"⟩

/-- How a look at the state ends for a waiting thread: its call returns, or it waits on. -/
inductive Round (α : Type) where
  | returns (result : Except TransportError α)
  | waits

/-- Where a call of `send_to` is. -/
inductive SendPhase (Addr : Type) where
  /-- It has its number and the time. -/
  | numbered
  /-- Its message is entered, and what `start` gave out is to be dispatched. -/
  | entered (acts : List (Action Addr))
  | waiting

/-- A running call of `send_to`. -/
structure SendCall (Addr : Type) where
  dest : Addr
  msgId : UInt64
  data : List UInt8
  now : ℕ
  deadline : ℕ
  phase : SendPhase Addr

/-- What the sender core knows the message of a call by. -/
def SendCall.key (call : SendCall Addr) : MsgKey Addr := (call.dest, call.msgId)

/-- Where the IO thread is. -/
inductive IoPhase (Addr : Type) where
  /-- In `recv_from`. -/
  | receiving
  /-- With a packet, at the lock. -/
  | handling (src : Addr) (pkt : Packet) (payload : List UInt8) (now : ℕ)
  /-- After the packet, or after nothing came. -/
  | looking
  /-- To tick, at the lock. -/
  | ticking (now : ℕ)
  | stopped

structure Inner (Addr : Type) where
  state : State Addr
  msgCounter : UInt64
  shutdown : Bool
  sendTimeout : ℕ
  calls : List (SendCall Addr)
  io : IoPhase Addr
  lastTick : ℕ
  made : List (MsgKey Addr × List UInt8)
  returned : List (MsgKey Addr × Except TransportError UInt64)
  received : List (Addr × List UInt8)
  delivered : List (MsgKey Addr × List UInt8)
  emitted : List (Outgoing Addr)
  wired : List (Outgoing Addr)

/-- The time between two ticks, five milliseconds, in nanoseconds. -/
def tickInterval : ℕ := 5000000

namespace State

/-- What a waiting `send_to` does when it looks. -/
def sendRound (st : State Addr) (call : SendCall Addr) (now : ℕ) : State Addr × Round UInt64 :=
  if st.sender.isDone call.dest call.msgId then (st, .returns (.ok call.msgId))
  else if call.deadline - now = 0 then
    ({ st with sender := st.sender.finish call.dest call.msgId }, .returns (.error sendTimedOut))
  else (st, .waits)

/-- What a `recv` does when it looks. -/
def recvRound (st : State Addr) (deadline now : ℕ) :
    State Addr × Round (Addr × List UInt8) :=
  match st.completed with
  | msg :: rest => ({ st with completed := rest }, .returns (.ok msg))
  | [] => if deadline - now = 0 then (st, .returns (.error recvTimedOut)) else (st, .waits)

end State

/-- The stretches of the threads. -/
inductive Move (Addr : Type) where
  /-- A call of `send_to` draws its number and reads the clock. -/
  | sendTo (dest : Addr) (data : List UInt8) (now : ℕ)
  /-- Call `i` enters its message. -/
  | start (i : ℕ)
  | dispatch (i : ℕ)
  /-- Call `i` looks whether it is done. -/
  | poll (i now : ℕ)
  | recv (deadline now : ℕ)
  /-- `recv_from` ends without a datagram. -/
  | quiet
  /-- It fails otherwise. -/
  | socketError
  /-- The IO thread handles the packet it has. -/
  | handle (order : ScheduleOrder Addr)
  /-- It looks whether it is time to tick. -/
  | look (now : ℕ)
  | tick (sender : MapOrder (MsgKey Addr)) (receiver : TickOrder Addr)
  | shutdown

/-- The time that a thread reads in a stretch. -/
def Move.now : Move Addr → Option ℕ
  | .sendTo _ _ now | .poll _ now | .recv _ now | .look now => some now
  | _ => none

namespace Inner

def new (cfg : TransportConfig) (sendTimeout now : ℕ) : Inner Addr where
  state := State.new cfg
  msgCounter := 1
  shutdown := false
  sendTimeout := sendTimeout
  calls := []
  io := .receiving
  lastTick := now
  made := []
  returned := []
  received := []
  delivered := []
  emitted := []
  wired := []

/-- `drain`, with the histories. -/
def drain (t : Inner Addr) (acts : List (Action Addr)) : Inner Addr × List (Outgoing Addr) :=
  let out := t.state.drain acts
  ({ t with
      state := out.state
      delivered := t.delivered ++ deliveries acts
      emitted := t.emitted ++ sends acts
      wired := t.wired ++ out.sent }, out.sent)

/-- The IO thread comes back to the test of its loop. -/
def again (t : Inner Addr) : Inner Addr :=
  { t with io := if t.shutdown then .stopped else .receiving }

/-- `recv_from` returns a datagram. One that does not decode is skipped, and the tick with it. -/
def arrive (t : Inner Addr) (src : Addr) (bytes : List UInt8) (now : ℕ) : Option (Inner Addr) :=
  match t.io with
  | .receiving =>
    match Packet.decode bytes with
    | .error _ => some t.again
    | .ok (pkt, payload) => some { t with io := .handling src pkt payload now }
  | _ => none

/-- Call `i` goes on to `phase`. -/
def setPhase (t : Inner Addr) (i : ℕ) (call : SendCall Addr) (phase : SendPhase Addr) :
    Inner Addr :=
  { t with calls := t.calls.set i { call with phase := phase } }

/-- A stretch, and what it puts on the wire. `none` if the thread is elsewhere, or panics. -/
def step (t : Inner Addr) : Move Addr → Option (Inner Addr × List (Outgoing Addr))
  | .sendTo dest data now =>
    some ({ t with
      msgCounter := t.msgCounter + 1
      calls := t.calls ++ [⟨dest, t.msgCounter, data, now, now + t.sendTimeout, .numbered⟩]
      made := t.made ++ [((dest, t.msgCounter), data)] }, [])
  | .start i => t.calls[i]?.bind fun call =>
    match call.phase with
    | .numbered =>
      let next := t.state.sender.start call.dest call.msgId call.data call.now
      some ({ t.setPhase i call (.entered next.2) with
        state := { t.state with sender := next.1 } }, [])
    | _ => none
  | .dispatch i => t.calls[i]?.bind fun call =>
    match call.phase with
    | .entered acts => some ((t.setPhase i call .waiting).drain acts)
    | _ => none
  | .poll i now => t.calls[i]?.bind fun call =>
    match call.phase with
    | .waiting =>
      let next := t.state.sendRound call now
      match next.2 with
      | .returns result =>
        some ({ t with
          state := next.1
          calls := t.calls.eraseIdx i
          returned := t.returned ++ [(call.key, result)] }, [])
      | .waits => some ({ t with state := next.1 }, [])
    | _ => none
  | .recv deadline now =>
    let next := t.state.recvRound deadline now
    match next.2 with
    | .returns (.ok msg) =>
      some ({ t with state := next.1, received := t.received ++ [msg] }, [])
    | _ => some ({ t with state := next.1 }, [])
  | .quiet =>
    match t.io with
    | .receiving => some ({ t with io := .looking }, [])
    | _ => none
  | .socketError =>
    match t.io with
    | .receiving => some ({ t with io := if t.shutdown then .stopped else .looking }, [])
    | _ => none
  | .handle order =>
    match t.io with
    | .handling src pkt payload now => (t.state.handle src pkt payload now order).map fun next =>
      { t with state := next.1, io := .looking : Inner Addr }.drain next.2.2
    | _ => none
  | .look now =>
    match t.io with
    | .looking =>
      if tickInterval ≤ now - t.lastTick then
        some ({ t with lastTick := now, io := .ticking now }, [])
      else some (t.again, [])
    | _ => none
  | .tick order orders =>
    match t.io with
    | .ticking now =>
      let sent := t.state.sender.tick now order
      (t.state.receiver.tick now orders).map fun next =>
        { t with state := { t.state with sender := sent.1, receiver := next.1 } : Inner Addr }.again.drain
          (sent.2 ++ next.2)
    | _ => none
  | .shutdown => some ({ t with shutdown := true }, [])

end Inner
end AgentTransport
