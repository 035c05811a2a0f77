import AgentTransport.RpcServer

/-!
# The RPC client

Any number of callers run `call_with_timeout` at the same time, and one dispatcher
hands the responses out. Each attempt has a channel of its own, which stands in
`waiters` under the `rpc_id` of the call. The dispatcher takes it out first and sends
through it afterwards. Mail for a channel that its caller has dropped is never read.
-/
namespace AgentTransport
open ByteString Transition

variable {Addr : Type}

/-- Where a caller is in its loop. The number is the channel of the attempt. -/
inductive CallerPhase where
  | begin
  | registered (chan : ℕ)
  | submitting (chan : ℕ)
  | waiting (chan : ℕ)
  | expired
  deriving DecidableEq

/-- A running `call_with_timeout`, with `left` attempts from this one on. -/
structure Caller (Addr : Type) where
  rpcId : UInt64
  server : Addr
  payload : List UInt8
  maxAttempts : ℕ
  left : ℕ
  phase : CallerPhase
  deriving DecidableEq

/-- The channel a caller may still receive from. -/
def Caller.chan (c : Caller Addr) : Option ℕ :=
  match c.phase with
  | .registered chan | .submitting chan | .waiting chan => some chan
  | .begin | .expired => none

structure RpcClient (Addr : Type) where
  nextId : UInt64
  waiters : KeyMap UInt64 ℕ
  /-- The channel that the dispatcher has taken out, and the body for it. -/
  dispatching : Option (ℕ × List UInt8)
  mail : List (ℕ × List UInt8)
  callers : List (Caller Addr)
  nextChan : ℕ

/-- What a client asks of the transport, and what its calls return. -/
inductive ClientAction (Addr : Type) where
  | send (dest : Addr) (frame : List UInt8)
  | ok (c : Caller Addr) (body : List UInt8)
  /-- The error of `send_to`, which ends the call. -/
  | sendFailed (c : Caller Addr)
  /-- `rpc {rpc_id} timeout after {max_attempts} attempts` -/
  | timedOut (c : Caller Addr)

/-- The moves of the callers and of the dispatcher, where nothing comes in. -/
inductive ClientMove (Addr : Type) where
  | call (server : Addr) (payload : List UInt8) (maxAttempts : ℕ)
  /-- Caller `i` makes a channel and puts it into `waiters`. -/
  | register (i : ℕ)
  /-- Caller `i` enters `send_to`. -/
  | submit (i : ℕ)
  /-- `send_to` returns to caller `i`. -/
  | sent (i : ℕ)
  | sendTimeout (i : ℕ)
  /-- Caller `i` receives letter `j`. -/
  | take (i j : ℕ)
  | timeout (i : ℕ)
  /-- Caller `i` takes its waiter out and goes on, if attempts are left. -/
  | retry (i : ℕ)
  /-- The dispatcher sends through the channel it holds. -/
  | hand

namespace RpcClient

def new : RpcClient Addr := ⟨1, ∅, none, [], [], 0⟩

/-- Caller `i` goes on to `phase`. -/
def setPhase (s : RpcClient Addr) (i : ℕ) (c : Caller Addr) (phase : CallerPhase) :
    RpcClient Addr :=
  { s with callers := s.callers.set i { c with phase := phase } }

/-- Caller `i` returns. -/
def leave (s : RpcClient Addr) (i : ℕ) : RpcClient Addr :=
  { s with callers := s.callers.eraseIdx i }

/-- The dispatcher gets a frame: it takes the waiter out, if there is one. -/
def dispatch (s : RpcClient Addr) (frame : List UInt8) : Option (RpcClient Addr) :=
  match s.dispatching with
  | some _ => none
  | none =>
    match decodeFrame frame with
    | none => some s
    | some (rpcId, body) =>
      some { s with
        waiters := s.waiters.erase rpcId
        dispatching := (s.waiters.lookup rpcId).map fun chan => (chan, body) }

def move (s : RpcClient Addr) :
    ClientMove Addr → Option (RpcClient Addr × List (ClientAction Addr))
  | .call server payload maxAttempts =>
    some ({ s with
      nextId := s.nextId + 1
      callers := s.callers ++
        [⟨s.nextId, server, payload, maxAttempts, max maxAttempts 1, .begin⟩] }, [])
  | .register i => s.callers[i]?.bind fun c =>
    match c.phase with
    | .begin =>
      some ({ s.setPhase i c (.registered s.nextChan) with
        waiters := s.waiters.insert c.rpcId s.nextChan, nextChan := s.nextChan + 1 }, [])
    | _ => none
  | .submit i => s.callers[i]?.bind fun c =>
    match c.phase with
    | .registered chan =>
      some (s.setPhase i c (.submitting chan), [.send c.server (encodeFrame c.rpcId c.payload)])
    | _ => none
  | .sent i => s.callers[i]?.bind fun c =>
    match c.phase with
    | .submitting chan => some (s.setPhase i c (.waiting chan), [])
    | _ => none
  | .sendTimeout i => s.callers[i]?.bind fun c =>
    match c.phase with
    | .submitting _ => some (s.leave i, [.sendFailed c])
    | _ => none
  | .take i j => s.callers[i]?.bind fun c =>
    match c.phase, s.mail[j]? with
    | .waiting chan, some (chan', body) =>
      if chan' = chan then some ({ s.leave i with mail := s.mail.eraseIdx j }, [.ok c body])
      else none
    | _, _ => none
  | .timeout i => s.callers[i]?.bind fun c =>
    match c.phase with
    | .waiting _ => some (s.setPhase i c .expired, [])
    | _ => none
  | .retry i => s.callers[i]?.bind fun c =>
    match c.phase with
    | .expired =>
      if c.left ≤ 1 then
        some ({ s.leave i with waiters := s.waiters.erase c.rpcId }, [.timedOut c])
      else
        some ({ s.setPhase i { c with left := c.left - 1 } .begin with
          waiters := s.waiters.erase c.rpcId }, [])
    | _ => none
  | .hand =>
    match s.dispatching with
    | some letter => some ({ s with dispatching := none, mail := s.mail ++ [letter] }, [])
    | none => none

/-- What a frame does to a client. -/
inductive Dispatched (s : RpcClient Addr) (frame : List UInt8) : RpcClient Addr → Prop
  | malformed (hdec : decodeFrame frame = none) : Dispatched s frame s
  | taken {rpcId : UInt64} {body : List UInt8} (hdec : decodeFrame frame = some (rpcId, body)) :
      Dispatched s frame { s with
        waiters := s.waiters.erase rpcId
        dispatching := (s.waiters.lookup rpcId).map fun chan => (chan, body) }

theorem dispatch_spec {s s' : RpcClient Addr} {frame : List UInt8}
    (h : s.dispatch frame = some s') : s.dispatching = none ∧ Dispatched s frame s' := by
  unfold dispatch at h
  split at h
  · cases h
  · split at h
    · obtain rfl := Option.some.inj h
      exact ⟨‹_›, .malformed ‹_›⟩
    · obtain rfl := Option.some.inj h
      exact ⟨‹_›, .taken ‹_›⟩

/-- What a move does to a client. -/
inductive Moved (s : RpcClient Addr) :
    ClientMove Addr → RpcClient Addr → List (ClientAction Addr) → Prop
  | call (server : Addr) (payload : List UInt8) (n : ℕ) :
      Moved s (.call server payload n) { s with
        nextId := s.nextId + 1
        callers := s.callers ++ [⟨s.nextId, server, payload, n, max n 1, .begin⟩] } []
  | register {i : ℕ} {c : Caller Addr} (hi : s.callers[i]? = some c) (hphase : c.phase = .begin) :
      Moved s (.register i) { s.setPhase i c (.registered s.nextChan) with
        waiters := s.waiters.insert c.rpcId s.nextChan
        nextChan := s.nextChan + 1 } []
  | submit {i chan : ℕ} {c : Caller Addr} (hi : s.callers[i]? = some c)
      (hphase : c.phase = .registered chan) :
      Moved s (.submit i) (s.setPhase i c (.submitting chan))
        [.send c.server (encodeFrame c.rpcId c.payload)]
  | sent {i chan : ℕ} {c : Caller Addr} (hi : s.callers[i]? = some c)
      (hphase : c.phase = .submitting chan) :
      Moved s (.sent i) (s.setPhase i c (.waiting chan)) []
  | sendTimeout {i chan : ℕ} {c : Caller Addr} (hi : s.callers[i]? = some c)
      (hphase : c.phase = .submitting chan) :
      Moved s (.sendTimeout i) (s.leave i) [.sendFailed c]
  | take {i j chan : ℕ} {c : Caller Addr} {body : List UInt8} (hi : s.callers[i]? = some c)
      (hphase : c.phase = .waiting chan) (hj : s.mail[j]? = some (chan, body)) :
      Moved s (.take i j) { s.leave i with mail := s.mail.eraseIdx j } [.ok c body]
  | timeout {i chan : ℕ} {c : Caller Addr} (hi : s.callers[i]? = some c)
      (hphase : c.phase = .waiting chan) : Moved s (.timeout i) (s.setPhase i c .expired) []
  | giveUp {i : ℕ} {c : Caller Addr} (hi : s.callers[i]? = some c) (hphase : c.phase = .expired)
      (hleft : c.left ≤ 1) :
      Moved s (.retry i) { s.leave i with waiters := s.waiters.erase c.rpcId } [.timedOut c]
  | retry {i : ℕ} {c : Caller Addr} (hi : s.callers[i]? = some c) (hphase : c.phase = .expired)
      (hleft : 1 < c.left) :
      Moved s (.retry i) { s.setPhase i { c with left := c.left - 1 } .begin with
        waiters := s.waiters.erase c.rpcId } []
  | hand {letter : ℕ × List UInt8} (hletter : s.dispatching = some letter) :
      Moved s .hand { s with dispatching := none, mail := s.mail ++ [letter] } []

theorem move_spec {s s' : RpcClient Addr} {m : ClientMove Addr} {acts : List (ClientAction Addr)}
    (h : s.move m = some (s', acts)) : Moved s m s' acts := by
  cases m with
  | call server payload n =>
    obtain ⟨rfl, rfl⟩ := Prod.mk.inj (Option.some.inj h)
    exact .call server payload n
  | hand =>
    simp only [move] at h
    split at h
    · obtain ⟨rfl, rfl⟩ := Prod.mk.inj (Option.some.inj h)
      exact .hand ‹_›
    · cases h
  | retry i =>
    obtain ⟨c, hi, h⟩ := Option.bind_eq_some_iff.mp h
    split at h
    · split_ifs at h with hleft
      · obtain ⟨rfl, rfl⟩ := Prod.mk.inj (Option.some.inj h)
        exact .giveUp hi ‹_› hleft
      · obtain ⟨rfl, rfl⟩ := Prod.mk.inj (Option.some.inj h)
        exact .retry hi ‹_› (Nat.not_le.mp hleft)
    · cases h
  | take i j =>
    obtain ⟨c, hi, h⟩ := Option.bind_eq_some_iff.mp h
    split at h
    · split_ifs at h with hchan
      obtain ⟨rfl, rfl⟩ := Prod.mk.inj (Option.some.inj h)
      subst hchan
      exact .take hi ‹_› ‹_›
    · cases h
  | register i | submit i | sent i | sendTimeout i | timeout i =>
    obtain ⟨c, hi, h⟩ := Option.bind_eq_some_iff.mp h
    split at h
    · obtain ⟨rfl, rfl⟩ := Prod.mk.inj (Option.some.inj h)
      constructor
      · exact hi
      · assumption
    · cases h

end RpcClient
end AgentTransport
