import AgentTransport.Packet
import AgentTransport.KeyMap
import AgentTransport.Transition

/-!
# The RPC server

Frames, and the server as a receive loop with threads: a worker for each accepted
request, and a thread for each replay of a cached answer. The map `dedup` is read and
reserved by the loop in one critical section and written by the workers in another.

`started`, `returned` and `sent` are histories: the calls of the handler, their results
and the frames handed to the transport. A handler may return anything, or panic.
-/
namespace AgentTransport
open ByteString Transition

variable {Addr : Type} [DecidableEq Addr]

/-- The length of a frame header, the bytes of the `rpc_id`. -/
def rpcHdr : ℕ := 8

def encodeFrame (rpcId : UInt64) (body : List UInt8) : List UInt8 :=
  toLE rpcHdr rpcId.toNat ++ body

def decodeFrame (frame : List UInt8) : Option (UInt64 × List UInt8) :=
  if frame.length < rpcHdr then none
  else some (UInt64.ofNat (ofLE (frame.take 8)), frame.drop rpcHdr)

@[simp] theorem decode_encodeFrame (rpcId : UInt64) (body : List UInt8) :
    decodeFrame (encodeFrame rpcId body) = some (rpcId, body) := by
  have hlen : ¬ (encodeFrame rpcId body).length < rpcHdr := by
    simp [encodeFrame]
  rw [decodeFrame, if_neg hlen, encodeFrame, drop_toLE_append]
  simp only [rpcHdr, take_toLE_append, Packet.ofLE_toLE_u64]

/-- The address of a client and a number name a request. -/
abbrev RpcKey (Addr : Type) := Addr × UInt64

/-- What a worker does next. -/
inductive WorkerPhase where
  | ready
  | computing
  | sending (resp : List UInt8)
  | storing (resp : List UInt8)
  deriving DecidableEq

structure Worker (Addr : Type) where
  src : Addr
  rpcId : UInt64
  body : List UInt8
  phase : WorkerPhase
  deriving DecidableEq

/-- The request a worker is for. -/
def Worker.key (w : Worker Addr) : RpcKey Addr := (w.src, w.rpcId)

/-- What the receive loop does next. -/
inductive LoopPhase (Addr : Type) where
  | receiving
  | replaying (src : Addr) (resp : List UInt8)
  | accepted (src : Addr) (rpcId : UInt64) (body : List UInt8)

structure RpcServer (Addr : Type) where
  loop : LoopPhase Addr
  dedup : KeyMap (RpcKey Addr) (Option (List UInt8))
  workers : List (Worker Addr)
  replays : List (Addr × List UInt8)
  started : List (RpcKey Addr × List UInt8)
  returned : List (RpcKey Addr × List UInt8)
  sent : List (Addr × List UInt8)

/-- The moves of the threads, where the receive loop gets nothing from the network. -/
inductive ServerMove where
  /-- The loop starts the thread it has decided on. -/
  | spawn
  /-- Worker `i` calls the handler. -/
  | start (i : ℕ)
  | finish (i : ℕ) (value : List UInt8)
  | panic (i : ℕ)
  | send (i : ℕ)
  | store (i : ℕ)
  /-- Replay thread `i` sends its copy. -/
  | replay (i : ℕ)

inductive ServerEvent (Addr : Type) where
  | receive (src : Addr) (frame : List UInt8)
  | move (m : ServerMove)

namespace RpcServer

def new : RpcServer Addr := ⟨.receiving, ∅, [], [], [], [], []⟩

/-- One iteration of the loop up to the start of a thread. -/
def receive (s : RpcServer Addr) (src : Addr) (frame : List UInt8) : RpcServer Addr :=
  match decodeFrame frame with
  | none => s
  | some (rpcId, body) =>
    match s.dedup.lookup (src, rpcId) with
    | some (some cached) => { s with loop := .replaying src cached }
    | some none => s
    | none =>
      { s with dedup := s.dedup.insert (src, rpcId) none, loop := .accepted src rpcId body }

/-- Replace worker `i`. -/
def setWorker (s : RpcServer Addr) (i : ℕ) (w : Worker Addr) : RpcServer Addr :=
  { s with workers := s.workers.set i w }

def move (s : RpcServer Addr) : ServerMove → Option (RpcServer Addr)
  | .spawn =>
    match s.loop with
    | .receiving => none
    | .replaying src resp =>
      some { s with loop := .receiving, replays := s.replays ++ [(src, resp)] }
    | .accepted src rpcId body =>
      some { s with loop := .receiving, workers := s.workers ++ [⟨src, rpcId, body, .ready⟩] }
  | .start i =>
    match s.workers[i]? with
    | some ⟨src, rpcId, body, .ready⟩ =>
      some { s.setWorker i ⟨src, rpcId, body, .computing⟩ with
        started := s.started ++ [((src, rpcId), body)] }
    | _ => none
  | .finish i value =>
    match s.workers[i]? with
    | some ⟨src, rpcId, body, .computing⟩ =>
      some { s.setWorker i ⟨src, rpcId, body, .sending (encodeFrame rpcId value)⟩ with
        returned := s.returned ++ [((src, rpcId), value)] }
    | _ => none
  | .panic i =>
    match s.workers[i]? with
    | some ⟨_, _, _, .computing⟩ => some { s with workers := s.workers.eraseIdx i }
    | _ => none
  | .send i =>
    match s.workers[i]? with
    | some ⟨src, rpcId, body, .sending resp⟩ =>
      some { s.setWorker i ⟨src, rpcId, body, .storing resp⟩ with sent := s.sent ++ [(src, resp)] }
    | _ => none
  | .store i =>
    match s.workers[i]? with
    | some ⟨src, rpcId, _, .storing resp⟩ =>
      some { s with
        workers := s.workers.eraseIdx i
        dedup := s.dedup.insert (src, rpcId) (some resp) }
    | _ => none
  | .replay i =>
    match s.replays[i]? with
    | some copy =>
      some { s with replays := s.replays.eraseIdx i, sent := s.sent ++ [copy] }
    | none => none

/-- The frames that a move hands to the transport. -/
def outgoing (s : RpcServer Addr) : ServerMove → List (Addr × List UInt8)
  | .send i =>
    match s.workers[i]? with
    | some ⟨src, _, _, .sending resp⟩ => [(src, resp)]
    | _ => []
  | .replay i => s.replays[i]?.toList
  | _ => []

def step (s : RpcServer Addr) : ServerEvent Addr → Option (RpcServer Addr)
  | .receive src frame =>
    match s.loop with
    | .receiving => some (s.receive src frame)
    | _ => none
  | .move m => s.move m

/-- What a received frame does to a server. -/
inductive Received (s : RpcServer Addr) (src : Addr) (frame : List UInt8) : RpcServer Addr → Prop
  | malformed (hdec : decodeFrame frame = none) : Received s src frame s
  | ongoing {rpcId : UInt64} {body : List UInt8} (hdec : decodeFrame frame = some (rpcId, body))
      (hmark : s.dedup.lookup (src, rpcId) = some none) : Received s src frame s
  | cached {rpcId : UInt64} {body resp : List UInt8}
      (hdec : decodeFrame frame = some (rpcId, body))
      (hcache : s.dedup.lookup (src, rpcId) = some (some resp)) :
      Received s src frame { s with loop := .replaying src resp }
  | accepted {rpcId : UInt64} {body : List UInt8} (hdec : decodeFrame frame = some (rpcId, body))
      (hnew : s.dedup.lookup (src, rpcId) = none) :
      Received s src frame { s with
        dedup := s.dedup.insert (src, rpcId) none
        loop := .accepted src rpcId body }

theorem receive_spec (s : RpcServer Addr) (src : Addr) (frame : List UInt8) :
    Received s src frame (s.receive src frame) := by
  unfold receive
  cases hdec : decodeFrame frame with
  | none => exact .malformed hdec
  | some pair =>
    obtain ⟨rpcId, body⟩ := pair
    dsimp only
    cases hlook : s.dedup.lookup (src, rpcId) with
    | none => exact .accepted hdec hlook
    | some entry =>
      cases entry with
      | none => exact .ongoing hdec hlook
      | some resp => exact .cached hdec hlook

/-- The loop gets a frame only where it waits for one. -/
theorem step_received {s s' : RpcServer Addr} {src : Addr} {frame : List UInt8}
    (h : s.step (.receive src frame) = some s') :
    s.loop = .receiving ∧ Received s src frame s' := by
  simp only [step] at h
  split at h
  · obtain rfl := Option.some.inj h
    exact ⟨‹_›, receive_spec s src frame⟩
  · cases h

/-- What a move does to a server. -/
inductive Moved (s : RpcServer Addr) : ServerMove → RpcServer Addr → Prop
  | spawnReplay {src : Addr} {resp : List UInt8} (hloop : s.loop = .replaying src resp) :
      Moved s .spawn { s with loop := .receiving, replays := s.replays ++ [(src, resp)] }
  | spawnWorker {src : Addr} {rpcId : UInt64} {body : List UInt8}
      (hloop : s.loop = .accepted src rpcId body) :
      Moved s .spawn { s with
        loop := .receiving
        workers := s.workers ++ [⟨src, rpcId, body, .ready⟩] }
  | start {i : ℕ} {src : Addr} {rpcId : UInt64} {body : List UInt8}
      (hi : s.workers[i]? = some ⟨src, rpcId, body, .ready⟩) :
      Moved s (.start i) { s.setWorker i ⟨src, rpcId, body, .computing⟩ with
        started := s.started ++ [((src, rpcId), body)] }
  | finish {i : ℕ} {value : List UInt8} {src : Addr} {rpcId : UInt64} {body : List UInt8}
      (hi : s.workers[i]? = some ⟨src, rpcId, body, .computing⟩) :
      Moved s (.finish i value)
        { s.setWorker i ⟨src, rpcId, body, .sending (encodeFrame rpcId value)⟩ with
          returned := s.returned ++ [((src, rpcId), value)] }
  | panic {i : ℕ} {src : Addr} {rpcId : UInt64} {body : List UInt8}
      (hi : s.workers[i]? = some ⟨src, rpcId, body, .computing⟩) :
      Moved s (.panic i) { s with workers := s.workers.eraseIdx i }
  | send {i : ℕ} {src : Addr} {rpcId : UInt64} {body resp : List UInt8}
      (hi : s.workers[i]? = some ⟨src, rpcId, body, .sending resp⟩) :
      Moved s (.send i) { s.setWorker i ⟨src, rpcId, body, .storing resp⟩ with
        sent := s.sent ++ [(src, resp)] }
  | store {i : ℕ} {src : Addr} {rpcId : UInt64} {body resp : List UInt8}
      (hi : s.workers[i]? = some ⟨src, rpcId, body, .storing resp⟩) :
      Moved s (.store i) { s with
        workers := s.workers.eraseIdx i
        dedup := s.dedup.insert (src, rpcId) (some resp) }
  | replay {i : ℕ} {copy : Addr × List UInt8} (hi : s.replays[i]? = some copy) :
      Moved s (.replay i) { s with replays := s.replays.eraseIdx i, sent := s.sent ++ [copy] }

theorem move_spec {s s' : RpcServer Addr} {m : ServerMove} (h : s.move m = some s') :
    Moved s m s' := by
  cases m with
  | spawn =>
    simp only [move] at h
    split at h
    · cases h
    · obtain rfl := Option.some.inj h
      exact .spawnReplay ‹_›
    · obtain rfl := Option.some.inj h
      exact .spawnWorker ‹_›
  | replay i =>
    simp only [move] at h
    split at h
    · obtain rfl := Option.some.inj h
      exact .replay ‹_›
    · cases h
  | start i | finish i value | panic i | send i | store i =>
    simp only [move] at h
    split at h
    · obtain rfl := Option.some.inj h
      constructor
      assumption
    · cases h

theorem Moved.sent {s s' : RpcServer Addr} {m : ServerMove} (h : Moved s m s') :
    s'.sent = s.sent ++ s.outgoing m := by
  cases h with
  | send hi => simp [outgoing, hi]
  | replay hi => simp [outgoing, hi]
  | _ => simp [outgoing, setWorker]

end RpcServer
end AgentTransport
