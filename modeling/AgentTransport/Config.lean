import AgentTransport.Packet
import AgentTransport.KeyMap

/-!
# Parameters, priorities, actions and datagrams

Addresses are opaque and times are counted from an arbitrary origin, so that
`now - t` is the saturating `now.duration_since(t)`. Sizes and offsets are natural
numbers. They become machine words where a packet header stores them, and where a sum
of them may be more than a `usize` of 64 bits holds.
-/
namespace AgentTransport

/-- The transport parameters. A fragment size of zero is left out: the sender's
loops would not end and the receiver would divide by it. The increment is a `usize`. -/
structure TransportConfig where
  packetSize : ℕ
  unscheduledBytes : ℕ
  grantIncrement : ℕ
  resendTimeout : ℕ
  grantTimeout : ℕ
  pokeTimeout : ℕ
  linger : ℕ
  maxIncoming : ℕ
  overcommit : ℕ
  starveThreshold : ℕ
  packetSize_pos : 0 < packetSize
  grantIncrement_lt : grantIncrement < 2 ^ 64
  deriving DecidableEq, Repr

/-- The defaults, with times in nanoseconds. -/
instance : Inhabited TransportConfig where
  default := {
    packetSize := 1200
    unscheduledBytes := 10240
    grantIncrement := 65536
    resendTimeout := 20000000
    grantTimeout := 40000000
    pokeTimeout := 50000000
    linger := 5000000000
    maxIncoming := 1024
    overcommit := 2
    starveThreshold := 200000000
    packetSize_pos := by decide
    grantIncrement_lt := by decide }

/-- The default of `send_timeout`. -/
def defaultSendTimeout : ℕ := 30000000000

/-- Fragments of four bytes, grants of two. -/
def tinyConfig : TransportConfig where
  packetSize := 4
  unscheduledBytes := 4
  grantIncrement := 2
  resendTimeout := 1
  grantTimeout := 1
  pokeTimeout := 1
  linger := 1000
  maxIncoming := 1024
  overcommit := 2
  starveThreshold := 100
  packetSize_pos := by decide
  grantIncrement_lt := by decide

def numPriorities : ℕ := 8

/-- Upper length bounds of the priority levels; the last one is `u64::MAX`. -/
def thresholds : List ℕ :=
  [100, 1000, 10000, 100000, 1000000, 10000000, 100000000, 2 ^ 64 - 1]

/-- The priority of a message length, 0 for the shortest messages. -/
def priorityForLen (len : ℕ) : UInt8 :=
  match thresholds.findIdx? (fun upper => decide (len ≤ upper)) with
  | some i => UInt8.ofNat i
  | none => UInt8.ofNat (numPriorities - 1)

/-- A sender address and a message number name a message at its receiver. A sender
names it by the destination address and the number. -/
abbrev MsgKey (Addr : Type) := Addr × UInt64

/-- Membership tests on lists of keys all rest on this proof. -/
instance {Addr : Type} [DecidableEq Addr] : LawfulBEq (MsgKey Addr) := inferInstance

/-- What the state machines ask their driver to do. -/
inductive Action (Addr : Type) where
  | send (dest : Addr) (bytes : List UInt8)
  | deliver (src : Addr) (msgId : UInt64) (data : List UInt8)
  deriving DecidableEq, Repr

variable {Addr : Type}

/-- A packet on its way. -/
structure Datagram (Addr : Type) where
  src : Addr
  dest : Addr
  bytes : List UInt8
  deriving DecidableEq, Repr

/-- The datagrams that the actions of the host `src` put on the network. -/
def datagrams (src : Addr) (acts : List (Action Addr)) : List (Datagram Addr) :=
  acts.filterMap fun
    | .send dest bytes => some ⟨src, dest, bytes⟩
    | .deliver _ _ _ => none

/-- The messages that actions deliver. -/
def deliveries (acts : List (Action Addr)) : List (MsgKey Addr × List UInt8) :=
  acts.filterMap fun
    | .deliver src msgId data => some ((src, msgId), data)
    | .send _ _ => none

@[simp] theorem datagrams_nil (src : Addr) : datagrams src ([] : List (Action Addr)) = [] := rfl

@[simp] theorem deliveries_nil : deliveries ([] : List (Action Addr)) = [] := rfl

theorem datagrams_append (src : Addr) (acts acts' : List (Action Addr)) :
    datagrams src (acts ++ acts') = datagrams src acts ++ datagrams src acts' :=
  List.filterMap_append

theorem deliveries_append (acts acts' : List (Action Addr)) :
    deliveries (acts ++ acts') = deliveries acts ++ deliveries acts' :=
  List.filterMap_append

@[simp] theorem deliveries_deliver (src : Addr) (msgId : UInt64) (data : List UInt8)
    (acts : List (Action Addr)) :
    deliveries (.deliver src msgId data :: acts) = ((src, msgId), data) :: deliveries acts := rfl

theorem deliveries_of_sends {acts : List (Action Addr)}
    (h : ∀ a ∈ acts, ∃ dest bytes, a = .send dest bytes) : deliveries acts = [] := by
  refine List.filterMap_eq_nil_iff.mpr fun a ha => ?_
  obtain ⟨dest, bytes, rfl⟩ := h a ha
  rfl

theorem mem_datagrams {src : Addr} {acts : List (Action Addr)} {d : Datagram Addr} :
    d ∈ datagrams src acts ↔ d.src = src ∧ .send d.dest d.bytes ∈ acts := by
  simp only [datagrams, List.mem_filterMap]
  constructor
  · rintro ⟨a, ha, hd⟩
    cases a with
    | send dest bytes =>
      obtain rfl := Option.some.inj hd
      exact ⟨rfl, ha⟩
    | deliver => cases hd
  · rintro ⟨rfl, ha⟩
    exact ⟨_, ha, rfl⟩

end AgentTransport
