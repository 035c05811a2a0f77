import AgentTransport.Config
import AgentTransport.Fragmentation
import Mathlib.Data.List.Sort

/-!
# Receiver core

The receiver reassembles messages from fragments in any order and drives their
senders: it grants the messages with the fewest remaining bytes, asks again for
what is missing inside a granted window, and gives up on a message whose sender
does not answer.

`none` stands for a panic: a slice out of bounds or a subtraction below zero, which
counts as one in every build. Every walk over `incoming` is given the order in which the
map hands out its keys.

One sum, the one of `issue_grant`, can be more than a `usize` holds. It wraps, and in a
build with overflow checks it panics instead. The argument `checks` tells the builds
apart. A panic leaves nothing behind, so the sums of a loop are looked at before it.
-/
namespace AgentTransport
open ByteString

variable {Addr : Type} [DecidableEq Addr]

/-- One incoming message. -/
structure InMsg where
  totalLen : ℕ
  buf : List UInt8
  /-- One bit for each fragment. -/
  received : List Bool
  receivedBytes : ℕ
  grantedTo : ℕ
  lastProgress : ℕ
  lastGrant : ℕ
  /-- RESENDs in a row without progress. -/
  unansweredResends : ℕ
  deriving DecidableEq, Repr

/-- More RESENDs than this without progress and the message is abandoned. -/
def maxUnansweredResends : ℕ := 40

/-- How many keys of delivered messages are remembered. -/
def completedCache : ℕ := 4096

/-- `buf[off..off + src.len()].copy_from_slice(src)`. -/
def copyFromSlice (buf : List UInt8) (off : ℕ) (src : List UInt8) : Option (List UInt8) :=
  if off + src.length ≤ buf.length then some (overwrite buf off src) else none

namespace InMsg

/-- The entry made for the first packet of a message. -/
def new (cfg : TransportConfig) (totalLen now : ℕ) : InMsg where
  totalLen := totalLen
  buf := List.replicate totalLen 0
  received := List.replicate (max (Fragmentation.count cfg.packetSize totalLen) 1) false
  receivedBytes := 0
  grantedTo := min cfg.unscheduledBytes totalLen
  lastProgress := now
  lastGrant := now
  unansweredResends := 0

/-- A checked subtraction. -/
def remaining (m : InMsg) : Option ℕ :=
  if m.receivedBytes ≤ m.totalLen then some (m.totalLen - m.receivedBytes) else none

def complete (m : InMsg) : Bool := m.receivedBytes == m.totalLen

/-- Byte offset of the first missing fragment. -/
def firstMissingOffset (packetSize : ℕ) (m : InMsg) : Option ℕ :=
  (m.received.findIdx? fun r => !r).map (· * packetSize)

/-- The test for a candidate of the scheduler. -/
def wantsGrant (m : InMsg) : Bool := !m.complete && decide (m.grantedTo < m.totalLen)

/-- Write the payload of a DATA packet whose fragment is still missing. The test is
made against the length stated by this packet. -/
def accept (cfg : TransportConfig) (pkt : Packet) (payload : List UInt8) (now : ℕ)
    (m : InMsg) : Option InMsg :=
  let offset := pkt.offset.toNat
  let idx := offset / cfg.packetSize
  if m.received[idx]? = some false ∧ offset + payload.length ≤ pkt.msgLen.toNat then
    (copyFromSlice m.buf offset payload).map fun buf =>
      { m with
        buf := buf
        received := m.received.set idx true
        receivedBytes := m.receivedBytes + payload.length
        lastProgress := now
        unansweredResends := 0 }
  else some m

/-- The offset a grant would raise the window to. The sum wraps. -/
def grantTarget (cfg : TransportConfig) (m : InMsg) : ℕ :=
  max (min ((m.receivedBytes + cfg.grantIncrement) % 2 ^ 64) m.totalLen) m.grantedTo

/-- The GRANT that raises the window to `target`. -/
def grantPacket (key : MsgKey Addr) (target : ℕ) (m : InMsg) : Packet where
  typ := .grant
  priority := priorityForLen m.totalLen
  msgId := key.2
  msgLen := 0
  offset := UInt32.ofNat target
  length := UInt32.ofNat (target - m.grantedTo)

/-- Raise the window when less than half an increment is outstanding. -/
def issueGrant (cfg : TransportConfig) (key : MsgKey Addr) (now : ℕ) (force : Bool) (m : InMsg) :
    InMsg × List (Action Addr) :=
  let outstanding := m.grantedTo - m.receivedBytes
  if !force && decide (cfg.grantIncrement / 2 ≤ outstanding) then (m, [])
  else
    let target := m.grantTarget cfg
    if decide (target = m.grantedTo) && !force then (m, [])
    else
      ({ m with grantedTo := target, lastGrant := now },
        [.send key.1 ((m.grantPacket key target).encode [])])

/-- `issue_grant` comes to its sum, and the sum does not fit. -/
def sumOverflows (cfg : TransportConfig) (force : Bool) (m : InMsg) : Bool :=
  (force || decide (m.grantedTo - m.receivedBytes < cfg.grantIncrement / 2)) &&
    decide (2 ^ 64 ≤ m.receivedBytes + cfg.grantIncrement)

/-- `Some(off) if off < granted_to`: the first missing offset, if it is granted. -/
def missingInWindow (cfg : TransportConfig) (m : InMsg) : Option ℕ :=
  (m.firstMissingOffset cfg.packetSize).filter fun off => decide (off < m.grantedTo)

/-- The RESEND for everything granted from `off` on, at most one increment. -/
def resendPacket (cfg : TransportConfig) (key : MsgKey Addr) (off : ℕ) (m : InMsg) : Packet where
  typ := .resend
  priority := priorityForLen m.totalLen
  msgId := key.2
  msgLen := 0
  offset := UInt32.ofNat off
  length := UInt32.ofNat (min (m.grantedTo - off) cfg.grantIncrement)

end InMsg

/-- The orders in which `schedule` walks `incoming`. -/
structure ScheduleOrder (Addr : Type) where
  cands : MapOrder (MsgKey Addr)
  starve : MapOrder (MsgKey Addr)
  deriving Inhabited

/-- The orders in which `tick` walks `incoming`. -/
structure TickOrder (Addr : Type) where
  keys : MapOrder (MsgKey Addr)
  schedule : ScheduleOrder Addr
  deriving Inhabited

structure ReceiverCore (Addr : Type) where
  cfg : TransportConfig
  incoming : KeyMap (MsgKey Addr) InMsg
  /-- The messages being granted. -/
  granting : List (MsgKey Addr)
  /-- Keys of delivered messages, the oldest first. -/
  completed : List (MsgKey Addr)

namespace ReceiverCore

def new (cfg : TransportConfig) : ReceiverCore Addr := ⟨cfg, ∅, [], []⟩

/-- `incoming.get_mut(key)` followed by an update of the entry. -/
def update (r : ReceiverCore Addr) (key : MsgKey Addr)
    (handler : InMsg → InMsg × List (Action Addr)) : ReceiverCore Addr × List (Action Addr) :=
  match r.incoming.lookup key with
  | none => (r, [])
  | some m => ({ r with incoming := r.incoming.insert key (handler m).1 }, (handler m).2)

def issueGrant (now : ℕ) (force : Bool) (r : ReceiverCore Addr) (key : MsgKey Addr) :
    ReceiverCore Addr × List (Action Addr) :=
  r.update key (InMsg.issueGrant r.cfg key now force)

/-- The candidates with their remaining bytes, in map order. -/
def candidates (r : ReceiverCore Addr) (order : MapOrder (MsgKey Addr)) :
    Option (List (MsgKey Addr × ℕ)) :=
  ((r.incoming.iter order).filter fun e => e.2.wantsGrant).mapM fun e =>
    e.2.remaining.map fun rem => (e.1, rem)

/-- The candidates with the fewest remaining bytes. The sort is stable. -/
def shortest (k : ℕ) (cands : List (MsgKey Addr × ℕ)) : List (MsgKey Addr) :=
  ((cands.insertionSort fun a b => a.2 ≤ b.2).take k).map Prod.fst

/-- Append the candidates that have waited too long and are not selected yet. -/
def addStarving (starve now : ℕ) (entries : List (MsgKey Addr × InMsg))
    (selected : List (MsgKey Addr)) : List (MsgKey Addr) :=
  entries.foldl (fun selected e =>
    if e.2.wantsGrant ∧ starve ≤ now - e.2.lastGrant ∧ e.1 ∉ selected then selected ++ [e.1]
    else selected) selected

/-- The messages that `schedule` selects. -/
def selection (r : ReceiverCore Addr) (now : ℕ) (order : ScheduleOrder Addr) :
    Option (List (MsgKey Addr)) :=
  (r.candidates order.cands).map fun cands =>
    addStarving r.cfg.starveThreshold now (r.incoming.iter order.starve)
      (shortest (max r.cfg.overcommit 1) cands)

/-- A grant for one of the keys overflows. -/
def grantsOverflow (r : ReceiverCore Addr) (force : Bool) (keys : List (MsgKey Addr)) : Bool :=
  keys.any fun key => (r.incoming.lookup key).any (InMsg.sumOverflows r.cfg force)

/-- Select the messages to grant and top up their windows. -/
def schedule (r : ReceiverCore Addr) (now : ℕ) (order : ScheduleOrder Addr)
    (checks : Bool := false) : Option (ReceiverCore Addr × List (Action Addr)) :=
  (r.selection now order).bind fun selected =>
    if checks && r.grantsOverflow false selected then none
    else some (Loop.forEach (issueGrant now false) selected { r with granting := selected })

/-- Hand a complete message over and remember its key. -/
def deliver (r : ReceiverCore Addr) (key : MsgKey Addr) (src : Addr) (data : List UInt8) :
    ReceiverCore Addr × List (Action Addr) :=
  let kept := if completedCache ≤ r.completed.length then r.completed.drop 1 else r.completed
  ({ r with
      incoming := r.incoming.erase key
      granting := r.granting.filter (· ≠ key)
      completed := kept ++ [key] },
    [.deliver src key.2 data])

/-- The answer to a new message when too many are being received. -/
def busyPacket (msgId : UInt64) : Packet where
  typ := .busy
  priority := 0
  msgId := msgId
  msgLen := 0
  offset := 0
  length := 0

/-- Whether a DATA packet for `key` is refused. -/
def refuses (r : ReceiverCore Addr) (key : MsgKey Addr) : Bool :=
  decide (key ∉ r.incoming) && decide (r.cfg.maxIncoming ≤ r.incoming.keys.length)

/-- The entry a DATA packet is written to, made on the spot for a new message. -/
def entryFor (r : ReceiverCore Addr) (src : Addr) (pkt : Packet) (now : ℕ) : InMsg :=
  (r.incoming.lookup (src, pkt.msgId)).getD (InMsg.new r.cfg pkt.msgLen.toNat now)

/-- The receiver with `msg` as the entry of `key`. -/
def enter (r : ReceiverCore Addr) (key : MsgKey Addr) (msg : InMsg) : ReceiverCore Addr :=
  { r with incoming := r.incoming.insert key msg }

/-- The end of `handle_data`: deliver the message if it is complete, then schedule. -/
def settle (r : ReceiverCore Addr) (key : MsgKey Addr) (src : Addr) (msg : InMsg) (now : ℕ)
    (order : ScheduleOrder Addr) (checks : Bool := false) :
    Option (ReceiverCore Addr × List (Action Addr)) :=
  let r := r.enter key msg
  let done := if msg.complete then r.deliver key src msg.buf else (r, [])
  (done.1.schedule now order checks).map fun next => (next.1, done.2 ++ next.2)

/-- DATA: drop it, refuse it, or write the fragment. An empty message is delivered
with its first packet. -/
def handleData (r : ReceiverCore Addr) (src : Addr) (pkt : Packet) (payload : List UInt8)
    (now : ℕ) (order : ScheduleOrder Addr) (checks : Bool := false) :
    Option (ReceiverCore Addr × List (Action Addr)) :=
  let key := (src, pkt.msgId)
  if key ∈ r.completed then some (r, [])
  else if r.refuses key then some (r, [.send src ((busyPacket pkt.msgId).encode [])])
  else
    let msg := r.entryFor src pkt now
    if pkt.msgLen.toNat = 0 then
      let done := r.deliver key src []
      (done.1.schedule now order checks).map fun next => (next.1, done.2 ++ next.2)
    else (msg.accept r.cfg pkt payload now).bind fun msg => r.settle key src msg now order checks

/-- Ask for the missing range again, or give the message up. A message given up is
not remembered as completed: a probe of a live sender builds it anew. -/
def resendKey (now : ℕ) (r : ReceiverCore Addr) (key : MsgKey Addr) (m : InMsg) (off : ℕ) :
    ReceiverCore Addr × List (Action Addr) :=
  let acts := [.send key.1 ((m.resendPacket r.cfg key off).encode [])]
  let m := { m with lastProgress := now, unansweredResends := m.unansweredResends + 1 }
  if maxUnansweredResends < m.unansweredResends then
    ({ r with
        incoming := r.incoming.erase key
        granting := r.granting.filter (· ≠ key) }, acts)
  else ({ r with incoming := r.incoming.insert key m }, acts)

/-- Nothing granted is missing: the GRANT may be lost. -/
def regrantKey (now : ℕ) (r : ReceiverCore Addr) (key : MsgKey Addr) (m : InMsg) :
    ReceiverCore Addr × List (Action Addr) :=
  if r.cfg.grantTimeout ≤ now - m.lastProgress then
    let r := { r with incoming := r.incoming.insert key { m with lastProgress := now } }
    if key ∈ r.granting then r.issueGrant now true key else (r, [])
  else (r, [])

/-- One pass of the loop of `tick`. -/
def tickKey (now : ℕ) (r : ReceiverCore Addr) (key : MsgKey Addr) :
    ReceiverCore Addr × List (Action Addr) :=
  match r.incoming.lookup key with
  | none => (r, [])
  | some m =>
    if now - m.lastProgress < r.cfg.resendTimeout then (r, [])
    else
      match m.missingInWindow r.cfg with
      | some off => r.resendKey now key m off
      | none => r.regrantKey now key m

/-- The pass over `key` comes to its forced GRANT. -/
def forcesGrant (r : ReceiverCore Addr) (now : ℕ) (key : MsgKey Addr) : Bool :=
  (r.incoming.lookup key).any fun m =>
    decide (r.cfg.resendTimeout ≤ now - m.lastProgress) && (m.missingInWindow r.cfg).isNone &&
      decide (r.cfg.grantTimeout ≤ now - m.lastProgress) && decide (key ∈ r.granting)

/-- The periodic pass over the stalled messages, then a round of scheduling. The pass over
a key touches nothing of another key. -/
def tick (r : ReceiverCore Addr) (now : ℕ) (order : TickOrder Addr) (checks : Bool := false) :
    Option (ReceiverCore Addr × List (Action Addr)) :=
  let keys := order.keys.enum r.incoming.keys
  if checks && r.grantsOverflow true (keys.filter (r.forcesGrant now)) then none
  else
    let passed := Loop.forEach (tickKey now) keys r
    (passed.1.schedule now order.schedule checks).map fun next => (next.1, passed.2 ++ next.2)

end ReceiverCore
end AgentTransport
