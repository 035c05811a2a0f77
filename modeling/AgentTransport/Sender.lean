import AgentTransport.Config

/-!
# Sender core

The sender cuts a message into fragments, sends the unscheduled window at once and
the rest as GRANTs arrive. It answers RESENDs, probes a stalled peer with the last
fragment sent, and keeps a finished message for a linger period.

Handlers return the actions they push. A handler that works on the entry of one
message is a function of that entry, which `SenderCore.update` lifts to the map.

The sums of offsets are exact here. They fit a `usize` in the source, with one exception:
where `unscheduled_bytes` is zero, a RESEND may take `next_send` past zero before anything
was pumped, and a `packet_size` near `usize::MAX` then makes `next_send + packet_size` of
`pump` panic. Such fragment sizes are left out.
-/
namespace AgentTransport
open ByteString

variable {Addr : Type} [DecidableEq Addr]

/-- One outgoing message. -/
structure OutMsg where
  data : List UInt8
  /-- Cumulative authorised offset. -/
  grantedTo : ℕ
  /-- Next offset to send. -/
  nextSend : ℕ
  /-- When everything had been sent, `none` while sending. -/
  doneAt : Option ℕ
  lastProgress : ℕ
  deriving DecidableEq, Repr

structure SenderCore (Addr : Type) where
  cfg : TransportConfig
  out : KeyMap (MsgKey Addr) OutMsg

/-- A DATA packet with the bytes `[start, fin)` of the message. -/
def dataPacket (data : List UInt8) (msgId : UInt64) (start fin : ℕ) : List UInt8 :=
  let payload := slice data start fin
  Packet.encode
    { typ := .data
      priority := priorityForLen data.length
      msgId := msgId
      msgLen := UInt32.ofNat data.length
      offset := UInt32.ofNat start
      length := UInt32.ofNat payload.length } payload

namespace OutMsg

/-- The entry `start` makes for a message. -/
def new (cfg : TransportConfig) (data : List UInt8) (now : ℕ) : OutMsg where
  data := data
  grantedTo := min cfg.unscheduledBytes data.length
  nextSend := 0
  doneAt := none
  lastProgress := now

/-- The range `[start, end)` of the fragment that holds `offset`. -/
def chunkRange (m : OutMsg) (offset packetSize : ℕ) : ℕ × ℕ :=
  let start := offset / packetSize * packetSize
  (start, min (start + packetSize) m.data.length)

/-- The loop of `pump`: send from `next` on until `limit` is reached. A pass moves
`next` forward, so `limit` passes are enough. -/
def pumpLoop (packetSize : ℕ) (dest : Addr) (msgId : UInt64) (data : List UInt8) (limit : ℕ) :
    ℕ → ℕ → ℕ × List (Action Addr)
  | 0, next => (next, [])
  | fuel + 1, next =>
    if next < limit then
      let fin := min (next + packetSize) data.length
      let rest := pumpLoop packetSize dest msgId data limit fuel fin
      (rest.1, .send dest (dataPacket data msgId next fin) :: rest.2)
    else (next, [])

/-- Send the fragments of `[nextSend, limit)`. -/
def pump (cfg : TransportConfig) (dest : Addr) (msgId : UInt64) (limit now : ℕ) (m : OutMsg) :
    OutMsg × List (Action Addr) :=
  if m.doneAt.isSome then (m, [])
  else
    let limit := min limit m.data.length
    let sent := pumpLoop cfg.packetSize dest msgId m.data limit limit m.nextSend
    ({ m with
        nextSend := sent.1
        grantedTo := max m.grantedTo limit
        lastProgress := now
        doneAt := if m.data.length ≤ sent.1 then some now else m.doneAt }, sent.2)

/-- GRANT: raise the cumulative authorisation and send what it unlocks. -/
def handleGrant (cfg : TransportConfig) (dest : Addr) (pkt : Packet) (now : ℕ) (m : OutMsg) :
    OutMsg × List (Action Addr) :=
  let newLimit := min pkt.offset.toNat m.data.length
  if newLimit ≤ m.grantedTo then (m, [])
  else m.pump cfg dest pkt.msgId newLimit now

/-- The loop of `handle_resend`: send every fragment that meets `[off, fin)`. -/
def resendLoop (packetSize : ℕ) (dest : Addr) (msgId : UInt64) (m : OutMsg) (fin : ℕ) :
    ℕ → ℕ → List (Action Addr)
  | 0, _ => []
  | fuel + 1, off =>
    if off < fin then
      let range := m.chunkRange off packetSize
      .send dest (dataPacket m.data msgId range.1 range.2) ::
        resendLoop packetSize dest msgId m fin fuel (max range.2 (range.1 + 1))
    else []

/-- RESEND: send the fragments of the requested range again and enter the range in
`grantedTo` and `nextSend`, since the peer's view of the window can be ahead. -/
def handleResend (cfg : TransportConfig) (dest : Addr) (pkt : Packet) (now : ℕ) (m : OutMsg) :
    OutMsg × List (Action Addr) :=
  let start := min pkt.offset.toNat m.data.length
  let fin := min (start + pkt.length.toNat) m.data.length
  let acts := resendLoop cfg.packetSize dest pkt.msgId m fin fin start
  let advances := m.nextSend < fin
  let nextSend := if advances then fin else m.nextSend
  let doneAt :=
    if advances ∧ m.data.length ≤ fin ∧ m.doneAt = none then some now else m.doneAt
  ({ m with
      grantedTo := max m.grantedTo fin
      nextSend := nextSend
      doneAt := doneAt
      lastProgress := now }, acts)

/-- BUSY: the stall clock starts again and `tick` will retry. -/
def handleBusy (now : ℕ) (m : OutMsg) : OutMsg := { m with lastProgress := now }

/-- The last fragment sent, or the first one when nothing was sent. -/
def pokeRange (cfg : TransportConfig) (m : OutMsg) : ℕ × ℕ :=
  let lastOff :=
    if m.nextSend = 0 then 0 else (m.nextSend - 1) / cfg.packetSize * cfg.packetSize
  m.chunkRange lastOff cfg.packetSize

/-- Whether `tick` probes this message. -/
def stalled (cfg : TransportConfig) (now : ℕ) (m : OutMsg) : Bool :=
  !(m.doneAt.isSome || decide (now - m.lastProgress < cfg.pokeTimeout))

/-- Whether `tick` still keeps this message. -/
def lingers (cfg : TransportConfig) (now : ℕ) (m : OutMsg) : Bool :=
  m.doneAt.all fun t => decide (now - t < cfg.linger)

end OutMsg

namespace SenderCore

def new (cfg : TransportConfig) : SenderCore Addr := ⟨cfg, ∅⟩

/-- Run a handler on the entry of `key`; an unknown message is ignored. -/
def update (s : SenderCore Addr) (key : MsgKey Addr)
    (handler : OutMsg → OutMsg × List (Action Addr)) : SenderCore Addr × List (Action Addr) :=
  match s.out.lookup key with
  | none => (s, [])
  | some m => ({ s with out := s.out.insert key (handler m).1 }, (handler m).2)

/-- Start a message: enter it and send the unscheduled window. -/
def start (s : SenderCore Addr) (dest : Addr) (msgId : UInt64) (data : List UInt8) (now : ℕ) :
    SenderCore Addr × List (Action Addr) :=
  let unscheduled := min s.cfg.unscheduledBytes data.length
  let key := (dest, msgId)
  ({ s with out := s.out.insert key (OutMsg.new s.cfg data now) } : SenderCore Addr).update key
    (OutMsg.pump s.cfg dest msgId unscheduled now)

def handleGrant (s : SenderCore Addr) (src : Addr) (pkt : Packet) (now : ℕ) :
    SenderCore Addr × List (Action Addr) :=
  s.update (src, pkt.msgId) (OutMsg.handleGrant s.cfg src pkt now)

def handleResend (s : SenderCore Addr) (src : Addr) (pkt : Packet) (now : ℕ) :
    SenderCore Addr × List (Action Addr) :=
  s.update (src, pkt.msgId) (OutMsg.handleResend s.cfg src pkt now)

def handleBusy (s : SenderCore Addr) (src : Addr) (pkt : Packet) (now : ℕ) : SenderCore Addr :=
  (s.update (src, pkt.msgId) fun m => (m.handleBusy now, ([] : List (Action Addr)))).1

/-- One pass of the loop of `tick`. -/
def tickKey (now : ℕ) (s : SenderCore Addr) (key : MsgKey Addr) :
    SenderCore Addr × List (Action Addr) :=
  s.update key fun m =>
    if m.stalled s.cfg now then
      let range := m.pokeRange s.cfg
      ({ m with lastProgress := now }, [.send key.1 (dataPacket m.data key.2 range.1 range.2)])
    else (m, [])

/-- Drop the messages whose linger period is over, then probe the stalled ones. -/
def tick (s : SenderCore Addr) (now : ℕ) (order : MapOrder (MsgKey Addr)) :
    SenderCore Addr × List (Action Addr) :=
  let s : SenderCore Addr :=
    { s with out := KeyMap.retain (fun _ m => m.lingers s.cfg now) s.out }
  Loop.forEach (tickKey now) (order.enum s.out.keys) s

/-- Whether everything was sent; a message that was reclaimed counts as sent. -/
def isDone (s : SenderCore Addr) (dest : Addr) (msgId : UInt64) : Bool :=
  (s.out.lookup (dest, msgId)).all fun m => m.doneAt.isSome

/-- Forget a message at once. -/
def finish (s : SenderCore Addr) (dest : Addr) (msgId : UInt64) : SenderCore Addr :=
  { s with out := s.out.erase (dest, msgId) }

end SenderCore
end AgentTransport
