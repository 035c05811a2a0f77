import AgentTransport.Handling
import AgentTransport.Transition

/-!
# Runs of the receiver

The receiver core is called with a decoded DATA packet or with the time. The IO
loop makes these calls out of what it reads from the socket: a datagram that does
not decode to a DATA packet never reaches the receiver.

A build with overflow checks does what one without them does, as long as no sum of a
call overflows, and panics on the others.
-/
namespace AgentTransport
open Transition

variable {Addr : Type} [DecidableEq Addr]

/-- The calls of the receiver core, each with the map orders it meets. -/
inductive ReceiverCall (Addr : Type) where
  | handleData (src : Addr) (pkt : Packet) (payload : List UInt8) (now : ℕ)
      (order : ScheduleOrder Addr)
  | tick (now : ℕ) (order : TickOrder Addr)

/-- The moment of a call. -/
def ReceiverCall.time : ReceiverCall Addr → ℕ
  | .handleData _ _ _ now _ => now
  | .tick now _ => now

/-- The orders in which the call schedules. -/
def ReceiverCall.order : ReceiverCall Addr → ScheduleOrder Addr
  | .handleData _ _ _ _ order => order
  | .tick _ order => order.schedule

/-- What the IO loop reacts to: a datagram, whatever its bytes, or the clock. -/
inductive ReceiverInput (Addr : Type) where
  | datagram (src : Addr) (bytes : List UInt8) (now : ℕ) (order : ScheduleOrder Addr)
  | tick (now : ℕ) (order : TickOrder Addr)

/-- The call an input leads to, if any. -/
def ReceiverInput.toCall : ReceiverInput Addr → Option (ReceiverCall Addr)
  | .datagram src bytes now order =>
    match Packet.decode bytes with
    | .error _ => none
    | .ok (pkt, payload) =>
      if pkt.typ = .data then some (.handleData src pkt payload now order) else none
  | .tick now order => some (.tick now order)

namespace ReceiverCore

def call (r : ReceiverCore Addr) (c : ReceiverCall Addr) (checks : Bool := false) :
    Option (ReceiverCore Addr × List (Action Addr)) :=
  match c with
  | .handleData src pkt payload now order => r.handleData src pkt payload now order checks
  | .tick now order => r.tick now order checks

/-- One input: the call it leads to, or nothing. `none` is a panic of the IO thread. -/
def receive (checks : Bool) (r : ReceiverCore Addr) (input : ReceiverInput Addr) :
    Option (ReceiverCore Addr) :=
  match input.toCall with
  | none => some r
  | some c => (r.call c checks).map Prod.fst

/-- The state in which a call schedules and what it has sent by then; `none` where it does
not get there. -/
def beforeSchedule (r : ReceiverCore Addr) :
    ReceiverCall Addr → Option (ReceiverCore Addr × List (Action Addr))
  | .handleData src pkt payload now _ =>
    let key := (src, pkt.msgId)
    if key ∈ r.completed ∨ r.refuses key then none
    else if pkt.msgLen.toNat = 0 then some (r.deliver key src [])
    else ((r.entryFor src pkt now).accept r.cfg pkt payload now).map fun msg =>
      if msg.complete then r.deliver key src msg.buf else (r.enter key msg, [])
  | .tick now order => some (Loop.forEach (tickKey now) (order.keys.enum r.incoming.keys) r)

/-- The messages that a call grants by force. -/
def forced (r : ReceiverCore Addr) : ReceiverCall Addr → List (MsgKey Addr)
  | .handleData _ _ _ _ _ => []
  | .tick now order => (order.keys.enum r.incoming.keys).filter (r.forcesGrant now)

/-- A sum of the call does not fit: the one for a forced GRANT, or the one for a message
that the round of scheduling selects. -/
def overflows (r : ReceiverCore Addr) (c : ReceiverCall Addr) : Bool :=
  r.grantsOverflow true (r.forced c) || (r.beforeSchedule c).any fun before =>
    (before.1.selection c.time c.order).any (before.1.grantsOverflow false)

/-- The calls the receiver can take: all ticks, and the safe DATA packets. -/
def SafeCall (r : ReceiverCore Addr) : ReceiverCall Addr → Prop
  | .handleData src pkt payload now _ => r.SafeData src pkt payload now
  | .tick _ _ => True

/-- The inputs the receiver can take: every datagram, unless it is a DATA packet
that would be stored where it has no room. With overflow checks the sums have to fit. -/
def SafeInput (checks : Bool) (r : ReceiverCore Addr) (input : ReceiverInput Addr) : Prop :=
  ∀ c ∈ input.toCall, r.SafeCall c ∧ (checks = true → r.overflows c = false)

variable {r r' : ReceiverCore Addr} {c : ReceiverCall Addr} {acts : List (Action Addr)}

theorem call_cfg (h : r.call c = some (r', acts)) : r'.cfg = r.cfg := by
  cases c with
  | handleData src pkt payload now order => exact (handleData_spec h).cfg_eq
  | tick now order => exact tick_cfg h

/-- A round with checks stops where a sum does not fit. -/
theorem schedule_checks (r : ReceiverCore Addr) (now : ℕ) (order : ScheduleOrder Addr)
    (checks : Bool) :
    r.schedule now order checks =
      if checks && (r.selection now order).any (r.grantsOverflow false) then none
      else r.schedule now order := by
  rw [schedule_eq]
  unfold schedule
  cases r.selection now order with
  | none => simp
  | some selected =>
    simp only [Option.bind_some, Option.map_some, Option.any_some]

/-- A call that schedules adds the actions of the round to what it has sent before. With
checks it gets there if no forced GRANT overflows. -/
theorem call_checks_of_beforeSchedule {before : ReceiverCore Addr × List (Action Addr)}
    (h : r.beforeSchedule c = some before) (checks : Bool) :
    r.call c checks =
      if checks && r.grantsOverflow true (r.forced c) then none
      else (before.1.schedule c.time c.order checks).map fun next =>
        (next.1, before.2 ++ next.2) := by
  cases c with
  | tick now order =>
    obtain rfl := Option.some.inj h
    rfl
  | handleData src pkt payload now order =>
    have hnone : r.grantsOverflow true (r.forced (.handleData src pkt payload now order)) = false :=
      rfl
    simp only [beforeSchedule] at h
    rw [hnone, Bool.and_false, if_neg Bool.false_ne_true]
    simp only [call, handleData, ReceiverCall.time, ReceiverCall.order]
    split_ifs at h with hdrop hzero
    · rw [if_neg fun hdup => hdrop (Or.inl hdup), if_neg fun hfull => hdrop (Or.inr hfull),
        if_pos hzero]
      obtain rfl := Option.some.inj h
      rfl
    · rw [if_neg fun hdup => hdrop (Or.inl hdup), if_neg fun hfull => hdrop (Or.inr hfull),
        if_neg hzero]
      obtain ⟨msg, hmsg, rfl⟩ := Option.map_eq_some_iff.mp h
      simp only [hmsg, Option.bind_some, settle, deliver_enter]

theorem call_of_beforeSchedule {before : ReceiverCore Addr × List (Action Addr)}
    (h : r.beforeSchedule c = some before) :
    r.call c = (before.1.schedule c.time c.order).map fun next =>
      (next.1, before.2 ++ next.2) := call_checks_of_beforeSchedule h false

/-- A call that does not schedule leaves the receiver as it is, or panics in every build. -/
theorem call_of_not_beforeSchedule (h : r.beforeSchedule c = none) (checks : Bool) :
    r.call c checks = r.call c ∧ ∀ r' acts, r.call c = some (r', acts) → r' = r := by
  cases c with
  | tick now order => cases h
  | handleData src pkt payload now order =>
    simp only [beforeSchedule] at h
    simp only [call, handleData]
    by_cases hdup : (src, pkt.msgId) ∈ r.completed
    · simp only [if_pos hdup, true_and]
      rintro r' acts ⟨⟩
      rfl
    rw [if_neg hdup, if_neg hdup]
    by_cases hfull : r.refuses (src, pkt.msgId) = true
    · simp only [if_pos hfull, true_and]
      rintro r' acts ⟨⟩
      rfl
    rw [if_neg hfull, if_neg hfull]
    rw [if_neg fun hdrop => hdrop.elim hdup hfull] at h
    split_ifs at h with hzero
    rw [if_neg hzero, if_neg hzero, Option.map_eq_none_iff.mp h]
    exact ⟨rfl, fun r' acts h => by cases h⟩

/-- **The two builds.** With checks a call panics where it would where there are none, and where
a sum of it does not fit. -/
theorem call_checks (r : ReceiverCore Addr) (c : ReceiverCall Addr) (checks : Bool) :
    r.call c checks = if checks && r.overflows c then none else r.call c := by
  unfold overflows
  cases h : r.beforeSchedule c with
  | none =>
    have hforced : r.grantsOverflow true (r.forced c) = false := by
      cases c with
      | handleData => rfl
      | tick => cases h
    simp [hforced, (call_of_not_beforeSchedule h checks).1]
  | some before =>
    rw [call_checks_of_beforeSchedule h checks, call_of_beforeSchedule h, schedule_checks,
      Option.any_some]
    cases checks with
    | false => rfl
    | true =>
      cases r.grantsOverflow true (r.forced c) with
      | true => rfl
      | false =>
        cases (before.1.selection c.time c.order).any (before.1.grantsOverflow false) with
        | true => rfl
        | false => rfl

/-- What a build with checks returns, one without them returns. -/
theorem call_of_checks {checks : Bool} (h : r.call c checks = some (r', acts)) :
    r.call c = some (r', acts) := by
  rw [call_checks] at h
  split_ifs at h
  exact h

theorem CountersFit.call (h : CountersFit r) {checks : Bool}
    (hc : r.call c checks = some (r', acts)) : CountersFit r' := by
  have hcall := call_of_checks hc
  cases c with
  | handleData src pkt payload now order => exact h.handleData hcall
  | tick now order => exact h.tick hcall

theorem call_isSome (h : CountersFit r) (checks : Bool) (c : ReceiverCall Addr) :
    (r.call c checks).isSome ↔ r.SafeCall c ∧ (checks = true → r.overflows c = false) := by
  have hreturns : (r.call c).isSome ↔ r.SafeCall c := by
    cases c with
    | handleData src pkt payload now order => exact handleData_isSome h src pkt payload now order
    | tick now order => exact ⟨fun _ => trivial, fun _ => h.tick_isSome now order⟩
  rw [call_checks, ← hreturns]
  cases checks with
  | false => simp
  | true => cases r.overflows c <;> simp

theorem CountersFit.receive (h : CountersFit r) {checks : Bool} {input : ReceiverInput Addr}
    (hr : r.receive checks input = some r') : CountersFit r' := by
  unfold ReceiverCore.receive at hr
  cases hc : input.toCall with
  | none =>
    rw [hc] at hr
    obtain rfl := Option.some.inj hr
    exact h
  | some c =>
    rw [hc] at hr
    obtain ⟨⟨r₁, acts⟩, hcall, rfl⟩ := Option.map_eq_some_iff.mp hr
    exact h.call hcall

theorem receive_isSome (h : CountersFit r) (checks : Bool) (input : ReceiverInput Addr) :
    (r.receive checks input).isSome ↔ r.SafeInput checks input := by
  unfold ReceiverCore.receive SafeInput
  cases hc : input.toCall with
  | none => simp
  | some c =>
    rw [Option.isSome_map, call_isSome h]
    simp

/-- The receiver survives a sequence of inputs exactly when each of them is safe in
the state in which it arrives, in a build with overflow checks as in one without. -/
theorem survives_iff_admitted (checks : Bool) (cfg : TransportConfig)
    (inputs : List (ReceiverInput Addr)) :
    (exec (receive checks) inputs (ReceiverCore.new cfg)).isSome ↔
      Admitted (receive checks) (SafeInput checks) inputs (ReceiverCore.new cfg) :=
  exec_isSome_iff (fun _ _ _ h hr => h.receive hr) (fun _ input h => receive_isSome h checks input)
    inputs (CountersFit.new cfg)

/-- A DATA datagram of message 1 with the header it claims. -/
def claimedData (msgLen offset : UInt32) (payload : List UInt8) : ReceiverInput ℕ :=
  .datagram 0
    (Packet.encode ⟨.data, 0, 1, msgLen, offset, UInt32.ofNat payload.length⟩ payload) 0 default

/-- Fragments of four bytes and grants of `usize::MAX`. -/
def hugeConfig : TransportConfig :=
  { tinyConfig with grantIncrement := 2 ^ 64 - 1, grantIncrement_lt := by decide }

/-- Three ways to crash the receiver. A second packet with a longer `msg_len` is written
past the buffer; a payload longer than a fragment counts bytes twice, and the
scheduler then subtracts the byte counter from a smaller length. With overflow checks an
ordinary first packet is enough, if the increment is huge. -/
theorem crash_on_inconsistent_data :
    (∀ checks, exec (receive checks) [claimedData 6 0 [1, 2, 3, 4], claimedData 40 4 [5, 6, 7, 8]]
        (ReceiverCore.new tinyConfig) = none) ∧
      (∀ checks, exec (receive checks)
        [claimedData 10 8 [9, 10], claimedData 10 0 [1, 2, 3, 4, 5, 6, 7, 8, 9, 10]]
        (ReceiverCore.new tinyConfig) = none) ∧
      exec (receive true) [claimedData 16 0 [1, 2, 3, 4]] (ReceiverCore.new hugeConfig) = none := by
  refine ⟨fun checks => ?_, fun checks => ?_, rfl⟩
  · cases checks <;> rfl
  · cases checks <;> rfl

end ReceiverCore
end AgentTransport
