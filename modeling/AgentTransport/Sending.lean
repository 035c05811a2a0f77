import AgentTransport.Emission

/-!
# One step of the sender

Each handler of the sender works on one entry. Here each is described by the ranges
of the message it sends and by the entry it leaves, and the handlers of the core by
what they do to the entry of a key.
-/
namespace AgentTransport
open Fragmentation

variable {Addr : Type} [DecidableEq Addr]

namespace OutMsg

/-- The entry after `pump` has sent everything up to `limit`. -/
def pumped (cfg : TransportConfig) (limit now : ℕ) (m : OutMsg) : OutMsg :=
  let next := pumpEnd cfg.packetSize m.data.length limit m.nextSend
  { m with
    nextSend := next
    grantedTo := max m.grantedTo limit
    lastProgress := now
    doneAt := if m.data.length ≤ next then some now else none }

theorem isSome_doneAt_pumped (cfg : TransportConfig) (limit now : ℕ) (m : OutMsg) :
    (m.pumped cfg limit now).doneAt.isSome ↔
      m.data.length ≤ (m.pumped cfg limit now).nextSend := by
  simp only [pumped]
  split_ifs with hall
  · exact ⟨fun _ => hall, fun _ => rfl⟩
  · exact ⟨fun h => absurd h (by simp), fun h => absurd h hall⟩

/-- What a message can become: nothing of it goes back, and the time of being done stays. -/
structure Advances (m m' : OutMsg) : Prop where
  data : m'.data = m.data
  grantedTo : m.grantedTo ≤ m'.grantedTo
  nextSend : m.nextSend ≤ m'.nextSend
  doneAt : ∀ d, m.doneAt = some d → m'.doneAt = some d

theorem Advances.refl (m : OutMsg) : Advances m m := ⟨rfl, le_rfl, le_rfl, fun _ hd => hd⟩

theorem Advances.trans {m₁ m₂ m₃ : OutMsg} (h : Advances m₁ m₂) (h' : Advances m₂ m₃) :
    Advances m₁ m₃ where
  data := h'.data.trans h.data
  grantedTo := h.grantedTo.trans h'.grantedTo
  nextSend := h.nextSend.trans h'.nextSend
  doneAt d hd := h'.doneAt d (h.doneAt d hd)

/-- What is still being sent was being sent before. -/
theorem Advances.doneAt_eq_none {m m' : OutMsg} (h : Advances m m') (hopen : m'.doneAt = none) :
    m.doneAt = none := by
  cases hd : m.doneAt with
  | none => rfl
  | some d => exact (h.doneAt d hd).symm.trans hopen

theorem Advances.pumped {cfg : TransportConfig} {m : OutMsg} {limit now : ℕ}
    (hopen : m.doneAt = none) (hnext : m.nextSend ≤ m.data.length) :
    Advances m (m.pumped cfg limit now) := by
  constructor
  · rfl
  · exact Nat.le_max_left _ _
  · exact le_pumpEnd hnext
  · intro d hd
    rw [hopen] at hd
    cases hd

/-- The entry `start` leaves. -/
def started (cfg : TransportConfig) (data : List UInt8) (now : ℕ) : OutMsg :=
  (OutMsg.new cfg data now).pumped cfg (min cfg.unscheduledBytes data.length) now

/-- What `start` sends. -/
def startRanges (cfg : TransportConfig) (data : List UInt8) : List (ℕ × ℕ) :=
  pumpRanges cfg.packetSize data.length (min cfg.unscheduledBytes data.length) 0

/-- Whether a GRANT makes the sender pump. -/
def Unlocks (pkt : Packet) (m : OutMsg) : Prop :=
  m.grantedTo < min pkt.offset.toNat m.data.length ∧ m.doneAt = none

instance (pkt : Packet) (m : OutMsg) : Decidable (m.Unlocks pkt) :=
  inferInstanceAs (Decidable (_ ∧ _))

/-- What a GRANT sends. -/
def grantRanges (cfg : TransportConfig) (pkt : Packet) (m : OutMsg) : List (ℕ × ℕ) :=
  if m.Unlocks pkt then
    pumpRanges cfg.packetSize m.data.length (min pkt.offset.toNat m.data.length) m.nextSend
  else []

/-- The end of the range a RESEND asks for. -/
def resendEnd (pkt : Packet) (m : OutMsg) : ℕ :=
  min (min pkt.offset.toNat m.data.length + pkt.length.toNat) m.data.length

/-- What a RESEND sends. -/
def answerRanges (cfg : TransportConfig) (pkt : Packet) (m : OutMsg) : List (ℕ × ℕ) :=
  resendRanges cfg.packetSize m.data.length (m.resendEnd pkt) (min pkt.offset.toNat m.data.length)

/-- What a probe sends. -/
def pokeRanges (cfg : TransportConfig) (m : OutMsg) : List (ℕ × ℕ) :=
  [fragRange cfg.packetSize m.data.length ((m.nextSend - 1) / cfg.packetSize)]

section Handlers

variable (cfg : TransportConfig) (dest : Addr) (msgId : UInt64) (pkt : Packet) (now : ℕ)
  (m : OutMsg)

omit [DecidableEq Addr]

theorem start_eq (data : List UInt8) :
    (OutMsg.new cfg data now).pump cfg dest msgId (min cfg.unscheduledBytes data.length) now =
      (started cfg data now, sendRanges dest msgId data (startRanges cfg data)) := by
  have h := pump_eq cfg dest msgId (min cfg.unscheduledBytes data.length) now
    (show (OutMsg.new cfg data now).doneAt = none from rfl)
  rw [h]
  simp only [OutMsg.new, started, pumped, startRanges, Nat.min_assoc, Nat.min_self]
  rfl

theorem handleGrant_of_unlocks {m : OutMsg} (h : m.Unlocks pkt) :
    m.handleGrant cfg dest pkt now =
      (m.pumped cfg (min pkt.offset.toNat m.data.length) now,
        sendRanges dest pkt.msgId m.data (m.grantRanges cfg pkt)) := by
  have hpump := pump_eq cfg dest pkt.msgId (min pkt.offset.toNat m.data.length) now h.2
  unfold handleGrant
  dsimp only
  rw [if_neg (Nat.not_le.mpr h.1), hpump, grantRanges, if_pos h]
  simp only [pumped, Nat.min_assoc, Nat.min_self]

theorem handleGrant_of_not_unlocks {m : OutMsg} (h : ¬ m.Unlocks pkt) :
    m.handleGrant cfg dest pkt now = (m, []) := by
  unfold handleGrant
  dsimp only
  split_ifs with hle
  · rfl
  · cases hdone : m.doneAt with
    | none => exact absurd ⟨Nat.not_le.mp hle, hdone⟩ h
    | some t => exact pump_of_done cfg dest pkt.msgId _ now hdone

theorem handleGrant_acts : (m.handleGrant cfg dest pkt now).2 =
    sendRanges dest pkt.msgId m.data (m.grantRanges cfg pkt) := by
  by_cases h : m.Unlocks pkt
  · rw [handleGrant_of_unlocks cfg dest pkt now h]
  · rw [handleGrant_of_not_unlocks cfg dest pkt now h, grantRanges, if_neg h]
    rfl

theorem handleGrant_data : (m.handleGrant cfg dest pkt now).1.data = m.data := by
  by_cases h : m.Unlocks pkt
  · rw [handleGrant_of_unlocks cfg dest pkt now h]
    rfl
  · rw [handleGrant_of_not_unlocks cfg dest pkt now h]

theorem handleResend_nextSend :
    (m.handleResend cfg dest pkt now).1.nextSend = max m.nextSend (m.resendEnd pkt) := by
  change (if m.nextSend < m.resendEnd pkt then m.resendEnd pkt else m.nextSend) = _
  split_ifs <;> omega

theorem handleResend_grantedTo :
    (m.handleResend cfg dest pkt now).1.grantedTo = max m.grantedTo (m.resendEnd pkt) := rfl

theorem handleResend_doneAt :
    (m.handleResend cfg dest pkt now).1.doneAt.isSome ↔ m.doneAt.isSome ∨
      (m.nextSend < m.resendEnd pkt ∧ m.data.length ≤ m.resendEnd pkt) := by
  change (if m.nextSend < m.resendEnd pkt ∧ m.data.length ≤ m.resendEnd pkt ∧ m.doneAt = none
    then some now else m.doneAt).isSome ↔ _
  cases m.doneAt with
  | none =>
    simp only [and_true, Option.isSome_none, Bool.false_eq_true, false_or]
    split_ifs with h
    · exact ⟨fun _ => h, fun _ => rfl⟩
    · exact ⟨fun hs => absurd hs (by simp), fun hs => absurd hs h⟩
  | some t => simp

theorem handleGrant_nextSend_le {m : OutMsg} (h : m.nextSend ≤ m.data.length) :
    (m.handleGrant cfg dest pkt now).1.nextSend ≤ m.data.length := by
  by_cases hu : m.Unlocks pkt
  · rw [handleGrant_of_unlocks cfg dest pkt now hu]
    exact pumpEnd_le h
  · rw [handleGrant_of_not_unlocks cfg dest pkt now hu]
    exact h

theorem handleResend_nextSend_le {m : OutMsg} (h : m.nextSend ≤ m.data.length) :
    (m.handleResend cfg dest pkt now).1.nextSend ≤ m.data.length := by
  rw [handleResend_nextSend]
  exact Nat.max_le.mpr ⟨h, Nat.min_le_right _ _⟩

theorem Advances.handleGrant {m : OutMsg} (hnext : m.nextSend ≤ m.data.length) :
    Advances m (m.handleGrant cfg dest pkt now).1 := by
  by_cases hu : m.Unlocks pkt
  · rw [handleGrant_of_unlocks cfg dest pkt now hu]
    exact Advances.pumped hu.2 hnext
  · rw [handleGrant_of_not_unlocks cfg dest pkt now hu]
    exact Advances.refl m

theorem Advances.handleResend : Advances m (m.handleResend cfg dest pkt now).1 := by
  constructor
  · rfl
  · rw [handleResend_grantedTo]
    exact Nat.le_max_left _ _
  · rw [handleResend_nextSend]
    exact Nat.le_max_left _ _
  · intro d hd
    simp only [OutMsg.handleResend, hd]
    exact if_neg fun hall => Option.some_ne_none d hall.2.2

end Handlers

/-- One probe: what `tick` does to an entry it keeps. -/
def tickEntry (cfg : TransportConfig) (now : ℕ) (m : OutMsg) : OutMsg × List (ℕ × ℕ) :=
  if m.stalled cfg now then ({ m with lastProgress := now }, m.pokeRanges cfg) else (m, [])

theorem doneAt_of_stalled {cfg : TransportConfig} {now : ℕ} {m : OutMsg}
    (h : m.stalled cfg now) : m.doneAt = none := by
  simp only [stalled, Bool.not_eq_true', Bool.or_eq_false_iff] at h
  exact Option.not_isSome_iff_eq_none.mp (by simp [h.1])

end OutMsg

namespace SenderCore

theorem lookup_update (s : SenderCore Addr) (k : MsgKey Addr)
    (handler : OutMsg → OutMsg × List (Action Addr)) (key : MsgKey Addr) :
    (s.update k handler).1.out.lookup key =
      if key = k then (s.out.lookup k).map fun m => (handler m).1 else s.out.lookup key := by
  unfold update
  cases h : s.out.lookup k with
  | none =>
    split_ifs with hk
    · rw [hk, h]
      rfl
    · rfl
  | some m => exact KeyMap.lookup_insert_eq _ _ _ _

theorem update_outputs (s : SenderCore Addr) (k : MsgKey Addr)
    (handler : OutMsg → OutMsg × List (Action Addr)) :
    (s.update k handler).2 = ((s.out.lookup k).map fun m => (handler m).2).getD [] := by
  unfold update
  cases s.out.lookup k <;> rfl

theorem mem_update_outputs {s : SenderCore Addr} {k : MsgKey Addr}
    {handler : OutMsg → OutMsg × List (Action Addr)} {a : Action Addr} :
    a ∈ (s.update k handler).2 ↔ ∃ m, s.out.lookup k = some m ∧ a ∈ (handler m).2 := by
  rw [update_outputs]
  cases s.out.lookup k <;> simp

theorem update_cfg (s : SenderCore Addr) (k : MsgKey Addr)
    (handler : OutMsg → OutMsg × List (Action Addr)) : (s.update k handler).1.cfg = s.cfg := by
  unfold update
  cases s.out.lookup k <;> rfl

theorem lookup_start (s : SenderCore Addr) (dest : Addr) (msgId : UInt64) (data : List UInt8)
    (now : ℕ) (key : MsgKey Addr) :
    (s.start dest msgId data now).1.out.lookup key =
      if key = (dest, msgId) then some (OutMsg.started s.cfg data now)
      else s.out.lookup key := by
  unfold start
  dsimp only
  rw [lookup_update]
  split_ifs with hk
  · rw [KeyMap.lookup_insert_eq, if_pos rfl, Option.map_some, OutMsg.start_eq]
  · rw [KeyMap.lookup_insert_eq, if_neg hk]

theorem start_acts (s : SenderCore Addr) (dest : Addr) (msgId : UInt64) (data : List UInt8)
    (now : ℕ) : (s.start dest msgId data now).2 =
      sendRanges dest msgId data (OutMsg.startRanges s.cfg data) := by
  unfold start
  dsimp only
  rw [update_outputs, KeyMap.lookup_insert_eq, if_pos rfl, Option.map_some, OutMsg.start_eq]
  rfl

theorem tickKey_eq (now : ℕ) (s : SenderCore Addr) (key : MsgKey Addr) :
    tickKey now s key = s.update key fun m =>
      ((m.tickEntry s.cfg now).1, sendRanges key.1 key.2 m.data (m.tickEntry s.cfg now).2) := by
  unfold tickKey
  congr 1
  funext m
  unfold OutMsg.tickEntry
  split_ifs
  · simp only [OutMsg.pokeRanges, OutMsg.pokeRange_eq, sendRanges, List.map_cons, List.map_nil]
  · rfl

/-- A pass of `tick` reads and writes the entry of its key. -/
theorem local_tickKey (cfg : TransportConfig) (now : ℕ) :
    Loop.Local (tickKey now) (fun s : SenderCore Addr => s.cfg = cfg)
      (fun s k => s.out.lookup k)
      (fun _ e => e.map fun m => (m.tickEntry cfg now).1)
      (fun k e => (e.map fun m =>
        sendRanges k.1 k.2 m.data (m.tickEntry cfg now).2).getD []) where
  keeps s k h := by
    rw [tickKey_eq, update_cfg]
    exact h
  self s k h := by
    rw [tickKey_eq, lookup_update, if_pos rfl, h]
  other s k k' _ hne := by
    rw [tickKey_eq, lookup_update, if_neg hne]
  outputs s k h := by
    rw [tickKey_eq, update_outputs, h]

/-- The entries `tick` keeps. -/
def reclaimed (s : SenderCore Addr) (now : ℕ) : SenderCore Addr :=
  { s with out := KeyMap.retain (fun _ m => m.lingers s.cfg now) s.out }

theorem tick_cfg (s : SenderCore Addr) (now : ℕ) (order : MapOrder (MsgKey Addr)) :
    (s.tick now order).1.cfg = s.cfg :=
  Loop.forEach_invariant (local_tickKey s.cfg now).keeps _
    (show (s.reclaimed now).cfg = s.cfg from rfl)

/-- The entry of a key after `tick`. -/
theorem lookup_tick (s : SenderCore Addr) (now : ℕ) (order : MapOrder (MsgKey Addr))
    (key : MsgKey Addr) :
    (s.tick now order).1.out.lookup key =
      ((s.out.lookup key).filter fun m => m.lingers s.cfg now).map fun m =>
        (m.tickEntry s.cfg now).1 := by
  have hnd := KeyMap.nodup_enum_keys (s.reclaimed now).out order
  have hview := (local_tickKey s.cfg now).view_forEach hnd
    (show (s.reclaimed now).cfg = s.cfg from rfl) key
  have hkept : (s.reclaimed now).out.lookup key =
      (s.out.lookup key).filter fun m => m.lingers s.cfg now := KeyMap.lookup_retain _ _ _
  refine hview.trans ?_
  rw [hkept]
  split_ifs with hmem
  · rfl
  · rw [KeyMap.mem_enum_keys, KeyMap.mem_iff_lookup, hkept] at hmem
    rw [Option.eq_none_iff_forall_ne_some.mpr fun m hm => hmem ⟨m, hm⟩]
    rfl

/-- The packets `tick` sends are probes of entries it keeps. -/
theorem mem_tick_acts (s : SenderCore Addr) (now : ℕ) (order : MapOrder (MsgKey Addr))
    {a : Action Addr} :
    a ∈ (s.tick now order).2 ↔ ∃ k m, s.out.lookup k = some m ∧ m.lingers s.cfg now ∧
      a ∈ sendRanges k.1 k.2 m.data (m.tickEntry s.cfg now).2 := by
  have hnd := KeyMap.nodup_enum_keys (s.reclaimed now).out order
  have hout := (local_tickKey s.cfg now).outputs_forEach hnd
    (show (s.reclaimed now).cfg = s.cfg from rfl)
  have hkept : ∀ key, (s.reclaimed now).out.lookup key =
      (s.out.lookup key).filter fun m => m.lingers s.cfg now :=
    fun key => KeyMap.lookup_retain _ _ _
  change a ∈ (Loop.forEach (tickKey now) (order.enum (s.reclaimed now).out.keys)
    (s.reclaimed now)).2 ↔ _
  rw [hout, List.mem_flatMap]
  constructor
  · rintro ⟨k, _, ha⟩
    rw [hkept] at ha
    cases hm : (s.out.lookup k).filter fun m => m.lingers s.cfg now with
    | none =>
      rw [hm] at ha
      cases ha
    | some m =>
      rw [hm] at ha
      obtain ⟨hlook, hlinger⟩ := Option.filter_eq_some_iff.mp hm
      exact ⟨k, m, hlook, hlinger, ha⟩
  · rintro ⟨k, m, hlook, hlinger, ha⟩
    have hm : (s.reclaimed now).out.lookup k = some m := by
      rw [hkept]
      exact Option.filter_eq_some_iff.mpr ⟨hlook, hlinger⟩
    refine ⟨k, KeyMap.mem_enum_keys.mpr (KeyMap.mem_iff_lookup.mpr ⟨m, hm⟩), ?_⟩
    rw [hm]
    exact ha

end SenderCore
end AgentTransport
