import AgentTransport.Headers
import AgentTransport.Refusal
import AgentTransport.Repair

/-!
# The life of a message at the sender

A message is sent up to its end, is done, and is forgotten after the linger period. Nothing
of it goes back on the way, whatever packets arrive, and a packet for one message leaves the
others alone. The times of the calls can be any: a time that lies before the end of the
message counts as no time since then.
-/
namespace AgentTransport
open ByteString Fragmentation

variable {Addr : Type} [DecidableEq Addr]

/-- The message that a call starts. -/
def SenderCall.begins : SenderCall Addr → Option (MsgKey Addr)
  | .start dest msgId _ _ => some (dest, msgId)
  | _ => none

/-- The message that a packet is for. -/
def SenderCall.names : SenderCall Addr → Option (MsgKey Addr)
  | .grant src pkt _ => some (src, pkt.msgId)
  | .resend src pkt _ => some (src, pkt.msgId)
  | .busy src pkt _ => some (src, pkt.msgId)
  | _ => none

/-- The call ends the life of the message: a tick after the linger period of a message that
is done, or `finish`. -/
def SenderCall.Removes (cfg : TransportConfig) (key : MsgKey Addr) (m : OutMsg) :
    SenderCall Addr → Prop
  | .tick now _ => ∃ d, m.doneAt = some d ∧ cfg.linger ≤ now - d
  | .finish dest msgId => (dest, msgId) = key
  | _ => False

namespace OutMsg

/-- What holds of a message at any time. -/
structure Orderly (m : OutMsg) : Prop where
  grantedTo_le : m.grantedTo ≤ m.data.length
  nextSend_le : m.nextSend ≤ m.data.length
  done_iff : m.doneAt.isSome ↔ m.nextSend = m.data.length

variable {cfg : TransportConfig} {m : OutMsg} {limit now : ℕ}

theorem lingers_eq_false : m.lingers cfg now = false ↔
    ∃ d, m.doneAt = some d ∧ cfg.linger ≤ now - d := by
  unfold lingers
  cases m.doneAt with
  | none => simp
  | some d => simp

/-- A pump ends at the end of the message exactly if it makes the message done. -/
theorem Orderly.pumped (hgranted : m.grantedTo ≤ m.data.length)
    (hnext : m.nextSend ≤ m.data.length) (hlimit : limit ≤ m.data.length) :
    (m.pumped cfg limit now).Orderly := by
  have hend : (m.pumped cfg limit now).nextSend ≤ m.data.length := pumpEnd_le hnext
  constructor
  · exact Nat.max_le.mpr ⟨hgranted, hlimit⟩
  · exact hend
  · rw [isSome_doneAt_pumped]
    exact ⟨fun hall => Nat.le_antisymm hend hall, fun heq => heq.ge⟩

theorem Orderly.started (cfg : TransportConfig) (data : List UInt8) (now : ℕ) :
    (started cfg data now).Orderly :=
  Orderly.pumped (m := OutMsg.new cfg data now) (Nat.min_le_right _ _) (Nat.zero_le _)
    (Nat.min_le_right _ _)

variable {dest : Addr} {pkt : Packet}

omit [DecidableEq Addr] in
theorem Orderly.handleGrant (h : m.Orderly) : (m.handleGrant cfg dest pkt now).1.Orderly := by
  by_cases hu : m.Unlocks pkt
  · rw [handleGrant_of_unlocks cfg dest pkt now hu]
    exact Orderly.pumped h.grantedTo_le h.nextSend_le (Nat.min_le_right _ _)
  · rw [handleGrant_of_not_unlocks cfg dest pkt now hu]
    exact h

omit [DecidableEq Addr] in
/-- A RESEND that moves `next_send` to the end finds a message that is not done. -/
theorem Orderly.handleResend (h : m.Orderly) : (m.handleResend cfg dest pkt now).1.Orderly := by
  have hend : m.resendEnd pkt ≤ m.data.length := Nat.min_le_right _ _
  have hnext := h.nextSend_le
  constructor
  · rw [handleResend_grantedTo]
    exact Nat.max_le.mpr ⟨h.grantedTo_le, hend⟩
  · exact handleResend_nextSend_le cfg dest pkt now hnext
  · rw [handleResend_doneAt, handleResend_nextSend, h.done_iff]
    change _ ↔ max m.nextSend (m.resendEnd pkt) = m.data.length
    omega

end OutMsg

namespace SenderCore

variable {cfg : TransportConfig} {s : SenderCore Addr} {c : SenderCall Addr} {key : MsgKey Addr}
  {m m' : OutMsg} {calls later : List (SenderCall Addr)}

section Step

omit [DecidableEq Addr] in
theorem Turns.orderly (h : Turns cfg key c m m') (hm : m.Orderly) : m'.Orderly := by
  cases h with
  | same => exact hm
  | grant => exact hm.handleGrant
  | resend => exact hm.handleResend
  | busy => exact ⟨hm.grantedTo_le, hm.nextSend_le, hm.done_iff⟩
  | poke => exact ⟨hm.grantedTo_le, hm.nextSend_le, hm.done_iff⟩

/-- A call that does not start the message leaves an entry that goes on from the one it
found. -/
theorem exists_turns (hnew : c.begins ≠ some key)
    (h : (s.call c).1.out.lookup key = some m') :
    ∃ m, s.out.lookup key = some m ∧ Turns s.cfg key c m m' := by
  rcases entry_call h with ⟨data, now, rfl, _⟩ | hturns
  · exact absurd rfl hnew
  · exact hturns

/-- How an entry leaves the map. -/
theorem call_eq_none_iff (hm : s.out.lookup key = some m) :
    (s.call c).1.out.lookup key = none ↔ c.Removes s.cfg key m := by
  have hupdate : ∀ k (handler : OutMsg → OutMsg × List (Action Addr)),
      (s.update k handler).1.out.lookup key ≠ none := by
    intro k handler
    rw [lookup_update]
    split_ifs with hk
    · rw [← hk, hm]
      exact Option.some_ne_none _
    · rw [hm]
      exact Option.some_ne_none m
  cases c with
  | start dest msgId data now =>
    refine iff_false_intro ?_
    rw [call, lookup_start, hm]
    by_cases hk : key = (dest, msgId)
    · rw [if_pos hk]
      exact Option.some_ne_none _
    · rw [if_neg hk]
      exact Option.some_ne_none m
  | grant src pkt now => exact iff_false_intro (hupdate _ _)
  | resend src pkt now => exact iff_false_intro (hupdate _ _)
  | busy src pkt now => exact iff_false_intro (hupdate _ _)
  | tick now order =>
    rw [call, lookup_tick, hm, Option.map_eq_none_iff, Option.filter_some, SenderCall.Removes,
      ← OutMsg.lingers_eq_false]
    cases m.lingers s.cfg now <;> simp
  | finish dest msgId =>
    simp only [call, finish, KeyMap.lookup_erase_eq, SenderCall.Removes]
    split_ifs with hk
    · exact ⟨fun _ => hk.symm, fun _ => rfl⟩
    · rw [hm]
      exact ⟨fun h => absurd h (Option.some_ne_none m), fun h => absurd h.symm hk⟩

/-- A packet changes no entry but that of its message, and leads to packets of its message
only. -/
theorem call_names (hc : c.names = some key) :
    (∀ k ≠ key, (s.call c).1.out.lookup k = s.out.lookup k) ∧
    ∀ a ∈ (s.call c).2, ∃ m, ∃ r : ℕ × ℕ, s.out.lookup key = some m ∧
      a = .send key.1 (dataPacket m.data key.2 r.1 r.2) := by
  constructor
  · intro k hk
    cases c with
    | grant src pkt now =>
      obtain rfl := Option.some.inj hc
      rw [call, handleGrant, lookup_update, if_neg hk]
    | resend src pkt now =>
      obtain rfl := Option.some.inj hc
      rw [call, handleResend, lookup_update, if_neg hk]
    | busy src pkt now =>
      obtain rfl := Option.some.inj hc
      rw [call, handleBusy, lookup_update, if_neg hk]
    | start => cases hc
    | tick => cases hc
    | finish => cases hc
  · intro a ha
    obtain ⟨k, data, r, hemit, rfl⟩ := mem_call.mp ha
    cases hemit with
    | start => cases hc
    | grant hm =>
      obtain rfl := Option.some.inj hc
      exact ⟨_, r, hm, rfl⟩
    | resend hm =>
      obtain rfl := Option.some.inj hc
      exact ⟨_, r, hm, rfl⟩
    | poke => cases hc

end Step

/-- The life of a message: `m` is its entry after the calls `calls`, and `later` comes then. -/
structure LifeCycle (cfg : TransportConfig) (calls later : List (SenderCall Addr))
    (key : MsgKey Addr) (m : OutMsg) : Prop where
  started : ∃ now, .start key.1 key.2 m.data now ∈ calls
  orderly : m.Orderly
  /-- Nothing goes back, and the time of being done stays. -/
  advances : ∀ m', ((new cfg).after (calls ++ later)).out.lookup key = some m' → m.Advances m'
  /-- The calls that take the message out of the map. -/
  removed : ∀ c, (((new cfg).after calls).call c).1.out.lookup key = none ↔ c.Removes cfg key m
  /-- A message that is done answers RESENDs until it is taken out: with the fragments that
  meet the requested range, each once and in order. -/
  answers : m.doneAt.isSome → (∀ c ∈ later, ¬ c.Removes cfg key m) →
    ∀ pkt now, pkt.msgId = key.2 →
      (((new cfg).after (calls ++ later)).handleResend key.1 pkt now).2 =
        sendRanges key.1 key.2 m.data
          ((meeting cfg.packetSize m.data.length pkt.offset.toNat
            (min (pkt.offset.toNat + pkt.length.toNat) m.data.length)).map
              (fragRange cfg.packetSize m.data.length))

section Runs

theorem after_cfg (s : SenderCore Addr) (calls : List (SenderCall Addr)) :
    (s.after calls).cfg = s.cfg :=
  after_invariant (P := fun t => t.cfg = s.cfg) (fun t c _ ht => (call_cfg t c).trans ht) rfl

/-- Every entry of every run is orderly. -/
theorem orderly_after (cfg : TransportConfig) (calls : List (SenderCall Addr)) :
    ∀ key m, ((new cfg).after calls).out.lookup key = some m → m.Orderly := by
  apply after_invariant (P := fun s => ∀ key m, s.out.lookup key = some m → m.Orderly)
  · intro s c _ hs key m' hm'
    rcases entry_call hm' with ⟨data, now, _, rfl⟩ | ⟨m, hm, hturns⟩
    · exact .started ..
    · exact hturns.orderly (hs key m hm)
  · intro key m hm
    cases hm

theorem begun_after (cfg : TransportConfig) (calls : List (SenderCall Addr)) :
    Begun calls ((new cfg).after calls) :=
  after_invariant (fun _ _ hc hs => hs.call hc)
    ⟨fun _ _ hm => (by cases hm), fun _ _ hm => (by cases hm)⟩

/-- What is in the map under the key of `m` goes on from `m`, unless the message is started
again. -/
theorem advances_after (hm : s.out.lookup key = some m) (hord : m.Orderly)
    (hnew : ∀ c ∈ later, c.begins ≠ some key) :
    ∀ m', (s.after later).out.lookup key = some m' → m'.Orderly ∧ m.Advances m' := by
  apply after_invariant (s := s) (P := fun t =>
    ∀ m', t.out.lookup key = some m' → m'.Orderly ∧ m.Advances m')
  · intro t c hc ht m₂ hm₂
    obtain ⟨m₁, hm₁, hturns⟩ := exists_turns (hnew c hc) hm₂
    obtain ⟨hord₁, hadv₁⟩ := ht m₁ hm₁
    exact ⟨hturns.orderly hord₁, hadv₁.trans (hturns.advances hord₁.nextSend_le)⟩
  · intro m' hm'
    obtain rfl := Option.some.inj (hm.symm.trans hm')
    exact ⟨hord, .refl m⟩

omit [DecidableEq Addr] in
/-- What takes a message out depends on when it was done. -/
theorem removes_congr (h : m'.doneAt = m.doneAt) :
    c.Removes cfg key m' ↔ c.Removes cfg key m := by
  cases c with
  | tick now order => simp only [SenderCall.Removes, h]
  | _ => rfl

/-- A message that is done stays until a call takes it out. -/
theorem stays_after (hm : s.out.lookup key = some m) (hord : m.Orderly) (hdone : m.doneAt.isSome)
    (hnew : ∀ c ∈ later, c.begins ≠ some key)
    (hkept : ∀ c ∈ later, ¬ c.Removes s.cfg key m) :
    ∃ m', (s.after later).out.lookup key = some m' ∧ m.Advances m' := by
  obtain ⟨d, hd⟩ := Option.isSome_iff_exists.mp hdone
  suffices hall : (s.after later).cfg = s.cfg ∧
      ∃ m', (s.after later).out.lookup key = some m' ∧ m'.Orderly ∧ m.Advances m' by
    obtain ⟨_, m', hm', _, hadv⟩ := hall
    exact ⟨m', hm', hadv⟩
  apply after_invariant (s := s) (P := fun t => t.cfg = s.cfg ∧
    ∃ m', t.out.lookup key = some m' ∧ m'.Orderly ∧ m.Advances m')
  · rintro t c hc ⟨hcfg, m₁, hm₁, hord₁, hadv₁⟩
    refine ⟨(call_cfg t c).trans hcfg, ?_⟩
    have hsame : m₁.doneAt = m.doneAt := (hadv₁.doneAt d hd).trans hd.symm
    have hin : (t.call c).1.out.lookup key ≠ none := by
      rw [Ne, call_eq_none_iff hm₁, hcfg, removes_congr hsame]
      exact hkept c hc
    obtain ⟨m₂, hm₂⟩ := Option.ne_none_iff_exists'.mp hin
    obtain ⟨m₀, hm₀, hturns⟩ := exists_turns (hnew c hc) hm₂
    obtain rfl := Option.some.inj (hm₁.symm.trans hm₀)
    exact ⟨m₂, hm₂, hturns.orderly hord₁, hadv₁.trans (hturns.advances hord₁.nextSend_le)⟩
  · exact ⟨rfl, m, hm, hord, .refl m⟩

omit [DecidableEq Addr] in
theorem begins_ne_of_nodup (hdistinct : ((calls ++ later).filterMap SenderCall.begins).Nodup)
    {data : List UInt8} {now : ℕ} (hstart : .start key.1 key.2 data now ∈ calls) :
    ∀ c ∈ later, c.begins ≠ some key := by
  intro c hc hbegins
  rw [List.filterMap_append] at hdistinct
  exact List.disjoint_of_nodup_append hdistinct
    (List.mem_filterMap.mpr ⟨_, hstart, rfl⟩) (List.mem_filterMap.mpr ⟨c, hc, hbegins⟩)

/-- The life cycle, in every run that starts no message twice: of every message in the map, and
of the messages that a packet is not for. -/
theorem life_cycle (cfg : TransportConfig) (calls later : List (SenderCall Addr))
    (hdistinct : ((calls ++ later).filterMap SenderCall.begins).Nodup) :
    (∀ key m, ((new cfg).after calls).out.lookup key = some m →
      LifeCycle cfg calls later key m) ∧
    ∀ c key, c.names = some key →
      (∀ k ≠ key, (((new cfg).after calls).call c).1.out.lookup k =
        ((new cfg).after calls).out.lookup k) ∧
      ∀ a ∈ (((new cfg).after calls).call c).2, ∃ m, ∃ r : ℕ × ℕ,
        ((new cfg).after calls).out.lookup key = some m ∧
          a = .send key.1 (dataPacket m.data key.2 r.1 r.2) := by
  refine ⟨fun key m hm => ?_, fun c key hc => call_names hc⟩
  have hcfg : ((new cfg).after calls).cfg = cfg := after_cfg _ _
  have hord : m.Orderly := orderly_after cfg calls key m hm
  obtain ⟨now, hstart⟩ := (begun_after cfg calls).started key m hm
  have hnew := begins_ne_of_nodup hdistinct hstart
  constructor
  · exact ⟨now, hstart⟩
  · exact hord
  · intro m' hm'
    rw [after_append] at hm'
    exact (advances_after hm hord hnew m' hm').2
  · intro c
    rw [call_eq_none_iff hm, hcfg]
  · intro hdone hkept pkt t hid
    obtain ⟨m', hm', hadv⟩ := stays_after hm hord hdone hnew (by rwa [hcfg])
    have hkey : (key.1, pkt.msgId) = key := Prod.ext rfl hid
    rw [← after_append, ← hkey] at hm'
    rw [handleResend_acts hm', hid, hadv.data, after_cfg]
    rfl

end Runs

/-- Eight bytes of which four are sent at once and four for a GRANT at time 3. -/
def sentEight : List (SenderCall ℕ) :=
  [.start 9 1 [1, 2, 3, 4, 5, 6, 7, 8] 0, .grant 9 ⟨.grant, 0, 1, 0, 8, 4⟩ 3]

theorem life_cycle_eight : LifeCycle tinyConfig sentEight
    [.busy 9 ⟨.busy, 0, 1, 0, 0, 0⟩ 5, .tick 1002 default, .start 9 2 [1] 1003] (9, 1)
    ⟨[1, 2, 3, 4, 5, 6, 7, 8], 8, 8, some 3, 3⟩ :=
  (life_cycle tinyConfig sentEight _ (by decide)).1 (9, 1) _ (by decide)

end SenderCore
end AgentTransport
