import AgentTransport.Session
import AgentTransport.Windows
import AgentTransport.Recent

/-!
# The books of the receiver

Whatever DATA packets come in, the receiver never has more entries than `max_incoming`,
it grants entries only, each once, and `completed` holds the last keys it has delivered.
A packet for one of these keys is dropped, so the next delivery of a key can only come
when that many others have been delivered after the last one.
-/
namespace AgentTransport
open Transition

variable {Addr : Type} [DecidableEq Addr]

namespace ReceiverCore

variable {r r' : ReceiverCore Addr} {src : Addr} {pkt : Packet} {payload : List UInt8} {now : ℕ}
  {acts : List (Action Addr)}

/-- A message being granted is being received. -/
def GrantsEntries (r : ReceiverCore Addr) : Prop :=
  r.granting.Nodup ∧ ∀ k ∈ r.granting, k ∈ r.incoming

theorem Scheduled.grantsEntries (h : Scheduled r now r' acts) : r'.GrantsEntries := by
  refine ⟨h.nodup, fun k hk => ?_⟩
  obtain ⟨m, hm, _⟩ := h.wants k hk
  rw [h.mem_iff]
  exact KeyMap.mem_iff_lookup.mpr ⟨m, hm⟩

theorem GrantsEntries.dataStep (h : r.GrantsEntries) (hd : DataStep r src pkt payload now r' acts) :
    r'.GrantsEntries := by
  cases hd with
  | duplicate => exact h
  | refused => exact h
  | store _ _ _ _ _ hs => exact hs.grantsEntries
  | deliver _ _ _ hs => exact hs.grantsEntries

theorem GrantsEntries.tick {order : TickOrder Addr} (h : r.tick now order = some (r', acts)) :
    r'.GrantsEntries := by
  obtain ⟨r₁, acts₂, hs, _⟩ := tick_spec h
  exact hs.grantsEntries

theorem tick_completed {order : TickOrder Addr} (h : r.tick now order = some (r', acts)) :
    r'.completed = r.completed := by
  obtain ⟨r₁, acts₂, hs, _, hcompleted, _⟩ := tick_spec h
  exact hs.completed.trans hcompleted

/-- What `handle_data` delivers it remembers, and it delivers nothing it remembers. -/
theorem DataStep.completed (h : DataStep r src pkt payload now r' acts) :
    (r'.completed = r.completed ∧ deliveries acts = []) ∨
      ((src, pkt.msgId) ∉ r.completed ∧
        r'.completed = Recent.push completedCache r.completed (src, pkt.msgId) ∧
        (deliveries acts).map Prod.fst = [(src, pkt.msgId)]) := by
  cases h with
  | duplicate => exact Or.inl ⟨rfl, rfl⟩
  | refused => exact Or.inl ⟨rfl, rfl⟩
  | store _ _ _ _ _ hs => exact Or.inl ⟨hs.completed, hs.deliveries⟩
  | deliver hlive _ _ hs =>
    refine Or.inr ⟨hlive, hs.completed, ?_⟩
    rw [deliveries_deliver, hs.deliveries]
    rfl

/-- Only a refused packet is answered with BUSY. -/
theorem DataStep.eq_of_busy (h : DataStep r src pkt payload now r' acts) {dest : Addr}
    {msgId : UInt64} (hbusy : .send dest ((busyPacket msgId).encode []) ∈ acts) : r' = r := by
  have hgrants : ∀ {r₁ acts₁}, Scheduled r₁ now r' acts₁ →
      .send dest ((busyPacket msgId).encode []) ∉ acts₁ := by
    intro r₁ acts₁ hs hmem
    obtain ⟨pkt', q, hbytes, hgrant⟩ := hs.emitsOnly _ _ hmem
    have hdec : Packet.decode ((busyPacket msgId).encode []) = .ok (busyPacket msgId, []) :=
      Packet.decode_encode (by simp [busyPacket])
    rw [hbytes] at hdec
    rw [← (Packet.eq_of_decode_encode hdec).1] at hgrant
    cases hgrant
  cases h with
  | duplicate => cases hbusy
  | refused => rfl
  | store _ _ _ _ _ hs => exact absurd hbusy (hgrants hs)
  | deliver _ _ _ hs =>
    rcases List.mem_cons.mp hbusy with heq | hmem
    · cases heq
    · exact absurd hmem (hgrants hs)

end ReceiverCore

namespace Session

/-- The representation invariant, with what was delivered. -/
structure Orderly (cfg : TransportConfig) (s : Session Addr) : Prop where
  cfg_eq : s.core.cfg = cfg
  room : s.core.incoming.keys.length ≤ cfg.maxIncoming
  apart : s.core.CompletedApart
  grants : s.core.GrantsEntries
  completed : s.core.completed = ((deliveries s.outputs).map Prod.fst).rtake completedCache
  spaced : Recent.Spaced completedCache ((deliveries s.outputs).map Prod.fst)

variable {cfg : TransportConfig} {s s' : Session Addr}

omit [DecidableEq Addr] in
theorem Orderly.new (cfg : TransportConfig) : Orderly cfg (Session.new cfg : Session Addr) where
  cfg_eq := rfl
  room := Nat.zero_le _
  apart := ReceiverCore.CompletedApart.new cfg
  grants := ⟨List.nodup_nil, fun k hk => absurd hk List.not_mem_nil⟩
  completed := by simp [Session.new, ReceiverCore.new]
  spaced := Recent.Spaced.nil

theorem Orderly.step (h : Orderly cfg s) {c : ReceiverCall Addr} (hs : s.step c = some s') :
    Orderly cfg s' := by
  obtain ⟨⟨r', acts⟩, hcall, rfl⟩ := Option.map_eq_some_iff.mp hs
  have hroom : s.core.incoming.keys.length ≤ s.core.cfg.maxIncoming := by
    rw [h.cfg_eq]
    exact h.room
  cases c with
  | handleData src pkt payload now order =>
    have hd := ReceiverCore.handleData_spec hcall
    have hlen := ReceiverCore.length_keys_dataStep hroom hd
    rw [h.cfg_eq] at hlen
    refine ⟨hd.cfg_eq.trans h.cfg_eq, hlen, h.apart.dataStep hd, h.grants.dataStep hd, ?_, ?_⟩
    · rw [deliveries_append, List.map_append]
      rcases hd.completed with ⟨hsame, hnone⟩ | ⟨_, hpush, hone⟩
      · rw [hnone, List.map_nil, List.append_nil]
        exact hsame.trans h.completed
      · rw [hone, ← Recent.push_rtake (by decide), ← h.completed]
        exact hpush
    · rw [deliveries_append, List.map_append]
      rcases hd.completed with ⟨_, hnone⟩ | ⟨hlive, _, hone⟩
      · rw [hnone, List.map_nil, List.append_nil]
        exact h.spaced
      · rw [hone]
        apply h.spaced.concat
        rw [← h.completed]
        exact hlive
  | tick now order =>
    refine ⟨(ReceiverCore.tick_cfg hcall).trans h.cfg_eq, ?_, h.apart.tick hcall,
      ReceiverCore.GrantsEntries.tick hcall, ?_, ?_⟩
    · exact (KeyMap.length_keys_le fun k => ReceiverCore.tick_mem hcall).trans h.room
    · rw [deliveries_append, ReceiverCore.tick_deliveries hcall, List.append_nil]
      exact (ReceiverCore.tick_completed hcall).trans h.completed
    · rw [deliveries_append, ReceiverCore.tick_deliveries hcall, List.append_nil]
      exact h.spaced

/-- **The representation invariant** of the receiver after any calls, and the window in
which duplicates are recognised. -/
theorem representation (cfg : TransportConfig) {evs : List (ReceiverCall Addr)} {s : Session Addr}
    (h : Run Session.step anyEvent (Session.new cfg) evs s) :
    s.core.incoming.keys.length ≤ cfg.maxIncoming ∧
    s.core.completed.length ≤ completedCache ∧ s.core.completed.Nodup ∧
    (∀ k ∈ s.core.completed, k ∉ s.core.incoming) ∧
    s.core.granting.Nodup ∧ (∀ k ∈ s.core.granting, k ∈ s.core.incoming) ∧
    (∀ src pkt payload now order r' acts,
      s.core.handleData src pkt payload now order = some (r', acts) →
      ((src, pkt.msgId) ∈ s.core.completed ∨
        ∃ dest msgId, .send dest ((ReceiverCore.busyPacket msgId).encode []) ∈ acts) →
      r' = s.core) ∧
    ∀ i j key data data', i < j → (deliveries s.outputs)[i]? = some (key, data) →
      (deliveries s.outputs)[j]? = some (key, data') → i + completedCache < j := by
  have hi : Orderly cfg s := h.invariant (fun _ _ _ ho _ hs => ho.step hs) (Orderly.new cfg)
  refine ⟨hi.room, ?_, ?_, hi.apart, hi.grants.1, hi.grants.2, ?_, ?_⟩
  · rw [hi.completed, Recent.length_rtake]
    exact Nat.min_le_left _ _
  · rw [hi.completed]
    exact hi.spaced.nodup_rtake
  · intro src pkt payload now order r' acts hcall hcase
    rcases hcase with hdup | ⟨dest, msgId, hbusy⟩
    · rw [ReceiverCore.handleData, if_pos hdup] at hcall
      exact (Prod.mk.inj (Option.some.inj hcall)).1.symm
    · exact (ReceiverCore.handleData_spec hcall).eq_of_busy hbusy
  · intro i j key data data' hij hki hkj
    apply hi.spaced i j key hij
    · rw [List.getElem?_map, hki]
      rfl
    · rw [List.getElem?_map, hkj]
      rfl

/-- Room for one message. -/
def narrowConfig : TransportConfig := { tinyConfig with maxIncoming := 1 }

/-- A message comes twice, the first fragment of another one takes the room, a third one is
refused. The second one is completed, and a fourth one is begun. -/
def crowded : List (ReceiverCall ℕ) :=
  [.handleData 0 ⟨.data, 0, 1, 1, 0, 1⟩ [5] 0 default,
    .handleData 0 ⟨.data, 0, 1, 1, 0, 1⟩ [5] 0 default,
    .handleData 0 ⟨.data, 0, 2, 8, 0, 4⟩ [1, 2, 3, 4] 0 default,
    .handleData 2 ⟨.data, 0, 1, 3, 0, 3⟩ [7, 8, 9] 0 default, .tick 1 default,
    .handleData 0 ⟨.data, 0, 2, 8, 4, 4⟩ [5, 6, 7, 8] 1 default,
    .handleData 3 ⟨.data, 0, 7, 8, 4, 4⟩ [5, 6, 7, 8] 1 default]

theorem representation_crowded : ∃ s : Session ℕ,
    exec Session.step crowded (Session.new narrowConfig) = some s ∧
    s.core.completed = [(0, 1), (0, 2)] ∧ s.core.incoming.keys = [(3, 7)] ∧
    s.core.granting = [(3, 7)] ∧
    .send 2 ((ReceiverCore.busyPacket 1).encode []) ∈ s.outputs ∧
    s.core.incoming.keys.length ≤ 1 ∧
    s.core.completed.length ≤ completedCache ∧ s.core.completed.Nodup ∧
    (∀ k ∈ s.core.completed, k ∉ s.core.incoming) ∧
    s.core.granting.Nodup ∧ (∀ k ∈ s.core.granting, k ∈ s.core.incoming) ∧
    (∀ src pkt payload now order r' acts,
      s.core.handleData src pkt payload now order = some (r', acts) →
      ((src, pkt.msgId) ∈ s.core.completed ∨
        ∃ dest msgId, .send dest ((ReceiverCore.busyPacket msgId).encode []) ∈ acts) →
      r' = s.core) ∧
    ∀ i j key data data', i < j → (deliveries s.outputs)[i]? = some (key, data) →
      (deliveries s.outputs)[j]? = some (key, data') → i + completedCache < j := by
  have hout : (exec Session.step crowded (Session.new narrowConfig)).map
      (fun s => (s.core.completed, s.core.incoming.keys, s.core.granting,
        decide (.send 2 ((ReceiverCore.busyPacket 1).encode []) ∈ s.outputs))) =
        some ([(0, 1), (0, 2)], [(3, 7)], [(3, 7)], true) := by
    decide +kernel
  obtain ⟨s, hs, hview⟩ := Option.map_eq_some_iff.mp hout
  simp only [Prod.mk.injEq, decide_eq_true_eq] at hview
  obtain ⟨hcompleted, hkeys, hgranting, hbusy⟩ := hview
  exact ⟨s, hs, hcompleted, hkeys, hgranting, hbusy, representation narrowConfig (run_of_exec hs)⟩

end Session
end AgentTransport
