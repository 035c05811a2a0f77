import AgentTransport.Integrity
import AgentTransport.Ledger

/-!
# The first round trip

A message that fits the unscheduled window is sent as a whole by `start`, and its entry is
granted to the end from the first packet on. The receiver has the message after these
packets, in whatever order they come, and never grants it. The empty message is the
exception: it has no fragments, so nothing is sent and nothing can be delivered.
-/
namespace AgentTransport
open ByteString Fragmentation Transition

variable {Addr : Type} [DecidableEq Addr]

/-- The DATA packet that an action brings to the receiver, from the host `src`. -/
def arrival (src : Addr) : Action Addr → Option (Addr × Packet × List UInt8)
  | .send _ bytes =>
    match Packet.decode bytes with
    | .ok x => some (src, x)
    | .error _ => none
  | .deliver _ _ _ => none

namespace ReceiverCore

/-- A message all of whose window was given at the start, and of which the fragments `left`
are still to come. -/
structure Awaits (cfg : TransportConfig) (key : MsgKey Addr) (data : List UInt8) (left : List ℕ)
    (r : ReceiverCore Addr) : Prop where
  cfg_eq : r.cfg = cfg
  counters : r.CountersFit
  live : key ∉ r.completed
  room : r.refuses key = false
  rebuilds : r.RebuildsAt key data
  granted : ∀ m, r.incoming.lookup key = some m → m.grantedTo = data.length
  marked : ∀ m, r.incoming.lookup key = some m →
    ∀ i < count cfg.packetSize data.length, m.received[i]? = some true ↔ i ∉ left
  idle : key ∉ r.incoming → ∀ i < count cfg.packetSize data.length, i ∈ left

variable {cfg : TransportConfig} {key : MsgKey Addr} {data : List UInt8} {left : List ℕ}
  {r r' : ReceiverCore Addr} {now : ℕ} {acts : List (Action Addr)}

/-- A message that wants no grant is left alone by the scheduler. -/
theorem Scheduled.quiet (hs : Scheduled r now r' acts)
    (hfull : ∀ m, r.incoming.lookup key = some m → ¬ m.wantsGrant) :
    grantsFor key acts = [] ∧ r'.incoming.lookup key = r.incoming.lookup key := by
  have hnot : key ∉ r'.granting := fun hin => by
    obtain ⟨m, hm, hw⟩ := hs.wants key hin
    exact hfull m hm hw
  constructor
  · rw [hs.grantsFor_eq, if_neg hnot]
  · rw [hs.lookup]
    simp [hnot]

/-- The entry that the next fragment goes to. -/
theorem Awaits.entryFor {src : Addr} {pkt : Packet} (h : Awaits cfg (src, pkt.msgId) data left r)
    (hfits : data.length ≤ cfg.unscheduledBytes) (hlen : pkt.msgLen.toNat = data.length) (now : ℕ) :
    (r.entryFor src pkt now).grantedTo = data.length ∧
      ∀ i < count cfg.packetSize data.length,
        (r.entryFor src pkt now).received[i]? = some true ↔ i ∉ left := by
  apply ReceiverCore.entryFor_cases (P := fun m => m.grantedTo = data.length ∧
    ∀ i < count cfg.packetSize data.length, m.received[i]? = some true ↔ i ∉ left)
  · intro m hm
    exact ⟨h.granted m hm, h.marked m hm⟩
  · intro hnot
    rw [hlen, h.cfg_eq]
    refine ⟨Nat.min_eq_right hfits, fun i hi => ?_⟩
    have hleft := h.idle hnot i hi
    simp [InMsg.new, List.getElem?_replicate, hleft]

/-- The next fragment is marked, or it is the last one and the message is handed over. -/
theorem Awaits.takes {src : Addr} {pkt : Packet} {payload : List UInt8} {i : ℕ}
    (h : Awaits cfg (src, pkt.msgId) data (i :: left) r)
    (hfits : data.length ≤ cfg.unscheduledBytes) (hnd : (i :: left).Nodup)
    (hlt : ∀ j ∈ i :: left, j < count cfg.packetSize data.length)
    (hf : IsFragment cfg.packetSize data pkt payload)
    (hidx : pkt.offset.toNat / cfg.packetSize = i) (hcounters : r'.CountersFit)
    (hd : DataStep r src pkt payload now r' acts) :
    grantsFor (src, pkt.msgId) acts = [] ∧
      ((left ≠ [] ∧ deliveries acts = [] ∧ Awaits cfg (src, pkt.msgId) data left r') ∨
        (left = [] ∧ deliveries acts = [((src, pkt.msgId), data)])) := by
  have hps := cfg.packetSize_pos
  obtain ⟨hgranted, hmarked⟩ := h.entryFor hfits hf.msgLen now
  have hf' := hf
  rw [← h.cfg_eq] at hf'
  obtain ⟨m, hr, hbits, hwindow, hcase⟩ := h.rebuilds.takes hf' h.live h.room hd
  rw [h.cfg_eq] at hr hbits
  rw [hgranted] at hwindow
  -- after this packet the fragments in `left` are missing
  have hleft : ∀ j < count cfg.packetSize data.length,
      m.received[j]? = some true ↔ j ∉ left := by
    intro j hj
    rw [hbits, hidx, hmarked j hj, List.mem_cons, not_or]
    have hhead := (List.nodup_cons.mp hnd).1
    constructor
    · rintro (⟨_, hj⟩ | rfl)
      · exact hj
      · exact hhead
    · intro hj
      by_cases hji : j = i
      · exact Or.inr hji
      · exact Or.inl ⟨hji, hj⟩
  have hall : m.complete = true ↔ left = [] := by
    rw [hr.complete_iff hps]
    constructor
    · intro hall
      by_contra hne
      obtain ⟨j, hj⟩ := List.exists_mem_of_ne_nil left hne
      have hjlt := hlt j (List.mem_cons_of_mem i hj)
      exact (hleft j hjlt).mp (hall j hjlt) hj
    · rintro rfl j hj
      exact (hleft j hj).mpr List.not_mem_nil
  rcases hcase with ⟨hopen, hs⟩ | ⟨hcomplete, acts', rfl, hs⟩
  · have hfull : ∀ m', (r.enter (src, pkt.msgId) m).incoming.lookup (src, pkt.msgId) = some m' →
        ¬ m'.wantsGrant := by
      intro m' hm' hw
      rw [enter, AList.lookup_insert] at hm'
      obtain rfl := Option.some.inj hm'
      have hlt := (InMsg.wantsGrant_iff.mp hw).2
      rw [hr.totalLen, hwindow] at hlt
      omega
    obtain ⟨hgrants, hlook⟩ := hs.quiet hfull
    rw [enter, AList.lookup_insert] at hlook
    have hmem : (src, pkt.msgId) ∈ r'.incoming := KeyMap.mem_iff_lookup.mpr ⟨m, hlook⟩
    have hne : left ≠ [] := fun hnil => by
      rw [hall.mpr hnil] at hopen
      cases hopen
    refine ⟨hgrants, Or.inl ⟨hne, hs.deliveries, ?_⟩⟩
    constructor
    · exact hs.cfg.trans h.cfg_eq
    · exact hcounters
    · rw [hs.completed]
      exact h.live
    · simp [refuses, hmem]
    · exact h.rebuilds.dataStep (fun _ => hf') hd
    · intro m' hm'
      obtain rfl := Option.some.inj (hlook.symm.trans hm')
      exact hwindow
    · intro m' hm'
      obtain rfl := Option.some.inj (hlook.symm.trans hm')
      exact hleft
    · exact fun hnot => absurd hmem hnot
  · have hgone : ∀ m', (r.deliver (src, pkt.msgId) src data).1.incoming.lookup (src, pkt.msgId) =
        some m' → ¬ m'.wantsGrant := by
      intro m' hm'
      simp only [deliver, AList.lookup_erase] at hm'
      cases hm'
    refine ⟨(hs.quiet hgone).1, Or.inr ⟨hall.mp hcomplete, ?_⟩⟩
    rw [deliveries_deliver, hs.deliveries]

end ReceiverCore

namespace Session

/-- The calls return, and hand over the message of `key` once, and nothing else, without a
GRANT for it. -/
def DeliversAtOnce (s : Session Addr) (key : MsgKey Addr) (data : List UInt8)
    (calls : List (ReceiverCall Addr)) : Prop :=
  ∃ s' new, exec Session.step calls s = some s' ∧ s'.outputs = s.outputs ++ new ∧
    deliveries new = [(key, data)] ∧ grantsFor key new = []

variable {cfg : TransportConfig} {data : List UInt8} {left : List ℕ} {s : Session Addr}

/-- The fragments that are still to come complete the message. -/
theorem deliversAtOnce_of_awaits {src : Addr} {msgId : UInt64}
    (hfits : data.length ≤ cfg.unscheduledBytes) (hlen : data.length < 2 ^ 32)
    {calls : List (ReceiverCall Addr)}
    (hcalls : List.Forall₂ (fun c i => c.packet = some (src, framed cfg.packetSize data msgId i))
      calls left)
    (hnd : left.Nodup) (hlt : ∀ i ∈ left, i < count cfg.packetSize data.length)
    (hne : left ≠ []) (h : ReceiverCore.Awaits cfg (src, msgId) data left s.core) :
    s.DeliversAtOnce (src, msgId) data calls := by
  have hps := cfg.packetSize_pos
  induction hcalls generalizing s with
  | nil => exact absurd rfl hne
  | @cons c i calls left hc hrest ih =>
    obtain ⟨now, order, rfl⟩ := ReceiverCall.eq_handleData hc
    obtain ⟨pkt, payload, hframed, rfl, hf, hidx⟩ :=
      framed_spec hps hlen msgId (hlt i List.mem_cons_self)
    rw [hframed]
    have hf' := hf
    rw [← h.cfg_eq] at hf'
    have hsafe : s.core.SafeData src pkt payload now :=
      ReceiverCore.safeData_of_rebuilds (h.rebuilds.entryFor hf' now).1 hf'
    obtain ⟨⟨r', acts⟩, hcall⟩ := Option.isSome_iff_exists.mp
      ((ReceiverCore.handleData_isSome h.counters src pkt payload now order).mpr hsafe)
    have hstep : s.step (.handleData src pkt payload now order) = some ⟨r', s.outputs ++ acts,
        s.record (.handleData src pkt payload now order) r'⟩ := by
      rw [step, ReceiverCore.call, hcall]
      rfl
    obtain ⟨hgrants, ⟨hmore, hdel, hnext⟩ | ⟨rfl, hdel⟩⟩ := h.takes hfits hnd hlt hf hidx
      (h.counters.handleData hcall) (ReceiverCore.handleData_spec hcall)
    · obtain ⟨s', new, hexec, hout, hnew, hgrants'⟩ := ih (s := ⟨r', s.outputs ++ acts,
          s.record (.handleData src pkt payload now order) r'⟩) (List.nodup_cons.mp hnd).2
        (fun j hj => hlt j (List.mem_cons_of_mem i hj)) hmore hnext
      refine ⟨s', acts ++ new, ?_, ?_, ?_, ?_⟩
      · rw [exec, List.foldlM_cons, hstep]
        exact hexec
      · rw [hout, List.append_assoc]
      · rw [deliveries_append, hdel, hnew]
        rfl
      · rw [grantsFor_append, hgrants, hgrants']
        rfl
    · cases hrest
      exact ⟨_, acts, by rw [exec, List.foldlM_cons, hstep]; rfl, rfl, hdel, hgrants⟩

/-- Without a call nothing is handed over. -/
theorem not_deliversAtOnce_nil (s : Session Addr) (key : MsgKey Addr) (data : List UInt8) :
    ¬ s.DeliversAtOnce key data [] := by
  rintro ⟨s', new, hexec, hout, hdel, _⟩
  obtain rfl : s = s' := Option.some.inj hexec
  obtain rfl : new = [] := List.self_eq_append_right.mp hout
  cases hdel

omit [DecidableEq Addr] in
/-- `start` sends all fragments of a message that fits the unscheduled window. -/
theorem startRanges_of_fits (hfits : data.length ≤ cfg.unscheduledBytes) :
    OutMsg.startRanges cfg data =
      (List.range (count cfg.packetSize data.length)).map (fragRange cfg.packetSize data.length) := by
  rw [OutMsg.startRanges, Nat.min_eq_right hfits, pumpRanges, Nat.sub_zero]
  refine List.map_congr_left fun i _ => ?_
  rw [Nat.zero_add]
  rfl

/-- What the receiver gets of a message that was just started. -/
theorem arrivals_start {c : SenderCore Addr} (hc : c.cfg = cfg)
    (hfits : data.length ≤ cfg.unscheduledBytes) (hlen : data.length < 2 ^ 32) (dest src : Addr)
    (msgId : UInt64) (now : ℕ) :
    (c.start dest msgId data now).2.map (arrival src) =
      (List.range (count cfg.packetSize data.length)).map
        fun i => some (src, framed cfg.packetSize data msgId i) := by
  rw [SenderCore.start_acts, hc, startRanges_of_fits hfits, sendRanges, List.map_map, List.map_map]
  refine List.map_congr_left fun i _ => ?_
  simp only [Function.comp_apply, arrival, fragRange, decode_dataPacket hlen, framed]

/-- A message that fits the unscheduled window is delivered in the first round trip, exactly if
it is not empty. The sender is done with it in any case. -/
theorem first_round_trip_iff (cfg : TransportConfig) (data : List UInt8)
    (hfits : data.length ≤ cfg.unscheduledBytes) (hlen : data.length < 2 ^ 32)
    (c : SenderCore Addr) (hc : c.cfg = cfg) (dest src : Addr) (msgId : UInt64) (now : ℕ)
    (evs : List (ReceiverCall Addr)) (s : Session Addr)
    (hrun : Run Session.step anyEvent (Session.new cfg) evs s)
    (hroom : s.core.incoming.keys.length < cfg.maxIncoming)
    (hnew : (src, msgId) ∉ s.core.incoming) (hlive : (src, msgId) ∉ s.core.completed) :
    ((∀ calls, (calls.map ReceiverCall.packet).Perm
        ((c.start dest msgId data now).2.map (arrival src)) →
        s.DeliversAtOnce (src, msgId) data calls) ∧
      (c.start dest msgId data now).1.isDone dest msgId = true) ↔ data ≠ [] := by
  have hps := cfg.packetSize_pos
  have hdone : (c.start dest msgId data now).1.isDone dest msgId = true := by
    have hend : data.length ≤
        pumpEnd cfg.packetSize data.length (min cfg.unscheduledBytes data.length) 0 := by
      have hlimit : min cfg.unscheduledBytes data.length ≤ pumpEnd cfg.packetSize data.length
          (min cfg.unscheduledBytes data.length) 0 := limit_le_pumpEnd hps (Nat.min_le_right _ _)
      omega
    have hsent : (OutMsg.started cfg data now).doneAt = some now := if_pos hend
    rw [SenderCore.isDone, SenderCore.lookup_start, if_pos rfl, hc, Option.all_some, hsent,
      Option.isSome_some]
  rw [and_iff_left hdone, arrivals_start hc hfits hlen]
  constructor
  · rintro hall rfl
    refine not_deliversAtOnce_nil s (src, msgId) [] (hall [] ?_)
    rw [List.length_nil, count_zero hps]
    exact List.Perm.refl []
  · intro hne calls hperm
    have hcfg : s.core.cfg = cfg ∧ s.core.CountersFit := by
      refine hrun.invariant (P := fun s => s.core.cfg = cfg ∧ s.core.CountersFit)
        (fun s c t hP _ hst => ?_) ⟨rfl, ReceiverCore.CountersFit.new cfg⟩
      obtain ⟨⟨r', acts⟩, hcall, rfl⟩ := Option.map_eq_some_iff.mp hst
      exact ⟨(ReceiverCore.call_cfg hcall).trans hP.1, hP.2.call hcall⟩
    have hcomp : Relation.Comp
        (· = List.map (fun i => some (src, framed cfg.packetSize data msgId i)) ·) List.Perm
        (calls.map ReceiverCall.packet) (List.range (count cfg.packetSize data.length)) := by
      rw [List.eq_map_comp_perm]
      exact hperm
    obtain ⟨left, hleft, hrange⟩ := hcomp
    have hlt : ∀ i ∈ left, i < count cfg.packetSize data.length := fun i hi =>
      List.mem_range.mp (hrange.mem_iff.mp hi)
    have hpos := count_pos hps (List.length_pos_of_ne_nil hne)
    have hzero : 0 ∈ left := hrange.mem_iff.mpr (List.mem_range.mpr hpos)
    refine deliversAtOnce_of_awaits hfits hlen ?_ (hrange.nodup_iff.mpr List.nodup_range) hlt
      (List.ne_nil_of_mem hzero) ?_
    · rw [← List.forall₂_eq_eq_eq, List.forall₂_map_left_iff, List.forall₂_map_right_iff] at hleft
      exact hleft
    · have hnone : ∀ m, s.core.incoming.lookup (src, msgId) ≠ some m := fun m hm =>
        hnew (KeyMap.mem_iff_lookup.mpr ⟨m, hm⟩)
      constructor
      · exact hcfg.1
      · exact hcfg.2
      · exact hlive
      · simp [ReceiverCore.refuses, hcfg.1, hroom]
      · exact fun m hm => absurd hm (hnone m)
      · exact fun m hm => absurd hm (hnone m)
      · exact fun m hm => absurd hm (hnone m)
      · exact fun _ i hi => hrange.mem_iff.mpr (List.mem_range.mpr hi)

/-- Five bytes, sent as two fragments, to a receiver that is new. -/
theorem first_round_trip_five :
    (∀ calls, (calls.map ReceiverCall.packet).Perm
        (((SenderCore.new wideConfig).start 9 1 [1, 2, 3, 4, 5] 0).2.map (arrival 0)) →
        (Session.new wideConfig).DeliversAtOnce (0, 1) [1, 2, 3, 4, 5] calls) ∧
      ((SenderCore.new wideConfig).start 9 1 [1, 2, 3, 4, 5] 0).1.isDone 9 1 = true :=
  (first_round_trip_iff wideConfig [1, 2, 3, 4, 5] (by decide) (by decide) (SenderCore.new wideConfig)
    rfl 9 0 1 0 [] (Session.new wideConfig) Run.nil (by decide) (by simp [Session.new, ReceiverCore.new])
    List.not_mem_nil).mpr (List.cons_ne_nil _ _)

/-- The empty message: `start` sends nothing, so a new receiver with room gets nothing. -/
theorem first_round_trip_fails :
    ((SenderCore.new tinyConfig).start 9 1 [] 0).2 = [] ∧
    ¬ ∀ calls, (calls.map ReceiverCall.packet).Perm
        (((SenderCore.new tinyConfig).start 9 1 [] 0).2.map (arrival (0 : ℕ))) →
        (Session.new tinyConfig).DeliversAtOnce (0, 1) [] calls := by
  refine ⟨rfl, fun hall => ?_⟩
  exact not_deliversAtOnce_nil (Session.new tinyConfig) (0, 1) [] (hall [] (List.Perm.refl []))

end Session
end AgentTransport
