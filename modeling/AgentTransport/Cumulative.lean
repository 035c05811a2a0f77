import AgentTransport.Sending

/-!
# Cumulative grants

A GRANT states how far the sender may go, not how much more it may send. A sequence of
GRANTs for a message therefore does what its largest one does alone: whatever their order
and however often one is repeated, the same packets go out in the same order.
-/
namespace AgentTransport
open Fragmentation

variable {Addr : Type} [DecidableEq Addr]

namespace OutMsg

/-- What a GRANT up to `offset` makes of an entry, and the ranges it sends. -/
def unlocked (cfg : TransportConfig) (offset now : ℕ) (m : OutMsg) : OutMsg × List (ℕ × ℕ) :=
  if m.grantedTo < min offset m.data.length ∧ m.doneAt = none then
    (m.pumped cfg (min offset m.data.length) now,
      pumpRanges cfg.packetSize m.data.length (min offset m.data.length) m.nextSend)
  else (m, [])

/-- The two entries stand at the same place of the same message. -/
structure SamePlace (m m' : OutMsg) : Prop where
  data : m.data = m'.data
  nextSend : m.nextSend = m'.nextSend
  done : m.doneAt.isSome = m'.doneAt.isSome

section Entry

variable {cfg : TransportConfig} {m : OutMsg} {a b now now' : ℕ}

theorem SamePlace.refl (m : OutMsg) : SamePlace m m := ⟨rfl, rfl, rfl⟩

theorem SamePlace.trans {m₁ m₂ m₃ : OutMsg} (h : SamePlace m₁ m₂) (h' : SamePlace m₂ m₃) :
    SamePlace m₁ m₃ :=
  ⟨h.data.trans h'.data, h.nextSend.trans h'.nextSend, h.done.trans h'.done⟩

theorem unlocked_of_lt (h : m.grantedTo < min a m.data.length) (hopen : m.doneAt = none) :
    m.unlocked cfg a now = (m.pumped cfg (min a m.data.length) now,
      pumpRanges cfg.packetSize m.data.length (min a m.data.length) m.nextSend) :=
  if_pos ⟨h, hopen⟩

theorem unlocked_of_le (h : min a m.data.length ≤ m.grantedTo) :
    m.unlocked cfg a now = (m, []) :=
  if_neg fun hlt => Nat.not_lt.mpr h hlt.1

theorem unlocked_of_done (h : m.doneAt ≠ none) : m.unlocked cfg a now = (m, []) :=
  if_neg fun hopen => h hopen.2

omit [DecidableEq Addr] in
theorem handleGrant_eq (cfg : TransportConfig) (dest : Addr) (pkt : Packet) (now : ℕ) (m : OutMsg) :
    m.handleGrant cfg dest pkt now = ((m.unlocked cfg pkt.offset.toNat now).1,
      sendRanges dest pkt.msgId m.data (m.unlocked cfg pkt.offset.toNat now).2) := by
  by_cases h : m.Unlocks pkt
  · rw [handleGrant_of_unlocks cfg dest pkt now h, unlocked_of_lt h.1 h.2, grantRanges, if_pos h]
  · have hkeep : m.unlocked cfg pkt.offset.toNat now = (m, []) := if_neg h
    rw [handleGrant_of_not_unlocks cfg dest pkt now h, hkeep]
    rfl

/-- A GRANT for an entry that was just pumped goes on where the pump stopped. -/
theorem unlocked_pumped (cfg : TransportConfig) (now now' : ℕ) (b : ℕ)
    (ha : m.grantedTo < min a m.data.length) :
    SamePlace ((m.pumped cfg (min a m.data.length) now).unlocked cfg b now').1
        (m.pumped cfg (max (min a m.data.length) (min b m.data.length)) now') ∧
      pumpRanges cfg.packetSize m.data.length (min a m.data.length) m.nextSend ++
          ((m.pumped cfg (min a m.data.length) now).unlocked cfg b now').2 =
        pumpRanges cfg.packetSize m.data.length
          (max (min a m.data.length) (min b m.data.length)) m.nextSend := by
  have hps := cfg.packetSize_pos
  obtain ⟨hranges, hend⟩ := pump_max hps (Nat.min_le_right a m.data.length)
    (Nat.min_le_right b m.data.length) m.nextSend
  by_cases hfull : m.data.length ≤
      pumpEnd cfg.packetSize m.data.length (min a m.data.length) m.nextSend
  · -- the pump sent the rest of the message
    have hstop : ¬ pumpEnd cfg.packetSize m.data.length (min a m.data.length) m.nextSend <
        min b m.data.length := by omega
    rw [pumpRanges_of_le hps (Nat.not_lt.mp hstop), List.append_nil] at hranges
    have hdone : (m.pumped cfg (min a m.data.length) now).doneAt ≠ none := by
      simp only [pumped, if_pos hfull]
      exact Option.some_ne_none now
    rw [pumpEnd, if_neg hstop] at hend
    rw [unlocked_of_done hdone, ← hranges, List.append_nil]
    refine ⟨⟨rfl, hend, ?_⟩, rfl⟩
    simp only [pumped, ← hend, if_pos hfull, Option.isSome_some]
  · have hstill : (m.pumped cfg (min a m.data.length) now).doneAt = none := if_neg hfull
    rcases Nat.lt_or_ge (max m.grantedTo (min a m.data.length)) (min b m.data.length) with hb | hb
    · rw [unlocked_of_lt (m := m.pumped cfg (min a m.data.length) now) hb hstill]
      refine ⟨⟨rfl, hend, ?_⟩, hranges⟩
      simp only [pumped, hend]
    · have hle : min b m.data.length ≤ min a m.data.length := by omega
      rw [unlocked_of_le (m := m.pumped cfg (min a m.data.length) now) hb,
        Nat.max_eq_left hle, List.append_nil]
      refine ⟨⟨rfl, rfl, ?_⟩, rfl⟩
      simp only [pumped, if_neg hfull]

/-- Two GRANTs do what the larger one does. -/
theorem unlocked_unlocked (cfg : TransportConfig) (a b now now' : ℕ) (m : OutMsg) :
    SamePlace ((m.unlocked cfg a now).1.unlocked cfg b now').1 (m.unlocked cfg (max a b) now').1 ∧
      (m.unlocked cfg a now).2 ++ ((m.unlocked cfg a now).1.unlocked cfg b now').2 =
        (m.unlocked cfg (max a b) now').2 := by
  by_cases hdone : m.doneAt = none
  · have hmin : min (max a b) m.data.length = max (min a m.data.length) (min b m.data.length) := by
      omega
    rcases Nat.lt_or_ge m.grantedTo (min a m.data.length) with ha | ha
    · have hboth : m.grantedTo < min (max a b) m.data.length := by omega
      rw [unlocked_of_lt ha hdone, unlocked_of_lt hboth hdone, hmin]
      exact unlocked_pumped cfg now now' b ha
    · -- the first GRANT is an old one
      rw [unlocked_of_le ha]
      rcases Nat.lt_or_ge m.grantedTo (min b m.data.length) with hb | hb
      · have hboth : m.grantedTo < min (max a b) m.data.length := by omega
        have hle : min a m.data.length ≤ min b m.data.length := by omega
        rw [unlocked_of_lt hb hdone, unlocked_of_lt hboth hdone, hmin, Nat.max_eq_right hle]
        exact ⟨SamePlace.refl _, rfl⟩
      · have hboth : min (max a b) m.data.length ≤ m.grantedTo := by omega
        rw [unlocked_of_le hb, unlocked_of_le hboth]
        exact ⟨SamePlace.refl m, rfl⟩
  · rw [unlocked_of_done hdone, unlocked_of_done hdone, unlocked_of_done hdone]
    exact ⟨SamePlace.refl m, rfl⟩

theorem unlocked_data (cfg : TransportConfig) (a now : ℕ) (m : OutMsg) :
    (m.unlocked cfg a now).1.data = m.data := by
  unfold unlocked
  split_ifs <;> rfl

/-- A sequence of GRANTs does what the largest of them does. -/
theorem unlocked_forEach (cfg : TransportConfig) (gs : List (ℕ × ℕ)) (now : ℕ) (m : OutMsg) :
    SamePlace (Loop.forEach (fun m g => m.unlocked cfg g.1 g.2) gs m).1
        (m.unlocked cfg ((gs.map Prod.fst).foldr max 0) now).1 ∧
      (Loop.forEach (fun m g => m.unlocked cfg g.1 g.2) gs m).2 =
        (m.unlocked cfg ((gs.map Prod.fst).foldr max 0) now).2 := by
  induction gs generalizing m with
  | nil =>
    rw [List.map_nil, List.foldr_nil, unlocked_of_le (by omega)]
    exact ⟨SamePlace.refl m, rfl⟩
  | cons g gs ih =>
    obtain ⟨hplace, hranges⟩ := ih (m.unlocked cfg g.1 g.2).1
    obtain ⟨hplace₂, hranges₂⟩ :=
      unlocked_unlocked cfg g.1 ((gs.map Prod.fst).foldr max 0) g.2 now m
    rw [Loop.forEach_cons, List.map_cons, List.foldr_cons, hranges]
    exact ⟨hplace.trans hplace₂, hranges₂⟩

/-- A GRANT sends each byte once, from the place reached on. -/
theorem unlocked_once (cfg : TransportConfig) (a now : ℕ) (m : OutMsg) :
    (m.unlocked cfg a now).2.Pairwise (fun r r' => r.2 ≤ r'.1) ∧
      ∀ r ∈ (m.unlocked cfg a now).2,
        m.nextSend ≤ r.1 ∧ r.2 ≤ (m.unlocked cfg a now).1.nextSend := by
  unfold unlocked
  split_ifs
  · refine ⟨pairwise_pumpRanges _ _ _ _, fun r hr => ⟨?_, ?_⟩⟩
    · obtain ⟨j, _, rfl⟩ := (mem_pumpRanges cfg.packetSize_pos).mp hr
      exact Nat.le_add_right _ _
    · exact pumpRanges_le_pumpEnd cfg.packetSize_pos hr
  · exact ⟨List.Pairwise.nil, fun r hr => by cases hr⟩

end Entry

end OutMsg

namespace SenderCore

/-- GRANTs from one address, one after the other. -/
def handleGrants (s : SenderCore Addr) (src : Addr) (grants : List (Packet × ℕ)) :
    SenderCore Addr × List (Action Addr) :=
  Loop.forEach (fun s g => s.handleGrant src g.1 g.2) grants s

variable {msgId : UInt64} {grants : List (Packet × ℕ)}

/-- The places the GRANTs name. -/
def limits (grants : List (Packet × ℕ)) : List (ℕ × ℕ) :=
  grants.map fun g => (g.1.offset.toNat, g.2)

theorem handleGrant_spec (s : SenderCore Addr) (src : Addr) (pkt : Packet) (now : ℕ) :
    (s.handleGrant src pkt now).1.cfg = s.cfg ∧
      (s.handleGrant src pkt now).1.out.lookup (src, pkt.msgId) =
        (s.out.lookup (src, pkt.msgId)).map (fun m => (m.unlocked s.cfg pkt.offset.toNat now).1) ∧
      (s.handleGrant src pkt now).2 = ((s.out.lookup (src, pkt.msgId)).map fun m =>
        sendRanges src pkt.msgId m.data (m.unlocked s.cfg pkt.offset.toNat now).2).getD [] := by
  refine ⟨update_cfg _ _ _, ?_, ?_⟩
  · rw [handleGrant, lookup_update, if_pos rfl]
    simp only [OutMsg.handleGrant_eq]
  · rw [handleGrant, update_outputs]
    simp only [OutMsg.handleGrant_eq]

theorem handleGrants_spec (s : SenderCore Addr) (src : Addr)
    (hmsg : ∀ g ∈ grants, g.1.msgId = msgId) :
    (s.handleGrants src grants).1.out.lookup (src, msgId) =
        (s.out.lookup (src, msgId)).map (fun m =>
          (Loop.forEach (fun m g => m.unlocked s.cfg g.1 g.2) (limits grants) m).1) ∧
      (s.handleGrants src grants).2 = ((s.out.lookup (src, msgId)).map fun m =>
        sendRanges src msgId m.data
          (Loop.forEach (fun m g => m.unlocked s.cfg g.1 g.2) (limits grants) m).2).getD [] := by
  induction grants generalizing s with
  | nil =>
    cases hm : s.out.lookup (src, msgId) with
    | none => exact ⟨hm, rfl⟩
    | some m => exact ⟨hm, rfl⟩
  | cons g grants ih =>
    obtain ⟨hcfg, hlook, hacts⟩ := handleGrant_spec s src g.1 g.2
    rw [hmsg g List.mem_cons_self] at hlook hacts
    obtain ⟨hlook', hacts'⟩ := ih (s.handleGrant src g.1 g.2).1
      fun g' hg' => hmsg g' (List.mem_cons_of_mem g hg')
    rw [hcfg, hlook] at hlook' hacts'
    have hstep : s.handleGrants src (g :: grants) =
        (((s.handleGrant src g.1 g.2).1.handleGrants src grants).1,
          (s.handleGrant src g.1 g.2).2 ++
            ((s.handleGrant src g.1 g.2).1.handleGrants src grants).2) := rfl
    rw [hstep, hlook', hacts', hacts]
    cases hm : s.out.lookup (src, msgId) with
    | none => exact ⟨rfl, rfl⟩
    | some m =>
      refine ⟨rfl, ?_⟩
      simp only [Option.map_some, Option.getD_some, OutMsg.unlocked_data, sendRanges,
        ← List.map_append]
      rfl

omit [DecidableEq Addr] in
theorem foldr_limits {top : Packet} (hmax : ∀ g ∈ grants, g.1.offset.toNat ≤ top.offset.toNat)
    (hmem : ∃ g ∈ grants, g.1.offset.toNat = top.offset.toNat) :
    ((limits grants).map Prod.fst).foldr max 0 = top.offset.toNat := by
  simp only [limits, List.map_map, Function.comp_def]
  apply le_antisymm
  · refine List.max_le_of_forall_le _ _ fun x hx => ?_
    obtain ⟨g, hg, rfl⟩ := List.mem_map.mp hx
    exact hmax g hg
  · obtain ⟨g, hg, heq⟩ := hmem
    exact List.le_max_of_le (List.mem_map.mpr ⟨g, hg, rfl⟩) heq.ge

/-- GRANTs are cumulative, in every state of the sender: a sequence of them sends the same
packets as its largest one, leaves the message at the same place and done in the same case,
and goes on from where the message stood without sending a byte twice. -/
theorem grants_cumulative (s : SenderCore Addr) (src : Addr) (msgId : UInt64)
    (grants : List (Packet × ℕ)) (hmsg : ∀ g ∈ grants, g.1.msgId = msgId) (top : Packet)
    (htop : top.msgId = msgId) (hmax : ∀ g ∈ grants, g.1.offset.toNat ≤ top.offset.toNat)
    (hmem : ∃ g ∈ grants, g.1.offset.toNat = top.offset.toNat) (now : ℕ) :
    (s.handleGrants src grants).2 = (s.handleGrant src top now).2 ∧
    ((s.handleGrants src grants).1.out.lookup (src, msgId)).map OutMsg.nextSend =
      ((s.handleGrant src top now).1.out.lookup (src, msgId)).map OutMsg.nextSend ∧
    (s.handleGrants src grants).1.isDone src msgId =
      (s.handleGrant src top now).1.isDone src msgId ∧
    ∀ m m', s.out.lookup (src, msgId) = some m →
      (s.handleGrants src grants).1.out.lookup (src, msgId) = some m' →
        ∃ rs, (s.handleGrants src grants).2 = sendRanges src msgId m.data rs ∧
          rs.Pairwise (fun r r' => r.2 ≤ r'.1) ∧
          ∀ r ∈ rs, m.nextSend ≤ r.1 ∧ r.2 ≤ m'.nextSend := by
  obtain ⟨hlook, hacts⟩ := handleGrants_spec s src hmsg
  obtain ⟨_, hlook₁, hacts₁⟩ := handleGrant_spec s src top now
  rw [htop] at hlook₁ hacts₁
  simp only [isDone, hlook, hlook₁, hacts, hacts₁]
  cases hm : s.out.lookup (src, msgId) with
  | none => exact ⟨rfl, rfl, rfl, fun m m' h => by cases h⟩
  | some m =>
    obtain ⟨hplace, hranges⟩ := OutMsg.unlocked_forEach s.cfg (limits grants) now m
    rw [foldr_limits hmax hmem] at hplace hranges
    simp only [Option.map_some, Option.getD_some, Option.all_some, hranges, hplace.nextSend,
      hplace.done]
    refine ⟨trivial, trivial, trivial, fun m₀ m' h h' => ?_⟩
    obtain rfl := Option.some.inj h
    obtain rfl := Option.some.inj h'
    obtain ⟨honce, hwithin⟩ := OutMsg.unlocked_once s.cfg top.offset.toNat now m
    refine ⟨_, rfl, honce, fun r hr => ?_⟩
    rw [hplace.nextSend]
    exact hwithin r hr

/-- GRANT(8), then GRANT(12), then GRANT(8) again, for twelve bytes of which four were sent. -/
def threeGrants : List (Packet × ℕ) :=
  [(⟨.grant, 0, 1, 0, 8, 4⟩, 1), (⟨.grant, 0, 1, 0, 12, 4⟩, 2), (⟨.grant, 0, 1, 0, 8, 4⟩, 3)]

def fourOfTwelve : SenderCore ℕ :=
  ((new tinyConfig).start 9 1 [1, 2, 3, 4, 5, 6, 7, 8, 9, 10, 11, 12] 0).1

theorem grants_cumulative_three :
    ((fourOfTwelve.handleGrants 9 threeGrants).1.out.lookup (9, 1)).map OutMsg.nextSend = some 12 ∧
    (fourOfTwelve.handleGrants 9 threeGrants).2 =
      (fourOfTwelve.handleGrant 9 ⟨.grant, 0, 1, 0, 12, 4⟩ 7).2 ∧
    ((fourOfTwelve.handleGrants 9 threeGrants).1.out.lookup (9, 1)).map OutMsg.nextSend =
      ((fourOfTwelve.handleGrant 9 ⟨.grant, 0, 1, 0, 12, 4⟩ 7).1.out.lookup (9, 1)).map
        OutMsg.nextSend ∧
    (fourOfTwelve.handleGrants 9 threeGrants).1.isDone 9 1 =
      (fourOfTwelve.handleGrant 9 ⟨.grant, 0, 1, 0, 12, 4⟩ 7).1.isDone 9 1 ∧
    ∀ m m', fourOfTwelve.out.lookup (9, 1) = some m →
      (fourOfTwelve.handleGrants 9 threeGrants).1.out.lookup (9, 1) = some m' →
        ∃ rs, (fourOfTwelve.handleGrants 9 threeGrants).2 = sendRanges 9 1 m.data rs ∧
          rs.Pairwise (fun r r' => r.2 ≤ r'.1) ∧
          ∀ r ∈ rs, m.nextSend ≤ r.1 ∧ r.2 ≤ m'.nextSend := by
  refine ⟨by decide, grants_cumulative fourOfTwelve 9 1 threeGrants ?_ ⟨.grant, 0, 1, 0, 12, 4⟩ rfl
    ?_ ?_ 7⟩
  all_goals decide

end SenderCore
end AgentTransport
