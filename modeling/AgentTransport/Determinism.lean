import AgentTransport.StableSort
import AgentTransport.ReceiverRun

/-!
# Dependence on the order of the map

`schedule` and `tick` walk a hash map, so the order of each walk is arbitrary. What a call
does to an entry and what it sends for it does not depend on that order. The selection of
the messages with the fewest remaining bytes does, where candidates are tied for the last
places. Two runs over the same calls therefore agree, whatever the orders, exactly if no
such tie has to be broken for a candidate that is not starving.
-/
namespace AgentTransport
open ByteString StableSort Transition

variable {Addr : Type} [DecidableEq Addr]

namespace ReceiverCall

end ReceiverCall

/-- Two calls that differ in the orders of the map only. -/
inductive SameCall : ReceiverCall Addr → ReceiverCall Addr → Prop
  | handleData (src : Addr) (pkt : Packet) (payload : List UInt8) (now : ℕ)
      (o o' : ScheduleOrder Addr) :
      SameCall (.handleData src pkt payload now o) (.handleData src pkt payload now o')
  | tick (now : ℕ) (o o' : TickOrder Addr) : SameCall (.tick now o) (.tick now o')

omit [DecidableEq Addr] in
theorem SameCall.refl (c : ReceiverCall Addr) : SameCall c c := by
  cases c with
  | handleData => exact .handleData ..
  | tick => exact .tick ..

namespace InMsg

/-- The bytes still missing, when the counter has not run past the message. -/
def left (m : InMsg) : ℕ := m.totalLen - m.receivedBytes

end InMsg

namespace ReceiverCore

/-- How many candidates have at most `n` bytes left. -/
def atMost (r : ReceiverCore Addr) (n : ℕ) : ℕ :=
  (r.incoming.iter default).countP fun e => e.2.wantsGrant && decide (e.2.left ≤ n)

/-- How many candidates have less than `n` bytes left. -/
def below (r : ReceiverCore Addr) (n : ℕ) : ℕ :=
  (r.incoming.iter default).countP fun e => e.2.wantsGrant && decide (e.2.left < n)

/-- Where a round of scheduling returns, every candidate is starving, or among the first
however ties are broken, or not among them however ties are broken. -/
def Decided (r : ReceiverCore Addr) (now : ℕ) : Prop :=
  (∀ k m, r.incoming.lookup k = some m → m.wantsGrant → m.receivedBytes ≤ m.totalLen) →
    ∀ k m, r.incoming.lookup k = some m → m.wantsGrant →
      now - m.lastGrant < r.cfg.starveThreshold →
      r.atMost m.left ≤ max r.cfg.overcommit 1 ∨ max r.cfg.overcommit 1 ≤ r.below m.left

/-- Two receivers in the same state: their maps and selections as sets are the same. -/
structure Agree (r s : ReceiverCore Addr) : Prop where
  config : r.cfg = s.cfg
  lookup : ∀ k, r.incoming.lookup k = s.incoming.lookup k
  granting : ∀ k, k ∈ r.granting ↔ k ∈ s.granting
  completed : r.completed = s.completed

/-- Both calls panic, or both return the same state and the same actions in some order. -/
inductive SameOutcome : Option (ReceiverCore Addr × List (Action Addr)) →
    Option (ReceiverCore Addr × List (Action Addr)) → Prop
  | panic : SameOutcome none none
  | returns {r s : ReceiverCore Addr} {acts acts' : List (Action Addr)} (hstate : Agree r s)
      (hacts : acts.Perm acts') : SameOutcome (some (r, acts)) (some (s, acts'))

variable {r s : ReceiverCore Addr} {now : ℕ}

theorem Agree.refl (r : ReceiverCore Addr) : Agree r r :=
  ⟨rfl, fun _ => rfl, fun _ => Iff.rfl, rfl⟩

section Selection

/-- The candidates of a round in the order of the walk. -/
theorem eq_of_candidates {order : MapOrder (MsgKey Addr)} {cands : List (MsgKey Addr × ℕ)}
    (h : r.candidates order = some cands) :
    cands = ((r.incoming.iter order).filter fun e => e.2.wantsGrant).map fun e => (e.1, e.2.left) := by
  rw [candidates_eq] at h
  split_ifs at h
  exact (Option.some.inj h).symm

theorem countP_candidates {order : MapOrder (MsgKey Addr)} {cands : List (MsgKey Addr × ℕ)}
    (h : r.candidates order = some cands) (p : ℕ → Bool) :
    (cands.countP fun c => p c.2) =
      (r.incoming.iter default).countP fun e => e.2.wantsGrant && p e.2.left := by
  rw [eq_of_candidates h, List.countP_map, List.countP_filter,
    (KeyMap.iter_perm (fun _ => rfl) order default).countP_eq]
  apply List.countP_congr
  intro e _
  simp [Bool.and_comm]

theorem mem_candidates {order : MapOrder (MsgKey Addr)} {cands : List (MsgKey Addr × ℕ)}
    (h : r.candidates order = some cands) {k : MsgKey Addr} {m : InMsg}
    (hm : r.incoming.lookup k = some m) (hw : m.wantsGrant) : (k, m.left) ∈ cands := by
  rw [eq_of_candidates h]
  exact List.mem_map.mpr ⟨(k, m), List.mem_filter.mpr ⟨KeyMap.mem_iter.mpr hm, hw⟩, rfl⟩

theorem left_of_mem_candidates {order : MapOrder (MsgKey Addr)} {cands : List (MsgKey Addr × ℕ)}
    (h : r.candidates order = some cands) {k : MsgKey Addr} {m : InMsg} {n : ℕ}
    (hm : r.incoming.lookup k = some m) (hn : (k, n) ∈ cands) : n = m.left := by
  rw [eq_of_candidates h] at hn
  obtain ⟨⟨k', m'⟩, he, heq⟩ := List.mem_map.mp hn
  obtain ⟨rfl, rfl⟩ := Prod.mk.inj heq
  have hm' := KeyMap.mem_iter.mp (List.mem_filter.mp he).1
  obtain rfl := Option.some.inj (hm.symm.trans hm')
  rfl

/-- A candidate that is not starving is selected if it is among the first. -/
theorem mem_granting_iff_shortest {order : ScheduleOrder Addr} {acts : List (Action Addr)}
    (h : r.schedule now order = some (s, acts)) {k : MsgKey Addr} {m : InMsg}
    (hm : r.incoming.lookup k = some m) (hfed : now - m.lastGrant < r.cfg.starveThreshold) :
    ∃ cands, r.candidates order.cands = some cands ∧
      (k ∈ s.granting ↔ (k, m.left) ∈ (sortBy Prod.snd cands).take (max r.cfg.overcommit 1)) := by
  obtain ⟨cands, hcands, hgranting, _⟩ := schedule_loop h
  refine ⟨cands, hcands, ?_⟩
  have hshort : k ∈ shortest (max r.cfg.overcommit 1) cands ↔
      (k, m.left) ∈ (sortBy Prod.snd cands).take (max r.cfg.overcommit 1) := by
    constructor
    · intro hk
      obtain ⟨⟨k', n⟩, hn, rfl⟩ := List.mem_map.mp hk
      have hin : (k', n) ∈ cands := mem_sortBy.mp (List.mem_of_mem_take hn)
      rwa [← left_of_mem_candidates hcands hm hin]
    · exact fun hk => List.mem_map.mpr ⟨_, hk, rfl⟩
  rw [hgranting, addStarving_eq _ _ (KeyMap.nodup_map_fst_iter _ _), List.mem_append, hshort]
  apply or_iff_left
  intro hk
  obtain ⟨⟨k', m'⟩, he, rfl⟩ := List.mem_map.mp hk
  obtain ⟨hiter, hcond⟩ := List.mem_filter.mp he
  obtain rfl := Option.some.inj (hm.symm.trans (KeyMap.mem_iter.mp hiter))
  have hlate := (of_decide_eq_true hcond).2.1
  dsimp only at hlate
  omega

/-- Where nothing hangs on a tie, the selection is the same for every order. -/
theorem mem_granting_iff (hdec : r.Decided now) {order : ScheduleOrder Addr}
    {acts : List (Action Addr)} (h : r.schedule now order = some (s, acts)) (k : MsgKey Addr) :
    k ∈ s.granting ↔ ∃ m, r.incoming.lookup k = some m ∧ m.wantsGrant ∧
      (r.cfg.starveThreshold ≤ now - m.lastGrant ∨
        r.atMost m.left ≤ max r.cfg.overcommit 1) := by
  have hs := schedule_spec h
  have hcounted := schedule_isSome.mp (h ▸ rfl : (r.schedule now order).isSome)
  have hfirst : ∀ m, r.incoming.lookup k = some m → m.wantsGrant →
      now - m.lastGrant < r.cfg.starveThreshold →
      (k ∈ s.granting ↔ r.atMost m.left ≤ max r.cfg.overcommit 1) := by
    intro m hm hw hfed
    obtain ⟨cands, hcands, hiff⟩ := mem_granting_iff_shortest h hm hfed
    have hatMost : (cands.countP fun c => decide (c.2 ≤ m.left)) = r.atMost m.left :=
      countP_candidates hcands fun n => decide (n ≤ m.left)
    have hbelow : (cands.countP fun c => decide (c.2 < m.left)) = r.below m.left :=
      countP_candidates hcands fun n => decide (n < m.left)
    have hmem : (k, m.left) ∈ sortBy Prod.snd cands :=
      mem_sortBy.mpr (mem_candidates hcands hm hw)
    have hperm : (sortBy Prod.snd cands).Perm cands := perm_sortBy cands
    rw [hiff]
    constructor
    · intro hk
      apply (hdec hcounted k m hm hw hfed).resolve_right
      intro hle
      apply (sorted_sortBy cands).notMem_take _ hk
      rwa [hperm.countP_eq, hbelow]
    · intro hle
      apply (sorted_sortBy cands).mem_take hmem
      rwa [hperm.countP_eq, hatMost]
  constructor
  · intro hk
    obtain ⟨m, hm, hw⟩ := hs.wants k hk
    refine ⟨m, hm, hw, ?_⟩
    rcases Nat.lt_or_ge (now - m.lastGrant) r.cfg.starveThreshold with hfed | hlate
    · exact Or.inr ((hfirst m hm hw hfed).mp hk)
    · exact Or.inl hlate
  · rintro ⟨m, hm, hw, hsel⟩
    rcases Nat.lt_or_ge (now - m.lastGrant) r.cfg.starveThreshold with hfed | hlate
    · exact (hfirst m hm hw hfed).mpr (hsel.resolve_left (by omega))
    · exact hs.starving k m hm hw hlate

end Selection

section Agreement

theorem Agree.mem_iff (h : Agree r s) (k : MsgKey Addr) : k ∈ r.incoming ↔ k ∈ s.incoming := by
  rw [← AList.lookup_isSome, ← AList.lookup_isSome, h.lookup]

theorem Agree.decided (h : Agree r s) (hdec : r.Decided now) : s.Decided now := by
  have hperm := KeyMap.iter_perm h.lookup default default
  have hatMost : ∀ n, r.atMost n = s.atMost n := fun n => hperm.countP_eq _
  have hbelow : ∀ n, r.below n = s.below n := fun n => hperm.countP_eq _
  intro hcounted k m hm hw hfed
  rw [← h.config] at hfed ⊢
  rw [← hatMost, ← hbelow]
  refine hdec (fun k m hm => hcounted k m ?_) k m ?_ hw hfed
  · rwa [← h.lookup]
  · rwa [h.lookup]

/-- Two rounds of scheduling agree where nothing hangs on a tie. -/
theorem Agree.schedule (h : Agree r s) (hdec : r.Decided now) (o o' : ScheduleOrder Addr) :
    SameOutcome (r.schedule now o) (s.schedule now o') := by
  have hsome : (r.schedule now o).isSome ↔ (s.schedule now o').isSome := by
    rw [schedule_isSome, schedule_isSome]
    simp only [h.lookup]
  cases hr : r.schedule now o with
  | none =>
    rw [hr] at hsome
    have hs : s.schedule now o' = none := by simpa using hsome
    rw [hs]
    exact .panic
  | some next =>
    rw [hr] at hsome
    obtain ⟨⟨s', acts'⟩, hs⟩ := Option.isSome_iff_exists.mp (hsome.mp rfl)
    obtain ⟨r', acts⟩ := next
    rw [hs]
    have hspec := schedule_spec hr
    have hspec' := schedule_spec hs
    have hgranting : ∀ k, k ∈ r'.granting ↔ k ∈ s'.granting := by
      intro k
      have hperm := KeyMap.iter_perm h.lookup default default
      have hatMost : ∀ n, r.atMost n = s.atMost n := fun n => hperm.countP_eq _
      rw [mem_granting_iff hdec hr, mem_granting_iff (h.decided hdec) hs]
      simp only [h.lookup, h.config, hatMost]
    apply SameOutcome.returns
    · constructor
      · rw [hspec.cfg, hspec'.cfg, h.config]
      · intro k
        rw [hspec.lookup, hspec'.lookup, h.lookup, h.config]
        simp only [hgranting]
      · exact hgranting
      · rw [hspec.completed, hspec'.completed, h.completed]
    · have hperm : r'.granting.Perm s'.granting :=
        (List.perm_ext_iff_of_nodup hspec.nodup hspec'.nodup).mpr hgranting
      rw [hspec.acts, hspec'.acts]
      simp only [h.lookup, h.config]
      exact hperm.flatMap_right _

theorem Agree.enter (h : Agree r s) (key : MsgKey Addr) (msg : InMsg) :
    Agree (r.enter key msg) (s.enter key msg) := by
  constructor
  · exact h.config
  · intro k
    simp only [ReceiverCore.enter, KeyMap.lookup_insert_eq, h.lookup]
  · exact h.granting
  · exact h.completed

theorem Agree.deliver (h : Agree r s) (key : MsgKey Addr) (src : Addr) (data : List UInt8) :
    Agree (r.deliver key src data).1 (s.deliver key src data).1 := by
  constructor
  · exact h.config
  · intro k
    simp only [ReceiverCore.deliver, KeyMap.lookup_erase_eq, h.lookup]
  · intro k
    simp only [ReceiverCore.deliver, List.mem_filter, h.granting]
  · simp only [ReceiverCore.deliver, h.completed]

theorem Agree.refuses (h : Agree r s) (key : MsgKey Addr) : r.refuses key = s.refuses key := by
  simp only [ReceiverCore.refuses, h.mem_iff, h.config, KeyMap.length_keys_eq h.mem_iff]

theorem Agree.entryFor (h : Agree r s) (src : Addr) (pkt : Packet) (now : ℕ) :
    r.entryFor src pkt now = s.entryFor src pkt now := by
  simp only [ReceiverCore.entryFor, h.lookup, h.config]

/-- The passes of `tick` agree, whatever the order of the keys. -/
theorem Agree.passes (h : Agree r s) (now : ℕ) (o o' : MapOrder (MsgKey Addr)) :
    Agree (Loop.forEach (tickKey now) (o.enum r.incoming.keys) r).1
        (Loop.forEach (tickKey now) (o'.enum s.incoming.keys) s).1 ∧
      (Loop.forEach (tickKey now) (o.enum r.incoming.keys) r).2.Perm
        (Loop.forEach (tickKey now) (o'.enum s.incoming.keys) s).2 := by
  have hnodup := KeyMap.nodup_enum_keys r.incoming o
  have hnodup' := KeyMap.nodup_enum_keys s.incoming o'
  have hlocal := local_tickKey r.cfg r.completed now
  have hstart : s.cfg = r.cfg ∧ s.completed = r.completed := ⟨h.config.symm, h.completed.symm⟩
  have hend := Loop.forEach_invariant hlocal.keeps (o.enum r.incoming.keys)
    (show r.cfg = r.cfg ∧ r.completed = r.completed from ⟨rfl, rfl⟩)
  have hend' := Loop.forEach_invariant hlocal.keeps (o'.enum s.incoming.keys) hstart
  have hkeys : ∀ k, k ∈ o.enum r.incoming.keys ↔ k ∈ o'.enum s.incoming.keys := by
    intro k
    rw [KeyMap.mem_enum_keys, KeyMap.mem_enum_keys, h.mem_iff]
  have hview : ∀ k, ((Loop.forEach (tickKey now) (o.enum r.incoming.keys) r).1.incoming.lookup k,
        decide (k ∈ (Loop.forEach (tickKey now) (o.enum r.incoming.keys) r).1.granting)) =
      ((Loop.forEach (tickKey now) (o'.enum s.incoming.keys) s).1.incoming.lookup k,
        decide (k ∈ (Loop.forEach (tickKey now) (o'.enum s.incoming.keys) s).1.granting)) := by
    intro k
    rw [hlocal.view_forEach hnodup ⟨rfl, rfl⟩ k, hlocal.view_forEach hnodup' hstart k]
    simp only [hkeys, h.lookup, h.granting]
  constructor
  · constructor
    · exact hend.1.trans hend'.1.symm
    · exact fun k => congrArg Prod.fst (hview k)
    · exact fun k => decide_eq_decide.mp (congrArg Prod.snd (hview k))
    · exact hend.2.trans hend'.2.symm
  · rw [hlocal.outputs_forEach hnodup ⟨rfl, rfl⟩, hlocal.outputs_forEach hnodup' hstart]
    simp only [h.lookup, h.granting]
    exact ((List.perm_ext_iff_of_nodup hnodup hnodup').mpr hkeys).flatMap_right _

theorem SameOutcome.prepend {x y : Option (ReceiverCore Addr × List (Action Addr))}
    (h : SameOutcome x y) {acts acts' : List (Action Addr)} (hacts : acts.Perm acts') :
    SameOutcome (x.map fun next => (next.1, acts ++ next.2))
      (y.map fun next => (next.1, acts' ++ next.2)) := by
  cases h with
  | panic => exact .panic
  | returns hstate hrest => exact .returns hstate (hacts.append hrest)

end Agreement

section Calls

/-- Nothing hangs on a tie when the call schedules. -/
def DecidedCall (r : ReceiverCore Addr) (c : ReceiverCall Addr) : Prop :=
  ∀ before, r.beforeSchedule c = some before → before.1.Decided c.time

/-- The state after a call. -/
def step (r : ReceiverCore Addr) (c : ReceiverCall Addr) : Option (ReceiverCore Addr) :=
  (r.call c).map Prod.fst

/-- Two runs have the same outcome after each call, until both panic. -/
def RunsAgree : List (ReceiverCall Addr) → List (ReceiverCall Addr) → ReceiverCore Addr →
    ReceiverCore Addr → Prop
  | [], [], _, _ => True
  | c :: calls, c' :: calls', r, s => SameOutcome (r.call c) (s.call c') ∧
      ∀ r' s', r.step c = some r' → s.step c' = some s' → RunsAgree calls calls' r' s'
  | _, _, _, _ => False

variable {c c' : ReceiverCall Addr}

/-- What a call does in two receivers that agree, up to the round of scheduling. -/
inductive SameStart (r s : ReceiverCore Addr) (c c' : ReceiverCall Addr) : Prop
  | ends (hsame : SameOutcome (r.call c) (s.call c')) : SameStart r s c c'
  | schedules {before before' : ReceiverCore Addr × List (Action Addr)}
      (hc : r.beforeSchedule c = some before) (hc' : s.beforeSchedule c' = some before')
      (hstate : Agree before.1 before'.1) (hacts : before.2.Perm before'.2) :
      SameStart r s c c'

theorem Agree.sameStart (h : Agree r s) (hsame : SameCall c c') : SameStart r s c c' := by
  cases hsame with
  | tick now o o' =>
    obtain ⟨hstate, hacts⟩ := h.passes now o.keys o'.keys
    exact .schedules rfl rfl hstate hacts
  | handleData src pkt payload now o o' =>
    by_cases hdup : (src, pkt.msgId) ∈ r.completed
    · apply SameStart.ends
      simp only [call, handleData, ← h.completed, if_pos hdup]
      exact .returns h (List.Perm.refl _)
    by_cases hfull : r.refuses (src, pkt.msgId)
    · apply SameStart.ends
      simp only [call, handleData, ← h.completed, ← h.refuses, if_neg hdup, if_pos hfull]
      exact .returns h (List.Perm.refl _)
    by_cases hzero : pkt.msgLen.toNat = 0
    · have hc : r.beforeSchedule (.handleData src pkt payload now o) =
          some (r.deliver (src, pkt.msgId) src []) := by
        simp [beforeSchedule, hdup, hfull, hzero]
      have hc' : s.beforeSchedule (.handleData src pkt payload now o') =
          some (s.deliver (src, pkt.msgId) src []) := by
        simp [beforeSchedule, ← h.completed, ← h.refuses, hdup, hfull, hzero]
      exact .schedules hc hc' (h.deliver ..) (List.Perm.refl _)
    cases hmsg : (r.entryFor src pkt now).accept r.cfg pkt payload now with
    | none =>
      apply SameStart.ends
      simp only [call, handleData, ← h.completed, ← h.refuses, ← h.entryFor, ← h.config,
        if_neg hdup, if_neg hfull, if_neg hzero, hmsg, Option.bind_none]
      exact .panic
    | some msg =>
      have hc : r.beforeSchedule (.handleData src pkt payload now o) =
          some (if msg.complete then r.deliver (src, pkt.msgId) src msg.buf
            else (r.enter (src, pkt.msgId) msg, [])) := by
        simp [beforeSchedule, hdup, hfull, hzero, hmsg]
      have hc' : s.beforeSchedule (.handleData src pkt payload now o') =
          some (if msg.complete then s.deliver (src, pkt.msgId) src msg.buf
            else (s.enter (src, pkt.msgId) msg, [])) := by
        simp [beforeSchedule, ← h.completed, ← h.refuses, ← h.entryFor, ← h.config, hdup, hfull,
          hzero, hmsg]
      apply SameStart.schedules hc hc'
      · split_ifs
        · exact h.deliver ..
        · exact h.enter ..
      · split_ifs
        · exact List.Perm.refl _
        · exact List.Perm.refl _

/-- Where nothing hangs on a tie, a call has the same outcome whatever the orders. -/
theorem Agree.call (h : Agree r s) (hsame : SameCall c c') (hdec : r.DecidedCall c) :
    SameOutcome (r.call c) (s.call c') := by
  have htime : c'.time = c.time := by
    cases hsame with
    | handleData => rfl
    | tick => rfl
  cases h.sameStart hsame with
  | ends hsame => exact hsame
  | schedules hc hc' hstate hacts =>
    rw [call_of_beforeSchedule hc, call_of_beforeSchedule hc', htime]
    exact (hstate.schedule (hdec _ hc) c.order c'.order).prepend hacts

theorem SameOutcome.agree {x y : Option (ReceiverCore Addr × List (Action Addr))}
    (h : SameOutcome x y) {r s : ReceiverCore Addr} (hr : x.map Prod.fst = some r)
    (hs : y.map Prod.fst = some s) : Agree r s := by
  cases h with
  | panic => cases hr
  | returns hstate hacts =>
    obtain rfl := Option.some.inj hr
    obtain rfl := Option.some.inj hs
    exact hstate

/-- A run in which nothing hangs on a tie agrees with every run over the same calls. -/
theorem Agree.run {calls calls' : List (ReceiverCall Addr)} (h : Agree r s)
    (hsame : List.Forall₂ SameCall calls calls') (hdec : Admitted step DecidedCall calls r) :
    RunsAgree calls calls' r s := by
  induction hsame generalizing r s with
  | nil => trivial
  | cons hc hcalls ih =>
    have hout := h.call hc hdec.1
    exact ⟨hout, fun r' s' hr hs => ih (hout.agree hr hs) (hdec.2 r' hr)⟩

end Calls

end ReceiverCore
end AgentTransport
