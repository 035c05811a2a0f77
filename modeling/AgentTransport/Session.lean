import AgentTransport.Reassembly
import AgentTransport.ReceiverRun

/-!
# Runs over canonical fragments

A session is a receiver together with what it has emitted so far and, for each key,
the fragments that arrived since the current entry of the key was made. Over
canonical fragments a message is delivered by exactly the call that supplies the
last of them. Without ticks, refusals and evictions the delivered messages are those
whose fragments all occur in the run, in whatever order they came.
-/
namespace AgentTransport
open Fragmentation Transition

variable {Addr : Type} [DecidableEq Addr]

/-- A DATA packet given to the receiver, without the moment of the call. -/
def ReceiverCall.packet : ReceiverCall Addr → Option (Addr × Packet × List UInt8)
  | .handleData src pkt payload _ _ => some (src, pkt, payload)
  | .tick _ _ => none

omit [DecidableEq Addr] in
theorem ReceiverCall.eq_handleData {c : ReceiverCall Addr} {src : Addr} {x : Packet × List UInt8}
    (h : c.packet = some (src, x)) : ∃ now order, c = .handleData src x.1 x.2 now order := by
  cases c with
  | handleData src' pkt payload now order =>
    obtain ⟨rfl, rfl⟩ := Prod.mk.inj (Option.some.inj h)
    exact ⟨now, order, rfl⟩
  | tick now order => cases h

/-- The key and the fragment number of the packet of a call. -/
def ReceiverCall.fragment (ps : ℕ) (c : ReceiverCall Addr) : Option (MsgKey Addr × ℕ) :=
  c.packet.map fun p => ((p.1, p.2.1.msgId), p.2.1.offset.toNat / ps)

/-- A tick, or a canonical fragment of the message of its key. -/
def ReceiverCall.Canonical (ps : ℕ) (D : MsgKey Addr → List UInt8) : ReceiverCall Addr → Prop
  | .handleData src pkt payload _ _ => IsFragment ps (D (src, pkt.msgId)) pkt payload
  | .tick _ _ => True

structure Session (Addr : Type) where
  core : ReceiverCore Addr
  /-- Everything emitted so far. -/
  outputs : List (Action Addr)
  /-- The fragments of a key that arrived since its current entry was made. -/
  supplied : MsgKey Addr → List ℕ

namespace Session

def new (cfg : TransportConfig) : Session Addr := ⟨ReceiverCore.new cfg, [], fun _ => []⟩

/-- The record of a key after a call: empty without an entry. -/
def record (s : Session Addr) (c : ReceiverCall Addr) (r' : ReceiverCore Addr)
    (k : MsgKey Addr) : List ℕ :=
  if k ∈ r'.incoming then
    match c.fragment s.core.cfg.packetSize with
    | some (key, i) => if k = key then i :: s.supplied k else s.supplied k
    | none => s.supplied k
  else []

def step (s : Session Addr) (c : ReceiverCall Addr) : Option (Session Addr) :=
  (s.core.call c).map fun next => ⟨next.1, s.outputs ++ next.2, s.record c next.1⟩

/-- The calls of a run over canonical fragments of `D`. -/
def Canonical (D : MsgKey Addr → List UInt8) (s : Session Addr) (c : ReceiverCall Addr) : Prop :=
  c.Canonical s.core.cfg.packetSize D

/-- Fragment `i` is the one fragment of `key` still missing, and a packet with it is
neither dropped as a late duplicate nor refused. -/
def SuppliesLast (D : MsgKey Addr → List UInt8) (s : Session Addr) (key : MsgKey Addr)
    (i : ℕ) : Prop :=
  key ∉ s.core.completed ∧ s.core.refuses key = false ∧
    ∀ j < count s.core.cfg.packetSize (D key).length, j ∉ s.supplied key ↔ j = i

/-- The invariant of a session over canonical fragments of `D`. -/
structure Inv (cfg : TransportConfig) (D : MsgKey Addr → List UInt8) (s : Session Addr) :
    Prop where
  cfg_eq : s.core.cfg = cfg
  reassembles : s.core.Reassembles D
  apart : s.core.CompletedApart
  supplied : ∀ k m, s.core.incoming.lookup k = some m →
    ∀ i, m.received[i]? = some true ↔ i ∈ s.supplied k
  idle : ∀ k, k ∉ s.core.incoming → s.supplied k = []
  delivered : ∀ k data, (k, data) ∈ deliveries s.outputs → data = D k

variable {cfg : TransportConfig} {D : MsgKey Addr → List UInt8} {s s' : Session Addr}

theorem Inv.new (cfg : TransportConfig) (D : MsgKey Addr → List UInt8) :
    Inv cfg D (Session.new cfg : Session Addr) where
  cfg_eq := rfl
  reassembles k m hm := by simp [Session.new, ReceiverCore.new] at hm
  apart := ReceiverCore.CompletedApart.new cfg
  supplied k m hm := by simp [Session.new, ReceiverCore.new] at hm
  idle _ _ := rfl
  delivered k data h := by simp [Session.new, deliveries] at h

/-- The record of the entry a packet is written to. -/
theorem Inv.supplied_entryFor (h : Inv cfg D s) (src : Addr) (pkt : Packet) (now i : ℕ) :
    (s.core.entryFor src pkt now).received[i]? = some true ↔ i ∈ s.supplied (src, pkt.msgId) := by
  apply ReceiverCore.entryFor_cases (P := fun m =>
    m.received[i]? = some true ↔ i ∈ s.supplied (src, pkt.msgId))
  · intro m hm
    exact h.supplied _ m hm i
  · intro hnot
    rw [h.idle _ hnot]
    simp [InMsg.new, List.getElem?_replicate]

/-- What a fragment leads to: it completes its message exactly if it is the last. -/
theorem Inv.deliveries_data (h : Inv cfg D s) {src : Addr} {pkt : Packet} {payload : List UInt8}
    {now : ℕ} {r' : ReceiverCore Addr} {acts : List (Action Addr)}
    (hf : IsFragment s.core.cfg.packetSize (D (src, pkt.msgId)) pkt payload)
    (hd : ReceiverCore.DataStep s.core src pkt payload now r' acts) :
    (s.SuppliesLast D (src, pkt.msgId) (pkt.offset.toNat / s.core.cfg.packetSize) →
      deliveries acts = [((src, pkt.msgId), D (src, pkt.msgId))]) ∧
    (¬ s.SuppliesLast D (src, pkt.msgId) (pkt.offset.toNat / s.core.cfg.packetSize) →
      deliveries acts = []) := by
  have hps := s.core.cfg.packetSize_pos
  obtain ⟨hentry, hopen₀⟩ := h.reassembles.entryFor hf now
  obtain ⟨m', hm', hrebuilt, hbits, _⟩ := hentry.accept hf now
  have hbefore := h.supplied_entryFor src pkt now
  have hmissing : ¬ ∀ i < count s.core.cfg.packetSize (D (src, pkt.msgId)).length,
      (s.core.entryFor src pkt now).received[i]? = some true := fun hall => by
    rw [← hentry.complete_iff hps, hopen₀] at hall
    cases hall
  cases hd with
  | duplicate hdup => exact ⟨fun hlast => absurd hdup hlast.1, fun _ => rfl⟩
  | refused hlive hfull =>
    refine ⟨fun hlast => ?_, fun _ => rfl⟩
    have := hlast.2.1
    rw [hfull] at this
    cases this
  | store hlive hroom hpos hm hopen hs =>
    obtain rfl := Option.some.inj (hm.symm.trans hm')
    refine ⟨fun hlast => absurd ?_ (Bool.eq_false_iff.mp hopen), fun _ => hs.deliveries⟩
    rw [hrebuilt.complete_iff hps]
    intro i hi
    rw [hbits i, hbefore i]
    by_cases hin : i ∈ s.supplied (src, pkt.msgId)
    · exact Or.inl hin
    · exact Or.inr ((hlast.2.2 i hi).mp hin)
  | deliver hlive hroom hdata hs =>
    have hpos : 0 < (D (src, pkt.msgId)).length := Nat.lt_of_le_of_lt (Nat.zero_le _) hf.offset_lt
    rcases hdata with ⟨hzero, _⟩ | ⟨_, m, hm, hcomplete, rfl⟩
    · rw [hf.msgLen] at hzero
      omega
    obtain rfl := Option.some.inj (hm.symm.trans hm')
    have hall := (hrebuilt.complete_iff hps).mp hcomplete
    have hlast : s.SuppliesLast D (src, pkt.msgId)
        (pkt.offset.toNat / s.core.cfg.packetSize) := by
      refine ⟨hlive, hroom, fun j hj => ⟨fun hnot => ?_, fun hji hin => hmissing ?_⟩⟩
      · rcases (hbits j).mp (hall j hj) with hold | hnew
        · exact absurd ((hbefore j).mp hold) hnot
        · exact hnew
      · -- the fragment was there already, so the entry was complete before
        intro i hi
        rcases (hbits i).mp (hall i hi) with hold | hnew
        · exact hold
        · rw [hnew, ← hji]
          exact (hbefore j).mpr hin
    refine ⟨fun _ => ?_, fun hnot => absurd hlast hnot⟩
    rw [deliveries_deliver, hs.deliveries, hrebuilt.buf_eq hps hcomplete]

/-- A canonical call returns, and the session goes on with what it emitted. -/
theorem Inv.step_isSome (h : Inv cfg D s) {c : ReceiverCall Addr} (hc : s.Canonical D c) :
    (s.step c).isSome := by
  rw [step, Option.isSome_map]
  cases c with
  | handleData src pkt payload now order => exact h.reassembles.handleData_isSome hc now order
  | tick now order =>
    refine ReceiverCore.tick_isSome fun k m hm _ => ?_
    exact (h.reassembles k m hm).1.le

/-- The record of a key that the call does not touch. -/
theorem record_of_ne {c : ReceiverCall Addr} {r' : ReceiverCore Addr} {key k : MsgKey Addr}
    {i : ℕ} (hc : c.fragment s.core.cfg.packetSize = some (key, i)) (hk : k ≠ key)
    (hin : k ∈ r'.incoming) : s.record c r' k = s.supplied k := by
  rw [record, if_pos hin, hc]
  exact if_neg hk

theorem record_self {c : ReceiverCall Addr} {r' : ReceiverCore Addr} {key : MsgKey Addr}
    {i : ℕ} (hc : c.fragment s.core.cfg.packetSize = some (key, i)) (hin : key ∈ r'.incoming) :
    s.record c r' key = i :: s.supplied key := by
  rw [record, if_pos hin, hc]
  exact if_pos rfl

theorem record_tick {now : ℕ} {order : TickOrder Addr} {r' : ReceiverCore Addr} {k : MsgKey Addr}
    (hin : k ∈ r'.incoming) : s.record (.tick now order) r' k = s.supplied k := by
  rw [record, if_pos hin]
  rfl

theorem Inv.handleData (h : Inv cfg D s) {src : Addr} {pkt : Packet} {payload : List UInt8}
    {now : ℕ} {order : ScheduleOrder Addr} {r' : ReceiverCore Addr} {acts : List (Action Addr)}
    (hf : IsFragment s.core.cfg.packetSize (D (src, pkt.msgId)) pkt payload)
    (hd : ReceiverCore.DataStep s.core src pkt payload now r' acts) :
    Inv cfg D ⟨r', s.outputs ++ acts,
      s.record (.handleData src pkt payload now order) r'⟩ where
  cfg_eq := hd.cfg_eq.trans h.cfg_eq
  reassembles := h.reassembles.dataStep hf hd
  apart := h.apart.dataStep hd
  supplied k m₂ hm₂ i := by
    have hin : k ∈ r'.incoming := KeyMap.mem_iff_lookup.mpr ⟨m₂, hm₂⟩
    dsimp only
    obtain ⟨m, hsame, ⟨hm, hdup⟩ | ⟨rfl, hm, _⟩⟩ := hd.content hm₂
    · have hk : k ≠ (src, pkt.msgId) := fun hk =>
        h.apart k (hdup hk) (KeyMap.mem_iff_lookup.mpr ⟨m, hm⟩)
      rw [record_of_ne rfl hk hin, hsame.received]
      exact h.supplied k m hm i
    · obtain ⟨m', hm', _, hbits, _⟩ := (h.reassembles.entryFor hf now).1.accept hf now
      obtain rfl := Option.some.inj (hm.symm.trans hm')
      rw [record_self rfl hin, hsame.received, hbits i, h.supplied_entryFor, List.mem_cons]
      exact or_comm
  idle k hk := if_neg hk
  delivered k data hmem := by
    rw [deliveries_append, List.mem_append] at hmem
    rcases hmem with hmem | hmem
    · exact h.delivered k data hmem
    obtain ⟨hlast, hnot⟩ := h.deliveries_data hf hd
    by_cases hl : s.SuppliesLast D (src, pkt.msgId) (pkt.offset.toNat / s.core.cfg.packetSize)
    · rw [hlast hl, List.mem_singleton] at hmem
      obtain ⟨rfl, rfl⟩ := Prod.mk.inj hmem
      rfl
    · rw [hnot hl] at hmem
      cases hmem

theorem Inv.tick (h : Inv cfg D s) {now : ℕ} {order : TickOrder Addr} {r' : ReceiverCore Addr}
    {acts : List (Action Addr)} (ht : s.core.tick now order = some (r', acts)) :
    Inv cfg D ⟨r', s.outputs ++ acts, s.record (.tick now order) r'⟩ := by
  have hcfg : r'.cfg = s.core.cfg := ReceiverCore.tick_cfg ht
  refine ⟨hcfg.trans h.cfg_eq, h.reassembles.tick ht, h.apart.tick ht, ?_,
    fun k hk => if_neg hk, ?_⟩
  · intro k m' hm' i
    obtain ⟨m, hm, hsame⟩ := ReceiverCore.tick_content ht hm'
    dsimp only
    rw [record_tick (KeyMap.mem_iff_lookup.mpr ⟨m', hm'⟩), hsame.received]
    exact h.supplied k m hm i
  · intro k data hmem
    rw [deliveries_append, ReceiverCore.tick_deliveries ht, List.append_nil] at hmem
    exact h.delivered k data hmem

theorem Inv.step (h : Inv cfg D s) {c : ReceiverCall Addr} (hc : s.Canonical D c)
    (hs : s.step c = some s') : Inv cfg D s' := by
  obtain ⟨⟨r', acts⟩, hcall, rfl⟩ := Option.map_eq_some_iff.mp hs
  cases c with
  | handleData src pkt payload now order =>
    exact h.handleData hc (ReceiverCore.handleData_spec hcall)
  | tick now order => exact h.tick hcall

theorem Inv.of_run {evs : List (ReceiverCall Addr)}
    (h : Run Session.step (Session.Canonical D) (Session.new cfg) evs s) : Inv cfg D s :=
  h.invariant (fun _ _ _ hi hok hs => hi.step hok hs) (Inv.new cfg D)

/-- Fragment `i` of `key` occurs in the run. -/
def Offered (ps : ℕ) (evs : List (ReceiverCall Addr)) (key : MsgKey Addr) (i : ℕ) : Prop :=
  ∃ c ∈ evs, c.fragment ps = some (key, i)

/-- A run in which no fragment is lost at the receiver: no tick abandons a message,
no packet is refused, and no key falls out of the cache of delivered ones. -/
structure Quiet (evs : List (ReceiverCall Addr)) (outputs : List (Action Addr)) : Prop where
  no_tick : ∀ c ∈ evs, c.packet ≠ none
  no_busy : ∀ dest msgId, .send dest ((ReceiverCore.busyPacket msgId).encode []) ∉ outputs
  cached : (deliveries outputs).length ≤ completedCache

omit [DecidableEq Addr] in
theorem Quiet.of_append {evs : List (ReceiverCall Addr)} {outputs acts : List (Action Addr)}
    {c : ReceiverCall Addr} (h : Quiet (evs ++ [c]) (outputs ++ acts)) : Quiet evs outputs where
  no_tick c' hc' := h.no_tick c' (List.mem_append_left _ hc')
  no_busy dest msgId hmem := h.no_busy dest msgId (List.mem_append_left _ hmem)
  cached := by
    have hlen := h.cached
    rw [deliveries_append, List.length_append] at hlen
    omega

omit [DecidableEq Addr] in
theorem offered_append {ps : ℕ} {evs : List (ReceiverCall Addr)} {c : ReceiverCall Addr}
    {key k : MsgKey Addr} {i j : ℕ} (hc : c.fragment ps = some (key, i)) :
    Offered ps (evs ++ [c]) k j ↔ Offered ps evs k j ∨ (k = key ∧ j = i) := by
  simp only [Offered, List.mem_append, List.mem_singleton]
  constructor
  · rintro ⟨c', hc' | rfl, hfrag⟩
    · exact Or.inl ⟨c', hc', hfrag⟩
    · rw [hc, Option.some.injEq, Prod.mk.injEq] at hfrag
      exact Or.inr ⟨hfrag.1.symm, hfrag.2.symm⟩
  · rintro (⟨c', hc', hfrag⟩ | ⟨rfl, rfl⟩)
    · exact ⟨c', Or.inl hc', hfrag⟩
    · exact ⟨c, Or.inr rfl, hc⟩

/-- What a quiet run has kept: the record of an undelivered key is everything that
came for it, and every fragment of a delivered key came. -/
structure Complete (D : MsgKey Addr → List UInt8) (evs : List (ReceiverCall Addr))
    (s : Session Addr) : Prop where
  completed : s.core.completed = (deliveries s.outputs).map Prod.fst
  kept : ∀ k ∉ s.core.completed, ∀ i,
    i ∈ s.supplied k ↔ Offered s.core.cfg.packetSize evs k i
  delivered : ∀ k ∈ s.core.completed, ∀ i < count s.core.cfg.packetSize (D k).length,
    Offered s.core.cfg.packetSize evs k i

/-- The records of the other keys are those of before. -/
theorem Complete.kept_of_ne {evs : List (ReceiverCall Addr)} (h : Complete D evs s)
    (hi : Inv cfg D s) {src : Addr} {pkt : Packet} {payload : List UInt8} {now : ℕ}
    {r' : ReceiverCore Addr} {acts : List (Action Addr)}
    (hd : ReceiverCore.DataStep s.core src pkt payload now r' acts) (order : ScheduleOrder Addr)
    {k : MsgKey Addr} (hk : k ≠ (src, pkt.msgId)) (hlive : k ∉ s.core.completed) (i : ℕ) :
    i ∈ s.record (.handleData src pkt payload now order) r' k ↔
      Offered s.core.cfg.packetSize (evs ++ [.handleData src pkt payload now order]) k i := by
  have hfrag : (ReceiverCall.handleData src pkt payload now order).fragment
      s.core.cfg.packetSize =
        some ((src, pkt.msgId), pkt.offset.toNat / s.core.cfg.packetSize) := rfl
  rw [offered_append hfrag, ← h.kept k hlive i]
  by_cases hin : k ∈ r'.incoming
  · rw [record_of_ne hfrag hk hin]
    simp [hk]
  · have hidle := hi.idle k (fun hmem => hin ((hd.mem_iff hk).mpr hmem))
    rw [record, if_neg hin, hidle]
    simp [hk]

/-- As long as the cache is not full no key is dropped from it. -/
theorem Complete.completed_deliver {evs : List (ReceiverCall Addr)} (h : Complete D evs s)
    (hroom : (deliveries s.outputs).length < completedCache) (key : MsgKey Addr) (src : Addr)
    (data : List UInt8) :
    (s.core.deliver key src data).1.completed = s.core.completed ++ [key] := by
  simp only [ReceiverCore.deliver]
  rw [if_neg]
  rw [h.completed, List.length_map]
  omega

theorem Complete.handleData {evs : List (ReceiverCall Addr)} (h : Complete D evs s)
    (hi : Inv cfg D s) {src : Addr} {pkt : Packet} {payload : List UInt8} {now : ℕ}
    {order : ScheduleOrder Addr} {r' : ReceiverCore Addr} {acts : List (Action Addr)}
    (hf : IsFragment s.core.cfg.packetSize (D (src, pkt.msgId)) pkt payload)
    (hd : ReceiverCore.DataStep s.core src pkt payload now r' acts)
    (hquiet : Quiet (evs ++ [.handleData src pkt payload now order]) (s.outputs ++ acts)) :
    Complete D (evs ++ [.handleData src pkt payload now order])
      ⟨r', s.outputs ++ acts, s.record (.handleData src pkt payload now order) r'⟩ := by
  have hfrag : (ReceiverCall.handleData src pkt payload now order).fragment
      s.core.cfg.packetSize =
        some ((src, pkt.msgId), pkt.offset.toNat / s.core.cfg.packetSize) := rfl
  have hother := fun k => h.kept_of_ne hi hd order (k := k)
  have hgrow : ∀ {k i}, Offered s.core.cfg.packetSize evs k i → Offered s.core.cfg.packetSize
      (evs ++ [.handleData src pkt payload now order]) k i :=
    fun ho => (offered_append hfrag).mpr (Or.inl ho)
  have hcfg := hd.cfg_eq
  have hlast := hi.deliveries_data hf hd
  have hmem := hd.mem_iff (k := (src, pkt.msgId))
  cases hd with
  | duplicate hdup =>
    refine ⟨by simpa using h.completed, fun k hk => hother k (fun hkey => ?_) hk,
      fun k hk i hlt => hgrow (h.delivered k hk i hlt)⟩
    rw [hkey] at hk
    exact hk hdup
  | refused hlive hfull =>
    exact absurd (List.mem_append_right _ (List.mem_singleton.mpr rfl))
      (hquiet.no_busy src pkt.msgId)
  | store hlive hroom hpos hm hopen hs =>
    refine ⟨?_, ?_, ?_⟩ <;> dsimp only <;> rw [hs.completed]
    · rw [deliveries_append, hs.deliveries, List.append_nil]
      exact h.completed
    · intro k hk i
      rw [hcfg]
      by_cases hkey : k = (src, pkt.msgId)
      · subst hkey
        have hin : (src, pkt.msgId) ∈ r'.incoming := by
          rw [hs.mem_iff, ReceiverCore.enter, AList.mem_insert]
          exact Or.inl rfl
        rw [record_self hfrag hin, offered_append hfrag, ← h.kept _ hlive, List.mem_cons]
        simp [or_comm]
      · exact hother k hkey hk i
    · intro k hk i hlt
      rw [hcfg] at hlt ⊢
      exact hgrow (h.delivered k hk i hlt)
  | deliver hlive hroom hdata hs =>
    have hl : s.SuppliesLast D (src, pkt.msgId)
        (pkt.offset.toNat / s.core.cfg.packetSize) := by
      by_contra hnot
      have hnil := hlast.2 hnot
      rw [deliveries_deliver] at hnil
      cases hnil
    have hdel := hlast.1 hl
    have hlen := hquiet.cached
    rw [deliveries_append, hdel, List.length_append, List.length_singleton] at hlen
    have hcompleted : r'.completed = s.core.completed ++ [(src, pkt.msgId)] :=
      hs.completed.trans (h.completed_deliver hlen _ _ _)
    refine ⟨?_, ?_, ?_⟩ <;> dsimp only <;> rw [hcompleted]
    · rw [deliveries_append, hdel, h.completed, List.map_append]
      rfl
    · intro k hk i
      rw [List.mem_append, List.mem_singleton, not_or] at hk
      rw [hcfg]
      exact hother k hk.2 hk.1 i
    · intro k hk i hlt
      rw [hcfg] at hlt ⊢
      rcases List.mem_append.mp hk with hold | hnew
      · exact hgrow (h.delivered k hold i hlt)
      · obtain rfl := List.mem_singleton.mp hnew
        rw [offered_append hfrag, ← h.kept _ hlive]
        by_cases hin : i ∈ s.supplied (src, pkt.msgId)
        · exact Or.inl hin
        · exact Or.inr ⟨rfl, (hl.2.2 i hlt).mp hin⟩

theorem Complete.of_run {evs : List (ReceiverCall Addr)}
    (h : Run Session.step (Session.Canonical D) (Session.new cfg) evs s)
    (hquiet : Quiet evs s.outputs) : Complete D evs s := by
  induction h with
  | nil => exact ⟨rfl, fun k _ i => by simp [Session.new, Offered], fun k hk => by cases hk⟩
  | @snoc evs t u c hrun hok hstep ih =>
    obtain ⟨⟨r', acts⟩, hcall, rfl⟩ := Option.map_eq_some_iff.mp hstep
    cases c with
    | handleData src pkt payload now order =>
      exact (ih hquiet.of_append).handleData (Inv.of_run hrun) hok
        (ReceiverCore.handleData_spec hcall) hquiet
    | tick now order => exact absurd rfl (hquiet.no_tick (.tick now order) (by simp))

/-- After a quiet run the delivered messages are those that came completely. -/
theorem mem_deliveries_iff (hne : ∀ k, D k ≠ []) {evs : List (ReceiverCall Addr)}
    (h : Run Session.step (Session.Canonical D) (Session.new cfg) evs s)
    (hquiet : Quiet evs s.outputs) (k : MsgKey Addr) (data : List UInt8) :
    (k, data) ∈ deliveries s.outputs ↔
      data = D k ∧ ∀ i < count cfg.packetSize (D k).length, Offered cfg.packetSize evs k i := by
  have hi := Inv.of_run h
  have hc := Complete.of_run h hquiet
  have hmem : k ∈ s.core.completed ↔ ∃ d, (k, d) ∈ deliveries s.outputs := by
    rw [hc.completed]
    simp
  rw [← hi.cfg_eq]
  constructor
  · intro hd
    exact ⟨hi.delivered k data hd, hc.delivered k (hmem.mpr ⟨data, hd⟩)⟩
  · rintro ⟨rfl, hall⟩
    by_cases hk : k ∈ s.core.completed
    · obtain ⟨d, hd⟩ := hmem.mp hk
      rwa [hi.delivered k d hd] at hd
    · -- a key that is not delivered still misses a fragment
      exfalso
      have hrec : ∀ i < count s.core.cfg.packetSize (D k).length, i ∈ s.supplied k :=
        fun i hlt => (hc.kept k hk i).mpr (hall i hlt)
      cases hm : s.core.incoming.lookup k with
      | none =>
        have hnot : k ∉ s.core.incoming := AList.lookup_eq_none.mp hm
        have hpos := count_pos s.core.cfg.packetSize_pos (List.length_pos_of_ne_nil (hne k))
        have hzero := hrec 0 hpos
        rw [hi.idle k hnot] at hzero
        cases hzero
      | some m =>
        obtain ⟨hr, hopen⟩ := hi.reassembles k m hm
        have hfull : m.complete := (hr.complete_iff s.core.cfg.packetSize_pos).mpr fun i hlt =>
          (hi.supplied k m hm i).mpr (hrec i hlt)
        rw [hopen] at hfull
        cases hfull

omit [DecidableEq Addr] in
theorem offered_perm {ps : ℕ} {evs₁ evs₂ : List (ReceiverCall Addr)}
    (h : (evs₁.map ReceiverCall.packet).Perm (evs₂.map ReceiverCall.packet)) (k : MsgKey Addr)
    (i : ℕ) : Offered ps evs₁ k i ↔ Offered ps evs₂ k i := by
  have hform : ∀ evs : List (ReceiverCall Addr), Offered ps evs k i ↔
      ∃ p ∈ evs.map ReceiverCall.packet,
        p.map (fun p => ((p.1, p.2.1.msgId), p.2.1.offset.toNat / ps)) = some (k, i) := by
    intro evs
    simp only [Offered, ReceiverCall.fragment, List.mem_map, exists_exists_and_eq_and]
  rw [hform, hform]
  exact exists_congr fun p => and_congr_left fun _ => h.mem_iff

/-- What a call of a session delivers. -/
theorem Inv.mem_deliveries_call (h : Inv cfg D s) {c : ReceiverCall Addr} (hc : s.Canonical D c)
    {r' : ReceiverCore Addr} {acts : List (Action Addr)} (hcall : s.core.call c = some (r', acts)) :
    (deliveries acts).length ≤ 1 ∧ ∀ key data, (key, data) ∈ deliveries acts ↔
      data = D key ∧ ∃ i, c.fragment s.core.cfg.packetSize = some (key, i) ∧
        s.SuppliesLast D key i := by
  cases c with
  | tick now order =>
    have hnone : (ReceiverCall.tick now order).fragment s.core.cfg.packetSize = none := rfl
    rw [ReceiverCore.tick_deliveries hcall, hnone]
    simp
  | handleData src pkt payload now order =>
    have hfrag : (ReceiverCall.handleData src pkt payload now order).fragment
        s.core.cfg.packetSize =
          some ((src, pkt.msgId), pkt.offset.toNat / s.core.cfg.packetSize) := rfl
    obtain ⟨hlast, hnot⟩ := h.deliveries_data hc (ReceiverCore.handleData_spec hcall)
    rw [hfrag]
    by_cases hl : s.SuppliesLast D (src, pkt.msgId) (pkt.offset.toNat / s.core.cfg.packetSize)
    · rw [hlast hl]
      refine ⟨Nat.le_refl 1, fun key data => ?_⟩
      rw [List.mem_singleton, Prod.mk.injEq]
      constructor
      · rintro ⟨rfl, rfl⟩
        exact ⟨rfl, _, rfl, hl⟩
      · rintro ⟨rfl, i, hi, _⟩
        obtain ⟨rfl, _⟩ := Prod.mk.inj (Option.some.inj hi)
        exact ⟨rfl, rfl⟩
    · rw [hnot hl]
      refine ⟨Nat.zero_le 1, fun key data => ⟨fun hmem => absurd hmem List.not_mem_nil, ?_⟩⟩
      rintro ⟨_, i, hi, hsup⟩
      obtain ⟨rfl, rfl⟩ := Prod.mk.inj (Option.some.inj hi)
      exact absurd hsup hl

/-- Reassembly is exact. Over canonical fragments no call panics, what is delivered for
a key is its message, and a call delivers if and only if it supplies the last missing
fragment. Quiet runs over the same packets deliver the same messages. -/
theorem reassembly_exact (cfg : TransportConfig) (D : MsgKey Addr → List UInt8)
    (hne : ∀ k, D k ≠ []) :
    (∀ evs s, Run Session.step (Session.Canonical D) (Session.new cfg) evs s →
      (∀ k data, (k, data) ∈ deliveries s.outputs → data = D k) ∧
      ∀ c, s.Canonical D c → ∃ r' acts, s.core.call c = some (r', acts) ∧
        s.step c = some ⟨r', s.outputs ++ acts, s.record c r'⟩ ∧
        (deliveries acts).length ≤ 1 ∧ ∀ key data, (key, data) ∈ deliveries acts ↔
          data = D key ∧ ∃ i, c.fragment cfg.packetSize = some (key, i) ∧
            s.SuppliesLast D key i) ∧
    ∀ evs₁ evs₂ s₁ s₂, Run Session.step (Session.Canonical D) (Session.new cfg) evs₁ s₁ →
      Run Session.step (Session.Canonical D) (Session.new cfg) evs₂ s₂ →
      (evs₁.map ReceiverCall.packet).Perm (evs₂.map ReceiverCall.packet) →
      Quiet evs₁ s₁.outputs → Quiet evs₂ s₂.outputs →
      ∀ k data, (k, data) ∈ deliveries s₁.outputs ↔ (k, data) ∈ deliveries s₂.outputs := by
  refine ⟨fun evs s hrun => ?_, fun evs₁ evs₂ s₁ s₂ hrun₁ hrun₂ hperm hq₁ hq₂ k data => ?_⟩
  · have hi := Inv.of_run hrun
    refine ⟨hi.delivered, fun c hc => ?_⟩
    obtain ⟨s', hs'⟩ := Option.isSome_iff_exists.mp (hi.step_isSome hc)
    obtain ⟨⟨r', acts⟩, hcall, _⟩ := Option.map_eq_some_iff.mp hs'
    refine ⟨r', acts, hcall, by rw [step, hcall]; rfl, ?_⟩
    rw [← hi.cfg_eq]
    exact hi.mem_deliveries_call hc hcall
  · rw [mem_deliveries_iff hne hrun₁ hq₁, mem_deliveries_iff hne hrun₂ hq₂]
    exact and_congr_right fun _ => forall₂_congr fun i _ => offered_perm hperm k i

/-- Fragments of four bytes, and a window of eight. -/
def wideConfig : TransportConfig := { tinyConfig with unscheduledBytes := 8 }

/-- Fragment 0 and fragment 1 of a message of five bytes. -/
def firstOfFive : ReceiverCall ℕ := .handleData 0 ⟨.data, 0, 1, 5, 0, 4⟩ [1, 2, 3, 4] 0 default

def lastOfFive : ReceiverCall ℕ := .handleData 0 ⟨.data, 0, 1, 5, 4, 1⟩ [5] 0 default

theorem reassembly_exact_five : ∃ s₁ s₂,
    exec Session.step [firstOfFive, lastOfFive] (Session.new wideConfig) = some s₁ ∧
    exec Session.step [lastOfFive, firstOfFive] (Session.new wideConfig) = some s₂ ∧
    ∀ k data, (k, data) ∈ deliveries s₁.outputs ↔ (k, data) ∈ deliveries s₂.outputs := by
  have hfirst : firstOfFive.Canonical 4 fun _ => [1, 2, 3, 4, 5] :=
    ⟨rfl, by decide, by decide, rfl⟩
  have hlast : lastOfFive.Canonical 4 fun _ => [1, 2, 3, 4, 5] :=
    ⟨rfl, by decide, by decide, rfl⟩
  have hout₁ : (exec Session.step [firstOfFive, lastOfFive] (Session.new wideConfig)).map
      Session.outputs = some [.deliver 0 1 [1, 2, 3, 4, 5]] := rfl
  have hout₂ : (exec Session.step [lastOfFive, firstOfFive] (Session.new wideConfig)).map
      Session.outputs = some [.deliver 0 1 [1, 2, 3, 4, 5]] := rfl
  have hquiet : ∀ evs : List (ReceiverCall ℕ), (∀ c ∈ evs, c.packet ≠ none) →
      Quiet evs [.deliver 0 1 [1, 2, 3, 4, 5]] := by
    intro evs hevs
    refine ⟨hevs, fun dest msgId hmem => ?_, Nat.le_of_ble_eq_true rfl⟩
    cases List.mem_singleton.mp hmem
  have hadm : ∀ c c' : ReceiverCall ℕ, c.Canonical 4 (fun _ => [1, 2, 3, 4, 5]) →
      c'.Canonical 4 (fun _ => [1, 2, 3, 4, 5]) →
      Admitted Session.step (Session.Canonical fun _ => [1, 2, 3, 4, 5]) [c, c']
        (Session.new wideConfig) := by
    intro c c' hc hc'
    refine ⟨hc, fun t ht => ⟨?_, fun _ _ => trivial⟩⟩
    rw [Canonical, ((Inv.new wideConfig _).step hc ht).cfg_eq]
    exact hc'
  obtain ⟨s₁, hs₁, ho₁⟩ := Option.map_eq_some_iff.mp hout₁
  obtain ⟨s₂, hs₂, ho₂⟩ := Option.map_eq_some_iff.mp hout₂
  refine ⟨s₁, s₂, hs₁, hs₂, ?_⟩
  apply (reassembly_exact wideConfig (fun _ => [1, 2, 3, 4, 5]) (by simp)).2 _ _ s₁ s₂
    (run_of_admitted hs₁ (hadm _ _ hfirst hlast)) (run_of_admitted hs₂ (hadm _ _ hlast hfirst))
    (List.Perm.swap _ _ [])
  · rw [ho₁]
    exact hquiet _ (by simp [firstOfFive, lastOfFive, ReceiverCall.packet])
  · rw [ho₂]
    exact hquiet _ (by simp [firstOfFive, lastOfFive, ReceiverCall.packet])

end Session
end AgentTransport
