import AgentTransport.Cluster

/-!
# What goes to the wire

A drain makes calls of the queues, and sends what they hand back or pop. So the calls of all
drains of a transport are one run of the queues: between the cores and the socket no packet is
lost, doubled or made up. Control packets never wait, and packets of one priority leave in
their order. Every drain makes room for 256 packets that wait.
-/
namespace AgentTransport
open Transition

variable {Addr : Type}

def isDataPacket (x : Outgoing Addr) : Bool := TxQueues.isData x.2

/-- The calls of the queues in a drain. -/
def drainOps (acts : List (Action Addr)) : List (TxOp Addr) :=
  (sends acts).map (fun x => .classify x.1 x.2) ++ [.popBatch flushBudget]

namespace TxQueues

variable (ops ops' : List (TxOp Addr))

theorem run_append : run (ops ++ ops') =
    ((Loop.forEach step ops' (run ops).1).1,
      (run ops).2 ++ (Loop.forEach step ops' (run ops).1).2) :=
  Loop.forEach_append step ops ops' new

/-- Only DATA packets wait. -/
theorem isDataPacket_of_accepted {x : Outgoing Addr} (hx : x ∈ TxOp.accepted ops) :
    isDataPacket x = true := by
  obtain ⟨op, _, hop⟩ := List.mem_filterMap.mp hx
  cases op with
  | classify dest bytes =>
    dsimp only at hop
    split_ifs at hop with hdata
    obtain rfl := Option.some.inj hop
    exact hdata
  | popBatch budget => cases hop

theorem accepted_append :
    TxOp.accepted (ops ++ ops') = TxOp.accepted ops ++ TxOp.accepted ops' :=
  List.filterMap_append

theorem accepted_map_classify (xs : List (Outgoing Addr)) :
    TxOp.accepted (xs.map fun x => .classify x.1 x.2) = xs.filter isDataPacket := by
  induction xs with
  | nil => rfl
  | cons x xs ih =>
    unfold TxOp.accepted at ih ⊢
    by_cases hx : TxQueues.isData x.2
    · simp [isDataPacket, hx, ih]
    · simp [isDataPacket, hx, ih]

theorem accepted_drainOps (acts : List (Action Addr)) :
    TxOp.accepted (drainOps acts) = (sends acts).filter isDataPacket := by
  rw [drainOps, accepted_append, accepted_map_classify]
  exact List.append_nil _

theorem items_classify (xs : List (Outgoing Addr)) (t : TxQueues Addr) :
    (Loop.forEach step (xs.map fun x => .classify x.1 x.2) t).2.flatMap TxResult.items = [] := by
  induction xs generalizing t with
  | nil => rfl
  | cons x xs ih =>
    rw [List.map_cons, Loop.forEach_cons, List.flatMap_append, ih]
    rfl

end TxQueues

namespace State

/-- The loop of `drain` calls the queues, and sends what they hand back. -/
theorem drainLoop_queues (acts : List (Action Addr)) (now : State Addr × Bool) :
    (Loop.forEach drainOne acts now).1.1.tx =
        (Loop.forEach TxQueues.step ((sends acts).map fun x => .classify x.1 x.2) now.1.tx).1 ∧
      (Loop.forEach drainOne acts now).2 = (sends acts).filter fun x => !isDataPacket x := by
  induction acts generalizing now with
  | nil => exact ⟨rfl, rfl⟩
  | cons a acts ih =>
    obtain ⟨htx, hsent⟩ := ih (drainOne now a).1
    rw [Loop.forEach_cons]
    cases a with
    | deliver src msgId data => exact ⟨htx, hsent⟩
    | send dest bytes =>
      refine ⟨htx, ?_⟩
      dsimp only
      rw [hsent]
      by_cases hdata : TxQueues.isData bytes
      · simp [drainOne, TxQueues.classify, sends, isDataPacket, hdata]
      · simp [drainOne, TxQueues.classify, sends, isDataPacket, hdata]

/-- A drain is a list of calls of the queues. -/
theorem drain_queues (st : State Addr) (acts : List (Action Addr)) :
    (st.drain acts).state.tx = (Loop.forEach TxQueues.step (drainOps acts) st.tx).1 ∧
      (st.drain acts).sent = ((sends acts).filter fun x => !isDataPacket x) ++
        (Loop.forEach TxQueues.step (drainOps acts) st.tx).2.flatMap TxResult.items := by
  obtain ⟨htx, hsent⟩ := drainLoop_queues acts (st, false)
  unfold drainOps
  rw [Loop.forEach_append, List.flatMap_append, TxQueues.items_classify, List.nil_append]
  dsimp only
  rw [← htx]
  exact ⟨rfl, by simp [drain, hsent, TxQueues.step, TxResult.items]⟩

end State

namespace Inner

variable [DecidableEq Addr] {t t' : Inner Addr} {m : Move Addr} {out : List (Outgoing Addr)}
  {ops : List (TxOp Addr)}

/-- The calls `ops` of the queues are behind what waits and what went to the wire. -/
structure Queued (t : Inner Addr) (ops : List (TxOp Addr)) : Prop where
  tx : t.state.tx = (TxQueues.run ops).1
  accepted : TxOp.accepted ops = t.emitted.filter isDataPacket
  popped : (TxQueues.run ops).2.flatMap TxResult.items = t.wired.filter isDataPacket
  direct : (t.wired.filter fun x => !isDataPacket x) = t.emitted.filter fun x => !isDataPacket x

omit [DecidableEq Addr] in
theorem Queued.new (cfg : TransportConfig) (sendTimeout now : ℕ) :
    Queued (Inner.new cfg sendTimeout now : Inner Addr) [] := ⟨rfl, rfl, rfl, rfl⟩

omit [DecidableEq Addr] in
theorem Queued.congr (h : Queued t ops) (htx : t'.state.tx = t.state.tx)
    (hemitted : t'.emitted = t.emitted) (hwired : t'.wired = t.wired) : Queued t' ops :=
  ⟨htx.trans h.tx, by rw [hemitted, h.accepted], by rw [hwired, h.popped],
    by rw [hwired, hemitted, h.direct]⟩

omit [DecidableEq Addr] in
theorem Queued.drain (h : Queued t ops) (acts : List (Action Addr)) :
    Queued (t.drain acts).1 (ops ++ drainOps acts) := by
  obtain ⟨htx, hsent⟩ := t.state.drain_queues acts
  rw [h.tx] at htx hsent
  have hout : (t.drain acts).2 = _ := hsent
  -- what the queues give is DATA
  have hdata : ∀ x ∈ (Loop.forEach TxQueues.step (drainOps acts) (TxQueues.run ops).1).2.flatMap
      TxResult.items, isDataPacket x = true := by
    intro x hx
    refine TxQueues.isDataPacket_of_accepted (ops ++ drainOps acts) ?_
    refine (TxQueues.conserved (ops ++ drainOps acts)).subset (List.mem_append_left _ ?_)
    rw [TxQueues.run_append, List.flatMap_append]
    exact List.mem_append_right _ hx
  refine ⟨?_, ?_, ?_, ?_⟩
  · rw [TxQueues.run_append]
    exact htx
  · rw [TxQueues.accepted_append, TxQueues.accepted_drainOps, h.accepted, drain_emitted,
      List.filter_append]
  · rw [TxQueues.run_append, List.flatMap_append, h.popped, drain_wired, List.filter_append, hout,
      List.filter_append, List.filter_filter, List.filter_eq_self.mpr hdata]
    simp
  · rw [drain_wired, drain_emitted, List.filter_append, List.filter_append, h.direct, hout,
      List.filter_append, List.filter_filter]
    have hnone : (List.filter (fun x => !isDataPacket x) ((Loop.forEach TxQueues.step
        (drainOps acts) (TxQueues.run ops).1).2.flatMap TxResult.items)) = [] := by
      rw [List.filter_eq_nil_iff]
      intro x hx
      simp [hdata x hx]
    rw [hnone, List.append_nil]
    simp

theorem Queued.effect (h : Queued t ops) (he : Effect t m t' out) : ∃ ops', Queued t' ops' := by
  cases he with
  | sendTo => exact ⟨ops, h.congr rfl rfl rfl⟩
  | start => exact ⟨ops, h.congr rfl rfl rfl⟩
  | dispatch => exact ⟨_, (h.congr rfl rfl rfl : Queued (t.setPhase _ _ _) ops).drain _⟩
  | done => exact ⟨ops, h.congr rfl rfl rfl⟩
  | expired => exact ⟨ops, h.congr rfl rfl rfl⟩
  | waits => exact ⟨ops, h⟩
  | takes => exact ⟨ops, h.congr rfl rfl rfl⟩
  | nothing => exact ⟨ops, h⟩
  | quiet => exact ⟨ops, h.congr rfl rfl rfl⟩
  | socketError => exact ⟨ops, h.congr rfl rfl rfl⟩
  | @handle _ _ _ _ _ st _ acts hio hst =>
    have hstate : Queued { t with state := st, io := .looking } ops :=
      h.congr (State.handled hst).tx rfl rfl
    exact ⟨_, hstate.drain acts⟩
  | looks => exact ⟨ops, h.congr rfl rfl rfl⟩
  | passes => exact ⟨ops, h.congr rfl rfl rfl⟩
  | @tick now order orders r' acts hio hr =>
    have hstate : Queued ({ t with state := { t.state with
        sender := (t.state.sender.tick now order).1
        receiver := r' } : Inner Addr }.again) ops := h.congr rfl rfl rfl
    exact ⟨_, hstate.drain _⟩
  | shutdown => exact ⟨ops, h.congr rfl rfl rfl⟩

omit [DecidableEq Addr] in
theorem Queued.arrived {src : Addr} {bytes : List UInt8} {now : ℕ} (h : Queued t ops)
    (ha : Arrived t src bytes now t') : Queued t' ops := by
  cases ha <;> exact h.congr rfl rfl rfl

omit [DecidableEq Addr] in
/-- Between the cores and the socket nothing is lost, doubled or made up. -/
theorem Queued.perm (h : Queued t ops) :
    (t.wired ++ t.state.tx.queues.flatten).Perm t.emitted := by
  have hdata := TxQueues.conserved ops
  rw [h.popped, h.accepted, ← h.tx] at hdata
  have hwired := List.filter_append_perm isDataPacket t.wired
  have hemitted := List.filter_append_perm isDataPacket t.emitted
  rw [h.direct] at hwired
  refine (hwired.symm.append_right _).trans (List.Perm.trans ?_ hemitted)
  rw [List.append_assoc]
  refine (List.perm_append_comm.append_left _).trans ?_
  rw [← List.append_assoc]
  exact hdata.append_right _

omit [DecidableEq Addr] in
/-- Packets of one priority go to the wire in the order in which the cores gave them out. -/
theorem Queued.selected (h : Queued t ops) {sel : Outgoing Addr → Bool} {c : ℕ}
    (hdata : ∀ x, sel x = true → isDataPacket x = true)
    (hsel : ∀ x, sel x = true → TxQueues.cls x = c) :
    (t.wired ++ t.state.tx.queues.flatten).filter sel = t.emitted.filter sel := by
  have hrun := TxQueues.selected_run ops hsel
  have hpick : ∀ xs : List (Outgoing Addr), (xs.filter isDataPacket).filter sel = xs.filter sel := by
    intro xs
    rw [List.filter_filter]
    refine List.filter_congr fun x _ => ?_
    cases hx : sel x with
    | false => rfl
    | true => simp [hdata x hx]
  rw [h.popped, h.accepted, ← h.tx, List.filter_append, hpick, hpick] at hrun
  rw [List.filter_append, hrun]

/-- How many DATA packets went to the wire. -/
def gone (t : Inner Addr) : ℕ := (t.wired.filter isDataPacket).length

end Inner

namespace Cluster

variable [DecidableEq Addr] {cfg : TransportConfig} {sendTimeout : ℕ} {c c' : Cluster Addr}
  {evs evs' : List (ClusterEvent Addr)}

theorem queued (h : Run Cluster.step anyEvent (Cluster.new cfg sendTimeout) evs c) (a : Addr) :
    ∃ ops, (c.hosts a).Queued ops :=
  hosts_invariant (P := fun t => ∃ ops, t.Queued ops) ⟨[], Inner.Queued.new cfg sendTimeout 0⟩
    (fun _ _ _ _ ⟨_, ht⟩ _ he => ht.effect he) (fun _ _ _ _ _ ⟨ops, ht⟩ ha => ⟨ops, ht.arrived ha⟩)
    (run_unguarded h) a

/-- Whatever the threads do, the packets on the wire of a host and those in its queues are what
its cores gave out. The control packets went out in their order, and so did the fragments of
every message. -/
theorem wire_conserved (h : Run Cluster.step anyEvent (Cluster.new cfg sendTimeout) evs c)
    (a : Addr) :
    let t := c.hosts a
    (t.wired ++ t.state.tx.queues.flatten).Perm t.emitted ∧
      ((t.wired.filter fun x => !isDataPacket x) = t.emitted.filter fun x => !isDataPacket x) ∧
      ∀ (dest : Addr) (msgId : UInt64) (data : List UInt8) (sel : Outgoing Addr → Bool),
        (∀ x, sel x = true → ∃ i j, x = (dest, dataPacket data msgId i j)) →
        (t.wired ++ t.state.tx.queues.flatten).filter sel = t.emitted.filter sel := by
  intro t
  obtain ⟨ops, hqueued⟩ := queued h a
  refine ⟨hqueued.perm, hqueued.direct, fun dest msgId data sel hsel => ?_⟩
  refine hqueued.selected (fun x hx => ?_) (c := (priorityForLen data.length).toNat) fun x hx => ?_
  · obtain ⟨i, j, rfl⟩ := hsel x hx
    exact isData_dataPacket ..
  · obtain ⟨i, j, rfl⟩ := hsel x hx
    exact cls_dataPacket dest data msgId i j

end Cluster

/-- Host 0 sends three bytes to host 1. -/
def note : List (ClusterEvent ℕ) :=
  [.move 0 (.sendTo 1 [1, 2, 3] 0), .move 0 (.start 0), .move 0 (.dispatch 0)]

/-- The packet of the note went to the wire, and nothing waits. -/
theorem Cluster.wire_conserved_note : ∃ c : Cluster ℕ,
    exec Cluster.step note (Cluster.new tinyConfig 30) = some c ∧
    (c.hosts 0).wired = [(1, dataPacket [1, 2, 3] 1 0 3)] ∧
    let t := c.hosts 0
    (t.wired ++ t.state.tx.queues.flatten).Perm t.emitted ∧
      ((t.wired.filter fun x => !isDataPacket x) = t.emitted.filter fun x => !isDataPacket x) ∧
      ∀ (dest : ℕ) (msgId : UInt64) (data : List UInt8) (sel : Outgoing ℕ → Bool),
        (∀ x, sel x = true → ∃ i j, x = (dest, dataPacket data msgId i j)) →
        (t.wired ++ t.state.tx.queues.flatten).filter sel = t.emitted.filter sel := by
  have hout : (exec Cluster.step note (Cluster.new tinyConfig 30)).map
      (fun c => (c.hosts 0).wired) = some [(1, dataPacket [1, 2, 3] 1 0 3)] := rfl
  obtain ⟨c, hexec, heq⟩ := Option.map_eq_some_iff.mp hout
  exact ⟨c, hexec, heq, wire_conserved (run_of_exec hexec) 0⟩

namespace Cluster

variable [DecidableEq Addr] {cfg : TransportConfig} {sendTimeout : ℕ} {c c' : Cluster Addr}
  {evs evs' : List (ClusterEvent Addr)}

end Cluster
end AgentTransport
