import AgentTransport.StableQueue
import AgentTransport.SenderRun

/-!
# Sending queues

DATA packets wait in one queue for each priority, read from the second byte of the
datagram. Everything else is handed back to be sent at once. A flush takes packets from
the queues in the order of their priorities. To its callers all this is one stable
priority queue.
-/
namespace AgentTransport
open StableSort StableQueue

/-- A packet and where it goes. -/
abbrev Outgoing (Addr : Type) := Addr × List UInt8

structure TxQueues (Addr : Type) where
  queues : List (List (Outgoing Addr))
  length_queues : queues.length = numPriorities

namespace TxQueues

variable {Addr : Type}

def new : TxQueues Addr := ⟨List.replicate numPriorities [], List.length_replicate⟩

/-- The test for a DATA packet. Only the type byte counts, and that a priority follows. -/
def isData (bytes : List UInt8) : Bool :=
  decide (2 ≤ bytes.length) && bytes.getD 0 0 == PacketType.data.toU8

/-- The queue of a DATA packet: its priority, at most the last one. -/
def prio (bytes : List UInt8) : ℕ := min (bytes.getD 1 0).toNat (numPriorities - 1)

/-- Queue a DATA packet, hand anything else back. -/
def classify (t : TxQueues Addr) (dest : Addr) (bytes : List UInt8) :
    TxQueues Addr × Option (Outgoing Addr) :=
  if isData bytes then
    ({ queues := t.queues.modify (prio bytes) (· ++ [(dest, bytes)])
       length_queues := by rw [List.length_modify, t.length_queues] }, none)
  else (t, some (dest, bytes))

section Loops

variable {α : Type} (budget : ℕ)

/-- The inner loop of `pop_batch`. -/
def popQueue : List α → List α → List α × List α
  | out, [] => (out, [])
  | out, item :: q =>
    if out.length < budget then popQueue (out ++ [item]) q else (out, item :: q)

/-- The outer loop of `pop_batch`. -/
def popQueues : List α → List (List α) → List α × List (List α)
  | out, [] => (out, [])
  | out, q :: qs =>
    let popped := popQueue budget out q
    if budget ≤ popped.1.length then (popped.1, popped.2 :: qs)
    else
      let rest := popQueues popped.1 qs
      (rest.1, popped.2 :: rest.2)

theorem popQueue_eq (out q : List α) :
    popQueue budget out q =
      (out ++ q.take (budget - out.length), q.drop (budget - out.length)) := by
  induction q generalizing out with
  | nil => simp [popQueue]
  | cons item q ih =>
    rw [popQueue]
    split_ifs with hlt
    · have hstep : budget - out.length = budget - (out ++ [item]).length + 1 := by
        rw [List.length_append, List.length_singleton]
        omega
      rw [ih, hstep, List.take_succ_cons, List.drop_succ_cons, List.append_assoc]
      rfl
    · rw [Nat.sub_eq_zero_of_le (Nat.le_of_not_lt hlt)]
      simp

/-- A flush takes from the front of the queues one after another. -/
theorem popQueues_eq (out : List α) (qs : List (List α)) :
    popQueues budget out qs =
      (out ++ qs.flatten.take (budget - out.length), dropFront (budget - out.length) qs) := by
  induction qs generalizing out with
  | nil => simp [popQueues, dropFront]
  | cons q qs ih =>
    have hlen : (out ++ q.take (budget - out.length)).length =
        out.length + min (budget - out.length) q.length := by simp
    rw [popQueues, popQueue_eq]
    dsimp only
    split_ifs with hfull
    · have hle : budget - out.length ≤ q.length := by omega
      rw [List.flatten_cons, List.take_append_of_le_length hle, dropFront,
        Nat.sub_eq_zero_of_le hle, dropFront_zero]
    · have hlt : q.length < budget - out.length := by omega
      have hnext : budget - (out ++ q.take (budget - out.length)).length =
          budget - out.length - q.length := by omega
      rw [ih, hnext, List.flatten_cons, List.take_append, List.append_assoc, dropFront]

end Loops

/-- Take at most `budget` packets, the highest priority first. -/
def popBatch (t : TxQueues Addr) (budget : ℕ) : TxQueues Addr × List (Outgoing Addr) :=
  ({ queues := (popQueues budget [] t.queues).2
     length_queues := by rw [popQueues_eq, length_dropFront, t.length_queues] },
    (popQueues budget [] t.queues).1)

def isEmpty (t : TxQueues Addr) : Bool := t.queues.all List.isEmpty

/-- How many packets are waiting. -/
def backlog (t : TxQueues Addr) : ℕ := (t.queues.map List.length).sum

theorem backlog_eq (t : TxQueues Addr) : t.backlog = t.queues.flatten.length :=
  List.length_flatten.symm

theorem isEmpty_iff_backlog (t : TxQueues Addr) : t.isEmpty ↔ t.backlog = 0 := by
  simp [isEmpty, backlog, List.sum_eq_zero_iff]

end TxQueues

/-- The calls of the queues. -/
inductive TxOp (Addr : Type) where
  | classify (dest : Addr) (bytes : List UInt8)
  | popBatch (budget : ℕ)

/-- What the calls return. -/
inductive TxResult (Addr : Type) where
  | classified (handedBack : Option (Outgoing Addr))
  | batch (items : List (Outgoing Addr))
  deriving DecidableEq, Repr

namespace TxResult

variable {Addr : Type}

/-- The packets a result takes out of the queues. -/
def items : TxResult Addr → List (Outgoing Addr)
  | .classified _ => []
  | .batch items => items

end TxResult

namespace TxQueues

variable {Addr : Type}

/-- One call and its result. -/
def step (t : TxQueues Addr) : TxOp Addr → TxQueues Addr × List (TxResult Addr)
  | .classify dest bytes => ((t.classify dest bytes).1, [.classified (t.classify dest bytes).2])
  | .popBatch budget => ((t.popBatch budget).1, [.batch (t.popBatch budget).2])

/-- The priority of a packet as the abstract queue sees it. -/
def cls (x : Outgoing Addr) : ℕ := prio x.2

theorem cls_lt (x : Outgoing Addr) : cls x < numPriorities := by
  simp only [cls, prio, numPriorities]
  omega

end TxQueues

namespace TxOp

variable {Addr : Type}

/-- The packets that the calls put into the queues. -/
def accepted (ops : List (TxOp Addr)) : List (Outgoing Addr) :=
  ops.filterMap fun
    | .classify dest bytes => if TxQueues.isData bytes then some (dest, bytes) else none
    | .popBatch _ => none

/-- What a call does to the abstract queue. -/
def toOp : TxOp Addr → Option (Op (Outgoing Addr))
  | .classify dest bytes => if TxQueues.isData bytes then some (.accept (dest, bytes)) else none
  | .popBatch budget => some (.pop budget)

/-- What the abstract queue answers: a DATA packet is kept, anything else is handed back
unchanged, and a pop returns the first packets of the stable sort. -/
def answer (w : Waiting (Outgoing Addr)) : TxOp Addr → TxResult Addr
  | .classify dest bytes => .classified (if TxQueues.isData bytes then none else some (dest, bytes))
  | .popBatch budget => .batch ((w.batch TxQueues.cls budget).map Prod.snd)

/-- One call of the abstract queue and its answer. -/
def serve (w : Waiting (Outgoing Addr)) (op : TxOp Addr) :
    Waiting (Outgoing Addr) × List (TxResult Addr) :=
  (w.run TxQueues.cls op.toOp.toList, [op.answer w])

end TxOp

namespace TxQueues

variable {Addr : Type} {t : TxQueues Addr} {w : Waiting (Outgoing Addr)}

/-- The queues hold the waiting packets class by class. -/
def Holds (t : TxQueues Addr) (w : Waiting (Outgoing Addr)) : Prop :=
  t.queues = (classes (fun e => cls e.2) numPriorities w.pending).map (List.map Prod.snd)

theorem holds_new : Holds (new : TxQueues Addr) Waiting.empty := by
  simp [Holds, new, Waiting.empty, classes, List.map_const']

theorem Holds.flatten_queues (h : Holds t w) :
    t.queues.flatten = (w.order cls).map Prod.snd := by
  have hall : ∀ e ∈ w.pending, cls e.2 < numPriorities := fun e _ => cls_lt e.2
  rw [h, ← List.map_flatten, flatten_classes hall]
  rfl

theorem Holds.backlog (h : Holds t w) : t.backlog = w.pending.length := by
  rw [backlog_eq, h.flatten_queues, List.length_map, w.perm_order.length_eq]

/-- A packet goes to the end of its queue. -/
theorem Holds.classify (h : Holds t w) {dest : Addr} {bytes : List UInt8}
    (hdata : isData bytes) : Holds (t.classify dest bytes).1 (w.accept (dest, bytes)) := by
  unfold Holds at h ⊢
  rw [TxQueues.classify, if_pos hdata, Waiting.accept, classes_concat]
  apply List.ext_getElem?
  intro c
  simp only [List.getElem?_map, List.getElem?_modify, h]
  cases (classes (fun e => cls e.2) numPriorities w.pending)[c]? with
  | none => rfl
  | some q =>
    by_cases hc : prio bytes = c
    · simp [cls, hc]
    · simp [cls, hc]

/-- A flush takes what the abstract queue takes. -/
theorem Holds.popBatch (h : Holds t w) (hw : w.Inv cls) (budget : ℕ) :
    Holds (t.popBatch budget).1 (w.pop cls budget) ∧
      (t.popBatch budget).2 = (w.batch cls budget).map Prod.snd := by
  have hall : ∀ e ∈ w.pending, cls e.2 < numPriorities := fun e _ => cls_lt e.2
  constructor
  · have hclasses : classes (fun e => cls e.2) numPriorities (w.pop cls budget).pending =
        classes (fun e => cls e.2) numPriorities ((w.order cls).drop budget) := by
      simp only [classes, hw.filter_pending_pop]
    unfold Holds
    rw [hclasses, Waiting.order, ← dropFront_classes hall, ← dropFront_map, ← h]
    simp [TxQueues.popBatch, popQueues_eq]
  · simp [TxQueues.popBatch, popQueues_eq, h.flatten_queues, Waiting.batch_eq, List.map_take]

theorem Holds.step (h : Holds t w) (hw : w.Inv cls) (op : TxOp Addr) :
    Holds (t.step op).1 (op.serve w).1 ∧ (t.step op).2 = (op.serve w).2 := by
  cases op with
  | classify dest bytes =>
    by_cases hdata : isData bytes
    · constructor
      · simp only [TxQueues.step, TxOp.serve, TxOp.toOp, if_pos hdata, Option.toList_some]
        exact h.classify hdata
      · simp [TxQueues.step, TxOp.serve, TxOp.answer, TxQueues.classify, hdata]
    · constructor
      · simp only [TxQueues.step, TxOp.serve, TxOp.toOp, if_neg hdata, Option.toList_none,
          TxQueues.classify]
        exact h
      · simp [TxQueues.step, TxOp.serve, TxOp.answer, TxQueues.classify, hdata]
  | popBatch budget =>
    obtain ⟨hholds, hbatch⟩ := h.popBatch hw budget
    constructor
    · exact hholds
    · simp only [TxQueues.step, TxOp.serve, TxOp.answer, hbatch]

/-- The calls `ops` on empty queues, and what they return. -/
def run (ops : List (TxOp Addr)) : TxQueues Addr × List (TxResult Addr) := Loop.forEach step ops new

end TxQueues

namespace TxOp

variable {Addr : Type} {w : Waiting (Outgoing Addr)}

/-- The same calls on the abstract queue. -/
def spec (ops : List (TxOp Addr)) : Waiting (Outgoing Addr) × List (TxResult Addr) :=
  Loop.forEach serve ops Waiting.empty

theorem forEach_serve (ops : List (TxOp Addr)) (w : Waiting (Outgoing Addr)) :
    (Loop.forEach serve ops w).1 = w.run TxQueues.cls (ops.filterMap toOp) := by
  induction ops generalizing w with
  | nil => rfl
  | cons op ops ih =>
    rw [Loop.forEach_cons, ih, List.filterMap_cons, serve]
    cases op.toOp with
    | none => rfl
    | some op' => rfl

theorem spec_inv (ops : List (TxOp Addr)) : (spec ops).1.Inv TxQueues.cls := by
  rw [spec, forEach_serve]
  exact Waiting.Inv.empty.run _

theorem spec_append (ops ops' : List (TxOp Addr)) :
    (spec (ops ++ ops')).1 = (spec ops).1.run TxQueues.cls (ops'.filterMap toOp) := by
  rw [spec, spec, forEach_serve, forEach_serve, List.filterMap_append, Waiting.run,
    List.foldl_append]
  rfl

theorem arrived_forEach (ops : List (TxOp Addr)) (w : Waiting (Outgoing Addr)) :
    (Loop.forEach serve ops w).1.arrived = w.arrived ++ accepted ops := by
  induction ops generalizing w with
  | nil => simp [accepted]
  | cons op ops ih =>
    rw [Loop.forEach_cons, ih]
    cases op with
    | classify dest bytes =>
      by_cases hdata : TxQueues.isData bytes
      · simp [serve, toOp, accepted, hdata, Waiting.run, Waiting.step, Waiting.accept]
      · simp [serve, toOp, accepted, hdata, Waiting.run]
    | popBatch budget => simp [serve, toOp, accepted, Waiting.run, Waiting.step, Waiting.pop]

theorem popped_forEach (ops : List (TxOp Addr)) (w : Waiting (Outgoing Addr)) :
    (Loop.forEach serve ops w).1.popped.map Prod.snd =
      w.popped.map Prod.snd ++ (Loop.forEach serve ops w).2.flatMap TxResult.items := by
  induction ops generalizing w with
  | nil => simp
  | cons op ops ih =>
    rw [Loop.forEach_cons, ih]
    cases op with
    | classify dest bytes =>
      by_cases hdata : TxQueues.isData bytes
      · simp [serve, toOp, answer, TxResult.items, hdata, Waiting.run, Waiting.step,
          Waiting.accept]
      · simp [serve, toOp, answer, TxResult.items, hdata, Waiting.run]
    | popBatch budget =>
      simp [serve, toOp, answer, TxResult.items, Waiting.run, Waiting.step, Waiting.pop]

end TxOp

namespace TxQueues

variable {Addr : Type} {t : TxQueues Addr} {w : Waiting (Outgoing Addr)}

/-- The queues and the abstract queue go through a list of calls together. -/
theorem Holds.forEach (h : Holds t w) (hw : w.Inv cls) (ops : List (TxOp Addr)) :
    Holds (Loop.forEach TxQueues.step ops t).1 (Loop.forEach TxOp.serve ops w).1 ∧
      (Loop.forEach TxQueues.step ops t).2 = (Loop.forEach TxOp.serve ops w).2 := by
  induction ops generalizing t w with
  | nil => exact ⟨h, rfl⟩
  | cons op ops ih =>
    obtain ⟨hholds, hresult⟩ := h.step hw op
    have hinv : (op.serve w).1.Inv cls := hw.run _
    obtain ⟨hend, hrest⟩ := ih hholds hinv
    simp only [Loop.forEach_cons]
    exact ⟨hend, by rw [hresult, hrest]⟩

theorem holds_run (ops : List (TxOp Addr)) : Holds (run ops).1 (TxOp.spec ops).1 :=
  (holds_new.forEach Waiting.Inv.empty ops).1

theorem results_run (ops : List (TxOp Addr)) : (run ops).2 = (TxOp.spec ops).2 :=
  (holds_new.forEach Waiting.Inv.empty ops).2

/-- The packets a run has taken out, as the abstract queue saw them go. -/
theorem items_run (ops : List (TxOp Addr)) :
    (run ops).2.flatMap TxResult.items = (TxOp.spec ops).1.popped.map Prod.snd := by
  rw [results_run, TxOp.spec, TxOp.popped_forEach]
  rfl

theorem arrived_spec (ops : List (TxOp Addr)) :
    (TxOp.spec ops).1.arrived = TxOp.accepted ops := TxOp.arrived_forEach ops Waiting.empty

/-- No accepted packet is lost, and none is duplicated. -/
theorem conserved (ops : List (TxOp Addr)) :
    ((run ops).2.flatMap TxResult.items ++ (run ops).1.queues.flatten).Perm
      (TxOp.accepted ops) := by
  have hinv := TxOp.spec_inv ops
  have hall := hinv.conserved.map Prod.snd
  rw [map_snd_numbered, arrived_spec, List.map_append] at hall
  rw [items_run, (holds_run ops).flatten_queues]
  exact (((TxOp.spec ops).1.perm_order.map Prod.snd).append_left _).trans hall

/-- The accepted packets of one priority leave in the order in which they came. -/
theorem selected_run (ops : List (TxOp Addr)) {sel : Outgoing Addr → Bool} {c : ℕ}
    (hsel : ∀ x, sel x = true → cls x = c) :
    ((run ops).2.flatMap TxResult.items ++ (run ops).1.queues.flatten).filter sel =
      (TxOp.accepted ops).filter sel := by
  have hall := (TxOp.spec_inv ops).selected hsel
  rw [arrived_spec, List.map_append, List.filter_append] at hall
  rw [items_run, (holds_run ops).flatten_queues, List.filter_append,
    Waiting.selected_order hsel, hall]

end TxQueues

section Egress

variable {Addr : Type} [DecidableEq Addr]

/-- What a host sends: the packets of its sender core, control packets of its receiver core,
and flushes between them. -/
inductive EgressOp (Addr : Type) where
  | call (c : SenderCall Addr)
  | control (dest : Addr) (pkt : Packet) (hcontrol : pkt.typ ≠ .data)
  | flush (budget : ℕ)

/-- The packets that actions send, in their order. -/
def sends (acts : List (Action Addr)) : List (Outgoing Addr) :=
  acts.filterMap fun
    | .send dest bytes => some (dest, bytes)
    | .deliver _ _ _ => none

namespace EgressOp

/-- The sender core after an operation. -/
def next (s : SenderCore Addr) : EgressOp Addr → SenderCore Addr
  | .call c => (s.call c).1
  | _ => s

/-- The fragments that an operation makes the sender core emit. -/
def fragments (s : SenderCore Addr) : EgressOp Addr → List (Outgoing Addr)
  | .call c => sends (s.call c).2
  | _ => []

/-- The calls of the queues. Packets are classified in the order of their emission. -/
def txOps (s : SenderCore Addr) : EgressOp Addr → List (TxOp Addr)
  | .call c => (sends (s.call c).2).map fun x => .classify x.1 x.2
  | .control dest pkt _ => [.classify dest (pkt.encode [])]
  | .flush budget => [.popBatch budget]

end EgressOp

/-- The calls of the queues that a host makes. -/
def egress : SenderCore Addr → List (EgressOp Addr) → List (TxOp Addr)
  | _, [] => []
  | s, op :: ops => op.txOps s ++ egress (op.next s) ops

/-- The fragments that the sender core of a host emits. -/
def emitted : SenderCore Addr → List (EgressOp Addr) → List (Outgoing Addr)
  | _, [] => []
  | s, op :: ops => op.fragments s ++ emitted (op.next s) ops

theorem isData_encode (p : Packet) (q : List UInt8) :
    TxQueues.isData (p.encode q) = decide (p.typ = .data) := by
  have htype : (p.encode q).getD 0 0 = p.typ.toU8 := rfl
  have hlen : 2 ≤ (p.encode q).length := by
    rw [Packet.length_encode, headerLen]
    omega
  rw [TxQueues.isData, htype, decide_eq_true hlen, Bool.true_and]
  cases p.typ <;> rfl

theorem isData_dataPacket (data : List UInt8) (msgId : UInt64) (a b : ℕ) :
    TxQueues.isData (dataPacket data msgId a b) = true := by
  rw [dataPacket_eq, isData_encode]
  rfl

theorem priorityForLen_lt (len : ℕ) : (priorityForLen len).toNat < numPriorities := by
  unfold priorityForLen
  cases hlevel : thresholds.findIdx? fun upper => decide (len ≤ upper) with
  | none => decide
  | some i =>
    have hi : i < 8 := (List.findIdx?_eq_some_iff_getElem.mp hlevel).1
    rw [UInt8.toNat_ofNat']
    simp only [numPriorities]
    omega

omit [DecidableEq Addr] in
/-- A fragment waits in the queue of the length of its message. -/
theorem cls_dataPacket (dest : Addr) (data : List UInt8) (msgId : UInt64) (a b : ℕ) :
    TxQueues.cls (dest, dataPacket data msgId a b) = (priorityForLen data.length).toNat := by
  have hprio : (dataPacket data msgId a b).getD 1 0 = priorityForLen data.length := rfl
  have hlt := priorityForLen_lt data.length
  simp only [TxQueues.cls, TxQueues.prio, hprio]
  omega

/-- Everything the sender core sends is a DATA packet. -/
theorem isData_of_mem_sends {s : SenderCore Addr} {c : SenderCall Addr} {x : Outgoing Addr}
    (hx : x ∈ sends (s.call c).2) : TxQueues.isData x.2 = true := by
  obtain ⟨a, ha, hsend⟩ := List.mem_filterMap.mp hx
  obtain ⟨key, data, r, _, rfl⟩ := SenderCore.mem_call.mp ha
  obtain rfl := Option.some.inj hsend
  exact isData_dataPacket ..

omit [DecidableEq Addr] in
theorem accepted_classify {xs : List (Outgoing Addr)}
    (h : ∀ x ∈ xs, TxQueues.isData x.2 = true) :
    TxOp.accepted (xs.map fun x => .classify x.1 x.2) = xs := by
  induction xs with
  | nil => rfl
  | cons x xs ih =>
    obtain ⟨hx, hxs⟩ := List.forall_mem_cons.mp h
    have ih := ih hxs
    unfold TxOp.accepted at ih ⊢
    simp only [List.map_cons, List.filterMap_cons, hx, if_true, ih]

/-- The queues take the fragments of the sender core in the order of emission, and nothing
else. -/
theorem accepted_egress (s : SenderCore Addr) (ops : List (EgressOp Addr)) :
    TxOp.accepted (egress s ops) = emitted s ops := by
  induction ops generalizing s with
  | nil => rfl
  | cons op ops ih =>
    have happend : ∀ a b : List (TxOp Addr), TxOp.accepted (a ++ b) =
        TxOp.accepted a ++ TxOp.accepted b := fun a b => List.filterMap_append
    rw [egress, emitted, happend, ih]
    congr 1
    cases op with
    | call c => exact accepted_classify fun x hx => isData_of_mem_sends hx
    | control dest pkt hcontrol =>
      have hnot : TxQueues.isData (pkt.encode []) = false := by
        rw [isData_encode]
        exact decide_eq_false hcontrol
      simp [EgressOp.txOps, EgressOp.fragments, TxOp.accepted, hnot]
    | flush budget => rfl

end Egress

namespace TxQueues

variable {Addr : Type} [DecidableEq Addr]

omit [DecidableEq Addr] in
/-- A fragment of a shorter message overtakes what waits in a lower queue. -/
theorem fragment_overtakes (ops ops' : List (TxOp Addr)) {dest dest' : Addr}
    {msgId msgId' : UInt64} {data data' : List UInt8} {a b a' b' n : ℕ}
    (hwaiting : (n, (dest', dataPacket data' msgId' a' b')) ∈ (TxOp.spec ops).1.pending)
    (hprio : priorityForLen data.length < priorityForLen data'.length) :
    let x := ((TxOp.spec ops).1.arrived.length, (dest, dataPacket data msgId a b))
    let y := (n, (dest', dataPacket data' msgId' a' b'))
    let w := (TxOp.spec (ops ++ .classify dest (dataPacket data msgId a b) :: ops')).1
    y ∈ w.popped → [x, y].Sublist w.popped := by
  intro x y w hleft
  have haccept : (TxOp.classify dest (dataPacket data msgId a b)).toOp =
      some (.accept (dest, dataPacket data msgId a b)) := by
    simp only [TxOp.toOp, isData_dataPacket, if_true]
  have hw : w = ((TxOp.spec ops).1.accept (dest, dataPacket data msgId a b)).run cls
      (ops'.filterMap TxOp.toOp) := by
    change (TxOp.spec _).1 = _
    rw [TxOp.spec_append, List.filterMap_cons_some haccept]
    rfl
  have hlt : cls x.2 < cls y.2 := by
    change cls (dest, _) < cls (dest', _)
    rw [cls_dataPacket, cls_dataPacket]
    exact hprio
  rw [hw] at hleft ⊢
  apply ((TxOp.spec_inv ops).accept _).overtakes _ _ hlt _ hleft
  · exact List.mem_append_right _ (List.mem_singleton.mpr rfl)
  · exact List.mem_append_left _ hwaiting

/-- The queues are one stable priority queue. Whatever the calls, every result is that of the
abstract queue, the backlog is the number of packets waiting there, and what was popped
together with what is left is what was accepted. The fragments that a sender core emits for
one message leave in the order of emission, and a fragment leaves before every fragment
that was waiting when it came and whose message has a larger `priority_for_len`. -/
theorem refines_stable_queue :
    (∀ ops : List (TxOp Addr),
      (run ops).2 = (TxOp.spec ops).2 ∧
      (run ops).1.backlog = (TxOp.spec ops).1.pending.length ∧
      (run ops).2.flatMap TxResult.items = (TxOp.spec ops).1.popped.map Prod.snd ∧
      ((run ops).2.flatMap TxResult.items ++ (run ops).1.queues.flatten).Perm
        (TxOp.accepted ops)) ∧
    (∀ (s : SenderCore Addr) (ops : List (EgressOp Addr)) (dest : Addr) (msgId : UInt64)
        (data : List UInt8) (sel : Outgoing Addr → Bool),
      (∀ x, sel x = true → ∃ a b, x = (dest, dataPacket data msgId a b)) →
      ((run (egress s ops)).2.flatMap TxResult.items ++
          (run (egress s ops)).1.queues.flatten).filter sel = (emitted s ops).filter sel) ∧
    (∀ (ops ops' : List (TxOp Addr)) (dest dest' : Addr) (msgId msgId' : UInt64)
        (data data' : List UInt8) (a b a' b' n : ℕ),
      (n, (dest', dataPacket data' msgId' a' b')) ∈ (TxOp.spec ops).1.pending →
      priorityForLen data.length < priorityForLen data'.length →
      let x := ((TxOp.spec ops).1.arrived.length, (dest, dataPacket data msgId a b))
      let y := (n, (dest', dataPacket data' msgId' a' b'))
      let w := (TxOp.spec (ops ++ .classify dest (dataPacket data msgId a b) :: ops')).1
      y ∈ w.popped → [x, y].Sublist w.popped) := by
  refine ⟨fun ops => ?_, ?_, ?_⟩
  · exact ⟨results_run ops, (holds_run ops).backlog, items_run ops, conserved ops⟩
  · intro s ops dest msgId data sel hsel
    have hcls : ∀ x, sel x = true → cls x = (priorityForLen data.length).toNat := by
      intro x hx
      obtain ⟨a, b, rfl⟩ := hsel x hx
      exact cls_dataPacket dest data msgId a b
    rw [selected_run _ hcls, accepted_egress]
  · intro ops ops' dest dest' msgId msgId' data data' a b a' b' n hwaiting hprio
    exact fragment_overtakes ops ops' hwaiting hprio

/-- Packets of priorities 5, 0, 3, 7 and 0, told apart by their third bytes. A flush of three
takes both packets of priority 0 in their order and then the one of priority 3. -/
example : (run [.classify 9 [0, 5, 1], .classify 9 [0, 0, 2], .classify 9 [0, 3, 3],
      .classify 9 [0, 7, 4], .classify 9 [0, 0, 5], .classify 9 [1, 0, 6], .popBatch 3]).2.drop 5 =
    [.classified (some (9, [1, 0, 6])),
      .batch [(9, [0, 0, 2]), (9, [0, 0, 5]), (9, [0, 3, 3])]] := by decide

end TxQueues
end AgentTransport
