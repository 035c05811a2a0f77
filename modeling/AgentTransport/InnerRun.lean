import AgentTransport.Inner
import AgentTransport.Threads
import AgentTransport.Tracing

/-!
# The stretches of a transport

What each stretch does to a transport, and what a drain does to the queues: no packet is lost
or made up between the cores, the queues and the wire. Every call of `send_to` has a number of
its own as long as the counter has not come round.
-/
namespace AgentTransport
open Transition StableSort

variable {Addr : Type} [DecidableEq Addr]

section Queues

variable {α : Type}

theorem flatten_dropFront (k : ℕ) (qs : List (List α)) :
    (dropFront k qs).flatten = qs.flatten.drop k := by
  induction qs generalizing k with
  | nil => simp [dropFront]
  | cons q qs ih => simp only [dropFront, List.flatten_cons, ih, List.drop_append]

/-- An item at the end of one list is one more in the concatenation. -/
theorem flatten_modify_perm {qs : List (List α)} {i : ℕ} (hi : i < qs.length) (x : α) :
    (qs.modify i (· ++ [x])).flatten.Perm (qs.flatten ++ [x]) := by
  induction qs generalizing i with
  | nil => exact absurd hi (Nat.not_lt_zero i)
  | cons q qs ih =>
    cases i with
    | zero =>
      rw [List.modify_zero_cons, List.flatten_cons, List.flatten_cons, List.append_assoc,
        List.append_assoc]
      exact List.perm_append_comm.append_left q
    | succ i =>
      rw [List.modify_succ_cons, List.flatten_cons, List.flatten_cons, List.append_assoc]
      exact (ih (Nat.lt_of_succ_lt_succ hi)).append_left q

end Queues

namespace TxQueues

omit [DecidableEq Addr]

/-- A flush moves packets from the queues to the batch. -/
theorem popBatch_flatten (t : TxQueues Addr) (budget : ℕ) :
    (t.popBatch budget).2 ++ (t.popBatch budget).1.queues.flatten = t.queues.flatten := by
  simp only [popBatch, popQueues_eq, flatten_dropFront, List.nil_append, List.length_nil,
    Nat.sub_zero, List.take_append_drop]

theorem classify_perm (t : TxQueues Addr) (dest : Addr) (bytes : List UInt8) :
    ((t.classify dest bytes).2.toList ++ (t.classify dest bytes).1.queues.flatten).Perm
      (t.queues.flatten ++ [(dest, bytes)]) := by
  unfold classify
  split_ifs
  · refine flatten_modify_perm ?_ _
    rw [t.length_queues]
    exact cls_lt (dest, bytes)
  · exact List.perm_append_comm

end TxQueues

namespace State

omit [DecidableEq Addr]

theorem drainLoop_perm (acts : List (Action Addr)) (now : State Addr × Bool) :
    ((Loop.forEach drainOne acts now).2 ++
      (Loop.forEach drainOne acts now).1.1.tx.queues.flatten).Perm
        (now.1.tx.queues.flatten ++ sends acts) := by
  induction acts generalizing now with
  | nil => simp [sends]
  | cons a acts ih =>
    have ih := ih (drainOne now a).1
    rw [Loop.forEach_cons]
    cases a with
    | deliver src msgId data => exact ih
    | send dest bytes =>
      have hone := now.1.tx.classify_perm dest bytes
      simp only [List.append_assoc]
      refine (ih.append_left _).trans ?_
      rw [← List.append_assoc]
      refine (hone.append_right _).trans ?_
      rw [List.append_assoc]
      exact List.Perm.refl _

/-- What a drain sends and what it leaves in the queues is what was in the queues and what
the actions add. -/
theorem drain_perm (st : State Addr) (acts : List (Action Addr)) :
    ((st.drain acts).sent ++ (st.drain acts).state.tx.queues.flatten).Perm
      (st.tx.queues.flatten ++ sends acts) := by
  have hloop := drainLoop_perm acts (st, false)
  unfold drain
  dsimp only
  rw [List.append_assoc, TxQueues.popBatch_flatten]
  exact hloop

end State

omit [DecidableEq Addr] in
/-- A message that is done stays done. -/
theorem OutMsg.handleGrant_done (cfg : TransportConfig) (dest : Addr) (pkt : Packet) (now : ℕ)
    {m : OutMsg} (hdone : m.doneAt.isSome) : (m.handleGrant cfg dest pkt now).1.doneAt.isSome := by
  rwa [OutMsg.handleGrant_of_not_unlocks cfg dest pkt now fun hu => by
    rw [hu.2] at hdone; cases hdone]

namespace State

variable {st st' : State Addr} {src : Addr} {pkt : Packet} {payload : List UInt8} {now : ℕ}
  {order : ScheduleOrder Addr} {notified : Bool} {acts : List (Action Addr)}

/-- What the handler of a packet does to a state, and what it gives out. -/
inductive Handled (st : State Addr) (src : Addr) (pkt : Packet) (payload : List UInt8) (now : ℕ)
    (order : ScheduleOrder Addr) : State Addr → List (Action Addr) → Prop
  | data {r' : ReceiverCore Addr} {acts : List (Action Addr)} (htyp : pkt.typ = .data)
      (hr : st.receiver.handleData src pkt payload now order = some (r', acts)) :
      Handled st src pkt payload now order { st with receiver := r' } acts
  | grant (htyp : pkt.typ = .grant) : Handled st src pkt payload now order
      { st with sender := (st.sender.handleGrant src pkt now).1 }
      (st.sender.handleGrant src pkt now).2
  | resend (htyp : pkt.typ = .resend) : Handled st src pkt payload now order
      { st with sender := (st.sender.handleResend src pkt now).1 }
      (st.sender.handleResend src pkt now).2
  | busy (htyp : pkt.typ = .busy) : Handled st src pkt payload now order
      { st with sender := st.sender.handleBusy src pkt now } []

theorem handled (h : st.handle src pkt payload now order = some (st', notified, acts)) :
    Handled st src pkt payload now order st' acts := by
  unfold handle at h
  cases htyp : pkt.typ with
  | data =>
    rw [htyp] at h
    obtain ⟨⟨r', acts'⟩, hr, heq⟩ := Option.map_eq_some_iff.mp h
    obtain ⟨rfl, rfl, rfl⟩ := heq
    exact .data htyp hr
  | grant =>
    rw [htyp] at h
    obtain ⟨rfl, rfl, rfl⟩ := Option.some.inj h
    exact .grant htyp
  | resend =>
    rw [htyp] at h
    obtain ⟨rfl, rfl, rfl⟩ := Option.some.inj h
    exact .resend htyp
  | busy =>
    rw [htyp] at h
    obtain ⟨rfl, rfl, rfl⟩ := Option.some.inj h
    exact .busy htyp

theorem Handled.completed (h : Handled st src pkt payload now order st' acts) :
    st'.completed = st.completed := by
  cases h <;> rfl

theorem Handled.tx (h : Handled st src pkt payload now order st' acts) : st'.tx = st.tx := by
  cases h <;> rfl

theorem Handled.cfg (h : Handled st src pkt payload now order st' acts) :
    st'.sender.cfg = st.sender.cfg ∧ st'.receiver.cfg = st.receiver.cfg := by
  cases h with
  | data htyp hr => exact ⟨rfl, (ReceiverCore.handleData_spec hr).cfg_eq⟩
  | grant => exact ⟨SenderCore.update_cfg _ _ _, rfl⟩
  | resend => exact ⟨SenderCore.update_cfg _ _ _, rfl⟩
  | busy => exact ⟨SenderCore.update_cfg _ _ _, rfl⟩

/-- The handlers make no entries of the sender, and reopen none. -/
theorem Handled.entry (h : Handled st src pkt payload now order st' acts) {key : MsgKey Addr}
    {m' : OutMsg} (hm' : st'.sender.out.lookup key = some m') :
    ∃ m, st.sender.out.lookup key = some m ∧ (m.doneAt.isSome → m'.doneAt.isSome) := by
  have hupdate : ∀ f : OutMsg → OutMsg × List (Action Addr),
      (∀ m, m.doneAt.isSome → (f m).1.doneAt.isSome) →
      (st.sender.update (src, pkt.msgId) f).1.out.lookup key = some m' →
      ∃ m, st.sender.out.lookup key = some m ∧ (m.doneAt.isSome → m'.doneAt.isSome) := by
    intro f hf hlook
    rw [SenderCore.lookup_update] at hlook
    split_ifs at hlook with hk
    · obtain ⟨m, hm, rfl⟩ := Option.map_eq_some_iff.mp hlook
      exact ⟨m, hk ▸ hm, hf m⟩
    · exact ⟨m', hlook, id⟩
  cases h with
  | data => exact ⟨m', hm', id⟩
  | grant => exact hupdate _ (fun m => OutMsg.handleGrant_done _ _ _ _) hm'
  | resend =>
    exact hupdate _ (fun m hdone => (OutMsg.handleResend_doneAt _ _ _ _ m).mpr (Or.inl hdone)) hm'
  | busy => exact hupdate _ (fun m => id) hm'

end State

namespace Inner

variable {t t' : Inner Addr} {m : Move Addr} {out : List (Outgoing Addr)}

section Drain

omit [DecidableEq Addr]

variable (t : Inner Addr) (acts : List (Action Addr))

@[simp] theorem drain_sender : (t.drain acts).1.state.sender = t.state.sender :=
  (t.state.drain_spec acts).1

@[simp] theorem drain_receiver : (t.drain acts).1.state.receiver = t.state.receiver :=
  (t.state.drain_spec acts).2.1

theorem drain_completed : (t.drain acts).1.state.completed =
    t.state.completed ++ (deliveries acts).map fun d => (d.1.1, d.2) :=
  (t.state.drain_spec acts).2.2.1

@[simp] theorem drain_calls : (t.drain acts).1.calls = t.calls := rfl

@[simp] theorem drain_io : (t.drain acts).1.io = t.io := rfl

@[simp] theorem drain_made : (t.drain acts).1.made = t.made := rfl

@[simp] theorem drain_returned : (t.drain acts).1.returned = t.returned := rfl

@[simp] theorem drain_received : (t.drain acts).1.received = t.received := rfl

@[simp] theorem drain_delivered :
    (t.drain acts).1.delivered = t.delivered ++ deliveries acts := rfl

@[simp] theorem drain_emitted : (t.drain acts).1.emitted = t.emitted ++ sends acts := rfl

@[simp] theorem drain_wired :
    (t.drain acts).1.wired = t.wired ++ (t.drain acts).2 := rfl

theorem drain_queues : ((t.drain acts).2 ++ (t.drain acts).1.state.tx.queues.flatten).Perm
    (t.state.tx.queues.flatten ++ sends acts) := t.state.drain_perm acts

end Drain

/-- What a stretch does to a transport, and what it puts on the wire. -/
inductive Effect (t : Inner Addr) : Move Addr → Inner Addr → List (Outgoing Addr) → Prop
  | sendTo (dest : Addr) (data : List UInt8) (now : ℕ) :
      Effect t (.sendTo dest data now) { t with
        msgCounter := t.msgCounter + 1
        calls := t.calls ++ [⟨dest, t.msgCounter, data, now, now + t.sendTimeout, .numbered⟩]
        made := t.made ++ [((dest, t.msgCounter), data)] } []
  | start {i : ℕ} {call : SendCall Addr} (hi : t.calls[i]? = some call)
      (hphase : call.phase = .numbered) :
      Effect t (.start i) { t.setPhase i call
          (.entered (t.state.sender.start call.dest call.msgId call.data call.now).2) with
        state := { t.state with
          sender := (t.state.sender.start call.dest call.msgId call.data call.now).1 } } []
  | dispatch {i : ℕ} {call : SendCall Addr} {acts : List (Action Addr)}
      (hi : t.calls[i]? = some call) (hphase : call.phase = .entered acts) :
      Effect t (.dispatch i) ((t.setPhase i call .waiting).drain acts).1
        ((t.setPhase i call .waiting).drain acts).2
  | done {i now : ℕ} {call : SendCall Addr} (hi : t.calls[i]? = some call)
      (hphase : call.phase = .waiting) (hdone : t.state.sender.isDone call.dest call.msgId) :
      Effect t (.poll i now) { t with
        calls := t.calls.eraseIdx i
        returned := t.returned ++ [(call.key, .ok call.msgId)] } []
  | expired {i now : ℕ} {call : SendCall Addr} (hi : t.calls[i]? = some call)
      (hphase : call.phase = .waiting)
      (hopen : t.state.sender.isDone call.dest call.msgId = false) (hlate : call.deadline ≤ now) :
      Effect t (.poll i now) { t with
        state := { t.state with sender := t.state.sender.finish call.dest call.msgId }
        calls := t.calls.eraseIdx i
        returned := t.returned ++ [(call.key, .error sendTimedOut)] } []
  | waits {i now : ℕ} {call : SendCall Addr} (hi : t.calls[i]? = some call)
      (hphase : call.phase = .waiting)
      (hopen : t.state.sender.isDone call.dest call.msgId = false) (hearly : now < call.deadline) :
      Effect t (.poll i now) t []
  | takes {deadline now : ℕ} {msg : Addr × List UInt8} {rest : List (Addr × List UInt8)}
      (hmsg : t.state.completed = msg :: rest) :
      Effect t (.recv deadline now) { t with
        state := { t.state with completed := rest }, received := t.received ++ [msg] } []
  | nothing {deadline now : ℕ} (hnone : t.state.completed = []) : Effect t (.recv deadline now) t []
  | quiet (hio : t.io = .receiving) : Effect t .quiet { t with io := .looking } []
  | socketError (hio : t.io = .receiving) :
      Effect t .socketError { t with io := if t.shutdown then .stopped else .looking } []
  | handle {src : Addr} {pkt : Packet} {payload : List UInt8} {now : ℕ}
      {order : ScheduleOrder Addr} {st : State Addr} {notified : Bool} {acts : List (Action Addr)}
      (hio : t.io = .handling src pkt payload now)
      (hst : t.state.handle src pkt payload now order = some (st, notified, acts)) :
      Effect t (.handle order) ({ t with state := st, io := .looking : Inner Addr }.drain acts).1
        ({ t with state := st, io := .looking : Inner Addr }.drain acts).2
  | looks {now : ℕ} (hio : t.io = .looking) (htime : tickInterval ≤ now - t.lastTick) :
      Effect t (.look now) { t with lastTick := now, io := .ticking now } []
  | passes {now : ℕ} (hio : t.io = .looking) (htime : now - t.lastTick < tickInterval) :
      Effect t (.look now) t.again []
  | tick {now : ℕ} {order : MapOrder (MsgKey Addr)} {orders : TickOrder Addr}
      {r' : ReceiverCore Addr} {acts : List (Action Addr)} (hio : t.io = .ticking now)
      (hr : t.state.receiver.tick now orders = some (r', acts)) :
      Effect t (.tick order orders)
        ({ t with state := { t.state with
            sender := (t.state.sender.tick now order).1
            receiver := r' } : Inner Addr }.again.drain ((t.state.sender.tick now order).2 ++ acts)).1
        ({ t with state := { t.state with
            sender := (t.state.sender.tick now order).1
            receiver := r' } : Inner Addr }.again.drain ((t.state.sender.tick now order).2 ++ acts)).2
  | shutdown : Effect t .shutdown { t with shutdown := true } []

/-- The specification of `step`. -/
theorem step_spec (h : t.step m = some (t', out)) : Effect t m t' out := by
  cases m with
  | sendTo dest data now =>
    obtain ⟨rfl, rfl⟩ := Prod.mk.inj (Option.some.inj h)
    exact .sendTo dest data now
  | start i =>
    obtain ⟨call, hi, h⟩ := Option.bind_eq_some_iff.mp h
    split at h
    · obtain ⟨rfl, rfl⟩ := Prod.mk.inj (Option.some.inj h)
      exact .start hi ‹_›
    · cases h
  | dispatch i =>
    obtain ⟨call, hi, h⟩ := Option.bind_eq_some_iff.mp h
    split at h
    · obtain ⟨rfl, rfl⟩ := Prod.mk.inj (Option.some.inj h)
      exact .dispatch hi ‹_›
    · cases h
  | poll i now =>
    obtain ⟨call, hi, h⟩ := Option.bind_eq_some_iff.mp h
    split at h
    · unfold State.sendRound at h
      by_cases hdone : t.state.sender.isDone call.dest call.msgId
      · rw [if_pos hdone] at h
        obtain ⟨rfl, rfl⟩ := Prod.mk.inj (Option.some.inj h)
        exact .done hi ‹_› hdone
      · rw [if_neg hdone] at h
        by_cases hlate : call.deadline - now = 0
        · rw [if_pos hlate] at h
          obtain ⟨rfl, rfl⟩ := Prod.mk.inj (Option.some.inj h)
          exact .expired hi ‹_› (by simpa using hdone) (Nat.le_of_sub_eq_zero hlate)
        · rw [if_neg hlate] at h
          obtain ⟨rfl, rfl⟩ := Prod.mk.inj (Option.some.inj h)
          exact .waits hi ‹_› (by simpa using hdone) (by omega)
    · cases h
  | recv deadline now =>
    simp only [step, State.recvRound] at h
    cases hmsg : t.state.completed with
    | nil =>
      rw [hmsg] at h
      by_cases hlate : deadline - now = 0
      · simp only [if_pos hlate] at h
        obtain ⟨rfl, rfl⟩ := Prod.mk.inj (Option.some.inj h)
        exact .nothing hmsg
      · simp only [if_neg hlate] at h
        obtain ⟨rfl, rfl⟩ := Prod.mk.inj (Option.some.inj h)
        exact .nothing hmsg
    | cons msg rest =>
      rw [hmsg] at h
      obtain ⟨rfl, rfl⟩ := Prod.mk.inj (Option.some.inj h)
      exact .takes hmsg
  | quiet =>
    simp only [step] at h
    split at h
    · obtain ⟨rfl, rfl⟩ := Prod.mk.inj (Option.some.inj h)
      exact .quiet ‹_›
    · cases h
  | socketError =>
    simp only [step] at h
    split at h
    · obtain ⟨rfl, rfl⟩ := Prod.mk.inj (Option.some.inj h)
      exact .socketError ‹_›
    · cases h
  | handle order =>
    simp only [step] at h
    split at h
    · obtain ⟨⟨st, notified, acts⟩, hst, heq⟩ := Option.map_eq_some_iff.mp h
      obtain ⟨rfl, rfl⟩ := Prod.mk.inj heq
      exact .handle ‹_› hst
    · cases h
  | look now =>
    simp only [step] at h
    split at h
    · split_ifs at h with htime
      · obtain ⟨rfl, rfl⟩ := Prod.mk.inj (Option.some.inj h)
        exact .looks ‹_› htime
      · obtain ⟨rfl, rfl⟩ := Prod.mk.inj (Option.some.inj h)
        exact .passes ‹_› (Nat.not_le.mp htime)
    · cases h
  | tick order orders =>
    simp only [step] at h
    split at h
    · obtain ⟨⟨r', acts⟩, hr, heq⟩ := Option.map_eq_some_iff.mp h
      obtain ⟨rfl, rfl⟩ := Prod.mk.inj heq
      exact .tick ‹_› hr
    · cases h
  | shutdown =>
    obtain ⟨rfl, rfl⟩ := Prod.mk.inj (Option.some.inj h)
    exact .shutdown

end Inner
end AgentTransport
