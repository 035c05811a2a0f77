import AgentTransport.Host
import AgentTransport.Tracing

/-!
# Wake-ups

Threads wait for two things: that a message they send is done, and that a message was
received. The IO loop notifies them by hand, after a GRANT and where it hands over a message.
A RESEND can complete a message too, as it may ask for more than was sent, and then nobody is
notified: the sender of the message sleeps until its timeout. In all other cases whoever
waits is woken by what it waits for.
-/
namespace AgentTransport
open Transition

variable {Addr : Type} [DecidableEq Addr]

namespace SenderCore

variable {s : SenderCore Addr} {dest src : Addr} {msgId : UInt64} {pkt : Packet} {now : ℕ}

theorem isDone_eq_false : s.isDone dest msgId = false ↔
    ∃ m, s.out.lookup (dest, msgId) = some m ∧ m.doneAt = none := by
  unfold isDone
  cases s.out.lookup (dest, msgId) with
  | none => simp
  | some m => simp

theorem isDone_update_of_ne {key : MsgKey Addr} {handler : OutMsg → OutMsg × List (Action Addr)}
    (hne : (dest, msgId) ≠ key) : (s.update key handler).1.isDone dest msgId =
      s.isDone dest msgId := by
  rw [isDone, isDone, lookup_update, if_neg hne]

theorem isDone_handleBusy :
    (s.handleBusy src pkt now).isDone dest msgId = s.isDone dest msgId := by
  by_cases hk : (dest, msgId) = (src, pkt.msgId)
  · obtain ⟨rfl, rfl⟩ := Prod.mk.inj hk
    rw [isDone, isDone, handleBusy, lookup_update, if_pos rfl]
    cases s.out.lookup (dest, pkt.msgId) <;> rfl
  · exact isDone_update_of_ne hk

/-- A tick completes nothing. What it reclaims was done before. -/
theorem isDone_tick (s : SenderCore Addr) (now : ℕ) (order : MapOrder (MsgKey Addr)) (dest : Addr)
    (msgId : UInt64) : (s.tick now order).1.isDone dest msgId = s.isDone dest msgId := by
  rw [isDone, isDone, lookup_tick]
  cases s.out.lookup (dest, msgId) with
  | none => rfl
  | some m =>
    have hentry : (m.tickEntry s.cfg now).1.doneAt = m.doneAt := by
      unfold OutMsg.tickEntry
      split_ifs <;> rfl
    rw [Option.filter_some]
    split_ifs with hlingers
    · rw [Option.map_some, Option.all_some, Option.all_some, hentry]
    · have hdone : m.doneAt ≠ none := fun hnone => hlingers (by rw [OutMsg.lingers, hnone]; rfl)
      rw [Option.all_some, Option.isSome_iff_ne_none.mpr hdone]
      rfl

end SenderCore

namespace State

/-- The packet is a RESEND that completes a message: it asks for bytes up to the end of which
some were not sent yet. -/
def CompletesByResend (st : State Addr) (src : Addr) (pkt : Packet) : Prop :=
  pkt.typ = .resend ∧ ∃ m, st.sender.out.lookup (src, pkt.msgId) = some m ∧ m.doneAt = none ∧
    m.nextSend < m.resendEnd pkt ∧ m.data.length ≤ m.resendEnd pkt

/-- The datagram of an iteration is such a packet. -/
def ResendArrives (st : State Addr) (arrival : Option (Arrival Addr)) : Prop :=
  ∃ a ∈ arrival, ∃ pkt payload, Packet.decode a.bytes = .ok (pkt, payload) ∧
    st.CompletesByResend a.src pkt

/-- If a message became done, or one was handed over, the waiters were notified. -/
def Wakes (st : State Addr) (out : Outcome Addr) : Prop :=
  ((∃ dest msgId, st.sender.isDone dest msgId = false ∧
    out.state.sender.isDone dest msgId = true) ∨
      st.completed.length < out.state.completed.length) → out.notified = true

variable {st st' : State Addr} {src : Addr} {pkt : Packet} {payload : List UInt8} {now : ℕ}
  {order : ScheduleOrder Addr} {notified : Bool} {acts : List (Action Addr)} {out : Outcome Addr}

/-- What a RESEND completes. -/
theorem isDone_handleResend {s : SenderCore Addr} {dest : Addr} {msgId : UInt64}
    (hopen : s.isDone dest msgId = false) :
    (s.handleResend src pkt now).1.isDone dest msgId = true ↔ (dest, msgId) = (src, pkt.msgId) ∧
      ∃ m, s.out.lookup (src, pkt.msgId) = some m ∧ m.doneAt = none ∧
        m.nextSend < m.resendEnd pkt ∧ m.data.length ≤ m.resendEnd pkt := by
  obtain ⟨m, hm, hnone⟩ := SenderCore.isDone_eq_false.mp hopen
  by_cases hk : (dest, msgId) = (src, pkt.msgId)
  · rw [hk] at hm
    rw [hk, SenderCore.isDone, SenderCore.handleResend, SenderCore.lookup_update, if_pos hk, hm,
      Option.map_some, Option.all_some, OutMsg.handleResend_doneAt, hnone]
    simp [hnone]
  · rw [SenderCore.handleResend, SenderCore.isDone_update_of_ne hk, hopen]
    simp [hk]

/-- A handler that makes a message done notifies, unless it is the one of a RESEND. -/
theorem handle_spec (h : st.handle src pkt payload now order = some (st', notified, acts)) :
    st'.completed = st.completed ∧
    (∀ dest msgId, st.sender.isDone dest msgId = false → st'.sender.isDone dest msgId = true →
      notified = true ∨ st.CompletesByResend src pkt) ∧
    (st.CompletesByResend src pkt → notified = false ∧ deliveries acts = [] ∧
      st.sender.isDone src pkt.msgId = false ∧ st'.sender.isDone src pkt.msgId = true) := by
  unfold handle at h
  cases htyp : pkt.typ with
  | data =>
    rw [htyp] at h
    obtain ⟨next, _, heq⟩ := Option.map_eq_some_iff.mp h
    obtain ⟨rfl, rfl, rfl⟩ := heq
    refine ⟨rfl, fun dest msgId hopen hdone => ?_, fun hc => ?_⟩
    · rw [hopen] at hdone
      cases hdone
    · rw [CompletesByResend, htyp] at hc
      cases hc.1
  | grant =>
    rw [htyp] at h
    obtain ⟨rfl, rfl, rfl⟩ := Option.some.inj h
    refine ⟨rfl, fun dest msgId hopen hdone => Or.inl ?_, fun hc => ?_⟩
    · by_cases hk : (dest, msgId) = (src, pkt.msgId)
      · obtain ⟨rfl, rfl⟩ := Prod.mk.inj hk
        exact hdone
      · rw [SenderCore.handleGrant, SenderCore.isDone_update_of_ne hk, hopen] at hdone
        cases hdone
    · rw [CompletesByResend, htyp] at hc
      cases hc.1
  | resend =>
    rw [htyp] at h
    obtain ⟨rfl, rfl, rfl⟩ := Option.some.inj h
    refine ⟨rfl, fun dest msgId hopen hdone => Or.inr ?_, fun hc => ?_⟩
    · exact ⟨htyp, ((isDone_handleResend hopen).mp hdone).2⟩
    · obtain ⟨_, m, hm, hnone, hmore⟩ := hc
      have hopen : st.sender.isDone src pkt.msgId = false :=
        SenderCore.isDone_eq_false.mpr ⟨m, hm, hnone⟩
      refine ⟨rfl, ?_, hopen, (isDone_handleResend hopen).mpr ⟨rfl, m, hm, hnone, hmore⟩⟩
      rw [SenderCore.handleResend, SenderCore.update_outputs, hm, Option.map_some, Option.getD_some,
        OutMsg.handleResend_acts, deliveries_sendRanges]
  | busy =>
    rw [htyp] at h
    obtain ⟨rfl, rfl, rfl⟩ := Option.some.inj h
    refine ⟨rfl, fun dest msgId hopen hdone => ?_, fun hc => ?_⟩
    · rw [SenderCore.isDone_handleBusy, hopen] at hdone
      cases hdone
    · rw [CompletesByResend, htyp] at hc
      cases hc.1

theorem onPacket_wakes (h : st.onPacket src pkt payload now order = some out) :
    st.Wakes out ∧ ¬ st.CompletesByResend src pkt ∨
      st.CompletesByResend src pkt ∧ out.notified = false ∧
        st.sender.isDone src pkt.msgId = false ∧
        out.state.sender.isDone src pkt.msgId = true := by
  obtain ⟨⟨st', notified, acts⟩, hhandle, rfl⟩ := Option.map_eq_some_iff.mp h
  obtain ⟨hcompleted, hdone, hresend⟩ := handle_spec hhandle
  obtain ⟨hsender, _, hhanded, hflag⟩ := drain_spec st' acts
  by_cases hc : st.CompletesByResend src pkt
  · right
    obtain ⟨rfl, hnone, hopen, hclosed⟩ := hresend hc
    have hquiet : (st'.drain acts).notified = false := by
      rw [← Bool.not_eq_true, hflag, hnone]
      exact not_not.mpr rfl
    exact ⟨hc, hquiet, hopen, by rwa [hsender]⟩
  · left
    refine ⟨?_, hc⟩
    rintro (⟨dest, msgId, hopen, hclosed⟩ | hgrown)
    · rw [hsender] at hclosed
      rcases hdone dest msgId hopen hclosed with hnotified | hresend'
      · simp [hnotified]
      · exact absurd hresend' hc
    · have hne : deliveries acts ≠ [] := by
        intro hnil
        rw [hhanded, hcompleted, hnil, List.map_nil, List.append_nil] at hgrown
        exact Nat.lt_irrefl _ hgrown
      simp [hflag.mpr hne]

/-- A tick wakes nobody, and there is nobody to wake. -/
theorem onTick_spec {beat : Beat Addr} (h : st.onTick beat = some out) :
    out.notified = false ∧ out.state.completed = st.completed ∧ ∀ dest msgId,
      out.state.sender.isDone dest msgId = st.sender.isDone dest msgId := by
  obtain ⟨next, hticked, rfl⟩ := Option.map_eq_some_iff.mp h
  have hnone : deliveries ((st.sender.tick beat.now beat.sender).2 ++ next.2) = [] := by
    rw [deliveries_append, Network.deliveries_senderTick, ReceiverCore.tick_deliveries hticked]
    rfl
  obtain ⟨hsender, _, hhanded, hflag⟩ := drain_spec
    { st with sender := (st.sender.tick beat.now beat.sender).1, receiver := next.1 }
    ((st.sender.tick beat.now beat.sender).2 ++ next.2)
  refine ⟨?_, ?_, fun dest msgId => ?_⟩
  · rw [← Bool.not_eq_true, hflag, hnone]
    exact not_not.mpr rfl
  · rw [hhanded, hnone, List.map_nil, List.append_nil]
  · rw [hsender]
    exact SenderCore.isDone_tick ..

/-- The tick of an iteration does not change whom the iteration has to wake. -/
theorem wakes_onBeat {first : Outcome Addr} {beat : Option (Beat Addr)}
    (h : onBeat first beat = some out) : st.Wakes out ↔ st.Wakes first := by
  cases beat with
  | none =>
    obtain rfl := Option.some.inj h
    exact Iff.rfl
  | some b =>
    obtain ⟨out', htick, rfl⟩ := Option.map_eq_some_iff.mp h
    obtain ⟨hquiet, hcompleted, hdone⟩ := onTick_spec htick
    simp only [Wakes, hquiet, hcompleted, hdone, Bool.or_false]

theorem wakes_onArrival {arrival : Option (Arrival Addr)} {ticks : Bool}
    (h : st.onArrival arrival = some (out, ticks)) : st.Wakes out ↔ ¬ st.ResendArrives arrival := by
  have hstill : st.Wakes ⟨st, false, []⟩ := by
    rintro (⟨dest, msgId, hopen, hdone⟩ | hgrown)
    · rw [hopen] at hdone
      cases hdone
    · exact absurd hgrown (Nat.lt_irrefl _)
  unfold onArrival at h
  cases arrival with
  | none =>
    obtain ⟨rfl, rfl⟩ := Prod.mk.inj (Option.some.inj h)
    refine iff_of_true hstill ?_
    rintro ⟨a, ha, _⟩
    cases ha
  | some a =>
    cases hdec : Packet.decode a.bytes with
    | error e =>
      simp only [hdec] at h
      obtain ⟨rfl, rfl⟩ := Prod.mk.inj (Option.some.inj h)
      refine iff_of_true hstill ?_
      rintro ⟨a', ha, pkt, payload, hok, _⟩
      obtain rfl := Option.some.inj ha
      rw [hdec] at hok
      cases hok
    | ok x =>
      simp only [hdec] at h
      obtain ⟨out', hpacket, heq⟩ := Option.map_eq_some_iff.mp h
      obtain ⟨rfl, rfl⟩ := Prod.mk.inj heq
      have hresend : st.ResendArrives (some a) ↔ st.CompletesByResend a.src x.1 := by
        constructor
        · rintro ⟨a', ha, pkt, payload, hok, hc⟩
          obtain rfl := Option.some.inj ha
          rw [hdec] at hok
          obtain rfl := Except.ok.inj hok
          exact hc
        · exact fun hc => ⟨a, rfl, x.1, x.2, hdec, hc⟩
      rw [hresend]
      rcases onPacket_wakes hpacket with ⟨hwakes, hnot⟩ | ⟨hc, hquiet, hopen, hdone⟩
      · exact iff_of_true hwakes hnot
      · refine iff_of_false (fun hwakes => ?_) (not_not.mpr hc)
        have hnotified := hwakes (Or.inl ⟨_, _, hopen, hdone⟩)
        rw [hquiet] at hnotified
        cases hnotified

/-- An iteration wakes whom it has to wake, unless a RESEND completes a message. -/
theorem wakes_iff {arrival : Option (Arrival Addr)} {beat : Option (Beat Addr)}
    (h : st.iterate arrival beat = some out) : st.Wakes out ↔ ¬ st.ResendArrives arrival := by
  obtain ⟨⟨first, ticks⟩, hfirst, hout⟩ := Option.bind_eq_some_iff.mp h
  cases ticks with
  | true => exact (wakes_onBeat hout).trans (wakes_onArrival hfirst)
  | false =>
    obtain rfl := Option.some.inj hout
    exact wakes_onArrival hfirst

end State

/-- What a thread that holds no lock waits for: that its message is done, or any message. -/
inductive Waiter (Addr : Type) where
  | sendTo (dest : Addr) (msgId : UInt64)
  | recv
  deriving DecidableEq

/-- The test that a waiter makes before it sleeps. -/
def Waiter.met (st : State Addr) : Waiter Addr → Bool
  | .sendTo dest msgId => st.sender.isDone dest msgId
  | .recv => !st.completed.isEmpty

/-- A transport in use by any number of threads. -/
structure Transport (Addr : Type) where
  state : State Addr
  /-- What `send_to` calls have started and not dispatched yet. -/
  starting : List (List (Action Addr))
  /-- The threads that sleep until they are notified. -/
  asleep : List (Waiter Addr)

/-- The stretches with the lock held: an iteration of the IO loop, and the parts of `send_to`
and `recv`. -/
inductive TransportEvent (Addr : Type) where
  | iterate (arrival : Option (Arrival Addr)) (beat : Option (Beat Addr))
  | start (dest : Addr) (msgId : UInt64) (data : List UInt8) (now : ℕ)
  | dispatch (i : ℕ)
  | sleep (w : Waiter Addr)
  | timeout (w : Waiter Addr)
  | finish (dest : Addr) (msgId : UInt64)
  | take

namespace Transport

def new (cfg : TransportConfig) : Transport Addr := ⟨State.new cfg, [], []⟩

/-- Go on from what a stretch of the loop left. `notify_all` wakes everybody. -/
def follow (t : Transport Addr) (out : Outcome Addr) : Transport Addr :=
  { t with state := out.state, asleep := if out.notified then [] else t.asleep }

def step (t : Transport Addr) : TransportEvent Addr → Option (Transport Addr)
  | .iterate arrival beat => (t.state.iterate arrival beat).map t.follow
  | .start dest msgId data now =>
    let next := t.state.sender.start dest msgId data now
    some { t with
      state := { t.state with sender := next.1 }
      starting := t.starting ++ [next.2] }
  | .dispatch i => t.starting[i]?.map fun acts =>
    { t.follow (t.state.drain acts) with starting := t.starting.eraseIdx i }
  | .sleep w => if w.met t.state then none else some { t with asleep := w :: t.asleep }
  | .timeout w => if w ∈ t.asleep then some { t with asleep := t.asleep.erase w } else none
  | .finish dest msgId =>
    some { t with state := { t.state with sender := t.state.sender.finish dest msgId } }
  | .take =>
    match t.state.completed with
    | [] => none
    | _ :: rest => some { t with state := { t.state with completed := rest } }

/-- The iteration wakes whom it has to wake. -/
def Woken (t : Transport Addr) : TransportEvent Addr → Prop
  | .iterate arrival beat => ∀ out, t.state.iterate arrival beat = some out → t.state.Wakes out
  | _ => True

/-- No RESEND completes a message in the iteration. -/
def Unasked (t : Transport Addr) : TransportEvent Addr → Prop
  | .iterate arrival _ => ¬ t.state.ResendArrives arrival
  | _ => True

/-- Besides, no thread starts or gives up a message that another one waits for. Every call of
`send_to` draws a number of its own. -/
def Unshared (t : Transport Addr) (e : TransportEvent Addr) : Prop :=
  t.Unasked e ∧ ∀ dest msgId, .sendTo dest msgId ∈ t.asleep →
    (∀ data now, e ≠ .start dest msgId data now) ∧ e ≠ .finish dest msgId

/-- Nobody sleeps who has nothing to wait for. -/
def Attentive (t : Transport Addr) : Prop := ∀ w ∈ t.asleep, w.met t.state = false

variable {t t' : Transport Addr} {e : TransportEvent Addr}

theorem woken_iff (h : t.step e = some t') : t.Woken e ↔ t.Unasked e := by
  cases e with
  | iterate arrival beat =>
    obtain ⟨out, hout, rfl⟩ := Option.map_eq_some_iff.mp h
    constructor
    · exact fun hwoken => (State.wakes_iff hout).mp (hwoken out hout)
    · intro hunasked out' hout'
      exact (State.wakes_iff hout').mpr hunasked
  | _ => exact Iff.rfl

/-- Whoever sleeps on goes on waiting for something, if the stretch wakes whom it has to. -/
theorem Attentive.follow (h : t.Attentive) {out : Outcome Addr} (hwakes : t.state.Wakes out) :
    (t.follow out).Attentive := by
  intro w hw
  simp only [Transport.follow] at hw ⊢
  cases hnotified : out.notified with
  | true =>
    rw [hnotified] at hw
    cases hw
  | false =>
    rw [hnotified] at hw
    have hwaits := h w hw
    have hquiet : ¬ ((∃ dest msgId, t.state.sender.isDone dest msgId = false ∧
        out.state.sender.isDone dest msgId = true) ∨
          t.state.completed.length < out.state.completed.length) := by
      intro hnews
      rw [hwakes hnews] at hnotified
      cases hnotified
    rw [not_or] at hquiet
    cases w with
    | sendTo dest msgId =>
      cases hdone : out.state.sender.isDone dest msgId with
      | false => exact hdone
      | true => exact absurd ⟨dest, msgId, hwaits, hdone⟩ hquiet.1
    | recv =>
      simp only [Waiter.met, Bool.not_eq_false', List.isEmpty_iff] at hwaits ⊢
      rw [hwaits] at hquiet
      simpa using hquiet.2

theorem isDone_start_of_ne {s : SenderCore Addr} {dest dest' : Addr} {msgId msgId' : UInt64}
    (hne : (dest', msgId') ≠ (dest, msgId)) (data : List UInt8) (now : ℕ) :
    (s.start dest msgId data now).1.isDone dest' msgId' = s.isDone dest' msgId' := by
  rw [SenderCore.isDone, SenderCore.isDone, SenderCore.lookup_start, if_neg hne]

theorem isDone_finish_of_ne {s : SenderCore Addr} {dest dest' : Addr} {msgId msgId' : UInt64}
    (hne : (dest', msgId') ≠ (dest, msgId)) :
    (s.finish dest msgId).isDone dest' msgId' = s.isDone dest' msgId' := by
  rw [SenderCore.isDone, SenderCore.isDone, SenderCore.finish, KeyMap.lookup_erase_eq, if_neg hne]

theorem Attentive.step (h : t.Attentive) (hok : t.Unshared e) (hs : t.step e = some t') :
    t'.Attentive := by
  obtain ⟨hunasked, hown⟩ := hok
  cases e with
  | iterate arrival beat =>
    obtain ⟨out, hout, rfl⟩ := Option.map_eq_some_iff.mp hs
    exact h.follow ((State.wakes_iff hout).mpr hunasked)
  | start dest msgId data now =>
    obtain rfl := Option.some.inj hs
    intro w hw
    cases w with
    | recv => exact h .recv hw
    | sendTo dest' msgId' =>
      have hne : (dest', msgId') ≠ (dest, msgId) := by
        intro heq
        obtain ⟨rfl, rfl⟩ := Prod.mk.inj heq
        exact (hown dest' msgId' hw).1 data now rfl
      exact (isDone_start_of_ne hne data now).trans (h _ hw)
  | dispatch i =>
    obtain ⟨acts, _, rfl⟩ := Option.map_eq_some_iff.mp hs
    obtain ⟨hsender, _, hhanded, hflag⟩ := State.drain_spec t.state acts
    refine h.follow ?_
    rintro (⟨dest, msgId, hopen, hdone⟩ | hgrown)
    · rw [hsender, hopen] at hdone
      cases hdone
    · rw [hflag]
      intro hnil
      rw [hhanded, hnil, List.map_nil, List.append_nil] at hgrown
      exact Nat.lt_irrefl _ hgrown
  | sleep w =>
    rw [Transport.step] at hs
    split_ifs at hs with hmet
    obtain rfl := Option.some.inj hs
    intro w' hw'
    rcases List.mem_cons.mp hw' with rfl | hw'
    · simpa using hmet
    · exact h w' hw'
  | timeout w =>
    rw [Transport.step] at hs
    split_ifs at hs
    obtain rfl := Option.some.inj hs
    exact fun w' hw' => h w' (List.mem_of_mem_erase hw')
  | finish dest msgId =>
    obtain rfl := Option.some.inj hs
    intro w hw
    cases w with
    | recv => exact h .recv hw
    | sendTo dest' msgId' =>
      have hne : (dest', msgId') ≠ (dest, msgId) := by
        intro heq
        obtain ⟨rfl, rfl⟩ := Prod.mk.inj heq
        exact (hown dest' msgId' hw).2 rfl
      exact (isDone_finish_of_ne hne).trans (h _ hw)
  | take =>
    rw [Transport.step] at hs
    cases hcompleted : t.state.completed with
    | nil =>
      rw [hcompleted] at hs
      cases hs
    | cons x rest =>
      rw [hcompleted] at hs
      obtain rfl := Option.some.inj hs
      intro w hw
      have hwaits := h w hw
      cases w with
      | sendTo dest msgId => exact hwaits
      | recv =>
        rw [Waiter.met, hcompleted] at hwaits
        cases hwaits

/-- No wake-up is lost, exactly as long as no RESEND completes a message: the iterations of a
run wake whom they have to wake if and only if none of them handles such a RESEND. In a run
without one, in which each call of `send_to` has a number of its own, everybody who sleeps
still has something to wait for. -/
theorem no_lost_wakeup_iff (cfg : TransportConfig) (evs : List (TransportEvent Addr))
    (t : Transport Addr) :
    (Run Transport.step Woken (Transport.new cfg) evs t ↔
      Run Transport.step Unasked (Transport.new cfg) evs t) ∧
    (Run Transport.step Unshared (Transport.new cfg) evs t → t.Attentive) := by
  refine ⟨⟨fun hrun => ?_, fun hrun => ?_⟩, fun hrun => ?_⟩
  · exact hrun.regard fun s e u hs hok => (woken_iff hs).mp hok
  · exact hrun.regard fun s e u hs hok => (woken_iff hs).mpr hok
  · exact hrun.invariant (fun s e u hs hok hst => hs.step hok hst) fun w hw => by cases hw

/-- Eight bytes of which four are sent, and the sender of the message goes to sleep. -/
def sendEight : List (TransportEvent ℕ) :=
  [.start 9 1 [1, 2, 3, 4, 5, 6, 7, 8] 0, .dispatch 0, .sleep (.sendTo 9 1)]

/-- A packet of host 9 that names the last four bytes. -/
def namesRest (typ : PacketType) (offset length : UInt32) : Arrival ℕ :=
  ⟨9, Packet.encode ⟨typ, 0, 1, 0, offset, length⟩ [], 1, default⟩

/-- A GRANT for the rest wakes the sender. -/
theorem no_lost_wakeup_granted : ∃ t,
    exec Transport.step (sendEight ++ [.iterate (some (namesRest .grant 8 4)) none])
      (Transport.new tinyConfig) = some t ∧ t.asleep = [] ∧ t.state.sender.isDone 9 1 = true ∧
    Run Transport.step Woken (Transport.new tinyConfig)
      (sendEight ++ [.iterate (some (namesRest .grant 8 4)) none]) t := by
  have hrun : (exec Transport.step (sendEight ++ [.iterate (some (namesRest .grant 8 4)) none])
      (Transport.new tinyConfig)).map (fun t => (t.asleep, t.state.sender.isDone 9 1)) =
        some ([], true) := rfl
  obtain ⟨t, ht, heq⟩ := Option.map_eq_some_iff.mp hrun
  obtain ⟨hasleep, hdone⟩ := Prod.mk.inj heq
  have hgrant : ∀ t : Transport ℕ, t.Unasked (.iterate (some (namesRest .grant 8 4)) none) := by
    rintro t ⟨a, ha, pkt, payload, hdec, htyp, _⟩
    obtain rfl := Option.some.inj ha
    rw [(Packet.eq_of_decode_encode hdec).1] at htyp
    cases htyp
  refine ⟨t, ht, hasleep, hdone, (no_lost_wakeup_iff tinyConfig _ t).1.mpr (run_of_admitted ht ?_)⟩
  exact ⟨trivial, fun _ _ => ⟨trivial, fun _ _ => ⟨trivial,
    fun t _ => ⟨hgrant t, fun _ _ => trivial⟩⟩⟩⟩

/-- A RESEND for the rest completes the message as well, and the sender sleeps on. -/
theorem lost_wakeup : ∃ t out,
    exec Transport.step sendEight (Transport.new tinyConfig) = some t ∧
    t.state.iterate (some (namesRest .resend 4 4)) none = some out ∧ ¬ t.state.Wakes out ∧
    (t.follow out).asleep = [.sendTo 9 1] ∧ ¬ (t.follow out).Attentive := by
  have hrun : ((exec Transport.step sendEight (Transport.new tinyConfig)).bind fun t =>
      (t.state.iterate (some (namesRest .resend 4 4)) none).map fun out =>
        (t.state.sender.isDone 9 1, out.state.sender.isDone 9 1, out.notified,
          (t.follow out).asleep)) = some (false, true, false, [.sendTo 9 1]) := rfl
  obtain ⟨t, ht, hnext⟩ := Option.bind_eq_some_iff.mp hrun
  obtain ⟨out, hout, heq⟩ := Option.map_eq_some_iff.mp hnext
  obtain ⟨hopen, hdone, hquiet, hasleep⟩ : _ ∧ _ ∧ _ ∧ _ := by simpa using heq
  refine ⟨t, out, ht, hout, fun hwakes => ?_, hasleep, fun hattentive => ?_⟩
  · rw [hwakes (Or.inl ⟨9, 1, hopen, hdone⟩)] at hquiet
    cases hquiet
  · have hwaits := hattentive (.sendTo 9 1) (by rw [hasleep]; exact List.mem_cons_self)
    rw [Waiter.met, show (t.follow out).state = out.state from rfl, hdone] at hwaits
    cases hwaits

end Transport
end AgentTransport
