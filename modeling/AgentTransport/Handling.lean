import AgentTransport.Scheduling

/-!
# One DATA packet

`handle_data` has four outcomes: it drops a late duplicate, refuses a new message,
stores what it got, or delivers a message. The last two end in a round of scheduling.
-/
namespace AgentTransport
open ByteString

variable {Addr : Type} [DecidableEq Addr]

namespace InMsg

/-- A packet whose fragment is missing and that stays within its stated length. -/
def Fits (cfg : TransportConfig) (pkt : Packet) (payload : List UInt8) (m : InMsg) : Prop :=
  m.received[pkt.offset.toNat / cfg.packetSize]? = some false ∧
    pkt.offset.toNat + payload.length ≤ pkt.msgLen.toNat

instance (cfg : TransportConfig) (pkt : Packet) (payload : List UInt8) (m : InMsg) :
    Decidable (m.Fits cfg pkt payload) :=
  inferInstanceAs (Decidable (_ ∧ _))

/-- The entry after the payload is written. -/
def stored (cfg : TransportConfig) (pkt : Packet) (payload : List UInt8) (now : ℕ) (m : InMsg) :
    InMsg :=
  { m with
    buf := overwrite m.buf pkt.offset.toNat payload
    received := m.received.set (pkt.offset.toNat / cfg.packetSize) true
    receivedBytes := m.receivedBytes + payload.length
    lastProgress := now
    unansweredResends := 0 }

theorem accept_of_not_fits {cfg : TransportConfig} {pkt : Packet} {payload : List UInt8}
    {now : ℕ} {m : InMsg} (h : ¬ m.Fits cfg pkt payload) :
    m.accept cfg pkt payload now = some m := if_neg h

theorem accept_of_fits {cfg : TransportConfig} {pkt : Packet} {payload : List UInt8}
    {now : ℕ} {m : InMsg} (h : m.Fits cfg pkt payload) :
    m.accept cfg pkt payload now =
      if pkt.offset.toNat + payload.length ≤ m.buf.length then
        some (m.stored cfg pkt payload now) else none := by
  refine (if_pos h).trans ?_
  simp only [copyFromSlice]
  split_ifs <;> rfl

theorem accept_cases {cfg : TransportConfig} {pkt : Packet} {payload : List UInt8} {now : ℕ}
    {m m' : InMsg} (h : m.accept cfg pkt payload now = some m') :
    (¬ m.Fits cfg pkt payload ∧ m' = m) ∨
      (m.Fits cfg pkt payload ∧ pkt.offset.toNat + payload.length ≤ m.buf.length ∧
        m' = m.stored cfg pkt payload now) := by
  by_cases hf : m.Fits cfg pkt payload
  · rw [accept_of_fits hf] at h
    split_ifs at h with hb
    exact Or.inr ⟨hf, hb, (Option.some.inj h).symm⟩
  · rw [accept_of_not_fits hf] at h
    exact Or.inl ⟨hf, (Option.some.inj h).symm⟩

end InMsg

namespace ReceiverCore

/-- The outcomes of `handle_data`. -/
inductive DataStep (r : ReceiverCore Addr) (src : Addr) (pkt : Packet) (payload : List UInt8)
    (now : ℕ) : ReceiverCore Addr → List (Action Addr) → Prop
  | duplicate (hdup : (src, pkt.msgId) ∈ r.completed) : DataStep r src pkt payload now r []
  | refused (hlive : (src, pkt.msgId) ∉ r.completed) (hfull : r.refuses (src, pkt.msgId)) :
      DataStep r src pkt payload now r [.send src ((busyPacket pkt.msgId).encode [])]
  | store {m : InMsg} {r' : ReceiverCore Addr} {acts : List (Action Addr)}
      (hlive : (src, pkt.msgId) ∉ r.completed) (hroom : r.refuses (src, pkt.msgId) = false)
      (hpos : 0 < pkt.msgLen.toNat)
      (hm : (r.entryFor src pkt now).accept r.cfg pkt payload now = some m)
      (hopen : m.complete = false)
      (hs : Scheduled (r.enter (src, pkt.msgId) m) now r' acts) :
      DataStep r src pkt payload now r' acts
  | deliver {data : List UInt8} {r' : ReceiverCore Addr} {acts : List (Action Addr)}
      (hlive : (src, pkt.msgId) ∉ r.completed) (hroom : r.refuses (src, pkt.msgId) = false)
      (hdata : (pkt.msgLen.toNat = 0 ∧ data = []) ∨ (0 < pkt.msgLen.toNat ∧ ∃ m,
        (r.entryFor src pkt now).accept r.cfg pkt payload now = some m ∧
          m.complete = true ∧ data = m.buf))
      (hs : Scheduled (r.deliver (src, pkt.msgId) src data).1 now r' acts) :
      DataStep r src pkt payload now r' (.deliver src pkt.msgId data :: acts)

theorem deliver_enter (r : ReceiverCore Addr) (key : MsgKey Addr) (msg : InMsg) (src : Addr)
    (data : List UInt8) : (r.enter key msg).deliver key src data = r.deliver key src data := by
  unfold deliver enter
  rw [KeyMap.erase_insert]

/-- The specification of `handle_data`. -/
theorem handleData_spec {r r' : ReceiverCore Addr} {src : Addr} {pkt : Packet}
    {payload : List UInt8} {now : ℕ} {order : ScheduleOrder Addr} {acts : List (Action Addr)}
    (h : r.handleData src pkt payload now order = some (r', acts)) :
    DataStep r src pkt payload now r' acts := by
  unfold handleData at h
  dsimp only at h
  by_cases hdup : (src, pkt.msgId) ∈ r.completed
  · rw [if_pos hdup] at h
    obtain ⟨rfl, rfl⟩ := Prod.mk.inj (Option.some.inj h)
    exact .duplicate hdup
  rw [if_neg hdup] at h
  cases hfull : r.refuses (src, pkt.msgId) with
  | true =>
    rw [if_pos hfull] at h
    obtain ⟨rfl, rfl⟩ := Prod.mk.inj (Option.some.inj h)
    exact .refused hdup hfull
  | false =>
    rw [hfull, if_neg (by simp)] at h
    by_cases hzero : pkt.msgLen.toNat = 0
    · rw [if_pos hzero] at h
      obtain ⟨⟨r₂, acts₂⟩, hs, heq⟩ := Option.map_eq_some_iff.mp h
      obtain ⟨rfl, rfl⟩ := Prod.mk.inj heq
      exact .deliver hdup hfull (Or.inl ⟨hzero, rfl⟩) (schedule_spec hs)
    · rw [if_neg hzero] at h
      obtain ⟨m, hm, h⟩ := Option.bind_eq_some_iff.mp h
      obtain ⟨⟨r₂, acts₂⟩, hs, heq⟩ := Option.map_eq_some_iff.mp h
      obtain ⟨rfl, rfl⟩ := Prod.mk.inj heq
      cases hc : m.complete with
      | true =>
        rw [hc, if_pos rfl, deliver_enter] at hs
        rw [if_pos rfl, deliver_enter]
        exact .deliver hdup hfull (Or.inr ⟨by omega, m, hm, hc, rfl⟩) (schedule_spec hs)
      | false =>
        rw [hc, if_neg (by simp)] at hs
        rw [if_neg (by simp)]
        exact .store hdup hfull (by omega) hm hc (schedule_spec hs)

/-- What grants keep of the entries and a new entry satisfies, `handle_data` keeps. -/
theorem DataStep.entries {E : MsgKey Addr → InMsg → Prop} {r r' : ReceiverCore Addr} {src : Addr}
    {pkt : Packet} {payload : List UInt8} {now : ℕ} {acts : List (Action Addr)}
    (h : DataStep r src pkt payload now r' acts)
    (hgrant : ∀ k m, E k m → m.wantsGrant → E k (m.issueGrant r.cfg k now false).1)
    (hstore : ∀ m, 0 < pkt.msgLen.toNat →
      (r.entryFor src pkt now).accept r.cfg pkt payload now = some m → m.complete = false →
        E (src, pkt.msgId) m)
    (hE : ∀ k m, r.incoming.lookup k = some m → E k m) :
    ∀ k m, r'.incoming.lookup k = some m → E k m := by
  cases h with
  | duplicate => exact hE
  | refused => exact hE
  | store _ _ hpos hm hopen hs =>
    refine hs.entries hgrant fun k m' hm' => ?_
    rw [enter, KeyMap.lookup_insert_eq] at hm'
    split_ifs at hm' with hk
    · obtain rfl := Option.some.inj hm'
      rw [hk]
      exact hstore _ hpos hm hopen
    · exact hE k m' hm'
  | deliver _ _ _ hs =>
    refine hs.entries hgrant fun k m' hm' => ?_
    simp only [ReceiverCore.deliver, KeyMap.lookup_erase_eq] at hm'
    split_ifs at hm'
    exact hE k m' hm'

theorem DataStep.cfg_eq {r r' : ReceiverCore Addr} {src : Addr} {pkt : Packet}
    {payload : List UInt8} {now : ℕ} {acts : List (Action Addr)}
    (h : DataStep r src pkt payload now r' acts) : r'.cfg = r.cfg := by
  cases h with
  | duplicate => rfl
  | refused => rfl
  | store _ _ _ _ _ hs => exact hs.cfg
  | deliver _ _ _ hs => exact hs.cfg

/-- Where the entries after `handle_data` come from: the entry of the packet's key
has taken the packet, and every other entry was there before. -/
theorem DataStep.content {r r' : ReceiverCore Addr} {src : Addr} {pkt : Packet}
    {payload : List UInt8} {now : ℕ} {acts : List (Action Addr)}
    (h : DataStep r src pkt payload now r' acts) {k : MsgKey Addr} {m' : InMsg}
    (hm' : r'.incoming.lookup k = some m') :
    ∃ m, InMsg.SameContent m m' ∧
      ((r.incoming.lookup k = some m ∧ (k = (src, pkt.msgId) → k ∈ r.completed)) ∨
        (k = (src, pkt.msgId) ∧ (r.entryFor src pkt now).accept r.cfg pkt payload now = some m ∧
          m.complete = false)) := by
  cases h with
  | duplicate hdup =>
    refine ⟨m', InMsg.SameContent.refl m', Or.inl ⟨hm', ?_⟩⟩
    rintro rfl
    exact hdup
  | refused hlive hfull =>
    refine ⟨m', InMsg.SameContent.refl m', Or.inl ⟨hm', ?_⟩⟩
    rintro rfl
    have hnot : (src, pkt.msgId) ∉ r.incoming := by
      simp only [refuses, Bool.and_eq_true, decide_eq_true_eq] at hfull
      exact hfull.1
    exact absurd (KeyMap.mem_iff_lookup.mpr ⟨m', hm'⟩) hnot
  | store hlive hroom hpos hm hopen hs =>
    obtain ⟨m₁, hm₁, hc⟩ := hs.content hm'
    refine ⟨m₁, hc, ?_⟩
    rw [enter, KeyMap.lookup_insert_eq] at hm₁
    split_ifs at hm₁ with hk
    · obtain rfl := Option.some.inj hm₁
      exact Or.inr ⟨hk, hm, hopen⟩
    · exact Or.inl ⟨hm₁, fun h => absurd h hk⟩
  | deliver _ _ _ hs =>
    obtain ⟨m₁, hm₁, hc⟩ := hs.content hm'
    simp only [ReceiverCore.deliver, KeyMap.lookup_erase_eq] at hm₁
    split_ifs at hm₁ with hk
    exact ⟨m₁, hc, Or.inl ⟨hm₁, fun h => absurd h hk⟩⟩

/-- `handle_data` enters or removes no key but its own. -/
theorem DataStep.mem_iff {r r' : ReceiverCore Addr} {src : Addr} {pkt : Packet}
    {payload : List UInt8} {now : ℕ} {acts : List (Action Addr)}
    (h : DataStep r src pkt payload now r' acts) {k : MsgKey Addr} (hk : k ≠ (src, pkt.msgId)) :
    k ∈ r'.incoming ↔ k ∈ r.incoming := by
  cases h with
  | duplicate => exact Iff.rfl
  | refused => exact Iff.rfl
  | store _ _ _ _ _ hs =>
    rw [hs.mem_iff, enter, AList.mem_insert]
    exact or_iff_right hk
  | deliver _ _ _ hs =>
    rw [hs.mem_iff]
    simp only [ReceiverCore.deliver, AList.mem_erase]
    exact and_iff_right hk

/-- A message is either being received or remembered as delivered, not both. -/
def CompletedApart (r : ReceiverCore Addr) : Prop := ∀ k ∈ r.completed, k ∉ r.incoming

omit [DecidableEq Addr] in
theorem CompletedApart.new (cfg : TransportConfig) :
    CompletedApart (ReceiverCore.new cfg : ReceiverCore Addr) := by
  intro k hk
  cases hk

theorem CompletedApart.dataStep {r r' : ReceiverCore Addr} {src : Addr} {pkt : Packet}
    {payload : List UInt8} {now : ℕ} {acts : List (Action Addr)} (h : CompletedApart r)
    (hd : DataStep r src pkt payload now r' acts) : CompletedApart r' := by
  cases hd with
  | duplicate => exact h
  | refused => exact h
  | store hlive _ _ _ _ hs =>
    intro k hk
    rw [hs.completed] at hk
    rw [hs.mem_iff, enter, AList.mem_insert]
    rintro (rfl | hin)
    · exact hlive hk
    · exact h k hk hin
  | deliver _ _ _ hs =>
    intro k hk hin
    rw [hs.mem_iff] at hin
    rw [hs.completed] at hk
    simp only [ReceiverCore.deliver, AList.mem_erase, List.mem_append, List.mem_singleton] at hin hk
    rcases hk with hk | hk
    · have hmem : k ∈ r.completed := by
        split_ifs at hk
        · exact List.mem_of_mem_drop hk
        · exact hk
      exact h k hmem hin.2
    · exact hin.1 hk

theorem CompletedApart.tick {r r' : ReceiverCore Addr} {now : ℕ} {order : TickOrder Addr}
    {acts : List (Action Addr)} (h : CompletedApart r) (ht : r.tick now order = some (r', acts)) :
    CompletedApart r' := by
  obtain ⟨r₁, acts₂, hs, _, hcompleted, hlook, _⟩ := tick_spec ht
  intro k hk hin
  rw [hs.completed, hcompleted] at hk
  rw [hs.mem_iff, KeyMap.mem_iff_lookup] at hin
  obtain ⟨m, hm⟩ := hin
  rw [hlook k] at hm
  obtain ⟨m₀, hm₀, _⟩ := Option.bind_eq_some_iff.mp hm
  exact h k hk (KeyMap.mem_iff_lookup.mpr ⟨m₀, hm₀⟩)

/-- The invariant that keeps the receiver from panicking: buffers have the length of
their messages, and a byte counter is past the length only once the window is closed. -/
structure CountersFit (r : ReceiverCore Addr) : Prop where
  length_buf : ∀ k m, r.incoming.lookup k = some m → m.buf.length = m.totalLen
  counter : ∀ k m, r.incoming.lookup k = some m →
    m.receivedBytes ≤ m.totalLen ∨ m.totalLen ≤ m.grantedTo

/-- What a stored payload must satisfy: it ends inside the message as its first
packet stated it, and it does not take the byte counter past that length while the
window is open. -/
def Storable (m : InMsg) (pkt : Packet) (payload : List UInt8) : Prop :=
  pkt.offset.toNat + payload.length ≤ m.totalLen ∧
    (m.receivedBytes + payload.length ≤ m.totalLen ∨ m.totalLen ≤ m.grantedTo)

/-- A DATA packet that the receiver can take: if it is going to be stored, the
entry it is stored in has room for it. -/
def SafeData (r : ReceiverCore Addr) (src : Addr) (pkt : Packet) (payload : List UInt8)
    (now : ℕ) : Prop :=
  (src, pkt.msgId) ∉ r.completed → r.refuses (src, pkt.msgId) = false →
    0 < pkt.msgLen.toNat → (r.entryFor src pkt now).Fits r.cfg pkt payload →
      Storable (r.entryFor src pkt now) pkt payload

theorem schedule_isSome_deliver {r : ReceiverCore Addr} (h : CountersFit r) (key : MsgKey Addr)
    (src : Addr) (data : List UInt8) (now : ℕ) (order : ScheduleOrder Addr) :
    ((r.deliver key src data).1.schedule now order).isSome := by
  rw [schedule_isSome]
  intro k m hm hw
  simp only [deliver, KeyMap.lookup_erase_eq] at hm
  split_ifs at hm
  have hopen := (InMsg.wantsGrant_iff.mp hw).2
  have := h.counter k m hm
  omega

/-- Settling an entry panics if its counter is past the message and its window open. -/
theorem settle_isSome {r : ReceiverCore Addr} (h : CountersFit r) (key : MsgKey Addr)
    (src : Addr) (msg : InMsg) (now : ℕ) (order : ScheduleOrder Addr) :
    (r.settle key src msg now order).isSome ↔
      msg.receivedBytes ≤ msg.totalLen ∨ msg.totalLen ≤ msg.grantedTo := by
  rw [settle, Option.isSome_map]
  cases hc : msg.complete with
  | true =>
    have heq : msg.receivedBytes = msg.totalLen := by simpa [InMsg.complete] using hc
    rw [if_pos rfl, deliver_enter]
    exact ⟨fun _ => Or.inl heq.le, fun _ => schedule_isSome_deliver h key src msg.buf now order⟩
  | false =>
    have hne : msg.receivedBytes ≠ msg.totalLen := by simpa [InMsg.complete] using hc
    rw [if_neg (by simp), schedule_isSome]
    simp only [enter, KeyMap.lookup_insert_eq]
    constructor
    · intro hall
      by_contra hbad
      have hle := hall key msg (if_pos rfl) (InMsg.wantsGrant_iff.mpr ⟨hne, by omega⟩)
      omega
    · intro hmsg k m hm hw
      have hlt := (InMsg.wantsGrant_iff.mp hw).2
      split_ifs at hm with hk
      · obtain rfl := Option.some.inj hm
        omega
      · have := h.counter k m hm
        omega

/-- What holds of the open entry, or of a new one where none is open, holds of the entry that a
packet is written to. -/
theorem entryFor_cases {r : ReceiverCore Addr} {src : Addr} {pkt : Packet} {now : ℕ}
    {P : InMsg → Prop} (hopen : ∀ m, r.incoming.lookup (src, pkt.msgId) = some m → P m)
    (hnew : (src, pkt.msgId) ∉ r.incoming → P (InMsg.new r.cfg pkt.msgLen.toNat now)) :
    P (r.entryFor src pkt now) := by
  unfold entryFor
  cases hm : r.incoming.lookup (src, pkt.msgId) with
  | some m => exact hopen m hm
  | none => exact hnew (AList.lookup_eq_none.mp hm)

theorem CountersFit.entryFor {r : ReceiverCore Addr} (h : CountersFit r) (src : Addr)
    (pkt : Packet) (now : ℕ) :
    (r.entryFor src pkt now).buf.length = (r.entryFor src pkt now).totalLen ∧
      ((r.entryFor src pkt now).receivedBytes ≤ (r.entryFor src pkt now).totalLen ∨
        (r.entryFor src pkt now).totalLen ≤ (r.entryFor src pkt now).grantedTo) := by
  apply entryFor_cases (P := fun m => m.buf.length = m.totalLen ∧
    (m.receivedBytes ≤ m.totalLen ∨ m.totalLen ≤ m.grantedTo))
  · intro m hm
    exact ⟨h.length_buf _ _ hm, h.counter _ _ hm⟩
  · intro _
    exact ⟨by simp [InMsg.new], Or.inl (by simp [InMsg.new])⟩

/-- `handle_data` panics on exactly the packets that are not safe. -/
theorem handleData_isSome {r : ReceiverCore Addr} (h : CountersFit r) (src : Addr) (pkt : Packet)
    (payload : List UInt8) (now : ℕ) (order : ScheduleOrder Addr) :
    (r.handleData src pkt payload now order).isSome ↔ r.SafeData src pkt payload now := by
  unfold handleData SafeData
  dsimp only
  by_cases hdup : (src, pkt.msgId) ∈ r.completed
  · simp [hdup]
  rw [if_neg hdup]
  cases hfull : r.refuses (src, pkt.msgId) with
  | true => simp
  | false =>
    rw [if_neg (by simp)]
    by_cases hzero : pkt.msgLen.toNat = 0
    · rw [if_pos hzero, Option.isSome_map]
      simp [schedule_isSome_deliver h, hzero]
    rw [if_neg hzero]
    obtain ⟨hbuf, hcount⟩ := h.entryFor src pkt now
    generalize r.entryFor src pkt now = e at *
    by_cases hf : e.Fits r.cfg pkt payload
    · simp only [hdup, not_false_eq_true, hf, true_implies, Storable, Nat.pos_of_ne_zero hzero]
      rw [InMsg.accept_of_fits hf, hbuf]
      split_ifs with hb
      · rw [Option.bind_some, settle_isSome h]
        exact ⟨fun hs => ⟨hb, hs⟩, fun hs => hs.2⟩
      · simp [hb]
    · rw [InMsg.accept_of_not_fits hf, Option.bind_some, settle_isSome h]
      simp [hf, hcount]

theorem CountersFit.new (cfg : TransportConfig) :
    CountersFit (ReceiverCore.new cfg : ReceiverCore Addr) where
  length_buf k m hm := by simp [ReceiverCore.new] at hm
  counter k m hm := by simp [ReceiverCore.new] at hm

/-- The two entry properties of the invariant, as one. -/
def CounterFits (m : InMsg) : Prop :=
  m.buf.length = m.totalLen ∧ (m.receivedBytes ≤ m.totalLen ∨ m.totalLen ≤ m.grantedTo)

theorem countersFit_iff {r : ReceiverCore Addr} :
    CountersFit r ↔ ∀ k m, r.incoming.lookup k = some m → CounterFits m :=
  ⟨fun h k m hm => ⟨h.length_buf k m hm, h.counter k m hm⟩,
    fun h => ⟨fun k m hm => (h k m hm).1, fun k m hm => (h k m hm).2⟩⟩

/-- Nothing but a stored payload can break the invariant of an entry. -/
theorem CounterFits.of_sameContent {m m' : InMsg} (h : CounterFits m)
    (hc : InMsg.SameContent m m') (hg : m.grantedTo ≤ m'.grantedTo) : CounterFits m' := by
  obtain ⟨hbuf, hcount⟩ := h
  refine ⟨by rw [hc.buf, hc.totalLen, hbuf], ?_⟩
  rw [hc.receivedBytes, hc.totalLen]
  omega

/-- A packet that was taken keeps the invariant: had it not been safe, the
scheduling after it would have panicked. -/
theorem CountersFit.handleData {r r' : ReceiverCore Addr} (h : CountersFit r) {src : Addr}
    {pkt : Packet} {payload : List UInt8} {now : ℕ} {order : ScheduleOrder Addr}
    {acts : List (Action Addr)}
    (hd : r.handleData src pkt payload now order = some (r', acts)) : CountersFit r' := by
  have hsafe := (handleData_isSome h src pkt payload now order).mp (by rw [hd]; rfl)
  have hstep := handleData_spec hd
  obtain ⟨hbuf, hcount⟩ := h.entryFor src pkt now
  rw [countersFit_iff] at h ⊢
  by_cases hskip : (src, pkt.msgId) ∈ r.completed ∨ r.refuses (src, pkt.msgId)
  · cases hstep with
    | duplicate => exact h
    | refused => exact h
    | store hlive hroom => simp [hlive, hroom] at hskip
    | deliver hlive hroom => simp [hlive, hroom] at hskip
  rw [not_or] at hskip
  refine hstep.entries (fun k m hm _ => hm.of_sameContent (InMsg.issueGrant_content _ _ _ _ _)
    (InMsg.le_grantedTo_issueGrant _ _ _ _ _)) (fun m hpos hm _ => ?_) h
  rcases InMsg.accept_cases hm with ⟨_, rfl⟩ | ⟨hf, hb, rfl⟩
  · exact ⟨hbuf, hcount⟩
  · obtain ⟨_, hroom⟩ := hsafe hskip.1 (by simpa using hskip.2) hpos hf
    exact ⟨by simp only [InMsg.stored]; rw [length_overwrite hb, hbuf], hroom⟩

/-- `tick` keeps the invariant. -/
theorem CountersFit.tick {r r' : ReceiverCore Addr} (h : CountersFit r) {now : ℕ}
    {order : TickOrder Addr} {acts : List (Action Addr)}
    (ht : r.tick now order = some (r', acts)) : CountersFit r' := by
  rw [countersFit_iff] at h ⊢
  exact tick_entries ht
    (fun k m hm _ => hm.of_sameContent (InMsg.issueGrant_content _ _ _ _ _)
      (InMsg.le_grantedTo_issueGrant _ _ _ _ _))
    (fun k m m' _ hm hpm => hm.of_sameContent (tickEntry_content hpm).1 (tickEntry_content hpm).2)
    h

theorem CountersFit.tick_isSome {r : ReceiverCore Addr} (h : CountersFit r) (now : ℕ)
    (order : TickOrder Addr) : (r.tick now order).isSome :=
  ReceiverCore.tick_isSome fun k m hm hopen => by
    have := h.counter k m hm
    omega

end ReceiverCore
end AgentTransport
