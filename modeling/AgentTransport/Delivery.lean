import AgentTransport.Lossless

/-!
# Exactly once, without loss

A fragment that arrives is stored or completes its message. The scheduling after it
leaves an entry with bytes outstanding, whatever the overcommit is: a message that is
granted has its window raised, unless half an increment of it is outstanding already. A sum
that overflows would leave the window as it is, and both sides would wait.
-/
namespace AgentTransport
open ByteString Fragmentation Transition
open scoped BigOperators

variable {Addr : Type} [DecidableEq Addr]

namespace Network

/-- What an event hands to the receiver. -/
def input (rcv : Addr) (s : Network Addr) : Event Addr → Option (ReceiverInput Addr)
  | .deliver i now order => (s.flight[i]?.filter fun d => d.dest = rcv).map fun d =>
    .datagram d.src d.bytes now order
  | .receiverTick now order => some (.tick now order)
  | _ => none

/-- A sum of the receiver overflows. -/
def overflows (rcv : Addr) (s : Network Addr) (e : Event Addr) : Bool :=
  ((s.input rcv e).bind ReceiverInput.toCall).any s.receiver.overflows

/-- The events of a run in which no sum overflows. -/
def InRange (rcv : Addr) (keys : Finset (MsgKey Addr)) (D : MsgKey Addr → List UInt8)
    (s : Network Addr) (e : Event Addr) : Prop :=
  Lossless keys D s e ∧ s.overflows rcv e = false

instance (rcv : Addr) (keys : Finset (MsgKey Addr)) (D : MsgKey Addr → List UInt8)
    (s : Network Addr) : DecidablePred (s.InRange rcv keys D) :=
  fun _ => inferInstanceAs (Decidable (_ ∧ _))

/-- Scheduling leaves an entry with bytes outstanding, if there is an entry. -/
theorem lively_of_scheduled {r r' : ReceiverCore Addr} {now : ℕ} {acts : List (Action Addr)}
    (hinc : 2 ≤ r.cfg.grantIncrement) (hs : r.Scheduled now r' acts) (hsums : r'.SumsFit)
    (hopen : ∀ k m, r.incoming.lookup k = some m → m.receivedBytes < m.totalLen) : Lively r' := by
  intro k m' hm'
  obtain ⟨m, hm, hm'eq⟩ := hs.entry hm'
  by_cases hwants : m.wantsGrant
  · obtain ⟨k₁, hk₁⟩ := List.exists_mem_of_ne_nil _ (hs.nonempty k m hm hwants)
    obtain ⟨m₁, hm₁, _⟩ := hs.wants k₁ hk₁
    refine ⟨k₁, (m₁.issueGrant r.cfg k₁ now false).1, ?_, ?_⟩
    · rw [hs.lookup k₁, hm₁, Option.map_some, if_pos hk₁]
    · have hfit : m₁.SumFits r.cfg := by
        have hfit' := hsums k₁ hk₁ _ (by rw [hs.lookup k₁, hm₁, Option.map_some, if_pos hk₁])
        rwa [InMsg.SumFits, (InMsg.issueGrant_content _ _ _ _ _).receivedBytes, hs.cfg] at hfit'
      exact InMsg.lt_issueGrant hinc hfit (hopen k₁ m₁ hm₁) k₁ now
  · -- all of the message was granted before
    refine ⟨k, m', hm', ?_⟩
    have hlt := hopen k m hm
    have hfull : m.totalLen ≤ m.grantedTo := by
      by_contra hshort
      exact hwants (InMsg.wantsGrant_iff.mpr ⟨hlt.ne, Nat.not_le.mp hshort⟩)
    rw [hm'eq]
    split_ifs
    · rw [(InMsg.issueGrant_content r.cfg k now false m).receivedBytes]
      exact Nat.lt_of_lt_of_le hlt
        (hfull.trans (InMsg.le_grantedTo_issueGrant r.cfg k now false m))
    · exact Nat.lt_of_lt_of_le hlt hfull

variable {cfg : TransportConfig} {rcv : Addr} {keys : Finset (MsgKey Addr)}
  {D : MsgKey Addr → List UInt8} {s s' : Network Addr} {fl : List (Parcel Addr)}
  {key : MsgKey Addr} {i j now : ℕ}

/-- The messages being received are incomplete. -/
theorem Books.incomplete (h : Books cfg rcv keys D s fl) {m : InMsg}
    (hm : s.receiver.incoming.lookup key = some m) : m.receivedBytes < m.totalLen := by
  obtain ⟨hr, hopen⟩ := (h.phase key).rebuilds hm
  have hne : m.receivedBytes ≠ m.totalLen := by simpa [InMsg.complete] using hopen
  have hle := hr.le
  omega

theorem Books.bounds (h : Books cfg rcv keys D s fl) (hD : ∀ k ∈ keys, Sendable (D k))
    (hw : s.receiver.WindowsFit) {m : InMsg} (hm : s.receiver.incoming.lookup key = some m) :
    m.receivedBytes ≤ m.totalLen ∧ m.grantedTo ≤ m.totalLen ∧ m.totalLen < 2 ^ 32 := by
  have hr := ((h.phase key).rebuilds hm).1
  refine ⟨hr.le, hw key m hm, ?_⟩
  rw [hr.totalLen]
  exact (hD key (h.mem_keys hm)).2

/-- The entry that a fragment of a message is written to. -/
theorem Books.entryFor (h : Books cfg rcv keys D s fl) (hcfg : s.receiver.cfg = cfg)
    (hne : D key ≠ []) {pkt : Packet} (hid : pkt.msgId = key.2)
    (hlen : pkt.msgLen.toNat = (D key).length) (now : ℕ) :
    (s.receiver.entryFor key.1 pkt now).Rebuilds cfg.packetSize (D key) ∧
      (∀ q, (s.receiver.entryFor key.1 pkt now).received[q]? = some true ↔
        got (s.transfer rcv key).entry q = true) ∧
      (s.receiver.entryFor key.1 pkt now).grantedTo =
        window cfg (D key) (s.transfer rcv key).entry := by
  have hentry : (s.transfer rcv key).entry = s.receiver.incoming.lookup key := rfl
  unfold ReceiverCore.entryFor
  rw [hid, hentry]
  cases hm : s.receiver.incoming.lookup key with
  | some m => exact ⟨((h.phase key).rebuilds hm).1, fun q => got_some.symm, rfl⟩
  | none =>
    rw [Option.getD_none, hcfg, hlen]
    refine ⟨InMsg.Rebuilds.new cfg hne now, fun q => ?_, rfl⟩
    simp [InMsg.new, List.getElem?_replicate]

/-- Where a fragment in flight comes from. -/
theorem Books.fragment (h : Books cfg rcv keys D s fl) (hi : fl[i]? = some (.fragment key j)) :
    key ∈ keys ∧ s.deliveredFor key = [] ∧ j < count cfg.packetSize (D key).length ∧
      0 < fl.count (.fragment key j) := by
  have hflying : 0 < fl.count (.fragment key j) :=
    List.count_pos_iff.mpr (List.mem_of_getElem? hi)
  obtain ⟨o, hout, hdel, hpumps, hlt, _⟩ := (h.phase key).of_flying hflying
  refine ⟨(h.known key (h.started key (by rw [hout]; rfl))).1, hdel, ?_, hflying⟩
  exact Nat.lt_of_lt_of_le hlt (count_mono cfg.packetSize_pos hpumps.le)

/-- A fragment is stored. -/
theorem Books.stored (h : Books cfg rcv keys D s fl) (hi : fl[i]? = some (.fragment key j))
    {m : InMsg} (hr : m.Rebuilds cfg.packetSize (D key)) (hopen : m.complete = false)
    (hbits : ∀ q, m.received[q]? = some true ↔ got (s.transfer rcv key).entry q = true ∨ q = j)
    (hwin : m.grantedTo = window cfg (D key) (s.transfer rcv key).entry) (now : ℕ)
    {s₁ : Network Addr}
    (hs₁ : s₁ = { s.taken i now with receiver := s.receiver.enter key m }) :
    Books cfg rcv keys D s₁ (fl.eraseIdx i) ∧
      potential cfg rcv keys D s₁ + 1 ≤ potential cfg rcv keys D s := by
  have hlook : ∀ k, s₁.receiver.incoming.lookup k =
      if k = key then some m else s.receiver.incoming.lookup k := by
    intro k
    rw [hs₁, ReceiverCore.enter, KeyMap.lookup_insert_eq]
  have hentry : (s₁.transfer rcv key).entry = some m := (hlook key).trans (if_pos rfl)
  have hdel : ∀ k, s₁.deliveredFor k = s.deliveredFor k := by
    intro k
    rw [hs₁]
    rfl
  obtain ⟨_, _, _, hflying⟩ := h.fragment hi
  apply h.receive hi (by rw [hs₁]; rfl) (by rw [hs₁]; rfl) (by rw [hs₁]; rfl)
  · intro k hk
    rw [hlook k, if_neg hk]
  · intro k _
    exact hdel k
  · intro hfly hgrant
    rw [hentry, hdel]
    exact (h.phase key).store hflying hr hopen hbits hwin hfly hgrant
  · rw [hentry, hdel]
    exact credit_regrant (n := 0) hwin.ge (Or.inl rfl)
  · intro k hk
    rw [hdel]
    rw [hs₁] at hk
    exact h.completed k hk

/-- The last fragment arrives and the message is handed over. -/
theorem Books.landed (h : Books cfg rcv keys D s fl) (hi : fl[i]? = some (.fragment key j))
    (hall : ∀ q < count cfg.packetSize (D key).length,
      got (s.transfer rcv key).entry q = true ∨ q = j) (now : ℕ) {s₁ : Network Addr}
    (hs₁ : s₁ = { s.taken i now with
      receiver := (s.receiver.deliver key key.1 (D key)).1
      delivered := s.delivered ++ [(key, D key)] }) :
    Books cfg rcv keys D s₁ (fl.eraseIdx i) ∧
      potential cfg rcv keys D s₁ + 1 ≤ potential cfg rcv keys D s := by
  have hlook : ∀ k, s₁.receiver.incoming.lookup k =
      if k = key then none else s.receiver.incoming.lookup k := by
    intro k
    rw [hs₁, ReceiverCore.deliver, KeyMap.lookup_erase_eq]
  have hentry : (s₁.transfer rcv key).entry = none := (hlook key).trans (if_pos rfl)
  have hself : s₁.deliveredFor key = s.deliveredFor key ++ [D key] := by
    simp [hs₁, deliveredFor]
  have hdel : ∀ k, k ≠ key → s₁.deliveredFor k = s.deliveredFor k := by
    intro k hk
    simp [hs₁, deliveredFor, Network.taken, Ne.symm hk]
  obtain ⟨_, _, _, hflying⟩ := h.fragment hi
  apply h.receive hi (by rw [hs₁]; rfl) (by rw [hs₁]; rfl) (by rw [hs₁]; rfl)
  · intro k hk
    rw [hlook k, if_neg hk]
  · exact hdel
  · intro hfly _
    rw [hentry, hself]
    exact (h.phase key).land hflying hall hfly
  · rw [hentry, hself]
    exact credit_land cfg (D key) _ _ _
  · intro k hk
    by_cases heq : k = key
    · rw [heq, hself]
      simp
    · rw [hdel k heq]
      simp only [hs₁, ReceiverCore.deliver, List.mem_append, List.mem_singleton, heq, or_false]
        at hk
      apply h.completed k
      split_ifs at hk
      · exact List.mem_of_mem_drop hk
      · exact hk

/-- A fragment arrives. -/
theorem Books.data (h : Books cfg rcv keys D s fl) (hcfg : s.receiver.cfg = cfg)
    (hinc : 2 ≤ cfg.grantIncrement) (hmax : keys.card ≤ cfg.maxIncoming)
    (hD : ∀ k ∈ keys, Sendable (D k)) (hi : fl[i]? = some (.fragment key j)) {pkt : Packet}
    {payload : List UInt8} (hf : IsFragment cfg.packetSize (D key) pkt payload)
    (hid : pkt.msgId = key.2) (hj : pkt.offset.toNat / cfg.packetSize = j)
    {order : ScheduleOrder Addr} {r' : ReceiverCore Addr} {acts : List (Action Addr)}
    (hcall : s.receiver.call (.handleData key.1 pkt payload now order) = some (r', acts))
    (hno : s.receiver.overflows (.handleData key.1 pkt payload now order) = false)
    (hsums : s.receiver.SumsFit) (hw : r'.WindowsFit)
    (hs' : s' = emit rcv acts { s.taken i now with receiver := r' }) :
    (∃ fl', Books cfg rcv keys D s' fl') ∧ Lively s'.receiver ∧ s'.receiver.SumsFit ∧
      potential cfg rcv keys D s' + 1 ≤ potential cfg rcv keys D s := by
  obtain ⟨hkey, hdel, hlt, hflying⟩ := h.fragment hi
  obtain ⟨hr, hgot, hwin⟩ := h.entryFor hcfg (hD key hkey).1 hid hf.msgLen now
  obtain ⟨m₁, hm₁, hr₁, hbits, hgranted, _⟩ := hr.accept hf now
  simp only [hj, hgot] at hbits
  -- the state between the fragment and the scheduling
  have hsettled : ∃ s₁ acts₁, Books cfg rcv keys D s₁ (fl.eraseIdx i) ∧
      potential cfg rcv keys D s₁ + 1 ≤ potential cfg rcv keys D s ∧
      s₁.receiver.cfg = cfg ∧ s₁.receiver.Scheduled now r' acts₁ ∧
      s' = emit rcv acts₁ { s₁ with receiver := r' } := by
    have hpair : (key.1, pkt.msgId) = key := by rw [hid]
    cases ReceiverCore.handleData_spec hcall with
    | duplicate hdup =>
      rw [hpair] at hdup
      exact absurd hdel (h.completed key hdup)
    | refused _ hfull =>
      rw [hpair, h.room (by rwa [hcfg]) hkey] at hfull
      cases hfull
    | store _ _ _ hm hopen hsched =>
      rw [hcfg] at hm
      obtain rfl := Option.some.inj (hm.symm.trans hm₁)
      rw [hpair] at hsched
      obtain ⟨hbooks, hpot⟩ := h.stored hi hr₁ hopen hbits (hgranted.trans hwin) now rfl
      exact ⟨_, acts, hbooks, hpot, hcfg, hsched, hs'⟩
    | @deliver d _ acts' _ _ hdata hsched =>
      obtain ⟨rfl, hcomplete⟩ : d = D key ∧ m₁.complete = true := by
        rcases hdata with ⟨hzero, _⟩ | ⟨_, m, hm, hcomplete, rfl⟩
        · have hoff := hf.offset_lt
          have hmsg := hf.msgLen
          omega
        · rw [hcfg] at hm
          obtain rfl := Option.some.inj (hm.symm.trans hm₁)
          exact ⟨hr₁.buf_eq cfg.packetSize_pos hcomplete, hcomplete⟩
      have hall := (hr₁.complete_iff cfg.packetSize_pos).mp hcomplete
      rw [hpair] at hsched
      obtain ⟨hbooks, hpot⟩ := h.landed hi (fun q hq => (hbits q).mp (hall q hq)) now rfl
      refine ⟨_, acts', hbooks, hpot, hcfg, hsched, ?_⟩
      rw [hs', emit, emit, deliveries_deliver, hsched.deliveries, hpair, List.append_nil]
      rfl
  obtain ⟨s₁, acts₁, hbooks, hpot, hcfg₁, hsched, hs'⟩ := hsettled
  obtain ⟨hbooks', hpot'⟩ := hbooks.scheduled hcfg₁ hsched hw hs'
  have hreceiver : s'.receiver = r' := by rw [hs']; rfl
  have hsums' : r'.SumsFit := hsums.call hcall hno fun k m hm =>
    hbooks'.bounds hD (by rwa [hreceiver]) (by rwa [hreceiver])
  rw [hreceiver]
  refine ⟨⟨_, hbooks'⟩, ?_, hsums', by omega⟩
  exact lively_of_scheduled (by rwa [hcfg₁]) hsched hsums' fun k m hm => hbooks.incomplete hm

/-- A datagram in flight is the datagram of a parcel, which says how it is read. -/
theorem Books.parcel (h : Books cfg rcv keys D s fl) (hD : ∀ k ∈ keys, Sendable (D k))
    {d : Datagram Addr} (hd : s.flight[i]? = some d) :
    ∃ pkt payload, Packet.decode d.bytes = .ok (pkt, payload) ∧
      ((∃ key j, fl[i]? = some (.fragment key j) ∧ d.src = key.1 ∧ d.dest = rcv ∧
        pkt.typ = .data ∧ pkt.msgId = key.2 ∧ IsFragment cfg.packetSize (D key) pkt payload ∧
        pkt.offset.toNat / cfg.packetSize = j) ∨
      ∃ key target added, fl[i]? = some (.grant key target added) ∧ d.src = rcv ∧
        d.dest = key.1 ∧ pkt = grantHeader (D key) key.2 target added) := by
  rw [h.flight, List.getElem?_map] at hd
  obtain ⟨p, hp, rfl⟩ := Option.map_eq_some_iff.mp hd
  cases p with
  | fragment key j =>
    obtain ⟨hkey, _, hj, _⟩ := h.fragment hp
    obtain ⟨pkt, payload, hdec, htyp, hid, hf, hidx⟩ :=
      decode_fragment cfg.packetSize_pos (hD key hkey).2 key.2 hj
    exact ⟨pkt, payload, hdec, Or.inl ⟨key, j, hp, rfl, rfl, htyp, hid, hf, hidx⟩⟩
  | grant key target added =>
    refine ⟨_, [], Packet.decode_encode ?_, Or.inr ⟨key, target, added, hp, rfl, rfl, rfl⟩⟩
    intro htyp
    cases htyp

/-- Only DATA packets and GRANTs are in flight. -/
theorem Books.typ_of_decode (h : Books cfg rcv keys D s fl) (hD : ∀ k ∈ keys, Sendable (D k))
    {d : Datagram Addr} (hd : s.flight[i]? = some d) {pkt : Packet} {payload : List UInt8}
    (hdec : Packet.decode d.bytes = .ok (pkt, payload)) : pkt.typ = .data ∨ pkt.typ = .grant := by
  obtain ⟨pkt', payload', hdec', hparcel⟩ := h.parcel hD hd
  obtain ⟨rfl, rfl⟩ := Prod.mk.inj (Except.ok.inj (hdec.symm.trans hdec'))
  rcases hparcel with ⟨key, j, _, _, _, hdata, _⟩ | ⟨key, target, added, _, _, _, hpkt⟩
  · exact Or.inl hdata
  · rw [hpkt]
    exact Or.inr rfl

/-- A step keeps the books, leaves an entry with bytes outstanding, and spends a unit. -/
theorem Books.effect (h : Books cfg rcv keys D s fl) (hhealthy : Healthy cfg s)
    (hlively : Lively s.receiver) (hsums : s.receiver.SumsFit) (hD : ∀ k ∈ keys, Sendable (D k))
    (hun : 0 < cfg.unscheduledBytes) (hinc : 2 ≤ cfg.grantIncrement)
    (hmax : keys.card ≤ cfg.maxIncoming) {e : Event Addr} (hok : s.InRange rcv keys D e)
    (he : Effect rcv s e s') :
    (∃ fl', Books cfg rcv keys D s' fl') ∧ Lively s'.receiver ∧ s'.receiver.SumsFit ∧
      potential cfg rcv keys D s' + 1 ≤ potential cfg rcv keys D s := by
  have hhealthy' := hhealthy.effect he
  obtain ⟨hok, hno⟩ := hok
  cases he with
  | @start src msgId data now hclock hfresh =>
    obtain ⟨hkey, rfl⟩ := hok
    obtain ⟨hbooks, hpot⟩ := h.start hhealthy.toWired hD hun hkey hfresh now rfl
    exact ⟨hbooks, hlively, hsums, hpot⟩
  | @ignored i now order d hd hclock hskip =>
    obtain ⟨pkt, payload, hdec, hparcel⟩ := h.parcel hD hd
    obtain ⟨htyp, hdest⟩ := hskip pkt payload hdec
    rcases hparcel with ⟨key, j, _, _, hrcv, _⟩ | ⟨key, target, added, _, _, _, hpkt⟩
    · exact absurd hrcv hdest
    · rw [hpkt] at htyp
      cases htyp
  | @data i now order d pkt payload r' acts hd hclock hdest hdec htyp hr =>
    obtain ⟨pkt', payload', hdec', hparcel⟩ := h.parcel hD hd
    obtain ⟨rfl, rfl⟩ := Prod.mk.inj (Except.ok.inj (hdec.symm.trans hdec'))
    rcases hparcel with ⟨key, j, hi, hsrc, _, _, hid, hf, hj⟩ | ⟨key, target, added, _, _, _, hpkt⟩
    · simp only [overflows, input, hd, Option.filter_some, hdest, decide_true, if_true,
        Option.map_some, Option.bind_some, ReceiverInput.toCall, hdec, htyp, Option.any_some] at hno
      rw [hsrc] at hr hno
      exact h.data hhealthy.receiver_cfg hinc hmax hD hi hf hid hj hr hno hsums
        hhealthy'.windows rfl
    · rw [hpkt] at htyp
      cases htyp
  | @grant i now order d pkt payload hd hclock hdec htyp =>
    obtain ⟨pkt', payload', hdec', hparcel⟩ := h.parcel hD hd
    obtain ⟨rfl, rfl⟩ := Prod.mk.inj (Except.ok.inj (hdec.symm.trans hdec'))
    rcases hparcel with ⟨key, j, _, _, _, hdata, _⟩ | ⟨key, target, added, hi, hsrc, hdest, hpkt⟩
    · rw [htyp] at hdata
      cases hdata
    · rw [hsrc, hdest]
      obtain ⟨hbooks, hpot⟩ := h.grant hhealthy.toWired hhealthy.windows hD hi now rfl hpkt
      exact ⟨hbooks, hlively, hsums, hpot⟩
  | resend hd hclock hdec htyp =>
    have hkind := h.typ_of_decode hD hd hdec
    rw [htyp] at hkind
    cases hkind with
    | inl hdata => cases hdata
    | inr hgrant => cases hgrant
  | busy hd hclock hdec htyp =>
    have hkind := h.typ_of_decode hD hd hdec
    rw [htyp] at hkind
    cases hkind with
    | inl hdata => cases hdata
    | inr hgrant => cases hgrant
  | drop => cases hok
  | duplicate => cases hok
  | senderTick => cases hok
  | receiverTick => cases hok

/-- What is in flight can arrive. -/
theorem Books.deliver_isSome (h : Books cfg rcv keys D s fl) (hhealthy : Healthy cfg s)
    (hD : ∀ k ∈ keys, Sendable (D k)) (hi : i < s.flight.length) (hclock : s.clock ≤ now)
    (order : ScheduleOrder Addr) : (s.step rcv (.deliver i now order)).isSome := by
  have hd := List.getElem?_eq_getElem hi
  obtain ⟨pkt, payload, hdec, hparcel⟩ := h.parcel hD hd
  rcases hparcel with ⟨key, j, hfl, hsrc, hdest, htyp, hid, hf, _⟩ |
    ⟨key, target, added, _, _, _, hpkt⟩
  · have hcfg := hhealthy.receiver_cfg
    obtain ⟨hkey, _⟩ := h.fragment hfl
    obtain ⟨hr, _⟩ := h.entryFor hcfg (hD key hkey).1 hid hf.msgLen now
    rw [← hsrc] at hr
    have hsafe : s.receiver.SafeData (s.flight[i]).src pkt payload now :=
      ReceiverCore.safeData_of_rebuilds (by rwa [hcfg]) (by rwa [hcfg])
    obtain ⟨⟨r', acts⟩, hr'⟩ := Option.isSome_iff_exists.mp
      ((ReceiverCore.handleData_isSome hhealthy.counters _ pkt payload now order).mpr hsafe)
    rw [step_data rcv hd hclock hdest hdec htyp hr']
    rfl
  · have htyp : pkt.typ = .grant := by rw [hpkt]; rfl
    simp only [Network.step, hd, if_pos hclock, arrive, hdec, htyp, Option.isSome_some]

/-- With nothing in flight there are no entries, and what was started has landed. -/
theorem Books.quiet (h : Books cfg rcv keys D s fl) (hlively : Lively s.receiver)
    (hquiet : s.flight = []) (hstarted : key ∈ s.started.map Prod.fst) :
    s.deliveredFor key = [D key] ∧ (s.senders key.1).isDone rcv key.2 := by
  have hempty : fl = [] := by
    have hfl := h.flight
    rw [hquiet] at hfl
    exact List.map_eq_nil_iff.mp hfl.symm
  subst hempty
  have hnone : s.receiver.incoming.lookup key = none := by
    by_contra hsome
    obtain ⟨m, hm⟩ := Option.ne_none_iff_exists'.mp hsome
    obtain ⟨k', m', hm', hlt⟩ := hlively key m hm
    have hle := (h.phase k').granted_le (fun _ => rfl) (by simp) hm'
    omega
  obtain ⟨o, ho⟩ := Option.isSome_iff_exists.mp (h.known key hstarted).2
  have hphase := h.phase key
  have hentry : (s.transfer rcv key).entry = none := hnone
  rw [ho, hentry] at hphase
  obtain ⟨hdel, hdone⟩ := hphase.landed_of_quiet fun _ => rfl
  have hlook : (s.senders key.1).out.lookup (rcv, key.2) = some o := ho
  refine ⟨hdel, ?_⟩
  rw [SenderCore.isDone, hlook, Option.all_some]
  exact hdone

/-- What every run without losses keeps. -/
structure Flowing (cfg : TransportConfig) (rcv : Addr) (keys : Finset (MsgKey Addr))
    (D : MsgKey Addr → List UInt8) (s : Network Addr) : Prop where
  healthy : Healthy cfg s
  lively : Lively s.receiver
  sums : s.receiver.SumsFit
  books : ∃ fl, Books cfg rcv keys D s fl

theorem Flowing.new (cfg : TransportConfig) (rcv : Addr) (keys : Finset (MsgKey Addr))
    (D : MsgKey Addr → List UInt8) : Flowing cfg rcv keys D (Network.new cfg : Network Addr) where
  healthy := Healthy.new cfg
  lively k m hm := by simp [Network.new, ReceiverCore.new] at hm
  sums k hk := by cases hk
  books := ⟨[], Books.new cfg rcv keys D⟩

/-- The credits of messages that were not started. -/
theorem potential_new (cfg : TransportConfig) (rcv : Addr) (keys : Finset (MsgKey Addr))
    (D : MsgKey Addr → List UInt8) :
    potential cfg rcv keys D (Network.new cfg : Network Addr) = ∑ key ∈ keys,
      (1 + count cfg.packetSize (D key).length + ((D key).length - cfg.unscheduledBytes)) := by
  have hidle : ∀ key, (Network.new cfg : Network Addr).transfer rcv key = Transfer.idle :=
    fun key => (Traced.new cfg Policy.any rcv).idle key (by simp [Network.new])
  unfold potential
  rw [show (Network.new cfg : Network Addr).flight.length = 0 from rfl, Nat.zero_add]
  refine Finset.sum_congr rfl fun key _ => ?_
  rw [hidle]
  simp only [Transfer.idle, credit, window, deliveredFor, Network.new, Option.isNone_none,
    Option.map_none, Option.getD_none, count_zero cfg.packetSize_pos, List.filter_nil, List.map_nil,
    if_true]
  omega

/-- **Exactly once, without loss**, as long as no sum overflows. Messages are started at any
moments and the network delays and reorders. Each run is finite, what is in flight can always
arrive, and when all has been started and nothing is in flight, every message was delivered
once, with its bytes, and its sender is done. -/
theorem lossless_delivery (cfg : TransportConfig) (hun : 0 < cfg.unscheduledBytes)
    (hinc : 2 ≤ cfg.grantIncrement) (rcv : Addr) (keys : Finset (MsgKey Addr))
    (hmax : keys.card ≤ cfg.maxIncoming) (D : MsgKey Addr → List UInt8)
    (hD : ∀ key ∈ keys, Sendable (D key)) {evs : List (Event Addr)} {s : Network Addr}
    (h : Run (Network.step rcv) (InRange rcv keys D) (Network.new cfg) evs s) :
    evs.length ≤ ∑ key ∈ keys, (1 + count cfg.packetSize (D key).length +
      ((D key).length - cfg.unscheduledBytes)) ∧
    (∀ i < s.flight.length, ∀ now ≥ s.clock, ∀ order,
      (s.step rcv (.deliver i now order)).isSome) ∧
    ((∀ key ∈ keys, key ∈ s.started.map Prod.fst) → s.flight = [] → ∀ key ∈ keys,
      s.deliveredFor key = [D key] ∧ (s.senders key.1).isDone rcv key.2) := by
  have hstep : ∀ s e t, Flowing cfg rcv keys D s → InRange rcv keys D s e → s.step rcv e = some t →
      Flowing cfg rcv keys D t ∧ potential cfg rcv keys D t + 1 ≤ potential cfg rcv keys D s := by
    intro s e t hs hok ht
    obtain ⟨fl, hbooks⟩ := hs.books
    obtain ⟨hbooks', hlively, hsums, hpot⟩ :=
      hbooks.effect hs.healthy hs.lively hs.sums hD hun hinc hmax hok (step_spec ht)
    exact ⟨⟨hs.healthy.step ht, hlively, hsums, hbooks'⟩, hpot⟩
  have hflowing := h.invariant (fun s e t hs hok ht => (hstep s e t hs hok ht).1)
    (Flowing.new cfg rcv keys D)
  have hlength := h.length_add_le (μ := potential cfg rcv keys D)
    (fun s e t hs hok ht => (hstep s e t hs hok ht).1)
    (fun s e t hs hok ht => (hstep s e t hs hok ht).2) (Flowing.new cfg rcv keys D)
  rw [potential_new] at hlength
  obtain ⟨fl, hbooks⟩ := hflowing.books
  refine ⟨by omega, fun i hi now hnow order => ?_, fun hstarted hquiet key hkey => ?_⟩
  · exact hbooks.deliver_isSome hflowing.healthy hD hi hnow order
  · exact hbooks.quiet hflowing.lively hquiet (hstarted key hkey)

/-- Host 0 sends eight bytes and host 2 three. Their first fragments overtake each
other, and the GRANT for the second half comes last. -/
def twoSenders : List (Event ℕ) :=
  [.start 0 1 [1, 2, 3, 4, 5, 6, 7, 8] 0, .start 2 1 [9, 9, 9] 0, .deliver 1 0 default,
    .deliver 0 0 default, .deliver 0 0 default, .deliver 0 0 default]

def twoMessages (key : MsgKey ℕ) : List UInt8 :=
  if key = (0, 1) then [1, 2, 3, 4, 5, 6, 7, 8] else [9, 9, 9]

theorem sendable_twoMessages (key : MsgKey ℕ) : Sendable (twoMessages key) := by
  unfold twoMessages
  split_ifs
  · exact ⟨by decide, by decide⟩
  · exact ⟨by decide, by decide⟩

theorem lossless_delivery_two : ∃ s : Network ℕ,
    Run (Network.step 1) (InRange 1 {(0, 1), (2, 1)} twoMessages) (Network.new tinyConfig)
      twoSenders s ∧
    ∀ key ∈ ({(0, 1), (2, 1)} : Finset (MsgKey ℕ)),
      s.deliveredFor key = [twoMessages key] ∧ (s.senders key.1).isDone 1 key.2 := by
  have hout : (exec (guarded (Network.step 1) (InRange 1 {(0, 1), (2, 1)} twoMessages)) twoSenders
      (Network.new tinyConfig)).map (fun s => (s.started.map Prod.fst, s.flight.length)) =
        some ([(0, 1), (2, 1)], 0) := by
    decide +kernel
  obtain ⟨s, hs, hview⟩ := Option.map_eq_some_iff.mp hout
  obtain ⟨hstarted, hflight⟩ := Prod.mk.inj hview
  obtain ⟨_, _, hdone⟩ := lossless_delivery tinyConfig (by decide) (by decide) 1
    {(0, 1), (2, 1)} (by decide) twoMessages (fun key _ => sendable_twoMessages key)
    (run_of_guarded hs)
  refine ⟨s, run_of_guarded hs, hdone ?_ (List.eq_nil_of_length_eq_zero hflight)⟩
  rw [hstarted]
  decide

/-- A sum that wraps raises no window, and so no GRANT is sent. Both sides wait. -/
theorem lossless_delivery_fails : ∃ s : Network ℕ,
    Run (Network.step 1)
      (Lossless {(0, 1)} fun _ => [1, 2, 3, 4, 5, 6, 7, 8, 9, 10, 11, 12, 13, 14, 15, 16])
      (Network.new ReceiverCore.hugeConfig)
      [.start 0 1 [1, 2, 3, 4, 5, 6, 7, 8, 9, 10, 11, 12, 13, 14, 15, 16] 0,
        .deliver 0 0 default] s ∧
    s.started.map Prod.fst = [(0, 1)] ∧ s.flight = [] ∧ s.deliveredFor (0, 1) = [] ∧
    (s.senders 0).isDone 1 1 = false :=
  ⟨_, run_of_admitted rfl ⟨⟨by decide, rfl⟩, fun _ _ => ⟨trivial, fun _ _ => trivial⟩⟩, rfl, rfl,
    rfl, rfl⟩

end Network
end AgentTransport
