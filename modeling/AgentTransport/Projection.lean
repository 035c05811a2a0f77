import AgentTransport.Transfer

/-!
# The moves behind a handler

The packets that a handler sends, sorted by type and by message, and the moves of a
transfer that a call of the receiver core amounts to.
-/
namespace AgentTransport
open ByteString Transition

variable {Addr : Type} [DecidableEq Addr]

/-- The packets of a type that actions send to `dest` for the message `msgId`. -/
def packetsFor (typ : PacketType) (dest : Addr) (msgId : UInt64) (acts : List (Action Addr)) :
    Set (Packet × List UInt8) :=
  {x | ∃ bytes, .send dest bytes ∈ acts ∧ Packet.decode bytes = .ok x ∧
    x.1.typ = typ ∧ x.1.msgId = msgId}

/-- All packets that actions send have one of the given types. -/
def EmitsOnly (types : PacketType → Prop) (acts : List (Action Addr)) : Prop :=
  ∀ dest bytes, .send dest bytes ∈ acts → ∃ pkt q, bytes = Packet.encode pkt q ∧ types pkt.typ

section Emitted

omit [DecidableEq Addr]

variable {types : PacketType → Prop} {acts acts' : List (Action Addr)}

theorem EmitsOnly.nil : EmitsOnly types ([] : List (Action Addr)) := by
  intro dest bytes h
  cases h

theorem EmitsOnly.append (h : EmitsOnly types acts) (h' : EmitsOnly types acts') :
    EmitsOnly types (acts ++ acts') := by
  intro dest bytes hmem
  rcases List.mem_append.mp hmem with hmem | hmem
  · exact h dest bytes hmem
  · exact h' dest bytes hmem

theorem EmitsOnly.mono {types' : PacketType → Prop} (h : EmitsOnly types acts)
    (himp : ∀ t, types t → types' t) : EmitsOnly types' acts := by
  intro dest bytes hmem
  obtain ⟨pkt, q, hb, ht⟩ := h dest bytes hmem
  exact ⟨pkt, q, hb, himp _ ht⟩

/-- Nothing is sent of a type that is not emitted. -/
theorem EmitsOnly.packetsFor_eq (h : EmitsOnly types acts) {typ : PacketType} (ht : ¬ types typ)
    (dest : Addr) (msgId : UInt64) : packetsFor typ dest msgId acts = ∅ := by
  ext x
  constructor
  · rintro ⟨bytes, hmem, hdec, htyp, _⟩
    obtain ⟨pkt, q, rfl, hpkt⟩ := h dest bytes hmem
    have heq := (Packet.eq_of_decode_encode hdec).1
    rw [← heq, htyp] at hpkt
    exact absurd hpkt ht
  · intro hx
    cases hx

theorem emitsOnly_sendRanges (dest : Addr) (msgId : UInt64) (data : List UInt8)
    (rs : List (ℕ × ℕ)) : EmitsOnly (· = .data) (sendRanges dest msgId data rs) := by
  intro dest' bytes hmem
  obtain ⟨r, _, hr⟩ := List.mem_map.mp hmem
  obtain ⟨_, rfl⟩ := Action.send.inj hr
  exact ⟨_, _, dataPacket_eq data msgId r.1 r.2, rfl⟩

theorem deliveries_sendRanges (dest : Addr) (msgId : UInt64) (data : List UInt8)
    (rs : List (ℕ × ℕ)) : deliveries (sendRanges dest msgId data rs) = [] := by
  apply deliveries_of_sends
  intro a ha
  obtain ⟨r, _, rfl⟩ := List.mem_map.mp ha
  exact ⟨_, _, rfl⟩

/-- The packets of one message below `2^32` bytes. -/
theorem packetsFor_sendRanges {data : List UInt8} (hlen : data.length < 2 ^ 32) (dest : Addr)
    (msgId : UInt64) (rs : List (ℕ × ℕ)) :
    packetsFor .data dest msgId (sendRanges dest msgId data rs) = frames data msgId rs := by
  ext x
  constructor
  · rintro ⟨bytes, hmem, hdec, _, _⟩
    obtain ⟨r, hr, heq⟩ := List.mem_map.mp hmem
    obtain ⟨_, rfl⟩ := Action.send.inj heq
    rw [decode_dataPacket hlen] at hdec
    exact ⟨r, hr, (Except.ok.inj hdec).symm⟩
  · rintro ⟨r, hr, rfl⟩
    exact ⟨_, List.mem_map.mpr ⟨r, hr, rfl⟩, decode_dataPacket hlen msgId r.1 r.2, rfl, rfl⟩

theorem packetsFor_sendRanges_of_ne {dest dest' : Addr} {msgId msgId' : UInt64}
    (hne : (dest, msgId) ≠ (dest', msgId')) (data : List UInt8) (rs : List (ℕ × ℕ)) :
    packetsFor .data dest' msgId' (sendRanges dest msgId data rs) = ∅ := by
  ext x
  constructor
  · rintro ⟨bytes, hmem, hdec, _, hid⟩
    obtain ⟨r, hr, heq⟩ := List.mem_map.mp hmem
    obtain ⟨rfl, rfl⟩ := Action.send.inj heq
    have hx := (eq_of_decode_dataPacket hdec).1
    rw [hx] at hid
    exact (hne (Prod.ext rfl hid)).elim
  · intro hx
    cases hx

@[simp] theorem frames_nil (data : List UInt8) (msgId : UInt64) : frames data msgId [] = ∅ := by
  ext x
  simp [frames]

end Emitted

namespace ReceiverCore

variable {r r' : ReceiverCore Addr} {now : ℕ} {acts : List (Action Addr)}

omit [DecidableEq Addr] in
theorem emitsOnly_issueGrant (cfg : TransportConfig) (key : MsgKey Addr) (now : ℕ) (force : Bool)
    (m : InMsg) : EmitsOnly (· = .grant) (m.issueGrant cfg key now force).2 := by
  intro dest bytes hmem
  rcases InMsg.issueGrant_cases cfg key now force m with hg | hg
  · rw [hg] at hmem
    cases hmem
  · rw [hg] at hmem
    obtain ⟨_, rfl⟩ := Action.send.inj (List.mem_singleton.mp hmem)
    exact ⟨_, _, rfl, rfl⟩

theorem Scheduled.emitsOnly (h : Scheduled r now r' acts) : EmitsOnly (· = .grant) acts := by
  intro dest bytes hmem
  obtain ⟨k, m, _, _, hk⟩ := h.mem_acts hmem
  exact emitsOnly_issueGrant r.cfg k now false m dest bytes hk

/-- `handle_data` sends GRANTs and BUSYs. -/
theorem DataStep.emitsOnly {src : Addr} {pkt : Packet} {payload : List UInt8}
    (h : DataStep r src pkt payload now r' acts) :
    EmitsOnly (fun t => t = .grant ∨ t = .busy) acts := by
  cases h with
  | duplicate => exact EmitsOnly.nil
  | refused =>
    intro dest bytes hmem
    obtain ⟨_, rfl⟩ := Action.send.inj (List.mem_singleton.mp hmem)
    exact ⟨_, _, rfl, Or.inr rfl⟩
  | store _ _ _ _ _ hs => exact hs.emitsOnly.mono fun _ => Or.inl
  | deliver _ _ _ hs =>
    intro dest bytes hmem
    rcases List.mem_cons.mp hmem with hmem | hmem
    · cases hmem
    · obtain ⟨pkt, q, hb, ht⟩ := hs.emitsOnly dest bytes hmem
      exact ⟨pkt, q, hb, Or.inl ht⟩

omit [DecidableEq Addr] in
/-- A pass of `tick` sends a GRANT, or a RESEND from the first missing fragment on. -/
theorem tickEntry_acts {cfg : TransportConfig} {k : MsgKey Addr} {granted : Bool} {m : InMsg}
    {a : Action Addr} (ha : a ∈ (tickEntry cfg now k granted m).2) :
    ∃ pkt, a = .send k.1 (Packet.encode pkt []) ∧ pkt.msgId = k.2 ∧ (pkt.typ = .grant ∨
      cfg.resendTimeout ≤ now - m.lastProgress ∧
        ∃ off, m.missingInWindow cfg = some off ∧ pkt = m.resendPacket cfg k off) := by
  rcases tickEntry_cases cfg now k granted m with
    ⟨_, he⟩ | ⟨hlate, ⟨off, hoff, _, he⟩ | ⟨off, hoff, _, he⟩ | ⟨_, t, he⟩ | ⟨_, he⟩⟩ <;>
    rw [he] at ha
  · cases ha
  · exact ⟨_, List.mem_singleton.mp ha, rfl, Or.inr ⟨hlate, off, hoff, rfl⟩⟩
  · exact ⟨_, List.mem_singleton.mp ha, rfl, Or.inr ⟨hlate, off, hoff, rfl⟩⟩
  · cases ha
  · rcases InMsg.issueGrant_cases cfg k now true { m with lastProgress := now } with hg | hg
    · rw [hg] at ha
      cases ha
    · rw [hg] at ha
      exact ⟨_, List.mem_singleton.mp ha, rfl, Or.inl rfl⟩

/-- `tick` sends GRANTs and RESENDs. -/
theorem tick_emitsOnly {order : TickOrder Addr} (h : r.tick now order = some (r', acts)) :
    EmitsOnly (fun t => t = .grant ∨ t = .resend) acts := by
  obtain ⟨r₁, acts₂, hs, _, _, _, rfl⟩ := tick_spec h
  apply EmitsOnly.append
  · intro dest bytes hmem
    obtain ⟨k, _, hk⟩ := List.mem_flatMap.mp hmem
    cases hm : r.incoming.lookup k with
    | none =>
      rw [hm] at hk
      cases hk
    | some m =>
      rw [hm] at hk
      obtain ⟨pkt, ha, _, hpkt⟩ := tickEntry_acts hk
      obtain ⟨_, rfl⟩ := Action.send.inj ha
      rcases hpkt with hpkt | ⟨_, off, _, rfl⟩
      · exact ⟨_, _, rfl, Or.inl hpkt⟩
      · exact ⟨_, _, rfl, Or.inr rfl⟩
  · exact hs.emitsOnly.mono fun _ => Or.inl

/-- The RESEND of a message that is late and misses something granted. -/
theorem mem_tick_resend {order : TickOrder Addr} (h : r.tick now order = some (r', acts))
    {key : MsgKey Addr} {m : InMsg} {off : ℕ} (hm : r.incoming.lookup key = some m)
    (hlate : r.cfg.resendTimeout ≤ now - m.lastProgress)
    (hoff : m.missingInWindow r.cfg = some off) :
    .send key.1 ((m.resendPacket r.cfg key off).encode []) ∈ acts := by
  obtain ⟨r₁, acts₂, _, _, _, _, rfl⟩ := tick_spec h
  apply List.mem_append_left
  apply List.mem_flatMap.mpr
  refine ⟨key, KeyMap.mem_enum_keys.mpr (KeyMap.mem_iff_lookup.mpr ⟨m, hm⟩), ?_⟩
  rw [hm, Option.map_some, Option.getD_some, tickEntry, if_neg (Nat.not_lt.mpr hlate)]
  simp only [hoff]
  exact List.mem_singleton.mpr rfl

/-- `tick` asks again for a message that is late and misses something granted. -/
theorem tick_resends {order : TickOrder Addr} (h : r.tick now order = some (r', acts))
    (key : MsgKey Addr) :
    {pkt | ∃ q, (pkt, q) ∈ packetsFor .resend key.1 key.2 acts} =
      {pkt | ∃ m off, r.incoming.lookup key = some m ∧
        r.cfg.resendTimeout ≤ now - m.lastProgress ∧ m.missingInWindow r.cfg = some off ∧
        pkt = m.resendPacket r.cfg key off} := by
  ext pkt
  constructor
  · rintro ⟨q, bytes, hmem, hdec, htyp, hid⟩
    obtain ⟨r₁, acts₂, hs, _, _, _, rfl⟩ := tick_spec h
    rcases List.mem_append.mp hmem with hmem | hmem
    · obtain ⟨k, _, hk⟩ := List.mem_flatMap.mp hmem
      cases hm : r.incoming.lookup k with
      | none =>
        rw [hm] at hk
        cases hk
      | some m =>
        rw [hm] at hk
        obtain ⟨pkt', ha, hid', hpkt⟩ := tickEntry_acts hk
        obtain ⟨hdest, rfl⟩ := Action.send.inj ha
        obtain ⟨rfl, _⟩ := Packet.eq_of_decode_encode hdec
        obtain rfl : key = k := Prod.ext hdest (hid.symm.trans hid')
        rcases hpkt with hgrant | ⟨hlate, off, hoff, rfl⟩
        · rw [htyp] at hgrant
          cases hgrant
        · exact ⟨m, off, hm, hlate, hoff, rfl⟩
    · obtain ⟨pkt', q', rfl, hgrant⟩ := hs.emitsOnly _ _ hmem
      obtain ⟨rfl, _⟩ := Packet.eq_of_decode_encode hdec
      rw [htyp] at hgrant
      cases hgrant
  · rintro ⟨m, off, hm, hlate, hoff, rfl⟩
    exact ⟨[], _, mem_tick_resend h hm hlate hoff, Packet.decode_encode (fun h => by cases h),
      rfl, rfl⟩

end ReceiverCore

namespace Transfer

open ReceiverCore

variable {cfg : TransportConfig} {p : Policy} {rcv : Addr} {key : MsgKey Addr} {t : Transfer}
  {r r' : ReceiverCore Addr} {now : ℕ} {acts : List (Action Addr)}

/-- A round of scheduling changes a window at most. -/
theorem steps_scheduled (hentry : t.entry = r.incoming.lookup key)
    (h : Scheduled r now r' acts) :
    Steps cfg p rcv key t { t with entry := r'.incoming.lookup key } := by
  cases hm' : r'.incoming.lookup key with
  | none =>
    rw [h.lookup key, Option.map_eq_none_iff, ← hentry] at hm'
    rw [← hm']
  | some m' =>
    obtain ⟨m, hm, hsame⟩ := h.content hm'
    exact Relation.ReflTransGen.single (Step.rewindow (hentry.trans hm) hsame)

/-- `handle_data` moves the transfer of its packet, and changes windows elsewhere. -/
theorem steps_dataStep {src : Addr} {pkt : Packet} {payload : List UInt8}
    (hentry : t.entry = r.incoming.lookup key) (hcfg : r.cfg = cfg)
    (hsent : key = (src, pkt.msgId) → (pkt, payload) ∈ t.sent)
    (h : DataStep r src pkt payload now r' acts) :
    Steps cfg p rcv key t { t with
      entry := r'.incoming.lookup key
      delivered := t.delivered ∪ {data | (key, data) ∈ deliveries acts} } := by
  have hsame : ∀ acts' : List (Action Addr), (∀ d, (key, d) ∉ deliveries acts') →
      t.delivered ∪ {data | (key, data) ∈ deliveries acts'} = t.delivered := by
    intro acts' hnone
    simp [hnone]
  have hentryFor : key = (src, pkt.msgId) →
      t.entryFor cfg pkt now = r.entryFor src pkt now := by
    rintro rfl
    rw [entryFor, ReceiverCore.entryFor, hentry, hcfg]
  cases h with
  | duplicate =>
    rw [hsame [] (by simp), ← hentry]
  | refused =>
    rw [hsame _ (by simp [deliveries]), ← hentry]
  | @store m _ _ hlive hroom hpos hm hopen hs =>
    rw [hsame _ (by simp [hs.deliveries])]
    by_cases hk : key = (src, pkt.msgId)
    · have hstore : Step cfg p rcv key t { t with entry := some m } :=
        Step.store now (hsent hk) (by rw [hentryFor hk, ← hcfg]; exact hm) hopen
      refine (Relation.ReflTransGen.single hstore).trans (steps_scheduled ?_ hs)
      rw [enter, KeyMap.lookup_insert_eq, if_pos hk]
    · apply steps_scheduled _ hs
      rw [enter, KeyMap.lookup_insert_eq, if_neg hk, hentry]
  | @deliver data _ acts' hlive hroom hdata hs =>
    by_cases hk : key = (src, pkt.msgId)
    · have hdel : Step cfg p rcv key t
          { t with entry := none, delivered := insert data t.delivered } := by
        apply Step.deliver now (hsent hk)
        rw [hentryFor hk, ← hcfg]
        exact hdata
      have hset : t.delivered ∪ {d | (key, d) ∈
          deliveries (.deliver src pkt.msgId data :: acts')} = insert data t.delivered := by
        ext d
        simp [hs.deliveries, hk, or_comm]
      rw [hset]
      refine (Relation.ReflTransGen.single hdel).trans (steps_scheduled ?_ hs)
      simp only [ReceiverCore.deliver, KeyMap.lookup_erase_eq]
      rw [if_pos hk]
    · rw [hsame _ (by simp [hs.deliveries, hk])]
      apply steps_scheduled _ hs
      simp only [ReceiverCore.deliver, KeyMap.lookup_erase_eq]
      rw [if_neg hk, hentry]

/-- `tick` may ask for more of a message, give it up, or change its window. -/
theorem steps_tick {order : TickOrder Addr} (hentry : t.entry = r.incoming.lookup key)
    (hcfg : r.cfg = cfg) (h : r.tick now order = some (r', acts)) :
    Steps cfg p rcv key t { t with
      entry := r'.incoming.lookup key
      resends := t.resends ∪ {pkt | ∃ q, (pkt, q) ∈ packetsFor .resend key.1 key.2 acts} } := by
  rw [tick_resends h key]
  obtain ⟨r₁, acts₂, hs, _, _, hlook, _⟩ := tick_spec h
  cases hm : r.incoming.lookup key with
  | none =>
    have hnone : r₁.incoming.lookup key = none := by
      rw [hlook key, hm]
      rfl
    simp only [reduceCtorEq, false_and, exists_false, Set.ofPred_false, Set.union_empty]
    exact steps_scheduled (by rw [hentry, hm, hnone]) hs
  | some m =>
    have hkey : r₁.incoming.lookup key =
        (tickEntry cfg now key (decide (key ∈ r.granting)) m).1 := by
      rw [hlook key, hm, hcfg]
      rfl
    have hset : {pkt | ∃ m' off, some m = some m' ∧ r.cfg.resendTimeout ≤ now - m'.lastProgress ∧
        m'.missingInWindow r.cfg = some off ∧ pkt = m'.resendPacket r.cfg key off} =
        {pkt | cfg.resendTimeout ≤ now - m.lastProgress ∧
          ∃ off, m.missingInWindow cfg = some off ∧ pkt = m.resendPacket cfg key off} := by
      ext pkt
      simp [hcfg]
    rw [hset]
    rw [hm] at hentry
    rcases tickEntry_cases cfg now key (decide (key ∈ r.granting)) m with
      ⟨hearly, he⟩ | ⟨hlate, hcase⟩
    · have hempty : ¬ cfg.resendTimeout ≤ now - m.lastProgress := Nat.not_le.mpr hearly
      simp only [hempty, false_and, Set.ofPred_false, Set.union_empty]
      exact steps_scheduled (by rw [hentry, hkey, he]) hs
    · simp only [hlate, true_and]
      -- the entry the pass leaves, when it does not ask for anything
      have hquiet : m.missingInWindow cfg = none → ∀ m', InMsg.SameContent m m' →
          r₁.incoming.lookup key = some m' →
          Steps cfg p rcv key t { t with
            entry := r'.incoming.lookup key
            resends := t.resends ∪ {pkt | ∃ off, m.missingInWindow cfg = some off ∧
              pkt = m.resendPacket cfg key off} } := by
        intro hmiss m' hsame hm'
        simp only [hmiss, reduceCtorEq, false_and, exists_false, Set.ofPred_false, Set.union_empty]
        exact (Relation.ReflTransGen.single (Step.rewindow hentry hsame)).trans
          (steps_scheduled hm'.symm hs)
      have hask : ∀ off, m.missingInWindow cfg = some off →
          Step cfg p rcv key t { t with
            resends := t.resends ∪ {pkt | ∃ off, m.missingInWindow cfg = some off ∧
              pkt = m.resendPacket cfg key off} } := by
        intro off hoff
        have hins : t.resends ∪ {pkt | ∃ off, m.missingInWindow cfg = some off ∧
            pkt = m.resendPacket cfg key off} = insert (m.resendPacket cfg key off) t.resends := by
          ext pkt
          simp [hoff, or_comm]
        rw [hins]
        exact Step.ask hentry hoff
      rcases hcase with ⟨off, hoff, _, he⟩ | ⟨off, hoff, _, he⟩ | ⟨hmiss, t', he⟩ | ⟨hmiss, he⟩
      · have hsame : InMsg.SameContent m { m with
            lastProgress := now, unansweredResends := m.unansweredResends + 1 } :=
          ⟨rfl, rfl, rfl, rfl⟩
        refine ((Relation.ReflTransGen.single (hask off hoff)).tail
          (Step.rewindow hentry hsame)).trans (steps_scheduled ?_ hs)
        rw [hkey, he]
      · refine ((Relation.ReflTransGen.single (hask off hoff)).tail
          (Step.giveUp hentry hoff)).trans (steps_scheduled ?_ hs)
        rw [hkey, he]
      · exact hquiet hmiss { m with lastProgress := t' } ⟨rfl, rfl, rfl, rfl⟩ (by rw [hkey, he])
      · have hsame := InMsg.issueGrant_content cfg key now true { m with lastProgress := now }
        exact hquiet hmiss _ ⟨hsame.totalLen, hsame.buf, hsame.received, hsame.receivedBytes⟩
          (by rw [hkey, he])

end Transfer

end AgentTransport
