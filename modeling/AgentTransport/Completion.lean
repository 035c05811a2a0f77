import AgentTransport.Integrity

/-!
# Delivered means done

After a message is delivered the receiver is silent about it. The sender must then
have reached the end of the message by itself. It has, once the last fragment was
sent, provided that `next_send` never stops strictly inside the last fragment. That
is where a RESEND can leave it whose range ends there: the last fragment goes out
whole, and `next_send` stays short of the end for good.
-/
namespace AgentTransport
open ByteString Fragmentation Transition

variable {Addr : Type} [DecidableEq Addr]

/-- Where the last fragment starts. -/
def lastStart (ps len : ℕ) : ℕ := (count ps len - 1) * ps

/-- Strictly inside the last fragment. -/
def InLast (ps len pos : ℕ) : Prop := lastStart ps len < pos ∧ pos < len

instance (ps len pos : ℕ) : Decidable (InLast ps len pos) := inferInstanceAs (Decidable (_ ∧ _))

/-- A GRANT whose new limit makes the sender stop strictly inside the last fragment. -/
def GrantSplitsLast (cfg : TransportConfig) (o : OutMsg) (pkt : Packet) : Prop :=
  o.Unlocks pkt ∧ o.nextSend < min pkt.offset.toNat o.data.length ∧
    InLast cfg.packetSize o.data.length
      (pumpEnd cfg.packetSize o.data.length (min pkt.offset.toNat o.data.length) o.nextSend)

instance (cfg : TransportConfig) (o : OutMsg) : DecidablePred (GrantSplitsLast cfg o) :=
  fun _ => inferInstanceAs (Decidable (_ ∧ _))

/-- A RESEND whose range goes beyond `next_send` and ends strictly inside the last
fragment. -/
def ResendSplitsLast (cfg : TransportConfig) (o : OutMsg) (pkt : Packet) : Prop :=
  o.nextSend < o.resendEnd pkt ∧ InLast cfg.packetSize o.data.length (o.resendEnd pkt)

instance (cfg : TransportConfig) (o : OutMsg) : DecidablePred (ResendSplitsLast cfg o) :=
  fun _ => inferInstanceAs (Decidable (_ ∧ _))

/-- Runs with sendable messages in which the last fragments are never split. -/
def Policy.wholeLast : Policy :=
  ⟨Sendable, fun cfg o pkt => ¬ GrantSplitsLast cfg o pkt,
    fun cfg o pkt => ¬ ResendSplitsLast cfg o pkt⟩

instance : DecidablePred Policy.wholeLast.start := inferInstanceAs (DecidablePred Sendable)

instance (cfg : TransportConfig) (o : OutMsg) : DecidablePred (Policy.wholeLast.grant cfg o) :=
  fun pkt => inferInstanceAs (Decidable (¬ GrantSplitsLast cfg o pkt))

instance (cfg : TransportConfig) (o : OutMsg) : DecidablePred (Policy.wholeLast.resend cfg o) :=
  fun pkt => inferInstanceAs (Decidable (¬ ResendSplitsLast cfg o pkt))

section LastFragment

variable {ps len : ℕ}

theorem le_lastStart_add (hps : 0 < ps) : len ≤ lastStart ps len + ps := by
  have hnot : ¬ count ps len * ps < len := fun h => Nat.lt_irrefl _ ((lt_count_iff hps).mpr h)
  rcases Nat.eq_zero_or_pos (count ps len) with hzero | hpos
  · rw [hzero] at hnot
    omega
  · rw [lastStart, Nat.sub_mul]
    have hmul : 1 * ps ≤ count ps len * ps := Nat.mul_le_mul_right ps hpos
    omega

/-- No fragment boundary lies inside the last fragment. -/
theorem not_inLast_of_dvd (hps : 0 < ps) {n : ℕ} (hdvd : ps ∣ n) : ¬ InLast ps len n := by
  rintro ⟨hlo, hhi⟩
  obtain ⟨j, rfl⟩ := hdvd
  rw [Nat.mul_comm] at hlo hhi
  have hj := (lt_count_iff hps).mpr hhi
  have hle : j * ps ≤ lastStart ps len := Nat.mul_le_mul_right ps (by omega)
  omega

/-- A pump that sends the last fragment stops at the end. -/
theorem le_pumpEnd_of_last (hps : 0 < ps) {limit next : ℕ} {r : ℕ × ℕ}
    (hr : r ∈ pumpRanges ps len limit next) (hlast : r.1 / ps = count ps len - 1) :
    len ≤ pumpEnd ps len limit next := by
  have hend := pumpRanges_le_pumpEnd hps hr
  obtain ⟨j, hj, rfl⟩ := (mem_pumpRanges hps).mp hr
  have hdiv := Nat.div_mul_le_self (next + j * ps) ps
  have hcover : len ≤ lastStart ps len + ps := le_lastStart_add hps
  simp only at hlast hend
  rw [hlast] at hdiv
  rw [lastStart] at hcover
  omega

/-- A range of at most one fragment, wherever it starts. -/
def Chunk (ps len : ℕ) (r : ℕ × ℕ) : Prop := r.1 < len ∧ r.2 = min (r.1 + ps) len

theorem chunk_pumpRanges (hps : 0 < ps) {limit next : ℕ} (hl : limit ≤ len) :
    ∀ r ∈ pumpRanges ps len limit next, Chunk ps len r := by
  intro r hr
  obtain ⟨j, hj, rfl⟩ := (mem_pumpRanges hps).mp hr
  exact ⟨Nat.lt_of_lt_of_le hj hl, rfl⟩

theorem chunk_fragRange (hps : 0 < ps) {i : ℕ} (hi : i < count ps len) :
    Chunk ps len (fragRange ps len i) :=
  ⟨(lt_count_iff hps).mp hi, rfl⟩

/-- A chunk is no longer than the fragment its start lies in. -/
theorem Chunk.le_fragLen {r : ℕ × ℕ} (h : Chunk ps len r) :
    r.2 - r.1 ≤ fragLen ps len (r.1 / ps) := by
  obtain ⟨hlt, hend⟩ := h
  have hdiv := Nat.div_mul_le_self r.1 ps
  simp only [fragLen, fragEnd]
  omega

end LastFragment

namespace OutMsg

variable {cfg : TransportConfig} {o : OutMsg}

theorem grantRanges_chunk (cfg : TransportConfig) (o : OutMsg) (pkt : Packet) :
    ∀ r ∈ o.grantRanges cfg pkt, Chunk cfg.packetSize o.data.length r := by
  intro r hr
  unfold grantRanges at hr
  split_ifs at hr
  · exact chunk_pumpRanges cfg.packetSize_pos (Nat.min_le_right _ _) r hr
  · cases hr

theorem answerRanges_chunk (cfg : TransportConfig) (o : OutMsg) (pkt : Packet) :
    ∀ r ∈ o.answerRanges cfg pkt, Chunk cfg.packetSize o.data.length r := by
  intro r hr
  obtain ⟨i, hi, rfl⟩ := answerRanges_whole cfg o pkt r hr
  exact chunk_fragRange cfg.packetSize_pos hi

theorem pokeRanges_chunk (hne : o.data ≠ []) (hnext : o.nextSend ≤ o.data.length) :
    ∀ r ∈ o.pokeRanges cfg, Chunk cfg.packetSize o.data.length r := by
  intro r hr
  obtain ⟨i, hi, rfl⟩ := pokeRanges_whole hne hnext r hr
  exact chunk_fragRange cfg.packetSize_pos hi

end OutMsg

namespace Transfer

/-- A DATA packet of `data` that carries at most its fragment. -/
structure Bounded (ps : ℕ) (data : List UInt8) (x : Packet × List UInt8) : Prop where
  msgLen : x.1.msgLen.toNat = data.length
  offset_lt : x.1.offset.toNat < data.length
  length_le : x.2.length ≤ fragLen ps data.length (x.1.offset.toNat / ps)

/-- An entry whose byte counter does not run ahead of its bitmap. -/
structure Counts (ps : ℕ) (data : List UInt8) (m : InMsg) : Prop where
  totalLen : m.totalLen = data.length
  length_received : m.received.length = count ps data.length
  receivedBytes : m.receivedBytes ≤ covered ps data.length m.received

/-- The last fragment was sent. -/
def LastSent (cfg : TransportConfig) (data : List UInt8) (sent : Set (Packet × List UInt8)) :
    Prop :=
  ∃ x ∈ sent, x.1.offset.toNat / cfg.packetSize = count cfg.packetSize data.length - 1

/-- The position of a sender in a message whose last fragment is never split. -/
structure AtBoundary (cfg : TransportConfig) (sent : Set (Packet × List UInt8)) (o : OutMsg) :
    Prop where
  pos : 0 < o.nextSend
  outside : ¬ InLast cfg.packetSize o.data.length o.nextSend
  done : o.nextSend = o.data.length → o.doneAt.isSome
  last : LastSent cfg o.data sent → o.doneAt.isSome

/-- A transfer that ends at the sender when it ends at the receiver. -/
structure Settles (cfg : TransportConfig) (data : List UInt8) (t : Transfer) : Prop where
  out : ∀ o, t.out = some o →
    o.data = data ∧ o.nextSend ≤ data.length ∧ AtBoundary cfg t.sent o
  sent : ∀ x ∈ t.sent, Bounded cfg.packetSize data x
  entry : ∀ m, t.entry = some m → Counts cfg.packetSize data m ∧
    (m.received[count cfg.packetSize data.length - 1]? = some true → LastSent cfg data t.sent)
  handed : t.delivered.Nonempty → LastSent cfg data t.sent

variable {cfg : TransportConfig} {rcv : Addr} {key : MsgKey Addr} {data : List UInt8}
  {t t' : Transfer} {sent sent' : Set (Packet × List UInt8)}

theorem LastSent.mono (h : LastSent cfg data sent) (hsub : sent ⊆ sent') :
    LastSent cfg data sent' := by
  obtain ⟨x, hx, hlast⟩ := h
  exact ⟨x, hsub hx, hlast⟩

theorem LastSent.of_union (h : LastSent cfg data (sent ∪ sent')) :
    LastSent cfg data sent ∨ LastSent cfg data sent' := by
  obtain ⟨x, hx | hx, hlast⟩ := h
  · exact Or.inl ⟨x, hx, hlast⟩
  · exact Or.inr ⟨x, hx, hlast⟩

section Frames

variable {msgId : UInt64} {rs : List (ℕ × ℕ)}

theorem bounded_frames (hlen : data.length < 2 ^ 32)
    (hrs : ∀ r ∈ rs, Chunk cfg.packetSize data.length r) :
    ∀ x ∈ frames data msgId rs, Bounded cfg.packetSize data x := by
  rintro x ⟨r, hr, rfl⟩
  obtain ⟨hlt, hend⟩ := hrs r hr
  have hle := (hrs r hr).le_fragLen
  have hoff : (UInt32.ofNat r.1).toNat = r.1 := toNat_ofNat_u32 (by omega)
  refine ⟨toNat_ofNat_u32 hlen, ?_, ?_⟩
  · simp only [dataHeader, hoff]
    exact hlt
  · simp only [dataHeader, hoff, length_slice]
    omega

/-- The last fragment is among the frames if the range of one starts in it. -/
theorem lastSent_frames (hlen : data.length < 2 ^ 32)
    (hrs : ∀ r ∈ rs, Chunk cfg.packetSize data.length r)
    (h : LastSent cfg data (frames data msgId rs)) :
    ∃ r ∈ rs, r.1 / cfg.packetSize = count cfg.packetSize data.length - 1 := by
  obtain ⟨x, ⟨r, hr, rfl⟩, hlast⟩ := h
  have hlt := (hrs r hr).1
  have hoff : (UInt32.ofNat r.1).toNat = r.1 := toNat_ofNat_u32 (by omega)
  simp only [dataHeader, hoff] at hlast
  exact ⟨r, hr, hlast⟩

end Frames

/-- Pumping that does not stop inside the last fragment. -/
theorem AtBoundary.pumped {o : OutMsg} {limit now : ℕ} {msgId : UInt64}
    (hlen : o.data.length < 2 ^ 32) (hl : limit ≤ o.data.length)
    (hnext : o.nextSend ≤ o.data.length) (hpos : 0 < o.nextSend ∨ 0 < limit)
    (hlast : ¬ LastSent cfg o.data sent)
    (hout : ¬ InLast cfg.packetSize o.data.length
      (pumpEnd cfg.packetSize o.data.length limit o.nextSend)) :
    AtBoundary cfg (sent ∪ frames o.data msgId
      (pumpRanges cfg.packetSize o.data.length limit o.nextSend)) (o.pumped cfg limit now) := by
  have hps := cfg.packetSize_pos
  have hfar : limit ≤ pumpEnd cfg.packetSize o.data.length limit o.nextSend :=
    limit_le_pumpEnd hps hl
  have hmore : o.nextSend ≤ pumpEnd cfg.packetSize o.data.length limit o.nextSend :=
    le_pumpEnd hnext
  have hdone : o.data.length ≤ pumpEnd cfg.packetSize o.data.length limit o.nextSend →
      (o.pumped cfg limit now).doneAt.isSome :=
    (OutMsg.isSome_doneAt_pumped cfg limit now o).mpr
  refine ⟨?_, hout, fun heq => hdone (Nat.le_of_eq heq.symm), fun hsent => ?_⟩
  · simp only [OutMsg.pumped]
    omega
  · rcases hsent.of_union with hold | hnew
    · exact absurd hold hlast
    · obtain ⟨r, hr, hidx⟩ := lastSent_frames hlen (chunk_pumpRanges hps hl) hnew
      exact hdone (le_pumpEnd_of_last hps hr hidx)

omit [DecidableEq Addr] in
/-- A RESEND past the start of the last fragment ends at the end, or changes nothing. -/
theorem AtBoundary.resend {o : OutMsg} {pkt : Packet} {msgId : UInt64}
    (h : AtBoundary cfg sent o) (hlen : o.data.length < 2 ^ 32)
    (hnext : o.nextSend ≤ o.data.length) (hok : ¬ ResendSplitsLast cfg o pkt) (rcv : Addr)
    (now : ℕ) :
    AtBoundary cfg (sent ∪ frames o.data msgId (o.answerRanges cfg pkt))
      (o.handleResend cfg rcv pkt now).1 := by
  have hps := cfg.packetSize_pos
  have hfin : o.resendEnd pkt ≤ o.data.length := Nat.min_le_right _ _
  have hmax := OutMsg.handleResend_nextSend cfg rcv pkt now o
  have hdone := OutMsg.handleResend_doneAt cfg rcv pkt now o
  have hpos := h.pos
  have hout := h.outside
  have hpast : lastStart cfg.packetSize o.data.length < o.resendEnd pkt →
      o.nextSend = o.data.length ∨ o.resendEnd pkt = o.data.length := by
    intro hlt
    by_contra hnot
    rw [not_or] at hnot
    simp only [InLast] at hout
    exact hok ⟨by omega, hlt, by omega⟩
  have hall : o.nextSend = o.data.length ∨ o.resendEnd pkt = o.data.length →
      (o.handleResend cfg rcv pkt now).1.doneAt.isSome := by
    intro heq
    by_cases hlt : o.nextSend < o.resendEnd pkt
    · exact hdone.mpr (Or.inr ⟨hlt, by omega⟩)
    · exact hdone.mpr (Or.inl (h.done (by omega)))
  refine ⟨?_, ?_, fun heq => ?_, fun hsent => ?_⟩
  · rw [hmax]
    omega
  · change ¬ InLast cfg.packetSize o.data.length (o.handleResend cfg rcv pkt now).1.nextSend
    rw [hmax]
    rintro ⟨hlo, hhi⟩
    simp only [InLast] at hout
    have hlt : lastStart cfg.packetSize o.data.length < o.resendEnd pkt := by omega
    rcases hpast hlt with heq | heq <;> omega
  · apply hall
    change _ = o.data.length at heq
    rw [hmax] at heq
    omega
  · rcases hsent.of_union with hold | hnew
    · exact hdone.mpr (Or.inl (h.last hold))
    · obtain ⟨r, hr, hidx⟩ := lastSent_frames hlen (OutMsg.answerRanges_chunk cfg o pkt) hnew
      obtain ⟨i, _, hi, rfl⟩ := mem_resendRanges hr
      simp only [fragRange, Nat.mul_div_cancel i hps] at hidx
      apply hall
      apply hpast
      rw [lastStart, ← hidx]
      exact (lt_count_iff hps).mp hi

/-- A probe never repeats the last fragment: once that was sent the message is done. -/
theorem AtBoundary.poke {o : OutMsg} {msgId : UInt64} (h : AtBoundary cfg sent o)
    (hs : Sendable o.data) (hnext : o.nextSend ≤ o.data.length) (now : ℕ) :
    AtBoundary cfg (sent ∪ frames o.data msgId (o.pokeRanges cfg))
      { o with lastProgress := now } := by
  have hps := cfg.packetSize_pos
  refine ⟨h.pos, h.outside, h.done, fun hsent => ?_⟩
  rcases hsent.of_union with hold | hnew
  · exact h.last hold
  · have hdiv := Nat.div_mul_le_self (o.nextSend - 1) cfg.packetSize
    have hpos := h.pos
    have hout := h.outside
    obtain ⟨r, hr, hidx⟩ := lastSent_frames hs.2 (OutMsg.pokeRanges_chunk hs.1 hnext) hnew
    rw [List.mem_singleton.mp hr] at hidx
    simp only [fragRange, Nat.mul_div_cancel _ hps] at hidx
    simp only [InLast, lastStart, ← hidx] at hout
    exact h.done (by omega)

omit [DecidableEq Addr] in
/-- Packets that were just sent join those sent before. -/
theorem Settles.send (h : Settles cfg data t) {rs : List (ℕ × ℕ)} (hlen : data.length < 2 ^ 32)
    (hrs : ∀ r ∈ rs, Chunk cfg.packetSize data.length r) {o : OutMsg} (hdata : o.data = data)
    (hnext : o.nextSend ≤ data.length)
    (hb : AtBoundary cfg (t.sent ∪ frames data key.2 rs) o) :
    Settles cfg data { t with out := some o, sent := t.sent ∪ frames data key.2 rs } where
  out o' ho' := by
    obtain rfl := Option.some.inj ho'
    exact ⟨hdata, hnext, hb⟩
  sent x hx := by
    rcases hx with hx | hx
    · exact h.sent x hx
    · exact bounded_frames hlen hrs x hx
  entry m hm := by
    obtain ⟨hcounts, hbit⟩ := h.entry m hm
    exact ⟨hcounts, fun hlast => (hbit hlast).mono Set.subset_union_left⟩
  handed hd := (h.handed hd).mono Set.subset_union_left

/-- An entry that takes a packet still counts no more than its bitmap covers. -/
theorem Settles.accept (h : Settles cfg data t) {pkt : Packet} {payload : List UInt8} {now : ℕ}
    {m : InMsg} (hsent : (pkt, payload) ∈ t.sent)
    (hm : (t.entryFor cfg pkt now).accept cfg pkt payload now = some m) :
    Counts cfg.packetSize data m ∧
      (m.received[count cfg.packetSize data.length - 1]? = some true →
        LastSent cfg data t.sent) := by
  obtain ⟨hmsg, hlt, hle⟩ := h.sent _ hsent
  have hpos := count_pos cfg.packetSize_pos (Nat.lt_of_le_of_lt (Nat.zero_le _) hlt)
  have hentry : Counts cfg.packetSize data (t.entryFor cfg pkt now) ∧
      ((t.entryFor cfg pkt now).received[count cfg.packetSize data.length - 1]? = some true →
        LastSent cfg data t.sent) := by
    unfold Transfer.entryFor
    cases hold : t.entry with
    | some m₀ => exact h.entry m₀ hold
    | none =>
      rw [Option.getD_none, InMsg.new, hmsg]
      refine ⟨⟨rfl, ?_, Nat.zero_le _⟩, fun hbit => ?_⟩
      · simp only [List.length_replicate]
        omega
      · simp [List.getElem?_replicate] at hbit
  obtain ⟨⟨htotal, hcount, hbytes⟩, hlast⟩ := hentry
  rcases InMsg.accept_cases hm with ⟨_, rfl⟩ | ⟨hfits, _, rfl⟩
  · exact ⟨⟨htotal, hcount, hbytes⟩, hlast⟩
  · refine ⟨⟨htotal, ?_, ?_⟩, fun hbit => ?_⟩
    · simp only [InMsg.stored, List.length_set]
      exact hcount
    · simp only [InMsg.stored, covered_set hfits.1]
      exact Nat.add_le_add hbytes hle
    · by_cases hnew : pkt.offset.toNat / cfg.packetSize = count cfg.packetSize data.length - 1
      · exact ⟨_, hsent, hnew⟩
      · simp only [InMsg.stored, List.getElem?_set_ne hnew] at hbit
        exact hlast hbit

/-- A complete entry has its last bit set. -/
theorem Counts.last_received {m : InMsg} (h : Counts cfg.packetSize data m) (hne : data ≠ [])
    (hcomplete : m.complete = true) :
    m.received[count cfg.packetSize data.length - 1]? = some true := by
  have hps := cfg.packetSize_pos
  have hpos := count_pos hps (List.length_pos_of_ne_nil hne)
  have heq : m.receivedBytes = m.totalLen := of_decide_eq_true hcomplete
  have hcov : covered cfg.packetSize data.length m.received = data.length := by
    have hle : covered cfg.packetSize data.length m.received ≤ data.length := covered_le
    have hge := h.receivedBytes
    rw [heq, h.totalLen] at hge
    omega
  apply (covered_eq_iff hps h.length_received).mp hcov
  rw [h.length_received]
  omega

omit [DecidableEq Addr] in
theorem Settles.step (h : Settles cfg data t) (hs : Sendable data)
    (hstep : Step cfg Policy.wholeLast rcv key t t') : Settles cfg data t' := by
  cases hstep with
  | @grant o pkt now hout hok =>
    obtain ⟨rfl, hnext, hb⟩ := h.out _ hout
    refine h.send hs.2 (OutMsg.grantRanges_chunk cfg o pkt)
      (OutMsg.handleGrant_data cfg rcv pkt now o)
      (OutMsg.handleGrant_nextSend_le cfg rcv pkt now hnext) ?_
    by_cases hu : o.Unlocks pkt
    · rw [OutMsg.handleGrant_of_unlocks cfg rcv pkt now hu, OutMsg.grantRanges, if_pos hu]
      refine AtBoundary.pumped hs.2 (Nat.min_le_right _ _) hnext (Or.inl hb.pos) ?_ ?_
      · intro hlast
        have hsome := hb.last hlast
        rw [hu.2] at hsome
        cases hsome
      · intro hin
        by_cases hlt : o.nextSend < min pkt.offset.toNat o.data.length
        · exact hok ⟨hu, hlt, hin⟩
        · rw [pumpEnd, if_neg hlt] at hin
          exact hb.outside hin
    · rw [OutMsg.handleGrant_of_not_unlocks cfg rcv pkt now hu, OutMsg.grantRanges, if_neg hu,
        frames_nil, Set.union_empty]
      exact hb
  | @resend o pkt now hout hpkt hok =>
    obtain ⟨rfl, hnext, hb⟩ := h.out _ hout
    exact h.send hs.2 (OutMsg.answerRanges_chunk cfg o pkt) rfl
      (OutMsg.handleResend_nextSend_le cfg rcv pkt now hnext) (hb.resend hs.2 hnext hok rcv now)
  | busy now hout =>
    obtain ⟨hdata, hnext, hb⟩ := h.out _ hout
    refine ⟨fun o' ho' => ?_, h.sent, h.entry, h.handed⟩
    obtain rfl := Option.some.inj ho'
    exact ⟨hdata, hnext, hb.pos, hb.outside, hb.done, hb.last⟩
  | @poke o now hout hnone =>
    obtain ⟨rfl, hnext, hb⟩ := h.out _ hout
    exact h.send hs.2 (OutMsg.pokeRanges_chunk hs.1 hnext) rfl hnext (hb.poke hs hnext now)
  | reclaim hout hdone =>
    refine ⟨fun o ho => ?_, h.sent, h.entry, h.handed⟩
    cases ho
  | store now hsent hm hopen =>
    refine ⟨h.out, h.sent, fun m₁ hm₁ => ?_, h.handed⟩
    obtain rfl := Option.some.inj hm₁
    exact h.accept hsent hm
  | @deliver pkt payload d now hsent hdata =>
    refine ⟨h.out, h.sent, fun m hm => (by cases hm), fun _ => ?_⟩
    obtain ⟨hmsg, hlt, _⟩ := h.sent _ hsent
    rcases hdata with ⟨hzero, _⟩ | ⟨_, m, hm, hcomplete, _⟩
    · simp only at hmsg hlt
      omega
    · obtain ⟨hcounts, hlast⟩ := h.accept hsent hm
      exact hlast (hcounts.last_received hs.1 hcomplete)
  | rewindow hentry hsame =>
    refine ⟨h.out, h.sent, fun m₁ hm₁ => ?_, h.handed⟩
    obtain rfl := Option.some.inj hm₁
    obtain ⟨⟨htotal, hcount, hbytes⟩, hlast⟩ := h.entry _ hentry
    rw [← hsame.totalLen] at htotal
    rw [← hsame.received] at hcount hbytes hlast
    rw [← hsame.receivedBytes] at hbytes
    exact ⟨⟨htotal, hcount, hbytes⟩, hlast⟩
  | ask => exact ⟨h.out, h.sent, h.entry, h.handed⟩
  | giveUp => exact ⟨h.out, h.sent, fun m hm => (by cases hm), h.handed⟩

omit [DecidableEq Addr] in
theorem Settles.of_steps {now : ℕ} (hun : 0 < cfg.unscheduledBytes) (hs : Sendable data)
    (h : Steps cfg Policy.wholeLast rcv key (Transfer.first cfg key.2 data now) t) :
    Settles cfg data t := by
  have hps := cfg.packetSize_pos
  have hpos := List.length_pos_of_ne_nil hs.1
  have hl : min cfg.unscheduledBytes data.length ≤ data.length := Nat.min_le_right _ _
  have hidle : Settles cfg data Transfer.idle := by
    refine ⟨by simp [idle], by simp [idle], by simp [idle], ?_⟩
    rintro ⟨d, hd⟩
    cases hd
  have hnone : ¬ LastSent cfg data ∅ := by
    rintro ⟨x, hx, _⟩
    cases hx
  have hb : AtBoundary cfg (∅ ∪ frames data key.2 (OutMsg.startRanges cfg data))
      (OutMsg.started cfg data now) := by
    refine AtBoundary.pumped (o := OutMsg.new cfg data now) hs.2 hl (Nat.zero_le _)
      (Or.inr (by omega)) hnone ?_
    have hdvd : cfg.packetSize ∣ pumpEnd cfg.packetSize data.length
        (min cfg.unscheduledBytes data.length) 0 ∨ pumpEnd cfg.packetSize data.length
        (min cfg.unscheduledBytes data.length) 0 = data.length :=
      pumpEnd_aligned (Nat.dvd_zero _)
    rcases hdvd with hdvd | heq
    · exact not_inLast_of_dvd hps hdvd
    · intro hin
      exact Nat.ne_of_lt hin.2 heq
  have hfirst := hidle.send hs.2 (chunk_pumpRanges hps hl) rfl (pumpEnd_le (Nat.zero_le _)) hb
  rw [show idle.sent = ∅ from rfl, Set.empty_union] at hfirst
  exact h.invariant hfirst fun _ _ ht hstep => ht.step hs hstep

end Transfer

namespace Network

/-- In a run in which no GRANT and no RESEND splits a last fragment, the sender of a
delivered message is done with it. -/
theorem delivered_done (cfg : TransportConfig) (hun : 0 < cfg.unscheduledBytes) (rcv : Addr)
    {evs : List (Event Addr)} {s : Network Addr}
    (h : Run (Network.step rcv) (Network.Admits Policy.wholeLast) (Network.new cfg) evs s) :
    ∀ key data, (key, data) ∈ s.delivered → (s.senders key.1).isDone rcv key.2 := by
  intro key data hmem
  have hdel : data ∈ (s.transfer rcv key).delivered := hmem
  obtain ⟨data', now, _, hs, hsteps⟩ :=
    (Traced.of_run h).of_delivered (fun data hs => hs.2) hdel
  have ht := Transfer.Settles.of_steps hun hs hsteps
  unfold SenderCore.isDone
  cases ho : (s.senders key.1).out.lookup (rcv, key.2) with
  | none => rfl
  | some o =>
    obtain ⟨rfl, _, hb⟩ := ht.out o ho
    exact hb.last (ht.handed ⟨data, hdel⟩)

theorem delivered_done_ten : ∃ s : Network ℕ,
    Run (Network.step 1) (Network.Admits Policy.wholeLast) (Network.new evenConfig) evenRun s ∧
    s.delivered = [((0, 1), [1, 2, 3, 4, 5, 6, 7, 8, 9, 10])] ∧
    ∀ key data, (key, data) ∈ s.delivered → (s.senders key.1).isDone 1 key.2 := by
  have hout : (exec (guarded (Network.step 1) (Network.Admits Policy.wholeLast)) evenRun
      (Network.new evenConfig)).map Network.delivered =
        some [((0, 1), [1, 2, 3, 4, 5, 6, 7, 8, 9, 10])] := by
    decide +kernel
  obtain ⟨s, hs, hdel⟩ := Option.map_eq_some_iff.mp hout
  exact ⟨s, run_of_guarded hs, hdel, delivered_done evenConfig (by decide) 1 (run_of_guarded hs)⟩

/-- A message of two fragments. The first GRANT is lost; the RESEND that answers it
ends two bytes into the last fragment. -/
def shortRun : List (Event ℕ) :=
  [.start 0 1 [1, 2, 3, 4, 5, 6, 7, 8] 0, .deliver 0 0 default, .drop 0, .receiverTick 1 default,
    .deliver 0 1 default, .deliver 0 1 default]

/-- The message is delivered, nothing is in flight, and the sender is not done. -/
theorem delivered_done_fails : ∃ s : Network ℕ,
    Run (Network.step 1) (Network.Admits Policy.sendable) (Network.new tinyConfig) shortRun s ∧
    s.flight = [] ∧ ((0, 1), [1, 2, 3, 4, 5, 6, 7, 8]) ∈ s.delivered ∧
    (s.senders 0).isDone 1 1 = false := by
  have hout : (exec (Network.step 1) shortRun (Network.new tinyConfig)).map
      (fun s => (s.delivered, s.flight.length, (s.senders 0).isDone 1 1)) =
        some ([((0, 1), [1, 2, 3, 4, 5, 6, 7, 8])], 0, false) := by
    decide +kernel
  obtain ⟨s, hs, hview⟩ := Option.map_eq_some_iff.mp hout
  obtain ⟨hdelivered, hrest⟩ := Prod.mk.inj hview
  obtain ⟨hflight, hdone⟩ := Prod.mk.inj hrest
  refine ⟨s, run_of_admitted hs (admitted_sendable 1 ?_ _),
    List.eq_nil_of_length_eq_zero hflight, ?_, hdone⟩
  · intro src msgId data now hmem
    obtain ⟨-, -, rfl, -⟩ : src = 0 ∧ msgId = 1 ∧ data = [1, 2, 3, 4, 5, 6, 7, 8] ∧ now = 0 := by
      simpa [shortRun] using hmem
    exact ⟨by decide, by decide⟩
  · rw [hdelivered]
    exact List.mem_singleton.mpr rfl

end Network
end AgentTransport
