import AgentTransport.Completion
import AgentTransport.Refinement

/-!
# Windows that end at fragments

If the unscheduled window and the grant increment are multiples of the fragment size, no GRANT
and no RESEND ever splits a fragment: the receiver counts whole fragments, and so its windows
end where fragments end. The last fragment may be shorter, but once it was sent the sender has
reached the end of the message, and control packets move it no more.
-/
namespace AgentTransport
open ByteString Fragmentation Transition

variable {Addr : Type} [DecidableEq Addr]

/-- A position where a fragment ends. -/
def Boundary (ps len pos : ℕ) : Prop := pos ≤ len ∧ (ps ∣ pos ∨ pos = len)

section Boundaries

variable {ps len a b : ℕ}

theorem Boundary.max (ha : Boundary ps len a) (hb : Boundary ps len b) :
    Boundary ps len (max a b) := by
  rcases Nat.le_total a b with hle | hle
  · rwa [Nat.max_eq_right hle]
  · rwa [Nat.max_eq_left hle]

theorem Boundary.end_of (ps len : ℕ) : Boundary ps len len := ⟨le_rfl, Or.inr rfl⟩

theorem boundary_min (h : ps ∣ a) (len : ℕ) : Boundary ps len (min a len) := by
  rcases Nat.le_total a len with hle | hle
  · rw [Nat.min_eq_left hle]
    exact ⟨hle, Or.inl h⟩
  · rw [Nat.min_eq_right hle]
    exact Boundary.end_of ps len

theorem Boundary.not_inLast (hps : 0 < ps) (h : Boundary ps len a) : ¬ InLast ps len a := by
  rcases h.2 with hdvd | rfl
  · exact not_inLast_of_dvd hps hdvd
  · exact fun hin => Nat.lt_irrefl _ hin.2

theorem Boundary.pumpEnd {next limit : ℕ} (hnext : Boundary ps len next)
    (hlimit : limit ≤ len) : Boundary ps len (pumpEnd ps len limit next) := by
  refine ⟨pumpEnd_le hnext.1, ?_⟩
  rcases hnext.2 with hdvd | rfl
  · exact pumpEnd_aligned hdvd
  · right
    rw [AgentTransport.pumpEnd, if_neg (Nat.not_lt.mpr hlimit)]

/-- What is sent of a chunk is a whole fragment, or reaches the end. -/
theorem Chunk.dvd_or (data : List UInt8) {r : ℕ × ℕ} (h : Chunk ps data.length r) :
    ps ∣ (slice data r.1 r.2).length ∨ r.2 = data.length := by
  obtain ⟨hlt, hend⟩ := h
  rcases Nat.le_total (r.1 + ps) data.length with hle | hle
  · left
    rw [length_slice, hend, Nat.min_eq_left hle, Nat.min_eq_left hle, Nat.add_sub_cancel_left]
  · right
    rw [hend, Nat.min_eq_right hle]

/-- A fragment that meets a range up to a boundary ends before it, unless it is the last. -/
theorem fragRange_of_boundary (hps : 0 < ps) (ha : Boundary ps len a) {i : ℕ}
    (hi : i < count ps a) (hend : (fragRange ps len i).2 = len) : a = len := by
  have hlt := (lt_count_iff hps).mp hi
  rcases ha.2 with ⟨j, rfl⟩ | rfl
  · simp only [fragRange, fragEnd] at hend
    have hij : i < j := by
      rw [Nat.mul_comm ps j] at hlt
      exact Nat.lt_of_mul_lt_mul_right hlt
    have hmul := Nat.mul_le_mul_right ps hij
    rw [Nat.succ_mul, Nat.mul_comm j ps] at hmul
    have hle := ha.1
    omega
  · rfl

end Boundaries

/-- Runs with sendable messages in which RESENDs ask for ranges that end where fragments end, as
long as the sender has not reached the end of the message. -/
def Policy.level : Policy where
  start := Sendable
  grant _ _ _ := True
  resend cfg o pkt := o.nextSend < o.data.length →
    Boundary cfg.packetSize o.data.length (o.resendEnd pkt)

namespace Transfer

/-- The sender has reached the end of the message, or has dropped it. -/
def Finished (data : List UInt8) (t : Transfer) : Prop :=
  ∀ o, t.out = some o → o.nextSend = data.length

/-- A transfer whose sender stands where a fragment ends. As long as it has not reached the end,
all packets carry whole fragments, and the receiver has counted whole fragments. -/
structure Level (cfg : TransportConfig) (data : List UInt8) (t : Transfer) : Prop where
  out : ∀ o, t.out = some o →
    o.data = data ∧ 0 < o.nextSend ∧ Boundary cfg.packetSize data.length o.nextSend
  sent : t.Finished data ∨ ∀ x ∈ t.sent, cfg.packetSize ∣ x.2.length
  entry : t.Finished data ∨ ∀ m, t.entry = some m → cfg.packetSize ∣ m.receivedBytes

variable {cfg : TransportConfig} {rcv : Addr} {key : MsgKey Addr} {data : List UInt8}
  {t t' : Transfer}

/-- Sending to the end finishes a transfer, and otherwise whole fragments are sent. -/
theorem Level.send (h : Level cfg data t) {rs : List (ℕ × ℕ)} {msgId : UInt64} {o : OutMsg}
    (hdata : o.data = data) (hpos : 0 < o.nextSend)
    (hbound : Boundary cfg.packetSize data.length o.nextSend)
    (hfinished : t.Finished data → o.nextSend = data.length)
    (hrs : ∀ r ∈ rs, cfg.packetSize ∣ (slice data r.1 r.2).length ∨ o.nextSend = data.length) :
    Level cfg data { t with out := some o, sent := t.sent ∪ frames data msgId rs } := by
  have hdone : o.nextSend = data.length → Finished data
      { t with out := some o, sent := t.sent ∪ frames data msgId rs } := by
    intro heq o' ho'
    rwa [← Option.some.inj ho']
  refine ⟨fun o' ho' => ?_, ?_, ?_⟩
  · obtain rfl := Option.some.inj ho'
    exact ⟨hdata, hpos, hbound⟩
  · by_cases heq : o.nextSend = data.length
    · exact Or.inl (hdone heq)
    · right
      rintro x (hx | ⟨r, hr, rfl⟩)
      · rcases h.sent with hf | hall
        · exact absurd (hfinished hf) heq
        · exact hall x hx
      · exact (hrs r hr).resolve_right heq
  · exact h.entry.imp (fun hf => hdone (hfinished hf)) id

/-- An entry that takes a packet still counts whole fragments. -/
theorem Level.accept (h : Level cfg data t) {pkt : Packet} {payload : List UInt8} {now : ℕ}
    {m : InMsg} (hsent : (pkt, payload) ∈ t.sent)
    (hm : (t.entryFor cfg pkt now).accept cfg pkt payload now = some m) :
    t.Finished data ∨ cfg.packetSize ∣ m.receivedBytes := by
  rcases h.sent with hf | hall
  · exact Or.inl hf
  · refine h.entry.imp_right fun hentry => ?_
    have hold : cfg.packetSize ∣ (t.entryFor cfg pkt now).receivedBytes := by
      unfold Transfer.entryFor
      cases hcase : t.entry with
      | some m₀ => exact hentry m₀ hcase
      | none => exact Nat.dvd_zero _
    rcases InMsg.accept_cases hm with ⟨_, rfl⟩ | ⟨_, _, rfl⟩
    · exact hold
    · exact Dvd.dvd.add hold (hall _ hsent)

omit [DecidableEq Addr] in
theorem Level.step (h : Level cfg data t) (hs : Sendable data)
    (hstep : Step cfg Policy.level rcv key t t') : Level cfg data t' := by
  have hps := cfg.packetSize_pos
  -- the sender stays where it is, and nothing is sent
  have hstay : ∀ {o o' : OutMsg}, t.out = some o → o'.data = o.data → o'.nextSend = o.nextSend →
      Level cfg data { t with out := some o' } := by
    intro o o' hout hdata hnext
    obtain ⟨hdat, hpos, hbound⟩ := h.out o hout
    have hsend : Level cfg data { t with out := some o', sent := t.sent ∪ frames data key.2 [] } :=
      h.send (hdata.trans hdat) (by rwa [hnext]) (by rwa [hnext])
        (fun hf => hnext.trans (hf o hout)) (by simp)
    rwa [frames_nil, Set.union_empty] at hsend
  cases hstep with
  | @grant o pkt now hout =>
    obtain ⟨rfl, hpos, hbound⟩ := h.out o hout
    by_cases hu : o.Unlocks pkt
    · rw [OutMsg.handleGrant_of_unlocks cfg rcv pkt now hu, OutMsg.grantRanges, if_pos hu]
      have hlimit : min pkt.offset.toNat o.data.length ≤ o.data.length := Nat.min_le_right _ _
      have hmore : o.nextSend ≤ pumpEnd cfg.packetSize o.data.length
          (min pkt.offset.toNat o.data.length) o.nextSend := le_pumpEnd hbound.1
      refine h.send rfl (Nat.lt_of_lt_of_le hpos hmore) (hbound.pumpEnd hlimit)
        (fun hf => ?_) fun r hr => ?_
      · have hend : pumpEnd cfg.packetSize o.data.length
            (min pkt.offset.toNat o.data.length) o.nextSend ≤ o.data.length := pumpEnd_le hbound.1
        have hnow := hf o hout
        simp only [OutMsg.pumped]
        omega
      · refine (Chunk.dvd_or o.data (chunk_pumpRanges hps hlimit r hr)).imp_right fun hend => ?_
        have hle := pumpRanges_le_pumpEnd hps hr
        rw [hend] at hle
        exact Nat.le_antisymm (pumpEnd_le hbound.1) hle
    · rw [OutMsg.handleGrant_of_not_unlocks cfg rcv pkt now hu, OutMsg.grantRanges, if_neg hu,
        frames_nil, Set.union_empty]
      exact hstay hout rfl rfl
  | @resend o pkt now hout hpkt hok =>
    obtain ⟨rfl, hpos, hbound⟩ := h.out o hout
    have hnext := OutMsg.handleResend_nextSend cfg rcv pkt now o
    have hfin : o.resendEnd pkt ≤ o.data.length := Nat.min_le_right _ _
    have hend : o.nextSend < o.data.length →
        Boundary cfg.packetSize o.data.length (o.resendEnd pkt) := hok
    have hle := hbound.1
    refine h.send rfl ?_ ?_ (fun hf => ?_) fun r hr => ?_
    · rw [hnext]
      omega
    · rw [hnext]
      rcases Nat.lt_or_ge o.nextSend o.data.length with hlt | hge
      · exact hbound.max (hend hlt)
      · rw [Nat.max_eq_left (by omega)]
        exact hbound
    · have hnow := hf o hout
      rw [hnext]
      omega
    · refine (Chunk.dvd_or o.data (OutMsg.answerRanges_chunk cfg o pkt r hr)).imp_right
        fun hlast => ?_
      rw [hnext]
      rcases Nat.lt_or_ge o.nextSend o.data.length with hlt | hge
      · obtain ⟨i, _, hi, rfl⟩ := mem_resendRanges hr
        have hall := fragRange_of_boundary hps (hend hlt) hi hlast
        omega
      · omega
  | busy now hout => exact hstay hout rfl rfl
  | @poke o now hout hdone =>
    obtain ⟨rfl, hpos, hbound⟩ := h.out o hout
    refine h.send rfl hpos hbound (fun hf => hf o hout) fun r hr => ?_
    refine (Chunk.dvd_or o.data (OutMsg.pokeRanges_chunk hs.1 hbound.1 r hr)).imp_right
      fun hlast => ?_
    rw [List.mem_singleton.mp hr] at hlast
    have hlt : o.nextSend - 1 < o.nextSend := by omega
    exact fragRange_of_boundary hps hbound (div_lt_count hps hlt) hlast
  | reclaim hout hdone =>
    have hout : ∀ o : OutMsg, none ≠ some o := by simp
    exact ⟨fun o ho => absurd ho (hout o), Or.inl fun o ho => absurd ho (hout o),
      Or.inl fun o ho => absurd ho (hout o)⟩
  | store now hsent hm hopen =>
    refine ⟨h.out, h.sent, (h.accept hsent hm).imp_right fun hdvd m₁ hm₁ => ?_⟩
    rwa [← Option.some.inj hm₁]
  | deliver now hsent hdata =>
    exact ⟨h.out, h.sent, Or.inr fun m hm => by cases hm⟩
  | rewindow hentry hsame =>
    refine ⟨h.out, h.sent, h.entry.imp_right fun hdvd m₁ hm₁ => ?_⟩
    rw [← Option.some.inj hm₁, hsame.receivedBytes]
    exact hdvd _ hentry
  | ask hentry hoff => exact ⟨h.out, h.sent, h.entry⟩
  | giveUp hentry hoff => exact ⟨h.out, h.sent, Or.inr fun m hm => by cases hm⟩

omit [DecidableEq Addr] in
theorem Level.of_steps (hpos : 0 < cfg.unscheduledBytes) (hs : Sendable data) {now : ℕ}
    (h : Steps cfg Policy.level rcv key (first cfg key.2 data now) t) : Level cfg data t := by
  have hps := cfg.packetSize_pos
  have hl : min cfg.unscheduledBytes data.length ≤ data.length := Nat.min_le_right _ _
  have hlen := List.length_pos_of_ne_nil hs.1
  have hzero : Boundary cfg.packetSize data.length 0 := ⟨Nat.zero_le _, Or.inl (Nat.dvd_zero _)⟩
  have hfar : min cfg.unscheduledBytes data.length ≤
      pumpEnd cfg.packetSize data.length (min cfg.unscheduledBytes data.length) 0 :=
    limit_le_pumpEnd hps hl
  have hend : (OutMsg.started cfg data now).nextSend =
      pumpEnd cfg.packetSize data.length (min cfg.unscheduledBytes data.length) 0 := rfl
  refine h.invariant ⟨fun o ho => ?_, ?_, Or.inr fun m hm => by cases hm⟩
    fun _ _ ht hstep => ht.step hs hstep
  · obtain rfl := Option.some.inj ho
    rw [hend]
    exact ⟨rfl, by omega, hzero.pumpEnd hl⟩
  · by_cases hall : (OutMsg.started cfg data now).nextSend = data.length
    · refine Or.inl fun o ho => ?_
      rwa [← Option.some.inj ho]
    · right
      rintro x ⟨r, hr, rfl⟩
      refine (Chunk.dvd_or data (chunk_pumpRanges hps hl r hr)).resolve_right fun hlast => hall ?_
      have hle := pumpRanges_le_pumpEnd hps hr
      rw [hlast] at hle
      rw [hend]
      exact Nat.le_antisymm (pumpEnd_le (Nat.zero_le _)) hle

omit [DecidableEq Addr] in
/-- At the end of a message the sender stays. -/
theorem Finished.steps {p : Policy} (h : t.Finished data)
    (hdata : ∀ o, t.out = some o → o.data = data) (hsteps : Steps cfg p rcv key t t') :
    t'.Finished data := by
  suffices hall : ∀ o, t'.out = some o → o.data = data ∧ o.nextSend = data.length from
    fun o ho => (hall o ho).2
  induction hsteps with
  | refl => exact fun o ho => ⟨hdata o ho, h o ho⟩
  | tail _ hstep ih =>
    have hkeep : ∀ {o o' : OutMsg}, OutMsg.Advances o o' → o.data = data ∧
        o.nextSend = data.length → o'.nextSend ≤ o'.data.length →
        o'.data = data ∧ o'.nextSend = data.length := by
      rintro o o' hadv ⟨hdat, hnext⟩ hle
      have hsame := hadv.data
      have hmore := hadv.nextSend
      rw [hsame, hdat] at hle
      exact ⟨hsame.trans hdat, by omega⟩
    cases hstep with
    | @grant o pkt now hout hok =>
      intro o' ho'
      obtain rfl := Option.some.inj ho'
      have ho := ih o hout
      have hle : o.nextSend ≤ o.data.length := by rw [ho.1, ho.2]
      refine hkeep (OutMsg.Advances.handleGrant cfg rcv pkt now hle) ho ?_
      rw [OutMsg.handleGrant_data]
      exact OutMsg.handleGrant_nextSend_le cfg rcv pkt now hle
    | @resend o pkt now hout _ hok =>
      intro o' ho'
      obtain rfl := Option.some.inj ho'
      have ho := ih o hout
      have hle : o.nextSend ≤ o.data.length := by rw [ho.1, ho.2]
      exact hkeep (OutMsg.Advances.handleResend cfg rcv pkt now o) ho
        (OutMsg.handleResend_nextSend_le cfg rcv pkt now hle)
    | @busy o now hout =>
      intro o' ho'
      obtain rfl := Option.some.inj ho'
      exact ih o hout
    | @poke o now hout _ =>
      intro o' ho'
      obtain rfl := Option.some.inj ho'
      exact ih o hout
    | reclaim => exact fun o ho => by cases ho
    | store => exact ih
    | deliver => exact ih
    | rewindow => exact ih
    | ask => exact ih
    | giveUp => exact ih

/-- Where the sender stands at a boundary, no GRANT splits a fragment. -/
theorem Level.grant_whole (h : Level cfg data t) {o : OutMsg} (ho : t.out = some o) (pkt : Packet) :
    ¬ GrantSplits cfg o pkt ∧ ¬ GrantSplitsLast cfg o pkt := by
  obtain ⟨rfl, _, hbound⟩ := h.out o ho
  have hle : min pkt.offset.toNat o.data.length ≤ o.data.length := Nat.min_le_right _ _
  refine ⟨fun ⟨_, hlt, hnot⟩ => ?_, fun ⟨_, _, hin⟩ => ?_⟩
  · rcases hbound.2 with hdvd | heq
    · exact hnot hdvd
    · omega
  · exact (hbound.pumpEnd hle).not_inLast cfg.packetSize_pos hin

/-- And no RESEND splits the last one. -/
theorem not_resendSplitsLast {o : OutMsg} {pkt : Packet} (hok : Policy.level.resend cfg o pkt) :
    ¬ ResendSplitsLast cfg o pkt := by
  rintro ⟨hlt, hin⟩
  have hle : o.resendEnd pkt ≤ o.data.length := Nat.min_le_right _ _
  exact (hok (by omega)).not_inLast cfg.packetSize_pos hin

omit [DecidableEq Addr] in
theorem Level.whole_steps (hpos : 0 < cfg.unscheduledBytes) (hs : Sendable data) {now : ℕ}
    (h : Steps cfg Policy.level rcv key (first cfg key.2 data now) t) :
    Steps cfg Policy.whole rcv key (first cfg key.2 data now) t := by
  induction h with
  | refl => exact Relation.ReflTransGen.refl
  | tail hsteps hstep ih =>
    have hlevel := Level.of_steps hpos hs hsteps
    exact ih.tail (hstep.restrict (fun o pkt ho _ => (hlevel.grant_whole ho pkt).1)
      fun _ _ _ _ => trivial)

end Transfer

namespace InMsg

/-- An entry that has counted whole fragments and whose window ends where a fragment ends. -/
structure Steady (cfg : TransportConfig) (len : ℕ) (m : InMsg) : Prop where
  totalLen : m.totalLen = len
  count_le : m.receivedBytes ≤ len
  receivedBytes : cfg.packetSize ∣ m.receivedBytes
  grantedTo : Boundary cfg.packetSize len m.grantedTo

variable {cfg : TransportConfig} {len : ℕ} {m : InMsg}

omit [DecidableEq Addr] in
/-- A GRANT raises the window by whole fragments. -/
theorem Steady.issueGrant (h : m.Steady cfg len) (hinc : cfg.packetSize ∣ cfg.grantIncrement)
    (hsum : len + cfg.grantIncrement < 2 ^ 64) (key : MsgKey Addr) (now : ℕ) (force : Bool) :
    (m.issueGrant cfg key now force).1.Steady cfg len := by
  have hfit : m.SumFits cfg :=
    Nat.lt_of_le_of_lt (Nat.add_le_add_right h.count_le _) hsum
  rcases issueGrant_cases cfg key now force m with hg | hg
  · rw [hg]
    exact h
  · rw [hg]
    refine ⟨h.totalLen, h.count_le, h.receivedBytes, ?_⟩
    simp only [hfit.grantTarget, h.totalLen]
    exact (boundary_min (Dvd.dvd.add h.receivedBytes hinc) len).max h.grantedTo

omit [DecidableEq Addr] in
theorem Steady.tickEntry (h : m.Steady cfg len) (hinc : cfg.packetSize ∣ cfg.grantIncrement)
    (hsum : len + cfg.grantIncrement < 2 ^ 64) {now : ℕ} {key : MsgKey Addr} {granted : Bool}
    {m' : InMsg}
    (ht : (ReceiverCore.tickEntry cfg now key granted m).1 = some m') : m'.Steady cfg len := by
  rcases ReceiverCore.tickEntry_cases cfg now key granted m with
    ⟨_, he⟩ | ⟨_, ⟨off, _, _, he⟩ | ⟨off, _, _, he⟩ | ⟨_, t, he⟩ | ⟨_, he⟩⟩ <;> rw [he] at ht
  · rwa [← Option.some.inj ht]
  · rw [← Option.some.inj ht]
    exact ⟨h.totalLen, h.count_le, h.receivedBytes, h.grantedTo⟩
  · cases ht
  · rw [← Option.some.inj ht]
    exact ⟨h.totalLen, h.count_le, h.receivedBytes, h.grantedTo⟩
  · rw [← Option.some.inj ht]
    have hsame : Steady cfg len { m with lastProgress := now } :=
      ⟨h.totalLen, h.count_le, h.receivedBytes, h.grantedTo⟩
    exact hsame.issueGrant hinc hsum key now true

omit [DecidableEq Addr] in
/-- The RESEND of such an entry asks for a range that ends where a fragment ends. -/
theorem Steady.resendEnd (h : m.Steady cfg len) (hinc : cfg.packetSize ∣ cfg.grantIncrement)
    (hlen : len < 2 ^ 32) {key : MsgKey Addr} {off : ℕ} (hoff : m.missingInWindow cfg = some off)
    {o : OutMsg} (ho : o.data.length = len) :
    Boundary cfg.packetSize o.data.length (o.resendEnd (m.resendPacket cfg key off)) := by
  obtain ⟨i, hi, rfl, hlt, -⟩ := missingInWindow_spec hoff
  obtain ⟨hle, hend⟩ := h.grantedTo
  have hoffset : (m.resendPacket cfg key (i * cfg.packetSize)).offset.toNat =
      i * cfg.packetSize := toNat_ofNat_u32 (by omega)
  have hlength : (m.resendPacket cfg key (i * cfg.packetSize)).length.toNat =
      min (m.grantedTo - i * cfg.packetSize) cfg.grantIncrement := toNat_ofNat_u32 (by omega)
  have heq : o.resendEnd (m.resendPacket cfg key (i * cfg.packetSize)) =
      min (i * cfg.packetSize + cfg.grantIncrement) m.grantedTo := by
    rw [OutMsg.resendEnd, hoffset, hlength, ho]
    omega
  rw [heq, ho]
  rcases Nat.le_total (i * cfg.packetSize + cfg.grantIncrement) m.grantedTo with hcase | hcase
  · rw [Nat.min_eq_left hcase]
    exact ⟨by omega, Or.inl (Dvd.dvd.add (Nat.dvd_mul_left _ _) hinc)⟩
  · rw [Nat.min_eq_right hcase]
    exact h.grantedTo

end InMsg

namespace Transfer

variable {cfg : TransportConfig} {rcv : Addr} {key : MsgKey Addr} {data : List UInt8}
  {t : Transfer}

/-- The entry of the receiver is steady, and all RESENDs end where fragments end. -/
structure Aimed (cfg : TransportConfig) (data : List UInt8) (t : Transfer) : Prop where
  entry : ∀ m, t.entry = some m → m.Steady cfg data.length
  resends : ∀ pkt ∈ t.resends, ∀ o : OutMsg, o.data.length = data.length →
    Boundary cfg.packetSize o.data.length (o.resendEnd pkt)

/-- An entry that takes a whole fragment stays steady. -/
theorem Aimed.accept (h : Aimed cfg data t) (hlevel : Level cfg data t)
    (hfaithful : Faithful cfg data t) (hun : cfg.packetSize ∣ cfg.unscheduledBytes)
    (hopen : ¬ t.Finished data) {pkt : Packet} {payload : List UInt8} {now : ℕ} {m : InMsg}
    (hsent : (pkt, payload) ∈ t.sent)
    (hm : (t.entryFor cfg pkt now).accept cfg pkt payload now = some m) :
    m.Steady cfg data.length := by
  have hold : (t.entryFor cfg pkt now).Steady cfg data.length := by
    unfold Transfer.entryFor
    cases hcase : t.entry with
    | some m₀ => exact h.entry m₀ hcase
    | none =>
      rw [Option.getD_none, (hfaithful.sent _ hsent).msgLen]
      exact ⟨rfl, Nat.zero_le _, Nat.dvd_zero _, boundary_min hun _⟩
  have hdvd := (hlevel.accept hsent hm).resolve_left hopen
  have hcount : m.receivedBytes ≤ data.length := by
    obtain ⟨m', hm', hreb, -⟩ := (hfaithful.entryFor hsent now).accept (hfaithful.sent _ hsent) now
    obtain rfl := Option.some.inj (hm.symm.trans hm')
    exact hreb.totalLen ▸ hreb.le
  rcases InMsg.accept_cases hm with ⟨_, rfl⟩ | ⟨_, _, rfl⟩
  · exact hold
  · exact ⟨hold.totalLen, hcount, hdvd, hold.grantedTo⟩

end Transfer

namespace Network

variable {cfg : TransportConfig} {rcv : Addr} {s s' : Network Addr} {e : Event Addr}

/-- An event runs a sender core, which emits DATA only, or the receiver core. -/
theorem Effect.sides (he : Effect rcv s e s') :
    (s'.receiver = s.receiver ∧ ∃ src acts, s'.emitted = s.emitted ++ datagrams src acts ∧
      EmitsOnly (· = .data) acts) ∨
    (∃ d ∈ s.flight, ∃ pkt payload now acts, d.dest = rcv ∧
      Packet.decode d.bytes = .ok (pkt, payload) ∧ pkt.typ = .data ∧
      ReceiverCore.DataStep s.receiver d.src pkt payload now s'.receiver acts ∧
      s'.emitted = s.emitted ++ datagrams rcv acts) ∨
    ∃ now order acts, s.receiver.tick now order = some (s'.receiver, acts) ∧
      s'.emitted = s.emitted ++ datagrams rcv acts := by
  have hupdate : ∀ (c : SenderCore Addr) (k : MsgKey Addr)
      (handler : OutMsg → OutMsg × List (Action Addr)) (rs : OutMsg → List (ℕ × ℕ)),
      (∀ m, (handler m).2 = sendRanges k.1 k.2 m.data (rs m)) →
      EmitsOnly (· = .data) (c.update k handler).2 := by
    intro c k handler rs hacts
    rw [SenderCore.update_outputs]
    cases c.out.lookup k with
    | none => exact EmitsOnly.nil
    | some m =>
      rw [Option.map_some, Option.getD_some, hacts]
      exact emitsOnly_sendRanges _ _ _ _
  have hnone : s.emitted = s.emitted ++ datagrams rcv ([] : List (Action Addr)) :=
    (List.append_nil _).symm
  cases he with
  | @start src msgId data now hclock hfresh =>
    refine Or.inl ⟨rfl, src, _, rfl, ?_⟩
    rw [SenderCore.start_acts]
    exact emitsOnly_sendRanges _ _ _ _
  | ignored => exact Or.inl ⟨rfl, rcv, [], hnone, EmitsOnly.nil⟩
  | @data i now order d pkt payload r' acts hd hclock hdest hdec htyp hr =>
    exact Or.inr (Or.inl ⟨d, List.mem_of_getElem? hd, pkt, payload, now, acts, hdest, hdec, htyp,
      ReceiverCore.handleData_spec hr, rfl⟩)
  | @grant i now order d pkt payload hd hclock hdec htyp =>
    exact Or.inl ⟨rfl, d.dest, _, rfl, hupdate _ _ _ _ fun m => OutMsg.handleGrant_acts _ _ _ _ m⟩
  | @resend i now order d pkt payload hd hclock hdec htyp =>
    exact Or.inl ⟨rfl, d.dest, _, rfl, hupdate _ _ _ _ fun m => OutMsg.handleResend_acts _ _ _ _ m⟩
  | busy => exact Or.inl ⟨rfl, _, [], rfl, EmitsOnly.nil⟩
  | drop => exact Or.inl ⟨rfl, rcv, [], hnone, EmitsOnly.nil⟩
  | duplicate => exact Or.inl ⟨rfl, rcv, [], hnone, EmitsOnly.nil⟩
  | @senderTick host now order hclock =>
    exact Or.inl ⟨rfl, host, _, rfl, emitsOnly_tick _ _ _⟩
  | @receiverTick now order r' acts hclock hr =>
    exact Or.inr (Or.inr ⟨now, order, acts, hr, rfl⟩)

/-- The RESENDs sent for a message, after some more were emitted. -/
theorem resends_of_emitted {src : Addr} {acts : List (Action Addr)}
    (h : s'.emitted = s.emitted ++ datagrams src acts) (key : MsgKey Addr) :
    (s'.transfer rcv key).resends = (s.transfer rcv key).resends ∪
      {pkt | src = rcv ∧ ∃ q, (pkt, q) ∈ packetsFor .resend key.1 key.2 acts} := by
  have hsame : (s'.transfer rcv key).resends = ((emit src acts s).transfer rcv key).resends := by
    simp only [transfer, h, emit]
  exact hsame.trans (resends_emit src acts)

theorem resends_of_silent {src : Addr} {acts : List (Action Addr)}
    (h : s'.emitted = s.emitted ++ datagrams src acts) {types : PacketType → Prop}
    (honly : EmitsOnly types acts) (htypes : ¬ types .resend) (key : MsgKey Addr) :
    (s'.transfer rcv key).resends = (s.transfer rcv key).resends := by
  rw [resends_of_emitted h key, honly.packetsFor_eq htypes]
  simp

/-- What an event makes of steady entries and of the RESENDs, for a message that goes on. -/
theorem Effect.aimed (he : Effect rcv s e s') (hw : Wired cfg s) {key : MsgKey Addr}
    {data : List UInt8} (hun : cfg.packetSize ∣ cfg.unscheduledBytes)
    (hinc : cfg.packetSize ∣ cfg.grantIncrement)
    (hsum : 2 ^ 32 + cfg.grantIncrement ≤ 2 ^ 64) (hlen : data.length < 2 ^ 32)
    (haimed : Transfer.Aimed cfg data (s.transfer rcv key))
    (hlevel : Transfer.Level cfg data (s.transfer rcv key))
    (hfaithful : Transfer.Faithful cfg data (s.transfer rcv key))
    (hopen : ¬ (s.transfer rcv key).Finished data) :
    Transfer.Aimed cfg data (s'.transfer rcv key) := by
  have hcfg := hw.receiver_cfg
  rcases he.sides with ⟨hreceiver, src, acts, hemitted, honly⟩ |
    ⟨d, hd, pkt, payload, now, acts, hdest, hdec, htyp, hstep, hemitted⟩ |
    ⟨now, order, acts, htick, hemitted⟩
  · refine ⟨fun m hm => haimed.entry m ?_, ?_⟩
    · change s'.receiver.incoming.lookup key = some m at hm
      rwa [hreceiver] at hm
    · rw [resends_of_silent hemitted honly (by simp)]
      exact haimed.resends
  · constructor
    · refine fun m hm => hstep.entries (E := fun k m => k = key → m.Steady cfg data.length)
        (fun k m hE _ hk => ?_) (fun m _ hm _ hk => ?_) (fun k m hm hk => ?_) key m hm rfl
      · rw [hcfg]
        exact (hE hk).issueGrant hinc (by omega) _ _ _
      · have hfor : (s.transfer rcv key).entryFor cfg pkt now =
            s.receiver.entryFor d.src pkt now := by
          rw [Transfer.entryFor, ReceiverCore.entryFor, hcfg, hk]
          rfl
        have hsent : (pkt, payload) ∈ (s.transfer rcv key).sent :=
          ⟨d, hw.flight_emitted d hd, congrArg Prod.fst hk, hdest, hdec, htyp,
            congrArg Prod.snd hk⟩
        rw [← hfor, hcfg] at hm
        exact haimed.accept hlevel hfaithful hun hopen hsent hm
      · exact haimed.entry m (hk ▸ hm)
    · rw [resends_of_silent hemitted hstep.emitsOnly (by simp)]
      exact haimed.resends
  · constructor
    · refine fun m hm => ReceiverCore.tick_entries (E := fun k m => k = key →
        m.Steady cfg data.length) htick (fun k m hE _ hk => ?_)
        (fun k m m' granted hE ht hk => ?_) (fun k m hm hk => ?_) key m hm rfl
      · rw [hcfg]
        exact (hE hk).issueGrant hinc (by omega) _ _ _
      · rw [hcfg] at ht
        exact (hE hk).tickEntry hinc (by omega) ht
      · exact haimed.entry m (hk ▸ hm)
    · rw [resends_of_emitted hemitted key]
      rintro pkt (hpkt | ⟨-, hpkt⟩) o ho
      · exact haimed.resends pkt hpkt o ho
      · have hmem : pkt ∈ {pkt | ∃ q, (pkt, q) ∈ packetsFor .resend key.1 key.2 acts} := hpkt
        rw [ReceiverCore.tick_resends htick key, hcfg] at hmem
        obtain ⟨m, off, hm, _, hoff, rfl⟩ := hmem
        exact (haimed.entry m hm).resendEnd hinc hlen hoff ho

/-- The invariant of runs with windows of whole fragments. -/
structure Leveled (cfg : TransportConfig) (rcv : Addr) (s : Network Addr) : Prop
    extends Traced cfg Policy.level rcv s where
  control_src : ∀ d ∈ s.emitted, ∀ pkt q, Packet.decode d.bytes = .ok (pkt, q) →
    pkt.typ ≠ .data → d.src = rcv
  aimed : ∀ key data, (key, data) ∈ s.started → (s.transfer rcv key).Finished data ∨
    Transfer.Aimed cfg data (s.transfer rcv key)

theorem Leveled.new (cfg : TransportConfig) (rcv : Addr) :
    Leveled cfg rcv (Network.new cfg : Network Addr) where
  toTraced := Traced.new cfg Policy.level rcv
  control_src d hd := by cases hd
  aimed key data h := by cases h

/-- Such a run does nothing but what the policy admits. -/
theorem Leveled.admits (h : Leveled cfg rcv s) (hok : s.Admits Policy.sendable e) :
    s.Admits Policy.level e := by
  cases e with
  | start src msgId data now => exact hok
  | deliver i now order =>
    refine fun d hd pkt payload hdec o ho => ⟨fun _ => trivial, fun htyp hlt => ?_⟩
    have hmem := h.flight_emitted d (List.mem_of_getElem? hd)
    have hsrc := h.control_src d hmem pkt payload hdec (by simp [htyp])
    subst hsrc
    have hout : (s.transfer d.src (d.dest, pkt.msgId)).out = some o := ho
    rw [h.senders_cfg]
    rcases h.aimed _ _ (h.out_data _ o hout) with hfinished | haimed
    · exact absurd (hfinished o hout) (Nat.ne_of_lt hlt)
    · exact haimed.resends pkt ⟨d, hmem, payload, rfl, rfl, hdec, htyp, rfl⟩ o rfl
  | drop => trivial
  | duplicate => trivial
  | senderTick => trivial
  | receiverTick => trivial

/-- What is known of a message that was started. -/
theorem Leveled.transfers (h : Leveled cfg rcv s) (hpos : 0 < cfg.unscheduledBytes)
    {key : MsgKey Addr} {data : List UInt8} (hmem : (key, data) ∈ s.started) :
    Sendable data ∧ Transfer.Level cfg data (s.transfer rcv key) ∧
      Transfer.Faithful cfg data (s.transfer rcv key) := by
  have hs : Sendable data := h.admitted key data hmem
  obtain ⟨now, hsteps⟩ := h.traced key data hmem hs.2
  exact ⟨hs, Transfer.Level.of_steps hpos hs hsteps,
    Transfer.Faithful.of_steps hs (fun _ _ hg => hg) (Transfer.Level.whole_steps hpos hs hsteps)⟩

/-- A message that goes on stays aimed, or reaches its end. -/
theorem Leveled.aimed_effect (h : Leveled cfg rcv s) (hun : cfg.packetSize ∣ cfg.unscheduledBytes)
    (hpos : 0 < cfg.unscheduledBytes) (hinc : cfg.packetSize ∣ cfg.grantIncrement)
    (hsum : 2 ^ 32 + cfg.grantIncrement ≤ 2 ^ 64)
    (hok : s.Admits Policy.sendable e) (he : Effect rcv s e s') {key : MsgKey Addr}
    {data : List UInt8} (hmem : (key, data) ∈ s.started)
    (hkey : ∀ data now, e ≠ .start key.1 key.2 data now) :
    (s'.transfer rcv key).Finished data ∨ Transfer.Aimed cfg data (s'.transfer rcv key) := by
  obtain ⟨hs, hlevel, hfaithful⟩ := h.transfers hpos hmem
  have hsteps := steps_effect h.toWired (h.admits hok) he key hkey fun o ho => by
    rw [(hlevel.out o ho).1]
    exact hs.2
  by_cases hopen : (s.transfer rcv key).Finished data
  · exact Or.inl (hopen.steps (fun o ho => (hlevel.out o ho).1) hsteps)
  · exact Or.inr (he.aimed h.toWired hun hinc hsum hs.2 ((h.aimed key data hmem).resolve_left hopen)
      hlevel hfaithful hopen)

theorem Leveled.effect (h : Leveled cfg rcv s) (hun : cfg.packetSize ∣ cfg.unscheduledBytes)
    (hpos : 0 < cfg.unscheduledBytes) (hinc : cfg.packetSize ∣ cfg.grantIncrement)
    (hsum : 2 ^ 32 + cfg.grantIncrement ≤ 2 ^ 64)
    (hok : s.Admits Policy.sendable e) (he : Effect rcv s e s')
    (ht : Traced cfg Policy.level rcv s') : Leveled cfg rcv s' where
  toTraced := ht
  control_src d hd pkt q hdec htyp := by
    have hnew : ∀ {src : Addr} {acts : List (Action Addr)}, s'.emitted =
        s.emitted ++ datagrams src acts → src = rcv ∨ EmitsOnly (· = .data) acts →
        d.src = rcv := by
      intro src acts hemitted hcase
      rw [hemitted] at hd
      rcases List.mem_append.mp hd with hd | hd
      · exact h.control_src d hd pkt q hdec htyp
      · obtain ⟨hsrc, hsend⟩ := mem_datagrams.mp hd
        rcases hcase with rfl | honly
        · exact hsrc
        · obtain ⟨pkt', q', hbytes, hdata⟩ := honly _ _ hsend
          rw [hbytes] at hdec
          rw [(Packet.eq_of_decode_encode hdec).1] at htyp
          exact absurd hdata htyp
    rcases he.sides with ⟨-, src, acts, hemitted, honly⟩ | ⟨_, _, _, _, _, _, _, _, _, _, hemitted⟩ |
      ⟨_, _, _, _, hemitted⟩
    · exact hnew hemitted (Or.inr honly)
    · exact hnew hemitted (Or.inl rfl)
    · exact hnew hemitted (Or.inl rfl)
  aimed key data hmem := by
    have hgoes : (key, data) ∈ s.started → (∀ data now, e ≠ .start key.1 key.2 data now) →
        (s'.transfer rcv key).Finished data ∨ Transfer.Aimed cfg data (s'.transfer rcv key) :=
      h.aimed_effect hun hpos hinc hsum hok he
    cases he with
    | @start src msgId data' now hclock hfresh =>
      rcases List.mem_append.mp hmem with hold | hnew
      · refine hgoes hold fun data'' now' heq => hfresh ?_
        obtain ⟨rfl, rfl, -, -⟩ := Event.start.inj heq
        exact List.mem_map_of_mem hold
      · obtain ⟨rfl, rfl⟩ := Prod.mk.inj (List.mem_singleton.mp hnew)
        have hs : Sendable data := hok
        rw [transfer_start h.toWired hs.2 (h.idle _ hfresh) now]
        exact Or.inr ⟨fun m hm => (by cases hm), fun pkt hpkt => by cases hpkt⟩
    | ignored => exact hgoes hmem (by simp)
    | data => exact hgoes hmem (by simp)
    | grant => exact hgoes hmem (by simp)
    | resend => exact hgoes hmem (by simp)
    | busy => exact hgoes hmem (by simp)
    | drop => exact hgoes hmem (by simp)
    | duplicate => exact hgoes hmem (by simp)
    | senderTick => exact hgoes hmem (by simp)
    | receiverTick => exact hgoes hmem (by simp)

theorem Leveled.of_run (hun : cfg.packetSize ∣ cfg.unscheduledBytes)
    (hpos : 0 < cfg.unscheduledBytes) (hinc : cfg.packetSize ∣ cfg.grantIncrement)
    (hsum : 2 ^ 32 + cfg.grantIncrement ≤ 2 ^ 64) {evs : List (Event Addr)}
    (h : Run (Network.step rcv) (Network.Admits Policy.sendable) (Network.new cfg) evs s) :
    Leveled cfg rcv s :=
  h.invariant (fun _ _ _ ht hok hstep => ht.effect hun hpos hinc hsum hok (step_spec hstep)
    (ht.toTraced.step (ht.admits hok) hstep)) (Leveled.new cfg rcv)

theorem Leveled.unclocked (h : Leveled cfg rcv s) :
    Leveled cfg rcv ({ s with clock := 0 } : Network Addr) :=
  ⟨⟨h.toWired.unclocked, h.nodup, h.admitted, h.idle, h.out_data, h.traced⟩, h.control_src, h.aimed⟩

theorem Leveled.of_runAnytime (hun : cfg.packetSize ∣ cfg.unscheduledBytes)
    (hpos : 0 < cfg.unscheduledBytes) (hinc : cfg.packetSize ∣ cfg.grantIncrement)
    (hsum : 2 ^ 32 + cfg.grantIncrement ≤ 2 ^ 64) {evs : List (Event Addr)}
    (h : Run (Network.stepAnytime rcv) (Network.Admits Policy.sendable) (Network.new cfg) evs s) :
    Leveled cfg rcv s := by
  refine h.invariant (fun s e s' ht hok hstep => ?_) (Leveled.new cfg rcv)
  have hok' : ({ s with clock := 0 } : Network Addr).Admits Policy.sendable e := by
    cases e <;> exact hok
  exact ht.unclocked.effect hun hpos hinc hsum hok' (step_spec hstep)
    (ht.toTraced.stepAnytime (ht.admits hok) hstep)

/-- In such a state no event splits a fragment. -/
theorem Leveled.admits_whole (h : Leveled cfg rcv s) (hpos : 0 < cfg.unscheduledBytes)
    (hok : s.Admits Policy.sendable e) : s.Admits Policy.whole e ∧ s.Admits Policy.wholeLast e := by
  have hlevel := h.admits hok
  -- a control packet that finds an entry is about a message that was started
  have hout : ∀ {i : ℕ} {d : Datagram Addr} {pkt : Packet} {payload : List UInt8} {o : OutMsg},
      s.flight[i]? = some d → Packet.decode d.bytes = .ok (pkt, payload) → pkt.typ ≠ .data →
      (s.senders d.dest).out.lookup (d.src, pkt.msgId) = some o →
      ∃ data t, Transfer.Level cfg data t ∧ t.out = some o := by
    intro i d pkt payload o hd hdec htyp ho
    obtain rfl := h.control_src d (h.flight_emitted d (List.mem_of_getElem? hd)) pkt payload hdec htyp
    have hlook : (s.transfer d.src (d.dest, pkt.msgId)).out = some o := ho
    exact ⟨_, _, (h.transfers hpos (h.out_data _ o hlook)).2.1, hlook⟩
  cases e with
  | start src msgId data now => exact ⟨hok, hok⟩
  | deliver i now order =>
    constructor
    · refine fun d hd pkt payload hdec o ho => ⟨fun htyp => ?_, fun _ => trivial⟩
      obtain ⟨data, t, ht, hto⟩ := hout hd hdec (by simp [htyp]) ho
      rw [h.senders_cfg]
      exact (ht.grant_whole hto pkt).1
    · refine fun d hd pkt payload hdec o ho => ⟨fun htyp => ?_, fun htyp => ?_⟩
      · obtain ⟨data, t, ht, hto⟩ := hout hd hdec (by simp [htyp]) ho
        rw [h.senders_cfg]
        exact (ht.grant_whole hto pkt).2
      · rw [h.senders_cfg]
        have hresend := (hlevel d hd pkt payload hdec o ho).2 htyp
        rw [h.senders_cfg] at hresend
        exact Transfer.not_resendSplitsLast hresend
  | drop => exact ⟨trivial, trivial⟩
  | duplicate => exact ⟨trivial, trivial⟩
  | senderTick => exact ⟨trivial, trivial⟩
  | receiverTick => exact ⟨trivial, trivial⟩

/-- If the unscheduled window and the grant increment are multiples of the fragment size, every
run with sendable messages is one in which no control packet splits a fragment. The increment
stays below the range of a `usize` by the length of a message. -/
theorem aligned_whole (cfg : TransportConfig) (hun : cfg.packetSize ∣ cfg.unscheduledBytes)
    (hpos : 0 < cfg.unscheduledBytes) (hinc : cfg.packetSize ∣ cfg.grantIncrement)
    (hsum : 2 ^ 32 + cfg.grantIncrement ≤ 2 ^ 64) (rcv : Addr) {evs : List (Event Addr)}
    {s : Network Addr}
    (h : Run (Network.step rcv) (Network.Admits Policy.sendable) (Network.new cfg) evs s) :
    Run (Network.step rcv) (Network.Admits Policy.whole) (Network.new cfg) evs s ∧
      Run (Network.step rcv) (Network.Admits Policy.wholeLast) (Network.new cfg) evs s := by
  induction h with
  | nil => exact ⟨Run.nil, Run.nil⟩
  | snoc hrun hok hstep ih =>
    obtain ⟨hwhole, hlast⟩ := (Leveled.of_run hun hpos hinc hsum hrun).admits_whole hpos hok
    exact ⟨ih.1.snoc hwhole hstep, ih.2.snoc hlast hstep⟩

theorem aligned_whole_ten : ∃ s : Network ℕ,
    exec (Network.step 1) evenRun (Network.new evenConfig) = some s ∧
    s.delivered = [((0, 1), [1, 2, 3, 4, 5, 6, 7, 8, 9, 10])] ∧
    Run (Network.step 1) (Network.Admits Policy.whole) (Network.new evenConfig) evenRun s ∧
    Run (Network.step 1) (Network.Admits Policy.wholeLast) (Network.new evenConfig) evenRun s := by
  have hout : (exec (Network.step 1) evenRun (Network.new evenConfig)).map Network.delivered =
      some [((0, 1), [1, 2, 3, 4, 5, 6, 7, 8, 9, 10])] := rfl
  obtain ⟨s, hs, hdel⟩ := Option.map_eq_some_iff.mp hout
  have hsend : ∀ src msgId data now, .start src msgId data now ∈ evenRun → Sendable data := by
    intro src msgId data now hmem
    simp only [evenRun, List.mem_cons, Event.start.injEq, reduceCtorEq, or_false, List.not_mem_nil]
      at hmem
    obtain ⟨-, -, rfl, -⟩ := hmem
    exact ⟨by decide, by decide⟩
  exact ⟨s, hs, hdel, aligned_whole evenConfig (by decide) (by decide) (by decide) (by decide) 1
    (run_of_admitted hs (admitted_sendable 1 hsend _))⟩

end Network

end AgentTransport
