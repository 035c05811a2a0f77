import AgentTransport.Sender
import AgentTransport.Fragmentation

/-!
# What the sender emits

Both loops of the sender have closed forms. `pump` sends the ranges that start at
`nextSend` and at every further multiple of the fragment size, and `handle_resend`
sends the fragments that meet the requested range. The two agree on the fragment
boundaries as long as `nextSend` is itself a boundary.
-/
namespace AgentTransport
open ByteString Fragmentation

variable {Addr : Type}

/-- DATA actions for a list of ranges of one message. -/
def sendRanges (dest : Addr) (msgId : UInt64) (data : List UInt8) (rs : List (ℕ × ℕ)) :
    List (Action Addr) :=
  rs.map fun r => .send dest (dataPacket data msgId r.1 r.2)

/-- The range of fragment `i`. -/
def fragRange (ps len i : ℕ) : ℕ × ℕ := (i * ps, fragEnd ps len i)

/-- The ranges `pump` sends from `next` until `limit` is reached. -/
def pumpRanges (ps len limit next : ℕ) : List (ℕ × ℕ) :=
  (List.range (count ps (limit - next))).map fun j =>
    (next + j * ps, min (next + j * ps + ps) len)

/-- Where `pump` leaves `next`. -/
def pumpEnd (ps len limit next : ℕ) : ℕ :=
  if next < limit then min (next + count ps (limit - next) * ps) len else next

/-- The ranges `handle_resend` sends for `[off, fin)`. -/
def resendRanges (ps len fin off : ℕ) : List (ℕ × ℕ) :=
  if off < fin then (List.range' (off / ps) (count ps fin - off / ps)).map (fragRange ps len)
  else []

theorem count_step {ps n : ℕ} (hps : 0 < ps) (hn : 0 < n) :
    count ps n = count ps (n - ps) + 1 := by
  refine Nat.le_antisymm (Nat.le_of_not_lt fun h => ?_) (Nat.le_of_not_lt fun h => ?_)
  · have h₁ := (lt_count_iff hps).mp h
    have h₂ : ¬ count ps (n - ps) < count ps (n - ps) := Nat.lt_irrefl _
    rw [lt_count_iff hps] at h₂
    rw [Nat.add_mul] at h₁
    omega
  · have h₂ : ¬ count ps n < count ps n := Nat.lt_irrefl _
    rw [lt_count_iff hps] at h₂
    have h₁ : count ps n < count ps (n - ps) + 1 := h
    rcases Nat.lt_or_ge 0 (count ps n) with hpos | hzero
    · have h₃ : count ps n - 1 < count ps (n - ps) := by omega
      rw [lt_count_iff hps, Nat.sub_mul] at h₃
      have hmul : 1 * ps ≤ count ps n * ps := Nat.mul_le_mul_right _ hpos
      omega
    · have h₃ : 0 < count ps n := (lt_count_iff hps).mpr (by omega)
      omega

theorem pumpRanges_of_le {ps len limit next : ℕ} (hps : 0 < ps) (h : limit ≤ next) :
    pumpRanges ps len limit next = [] := by
  rw [pumpRanges, Nat.sub_eq_zero_of_le h, count_zero hps]
  rfl

theorem pumpRanges_cons {ps len limit next : ℕ} (hps : 0 < ps) (h : next < limit) :
    pumpRanges ps len limit next =
      (next, min (next + ps) len) :: pumpRanges ps len limit (next + ps) := by
  rw [pumpRanges, count_step hps (by omega), List.range_succ_eq_map, List.map_cons, List.map_map,
    pumpRanges, Nat.sub_sub]
  congr 1
  · simp
  · refine List.map_congr_left fun j _ => ?_
    have hj : next + (j + 1) * ps = next + ps + j * ps := by
      rw [Nat.add_mul]
      omega
    simp only [Function.comp_apply, Nat.succ_eq_add_one, hj]

theorem pumpEnd_step {ps len limit next : ℕ} (hps : 0 < ps) (h : next < limit)
    (hl : limit ≤ len) :
    pumpEnd ps len limit next = pumpEnd ps len limit (min (next + ps) len) := by
  by_cases hlast : limit ≤ next + ps
  · have hc : count ps (limit - next) = 1 := by
      rw [count_step hps (by omega), show limit - next - ps = 0 by omega, count_zero hps]
    rw [pumpEnd, if_pos h, hc, pumpEnd, if_neg (by omega)]
    omega
  · rw [show min (next + ps) len = next + ps by omega, pumpEnd, pumpEnd, if_pos h,
      if_pos (by omega), count_step hps (by omega), Nat.add_mul, Nat.sub_sub]
    omega

theorem mem_pumpRanges {ps len limit next : ℕ} (hps : 0 < ps) {r : ℕ × ℕ} :
    r ∈ pumpRanges ps len limit next ↔
      ∃ j, next + j * ps < limit ∧ r = (next + j * ps, min (next + j * ps + ps) len) := by
  simp only [pumpRanges, List.mem_map, List.mem_range, lt_count_iff hps]
  constructor
  · rintro ⟨j, hj, rfl⟩
    exact ⟨j, by omega, rfl⟩
  · rintro ⟨j, hj, rfl⟩
    exact ⟨j, by omega, rfl⟩

theorem mem_resendRanges {ps len fin off : ℕ} {r : ℕ × ℕ}
    (h : r ∈ resendRanges ps len fin off) :
    ∃ i, off / ps ≤ i ∧ i < count ps fin ∧ r = fragRange ps len i := by
  unfold resendRanges at h
  split_ifs at h
  · obtain ⟨i, hi, rfl⟩ := List.mem_map.mp h
    rw [List.mem_range'_1] at hi
    exact ⟨i, by omega, by omega, rfl⟩
  · cases h

theorem le_pumpEnd {ps len limit next : ℕ} (hnext : next ≤ len) :
    next ≤ pumpEnd ps len limit next := by
  rw [pumpEnd]
  split_ifs <;> omega

theorem pumpEnd_le {ps len limit next : ℕ} (hnext : next ≤ len) :
    pumpEnd ps len limit next ≤ len := by
  rw [pumpEnd]
  split_ifs <;> omega

theorem limit_le_pumpEnd {ps len limit next : ℕ} (hps : 0 < ps) (hl : limit ≤ len) :
    limit ≤ pumpEnd ps len limit next := by
  have h : ¬ count ps (limit - next) * ps < limit - next := fun h =>
    Nat.lt_irrefl _ ((lt_count_iff hps).mpr h)
  rw [pumpEnd]
  split_ifs <;> omega

/-- No range `pump` sends reaches beyond the point where it stops. -/
theorem pumpRanges_le_pumpEnd {ps len limit next : ℕ} (hps : 0 < ps) {r : ℕ × ℕ}
    (h : r ∈ pumpRanges ps len limit next) : r.2 ≤ pumpEnd ps len limit next := by
  obtain ⟨j, hj, rfl⟩ := (mem_pumpRanges hps).mp h
  have hc : j + 1 ≤ count ps (limit - next) := (lt_count_iff hps).mpr (by omega)
  have hmul := Nat.mul_le_mul_right ps hc
  rw [Nat.add_mul] at hmul
  simp only [pumpEnd]
  split_ifs <;> omega

/-- Every position `pump` passes lies in a range it sends. -/
theorem exists_pumpRange {ps len limit next p : ℕ} (hps : 0 < ps)
    (hlo : next ≤ p) (hhi : p < pumpEnd ps len limit next) :
    ∃ r ∈ pumpRanges ps len limit next, r.1 ≤ p ∧ p < r.2 := by
  rw [pumpEnd] at hhi
  split_ifs at hhi with h
  · have hlow := Nat.div_mul_le_self (p - next) ps
    have hhigh := Nat.lt_div_mul_add (a := p - next) hps
    have hc : (p - next) / ps < count ps (limit - next) :=
      Nat.div_lt_of_lt_mul (by rw [Nat.mul_comm]; omega)
    refine ⟨_, (mem_pumpRanges hps).mpr ⟨(p - next) / ps, ?_, rfl⟩, ?_, ?_⟩
    · have := (lt_count_iff hps).mp hc
      omega
    · simp only
      omega
    · simp only
      omega
  · omega

/-- From a fragment boundary `pump` sends whole fragments, each once and in order. -/
theorem pumpRanges_aligned {ps len limit i : ℕ} (hps : 0 < ps) :
    pumpRanges ps len limit (i * ps) =
      (List.range' i (count ps limit - i)).map (fragRange ps len) := by
  have hcount : count ps (limit - i * ps) = count ps limit - i := by
    induction i with
    | zero => simp
    | succ i ih =>
      by_cases h : i * ps < limit
      · have hstep := count_step hps (show 0 < limit - i * ps by omega)
        rw [Nat.add_mul, Nat.one_mul, ← Nat.sub_sub]
        omega
      · have hz : count ps limit ≤ i := Nat.le_of_not_lt fun hc => h ((lt_count_iff hps).mp hc)
        rw [Nat.sub_eq_zero_of_le (by rw [Nat.add_mul]; omega), count_zero hps]
        omega
  rw [pumpRanges, hcount, List.range'_eq_map_range, List.map_map]
  refine List.map_congr_left fun j _ => ?_
  simp only [Function.comp_apply, fragRange, fragEnd, Nat.add_mul]

/-- A boundary stays a boundary. -/
theorem pumpEnd_aligned {ps len limit next : ℕ} (h : ps ∣ next) :
    ps ∣ pumpEnd ps len limit next ∨ pumpEnd ps len limit next = len := by
  rw [pumpEnd]
  split_ifs
  · rcases Nat.le_total (next + count ps (limit - next) * ps) len with hle | hle
    · left
      rw [Nat.min_eq_left hle]
      exact Dvd.dvd.add h (Nat.dvd_mul_left _ _)
    · right
      omega
  · exact Or.inl h

/-- Beyond the end of the message nothing is sent. -/
theorem pumpRanges_min {ps len limit next : ℕ} (hps : 0 < ps) (hl : limit ≤ len) :
    pumpRanges ps len limit (min next len) = pumpRanges ps len limit next := by
  rcases Nat.le_total next len with hle | hle
  · rw [Nat.min_eq_left hle]
  · rw [Nat.min_eq_right hle, pumpRanges_of_le hps hl, pumpRanges_of_le hps (by omega)]

/-- Pumping up to one limit and then up to another is pumping up to the larger one. -/
theorem pump_max {ps len a b : ℕ} (hps : 0 < ps) (ha : a ≤ len) (hb : b ≤ len) (next : ℕ) :
    pumpRanges ps len a next ++ pumpRanges ps len b (pumpEnd ps len a next) =
        pumpRanges ps len (max a b) next ∧
      pumpEnd ps len b (pumpEnd ps len a next) = pumpEnd ps len (max a b) next := by
  induction hn : a - next using Nat.strong_induction_on generalizing next with
  | _ n ih =>
    by_cases h : next < a
    · have hmax : next < max a b := by omega
      obtain ⟨hranges, hend⟩ := ih (a - min (next + ps) len) (by omega) (min (next + ps) len) rfl
      rw [pumpEnd_step hps h ha, pumpRanges_cons hps h, pumpRanges_cons hps hmax,
        pumpEnd_step hps hmax (by omega), List.cons_append]
      rw [pumpRanges_min hps ha, pumpRanges_min hps (by omega)] at hranges
      exact ⟨congrArg _ hranges, hend⟩
    · have hstay : pumpEnd ps len a next = next := by rw [pumpEnd, if_neg h]
      rw [hstay, pumpRanges_of_le hps (Nat.not_lt.mp h), List.nil_append]
      rcases Nat.le_total a b with hab | hba
      · rw [Nat.max_eq_right hab]
        exact ⟨rfl, rfl⟩
      · rw [Nat.max_eq_left hba, pumpRanges_of_le hps (by omega), pumpRanges_of_le hps (by omega),
          hstay, pumpEnd, if_neg (by omega)]
        exact ⟨rfl, rfl⟩

/-- The ranges `pump` sends follow each other. -/
theorem pairwise_pumpRanges (ps len limit next : ℕ) :
    (pumpRanges ps len limit next).Pairwise fun r r' => r.2 ≤ r'.1 := by
  rw [pumpRanges, List.pairwise_map]
  refine (List.pairwise_lt_range (n := count ps (limit - next))).imp fun {i j} hij => ?_
  have hmul := Nat.mul_le_mul_right ps hij
  rw [Nat.succ_mul] at hmul
  simp only
  omega

/-- The loop of `pump` in closed form. -/
theorem pumpLoop_eq {ps : ℕ} (hps : 0 < ps) (dest : Addr) (msgId : UInt64) (data : List UInt8)
    {limit : ℕ} (hl : limit ≤ data.length) (fuel next : ℕ) (hf : limit ≤ next + fuel) :
    OutMsg.pumpLoop ps dest msgId data limit fuel next =
      (pumpEnd ps data.length limit next,
        sendRanges dest msgId data (pumpRanges ps data.length limit next)) := by
  induction fuel generalizing next with
  | zero =>
    rw [OutMsg.pumpLoop, pumpEnd, if_neg (by omega), pumpRanges_of_le hps (by omega)]
    rfl
  | succ fuel ih =>
    rw [OutMsg.pumpLoop]
    split_ifs with h
    · dsimp only
      rw [ih _ (by omega), ← pumpEnd_step hps h hl, pumpRanges_min hps hl, pumpRanges_cons hps h]
      rfl
    · rw [pumpEnd, if_neg h, pumpRanges_of_le hps (by omega)]
      rfl

/-- The loop of `handle_resend` in closed form. -/
theorem resendLoop_eq {ps : ℕ} (hps : 0 < ps) (dest : Addr) (msgId : UInt64) (m : OutMsg)
    {fin : ℕ} (hfin : fin ≤ m.data.length) (fuel off : ℕ) (hf : fin ≤ off + fuel) :
    OutMsg.resendLoop ps dest msgId m fin fuel off =
      sendRanges dest msgId m.data (resendRanges ps m.data.length fin off) := by
  induction fuel generalizing off with
  | zero =>
    rw [OutMsg.resendLoop, resendRanges, if_neg (by omega)]
    rfl
  | succ fuel ih =>
    rw [OutMsg.resendLoop]
    split_ifs with h
    · have hlo := Nat.div_mul_le_self off ps
      have hhi := Nat.lt_div_mul_add (a := off) hps
      have hcount : off / ps < count ps fin := (lt_count_iff hps).mpr (by omega)
      simp only [OutMsg.chunkRange]
      rw [ih _ (by omega), resendRanges, resendRanges, if_pos h,
        show count ps fin - off / ps = count ps fin - (off / ps + 1) + 1 by omega,
        List.range'_succ, List.map_cons, sendRanges, sendRanges, List.map_cons]
      congr 2
      -- the next pass starts at the end of this fragment
      split_ifs with hnext
      · have hq : max (min (off / ps * ps + ps) m.data.length) (off / ps * ps + 1) / ps =
            off / ps + 1 := by
          rw [show max (min (off / ps * ps + ps) m.data.length) (off / ps * ps + 1) =
            (off / ps + 1) * ps by rw [Nat.add_mul]; omega, Nat.mul_div_cancel _ hps]
        rw [hq]
      · have hstop : count ps fin ≤ off / ps + 1 := by
          refine Nat.le_of_not_lt fun hc => ?_
          have hc' := (lt_count_iff hps).mp hc
          rw [Nat.add_mul] at hc'
          omega
        rw [show count ps fin - (off / ps + 1) = 0 by omega]
        rfl
    · rw [resendRanges, if_neg h]
      rfl

/-- The header of the DATA packet for `[start, fin)`. -/
def dataHeader (data : List UInt8) (msgId : UInt64) (start fin : ℕ) : Packet where
  typ := .data
  priority := priorityForLen data.length
  msgId := msgId
  msgLen := UInt32.ofNat data.length
  offset := UInt32.ofNat start
  length := UInt32.ofNat (slice data start fin).length

theorem dataPacket_eq (data : List UInt8) (msgId : UInt64) (start fin : ℕ) :
    dataPacket data msgId start fin =
      (dataHeader data msgId start fin).encode (slice data start fin) := rfl

/-- What a DATA packet decodes to, if it decodes at all. -/
theorem eq_of_decode_dataPacket {data q : List UInt8} {msgId : UInt64} {a b : ℕ} {p : Packet}
    (h : Packet.decode (dataPacket data msgId a b) = .ok (p, q)) :
    p = dataHeader data msgId a b ∧ q = slice data a b :=
  Packet.eq_of_decode_encode h

/-- The DATA packets of a message below `2^32` bytes decode. -/
theorem decode_dataPacket {data : List UInt8} (hlen : data.length < 2 ^ 32) (msgId : UInt64)
    (a b : ℕ) :
    Packet.decode (dataPacket data msgId a b) =
      .ok (dataHeader data msgId a b, slice data a b) := by
  refine Packet.decode_encode fun _ => ?_
  have hle : (slice data a b).length ≤ data.length := by
    rw [length_slice]
    omega
  simp only [UInt32.toNat_ofNat']
  rw [Nat.mod_eq_of_lt (by omega)]

namespace OutMsg

/-- A pump on a message that is still being sent. -/
theorem pump_eq (cfg : TransportConfig) (dest : Addr) (msgId : UInt64) (limit now : ℕ)
    {m : OutMsg} (hm : m.doneAt = none) :
    m.pump cfg dest msgId limit now =
      ({ m with
          nextSend := pumpEnd cfg.packetSize m.data.length (min limit m.data.length) m.nextSend
          grantedTo := max m.grantedTo (min limit m.data.length)
          lastProgress := now
          doneAt :=
            if m.data.length ≤
                pumpEnd cfg.packetSize m.data.length (min limit m.data.length) m.nextSend
            then some now else none },
        sendRanges dest msgId m.data
          (pumpRanges cfg.packetSize m.data.length (min limit m.data.length) m.nextSend)) := by
  have hloop := pumpLoop_eq cfg.packetSize_pos dest msgId m.data
    (Nat.min_le_right limit m.data.length) (min limit m.data.length) m.nextSend (by omega)
  simp only [pump, hm, Option.isSome_none, Bool.false_eq_true, if_false, hloop]

theorem pump_of_done (cfg : TransportConfig) (dest : Addr) (msgId : UInt64) (limit now : ℕ)
    {m : OutMsg} {t : ℕ} (hm : m.doneAt = some t) :
    m.pump cfg dest msgId limit now = (m, []) := by
  simp only [pump, hm, Option.isSome_some, if_true]

/-- The packets that answer a RESEND. -/
theorem handleResend_acts (cfg : TransportConfig) (dest : Addr) (pkt : Packet) (now : ℕ)
    (m : OutMsg) :
    (m.handleResend cfg dest pkt now).2 =
      sendRanges dest pkt.msgId m.data
        (resendRanges cfg.packetSize m.data.length
          (min (min pkt.offset.toNat m.data.length + pkt.length.toNat) m.data.length)
          (min pkt.offset.toNat m.data.length)) :=
  resendLoop_eq cfg.packetSize_pos dest pkt.msgId m (Nat.min_le_right _ _) _ _ (by omega)

/-- A probe is a whole fragment. -/
theorem pokeRange_eq (cfg : TransportConfig) (m : OutMsg) :
    m.pokeRange cfg =
      fragRange cfg.packetSize m.data.length ((m.nextSend - 1) / cfg.packetSize) := by
  unfold pokeRange
  split_ifs with h
  · simp only [chunkRange, fragRange, fragEnd, h, Nat.zero_div, Nat.zero_mul, Nat.zero_sub]
  · simp only [chunkRange, fragRange, fragEnd, Nat.mul_div_cancel _ cfg.packetSize_pos]

end OutMsg
end AgentTransport
