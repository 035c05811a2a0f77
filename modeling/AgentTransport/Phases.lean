import AgentTransport.Parcels

/-!
# The phases of one message

A message waits to be started, moves, and lands. While it moves, every fragment that
was sent is in flight once or has been received, and the sender knows the window of the
receiver or a GRANT in flight tells it. Each event keeps this for each message, and
spends from a credit: the fragments not sent yet and the bytes not granted yet.
-/
namespace AgentTransport
open ByteString Fragmentation

variable {Addr : Type}

/-- A sender that has sent all fragments below `next_send`, and nothing else. -/
structure Pumps (cfg : TransportConfig) (data : List UInt8) (o : OutMsg) : Prop where
  bytes : o.data = data
  le : o.nextSend ≤ data.length
  boundary : cfg.packetSize ∣ o.nextSend ∨ o.nextSend = data.length
  pos : 0 < o.nextSend
  granted : o.grantedTo ≤ o.nextSend
  done : o.doneAt.isSome ↔ o.nextSend = data.length

/-- Whether fragment `i` has arrived at the entry. -/
def got (entry : Option InMsg) (i : ℕ) : Bool := (entry.bind fun m => m.received[i]?).getD false

/-- The window of the receiver, which is the unscheduled one before the first packet. -/
def window (cfg : TransportConfig) (data : List UInt8) (entry : Option InMsg) : ℕ :=
  (entry.map InMsg.grantedTo).getD (min cfg.unscheduledBytes data.length)

/-- Where a message stands: `flying i` is how often fragment `i` is in flight, and
`granted w` whether a GRANT of the window `w` is. -/
inductive Phase (cfg : TransportConfig) (data : List UInt8) (flying : ℕ → ℕ)
    (granted : ℕ → Prop) : Option OutMsg → Option InMsg → List (List UInt8) → Prop
  | waiting (hnone : ∀ i, flying i = 0) : Phase cfg data flying granted none none []
  | moving {o : OutMsg} {entry : Option InMsg} (hpumps : Pumps cfg data o)
      (hflying : ∀ i, flying i =
        if i < count cfg.packetSize o.nextSend ∧ got entry i = false then 1 else 0)
      (hentry : ∀ m, entry = some m → m.Rebuilds cfg.packetSize data ∧ m.complete = false ∧
        ∀ i, m.received[i]? = some true → i < count cfg.packetSize o.nextSend)
      (hwindow : window cfg data entry ≤ o.grantedTo ∨ o.doneAt.isSome ∨
        granted (window cfg data entry)) :
      Phase cfg data flying granted (some o) entry []
  | landed {o : OutMsg} (hpumps : Pumps cfg data o) (hend : o.nextSend = data.length)
      (hnone : ∀ i, flying i = 0) : Phase cfg data flying granted (some o) none [data]

/-- What a message has left to send and to be granted. -/
def credit (cfg : TransportConfig) (data : List UInt8) (out : Option OutMsg)
    (entry : Option InMsg) (dels : List (List UInt8)) : ℕ :=
  (if out.isNone then 1 else 0) +
    (count cfg.packetSize data.length - count cfg.packetSize ((out.map OutMsg.nextSend).getD 0)) +
    if dels = [] then data.length - window cfg data entry else 0

variable {cfg : TransportConfig} {data : List UInt8} {o : OutMsg}

@[simp] theorem got_none (i : ℕ) : got none i = false := rfl

theorem got_some {m : InMsg} {i : ℕ} : got (some m) i = true ↔ m.received[i]? = some true := by
  unfold got
  rw [Option.bind_some]
  cases m.received[i]? with
  | none => simp
  | some b => simp

@[simp] theorem window_some (cfg : TransportConfig) (data : List UInt8) (m : InMsg) :
    window cfg data (some m) = m.grantedTo := rfl

/-- Pumping from a boundary. -/
theorem Pumps.pumped {limit now : ℕ} (hdata : o.data = data) (hle : o.nextSend ≤ data.length)
    (hb : cfg.packetSize ∣ o.nextSend ∨ o.nextSend = data.length) (hl : limit ≤ data.length)
    (hpos : 0 < o.nextSend ∨ 0 < limit) (hgranted : o.grantedTo ≤ max o.nextSend limit) :
    Pumps cfg data (o.pumped cfg limit now) := by
  subst hdata
  have hfar : limit ≤ pumpEnd cfg.packetSize o.data.length limit o.nextSend :=
    limit_le_pumpEnd cfg.packetSize_pos hl
  have hmore : o.nextSend ≤ pumpEnd cfg.packetSize o.data.length limit o.nextSend :=
    le_pumpEnd hle
  have hend : pumpEnd cfg.packetSize o.data.length limit o.nextSend ≤ o.data.length :=
    pumpEnd_le hle
  constructor
  · rfl
  · exact hend
  · exact boundary_pumpEnd hl hb
  · simp only [OutMsg.pumped]
    omega
  · simp only [OutMsg.pumped]
    omega
  · rw [OutMsg.isSome_doneAt_pumped]
    exact ⟨fun hall => Nat.le_antisymm hend hall, fun heq => heq.ge⟩

theorem Pumps.started (hne : data ≠ []) (hun : 0 < cfg.unscheduledBytes) (now : ℕ) :
    Pumps cfg data (OutMsg.started cfg data now) := by
  have hpos := List.length_pos_of_ne_nil hne
  apply Pumps.pumped
  · rfl
  · exact Nat.zero_le _
  · exact Or.inl (Nat.dvd_zero _)
  · exact Nat.min_le_right _ _
  · right
    omega
  · simp only [OutMsg.new]
    omega

/-- The sender after a GRANT. -/
theorem Pumps.handleGrant (h : Pumps cfg data o) (rcv : Addr) (pkt : Packet) (now : ℕ) :
    Pumps cfg data (o.handleGrant cfg rcv pkt now).1 := by
  by_cases hu : o.Unlocks pkt
  · rw [OutMsg.handleGrant_of_unlocks cfg rcv pkt now hu]
    have hgranted := h.granted
    have hlimit : min pkt.offset.toNat o.data.length ≤ data.length := by
      rw [h.bytes]
      exact Nat.min_le_right _ _
    exact Pumps.pumped h.bytes h.le h.boundary hlimit (Or.inl h.pos) (by omega)
  · rw [OutMsg.handleGrant_of_not_unlocks cfg rcv pkt now hu]
    exact h

/-- What a GRANT sends are the fragments between the old and the new position. -/
theorem Pumps.grantRanges (h : Pumps cfg data o) (rcv : Addr) (pkt : Packet) (now : ℕ) :
    o.grantRanges cfg pkt =
      (List.range' (count cfg.packetSize o.nextSend)
        (count cfg.packetSize (o.handleGrant cfg rcv pkt now).1.nextSend -
          count cfg.packetSize o.nextSend)).map (fragRange cfg.packetSize data.length) := by
  have hb := h.boundary
  rw [← h.bytes] at hb ⊢
  by_cases hu : o.Unlocks pkt
  · rw [OutMsg.handleGrant_of_unlocks cfg rcv pkt now hu, OutMsg.grantRanges, if_pos hu]
    exact pumpRanges_eq cfg.packetSize_pos (Nat.min_le_right _ _) hb
  · rw [OutMsg.handleGrant_of_not_unlocks cfg rcv pkt now hu, OutMsg.grantRanges, if_neg hu,
      Nat.sub_self]
    rfl

theorem Pumps.le_handleGrant (h : Pumps cfg data o) (rcv : Addr) (pkt : Packet) (now : ℕ) :
    o.nextSend ≤ (o.handleGrant cfg rcv pkt now).1.nextSend := by
  have hnext : o.nextSend ≤ o.data.length := h.bytes ▸ h.le
  exact (OutMsg.Advances.handleGrant cfg rcv pkt now hnext).nextSend

/-- After a GRANT the sender knows the window it was told, or is done. -/
theorem Pumps.knows_handleGrant (h : Pumps cfg data o) (rcv : Addr) (pkt : Packet) (now : ℕ) :
    o.grantedTo ≤ (o.handleGrant cfg rcv pkt now).1.grantedTo ∧
      (o.doneAt.isSome → (o.handleGrant cfg rcv pkt now).1.doneAt.isSome) ∧
      (min pkt.offset.toNat data.length ≤ (o.handleGrant cfg rcv pkt now).1.grantedTo ∨
        (o.handleGrant cfg rcv pkt now).1.doneAt.isSome) := by
  have hnext : o.nextSend ≤ o.data.length := h.bytes ▸ h.le
  have hadvances := OutMsg.Advances.handleGrant cfg rcv pkt now hnext
  refine ⟨hadvances.grantedTo, fun hdone => ?_, ?_⟩
  · rw [Option.isSome_iff_ne_none] at hdone ⊢
    exact fun hopen => hdone (hadvances.doneAt_eq_none hopen)
  · by_cases hu : o.Unlocks pkt
    · rw [OutMsg.handleGrant_of_unlocks cfg rcv pkt now hu, ← h.bytes]
      exact Or.inl (Nat.le_max_right _ _)
    · rw [OutMsg.handleGrant_of_not_unlocks cfg rcv pkt now hu]
      by_cases hdone : o.doneAt = none
      · left
        rw [← h.bytes]
        by_contra hlt
        exact hu ⟨Nat.not_le.mp hlt, hdone⟩
      · right
        exact Option.isSome_iff_ne_none.mpr hdone

namespace Phase

variable {flying flying' : ℕ → ℕ} {granted granted' : ℕ → Prop} {out : Option OutMsg}
  {entry : Option InMsg} {dels : List (List UInt8)}

/-- A message that waits is started. -/
theorem start (h : Phase cfg data flying granted none entry dels) (hne : data ≠ [])
    (hun : 0 < cfg.unscheduledBytes) (now : ℕ)
    (hfly : ∀ i, flying' i = flying i +
      if i < count cfg.packetSize (OutMsg.started cfg data now).nextSend then 1 else 0) :
    Phase cfg data flying' granted' (some (OutMsg.started cfg data now)) entry dels := by
  cases h with
  | waiting hnone =>
    apply Phase.moving
    · exact Pumps.started hne hun now
    · intro i
      simp [hfly i, hnone i]
    · intro m hm
      cases hm
    · left
      simp only [window, Option.map_none, Option.getD_none, OutMsg.started, OutMsg.pumped,
        OutMsg.new]
      omega

/-- A GRANT arrives: the sender sends the fragments up to its new position. -/
theorem grant (h : Phase cfg data flying granted (some o) entry dels) (rcv : Addr)
    (pkt : Packet) (now : ℕ)
    (hfly : ∀ i, flying' i = flying i + if count cfg.packetSize o.nextSend ≤ i ∧
      i < count cfg.packetSize (o.handleGrant cfg rcv pkt now).1.nextSend then 1 else 0)
    (hlost : granted (window cfg data entry) → granted' (window cfg data entry) ∨
      window cfg data entry ≤ min pkt.offset.toNat data.length) :
    Phase cfg data flying' granted' (some (o.handleGrant cfg rcv pkt now).1) entry dels := by
  cases h with
  | moving hpumps hflying hentry hwindow =>
    have hmore := count_mono cfg.packetSize_pos (hpumps.le_handleGrant rcv pkt now)
    obtain ⟨hup, hstay, htold⟩ := hpumps.knows_handleGrant rcv pkt now
    have hnew : ∀ i, got entry i = true → i < count cfg.packetSize o.nextSend := by
      intro i hi
      cases entry with
      | none => cases hi
      | some m => exact (hentry m rfl).2.2 i (got_some.mp hi)
    apply Phase.moving
    · exact hpumps.handleGrant rcv pkt now
    · intro i
      rw [hfly i, hflying i]
      cases hgot : got entry i with
      | false =>
        simp only [and_true]
        split_ifs <;> omega
      | true =>
        have hlt := hnew i hgot
        simp only [Bool.true_eq_false, and_false, if_false]
        rw [if_neg (by omega)]
    · intro m hm
      obtain ⟨hr, hopen, hbits⟩ := hentry m hm
      exact ⟨hr, hopen, fun i hi => Nat.lt_of_lt_of_le (hbits i hi) hmore⟩
    · rcases hwindow with hknown | hdone | hgrant
      · exact Or.inl (hknown.trans hup)
      · exact Or.inr (Or.inl (hstay hdone))
      · rcases hlost hgrant with hkept | hle
        · exact Or.inr (Or.inr hkept)
        · rcases htold with hle' | hdone
          · exact Or.inl (hle.trans hle')
          · exact Or.inr (Or.inl hdone)
  | landed hpumps hend hnone =>
    have hmore := hpumps.le_handleGrant rcv pkt now
    have hafter := hpumps.handleGrant rcv pkt now
    have hsame : (o.handleGrant cfg rcv pkt now).1.nextSend = o.nextSend := by
      have hle := hafter.le
      omega
    apply Phase.landed
    · exact hafter
    · rw [hsame, hend]
    · intro i
      rw [hfly i, hnone i, hsame, if_neg (by omega)]

/-- A fragment is in flight only while its message moves, and once. -/
theorem of_flying (h : Phase cfg data flying granted out entry dels) {i : ℕ} (hi : 0 < flying i) :
    ∃ o, out = some o ∧ dels = [] ∧ Pumps cfg data o ∧ i < count cfg.packetSize o.nextSend ∧
      got entry i = false ∧ flying i = 1 := by
  cases h with
  | waiting hnone =>
    rw [hnone i] at hi
    omega
  | @moving o entry hpumps hflying hentry hwindow =>
    have heq := hflying i
    split_ifs at heq with hcond
    · exact ⟨o, rfl, rfl, hpumps, hcond.1, hcond.2, heq⟩
    · omega
  | landed hpumps hend hnone =>
    rw [hnone i] at hi
    omega

/-- The entry that a moving message has reassembles it. -/
theorem rebuilds (h : Phase cfg data flying granted out entry dels) {m : InMsg}
    (hm : entry = some m) : m.Rebuilds cfg.packetSize data ∧ m.complete = false := by
  cases h with
  | waiting => cases hm
  | moving hpumps hflying hentry hwindow => exact ⟨(hentry m hm).1, (hentry m hm).2.1⟩
  | landed => cases hm

theorem pumps (h : Phase cfg data flying granted (some o) entry dels) : Pumps cfg data o := by
  cases h with
  | moving hpumps => exact hpumps
  | landed hpumps => exact hpumps

/-- A fragment arrives and is stored. -/
theorem store (h : Phase cfg data flying granted out entry dels) {i : ℕ} (hi : 0 < flying i)
    {m : InMsg} (hr : m.Rebuilds cfg.packetSize data) (hopen : m.complete = false)
    (hbits : ∀ j, m.received[j]? = some true ↔ got entry j = true ∨ j = i)
    (hwin : m.grantedTo = window cfg data entry)
    (hfly : ∀ j, flying j = flying' j + if j = i then 1 else 0)
    (hgrant : ∀ w, granted w → granted' w) :
    Phase cfg data flying' granted' out (some m) dels := by
  obtain ⟨_, hout, _, _, hlt, hmissing, _⟩ := h.of_flying hi
  cases h with
  | waiting => cases hout
  | landed hpumps hend hnone =>
    rw [hnone i] at hi
    omega
  | @moving o entry hpumps hflying hentry hwindow =>
    obtain rfl := Option.some.inj hout
    have hgot : ∀ j, got (some m) j = true ↔ got entry j = true ∨ j = i := fun j =>
      got_some.trans (hbits j)
    apply Phase.moving
    · exact hpumps
    · intro j
      have hj := hfly j
      rw [hflying j] at hj
      by_cases heq : j = i
      · subst heq
        rw [if_pos ⟨hlt, hmissing⟩, if_pos rfl] at hj
        rw [if_neg (by rw [(hgot j).mpr (Or.inr rfl)]; simp)]
        omega
      · rw [if_neg heq] at hj
        have hsame : got (some m) j = got entry j := by
          rw [Bool.eq_iff_iff, hgot j]
          simp [heq]
        rw [hsame]
        omega
    · intro m' hm'
      obtain rfl := Option.some.inj hm'
      refine ⟨hr, hopen, fun j hj => ?_⟩
      rcases (hbits j).mp hj with hold | rfl
      · cases entry with
        | none => cases hold
        | some m₀ => exact (hentry m₀ rfl).2.2 j (got_some.mp hold)
      · exact hlt
    · rw [window_some, hwin]
      rcases hwindow with hknown | hdone | hin
      · exact Or.inl hknown
      · exact Or.inr (Or.inl hdone)
      · exact Or.inr (Or.inr (hgrant _ hin))

/-- The last fragment arrives. -/
theorem land (h : Phase cfg data flying granted out entry dels) {i : ℕ} (hi : 0 < flying i)
    (hall : ∀ j < count cfg.packetSize data.length, got entry j = true ∨ j = i)
    (hfly : ∀ j, flying j = flying' j + if j = i then 1 else 0) :
    Phase cfg data flying' granted' out none (dels ++ [data]) := by
  have hps := cfg.packetSize_pos
  obtain ⟨_, hout, _, _, hlt, hmissing, hone⟩ := h.of_flying hi
  cases h with
  | waiting => cases hout
  | landed hpumps hend hnone =>
    rw [hnone i] at hi
    omega
  | @moving o entry hpumps hflying hentry hwindow =>
    obtain rfl := Option.some.inj hout
    have hsent : ∀ j < count cfg.packetSize data.length, j < count cfg.packetSize o.nextSend := by
      intro j hj
      rcases hall j hj with hgot | rfl
      · cases entry with
        | none => cases hgot
        | some m => exact (hentry m rfl).2.2 j (got_some.mp hgot)
      · exact hlt
    have hcount : count cfg.packetSize data.length ≤ count cfg.packetSize o.nextSend := by
      by_contra hshort
      have := hsent _ (Nat.not_le.mp hshort)
      omega
    apply Phase.landed
    · exact hpumps
    · exact eq_of_count_eq hps hpumps.le hpumps.boundary hcount
    · intro j
      have hj := hfly j
      by_cases heq : j = i
      · subst heq
        rw [if_pos rfl] at hj
        omega
      · rw [if_neg heq, hflying j] at hj
        have hle := count_mono hps hpumps.le
        rw [if_neg] at hj
        · omega
        · rintro ⟨hjlt, hno⟩
          rcases hall j (Nat.lt_of_lt_of_le hjlt hle) with hgot | hji
          · rw [hno] at hgot
            cases hgot
          · exact heq hji

/-- A round of scheduling may raise the window, and says so. -/
theorem regrant (h : Phase cfg data flying granted out entry dels) {entry' : Option InMsg}
    (hentry' : entry' = entry ∨ ∃ m m', entry = some m ∧ entry' = some m' ∧
      InMsg.SameContent m m' ∧ (m.grantedTo < m'.grantedTo ∨ m'.grantedTo = m.grantedTo))
    (hgrant : ∀ w, granted w → granted' w)
    (hnew : window cfg data entry < window cfg data entry' → granted' (window cfg data entry')) :
    Phase cfg data flying granted' out entry' dels := by
  rcases hentry' with rfl | ⟨m, m', rfl, rfl, hsame, hwider⟩
  · cases h with
    | waiting hnone => exact .waiting hnone
    | landed hpumps hend hnone => exact .landed hpumps hend hnone
    | moving hpumps hflying hentry hwindow =>
      refine .moving hpumps hflying hentry ?_
      rcases hwindow with hknown | hdone | hin
      · exact Or.inl hknown
      · exact Or.inr (Or.inl hdone)
      · exact Or.inr (Or.inr (hgrant _ hin))
  · cases h with
    | moving hpumps hflying hentry hwindow =>
      obtain ⟨hr, hopen, hbits⟩ := hentry m rfl
      apply Phase.moving
      · exact hpumps
      · intro i
        have hgot : got (some m') i = got (some m) i := by
          rw [Bool.eq_iff_iff, got_some, got_some, hsame.received]
        rw [hflying i, hgot]
      · intro m₁ hm₁
        obtain rfl := Option.some.inj hm₁
        refine ⟨hr.of_sameContent hsame, hsame.complete.trans hopen, ?_⟩
        rw [hsame.received]
        exact hbits
      · simp only [window_some] at hwindow hnew ⊢
        rcases hwider with hlt | heq
        · exact Or.inr (Or.inr (hnew hlt))
        · rw [heq]
          rcases hwindow with hknown | hdone | hin
          · exact Or.inl hknown
          · exact Or.inr (Or.inl hdone)
          · exact Or.inr (Or.inr (hgrant _ hin))

/-- With nothing in flight an entry has received all of its window. -/
theorem granted_le (h : Phase cfg data flying granted out entry dels)
    (hquiet : ∀ i, flying i = 0) (hnone : ∀ w, ¬ granted w) {m : InMsg} (hm : entry = some m) :
    m.grantedTo ≤ m.receivedBytes := by
  have hps := cfg.packetSize_pos
  cases h with
  | waiting => cases hm
  | landed => cases hm
  | @moving o entry hpumps hflying hentry hwindow =>
    subst hm
    obtain ⟨hr, hopen, _⟩ := hentry m rfl
    have hgot : ∀ i < count cfg.packetSize o.nextSend, m.received[i]? = some true := by
      intro i hi
      have heq := hflying i
      rw [hquiet i] at heq
      apply got_some.mp
      by_contra hno
      rw [if_pos ⟨hi, by simpa using hno⟩] at heq
      omega
    have hcount := count_mono hps hpumps.le
    have hcover : min (count cfg.packetSize o.nextSend * cfg.packetSize) data.length ≤
        covered cfg.packetSize data.length m.received := by
      refine le_covered_of_prefix ?_ hgot
      rw [hr.length_received]
      exact hcount
    have hreach := le_count_mul hps o.nextSend
    have hle := hpumps.le
    rw [← hr.receivedBytes] at hcover
    rcases hwindow with hknown | hdone | hin
    · have hgranted := hpumps.granted
      rw [window_some] at hknown
      omega
    · have hend := hpumps.done.mp hdone
      have hfull := hr.le
      have hne : m.receivedBytes ≠ m.totalLen := by simpa [InMsg.complete] using hopen
      rw [hr.totalLen] at hfull hne
      omega
    · exact absurd hin (hnone _)

/-- With nothing in flight and no entry, a message that was started has landed. -/
theorem landed_of_quiet (h : Phase cfg data flying granted (some o) none dels)
    (hquiet : ∀ i, flying i = 0) : dels = [data] ∧ o.doneAt.isSome := by
  cases h with
  | moving hpumps hflying hentry hwindow =>
    have heq := hflying 0
    have hpos := count_pos cfg.packetSize_pos hpumps.pos
    rw [hquiet 0, if_pos ⟨hpos, rfl⟩] at heq
    omega
  | landed hpumps hend hnone => exact ⟨rfl, hpumps.done.mpr hend⟩

end Phase

section Credit

variable {flying : ℕ → ℕ} {granted : ℕ → Prop} {out : Option OutMsg} {entry : Option InMsg}
  {dels : List (List UInt8)}

/-- A start spends the unit for the start and one unit for each fragment it sends. -/
theorem credit_start (cfg : TransportConfig) (data : List UInt8) (entry : Option InMsg)
    (dels : List (List UInt8)) (now : ℕ) :
    credit cfg data (some (OutMsg.started cfg data now)) entry dels +
      count cfg.packetSize (OutMsg.started cfg data now).nextSend + 1 =
        credit cfg data none entry dels := by
  have hle : (OutMsg.started cfg data now).nextSend ≤ data.length := pumpEnd_le (Nat.zero_le _)
  have hcount := count_mono cfg.packetSize_pos hle
  simp only [credit, Option.isNone_some, Option.isNone_none, Option.map_some, Option.map_none,
    Option.getD_some, Option.getD_none, count_zero cfg.packetSize_pos, Bool.false_eq_true, if_true,
    if_false]
  omega

/-- A GRANT spends one unit for each fragment it sends. -/
theorem credit_grant (h : Pumps cfg data o) (entry : Option InMsg) (dels : List (List UInt8))
    (rcv : Addr) (pkt : Packet) (now : ℕ) :
    credit cfg data (some (o.handleGrant cfg rcv pkt now).1) entry dels +
      (count cfg.packetSize (o.handleGrant cfg rcv pkt now).1.nextSend -
        count cfg.packetSize o.nextSend) = credit cfg data (some o) entry dels := by
  have hmore := count_mono cfg.packetSize_pos (h.le_handleGrant rcv pkt now)
  have hcount := count_mono cfg.packetSize_pos (h.handleGrant rcv pkt now).le
  simp only [credit, Option.isNone_some, Option.map_some, Option.getD_some]
  omega

/-- Raising a window spends the bytes it is raised by. -/
theorem credit_regrant {entry' : Option InMsg} {n : ℕ}
    (hspent : window cfg data entry + n ≤ window cfg data entry')
    (hle : n = 0 ∨ dels = [] ∧ window cfg data entry' ≤ data.length) :
    credit cfg data out entry' dels + n ≤ credit cfg data out entry dels := by
  simp only [credit]
  rcases hle with rfl | ⟨rfl, hle⟩
  · split_ifs <;> omega
  · simp only [if_true]
    omega

theorem credit_land (cfg : TransportConfig) (data : List UInt8) (out : Option OutMsg)
    (entry : Option InMsg) (dels : List (List UInt8)) :
    credit cfg data out none (dels ++ [data]) ≤ credit cfg data out entry dels := by
  simp only [credit, List.append_eq_nil_iff, List.cons_ne_nil, and_false, if_false]
  omega

end Credit

end AgentTransport
