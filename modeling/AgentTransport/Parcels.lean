import AgentTransport.Integrity
import AgentTransport.Windows

/-!
# A message in a network that loses nothing

If nothing is lost and no tick fires, a sender only pumps, and always from a fragment
boundary, so that every fragment is sent once. A datagram then stands for a fragment or
for a raised window, and of every message it can be said where its fragments are: not
sent yet, in flight, or received. This bookkeeping is kept message by message.
-/
namespace AgentTransport
open ByteString Fragmentation

variable {Addr : Type} [DecidableEq Addr]

section Boundaries

variable {ps len limit next : ℕ}

theorem count_mul (hps : 0 < ps) (j : ℕ) : count ps (j * ps) = j := by
  have hlt : ∀ i, i < count ps (j * ps) ↔ i < j := by
    intro i
    rw [lt_count_iff hps]
    exact Nat.mul_lt_mul_right hps
  have h₁ := hlt j
  have h₂ := hlt (count ps (j * ps))
  omega

/-- As many fragments start below a boundary as are needed to reach it. -/
theorem le_count_mul (hps : 0 < ps) (n : ℕ) : n ≤ count ps n * ps := by
  by_contra hlt
  exact Nat.lt_irrefl _ ((lt_count_iff hps).mpr (Nat.not_le.mp hlt))

/-- All fragments start below a boundary only if it is the end. -/
theorem eq_of_count_eq (hps : 0 < ps) (hle : next ≤ len) (hb : ps ∣ next ∨ next = len)
    (h : count ps len ≤ count ps next) : next = len := by
  rcases hb with ⟨j, rfl⟩ | heq
  · rw [Nat.mul_comm] at h hle ⊢
    rw [count_mul hps] at h
    by_contra hne
    have hj := (lt_count_iff hps).mpr (show j * ps < len by omega)
    omega
  · exact heq

theorem boundary_pumpEnd (hl : limit ≤ len) (hb : ps ∣ next ∨ next = len) :
    ps ∣ pumpEnd ps len limit next ∨ pumpEnd ps len limit next = len := by
  rcases hb with hdvd | rfl
  · exact pumpEnd_aligned hdvd
  · right
    rw [pumpEnd, if_neg (by omega)]

/-- From a boundary `pump` sends the fragments that start between it and where it stops. -/
theorem pumpRanges_eq (hps : 0 < ps) (hl : limit ≤ len) (hb : ps ∣ next ∨ next = len) :
    pumpRanges ps len limit next =
      (List.range' (count ps next) (count ps (pumpEnd ps len limit next) - count ps next)).map
        (fragRange ps len) := by
  by_cases hlt : next < limit
  · obtain ⟨j, rfl⟩ : ps ∣ next := by
      rcases hb with hdvd | heq
      · exact hdvd
      · omega
    rw [Nat.mul_comm] at hlt ⊢
    have hcover := le_count_mul hps limit
    have hend : count ps (pumpEnd ps len limit (j * ps)) = count ps limit := by
      have hgap : count ps (limit - j * ps) = count ps limit - j := by
        have hranges : pumpRanges ps len limit (j * ps) = _ := pumpRanges_aligned hps
        have heq := congrArg List.length hranges
        simpa [pumpRanges] using heq
      have hj := (lt_count_iff hps).mpr hlt
      have hstop : j * ps + (count ps limit - j) * ps = count ps limit * ps := by
        rw [← Nat.add_mul]
        congr 1
        omega
      rw [pumpEnd, if_pos hlt, hgap, hstop]
      apply Nat.le_antisymm
      · calc count ps (min (count ps limit * ps) len)
            ≤ count ps (count ps limit * ps) := count_mono hps (Nat.min_le_left _ _)
          _ = count ps limit := count_mul hps _
      · exact count_mono hps (by omega)
    rw [pumpRanges_aligned hps, hend, count_mul hps]
  · rw [pumpRanges_of_le hps (Nat.not_lt.mp hlt), pumpEnd, if_neg hlt, Nat.sub_self]
    rfl

end Boundaries

/-- What a datagram in flight stands for. -/
inductive Parcel (Addr : Type) where
  | fragment (key : MsgKey Addr) (i : ℕ)
  | grant (key : MsgKey Addr) (target added : ℕ)
  deriving DecidableEq

/-- The GRANT for a window of a message. -/
def grantHeader (data : List UInt8) (msgId : UInt64) (target added : ℕ) : Packet where
  typ := .grant
  priority := priorityForLen data.length
  msgId := msgId
  msgLen := 0
  offset := UInt32.ofNat target
  length := UInt32.ofNat added

/-- The datagram of a parcel, when `D` says what the messages are. -/
def Parcel.datagram (cfg : TransportConfig) (rcv : Addr) (D : MsgKey Addr → List UInt8) :
    Parcel Addr → Datagram Addr
  | .fragment key i => fragmentDatagram cfg rcv key (D key) i
  | .grant key target added =>
    ⟨rcv, key.1, (grantHeader (D key) key.2 target added).encode []⟩

/-- The parcels a window sends when it is raised. -/
def grantParcels (cfg : TransportConfig) (key : MsgKey Addr) (now : ℕ) (m : InMsg) :
    List (Parcel Addr) :=
  if m.grantedTo < (m.issueGrant cfg key now false).1.grantedTo then
    [.grant key (m.issueGrant cfg key now false).1.grantedTo
      ((m.issueGrant cfg key now false).1.grantedTo - m.grantedTo)]
  else []

section Parcels

variable {cfg : TransportConfig} {rcv : Addr} {D : MsgKey Addr → List UInt8} {key : MsgKey Addr}

omit [DecidableEq Addr]

theorem datagrams_issueGrant {m : InMsg} (hm : m.totalLen = (D key).length) (now : ℕ) :
    datagrams rcv (m.issueGrant cfg key now false).2 =
      (grantParcels cfg key now m).map (Parcel.datagram cfg rcv D) := by
  rcases InMsg.issueGrant_unforced cfg key now m with hg | ⟨_, hlt, hg⟩
  · simp [grantParcels, hg]
  · simp only [grantParcels, hg, if_pos hlt, List.map_singleton, Parcel.datagram, grantHeader,
      InMsg.grantPacket, hm]
    rfl

/-- The datagrams that a pump puts on the network. -/
theorem datagrams_sendRanges (cfg : TransportConfig) (rcv : Addr) (D : MsgKey Addr → List UInt8)
    (key : MsgKey Addr) (is : List ℕ) :
    datagrams key.1 (sendRanges rcv key.2 (D key)
      (is.map (fragRange cfg.packetSize (D key).length))) =
        (is.map (Parcel.fragment key)).map (Parcel.datagram cfg rcv D) := by
  induction is with
  | nil => rfl
  | cons i is ih =>
    simp only [List.map_cons]
    rw [← ih]
    rfl

end Parcels
end AgentTransport
