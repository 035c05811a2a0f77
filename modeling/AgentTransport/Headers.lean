import AgentTransport.Canonicity

/-!
# Sizes in headers

A header has 32 bits for the length of the message and 32 bits for the offset, and `start`
takes messages of any length. The headers of a message are true exactly if its length is
below `2^32`, whatever calls the sender gets.
-/
namespace AgentTransport
open ByteString Fragmentation

variable {Addr : Type} [DecidableEq Addr]

/-- The packet for the range `r` of `data` is decoded, and its header states the length of the
message and the place of the payload. -/
def TrueSizes (data bytes : List UInt8) (r : ℕ × ℕ) : Prop :=
  ∃ p q, Packet.decode bytes = .ok (p, q) ∧ p.msgLen.toNat = data.length ∧
    p.offset.toNat = r.1 ∧ q = slice data r.1 r.2

theorem trueSizes_iff {data : List UInt8} {r : ℕ × ℕ} (msgId : UInt64) (hr : r.1 ≤ data.length) :
    TrueSizes data (dataPacket data msgId r.1 r.2) r ↔ data.length < 2 ^ 32 := by
  constructor
  · rintro ⟨p, q, hdec, hlen, _⟩
    obtain ⟨rfl, _⟩ := eq_of_decode_dataPacket hdec
    rw [← hlen]
    exact UInt32.toNat_lt _
  · intro hlen
    exact ⟨_, _, decode_dataPacket hlen msgId r.1 r.2, toNat_ofNat_u32 hlen,
      toNat_ofNat_u32 (by omega), rfl⟩

namespace SenderCore

variable {cfg : TransportConfig} {s : SenderCore Addr} {c : SenderCall Addr}
  {calls : List (SenderCall Addr)} {key : MsgKey Addr} {data : List UInt8} {r : ℕ × ℕ}

/-- The entries of a run: where they stand, and the calls that made them. -/
structure Begun (calls : List (SenderCall Addr)) (s : SenderCore Addr) : Prop where
  within : ∀ key m, s.out.lookup key = some m → m.nextSend ≤ m.data.length
  started : ∀ key m, s.out.lookup key = some m → ∃ now, .start key.1 key.2 m.data now ∈ calls

theorem Begun.call (h : Begun calls s) (hc : c ∈ calls) : Begun calls (s.call c).1 := by
  refine ⟨within_call h.within, fun key m' hm' => ?_⟩
  rcases entry_call hm' with ⟨data, now, rfl, rfl⟩ | ⟨m, hm, hturn⟩
  · exact ⟨now, hc⟩
  · rw [hturn.data]
    exact h.started key m hm

theorem Begun.of_history (cfg : TransportConfig) (calls : List (SenderCall Addr)) :
    ∀ x ∈ history (new cfg) calls, Begun calls x.1 :=
  history_invariant (fun _ _ hc h => h.call hc)
    ⟨fun key m hm => (by cases hm), fun key m hm => (by cases hm)⟩

/-- What is sent belongs to a message that was started, and starts inside of it. -/
theorem Begun.emits (h : Begun calls s) (hc : c ∈ calls) (hemit : Emits s c key data r) :
    (∃ now, .start key.1 key.2 data now ∈ calls) ∧ r.1 ≤ data.length := by
  have hwhole : ∀ {ps len : ℕ}, 0 < ps → (∃ i < count ps len, r = fragRange ps len i) →
      r.1 ≤ len := by
    rintro ps len hps ⟨i, hi, rfl⟩
    exact ((lt_count_iff hps).mp hi).le
  have hps := s.cfg.packetSize_pos
  cases hemit with
  | @start dest msgId data now r hr =>
    exact ⟨⟨now, hc⟩, hwhole hps (OutMsg.startRanges_whole _ _ r hr)⟩
  | @grant src pkt now m r hm hr =>
    refine ⟨h.started _ m hm, ?_⟩
    rw [OutMsg.grantRanges] at hr
    split_ifs at hr
    · obtain ⟨j, hj, rfl⟩ := (mem_pumpRanges hps).mp hr
      exact hj.le.trans (Nat.min_le_right _ _)
    · cases hr
  | @resend src pkt now m r hm hr =>
    exact ⟨h.started _ m hm, hwhole hps (OutMsg.answerRanges_whole _ _ _ r hr)⟩
  | @poke now order key m r hm hstalled hr =>
    refine ⟨h.started _ m hm, ?_⟩
    obtain rfl := List.mem_singleton.mp hr
    calc (m.nextSend - 1) / s.cfg.packetSize * s.cfg.packetSize
        ≤ m.nextSend - 1 := Nat.div_mul_le_self _ _
      _ ≤ m.nextSend := Nat.sub_le _ _
      _ ≤ m.data.length := h.within _ m hm

/-- All packets of a run are packets of messages that were started. Their headers are true
exactly if the message is shorter than `2^32` bytes. -/
theorem sizes_true_iff (cfg : TransportConfig) (calls : List (SenderCall Addr)) :
    ∀ x ∈ history (new cfg) calls,
      (∀ a ∈ (x.1.call x.2).2, ∃ key data r, Emits x.1 x.2 key data r ∧
        a = .send key.1 (dataPacket data key.2 r.1 r.2)) ∧
      ∀ key data r, Emits x.1 x.2 key data r →
        (∃ now, .start key.1 key.2 data now ∈ calls) ∧
        (TrueSizes data (dataPacket data key.2 r.1 r.2) r ↔ data.length < 2 ^ 32) := by
  intro x hx
  refine ⟨fun a ha => mem_call.mp ha, fun key data r hemit => ?_⟩
  obtain ⟨hstart, hle⟩ :=
    (Begun.of_history cfg calls x hx).emits (snd_mem_of_mem_history hx) hemit
  exact ⟨hstart, trueSizes_iff key.2 hle⟩

/-- The four bytes of twelve that are sent at once. -/
theorem sizes_true_iff_twelve : TrueSizes [1, 2, 3, 4, 5, 6, 7, 8, 9, 10, 11, 12]
    (dataPacket [1, 2, 3, 4, 5, 6, 7, 8, 9, 10, 11, 12] 1 0 4) (0, 4) := by
  have hemit : Emits (new tinyConfig) startTwelve (9, 1) [1, 2, 3, 4, 5, 6, 7, 8, 9, 10, 11, 12]
      (0, 4) := .start (by decide)
  exact (((sizes_true_iff tinyConfig [startTwelve] _ List.mem_cons_self).2 _ _ _ hemit).2).mpr
    (by decide)

/-- A message of `2^32` bytes. What is sent at once says that the message is empty. -/
theorem sizes_fail : ∃ data : List UInt8, data.length = 2 ^ 32 ∧
    ∃ a ∈ ((new tinyConfig : SenderCore ℕ).call (.start 9 1 data 0)).2,
      a = .send 9 (dataPacket data 1 0 4) ∧ (dataHeader data 1 0 4).msgLen = 0 ∧
        ¬ TrueSizes data (dataPacket data 1 0 4) (0, 4) := by
  obtain ⟨data, hlen⟩ : ∃ data : List UInt8, data.length = 2 ^ 32 :=
    ⟨List.replicate (2 ^ 32) 0, List.length_replicate⟩
  have hr : (0, 4) ∈ OutMsg.startRanges tinyConfig data := by
    rw [OutMsg.startRanges, mem_pumpRanges tinyConfig.packetSize_pos]
    refine ⟨0, ?_, ?_⟩ <;> rw [hlen] <;> decide
  refine ⟨data, hlen, _, mem_call.mpr ⟨(9, 1), data, (0, 4), .start hr, rfl⟩, rfl, ?_, fun h => ?_⟩
  · rw [dataHeader, hlen]
    rfl
  · have hlt := (trueSizes_iff (r := (0, 4)) 1 (Nat.zero_le _)).mp h
    omega

end SenderCore
end AgentTransport
