import AgentTransport.SenderRun
import AgentTransport.Integrity

/-!
# Canonical fragments

`start`, RESEND and probes send whole fragments of a message, whatever was sent before. A
GRANT goes on from `next_send`, which a RESEND may have left inside a fragment. A run of
the sender therefore sends canonical fragments only, and a position of a message always in
the same packet, exactly if no GRANT goes on from inside a fragment.
-/
namespace AgentTransport
open ByteString Fragmentation

variable {Addr : Type} [DecidableEq Addr]

/-- The packet in which position `x` of a message belongs. -/
def carrier (ps : ℕ) (data : List UInt8) (msgId : UInt64) (x : ℕ) : List UInt8 :=
  dataPacket data msgId (x / ps * ps) (fragEnd ps data.length (x / ps))

/-- Header and payload are those of one fragment of `data`. -/
structure CanonicalPacket (ps : ℕ) (data : List UInt8) (msgId : UInt64) (p : Packet)
    (q : List UInt8) : Prop where
  typ : p.typ = .data
  msgId : p.msgId = msgId
  msgLen : p.msgLen.toNat = data.length
  aligned : ps ∣ p.offset.toNat
  offset_lt : p.offset.toNat < data.length
  length : p.length.toNat = min ps (data.length - p.offset.toNat)
  payload : q = slice data p.offset.toNat (p.offset.toNat + p.length.toNat)

/-- The action sends a canonical fragment of a message of the sender, and for every position
in it the packet in which the position belongs. -/
def SendsCanonical (ps : ℕ) (s : SenderCore Addr) (a : Action Addr) : Prop :=
  ∃ key m p q, s.out.lookup key = some m ∧ a = .send key.1 (p.encode q) ∧
    CanonicalPacket ps m.data key.2 p q ∧
    ∀ x, p.offset.toNat ≤ x → x < p.offset.toNat + p.length.toNat →
      p.encode q = carrier ps m.data key.2 x

section Packets

variable {ps : ℕ} {data : List UInt8} {msgId : UInt64}

theorem canonicalPacket_fragment (hps : 0 < ps) (hlen : data.length < 2 ^ 32) {i : ℕ}
    (hi : i < count ps data.length) :
    CanonicalPacket ps data msgId (dataHeader data msgId (i * ps) (fragEnd ps data.length i))
      (slice data (i * ps) (fragEnd ps data.length i)) := by
  have hlt := (lt_count_iff hps).mp hi
  have hend : fragEnd ps data.length i = i * ps + min ps (data.length - i * ps) := by
    simp only [fragEnd]
    omega
  have hoff : (dataHeader data msgId (i * ps) (fragEnd ps data.length i)).offset.toNat = i * ps :=
    toNat_ofNat_u32 (by omega)
  have hlength : (dataHeader data msgId (i * ps) (fragEnd ps data.length i)).length.toNat =
      min ps (data.length - i * ps) := by
    have hslice : (slice data (i * ps) (fragEnd ps data.length i)).length =
        min ps (data.length - i * ps) := by
      rw [length_slice, hend]
      omega
    simp only [dataHeader, hslice]
    exact toNat_ofNat_u32 (by omega)
  constructor
  · rfl
  · rfl
  · exact toNat_ofNat_u32 hlen
  · rw [hoff]
    exact Nat.dvd_mul_left ps i
  · rw [hoff]
    exact hlt
  · rw [hlength, hoff]
  · rw [hoff, hlength, hend]

/-- The packet of a fragment is the carrier of all its positions. -/
theorem carrier_fragment (hps : 0 < ps) {i x : ℕ} (hlo : i * ps ≤ x) (hhi : x < i * ps + ps) :
    carrier ps data msgId x = dataPacket data msgId (i * ps) (fragEnd ps data.length i) := by
  rw [carrier, div_eq_of_mem hps hlo hhi]

theorem sendsCanonical_fragment {s : SenderCore Addr} {key : MsgKey Addr} {m : OutMsg}
    (hps : 0 < ps) (hm : s.out.lookup key = some m) (hlen : m.data.length < 2 ^ 32) {i : ℕ}
    (hi : i < count ps m.data.length) :
    SendsCanonical ps s (.send key.1 (dataPacket m.data key.2 (fragRange ps m.data.length i).1
      (fragRange ps m.data.length i).2)) := by
  have hp : CanonicalPacket ps m.data key.2 _ _ := canonicalPacket_fragment hps hlen hi
  have hlt := (lt_count_iff hps).mp hi
  have hoff : (dataHeader m.data key.2 (i * ps) (fragEnd ps m.data.length i)).offset.toNat =
      i * ps := toNat_ofNat_u32 (by omega)
  refine ⟨key, m, dataHeader m.data key.2 (i * ps) (fragEnd ps m.data.length i), _, hm, rfl, hp,
    fun x hlo hhi => ?_⟩
  have hlength := hp.length
  rw [hoff] at hlo hhi hlength
  exact (carrier_fragment hps hlo (by omega)).symm

/-- A packet that starts inside a fragment is not canonical. -/
theorem aligned_of_sendsCanonical {s : SenderCore Addr} {dest : Addr} {a b : ℕ}
    (h : SendsCanonical ps s (.send dest (dataPacket data msgId a b))) (ha : a < 2 ^ 32) :
    ps ∣ a := by
  obtain ⟨key, m, p, q, _, hsend, hp, _⟩ := h
  obtain ⟨_, hbytes⟩ := Action.send.inj hsend
  have hheader : (dataHeader data msgId a b, slice data a b) = (p, q) :=
    Packet.encode_injective hbytes
  obtain ⟨rfl, rfl⟩ := Prod.mk.inj hheader
  have hoff : (dataHeader data msgId a b).offset.toNat = a := toNat_ofNat_u32 ha
  rw [← hoff]
  exact hp.aligned

end Packets

namespace SenderCore

/-- The call is a GRANT that makes the sender go on from inside a fragment. -/
def Splits (s : SenderCore Addr) : SenderCall Addr → Prop
  | .grant src pkt _ =>
    ∃ m, s.out.lookup (src, pkt.msgId) = some m ∧ GrantSplits s.cfg m pkt
  | _ => False

/-- What holds of every entry of the sender, whatever calls were made. An empty message is
done when it is started. -/
structure Sound (cfg : TransportConfig) (s : SenderCore Addr) : Prop where
  cfg : s.cfg = cfg
  short : ∀ key m, s.out.lookup key = some m → m.data.length < 2 ^ 32
  within : ∀ key m, s.out.lookup key = some m → m.nextSend ≤ m.data.length
  empty : ∀ key m, s.out.lookup key = some m → m.data = [] → m.doneAt ≠ none

variable {cfg : TransportConfig} {s : SenderCore Addr} {c : SenderCall Addr}

theorem sound_new (cfg : TransportConfig) : Sound cfg (new cfg : SenderCore Addr) := by
  constructor
  · rfl
  all_goals
    intro key m hm
    cases hm

omit [DecidableEq Addr] in
theorem Turns.within {key : MsgKey Addr} {m m' : OutMsg} (h : Turns cfg key c m m')
    (hm : m.nextSend ≤ m.data.length) : m'.nextSend ≤ m'.data.length := by
  rw [h.data]
  cases h with
  | grant => exact OutMsg.handleGrant_nextSend_le _ _ _ _ hm
  | resend => exact OutMsg.handleResend_nextSend_le _ _ _ _ hm
  | _ => exact hm

/-- What is sent next of a message is not beyond its end. -/
theorem within_call (h : ∀ key m, s.out.lookup key = some m → m.nextSend ≤ m.data.length) :
    ∀ key m, (s.call c).1.out.lookup key = some m → m.nextSend ≤ m.data.length := by
  intro key m' hm'
  rcases entry_call hm' with ⟨data, now, _, rfl⟩ | ⟨m, hm, hturn⟩
  · exact pumpEnd_le (Nat.zero_le _)
  · exact hturn.within (h key m hm)

theorem Sound.call (h : Sound cfg s) (hc : c.Short) : Sound cfg (s.call c).1 := by
  have hstarted : ∀ (key : MsgKey Addr) data now, c = .start key.1 key.2 data now →
      data.length < 2 ^ 32 := by
    rintro key data now rfl
    exact hc
  constructor
  · rw [call_cfg, h.cfg]
  · intro key m' hm'
    rcases entry_call hm' with ⟨data, now, hstart, rfl⟩ | ⟨m, hm, hturn⟩
    · exact hstarted key data now hstart
    · rw [hturn.data]
      exact h.short key m hm
  · exact within_call h.within
  · intro key m' hm' hempty
    rcases entry_call hm' with ⟨data, now, _, rfl⟩ | ⟨m, hm, hturn⟩
    · obtain rfl : data = [] := hempty
      simp only [OutMsg.started, OutMsg.pumped, OutMsg.new, List.length_nil, Nat.zero_le,
        if_true]
      exact Option.some_ne_none now
    · rw [hturn.data] at hempty
      have hdone := h.empty key m hm hempty
      exact fun hopen => hdone ((hturn.advances (h.within key m hm)).doneAt_eq_none hopen)

/-- A call that does not split a fragment sends whole fragments. -/
theorem Emits.whole {key : MsgKey Addr} {data : List UInt8} {r : ℕ × ℕ} (h : Sound cfg s)
    (hemit : Emits s c key data r) (hwhole : ¬ s.Splits c) :
    ∃ i < count cfg.packetSize data.length, r = fragRange cfg.packetSize data.length i := by
  rw [← h.cfg]
  cases hemit with
  | start hr => exact OutMsg.startRanges_whole _ _ r hr
  | grant hm hr => exact OutMsg.grantRanges_whole (fun hsplit => hwhole ⟨_, hm, hsplit⟩) r hr
  | resend hm hr => exact OutMsg.answerRanges_whole _ _ _ r hr
  | poke hm hstalled hr =>
    have hne : ∀ m, s.out.lookup key = some m → m.doneAt = none → m.data ≠ [] :=
      fun m hm hdone hempty => h.empty key m hm hempty hdone
    exact OutMsg.pokeRanges_whole (hne _ hm (OutMsg.doneAt_of_stalled hstalled))
      (h.within key _ hm) r hr

theorem Sound.canonical (h : Sound cfg s) (hc : c.Short) (hwhole : ¬ s.Splits c) :
    ∀ a ∈ (s.call c).2, SendsCanonical cfg.packetSize (s.call c).1 a := by
  intro a ha
  obtain ⟨key, data, r, hemit, rfl⟩ := mem_call.mp ha
  obtain ⟨i, hi, rfl⟩ := hemit.whole h hwhole
  obtain ⟨m, hm, rfl⟩ := hemit.lookup_call
  exact sendsCanonical_fragment cfg.packetSize_pos hm ((h.call hc).short key m hm) hi

/-- A GRANT that splits a fragment sends a packet that is not canonical. -/
theorem Sound.not_canonical (h : Sound cfg s) (hsplit : s.Splits c) :
    ∃ a ∈ (s.call c).2, ¬ SendsCanonical cfg.packetSize (s.call c).1 a := by
  cases c with
  | grant src pkt now =>
    obtain ⟨m, hm, hunlocks, hlt, hoff⟩ := hsplit
    have hshort := h.short _ m hm
    have hr : (m.nextSend, min (m.nextSend + s.cfg.packetSize) m.data.length) ∈
        m.grantRanges s.cfg pkt := by
      rw [OutMsg.grantRanges, if_pos hunlocks, pumpRanges_cons s.cfg.packetSize_pos hlt]
      exact List.mem_cons_self
    refine ⟨_, mem_call.mpr ⟨_, _, _, .grant hm hr, rfl⟩, fun hcan => hoff ?_⟩
    rw [h.cfg]
    exact aligned_of_sendsCanonical hcan (by omega)
  | _ => exact hsplit.elim

/-- The sender sends canonical fragments only, exactly if no GRANT splits a fragment. -/
theorem canonical_iff (cfg : TransportConfig) (calls : List (SenderCall Addr))
    (hshort : ∀ c ∈ calls, c.Short) :
    (∀ x ∈ history (new cfg) calls, ∀ a ∈ (x.1.call x.2).2,
        SendsCanonical cfg.packetSize (x.1.call x.2).1 a) ↔
      ∀ x ∈ history (new cfg) calls, ¬ x.1.Splits x.2 := by
  have hsound : ∀ x ∈ history (new cfg) calls, Sound cfg x.1 :=
    history_invariant (fun s c hc h => h.call (hshort c hc)) (sound_new cfg)
  constructor
  · intro hall x hx hsplit
    obtain ⟨a, ha, hnot⟩ := (hsound x hx).not_canonical hsplit
    exact hnot (hall x hx a ha)
  · intro hwhole x hx
    exact (hsound x hx).canonical (hshort _ (snd_mem_of_mem_history hx)) (hwhole x hx)

/-- Twelve bytes of which the first four may be sent at once. -/
def startTwelve : SenderCall ℕ := .start 9 1 [1, 2, 3, 4, 5, 6, 7, 8, 9, 10, 11, 12] 0

/-- The start of the message, and a GRANT that goes on from the boundary at 4. -/
def wholeRun : List (SenderCall ℕ) := [startTwelve, .grant 9 ⟨.grant, 0, 1, 0, 6, 2⟩ 1]

theorem canonical_iff_twelve :
    (∀ c ∈ wholeRun, c.Short) ∧
      ∀ x ∈ history (new tinyConfig) wholeRun, ∀ a ∈ (x.1.call x.2).2,
        SendsCanonical 4 (x.1.call x.2).1 a := by
  have hshort : ∀ c ∈ wholeRun, c.Short := by
    intro c hc
    rcases List.mem_cons.mp hc with rfl | hc
    · show [1, 2, 3, 4, 5, 6, 7, 8, 9, 10, 11, 12].length < 2 ^ 32
      decide
    · obtain rfl := List.mem_singleton.mp hc
      trivial
  constructor
  · exact hshort
  · apply (canonical_iff tinyConfig wholeRun hshort).mpr
    rintro ⟨s, c⟩ hx
    rcases mem_history_cons.mp hx with ⟨rfl, rfl⟩ | hx
    · exact id
    · rcases mem_history_cons.mp hx with ⟨rfl, rfl⟩ | hx
      · rintro ⟨m, hm, _, _, hoff⟩
        obtain rfl := Option.some.inj hm
        exact hoff (by decide)
      · cases hx

/-- The RESEND for two bytes moves `next_send` to 6, and the GRANT sends the bytes 6 to 10. -/
def splitRun : List (SenderCall ℕ) :=
  [startTwelve, .resend 9 ⟨.resend, 0, 1, 0, 4, 2⟩ 1, .grant 9 ⟨.grant, 0, 1, 0, 12, 6⟩ 2]

theorem canonical_fails :
    (∀ c ∈ splitRun, c.Short) ∧
    ¬ ∀ x ∈ history (new tinyConfig) splitRun, ∀ a ∈ (x.1.call x.2).2,
      SendsCanonical 4 (x.1.call x.2).1 a := by
  constructor
  · intro c hc
    simp only [splitRun, List.mem_cons, List.not_mem_nil, or_false] at hc
    rcases hc with rfl | rfl | rfl
    · show [1, 2, 3, 4, 5, 6, 7, 8, 9, 10, 11, 12].length < 2 ^ 32
      decide
    · trivial
    · trivial
  · intro hall
    have hlast := hall _ (mem_history_cons.mpr (Or.inr (mem_history_cons.mpr (Or.inr
      (mem_history_cons.mpr (Or.inl ⟨rfl, rfl⟩))))))
    have hsplit : (4 : ℕ) ∣ 6 :=
      aligned_of_sendsCanonical (hlast (.send 9 (dataPacket [1, 2, 3, 4, 5, 6, 7, 8, 9, 10, 11, 12]
        1 6 10)) (by decide +kernel)) (by decide)
    revert hsplit
    decide

end SenderCore
end AgentTransport
