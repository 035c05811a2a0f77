import AgentTransport.Canonicity

/-!
# The credit of a message

The receiver authorises a message up to an offset: by the unscheduled window, by the GRANTs
and by the ranges it asks for again. The sender stays below it but for the rest of the last
fragment. One case is excepted: a GRANT that goes on from inside a fragment can leave
`next_send` past the boundary after the last authorised byte, and the next probe then sends
the fragment after that boundary.
-/
namespace AgentTransport
open ByteString Fragmentation Transition

variable {Addr : Type} [DecidableEq Addr]

/-- The credit of every message after a call. -/
def SenderCall.credit (cfg : TransportConfig) (credit : MsgKey Addr → ℕ) :
    SenderCall Addr → MsgKey Addr → ℕ
  | .start dest msgId data _ =>
    Function.update credit (dest, msgId) (min cfg.unscheduledBytes data.length)
  | .grant src pkt _ =>
    Function.update credit (src, pkt.msgId) (max (credit (src, pkt.msgId)) pkt.offset.toNat)
  | .resend src pkt _ =>
    Function.update credit (src, pkt.msgId)
      (max (credit (src, pkt.msgId)) (pkt.offset.toNat + pkt.length.toNat))
  | _ => credit

theorem SenderCall.credit_of_ne {cfg : TransportConfig} {credit : MsgKey Addr → ℕ}
    {c : SenderCall Addr} {key : MsgKey Addr} (h : c.authorises ≠ some key) :
    c.credit cfg credit key = credit key := by
  cases c with
  | start dest msgId data now =>
    exact Function.update_of_ne (fun hk => h (congrArg some hk.symm)) _ _
  | grant src pkt now => exact Function.update_of_ne (fun hk => h (congrArg some hk.symm)) _ _
  | resend src pkt now => exact Function.update_of_ne (fun hk => h (congrArg some hk.symm)) _ _
  | busy src pkt now => rfl
  | tick now order => rfl
  | finish dest msgId => rfl

/-- Where the last packet starts that `pump` sends from `next` for `limit`. -/
def lastPump (ps next limit : ℕ) : ℕ := next + (limit - 1 - next) / ps * ps

namespace OutMsg

/-- A GRANT goes on from inside a fragment, and the last packet it leads to starts inside the
fragment of the last authorised byte, runs over its end, and is not the end of the message. -/
def Overruns (cfg : TransportConfig) (pkt : Packet) (m : OutMsg) : Prop :=
  let limit := min pkt.offset.toNat m.data.length
  let start := lastPump cfg.packetSize m.nextSend limit
  m.Unlocks pkt ∧ m.nextSend < limit ∧ ¬ cfg.packetSize ∣ m.nextSend ∧
    start / cfg.packetSize = (limit - 1) / cfg.packetSize ∧
    start + cfg.packetSize < m.data.length

instance (cfg : TransportConfig) (pkt : Packet) (m : OutMsg) : Decidable (m.Overruns cfg pkt) :=
  inferInstanceAs (Decidable (_ ∧ _ ∧ _ ∧ _ ∧ _))

/-- Where the last fragment starts that was sent. -/
def pokeStart (cfg : TransportConfig) (m : OutMsg) : ℕ :=
  (m.nextSend - 1) / cfg.packetSize * cfg.packetSize

end OutMsg

/-- The window is covered by the credit. As long as the message is being sent the two agree,
and the last fragment that was sent starts below them. -/
structure OutMsg.Covered (cfg : TransportConfig) (credit : ℕ) (m : OutMsg) : Prop where
  covers : m.grantedTo ≤ credit
  agrees : m.doneAt = none → m.grantedTo = min credit m.data.length
  below : m.doneAt = none → m.pokeStart cfg < m.grantedTo

section Pumping

variable {ps len limit next : ℕ}

theorem pumpEnd_eq (hps : 0 < ps) (h : next < limit) :
    pumpEnd ps len limit next = min (lastPump ps next limit + ps) len := by
  have hcount : count ps (limit - next) = (limit - 1 - next) / ps + 1 := by
    rw [count, ← Nat.add_div_right _ hps]
    congr 1
    omega
  rw [pumpEnd, if_pos h, hcount, lastPump, Nat.add_mul]
  congr 1
  omega

theorem lastPump_lt (h : next < limit) : lastPump ps next limit < limit := by
  have hle := Nat.div_mul_le_self (limit - 1 - next) ps
  rw [lastPump]
  omega

theorem limit_le_lastPump (hps : 0 < ps) (h : next < limit) :
    limit ≤ lastPump ps next limit + ps := by
  have hlt := Nat.lt_div_mul_add (a := limit - 1 - next) hps
  rw [lastPump]
  omega

/-- A packet from a boundary ends before the fragment after it, and so does any packet that
starts in a fragment before that of the last authorised byte. -/
theorem pokeStart_lt (hps : 0 < ps) (h : next < limit)
    (hok : ps ∣ next ∨ lastPump ps next limit / ps ≠ (limit - 1) / ps) :
    (lastPump ps next limit + ps - 1) / ps * ps < limit := by
  have hlt : lastPump ps next limit < limit := lastPump_lt h
  cases hok with
  | inl hdvd =>
    have hstart : ps ∣ lastPump ps next limit := Nat.dvd_add hdvd (Nat.dvd_mul_left _ _)
    obtain ⟨i, hi⟩ := hstart
    have hq : (lastPump ps next limit + ps - 1) / ps = i := by
      apply div_eq_of_mem hps
      · rw [hi, Nat.mul_comm]
        omega
      · rw [hi, Nat.mul_comm]
        omega
    rw [hq, Nat.mul_comm, ← hi]
    exact hlt
  | inr hne =>
    have hle : lastPump ps next limit / ps ≤ (limit - 1) / ps := Nat.div_le_div_right (by omega)
    have hnext : (lastPump ps next limit + ps - 1) / ps ≤ lastPump ps next limit / ps + 1 := by
      rw [← Nat.add_div_right _ hps]
      exact Nat.div_le_div_right (by omega)
    have hmul : (lastPump ps next limit + ps - 1) / ps * ps ≤ (limit - 1) / ps * ps :=
      Nat.mul_le_mul_right ps (by omega)
    have hfloor := Nat.div_mul_le_self (limit - 1) ps
    omega

theorem le_pokeStart (hps : 0 < ps) (h : next < limit) (hoff : ¬ ps ∣ next)
    (hsame : lastPump ps next limit / ps = (limit - 1) / ps) :
    limit ≤ (lastPump ps next limit + ps - 1) / ps * ps := by
  have hpos : lastPump ps next limit / ps * ps < lastPump ps next limit := by
    have hle := Nat.div_mul_le_self (lastPump ps next limit) ps
    have hne : lastPump ps next limit / ps * ps ≠ lastPump ps next limit := by
      intro heq
      have hdvd : ps ∣ lastPump ps next limit := ⟨_, (heq.symm.trans (Nat.mul_comm _ _))⟩
      exact hoff ((Nat.dvd_add_left (Nat.dvd_mul_left _ _)).mp hdvd)
    omega
  have hhigh := Nat.lt_div_mul_add (a := lastPump ps next limit) hps
  have hq : (lastPump ps next limit + ps - 1) / ps = lastPump ps next limit / ps + 1 := by
    apply div_eq_of_mem hps
    · rw [Nat.add_mul]
      omega
    · rw [Nat.add_mul]
      omega
  have hceil := Nat.lt_div_mul_add (a := limit - 1) hps
  rw [hq, hsame, Nat.add_mul]
  omega

end Pumping

/-- A sender with the credit of its messages. -/
structure Credited (Addr : Type) where
  core : SenderCore Addr
  credit : MsgKey Addr → ℕ

namespace Credited

def new (cfg : TransportConfig) : Credited Addr := ⟨SenderCore.new cfg, fun _ => 0⟩

def step (s : Credited Addr) (c : SenderCall Addr) : Option (Credited Addr) :=
  some ⟨(s.core.call c).1, c.credit s.core.cfg s.credit⟩

/-- The call is a GRANT that overruns the credit. -/
def Overruns (s : Credited Addr) : SenderCall Addr → Prop
  | .grant src pkt _ =>
    ∃ m, s.core.out.lookup (src, pkt.msgId) = some m ∧ m.Overruns s.core.cfg pkt
  | _ => False

instance (s : Credited Addr) : DecidablePred s.Overruns := fun c =>
  match c with
  | .grant src pkt _ => inferInstanceAs
      (Decidable (∃ m ∈ s.core.out.lookup (src, pkt.msgId), m.Overruns s.core.cfg pkt))
  | .start _ _ _ _ | .resend _ _ _ | .busy _ _ _ | .tick _ _ | .finish _ _ =>
    inferInstanceAs (Decidable False)

/-- The action sends bytes of a message from below its credit on, one fragment at most. -/
def WithinCredit (s : Credited Addr) (a : Action Addr) : Prop :=
  ∃ key m, ∃ r : ℕ × ℕ, s.core.out.lookup key = some m ∧
    a = .send key.1 (dataPacket m.data key.2 r.1 r.2) ∧
    r.1 < s.credit key ∧ r.2 ≤ r.1 + s.core.cfg.packetSize

/-- Every window is covered by its credit. -/
structure Covered (cfg : TransportConfig) (s : Credited Addr) : Prop where
  config : s.core.cfg = cfg
  entries : ∀ key m, s.core.out.lookup key = some m → m.Covered cfg (s.credit key)

end Credited

namespace OutMsg

variable {cfg : TransportConfig} {m : OutMsg} {credit : ℕ} {pkt : Packet}

omit [DecidableEq Addr]

/-- Where a pump stops that does not send the whole message. -/
theorem nextSend_pumped {limit now : ℕ} (hlt : m.nextSend < limit)
    (hdone : (m.pumped cfg limit now).doneAt = none) :
    (m.pumped cfg limit now).nextSend =
        lastPump cfg.packetSize m.nextSend limit + cfg.packetSize ∧
      lastPump cfg.packetSize m.nextSend limit + cfg.packetSize < m.data.length := by
  have hopen : (m.pumped cfg limit now).nextSend < m.data.length := by
    by_contra hend
    have hdone' : (m.pumped cfg limit now).doneAt = some now := if_pos (Nat.le_of_not_lt hend)
    rw [hdone'] at hdone
    cases hdone
  have hend : (m.pumped cfg limit now).nextSend =
      min (lastPump cfg.packetSize m.nextSend limit + cfg.packetSize) m.data.length :=
    pumpEnd_eq cfg.packetSize_pos hlt
  omega

theorem pokeStart_pumped {limit now : ℕ} (hlt : m.nextSend < limit)
    (hdone : (m.pumped cfg limit now).doneAt = none)
    (hok : cfg.packetSize ∣ m.nextSend ∨
      lastPump cfg.packetSize m.nextSend limit / cfg.packetSize ≠ (limit - 1) / cfg.packetSize) :
    (m.pumped cfg limit now).pokeStart cfg < limit := by
  rw [pokeStart, (nextSend_pumped hlt hdone).1]
  exact pokeStart_lt cfg.packetSize_pos hlt hok

theorem covered_started (hun : 1 ≤ cfg.unscheduledBytes) (data : List UInt8) (now : ℕ) :
    (started cfg data now).Covered cfg (min cfg.unscheduledBytes data.length) := by
  have hgranted : (started cfg data now).grantedTo = min cfg.unscheduledBytes data.length :=
    Nat.max_self _
  refine ⟨hgranted.le, fun _ => ?_, fun hdone => ?_⟩
  · rw [hgranted, Nat.min_assoc]
    exact (congrArg _ (Nat.min_self _)).symm
  · rw [hgranted]
    by_cases hpos : 0 < min cfg.unscheduledBytes data.length
    · exact pokeStart_pumped hpos hdone (Or.inl (Nat.dvd_zero _))
    · -- an empty message is done at once
      have hempty : (OutMsg.new cfg data now).data.length ≤ (started cfg data now).nextSend := by
        change data.length ≤ _
        omega
      have hdone' : (started cfg data now).doneAt = some now := if_pos hempty
      rw [hdone'] at hdone
      cases hdone

theorem Covered.handleGrant (h : m.Covered cfg credit) (hsteady : ¬ m.Overruns cfg pkt)
    (src : Addr) (now : ℕ) :
    (m.handleGrant cfg src pkt now).1.Covered cfg (max credit pkt.offset.toNat) := by
  by_cases hu : m.Unlocks pkt
  · have hagrees := h.agrees hu.2
    have hlimit := hu.1
    have hgranted : (m.pumped cfg (min pkt.offset.toNat m.data.length) now).grantedTo =
        min pkt.offset.toNat m.data.length := by
      simp only [pumped]
      omega
    have hdata : (m.pumped cfg (min pkt.offset.toNat m.data.length) now).data = m.data := rfl
    rw [handleGrant_of_unlocks cfg src pkt now hu]
    refine ⟨?_, fun _ => ?_, fun hdone => ?_⟩
    · dsimp only
      omega
    · dsimp only
      rw [hdata]
      omega
    · dsimp only at hdone ⊢
      rw [hgranted]
      by_cases hlt : m.nextSend < min pkt.offset.toNat m.data.length
      · apply pokeStart_pumped hlt hdone
        by_contra hbad
        obtain ⟨hoff, hsame⟩ := not_or.mp hbad
        exact hsteady ⟨hu, hlt, hoff, not_not.mp hsame, (nextSend_pumped hlt hdone).2⟩
      · -- nothing is sent, and `next_send` stays where it was
        have hstay : (m.pumped cfg (min pkt.offset.toNat m.data.length) now).nextSend =
            m.nextSend := if_neg hlt
        rw [pokeStart, hstay]
        exact (h.below hu.2).trans hlimit
  · rw [handleGrant_of_not_unlocks cfg src pkt now hu]
    refine ⟨h.covers.trans (Nat.le_max_left _ _), fun hdone => ?_, h.below⟩
    have hagrees := h.agrees hdone
    have hclosed : ¬ m.grantedTo < min pkt.offset.toNat m.data.length := fun hlt => hu ⟨hlt, hdone⟩
    dsimp only at hdone ⊢
    omega

/-- A GRANT that overruns the credit leaves `next_send` in a fragment above the limit. -/
theorem Overruns.pumped (h : m.Overruns cfg pkt) (now : ℕ) :
    let m' := m.pumped cfg (min pkt.offset.toNat m.data.length) now
    m'.doneAt = none ∧ m'.nextSend - 1 < m'.data.length ∧ pkt.offset.toNat ≤ m.data.length ∧
      min pkt.offset.toNat m.data.length ≤ m'.pokeStart cfg := by
  obtain ⟨_, hlt, hoff, hsame, hmore⟩ := h
  have hlimit := limit_le_lastPump cfg.packetSize_pos hlt
  have hnext : (m.pumped cfg (min pkt.offset.toNat m.data.length) now).nextSend =
      lastPump cfg.packetSize m.nextSend (min pkt.offset.toNat m.data.length) +
        cfg.packetSize := by
    refine (pumpEnd_eq cfg.packetSize_pos hlt).trans ?_
    exact Nat.min_eq_left hmore.le
  have hopen : ¬ m.data.length ≤
      (m.pumped cfg (min pkt.offset.toNat m.data.length) now).nextSend := by omega
  intro m'
  refine ⟨if_neg hopen, ?_, by omega, ?_⟩
  · change (m.pumped cfg (min pkt.offset.toNat m.data.length) now).nextSend - 1 < m.data.length
    omega
  · rw [pokeStart, hnext]
    exact le_pokeStart cfg.packetSize_pos hlt hoff hsame

theorem Covered.handleResend (h : m.Covered cfg credit) (src : Addr) (now : ℕ) :
    (m.handleResend cfg src pkt now).1.Covered cfg
      (max credit (pkt.offset.toNat + pkt.length.toNat)) := by
  have hdata : (m.handleResend cfg src pkt now).1.data = m.data := rfl
  have hopen : (m.handleResend cfg src pkt now).1.doneAt = none → m.doneAt = none :=
    (Advances.handleResend cfg src pkt now m).doneAt_eq_none
  have hend : m.resendEnd pkt ≤ pkt.offset.toNat + pkt.length.toNat := by
    simp only [resendEnd]
    omega
  constructor
  · have hcovers := h.covers
    rw [handleResend_grantedTo]
    omega
  · intro hdone
    have hagrees := h.agrees (hopen hdone)
    rw [handleResend_grantedTo, hdata, hagrees]
    simp only [resendEnd]
    omega
  · intro hdone
    have hbelow := h.below (hopen hdone)
    rw [handleResend_grantedTo, pokeStart, handleResend_nextSend]
    rw [pokeStart] at hbelow
    rcases Nat.le_total (m.resendEnd pkt) m.nextSend with hle | hle
    · rw [Nat.max_eq_left hle]
      omega
    · rw [Nat.max_eq_right hle]
      have hfloor := Nat.div_mul_le_self (m.resendEnd pkt - 1) cfg.packetSize
      by_cases hzero : m.resendEnd pkt = 0
      · rw [hzero, Nat.zero_sub, Nat.zero_div, Nat.zero_mul]
        omega
      · omega

end OutMsg

namespace Credited

variable {cfg : TransportConfig} {s t : Credited Addr} {c : SenderCall Addr}

theorem covered_new (cfg : TransportConfig) : Covered cfg (new cfg : Credited Addr) := by
  constructor
  · rfl
  · intro key m hm
    cases hm

/-- A call that does not overrun the credit keeps the windows covered. -/
theorem Covered.step (h : Covered cfg s) (hun : 1 ≤ cfg.unscheduledBytes)
    (hsteady : ¬ s.Overruns c) (hstep : s.step c = some t) : Covered cfg t := by
  obtain rfl := Option.some.inj hstep
  constructor
  · exact (SenderCore.call_cfg _ _).trans h.config
  · intro key m' hm'
    dsimp only at hm' ⊢
    rcases SenderCore.entry_call hm' with ⟨data, now, rfl, rfl⟩ | ⟨m, hm, hturn⟩
    · have hcredit : (SenderCall.start key.1 key.2 data now).credit s.core.cfg s.credit key =
          min cfg.unscheduledBytes data.length := by
        rw [h.config]
        exact Function.update_self ..
      rw [hcredit, h.config]
      exact OutMsg.covered_started hun data now
    · have hentry := h.entries key m hm
      rw [h.config] at hturn ⊢
      cases hturn with
      | same hother =>
        rw [SenderCall.credit_of_ne hother]
        exact hentry
      | @grant src pkt now _ hk =>
        subst hk
        have hsteady : ¬ m.Overruns cfg pkt := fun hover =>
          hsteady ⟨m, hm, by rwa [h.config]⟩
        rw [SenderCall.credit, Function.update_self]
        exact hentry.handleGrant hsteady src now
      | @resend src pkt now _ hk =>
        subst hk
        rw [SenderCall.credit, Function.update_self]
        exact hentry.handleResend src now
      | busy => exact ⟨hentry.covers, hentry.agrees, hentry.below⟩
      | poke => exact ⟨hentry.covers, hentry.agrees, hentry.below⟩

theorem Covered.of_run (hun : 1 ≤ cfg.unscheduledBytes) {calls : List (SenderCall Addr)}
    (h : Run Credited.step (fun s c => ¬ s.Overruns c) (new cfg) calls s) : Covered cfg s :=
  h.invariant (fun _ _ _ hs hsteady hstep => hs.step hun hsteady hstep) (covered_new cfg)

/-- Whatever the call, a range it sends starts below the credit and is at most a fragment. -/
theorem Covered.emits (h : Covered cfg s) (hstep : s.step c = some t) {key : MsgKey Addr}
    {data : List UInt8} {r : ℕ × ℕ} (hemit : SenderCore.Emits s.core c key data r) :
    r.1 < t.credit key ∧ r.2 ≤ r.1 + cfg.packetSize := by
  have hps := cfg.packetSize_pos
  obtain rfl := Option.some.inj hstep
  dsimp only
  have hpumped : ∀ {len limit next : ℕ}, r ∈ pumpRanges cfg.packetSize len limit next →
      r.1 < limit ∧ r.2 ≤ r.1 + cfg.packetSize := by
    intro len limit next hr
    obtain ⟨j, hj, rfl⟩ := (mem_pumpRanges hps).mp hr
    exact ⟨hj, Nat.min_le_left _ _⟩
  cases hemit with
  | start hr =>
    rw [h.config] at hr ⊢
    rw [SenderCall.credit, Function.update_self]
    exact hpumped hr
  | @grant src pkt now m _ hm hr =>
    rw [h.config] at hr
    rw [SenderCall.credit, Function.update_self]
    unfold OutMsg.grantRanges at hr
    split_ifs at hr
    · obtain ⟨hlt, hfrag⟩ := hpumped hr
      exact ⟨by omega, hfrag⟩
    · cases hr
  | @resend src pkt now m _ hm hr =>
    rw [h.config] at hr
    rw [SenderCall.credit, Function.update_self]
    obtain ⟨i, _, hi, rfl⟩ := mem_resendRanges hr
    have hlt := (lt_count_iff hps).mp hi
    simp only [OutMsg.resendEnd] at hlt
    refine ⟨?_, Nat.min_le_left _ _⟩
    simp only [fragRange]
    omega
  | @poke now order _ m _ hm hstalled hr =>
    obtain rfl := List.mem_singleton.mp hr
    have hentry := h.entries key m hm
    have hbelow := hentry.below (OutMsg.doneAt_of_stalled hstalled)
    rw [h.config]
    exact ⟨hbelow.trans_le hentry.covers, Nat.min_le_left _ _⟩

theorem Covered.withinCredit (h : Covered cfg s) (hstep : s.step c = some t) :
    ∀ a ∈ (s.core.call c).2, t.WithinCredit a := by
  intro a ha
  obtain ⟨key, data, r, hemit, rfl⟩ := SenderCore.mem_call.mp ha
  obtain ⟨hlt, hfrag⟩ := h.emits hstep hemit
  obtain ⟨m, hm, rfl⟩ := hemit.lookup_call
  obtain rfl := Option.some.inj hstep
  refine ⟨key, m, r, hm, rfl, hlt, ?_⟩
  rw [SenderCore.call_cfg, h.config]
  exact hfrag

/-- After a GRANT that overruns the credit, a probe sends a fragment from above it. -/
theorem Covered.exceeds (h : Covered cfg s) (hover : s.Overruns c) (hstep : s.step c = some t) :
    ∃ key m i now, t.core.out.lookup key = some m ∧ i < count cfg.packetSize m.data.length ∧
      t.credit key ≤ i * cfg.packetSize ∧
      ∀ order, .send key.1 (dataPacket m.data key.2 (i * cfg.packetSize)
        (fragEnd cfg.packetSize m.data.length i)) ∈ (t.core.call (.tick now order)).2 := by
  cases c with
  | grant src pkt now =>
    obtain ⟨m, hm, hover⟩ := hover
    rw [h.config] at hover
    obtain ⟨hopen, hinside, hshort, habove⟩ := hover.pumped now
    have hagrees := (h.entries _ m hm).agrees hover.1.2
    have hunlocks := hover.1.1
    have hlook : t.core.out.lookup (src, pkt.msgId) =
        some (m.pumped cfg (min pkt.offset.toNat m.data.length) now) := by
      obtain rfl := Option.some.inj hstep
      simp only [SenderCore.call, SenderCore.handleGrant, SenderCore.lookup_update, hm, if_true,
        Option.map_some, h.config, OutMsg.handleGrant_of_unlocks cfg src pkt now hover.1]
    have hcfg : t.core.cfg = cfg := by
      obtain rfl := Option.some.inj hstep
      exact (SenderCore.call_cfg _ _).trans h.config
    have hcredit :
        t.credit (src, pkt.msgId) = max (s.credit (src, pkt.msgId)) pkt.offset.toNat := by
      obtain rfl := Option.some.inj hstep
      exact Function.update_self ..
    have hlimit : t.credit (src, pkt.msgId) = min pkt.offset.toNat m.data.length := by omega
    have hstalled : (m.pumped cfg (min pkt.offset.toNat m.data.length) now).stalled t.core.cfg
        (now + cfg.pokeTimeout) := by
      have hlate : ¬ now + cfg.pokeTimeout - now < cfg.pokeTimeout := by omega
      simp only [OutMsg.stalled, hopen, hcfg, Option.isSome_none, Bool.false_or, Bool.not_eq_true',
        decide_eq_false_iff_not]
      exact hlate
    refine ⟨(src, pkt.msgId), _, _, now + cfg.pokeTimeout, hlook,
      div_lt_count cfg.packetSize_pos hinside, hlimit.le.trans habove, fun order => ?_⟩
    apply SenderCore.mem_call.mpr
    refine ⟨(src, pkt.msgId), _, _, .poke hlook hstalled (List.mem_singleton.mpr rfl), ?_⟩
    rw [hcfg]
    rfl
  | _ => exact hover.elim

/-- The offset in a packet within the credit is below the credit. -/
theorem WithinCredit.lt {dest : Addr} {data : List UInt8} {msgId : UInt64} {a b : ℕ}
    (h : t.WithinCredit (.send dest (dataPacket data msgId a b))) (ha : a < 2 ^ 32) :
    a < t.credit (dest, msgId) := by
  obtain ⟨key, m, r, _, hsend, hlt, _⟩ := h
  obtain ⟨hdest, hbytes⟩ := Action.send.inj hsend
  have hheader : (dataHeader data msgId a b, slice data a b) =
      (dataHeader m.data key.2 r.1 r.2, slice m.data r.1 r.2) := Packet.encode_injective hbytes
  have hid : msgId = key.2 := congrArg (fun x => x.1.msgId) hheader
  have hoffset : (UInt32.ofNat a).toNat = (UInt32.ofNat r.1).toNat :=
    congrArg (fun x => x.1.offset.toNat) hheader
  rw [toNat_ofNat_u32 ha, UInt32.toNat_ofNat'] at hoffset
  have hle : a ≤ r.1 := hoffset ▸ Nat.mod_le _ _
  have hkey : key = (dest, msgId) := Prod.ext hdest.symm hid.symm
  exact hle.trans_lt (hkey ▸ hlt)

/-- As long as no GRANT overruns the credit, everything the sender sends starts below the
credit of its message and ends at most a fragment later. A GRANT that overruns it breaks this
with the next probe. -/
theorem within_credit (cfg : TransportConfig) (hun : 1 ≤ cfg.unscheduledBytes)
    {calls : List (SenderCall Addr)} {s : Credited Addr}
    (h : Run Credited.step (fun s c => ¬ s.Overruns c) (new cfg) calls s) :
    (∀ c t, s.step c = some t → ∀ a ∈ (s.core.call c).2, t.WithinCredit a) ∧
    (∀ c t, s.step c = some t → s.Overruns c →
      ∃ key m i now, t.core.out.lookup key = some m ∧ i < count cfg.packetSize m.data.length ∧
        t.credit key ≤ i * cfg.packetSize ∧
        ∀ order, .send key.1 (dataPacket m.data key.2 (i * cfg.packetSize)
          (fragEnd cfg.packetSize m.data.length i)) ∈ (t.core.call (.tick now order)).2) := by
  have hcovered := Covered.of_run hun h
  constructor
  · intro c t hstep
    exact hcovered.withinCredit hstep
  · intro c t hstep hover
    exact hcovered.exceeds hover hstep

/-- A GRANT authorises six of twelve bytes, and a RESEND the next four. The probe sends the last
fragment again. -/
def probedRun : List (SenderCall ℕ) :=
  [SenderCore.startTwelve, .grant 9 ⟨.grant, 0, 1, 0, 6, 2⟩ 1, .resend 9 ⟨.resend, 0, 1, 0, 8, 2⟩ 2]

theorem within_credit_probed : ∃ s t : Credited ℕ,
    Run Credited.step (fun s c => ¬ s.Overruns c) (new tinyConfig) probedRun s ∧
    s.step (.tick 3 default) = some t ∧ t.credit (9, 1) = 10 ∧
    (s.core.call (.tick 3 default)).2 = [.send 9
      (dataPacket [1, 2, 3, 4, 5, 6, 7, 8, 9, 10, 11, 12] 1 8 12)] ∧
    ∀ a ∈ (s.core.call (.tick 3 default)).2, t.WithinCredit a := by
  have hexec : ∃ s, exec (guarded Credited.step fun s c => ¬ s.Overruns c) probedRun
      (new tinyConfig) = some s := ⟨_, rfl⟩
  obtain ⟨s, hs⟩ := hexec
  have hprobe : (s.core.call (.tick 3 default)).2 = [.send 9
      (dataPacket [1, 2, 3, 4, 5, 6, 7, 8, 9, 10, 11, 12] 1 8 12)] := by
    obtain rfl := Option.some.inj hs
    rfl
  have hcredit : s.credit (9, 1) = 10 := by
    obtain rfl := Option.some.inj hs
    rfl
  have hrun := run_of_guarded hs
  exact ⟨s, _, hrun, rfl, hcredit, hprobe,
    (within_credit tinyConfig (by decide) hrun).1 (.tick 3 default) _ rfl⟩

/-- A RESEND for seven bytes leaves `next_send` at 7. The GRANT up to 8 sends the bytes from
there to 11. -/
def overrunRun : List (SenderCall ℕ) :=
  [.start 9 1 [1, 2, 3, 4, 5, 6, 7, 8, 9, 10, 11, 12, 13, 14, 15, 16] 0,
    .resend 9 ⟨.resend, 0, 1, 0, 0, 7⟩ 1, .grant 9 ⟨.grant, 0, 1, 0, 8, 1⟩ 2]

/-- The probe starts at offset 8 with a credit of 8. -/
theorem within_credit_fails : ∃ s t : Credited ℕ,
    Run Credited.step anyEvent (new tinyConfig) overrunRun s ∧
    s.step (.tick 3 default) = some t ∧
    ∃ a ∈ (s.core.call (.tick 3 default)).2, ¬ t.WithinCredit a := by
  have hexec : ∃ s, exec Credited.step overrunRun (new tinyConfig) = some s := ⟨_, rfl⟩
  obtain ⟨s, hs⟩ := hexec
  have hcredit : s.credit (9, 1) = 8 := by
    obtain rfl := Option.some.inj hs
    decide
  have hsent : .send 9 (dataPacket [1, 2, 3, 4, 5, 6, 7, 8, 9, 10, 11, 12, 13, 14, 15, 16] 1 8 12) ∈
      (s.core.call (.tick 3 default)).2 := by
    obtain rfl := Option.some.inj hs
    decide +kernel
  refine ⟨s, _, run_of_exec hs, rfl, _, hsent, fun hwithin => ?_⟩
  have hlt : 8 < s.credit (9, 1) := hwithin.lt (by decide)
  omega

end Credited
end AgentTransport
