import AgentTransport.Canonicity
import AgentTransport.Session
import AgentTransport.Windows

/-!
# Repair

A RESEND is answered with the fragments that meet the requested range, whole, each once and
in order. They repair the entry that asked: once they have arrived, in any order and with
whatever else arrives between them, the requested range is in the buffer, or the message
has been delivered.
-/
namespace AgentTransport
open ByteString Fragmentation Transition

variable {Addr : Type} [DecidableEq Addr]

/-- Fragment `i` and the range `[lo, hi)` share a position. -/
def Meets (ps len lo hi i : ℕ) : Prop := max (i * ps) lo < min (fragEnd ps len i) hi

instance (ps len lo hi i : ℕ) : Decidable (Meets ps len lo hi i) :=
  inferInstanceAs (Decidable (_ < _))

/-- The fragments that meet a range, in order. -/
def meeting (ps len lo hi : ℕ) : List ℕ :=
  (List.range (count ps len)).filter fun i => Meets ps len lo hi i

section Ranges

variable {ps len lo hi : ℕ}

theorem meets_iff (hps : 0 < ps) (hhi : hi ≤ len) {i : ℕ} (hi' : i < count ps len) :
    Meets ps len lo hi i ↔ lo < hi ∧ lo / ps ≤ i ∧ i < count ps hi := by
  have hlt := (lt_count_iff hps).mp hi'
  have hdiv : lo / ps ≤ i ↔ lo < i * ps + ps := by
    rw [← Nat.lt_succ_iff, Nat.div_lt_iff_lt_mul hps, Nat.succ_mul]
  rw [hdiv, lt_count_iff hps, Meets, fragEnd]
  omega

/-- The answer to a RESEND, by the fragments that meet the requested range. -/
theorem resendRanges_eq (hps : 0 < ps) (hhi : hi ≤ len) :
    resendRanges ps len hi lo = (meeting ps len lo hi).map (fragRange ps len) := by
  have hcount := count_mono hps hhi
  have hnone : ¬ lo < hi → meeting ps len lo hi = [] := by
    intro h
    refine List.filter_eq_nil_iff.mpr fun i hi' => ?_
    rw [decide_eq_true_eq, meets_iff hps hhi (List.mem_range.mp hi')]
    exact fun hmeets => h hmeets.1
  have hsome : lo < hi → meeting ps len lo hi =
      List.range' (lo / ps) (count ps hi - lo / ps) := by
    intro h
    apply List.Pairwise.eq_of_mem_iff (r := (· < ·))
    · exact List.pairwise_lt_range.filter _
    · exact List.pairwise_lt_range'
    · intro i
      rw [List.mem_range'_1, meeting, List.mem_filter, List.mem_range, decide_eq_true_eq]
      constructor
      · rintro ⟨hi', hmeets⟩
        have hbounds := (meets_iff hps hhi hi').mp hmeets
        omega
      · rintro ⟨hlo, hlt⟩
        have hi' : i < count ps len := by omega
        exact ⟨hi', (meets_iff hps hhi hi').mpr ⟨h, hlo, by omega⟩⟩
  unfold resendRanges
  split_ifs with h
  · rw [hsome h]
  · rw [hnone h]
    rfl

theorem mem_meeting {i : ℕ} : i ∈ meeting ps len lo hi ↔ i < count ps len ∧ Meets ps len lo hi i := by
  rw [meeting, List.mem_filter, List.mem_range, decide_eq_true_eq]

/-- A range that starts behind the message meets nothing, wherever it starts. -/
theorem meeting_clip {off n : ℕ} : meeting ps len (min off len) (min (min off len + n) len) =
    meeting ps len off (min (off + n) len) := by
  refine List.filter_congr fun i _ => decide_eq_decide.mpr ?_
  rcases Nat.le_total off len with hin | hout
  · rw [Nat.min_eq_left hin]
  · rw [Nat.min_eq_right hout]
    simp only [Meets]
    omega

end Ranges

namespace OutMsg

/-- The body of the loop of `handle_resend`. -/
def resendBody (packetSize : ℕ) (dest : Addr) (msgId : UInt64) (m : OutMsg) (off : ℕ) :
    ℕ × List (Action Addr) :=
  let range := m.chunkRange off packetSize
  (max range.2 (range.1 + 1), [.send dest (dataPacket m.data msgId range.1 range.2)])

omit [DecidableEq Addr] in
/-- The loop of `handle_resend` ends, with any fuel that covers the range. -/
theorem resendLoop_while {ps : ℕ} (hps : 0 < ps) (dest : Addr) (msgId : UInt64) (m : OutMsg)
    {fin : ℕ} (hfin : fin ≤ m.data.length) (fuel off : ℕ) (hf : fin ≤ off + fuel) :
    ∃ stop, Loop.While (· < fin) (m.resendBody ps dest msgId) off stop
      (resendLoop ps dest msgId m fin fuel off) := by
  induction fuel generalizing off with
  | zero => exact ⟨off, .exit (Nat.not_lt.mpr hf)⟩
  | succ fuel ih =>
    unfold resendLoop
    split_ifs with h
    · -- a pass goes beyond `off`, to the end of its fragment
      have hover := Nat.lt_div_mul_add (a := off) hps
      have hnext : off < (m.resendBody ps dest msgId off).1 := by
        simp only [resendBody, chunkRange]
        omega
      obtain ⟨stop, hrest⟩ := ih (m.resendBody ps dest msgId off).1 (by omega)
      exact ⟨stop, .pass h hrest⟩
    · exact ⟨off, .exit h⟩

end OutMsg

namespace SenderCore

/-- How the sender has to answer a RESEND for a message that it holds. -/
structure AnswersResend (s : SenderCore Addr) (src : Addr) (pkt : Packet) (now : ℕ) (m : OutMsg) :
    Prop where
  /-- The loop ends, and pushes the packets that are sent. -/
  ends : ∀ acts, (∃ stop, Loop.While (· < m.resendEnd pkt)
      (m.resendBody s.cfg.packetSize src pkt.msgId) (min pkt.offset.toNat m.data.length) stop acts) ↔
    acts = (s.handleResend src pkt now).2
  /-- The fragments that meet the requested range, each once and in order. -/
  acts : (s.handleResend src pkt now).2 = sendRanges src pkt.msgId m.data
    ((meeting s.cfg.packetSize m.data.length pkt.offset.toNat
      (min (pkt.offset.toNat + pkt.length.toNat) m.data.length)).map
        (fragRange s.cfg.packetSize m.data.length))
  /-- Each of them is sent as a canonical packet. -/
  canonical : ∀ a ∈ (s.handleResend src pkt now).2, ∃ p q, a = .send src (p.encode q) ∧
    Packet.decode (p.encode q) = .ok (p, q) ∧
    CanonicalPacket s.cfg.packetSize m.data pkt.msgId p q

/-- A RESEND for a message that the sender holds leads to the fragments that meet the range. -/
theorem handleResend_acts {s : SenderCore Addr} {src : Addr} {pkt : Packet} {m : OutMsg}
    (hm : s.out.lookup (src, pkt.msgId) = some m) (now : ℕ) :
    (s.handleResend src pkt now).2 = sendRanges src pkt.msgId m.data
      ((meeting s.cfg.packetSize m.data.length pkt.offset.toNat
        (min (pkt.offset.toNat + pkt.length.toNat) m.data.length)).map
          (fragRange s.cfg.packetSize m.data.length)) := by
  rw [handleResend, update_outputs, hm, Option.map_some, Option.getD_some,
    OutMsg.handleResend_acts, resendRanges_eq s.cfg.packetSize_pos (Nat.min_le_right _ _),
    meeting_clip]

theorem answersResend {s : SenderCore Addr} {src : Addr} {pkt : Packet} {m : OutMsg}
    (hm : s.out.lookup (src, pkt.msgId) = some m) (hlen : m.data.length < 2 ^ 32) (now : ℕ) :
    s.AnswersResend src pkt now m := by
  have hps := s.cfg.packetSize_pos
  have hloop : (s.handleResend src pkt now).2 = (m.handleResend s.cfg src pkt now).2 := by
    rw [handleResend, update_outputs, hm]
    rfl
  have hranges := handleResend_acts hm now
  constructor
  · intro acts
    obtain ⟨stop, hwhile⟩ := OutMsg.resendLoop_while hps src pkt.msgId m
      (Nat.min_le_right (min pkt.offset.toNat m.data.length + pkt.length.toNat) m.data.length)
      (m.resendEnd pkt) (min pkt.offset.toNat m.data.length) (Nat.le_add_left _ _)
    constructor
    · rintro ⟨stop', hwhile'⟩
      rw [hloop]
      exact (hwhile'.unique hwhile).2
    · rintro rfl
      rw [hloop]
      exact ⟨stop, hwhile⟩
  · exact hranges
  · intro a ha
    rw [hranges] at ha
    obtain ⟨r, hr, rfl⟩ := List.mem_map.mp ha
    obtain ⟨i, hi, rfl⟩ := List.mem_map.mp hr
    exact ⟨_, _, rfl, decode_dataPacket hlen pkt.msgId _ _,
      canonicalPacket_fragment hps hlen (mem_meeting.mp hi).1⟩

variable {s : SenderCore Addr} {src : Addr} {pkt : Packet} {m : OutMsg} {now : ℕ}

/-- What the answer to a RESEND decodes to. -/
theorem AnswersResend.mem_packetsFor (h : s.AnswersResend src pkt now m)
    (hlen : m.data.length < 2 ^ 32) {x : Packet × List UInt8} :
    x ∈ packetsFor .data src pkt.msgId (s.handleResend src pkt now).2 ↔
      ∃ i ∈ meeting s.cfg.packetSize m.data.length pkt.offset.toNat
        (min (pkt.offset.toNat + pkt.length.toNat) m.data.length),
      x = framed s.cfg.packetSize m.data pkt.msgId i := by
  rw [h.acts, packetsFor_sendRanges hlen]
  constructor
  · rintro ⟨r, hr, rfl⟩
    obtain ⟨i, hi, rfl⟩ := List.mem_map.mp hr
    exact ⟨i, hi, rfl⟩
  · rintro ⟨i, hi, rfl⟩
    exact ⟨_, List.mem_map.mpr ⟨i, hi, rfl⟩, rfl⟩

end SenderCore

namespace ReceiverCore

/-- The receiver takes fragments of `data` for `key`, and whatever it can for other keys. -/
structure Receives (cfg : TransportConfig) (key : MsgKey Addr) (data : List UInt8)
    (r : ReceiverCore Addr) : Prop where
  cfg : r.cfg = cfg
  counters : r.CountersFit
  apart : r.CompletedApart
  windows : r.WindowsFit
  rebuilds : r.RebuildsAt key data

/-- A packet for `key` is a fragment of `data`. What comes for other keys is free. -/
def FragmentsOf (key : MsgKey Addr) (data : List UInt8) (r : ReceiverCore Addr) :
    ReceiverCall Addr → Prop
  | .handleData src pkt payload _ _ =>
    (src, pkt.msgId) = key → IsFragment r.cfg.packetSize data pkt payload
  | .tick _ _ => True

variable {cfg : TransportConfig} {key : MsgKey Addr} {data : List UInt8} {r r' : ReceiverCore Addr}
  {c : ReceiverCall Addr} {acts : List (Action Addr)}

theorem Receives.new (cfg : TransportConfig) (key : MsgKey Addr) (data : List UInt8) :
    Receives cfg key data (ReceiverCore.new cfg : ReceiverCore Addr) where
  cfg := rfl
  counters := CountersFit.new cfg
  apart := CompletedApart.new cfg
  windows k m hm := by simp [ReceiverCore.new] at hm
  rebuilds m hm := by simp [ReceiverCore.new] at hm

theorem Receives.call (h : Receives cfg key data r) (hc : r.FragmentsOf key data c)
    (hcall : r.call c = some (r', acts)) : Receives cfg key data r' := by
  have hcounters := h.counters.call hcall
  cases c with
  | handleData src pkt payload now order =>
    have hd := handleData_spec hcall
    exact ⟨hd.cfg_eq.trans h.cfg, hcounters, h.apart.dataStep hd, h.windows.dataStep hd,
      h.rebuilds.dataStep hc hd⟩
  | tick now order =>
    exact ⟨(tick_cfg hcall).trans h.cfg, hcounters, h.apart.tick hcall, h.windows.tick hcall,
      h.rebuilds.tick hcall⟩

/-- A fragment for an entry that is there is marked in it, or completes it. -/
theorem Receives.takes (h : Receives cfg key data r) {src : Addr} {pkt : Packet}
    {payload : List UInt8} {now : ℕ} (hkey : (src, pkt.msgId) = key)
    (hf : IsFragment r.cfg.packetSize data pkt payload) {m : InMsg}
    (hm : r.incoming.lookup key = some m) (hd : DataStep r src pkt payload now r' acts) :
    (key, data) ∈ deliveries acts ∨ ∃ m', r'.incoming.lookup key = some m' ∧
      ∀ j, m.received[j]? = some true ∨ j = pkt.offset.toNat / r.cfg.packetSize →
        m'.received[j]? = some true := by
  subst hkey
  have hin : (src, pkt.msgId) ∈ r.incoming := KeyMap.mem_iff_lookup.mpr ⟨m, hm⟩
  have hentry : r.entryFor src pkt now = m := by
    rw [entryFor, hm, Option.getD_some]
  have hroom : r.refuses (src, pkt.msgId) = false := by simp [refuses, hin]
  obtain ⟨m₁, _, hbits, _, ⟨_, hs⟩ | ⟨_, acts', rfl, _⟩⟩ :=
    h.rebuilds.takes hf (fun hdup => h.apart _ hdup hin) hroom hd
  · right
    have hmem : (src, pkt.msgId) ∈ r'.incoming := by
      rw [hs.mem_iff, enter, AList.mem_insert]
      exact Or.inl rfl
    obtain ⟨m', hm'⟩ := KeyMap.mem_iff_lookup.mp hmem
    obtain ⟨m₂, hm₂, hc⟩ := hs.content hm'
    rw [enter, AList.lookup_insert] at hm₂
    obtain rfl := Option.some.inj hm₂
    rw [hentry] at hbits
    refine ⟨m', hm', fun j hj => ?_⟩
    rw [hc.received]
    exact (hbits j).mpr hj
  · left
    rw [deliveries_deliver]
    exact List.mem_cons_self

end ReceiverCore

namespace Session

/-- The calls of a run in which packets of `key` are fragments of `data`. -/
def FragmentsOf (key : MsgKey Addr) (data : List UInt8) (s : Session Addr) (c : ReceiverCall Addr) :
    Prop :=
  s.core.FragmentsOf key data c

/-- Such calls, but for ticks that give the message up. -/
def Undisturbed (key : MsgKey Addr) (data : List UInt8) (s : Session Addr) (c : ReceiverCall Addr) :
    Prop :=
  s.FragmentsOf key data c ∧ (c.packet = none → key ∈ s.core.incoming →
    ∀ r' acts, s.core.call c = some (r', acts) → key ∈ r'.incoming)

/-- What the calls brought for `key` is in its entry, or was handed over. -/
def Holding (key : MsgKey Addr) (data : List UInt8) (calls : List (ReceiverCall Addr))
    (s : Session Addr) : Prop :=
  (key, data) ∈ deliveries s.outputs ∨ ∃ m, s.core.incoming.lookup key = some m ∧
    ∀ c ∈ calls, ∀ i, c.fragment s.core.cfg.packetSize = some (key, i) → m.received[i]? = some true

variable {cfg : TransportConfig} {key : MsgKey Addr} {data : List UInt8} {s s' : Session Addr}
  {c : ReceiverCall Addr} {calls : List (ReceiverCall Addr)}

theorem holding_step (hr : ReceiverCore.Receives cfg key data s.core)
    (h : s.Holding key data calls) (hc : s.Undisturbed key data c) (hs : s.step c = some s') :
    s'.Holding key data (calls ++ [c]) := by
  obtain ⟨⟨r', acts⟩, hcall, rfl⟩ := Option.map_eq_some_iff.mp hs
  unfold Holding
  dsimp only
  rw [deliveries_append, List.mem_append]
  rcases h with hdone | ⟨m, hm, hmarked⟩
  · exact Or.inl (Or.inl hdone)
  have hin : key ∈ s.core.incoming := KeyMap.mem_iff_lookup.mpr ⟨m, hm⟩
  have hcfg : r'.cfg = s.core.cfg := (hr.call hc.1 hcall).cfg.trans hr.cfg.symm
  rw [hcfg]
  -- an entry that keeps its content holds what it held
  have hkeep : ∀ m', r'.incoming.lookup key = some m' → InMsg.SameContent m m' →
      (∀ i, c.fragment s.core.cfg.packetSize ≠ some (key, i)) →
      ∃ m', r'.incoming.lookup key = some m' ∧ ∀ c' ∈ calls ++ [c], ∀ i,
        c'.fragment s.core.cfg.packetSize = some (key, i) → m'.received[i]? = some true := by
    intro m' hm' hsame hother
    refine ⟨m', hm', fun c' hc' i hi => ?_⟩
    rw [hsame.received]
    rcases List.mem_append.mp hc' with hc' | hc'
    · exact hmarked c' hc' i hi
    · rw [List.mem_singleton.mp hc'] at hi
      exact absurd hi (hother i)
  cases c with
  | tick now order =>
    right
    obtain ⟨m', hm'⟩ := KeyMap.mem_iff_lookup.mp (hc.2 rfl hin r' acts hcall)
    obtain ⟨m₁, hm₁, hsame⟩ := ReceiverCore.tick_content hcall hm'
    obtain rfl := Option.some.inj (hm.symm.trans hm₁)
    exact hkeep m' hm' hsame fun i hi => by cases hi
  | handleData src pkt payload now order =>
    have hd := ReceiverCore.handleData_spec hcall
    by_cases hkey : (src, pkt.msgId) = key
    · rcases hr.takes hkey (hc.1 hkey) hm hd with hdel | ⟨m', hm', hbits⟩
      · exact Or.inl (Or.inr hdel)
      · refine Or.inr ⟨m', hm', fun c' hc' i hi => hbits i ?_⟩
        rcases List.mem_append.mp hc' with hc' | hc'
        · exact Or.inl (hmarked c' hc' i hi)
        · rw [List.mem_singleton.mp hc'] at hi
          exact Or.inr (Prod.mk.inj (Option.some.inj hi)).2.symm
    · right
      obtain ⟨m', hm'⟩ := KeyMap.mem_iff_lookup.mp ((hd.mem_iff (Ne.symm hkey)).mpr hin)
      obtain ⟨m₁, hsame, ⟨hm₁, _⟩ | ⟨hk, _⟩⟩ := hd.content hm'
      · obtain rfl := Option.some.inj (hm.symm.trans hm₁)
        exact hkeep m' hm' hsame fun i hi => hkey (Prod.mk.inj (Option.some.inj hi)).1
      · exact absurd hk.symm hkey

theorem receives_of_run (hr : ReceiverCore.Receives cfg key data s.core)
    (h : Run Session.step (FragmentsOf key data) s calls s') :
    ReceiverCore.Receives cfg key data s'.core := by
  refine h.invariant (P := fun s => ReceiverCore.Receives cfg key data s.core)
    (fun s c t hP hok hst => ?_) hr
  obtain ⟨⟨r', acts⟩, hcall, rfl⟩ := Option.map_eq_some_iff.mp hst
  exact hP.call hok hcall

/-- What came for an entry that was there at the start is in it, or was handed over. -/
theorem holding_of_run (hr : ReceiverCore.Receives cfg key data s.core)
    (hin : key ∈ s.core.incoming) (h : Run Session.step (Undisturbed key data) s calls s') :
    s'.Holding key data calls := by
  induction h with
  | nil =>
    obtain ⟨m, hm⟩ := KeyMap.mem_iff_lookup.mp hin
    exact Or.inr ⟨m, hm, fun c hc => by cases hc⟩
  | snoc hrun hok hstep ih =>
    exact holding_step (receives_of_run hr (hrun.weaken fun _ _ h => h.1)) ih hok hstep

/-- The receiver after a tick that asked for `pkt`, and the packets `answers` it will get. Some
fragment that it asked for is missing, and it can take the answers in any order. Once all of
them have come, alone or among other packets, it holds what it asked for. -/
structure Repaired (cfg : TransportConfig) (key : MsgKey Addr) (data : List UInt8) (pkt : Packet)
    (answers : Set (Packet × List UInt8)) (s : Session Addr) : Prop where
  missing : 1 ≤ cfg.grantIncrement → ∃ m, s.core.incoming.lookup key = some m ∧
    ∃ i ∈ meeting cfg.packetSize data.length pkt.offset.toNat
      (min (pkt.offset.toNat + pkt.length.toNat) data.length), m.received[i]? = some false
  taken : ∀ calls, (∀ c ∈ calls, ∃ x ∈ answers, c.packet = some (key.1, x)) →
    ∃ s', Run Session.step (Undisturbed key data) s calls s'
  repaired : ∀ calls s', Run Session.step (Undisturbed key data) s calls s' →
    (∀ x ∈ answers, ∃ c ∈ calls, c.packet = some (key.1, x)) →
    (key, data) ∈ deliveries s'.outputs ∨ ∃ m, s'.core.incoming.lookup key = some m ∧
      ∀ i ∈ meeting cfg.packetSize data.length pkt.offset.toNat
          (min (pkt.offset.toNat + pkt.length.toNat) data.length),
        m.received[i]? = some true ∧
        ∀ x, i * cfg.packetSize ≤ x → x < fragEnd cfg.packetSize data.length i →
          m.buf[x]? = data[x]?

/-- The session that goes on with receiver `r`. -/
def goOn (r : ReceiverCore Addr) : Session Addr := ⟨r, [], fun _ => []⟩

/-- Fragments for an entry that is there can be taken in any order. -/
theorem exists_run_of_fragments (hr : ReceiverCore.Receives cfg key data s.core)
    (hc : ∀ c ∈ calls, ∃ src pkt payload now order,
      c = .handleData src pkt payload now order ∧ IsFragment cfg.packetSize data pkt payload ∧
        (src, pkt.msgId) = key) :
    ∃ s', Run Session.step (Undisturbed key data) s calls s' := by
  suffices hstep : ∀ s : Session Addr, ReceiverCore.Receives cfg key data s.core → ∀ c ∈ calls,
      s.Undisturbed key data c ∧ ∃ s', s.step c = some s' ∧
        ReceiverCore.Receives cfg key data s'.core by
    obtain ⟨s', hrun, _⟩ := exists_run hstep hr
    exact ⟨s', hrun⟩
  intro s hs c hmem
  obtain ⟨src, pkt, payload, now, order, rfl, hf, hkey⟩ := hc c hmem
  rw [← hs.cfg] at hf
  have hok : s.Undisturbed key data (.handleData src pkt payload now order) :=
    ⟨fun _ => hf, fun htick => by cases htick⟩
  have hsafe : s.core.SafeData src pkt payload now := by
    subst hkey
    exact ReceiverCore.safeData_of_rebuilds (hs.rebuilds.entryFor hf now).1 hf
  obtain ⟨⟨r', acts⟩, hcall⟩ := Option.isSome_iff_exists.mp
    ((ReceiverCore.handleData_isSome hs.counters src pkt payload now order).mpr hsafe)
  refine ⟨hok, ⟨r', s.outputs ++ acts, s.record (.handleData src pkt payload now order) r'⟩, ?_,
    hs.call hok.1 hcall⟩
  rw [step, ReceiverCore.call, hcall]
  rfl

theorem repaired_of_tick {r : ReceiverCore Addr} {acts : List (Action Addr)} {now : ℕ}
    {order : TickOrder Addr} (hr : ReceiverCore.Receives cfg key data s.core)
    (ht : s.core.tick now order = some (r, acts)) (hin : key ∈ r.incoming) {pkt : Packet}
    {q : List UInt8} (hpkt : (pkt, q) ∈ packetsFor .resend key.1 key.2 acts)
    {answers : Set (Packet × List UInt8)} (hlen : data.length < 2 ^ 32)
    (hanswers : ∀ x, x ∈ answers ↔ ∃ i ∈ meeting cfg.packetSize data.length pkt.offset.toNat
      (min (pkt.offset.toNat + pkt.length.toNat) data.length),
      x = framed cfg.packetSize data key.2 i) :
    Repaired cfg key data pkt answers (goOn r) := by
  have hps := cfg.packetSize_pos
  have hr' : ReceiverCore.Receives cfg key data r := hr.call (c := .tick now order) trivial ht
  have hfrag : ∀ x ∈ answers, IsFragment cfg.packetSize data x.1 x.2 ∧ x.1.msgId = key.2 := by
    intro x hx
    obtain ⟨i, hi, rfl⟩ := (hanswers x).mp hx
    obtain ⟨pkt, payload, hframed, hid, hf, _⟩ := framed_spec hps hlen key.2 (mem_meeting.mp hi).1
    rw [hframed]
    exact ⟨hf, hid⟩
  constructor
  · intro hinc
    have hask : pkt ∈ {pkt | ∃ q, (pkt, q) ∈ packetsFor .resend key.1 key.2 acts} := ⟨q, hpkt⟩
    rw [ReceiverCore.tick_resends ht] at hask
    obtain ⟨m, off, hm, _, hoff, rfl⟩ := hask
    obtain ⟨i, _, rfl, hgranted, hbit, _⟩ := InMsg.missingInWindow_spec hoff
    obtain ⟨m', hm'⟩ := KeyMap.mem_iff_lookup.mp hin
    obtain ⟨m₁, hm₁, hsame⟩ := ReceiverCore.tick_content ht hm'
    obtain rfl := Option.some.inj (hm.symm.trans hm₁)
    have hr₀ := (hr.rebuilds m hm).1
    rw [hr.cfg] at hr₀ hgranted ⊢
    have hwindow := hr.windows key m hm
    rw [hr₀.totalLen] at hwindow
    have hstart : (m.resendPacket cfg key (i * cfg.packetSize)).offset.toNat =
        i * cfg.packetSize := toNat_ofNat_u32 (by omega)
    have hspan : (m.resendPacket cfg key (i * cfg.packetSize)).length.toNat =
        min (m.grantedTo - i * cfg.packetSize) cfg.grantIncrement := toNat_ofNat_u32 (by omega)
    refine ⟨m', hm', i, mem_meeting.mpr ⟨(lt_count_iff hps).mpr (by omega), ?_⟩, ?_⟩
    · rw [Meets, hstart, hspan, fragEnd]
      omega
    · rw [hsame.received]
      exact hbit
  · intro calls hcalls
    refine exists_run_of_fragments hr' fun c hc => ?_
    obtain ⟨x, hx, hpacket⟩ := hcalls c hc
    obtain ⟨now', order', rfl⟩ := ReceiverCall.eq_handleData hpacket
    obtain ⟨hf, hid⟩ := hfrag x hx
    exact ⟨_, _, _, _, _, rfl, hf, Prod.ext rfl hid⟩
  · intro calls s' hrun hall
    have hs' := receives_of_run hr' (hrun.weaken fun _ _ h => h.1)
    rcases holding_of_run hr' hin hrun with hdel | ⟨m, hm, hmarked⟩
    · exact Or.inl hdel
    refine Or.inr ⟨m, hm, fun i hi => ?_⟩
    have hbit : m.received[i]? = some true := by
      obtain ⟨c, hc, hpacket⟩ := hall _ ((hanswers _).mpr ⟨i, hi, rfl⟩)
      refine hmarked c hc i ?_
      obtain ⟨pkt, payload, hframed, hid, _, hidx⟩ :=
        framed_spec hps hlen key.2 (mem_meeting.mp hi).1
      rw [ReceiverCall.fragment, hpacket, hs'.cfg, Option.map_some, hframed, hid, hidx]
    refine ⟨hbit, fun x hlo hhi => ?_⟩
    have hr₁ := (hs'.rebuilds m hm).1
    rw [hs'.cfg] at hr₁
    refine hr₁.assembled.agrees x ?_
    rw [div_eq_of_mem hps hlo (Nat.lt_of_lt_of_le hhi (Nat.min_le_left _ _))]
    exact hbit

/-- A RESEND repairs the whole range that it names. Every sender that holds the message answers
it with the fragments that meet the range, and a receiver that asked for the range while it
rebuilt the message has it once they have come. -/
theorem resend_repairs (cfg : TransportConfig) (key : MsgKey Addr) (data : List UInt8)
    (hlen : data.length < 2 ^ 32) :
    (∀ (s : SenderCore Addr) src (pkt : Packet) m now, s.out.lookup (src, pkt.msgId) = some m →
      m.data = data → s.AnswersResend src pkt now m) ∧
    ∀ before s, Run Session.step (FragmentsOf key data) (Session.new cfg) before s →
      ∀ now order r acts, s.core.tick now order = some (r, acts) → key ∈ r.incoming →
      ∀ pkt q, (pkt, q) ∈ packetsFor .resend key.1 key.2 acts →
      ∀ (c : SenderCore Addr) rcv o later, c.cfg = cfg → c.out.lookup (rcv, key.2) = some o →
        o.data = data → Repaired cfg key data pkt
          (packetsFor .data rcv key.2 (c.handleResend rcv pkt later).2) (goOn r) := by
  constructor
  · rintro s src pkt m now hm rfl
    exact SenderCore.answersResend hm hlen now
  · rintro before s hrun now order r acts ht hin pkt q hpkt c rcv o later hcfg ho rfl
    have hr : ReceiverCore.Receives cfg key o.data s.core :=
      receives_of_run (ReceiverCore.Receives.new cfg key o.data) hrun
    refine repaired_of_tick hr ht hin hpkt hlen fun x => ?_
    have hid : pkt.msgId = key.2 := by
      obtain ⟨_, _, _, _, hid⟩ := hpkt
      exact hid
    rw [← hid] at ho ⊢
    rw [(SenderCore.answersResend ho hlen later).mem_packetsFor hlen, hcfg]

/-- Two fragments of four bytes. -/
def eightBytes : List UInt8 := [1, 2, 3, 4, 5, 6, 7, 8]

def firstOfEight : ReceiverCall ℕ := .handleData 0 ⟨.data, 0, 1, 8, 0, 4⟩ [1, 2, 3, 4] 0 default

/-- The second fragment is asked for and repaired. -/
theorem resend_repairs_eight : ∃ s : Session ℕ, ∃ r acts,
    exec Session.step [firstOfEight] (Session.new tinyConfig) = some s ∧
    s.core.tick 1 default = some (r, acts) ∧
    Repaired tinyConfig (0, 1) eightBytes ⟨.resend, 0, 1, 0, 4, 2⟩
      (packetsFor .data 9 1 ((((SenderCore.new tinyConfig).start 9 1 eightBytes 0).1).handleResend 9
        ⟨.resend, 0, 1, 0, 4, 2⟩ 2).2) (goOn r) := by
  have hout : (exec Session.step [firstOfEight] (Session.new tinyConfig)).bind
      (fun s => (s.core.tick 1 default).map fun next => (next.1.incoming.keys, next.2)) =
        some ([(0, 1)], [.send 0 (Packet.encode ⟨.resend, 0, 1, 0, 4, 2⟩ [])]) := rfl
  obtain ⟨s, hs, hnext⟩ := Option.bind_eq_some_iff.mp hout
  obtain ⟨⟨r, acts⟩, ht, heq⟩ := Option.map_eq_some_iff.mp hnext
  obtain ⟨hkeys, hacts⟩ := Prod.mk.inj heq
  dsimp only at hkeys hacts
  have hrun : Run Session.step (FragmentsOf (0, 1) eightBytes) (Session.new tinyConfig)
      [firstOfEight] s :=
    run_of_admitted hs ⟨fun _ => ⟨rfl, by decide, by decide, rfl⟩, fun _ _ => trivial⟩
  have hin : (0, 1) ∈ r.incoming := by
    rw [AList.mem_keys, hkeys]
    exact List.mem_singleton.mpr rfl
  have hpkt : ((⟨.resend, 0, 1, 0, 4, 2⟩ : Packet), []) ∈ packetsFor .resend 0 1 acts := by
    rw [hacts]
    exact ⟨_, List.mem_singleton.mpr rfl, by decide, rfl, rfl⟩
  exact ⟨s, r, acts, hs, ht, (resend_repairs tinyConfig (0, 1) eightBytes (by decide)).2
    [firstOfEight] s hrun 1 default r acts ht hin _ _ hpkt _ 9 _ 2 rfl rfl rfl⟩

end Session
end AgentTransport
