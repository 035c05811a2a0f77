import AgentTransport.SenderRun

/-!
# Refused messages

The answer of the sender to a BUSY is to wait: the stall clock starts again, and the first
tick after it has run out sends a fragment again. That is so as long as something of the
message was still to be sent. A message that was sent out in full is not probed, so a refused
one is not offered again before it is forgotten.
-/
namespace AgentTransport
open Fragmentation

variable {Addr : Type} [DecidableEq Addr]

/-- The call is no packet for the message and no new start of it, and no tick from `limit`
on. -/
def SenderCall.Leaves (key : MsgKey Addr) (limit : ℕ) : SenderCall Addr → Prop
  | .start dest msgId _ _ => (dest, msgId) ≠ key
  | .grant src pkt _ => (src, pkt.msgId) ≠ key
  | .resend src pkt _ => (src, pkt.msgId) ≠ key
  | .busy src pkt _ => (src, pkt.msgId) ≠ key
  | .tick now _ => now < limit
  | .finish _ _ => True

namespace SenderCore

/-- The sender after some calls. -/
def after (s : SenderCore Addr) (calls : List (SenderCall Addr)) : SenderCore Addr :=
  (Loop.forEach call calls s).1

theorem after_append (s : SenderCore Addr) (calls later : List (SenderCall Addr)) :
    s.after (calls ++ later) = (s.after calls).after later := by
  induction calls generalizing s with
  | nil => rfl
  | cons c calls ih => exact ih (s.call c).1

/-- What every call of a run keeps holds after the run. -/
theorem after_invariant {P : SenderCore Addr → Prop} {calls : List (SenderCall Addr)}
    {s : SenderCore Addr} (hstep : ∀ s, ∀ c ∈ calls, P s → P (s.call c).1) (hs : P s) :
    P (s.after calls) := by
  induction calls generalizing s with
  | nil => exact hs
  | cons c calls ih =>
    exact ih (fun s c' hc' => hstep s c' (List.mem_cons_of_mem c hc'))
      (hstep s c List.mem_cons_self hs)

/-- Whatever happens without news of the message, the first tick from `limit` on that finds
the message in its linger period sends a DATA packet of it. -/
def OffersAgain (s : SenderCore Addr) (key : MsgKey Addr) (limit : ℕ) : Prop :=
  ∀ calls, (∀ c ∈ calls, c.Leaves key limit) → ∀ later order m, limit ≤ later →
    (s.after calls).out.lookup key = some m → m.lingers s.cfg later →
      ∃ p q, .send key.1 (Packet.encode p q) ∈ ((s.after calls).tick later order).2 ∧
        p.typ = .data ∧ p.msgId = key.2

/-- The state of a message since a BUSY at time `t`. -/
structure Refused (cfg : TransportConfig) (key : MsgKey Addr) (t : ℕ) (done : Option ℕ)
    (s : SenderCore Addr) : Prop where
  cfg_eq : s.cfg = cfg
  done : ∀ m, s.out.lookup key = some m → m.doneAt = done
  clock : ∀ m, s.out.lookup key = some m →
    m.lastProgress ≤ t ∧ (0 < cfg.pokeTimeout → m.lastProgress = t)

variable {cfg : TransportConfig} {key : MsgKey Addr} {s : SenderCore Addr} {c : SenderCall Addr}
  {limit t : ℕ} {done : Option ℕ}

/-- What is left alone keeps its entry, but for the probes of ticks. -/
theorem entry_leaves {m' : OutMsg} (hc : c.Leaves key limit)
    (h : (s.call c).1.out.lookup key = some m') :
    ∃ m, s.out.lookup key = some m ∧ (m' = m ∨
      ∃ now < limit, m.stalled s.cfg now ∧ m' = { m with lastProgress := now }) := by
  cases c with
  | start dest msgId data now =>
    rw [call, lookup_start, if_neg (Ne.symm hc)] at h
    exact ⟨m', h, Or.inl rfl⟩
  | grant src pkt now =>
    rw [call, handleGrant, lookup_update, if_neg (Ne.symm hc)] at h
    exact ⟨m', h, Or.inl rfl⟩
  | resend src pkt now =>
    rw [call, handleResend, lookup_update, if_neg (Ne.symm hc)] at h
    exact ⟨m', h, Or.inl rfl⟩
  | busy src pkt now =>
    rw [call, handleBusy, lookup_update, if_neg (Ne.symm hc)] at h
    exact ⟨m', h, Or.inl rfl⟩
  | tick now order =>
    rw [call, lookup_tick] at h
    obtain ⟨m, hm, rfl⟩ := Option.map_eq_some_iff.mp h
    refine ⟨m, (Option.filter_eq_some_iff.mp hm).1, ?_⟩
    unfold OutMsg.tickEntry
    split_ifs with hstalled
    · exact Or.inr ⟨now, hc, hstalled, rfl⟩
    · exact Or.inl rfl
  | finish dest msgId =>
    simp only [call, finish, KeyMap.lookup_erase_eq] at h
    split_ifs at h
    exact ⟨m', h, Or.inl rfl⟩

theorem Refused.call (h : Refused cfg key t done s) (hc : c.Leaves key (t + cfg.pokeTimeout)) :
    Refused cfg key t done (s.call c).1 := by
  constructor
  · rw [call_cfg, h.cfg_eq]
  · intro m' hm'
    obtain ⟨m, hm, rfl | ⟨now, _, _, rfl⟩⟩ := entry_leaves hc hm'
    · exact h.done _ hm
    · exact h.done m hm
  · intro m' hm'
    obtain ⟨m, hm, rfl | ⟨now, hnow, hstalled, rfl⟩⟩ := entry_leaves hc hm'
    · exact h.clock _ hm
    · obtain ⟨hle, heq⟩ := h.clock m hm
      rw [h.cfg_eq] at hstalled
      have hlate : cfg.pokeTimeout ≤ now - m.lastProgress := by
        simpa [OutMsg.stalled, OutMsg.doneAt_of_stalled hstalled] using hstalled
      -- with a timeout no tick finds the message stalled before it has run out
      have hzero : cfg.pokeTimeout = 0 := by
        by_contra hne
        have heq := heq (Nat.pos_of_ne_zero hne)
        omega
      exact ⟨by dsimp only; omega, fun hpos => absurd hzero hpos.ne'⟩

theorem Refused.after {calls : List (SenderCall Addr)} (h : Refused cfg key t done s)
    (hcalls : ∀ c ∈ calls, c.Leaves key (t + cfg.pokeTimeout)) :
    Refused cfg key t done (s.after calls) :=
  after_invariant (fun _ c hc hs => hs.call (hcalls c hc)) h

/-- A tick sends a DATA packet of a message exactly if it finds the message stalled. -/
theorem exists_probe_iff {now : ℕ} {order : MapOrder (MsgKey Addr)} :
    (∃ p q, .send key.1 (Packet.encode p q) ∈ (s.tick now order).2 ∧ p.typ = .data ∧
      p.msgId = key.2) ↔ ∃ m, s.out.lookup key = some m ∧ m.stalled s.cfg now := by
  constructor
  · rintro ⟨p, q, hmem, _, hid⟩
    obtain ⟨k, m, hm, _, ha⟩ := (s.mem_tick_acts now order).mp hmem
    obtain ⟨r, hr, heq⟩ := List.mem_map.mp ha
    obtain ⟨hdest, hbytes⟩ := Action.send.inj heq
    rw [dataPacket_eq] at hbytes
    obtain ⟨rfl, _⟩ := Prod.mk.inj (Packet.encode_injective hbytes)
    obtain rfl : k = key := Prod.ext hdest hid
    refine ⟨m, hm, ?_⟩
    unfold OutMsg.tickEntry at hr
    split_ifs at hr with hstalled
    · exact hstalled
    · cases hr
  · rintro ⟨m, hm, hstalled⟩
    have hmem : .send key.1 (dataPacket m.data key.2
        (fragRange s.cfg.packetSize m.data.length ((m.nextSend - 1) / s.cfg.packetSize)).1
        (fragRange s.cfg.packetSize m.data.length ((m.nextSend - 1) / s.cfg.packetSize)).2) ∈
          (s.tick now order).2 := by
      refine (s.mem_tick_acts now order).mpr
        ⟨key, m, hm, OutMsg.lingers_of_stalled hstalled, ?_⟩
      rw [OutMsg.tickEntry, if_pos hstalled]
      exact List.mem_singleton.mpr rfl
    rw [dataPacket_eq] at hmem
    exact ⟨_, _, hmem, rfl, rfl⟩

/-- A refused message is offered again exactly if something of it was still to be sent when
the refusal came, or if its linger period ends before it is time. -/
theorem offersAgain_iff (s : SenderCore Addr) (src : Addr) (pkt : Packet) (t : ℕ) (m : OutMsg)
    (hm : s.out.lookup (src, pkt.msgId) = some m) :
    (s.handleBusy src pkt t).OffersAgain (src, pkt.msgId) (t + s.cfg.pokeTimeout) ↔
      ∀ d, m.doneAt = some d → s.cfg.linger ≤ t + s.cfg.pokeTimeout - d := by
  have hbusy : (s.handleBusy src pkt t).out.lookup (src, pkt.msgId) = some (m.handleBusy t) := by
    rw [handleBusy, lookup_update, if_pos rfl, hm]
    rfl
  have hcfg : (s.handleBusy src pkt t).cfg = s.cfg := update_cfg _ _ _
  constructor
  · intro hoffers d hd
    by_contra hshort
    have hlingers : (m.handleBusy t).lingers s.cfg (t + s.cfg.pokeTimeout) := by
      simp [OutMsg.lingers, OutMsg.handleBusy, hd]
      omega
    obtain ⟨m', hm', hstalled⟩ := exists_probe_iff.mp (hoffers [] (fun c hc => by cases hc)
      (t + s.cfg.pokeTimeout) default _ le_rfl hbusy (by rwa [hcfg]))
    obtain rfl := Option.some.inj (hbusy.symm.trans hm')
    have hopen := OutMsg.doneAt_of_stalled hstalled
    rw [OutMsg.handleBusy, hd] at hopen
    cases hopen
  · intro hdone calls hcalls later order m' hlate hm' hlingers
    have hstart : Refused s.cfg (src, pkt.msgId) t m.doneAt (s.handleBusy src pkt t) := by
      constructor
      · exact hcfg
      all_goals
        intro m₀ hm₀
        obtain rfl := Option.some.inj (hbusy.symm.trans hm₀)
      · rfl
      · exact ⟨le_rfl, fun _ => rfl⟩
    have hafter := hstart.after hcalls
    have hsame := hafter.done m' hm'
    have hclock := (hafter.clock m' hm').1
    rw [hcfg] at hlingers
    refine exists_probe_iff.mpr ⟨m', hm', ?_⟩
    rw [hafter.cfg_eq]
    cases hd : m.doneAt with
    | none =>
      rw [hd] at hsame
      simp [OutMsg.stalled, hsame]
      omega
    | some d =>
      have hover := hdone d hd
      rw [hd] at hsame
      simp [OutMsg.lingers, hsame] at hlingers
      omega

/-- Eight bytes of which four were sent when the message was refused. -/
theorem offersAgain_eight :
    (((new tinyConfig).start 9 1 [1, 2, 3, 4, 5, 6, 7, 8] 0).1.handleBusy 9
      ⟨.busy, 0, 1, 0, 0, 0⟩ 1).OffersAgain (9, 1) 2 :=
  (offersAgain_iff _ 9 ⟨.busy, 0, 1, 0, 0, 0⟩ 1 _ rfl).mpr fun d hd => by cases hd

/-- Four bytes that were sent at once, and refused: a tick after the stall timeout, long before
the end of the linger period, sends nothing. -/
theorem refused_not_offered :
    ¬ (((new tinyConfig).start 9 1 [1, 2, 3, 4] 0).1.handleBusy 9
      ⟨.busy, 0, 1, 0, 0, 0⟩ 1).OffersAgain (9, 1) 2 := by
  intro hoffers
  obtain ⟨p, q, hmem, _⟩ := hoffers [] (fun c hc => by cases hc) 2 default _ le_rfl rfl (by decide)
  cases hmem

end SenderCore
end AgentTransport
