import AgentTransport.Reassembly
import AgentTransport.Projection
import AgentTransport.ReceiverRun

/-!
# Windows, room and what a tick asks for

The window of a message ends within the message, and there are never more entries than
`max_incoming`. A tick asks for the first missing fragment of a late message that is
inside its window. Where all of the window was received, a tick opens it: by a forced
GRANT, or because the message counts as starving. A throttled window is never such a
window, since nothing of it is outstanding. All this holds of a GRANT whose sum fits: one
that wraps may leave the window as it is.
-/
namespace AgentTransport
open ByteString Fragmentation

variable {Addr : Type} [DecidableEq Addr]

namespace InMsg

variable {cfg : TransportConfig} {ps : ℕ} {data : List UInt8} {m : InMsg}

/-- An incomplete message misses a fragment, and has received at least what is before
the first one it misses. -/
theorem Rebuilds.exists_missing (hps : 0 < ps) (h : m.Rebuilds ps data)
    (hopen : m.complete = false) :
    ∃ off, m.firstMissingOffset ps = some off ∧ off ≤ m.receivedBytes ∧
      m.receivedBytes < data.length := by
  have hlt : m.receivedBytes < data.length := by
    have hle := h.le
    have hne : m.receivedBytes ≠ m.totalLen := by simpa [complete] using hopen
    rw [h.totalLen] at hle hne
    omega
  unfold firstMissingOffset
  cases hfind : m.received.findIdx? fun r => !r with
  | none =>
    have hall : m.complete = true := by
      refine (h.complete_iff hps).mpr fun i hi => ?_
      rw [← h.length_received] at hi
      have hbit := List.findIdx?_eq_none_iff.mp hfind _ (List.getElem_mem hi)
      rw [List.getElem?_eq_getElem hi]
      simpa using hbit
    rw [hall] at hopen
    cases hopen
  | some i =>
    obtain ⟨hi, _, hbefore⟩ := List.findIdx?_eq_some_iff_getElem.mp hfind
    have hilt := (lt_count_iff hps).mp (h.length_received ▸ hi)
    refine ⟨i * ps, rfl, ?_, hlt⟩
    have hcov : min (i * ps) data.length ≤ covered ps data.length m.received := by
      refine le_covered_of_prefix hi.le fun j hj => ?_
      have hbit := hbefore j hj
      rw [List.getElem?_eq_getElem (by omega)]
      simpa using hbit
    rw [h.receivedBytes]
    omega

omit [DecidableEq Addr] in
/-- A grant on a window that was received in full opens it. -/
theorem lt_grantedTo_issueGrant (hinc : 2 ≤ cfg.grantIncrement) (hfit : m.SumFits cfg)
    (hfull : m.grantedTo ≤ m.receivedBytes) (hopen : m.receivedBytes < m.totalLen)
    (key : MsgKey Addr) (now : ℕ) (force : Bool) :
    m.receivedBytes < (m.issueGrant cfg key now force).1.grantedTo := by
  have htarget : m.receivedBytes < m.grantTarget cfg := by
    rw [hfit.grantTarget]
    omega
  have hthrottle : ¬ cfg.grantIncrement / 2 ≤ m.grantedTo - m.receivedBytes := by omega
  have hne : m.grantTarget cfg ≠ m.grantedTo := by omega
  unfold issueGrant
  simp only [hthrottle, hne, decide_false, Bool.and_false, Bool.false_and, Bool.false_eq_true,
    if_false]
  exact htarget

omit [DecidableEq Addr] in
/-- A grant to an incomplete message leaves bytes of it outstanding. -/
theorem lt_issueGrant (hinc : 2 ≤ cfg.grantIncrement) (hfit : m.SumFits cfg)
    (hopen : m.receivedBytes < m.totalLen) (key : MsgKey Addr) (now : ℕ) :
    (m.issueGrant cfg key now false).1.receivedBytes <
      (m.issueGrant cfg key now false).1.grantedTo := by
  rw [(issueGrant_content cfg key now false m).receivedBytes]
  rcases Nat.lt_or_ge m.receivedBytes m.grantedTo with hlt | hfull
  · exact Nat.lt_of_lt_of_le hlt (le_grantedTo_issueGrant cfg key now false m)
  · exact lt_grantedTo_issueGrant hinc hfit hfull hopen key now false

omit [DecidableEq Addr] in
/-- An unforced GRANT is sent exactly when it raises the window, and only when less than
half an increment is outstanding. -/
theorem issueGrant_unforced (cfg : TransportConfig) (key : MsgKey Addr) (now : ℕ) (m : InMsg) :
    m.issueGrant cfg key now false = (m, []) ∨
      m.grantedTo - m.receivedBytes < cfg.grantIncrement / 2 ∧
      m.grantedTo < m.grantTarget cfg ∧ m.issueGrant cfg key now false =
        ({ m with grantedTo := m.grantTarget cfg, lastGrant := now },
          [.send key.1 ((m.grantPacket key (m.grantTarget cfg)).encode [])]) := by
  rw [issueGrant_eq]
  split_ifs with hlow
  · exact Or.inr ⟨hlow.1, hlow.2, rfl⟩
  · exact Or.inl rfl

omit [DecidableEq Addr] in
theorem issueGrant_unansweredResends (cfg : TransportConfig) (key : MsgKey Addr) (now : ℕ)
    (force : Bool) (m : InMsg) :
    (m.issueGrant cfg key now force).1.unansweredResends = m.unansweredResends := by
  rcases issueGrant_cases cfg key now force m with h | h <;> rw [h]

omit [DecidableEq Addr] in
/-- No window is raised past the end of its message. -/
theorem issueGrant_grantedTo_le (h : m.grantedTo ≤ m.totalLen) (cfg : TransportConfig)
    (key : MsgKey Addr) (now : ℕ) (force : Bool) :
    (m.issueGrant cfg key now force).1.grantedTo ≤ m.totalLen := by
  rcases issueGrant_cases cfg key now force m with hg | hg
  · rw [hg]
    exact h
  · rw [hg]
    have hle := grantTarget_le cfg m
    dsimp only
    omega

omit [DecidableEq Addr] in
/-- If the increment is huge, a grant whose sum fits reaches the end of the message. -/
theorem totalLen_le_issueGrant (hfit : m.SumFits cfg) (hinc : 2 ^ 33 ≤ cfg.grantIncrement)
    (hshort : m.totalLen < 2 ^ 32) (hwindow : m.grantedTo ≤ m.totalLen) (key : MsgKey Addr)
    (now : ℕ) (force : Bool) : m.totalLen ≤ (m.issueGrant cfg key now force).1.grantedTo := by
  have htarget : m.totalLen ≤ m.grantTarget cfg := by
    rw [hfit.grantTarget]
    omega
  have hthrottle : ¬ cfg.grantIncrement / 2 ≤ m.grantedTo - m.receivedBytes := by omega
  unfold issueGrant
  simp only [hthrottle, decide_false, Bool.and_false, Bool.false_eq_true, if_false]
  split_ifs with hsame
  · rw [Bool.and_eq_true, decide_eq_true_eq] at hsame
    dsimp only
    omega
  · exact htarget

/-- The throttle keeps no message from its sum but those whose window is far longer than the
increment, and these have a sum that fits. -/
theorem sumFits_of_not_overflows (h : m.sumOverflows cfg false = false)
    (hbytes : m.receivedBytes ≤ m.totalLen) (hwindow : m.grantedTo ≤ m.totalLen)
    (hshort : m.totalLen < 2 ^ 32) : m.SumFits cfg := by
  unfold SumFits
  by_contra hbig
  have hthrottled : ¬ m.grantedTo - m.receivedBytes < cfg.grantIncrement / 2 := by
    intro hlow
    simp only [sumOverflows, Bool.false_or, hlow, decide_true, Bool.true_and,
      decide_eq_false_iff_not] at h
    omega
  omega

end InMsg

namespace ReceiverCore

/-- All windows end within their messages. -/
def WindowsFit (r : ReceiverCore Addr) : Prop :=
  ∀ k m, r.incoming.lookup k = some m → m.grantedTo ≤ m.totalLen

variable {r r' : ReceiverCore Addr} {now : ℕ} {acts : List (Action Addr)}

/-- What is being granted has a sum that fits. -/
def SumsFit (r : ReceiverCore Addr) : Prop :=
  ∀ k ∈ r.granting, ∀ m, r.incoming.lookup k = some m → m.SumFits r.cfg

/-- A call that schedules without an overflow grants what it can go on granting, as far as
lengths came in headers. -/
theorem sumsFit_of_beforeSchedule {c : ReceiverCall Addr}
    {before : ReceiverCore Addr × List (Action Addr)} (hb : r.beforeSchedule c = some before)
    (hcall : r.call c = some (r', acts)) (hno : r.overflows c = false)
    (hbounds : ∀ k m, r'.incoming.lookup k = some m →
      m.receivedBytes ≤ m.totalLen ∧ m.grantedTo ≤ m.totalLen ∧ m.totalLen < 2 ^ 32) :
    r'.SumsFit := by
  rw [call_of_beforeSchedule hb] at hcall
  obtain ⟨⟨r₁, acts₁⟩, hsched, heq⟩ := Option.map_eq_some_iff.mp hcall
  obtain ⟨rfl, -⟩ := Prod.mk.inj heq
  have hs := schedule_spec hsched
  rw [overflows, hb, Option.any_some, selection_of_schedule hsched, Option.any_some,
    Bool.or_eq_false_iff] at hno
  intro k hk m' hm'
  obtain ⟨m, hm, hm'eq⟩ := hs.entry hm'
  rw [if_pos hk] at hm'eq
  have hsame := InMsg.issueGrant_content before.1.cfg k c.time false m
  have hgrown := InMsg.le_grantedTo_issueGrant before.1.cfg k c.time false m
  rw [← hm'eq] at hsame hgrown
  obtain ⟨hbytes, hwindow, hshort⟩ := hbounds k m' hm'
  rw [hsame.totalLen] at hbytes hwindow hshort
  rw [hsame.receivedBytes] at hbytes
  have hfits := List.any_eq_false.mp hno.2 k hk
  rw [hm, Option.any_some, Bool.not_eq_true] at hfits
  rw [InMsg.SumFits, hsame.receivedBytes, hs.cfg]
  exact InMsg.sumFits_of_not_overflows hfits hbytes (hgrown.trans hwindow) hshort

theorem SumsFit.call {c : ReceiverCall Addr} (h : r.SumsFit) (hcall : r.call c = some (r', acts))
    (hno : r.overflows c = false) (hbounds : ∀ k m, r'.incoming.lookup k = some m →
      m.receivedBytes ≤ m.totalLen ∧ m.grantedTo ≤ m.totalLen ∧ m.totalLen < 2 ^ 32) :
    r'.SumsFit := by
  cases hb : r.beforeSchedule c with
  | none =>
    obtain rfl := (call_of_not_beforeSchedule hb false).2 r' acts hcall
    exact h
  | some before => exact sumsFit_of_beforeSchedule hb hcall hno hbounds

theorem Scheduled.length_keys (h : Scheduled r now r' acts) :
    r'.incoming.keys.length = r.incoming.keys.length :=
  KeyMap.length_keys_eq h.mem_iff

/-- There are never more entries than `max_incoming`. -/
theorem length_keys_dataStep {src : Addr} {pkt : Packet} {payload : List UInt8}
    (hroom : r.incoming.keys.length ≤ r.cfg.maxIncoming)
    (h : DataStep r src pkt payload now r' acts) :
    r'.incoming.keys.length ≤ r.cfg.maxIncoming := by
  cases h with
  | duplicate => exact hroom
  | refused => exact hroom
  | store _ hfree _ _ _ hs =>
    rw [hs.length_keys]
    refine KeyMap.length_keys_insert_le hroom ?_ _
    rw [refuses, Bool.and_eq_false_iff, decide_eq_false_iff_not, decide_eq_false_iff_not,
      not_not, Nat.not_le] at hfree
    exact hfree
  | deliver _ _ _ hs =>
    rw [hs.length_keys]
    refine le_trans (KeyMap.length_keys_le fun k hk => ?_) hroom
    simp only [ReceiverCore.deliver, AList.mem_erase] at hk
    exact hk.2

theorem tick_mem {order : TickOrder Addr} (h : r.tick now order = some (r', acts))
    {k : MsgKey Addr} (hk : k ∈ r'.incoming) : k ∈ r.incoming := by
  obtain ⟨m', hm'⟩ := KeyMap.mem_iff_lookup.mp hk
  obtain ⟨m, hm, _⟩ := tick_content h hm'
  exact KeyMap.mem_iff_lookup.mpr ⟨m, hm⟩

/-- After a tick there is room for a message that was there before it. -/
theorem refuses_tick {order : TickOrder Addr} (h : r.tick now order = some (r', acts))
    (hroom : r.incoming.keys.length ≤ r.cfg.maxIncoming) {k : MsgKey Addr}
    (hk : k ∈ r.incoming) : r'.refuses k = false := by
  rw [refuses, Bool.and_eq_false_iff, decide_eq_false_iff_not, decide_eq_false_iff_not, not_not,
    Nat.not_le, tick_cfg h]
  by_cases hin : k ∈ r'.incoming
  · exact Or.inl hin
  · right
    have hsub : ∀ k', k' ∈ r'.incoming → k' ∈ r.incoming.erase k := by
      intro k' hk'
      rw [AList.mem_erase]
      refine ⟨?_, tick_mem h hk'⟩
      rintro rfl
      exact hin hk'
    have hle := KeyMap.length_keys_le hsub
    have herase := KeyMap.length_keys_erase hk
    omega

theorem WindowsFit.dataStep {src : Addr} {pkt : Packet} {payload : List UInt8}
    (h : WindowsFit r) (hd : DataStep r src pkt payload now r' acts) : WindowsFit r' := by
  refine hd.entries (E := fun _ m => m.grantedTo ≤ m.totalLen) (fun k m hle _ => ?_)
    (fun m _ hm _ => ?_) h
  · rw [(InMsg.issueGrant_content r.cfg k now false m).totalLen]
    exact InMsg.issueGrant_grantedTo_le hle r.cfg k now false
  · have hle : (r.entryFor src pkt now).grantedTo ≤ (r.entryFor src pkt now).totalLen :=
      entryFor_cases (P := fun m => m.grantedTo ≤ m.totalLen) (h _)
        fun _ => Nat.min_le_right _ _
    rcases InMsg.accept_cases hm with ⟨_, rfl⟩ | ⟨_, _, rfl⟩
    · exact hle
    · exact hle

theorem WindowsFit.tick {order : TickOrder Addr} (h : WindowsFit r)
    (ht : r.tick now order = some (r', acts)) : WindowsFit r' := by
  refine tick_entries ht (E := fun _ m => m.grantedTo ≤ m.totalLen) (fun k m hle _ => ?_)
    (fun k m m' granted hle hm' => ?_) h
  · rw [(InMsg.issueGrant_content r.cfg k now false m).totalLen]
    exact InMsg.issueGrant_grantedTo_le hle r.cfg k now false
  · rw [(tickEntry_content hm').1.totalLen]
    rcases tickEntry_cases r.cfg now k granted m with
      ⟨_, he⟩ | ⟨_, ⟨_, _, _, he⟩ | ⟨_, _, _, he⟩ | ⟨_, _, he⟩ | ⟨_, he⟩⟩ <;> rw [he] at hm'
    · obtain rfl := Option.some.inj hm'
      exact hle
    · obtain rfl := Option.some.inj hm'
      exact hle
    · cases hm'
    · obtain rfl := Option.some.inj hm'
      exact hle
    · obtain rfl := Option.some.inj hm'
      exact InMsg.issueGrant_grantedTo_le (m := { m with lastProgress := now }) hle r.cfg k now true

/-- A window without a gap is left alone by its pass, unless that comes to the forced GRANT. -/
theorem tickEntry_of_not_forces {k : MsgKey Addr} {m : InMsg} (hm : r.incoming.lookup k = some m)
    (hmiss : m.missingInWindow r.cfg = none) (hforce : r.forcesGrant now k = false) :
    ∃ t, tickEntry r.cfg now k (decide (k ∈ r.granting)) m =
      (some { m with lastProgress := t }, []) := by
  simp only [forcesGrant, hm, Option.any_some, hmiss, Option.isNone_none, Bool.and_true] at hforce
  unfold tickEntry
  by_cases hquiet : now - m.lastProgress < r.cfg.resendTimeout
  · exact ⟨m.lastProgress, by rw [if_pos hquiet]⟩
  by_cases hlate : r.cfg.grantTimeout ≤ now - m.lastProgress
  · have hfree : decide (k ∈ r.granting) = false := by
      simpa [Nat.not_lt.mp hquiet, hlate] using hforce
    refine ⟨now, ?_⟩
    simp only [if_neg hquiet, hmiss, if_pos hlate, hfree, Bool.false_eq_true, if_false]
  · exact ⟨m.lastProgress, by simp only [if_neg hquiet, hmiss, if_neg hlate]⟩

/-- If no sum of a tick overflows, then not that of a starving message whose window has no gap
either: it is granted, by force or as one that starves. -/
theorem sumFits_of_starving {order : TickOrder Addr} (h : r.tick now order = some (r', acts))
    (hno : r.overflows (.tick now order) = false) (hsums : r'.SumsFit) {k : MsgKey Addr} {m : InMsg}
    (hm : r.incoming.lookup k = some m) (hmiss : m.missingInWindow r.cfg = none)
    (hwants : m.wantsGrant) (hstarve : r.cfg.starveThreshold ≤ now - m.lastGrant) :
    m.SumFits r.cfg := by
  cases hforce : r.forcesGrant now k with
  | true =>
    rw [overflows, Bool.or_eq_false_iff] at hno
    have hmem : k ∈ r.forced (.tick now order) :=
      List.mem_filter.mpr ⟨KeyMap.mem_enum_keys.mpr (KeyMap.mem_iff_lookup.mpr ⟨m, hm⟩), hforce⟩
    have hfits := List.any_eq_false.mp hno.1 k hmem
    simpa [hm, InMsg.sumOverflows, InMsg.SumFits] using hfits
  | false =>
    obtain ⟨t, hpass⟩ := tickEntry_of_not_forces hm hmiss hforce
    obtain ⟨r₁, acts₂, hs, hcfg, _, hlook, _⟩ := tick_spec h
    have hm₁ := hlook k
    rw [hm, Option.bind_some, hpass] at hm₁
    have hin : k ∈ r'.granting := hs.starving k _ hm₁ hwants (by rwa [hcfg])
    have hm' := hs.lookup k
    rw [hm₁, Option.map_some] at hm'
    have hfit := hsums k hin _ hm'
    rw [if_pos hin, InMsg.SumFits, (InMsg.issueGrant_content _ _ _ _ _).receivedBytes, hs.cfg,
      hcfg] at hfit
    exact hfit

/-- A round of scheduling keeps an entry, up to a larger window. -/
theorem Scheduled.grows (hs : r.Scheduled now r' acts) {k : MsgKey Addr} {m : InMsg}
    (hm : r.incoming.lookup k = some m) :
    ∃ m', r'.incoming.lookup k = some m' ∧ InMsg.SameContent m m' ∧
      m.grantedTo ≤ m'.grantedTo ∧ m'.unansweredResends = m.unansweredResends := by
  refine ⟨_, by rw [hs.lookup k, hm, Option.map_some], ?_⟩
  split_ifs
  · exact ⟨InMsg.issueGrant_content _ _ _ _ _, InMsg.le_grantedTo_issueGrant _ _ _ _ _,
      InMsg.issueGrant_unansweredResends _ _ _ _ _⟩
  · exact ⟨InMsg.SameContent.refl m, Nat.le_refl _, rfl⟩

/-- A tick opens a window that was received in full, once the message has waited long
enough to count as starving. -/
theorem tick_regrants {order : TickOrder Addr} (h : r.tick now order = some (r', acts))
    (hinc : 2 ≤ r.cfg.grantIncrement) {k : MsgKey Addr} {m : InMsg}
    (hm : r.incoming.lookup k = some m) (hfit : m.SumFits r.cfg)
    (hmiss : m.missingInWindow r.cfg = none) (hfull : m.grantedTo ≤ m.receivedBytes)
    (hopen : m.receivedBytes < m.totalLen) (hstarve : r.cfg.starveThreshold ≤ now - m.lastGrant) :
    ∃ m', r'.incoming.lookup k = some m' ∧ InMsg.SameContent m m' ∧
      m.receivedBytes < m'.grantedTo ∧ m'.unansweredResends = m.unansweredResends := by
  obtain ⟨r₁, acts₂, hs, hcfg, _, hlook, _⟩ := tick_spec h
  -- the pass over the entry did not grant: the scheduler does
  have hquiet : ∀ t, r₁.incoming.lookup k = some { m with lastProgress := t } →
      ∃ m', r'.incoming.lookup k = some m' ∧ InMsg.SameContent m m' ∧
        m.receivedBytes < m'.grantedTo ∧ m'.unansweredResends = m.unansweredResends := by
    intro t hm₁
    have hin : k ∈ r'.granting := by
      apply hs.starving k _ hm₁
      · exact InMsg.wantsGrant_iff.mpr ⟨Nat.ne_of_lt hopen, Nat.lt_of_le_of_lt hfull hopen⟩
      · rw [hcfg]
        exact hstarve
    refine ⟨_, by rw [hs.lookup k, hm₁, Option.map_some, if_pos hin], ?_, ?_, ?_⟩
    · have hsame := InMsg.issueGrant_content r₁.cfg k now false { m with lastProgress := t }
      exact ⟨hsame.totalLen, hsame.buf, hsame.received, hsame.receivedBytes⟩
    · rw [hcfg]
      exact InMsg.lt_grantedTo_issueGrant (m := { m with lastProgress := t }) hinc hfit hfull
        hopen k now false
    · exact InMsg.issueGrant_unansweredResends r₁.cfg k now false _
  have hkey := hlook k
  rw [hm, Option.bind_some] at hkey
  rcases tickEntry_cases r.cfg now k (decide (k ∈ r.granting)) m with
    ⟨_, he⟩ | ⟨_, ⟨off, hoff, _⟩ | ⟨off, hoff, _⟩ | ⟨_, t, he⟩ | ⟨_, he⟩⟩
  · rw [he] at hkey
    exact hquiet m.lastProgress hkey
  · rw [hmiss] at hoff
    cases hoff
  · rw [hmiss] at hoff
    cases hoff
  · rw [he] at hkey
    exact hquiet t hkey
  · rw [he] at hkey
    have hsame := InMsg.issueGrant_content r.cfg k now true { m with lastProgress := now }
    have hgrant := InMsg.lt_grantedTo_issueGrant (m := { m with lastProgress := now }) hinc hfit
      hfull hopen k now true
    have hcount :=
      InMsg.issueGrant_unansweredResends r.cfg k now true { m with lastProgress := now }
    obtain ⟨m', hm', hsame', hmore, hcount'⟩ := hs.grows hkey
    refine ⟨m', hm', InMsg.SameContent.trans ?_ hsame', Nat.lt_of_lt_of_le hgrant hmore,
      hcount'.trans hcount⟩
    exact ⟨hsame.totalLen, hsame.buf, hsame.received, hsame.receivedBytes⟩

/-- The entry of a key after a tick: its own pass, and maybe a grant. -/
theorem tick_entry (ht : r.tick now order = some (r', acts)) {k : MsgKey Addr} {m' : InMsg}
    (hm' : r'.incoming.lookup k = some m') :
    ∃ m m₁, r.incoming.lookup k = some m ∧
      (tickEntry r.cfg now k (decide (k ∈ r.granting)) m).1 = some m₁ ∧
      (m' = m₁ ∨ m' = (m₁.issueGrant r.cfg k now false).1) := by
  obtain ⟨r₁, acts₂, hs, hcfg, _, hlook, _⟩ := tick_spec ht
  obtain ⟨m₁, hm₁, hm'⟩ := hs.entry hm'
  rw [hlook k] at hm₁
  obtain ⟨m, hm, hpass⟩ := Option.bind_eq_some_iff.mp hm₁
  refine ⟨m, m₁, hm, hpass, ?_⟩
  rw [hm', hcfg]
  split_ifs
  · exact Or.inr rfl
  · exact Or.inl rfl

theorem tick_grantedTo {order : TickOrder Addr} (h : r.tick now order = some (r', acts))
    {k : MsgKey Addr} {m m' : InMsg} (hm : r.incoming.lookup k = some m)
    (hm' : r'.incoming.lookup k = some m') : m.grantedTo ≤ m'.grantedTo := by
  obtain ⟨m₀, m₁, hm₀, hpass, hgrant⟩ := tick_entry h hm'
  obtain rfl := Option.some.inj (hm.symm.trans hm₀)
  refine (tickEntry_content hpass).2.trans ?_
  rcases hgrant with rfl | rfl
  · exact Nat.le_refl _
  · exact InMsg.le_grantedTo_issueGrant r.cfg k now false m₁

/-- A tick raises the window of a starving message to its end, if the increment is huge and the
sum fits. -/
theorem tick_reaches {order : TickOrder Addr} (h : r.tick now order = some (r', acts))
    (hinc : 2 ^ 33 ≤ r.cfg.grantIncrement) {k : MsgKey Addr} {m m' : InMsg}
    (hm : r.incoming.lookup k = some m) (hm' : r'.incoming.lookup k = some m')
    (hfit : m.SumFits r.cfg) (hshort : m.totalLen < 2 ^ 32) (hwindow : m.grantedTo ≤ m.totalLen)
    (hopen : m.receivedBytes < m.totalLen) (hstarve : r.cfg.starveThreshold ≤ now - m.lastGrant) :
    m'.totalLen ≤ m'.grantedTo := by
  obtain ⟨r₁, acts₂, hs, hcfg, _, hlook, _⟩ := tick_spec h
  obtain ⟨m₁, hm₁, rfl⟩ := hs.entry hm'
  have hpass := hlook k
  rw [hm, Option.bind_some, hm₁] at hpass
  obtain ⟨hsame, _⟩ := tickEntry_content hpass.symm
  -- the pass grants by force up to the end, or leaves the message starving
  have hgranted : m₁.totalLen ≤ m₁.grantedTo ∨
      m₁.grantedTo = m.grantedTo ∧ m₁.lastGrant = m.lastGrant := by
    rcases tickEntry_cases r.cfg now k (decide (k ∈ r.granting)) m with
      ⟨_, he⟩ | ⟨_, ⟨_, _, _, he⟩ | ⟨_, _, _, he⟩ | ⟨_, _, he⟩ | ⟨_, he⟩⟩ <;> rw [he] at hpass
    · obtain rfl := Option.some.inj hpass
      exact Or.inr ⟨rfl, rfl⟩
    · obtain rfl := Option.some.inj hpass
      exact Or.inr ⟨rfl, rfl⟩
    · cases hpass
    · obtain rfl := Option.some.inj hpass
      exact Or.inr ⟨rfl, rfl⟩
    · left
      rw [hsame.totalLen, Option.some.inj hpass]
      exact InMsg.totalLen_le_issueGrant (m := { m with lastProgress := now }) hfit hinc hshort
        hwindow k now true
  by_cases hall : m₁.totalLen ≤ m₁.grantedTo
  · split_ifs
    · rw [(InMsg.issueGrant_content r₁.cfg k now false m₁).totalLen]
      exact hall.trans (InMsg.le_grantedTo_issueGrant r₁.cfg k now false m₁)
    · exact hall
  · obtain ⟨hwin, hlast⟩ := hgranted.resolve_left hall
    have hwants : m₁.wantsGrant := InMsg.wantsGrant_iff.mpr
      ⟨by rw [hsame.receivedBytes, hsame.totalLen]; exact Nat.ne_of_lt hopen, Nat.not_le.mp hall⟩
    have hin : k ∈ r'.granting := hs.starving k m₁ hm₁ hwants (by rwa [hcfg, hlast])
    have hfit₁ : m₁.SumFits r₁.cfg := by rwa [InMsg.SumFits, hsame.receivedBytes, hcfg]
    rw [if_pos hin, (InMsg.issueGrant_content r₁.cfg k now false m₁).totalLen]
    exact InMsg.totalLen_le_issueGrant hfit₁ (by rwa [hcfg]) (by rwa [hsame.totalLen])
      (Nat.le_of_not_le hall) k now false

/-- A late message that misses something granted is asked for, and keeps its content
unless it is given up. -/
theorem tick_asks {order : TickOrder Addr} (h : r.tick now order = some (r', acts))
    {k : MsgKey Addr} {m : InMsg} {off : ℕ} (hm : r.incoming.lookup k = some m)
    (hlate : r.cfg.resendTimeout ≤ now - m.lastProgress)
    (hoff : m.missingInWindow r.cfg = some off) :
    (∃ bytes q, .send k.1 bytes ∈ acts ∧
      Packet.decode bytes = .ok (m.resendPacket r.cfg k off, q)) ∧
    ((r'.incoming.lookup k = none ∧ maxUnansweredResends < m.unansweredResends + 1) ∨
      ∃ m', r'.incoming.lookup k = some m' ∧ InMsg.SameContent m m') := by
  constructor
  · have hset := tick_resends h k
    have hmem : m.resendPacket r.cfg k off ∈
        {pkt | ∃ q, (pkt, q) ∈ packetsFor .resend k.1 k.2 acts} := by
      rw [hset]
      exact ⟨m, off, hm, hlate, hoff, rfl⟩
    obtain ⟨q, bytes, hsend, hdec, _⟩ := hmem
    exact ⟨bytes, q, hsend, hdec⟩
  · obtain ⟨r₁, acts₂, hs, _, _, hlook, _⟩ := tick_spec h
    cases hm' : r'.incoming.lookup k with
    | some m' =>
      right
      obtain ⟨m₀, hm₀, hsame⟩ := tick_content h hm'
      obtain rfl := Option.some.inj (hm.symm.trans hm₀)
      exact ⟨m', rfl, hsame⟩
    | none =>
      left
      refine ⟨rfl, ?_⟩
      rw [hs.lookup k, Option.map_eq_none_iff, hlook k, hm, Option.bind_some] at hm'
      rcases tickEntry_cases r.cfg now k (decide (k ∈ r.granting)) m with
        ⟨_, he⟩ | ⟨_, ⟨_, _, _, he⟩ | ⟨_, _, hgive, he⟩ | ⟨_, _, he⟩ | ⟨_, he⟩⟩
      · rw [he] at hm'
        cases hm'
      · rw [he] at hm'
        cases hm'
      · exact hgive
      · rw [he] at hm'
        cases hm'
      · rw [he] at hm'
        cases hm'

end ReceiverCore
end AgentTransport
