import AgentTransport.Credit
import AgentTransport.Duplicates

/-!
# Messages of dead senders

The first tick after a silence opens every window without a gap, because the message is
granted by force or as a starving one, unless the sum of its grant overflows. From then on
each tick asks for the first gap of each message that is left, and the one after forty
unanswered RESENDs gives it up.
-/
namespace AgentTransport
open Transition

variable {Addr : Type} [DecidableEq Addr]

/-- The longest of the timeouts of the receiver. -/
def TransportConfig.stall (cfg : TransportConfig) : ℕ :=
  max (max cfg.resendTimeout cfg.grantTimeout) cfg.starveThreshold

namespace ReceiverCore

variable {r r' : ReceiverCore Addr} {now t n : ℕ} {order : TickOrder Addr}
  {acts : List (Action Addr)} {D : MsgKey Addr → List UInt8}

/-- Nothing in the receiver is dated after `t`. -/
def Dated (t : ℕ) (r : ReceiverCore Addr) : Prop :=
  ∀ k m, r.incoming.lookup k = some m → m.lastProgress ≤ t ∧ m.lastGrant ≤ t

theorem Dated.mono (h : r.Dated t) (hle : t ≤ n) : r.Dated n := by
  intro k m hm
  obtain ⟨hprogress, hgrant⟩ := h k m hm
  exact ⟨hprogress.trans hle, hgrant.trans hle⟩

omit [DecidableEq Addr] in
theorem dated_issueGrant {m : InMsg} (h : m.lastProgress ≤ t ∧ m.lastGrant ≤ t) (hnow : now ≤ t)
    (cfg : TransportConfig) (key : MsgKey Addr) (force : Bool) :
    (m.issueGrant cfg key now force).1.lastProgress ≤ t ∧
      (m.issueGrant cfg key now force).1.lastGrant ≤ t := by
  rcases InMsg.issueGrant_cases cfg key now force m with hg | hg
  · rw [hg]
    exact h
  · rw [hg]
    exact ⟨h.1, hnow⟩

omit [DecidableEq Addr] in
theorem dated_tickEntry {m m' : InMsg} (h : m.lastProgress ≤ t ∧ m.lastGrant ≤ t) (hnow : now ≤ t)
    {cfg : TransportConfig} {key : MsgKey Addr} {granted : Bool}
    (hm' : (tickEntry cfg now key granted m).1 = some m') :
    m'.lastProgress ≤ t ∧ m'.lastGrant ≤ t := by
  unfold tickEntry at hm'
  by_cases hquiet : now - m.lastProgress < cfg.resendTimeout
  · rw [if_pos hquiet] at hm'
    obtain rfl := Option.some.inj hm'
    exact h
  rw [if_neg hquiet] at hm'
  cases hmiss : m.missingInWindow cfg with
  | some off =>
    rw [hmiss] at hm'
    dsimp only at hm'
    split_ifs at hm'
    obtain rfl := Option.some.inj hm'
    exact ⟨hnow, h.2⟩
  | none =>
    simp only [hmiss] at hm'
    split_ifs at hm'
    · obtain rfl := Option.some.inj hm'
      exact dated_issueGrant (m := { m with lastProgress := now }) ⟨hnow, h.2⟩ hnow cfg key true
    · obtain rfl := Option.some.inj hm'
      exact ⟨hnow, h.2⟩
    · obtain rfl := Option.some.inj hm'
      exact h

theorem Dated.dataStep (h : r.Dated t) {src : Addr} {pkt : Packet} {payload : List UInt8}
    (hd : DataStep r src pkt payload now r' acts) (hnow : now ≤ t) : r'.Dated t := by
  apply hd.entries (E := fun _ m => m.lastProgress ≤ t ∧ m.lastGrant ≤ t)
  · intro k m hm _
    exact dated_issueGrant hm hnow r.cfg k false
  · intro m _ hm _
    have hentry : (r.entryFor src pkt now).lastProgress ≤ t ∧
        (r.entryFor src pkt now).lastGrant ≤ t :=
      entryFor_cases (P := fun m => m.lastProgress ≤ t ∧ m.lastGrant ≤ t) (h _)
        fun _ => ⟨hnow, hnow⟩
    rcases InMsg.accept_cases hm with ⟨_, rfl⟩ | ⟨_, _, rfl⟩
    · exact hentry
    · exact ⟨hnow, hentry.2⟩
  · exact h

theorem Dated.tick (h : r.Dated t) (ht : r.tick now order = some (r', acts)) (hnow : now ≤ t) :
    r'.Dated t := by
  apply tick_entries ht (E := fun _ m => m.lastProgress ≤ t ∧ m.lastGrant ≤ t)
  · intro k m hm _
    exact dated_issueGrant hm hnow r.cfg k false
  · intro k m m' granted hm hm'
    exact dated_tickEntry hm hnow hm'
  · exact h

/-- All entries have gone without an answer `n` times and miss something granted. No
entry has done so more often than the receiver asks. -/
structure Fading (n : ℕ) (r : ReceiverCore Addr) : Prop where
  unanswered : ∀ k m, r.incoming.lookup k = some m → n ≤ m.unansweredResends
  gap : ∀ k m, r.incoming.lookup k = some m → ∃ off, m.missingInWindow r.cfg = some off
  gone : maxUnansweredResends < n → ∀ k, k ∉ r.incoming

theorem missingInWindow_mono {cfg : TransportConfig} {m m' : InMsg} {off : ℕ}
    (hsame : InMsg.SameContent m m') (hwindow : m.grantedTo ≤ m'.grantedTo)
    (hoff : m.missingInWindow cfg = some off) : m'.missingInWindow cfg = some off := by
  obtain ⟨hfirst, hlt⟩ := Option.filter_eq_some_iff.mp hoff
  apply Option.filter_eq_some_iff.mpr
  rw [InMsg.firstMissingOffset, hsame.received]
  exact ⟨hfirst, decide_eq_true (Nat.lt_of_lt_of_le (of_decide_eq_true hlt) hwindow)⟩

/-- The first tick after a silence leaves no window without a gap. -/
theorem fading_of_tick (hr : r.Reassembles D) (hinc : 2 ≤ r.cfg.grantIncrement) (hdated : r.Dated t)
    (hlate : t + r.cfg.stall ≤ now) (ht : r.tick now order = some (r', acts))
    (hno : r.overflows (.tick now order) = false) (hsums : r'.SumsFit) : r'.Fading 0 := by
  refine ⟨fun k m _ => Nat.zero_le _, fun k m' hm' => ?_, fun hlt => absurd hlt (Nat.not_lt_zero _)⟩
  rw [tick_cfg ht]
  obtain ⟨m, m₁, hm, hpass, hgrant⟩ := tick_entry ht hm'
  obtain ⟨hrebuilds, hopen⟩ := hr k m hm
  obtain ⟨off, hfirst, hle, hlt⟩ := hrebuilds.exists_missing r.cfg.packetSize_pos hopen
  rw [← hrebuilds.totalLen] at hlt
  cases hmiss : m.missingInWindow r.cfg with
  | some off' =>
    refine ⟨off', ?_⟩
    obtain ⟨hsame, hwindow⟩ := tickEntry_content hpass
    have hgap := missingInWindow_mono hsame hwindow hmiss
    rcases hgrant with rfl | rfl
    · exact hgap
    · exact missingInWindow_mono (InMsg.issueGrant_content r.cfg k now false m₁)
        (InMsg.le_grantedTo_issueGrant r.cfg k now false m₁) hgap
  | none =>
    have hfull : m.grantedTo ≤ m.receivedBytes := by
      by_contra hshort
      have hwin : m.missingInWindow r.cfg = some off :=
        Option.filter_eq_some_iff.mpr ⟨hfirst, decide_eq_true (by omega)⟩
      rw [hmiss] at hwin
      cases hwin
    have hstarve : r.cfg.starveThreshold ≤ now - m.lastGrant := by
      have hgrant := (hdated k m hm).2
      unfold TransportConfig.stall at hlate
      omega
    have hwants : m.wantsGrant := InMsg.wantsGrant_iff.mpr ⟨Nat.ne_of_lt hlt, by omega⟩
    have hfit := sumFits_of_starving ht hno hsums hm hmiss hwants hstarve
    obtain ⟨m₂, hm₂, hsame, hwindow, _⟩ := tick_regrants ht hinc hm hfit hmiss hfull hlt hstarve
    obtain rfl := Option.some.inj (hm'.symm.trans hm₂)
    refine ⟨off, Option.filter_eq_some_iff.mpr ⟨?_, decide_eq_true (by omega)⟩⟩
    rw [InMsg.firstMissingOffset, hsame.received]
    exact hfirst

/-- Each further tick asks for every message, or gives it up. -/
theorem Fading.tick (h : r.Fading n) (hdated : r.Dated t) (hlate : t + r.cfg.stall ≤ now)
    (ht : r.tick now order = some (r', acts)) : r'.Fading (n + 1) := by
  have hentry : ∀ k m', r'.incoming.lookup k = some m' → n + 1 ≤ m'.unansweredResends ∧
      m'.unansweredResends ≤ maxUnansweredResends ∧ ∃ off, m'.missingInWindow r.cfg = some off := by
    intro k m' hm'
    obtain ⟨m, m₁, hm, hpass, hgrant⟩ := tick_entry ht hm'
    obtain ⟨off, hoff⟩ := h.gap k m hm
    have hcount := h.unanswered k m hm
    have hwait : ¬ now - m.lastProgress < r.cfg.resendTimeout := by
      have hprogress := (hdated k m hm).1
      unfold TransportConfig.stall at hlate
      omega
    simp only [tickEntry, if_neg hwait, hoff] at hpass
    split_ifs at hpass with hgive
    obtain rfl := Option.some.inj hpass
    have hgap : ({ m with
        lastProgress := now
        unansweredResends := m.unansweredResends + 1 } : InMsg).missingInWindow r.cfg =
          some off := hoff
    rcases hgrant with rfl | rfl
    · exact ⟨Nat.succ_le_succ hcount, Nat.not_lt.mp hgive, off, hgap⟩
    · rw [InMsg.issueGrant_unansweredResends]
      refine ⟨Nat.succ_le_succ hcount, Nat.not_lt.mp hgive, off, ?_⟩
      exact missingInWindow_mono (InMsg.issueGrant_content _ _ _ _ _)
        (InMsg.le_grantedTo_issueGrant _ _ _ _ _) hgap
  constructor
  · exact fun k m' hm' => (hentry k m' hm').1
  · intro k m' hm'
    rw [tick_cfg ht]
    exact (hentry k m' hm').2.2
  · intro hlt k hk
    obtain ⟨m', hm'⟩ := KeyMap.mem_iff_lookup.mp hk
    obtain ⟨hcount, hmax, _⟩ := hentry k m' hm'
    omega

end ReceiverCore

namespace Session

variable {cfg : TransportConfig} {D : MsgKey Addr → List UInt8} {s s' : Session Addr} {t n : ℕ}
  {ticks : List (ℕ × TickOrder Addr)}

/-- Every tick comes at least `gap` after what was before it. -/
def Spread (gap : ℕ) : ℕ → List (ℕ × TickOrder Addr) → Prop
  | _, [] => True
  | t, (now, _) :: ticks => t + gap ≤ now ∧ Spread gap now ticks

instance decidableSpread (gap : ℕ) :
    ∀ t (ticks : List (ℕ × TickOrder Addr)), Decidable (Spread gap t ticks)
  | _, [] => isTrue trivial
  | t, (now, _) :: ticks =>
    @instDecidableAnd _ _ (Nat.decLe (t + gap) now) (decidableSpread gap now ticks)

/-- The calls of a silence. -/
def silence (ticks : List (ℕ × TickOrder Addr)) : List (ReceiverCall Addr) :=
  ticks.map fun x => .tick x.1 x.2

theorem dated_of_run {ok : Session Addr → ReceiverCall Addr → Prop}
    {evs : List (ReceiverCall Addr)} (h : Run Session.step ok (Session.new cfg) evs s)
    (hlast : ∀ c ∈ evs, c.time ≤ t) : s.core.Dated t := by
  induction h with
  | nil =>
    intro k m hm
    simp [Session.new, ReceiverCore.new] at hm
  | @snoc evs s s' c _ _ hs ih =>
    have hbefore := ih fun c' hc' => hlast c' (List.mem_append_left _ hc')
    have hnow := hlast c (List.mem_append_right _ (List.mem_singleton.mpr rfl))
    obtain ⟨⟨r', acts⟩, hcall, rfl⟩ := Option.map_eq_some_iff.mp hs
    cases c with
    | handleData src pkt payload now order =>
      exact hbefore.dataStep (ReceiverCore.handleData_spec hcall) hnow
    | tick now order => exact hbefore.tick hcall hnow

/-- A tick returns and delivers nothing. -/
theorem tick_step (hr : s.core.Reassembles D) (now : ℕ) (order : TickOrder Addr) :
    ∃ s' acts, s.step (.tick now order) = some s' ∧ s.core.tick now order = some (s'.core, acts) ∧
      s'.core.completed = s.core.completed ∧ deliveries s'.outputs = deliveries s.outputs := by
  obtain ⟨⟨r', acts⟩, ht⟩ := Option.isSome_iff_exists.mp
    (ReceiverCore.tick_isSome fun k m hm _ => (hr k m hm).1.le : (s.core.tick now order).isSome)
  refine ⟨⟨r', s.outputs ++ acts, s.record (.tick now order) r'⟩, acts, ?_, ht,
    ReceiverCore.tick_completed ht, ?_⟩
  · simp only [Session.step, ReceiverCore.call, ht, Option.map_some]
  · rw [deliveries_append, ReceiverCore.tick_deliveries ht, List.append_nil]

/-- The ticks of a silence that has begun. -/
theorem fading_of_silence (hr : s.core.Reassembles D) (hdated : s.core.Dated t)
    (hfading : s.core.Fading n) (hgrants : s.core.GrantsEntries)
    (hspread : Spread s.core.cfg.stall t ticks) :
    ∃ s', exec Session.step (silence ticks) s = some s' ∧ s'.core.Fading (n + ticks.length) ∧
      s'.core.GrantsEntries ∧ s'.core.completed = s.core.completed ∧
      deliveries s'.outputs = deliveries s.outputs := by
  induction ticks generalizing s t n with
  | nil => exact ⟨s, rfl, hfading, hgrants, rfl, rfl⟩
  | cons tick ticks ih =>
    obtain ⟨now, order⟩ := tick
    obtain ⟨hlate, hspread⟩ := hspread
    obtain ⟨s₁, acts, hs₁, ht, hcompleted, hdeliveries⟩ := tick_step hr now order
    have hcfg := ReceiverCore.tick_cfg ht
    have hdated₁ := (hdated.mono (Nat.le_of_add_right_le hlate)).tick ht (Nat.le_refl now)
    rw [← hcfg] at hspread
    obtain ⟨s', hs', hfading', hgrants', hcompleted', hdeliveries'⟩ := ih (hr.tick ht) hdated₁
      (hfading.tick hdated hlate ht) (ReceiverCore.GrantsEntries.tick ht) hspread
    refine ⟨s', ?_, ?_, hgrants', hcompleted'.trans hcompleted, hdeliveries'.trans hdeliveries⟩
    · rw [silence, List.map_cons, exec, List.foldlM_cons, hs₁]
      exact hs'
    · rw [List.length_cons, Nat.add_comm ticks.length 1, ← Nat.add_assoc]
      exact hfading'

/-- **A dead sender cannot hold a slot**, if no sum overflows at the first tick of the silence.
After forty-two ticks without data, each a whole timeout after what was before, nothing is being
received and nothing is granted. What was given up is not remembered as delivered, and nothing
is delivered. -/
theorem dead_sender_released (cfg : TransportConfig) (hinc : 2 ≤ cfg.grantIncrement)
    (D : MsgKey Addr → List UInt8) {evs : List (ReceiverCall Addr)} {s : Session Addr}
    (h : Run Session.step (Session.Canonical D) (Session.new cfg) evs s) {last : ℕ}
    (hlast : ∀ c ∈ evs, c.time ≤ last) {ticks : List (ℕ × TickOrder Addr)}
    (hcount : 42 ≤ ticks.length) (hspread : Spread cfg.stall last ticks)
    (hno : ∀ tick ∈ ticks.head?, s.core.overflows (.tick tick.1 tick.2) = false) :
    ∃ s', exec Session.step (silence ticks) s = some s' ∧ s'.core.incoming.keys = [] ∧
      s'.core.granting = [] ∧ s'.core.completed = s.core.completed ∧
      deliveries s'.outputs = deliveries s.outputs := by
  have hwindowed := windowed_of_run h
  obtain ⟨hcfg, hr, -⟩ := id hwindowed
  cases ticks with
  | nil => cases hcount
  | cons tick ticks =>
    obtain ⟨now, order⟩ := tick
    obtain ⟨hlate, hspread⟩ := hspread
    rw [← hcfg] at hlate hspread hinc
    have hdated := dated_of_run h hlast
    -- the first tick opens the windows, the others count
    obtain ⟨s₁, acts, hs₁, ht, hcompleted, hdeliveries⟩ := tick_step hr now order
    have hdated₁ := (hdated.mono (Nat.le_of_add_right_le hlate)).tick ht (Nat.le_refl now)
    have hcfg₁ := ReceiverCore.tick_cfg ht
    rw [← hcfg₁] at hspread
    have hfirst : s.core.overflows (.tick now order) = false := hno _ rfl
    have hwindowed₁ : s₁.core.Windowed cfg D := hwindowed.call (c := .tick now order) trivial ht
    have hsums : s₁.core.SumsFit := ReceiverCore.sumsFit_of_beforeSchedule
      (c := .tick now order) rfl ht hfirst fun _ _ hm => hwindowed₁.bounds hm
    have hfading₁ := ReceiverCore.fading_of_tick hr hinc hdated hlate ht hfirst hsums
    obtain ⟨s', hs', hfading, hgrants, hcompleted', hdeliveries'⟩ :=
      fading_of_silence (hr.tick ht) hdated₁ hfading₁ (ReceiverCore.GrantsEntries.tick ht) hspread
    have hgone : ∀ k, k ∉ s'.core.incoming := by
      apply hfading.gone
      rw [List.length_cons] at hcount
      unfold maxUnansweredResends
      omega
    refine ⟨s', ?_, ?_, ?_, hcompleted'.trans hcompleted, hdeliveries'.trans hdeliveries⟩
    · rw [silence, List.map_cons, exec, List.foldlM_cons, hs₁]
      exact hs'
    · apply List.eq_nil_iff_forall_not_mem.mpr
      intro k hk
      exact hgone k (AList.mem_keys.mpr hk)
    · apply List.eq_nil_iff_forall_not_mem.mpr
      intro k hk
      exact hgone k (hgrants.2 k hk)

/-- One tick every hundred. -/
def slowTicks : List (ℕ × TickOrder ℕ) := (List.range 42).map fun i => (100 * i + 100, default)

theorem dead_sender_released_twelve : ∃ s s' : Session ℕ,
    exec Session.step [firstOfTwelve] (Session.new tinyConfig) = some s ∧
    s.core.incoming.keys = [(0, 1)] ∧ exec Session.step (silence slowTicks) s = some s' ∧
    s'.core.incoming.keys = [] ∧ s'.core.granting = [] ∧ s'.core.completed = s.core.completed ∧
    deliveries s'.outputs = deliveries s.outputs := by
  have hout : (exec Session.step [firstOfTwelve] (Session.new tinyConfig)).map
      (fun s => s.core.incoming.keys) = some [((0 : ℕ), 1)] := rfl
  obtain ⟨s, hs, hkeys⟩ := Option.map_eq_some_iff.mp hout
  have hrun : Run Session.step (Session.Canonical fun _ => twelveBytes) (Session.new tinyConfig)
      [firstOfTwelve] s := run_of_admitted hs ⟨canonical_firstOfTwelve, fun _ _ => trivial⟩
  have hlast : ∀ c ∈ [firstOfTwelve], c.time ≤ 0 := by simp [firstOfTwelve, ReceiverCall.time]
  have hspread : Spread tinyConfig.stall 0 slowTicks := by decide
  have hno : ∀ tick ∈ slowTicks.head?, s.core.overflows (.tick tick.1 tick.2) = false := by
    obtain rfl := Option.some.inj hs
    rintro tick ⟨⟩
    rfl
  obtain ⟨s', hs', hreleased⟩ :=
    dead_sender_released tinyConfig (by decide) _ hrun hlast (by decide) hspread hno
  exact ⟨s, s', hs, hkeys, hs', hreleased⟩

/-- A sum that wraps opens no window. The message is granted by force at each tick, is never
asked for, and stays. -/
theorem dead_sender_released_fails : ∃ s s' : Session ℕ,
    Run Session.step (Session.Canonical fun _ => sixteenBytes)
      (Session.new ReceiverCore.hugeConfig) [firstOfSixteen] s ∧
    42 ≤ slowTicks.length ∧ Spread ReceiverCore.hugeConfig.stall 0 slowTicks ∧
    exec Session.step (silence slowTicks) s = some s' ∧
    s'.core.incoming.keys = [(0, 1)] ∧ s'.core.granting = [(0, 1)] := by
  have hout : ((exec Session.step [firstOfSixteen] (Session.new ReceiverCore.hugeConfig)).bind
      (exec Session.step (silence slowTicks))).map
        (fun s => (s.core.incoming.keys, s.core.granting)) = some ([(0, 1)], [(0, 1)]) := by
    decide +kernel
  obtain ⟨s', hs', hstay⟩ := Option.map_eq_some_iff.mp hout
  obtain ⟨s, hs, hsilence⟩ := Option.bind_eq_some_iff.mp hs'
  obtain ⟨hkeys, hgranting⟩ := Prod.mk.inj hstay
  have hrun : Run Session.step (Session.Canonical fun _ => sixteenBytes)
      (Session.new ReceiverCore.hugeConfig) [firstOfSixteen] s :=
    run_of_admitted hs ⟨canonical_firstOfSixteen, fun _ _ => trivial⟩
  exact ⟨s, s', hrun, by decide, by decide, hsilence, hkeys, hgranting⟩

end Session
end AgentTransport
