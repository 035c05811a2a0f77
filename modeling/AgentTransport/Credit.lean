import AgentTransport.Session
import AgentTransport.Windows

/-!
# Granted windows

A window never shrinks, ends within its message and is at most one increment, or the
unscheduled bytes, ahead of what has come in. As long as no sum of a grant overflows, a
message that is being granted misses a fragment inside its window. So a tick asks for that
fragment, and it never comes to the forced GRANT that it has for a window without gaps.
-/
namespace AgentTransport
open Fragmentation Transition

variable {Addr : Type} [DecidableEq Addr]

namespace InMsg

variable {cfg : TransportConfig} {m m' : InMsg} {now : ℕ}

/-- The bounds of a window. -/
structure Credit (cfg : TransportConfig) (m : InMsg) : Prop where
  floor : min cfg.unscheduledBytes m.totalLen ≤ m.grantedTo
  ceiling : m.grantedTo ≤ m.totalLen
  ahead : m.grantedTo ≤ m.receivedBytes + max cfg.unscheduledBytes cfg.grantIncrement
  short : m.totalLen < 2 ^ 32

theorem Credit.new (cfg : TransportConfig) (pkt : Packet) (now : ℕ) :
    (InMsg.new cfg pkt.msgLen.toNat now).Credit cfg where
  floor := Nat.le_refl _
  ceiling := Nat.min_le_right _ _
  ahead := by
    simp only [InMsg.new]
    omega
  short := pkt.msgLen.toNat_lt

/-- The window stays as it is while bytes come in. -/
theorem Credit.of_window (h : m.Credit cfg) (hlen : m'.totalLen = m.totalLen)
    (hwindow : m'.grantedTo = m.grantedTo) (hbytes : m.receivedBytes ≤ m'.receivedBytes) :
    m'.Credit cfg := by
  constructor
  · rw [hlen, hwindow]
    exact h.floor
  · rw [hlen, hwindow]
    exact h.ceiling
  · have hahead := h.ahead
    omega
  · rw [hlen]
    exact h.short

theorem Credit.accept (h : m.Credit cfg) {pkt : Packet} {payload : List UInt8}
    (hm : m.accept cfg pkt payload now = some m') : m'.Credit cfg := by
  rcases accept_cases hm with ⟨_, rfl⟩ | ⟨_, _, rfl⟩
  · exact h
  · exact h.of_window rfl rfl (Nat.le_add_right _ _)

omit [DecidableEq Addr] in
theorem Credit.issueGrant (h : m.Credit cfg) (key : MsgKey Addr) (now : ℕ) (force : Bool) :
    (m.issueGrant cfg key now force).1.Credit cfg := by
  obtain ⟨hfloor, hceiling, hahead, hshort⟩ := h
  have htarget := grantTarget_le cfg m
  rcases issueGrant_cases cfg key now force m with hg | hg
  · rw [hg]
    exact ⟨hfloor, hceiling, hahead, hshort⟩
  · rw [hg]
    constructor
    · exact hfloor.trans (m.grantedTo_le_grantTarget cfg)
    · dsimp only
      omega
    · dsimp only
      omega
    · exact hshort

omit [DecidableEq Addr] in
theorem Credit.tickEntry (h : m.Credit cfg) {key : MsgKey Addr} {granted : Bool}
    (hm : (ReceiverCore.tickEntry cfg now key granted m).1 = some m') : m'.Credit cfg := by
  rcases ReceiverCore.tickEntry_cases cfg now key granted m with
    ⟨_, he⟩ | ⟨_, ⟨_, _, _, he⟩ | ⟨_, _, _, he⟩ | ⟨_, _, he⟩ | ⟨_, he⟩⟩ <;> rw [he] at hm
  · obtain rfl := Option.some.inj hm
    exact h
  · obtain rfl := Option.some.inj hm
    exact h.of_window rfl rfl (Nat.le_refl _)
  · cases hm
  · obtain rfl := Option.some.inj hm
    exact h.of_window rfl rfl (Nat.le_refl _)
  · obtain rfl := Option.some.inj hm
    have hlate : { m with lastProgress := now }.Credit cfg :=
      h.of_window rfl rfl (Nat.le_refl _)
    exact hlate.issueGrant key now true

end InMsg

namespace ReceiverCore

variable {r r' : ReceiverCore Addr} {src : Addr} {pkt : Packet} {payload : List UInt8} {now : ℕ}
  {acts : List (Action Addr)} {D : MsgKey Addr → List UInt8}

/-- All windows are within their bounds. -/
def Credited (r : ReceiverCore Addr) : Prop :=
  ∀ k m, r.incoming.lookup k = some m → m.Credit r.cfg

theorem Credited.entryFor (h : r.Credited) (src : Addr) (pkt : Packet) (now : ℕ) :
    (r.entryFor src pkt now).Credit r.cfg := by
  apply entryFor_cases (P := fun m => m.Credit r.cfg)
  · exact h _
  · intro _
    exact InMsg.Credit.new r.cfg pkt now

theorem Credited.dataStep (h : r.Credited) (hd : DataStep r src pkt payload now r' acts) :
    r'.Credited := by
  unfold Credited
  rw [hd.cfg_eq]
  apply hd.entries (E := fun _ m => m.Credit r.cfg)
  · intro k m hm _
    exact hm.issueGrant k now false
  · intro m _ hm _
    exact (h.entryFor src pkt now).accept hm
  · exact h

theorem Credited.tick {order : TickOrder Addr} (h : r.Credited)
    (ht : r.tick now order = some (r', acts)) : r'.Credited := by
  unfold Credited
  rw [tick_cfg ht]
  apply tick_entries ht (E := fun _ m => m.Credit r.cfg)
  · intro k m hm _
    exact hm.issueGrant k now false
  · intro k m m' granted hm hm'
    exact hm.tickEntry hm'
  · exact h

/-- What is being granted can be asked for again. -/
def Repairable (r : ReceiverCore Addr) : Prop :=
  ∀ k ∈ r.granting, ∃ m off, r.incoming.lookup k = some m ∧ m.complete = false ∧
    m.missingInWindow r.cfg = some off

/-- Scheduling leaves a gap in the window of each message that it grants. -/
theorem Scheduled.repairable (hs : Scheduled r now r' acts) (hinc : 2 ≤ r.cfg.grantIncrement)
    (hr : r'.Reassembles D) (hsums : r'.SumsFit) : r'.Repairable := by
  intro k hk
  obtain ⟨m, hm, _⟩ := hs.wants k hk
  have hm' : r'.incoming.lookup k = some (m.issueGrant r.cfg k now false).1 := by
    rw [hs.lookup k, hm, Option.map_some, if_pos hk]
  obtain ⟨hrebuilds, hopen⟩ := hr k _ hm'
  obtain ⟨off, hoff, hle, hlt⟩ := hrebuilds.exists_missing r'.cfg.packetSize_pos hopen
  rw [← hrebuilds.totalLen] at hlt
  have hsame := InMsg.issueGrant_content r.cfg k now false m
  rw [hsame.receivedBytes, hsame.totalLen] at hlt
  have hfit : m.SumFits r.cfg := by
    have hfit' := hsums k hk _ hm'
    rwa [InMsg.SumFits, hsame.receivedBytes, hs.cfg] at hfit'
  have hwindow := InMsg.lt_issueGrant hinc hfit hlt k now
  refine ⟨_, off, hm', hopen, Option.filter_eq_some_iff.mpr ⟨hoff, ?_⟩⟩
  exact decide_eq_true (Nat.lt_of_le_of_lt hle hwindow)

theorem Repairable.dataStep (h : r.Repairable) (hinc : 2 ≤ r.cfg.grantIncrement)
    (hd : DataStep r src pkt payload now r' acts) (hr : r'.Reassembles D) (hsums : r'.SumsFit) :
    r'.Repairable := by
  cases hd with
  | duplicate => exact h
  | refused => exact h
  | store _ _ _ _ _ hs => exact hs.repairable hinc hr hsums
  | deliver _ _ _ hs => exact hs.repairable hinc hr hsums

theorem Repairable.tick {order : TickOrder Addr} (hinc : 2 ≤ r.cfg.grantIncrement)
    (ht : r.tick now order = some (r', acts)) (hr : r'.Reassembles D) (hsums : r'.SumsFit) :
    r'.Repairable := by
  obtain ⟨r₁, acts₂, hs, hcfg, _⟩ := tick_spec ht
  rw [← hcfg] at hinc
  exact hs.repairable hinc hr hsums

/-- The passes before the one over a key leave its entry as it is. -/
theorem Repairable.not_forces (h : r.Repairable) (now : ℕ) {ks : List (MsgKey Addr)}
    (hnd : ks.Nodup) {key : MsgKey Addr} (hkey : key ∉ ks) :
    (Loop.forEach (tickKey now) ks r).1.forcesGrant now key = false := by
  have hlocal := local_tickKey r.cfg r.completed now
  have hend := Loop.forEach_invariant hlocal.keeps ks ⟨rfl, rfl⟩
  have hview := hlocal.view_forEach hnd ⟨rfl, rfl⟩ key
  rw [if_neg hkey] at hview
  obtain ⟨hlook, hgranting⟩ := Prod.mk.inj hview
  rw [decide_eq_decide] at hgranting
  by_cases hin : key ∈ r.granting
  · obtain ⟨m, off, hm, _, hoff⟩ := h key hin
    rw [forcesGrant, hlook, hm, Option.any_some, hend.1, hoff]
    simp
  · simp [forcesGrant, hgranting, hin]

/-- What holds of the windows over canonical fragments, even if sums overflow. -/
structure Windowed (cfg : TransportConfig) (D : MsgKey Addr → List UInt8) (r : ReceiverCore Addr) :
    Prop where
  cfg_eq : r.cfg = cfg
  reassembles : r.Reassembles D
  credited : r.Credited

/-- The invariant of the windows, over canonical fragments. -/
structure Granted (cfg : TransportConfig) (D : MsgKey Addr → List UInt8) (r : ReceiverCore Addr) :
    Prop extends Windowed cfg D r where
  repairable : r.Repairable
  sums : r.SumsFit

variable {cfg : TransportConfig}

theorem Windowed.new (cfg : TransportConfig) (D : MsgKey Addr → List UInt8) :
    Windowed cfg D (ReceiverCore.new cfg : ReceiverCore Addr) where
  cfg_eq := rfl
  reassembles k m hm := by simp [ReceiverCore.new] at hm
  credited k m hm := by simp [ReceiverCore.new] at hm

theorem Granted.new (cfg : TransportConfig) (D : MsgKey Addr → List UInt8) :
    Granted cfg D (ReceiverCore.new cfg : ReceiverCore Addr) where
  toWindowed := Windowed.new cfg D
  repairable k hk := by cases hk
  sums k hk := by cases hk

theorem Windowed.bounds (h : Windowed cfg D r) {k : MsgKey Addr} {m : InMsg}
    (hm : r.incoming.lookup k = some m) :
    m.receivedBytes ≤ m.totalLen ∧ m.grantedTo ≤ m.totalLen ∧ m.totalLen < 2 ^ 32 :=
  ⟨(h.reassembles k m hm).1.le, (h.credited k m hm).ceiling, (h.credited k m hm).short⟩

theorem Windowed.call (h : Windowed cfg D r) {c : ReceiverCall Addr}
    (hc : c.Canonical r.cfg.packetSize D) (hcall : r.call c = some (r', acts)) :
    Windowed cfg D r' := by
  refine ⟨(call_cfg hcall).trans h.cfg_eq, ?_, ?_⟩
  · cases c with
    | handleData => exact h.reassembles.dataStep hc (handleData_spec hcall)
    | tick => exact h.reassembles.tick hcall
  · cases c with
    | handleData => exact h.credited.dataStep (handleData_spec hcall)
    | tick => exact h.credited.tick hcall

theorem Granted.call (h : Granted cfg D r) (hinc : 2 ≤ cfg.grantIncrement) {c : ReceiverCall Addr}
    (hc : c.Canonical r.cfg.packetSize D) (hno : r.overflows c = false)
    (hcall : r.call c = some (r', acts)) : Granted cfg D r' := by
  have hwindowed := h.toWindowed.call hc hcall
  have hsums : r'.SumsFit := h.sums.call hcall hno fun _ _ hm => hwindowed.bounds hm
  have hinc' : 2 ≤ r.cfg.grantIncrement := by rwa [h.cfg_eq]
  refine ⟨hwindowed, ?_, hsums⟩
  cases c with
  | handleData =>
    exact h.repairable.dataStep hinc' (handleData_spec hcall) hwindowed.reassembles hsums
  | tick => exact Repairable.tick hinc' hcall hwindowed.reassembles hsums

end ReceiverCore

namespace Session

/-- The calls of a run over canonical fragments of `D` in which no sum overflows. -/
def InRange (D : MsgKey Addr → List UInt8) (s : Session Addr) (c : ReceiverCall Addr) : Prop :=
  s.Canonical D c ∧ s.core.overflows c = false

theorem windowed_of_run {cfg : TransportConfig} {D : MsgKey Addr → List UInt8}
    {evs : List (ReceiverCall Addr)} {s : Session Addr}
    (h : Run Session.step (Session.Canonical D) (Session.new cfg) evs s) :
    s.core.Windowed cfg D := by
  apply h.invariant (P := fun s => s.core.Windowed cfg D)
  · intro s c s' hw hc hs
    obtain ⟨⟨r', acts⟩, hcall, rfl⟩ := Option.map_eq_some_iff.mp hs
    exact hw.call hc hcall
  · exact ReceiverCore.Windowed.new cfg D

theorem granted_of_run {cfg : TransportConfig} (hinc : 2 ≤ cfg.grantIncrement)
    {D : MsgKey Addr → List UInt8} {evs : List (ReceiverCall Addr)} {s : Session Addr}
    (h : Run Session.step (Session.InRange D) (Session.new cfg) evs s) :
    s.core.Granted cfg D := by
  apply h.invariant (P := fun s => s.core.Granted cfg D)
  · intro s c s' hg hc hs
    obtain ⟨⟨r', acts⟩, hcall, rfl⟩ := Option.map_eq_some_iff.mp hs
    exact hg.call hinc hc.1 hc.2 hcall
  · exact ReceiverCore.Granted.new cfg D

/-- **Every scheduled message stays repairable**, as long as no sum overflows. What is being
granted misses a fragment inside its window. A tick asks for the first one if the message is
late, and it never comes to a forced GRANT. -/
theorem stays_repairable (cfg : TransportConfig) (hinc : 2 ≤ cfg.grantIncrement)
    (D : MsgKey Addr → List UInt8) {evs : List (ReceiverCall Addr)} {s : Session Addr}
    (h : Run Session.step (Session.InRange D) (Session.new cfg) evs s) :
    (∀ k ∈ s.core.granting, ∃ m, s.core.incoming.lookup k = some m ∧ m.complete = false ∧
      ∃ i, m.received[i]? = some false ∧ i * cfg.packetSize < m.grantedTo) ∧
    ∀ now order, ∃ r' acts, s.core.tick now order = some (r', acts) ∧
      (∀ k ∈ s.core.granting, ∀ m, s.core.incoming.lookup k = some m →
        cfg.resendTimeout ≤ now - m.lastProgress →
        ∃ pkt : Packet, .send k.1 (pkt.encode []) ∈ acts ∧ pkt.typ = .resend ∧ pkt.msgId = k.2 ∧
          m.firstMissingOffset cfg.packetSize = some pkt.offset.toNat ∧ 1 ≤ pkt.length.toNat ∧
          pkt.offset.toNat + pkt.length.toNat ≤ m.grantedTo) ∧
      ∀ ks₁ k ks₂, order.keys.enum s.core.incoming.keys = ks₁ ++ k :: ks₂ →
        (Loop.forEach (ReceiverCore.tickKey now) ks₁ s.core).1.forcesGrant now k = false := by
  obtain ⟨⟨hcfg, hreassembles, hcredited⟩, hrepairable, -⟩ := granted_of_run hinc h
  constructor
  · intro k hk
    obtain ⟨m, off, hm, hopen, hoff⟩ := hrepairable k hk
    obtain ⟨i, _, rfl, hlt, hbit, _⟩ := InMsg.missingInWindow_spec hoff
    rw [hcfg] at hlt
    exact ⟨m, hm, hopen, i, hbit, hlt⟩
  · intro now order
    have hreturns : (s.core.tick now order).isSome :=
      ReceiverCore.tick_isSome fun k m hm _ => (hreassembles k m hm).1.le
    obtain ⟨⟨r', acts⟩, ht⟩ := Option.isSome_iff_exists.mp hreturns
    refine ⟨r', acts, ht, ?_, ?_⟩
    · intro k hk m hm hlate
      obtain ⟨m₀, off, hm₀, _, hoff⟩ := hrepairable k hk
      obtain rfl := Option.some.inj (hm₀.symm.trans hm)
      obtain ⟨hfirst, hwindow⟩ := Option.filter_eq_some_iff.mp hoff
      have hlt : off < m₀.grantedTo := of_decide_eq_true hwindow
      have hcredit := hcredited k m₀ hm
      have hle := hcredit.ceiling
      have hshort := hcredit.short
      rw [hcfg] at hfirst
      refine ⟨_, ReceiverCore.mem_tick_resend ht hm (by rwa [hcfg]) hoff, rfl, rfl, ?_⟩
      have hoffset : (UInt32.ofNat off).toNat = off := toNat_ofNat_u32 (by omega)
      have hlength : (UInt32.ofNat (min (m₀.grantedTo - off) cfg.grantIncrement)).toNat =
          min (m₀.grantedTo - off) cfg.grantIncrement := toNat_ofNat_u32 (by omega)
      simp only [InMsg.resendPacket, hcfg, hoffset, hlength]
      exact ⟨hfirst, by omega, by omega⟩
    · intro ks₁ k ks₂ hsplit
      have hnd := KeyMap.nodup_enum_keys s.core.incoming order.keys
      rw [hsplit, List.nodup_append] at hnd
      apply hrepairable.not_forces now hnd.1
      intro hk
      exact hnd.2.2 k hk k List.mem_cons_self rfl

/-- A message of three fragments. -/
def twelveBytes : List UInt8 := [1, 2, 3, 4, 5, 6, 7, 8, 9, 10, 11, 12]

def firstOfTwelve : ReceiverCall ℕ := .handleData 0 ⟨.data, 0, 1, 12, 0, 4⟩ [1, 2, 3, 4] 0 default

theorem canonical_firstOfTwelve : firstOfTwelve.Canonical 4 fun _ => twelveBytes :=
  ⟨rfl, by decide, by decide, rfl⟩

/-- Two of three fragments are missing, one of them inside the window. A tick asks for it. -/
theorem stays_repairable_twelve : ∃ s : Session ℕ,
    exec Session.step [firstOfTwelve] (Session.new tinyConfig) = some s ∧
    s.core.granting = [(0, 1)] ∧
    (∀ k ∈ s.core.granting, ∃ m, s.core.incoming.lookup k = some m ∧ m.complete = false ∧
      ∃ i, m.received[i]? = some false ∧ i * 4 < m.grantedTo) ∧
    ∀ now ≥ 1, ∀ order, ∃ r' acts, s.core.tick now order = some (r', acts) ∧
      (∃ pkt : Packet, .send 0 (pkt.encode []) ∈ acts ∧ pkt.typ = .resend ∧ pkt.msgId = 1 ∧
        pkt.offset.toNat = 4 ∧ 1 ≤ pkt.length.toNat ∧
        pkt.offset.toNat + pkt.length.toNat ≤ 6) ∧
      ∀ ks₁ k ks₂, order.keys.enum s.core.incoming.keys = ks₁ ++ k :: ks₂ →
        (Loop.forEach (ReceiverCore.tickKey now) ks₁ s.core).1.forcesGrant now k = false := by
  have hout : (exec Session.step [firstOfTwelve] (Session.new tinyConfig)).map
      (fun s => (s.core.granting, (s.core.incoming.lookup (0, 1)).map fun m =>
        (m.firstMissingOffset 4, m.grantedTo, m.lastProgress))) =
          some ([((0 : ℕ), 1)], some (some 4, 6, 0)) := rfl
  obtain ⟨s, hs, hview⟩ := Option.map_eq_some_iff.mp hout
  obtain ⟨hgranting, hentry⟩ := Prod.mk.inj hview
  obtain ⟨m, hm, hview⟩ := Option.map_eq_some_iff.mp hentry
  simp only [Prod.mk.injEq] at hview
  obtain ⟨hmissing, hwindow, hlast⟩ := hview
  have hrun : Run Session.step (Session.InRange fun _ => twelveBytes) (Session.new tinyConfig)
      [firstOfTwelve] s :=
    run_of_admitted hs ⟨⟨canonical_firstOfTwelve, rfl⟩, fun _ _ => trivial⟩
  obtain ⟨hrepairable, hticks⟩ := stays_repairable tinyConfig (by decide) _ hrun
  refine ⟨s, hs, hgranting, hrepairable, fun now hnow order => ?_⟩
  obtain ⟨r', acts, ht, hasks, hforces⟩ := hticks now order
  have hmem : ((0, 1) : MsgKey ℕ) ∈ s.core.granting := by
    rw [hgranting]
    exact List.mem_singleton.mpr rfl
  obtain ⟨pkt, hpkt, htyp, hid, hoffset, hlength, hend⟩ :=
    hasks (0, 1) hmem m hm (by rw [hlast]; exact hnow)
  have hfour : pkt.offset.toNat = 4 := (Option.some.inj (hmissing.symm.trans hoffset)).symm
  exact ⟨r', acts, ht, ⟨pkt, hpkt, htyp, hid, hfour, hlength, hwindow ▸ hend⟩, hforces⟩

/-- A message of four fragments. -/
def sixteenBytes : List UInt8 := [1, 2, 3, 4, 5, 6, 7, 8, 9, 10, 11, 12, 13, 14, 15, 16]

def firstOfSixteen : ReceiverCall ℕ := .handleData 0 ⟨.data, 0, 1, 16, 0, 4⟩ [1, 2, 3, 4] 0 default

theorem canonical_firstOfSixteen : firstOfSixteen.Canonical 4 fun _ => sixteenBytes :=
  ⟨rfl, by decide, by decide, rfl⟩

/-- A sum that wraps raises no window. The message is being granted and misses nothing inside
its window, and the tick comes to its forced GRANT, which grants nothing. -/
theorem stays_repairable_fails : ∃ s : Session ℕ,
    Run Session.step (Session.Canonical fun _ => sixteenBytes)
      (Session.new ReceiverCore.hugeConfig) [firstOfSixteen] s ∧
    s.core.granting = [(0, 1)] ∧
    (¬ ∃ m, s.core.incoming.lookup (0, 1) = some m ∧ m.complete = false ∧
      ∃ i, m.received[i]? = some false ∧ i * 4 < m.grantedTo) ∧
    s.core.forcesGrant 1 (0, 1) = true ∧
    ∃ r', s.core.tick 1 default =
      some (r', [.send 0 ((⟨.grant, 0, 1, 0, 4, 0⟩ : Packet).encode [])]) := by
  refine ⟨_, run_of_admitted rfl ⟨canonical_firstOfSixteen, fun _ _ => trivial⟩, rfl, ?_, rfl,
    _, rfl⟩
  rintro ⟨m, hm, -, i, hbit, hlt⟩
  have hgranted : m.grantedTo = 4 := by rw [← Option.some.inj hm]; rfl
  have hfirst : m.received[0]? = some true := by rw [← Option.some.inj hm]; rfl
  obtain rfl : i = 0 := by omega
  rw [hfirst] at hbit
  cases hbit

end Session
end AgentTransport
