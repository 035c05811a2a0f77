import AgentTransport.Credit

/-!
# The GRANTs of a message

A ledger keeps the GRANTs that were sent for an entry since it was made. As long as no sum
overflows, each one raises the window and says by how much, and each one but the last raises
it by more than half an increment, so there are few of them.
-/
namespace AgentTransport
open Transition

variable {Addr : Type} [DecidableEq Addr]

/-- The GRANTs that actions send for a message. -/
def grantsFor (key : MsgKey Addr) (acts : List (Action Addr)) : List Packet :=
  acts.filterMap fun
    | .send dest bytes =>
      match Packet.decode bytes with
      | .ok (pkt, _) =>
        if dest = key.1 ∧ pkt.typ = .grant ∧ pkt.msgId = key.2 then some pkt else none
      | .error _ => none
    | .deliver _ _ _ => none

section Grants

variable {key : MsgKey Addr} {acts acts' : List (Action Addr)}

@[simp] theorem grantsFor_nil (key : MsgKey Addr) : grantsFor key [] = [] := rfl

@[simp] theorem grantsFor_deliver (src : Addr) (msgId : UInt64) (data : List UInt8) :
    grantsFor key (.deliver src msgId data :: acts) = grantsFor key acts := rfl

theorem grantsFor_append :
    grantsFor key (acts ++ acts') = grantsFor key acts ++ grantsFor key acts' :=
  List.filterMap_append

/-- A packet without a payload. -/
theorem grantsFor_send {dest : Addr} {pkt : Packet} (htyp : pkt.typ ≠ .data) :
    grantsFor key [.send dest (pkt.encode [])] =
      if dest = key.1 ∧ pkt.typ = .grant ∧ pkt.msgId = key.2 then [pkt] else [] := by
  have hdec : Packet.decode (pkt.encode []) = .ok (pkt, []) :=
    Packet.decode_encode fun hdata => absurd hdata htyp
  simp only [grantsFor, List.filterMap_cons, hdec, List.filterMap_nil]
  split_ifs <;> rfl

/-- Other packets are no GRANTs. -/
theorem grantsFor_of_emitsOnly (h : EmitsOnly (· ≠ .grant) acts) : grantsFor key acts = [] := by
  rw [grantsFor, List.filterMap_eq_nil_iff]
  intro a ha
  cases a with
  | deliver => rfl
  | send dest bytes =>
    obtain ⟨pkt, q, rfl, hne⟩ := h dest bytes ha
    dsimp only
    cases hdec : Packet.decode (pkt.encode q) with
    | error => rfl
    | ok x =>
      obtain ⟨hpkt, _⟩ := Packet.eq_of_decode_encode hdec
      simp [hpkt, hne]

/-- The GRANTs of a walk over keys that sends one message of each key at most. -/
theorem grantsFor_flatMap {ks : List (MsgKey Addr)} (hnd : ks.Nodup)
    {f : MsgKey Addr → List (Action Addr)} (hf : ∀ k, k ≠ key → grantsFor key (f k) = []) :
    grantsFor key (ks.flatMap f) = if key ∈ ks then grantsFor key (f key) else [] := by
  induction ks with
  | nil => rfl
  | cons k ks ih =>
    obtain ⟨hk, hnd⟩ := List.nodup_cons.mp hnd
    rw [List.flatMap_cons, grantsFor_append, ih hnd]
    by_cases heq : k = key
    · subst heq
      simp [hk]
    · rw [hf k heq]
      simp [Ne.symm heq]

theorem grantsFor_issueGrant_of_ne {k : MsgKey Addr} (hk : k ≠ key) (cfg : TransportConfig)
    (now : ℕ) (m : InMsg) : grantsFor key (m.issueGrant cfg k now false).2 = [] := by
  rcases InMsg.issueGrant_cases cfg k now false m with hg | hg
  · rw [hg]
    rfl
  · rw [hg, grantsFor_send (by simp [InMsg.grantPacket])]
    apply if_neg
    rintro ⟨hdest, _, hid⟩
    exact hk (Prod.ext hdest hid)

end Grants

/-- The GRANTs raise a window from `w₀`, each to its offset and by its length. -/
inductive Raises (w₀ : ℕ) : List Packet → ℕ → Prop
  | nil : Raises w₀ [] w₀
  | snoc {grants : List Packet} {w : ℕ} {pkt : Packet} (h : Raises w₀ grants w)
      (hlt : w < pkt.offset.toNat) (hlen : pkt.length.toNat = pkt.offset.toNat - w) :
      Raises w₀ (grants ++ [pkt]) pkt.offset.toNat

theorem Raises.offset_le {w₀ w : ℕ} {grants : List Packet} (h : Raises w₀ grants w) :
    ∀ pkt ∈ grants, pkt.offset.toNat ≤ w := by
  induction h with
  | nil =>
    intro pkt hpkt
    cases hpkt
  | snoc _ hlt _ ih =>
    intro pkt hpkt
    rcases List.mem_append.mp hpkt with hold | hnew
    · exact (ih pkt hold).trans hlt.le
    · rw [List.mem_singleton.mp hnew]

/-- The offsets of the GRANTs grow. -/
theorem Raises.offsets {w₀ w : ℕ} {grants : List Packet} (h : Raises w₀ grants w) :
    (grants.map fun pkt => pkt.offset.toNat).Pairwise (· < ·) := by
  induction h with
  | nil => exact List.Pairwise.nil
  | snoc h hlt _ ih =>
    rw [List.map_append, List.pairwise_append]
    refine ⟨ih, List.pairwise_singleton _ _, ?_⟩
    intro x hx y hy
    obtain ⟨pkt, hpkt, rfl⟩ := List.mem_map.mp hx
    obtain rfl := List.mem_singleton.mp hy
    exact Nat.lt_of_le_of_lt (h.offset_le pkt hpkt) hlt

namespace InMsg

variable {cfg : TransportConfig} {m m' : InMsg} {grants : List Packet}

/-- The GRANTs of an entry: only the one that reaches the end of the message may raise
the window by less than half an increment. -/
structure Account (cfg : TransportConfig) (m : InMsg) (grants : List Packet) : Prop where
  raises : Raises (min cfg.unscheduledBytes m.totalLen) grants m.grantedTo
  few : cfg.grantIncrement * grants.length ≤
    2 * m.grantedTo + if m.grantedTo = m.totalLen then cfg.grantIncrement else 0

theorem Account.new (cfg : TransportConfig) (totalLen now : ℕ) :
    (InMsg.new cfg totalLen now).Account cfg [] where
  raises := Raises.nil
  few := Nat.zero_le _

theorem Account.of_window (h : m.Account cfg grants) (hlen : m'.totalLen = m.totalLen)
    (hwindow : m'.grantedTo = m.grantedTo) : m'.Account cfg grants := by
  constructor
  · rw [hlen, hwindow]
    exact h.raises
  · rw [hlen, hwindow]
    exact h.few

/-- The scheduler grants an entry. -/
theorem Account.issueGrant (h : m.Account cfg grants) (hcredit : m.Credit cfg)
    (hfit : m.SumFits cfg) (hopen : m.grantedTo < m.totalLen) (key : MsgKey Addr) (now : ℕ) :
    (m.issueGrant cfg key now false).1.Account cfg
      (grants ++ grantsFor key (m.issueGrant cfg key now false).2) := by
  rcases issueGrant_unforced cfg key now m with hg | ⟨hthrottle, hlt, hg⟩
  · rw [hg, grantsFor_nil, List.append_nil]
    exact h
  · rw [hg, grantsFor_send (by simp [grantPacket]), if_pos ⟨rfl, rfl, rfl⟩]
    have hceiling : m.grantTarget cfg ≤ m.totalLen := by
      have hceiling := hcredit.ceiling
      rw [hfit.grantTarget]
      omega
    have hshort := hcredit.short
    have hoffset : (m.grantPacket key (m.grantTarget cfg)).offset.toNat = m.grantTarget cfg :=
      toNat_ofNat_u32 (by omega)
    have hlength : (m.grantPacket key (m.grantTarget cfg)).length.toNat =
        m.grantTarget cfg - m.grantedTo := toNat_ofNat_u32 (by omega)
    constructor
    · have hraise : m.grantedTo < (m.grantPacket key (m.grantTarget cfg)).offset.toNat := by
        rwa [hoffset]
      have hraises := h.raises.snoc hraise (by rw [hoffset, hlength])
      rw [hoffset] at hraises
      exact hraises
    · have hfew := h.few
      rw [if_neg hopen.ne] at hfew
      have hhalf : m.grantTarget cfg = m.totalLen ∨
          cfg.grantIncrement ≤ 2 * (m.grantTarget cfg - m.grantedTo) := by
        rw [hfit.grantTarget] at hlt ⊢
        omega
      rw [List.length_append, List.length_singleton, Nat.mul_succ]
      dsimp only
      split_ifs with hend
      · omega
      · have hbig := hhalf.resolve_left hend
        omega

/-- There are at most two GRANTs for each increment, and one more. -/
theorem Account.length_le (h : m.Account cfg grants) (hcredit : m.Credit cfg)
    (hinc : 0 < cfg.grantIncrement) :
    grants.length ≤ 1 + 2 * m.totalLen / cfg.grantIncrement := by
  have hbound : grants.length * cfg.grantIncrement ≤ 2 * m.totalLen + cfg.grantIncrement := by
    have hfew := h.few
    have hceiling := hcredit.ceiling
    rw [Nat.mul_comm]
    split_ifs at hfew <;> omega
  rw [← Nat.le_div_iff_mul_le hinc, Nat.add_div_right _ hinc] at hbound
  omega

end InMsg

namespace ReceiverCore

variable {r r' : ReceiverCore Addr} {src : Addr} {pkt : Packet} {payload : List UInt8} {now : ℕ}
  {acts : List (Action Addr)} {g : MsgKey Addr → List Packet}

/-- `g` has the GRANTs of the entries. -/
def Accounts (r : ReceiverCore Addr) (g : MsgKey Addr → List Packet) : Prop :=
  ∀ k m, r.incoming.lookup k = some m → m.Account r.cfg (g k)

theorem Scheduled.grantsFor_eq (h : Scheduled r now r' acts) (key : MsgKey Addr) :
    grantsFor key acts = if key ∈ r'.granting then
      ((r.incoming.lookup key).map fun m =>
        grantsFor key (m.issueGrant r.cfg key now false).2).getD [] else [] := by
  rw [h.acts, grantsFor_flatMap h.nodup]
  · cases r.incoming.lookup key <;> rfl
  · intro k hk
    cases r.incoming.lookup k with
    | none => rfl
    | some m => exact grantsFor_issueGrant_of_ne hk r.cfg now m

/-- A round of scheduling is entered for each message that it grants. -/
theorem Accounts.scheduled (h : r.Accounts g) (hcredited : r.Credited)
    (hs : Scheduled r now r' acts) (hsums : r'.SumsFit) :
    ∀ k m', r'.incoming.lookup k = some m' → m'.Account r.cfg (g k ++ grantsFor k acts) := by
  intro k m' hm'
  obtain ⟨m, hm, rfl⟩ := hs.entry hm'
  rw [hs.grantsFor_eq k, hm, Option.map_some, Option.getD_some]
  split_ifs with hk
  · obtain ⟨m₁, hm₁, hw⟩ := hs.wants k hk
    obtain rfl := Option.some.inj (hm.symm.trans hm₁)
    have hfit := hsums k hk _ hm'
    rw [InMsg.SumFits, hs.cfg] at hfit
    rw [if_pos hk, (InMsg.issueGrant_content r.cfg k now false m).receivedBytes] at hfit
    exact (h k m hm).issueGrant (hcredited k m hm) hfit (InMsg.wantsGrant_iff.mp hw).2 k now
  · rw [List.append_nil]
    exact h k m hm

theorem Accounts.entryFor (h : r.Accounts g) (hidle : ∀ k, k ∉ r.incoming → g k = [])
    (src : Addr) (pkt : Packet) (now : ℕ) :
    (r.entryFor src pkt now).Account r.cfg (g (src, pkt.msgId)) := by
  apply entryFor_cases (P := fun m => m.Account r.cfg (g (src, pkt.msgId)))
  · exact h _
  · intro hnot
    rw [hidle _ hnot]
    exact InMsg.Account.new r.cfg pkt.msgLen.toNat now

theorem Accounts.dataStep (h : r.Accounts g) (hidle : ∀ k, k ∉ r.incoming → g k = [])
    (hcredited : r.Credited) (hd : DataStep r src pkt payload now r' acts) (hsums : r'.SumsFit) :
    ∀ k m', r'.incoming.lookup k = some m' → m'.Account r.cfg (g k ++ grantsFor k acts) := by
  cases hd with
  | duplicate =>
    intro k m' hm'
    rw [grantsFor_nil, List.append_nil]
    exact h k m' hm'
  | refused =>
    intro k m' hm'
    rw [grantsFor_send (by simp [busyPacket]), if_neg (by simp [busyPacket]), List.append_nil]
    exact h k m' hm'
  | @store m r' acts hlive hroom hpos hm hopen hs =>
    have hentry : ∀ k m₁, (r.enter (src, pkt.msgId) m).incoming.lookup k = some m₁ →
        m₁.Account r.cfg (g k) ∧ m₁.Credit r.cfg := by
      intro k m₁ hm₁
      rw [enter, KeyMap.lookup_insert_eq] at hm₁
      split_ifs at hm₁ with hk
      · obtain rfl := Option.some.inj hm₁
        rw [hk]
        refine ⟨?_, (hcredited.entryFor src pkt now).accept hm⟩
        have haccount := h.entryFor hidle src pkt now
        rcases InMsg.accept_cases hm with ⟨_, rfl⟩ | ⟨_, _, rfl⟩
        · exact haccount
        · exact haccount.of_window rfl rfl
      · exact ⟨h k m₁ hm₁, hcredited k m₁ hm₁⟩
    have haccounts : (r.enter (src, pkt.msgId) m).Accounts g := fun k m₁ hm₁ => (hentry k m₁ hm₁).1
    exact haccounts.scheduled (fun k m₁ hm₁ => (hentry k m₁ hm₁).2) hs hsums
  | @deliver data r' acts hlive hroom hdata hs =>
    have hentry : ∀ k m₁, (r.deliver (src, pkt.msgId) src data).1.incoming.lookup k = some m₁ →
        r.incoming.lookup k = some m₁ := by
      intro k m₁ hm₁
      simp only [ReceiverCore.deliver, KeyMap.lookup_erase_eq] at hm₁
      split_ifs at hm₁
      exact hm₁
    have haccounts : (r.deliver (src, pkt.msgId) src data).1.Accounts g :=
      fun k m₁ hm₁ => h k m₁ (hentry k m₁ hm₁)
    intro k m' hm'
    rw [grantsFor_deliver]
    exact haccounts.scheduled (fun k m₁ hm₁ => hcredited k m₁ (hentry k m₁ hm₁)) hs hsums k m' hm'

omit [DecidableEq Addr] in
/-- A pass of `tick` grants nothing, if what is being granted has a gap in its window. -/
theorem tickEntry_quiet {cfg : TransportConfig} {key : MsgKey Addr} {granted : Bool} {m : InMsg}
    (h : granted = true → m.missingInWindow cfg ≠ none) :
    (∀ m', (tickEntry cfg now key granted m).1 = some m' →
      m'.totalLen = m.totalLen ∧ m'.grantedTo = m.grantedTo) ∧
    ∀ dest bytes, .send dest bytes ∈ (tickEntry cfg now key granted m).2 →
      ∃ off, bytes = (m.resendPacket cfg key off).encode [] := by
  unfold tickEntry
  by_cases hquiet : now - m.lastProgress < cfg.resendTimeout
  · rw [if_pos hquiet]
    refine ⟨fun m' hm' => ?_, fun dest bytes hmem => absurd hmem List.not_mem_nil⟩
    obtain rfl := Option.some.inj hm'
    exact ⟨rfl, rfl⟩
  rw [if_neg hquiet]
  cases hmiss : m.missingInWindow cfg with
  | some off =>
    constructor
    · intro m' hm'
      dsimp only at hm'
      split_ifs at hm'
      obtain rfl := Option.some.inj hm'
      exact ⟨rfl, rfl⟩
    · intro dest bytes hmem
      exact ⟨off, (Action.send.inj (List.mem_singleton.mp hmem)).2⟩
  | none =>
    have hfree : granted = false := by
      cases granted with
      | false => rfl
      | true => exact absurd hmiss (h rfl)
    simp only [hfree, Bool.false_eq_true, if_false]
    split_ifs
    · refine ⟨fun m' hm' => ?_, fun dest bytes hmem => absurd hmem List.not_mem_nil⟩
      obtain rfl := Option.some.inj hm'
      exact ⟨rfl, rfl⟩
    · refine ⟨fun m' hm' => ?_, fun dest bytes hmem => absurd hmem List.not_mem_nil⟩
      obtain rfl := Option.some.inj hm'
      exact ⟨rfl, rfl⟩

theorem Accounts.tick {order : TickOrder Addr} (h : r.Accounts g) (hcredited : r.Credited)
    (hrepairable : r.Repairable) (ht : r.tick now order = some (r', acts)) (hsums : r'.SumsFit) :
    ∀ k m', r'.incoming.lookup k = some m' → m'.Account r.cfg (g k ++ grantsFor k acts) := by
  obtain ⟨r₁, acts₂, hs, hcfg, _, hlook, rfl⟩ := tick_spec ht
  have hgap : ∀ k m, r.incoming.lookup k = some m →
      decide (k ∈ r.granting) = true → m.missingInWindow r.cfg ≠ none := by
    intro k m hm hk
    obtain ⟨m₀, off, hm₀, _, hoff⟩ := hrepairable k (of_decide_eq_true hk)
    obtain rfl := Option.some.inj (hm₀.symm.trans hm)
    rw [hoff]
    simp
  have hentry : ∀ k m₁, r₁.incoming.lookup k = some m₁ →
      m₁.Account r₁.cfg (g k) ∧ m₁.Credit r₁.cfg := by
    intro k m₁ hm₁
    rw [hlook k] at hm₁
    obtain ⟨m, hm, hpass⟩ := Option.bind_eq_some_iff.mp hm₁
    rw [hcfg]
    obtain ⟨hlen, hwindow⟩ := (tickEntry_quiet (hgap k m hm)).1 m₁ hpass
    exact ⟨(h k m hm).of_window hlen hwindow, (hcredited k m hm).tickEntry hpass⟩
  have hnone : ∀ key, grantsFor key ((order.keys.enum r.incoming.keys).flatMap fun k =>
      ((r.incoming.lookup k).map fun m =>
        (tickEntry r.cfg now k (decide (k ∈ r.granting)) m).2).getD []) = [] := by
    intro key
    apply grantsFor_of_emitsOnly
    intro dest bytes hmem
    obtain ⟨k, _, hk⟩ := List.mem_flatMap.mp hmem
    cases hm : r.incoming.lookup k with
    | none =>
      rw [hm] at hk
      cases hk
    | some m =>
      rw [hm] at hk
      obtain ⟨off, hbytes⟩ := (tickEntry_quiet (hgap k m hm)).2 dest bytes hk
      exact ⟨_, _, hbytes, by simp [InMsg.resendPacket]⟩
  have haccounts : r₁.Accounts g := fun k m₁ hm₁ => (hentry k m₁ hm₁).1
  intro k m' hm'
  rw [grantsFor_append, hnone, List.nil_append, ← hcfg]
  exact haccounts.scheduled (fun k m₁ hm₁ => (hentry k m₁ hm₁).2) hs hsums k m' hm'

end ReceiverCore

/-- A receiver with the GRANTs that it has sent for its entries. -/
structure Ledger (Addr : Type) where
  core : ReceiverCore Addr
  grants : MsgKey Addr → List Packet

namespace Ledger

def new (cfg : TransportConfig) : Ledger Addr := ⟨ReceiverCore.new cfg, fun _ => []⟩

/-- The GRANTs of an entry are forgotten with the entry. -/
def step (s : Ledger Addr) (c : ReceiverCall Addr) : Option (Ledger Addr) :=
  (s.core.call c).map fun next =>
    ⟨next.1, fun k => if k ∈ next.1.incoming then s.grants k ++ grantsFor k next.2 else []⟩

/-- The calls of a run over canonical fragments of `D`. -/
def Canonical (D : MsgKey Addr → List UInt8) (s : Ledger Addr) (c : ReceiverCall Addr) : Prop :=
  c.Canonical s.core.cfg.packetSize D

/-- Those in which no sum overflows. -/
def InRange (D : MsgKey Addr → List UInt8) (s : Ledger Addr) (c : ReceiverCall Addr) : Prop :=
  s.Canonical D c ∧ s.core.overflows c = false

structure Inv (cfg : TransportConfig) (D : MsgKey Addr → List UInt8) (s : Ledger Addr) :
    Prop where
  granted : s.core.Granted cfg D
  accounts : s.core.Accounts s.grants
  idle : ∀ k, k ∉ s.core.incoming → s.grants k = []

variable {cfg : TransportConfig} {D : MsgKey Addr → List UInt8} {s s' : Ledger Addr}

theorem Inv.new (cfg : TransportConfig) (D : MsgKey Addr → List UInt8) :
    Inv cfg D (Ledger.new cfg : Ledger Addr) where
  granted := ReceiverCore.Granted.new cfg D
  accounts k m hm := by simp [Ledger.new, ReceiverCore.new] at hm
  idle _ _ := rfl

theorem Inv.step (h : Inv cfg D s) (hinc : 2 ≤ cfg.grantIncrement) {c : ReceiverCall Addr}
    (hc : s.InRange D c) (hs : s.step c = some s') : Inv cfg D s' := by
  obtain ⟨⟨r', acts⟩, hcall, rfl⟩ := Option.map_eq_some_iff.mp hs
  have hgranted := h.granted.call hinc hc.1 hc.2 hcall
  refine ⟨hgranted, fun k m' hm' => ?_, fun k hk => if_neg hk⟩
  dsimp only at hm' ⊢
  rw [if_pos (KeyMap.mem_iff_lookup.mpr ⟨m', hm'⟩), hgranted.cfg_eq, ← h.granted.cfg_eq]
  cases c with
  | handleData src pkt payload now order =>
    exact h.accounts.dataStep h.idle h.granted.credited (ReceiverCore.handleData_spec hcall)
      hgranted.sums k m' hm'
  | tick now order =>
    exact h.accounts.tick h.granted.credited h.granted.repairable hcall hgranted.sums k m' hm'

/-- **Credit is bounded, cumulative and throttled**, for every entry of every run in which no sum
overflows. -/
theorem credit_throttled (cfg : TransportConfig) (hinc : 2 ≤ cfg.grantIncrement)
    (D : MsgKey Addr → List UInt8) {evs : List (ReceiverCall Addr)} {s : Ledger Addr}
    (h : Run Ledger.step (Ledger.InRange D) (Ledger.new cfg) evs s) {k : MsgKey Addr} {m : InMsg}
    (hm : s.core.incoming.lookup k = some m) :
    min cfg.unscheduledBytes m.totalLen ≤ m.grantedTo ∧ m.grantedTo ≤ m.totalLen ∧
    m.grantedTo ≤ m.receivedBytes + max cfg.unscheduledBytes cfg.grantIncrement ∧
    Raises (min cfg.unscheduledBytes m.totalLen) (s.grants k) m.grantedTo ∧
    ((s.grants k).map fun pkt => pkt.offset.toNat).Pairwise (· < ·) ∧
    (s.grants k).length ≤ 1 + 2 * m.totalLen / cfg.grantIncrement := by
  have hinv : Inv cfg D s :=
    h.invariant (fun _ _ _ hi hok hs => hi.step hinc hok hs) (Inv.new cfg D)
  have hcredit := hinv.granted.credited k m hm
  have haccount := hinv.accounts k m hm
  rw [hinv.granted.cfg_eq] at hcredit haccount
  exact ⟨hcredit.floor, hcredit.ceiling, hcredit.ahead, haccount.raises, haccount.raises.offsets,
    haccount.length_le hcredit (by omega)⟩

def secondOfTwelve : ReceiverCall ℕ := .handleData 0 ⟨.data, 0, 1, 12, 4, 4⟩ [5, 6, 7, 8] 0 default

/-- Two of three fragments have come, each with a GRANT. -/
theorem credit_throttled_twelve : ∃ (s : Ledger ℕ) (m : InMsg),
    exec Ledger.step [Session.firstOfTwelve, secondOfTwelve] (Ledger.new tinyConfig) = some s ∧
    s.core.incoming.lookup (0, 1) = some m ∧
    ((s.grants (0, 1)).map fun pkt => pkt.offset.toNat) = [6, 10] ∧
    min 4 m.totalLen ≤ m.grantedTo ∧ m.grantedTo ≤ m.totalLen ∧
    m.grantedTo ≤ m.receivedBytes + max 4 2 ∧
    Raises (min 4 m.totalLen) (s.grants (0, 1)) m.grantedTo ∧
    ((s.grants (0, 1)).map fun pkt => pkt.offset.toNat).Pairwise (· < ·) ∧
    (s.grants (0, 1)).length ≤ 1 + 2 * m.totalLen / 2 := by
  have hout : ∃ s : Ledger ℕ,
      exec Ledger.step [Session.firstOfTwelve, secondOfTwelve] (Ledger.new tinyConfig) = some s ∧
      (s.core.incoming.lookup (0, 1)).isSome ∧
      ((s.grants (0, 1)).map fun pkt => pkt.offset.toNat) = [6, 10] := ⟨_, rfl, rfl, rfl⟩
  obtain ⟨s, hs, hsome, hoffsets⟩ := hout
  obtain ⟨m, hm⟩ := Option.isSome_iff_exists.mp hsome
  have hfirst : Ledger.InRange (fun _ => Session.twelveBytes) (Ledger.new tinyConfig)
      Session.firstOfTwelve := ⟨Session.canonical_firstOfTwelve, rfl⟩
  have hsecond : secondOfTwelve.Canonical 4 fun _ => Session.twelveBytes :=
    ⟨rfl, by decide, by decide, rfl⟩
  have hrun : Run Ledger.step (Ledger.InRange fun _ => Session.twelveBytes)
      (Ledger.new tinyConfig) [Session.firstOfTwelve, secondOfTwelve] s := by
    apply run_of_admitted hs
    refine ⟨hfirst, fun t ht => ⟨?_, fun _ _ => trivial⟩⟩
    obtain rfl := Option.some.inj ht
    exact ⟨hsecond, rfl⟩
  exact ⟨s, m, hs, hm, hoffsets, credit_throttled tinyConfig (by decide) _ hrun hm⟩

/-- A sum that wraps raises no window, and each tick sends the same GRANT. -/
theorem credit_throttled_fails : ∃ (s : Ledger ℕ) (m : InMsg),
    Run Ledger.step (Ledger.Canonical fun _ => Session.sixteenBytes)
      (Ledger.new ReceiverCore.hugeConfig)
      [Session.firstOfSixteen, .tick 1 default, .tick 2 default] s ∧
    s.core.incoming.lookup (0, 1) = some m ∧
    ((s.grants (0, 1)).map fun pkt => pkt.offset.toNat) = [4, 4] ∧
    1 + 2 * m.totalLen / ReceiverCore.hugeConfig.grantIncrement < (s.grants (0, 1)).length :=
  ⟨_, _, run_of_admitted rfl ⟨Session.canonical_firstOfSixteen, fun _ _ =>
    ⟨trivial, fun _ _ => ⟨trivial, fun _ _ => trivial⟩⟩⟩, rfl, rfl, by decide⟩

end Ledger
end AgentTransport
