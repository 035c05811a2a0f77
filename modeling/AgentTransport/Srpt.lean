import AgentTransport.Determinism

/-!
# Shortest remaining first

A round of scheduling grants the candidates with the fewest remaining bytes, as many as the
overcommit allows, and besides them every candidate that has waited too long. Ties are
broken by the order of the map, so the first of these is a set with a property and not one
certain set. Of the granted messages those with little credit left get a larger window,
one increment after what has come in. A round does this exactly if none of the sums that
it needs overflows.
-/
namespace AgentTransport
open StableSort

variable {Addr : Type} [DecidableEq Addr]

namespace InMsg

variable {cfg : TransportConfig} {m : InMsg}

/-- The window that an increment after what has come in amounts to. -/
def exactTarget (cfg : TransportConfig) (m : InMsg) : ℕ :=
  max (min (m.receivedBytes + cfg.grantIncrement) m.totalLen) m.grantedTo

/-- Less than half an increment of credit is left, and the window can still grow. -/
def RunsLow (cfg : TransportConfig) (m : InMsg) : Prop :=
  m.grantedTo - m.receivedBytes < cfg.grantIncrement / 2 ∧
    m.grantedTo < max (min (m.receivedBytes + cfg.grantIncrement) m.totalLen) m.grantedTo

instance (cfg : TransportConfig) (m : InMsg) : Decidable (m.RunsLow cfg) :=
  inferInstanceAs (Decidable (_ ∧ _))

theorem exactTarget_le (cfg : TransportConfig) (hw : m.wantsGrant) :
    m.exactTarget cfg ≤ m.totalLen := by
  have hlt := (wantsGrant_iff.mp hw).2
  unfold exactTarget
  omega

omit [DecidableEq Addr] in
/-- A grant whose sum does not overflow. -/
theorem issueGrant_exact (hno : m.sumOverflows cfg false = false) (key : MsgKey Addr) (now : ℕ) :
    m.issueGrant cfg key now false =
      if m.RunsLow cfg then
        ({ m with grantedTo := m.exactTarget cfg, lastGrant := now },
          [.send key.1 ((m.grantPacket key (m.exactTarget cfg)).encode [])])
      else (m, []) := by
  rw [issueGrant_eq]
  by_cases hlow : m.grantedTo - m.receivedBytes < cfg.grantIncrement / 2
  · have hfit : m.SumFits cfg := by
      simpa [sumOverflows, hlow, SumFits] using hno
    rw [hfit.grantTarget]
    rfl
  · rw [if_neg fun h => hlow h.1, if_neg fun h => hlow h.1]

omit [DecidableEq Addr] in
/-- A grant whose sum overflows leaves the window short of the end of the message, where one
increment would reach it. -/
theorem issueGrant_short (hover : m.sumOverflows cfg false) (hw : m.wantsGrant)
    (hcount : m.receivedBytes ≤ m.totalLen) (hsize : m.totalLen < 2 ^ 64) (key : MsgKey Addr)
    (now : ℕ) :
    m.RunsLow cfg ∧ m.exactTarget cfg = m.totalLen ∧
      (m.issueGrant cfg key now false).1.grantedTo < m.totalLen := by
  obtain ⟨hne, hopen⟩ := wantsGrant_iff.mp hw
  have hinc := cfg.grantIncrement_lt
  simp only [sumOverflows, Bool.false_or, Bool.and_eq_true, decide_eq_true_eq] at hover
  obtain ⟨hlow, hbig⟩ := hover
  refine ⟨⟨hlow, by omega⟩, by unfold exactTarget; omega, ?_⟩
  rcases issueGrant_cases cfg key now false m with hg | hg
  · rw [hg]
    exact hopen
  · have hwrapped : (m.receivedBytes + cfg.grantIncrement) % 2 ^ 64 < m.totalLen := by omega
    rw [hg]
    simp only [grantTarget]
    omega

end InMsg

namespace ReceiverCore

/-- The candidates: incomplete, and not granted to the end. -/
def wanting (r : ReceiverCore Addr) : Finset (MsgKey Addr) :=
  r.incoming.keys.toFinset.filter fun k => (r.incoming.lookup k).any InMsg.wantsGrant

theorem mem_wanting {r : ReceiverCore Addr} {k : MsgKey Addr} :
    k ∈ r.wanting ↔ ∃ m, r.incoming.lookup k = some m ∧ m.wantsGrant := by
  unfold wanting
  rw [Finset.mem_filter, List.mem_toFinset, ← AList.mem_keys, KeyMap.mem_iff_lookup,
    Option.any_eq_true]
  constructor
  · rintro ⟨_, m, hm, hw⟩
    exact ⟨m, hm, hw⟩
  · rintro ⟨m, hm, hw⟩
    exact ⟨⟨m, hm⟩, m, hm, hw⟩

/-- A set of candidates with the fewest remaining bytes, as many as may be granted. -/
structure Shortest (r : ReceiverCore Addr) (S : Finset (MsgKey Addr)) : Prop where
  subset : S ⊆ r.wanting
  card : S.card = min (max r.cfg.overcommit 1) r.wanting.card
  least : ∀ k ∈ S, ∀ k' ∉ S, ∀ m m', r.incoming.lookup k = some m →
    r.incoming.lookup k' = some m' → m'.wantsGrant →
      m.totalLen - m.receivedBytes ≤ m'.totalLen - m'.receivedBytes

/-- What a round of scheduling has to do. -/
structure Srpt (r : ReceiverCore Addr) (now : ℕ) (r' : ReceiverCore Addr)
    (acts : List (Action Addr)) : Prop where
  cfg : r'.cfg = r.cfg
  completed : r'.completed = r.completed
  nodup : r'.granting.Nodup
  /-- The shortest candidates, and the ones that have waited too long. -/
  granting : ∃ S, r.Shortest S ∧ ∀ k, k ∈ r'.granting ↔ k ∈ S ∨
    ∃ m, r.incoming.lookup k = some m ∧ m.wantsGrant ∧ r.cfg.starveThreshold ≤ now - m.lastGrant
  /-- A granted message that runs low gets a larger window. Nothing else changes. -/
  entry : ∀ k, r'.incoming.lookup k = (r.incoming.lookup k).map fun m =>
    if k ∈ r'.granting ∧ m.RunsLow r.cfg then
      { m with grantedTo := m.exactTarget r.cfg, lastGrant := now }
    else m
  /-- One GRANT for each larger window, and nothing else. -/
  acts : acts = r'.granting.filterMap fun k =>
    ((r.incoming.lookup k).filter fun m => m.RunsLow r.cfg).map fun m =>
      .send k.1 ((m.grantPacket k (m.exactTarget r.cfg)).encode [])
  /-- The header states the new window, as any length that came in a header fits one. -/
  offset : ∀ k m, r.incoming.lookup k = some m → m.wantsGrant → m.totalLen < 2 ^ 32 →
    (m.grantPacket k (m.exactTarget r.cfg)).offset.toNat = m.exactTarget r.cfg

variable {r r' : ReceiverCore Addr} {now : ℕ} {order : ScheduleOrder Addr}
  {cands : List (MsgKey Addr × ℕ)} {acts : List (Action Addr)}

theorem card_wanting (h : r.candidates order.cands = some cands) :
    r.wanting.card = cands.length := by
  obtain ⟨hnd, hmem⟩ := candidates_keys h
  have heq : r.wanting = (cands.map Prod.fst).toFinset := by
    ext k
    rw [mem_wanting, List.mem_toFinset, hmem]
  rw [heq, List.toFinset_card_of_nodup hnd, List.length_map]

/-- The head of the sorted candidates is a set of shortest ones. -/
theorem shortest_spec (h : r.candidates order.cands = some cands) :
    r.Shortest (shortest (max r.cfg.overcommit 1) cands).toFinset := by
  obtain ⟨hnd, hmem⟩ := candidates_keys h
  obtain ⟨l, hperm, hsub⟩ := shortest_sublist_perm (max r.cfg.overcommit 1) cands
  constructor
  · intro k hk
    have hcand := hperm.mem_iff.mp (hsub.subset (List.mem_toFinset.mp hk))
    exact mem_wanting.mpr ((hmem k).mp hcand)
  · have hshort : (shortest (max r.cfg.overcommit 1) cands).Nodup :=
      hsub.nodup (hperm.nodup_iff.mpr hnd)
    rw [List.toFinset_card_of_nodup hshort, length_shortest, card_wanting h]
  · intro k hk k' hk' m m' hm hm' hw'
    obtain ⟨⟨k₁, n⟩, hn, rfl⟩ := List.mem_map.mp (List.mem_toFinset.mp hk)
    have hin : (k₁, n) ∈ cands := mem_sortBy.mp (List.mem_of_mem_take hn)
    obtain rfl := left_of_mem_candidates h hm hin
    have hcand' : (k', m'.left) ∈ sortBy Prod.snd cands :=
      mem_sortBy.mpr (mem_candidates h hm' hw')
    exact (sorted_sortBy cands).take_le hn hcand' fun htake =>
      hk' (List.mem_toFinset.mpr (List.mem_map.mpr ⟨_, htake, rfl⟩))

/-- What the scan for starving candidates adds. -/
theorem mem_addStarving {entries : MapOrder (MsgKey Addr)} {selected : List (MsgKey Addr)}
    {k : MsgKey Addr} :
    k ∈ addStarving r.cfg.starveThreshold now (r.incoming.iter entries) selected ↔
      k ∈ selected ∨ ∃ m, r.incoming.lookup k = some m ∧ m.wantsGrant ∧
        r.cfg.starveThreshold ≤ now - m.lastGrant := by
  rw [addStarving_eq _ _ (KeyMap.nodup_map_fst_iter _ _), List.mem_append]
  constructor
  · rintro (hk | hk)
    · exact Or.inl hk
    · obtain ⟨⟨k₁, m⟩, he, rfl⟩ := List.mem_map.mp hk
      obtain ⟨hiter, hcond⟩ := List.mem_filter.mp he
      obtain ⟨hw, hlate, _⟩ := of_decide_eq_true hcond
      exact Or.inr ⟨m, KeyMap.mem_iter.mp hiter, hw, hlate⟩
  · rintro (hk | ⟨m, hm, hw, hlate⟩)
    · exact Or.inl hk
    · by_cases hin : k ∈ selected
      · exact Or.inl hin
      · exact Or.inr (List.mem_map.mpr ⟨(k, m), List.mem_filter.mpr
          ⟨KeyMap.mem_iter.mpr hm, decide_eq_true ⟨hw, hlate, hin⟩⟩, rfl⟩)

/-- A round of scheduling does what it has to do, if none of its sums overflows. -/
theorem Scheduled.srpt (hs : Scheduled r now r' acts)
    (h : r.schedule now order = some (r', acts))
    (hno : r.grantsOverflow false r'.granting = false) : Srpt r now r' acts := by
  obtain ⟨cands, hcands, hgranting, _⟩ := schedule_loop h
  have hexact : ∀ k ∈ r'.granting, ∀ m, r.incoming.lookup k = some m →
      m.sumOverflows r.cfg false = false := by
    intro k hk m hm
    simpa [hm] using List.any_eq_false.mp hno k hk
  constructor
  · exact hs.cfg
  · exact hs.completed
  · exact hs.nodup
  · refine ⟨_, shortest_spec hcands, fun k => ?_⟩
    rw [hgranting, mem_addStarving, List.mem_toFinset]
  · intro k
    rw [hs.lookup k]
    cases hm : r.incoming.lookup k with
    | none => rfl
    | some m =>
      rw [Option.map_some, Option.map_some]
      by_cases hk : k ∈ r'.granting
      · rw [if_pos hk, InMsg.issueGrant_exact (hexact k hk m hm)]
        by_cases hlow : m.RunsLow r.cfg
        · rw [if_pos hlow, if_pos ⟨hk, hlow⟩]
        · rw [if_neg hlow, if_neg fun h => hlow h.2]
      · rw [if_neg hk, if_neg fun h => hk h.1]
  · rw [hs.acts, List.filterMap_eq_flatMap_toList]
    refine List.flatMap_congr fun k hk => ?_
    cases hm : r.incoming.lookup k with
    | none => rfl
    | some m =>
      simp only [Option.map_some, Option.getD_some, InMsg.issueGrant_exact (hexact k hk m hm),
        Option.filter_some, decide_eq_true_eq]
      split_ifs <;> rfl
  · intro k m hm hw hlt
    have hle := InMsg.exactTarget_le r.cfg hw
    exact toNat_ofNat_u32 (by omega)

/-- A sum that overflows leaves a message with too small a window. -/
theorem Scheduled.not_srpt (hs : Scheduled r now r' acts)
    (hcount : ∀ k m, r.incoming.lookup k = some m → m.receivedBytes ≤ m.totalLen)
    (hsize : ∀ k m, r.incoming.lookup k = some m → m.totalLen < 2 ^ 64)
    (hover : r.grantsOverflow false r'.granting) : ¬ Srpt r now r' acts := by
  intro hsrpt
  obtain ⟨k, hk, hkey⟩ := List.any_eq_true.mp hover
  obtain ⟨m, hm, hw⟩ := hs.wants k hk
  rw [hm, Option.any_some] at hkey
  obtain ⟨hlow, htarget, hshort⟩ :=
    InMsg.issueGrant_short hkey hw (hcount k m hm) (hsize k m hm) k now
  have hentry := (hs.lookup k).symm.trans (hsrpt.entry k)
  rw [hm, Option.map_some, Option.map_some, if_pos hk, if_pos ⟨hk, hlow⟩, htarget] at hentry
  rw [Option.some.inj hentry] at hshort
  exact lt_irrefl _ hshort

/-- In every state in which no byte counter has run past its message, at every moment, in every
order of the map and in every build, scheduling returns and does what it has to do exactly if
the sums of the messages that it selects do not overflow. -/
theorem schedule_srpt_iff (checks : Bool) (r : ReceiverCore Addr)
    (hcount : ∀ k m, r.incoming.lookup k = some m → m.receivedBytes ≤ m.totalLen)
    (hsize : ∀ k m, r.incoming.lookup k = some m → m.totalLen < 2 ^ 64) (now : ℕ)
    (order : ScheduleOrder Addr) :
    ∃ selected, r.selection now order = some selected ∧
      ((∃ r' acts, r.schedule now order checks = some (r', acts) ∧ Srpt r now r' acts) ↔
        r.grantsOverflow false selected = false) := by
  have hsome : (r.schedule now order).isSome :=
    schedule_isSome.mpr fun k m hm _ => hcount k m hm
  obtain ⟨⟨r', acts⟩, h⟩ := Option.isSome_iff_exists.mp hsome
  have hs := schedule_spec h
  have hsel := selection_of_schedule h
  refine ⟨r'.granting, hsel, ?_⟩
  rw [schedule_checks, hsel, Option.any_some]
  constructor
  · rintro ⟨r₁, acts₁, h₁, hsrpt⟩
    split_ifs at h₁
    obtain ⟨rfl, rfl⟩ := Prod.mk.inj (Option.some.inj (h.symm.trans h₁))
    by_contra hover
    exact hs.not_srpt hcount hsize (Bool.not_eq_false _ ▸ hover) hsrpt
  · intro hno
    rw [hno, Bool.and_false, if_neg Bool.false_ne_true]
    exact ⟨r', acts, h, hs.srpt h hno⟩

/-- A message of which the first fragment has come in. -/
def begun (totalLen grantedTo lastGrant : ℕ) : InMsg where
  totalLen := totalLen
  buf := List.replicate totalLen 0
  received := true :: List.replicate (totalLen / 4 - 1) false
  receivedBytes := 4
  grantedTo := grantedTo
  lastProgress := 90
  lastGrant := lastGrant
  unansweredResends := 0

/-- Four messages are begun. Two may be granted, the second shortest has credit left, and the
longest was granted last at the very beginning. -/
def fourBegun : ReceiverCore ℕ where
  cfg := tinyConfig
  incoming := ((((∅ : KeyMap (MsgKey ℕ) InMsg).insert (0, 1) (begun 20 4 90)).insert
    (0, 2) (begun 8 4 90)).insert (0, 3) (begun 24 4 0)).insert (0, 4) (begun 12 6 90)
  granting := []
  completed := []

theorem schedule_srpt_iff_starving : ∃ r' acts,
    fourBegun.schedule 100 default = some (r', acts) ∧
    r'.granting = [(0, 2), (0, 4), (0, 3)] ∧
    acts = [.send 0 ((⟨.grant, 0, 2, 0, 6, 2⟩ : Packet).encode []),
      .send 0 ((⟨.grant, 0, 3, 0, 6, 2⟩ : Packet).encode [])] ∧
    Srpt fourBegun 100 r' acts := by
  have hentry : ∀ k m, fourBegun.incoming.lookup k = some m →
      m.receivedBytes ≤ m.totalLen ∧ m.totalLen < 2 ^ 64 := by
    intro k m hm
    simp only [fourBegun, KeyMap.lookup_insert_eq] at hm
    split_ifs at hm
    · obtain rfl := Option.some.inj hm
      exact ⟨by decide, by decide⟩
    · obtain rfl := Option.some.inj hm
      exact ⟨by decide, by decide⟩
    · obtain rfl := Option.some.inj hm
      exact ⟨by decide, by decide⟩
    · obtain rfl := Option.some.inj hm
      exact ⟨by decide, by decide⟩
    · cases hm
  obtain ⟨selected, hsel, hiff⟩ := schedule_srpt_iff false fourBegun
    (fun k m hm => (hentry k m hm).1) (fun k m hm => (hentry k m hm).2) 100 default
  obtain rfl : [(0, 2), (0, 4), (0, 3)] = selected := Option.some.inj hsel
  obtain ⟨r', acts, h, hsrpt⟩ := hiff.mpr rfl
  obtain ⟨rfl, rfl⟩ := Prod.mk.inj (Option.some.inj h)
  exact ⟨_, _, rfl, rfl, rfl, hsrpt⟩

/-- One message is begun, and the increment is huge. -/
def hugeBegun : ReceiverCore ℕ where
  cfg := hugeConfig
  incoming := (∅ : KeyMap (MsgKey ℕ) InMsg).insert (0, 1) (begun 16 4 0)
  granting := []
  completed := []

/-- A message without credit is selected, and the GRANT for the rest of it is not sent. -/
theorem schedule_srpt_fails :
    hugeBegun.incoming.lookup (0, 1) = some (begun 16 4 0) ∧ (begun 16 4 0).RunsLow hugeConfig ∧
    (begun 16 4 0).exactTarget hugeConfig = 16 ∧
    ∃ r', hugeBegun.schedule 0 default = some (r', []) ∧ r'.granting = [(0, 1)] ∧
      ¬ Srpt hugeBegun 0 r' [] := by
  have hlow : (begun 16 4 0).RunsLow hugeConfig := by decide
  refine ⟨rfl, hlow, rfl, _, rfl, rfl, fun hsrpt => ?_⟩
  have hentry := hsrpt.entry (0, 1)
  have hold : hugeBegun.incoming.lookup (0, 1) = some (begun 16 4 0) := rfl
  rw [hold, Option.map_some, if_pos ⟨List.mem_singleton.mpr rfl, hlow⟩] at hentry
  exact absurd (congrArg InMsg.grantedTo (Option.some.inj hentry)) (by decide)

end ReceiverCore
end AgentTransport
