import AgentTransport.Receiver

/-!
# One round of scheduling

`schedule` and `tick` walk a map that they edit. Here each is described by what it
does to the entry of one key, by the packets it emits for that key, and by the keys
it selects. The order of the walk enters only through the selection.
-/
namespace AgentTransport
open ByteString

variable {Addr : Type} [DecidableEq Addr]

/-- Map a partial function over a list: it fails if it fails on a member. -/
theorem mapM_ite {α β : Type} (p : α → Prop) [DecidablePred p] (g : α → β) (l : List α) :
    (l.mapM fun a => if p a then some (g a) else none) =
      if ∀ a ∈ l, p a then some (l.map g) else none := by
  induction l with
  | nil => simp
  | cons a l ih =>
    rw [List.mapM_cons, ih]
    by_cases ha : p a
    · simp only [ha, if_true, List.forall_mem_cons, true_and, List.map_cons]
      split_ifs <;> rfl
    · simp [ha]

namespace InMsg

/-- The fields that scheduling never touches. -/
structure SameContent (m m' : InMsg) : Prop where
  totalLen : m'.totalLen = m.totalLen
  buf : m'.buf = m.buf
  received : m'.received = m.received
  receivedBytes : m'.receivedBytes = m.receivedBytes

theorem SameContent.refl (m : InMsg) : SameContent m m := ⟨rfl, rfl, rfl, rfl⟩

theorem SameContent.trans {m₁ m₂ m₃ : InMsg} (h : SameContent m₁ m₂) (h' : SameContent m₂ m₃) :
    SameContent m₁ m₃ :=
  ⟨h'.totalLen.trans h.totalLen, h'.buf.trans h.buf, h'.received.trans h.received,
    h'.receivedBytes.trans h.receivedBytes⟩

theorem SameContent.complete {m m' : InMsg} (h : SameContent m m') :
    m'.complete = m.complete := by
  simp only [InMsg.complete, h.receivedBytes, h.totalLen]

theorem wantsGrant_iff {m : InMsg} :
    m.wantsGrant ↔ m.receivedBytes ≠ m.totalLen ∧ m.grantedTo < m.totalLen := by
  simp [wantsGrant, complete]

theorem grantedTo_le_grantTarget (cfg : TransportConfig) (m : InMsg) :
    m.grantedTo ≤ m.grantTarget cfg := Nat.le_max_right _ _

/-- The sum of a grant fits a `usize`. -/
def SumFits (cfg : TransportConfig) (m : InMsg) : Prop :=
  m.receivedBytes + cfg.grantIncrement < 2 ^ 64

/-- A sum that fits does not wrap. -/
theorem SumFits.grantTarget {cfg : TransportConfig} {m : InMsg} (h : m.SumFits cfg) :
    m.grantTarget cfg = max (min (m.receivedBytes + cfg.grantIncrement) m.totalLen) m.grantedTo := by
  rw [InMsg.grantTarget, Nat.mod_eq_of_lt h]

/-- Wrapped or not, a window ends within the message, and no more than an increment after what
has come in, unless it did before. -/
theorem grantTarget_le (cfg : TransportConfig) (m : InMsg) :
    m.grantTarget cfg ≤ max (min (m.receivedBytes + cfg.grantIncrement) m.totalLen) m.grantedTo := by
  have hwrap := Nat.mod_le (m.receivedBytes + cfg.grantIncrement) (2 ^ 64)
  unfold InMsg.grantTarget
  omega

omit [DecidableEq Addr] in
/-- A grant either leaves the entry alone, or raises its window to the target and
says so to the sender. -/
theorem issueGrant_cases (cfg : TransportConfig) (key : MsgKey Addr) (now : ℕ) (force : Bool)
    (m : InMsg) :
    m.issueGrant cfg key now force = (m, []) ∨
      m.issueGrant cfg key now force =
        ({ m with grantedTo := m.grantTarget cfg, lastGrant := now },
          [.send key.1 ((m.grantPacket key (m.grantTarget cfg)).encode [])]) := by
  unfold issueGrant
  dsimp only
  split_ifs
  · exact Or.inl rfl
  · exact Or.inl rfl
  · exact Or.inr rfl

omit [DecidableEq Addr] in
/-- The throttled grant: less than half an increment of credit is left, and the window grows. -/
theorem issueGrant_eq (cfg : TransportConfig) (key : MsgKey Addr) (now : ℕ) (m : InMsg) :
    m.issueGrant cfg key now false =
      if m.grantedTo - m.receivedBytes < cfg.grantIncrement / 2 ∧ m.grantedTo < m.grantTarget cfg then
        ({ m with grantedTo := m.grantTarget cfg, lastGrant := now },
          [.send key.1 ((m.grantPacket key (m.grantTarget cfg)).encode [])])
      else (m, []) := by
  have hle := m.grantedTo_le_grantTarget cfg
  unfold issueGrant
  simp only [Bool.not_false, Bool.true_and, Bool.and_true, decide_eq_true_eq]
  by_cases hcredit : cfg.grantIncrement / 2 ≤ m.grantedTo - m.receivedBytes
  · rw [if_pos hcredit, if_neg fun h => Nat.not_lt.mpr hcredit h.1]
  · rw [if_neg hcredit]
    by_cases htarget : m.grantTarget cfg = m.grantedTo
    · rw [if_pos htarget, if_neg fun h => h.2.ne' htarget]
    · rw [if_neg htarget, if_pos ⟨Nat.not_le.mp hcredit, by omega⟩]

omit [DecidableEq Addr] in
theorem issueGrant_content (cfg : TransportConfig) (key : MsgKey Addr) (now : ℕ) (force : Bool)
    (m : InMsg) : SameContent m (m.issueGrant cfg key now force).1 := by
  rcases issueGrant_cases cfg key now force m with h | h
  · rw [h]
    exact SameContent.refl m
  · rw [h]
    exact ⟨rfl, rfl, rfl, rfl⟩

omit [DecidableEq Addr] in
theorem le_grantedTo_issueGrant (cfg : TransportConfig) (key : MsgKey Addr) (now : ℕ)
    (force : Bool) (m : InMsg) : m.grantedTo ≤ (m.issueGrant cfg key now force).1.grantedTo := by
  rcases issueGrant_cases cfg key now force m with h | h
  · rw [h]
  · rw [h]
    exact m.grantedTo_le_grantTarget cfg

/-- The first missing fragment is missing, granted, and preceded by none that is. -/
theorem missingInWindow_spec {cfg : TransportConfig} {m : InMsg} {off : ℕ}
    (h : m.missingInWindow cfg = some off) :
    ∃ i < m.received.length, off = i * cfg.packetSize ∧ off < m.grantedTo ∧
      m.received[i]? = some false ∧ ∀ j < i, m.received[j]? = some true := by
  obtain ⟨hmiss, hwin⟩ := Option.filter_eq_some_iff.mp h
  obtain ⟨i, hi, rfl⟩ := Option.map_eq_some_iff.mp hmiss
  obtain ⟨hlt, hbit, hbefore⟩ := List.findIdx?_eq_some_iff_getElem.mp hi
  refine ⟨i, hlt, rfl, of_decide_eq_true hwin, ?_, fun j hj => ?_⟩
  · rw [List.getElem?_eq_getElem hlt]
    simpa using hbit
  · have hb := hbefore j hj
    rw [List.getElem?_eq_getElem (by omega)]
    simpa using hb

end InMsg

namespace ReceiverCore

/-- The entry of `key` after a handler ran on the entry of `k`. -/
theorem lookup_update (r : ReceiverCore Addr) (k : MsgKey Addr)
    (handler : InMsg → InMsg × List (Action Addr)) (key : MsgKey Addr) :
    (r.update k handler).1.incoming.lookup key =
      if key = k then (r.incoming.lookup k).map fun m => (handler m).1
      else r.incoming.lookup key := by
  unfold update
  cases h : r.incoming.lookup k with
  | none =>
    split_ifs with hk
    · rw [hk, h]
      rfl
    · rfl
  | some m => exact KeyMap.lookup_insert_eq _ _ _ _

theorem update_outputs (r : ReceiverCore Addr) (k : MsgKey Addr)
    (handler : InMsg → InMsg × List (Action Addr)) :
    (r.update k handler).2 = ((r.incoming.lookup k).map fun m => (handler m).2).getD [] := by
  unfold update
  cases r.incoming.lookup k <;> rfl

/-- A handler on an entry touches nothing but the map. -/
theorem update_frame (r : ReceiverCore Addr) (k : MsgKey Addr)
    (handler : InMsg → InMsg × List (Action Addr)) :
    (r.update k handler).1.cfg = r.cfg ∧ (r.update k handler).1.granting = r.granting ∧
      (r.update k handler).1.completed = r.completed := by
  unfold update
  cases r.incoming.lookup k <;> exact ⟨rfl, rfl, rfl⟩

/-- The candidates, when no byte counter has run past its message. -/
theorem candidates_eq (r : ReceiverCore Addr) (order : MapOrder (MsgKey Addr)) :
    r.candidates order =
      if ∀ e ∈ (r.incoming.iter order).filter (fun e => e.2.wantsGrant),
          e.2.receivedBytes ≤ e.2.totalLen
      then some (((r.incoming.iter order).filter fun e => e.2.wantsGrant).map fun e =>
        (e.1, e.2.totalLen - e.2.receivedBytes))
      else none := by
  rw [← mapM_ite]
  unfold candidates InMsg.remaining
  congr 1
  funext e
  split_ifs <;> rfl

/-- Scheduling panics exactly on a candidate whose counter has run past its message. -/
theorem candidates_isSome {r : ReceiverCore Addr} {order : MapOrder (MsgKey Addr)} :
    (r.candidates order).isSome ↔
      ∀ k m, r.incoming.lookup k = some m → m.wantsGrant → m.receivedBytes ≤ m.totalLen := by
  rw [candidates_eq]
  split_ifs with h
  · refine ⟨fun _ k m hk hw => ?_, fun _ => rfl⟩
    exact h (k, m) (List.mem_filter.mpr ⟨KeyMap.mem_iter.mpr hk, hw⟩)
  · refine ⟨fun hsome => by simp at hsome, fun hall => absurd (fun e he => ?_) h⟩
    have hmem := List.mem_filter.mp he
    exact hall e.1 e.2 (KeyMap.mem_iter.mp hmem.1) hmem.2

/-- The candidate keys, each once. -/
theorem candidates_keys {r : ReceiverCore Addr} {order : MapOrder (MsgKey Addr)}
    {cands : List (MsgKey Addr × ℕ)} (h : r.candidates order = some cands) :
    (cands.map Prod.fst).Nodup ∧
      ∀ k, k ∈ cands.map Prod.fst ↔ ∃ m, r.incoming.lookup k = some m ∧ m.wantsGrant := by
  rw [candidates_eq] at h
  split_ifs at h
  obtain rfl := Option.some.inj h
  simp only [List.map_map, Function.comp_def]
  refine ⟨?_, fun k => ?_⟩
  · exact (List.filter_sublist.map Prod.fst).nodup (KeyMap.nodup_map_fst_iter _ _)
  · constructor
    · intro hk
      obtain ⟨⟨k', m⟩, hmem, rfl⟩ := List.mem_map.mp hk
      obtain ⟨hiter, hw⟩ := List.mem_filter.mp hmem
      exact ⟨m, KeyMap.mem_iter.mp hiter, hw⟩
    · rintro ⟨m, hk, hw⟩
      exact List.mem_map.mpr ⟨(k, m), List.mem_filter.mpr ⟨KeyMap.mem_iter.mpr hk, hw⟩, rfl⟩

omit [DecidableEq Addr] in
theorem shortest_sublist_perm (k : ℕ) (cands : List (MsgKey Addr × ℕ)) :
    ∃ l, l.Perm (cands.map Prod.fst) ∧ (shortest k cands).Sublist l := by
  refine ⟨(cands.insertionSort fun a b => a.2 ≤ b.2).map Prod.fst, ?_, ?_⟩
  · exact (List.perm_insertionSort _ _).map Prod.fst
  · exact (List.take_sublist _ _).map Prod.fst

omit [DecidableEq Addr] in
theorem length_shortest (k : ℕ) (cands : List (MsgKey Addr × ℕ)) :
    (shortest k cands).length = min k cands.length := by
  simp [shortest]

/-- The starving candidates that were not selected are appended in map order. -/
theorem addStarving_eq (starve now : ℕ) {entries : List (MsgKey Addr × InMsg)}
    (hnd : (entries.map Prod.fst).Nodup) (selected : List (MsgKey Addr)) :
    addStarving starve now entries selected = selected ++
      (entries.filter fun e => decide (e.2.wantsGrant ∧ starve ≤ now - e.2.lastGrant ∧
        e.1 ∉ selected)).map Prod.fst := by
  induction entries generalizing selected with
  | nil => simp [addStarving]
  | cons e es ih =>
    obtain ⟨he, hnd⟩ := List.nodup_cons.mp (by simpa only [List.map_cons] using hnd)
    unfold addStarving at ih ⊢
    rw [List.foldl_cons, ih hnd]
    by_cases h : e.2.wantsGrant ∧ starve ≤ now - e.2.lastGrant ∧ e.1 ∉ selected
    · -- the key just added does not occur again
      have hsame : es.filter (fun x => decide (x.2.wantsGrant ∧ starve ≤ now - x.2.lastGrant ∧
            x.1 ∉ selected ++ [e.1])) =
          es.filter fun x => decide (x.2.wantsGrant ∧ starve ≤ now - x.2.lastGrant ∧
            x.1 ∉ selected) := by
        refine List.filter_congr fun x hx => ?_
        have hne : x.1 ≠ e.1 := fun hxe => he (hxe ▸ List.mem_map_of_mem hx)
        simp [hne]
      rw [if_pos h, hsame, List.filter_cons_of_pos (by simpa using h)]
      simp
    · rw [if_neg h, List.filter_cons_of_neg (by simpa using h)]

/-- What a round of scheduling does to a receiver. -/
structure Scheduled (r : ReceiverCore Addr) (now : ℕ) (r' : ReceiverCore Addr)
    (acts : List (Action Addr)) : Prop where
  cfg : r'.cfg = r.cfg
  completed : r'.completed = r.completed
  nodup : r'.granting.Nodup
  wants : ∀ k ∈ r'.granting, ∃ m, r.incoming.lookup k = some m ∧ m.wantsGrant
  starving : ∀ k m, r.incoming.lookup k = some m → m.wantsGrant →
    r.cfg.starveThreshold ≤ now - m.lastGrant → k ∈ r'.granting
  nonempty : ∀ k m, r.incoming.lookup k = some m → m.wantsGrant → r'.granting ≠ []
  lookup : ∀ k, r'.incoming.lookup k = (r.incoming.lookup k).map fun m =>
    if k ∈ r'.granting then (m.issueGrant r.cfg k now false).1 else m
  acts : acts = r'.granting.flatMap fun k =>
    ((r.incoming.lookup k).map fun m => (m.issueGrant r.cfg k now false).2).getD []

/-- Grants touch one entry each. -/
theorem local_issueGrant (cfg : TransportConfig) (granting completed : List (MsgKey Addr))
    (now : ℕ) (force : Bool) :
    Loop.Local (issueGrant now force)
      (fun s => s.cfg = cfg ∧ s.granting = granting ∧ s.completed = completed)
      (fun s k => s.incoming.lookup k)
      (fun k e => e.map fun m => (m.issueGrant cfg k now force).1)
      (fun k e => (e.map fun m => (m.issueGrant cfg k now force).2).getD []) where
  keeps s k h := by
    obtain ⟨h₁, h₂, h₃⟩ := s.update_frame k (InMsg.issueGrant s.cfg k now force)
    exact ⟨h₁.trans h.1, h₂.trans h.2.1, h₃.trans h.2.2⟩
  self s k h := by
    rw [← h.1]
    exact (lookup_update s k _ k).trans (if_pos rfl)
  other s k k' _ hne := (lookup_update s k _ k').trans (if_neg hne)
  outputs s k h := by
    rw [← h.1]
    exact update_outputs s k _

/-- The selection of a round: every key once, all of them candidates. -/
theorem selected_nodup {r : ReceiverCore Addr} {now : ℕ} {order : ScheduleOrder Addr}
    {cands : List (MsgKey Addr × ℕ)} (h : r.candidates order.cands = some cands) (k : ℕ) :
    (addStarving r.cfg.starveThreshold now (r.incoming.iter order.starve)
      (shortest k cands)).Nodup := by
  have hiter := KeyMap.nodup_map_fst_iter r.incoming order.starve
  obtain ⟨l, hperm, hsub⟩ := shortest_sublist_perm k cands
  have hshort : (shortest k cands).Nodup :=
    hsub.nodup (hperm.nodup_iff.mpr (candidates_keys h).1)
  rw [addStarving_eq _ _ hiter, List.nodup_append]
  refine ⟨hshort, (List.filter_sublist.map Prod.fst).nodup hiter, ?_⟩
  rintro x hx y hy rfl
  obtain ⟨e, he, rfl⟩ := List.mem_map.mp hy
  have hcond := of_decide_eq_true (List.mem_filter.mp he).2
  exact hcond.2.2 hx

theorem selected_wants {r : ReceiverCore Addr} {now : ℕ} {order : ScheduleOrder Addr}
    {cands : List (MsgKey Addr × ℕ)} (h : r.candidates order.cands = some cands) {k : ℕ}
    {key : MsgKey Addr} (hkey : key ∈ addStarving r.cfg.starveThreshold now
      (r.incoming.iter order.starve) (shortest k cands)) :
    ∃ m, r.incoming.lookup key = some m ∧ m.wantsGrant := by
  rw [addStarving_eq _ _ (KeyMap.nodup_map_fst_iter _ _), List.mem_append] at hkey
  rcases hkey with hkey | hkey
  · obtain ⟨l, hperm, hsub⟩ := shortest_sublist_perm k cands
    exact ((candidates_keys h).2 key).mp (hperm.mem_iff.mp (hsub.subset hkey))
  · obtain ⟨e, he, rfl⟩ := List.mem_map.mp hkey
    obtain ⟨hiter, hcond⟩ := List.mem_filter.mp he
    exact ⟨e.2, KeyMap.mem_iter.mp hiter, (of_decide_eq_true hcond).1⟩

theorem mem_selected_of_starving {r : ReceiverCore Addr} {now k : ℕ} {order : ScheduleOrder Addr}
    {cands : List (MsgKey Addr × ℕ)} {key : MsgKey Addr} {m : InMsg}
    (hm : r.incoming.lookup key = some m) (hw : m.wantsGrant)
    (hs : r.cfg.starveThreshold ≤ now - m.lastGrant) :
    key ∈ addStarving r.cfg.starveThreshold now (r.incoming.iter order.starve)
      (shortest k cands) := by
  rw [addStarving_eq _ _ (KeyMap.nodup_map_fst_iter _ _), List.mem_append]
  by_cases hin : key ∈ shortest k cands
  · exact Or.inl hin
  · exact Or.inr (List.mem_map.mpr ⟨(key, m),
      List.mem_filter.mpr ⟨KeyMap.mem_iter.mpr hm, decide_eq_true ⟨hw, hs, hin⟩⟩, rfl⟩)

/-- A round in a build without checks. -/
theorem schedule_eq (r : ReceiverCore Addr) (now : ℕ) (order : ScheduleOrder Addr) :
    r.schedule now order = (r.selection now order).map fun selected =>
      Loop.forEach (issueGrant now false) selected { r with granting := selected } := by
  unfold schedule
  cases r.selection now order <;> rfl

/-- The selection of a round, and the loop over it. -/
theorem schedule_loop {r r' : ReceiverCore Addr} {now : ℕ} {order : ScheduleOrder Addr}
    {acts : List (Action Addr)} (h : r.schedule now order = some (r', acts)) :
    ∃ cands, r.candidates order.cands = some cands ∧
      r'.granting = addStarving r.cfg.starveThreshold now (r.incoming.iter order.starve)
        (shortest (max r.cfg.overcommit 1) cands) ∧
      r'.cfg = r.cfg ∧ r'.completed = r.completed ∧
      Loop.forEach (issueGrant now false) r'.granting { r with granting := r'.granting } =
        (r', acts) := by
  rw [schedule_eq, selection, Option.map_map] at h
  obtain ⟨cands, hcands, hloop⟩ := Option.map_eq_some_iff.mp h
  rw [Function.comp_apply] at hloop
  generalize hsel : addStarving r.cfg.starveThreshold now (r.incoming.iter order.starve)
    (shortest (max r.cfg.overcommit 1) cands) = selected at hloop
  have hlocal := local_issueGrant r.cfg selected r.completed now false
  have hstart : ({ r with granting := selected } : ReceiverCore Addr).cfg = r.cfg ∧
      ({ r with granting := selected } : ReceiverCore Addr).granting = selected ∧
      ({ r with granting := selected } : ReceiverCore Addr).completed = r.completed :=
    ⟨rfl, rfl, rfl⟩
  have hend := Loop.forEach_invariant hlocal.keeps selected hstart
  rw [hloop] at hend
  obtain ⟨hcfg, hgranting, hcompleted⟩ := hend
  dsimp only at hcfg hgranting hcompleted
  rw [hgranting]
  exact ⟨cands, hcands, hsel.symm, hcfg, hcompleted, hloop⟩

theorem selection_of_schedule {r r' : ReceiverCore Addr} {now : ℕ} {order : ScheduleOrder Addr}
    {acts : List (Action Addr)} (h : r.schedule now order = some (r', acts)) :
    r.selection now order = some r'.granting := by
  obtain ⟨cands, hcands, hsel, _⟩ := schedule_loop h
  rw [selection, hcands, hsel, Option.map_some]

/-- The specification of `schedule`. -/
theorem schedule_spec {r r' : ReceiverCore Addr} {now : ℕ} {order : ScheduleOrder Addr}
    {acts : List (Action Addr)} (h : r.schedule now order = some (r', acts)) :
    Scheduled r now r' acts := by
  obtain ⟨cands, hcands, hsel, hcfg, hcompleted, hloop⟩ := schedule_loop h
  have hnd : r'.granting.Nodup := by
    rw [hsel]
    exact selected_nodup hcands _
  have hlocal := local_issueGrant r.cfg r'.granting r.completed now false
  have hview := hlocal.view_forEach hnd (s := { r with granting := r'.granting }) ⟨rfl, rfl, rfl⟩
  have hout := hlocal.outputs_forEach hnd (s := { r with granting := r'.granting }) ⟨rfl, rfl, rfl⟩
  rw [hloop] at hview hout
  dsimp only at hview hout
  refine ⟨hcfg, hcompleted, hnd, ?_, ?_, ?_, ?_, ?_⟩
  · intro k hk
    rw [hsel] at hk
    exact selected_wants hcands hk
  · intro k m hm hw hs
    rw [hsel]
    exact mem_selected_of_starving hm hw hs
  · intro k m hm hw hnil
    -- a candidate makes the sorted list nonempty, and at least one of them is taken
    have hmem := ((candidates_keys hcands).2 k).mpr ⟨m, hm, hw⟩
    have hpos : 0 < cands.length := by
      have := List.length_pos_of_mem hmem
      rwa [List.length_map] at this
    have hlen := length_shortest (max r.cfg.overcommit 1) cands
    rw [hsel, addStarving_eq _ _ (KeyMap.nodup_map_fst_iter _ _), List.append_eq_nil_iff] at hnil
    rw [hnil.1, List.length_nil] at hlen
    omega
  · intro k
    rw [hview k]
    split_ifs <;> simp
  · rw [hout]

/-- `schedule` returns unless a candidate's counter has run past its message. -/
theorem schedule_isSome {r : ReceiverCore Addr} {now : ℕ} {order : ScheduleOrder Addr} :
    (r.schedule now order).isSome ↔
      ∀ k m, r.incoming.lookup k = some m → m.wantsGrant → m.receivedBytes ≤ m.totalLen := by
  rw [schedule_eq, selection, Option.isSome_map, Option.isSome_map, candidates_isSome]

namespace Scheduled

variable {r r' : ReceiverCore Addr} {now : ℕ} {acts : List (Action Addr)}

/-- Scheduling changes windows and grant times only. -/
theorem entry (h : Scheduled r now r' acts) {k : MsgKey Addr} {m' : InMsg}
    (hm' : r'.incoming.lookup k = some m') :
    ∃ m, r.incoming.lookup k = some m ∧
      m' = if k ∈ r'.granting then (m.issueGrant r.cfg k now false).1 else m := by
  rw [h.lookup k] at hm'
  obtain ⟨m, hm, rfl⟩ := Option.map_eq_some_iff.mp hm'
  exact ⟨m, hm, rfl⟩

theorem content (h : Scheduled r now r' acts) {k : MsgKey Addr} {m' : InMsg}
    (hm' : r'.incoming.lookup k = some m') :
    ∃ m, r.incoming.lookup k = some m ∧ InMsg.SameContent m m' := by
  obtain ⟨m, hm, rfl⟩ := h.entry hm'
  refine ⟨m, hm, ?_⟩
  split_ifs
  · exact InMsg.issueGrant_content _ _ _ _ _
  · exact InMsg.SameContent.refl m

theorem mem_iff (h : Scheduled r now r' acts) (k : MsgKey Addr) :
    k ∈ r'.incoming ↔ k ∈ r.incoming := by
  rw [← AList.lookup_isSome, ← AList.lookup_isSome, h.lookup k, Option.isSome_map]

/-- What grants keep of the entries, a round of scheduling keeps. -/
theorem entries {E : MsgKey Addr → InMsg → Prop} (h : Scheduled r now r' acts)
    (hgrant : ∀ k m, E k m → m.wantsGrant → E k (m.issueGrant r.cfg k now false).1)
    (hE : ∀ k m, r.incoming.lookup k = some m → E k m) :
    ∀ k m, r'.incoming.lookup k = some m → E k m := by
  intro k m' hm'
  obtain ⟨m, hm, rfl⟩ := h.entry hm'
  split_ifs with hk
  · obtain ⟨m₁, hm₁, hw⟩ := h.wants k hk
    obtain rfl := Option.some.inj (hm.symm.trans hm₁)
    exact hgrant k m (hE k m hm) hw
  · exact hE k m hm

/-- Scheduling emits GRANTs only, each for a message it is granting. -/
theorem mem_acts (h : Scheduled r now r' acts) {a : Action Addr} (ha : a ∈ acts) :
    ∃ k m, k ∈ r'.granting ∧ r.incoming.lookup k = some m ∧
      a ∈ (m.issueGrant r.cfg k now false).2 := by
  rw [h.acts] at ha
  obtain ⟨k, hk, hak⟩ := List.mem_flatMap.mp ha
  obtain ⟨m, hm, _⟩ := h.wants k hk
  exact ⟨k, m, hk, hm, by simpa [hm] using hak⟩

/-- Scheduling delivers nothing. -/
theorem deliveries (h : Scheduled r now r' acts) : deliveries acts = [] := by
  apply deliveries_of_sends
  intro a ha
  obtain ⟨k, m, _, _, hmem⟩ := h.mem_acts ha
  rcases InMsg.issueGrant_cases r.cfg k now false m with hg | hg
  · rw [hg] at hmem
    cases hmem
  · rw [hg] at hmem
    exact ⟨_, _, List.mem_singleton.mp hmem⟩

end Scheduled

/-- What one pass of `tick` makes of an entry, `none` if it is given up. -/
def tickEntry (cfg : TransportConfig) (now : ℕ) (key : MsgKey Addr) (granted : Bool) (m : InMsg) :
    Option InMsg × List (Action Addr) :=
  if now - m.lastProgress < cfg.resendTimeout then (some m, [])
  else
    match m.missingInWindow cfg with
    | some off =>
      (if maxUnansweredResends < m.unansweredResends + 1 then none
        else some { m with
          lastProgress := now
          unansweredResends := m.unansweredResends + 1 },
        [.send key.1 ((m.resendPacket cfg key off).encode [])])
    | none =>
      if cfg.grantTimeout ≤ now - m.lastProgress then
        if granted then
          let regrant := { m with lastProgress := now }.issueGrant cfg key now true
          (some regrant.1, regrant.2)
        else (some { m with lastProgress := now }, [])
      else (some m, [])

/-- One pass of `tick` over a key with entry `m`. -/
theorem tickKey_spec {r : ReceiverCore Addr} {k : MsgKey Addr} {m : InMsg} (now : ℕ)
    (hm : r.incoming.lookup k = some m) :
    (tickKey now r k).2 = (tickEntry r.cfg now k (decide (k ∈ r.granting)) m).2 ∧
    (tickKey now r k).1.cfg = r.cfg ∧ (tickKey now r k).1.completed = r.completed ∧
    (∀ k', (tickKey now r k).1.incoming.lookup k' =
      if k' = k then (tickEntry r.cfg now k (decide (k ∈ r.granting)) m).1
      else r.incoming.lookup k') ∧
    (∀ k', k' ∈ (tickKey now r k).1.granting ↔ k' ∈ r.granting ∧
      (k' = k → (tickEntry r.cfg now k (decide (k ∈ r.granting)) m).1.isSome)) := by
  have hself : ∀ k', r.incoming.lookup k' = if k' = k then some m else r.incoming.lookup k' := by
    intro k'
    split_ifs with hk
    · rw [hk, hm]
    · rfl
  simp only [tickKey, tickEntry, hm]
  by_cases hquiet : now - m.lastProgress < r.cfg.resendTimeout
  · simp only [if_pos hquiet]
    exact ⟨trivial, trivial, trivial, hself, fun k' => by simp⟩
  simp only [if_neg hquiet]
  cases hmiss : m.missingInWindow r.cfg with
  | some off =>
    simp only [resendKey]
    by_cases hgive : maxUnansweredResends < m.unansweredResends + 1
    · simp only [if_pos hgive]
      exact ⟨trivial, trivial, trivial, fun k' => KeyMap.lookup_erase_eq _ _ _, fun k' => by simp⟩
    · simp only [if_neg hgive]
      exact ⟨trivial, trivial, trivial, fun k' => KeyMap.lookup_insert_eq _ _ _ _, fun k' => by simp⟩
  | none =>
    simp only [regrantKey]
    by_cases hlate : r.cfg.grantTimeout ≤ now - m.lastProgress
    · simp only [if_pos hlate]
      by_cases hgr : k ∈ r.granting
      · simp only [if_pos hgr, decide_eq_true hgr, if_true]
        generalize hr : ({ r with incoming := r.incoming.insert k { m with lastProgress := now } } :
          ReceiverCore Addr) = r₁
        have hl : ∀ k', r₁.incoming.lookup k' =
            if k' = k then some { m with lastProgress := now } else r.incoming.lookup k' := by
          intro k'
          rw [← hr]
          exact KeyMap.lookup_insert_eq _ _ _ _
        have hc : r₁.cfg = r.cfg ∧ r₁.granting = r.granting ∧ r₁.completed = r.completed := by
          rw [← hr]
          exact ⟨rfl, rfl, rfl⟩
        obtain ⟨hfc, hfg, hfd⟩ := r₁.update_frame k (InMsg.issueGrant r₁.cfg k now true)
        refine ⟨?_, hfc.trans hc.1, hfd.trans hc.2.2, fun k' => ?_, fun k' => ?_⟩
        · rw [issueGrant, update_outputs, hl k, if_pos rfl, hc.1]
          rfl
        · rw [issueGrant, lookup_update, hl k, if_pos rfl, hl k', hc.1]
          split_ifs <;> rfl
        · rw [issueGrant, hfg, hc.2.1]
          simp
      · simp only [if_neg hgr, decide_eq_false hgr, Bool.false_eq_true, if_false]
        exact ⟨trivial, trivial, trivial, fun k' => KeyMap.lookup_insert_eq _ _ _ _, fun k' => by simp⟩
    · simp only [if_neg hlate]
      exact ⟨trivial, trivial, trivial, hself, fun k' => by simp⟩

/-- A pass of `tick` reads and writes the entry of its key and its place in
`granting`. -/
theorem local_tickKey (cfg : TransportConfig) (completed : List (MsgKey Addr)) (now : ℕ) :
    Loop.Local (tickKey now)
      (fun s : ReceiverCore Addr => s.cfg = cfg ∧ s.completed = completed)
      (fun s k => (s.incoming.lookup k, decide (k ∈ s.granting)))
      (fun k e => match e.1 with
        | none => e
        | some m => ((tickEntry cfg now k e.2 m).1,
            e.2 && (tickEntry cfg now k e.2 m).1.isSome))
      (fun k e => match e.1 with
        | none => []
        | some m => (tickEntry cfg now k e.2 m).2) where
  keeps s k h := by
    cases hm : s.incoming.lookup k with
    | none => simpa only [tickKey, hm] using h
    | some m =>
      obtain ⟨_, hc, hd, _, _⟩ := tickKey_spec now hm
      exact ⟨hc.trans h.1, hd.trans h.2⟩
  self s k h := by
    cases hm : s.incoming.lookup k with
    | none => simp only [tickKey, hm]
    | some m =>
      obtain ⟨_, _, _, hl, hg⟩ := tickKey_spec now hm
      rw [← h.1]
      simp only [hl k, if_true, hg k, true_implies, Bool.decide_and, Bool.decide_eq_true]
  other s k k' _ hne := by
    cases hm : s.incoming.lookup k with
    | none => simp only [tickKey, hm]
    | some m =>
      obtain ⟨_, _, _, hl, hg⟩ := tickKey_spec now hm
      have hk' : k' ∈ (tickKey now s k).1.granting ↔ k' ∈ s.granting := by
        rw [hg k']
        exact and_iff_left fun h => absurd h hne
      simp only [hl k', if_neg hne, hk']
  outputs s k h := by
    cases hm : s.incoming.lookup k with
    | none => simp only [tickKey, hm]
    | some m =>
      rw [← h.1]
      exact (tickKey_spec now hm).1

/-- A tick in a build without checks. -/
theorem tick_eq (r : ReceiverCore Addr) (now : ℕ) (order : TickOrder Addr) :
    r.tick now order =
      ((Loop.forEach (tickKey now) (order.keys.enum r.incoming.keys) r).1.schedule now
        order.schedule).map fun next =>
          (next.1, (Loop.forEach (tickKey now) (order.keys.enum r.incoming.keys) r).2 ++ next.2) :=
  rfl

/-- The passes of `tick`: each entry has gone through its own. -/
theorem passes_spec (r : ReceiverCore Addr) (now : ℕ) (order : MapOrder (MsgKey Addr)) :
    (Loop.forEach (tickKey now) (order.enum r.incoming.keys) r).1.cfg = r.cfg ∧
      (Loop.forEach (tickKey now) (order.enum r.incoming.keys) r).1.completed = r.completed ∧
      ∀ k, (Loop.forEach (tickKey now) (order.enum r.incoming.keys) r).1.incoming.lookup k =
        (r.incoming.lookup k).bind fun m =>
          (tickEntry r.cfg now k (decide (k ∈ r.granting)) m).1 := by
  have hlocal := local_tickKey r.cfg r.completed now
  have hend := Loop.forEach_invariant hlocal.keeps (order.enum r.incoming.keys) ⟨rfl, rfl⟩
  refine ⟨hend.1, hend.2, fun k => ?_⟩
  have hview := hlocal.view_forEach (KeyMap.nodup_enum_keys r.incoming order) ⟨rfl, rfl⟩ k
  refine (congrArg Prod.fst hview).trans ?_
  cases hm : r.incoming.lookup k with
  | none => simp
  | some m =>
    rw [if_pos (KeyMap.mem_enum_keys.mpr (KeyMap.mem_iff_lookup.mpr ⟨m, hm⟩))]
    rfl

/-- The specification of `tick`: every entry has its own pass, then a round of
scheduling runs on what is left. -/
theorem tick_spec {r r' : ReceiverCore Addr} {now : ℕ} {order : TickOrder Addr}
    {acts : List (Action Addr)} (h : r.tick now order = some (r', acts)) :
    ∃ r₁ acts₂, Scheduled r₁ now r' acts₂ ∧ r₁.cfg = r.cfg ∧ r₁.completed = r.completed ∧
      (∀ k, r₁.incoming.lookup k = (r.incoming.lookup k).bind fun m =>
        (tickEntry r.cfg now k (decide (k ∈ r.granting)) m).1) ∧
      acts = ((order.keys.enum r.incoming.keys).flatMap fun k =>
        ((r.incoming.lookup k).map fun m =>
          (tickEntry r.cfg now k (decide (k ∈ r.granting)) m).2).getD []) ++ acts₂ := by
  rw [tick_eq] at h
  obtain ⟨⟨r₂, acts₂⟩, hsched, heq⟩ := Option.map_eq_some_iff.mp h
  obtain ⟨hcfg, hcompleted, hlook⟩ := passes_spec r now order.keys
  have hout := (local_tickKey r.cfg r.completed now).outputs_forEach
    (KeyMap.nodup_enum_keys r.incoming order.keys) ⟨rfl, rfl⟩
  obtain ⟨rfl, rfl⟩ := Prod.mk.inj heq
  refine ⟨_, acts₂, schedule_spec hsched, hcfg, hcompleted, hlook, ?_⟩
  rw [hout]
  congr 1
  refine List.flatMap_congr fun k _ => ?_
  cases r.incoming.lookup k <;> rfl

/-- What grants and passes of `tick` keep of the entries, `tick` keeps. -/
theorem tick_entries {E : MsgKey Addr → InMsg → Prop} {r r' : ReceiverCore Addr} {now : ℕ}
    {order : TickOrder Addr} {acts : List (Action Addr)} (h : r.tick now order = some (r', acts))
    (hgrant : ∀ k m, E k m → m.wantsGrant → E k (m.issueGrant r.cfg k now false).1)
    (hpass : ∀ k m m' granted, E k m → (tickEntry r.cfg now k granted m).1 = some m' → E k m')
    (hE : ∀ k m, r.incoming.lookup k = some m → E k m) :
    ∀ k m, r'.incoming.lookup k = some m → E k m := by
  obtain ⟨r₁, acts₂, hs, hcfg, _, hlook, _⟩ := tick_spec h
  refine hs.entries (by rwa [hcfg]) fun k m' hm' => ?_
  rw [hlook k] at hm'
  obtain ⟨m, hm, hpm⟩ := Option.bind_eq_some_iff.mp hm'
  exact hpass k m m' _ (hE k m hm) hpm

omit [DecidableEq Addr] in
/-- The five things a pass of `tick` can do with an entry. -/
theorem tickEntry_cases (cfg : TransportConfig) (now : ℕ) (key : MsgKey Addr) (granted : Bool)
    (m : InMsg) :
    (now - m.lastProgress < cfg.resendTimeout ∧
      tickEntry cfg now key granted m = (some m, [])) ∨
    cfg.resendTimeout ≤ now - m.lastProgress ∧
      ((∃ off, m.missingInWindow cfg = some off ∧
        m.unansweredResends + 1 ≤ maxUnansweredResends ∧
        tickEntry cfg now key granted m =
          (some { m with lastProgress := now, unansweredResends := m.unansweredResends + 1 },
            [.send key.1 ((m.resendPacket cfg key off).encode [])])) ∨
      (∃ off, m.missingInWindow cfg = some off ∧
        maxUnansweredResends < m.unansweredResends + 1 ∧
        tickEntry cfg now key granted m =
          (none, [.send key.1 ((m.resendPacket cfg key off).encode [])])) ∨
      (m.missingInWindow cfg = none ∧ ∃ t,
        tickEntry cfg now key granted m = (some { m with lastProgress := t }, [])) ∨
      (m.missingInWindow cfg = none ∧
        tickEntry cfg now key granted m =
          (some ({ m with lastProgress := now }.issueGrant cfg key now true).1,
            ({ m with lastProgress := now }.issueGrant cfg key now true).2))) := by
  unfold tickEntry
  by_cases hquiet : now - m.lastProgress < cfg.resendTimeout
  · exact Or.inl ⟨hquiet, by rw [if_pos hquiet]⟩
  refine Or.inr ⟨by omega, ?_⟩
  rw [if_neg hquiet]
  cases hmiss : m.missingInWindow cfg with
  | some off =>
    by_cases hgive : maxUnansweredResends < m.unansweredResends + 1
    · exact Or.inr (Or.inl ⟨off, rfl, hgive, by simp only [if_pos hgive]⟩)
    · exact Or.inl ⟨off, rfl, by omega, by simp only [if_neg hgive]⟩
  | none =>
    refine Or.inr (Or.inr ?_)
    by_cases hlate : cfg.grantTimeout ≤ now - m.lastProgress
    · cases granted with
      | true => exact Or.inr ⟨rfl, by simp only [if_pos hlate, if_true]⟩
      | false =>
        exact Or.inl ⟨rfl, now, by simp only [if_pos hlate, Bool.false_eq_true, if_false]⟩
    · exact Or.inl ⟨rfl, m.lastProgress, by simp only [if_neg hlate]⟩

omit [DecidableEq Addr] in
/-- A pass of `tick` leaves the content of an entry alone and never lowers its window. -/
theorem tickEntry_content {cfg : TransportConfig} {now : ℕ} {key : MsgKey Addr} {granted : Bool}
    {m m' : InMsg} (h : (tickEntry cfg now key granted m).1 = some m') :
    InMsg.SameContent m m' ∧ m.grantedTo ≤ m'.grantedTo := by
  rcases tickEntry_cases cfg now key granted m with
    ⟨_, he⟩ | ⟨_, ⟨off, _, _, he⟩ | ⟨off, _, _, he⟩ | ⟨_, t, he⟩ | ⟨_, he⟩⟩ <;>
    rw [he] at h
  · obtain rfl := Option.some.inj h
    exact ⟨InMsg.SameContent.refl m, le_rfl⟩
  · obtain rfl := Option.some.inj h
    exact ⟨⟨rfl, rfl, rfl, rfl⟩, le_rfl⟩
  · cases h
  · obtain rfl := Option.some.inj h
    exact ⟨⟨rfl, rfl, rfl, rfl⟩, le_rfl⟩
  · obtain rfl := Option.some.inj h
    have hc := InMsg.issueGrant_content cfg key now true { m with lastProgress := now }
    exact ⟨⟨hc.totalLen, hc.buf, hc.received, hc.receivedBytes⟩,
      InMsg.le_grantedTo_issueGrant cfg key now true { m with lastProgress := now }⟩

theorem tick_cfg {r r' : ReceiverCore Addr} {now : ℕ} {order : TickOrder Addr}
    {acts : List (Action Addr)} (h : r.tick now order = some (r', acts)) : r'.cfg = r.cfg := by
  obtain ⟨r₁, acts₂, hs, hcfg, _⟩ := tick_spec h
  exact hs.cfg.trans hcfg

/-- The entries after `tick` were there before, with the same content. -/
theorem tick_content {r r' : ReceiverCore Addr} {now : ℕ} {order : TickOrder Addr}
    {acts : List (Action Addr)} (h : r.tick now order = some (r', acts)) {k : MsgKey Addr}
    {m' : InMsg} (hm' : r'.incoming.lookup k = some m') :
    ∃ m, r.incoming.lookup k = some m ∧ InMsg.SameContent m m' := by
  obtain ⟨r₁, acts₂, hs, _, _, hlook, _⟩ := tick_spec h
  obtain ⟨m₁, hm₁, hsame⟩ := hs.content hm'
  rw [hlook k] at hm₁
  obtain ⟨m, hm, hpm⟩ := Option.bind_eq_some_iff.mp hm₁
  exact ⟨m, hm, (tickEntry_content hpm).1.trans hsame⟩

/-- `tick` delivers nothing. -/
theorem tick_deliveries {r r' : ReceiverCore Addr} {now : ℕ} {order : TickOrder Addr}
    {acts : List (Action Addr)} (h : r.tick now order = some (r', acts)) :
    deliveries acts = [] := by
  obtain ⟨r₁, acts₂, hs, _, _, _, rfl⟩ := tick_spec h
  rw [deliveries_append, hs.deliveries, List.append_nil]
  apply deliveries_of_sends
  intro a ha
  obtain ⟨k, _, hk⟩ := List.mem_flatMap.mp ha
  cases hm : r.incoming.lookup k with
  | none =>
    rw [hm] at hk
    cases hk
  | some m =>
    rw [hm, Option.map_some, Option.getD_some] at hk
    rcases tickEntry_cases r.cfg now k (decide (k ∈ r.granting)) m with
      ⟨_, he⟩ | ⟨_, ⟨off, _, _, he⟩ | ⟨off, _, _, he⟩ | ⟨_, t, he⟩ | ⟨_, he⟩⟩ <;> rw [he] at hk
    · cases hk
    · exact ⟨_, _, List.mem_singleton.mp hk⟩
    · exact ⟨_, _, List.mem_singleton.mp hk⟩
    · cases hk
    · rcases InMsg.issueGrant_cases r.cfg k now true { m with lastProgress := now } with hg | hg
      · rw [hg] at hk
        cases hk
      · rw [hg] at hk
        exact ⟨_, _, List.mem_singleton.mp hk⟩

/-- `tick` returns if no byte counter has run past its message while the window of
the message is still open. -/
theorem tick_isSome {r : ReceiverCore Addr} {now : ℕ} {order : TickOrder Addr}
    (h : ∀ k m, r.incoming.lookup k = some m → m.grantedTo < m.totalLen →
      m.receivedBytes ≤ m.totalLen) :
    (r.tick now order).isSome := by
  rw [tick_eq, Option.isSome_map, schedule_isSome]
  intro k m' hm' hw
  rw [(passes_spec r now order.keys).2.2 k] at hm'
  obtain ⟨m, hm, hpass⟩ := Option.bind_eq_some_iff.mp hm'
  obtain ⟨hc, hg⟩ := tickEntry_content hpass
  have hopen := (InMsg.wantsGrant_iff.mp hw).2
  have hle := h k m hm (by rw [← hc.totalLen]; omega)
  rw [hc.receivedBytes, hc.totalLen]
  exact hle

end ReceiverCore

end AgentTransport
