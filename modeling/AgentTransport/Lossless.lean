import AgentTransport.Phases
import AgentTransport.Recovery

/-!
# A network that loses nothing

Many senders and one receiver, no losses, no repetitions and no ticks. The flight list
is a list of parcels, every message is in a phase, and whenever the receiver has an
entry it has one with bytes outstanding. So a state with nothing in flight has no
entries, and all messages that were started have landed. Each event spends one unit of
the credits of the messages, so that the runs are finite.
-/
namespace AgentTransport
open ByteString Fragmentation Transition
open scoped BigOperators

variable {Addr : Type} [DecidableEq Addr]

/-- Starts of the messages in `keys`, where `D` has their bytes, and arrivals. -/
def Lossless (keys : Finset (MsgKey Addr)) (D : MsgKey Addr → List UInt8) (_ : Network Addr) :
    Event Addr → Prop
  | .start src msgId data _ => (src, msgId) ∈ keys ∧ data = D (src, msgId)
  | .deliver _ _ _ => True
  | _ => False

instance (keys : Finset (MsgKey Addr)) (D : MsgKey Addr → List UInt8) (s : Network Addr) :
    DecidablePred (Lossless keys D s) := fun e =>
  match e with
  | .start _ _ _ _ => inferInstanceAs (Decidable (_ ∧ _))
  | .deliver _ _ _ => inferInstanceAs (Decidable True)
  | .drop _ | .duplicate _ | .senderTick _ _ _ | .receiverTick _ _ =>
    inferInstanceAs (Decidable False)

section Lists

variable {fl : List (Parcel Addr)} {i : ℕ} {p : Parcel Addr}

/-- Taking a parcel out of the list. -/
theorem count_eraseIdx (h : fl[i]? = some p) (q : Parcel Addr) :
    fl.count q = (fl.eraseIdx i).count q + if q = p then 1 else 0 := by
  obtain ⟨hi, rfl⟩ := List.getElem?_eq_some_iff.mp h
  rw [← (List.getElem_cons_eraseIdx_perm hi).count_eq, List.count_cons]
  by_cases heq : q = fl[i]
  · simp [heq]
  · simp [heq, Ne.symm heq]

theorem mem_eraseIdx_or (h : fl[i]? = some p) {q : Parcel Addr} (hq : q ∈ fl) :
    q ∈ fl.eraseIdx i ∨ q = p := by
  have hpos := List.count_pos_iff.mpr hq
  rw [count_eraseIdx h] at hpos
  by_cases heq : q = p
  · exact Or.inr heq
  · rw [if_neg heq] at hpos
    exact Or.inl (List.count_pos_iff.mp (by omega))

/-- Another parcel arrives than a GRANT for the key. -/
theorem exists_grant_eraseIdx (h : fl[i]? = some p) {key : MsgKey Addr} {w : ℕ}
    (hne : ∀ added, Parcel.grant key w added ≠ p) :
    (∃ added, .grant key w added ∈ fl.eraseIdx i) ↔ ∃ added, .grant key w added ∈ fl := by
  constructor
  · rintro ⟨a, ha⟩
    exact ⟨a, List.mem_of_mem_eraseIdx ha⟩
  · rintro ⟨a, ha⟩
    exact ⟨a, (mem_eraseIdx_or h ha).resolve_right (hne a)⟩

theorem count_fragments (key k : MsgKey Addr) (a n j : ℕ) :
    ((List.range' a n).map (Parcel.fragment key)).count (.fragment k j) =
      if k = key ∧ a ≤ j ∧ j < a + n then 1 else 0 := by
  have hinj : Function.Injective (Parcel.fragment key) := by
    intro x y h
    cases h
    rfl
  have hnd := (List.nodup_range' (s := a) (n := n)).map hinj
  by_cases hmem : Parcel.fragment k j ∈ (List.range' a n).map (Parcel.fragment key)
  · rw [List.count_eq_one_of_mem hnd hmem, if_pos]
    obtain ⟨x, hx, heq⟩ := List.mem_map.mp hmem
    cases heq
    rw [List.mem_range'_1] at hx
    exact ⟨rfl, hx⟩
  · rw [List.count_eq_zero_of_not_mem hmem, if_neg]
    rintro ⟨rfl, hj⟩
    exact hmem (List.mem_map.mpr ⟨j, List.mem_range'_1.mpr hj, rfl⟩)

end Lists

namespace Network

/-- What was delivered for one message. -/
def deliveredFor (s : Network Addr) (key : MsgKey Addr) : List (List UInt8) :=
  (s.delivered.filter fun x => x.1 = key).map Prod.snd

/-- The books of a network: what is in flight, and where every message stands. -/
structure Books (cfg : TransportConfig) (rcv : Addr) (keys : Finset (MsgKey Addr))
    (D : MsgKey Addr → List UInt8) (s : Network Addr) (fl : List (Parcel Addr)) : Prop where
  flight : s.flight = fl.map (Parcel.datagram cfg rcv D)
  phase : ∀ key, Phase cfg (D key) (fun i => fl.count (.fragment key i))
    (fun w => ∃ added, .grant key w added ∈ fl) (s.transfer rcv key).out
    (s.transfer rcv key).entry (s.deliveredFor key)
  started : ∀ key, (s.transfer rcv key).out.isSome → key ∈ s.started.map Prod.fst
  known : ∀ key ∈ s.started.map Prod.fst, key ∈ keys ∧ (s.transfer rcv key).out.isSome
  completed : ∀ key ∈ s.receiver.completed, s.deliveredFor key ≠ []

/-- Some entry has bytes outstanding, if there is an entry at all. -/
def Lively (r : ReceiverCore Addr) : Prop :=
  ∀ k m, r.incoming.lookup k = some m →
    ∃ k' m', r.incoming.lookup k' = some m' ∧ m'.receivedBytes < m'.grantedTo

/-- What is in flight and what the messages have left to spend. -/
def potential (cfg : TransportConfig) (rcv : Addr) (keys : Finset (MsgKey Addr))
    (D : MsgKey Addr → List UInt8) (s : Network Addr) : ℕ :=
  s.flight.length + ∑ key ∈ keys,
    credit cfg (D key) (s.transfer rcv key).out (s.transfer rcv key).entry (s.deliveredFor key)

variable {cfg : TransportConfig} {rcv : Addr} {keys : Finset (MsgKey Addr)}
  {D : MsgKey Addr → List UInt8} {s s' : Network Addr} {fl : List (Parcel Addr)}
  {key : MsgKey Addr}

theorem Books.new (cfg : TransportConfig) (rcv : Addr) (keys : Finset (MsgKey Addr))
    (D : MsgKey Addr → List UInt8) :
    Books cfg rcv keys D (Network.new cfg : Network Addr) [] where
  flight := rfl
  phase key := by
    have hidle : (Network.new cfg : Network Addr).transfer rcv key = Transfer.idle :=
      (Traced.new cfg Policy.any rcv).idle key (by simp [Network.new])
    rw [hidle]
    exact .waiting fun i => rfl
  started key h := by simp [transfer, Network.new, SenderCore.new] at h
  known key h := by cases h
  completed key h := by cases h

/-- An event that spends more credit than it puts in flight. -/
theorem potential_le (n : MsgKey Addr → ℕ) {c : ℕ}
    (hcredit : ∀ k ∈ keys, credit cfg (D k) (s'.transfer rcv k).out (s'.transfer rcv k).entry
      (s'.deliveredFor k) + n k ≤ credit cfg (D k) (s.transfer rcv k).out
        (s.transfer rcv k).entry (s.deliveredFor k))
    (hflight : s'.flight.length + c ≤ s.flight.length + ∑ k ∈ keys, n k) :
    potential cfg rcv keys D s' + c ≤ potential cfg rcv keys D s := by
  have hsum := Finset.sum_le_sum hcredit
  rw [Finset.sum_add_distrib] at hsum
  unfold potential
  omega

/-- A message with an entry was started. -/
theorem Books.mem_keys (h : Books cfg rcv keys D s fl) {m : InMsg}
    (hm : s.receiver.incoming.lookup key = some m) : key ∈ keys := by
  have hentry : (s.transfer rcv key).entry = some m := hm
  have hphase := h.phase key
  have hout : (s.transfer rcv key).out.isSome := by
    generalize (s.transfer rcv key).out = out at hphase ⊢
    generalize s.deliveredFor key = dels at hphase
    rw [hentry] at hphase
    cases hphase with
    | moving => rfl
  exact (h.known key (h.started key hout)).1

/-- A message of the set is never refused. -/
theorem Books.room (h : Books cfg rcv keys D s fl) (hmax : keys.card ≤ s.receiver.cfg.maxIncoming)
    (hkey : key ∈ keys) : s.receiver.refuses key = false := by
  rw [ReceiverCore.refuses, Bool.and_eq_false_iff, decide_eq_false_iff_not,
    decide_eq_false_iff_not, not_not, Nat.not_le]
  by_cases hin : key ∈ s.receiver.incoming
  · exact Or.inl hin
  · right
    have hsub : s.receiver.incoming.keys.toFinset ⊆ keys.erase key := by
      intro k hk
      have hkin : k ∈ s.receiver.incoming := AList.mem_keys.mpr (List.mem_toFinset.mp hk)
      obtain ⟨m, hm⟩ := KeyMap.mem_iff_lookup.mp hkin
      rw [Finset.mem_erase]
      refine ⟨?_, h.mem_keys hm⟩
      rintro rfl
      exact hin hkin
    have hle := Finset.card_le_card hsub
    rw [List.toFinset_card_of_nodup s.receiver.incoming.keys_nodup,
      Finset.card_erase_of_mem hkey] at hle
    have hpos := Finset.card_pos.mpr ⟨key, hkey⟩
    omega

theorem runSender_out {f : SenderCore Addr → SenderCore Addr × List (Action Addr)} {o' : OutMsg}
    (hlook : ∀ k, (f (s.senders key.1)).1.out.lookup k =
      if k = (rcv, key.2) then some o' else (s.senders key.1).out.lookup k) (k : MsgKey Addr) :
    ((s.runSender key.1 f).transfer rcv k).out =
      if k = key then some o' else (s.transfer rcv k).out := by
  rw [out_runSender, hlook]
  by_cases hk : k = key
  · subst hk
    simp
  · rw [if_neg hk]
    split_ifs with hhost hid
    · exact absurd (Prod.ext hhost (Prod.mk.inj hid).2) hk
    · rw [← hhost]
      rfl
    · rfl

theorem runSender_deliveredFor {host : Addr}
    {f : SenderCore Addr → SenderCore Addr × List (Action Addr)}
    (hdel : deliveries (f (s.senders host)).2 = []) (k : MsgKey Addr) :
    (s.runSender host f).deliveredFor k = s.deliveredFor k := by
  simp only [deliveredFor, Network.runSender, emit, hdel, List.append_nil]

/-- Starts and GRANTs change the sender's entry of one message, and put fragments of
that message in flight. -/
theorem Books.runSender {f : SenderCore Addr → SenderCore Addr × List (Action Addr)}
    {o' : OutMsg} {a n : ℕ} (hflight : s.flight = fl.map (Parcel.datagram cfg rcv D))
    (hlook : ∀ k, (f (s.senders key.1)).1.out.lookup k =
      if k = (rcv, key.2) then some o' else (s.senders key.1).out.lookup k)
    (hacts : (f (s.senders key.1)).2 = sendRanges rcv key.2 (D key)
      ((List.range' a n).map (fragRange cfg.packetSize (D key).length)))
    (hphase : Phase cfg (D key)
      (fun i => fl.count (.fragment key i) + if a ≤ i ∧ i < a + n then 1 else 0)
      (fun w => ∃ added, .grant key w added ∈ fl) (some o') (s.transfer rcv key).entry
      (s.deliveredFor key))
    (hother : ∀ k, k ≠ key → Phase cfg (D k) (fun i => fl.count (.fragment k i))
      (fun w => ∃ added, .grant k w added ∈ fl) (s.transfer rcv k).out
      (s.transfer rcv k).entry (s.deliveredFor k))
    (hstarted : ∀ k, k ≠ key → (s.transfer rcv k).out.isSome → k ∈ s.started.map Prod.fst)
    (hknown : ∀ k ∈ s.started.map Prod.fst,
      k ∈ keys ∧ (k ≠ key → (s.transfer rcv k).out.isSome))
    (hkey : key ∈ s.started.map Prod.fst)
    (hcompleted : ∀ k ∈ s.receiver.completed, s.deliveredFor k ≠ []) :
    Books cfg rcv keys D (s.runSender key.1 f)
      (fl ++ (List.range' a n).map (Parcel.fragment key)) := by
  have hout := runSender_out hlook
  have hdel : ∀ k, (s.runSender key.1 f).deliveredFor k = s.deliveredFor k :=
    runSender_deliveredFor (by rw [hacts]; exact deliveries_sendRanges _ _ _ _)
  have hgrants : ∀ k w, (∃ added, Parcel.grant k w added ∈
      fl ++ (List.range' a n).map (Parcel.fragment key)) ↔ ∃ added, .grant k w added ∈ fl := by
    intro k w
    simp
  constructor
  · simp only [Network.runSender, emit, hacts, hflight, List.map_append]
    rw [datagrams_sendRanges]
  · intro k
    have hentry : ((s.runSender key.1 f).transfer rcv k).entry = (s.transfer rcv k).entry := rfl
    simp only [hout, hdel, hgrants, hentry, List.count_append, count_fragments]
    by_cases hk : k = key
    · subst hk
      simpa using hphase
    · simpa [hk] using hother k hk
  · intro k hk
    rw [hout] at hk
    by_cases heq : k = key
    · rw [heq]
      exact hkey
    · rw [if_neg heq] at hk
      exact hstarted k heq hk
  · intro k hk
    obtain ⟨hin, hsome⟩ := hknown k hk
    refine ⟨hin, ?_⟩
    rw [hout]
    split_ifs with heq
    · rfl
    · exact hsome heq
  · intro k hk
    rw [hdel]
    exact hcompleted k hk

/-- What starts and GRANTs spend. -/
theorem potential_runSender {f : SenderCore Addr → SenderCore Addr × List (Action Addr)}
    {o' : OutMsg} {a n c : ℕ} (hlook : ∀ k, (f (s.senders key.1)).1.out.lookup k =
      if k = (rcv, key.2) then some o' else (s.senders key.1).out.lookup k)
    (hacts : (f (s.senders key.1)).2 = sendRanges rcv key.2 (D key)
      ((List.range' a n).map (fragRange cfg.packetSize (D key).length)))
    (hspent : credit cfg (D key) (some o') (s.transfer rcv key).entry (s.deliveredFor key) + n + c ≤
      credit cfg (D key) (s.transfer rcv key).out (s.transfer rcv key).entry (s.deliveredFor key))
    (hkey : key ∈ keys) :
    potential cfg rcv keys D (s.runSender key.1 f) + c ≤ potential cfg rcv keys D s := by
  have hdel : ∀ k, (s.runSender key.1 f).deliveredFor k = s.deliveredFor k :=
    runSender_deliveredFor (by rw [hacts]; exact deliveries_sendRanges _ _ _ _)
  have hlen : (s.runSender key.1 f).flight.length = s.flight.length + n := by
    simp only [Network.runSender, emit, hacts, List.length_append]
    rw [datagrams_sendRanges cfg]
    simp
  refine potential_le (fun k => if k = key then n + c else 0) (fun k hk => ?_) ?_
  · rw [runSender_out hlook, hdel]
    have hentry : ((s.runSender key.1 f).transfer rcv k).entry = (s.transfer rcv k).entry := rfl
    rw [hentry]
    split_ifs with heq
    · rw [heq]
      omega
    · exact le_rfl
  · rw [hlen, Finset.sum_ite_eq' keys key, if_pos hkey]
    omega

/-- A message is started. -/
theorem Books.start (h : Books cfg rcv keys D s fl) (hwired : Wired cfg s)
    (hD : ∀ k ∈ keys, Sendable (D k)) (hun : 0 < cfg.unscheduledBytes) (hkey : key ∈ keys)
    (hfresh : key ∉ s.started.map Prod.fst) (now : ℕ) {s₁ : Network Addr}
    (hs₁ : s₁ = { s with clock := now, started := s.started ++ [(key, D key)] }) :
    (∃ fl', Books cfg rcv keys D (s₁.runSender key.1 fun c => c.start rcv key.2 (D key) now) fl') ∧
      potential cfg rcv keys D (s₁.runSender key.1 fun c => c.start rcv key.2 (D key) now) + 1 ≤
        potential cfg rcv keys D s := by
  have hphase := h.phase key
  have hout : (s.transfer rcv key).out = none := by
    by_contra hsome
    exact hfresh (h.started key (Option.isSome_iff_ne_none.mpr hsome))
  have hcfg := hwired.senders_cfg key.1
  have hphase' : Phase cfg (D key)
      (fun i => fl.count (.fragment key i) +
        if 0 ≤ i ∧ i < 0 + count cfg.packetSize (OutMsg.started cfg (D key) now).nextSend
        then 1 else 0)
      (fun w => ∃ added, .grant key w added ∈ fl) (some (OutMsg.started cfg (D key) now))
      (s.transfer rcv key).entry (s.deliveredFor key) := by
    rw [hout] at hphase
    exact hphase.start (hD key hkey).1 hun now fun i => by simp
  have hmem : ∀ k, k ∈ s₁.started.map Prod.fst ↔ k ∈ s.started.map Prod.fst ∨ k = key := by
    intro k
    simp [hs₁]
  have hlook : ∀ k, ((s₁.senders key.1).start rcv key.2 (D key) now).1.out.lookup k =
      if k = (rcv, key.2) then some (OutMsg.started cfg (D key) now)
      else (s₁.senders key.1).out.lookup k := by
    intro k
    rw [SenderCore.lookup_start, hs₁, hcfg]
  have hacts : ((s₁.senders key.1).start rcv key.2 (D key) now).2 = sendRanges rcv key.2 (D key)
      ((List.range' 0 (count cfg.packetSize (OutMsg.started cfg (D key) now).nextSend)).map
        (fragRange cfg.packetSize (D key).length)) := by
    rw [SenderCore.start_acts, hs₁, hcfg, OutMsg.startRanges,
      pumpRanges_eq cfg.packetSize_pos (Nat.min_le_right _ _) (Or.inl (Nat.dvd_zero _)),
      count_zero cfg.packetSize_pos, Nat.sub_zero]
    rfl
  constructor
  · refine ⟨_, Books.runSender (by rw [hs₁]; exact h.flight) hlook hacts (by rw [hs₁]; exact hphase')
      (fun k _ => by rw [hs₁]; exact h.phase k) (fun k _ hk => ?_) (fun k hk => ?_) ?_
      (by rw [hs₁]; exact h.completed)⟩
    · rw [hs₁] at hk
      exact (hmem k).mpr (Or.inl (h.started k hk))
    · rcases (hmem k).mp hk with hold | rfl
      · rw [hs₁]
        exact ⟨(h.known k hold).1, fun _ => (h.known k hold).2⟩
      · exact ⟨hkey, fun hne => absurd rfl hne⟩
    · exact (hmem key).mpr (Or.inr rfl)
  · have hcredit := credit_start cfg (D key) (s.transfer rcv key).entry (s.deliveredFor key) now
    rw [← hout] at hcredit
    have hsame : potential cfg rcv keys D s₁ = potential cfg rcv keys D s := by
      rw [hs₁]
      rfl
    rw [← hsame]
    refine potential_runSender hlook hacts ?_ hkey
    rw [hs₁]
    exact hcredit.le

/-- A sender that does nothing. -/
theorem runSender_id {host : Addr}
    {f : SenderCore Addr → SenderCore Addr × List (Action Addr)}
    (hf : f (s.senders host) = (s.senders host, [])) : s.runSender host f = s := by
  simp [Network.runSender, emit, hf]

theorem Books.window_le (h : Books cfg rcv keys D s fl) (hw : s.receiver.WindowsFit)
    (key : MsgKey Addr) :
    window cfg (D key) (s.transfer rcv key).entry ≤ (D key).length := by
  have hphase := h.phase key
  cases hm : (s.transfer rcv key).entry with
  | none => exact Nat.min_le_right _ _
  | some m =>
    have hle := hw key m hm
    rw [(hphase.rebuilds hm).1.totalLen] at hle
    exact hle

/-- A datagram less in flight is a unit less. -/
theorem potential_taken {i : ℕ} (hi : i < s.flight.length) (now : ℕ) :
    potential cfg rcv keys D (s.taken i now) + 1 = potential cfg rcv keys D s := by
  have hfl : (s.taken i now).flight.length + 1 = s.flight.length := by
    simp only [Network.taken, List.length_eraseIdx_of_lt hi]
    omega
  have hsum : potential cfg rcv keys D (s.taken i now) - (s.taken i now).flight.length =
      potential cfg rcv keys D s - s.flight.length := by
    simp only [potential, Nat.add_sub_cancel_left]
    rfl
  unfold potential at hsum ⊢
  omega

section Grants

variable {i target added : ℕ}

theorem Books.flight_taken (h : Books cfg rcv keys D s fl) (i now : ℕ) :
    (s.taken i now).flight = (fl.eraseIdx i).map (Parcel.datagram cfg rcv D) := by
  rw [← List.eraseIdx_map, ← h.flight]
  rfl

theorem count_fragment_eraseIdx (hi : fl[i]? = some (.grant key target added)) (k : MsgKey Addr)
    (j : ℕ) : (fl.eraseIdx i).count (.fragment k j) = fl.count (.fragment k j) := by
  rw [count_eraseIdx hi, if_neg (by simp), Nat.add_zero]

/-- The other messages stand where they stood when a GRANT arrives. -/
theorem Books.phase_other (h : Books cfg rcv keys D s fl)
    (hi : fl[i]? = some (.grant key target added)) {k : MsgKey Addr} (hk : k ≠ key) (now : ℕ) :
    Phase cfg (D k) (fun j => (fl.eraseIdx i).count (.fragment k j))
      (fun w => ∃ added, .grant k w added ∈ fl.eraseIdx i) ((s.taken i now).transfer rcv k).out
      ((s.taken i now).transfer rcv k).entry ((s.taken i now).deliveredFor k) := by
  have hgrants : ∀ w, (∃ added, Parcel.grant k w added ∈ fl.eraseIdx i) ↔
      ∃ added, .grant k w added ∈ fl := by
    intro w
    apply exists_grant_eraseIdx hi
    intro a heq
    cases heq
    exact hk rfl
  simp only [count_fragment_eraseIdx hi, hgrants]
  exact h.phase k

/-- A GRANT arrives for a message that the sender has given up. -/
theorem Books.grant_late (h : Books cfg rcv keys D s fl)
    (hi : fl[i]? = some (.grant key target added)) (now : ℕ) {pkt : Packet}
    (hid : pkt.msgId = key.2) (ho : (s.transfer rcv key).out = none) :
    (∃ fl', Books cfg rcv keys D
      ((s.taken i now).runSender key.1 fun c => c.handleGrant rcv pkt now) fl') ∧
      potential cfg rcv keys D
          ((s.taken i now).runSender key.1 fun c => c.handleGrant rcv pkt now) + 1 ≤
        potential cfg rcv keys D s := by
  have hlen : i < s.flight.length := by
    rw [h.flight, List.length_map]
    exact (List.getElem?_eq_some_iff.mp hi).1
  have hnothing : ((s.taken i now).senders key.1).handleGrant rcv pkt now =
      ((s.taken i now).senders key.1, []) := by
    have hlook : ((s.taken i now).senders key.1).out.lookup (rcv, key.2) = none := ho
    rw [SenderCore.handleGrant, SenderCore.update, hid, hlook]
  rw [runSender_id hnothing]
  refine ⟨⟨fl.eraseIdx i, h.flight_taken i now, fun k => ?_, h.started, h.known, h.completed⟩,
    (potential_taken hlen now).le⟩
  by_cases hk : k = key
  · subst hk
    have hphase := h.phase k
    have hsame : ((s.taken i now).transfer rcv k).out = none ∧
        ((s.taken i now).transfer rcv k).entry = (s.transfer rcv k).entry ∧
        (s.taken i now).deliveredFor k = s.deliveredFor k := ⟨ho, rfl, rfl⟩
    simp only [count_fragment_eraseIdx hi, hsame]
    rw [ho] at hphase
    generalize (s.transfer rcv k).entry = entry at hphase ⊢
    generalize s.deliveredFor k = dels at hphase ⊢
    cases hphase with
    | waiting hnone => exact .waiting hnone
  · exact h.phase_other hi hk now

/-- A GRANT arrives for a message that the sender has. -/
theorem Books.grant_live (h : Books cfg rcv keys D s fl) (hwired : Wired cfg s)
    (hw : s.receiver.WindowsFit) (hD : ∀ k ∈ keys, Sendable (D k))
    (hi : fl[i]? = some (.grant key target added)) (now : ℕ) {pkt : Packet}
    (hpkt : pkt = grantHeader (D key) key.2 target added) {o : OutMsg}
    (ho : (s.transfer rcv key).out = some o) :
    (∃ fl', Books cfg rcv keys D
      ((s.taken i now).runSender key.1 fun c => c.handleGrant rcv pkt now) fl') ∧
      potential cfg rcv keys D
          ((s.taken i now).runSender key.1 fun c => c.handleGrant rcv pkt now) + 1 ≤
        potential cfg rcv keys D s := by
  have hlen : i < s.flight.length := by
    rw [h.flight, List.length_map]
    exact (List.getElem?_eq_some_iff.mp hi).1
  have hcfg : ((s.taken i now).senders key.1).cfg = cfg := hwired.senders_cfg key.1
  have hid : pkt.msgId = key.2 := by
    rw [hpkt]
    rfl
  have hphase := h.phase key
  rw [ho] at hphase
  have hpumps := hphase.pumps
  have hkey := h.started key (by rw [ho]; rfl)
  have hmore := count_mono cfg.packetSize_pos (hpumps.le_handleGrant rcv pkt now)
  have hlook₀ : ((s.taken i now).senders key.1).out.lookup (rcv, key.2) = some o := ho
  have hlook : ∀ k, (((s.taken i now).senders key.1).handleGrant rcv pkt now).1.out.lookup k =
      if k = (rcv, key.2) then some (o.handleGrant cfg rcv pkt now).1
      else ((s.taken i now).senders key.1).out.lookup k := by
    intro k
    rw [SenderCore.handleGrant, SenderCore.lookup_update, hid, hlook₀, Option.map_some, hcfg]
  have hacts : (((s.taken i now).senders key.1).handleGrant rcv pkt now).2 =
      sendRanges rcv key.2 (D key)
        ((List.range' (count cfg.packetSize o.nextSend)
          (count cfg.packetSize (o.handleGrant cfg rcv pkt now).1.nextSend -
            count cfg.packetSize o.nextSend)).map (fragRange cfg.packetSize (D key).length)) := by
    rw [SenderCore.handleGrant, SenderCore.update_outputs, hid, hlook₀, Option.map_some,
      Option.getD_some, hcfg, OutMsg.handleGrant_acts, hid, hpumps.grantRanges rcv pkt now,
      hpumps.bytes]
  have hwindow := h.window_le hw key
  have hshort := (hD key (h.known key hkey).1).2
  have hphase' : Phase cfg (D key)
      (fun j => (fl.eraseIdx i).count (.fragment key j) +
        if count cfg.packetSize o.nextSend ≤ j ∧ j < count cfg.packetSize o.nextSend +
          (count cfg.packetSize (o.handleGrant cfg rcv pkt now).1.nextSend -
            count cfg.packetSize o.nextSend) then 1 else 0)
      (fun w => ∃ added, .grant key w added ∈ fl.eraseIdx i)
      (some (o.handleGrant cfg rcv pkt now).1) ((s.taken i now).transfer rcv key).entry
      ((s.taken i now).deliveredFor key) := by
    refine hphase.grant rcv pkt now (fun j => ?_) ?_
    · rw [count_fragment_eraseIdx hi, Nat.add_sub_cancel' hmore]
    · rintro ⟨a, ha⟩
      rcases mem_eraseIdx_or hi ha with hin | heq
      · exact Or.inl ⟨a, hin⟩
      · right
        obtain ⟨-, htarget, -⟩ := Parcel.grant.inj heq
        have hoff : pkt.offset.toNat = target := by
          rw [hpkt]
          exact toNat_ofNat_u32 (by omega)
        omega
  constructor
  · exact ⟨_, Books.runSender (h.flight_taken i now) hlook hacts hphase'
      (fun k hk => h.phase_other hi hk now) (fun k _ hk => h.started k hk)
      (fun k hk => ⟨(h.known k hk).1, fun _ => (h.known k hk).2⟩) hkey h.completed⟩
  · have hcredit := credit_grant hpumps (s.transfer rcv key).entry (s.deliveredFor key) rcv pkt now
    rw [← potential_taken hlen now, Nat.add_le_add_iff_right]
    refine potential_runSender (f := fun c => c.handleGrant rcv pkt now) (n := count cfg.packetSize
      (o.handleGrant cfg rcv pkt now).1.nextSend - count cfg.packetSize o.nextSend) (c := 0)
      hlook hacts ?_ (h.known key hkey).1
    rw [Nat.add_zero]
    change _ ≤ credit cfg (D key) (s.transfer rcv key).out _ _
    rw [ho]
    exact hcredit.le

/-- A GRANT arrives. -/
theorem Books.grant (h : Books cfg rcv keys D s fl) (hwired : Wired cfg s)
    (hw : s.receiver.WindowsFit) (hD : ∀ k ∈ keys, Sendable (D k))
    (hi : fl[i]? = some (.grant key target added)) (now : ℕ) {s₁ : Network Addr}
    (hs₁ : s₁ = s.taken i now) {pkt : Packet}
    (hpkt : pkt = grantHeader (D key) key.2 target added) :
    (∃ fl', Books cfg rcv keys D (s₁.runSender key.1 fun c => c.handleGrant rcv pkt now) fl') ∧
      potential cfg rcv keys D (s₁.runSender key.1 fun c => c.handleGrant rcv pkt now) + 1 ≤
        potential cfg rcv keys D s := by
  have hid : pkt.msgId = key.2 := by
    rw [hpkt]
    rfl
  rw [hs₁]
  cases ho : (s.transfer rcv key).out with
  | none => exact h.grant_late hi now hid ho
  | some o => exact h.grant_live hwired hw hD hi now hpkt ho

end Grants

/-- A fragment was taken out of the flight list and entered, before any scheduling. -/
theorem Books.receive (h : Books cfg rcv keys D s fl) {i j : ℕ}
    (hi : fl[i]? = some (.fragment key j)) {s₁ : Network Addr}
    (hflight : s₁.flight = s.flight.eraseIdx i) (hsenders : s₁.senders = s.senders)
    (hstarted : s₁.started = s.started)
    (hentry : ∀ k, k ≠ key → s₁.receiver.incoming.lookup k = s.receiver.incoming.lookup k)
    (hdel : ∀ k, k ≠ key → s₁.deliveredFor k = s.deliveredFor k)
    (hphase : (∀ q, fl.count (.fragment key q) = (fl.eraseIdx i).count (.fragment key q) +
        if q = j then 1 else 0) → (∀ w, (∃ added, .grant key w added ∈ fl) →
          ∃ added, .grant key w added ∈ fl.eraseIdx i) →
      Phase cfg (D key) (fun q => (fl.eraseIdx i).count (.fragment key q))
        (fun w => ∃ added, .grant key w added ∈ fl.eraseIdx i) (s.transfer rcv key).out
        (s₁.transfer rcv key).entry (s₁.deliveredFor key))
    (hcredit : credit cfg (D key) (s.transfer rcv key).out (s₁.transfer rcv key).entry
      (s₁.deliveredFor key) ≤ credit cfg (D key) (s.transfer rcv key).out
        (s.transfer rcv key).entry (s.deliveredFor key))
    (hcompleted : ∀ k ∈ s₁.receiver.completed, s₁.deliveredFor k ≠ []) :
    Books cfg rcv keys D s₁ (fl.eraseIdx i) ∧
      potential cfg rcv keys D s₁ + 1 ≤ potential cfg rcv keys D s := by
  have hlen : i < fl.length := (List.getElem?_eq_some_iff.mp hi).1
  have hout : ∀ k, (s₁.transfer rcv k).out = (s.transfer rcv k).out := by
    intro k
    simp only [transfer, hsenders]
  have hgrants : ∀ k w, (∃ added, Parcel.grant k w added ∈ fl.eraseIdx i) ↔
      ∃ added, .grant k w added ∈ fl := by
    intro k w
    apply exists_grant_eraseIdx hi
    intro a heq
    cases heq
  have hcount := count_eraseIdx hi
  constructor
  · constructor
    · rw [hflight, h.flight, List.eraseIdx_map]
    · intro k
      rw [hout k]
      by_cases hk : k = key
      · subst hk
        apply hphase
        · intro q
          rw [hcount]
          simp
        · intro w hw
          exact (hgrants k w).mpr hw
      · have hsame : ∀ q, (fl.eraseIdx i).count (.fragment k q) = fl.count (.fragment k q) := by
          intro q
          rw [hcount, if_neg (by simp [hk]), Nat.add_zero]
        have hentry' : (s₁.transfer rcv k).entry = (s.transfer rcv k).entry := hentry k hk
        simp only [hsame, hgrants, hentry', hdel k hk]
        exact h.phase k
    · intro k hk
      rw [hout] at hk
      rw [hstarted]
      exact h.started k hk
    · intro k hk
      rw [hstarted] at hk
      rw [hout]
      exact h.known k hk
    · exact hcompleted
  · apply potential_le fun _ => 0
    · intro k _
      rw [hout k, Nat.add_zero]
      by_cases hk : k = key
      · rw [hk]
        exact hcredit
      · have hentry' : (s₁.transfer rcv k).entry = (s.transfer rcv k).entry := hentry k hk
        rw [hentry', hdel k hk]
    · rw [hflight, h.flight, List.length_eraseIdx_of_lt (by rwa [List.length_map])]
      simp
      omega

/-- The parcels of a round of scheduling. -/
def roundParcels (cfg : TransportConfig) (now : ℕ) (granting : List (MsgKey Addr))
    (r : ReceiverCore Addr) : List (Parcel Addr) :=
  granting.flatMap fun k => ((r.incoming.lookup k).map (grantParcels cfg k now)).getD []

omit [DecidableEq Addr] in
theorem length_grantParcels (cfg : TransportConfig) (k : MsgKey Addr) (now : ℕ) (m : InMsg) :
    m.grantedTo + (grantParcels cfg k now m).length ≤
      (m.issueGrant cfg k now false).1.grantedTo := by
  have hle := InMsg.le_grantedTo_issueGrant cfg k now false m
  unfold grantParcels
  split_ifs with hlt
  · exact hlt
  · exact hle

theorem fragment_not_mem_roundParcels (cfg : TransportConfig) (now : ℕ)
    (granting : List (MsgKey Addr)) (r : ReceiverCore Addr) (k : MsgKey Addr) (q : ℕ) :
    Parcel.fragment k q ∉ roundParcels cfg now granting r := by
  intro hmem
  obtain ⟨k', _, hk'⟩ := List.mem_flatMap.mp hmem
  cases hm : r.incoming.lookup k' with
  | none =>
    rw [hm] at hk'
    cases hk'
  | some m =>
    rw [hm, Option.map_some, Option.getD_some, grantParcels] at hk'
    split_ifs at hk'
    · cases List.mem_singleton.mp hk'
    · cases hk'

/-- The GRANTs of a round, as datagrams. -/
theorem Books.datagrams_round (h : Books cfg rcv keys D s fl) (now : ℕ)
    (granting : List (MsgKey Addr)) :
    datagrams rcv (granting.flatMap fun k => ((s.receiver.incoming.lookup k).map fun m =>
      (m.issueGrant cfg k now false).2).getD []) =
        (roundParcels cfg now granting s.receiver).map (Parcel.datagram cfg rcv D) := by
  induction granting with
  | nil => rfl
  | cons k ks ih =>
    rw [roundParcels] at ih ⊢
    rw [List.flatMap_cons, List.flatMap_cons, datagrams_append, ih, List.map_append]
    congr 1
    cases hm : s.receiver.incoming.lookup k with
    | none => rfl
    | some m =>
      have hr := ((h.phase k).rebuilds hm).1
      exact datagrams_issueGrant hr.totalLen now

/-- No more GRANTs are sent than there are windows raised. -/
theorem length_roundParcels_le (cfg : TransportConfig) {granting : List (MsgKey Addr)}
    (hnd : granting.Nodup)
    (hsub : ∀ k ∈ granting, k ∈ keys) (now : ℕ) (r : ReceiverCore Addr) :
    (roundParcels cfg now granting r).length ≤ ∑ k ∈ keys, if k ∈ granting then
      (((r.incoming.lookup k).map (grantParcels cfg k now)).getD []).length else 0 := by
  calc (roundParcels cfg now granting r).length
      = ∑ k ∈ granting.toFinset,
          (((r.incoming.lookup k).map (grantParcels cfg k now)).getD []).length := by
        rw [roundParcels, List.length_flatMap, List.sum_toFinset _ hnd]
    _ = ∑ k ∈ granting.toFinset, if k ∈ granting then
          (((r.incoming.lookup k).map (grantParcels cfg k now)).getD []).length else 0 := by
        refine Finset.sum_congr rfl fun k hk => ?_
        rw [if_pos (List.mem_toFinset.mp hk)]
    _ ≤ _ := Finset.sum_le_sum_of_subset fun k hk => hsub k (List.mem_toFinset.mp hk)

section Rounds

variable {r' : ReceiverCore Addr} {acts : List (Action Addr)} {now : ℕ}

/-- A round of scheduling raises the window of a message, and the GRANT says so. -/
theorem Books.phase_scheduled (h : Books cfg rcv keys D s fl) (hcfg : s.receiver.cfg = cfg)
    (hs : s.receiver.Scheduled now r' acts) (k : MsgKey Addr) :
    Phase cfg (D k)
      (fun q => (fl ++ roundParcels cfg now r'.granting s.receiver).count (.fragment k q))
      (fun w => ∃ added, .grant k w added ∈ fl ++ roundParcels cfg now r'.granting s.receiver)
      (s.transfer rcv k).out (r'.incoming.lookup k) (s.deliveredFor k) := by
  have hlook := hs.lookup
  rw [hcfg] at hlook
  have hcount : ∀ q, (fl ++ roundParcels cfg now r'.granting s.receiver).count
      (.fragment k q) = fl.count (.fragment k q) := by
    intro q
    rw [List.count_append,
      List.count_eq_zero_of_not_mem (fragment_not_mem_roundParcels cfg now _ _ k q), Nat.add_zero]
  have heq : (s.transfer rcv k).entry = s.receiver.incoming.lookup k := rfl
  simp only [hcount]
  refine (h.phase k).regrant ?_ ?_ ?_
  · rw [heq, hlook k]
    cases hm : s.receiver.incoming.lookup k with
    | none => exact Or.inl rfl
    | some m =>
      refine Or.inr ⟨m, _, rfl, rfl, ?_, ?_⟩
      · split_ifs
        · exact InMsg.issueGrant_content cfg k now false m
        · exact InMsg.SameContent.refl m
      · split_ifs
        · exact (Nat.lt_or_eq_of_le (InMsg.le_grantedTo_issueGrant cfg k now false m)).imp_right
            Eq.symm
        · exact Or.inr rfl
  · rintro w ⟨a, ha⟩
    exact ⟨a, List.mem_append_left _ ha⟩
  · rw [heq, hlook k]
    cases hm : s.receiver.incoming.lookup k with
    | none =>
      intro hlt
      exact absurd hlt (Nat.lt_irrefl _)
    | some m =>
      simp only [Option.map_some, window_some]
      split_ifs with hk
      · intro hlt
        have hmem : Parcel.grant k (m.issueGrant cfg k now false).1.grantedTo
            ((m.issueGrant cfg k now false).1.grantedTo - m.grantedTo) ∈
              ((s.receiver.incoming.lookup k).map (grantParcels cfg k now)).getD [] := by
          rw [hm, Option.map_some, Option.getD_some, grantParcels, if_pos hlt]
          exact List.mem_singleton.mpr rfl
        exact ⟨_, List.mem_append_right _ (List.mem_flatMap.mpr ⟨k, hk, hmem⟩)⟩
      · intro hlt
        exact absurd hlt (Nat.lt_irrefl _)

/-- The GRANTs of a message are paid for by its window. -/
theorem Books.credit_scheduled (h : Books cfg rcv keys D s fl) (hcfg : s.receiver.cfg = cfg)
    (hs : s.receiver.Scheduled now r' acts) (hw : r'.WindowsFit) (k : MsgKey Addr) :
    credit cfg (D k) (s.transfer rcv k).out (r'.incoming.lookup k) (s.deliveredFor k) +
        (if k ∈ r'.granting then
          (((s.receiver.incoming.lookup k).map (grantParcels cfg k now)).getD []).length else 0) ≤
      credit cfg (D k) (s.transfer rcv k).out (s.transfer rcv k).entry (s.deliveredFor k) := by
  have hnew := hs.lookup k
  rw [hcfg] at hnew
  have heq : (s.transfer rcv k).entry = s.receiver.incoming.lookup k := rfl
  cases hm : s.receiver.incoming.lookup k with
  | none =>
    rw [heq, hnew, hm]
    split_ifs <;> exact le_rfl
  | some m =>
    rw [hm, Option.map_some] at hnew
    have hopen : s.deliveredFor k = [] := by
      have hphase := h.phase k
      rw [heq, hm] at hphase
      generalize (s.transfer rcv k).out = out at hphase
      generalize s.deliveredFor k = dels at hphase ⊢
      cases hphase with
      | moving => rfl
    have hwithin := hw k _ hnew
    rw [heq, hnew, hm]
    split_ifs at hnew hwithin ⊢ with hk
    · have hr := ((h.phase k).rebuilds (heq.trans hm)).1
      rw [(InMsg.issueGrant_content cfg k now false m).totalLen, hr.totalLen] at hwithin
      exact credit_regrant (length_grantParcels cfg k now m) (Or.inr ⟨hopen, hwithin⟩)
    · exact le_rfl

/-- A round of scheduling raises windows and says so. -/
theorem Books.scheduled (h : Books cfg rcv keys D s fl) (hcfg : s.receiver.cfg = cfg)
    (hs : s.receiver.Scheduled now r' acts) (hw : r'.WindowsFit) {s' : Network Addr}
    (hs' : s' = emit rcv acts { s with receiver := r' }) :
    Books cfg rcv keys D s' (fl ++ roundParcels cfg now r'.granting s.receiver) ∧
      potential cfg rcv keys D s' ≤ potential cfg rcv keys D s := by
  have hout : ∀ k, (s'.transfer rcv k).out = (s.transfer rcv k).out := by
    intro k
    rw [hs']
    rfl
  have hentry : ∀ k, (s'.transfer rcv k).entry = r'.incoming.lookup k := by
    intro k
    rw [hs']
    rfl
  have hdel : ∀ k, s'.deliveredFor k = s.deliveredFor k := by
    intro k
    rw [hs']
    simp only [deliveredFor, emit, hs.deliveries, List.append_nil]
  have hflight : s'.flight = s.flight ++
      (roundParcels cfg now r'.granting s.receiver).map (Parcel.datagram cfg rcv D) := by
    rw [← h.datagrams_round, ← hcfg, ← hs.acts, hs']
    rfl
  constructor
  · constructor
    · rw [hflight, h.flight, List.map_append]
    · intro k
      rw [hout, hentry, hdel]
      exact h.phase_scheduled hcfg hs k
    · intro k hk
      rw [hout] at hk
      rw [hs']
      exact h.started k hk
    · intro k hk
      rw [hs'] at hk
      rw [hout]
      exact h.known k hk
    · intro k hk
      rw [hs'] at hk
      rw [hdel]
      exact h.completed k (hs.completed ▸ hk)
  · have hsub : ∀ k ∈ r'.granting, k ∈ keys := by
      intro k hk
      obtain ⟨m, hm, _⟩ := hs.wants k hk
      exact h.mem_keys hm
    apply potential_le (c := 0) fun k => if k ∈ r'.granting then
      (((s.receiver.incoming.lookup k).map (grantParcels cfg k now)).getD []).length else 0
    · intro k _
      rw [hout, hentry, hdel]
      exact h.credit_scheduled hcfg hs hw k
    · have hle := length_roundParcels_le cfg hs.nodup hsub now s.receiver
      rw [hflight, List.length_append, List.length_map]
      omega

end Rounds

end Network
end AgentTransport
