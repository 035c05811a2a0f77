import AgentTransport.InnerRun

/-!
# The calls of `send_to`

Every call draws a number of its own, as long as fewer than `2 ^ 64` calls are made, and it
returns once. An entry of the sender core belongs to a running call, or everything of it was
sent and its call has returned `Ok`: a call that gives up takes its entry with it.
-/
namespace AgentTransport
open Transition

variable {Addr : Type} [DecidableEq Addr]

namespace Inner

variable {t t' : Inner Addr} {m : Move Addr} {out : List (Outgoing Addr)} {key : MsgKey Addr}

/-- Fewer than `2 ^ 64` calls are made. -/
def Counts (t : Inner Addr) : Move Addr → Prop
  | .sendTo _ _ _ => t.made.length + 1 < 2 ^ 64
  | _ => True

instance (t : Inner Addr) : DecidablePred t.Counts := fun m =>
  match m with
  | .sendTo _ _ _ => inferInstanceAs (Decidable (t.made.length + 1 < 2 ^ 64))
  | .start _ | .dispatch _ | .poll _ _ | .recv _ _ | .quiet | .socketError | .handle _
  | .look _ | .tick _ _ | .shutdown => inferInstanceAs (Decidable True)

/-- The numbers in use are those of the calls, and each call is running or has returned. -/
structure Numbered (t : Inner Addr) : Prop where
  bound : t.made.length < 2 ^ 64
  counter : t.msgCounter = UInt64.ofNat (t.made.length + 1)
  below : ∀ x ∈ t.made, x.1.2.toNat ≤ t.made.length
  nodup : (t.made.map fun x => x.1.2).Nodup
  accounted : (t.calls.map SendCall.key ++ t.returned.map Prod.fst).Perm (t.made.map Prod.fst)
  data : ∀ call ∈ t.calls, (call.key, call.data) ∈ t.made

omit [DecidableEq Addr] in
theorem Numbered.new (cfg : TransportConfig) (sendTimeout now : ℕ) :
    Numbered (Inner.new cfg sendTimeout now : Inner Addr) where
  bound := by simp [Inner.new]
  counter := rfl
  below x hx := by cases hx
  nodup := List.nodup_nil
  accounted := List.Perm.refl _
  data call h := by cases h

omit [DecidableEq Addr] in
/-- Nothing but the counter, the calls and their histories counts. -/
theorem Numbered.congr (h : Numbered t) (hcounter : t'.msgCounter = t.msgCounter)
    (hmade : t'.made = t.made) (hreturned : t'.returned = t.returned)
    (hcalls : t'.calls.map (fun call => (call.key, call.data)) =
      t.calls.map fun call => (call.key, call.data)) : Numbered t' where
  bound := hmade ▸ h.bound
  counter := by rw [hcounter, hmade, h.counter]
  below := hmade ▸ h.below
  nodup := hmade ▸ h.nodup
  accounted := by
    have hkeys : t'.calls.map SendCall.key = t.calls.map SendCall.key := by
      have hfst := congrArg (List.map Prod.fst) hcalls
      rwa [List.map_map, List.map_map] at hfst
    rw [hkeys, hreturned, hmade]
    exact h.accounted
  data call hcall := by
    have hmem : (call.key, call.data) ∈ t.calls.map fun call => (call.key, call.data) := by
      rw [← hcalls]
      exact List.mem_map_of_mem hcall
    obtain ⟨call', hcall', heq⟩ := List.mem_map.mp hmem
    rw [hmade, ← heq]
    exact h.data call' hcall'

omit [DecidableEq Addr] in
/-- A call that returns moves from the running calls to the results. -/
theorem Numbered.leave (h : Numbered t) {i : ℕ} {call : SendCall Addr}
    (hi : t.calls[i]? = some call) (result : Except TransportError UInt64)
    (hcounter : t'.msgCounter = t.msgCounter) (hmade : t'.made = t.made)
    (hcalls : t'.calls = t.calls.eraseIdx i)
    (hreturned : t'.returned = t.returned ++ [(call.key, result)]) : Numbered t' where
  bound := hmade ▸ h.bound
  counter := by rw [hcounter, hmade, h.counter]
  below := hmade ▸ h.below
  nodup := hmade ▸ h.nodup
  accounted := by
    obtain ⟨hlt, rfl⟩ := List.getElem?_eq_some_iff.mp hi
    have hone := (List.getElem_cons_eraseIdx_perm hlt).map SendCall.key
    rw [hcalls, hreturned, hmade, List.map_append, List.map_singleton]
    refine List.Perm.trans ?_ ((hone.append_right _).trans h.accounted)
    rw [← List.append_assoc, List.map_cons, List.cons_append]
    exact List.perm_append_singleton _ _
  data c hc := by
    rw [hcalls] at hc
    rw [hmade]
    exact h.data c (List.mem_of_mem_eraseIdx hc)

omit [DecidableEq Addr] in
theorem map_setPhase {κ : Type} (f : MsgKey Addr → List UInt8 → κ) {i : ℕ} {call : SendCall Addr}
    (hi : t.calls[i]? = some call) (phase : SendPhase Addr) :
    (t.setPhase i call phase).calls.map (fun call => f call.key call.data) =
      t.calls.map fun call => f call.key call.data :=
  Threads.map_set hi rfl

omit [DecidableEq Addr] in
theorem Numbered.sendTo (h : Numbered t) (dest : Addr) (data : List UInt8) (now : ℕ)
    (hcount : t.made.length + 1 < 2 ^ 64) : Numbered { t with
      msgCounter := t.msgCounter + 1
      calls := t.calls ++ [⟨dest, t.msgCounter, data, now, now + t.sendTimeout, .numbered⟩]
      made := t.made ++ [((dest, t.msgCounter), data)] } := by
  have hnat : t.msgCounter.toNat = t.made.length + 1 := by
    rw [h.counter, UInt64.toNat_ofNat_of_lt' hcount]
  have hlen : (t.made ++ [((dest, t.msgCounter), data)]).length = t.made.length + 1 := by simp
  refine ⟨?_, ?_, ?_, ?_, ?_, ?_⟩
  · dsimp only
    rw [hlen]
    exact hcount
  · dsimp only
    rw [hlen, h.counter]
    simp [UInt64.ofNat_add]
  · intro x hx
    dsimp only at hx ⊢
    rw [hlen]
    rcases List.mem_append.mp hx with hx | hx
    · exact (h.below x hx).trans (Nat.le_succ _)
    · rw [List.mem_singleton.mp hx, hnat]
  · refine Threads.nodup_append h.nodup fun hmem => ?_
    obtain ⟨x, hx, hid⟩ := List.mem_map.mp hmem
    have hle := h.below x hx
    rw [hid, hnat] at hle
    omega
  · dsimp only
    rw [List.map_append, List.map_append, List.append_assoc]
    refine (List.perm_append_comm.append_left _).trans ?_
    rw [← List.append_assoc]
    exact h.accounted.append_right _
  · intro call hcall
    rcases List.mem_append.mp hcall with hcall | hcall
    · exact List.mem_append_left _ (h.data call hcall)
    · rw [List.mem_singleton.mp hcall]
      exact List.mem_append_right _ (List.mem_singleton.mpr rfl)

theorem Numbered.effect (h : Numbered t) (hcount : t.Counts m) (he : Effect t m t' out) :
    Numbered t' := by
  cases he with
  | sendTo dest data now => exact h.sendTo dest data now hcount
  | start hi => exact h.congr rfl rfl rfl (map_setPhase Prod.mk hi _)
  | dispatch hi => exact h.congr rfl rfl rfl (map_setPhase Prod.mk hi _)
  | done hi => exact h.leave hi _ rfl rfl rfl rfl
  | expired hi => exact h.leave hi _ rfl rfl rfl rfl
  | waits => exact h
  | takes => exact h.congr rfl rfl rfl rfl
  | nothing => exact h
  | quiet => exact h.congr rfl rfl rfl rfl
  | socketError => exact h.congr rfl rfl rfl rfl
  | handle => exact h.congr rfl rfl rfl rfl
  | looks => exact h.congr rfl rfl rfl rfl
  | passes => exact h.congr rfl rfl rfl rfl
  | tick => exact h.congr rfl rfl rfl rfl
  | shutdown => exact h.congr rfl rfl rfl rfl

omit [DecidableEq Addr] in
theorem Numbered.nodup_keys (h : Numbered t) :
    (t.calls.map SendCall.key ++ t.returned.map Prod.fst).Nodup :=
  h.accounted.nodup_iff.mpr (List.Nodup.of_map Prod.snd (by rw [List.map_map]; exact h.nodup))

omit [DecidableEq Addr] in
/-- Running calls have numbers of their own. -/
theorem Numbered.nodup_ids (h : Numbered t) : (t.calls.map SendCall.msgId).Nodup := by
  have hall := (h.accounted.map Prod.snd).nodup_iff.mpr (by rw [List.map_map]; exact h.nodup)
  rw [List.map_append, List.map_map, List.nodup_append] at hall
  exact hall.1

omit [DecidableEq Addr] in
/-- A running call has not returned. -/
theorem Numbered.not_returned (h : Numbered t) {call : SendCall Addr} (hcall : call ∈ t.calls)
    (result : Except TransportError UInt64) : (call.key, result) ∉ t.returned := by
  intro hmem
  exact (List.nodup_append.mp h.nodup_keys).2.2 _ (List.mem_map_of_mem hcall) _
    (List.mem_map_of_mem hmem) rfl

omit [DecidableEq Addr] in
/-- A call returns one result. -/
theorem Numbered.result_eq (h : Numbered t) {r r' : Except TransportError UInt64}
    (hr : (key, r) ∈ t.returned) (hr' : (key, r') ∈ t.returned) : r = r' := by
  have hnd := (List.nodup_append.mp h.nodup_keys).2.1
  exact (Prod.mk.inj (List.inj_on_of_nodup_map hnd hr hr' rfl)).2

/-- The call has entered its message. -/
def SendPhase.Entered : SendPhase Addr → Prop
  | .numbered => False
  | _ => True

/-- A running call has entered the message `key`. -/
def Runs (t : Inner Addr) (key : MsgKey Addr) : Prop :=
  ∃ call ∈ t.calls, call.key = key ∧ SendPhase.Entered call.phase

/-- Whose the entries of the sender core are. -/
def Owned (t : Inner Addr) : Prop :=
  ∀ key m, t.state.sender.out.lookup key = some m →
    t.Runs key ∨ m.doneAt.isSome ∧ (key, .ok key.2) ∈ t.returned

omit [DecidableEq Addr] in
/-- A call that goes on still has what it had entered. -/
theorem Runs.setPhase (h : t.Runs key) (hn : Numbered t) {i : ℕ} {call : SendCall Addr}
    (hi : t.calls[i]? = some call) {phase : SendPhase Addr} (hphase : SendPhase.Entered phase) :
    (t.setPhase i call phase).Runs key := by
  obtain ⟨call', hcall', hkey, hentered⟩ := h
  by_cases hid : call'.msgId = call.msgId
  · have hsame : call' = call := List.inj_on_of_nodup_map hn.nodup_ids hcall'
      (List.mem_of_getElem? hi) hid
    refine ⟨{ call with phase := phase }, ?_, ?_, hphase⟩
    · exact List.mem_set (List.getElem?_eq_some_iff.mp hi).1 _
    · rw [← hkey, hsame]
      rfl
  · exact ⟨call', Threads.mem_set_of_ne hi hcall' hid, hkey, hentered⟩

omit [DecidableEq Addr] in
/-- The other calls run on when one returns. -/
theorem Runs.leave (h : t.Runs key) {i : ℕ} {call : SendCall Addr} (hi : t.calls[i]? = some call)
    (hne : key ≠ call.key) (hcalls : t'.calls = t.calls.eraseIdx i) : t'.Runs key := by
  obtain ⟨call', hcall', hkey, hentered⟩ := h
  refine ⟨call', ?_, hkey, hentered⟩
  rw [hcalls]
  exact Threads.mem_eraseIdx_of_ne hi hcall' (f := SendCall.key) fun heq => hne (by rw [← hkey, heq])

/-- Only the entries, the calls and the results count. -/
theorem Owned.congr (h : t.Owned)
    (hout : ∀ key m', t'.state.sender.out.lookup key = some m' →
      ∃ m, t.state.sender.out.lookup key = some m ∧ (m.doneAt.isSome → m'.doneAt.isSome))
    (hcalls : ∀ key, t.Runs key → t'.Runs key) (hreturned : t'.returned = t.returned) :
    t'.Owned := by
  intro key m' hm'
  obtain ⟨m, hm, hdone⟩ := hout key m' hm'
  rcases h key m hm with hruns | ⟨hsome, hok⟩
  · exact Or.inl (hcalls key hruns)
  · exact Or.inr ⟨hdone hsome, hreturned ▸ hok⟩

theorem entry_tick (s : SenderCore Addr) (now : ℕ) (order : MapOrder (MsgKey Addr))
    {m' : OutMsg} (hm' : (s.tick now order).1.out.lookup key = some m') :
    ∃ m, s.out.lookup key = some m ∧ m.lingers s.cfg now ∧ m'.doneAt = m.doneAt := by
  rw [SenderCore.lookup_tick] at hm'
  obtain ⟨m, hm, rfl⟩ := Option.map_eq_some_iff.mp hm'
  obtain ⟨hm, hlingers⟩ := Option.filter_eq_some_iff.mp hm
  refine ⟨m, hm, hlingers, ?_⟩
  unfold OutMsg.tickEntry
  split_ifs <;> rfl

theorem Owned.effect (h : t.Owned) (hn : Numbered t) (he : Effect t m t' out) : t'.Owned := by
  cases he with
  | sendTo dest data now =>
    refine h.congr (fun key m' hm' => ⟨m', hm', id⟩) (fun key hruns => ?_) rfl
    obtain ⟨call, hcall, hrest⟩ := hruns
    exact ⟨call, List.mem_append_left _ hcall, hrest⟩
  | @start i call hi hphase =>
    have hlt := (List.getElem?_eq_some_iff.mp hi).1
    intro key m' hm'
    dsimp only at hm'
    rw [SenderCore.lookup_start] at hm'
    by_cases hk : key = (call.dest, call.msgId)
    · exact Or.inl ⟨{ call with phase := _ }, List.mem_set hlt _, hk.symm, trivial⟩
    · rw [if_neg hk] at hm'
      rcases h key m' hm' with hruns | hrest
      · exact Or.inl (hruns.setPhase hn hi trivial)
      · exact Or.inr hrest
  | @dispatch i call acts hi hphase =>
    refine h.congr (fun key m' hm' => ⟨m', ?_, id⟩) (fun key hruns => ?_) rfl
    · rwa [drain_sender] at hm'
    · exact (hruns.setPhase hn hi trivial : (t.setPhase i call .waiting).Runs key)
  | @done i now call hi hphase hdone =>
    intro key m' hm'
    by_cases hk : key = call.key
    · subst hk
      refine Or.inr ⟨?_, List.mem_append_right _ (List.mem_singleton.mpr rfl)⟩
      rw [SenderCore.isDone,
        show t.state.sender.out.lookup (call.dest, call.msgId) = some m' from hm'] at hdone
      exact hdone
    · rcases h key m' hm' with hruns | ⟨hsome, hok⟩
      · exact Or.inl (hruns.leave hi hk rfl)
      · exact Or.inr ⟨hsome, List.mem_append_left _ hok⟩
  | @expired i now call hi hphase hopen hlate =>
    intro key m' hm'
    have hm' : (t.state.sender.out.erase call.key).lookup key = some m' := hm'
    rw [KeyMap.lookup_erase_eq] at hm'
    by_cases hk : key = call.key
    · rw [if_pos hk] at hm'
      cases hm'
    · rw [if_neg hk] at hm'
      rcases h key m' hm' with hruns | ⟨hsome, hok⟩
      · exact Or.inl (hruns.leave hi hk rfl)
      · exact Or.inr ⟨hsome, List.mem_append_left _ hok⟩
  | waits => exact h
  | takes => exact h
  | nothing => exact h
  | quiet => exact h
  | socketError => exact h
  | handle hio hst =>
    refine h.congr (fun key m' hm' => ?_) (fun key hruns => hruns) rfl
    rw [drain_sender] at hm'
    exact (State.handled hst).entry hm'
  | looks => exact h
  | passes => exact h
  | @tick now order orders r' acts hio hr =>
    refine h.congr (fun key m' hm' => ?_) (fun key hruns => hruns) rfl
    rw [drain_sender] at hm'
    obtain ⟨m, hm, _, hsame⟩ := entry_tick _ _ _ hm'
    exact ⟨m, hm, fun hsome => by rwa [hsame]⟩
  | shutdown => exact h

/-- A call returns its number, or that it gave up. -/
def Reports (t : Inner Addr) : Prop :=
  ∀ x ∈ t.returned, x.2 = .ok x.1.2 ∨ x.2 = .error sendTimedOut

theorem Reports.effect (h : t.Reports) (he : Effect t m t' out) : t'.Reports := by
  have hmore : ∀ {key : MsgKey Addr} {r : Except TransportError UInt64},
      r = .ok key.2 ∨ r = .error sendTimedOut →
      ∀ x ∈ t.returned ++ [(key, r)], x.2 = .ok x.1.2 ∨ x.2 = .error sendTimedOut := by
    intro key r hr x hx
    rcases List.mem_append.mp hx with hx | hx
    · exact h x hx
    · rw [List.mem_singleton.mp hx]
      exact hr
  cases he with
  | done => exact hmore (Or.inl rfl)
  | expired => exact hmore (Or.inr rfl)
  | _ => exact h

/-- A call has given the message `key` up. -/
def GaveUp (t : Inner Addr) (key : MsgKey Addr) : Prop := (key, .error sendTimedOut) ∈ t.returned

/-- Nothing is left of a message that was given up. -/
theorem Owned.gone (h : t.Owned) (hn : Numbered t) (hgave : t.GaveUp key) :
    t.state.sender.out.lookup key = none := by
  rw [Option.eq_none_iff_forall_ne_some]
  intro m hm
  rcases h key m hm with ⟨call, hcall, rfl, _⟩ | ⟨_, hok⟩
  · exact hn.not_returned hcall _ hgave
  · cases hn.result_eq hok hgave

end Inner
end AgentTransport
