import AgentTransport.RpcChannels

/-!
# Waiters of a client

A waiter belongs to a call that is still running, as long as no call is left with the error
of `send_to` while its own waiter is in the map: that exit takes nothing out. The others do,
or find the waiter taken by the dispatcher.
-/
namespace AgentTransport
open ByteString Transition

variable {Addr : Type}

/-- What happens to a client. -/
inductive ClientEvent (Addr : Type) where
  | move (m : ClientMove Addr)
  /-- The dispatcher gets a frame. -/
  | frame (frame : List UInt8)

/-- The call that an action returns from. -/
def ClientAction.returned : ClientAction Addr → Option (Caller Addr)
  | .send _ _ => none
  | .ok c _ | .sendFailed c | .timedOut c => some c

/-- The number of calls that a move begins. -/
def ClientMove.begins : ClientMove Addr → ℕ
  | .call _ _ _ => 1
  | _ => 0

/-- A client, the number of its calls so far, and those that have returned. -/
structure RpcCensus (Addr : Type) where
  client : RpcClient Addr
  begun : ℕ
  returned : List (Caller Addr)

namespace RpcClient

variable {c c' : RpcClient Addr} {i : ℕ}

/-- A channel is the waiter of one number at most, and of none once it has a letter. -/
structure Unshared (c : RpcClient Addr) : Prop where
  numbered : Numbered c
  inj : ∀ r r' chan, c.waiters.lookup r = some chan → c.waiters.lookup r' = some chan → r = r'
  taken : ∀ x, x ∈ c.mail ∨ c.dispatching = some x → ∀ r, c.waiters.lookup r ≠ some x.1

/-- The waiters belong to running calls. -/
def Attended (c : RpcClient Addr) : Prop :=
  ∀ r chan, c.waiters.lookup r = some chan →
    ∃ k ∈ c.callers, k.rpcId = r ∧ (k.chan = some chan ∨ k.phase = .expired)

theorem Unshared.new : Unshared (RpcClient.new : RpcClient Addr) where
  numbered := Numbered.new
  inj r r' chan h := by simp [RpcClient.new] at h
  taken x hx := by simp [RpcClient.new] at hx

theorem Attended.new : Attended (RpcClient.new : RpcClient Addr) := by
  intro r chan h
  simp [RpcClient.new] at h

/-- A step that makes no channel and brings in no letter. -/
theorem Unshared.fewer (h : Unshared c)
    (hwaiters : ∀ r chan, c'.waiters.lookup r = some chan → c.waiters.lookup r = some chan)
    (hletters : ∀ x, x ∈ c'.mail ∨ c'.dispatching = some x → x ∈ c.mail ∨ c.dispatching = some x)
    (hnext : c'.nextChan = c.nextChan) : Unshared c' := by
  constructor
  · exact h.numbered.fewer hwaiters hletters hnext
  · intro r r' chan hlook hlook'
    exact h.inj r r' chan (hwaiters r chan hlook) (hwaiters r' chan hlook')
  · intro x hx r hlook
    exact h.taken x (hletters x hx) r (hwaiters r x.1 hlook)

theorem Unshared.registered (h : Unshared c) (k : Caller Addr) :
    Unshared { c.setPhase i k (.registered c.nextChan) with
      waiters := c.waiters.insert k.rpcId c.nextChan
      nextChan := c.nextChan + 1 } := by
  constructor
  · exact h.numbered.registered k
  · intro r r' chan hlook hlook'
    rw [KeyMap.lookup_insert_eq] at hlook hlook'
    split_ifs at hlook hlook' with hr hr' hr'
    · exact hr.trans hr'.symm
    · exact absurd (Option.some.inj hlook) (h.numbered.waiter_lt r' chan hlook').ne'
    · exact absurd (Option.some.inj hlook') (h.numbered.waiter_lt r chan hlook).ne'
    · exact h.inj r r' chan hlook hlook'
  · intro x hx r hlook
    rw [KeyMap.lookup_insert_eq] at hlook
    split_ifs at hlook
    · exact absurd (Option.some.inj hlook) (h.numbered.letter_lt x hx).ne'
    · exact h.taken x hx r hlook

theorem Unshared.moved (h : Unshared c) {m : ClientMove Addr} {acts : List (ClientAction Addr)}
    (hm : Moved c m c' acts) : Unshared c' := by
  have hid : ∀ r chan, c.waiters.lookup r = some chan → c.waiters.lookup r = some chan :=
    fun r chan hlook => hlook
  cases hm with
  | register hi => exact h.registered _
  | call | submit | sent | sendTimeout | timeout => exact h.fewer hid (fun x hx => hx) rfl
  | take => exact h.fewer hid (fun x hx => hx.imp_left List.mem_of_mem_eraseIdx) rfl
  | giveUp | retry => exact h.fewer lookup_of_erase (fun x hx => hx) rfl
  | @hand letter hletter =>
    exact h.fewer hid (fun x hx => mem_letters_hand hletter hx) rfl

theorem Unshared.dispatched (h : Unshared c) {frame : List UInt8} (hd : Dispatched c frame c') :
    Unshared c' := by
  have hnumbered := h.numbered.dispatched hd
  cases hd with
  | malformed => exact h
  | @taken r body hdec =>
    refine ⟨hnumbered, ?_, ?_⟩
    · intro r₁ r₂ chan h₁ h₂
      exact h.inj r₁ r₂ chan (lookup_of_erase r₁ chan h₁) (lookup_of_erase r₂ chan h₂)
    · intro x hx r' hlook'
      have hold := lookup_of_erase r' x.1 hlook'
      rcases mem_letters_taken (c := c) hx with hmail | ⟨hlook, _⟩
      · exact h.taken x (Or.inl hmail) r' hold
      · -- the channel taken out was the waiter of `r` only
        obtain rfl := h.inj r r' x.1 hlook hold
        rw [KeyMap.lookup_erase_eq, if_pos rfl] at hlook'
        cases hlook'

/-- Where the call of a waiter is not the one that moves, it is still there. -/
theorem Attended.goOn (h : Attended c) {k u : Caller Addr} (hi : c.callers[i]? = some k)
    (hu : u.rpcId = k.rpcId) (hcallers : c'.callers = c.callers.set i u)
    (hwaiters : ∀ r chan, c'.waiters.lookup r = some chan → c.waiters.lookup r = some chan ∧
      (k.rpcId = r → k.chan = some chan ∨ k.phase = .expired →
        u.chan = some chan ∨ u.phase = .expired)) : Attended c' := by
  intro r chan hlook
  obtain ⟨hold, hsame⟩ := hwaiters r chan hlook
  obtain ⟨k₀, hk₀, hr, hwaits⟩ := h r chan hold
  rw [hcallers]
  by_cases heq : k₀ = k
  · subst heq
    obtain ⟨hlt, -⟩ := List.getElem?_eq_some_iff.mp hi
    exact ⟨u, List.mem_set hlt u, hu.trans hr, hsame hr hwaits⟩
  · refine ⟨k₀, ?_, hr, hwaits⟩
    obtain ⟨j, hj⟩ := List.mem_iff_getElem?.mp hk₀
    refine List.mem_iff_getElem?.mpr ⟨j, ?_⟩
    rw [List.getElem?_set_ne, hj]
    rintro rfl
    exact heq (Option.some.inj (hj.symm.trans hi))

/-- A call returns, and no waiter is its own. -/
theorem Attended.left (h : Attended c) {k : Caller Addr} (hi : c.callers[i]? = some k)
    (hcallers : c'.callers = c.callers.eraseIdx i)
    (hwaiters : ∀ r chan, c'.waiters.lookup r = some chan → c.waiters.lookup r = some chan ∧
      (k.rpcId = r → ¬ (k.chan = some chan ∨ k.phase = .expired))) : Attended c' := by
  intro r chan hlook
  obtain ⟨hold, hnot⟩ := hwaiters r chan hlook
  obtain ⟨k₀, hk₀, hr, hwaits⟩ := h r chan hold
  refine ⟨k₀, ?_, hr, hwaits⟩
  obtain ⟨j, hj⟩ := List.mem_iff_getElem?.mp hk₀
  rw [hcallers]
  refine List.mem_eraseIdx_iff_getElem?.mpr ⟨j, ?_, hj⟩
  rintro rfl
  obtain rfl := Option.some.inj (hi.symm.trans hj)
  exact hnot hr hwaits

/-- The waiters that are left when one is taken out. -/
theorem lookup_of_erase_ne {m : KeyMap UInt64 ℕ} {r r' : UInt64} {chan : ℕ}
    (h : (m.erase r).lookup r' = some chan) : m.lookup r' = some chan ∧ r ≠ r' := by
  refine ⟨lookup_of_erase r' chan h, ?_⟩
  rintro rfl
  rw [KeyMap.lookup_erase_eq, if_pos rfl] at h
  cases h

/-- A call does not leave its waiter behind when `send_to` fails. -/
def Cleared (c : RpcClient Addr) : ClientMove Addr → Prop
  | .sendTimeout i => ∀ k ∈ c.callers[i]?, c.waiters.lookup k.rpcId ≠ k.chan
  | _ => True

theorem Attended.moved (h : Attended c) (hun : Unshared c) {m : ClientMove Addr}
    {acts : List (ClientAction Addr)} (hm : Moved c m c' acts) (hclear : c.Cleared m) :
    Attended c' := by
  cases hm with
  | call server payload n =>
    intro r chan hlook
    obtain ⟨k, hk, hwaits⟩ := h r chan hlook
    exact ⟨k, List.mem_append_left _ hk, hwaits⟩
  | @register i k hi hphase =>
    intro r chan hlook
    rw [KeyMap.lookup_insert_eq] at hlook
    split_ifs at hlook with hr
    · obtain rfl := Option.some.inj hlook
      obtain ⟨hlt, -⟩ := List.getElem?_eq_some_iff.mp hi
      exact ⟨_, List.mem_set hlt _, hr.symm, Or.inl rfl⟩
    · have hattended : Attended (c.setPhase i k (.registered c.nextChan)) := by
        refine h.goOn hi (u := { k with phase := .registered c.nextChan }) rfl rfl
          fun r chan hlook => ⟨hlook, fun _ hwaits => ?_⟩
        rw [Caller.chan, hphase] at hwaits
        rcases hwaits with hnone | hbegin
        · cases hnone
        · cases hbegin
      exact hattended r chan hlook
  | @submit i chan k hi hphase =>
    refine h.goOn hi (u := { k with phase := .submitting chan }) rfl rfl
      fun r chan' hlook => ⟨hlook, fun _ hwaits => ?_⟩
    rw [Caller.chan, hphase] at hwaits
    exact hwaits.imp id fun hne => (by cases hne)
  | @sent i chan k hi hphase =>
    refine h.goOn hi (u := { k with phase := .waiting chan }) rfl rfl
      fun r chan' hlook => ⟨hlook, fun _ hwaits => ?_⟩
    rw [Caller.chan, hphase] at hwaits
    exact hwaits.imp id fun hne => (by cases hne)
  | @sendTimeout i chan k hi hphase =>
    refine h.left hi rfl fun r chan' hlook => ⟨hlook, ?_⟩
    rintro rfl (hchan | hexpired)
    · exact hclear k hi (hlook.trans hchan.symm)
    · rw [hphase] at hexpired
      cases hexpired
  | @take i j chan k body hi hphase hj =>
    refine h.left hi rfl fun r chan' hlook => ⟨hlook, ?_⟩
    rintro rfl (hchan | hexpired)
    · -- the letter was sent through the waiter
      rw [Caller.chan, hphase] at hchan
      obtain rfl := Option.some.inj hchan
      exact hun.taken _ (Or.inl (List.mem_of_getElem? hj)) _ hlook
    · rw [hphase] at hexpired
      cases hexpired
  | @timeout i chan k hi hphase =>
    exact h.goOn hi (u := { k with phase := .expired }) rfl rfl
      fun r chan' hlook => ⟨hlook, fun _ _ => Or.inr rfl⟩
  | giveUp hi =>
    refine h.left hi rfl fun r chan hlook => ?_
    obtain ⟨hold, hne⟩ := lookup_of_erase_ne hlook
    exact ⟨hold, fun heq => absurd heq hne⟩
  | @retry i k hi hphase hleft =>
    refine h.goOn hi (u := { k with left := k.left - 1, phase := .begin }) rfl rfl
      fun r chan hlook => ?_
    obtain ⟨hold, hne⟩ := lookup_of_erase_ne hlook
    exact ⟨hold, fun heq => absurd heq hne⟩
  | hand hletter => exact h

theorem Attended.dispatched (h : Attended c) {frame : List UInt8} (hd : Dispatched c frame c') :
    Attended c' := by
  cases hd with
  | malformed => exact h
  | taken hdec => exact fun r chan hlook => h r chan (lookup_of_erase r chan hlook)

/-- The calls that go on and the calls that return are those that ran and the one that begins. -/
theorem Moved.census {m : ClientMove Addr} {acts : List (ClientAction Addr)}
    (hm : Moved c m c' acts) :
    c'.nextId = c.nextId + UInt64.ofNat m.begins ∧
      ((c'.callers ++ acts.filterMap ClientAction.returned).map Caller.rpcId).Perm
        (c.callers.map Caller.rpcId ++ List.replicate m.begins c.nextId) := by
  have hset : ∀ {i k u}, c.callers[i]? = some k → u.rpcId = k.rpcId →
      (((c.callers.set i u) ++ []).map Caller.rpcId).Perm (c.callers.map Caller.rpcId ++ []) := by
    intro i k u hi hid
    rw [List.append_nil, List.append_nil, Threads.map_set hi hid]
  have herase : ∀ {i k}, c.callers[i]? = some k →
      ((c.callers.eraseIdx i ++ [k]).map Caller.rpcId).Perm (c.callers.map Caller.rpcId ++ []) := by
    intro i k hi
    obtain ⟨hlt, rfl⟩ := List.getElem?_eq_some_iff.mp hi
    rw [List.append_nil]
    exact ((List.perm_append_singleton _ _).trans (List.getElem_cons_eraseIdx_perm hlt)).map _
  have hzero : c.nextId = c.nextId + UInt64.ofNat 0 := (UInt64.add_zero _).symm
  cases hm with
  | call server payload n =>
    refine ⟨rfl, ?_⟩
    simp [ClientMove.begins]
  | @register i k hi => exact ⟨hzero, hset hi rfl⟩
  | @submit i chan k hi => exact ⟨hzero, hset hi rfl⟩
  | @sent i chan k hi => exact ⟨hzero, hset hi rfl⟩
  | @timeout i chan k hi => exact ⟨hzero, hset hi rfl⟩
  | @retry i k hi => exact ⟨hzero, hset hi rfl⟩
  | sendTimeout hi => exact ⟨hzero, herase hi⟩
  | take hi => exact ⟨hzero, herase hi⟩
  | giveUp hi => exact ⟨hzero, herase hi⟩
  | hand hletter => exact ⟨hzero, by simp [ClientMove.begins]⟩

end RpcClient

namespace RpcCensus

variable {s s' : RpcCensus Addr}

def new : RpcCensus Addr := ⟨RpcClient.new, 0, []⟩

def step (s : RpcCensus Addr) : ClientEvent Addr → Option (RpcCensus Addr)
  | .move m => (s.client.move m).map fun next =>
    ⟨next.1, s.begun + m.begins, s.returned ++ next.2.filterMap ClientAction.returned⟩
  | .frame frame => (s.client.dispatch frame).map fun client => { s with client := client }

/-- No call leaves its waiter behind. -/
def Cleared (s : RpcCensus Addr) : ClientEvent Addr → Prop
  | .move m => s.client.Cleared m
  | .frame _ => True

/-- The numbers so far, in the order of the calls. -/
def numbers (n : ℕ) : List UInt64 := (List.range n).map fun i => UInt64.ofNat (i + 1)

theorem nodup_numbers {n : ℕ} (hn : n ≤ 2 ^ 64) : (numbers n).Nodup := by
  refine List.Nodup.map_on (fun i hi j hj heq => ?_) List.nodup_range
  have hi' := List.mem_range.mp hi
  have hj' := List.mem_range.mp hj
  have hmod := congrArg UInt64.toNat heq
  rw [UInt64.toNat_ofNat', UInt64.toNat_ofNat'] at hmod
  omega

structure Inv (s : RpcCensus Addr) : Prop where
  unshared : s.client.Unshared
  nextId : s.client.nextId = UInt64.ofNat (s.begun + 1)
  /-- A number that was given to a call is the number of a running or a returned one. -/
  issued : ((s.client.callers ++ s.returned).map Caller.rpcId).Perm (numbers s.begun)

theorem Inv.new : Inv (new : RpcCensus Addr) := ⟨RpcClient.Unshared.new, rfl, List.Perm.nil⟩

theorem numbers_add_begins (n : ℕ) (m : ClientMove Addr) :
    numbers (n + m.begins) = numbers n ++ List.replicate m.begins (UInt64.ofNat (n + 1)) := by
  cases m with
  | call =>
    rw [numbers, ClientMove.begins, List.range_succ, List.map_append]
    rfl
  | _ => exact (List.append_nil _).symm

theorem Inv.step (h : Inv s) {e : ClientEvent Addr} (hstep : s.step e = some s') : Inv s' := by
  cases e with
  | frame frame =>
    obtain ⟨client, hclient, rfl⟩ := Option.map_eq_some_iff.mp hstep
    obtain ⟨-, hd⟩ := RpcClient.dispatch_spec hclient
    obtain ⟨hcallers, hnext⟩ := hd.callers
    refine ⟨h.unshared.dispatched hd, hnext.trans h.nextId, ?_⟩
    rw [hcallers]
    exact h.issued
  | move m =>
    obtain ⟨⟨client, acts⟩, hclient, rfl⟩ := Option.map_eq_some_iff.mp hstep
    have hm := RpcClient.move_spec hclient
    obtain ⟨hnext, hperm⟩ := hm.census
    refine ⟨h.unshared.moved hm, ?_, ?_⟩
    · rw [hnext, h.nextId, ← UInt64.ofNat_add, Nat.add_right_comm]
    · rw [numbers_add_begins, ← h.nextId]
      rw [List.perm_iff_count]
      intro r
      have hmoved := hperm.count_eq r
      have hold := h.issued.count_eq r
      simp only [List.map_append, List.count_append] at hmoved hold ⊢
      omega

theorem Inv.cleared (h : Inv s) (hattended : s.client.Attended) {e : ClientEvent Addr}
    (hclear : s.Cleared e) (hstep : s.step e = some s') : s'.client.Attended := by
  cases e with
  | frame frame =>
    obtain ⟨client, hclient, rfl⟩ := Option.map_eq_some_iff.mp hstep
    exact hattended.dispatched (RpcClient.dispatch_spec hclient).2
  | move m =>
    obtain ⟨next, hclient, rfl⟩ := Option.map_eq_some_iff.mp hstep
    exact hattended.moved h.unshared (RpcClient.move_spec hclient) hclear

/-- The number of a call that has returned is not the number of a running one. -/
theorem Inv.returned_ne (h : Inv s) (hbegun : s.begun ≤ 2 ^ 64) {k k' : Caller Addr}
    (hk : k ∈ s.client.callers) (hk' : k' ∈ s.returned) : k.rpcId ≠ k'.rpcId := by
  have hnd := h.issued.nodup_iff.mpr (nodup_numbers hbegun)
  rw [List.map_append, List.nodup_append] at hnd
  exact hnd.2.2 _ (List.mem_map_of_mem hk) _ (List.mem_map_of_mem hk')

/-- A call that is not cleared leaves its waiter behind. -/
theorem left_behind {e : ClientEvent Addr} (hclear : ¬ s.Cleared e) (hstep : s.step e = some s') :
    ∃ k ∈ s'.returned, k.rpcId ∈ s'.client.waiters := by
  cases e with
  | frame frame => exact absurd trivial hclear
  | move m =>
    obtain ⟨⟨client, acts⟩, hclient, rfl⟩ := Option.map_eq_some_iff.mp hstep
    cases RpcClient.move_spec hclient with
    | @sendTimeout i chan k hi hphase =>
      refine ⟨k, List.mem_append_right _ (List.mem_singleton.mpr rfl), ?_⟩
      have hlook : s.client.waiters.lookup k.rpcId = k.chan := by
        by_contra hne
        refine hclear fun k' hk' => ?_
        obtain rfl := Option.some.inj (hi.symm.trans hk')
        exact hne
      rw [Caller.chan, hphase] at hlook
      exact KeyMap.mem_iff_lookup.mpr ⟨chan, hlook⟩
    | _ => exact absurd trivial hclear

instance (s : RpcCensus Addr) : DecidablePred s.Cleared := fun e =>
  match e with
  | .move (.sendTimeout i) =>
    inferInstanceAs (Decidable (∀ k ∈ s.client.callers[i]?, s.client.waiters.lookup k.rpcId ≠ k.chan))
  | .move (.call _ _ _) | .move (.register _) | .move (.submit _) | .move (.sent _)
  | .move (.take _ _) | .move (.timeout _) | .move (.retry _) | .move .hand | .frame _ =>
    inferInstanceAs (Decidable True)

/-- If `send_to` fails no call whose waiter is still there, then waiters belong to running
calls, and the number of a call that has returned is in the map no more. Any other call that
`send_to` fails leaves its number there. -/
theorem waiters_running {evs : List (ClientEvent Addr)} (h : Run step Cleared new evs s) :
    (∀ r ∈ s.client.waiters, ∃ k ∈ s.client.callers, k.rpcId = r) ∧
      (s.begun ≤ 2 ^ 64 → ∀ k ∈ s.returned, k.rpcId ∉ s.client.waiters) ∧
      ∀ e s', s.step e = some s' → ¬ s.Cleared e →
        ∃ k ∈ s'.returned, k.rpcId ∈ s'.client.waiters := by
  obtain ⟨hinv, hattended⟩ := h.invariant (P := fun s => Inv s ∧ s.client.Attended)
    (fun _ _ _ hs hclear hstep => ⟨hs.1.step hstep, hs.1.cleared hs.2 hclear hstep⟩)
    ⟨Inv.new, RpcClient.Attended.new⟩
  have hkeys : ∀ r ∈ s.client.waiters, ∃ k ∈ s.client.callers, k.rpcId = r := by
    intro r hr
    obtain ⟨chan, hlook⟩ := KeyMap.mem_iff_lookup.mp hr
    obtain ⟨k, hk, hid, -⟩ := hattended r chan hlook
    exact ⟨k, hk, hid⟩
  refine ⟨hkeys, fun hbegun k hk hmem => ?_, fun e s' hstep hclear => left_behind hclear hstep⟩
  obtain ⟨k', hk', hid⟩ := hkeys k.rpcId hmem
  exact hinv.returned_ne hbegun hk' hk hid

/-- Of two calls, the first has its response before `send_to` gives it up, and the second
runs on. -/
theorem waiters_running_two : ∃ evs, ∃ s : RpcCensus ℕ,
    Run step Cleared new evs s ∧ s.client.callers.length = 1 ∧ s.returned.length = 1 ∧
      1 ∉ s.client.waiters ∧ 2 ∈ s.client.waiters ∧
      ∀ r ∈ s.client.waiters, ∃ k ∈ s.client.callers, k.rpcId = r := by
  have hrun : Run step Cleared (new : RpcCensus ℕ) [.move (.call 9 [7] 2), .move (.call 9 [8] 2),
      .move (.register 0), .move (.register 1), .move (.submit 0), .frame (encodeFrame 1 [5]),
      .move .hand, .move (.sendTimeout 0)] _ := run_of_guarded rfl
  refine ⟨_, _, hrun, rfl, rfl, ?_, ?_, (waiters_running hrun).1⟩
  · decide
  · decide

/-- The one attempt of a call is given up by `send_to`. Its waiter stays for ever. -/
theorem waiter_left : ∃ evs, ∃ s : RpcCensus ℕ, Run step anyEvent new evs s ∧
    1 ∈ s.client.waiters ∧ s.client.callers = [] ∧ s.returned.map Caller.rpcId = [1] := by
  have hrun : Run step anyEvent (new : RpcCensus ℕ) [.move (.call 9 [7] 1), .move (.register 0),
      .move (.submit 0), .move (.sendTimeout 0)] _ := run_of_exec rfl
  exact ⟨_, _, hrun, by decide, rfl, rfl⟩

end RpcCensus
end AgentTransport
