import AgentTransport.RpcNetwork
import AgentTransport.Threads

/-!
# Channels of a client

A channel number is used once. While a caller receives from its channel, the channel
stands in `waiters` under the number of the call or nowhere, so a body that is sent
through it was a response to that number. What a response to a call may hold is left
open here: it is the parameter `P`.
-/
namespace AgentTransport
open ByteString Transition

variable {Addr : Type}

namespace RpcClient

variable {c c' : RpcClient Addr} {a : Addr} {P : Call Addr → List UInt8 → Prop} {i : ℕ}

/-- The channels in use were made. -/
structure Numbered (c : RpcClient Addr) : Prop where
  waiter_lt : ∀ r chan, c.waiters.lookup r = some chan → chan < c.nextChan
  letter_lt : ∀ x, x ∈ c.mail ∨ c.dispatching = some x → x.1 < c.nextChan

theorem lookup_of_erase {m : KeyMap UInt64 ℕ} {r : UInt64} (r' : UInt64) (chan : ℕ)
    (h : (m.erase r).lookup r' = some chan) : m.lookup r' = some chan := by
  rw [KeyMap.lookup_erase_eq] at h
  split_ifs at h
  exact h

theorem Numbered.new : Numbered (RpcClient.new : RpcClient Addr) where
  waiter_lt r chan h := by simp [RpcClient.new] at h
  letter_lt x hx := by simp [RpcClient.new] at hx

/-- A step that makes no channel, registers no waiter and brings in no letter. -/
theorem Numbered.fewer (h : Numbered c)
    (hwaiters : ∀ r chan, c'.waiters.lookup r = some chan → c.waiters.lookup r = some chan)
    (hletters : ∀ x, x ∈ c'.mail ∨ c'.dispatching = some x → x ∈ c.mail ∨ c.dispatching = some x)
    (hnext : c'.nextChan = c.nextChan) : Numbered c' := by
  constructor
  · intro r chan hlook
    rw [hnext]
    exact h.waiter_lt r chan (hwaiters r chan hlook)
  · intro x hx
    rw [hnext]
    exact h.letter_lt x (hletters x hx)

/-- A caller makes a channel. -/
theorem Numbered.registered (h : Numbered c) (k : Caller Addr) :
    Numbered { c.setPhase i k (.registered c.nextChan) with
      waiters := c.waiters.insert k.rpcId c.nextChan
      nextChan := c.nextChan + 1 } := by
  constructor
  · intro r chan hlook
    rw [KeyMap.lookup_insert_eq] at hlook
    split_ifs at hlook
    · exact Nat.lt_succ_of_le (Option.some.inj hlook).ge
    · exact Nat.lt_succ_of_lt (h.waiter_lt r chan hlook)
  · intro x hx
    exact Nat.lt_succ_of_lt (h.letter_lt x hx)

/-- The letters after a frame: those from before, and one through the channel taken out. -/
theorem mem_letters_taken {r : UInt64} {body : List UInt8} {x : ℕ × List UInt8}
    (hx : x ∈ c.mail ∨ ((c.waiters.lookup r).map fun chan => (chan, body)) = some x) :
    x ∈ c.mail ∨ (c.waiters.lookup r = some x.1 ∧ x.2 = body) := by
  rcases hx with hmail | hnew
  · exact Or.inl hmail
  · obtain ⟨chan, hlook, rfl⟩ := Option.map_eq_some_iff.mp hnew
    exact Or.inr ⟨hlook, rfl⟩

theorem Numbered.dispatched (h : Numbered c) {frame : List UInt8} (hd : Dispatched c frame c') :
    Numbered c' := by
  cases hd with
  | malformed => exact h
  | @taken r body hdec =>
    constructor
    · exact fun r' chan hlook => h.waiter_lt r' chan (lookup_of_erase r' chan hlook)
    · intro x hx
      rcases mem_letters_taken (c := c) hx with hmail | ⟨hlook, _⟩
      · exact h.letter_lt x (Or.inl hmail)
      · exact h.waiter_lt r x.1 hlook

/-- The dispatcher hands over the letter it holds. -/
theorem mem_letters_hand {letter x : ℕ × List UInt8} (hletter : c.dispatching = some letter)
    (hx : x ∈ c.mail ++ [letter] ∨ (none : Option (ℕ × List UInt8)) = some x) :
    x ∈ c.mail ∨ c.dispatching = some x := by
  rcases hx with hmail | hnone
  · rcases List.mem_append.mp hmail with hold | hnew
    · exact Or.inl hold
    · obtain rfl := List.mem_singleton.mp hnew
      exact Or.inr hletter
  · cases hnone

/-- Where the letters of a client stand with the calls they are read by. -/
structure Tidy (a : Addr) (P : Call Addr → List UInt8 → Prop) (c : RpcClient Addr) : Prop where
  nodup : (c.callers.map Caller.rpcId).Nodup
  waiter_lt : ∀ r chan, c.waiters.lookup r = some chan → chan < c.nextChan
  letter_lt : ∀ x, x ∈ c.mail ∨ c.dispatching = some x → x.1 < c.nextChan
  caller_lt : ∀ k ∈ c.callers, ∀ chan, k.chan = some chan → chan < c.nextChan
  waiter_own : ∀ k ∈ c.callers, ∀ chan, k.chan = some chan →
    ∀ r, c.waiters.lookup r = some chan → r = k.rpcId
  heard : ∀ k ∈ c.callers, ∀ x, k.chan = some x.1 → x ∈ c.mail ∨ c.dispatching = some x →
    P (k.call a) x.2

theorem Tidy.numbered (h : Tidy a P c) : Numbered c := ⟨h.waiter_lt, h.letter_lt⟩

theorem Tidy.new (a : Addr) (P : Call Addr → List UInt8 → Prop) : Tidy a P RpcClient.new where
  nodup := List.nodup_nil
  waiter_lt := Numbered.new.waiter_lt
  letter_lt := Numbered.new.letter_lt
  caller_lt k hk := by cases hk
  waiter_own k hk := by cases hk
  heard k hk := by cases hk

theorem Tidy.mono (h : Tidy a P c) {P' : Call Addr → List UInt8 → Prop}
    (hP : ∀ k ∈ c.callers, ∀ v, P (k.call a) v → P' (k.call a) v) : Tidy a P' c where
  nodup := h.nodup
  waiter_lt := h.waiter_lt
  letter_lt := h.letter_lt
  caller_lt := h.caller_lt
  waiter_own := h.waiter_own
  heard k hk x hchan hx := hP k hk x.2 (h.heard k hk x hchan hx)

/-- A step that makes no channel, registers no waiter and brings in no letter. -/
theorem Tidy.of_fewer (h : Tidy a P c) (hnodup : (c'.callers.map Caller.rpcId).Nodup)
    (hcallers : ∀ k ∈ c'.callers, k.chan = none ∨
      ∃ k₀ ∈ c.callers, k₀.chan = k.chan ∧ k₀.call a = k.call a)
    (hwaiters : ∀ r chan, c'.waiters.lookup r = some chan → c.waiters.lookup r = some chan)
    (hletters : ∀ x, x ∈ c'.mail ∨ c'.dispatching = some x → x ∈ c.mail ∨ c.dispatching = some x)
    (hnext : c'.nextChan = c.nextChan) : Tidy a P c' := by
  have hnumbered := h.numbered.fewer hwaiters hletters hnext
  constructor
  · exact hnodup
  · exact hnumbered.waiter_lt
  · exact hnumbered.letter_lt
  · intro k hk chan hchan
    rw [hnext]
    rcases hcallers k hk with hnone | ⟨k₀, hk₀, hsame, _⟩
    · rw [hnone] at hchan
      cases hchan
    · exact h.caller_lt k₀ hk₀ chan (hsame.trans hchan)
  · intro k hk chan hchan r hlook
    rcases hcallers k hk with hnone | ⟨k₀, hk₀, hsame, hcall⟩
    · rw [hnone] at hchan
      cases hchan
    · rw [h.waiter_own k₀ hk₀ chan (hsame.trans hchan) r (hwaiters r chan hlook)]
      exact congrArg Call.rpcId hcall
  · intro k hk x hchan hx
    rcases hcallers k hk with hnone | ⟨k₀, hk₀, hsame, hcall⟩
    · rw [hnone] at hchan
      cases hchan
    · rw [← hcall]
      exact h.heard k₀ hk₀ x (hsame.trans hchan) (hletters x hx)

theorem nodup_set {k : Caller Addr} (h : Tidy a P c) (hi : c.callers[i]? = some k)
    {u : Caller Addr} (hid : u.rpcId = k.rpcId) :
    ((c.callers.set i u).map Caller.rpcId).Nodup :=
  Threads.nodup_set h.nodup hi hid

/-- A caller goes on with the channel it has, or without one. -/
theorem Tidy.goOn (h : Tidy a P c) {k u : Caller Addr} (hi : c.callers[i]? = some k)
    (hcall : u.call a = k.call a) (hchan : u.chan = none ∨ u.chan = k.chan)
    (hcallers : c'.callers = c.callers.set i u)
    (hwaiters : ∀ r chan, c'.waiters.lookup r = some chan → c.waiters.lookup r = some chan)
    (hmail : c'.mail = c.mail) (hdispatching : c'.dispatching = c.dispatching)
    (hnext : c'.nextChan = c.nextChan) : Tidy a P c' := by
  apply h.of_fewer
  · rw [hcallers]
    exact nodup_set h hi (congrArg Call.rpcId hcall)
  · intro x hx
    rw [hcallers] at hx
    rcases List.mem_or_eq_of_mem_set hx with hold | rfl
    · exact Or.inr ⟨x, hold, rfl, rfl⟩
    · rcases hchan with hnone | hsame
      · exact Or.inl hnone
      · exact Or.inr ⟨k, List.mem_of_getElem? hi, hsame.symm, hcall.symm⟩
  · exact hwaiters
  · rw [hmail, hdispatching]
    exact fun x hx => hx
  · exact hnext

/-- A caller returns. -/
theorem Tidy.returned (h : Tidy a P c) (hcallers : c'.callers = c.callers.eraseIdx i)
    (hwaiters : ∀ r chan, c'.waiters.lookup r = some chan → c.waiters.lookup r = some chan)
    (hmail : ∀ x ∈ c'.mail, x ∈ c.mail) (hdispatching : c'.dispatching = c.dispatching)
    (hnext : c'.nextChan = c.nextChan) : Tidy a P c' := by
  apply h.of_fewer
  · rw [hcallers]
    exact Threads.nodup_eraseIdx h.nodup i
  · intro x hx
    rw [hcallers] at hx
    exact Or.inr ⟨x, List.mem_of_mem_eraseIdx hx, rfl, rfl⟩
  · exact hwaiters
  · intro x hx
    rw [hdispatching] at hx
    exact hx.imp_left (hmail x)
  · exact hnext

/-- A caller makes a channel. -/
theorem Tidy.registered (h : Tidy a P c) {k : Caller Addr} (hi : c.callers[i]? = some k) :
    Tidy a P { c.setPhase i k (.registered c.nextChan) with
      waiters := c.waiters.insert k.rpcId c.nextChan
      nextChan := c.nextChan + 1 } := by
  have hcases : ∀ x ∈ c.callers.set i { k with phase := .registered c.nextChan },
      x ∈ c.callers ∨ x = { k with phase := .registered c.nextChan } := fun x hx =>
    List.mem_or_eq_of_mem_set hx
  constructor
  · exact nodup_set h hi rfl
  · exact (h.numbered.registered k).waiter_lt
  · exact (h.numbered.registered (i := i) k).letter_lt
  · intro x hx chan hchan
    rcases hcases x hx with hold | rfl
    · exact Nat.lt_succ_of_lt (h.caller_lt x hold chan hchan)
    · exact Nat.lt_succ_of_le (Option.some.inj hchan).ge
  · intro x hx chan hchan r hlook
    rw [KeyMap.lookup_insert_eq] at hlook
    rcases hcases x hx with hold | rfl
    · have hlt := h.caller_lt x hold chan hchan
      split_ifs at hlook
      · exact absurd (Option.some.inj hlook) hlt.ne'
      · exact h.waiter_own x hold chan hchan r hlook
    · obtain rfl : c.nextChan = chan := Option.some.inj hchan
      split_ifs at hlook with hr
      · exact hr
      · exact absurd (h.waiter_lt r _ hlook) (Nat.lt_irrefl _)
  · intro x hx letter hchan hletter
    rcases hcases x hx with hold | rfl
    · exact h.heard x hold letter hchan hletter
    · -- nothing was sent through the new channel
      have hlt := h.letter_lt letter hletter
      rw [← show c.nextChan = letter.1 from Option.some.inj hchan] at hlt
      exact absurd hlt (Nat.lt_irrefl _)

theorem Tidy.moved (h : Tidy a P c) {m : ClientMove Addr} {acts : List (ClientAction Addr)}
    (hm : Moved c m c' acts) (hfresh : begun a c m ≠ [] → c.nextId ∉ c.callers.map Caller.rpcId) :
    Tidy a P c' := by
  have hid : ∀ r chan, c.waiters.lookup r = some chan → c.waiters.lookup r = some chan :=
    fun r chan hlook => hlook
  cases hm with
  | call server payload n =>
    refine h.of_fewer (Threads.nodup_append h.nodup (hfresh (by simp [begun]))) (fun k hk => ?_) hid
      (fun x hx => hx) rfl
    rcases List.mem_append.mp hk with hold | hnew
    · exact Or.inr ⟨k, hold, rfl, rfl⟩
    · obtain rfl := List.mem_singleton.mp hnew
      exact Or.inl rfl
  | register hi => exact h.registered hi
  | @submit i chan k hi hphase =>
    refine h.goOn hi (u := { k with phase := .submitting chan }) rfl (Or.inr ?_) rfl hid rfl rfl rfl
    rw [Caller.chan, Caller.chan, hphase]
  | @sent i chan k hi hphase =>
    refine h.goOn hi (u := { k with phase := .waiting chan }) rfl (Or.inr ?_) rfl hid rfl rfl rfl
    rw [Caller.chan, Caller.chan, hphase]
  | sendTimeout hi => exact h.returned rfl hid (fun x hx => hx) rfl rfl
  | take hi _ hj => exact h.returned rfl hid (fun x hx => List.mem_of_mem_eraseIdx hx) rfl rfl
  | @timeout i chan k hi hphase =>
    exact h.goOn hi (u := { k with phase := .expired }) rfl (Or.inl rfl) rfl hid rfl rfl rfl
  | giveUp hi => exact h.returned rfl lookup_of_erase (fun x hx => hx) rfl rfl
  | @retry i k hi hphase hleft =>
    exact h.goOn hi (u := { k with left := k.left - 1, phase := .begin }) rfl (Or.inl rfl) rfl
      lookup_of_erase rfl rfl rfl
  | @hand letter hletter =>
    exact h.of_fewer h.nodup (fun k hk => Or.inr ⟨k, hk, rfl, rfl⟩) hid
      (fun x hx => mem_letters_hand hletter hx) rfl

/-- A frame comes in. It has to hold what the open call with its number may get. -/
theorem Tidy.dispatched (h : Tidy a P c) {frame : List UInt8}
    (hd : Dispatched c frame c') (hframe : ∀ r v, decodeFrame frame = some (r, v) →
      ∀ k ∈ c.callers, k.rpcId = r → P (k.call a) v) : Tidy a P c' := by
  have hnumbered := h.numbered.dispatched hd
  cases hd with
  | malformed => exact h
  | @taken r body hdec =>
    constructor
    · exact h.nodup
    · exact hnumbered.waiter_lt
    · exact hnumbered.letter_lt
    · exact h.caller_lt
    · intro k hk chan hchan r' hlook
      exact h.waiter_own k hk chan hchan r' (lookup_of_erase r' chan hlook)
    · intro k hk x hchan hx
      rcases mem_letters_taken (c := c) hx with hmail | ⟨hlook, hbody⟩
      · exact h.heard k hk x hchan (Or.inl hmail)
      · rw [hbody]
        exact hframe r body hdec k hk (h.waiter_own k hk x.1 hchan r hlook).symm

/-- What returns `Ok` is a letter that was heard. -/
theorem Tidy.answers (h : Tidy a P c) {m : ClientMove Addr} {acts : List (ClientAction Addr)}
    (hm : Moved c m c' acts) : ∀ x ∈ AgentTransport.answers a acts,
      P x.1 x.2 ∧ ∃ k ∈ c.callers, k.call a = x.1 := by
  intro x hx
  cases hm with
  | @take i j chan k body hi hphase hj =>
    obtain rfl : x = (k.call a, body) := by simpa [AgentTransport.answers] using hx
    have hk : k ∈ c.callers := List.mem_of_getElem? hi
    have hchan : k.chan = some chan := by rw [Caller.chan, hphase]
    exact ⟨h.heard k hk (chan, body) hchan (Or.inl (List.mem_of_getElem? hj)), k, hk, rfl⟩
  | _ => simp [AgentTransport.answers] at hx

/-- The callers after a move were there before, or have just begun. -/
theorem Moved.callers {m : ClientMove Addr} {acts : List (ClientAction Addr)}
    (hm : Moved c m c' acts) (a : Addr) :
    ∀ k ∈ c'.callers, (∃ k₀ ∈ c.callers, k₀.call a = k.call a) ∨ k.call a ∈ begun a c m := by
  have hset : ∀ {i k u}, c.callers[i]? = some k → u.call a = k.call a →
      ∀ x ∈ c.callers.set i u, (∃ k₀ ∈ c.callers, k₀.call a = x.call a) ∨ x.call a ∈ begun a c m := by
    intro i k u hi hcall x hx
    left
    rcases List.mem_or_eq_of_mem_set hx with hold | rfl
    · exact ⟨x, hold, rfl⟩
    · exact ⟨k, List.mem_of_getElem? hi, hcall.symm⟩
  have herase : ∀ i, ∀ x ∈ c.callers.eraseIdx i,
      (∃ k₀ ∈ c.callers, k₀.call a = x.call a) ∨ x.call a ∈ begun a c m := by
    intro i x hx
    exact Or.inl ⟨x, List.mem_of_mem_eraseIdx hx, rfl⟩
  intro x hx
  cases hm with
  | call server payload n =>
    rcases List.mem_append.mp hx with hold | hnew
    · exact Or.inl ⟨x, hold, rfl⟩
    · obtain rfl := List.mem_singleton.mp hnew
      exact Or.inr (List.mem_singleton.mpr rfl)
  | @register i k hi => exact hset hi (u := { k with phase := .registered c.nextChan }) rfl x hx
  | @submit i chan k hi => exact hset hi (u := { k with phase := .submitting chan }) rfl x hx
  | @sent i chan k hi => exact hset hi (u := { k with phase := .waiting chan }) rfl x hx
  | @timeout i chan k hi => exact hset hi (u := { k with phase := .expired }) rfl x hx
  | @retry i k hi =>
    exact hset hi (u := { k with left := k.left - 1, phase := .begin }) rfl x hx
  | sendTimeout hi => exact herase _ x hx
  | take hi => exact herase _ x hx
  | giveUp hi => exact herase _ x hx
  | hand hletter => exact Or.inl ⟨x, hx, rfl⟩

/-- A client sends the requests of its callers. -/
theorem Moved.messages {m : ClientMove Addr} {acts : List (ClientAction Addr)}
    (hm : Moved c m c' acts) (a : Addr) : ∀ d ∈ messages a acts,
      ∃ k ∈ c.callers, d = ⟨a, k.server, encodeFrame k.rpcId k.payload⟩ := by
  intro d hd
  cases hm with
  | @submit i chan k hi =>
    obtain rfl : d = ⟨a, k.server, encodeFrame k.rpcId k.payload⟩ := by
      simpa [AgentTransport.messages] using hd
    exact ⟨k, List.mem_of_getElem? hi, rfl⟩
  | _ => simp [AgentTransport.messages] at hd

theorem Dispatched.callers {frame : List UInt8} (hd : Dispatched c frame c') :
    c'.callers = c.callers ∧ c'.nextId = c.nextId := by
  cases hd <;> exact ⟨rfl, rfl⟩

end RpcClient
end AgentTransport
