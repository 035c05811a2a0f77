import AgentTransport.RpcMatching

/-!
# Numbers are used once

If one client is made at an address at most, and fewer than `2 ^ 64` calls are made by a
client, then a call always takes a number that nothing is left of: whatever the servers
know, and whatever is on its way, belongs to a call that was made.
-/
namespace AgentTransport
open ByteString Transition

variable {Addr : Type} [DecidableEq Addr]

namespace RpcServer

variable {s s' : RpcServer Addr} {key : RpcKey Addr}

/-- A frame that is sent answers a marked request. -/
theorem Inv.copy_marked (h : Inv s) {x : Addr × List UInt8} (hx : s.Copy x) {rpcId : UInt64}
    {v : List UInt8} (hdec : decodeFrame x.2 = some (rpcId, v)) : (x.1, rpcId) ∈ s.dedup := by
  obtain ⟨r, hanswers⟩ := hx
  obtain ⟨hid, hreturned⟩ := hanswers.decode hdec
  obtain rfl : rpcId = r := hid
  obtain ⟨y, hy, hykey⟩ := List.mem_map.mp (h.returned_started _ hreturned)
  rw [← show y.1 = (x.1, rpcId) from hykey]
  exact h.started_marked y hy

/-- What a server works on or remembers is marked. -/
theorem Inv.marked (h : Inv s) (hkey : s.Handles key ∨ s.Remembers key) : key ∈ s.dedup := by
  rcases hkey with (⟨w, hw, rfl, _⟩ | ⟨x, hx, hsrc, v, hdec⟩) | (⟨w, hw, rfl, _⟩ | ⟨resp, hlook⟩)
  · exact h.jobs_marked w hw
  · rw [show key = (x.1, key.2) from Prod.ext hsrc.symm rfl]
    exact h.copy_marked (h.copied x hx) hdec
  · exact h.jobs_marked w hw
  · exact KeyMap.mem_iff_lookup.mpr ⟨_, hlook⟩

/-- The threads mark nothing new. -/
theorem Moved.marked (hm : ∀ w ∈ s.jobs, w.key ∈ s.dedup) {m : ServerMove} (h : Moved s m s') :
    key ∈ s'.dedup → key ∈ s.dedup := by
  intro hkey
  cases h with
  | @store i src rpcId body resp hi =>
    rcases (AList.mem_insert _).mp hkey with rfl | hold
    · exact hm _ (List.mem_of_getElem? (jobs_getElem? hi))
    · exact hold
  | _ => exact hkey

/-- The loop marks the request of the frame. -/
theorem Received.marked {src : Addr} {frame : List UInt8} (h : Received s src frame s') :
    key ∈ s'.dedup → key ∈ s.dedup ∨
      key.1 = src ∧ ∃ body, decodeFrame frame = some (key.2, body) := by
  intro hkey
  cases h with
  | @accepted rpcId body hdec hnew =>
    rcases (AList.mem_insert _).mp hkey with rfl | hold
    · exact Or.inr ⟨rfl, body, hdec⟩
    · exact Or.inl hold
  | _ => exact Or.inl hkey

end RpcServer

namespace RpcNetwork

variable {hosts : Addr → Bool} {s s' : RpcNetwork Addr} {call : Call Addr} {a : Addr}

/-- The calls made at an address. -/
def callCount (s : RpcNetwork Addr) (a : Addr) : ℕ := s.calls.countP fun call => call.client = a

/-- One client at an address, and fewer than `2 ^ 64` calls. -/
def OneClient (s : RpcNetwork Addr) : RpcEvent Addr → Prop
  | .newClient a => a ∉ s.created
  | .client a (.call _ _ _) => s.callCount a + 1 < 2 ^ 64
  | _ => True

instance (s : RpcNetwork Addr) : DecidablePred s.OneClient := fun e =>
  match e with
  | .newClient a => inferInstanceAs (Decidable (a ∉ s.created))
  | .client a (.call _ _ _) => inferInstanceAs (Decidable (s.callCount a + 1 < 2 ^ 64))
  | .client _ (.register _) | .client _ (.submit _) | .client _ (.sent _)
  | .client _ (.sendTimeout _) | .client _ (.take _ _) | .client _ (.timeout _)
  | .client _ (.retry _) | .client _ .hand => inferInstanceAs (Decidable True)
  | .dropClient _ | .server _ _ | .dispatch _ | .receive _ | .drop _ | .duplicate _ =>
    inferInstanceAs (Decidable True)

/-- The numbers in use are those of the calls. -/
structure Issued (hosts : Addr → Bool) (s : RpcNetwork Addr) : Prop where
  nodup : (s.calls.map Call.key).Nodup
  calls : ∀ call ∈ s.calls, call.client ∈ s.created ∧ hosts call.client = false ∧
    call.rpcId.toNat ≤ s.callCount call.client
  clients : ∀ a c, s.clients a = some c →
    a ∈ s.created ∧ c.nextId = UInt64.ofNat (s.callCount a + 1)
  marked : ∀ host key, key ∈ (s.servers host).dedup → key ∈ s.calls.map Call.key
  flight : ∀ d ∈ s.flight, hosts d.dest = !hosts d.src ∧
    ∀ rpcId body, decodeFrame d.frame = some (rpcId, body) →
      (if hosts d.src then d.dest else d.src, rpcId) ∈ s.calls.map Call.key

theorem Issued.new (hosts : Addr → Bool) : Issued hosts (RpcNetwork.new : RpcNetwork Addr) where
  nodup := List.nodup_nil
  calls call h := by cases h
  clients a c h := by cases h
  marked host key h := by cases h
  flight d hd := by cases hd

/-- The number that a client counts to is new. -/
theorem Issued.fresh (h : Issued hosts s) {c : RpcClient Addr} (hc : s.clients a = some c)
    (hcount : s.callCount a + 1 < 2 ^ 64) : (a, c.nextId) ∉ s.calls.map Call.key := by
  intro hmem
  obtain ⟨call, hcall, hkey⟩ := List.mem_map.mp hmem
  obtain ⟨hclient, hid⟩ := Prod.mk.inj hkey
  have hle := (h.calls call hcall).2.2
  rw [hclient, hid, (h.clients a c hc).2, UInt64.toNat_ofNat_of_lt' hcount] at hle
  omega

theorem Issued.not_stale (h : Issued hosts s) (hsound : Sound hosts s)
    (hoff : hosts call.client = false) (hfresh : call.key ∉ s.calls.map Call.key) :
    ¬ s.Stale call := by
  rintro (⟨c, hc, hmem⟩ | ⟨d, hd, hends, body, hdec⟩ | ⟨host, hhandles⟩ | hremembers)
  · obtain ⟨k, hk, hid⟩ := List.mem_map.mp hmem
    apply hfresh
    refine List.mem_map.mpr ⟨k.call call.client, (hsound.running _ c hc k hk).2.1, ?_⟩
    exact Prod.ext rfl hid
  · obtain ⟨hdest, hkey⟩ := h.flight d hd
    apply hfresh
    have hissued := hkey _ _ hdec
    rcases hends with heq | heq
    · rw [heq, hoff] at hissued
      exact hissued
    · rw [heq, hoff] at hdest
      rw [show hosts d.src = true by simpa using hdest.symm, if_pos rfl, heq] at hissued
      exact hissued
  · exact hfresh (h.marked host _ ((hsound.servers host).marked (Or.inl hhandles)))
  · exact hfresh (h.marked _ _ ((hsound.servers _).marked (Or.inr hremembers)))

omit [DecidableEq Addr] in
/-- A call that begins has the address and the next number of its client. -/
theorem of_mem_begun {c : RpcClient Addr} {m : ClientMove Addr} (h : call ∈ begun a c m) :
    begun a c m = [call] ∧ call.key = (a, c.nextId) ∧ ∃ n, m = .call call.server call.payload n := by
  cases m with
  | call server payload n =>
    obtain rfl := List.mem_singleton.mp h
    exact ⟨rfl, rfl, n, rfl⟩
  | _ => cases h

theorem callCount_of_not_created (h : Issued hosts s) (ha : a ∉ s.created) : s.callCount a = 0 := by
  rw [callCount, List.countP_eq_zero]
  intro call hcall
  have hmem := (h.calls call hcall).1
  simp only [decide_eq_true_eq]
  rintro rfl
  exact ha hmem

/-- A step that makes no call. -/
theorem Issued.of_calls (h : Issued hosts s) (hcalls : s'.calls = s.calls)
    (hcreated : ∀ a ∈ s.created, a ∈ s'.created)
    (hclients : ∀ a c', s'.clients a = some c' →
      (∃ c, s.clients a = some c ∧ c'.nextId = c.nextId) ∨
        (a ∉ s.created ∧ a ∈ s'.created ∧ c'.nextId = 1))
    (hmarked : ∀ host key, key ∈ (s'.servers host).dedup →
      key ∈ (s.servers host).dedup ∨ key ∈ s.calls.map Call.key)
    (hflight : ∀ d ∈ s'.flight, d ∈ s.flight ∨ hosts d.dest = !hosts d.src ∧
      ∀ rpcId body, decodeFrame d.frame = some (rpcId, body) →
        (if hosts d.src then d.dest else d.src, rpcId) ∈ s.calls.map Call.key) :
    Issued hosts s' := by
  have hcount : s'.callCount = s.callCount := by
    funext a
    rw [callCount, callCount, hcalls]
  constructor
  · rw [hcalls]
    exact h.nodup
  · intro call hcall
    rw [hcalls] at hcall
    rw [hcount]
    obtain ⟨hmem, hrest⟩ := h.calls call hcall
    exact ⟨hcreated _ hmem, hrest⟩
  · intro a c' hc'
    rw [hcount]
    rcases hclients a c' hc' with ⟨c, hc, hid⟩ | ⟨hnew, hmem, hid⟩
    · rw [hid]
      exact ⟨hcreated a (h.clients a c hc).1, (h.clients a c hc).2⟩
    · rw [callCount_of_not_created h hnew, hid]
      exact ⟨hmem, rfl⟩
  · intro host key hkey
    rw [hcalls]
    exact (hmarked host key hkey).elim (h.marked host key) id
  · intro d hd
    rw [hcalls]
    exact (hflight d hd).elim (h.flight d) id

/-- A call takes the next number. -/
theorem Issued.called (h : Issued hosts s) {c c' : RpcClient Addr} (hc : s.clients a = some c)
    (hoff : hosts a = false) (hcount : s.callCount a + 1 < 2 ^ 64) (hkey : call.key = (a, c.nextId))
    (hnext : c'.nextId = c.nextId + 1) (hcalls : s'.calls = s.calls ++ [call])
    (hcreated : s'.created = s.created)
    (hclients : s'.clients = Function.update s.clients a (some c'))
    (hservers : s'.servers = s.servers) (hflight : s'.flight = s.flight) : Issued hosts s' := by
  obtain ⟨hclient, hid⟩ := Prod.mk.inj hkey
  have hgrown : ∀ b, s'.callCount b = s.callCount b + if b = a then 1 else 0 := by
    intro b
    rw [callCount, callCount, hcalls, List.countP_append, List.countP_singleton, hclient]
    simp [eq_comm]
  have hkeys : ∀ key ∈ s.calls.map Call.key, key ∈ s'.calls.map Call.key := by
    intro key hmem
    rw [hcalls, List.map_append]
    exact List.mem_append_left _ hmem
  constructor
  · rw [hcalls]
    exact Threads.nodup_append h.nodup (hkey ▸ h.fresh hc hcount)
  · intro x hx
    rw [hcalls] at hx
    rw [hcreated, hgrown]
    rcases List.mem_append.mp hx with hold | hnew
    · obtain ⟨hmem, hhost, hle⟩ := h.calls x hold
      exact ⟨hmem, hhost, Nat.le_add_right_of_le hle⟩
    · obtain rfl := List.mem_singleton.mp hnew
      rw [hclient, hid, if_pos rfl, (h.clients a c hc).2, UInt64.toNat_ofNat_of_lt' hcount]
      exact ⟨(h.clients a c hc).1, hoff, Nat.le_refl _⟩
  · intro b c₁ hc₁
    rw [hclients, Function.update_apply] at hc₁
    rw [hcreated, hgrown]
    split_ifs at hc₁ with heq
    · obtain rfl := Option.some.inj hc₁
      rw [heq, if_pos rfl, hnext, (h.clients a c hc).2]
      exact ⟨(h.clients a c hc).1, (UInt64.ofNat_add (s.callCount a + 1) 1).symm⟩
    · rw [if_neg heq]
      exact h.clients b c₁ hc₁
  · intro host key hmem
    rw [hservers] at hmem
    exact hkeys key (h.marked host key hmem)
  · intro d hd
    rw [hflight] at hd
    obtain ⟨hdest, hissued⟩ := h.flight d hd
    exact ⟨hdest, fun rpcId body hdec => hkeys _ (hissued rpcId body hdec)⟩

/-- One client at an address never reuses a number. -/
theorem Issued.unused (h : Issued hosts s) (hsound : Sound hosts s) {e : RpcEvent Addr}
    (hok : s.OneClient e) : s.Unused e := by
  cases e with
  | client a m =>
    intro c hc call hcall
    obtain ⟨_, hkey, n, rfl⟩ := of_mem_begun hcall
    have hclient : call.client = a := congrArg Prod.fst hkey
    apply h.not_stale hsound
    · rw [hclient]
      exact (hsound.clients a c hc).1
    · rw [hkey]
      exact h.fresh hc hok
  | _ => trivial

/-- A client moves. -/
theorem Issued.client (h : Issued hosts s) (hsound : Sound hosts s) {c c' : RpcClient Addr}
    {m : ClientMove Addr} {acts : List (ClientAction Addr)} (hc : s.clients a = some c)
    (hm : c.Moved m c' acts) (hok : s.OneClient (.client a m)) :
    Issued hosts (s.afterClient a c c' m acts) := by
  have hoff := (hsound.clients a c hc).1
  by_cases hbegun : begun a c m = []
  · have hnext : c'.nextId = c.nextId := by
      cases hm with
      | call => cases hbegun
      | _ => rfl
    apply h.of_calls
    · rw [afterClient, hbegun, List.append_nil]
    · exact fun b hb => hb
    · intro b c₁ hc₁
      left
      simp only [afterClient, Function.update_apply] at hc₁
      split_ifs at hc₁ with heq
      · obtain rfl := Option.some.inj hc₁
        exact ⟨c, heq ▸ hc, hnext⟩
      · exact ⟨c₁, hc₁, rfl⟩
    · exact fun host key hkey => Or.inl hkey
    · intro d hd
      apply (List.mem_append.mp hd).imp_right
      intro hnew
      obtain ⟨k, hk, rfl⟩ := hm.messages a d hnew
      obtain ⟨hserver, hcall, _⟩ := hsound.running a c hc k hk
      refine ⟨by simp [hserver, hoff], fun rpcId body hdec => ?_⟩
      rw [decode_encodeFrame] at hdec
      obtain ⟨rfl, rfl⟩ := Prod.mk.inj (Option.some.inj hdec)
      simp only [hoff]
      exact List.mem_map.mpr ⟨k.call a, hcall, rfl⟩
  · obtain ⟨call, hcall⟩ := List.exists_mem_of_ne_nil _ hbegun
    obtain ⟨hbegun, hkey, n, rfl⟩ := of_mem_begun hcall
    cases hm
    refine h.called hc hoff hok hkey rfl ?_ rfl rfl rfl ?_
    · rw [afterClient, hbegun]
    · simp [afterClient, messages]

theorem Issued.effect (h : Issued hosts s) (hsound : Sound hosts s) {e : RpcEvent Addr}
    (hok : s.OneClient e) (he : Effect hosts s e s') : Issued hosts s' := by
  have hsame : ∀ a c, s.clients a = some c → (∃ c₀, s.clients a = some c₀ ∧ c.nextId = c₀.nextId) ∨
      (a ∉ s.created ∧ a ∈ s.created ∧ c.nextId = 1) := fun a c hc => Or.inl ⟨c, hc, rfl⟩
  cases he with
  | @newClient a hhost hfree =>
    refine h.of_calls rfl (fun b hb => List.mem_append_left _ hb) (fun b c hc => ?_)
      (fun host key hkey => Or.inl hkey) (fun d hd => Or.inl hd)
    simp only [Function.update_apply] at hc
    split_ifs at hc with heq
    · obtain rfl := Option.some.inj hc
      right
      rw [heq]
      exact ⟨hok, List.mem_append_right _ (List.mem_singleton.mpr rfl), rfl⟩
    · exact Or.inl ⟨c, hc, rfl⟩
  | dropClient hc hidle =>
    refine h.of_calls rfl (fun b hb => hb) (fun b c hc => ?_)
      (fun host key hkey => Or.inl hkey) (fun d hd => Or.inl hd)
    simp only [Function.update_apply] at hc
    split_ifs at hc
    exact Or.inl ⟨c, hc, rfl⟩
  | client hc hhost hm => exact h.client hsound hc hm hok
  | @server host m server hhost hm =>
    have hinv := hsound.servers host
    have hmarked : ∀ key, key ∈ server.dedup → key ∈ s.calls.map Call.key := fun key hkey =>
      h.marked host key (hm.marked hinv.jobs_marked hkey)
    refine h.of_calls rfl (fun b hb => hb) hsame (fun host' key hkey => ?_) (fun d hd => ?_)
    · simp only [Function.update_apply] at hkey
      split_ifs at hkey
      · exact Or.inr (hmarked key hkey)
      · exact Or.inl hkey
    · apply (List.mem_append.mp hd).imp_right
      intro hnew
      obtain ⟨out, hout, rfl⟩ := List.mem_map.mp hnew
      have hsent := (hinv.moved hm).sent out (hm.sent ▸ List.mem_append_right _ hout)
      have hissued : ∀ rpcId body, decodeFrame out.2 = some (rpcId, body) →
          (out.1, rpcId) ∈ s.calls.map Call.key := fun rpcId body hdec =>
        hmarked _ ((hinv.moved hm).copy_marked hsent hdec)
      -- a server answers clients only
      have hoff : hosts out.1 = false := by
        obtain ⟨rpcId, value, hframe, _⟩ := hsent
        have hmem := hissued rpcId value (by rw [hframe, decode_encodeFrame])
        obtain ⟨call, hcall, hkey⟩ := List.mem_map.mp hmem
        rw [← show call.client = out.1 from congrArg Prod.fst hkey]
        exact (h.calls call hcall).2.1
      refine ⟨by simp [hoff, hhost], fun rpcId body hdec => ?_⟩
      simp only [hhost]
      exact hissued rpcId body hdec
  | @dispatch i d c c' hd hc hfree hdis =>
    refine h.of_calls rfl (fun b hb => hb) (fun b c₁ hc₁ => ?_) (fun host key hkey => Or.inl hkey)
      (fun d' hd' => Or.inl (List.mem_of_mem_eraseIdx hd'))
    simp only [Function.update_apply] at hc₁
    split_ifs at hc₁ with heq
    · obtain rfl := Option.some.inj hc₁
      rw [heq]
      exact Or.inl ⟨c, hc, hdis.callers.2⟩
    · exact Or.inl ⟨c₁, hc₁, rfl⟩
  | @receive i d server hd hhost hloop hr =>
    obtain ⟨hdest, hissued⟩ := h.flight d (List.mem_of_getElem? hd)
    refine h.of_calls rfl (fun b hb => hb) hsame (fun host' key hkey => ?_)
      (fun d' hd' => Or.inl (List.mem_of_mem_eraseIdx hd'))
    simp only [Function.update_apply] at hkey
    split_ifs at hkey with heq
    · rw [heq]
      apply (hr.marked hkey).imp_right
      rintro ⟨hsrc, body, hdec⟩
      have hoff : hosts d.src = false := by simpa [hhost] using hdest
      have hmem := hissued key.2 body hdec
      rw [hoff, ← hsrc] at hmem
      exact hmem
    · exact Or.inl hkey
  | drop =>
    exact h.of_calls rfl (fun b hb => hb) hsame (fun host key hkey => Or.inl hkey)
      (fun d hd => Or.inl (List.mem_of_mem_eraseIdx hd))
  | @duplicate i d hd =>
    refine h.of_calls rfl (fun b hb => hb) hsame (fun host key hkey => Or.inl hkey)
      (fun d' hd' => Or.inl ?_)
    rcases List.mem_append.mp hd' with hold | hnew
    · exact hold
    · obtain rfl := List.mem_singleton.mp hnew
      exact List.mem_of_getElem? hd

/-- The numbers of a run with one client at each address are never reused. -/
theorem issued_of_run {evs : List (RpcEvent Addr)}
    (h : Run (RpcNetwork.step hosts) OneClient RpcNetwork.new evs s) :
    Issued hosts s ∧ Sound hosts s := by
  apply h.invariant (P := fun s => Issued hosts s ∧ Sound hosts s) _
    ⟨Issued.new hosts, Sound.new hosts⟩
  rintro s e s' ⟨hissued, hsound⟩ hok hstep
  have he := step_spec hstep
  exact ⟨hissued.effect hsound hok he, hsound.effect (hissued.unused hsound hok) he⟩

/-- **Responses are matched to their calls.** With one client at each address that makes
fewer than `2 ^ 64` calls, no two calls have a key in common, a handler runs once at most
for a key, what a call returns is the value of the run on its own payload, and nothing
else is ever sent through the channel that a call receives from. -/
theorem responses_matched {evs : List (RpcEvent Addr)}
    (h : Run (RpcNetwork.step hosts) OneClient RpcNetwork.new evs s) :
    (s.calls.map Call.key).Nodup ∧
    (∀ host, ((s.servers host).started.map Prod.fst).Nodup ∧
      ((s.servers host).returned.map Prod.fst).Nodup) ∧
    (∀ x ∈ s.answered, x.1 ∈ s.calls ∧ s.Ran x.1 x.2) ∧
    ∀ a c, s.clients a = some c → ∀ k ∈ c.callers, ∀ x, k.chan = some x.1 →
      x ∈ c.mail ∨ c.dispatching = some x → s.Ran (k.call a) x.2 := by
  obtain ⟨hissued, hsound⟩ := issued_of_run h
  refine ⟨hissued.nodup, fun host => ?_, hsound.answered, ?_⟩
  · exact ⟨(hsound.servers host).started_nodup, (hsound.servers host).returned_nodup⟩
  · intro a c hc k hk x hchan hx
    exact (hsound.clients a c hc).2.heard k hk x hchan hx

/-- Two clients call at the same time. The first one retries, and its request is duplicated. -/
def twoClients : List (RpcEvent ℕ) :=
  [.newClient 1, .newClient 2, .client 1 (.call 9 [5] 2), .client 2 (.call 9 [6] 2),
    .client 1 (.register 0), .client 1 (.submit 0), .client 2 (.register 0), .client 2 (.submit 0),
    .duplicate 0, .receive 0, .server 9 .spawn, .server 9 (.start 0), .client 1 (.sent 0),
    .client 1 (.timeout 0), .client 1 (.retry 0), .receive 0, .server 9 .spawn,
    .server 9 (.start 1), .server 9 (.finish 0 [50]), .server 9 (.send 0),
    .server 9 (.finish 1 [60]), .server 9 (.send 1), .server 9 (.store 0), .server 9 (.store 0),
    .client 1 (.register 0), .client 1 (.submit 0), .receive 0, .server 9 .spawn,
    .server 9 (.replay 0), .dispatch 0, .client 1 .hand, .client 1 (.sent 0), .client 1 (.take 0 0),
    .dispatch 0, .client 2 .hand, .client 2 (.sent 0), .client 2 (.take 0 0), .dispatch 1]

theorem responses_matched_two : ∃ s : RpcNetwork ℕ,
    Run (RpcNetwork.step hostNine) OneClient RpcNetwork.new twoClients s ∧
    s.answered = [(⟨1, 1, 9, [5]⟩, [50]), (⟨2, 1, 9, [6]⟩, [60])] ∧
    (s.calls.map Call.key).Nodup ∧
    (∀ host, ((s.servers host).started.map Prod.fst).Nodup ∧
      ((s.servers host).returned.map Prod.fst).Nodup) ∧
    (∀ x ∈ s.answered, x.1 ∈ s.calls ∧ s.Ran x.1 x.2) ∧
    ∀ a c, s.clients a = some c → ∀ k ∈ c.callers, ∀ x, k.chan = some x.1 →
      x ∈ c.mail ∨ c.dispatching = some x → s.Ran (k.call a) x.2 := by
  have hout : (exec (guarded (RpcNetwork.step hostNine) OneClient) twoClients
      RpcNetwork.new).map RpcNetwork.answered =
        some [(⟨1, 1, 9, [5]⟩, [50]), (⟨2, 1, 9, [6]⟩, [60])] := rfl
  obtain ⟨s, hs, hanswered⟩ := Option.map_eq_some_iff.mp hout
  have hrun := run_of_guarded hs
  exact ⟨s, hrun, hanswered, responses_matched hrun⟩

end RpcNetwork
end AgentTransport
