import AgentTransport.RpcOwnership
import AgentTransport.RpcChannels

/-!
# Responses are matched to their calls

A call gets the number that its client counts to. If nothing with the same address and
number is left that could still be answered, then until the call returns all there is
with them belongs to the call, on the network, in the servers and in the channels.
Numbers are not used twice by one client. A client that is made at the address of an
earlier one counts from 1 again, and there the condition can fail.
-/
namespace AgentTransport
open ByteString Transition

variable {Addr : Type} [DecidableEq Addr]

namespace RpcNetwork

/-- The called server's handler ran on the payload of the call and returned `v`. -/
def Ran (s : RpcNetwork Addr) (call : Call Addr) (v : List UInt8) : Prop :=
  (s.servers call.server).Ran call.key call.payload v

/-- Something of an earlier call with the same address and number is left that can be
answered: a caller, a frame on its way, a thread of a server, or a cached answer in the
server that is called. -/
def Stale (s : RpcNetwork Addr) (call : Call Addr) : Prop :=
  (∃ c, s.clients call.client = some c ∧ call.rpcId ∈ c.callers.map Caller.rpcId) ∨
  (∃ d ∈ s.flight, (d.src = call.client ∨ d.dest = call.client) ∧
    ∃ body, decodeFrame d.frame = some (call.rpcId, body)) ∨
  (∃ host, (s.servers host).Handles call.key) ∨ (s.servers call.server).Remembers call.key

/-- Calls are made under numbers that nothing is left of. -/
def Unused (s : RpcNetwork Addr) : RpcEvent Addr → Prop
  | .client a m => ∀ c, s.clients a = some c → ∀ call ∈ begun a c m, ¬ s.Stale call
  | _ => True

/-- All frames and all servers that deal with the number of a call deal with the call. -/
structure Owns (s : RpcNetwork Addr) (call : Call Addr) : Prop where
  requests : ∀ d ∈ s.flight, d.src = call.client → ∀ body,
    decodeFrame d.frame = some (call.rpcId, body) → d.dest = call.server ∧ body = call.payload
  responses : ∀ d ∈ s.flight, d.dest = call.client → ∀ v,
    decodeFrame d.frame = some (call.rpcId, v) →
      d.src = call.server ∧ (call.key, call.payload) ∈ (s.servers call.server).started
  servers : ∀ host, (s.servers host).Owned (host = call.server) call.key call.payload

structure Sound (hosts : Addr → Bool) (s : RpcNetwork Addr) : Prop where
  servers : ∀ host, (s.servers host).Inv
  clients : ∀ a c, s.clients a = some c → hosts a = false ∧ c.Tidy a s.Ran
  running : ∀ a c, s.clients a = some c → ∀ k ∈ c.callers,
    hosts k.server ∧ k.call a ∈ s.calls ∧ s.Owns (k.call a)
  flight : ∀ d ∈ s.flight, hosts d.src → (s.servers d.src).Copy (d.dest, d.frame)
  answered : ∀ x ∈ s.answered, x.1 ∈ s.calls ∧ s.Ran x.1 x.2

variable {hosts : Addr → Bool} {s s' : RpcNetwork Addr} {call : Call Addr} {a : Addr}

theorem Sound.new (hosts : Addr → Bool) : Sound hosts (RpcNetwork.new : RpcNetwork Addr) where
  servers host := RpcServer.Inv.new
  clients a c h := by cases h
  running a c h := by cases h
  flight d hd := by cases hd
  answered x hx := by cases hx

/-- A call with a fresh number. -/
theorem owns_of_unused (h : ¬ s.Stale call) : s.Owns call where
  requests d hd hsrc body hdec :=
    absurd (Or.inr (Or.inl ⟨d, hd, Or.inl hsrc, body, hdec⟩)) h
  responses d hd hdest v hdec :=
    absurd (Or.inr (Or.inl ⟨d, hd, Or.inr hdest, v, hdec⟩)) h
  servers host := by
    apply RpcServer.Owned.of_unused
    · intro hhandles
      exact h (Or.inr (Or.inr (Or.inl ⟨host, hhandles⟩)))
    · rintro rfl hremembers
      exact h (Or.inr (Or.inr (Or.inr hremembers)))

/-- New frames have to deal with the call, too. -/
theorem Owns.of_flight (h : s.Owns call) (hservers : s'.servers = s.servers)
    (hflight : ∀ d ∈ s'.flight, d ∈ s.flight ∨ (d.dest ≠ call.client ∧
      (d.src = call.client → ∀ body, decodeFrame d.frame = some (call.rpcId, body) →
        d.dest = call.server ∧ body = call.payload))) : s'.Owns call where
  requests d hd := by
    rcases hflight d hd with hold | ⟨_, hown⟩
    · exact h.requests d hold
    · exact hown
  responses d hd hdest := by
    rw [hservers]
    rcases hflight d hd with hold | ⟨hne, _⟩
    · exact h.responses d hold hdest
    · exact absurd hdest hne
  servers host := by
    rw [hservers]
    exact h.servers host

/-- A server moves on. -/
theorem Owns.of_server (h : s.Owns call) {host : Addr} {server : RpcServer Addr}
    (hservers : s'.servers = Function.update s.servers host server)
    (howned : server.Owned (host = call.server) call.key call.payload)
    (hstarted : ∀ x ∈ (s.servers host).started, x ∈ server.started)
    (hflight : ∀ d ∈ s'.flight, d ∈ s.flight ∨ (d.src = host ∧ d.src ≠ call.client ∧
      (d.dest = call.client → ∀ v, decodeFrame d.frame = some (call.rpcId, v) →
        host = call.server ∧ (call.key, call.payload) ∈ server.started))) : s'.Owns call := by
  have hgrown : ∀ x ∈ (s.servers call.server).started, x ∈ (s'.servers call.server).started := by
    intro x hx
    rw [hservers, Function.update_apply]
    split_ifs with heq
    · rw [heq] at hx
      exact hstarted x hx
    · exact hx
  constructor
  · intro d hd hsrc
    rcases hflight d hd with hold | ⟨_, hne, _⟩
    · exact h.requests d hold hsrc
    · exact absurd hsrc hne
  · intro d hd hdest v hdec
    rcases hflight d hd with hold | ⟨rfl, _, hown⟩
    · obtain ⟨hsrc, hmem⟩ := h.responses d hold hdest v hdec
      exact ⟨hsrc, hgrown _ hmem⟩
    · obtain ⟨hsrc, hmem⟩ := hown hdest v hdec
      refine ⟨hsrc, ?_⟩
      rw [hservers, ← hsrc, Function.update_self]
      exact hmem
  · intro host'
    rw [hservers, Function.update_apply]
    split_ifs with heq
    · rw [heq]
      exact howned
    · exact h.servers host'

theorem Ran.of_server {host : Addr} {server : RpcServer Addr} {v : List UInt8} (h : s.Ran call v)
    (hservers : s'.servers = Function.update s.servers host server)
    (hstarted : ∀ x ∈ (s.servers host).started, x ∈ server.started)
    (hreturned : ∀ x ∈ (s.servers host).returned, x ∈ server.returned) : s'.Ran call v := by
  obtain ⟨hrun, hvalue⟩ := h
  rw [Ran, hservers, Function.update_apply]
  split_ifs with heq
  · rw [heq] at hrun hvalue
    exact ⟨hstarted _ hrun, hreturned _ hvalue⟩
  · exact ⟨hrun, hvalue⟩

/-- A step that changes clients only. -/
theorem Sound.of_clients (h : Sound hosts s) (hservers : s'.servers = s.servers)
    (hflight : ∀ d ∈ s'.flight, d ∈ s.flight) (hcalls : s'.calls = s.calls)
    (hanswered : s'.answered = s.answered)
    (hclients : ∀ a c', s'.clients a = some c' → hosts a = false ∧ c'.Tidy a s.Ran ∧
      ∀ k ∈ c'.callers, ∃ c, s.clients a = some c ∧ k ∈ c.callers) : Sound hosts s' := by
  have hran : s'.Ran = s.Ran := by
    funext call v
    rw [Ran, Ran, hservers]
  constructor
  · rw [hservers]
    exact h.servers
  · intro a c' hc'
    rw [hran]
    exact ⟨(hclients a c' hc').1, (hclients a c' hc').2.1⟩
  · intro a c' hc' k hk
    obtain ⟨c, hc, hkc⟩ := (hclients a c' hc').2.2 k hk
    obtain ⟨hhost, hmem, howns⟩ := h.running a c hc k hkc
    rw [hcalls]
    exact ⟨hhost, hmem, howns.of_flight hservers fun d hd => Or.inl (hflight d hd)⟩
  · intro d hd
    rw [hservers]
    exact h.flight d (hflight d hd)
  · rw [hanswered, hcalls, hran]
    exact h.answered

/-- A client moves. -/
theorem Sound.client (h : Sound hosts s) {c c' : RpcClient Addr} {m : ClientMove Addr}
    {acts : List (ClientAction Addr)} (hc : s.clients a = some c) (hhost : m.toHost hosts)
    (hm : c.Moved m c' acts) (hok : ∀ call ∈ begun a c m, ¬ s.Stale call) :
    Sound hosts (s.afterClient a c c' m acts) := by
  obtain ⟨hoff, htidy⟩ := h.clients a c hc
  have hmessages : ∀ {a' c' k}, s.clients a' = some c' → k ∈ c'.callers →
      ∀ d ∈ messages a acts, d.dest ≠ a' ∧ (d.src = a' → ∀ body,
        decodeFrame d.frame = some (k.rpcId, body) → d.dest = k.server ∧ body = k.payload) := by
    intro a' c₁ k hc₁ hk d hd
    obtain ⟨k₁, hk₁, rfl⟩ := hm.messages a d hd
    have hdest := (h.running a c hc k₁ hk₁).1
    have hoff' := (h.clients a' c₁ hc₁).1
    constructor
    · rintro rfl
      rw [hdest] at hoff'
      cases hoff'
    · rintro rfl body hdec
      rw [decode_encodeFrame] at hdec
      obtain ⟨hid, rfl⟩ := Prod.mk.inj (Option.some.inj hdec)
      obtain rfl := Option.some.inj (hc.symm.trans hc₁)
      obtain rfl := List.inj_on_of_nodup_map htidy.nodup hk₁ hk hid
      exact ⟨rfl, rfl⟩
  have hkeep : ∀ {a' c₁ k}, s.clients a' = some c₁ → k ∈ c₁.callers →
      hosts k.server ∧ k.call a' ∈ s.calls ++ begun a c m ∧
        (s.afterClient a c c' m acts).Owns (k.call a') := by
    intro a' c₁ k hc₁ hk
    obtain ⟨hserver, hmem, howns⟩ := h.running a' c₁ hc₁ k hk
    refine ⟨hserver, List.mem_append_left _ hmem, howns.of_flight rfl fun d hd => ?_⟩
    exact (List.mem_append.mp hd).imp_right (hmessages hc₁ hk d)
  constructor
  · exact h.servers
  · intro a' c₁ hc₁
    simp only [afterClient, Function.update_apply] at hc₁
    split_ifs at hc₁ with heq
    · obtain rfl := Option.some.inj hc₁
      subst heq
      refine ⟨hoff, htidy.moved hm fun hbegun hmem => ?_⟩
      obtain ⟨call, hcall⟩ := List.exists_mem_of_ne_nil _ hbegun
      refine hok call hcall (Or.inl ⟨c, ?_⟩)
      cases m with
      | call server payload n =>
        obtain rfl := List.mem_singleton.mp hcall
        exact ⟨hc, hmem⟩
      | _ => cases hcall
    · exact h.clients a' c₁ hc₁
  · intro a' c₁ hc₁ k hk
    simp only [afterClient, Function.update_apply] at hc₁
    split_ifs at hc₁ with heq
    · obtain rfl := Option.some.inj hc₁
      subst heq
      rcases hm.callers a' k hk with ⟨k₀, hk₀, hsame⟩ | hbegun
      · have hserver : k₀.server = k.server := congrArg Call.server hsame
        rw [← hsame, ← hserver]
        exact hkeep hc hk₀
      · refine ⟨?_, List.mem_append_right _ hbegun, ?_⟩
        · cases m with
          | call server payload n =>
            have hserver : k.server = server :=
              congrArg Call.server (List.mem_singleton.mp hbegun)
            rw [hserver]
            exact hhost
          | _ => cases hbegun
        · refine (owns_of_unused (hok _ hbegun)).of_flight rfl fun d hd => ?_
          cases hm with
          | call => exact Or.inl (by simpa [afterClient, messages] using hd)
          | _ => cases hbegun
    · exact hkeep hc₁ hk
  · intro d hd hsrc
    rcases List.mem_append.mp hd with hold | hnew
    · exact h.flight d hold hsrc
    · obtain ⟨k, _, rfl⟩ := hm.messages a d hnew
      rw [hoff] at hsrc
      cases hsrc
  · intro x hx
    rcases List.mem_append.mp hx with hold | hnew
    · obtain ⟨hmem, hran⟩ := h.answered x hold
      exact ⟨List.mem_append_left _ hmem, hran⟩
    · obtain ⟨hran, k, hk, hcall⟩ := htidy.answers hm x hnew
      rw [← hcall] at hran ⊢
      exact ⟨List.mem_append_left _ (h.running a c hc k hk).2.1, hran⟩

/-- A server moves on, and may send frames. -/
theorem Sound.server (h : Sound hosts s) {host : Addr} {server : RpcServer Addr}
    (hservers : s'.servers = Function.update s.servers host server)
    (hclients : s'.clients = s.clients) (hcalls : s'.calls = s.calls)
    (hanswered : s'.answered = s.answered) (hinv : server.Inv)
    (hstarted : ∀ x ∈ (s.servers host).started, x ∈ server.started)
    (hreturned : ∀ x ∈ (s.servers host).returned, x ∈ server.returned)
    (hflight : ∀ d ∈ s'.flight, d ∈ s.flight ∨ (d.src = host ∧ server.Copy (d.dest, d.frame)))
    (howns : ∀ call, hosts call.client = false → s.Owns call → s'.Owns call) :
    Sound hosts s' := by
  have hran : ∀ call v, s.Ran call v → s'.Ran call v := fun call v hr =>
    hr.of_server hservers hstarted hreturned
  constructor
  · intro host'
    rw [hservers, Function.update_apply]
    split_ifs
    · exact hinv
    · exact h.servers host'
  · intro a c hc
    rw [hclients] at hc
    obtain ⟨hoff, htidy⟩ := h.clients a c hc
    exact ⟨hoff, htidy.mono fun k _ v hv => hran _ v hv⟩
  · intro a c hc k hk
    rw [hclients] at hc
    obtain ⟨hserver, hmem, hown⟩ := h.running a c hc k hk
    rw [hcalls]
    exact ⟨hserver, hmem, howns _ (h.clients a c hc).1 hown⟩
  · intro d hd hsrc
    rw [hservers, Function.update_apply]
    rcases hflight d hd with hold | ⟨heq, hcopy⟩
    · have hcopy := h.flight d hold hsrc
      split_ifs with heq
      · rw [heq] at hcopy
        exact hcopy.mono hreturned
      · exact hcopy
    · rw [if_pos heq]
      exact hcopy
  · intro x hx
    rw [hanswered] at hx
    rw [hcalls]
    exact ⟨(h.answered x hx).1, hran _ _ (h.answered x hx).2⟩

/-- A client that does not move. -/
theorem Sound.waits (h : Sound hosts s) {c : RpcClient Addr} (hc : s.clients a = some c) :
    hosts a = false ∧ c.Tidy a s.Ran ∧
      ∀ k ∈ c.callers, ∃ c', s.clients a = some c' ∧ k ∈ c'.callers := by
  obtain ⟨hoff, htidy⟩ := h.clients a c hc
  exact ⟨hoff, htidy, fun k hk => ⟨c, hc, hk⟩⟩

theorem Sound.effect (h : Sound hosts s) {e : RpcEvent Addr} (hok : s.Unused e)
    (he : Effect hosts s e s') : Sound hosts s' := by
  cases he with
  | @newClient a hhost hfree =>
    refine h.of_clients rfl (fun d hd => hd) rfl rfl fun a' c' hc' => ?_
    simp only [Function.update_apply] at hc'
    split_ifs at hc' with heq
    · obtain rfl := Option.some.inj hc'
      rw [heq]
      exact ⟨hhost, RpcClient.Tidy.new _ _, fun k hk => absurd hk List.not_mem_nil⟩
    · exact h.waits hc'
  | @dropClient a c hc hidle =>
    refine h.of_clients rfl (fun d hd => hd) rfl rfl fun a' c' hc' => ?_
    simp only [Function.update_apply] at hc'
    split_ifs at hc'
    exact h.waits hc'
  | client hc hhost hm => exact h.client hc hhost hm (hok _ hc)
  | @server host m server hhost hm =>
    have hinv := (h.servers host).moved hm
    refine h.server rfl rfl rfl rfl hinv hm.started_subset hm.returned_subset ?_ ?_
    · intro d hd
      rcases List.mem_append.mp hd with hold | hnew
      · exact Or.inl hold
      · obtain ⟨out, hout, rfl⟩ := List.mem_map.mp hnew
        exact Or.inr ⟨rfl, hinv.sent out (hm.sent ▸ List.mem_append_right _ hout)⟩
    · intro call hoff howns
      obtain ⟨howned, hout⟩ := (howns.servers host).moved (h.servers host) hm
      refine howns.of_server rfl howned hm.started_subset fun d hd => ?_
      rcases List.mem_append.mp hd with hold | hnew
      · exact Or.inl hold
      · obtain ⟨out, hmem, rfl⟩ := List.mem_map.mp hnew
        refine Or.inr ⟨rfl, ?_, hout out hmem⟩
        rintro rfl
        rw [hoff] at hhost
        cases hhost
  | @dispatch i d c c' hd hc hfree hdis =>
    have hdmem : d ∈ s.flight := List.mem_of_getElem? hd
    refine h.of_clients rfl (fun d' hd' => List.mem_of_mem_eraseIdx hd') rfl rfl
      fun a' c₁ hc₁ => ?_
    simp only [Function.update_apply] at hc₁
    split_ifs at hc₁ with heq
    · obtain rfl := Option.some.inj hc₁
      rw [heq]
      obtain ⟨hoff, htidy⟩ := h.clients d.dest c hc
      refine ⟨hoff, htidy.dispatched hdis ?_, fun k hk => ⟨c, hc, hdis.callers.1 ▸ hk⟩⟩
      intro r v hdec k hk hid
      obtain ⟨hserver, hmem, howns⟩ := h.running d.dest c hc k hk
      obtain ⟨hsrc, hstarted⟩ := howns.responses d hdmem rfl v (by rw [hdec, ← hid]; rfl)
      have hsrc' : d.src = k.server := hsrc
      obtain ⟨rpcId, hanswers⟩ := h.flight d hdmem (by rw [hsrc']; exact hserver)
      obtain ⟨hnum, hreturned⟩ := hanswers.decode hdec
      obtain rfl : r = rpcId := hnum
      refine ⟨hstarted, ?_⟩
      rw [hsrc', ← hid] at hreturned
      exact hreturned
    · exact h.waits hc₁
  | @receive i d server hd hhost hloop hr =>
    obtain ⟨hstarted, hreturned⟩ := hr.histories
    have hdmem : d ∈ s.flight := List.mem_of_getElem? hd
    refine h.server rfl rfl rfl rfl ((h.servers _).received hloop hr) (by simp [hstarted])
      (by simp [hreturned]) (fun d' hd' => Or.inl (List.mem_of_mem_eraseIdx hd')) ?_
    intro call _ howns
    refine howns.of_server rfl ?_ (by simp [hstarted])
      fun d' hd' => Or.inl (List.mem_of_mem_eraseIdx hd')
    exact (howns.servers d.dest).received (h.servers _) hloop hr fun hsrc body hdec =>
      howns.requests d hdmem hsrc body hdec
  | drop =>
    exact h.of_clients rfl (fun d hd => List.mem_of_mem_eraseIdx hd) rfl rfl
      fun a c hc => h.waits hc
  | @duplicate i d hd =>
    refine h.of_clients rfl (fun d' hd' => ?_) rfl rfl fun a c hc => h.waits hc
    rcases List.mem_append.mp hd' with hold | hnew
    · exact hold
    · obtain rfl := List.mem_singleton.mp hnew
      exact List.mem_of_getElem? hd

/-- The event begins the call. -/
def Begins (s : RpcNetwork Addr) (e : RpcEvent Addr) (call : Call Addr) : Prop :=
  ∃ c m, e = .client call.client m ∧ s.clients call.client = some c ∧
    call ∈ begun call.client c m

/-- Calls are recorded when they begin. -/
theorem Effect.calls {e : RpcEvent Addr} (he : Effect hosts s e s') :
    ∀ call ∈ s'.calls, call ∈ s.calls ∨ s.Begins e call := by
  intro call hcall
  cases he with
  | @client a c c' m acts hc _ _ =>
    apply (List.mem_append.mp hcall).imp_right
    intro hbegun
    have ha : call.client = a := by
      cases m with
      | call => exact congrArg Call.client (List.mem_singleton.mp hbegun)
      | _ => cases hbegun
    rw [← ha] at hc hbegun ⊢
    exact ⟨c, m, rfl, hc, hbegun⟩
  | _ => exact Or.inl hcall

theorem Sound.of_run {evs : List (RpcEvent Addr)}
    (h : Run (RpcNetwork.step hosts) Unused RpcNetwork.new evs s) : Sound hosts s :=
  h.invariant (fun _ _ _ hs hok hstep => hs.effect hok (step_spec hstep)) (Sound.new hosts)

/-- When a call with a fresh number begins, the handler has not returned for its key. -/
theorem begins_unreturned {evs : List (RpcEvent Addr)}
    (h : Run (RpcNetwork.step hosts) Unused RpcNetwork.new evs s) :
    ∀ call ∈ s.calls, ∃ evs₁ e evs₂ t, evs = evs₁ ++ e :: evs₂ ∧
      Run (RpcNetwork.step hosts) Unused RpcNetwork.new evs₁ t ∧ t.Begins e call ∧
      call.key ∉ (t.servers call.server).returned.map Prod.fst := by
  induction h with
  | nil =>
    intro call hcall
    cases hcall
  | @snoc evs s s' e hrun hok hstep ih =>
    intro call hcall
    rcases (step_spec hstep).calls call hcall with hold | hbegins
    · obtain ⟨evs₁, e₁, evs₂, t, rfl, hpart⟩ := ih call hold
      exact ⟨evs₁, e₁, evs₂ ++ [e], t, by simp, hpart⟩
    · refine ⟨evs, e, [], s, rfl, hrun, hbegins, ?_⟩
      obtain ⟨c, m, rfl, hc, hbegun⟩ := hbegins
      have hstale := hok c hc call hbegun
      obtain ⟨evs', hserver⟩ := server_run hrun call.server
      apply (RpcServer.kept_of_run hserver).not_returned
      · intro hhandles
        exact hstale (Or.inr (Or.inr (Or.inl ⟨call.server, hhandles⟩)))
      · intro hremembers
        exact hstale (Or.inr (Or.inr (Or.inr hremembers)))

/-- **A client at a used address.** In a run whose calls take numbers that nothing is left
of, a call that returns `Ok` returns the one value of a handler run on its own payload,
and that run had not returned when the call began. -/
theorem reused_matched {evs : List (RpcEvent Addr)}
    (h : Run (RpcNetwork.step hosts) Unused RpcNetwork.new evs s) :
    (∀ host, ((s.servers host).started.map Prod.fst).Nodup ∧
      ((s.servers host).returned.map Prod.fst).Nodup) ∧
    ∀ x ∈ s.answered, s.Ran x.1 x.2 ∧ ∃ evs₁ e evs₂ t, evs = evs₁ ++ e :: evs₂ ∧
      Run (RpcNetwork.step hosts) Unused RpcNetwork.new evs₁ t ∧ t.Begins e x.1 ∧
      x.1.key ∉ (t.servers x.1.server).returned.map Prod.fst := by
  have hsound := Sound.of_run h
  constructor
  · intro host
    exact ⟨(hsound.servers host).started_nodup, (hsound.servers host).returned_nodup⟩
  · intro x hx
    obtain ⟨hcall, hran⟩ := hsound.answered x hx
    exact ⟨hran, begins_unreturned h x.1 hcall⟩

/-- The server of the examples. -/
def hostNine (a : ℕ) : Bool := a == 9

/-- Caller 0 of the client at 1 gets its request through and the answer back. -/
def exchange (serverMoves : List ServerMove) : List (RpcEvent ℕ) :=
  [.client 1 (.register 0), .client 1 (.submit 0), .receive 0] ++
    serverMoves.map (.server 9) ++
    [.client 1 (.sent 0), .dispatch 0, .client 1 .hand, .client 1 (.take 0 0)]

/-- A request of the caller is lost. -/
def lostAttempt : List (RpcEvent ℕ) :=
  [.client 1 (.register 0), .client 1 (.submit 0), .drop 0, .client 1 (.sent 0),
    .client 1 (.timeout 0), .client 1 (.retry 0)]

/-- The only request of the first client is lost. -/
def lostCall : List (RpcEvent ℕ) := lostAttempt ++ [.dropClient 1, .newClient 1]

/-- The first client is answered. The second one counts its messages from 1 again, so that its
first request is dropped as a repetition. To the next one it gets the old answer. -/
def reusedNumber : List (RpcEvent ℕ) :=
  [.newClient 1, .client 1 (.call 9 [5] 1)] ++
    exchange [.spawn, .start 0, .finish 0 [5], .send 0, .store 0] ++
    [.dropClient 1, .newClient 1, .client 1 (.call 9 [7] 2)] ++ lostAttempt ++
    exchange [.spawn, .replay 0]

/-- Nothing is left of a number where no frame is on its way and the servers are new. -/
theorem not_stale_of_idle (hcallers : (s.clients call.client).map RpcClient.callers = some [])
    (hflight : s.flight = []) (hservers : s.servers = fun _ => RpcServer.new) : ¬ s.Stale call := by
  rintro (⟨c, hc, hmem⟩ | ⟨d, hd, _⟩ | ⟨host, hhandles⟩ | hremembers)
  · rw [hc, Option.map_some] at hcallers
    rw [Option.some.inj hcallers] at hmem
    cases hmem
  · rw [hflight] at hd
    cases hd
  · rw [hservers] at hhandles
    rcases hhandles with ⟨w, hw, _⟩ | ⟨x, hx, _⟩
    · cases hw
    · cases hx
  · rw [hservers] at hremembers
    rcases hremembers with ⟨w, hw, _⟩ | ⟨resp, hlook⟩
    · cases hw
    · simp [RpcServer.new] at hlook

theorem reused_matched_fresh : ∃ evs s, Run (RpcNetwork.step hostNine) Unused RpcNetwork.new evs s ∧
    s.created = [1, 1] ∧ s.answered = [(⟨1, 1, 9, [7]⟩, [8])] ∧
    (∀ host, ((s.servers host).started.map Prod.fst).Nodup ∧
      ((s.servers host).returned.map Prod.fst).Nodup) ∧
    ∀ x ∈ s.answered, s.Ran x.1 x.2 ∧ ∃ evs₁ e evs₂ t, evs = evs₁ ++ e :: evs₂ ∧
      Run (RpcNetwork.step hostNine) Unused RpcNetwork.new evs₁ t ∧ t.Begins e x.1 ∧
      x.1.key ∉ (t.servers x.1.server).returned.map Prod.fst := by
  have hadmitted : ∀ {t : RpcNetwork ℕ} (body : List UInt8) {evs : List (RpcEvent ℕ)},
      (t.clients 1).map RpcClient.callers = some [] → t.flight = [] →
      t.servers = (fun _ => RpcServer.new) → (∀ e ∈ evs, ∀ s, Unused s e) →
      Admitted (RpcNetwork.step hostNine) Unused (.client 1 (.call 9 body 1) :: evs) t := by
    intro t body evs hcallers hflight hservers hquiet
    constructor
    · intro c hc call hcall
      obtain rfl := List.mem_singleton.mp hcall
      exact not_stale_of_idle hcallers hflight hservers
    · intro u _
      exact admitted_of_forall hquiet u
  -- the states in which the two calls begin
  have hfirst : ∃ t, exec (RpcNetwork.step hostNine) [.newClient 1] RpcNetwork.new = some t ∧
      (t.clients 1).map RpcClient.callers = some [] ∧ t.flight = [] ∧
      t.servers = fun _ => RpcServer.new := ⟨_, rfl, rfl, rfl, rfl⟩
  obtain ⟨t₁, ht₁, hcallers₁, hflight₁, hservers₁⟩ := hfirst
  have hrun₁ : Run (RpcNetwork.step hostNine) Unused RpcNetwork.new [.newClient 1] t₁ :=
    run_of_admitted ht₁ (admitted_of_forall (by simp [Unused]) _)
  have hsecond : ∃ t, exec (RpcNetwork.step hostNine)
      ([.newClient 1] ++ .client 1 (.call 9 [5] 1) :: lostCall) RpcNetwork.new = some t ∧
      (t.clients 1).map RpcClient.callers = some [] ∧ t.flight = [] ∧
      t.servers = fun _ => RpcServer.new := ⟨_, rfl, rfl, rfl, rfl⟩
  obtain ⟨t₂, ht₂, hcallers₂, hflight₂, hservers₂⟩ := hsecond
  have hrun₂ := hrun₁.extend ht₂
    (hadmitted [5] hcallers₁ hflight₁ hservers₁ (by simp [lostCall, lostAttempt, Unused, begun]))
  have hlast : ∃ s, exec (RpcNetwork.step hostNine)
      (([.newClient 1] ++ .client 1 (.call 9 [5] 1) :: lostCall) ++ .client 1 (.call 9 [7] 1) ::
        exchange [.spawn, .start 0, .finish 0 [8], .send 0]) RpcNetwork.new = some s ∧
      s.created = [1, 1] ∧ s.answered = [(⟨1, 1, 9, [7]⟩, [8])] := ⟨_, rfl, rfl, rfl⟩
  obtain ⟨s, hs, hcreated, hanswered⟩ := hlast
  have hrun := hrun₂.extend hs
    (hadmitted [7] hcallers₂ hflight₂ hservers₂ (by simp [exchange, Unused, begun]))
  exact ⟨_, s, hrun, hcreated, hanswered, reused_matched hrun⟩

theorem reused_matched_fails : ∃ s : RpcNetwork ℕ,
    Run (RpcNetwork.step hostNine) anyEvent RpcNetwork.new reusedNumber s ∧
    (s.servers 9).started = [((1, 1), [5])] ∧ (s.servers 9).returned = [((1, 1), [5])] ∧
    (⟨1, 1, 9, [7]⟩, [5]) ∈ s.answered ∧ ¬ s.Ran ⟨1, 1, 9, [7]⟩ [5] := by
  have hout : (exec (RpcNetwork.step hostNine) reusedNumber RpcNetwork.new).map (fun s =>
      ((s.servers 9).started, (s.servers 9).returned, s.answered)) =
        some ([((1, 1), [5])], [((1, 1), [5])],
          [(⟨1, 1, 9, [5]⟩, [5]), (⟨1, 1, 9, [7]⟩, [5])]) := rfl
  obtain ⟨s, hs, hout⟩ := Option.map_eq_some_iff.mp hout
  obtain ⟨hstarted, hrest⟩ := Prod.mk.inj hout
  obtain ⟨hreturned, hanswered⟩ := Prod.mk.inj hrest
  refine ⟨s, run_of_exec hs, hstarted, hreturned, by simp [hanswered], ?_⟩
  rintro ⟨hran, _⟩
  simp [Call.key, hstarted] at hran

end RpcNetwork
end AgentTransport
