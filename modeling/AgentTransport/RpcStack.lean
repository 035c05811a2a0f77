import AgentTransport.RpcNumbers
import AgentTransport.Service

/-!
# RPC over the transport

The clients and the servers, each with a transport under it. A thread that sends a frame calls
`send_to`, and goes on when the transport has returned. The receive loops and the dispatchers
get what `recv` returns. A transport is there before its client is made, and it is not made
anew: one client comes to an address at most.
-/
namespace AgentTransport
open Transition

variable {Addr : Type} [DecidableEq Addr]

/-- A thread that goes on when its `send_to` has returned. The thread of a replay does not. -/
inductive Submitter (Addr : Type) where
  /-- The caller at `a` in the attempt with the channel `chan`. -/
  | caller (a : Addr) (chan : ℕ)
  /-- The worker at `host` for the request `key`. -/
  | worker (host : Addr) (key : RpcKey Addr)
  deriving DecidableEq

def Submitter.host : Submitter Addr → Addr
  | .caller a _ => a
  | .worker host _ => host

/-- The frames are on their way in the cluster: between two events the flight list of `rpc` is
empty. `submitted` says by which call of `send_to` a thread sends. -/
structure RpcStack (Addr : Type) where
  cluster : Cluster Addr
  rpc : RpcNetwork Addr
  submitted : List (Submitter Addr × MsgKey Addr)

inductive StackEvent (Addr : Type) where
  /-- A thread of a client or a server goes on, or a client comes or goes. A thread that enters
  `send_to` reads `now`. -/
  | rpc (e : RpcEvent Addr) (now : ℕ)
  /-- The receive loop or the dispatcher at `a` looks, in `recv`. -/
  | recv (a : Addr) (deadline now : ℕ)
  /-- The transports and the network go on. -/
  | transport (e : ClusterEvent Addr)

omit [DecidableEq Addr] in
/-- The events of the transports that no call from above makes. -/
def ClusterEvent.inside : ClusterEvent Addr → Bool
  | .move _ (.sendTo _ _ _) | .move _ (.recv _ _) => false
  | _ => true

/-- A frame that `recv` returns at `a`. -/
def RpcEvent.arrival (hosts : Addr → Bool) (a : Addr) (i : ℕ) : RpcEvent Addr :=
  if hosts a then .receive i else .dispatch i

/-- The events of the RPC layer by itself. -/
def RpcEvent.inside : RpcEvent Addr → Bool
  | .dispatch _ | .receive _ | .drop _ | .duplicate _ => false
  | _ => true

/-- The events of the cluster in an event, which leaves the RPC layer in `r` with the frames that
it sends. -/
def StackEvent.below (r : RpcNetwork Addr) : StackEvent Addr → List (ClusterEvent Addr)
  | .rpc _ now => r.flight.map fun d => .move d.src (.sendTo d.dest d.frame now)
  | .recv a deadline now => [.move a (.recv deadline now)]
  | .transport e => [e]

omit [DecidableEq Addr] in
/-- The event of the RPC layer, if it is one. -/
def StackEvent.rpcEvent : StackEvent Addr → Option (RpcEvent Addr)
  | .rpc e _ => some e
  | _ => none

namespace RpcStack

def new (cfg : TransportConfig) (sendTimeout : ℕ) : RpcStack Addr :=
  ⟨Cluster.new cfg sendTimeout, RpcNetwork.new, []⟩

/-- The thread that enters `send_to`. -/
def enters (s : RpcStack Addr) : RpcEvent Addr → Option (Submitter Addr)
  | .client a (.submit i) => (s.rpc.clients a).bind fun c =>
    (c.callers[i]?.bind Caller.chan).map (.caller a)
  | .server host (.send i) => (s.rpc.servers host).workers[i]?.map fun w => .worker host w.key
  | _ => none

/-- The thread that comes back from it. -/
def leaves (s : RpcStack Addr) : RpcEvent Addr → Option (Submitter Addr)
  | .client a (.sent i) | .client a (.sendTimeout i) => (s.rpc.clients a).bind fun c =>
    (c.callers[i]?.bind Caller.chan).map (.caller a)
  | .server host (.store i) => (s.rpc.servers host).workers[i]?.map fun w => .worker host w.key
  | _ => none

/-- Whether the `send_to` of a thread has returned, and whether it has returned `Ok`. -/
def result (s : RpcStack Addr) (w : Submitter Addr) : Option Bool :=
  (s.submitted.find? fun x => x.1 = w).bind fun x =>
    ((s.cluster.hosts w.host).returned.find? fun r => r.1 = x.2).map fun r => r.2.isOk

/-- A thread that is in `send_to` waits for the result. -/
def goes (s : RpcStack Addr) (e : RpcEvent Addr) : Bool :=
  match e with
  | .client _ (.sent _) => (s.leaves e).bind s.result == some true
  | .client _ (.sendTimeout _) => (s.leaves e).bind s.result == some false
  | .server _ (.store _) => ((s.leaves e).bind s.result).isSome
  | e => e.inside

/-- What an event does to the RPC layer, with the frames it sends. -/
def above (hosts : Addr → Bool) (s : RpcStack Addr) : StackEvent Addr → Option (RpcNetwork Addr)
  | .rpc e _ => if s.goes e then s.rpc.step hosts e else none
  | .recv a _ _ =>
    match (s.cluster.hosts a).state.completed with
    | [] => some s.rpc
    | (src, frame) :: _ =>
      ({ s.rpc with flight := [⟨src, a, frame⟩] } : RpcNetwork Addr).step hosts
        (RpcEvent.arrival hosts a 0)
  | .transport e => if e.inside then some s.rpc else none

/-- The calls of `send_to` that an event makes, by the thread that makes them. -/
def submissions (s : RpcStack Addr) (r : RpcNetwork Addr) :
    StackEvent Addr → List (Submitter Addr × MsgKey Addr)
  | .rpc e _ => (s.enters e).toList.flatMap fun w =>
    r.flight.map fun d => (w, (d.dest, (s.cluster.hosts d.src).msgCounter))
  | _ => []

def step (hosts : Addr → Bool) (s : RpcStack Addr) (e : StackEvent Addr) :
    Option (RpcStack Addr) :=
  (s.above hosts e).bind fun r => (exec Cluster.step (e.below r) s.cluster).map fun c =>
    ⟨c, { r with flight := [] }, s.submitted ++ s.submissions r e⟩

/-- One client at an address that makes fewer than `2 ^ 64` calls, and what a policy admits of
the transport. -/
def Admits (hosts : Addr → Bool) (p : Policy) (s : RpcStack Addr) (e : StackEvent Addr) : Prop :=
  (∀ e' ∈ e.rpcEvent, s.rpc.OneClient e') ∧
    ∀ r ∈ s.above hosts e, Admitted Cluster.step (Cluster.Admits p) (e.below r) s.cluster

instance (hosts : Addr → Bool) (p : Policy) [DecidablePred p.start]
    [∀ cfg o, DecidablePred (p.grant cfg o)] [∀ cfg o, DecidablePred (p.resend cfg o)]
    (s : RpcStack Addr) : DecidablePred (s.Admits hosts p) := fun e =>
  inferInstanceAs (Decidable ((∀ e' ∈ e.rpcEvent, s.rpc.OneClient e') ∧
    ∀ r ∈ s.above hosts e, Admitted Cluster.step (Cluster.Admits p) (e.below r) s.cluster))

end RpcStack

namespace RpcNetwork

variable {hosts : Addr → Bool} {s r : RpcNetwork Addr}

/-- What the RPC layer does by itself does not depend on the frames on their way. -/
theorem step_inside {e : RpcEvent Addr} (he : e.inside) (hidle : s.flight = [])
    (h : s.step hosts e = some r) (fl : List (RpcMessage Addr)) :
    ({ s with flight := fl } : RpcNetwork Addr).step hosts e =
      some { r with flight := fl ++ r.flight } := by
  cases e with
  | newClient a =>
    simp only [step] at h ⊢
    split_ifs at h with hfree
    obtain rfl := Option.some.inj h
    rw [if_pos hfree, hidle, List.append_nil]
  | dropClient a =>
    obtain ⟨c, hc, h⟩ := Option.bind_eq_some_iff.mp h
    split_ifs at h with hcallers
    obtain rfl := Option.some.inj h
    simp only [step, hc, Option.bind_some, if_pos hcallers, hidle, List.append_nil]
  | client a m =>
    obtain ⟨c, hc, h⟩ := Option.bind_eq_some_iff.mp h
    split_ifs at h with hhost
    obtain ⟨next, hm, rfl⟩ := Option.map_eq_some_iff.mp h
    simp only [step, hc, Option.bind_some, if_pos hhost, hm, Option.map_some, afterClient, hidle,
      List.nil_append]
  | server host m =>
    simp only [step] at h ⊢
    split_ifs at h with hhost
    obtain ⟨server, hm, rfl⟩ := Option.map_eq_some_iff.mp h
    simp only [if_pos hhost, hm, Option.map_some, hidle, List.nil_append]
  | _ => cases he

theorem oneClient_with_flight {e : RpcEvent Addr} (h : s.OneClient e)
    (fl : List (RpcMessage Addr)) : ({ s with flight := fl } : RpcNetwork Addr).OneClient e := by
  cases e with
  | client a m => cases m <;> exact h
  | _ => exact h

/-- A frame on its way may arrive, and be on its way still. -/
theorem exists_replay {d : RpcMessage Addr} {fl : List (RpcMessage Addr)} (hd : d ∈ fl)
    (h : ({ s with flight := [d] } : RpcNetwork Addr).step hosts
      (RpcEvent.arrival hosts d.dest 0) = some r) :
    ∃ evs fl', fl ⊆ fl' ∧ Run (RpcNetwork.step hosts) OneClient { s with flight := fl } evs
      { r with flight := fl' } := by
  obtain ⟨i, hi⟩ := List.mem_iff_getElem?.mp hd
  have hi' : (fl ++ [d])[i]? = some d := by
    rwa [List.getElem?_append_left (List.getElem?_eq_some_iff.mp hi).1]
  have hfirst : ({ s with flight := fl } : RpcNetwork Addr).step hosts (.duplicate i) =
      some { s with flight := fl ++ [d] } := by
    simp only [step, hi, Option.map_some]
  have hsecond : ({ s with flight := fl ++ [d] } : RpcNetwork Addr).step hosts
      (RpcEvent.arrival hosts d.dest i) = some { r with flight := (fl ++ [d]).eraseIdx i } := by
    unfold RpcEvent.arrival at h ⊢
    split_ifs at h ⊢ with hhost
    · simp only [step, List.getElem?_cons_zero, Option.bind_some, if_pos hhost] at h
      obtain ⟨server, hserver, rfl⟩ := Option.map_eq_some_iff.mp h
      simp only [step, hi', Option.bind_some, if_pos hhost, hserver, Option.map_some]
    · simp only [step, List.getElem?_cons_zero, Option.bind_some] at h
      obtain ⟨c, hc, h⟩ := Option.bind_eq_some_iff.mp h
      obtain ⟨c', hdis, rfl⟩ := Option.map_eq_some_iff.mp h
      simp only [step, hi', Option.bind_some, hc, hdis, Option.map_some]
  have hok : ∀ t : RpcNetwork Addr, t.OneClient (RpcEvent.arrival hosts d.dest i) := by
    intro t
    unfold RpcEvent.arrival
    split_ifs <;> trivial
  exact ⟨_, _, Threads.subset_eraseIdx_concat hi,
    (Run.single trivial hfirst).snoc (hok _) hsecond⟩

end RpcNetwork

namespace Cluster

variable {c c' : Cluster Addr} {a : Addr} {x : MsgKey Addr × List UInt8}

/-- Only a call of `send_to` is a call made. -/
theorem made_step {e : ClusterEvent Addr} (h : c.step e = some c') (hx : x ∈ (c'.hosts a).made) :
    x ∈ (c.hosts a).made ∨ ∃ now, e = .move a (.sendTo x.1.1 x.2 now) := by
  have hupdate : ∀ {b : Addr} {t : Inner Addr},
      x ∈ (Function.update c.hosts b t a).made →
      (x ∈ t.made → x ∈ (c.hosts b).made ∨ ∃ now, e = .move b (.sendTo x.1.1 x.2 now)) →
      x ∈ (c.hosts a).made ∨ ∃ now, e = .move a (.sendTo x.1.1 x.2 now) := by
    intro b t hmem ht
    by_cases hab : a = b
    · subst hab
      rw [Function.update_self] at hmem
      exact ht hmem
    · rw [Function.update_of_ne hab] at hmem
      exact Or.inl hmem
  cases step_spec h with
  | @move b m t' out he =>
    refine hupdate hx fun hmem => ?_
    cases he with
    | sendTo dest data now =>
      rcases List.mem_append.mp hmem with hold | hnew
      · exact Or.inl hold
      · rw [List.mem_singleton.mp hnew]
        exact Or.inr ⟨now, rfl⟩
    | _ => exact Or.inl hmem
  | arrive hd ha => exact hupdate hx fun hmem => Or.inl (by cases ha <;> exact hmem)
  | drop => exact Or.inl hx
  | duplicate => exact Or.inl hx

theorem made_run {evs : List (ClusterEvent Addr)} (h : Run Cluster.step anyEvent c evs c')
    (hx : x ∈ (c'.hosts a).made) :
    x ∈ (c.hosts a).made ∨ ∃ now, .move a (.sendTo x.1.1 x.2 now) ∈ evs := by
  induction h with
  | nil => exact Or.inl hx
  | snoc _ _ hstep ih =>
    rcases made_step hstep hx with hold | ⟨now, rfl⟩
    · exact (ih hold).imp_right fun ⟨now, hnow⟩ => ⟨now, List.mem_append_left _ hnow⟩
    · exact Or.inr ⟨now, List.mem_append_right _ (List.mem_singleton.mpr rfl)⟩

end Cluster

namespace RpcStack

variable {hosts : Addr → Bool} {cfg : TransportConfig} {sendTimeout : ℕ} {p : Policy}
  {s s' : RpcStack Addr} {n : RpcNetwork Addr} {evs : List (StackEvent Addr)}

/-- The network of the RPC layer: all frames that were ever given to `send_to` are on their way. -/
structure Follows (s : RpcStack Addr) (n : RpcNetwork Addr) : Prop where
  rpc : n = { s.rpc with flight := n.flight }
  idle : s.rpc.flight = []
  made : ∀ a b id frame, ((b, id), frame) ∈ (s.cluster.hosts a).made → ⟨a, b, frame⟩ ∈ n.flight

/-- A frame that `recv` is going to return was given to `send_to` where it comes from. -/
theorem exists_made (hp : p.KeepsWhole cfg) {c : Cluster Addr} {evs : List (ClusterEvent Addr)}
    (h : Run Cluster.step (Cluster.Admits p) (Cluster.new cfg sendTimeout) evs c) {a src : Addr}
    {frame : List UInt8} (hmem : (src, frame) ∈ (c.hosts a).state.completed) :
    ∃ id, ((a, id), frame) ∈ (c.hosts src).made := by
  have hall := List.mem_append_right (c.hosts a).received hmem
  rw [Cluster.handsOver h a] at hall
  obtain ⟨⟨⟨src', id⟩, data⟩, hdel, heq⟩ := List.mem_map.mp hall
  obtain ⟨rfl, rfl⟩ := Prod.mk.inj heq
  obtain ⟨evs', n, hrun, hexplains⟩ := Cluster.explained h a
  exact ⟨id, hexplains.made (fun _ _ => Network.started_of_delivered hp hrun) hdel⟩

/-- What an event does to the cluster. -/
theorem run_below {e : StackEvent Addr} (hok : s.Admits hosts p e) (h : s.step hosts e = some s') :
    ∃ r, s.above hosts e = some r ∧ s'.rpc = { r with flight := [] } ∧
      Run Cluster.step (Cluster.Admits p) s.cluster (e.below r) s'.cluster := by
  obtain ⟨r, hr, h⟩ := Option.bind_eq_some_iff.mp h
  obtain ⟨c, hc, rfl⟩ := Option.map_eq_some_iff.mp h
  exact ⟨r, hr, rfl, run_of_admitted hc (hok.2 r hr)⟩

/-- Every event of the stack is a run of the RPC network. -/
theorem Follows.step (h : Follows s n) (hp : p.KeepsWhole cfg) {evs : List (ClusterEvent Addr)}
    (hrun : Run Cluster.step (Cluster.Admits p) (Cluster.new cfg sendTimeout) evs s.cluster)
    {e : StackEvent Addr} (hok : s.Admits hosts p e) (hstep : s.step hosts e = some s') :
    ∃ evs' n', Run (RpcNetwork.step hosts) RpcNetwork.OneClient n evs' n' ∧ Follows s' n' := by
  obtain ⟨r, habove, hrpc, hbelow⟩ := run_below hok hstep
  have hmade : ∀ {a b : Addr} {id : UInt64} {frame : List UInt8},
      ((b, id), frame) ∈ (s'.cluster.hosts a).made → ⟨a, b, frame⟩ ∈ n.flight ∨
        ∃ now, .move a (.sendTo b frame now) ∈ e.below r := by
    intro a b id frame hmem
    exact (Cluster.made_run (hbelow.weaken fun _ _ _ => trivial) hmem).imp_left
      (h.made a b id frame)
  cases e with
  | rpc e now =>
    simp only [above] at habove
    split_ifs at habove with hgoes
    have hinside : e.inside := by
      unfold goes at hgoes
      split at hgoes <;> first | rfl | exact hgoes
    have hrun := RpcNetwork.step_inside hinside h.idle habove n.flight
    have hone := RpcNetwork.oneClient_with_flight (hok.1 e rfl) n.flight
    rw [← h.rpc] at hrun hone
    refine ⟨[e], _, Run.single hone hrun, ⟨by rw [hrpc], by rw [hrpc], ?_⟩⟩
    intro a b id frame hmem
    rcases hmade hmem with hold | ⟨now', hnew⟩
    · exact List.mem_append_left _ hold
    · obtain ⟨d, hd, heq⟩ := List.mem_map.mp hnew
      obtain ⟨rfl, hsend⟩ := ClusterEvent.move.inj heq
      obtain ⟨rfl, rfl, -⟩ := Move.sendTo.inj hsend
      exact List.mem_append_right _ hd
  | recv a deadline now =>
    have hsame : ∀ {a' b : Addr} {id : UInt64} {frame : List UInt8},
        ((b, id), frame) ∈ (s'.cluster.hosts a').made → ⟨a', b, frame⟩ ∈ n.flight := by
      intro a' b id frame hmem
      rcases hmade hmem with hold | ⟨now', hnew⟩
      · exact hold
      · cases List.mem_singleton.mp hnew
    simp only [above] at habove
    split at habove
    · obtain rfl := Option.some.inj habove
      exact ⟨[], n, Run.nil, ⟨by rw [hrpc]; exact h.rpc, by rw [hrpc], fun _ _ _ _ => hsame⟩⟩
    · next src frame rest hcompleted =>
      -- the frame is still on its way in the network
      obtain ⟨id, hsent⟩ := exists_made hp hrun
        (hcompleted ▸ List.mem_cons_self : (src, frame) ∈ (s.cluster.hosts a).state.completed)
      obtain ⟨evs', fl', hsub, hreplay⟩ :=
        RpcNetwork.exists_replay (h.made src a id frame hsent) habove
      rw [← h.rpc] at hreplay
      exact ⟨evs', _, hreplay, ⟨by rw [hrpc], by rw [hrpc], fun _ _ _ _ hmem => hsub (hsame hmem)⟩⟩
  | transport e =>
    simp only [above] at habove
    split_ifs at habove with hinside
    obtain rfl := Option.some.inj habove
    refine ⟨[], n, Run.nil, ⟨by rw [hrpc]; exact h.rpc, by rw [hrpc], ?_⟩⟩
    intro a b id frame hmem
    rcases hmade hmem with hold | ⟨now, hnew⟩
    · exact hold
    · rw [← List.mem_singleton.mp hnew] at hinside
      cases hinside

variable (hosts cfg sendTimeout) in
theorem simulates (hp : p.KeepsWhole cfg) :
    Simulates (RpcStack.step hosts) (RpcStack.Admits hosts p) (RpcNetwork.step hosts)
      RpcNetwork.OneClient fun s n => (∃ evs, Run Cluster.step (Cluster.Admits p)
        (Cluster.new cfg sendTimeout) evs s.cluster) ∧ Follows s n := by
  refine Simulates.of_invariant ?_ ?_
  · rintro s e s' ⟨evs, hrun⟩ hok hstep
    obtain ⟨r, -, -, hbelow⟩ := run_below hok hstep
    exact ⟨_, hrun.append hbelow⟩
  · rintro s e s' n ⟨evs, hrun⟩ hfollows hok hstep
    exact hfollows.step hp hrun hok hstep

/-- The client at 1 calls the server at 9, and is answered. Both have the default parameters. -/
def phoneCall : List (StackEvent ℕ) :=
  [.rpc (.newClient 1) 0, .rpc (.client 1 (.call 9 [5] 2)) 0, .rpc (.client 1 (.register 0)) 0,
    .rpc (.client 1 (.submit 0)) 0, .transport (.move 1 (.start 0)),
    .transport (.move 1 (.dispatch 0)), .transport (.arrive 0 0),
    .transport (.move 9 (.handle default)), .recv 9 0 0, .rpc (.server 9 .spawn) 0,
    .rpc (.server 9 (.start 0)) 0, .rpc (.server 9 (.finish 0 [6])) 0, .rpc (.server 9 (.send 0)) 0,
    .transport (.move 9 (.start 0)), .transport (.move 9 (.dispatch 0)),
    .transport (.move 9 (.poll 0 0)), .rpc (.server 9 (.store 0)) 0, .transport (.arrive 0 0),
    .transport (.move 1 (.handle default)), .recv 1 0 0, .transport (.move 1 (.poll 0 0)),
    .rpc (.client 1 (.sent 0)) 0, .rpc (.client 1 .hand) 0, .rpc (.client 1 (.take 0 0)) 0]

instance (cfg : TransportConfig) : DecidablePred (Policy.short cfg).start := fun data =>
  inferInstanceAs (Decidable ((data ≠ [] ∧ data.length < 2 ^ 32) ∧
    data.length ≤ cfg.unscheduledBytes))

instance (cfg cfg' : TransportConfig) (o : OutMsg) :
    DecidablePred ((Policy.short cfg).grant cfg' o) := fun _ => inferInstanceAs (Decidable True)

instance (cfg cfg' : TransportConfig) (o : OutMsg) :
    DecidablePred ((Policy.short cfg).resend cfg' o) := fun _ => inferInstanceAs (Decidable True)

theorem phoneCall_run : ∃ s : RpcStack ℕ,
    Run (RpcStack.step RpcNetwork.hostNine) (RpcStack.Admits RpcNetwork.hostNine
      (Policy.short default)) (RpcStack.new default defaultSendTimeout) phoneCall s ∧
    s.rpc.answered = [(⟨1, 1, 9, [5]⟩, [6])] := by
  have hout : (exec (guarded (RpcStack.step RpcNetwork.hostNine) (RpcStack.Admits
      RpcNetwork.hostNine (Policy.short default))) phoneCall
      (RpcStack.new default defaultSendTimeout)).map (fun s => s.rpc.answered) =
        some [(⟨1, 1, 9, [5]⟩, [6])] := rfl
  obtain ⟨s, hexec, hanswered⟩ := Option.map_eq_some_iff.mp hout
  exact ⟨s, run_of_guarded hexec, hanswered⟩

/-- Every run of the stack is a run of the RPC network, as long as the fragments of the transport
stay whole. -/
theorem follows_of_run (hp : p.KeepsWhole cfg)
    (h : Run (RpcStack.step hosts) (RpcStack.Admits hosts p) (RpcStack.new cfg sendTimeout) evs s) :
    ∃ evs' n, Run (RpcNetwork.step hosts) RpcNetwork.OneClient RpcNetwork.new evs' n ∧
      Follows s n := by
  have hnew : Follows (RpcStack.new cfg sendTimeout : RpcStack Addr) RpcNetwork.new :=
    ⟨rfl, rfl, fun _ _ _ _ hmem => by cases hmem⟩
  obtain ⟨evs', n, hrun, -, hfollows⟩ :=
    (simulates hosts cfg sendTimeout hp).run h ⟨⟨[], Run.nil⟩, hnew⟩
  exact ⟨evs', n, hrun, hfollows⟩

/-- For the clients and the servers the transport is a network that may lose, duplicate and delay
whole frames, and makes none up. All frames that were given to `send_to` are in it. -/
theorem refines_rpc (hp : p.KeepsWhole cfg)
    (h : Run (RpcStack.step hosts) (RpcStack.Admits hosts p) (RpcStack.new cfg sendTimeout) evs s) :
    ∃ evs' n, Run (RpcNetwork.step hosts) RpcNetwork.OneClient RpcNetwork.new evs' n ∧
      n = { s.rpc with flight := n.flight } ∧
      ∀ a b id frame, ((b, id), frame) ∈ (s.cluster.hosts a).made → ⟨a, b, frame⟩ ∈ n.flight := by
  obtain ⟨evs', n, hrun, hfollows⟩ := follows_of_run hp h
  exact ⟨evs', n, hrun, hfollows.rpc, hfollows.made⟩

/-- The network of the RPC layer has answered the call of `phoneCall` too. -/
theorem refines_rpc_phoneCall : ∃ (s : RpcStack ℕ) (evs : List (RpcEvent ℕ))
    (n : RpcNetwork ℕ), s.rpc.answered = [(⟨1, 1, 9, [5]⟩, [6])] ∧
    Run (RpcNetwork.step RpcNetwork.hostNine) RpcNetwork.OneClient RpcNetwork.new evs n ∧
    n = { s.rpc with flight := n.flight } ∧
    ∀ a b id frame, ((b, id), frame) ∈ (s.cluster.hosts a).made → ⟨a, b, frame⟩ ∈ n.flight := by
  obtain ⟨s, hrun, hanswered⟩ := phoneCall_run
  obtain ⟨evs, n, hrefined⟩ := refines_rpc .short hrun
  exact ⟨s, evs, n, hanswered, hrefined⟩

/-- So the answers are right from end to end: no two calls have a key in common, a handler runs
at most once for a key, and what a call returns is the value of the run on its own payload. -/
theorem answers_matched (hp : p.KeepsWhole cfg)
    (h : Run (RpcStack.step hosts) (RpcStack.Admits hosts p) (RpcStack.new cfg sendTimeout) evs s) :
    (s.rpc.calls.map Call.key).Nodup ∧
    (∀ host, ((s.rpc.servers host).started.map Prod.fst).Nodup ∧
      ((s.rpc.servers host).returned.map Prod.fst).Nodup) ∧
    ∀ x ∈ s.rpc.answered, x.1 ∈ s.rpc.calls ∧ s.rpc.Ran x.1 x.2 := by
  obtain ⟨evs', n, hrun, hsame, -, -⟩ := follows_of_run hp h
  obtain ⟨hissued, hsound⟩ := RpcNetwork.issued_of_run hrun
  have hcalls : s.rpc.calls = n.calls := by rw [hsame]
  have hservers : s.rpc.servers = n.servers := by rw [hsame]
  have hanswered : s.rpc.answered = n.answered := by rw [hsame]
  rw [hcalls, hservers, hanswered]
  refine ⟨hissued.nodup, fun host => ?_, fun x hx => ?_⟩
  · exact ⟨(hsound.servers host).started_nodup, (hsound.servers host).returned_nodup⟩
  · obtain ⟨hcall, hran⟩ := hsound.answered x hx
    refine ⟨hcall, ?_⟩
    rw [RpcNetwork.Ran, hservers]
    exact hran

theorem answers_matched_phoneCall : ∃ s : RpcStack ℕ,
    s.rpc.answered = [(⟨1, 1, 9, [5]⟩, [6])] ∧
    (s.rpc.calls.map Call.key).Nodup ∧
    (∀ host, ((s.rpc.servers host).started.map Prod.fst).Nodup ∧
      ((s.rpc.servers host).returned.map Prod.fst).Nodup) ∧
    ∀ x ∈ s.rpc.answered, x.1 ∈ s.rpc.calls ∧ s.rpc.Ran x.1 x.2 := by
  obtain ⟨s, hrun, hanswered⟩ := phoneCall_run
  exact ⟨s, hanswered, answers_matched .short hrun⟩

end RpcStack
end AgentTransport
