import AgentTransport.RpcServer
import AgentTransport.RpcClient
import Mathlib.Logic.Function.Basic

/-!
# Clients and servers

The addresses in `hosts` run servers, and clients come and go at the other addresses:
a client can only be dropped when no call borrows it, and a socket address is free again
after that. The transport may lose, duplicate and delay whole frames in any order.

`created`, `calls` and `answered` are histories: the addresses clients were made at,
the calls, and the calls that returned `Ok` with what they returned.
-/
namespace AgentTransport
open ByteString Transition

variable {Addr : Type} [DecidableEq Addr]

/-- A frame on its way. -/
structure RpcMessage (Addr : Type) where
  src : Addr
  dest : Addr
  frame : List UInt8
  deriving DecidableEq

structure Call (Addr : Type) where
  client : Addr
  rpcId : UInt64
  server : Addr
  payload : List UInt8
  deriving DecidableEq

/-- What the server knows a call by. -/
def Call.key (c : Call Addr) : RpcKey Addr := (c.client, c.rpcId)

/-- The call that a caller at `a` runs. -/
def Caller.call (a : Addr) (c : Caller Addr) : Call Addr := ⟨a, c.rpcId, c.server, c.payload⟩

structure RpcNetwork (Addr : Type) where
  clients : Addr → Option (RpcClient Addr)
  servers : Addr → RpcServer Addr
  flight : List (RpcMessage Addr)
  created : List Addr
  calls : List (Call Addr)
  answered : List (Call Addr × List UInt8)

inductive RpcEvent (Addr : Type) where
  | newClient (a : Addr)
  | dropClient (a : Addr)
  | client (a : Addr) (m : ClientMove Addr)
  | server (host : Addr) (m : ServerMove)
  /-- The dispatcher at its destination gets the frame at place `i` of the flight list. -/
  | dispatch (i : ℕ)
  /-- The receive loop at its destination gets the frame at place `i`. -/
  | receive (i : ℕ)
  | drop (i : ℕ)
  | duplicate (i : ℕ)

/-- Calls are made to servers. -/
def ClientMove.toHost (hosts : Addr → Bool) : ClientMove Addr → Bool
  | .call server _ _ => hosts server
  | _ => true

/-- The frames that the actions of the client at `a` put on the network. -/
def messages (a : Addr) (acts : List (ClientAction Addr)) : List (RpcMessage Addr) :=
  acts.filterMap fun
    | .send dest frame => some ⟨a, dest, frame⟩
    | _ => none

/-- The calls of the client at `a` that return `Ok`. -/
def answers (a : Addr) (acts : List (ClientAction Addr)) : List (Call Addr × List UInt8) :=
  acts.filterMap fun
    | .ok c body => some (c.call a, body)
    | _ => none

/-- The call that a move of the client `c` at `a` begins. -/
def begun (a : Addr) (c : RpcClient Addr) : ClientMove Addr → List (Call Addr)
  | .call server payload _ => [⟨a, c.nextId, server, payload⟩]
  | _ => []

namespace RpcNetwork

def new : RpcNetwork Addr := ⟨fun _ => none, fun _ => RpcServer.new, [], [], [], []⟩

/-- The state after the client `c` at `a` has moved. -/
def afterClient (s : RpcNetwork Addr) (a : Addr) (c c' : RpcClient Addr) (m : ClientMove Addr)
    (acts : List (ClientAction Addr)) : RpcNetwork Addr :=
  { s with
    clients := Function.update s.clients a (some c')
    flight := s.flight ++ messages a acts
    calls := s.calls ++ begun a c m
    answered := s.answered ++ answers a acts }

def step (hosts : Addr → Bool) (s : RpcNetwork Addr) : RpcEvent Addr → Option (RpcNetwork Addr)
  | .newClient a =>
    if hosts a = false ∧ (s.clients a).isNone then
      some { s with
        clients := Function.update s.clients a (some RpcClient.new)
        created := s.created ++ [a] }
    else none
  | .dropClient a => (s.clients a).bind fun c =>
    if c.callers = [] then some { s with clients := Function.update s.clients a none } else none
  | .client a m => (s.clients a).bind fun c =>
    if m.toHost hosts then (c.move m).map fun next => s.afterClient a c next.1 m next.2 else none
  | .server host m =>
    if hosts host then
      ((s.servers host).move m).map fun server =>
        { s with
          servers := Function.update s.servers host server
          flight := s.flight ++
            ((s.servers host).outgoing m).map fun out => ⟨host, out.1, out.2⟩ }
    else none
  | .dispatch i => s.flight[i]?.bind fun d => (s.clients d.dest).bind fun c =>
    (c.dispatch d.frame).map fun c' =>
      { s with
        clients := Function.update s.clients d.dest (some c')
        flight := s.flight.eraseIdx i }
  | .receive i => s.flight[i]?.bind fun d =>
    if hosts d.dest then
      ((s.servers d.dest).step (.receive d.src d.frame)).map fun server =>
        { s with
          servers := Function.update s.servers d.dest server
          flight := s.flight.eraseIdx i }
    else none
  | .drop i =>
    if i < s.flight.length then some { s with flight := s.flight.eraseIdx i } else none
  | .duplicate i => s.flight[i]?.map fun d => { s with flight := s.flight ++ [d] }

/-- What an event does to a network. -/
inductive Effect (hosts : Addr → Bool) (s : RpcNetwork Addr) :
    RpcEvent Addr → RpcNetwork Addr → Prop
  | newClient {a : Addr} (hhost : hosts a = false) (hfree : s.clients a = none) :
      Effect hosts s (.newClient a) { s with
        clients := Function.update s.clients a (some RpcClient.new)
        created := s.created ++ [a] }
  | dropClient {a : Addr} {c : RpcClient Addr} (hc : s.clients a = some c)
      (hidle : c.callers = []) :
      Effect hosts s (.dropClient a) { s with clients := Function.update s.clients a none }
  | client {a : Addr} {c c' : RpcClient Addr} {m : ClientMove Addr}
      {acts : List (ClientAction Addr)} (hc : s.clients a = some c) (hhost : m.toHost hosts)
      (hm : RpcClient.Moved c m c' acts) :
      Effect hosts s (.client a m) (s.afterClient a c c' m acts)
  | server {host : Addr} {m : ServerMove} {server : RpcServer Addr} (hhost : hosts host)
      (hm : RpcServer.Moved (s.servers host) m server) :
      Effect hosts s (.server host m) { s with
        servers := Function.update s.servers host server
        flight := s.flight ++ ((s.servers host).outgoing m).map fun out => ⟨host, out.1, out.2⟩ }
  | dispatch {i : ℕ} {d : RpcMessage Addr} {c c' : RpcClient Addr} (hd : s.flight[i]? = some d)
      (hc : s.clients d.dest = some c) (hfree : c.dispatching = none)
      (hdis : RpcClient.Dispatched c d.frame c') :
      Effect hosts s (.dispatch i) { s with
        clients := Function.update s.clients d.dest (some c')
        flight := s.flight.eraseIdx i }
  | receive {i : ℕ} {d : RpcMessage Addr} {server : RpcServer Addr} (hd : s.flight[i]? = some d)
      (hhost : hosts d.dest) (hloop : (s.servers d.dest).loop = .receiving)
      (hr : RpcServer.Received (s.servers d.dest) d.src d.frame server) :
      Effect hosts s (.receive i) { s with
        servers := Function.update s.servers d.dest server
        flight := s.flight.eraseIdx i }
  | drop {i : ℕ} : Effect hosts s (.drop i) { s with flight := s.flight.eraseIdx i }
  | duplicate {i : ℕ} {d : RpcMessage Addr} (hd : s.flight[i]? = some d) :
      Effect hosts s (.duplicate i) { s with flight := s.flight ++ [d] }

theorem step_spec {hosts : Addr → Bool} {s s' : RpcNetwork Addr} {e : RpcEvent Addr}
    (h : s.step hosts e = some s') : Effect hosts s e s' := by
  cases e with
  | newClient a =>
    simp only [step] at h
    split_ifs at h with hfree
    obtain rfl := Option.some.inj h
    exact .newClient hfree.1 (Option.isNone_iff_eq_none.mp hfree.2)
  | dropClient a =>
    obtain ⟨c, hc, h⟩ := Option.bind_eq_some_iff.mp h
    split_ifs at h with hidle
    obtain rfl := Option.some.inj h
    exact .dropClient hc hidle
  | client a m =>
    obtain ⟨c, hc, h⟩ := Option.bind_eq_some_iff.mp h
    split_ifs at h with hhost
    obtain ⟨⟨c', acts⟩, hm, rfl⟩ := Option.map_eq_some_iff.mp h
    exact .client hc hhost (RpcClient.move_spec hm)
  | server host m =>
    simp only [step] at h
    split_ifs at h with hhost
    obtain ⟨server, hm, rfl⟩ := Option.map_eq_some_iff.mp h
    exact .server hhost (RpcServer.move_spec hm)
  | dispatch i =>
    obtain ⟨d, hd, h⟩ := Option.bind_eq_some_iff.mp h
    obtain ⟨c, hc, h⟩ := Option.bind_eq_some_iff.mp h
    obtain ⟨c', hdis, rfl⟩ := Option.map_eq_some_iff.mp h
    obtain ⟨hfree, hspec⟩ := RpcClient.dispatch_spec hdis
    exact .dispatch hd hc hfree hspec
  | receive i =>
    obtain ⟨d, hd, h⟩ := Option.bind_eq_some_iff.mp h
    split_ifs at h with hhost
    obtain ⟨server, hs, rfl⟩ := Option.map_eq_some_iff.mp h
    obtain ⟨hloop, hr⟩ := RpcServer.step_received hs
    exact .receive hd hhost hloop hr
  | drop i =>
    simp only [step] at h
    split_ifs at h
    obtain rfl := Option.some.inj h
    exact .drop
  | duplicate i =>
    obtain ⟨d, hd, rfl⟩ := Option.map_eq_some_iff.mp h
    exact .duplicate hd

/-- A step of the network is at most one step of each server. -/
theorem step_servers {hosts : Addr → Bool} {s s' : RpcNetwork Addr} {e : RpcEvent Addr}
    (h : s.step hosts e = some s') (host : Addr) :
    s'.servers host = s.servers host ∨ ∃ e', (s.servers host).step e' = some (s'.servers host) := by
  have hone : ∀ (e' : ServerEvent Addr) {host' : Addr} {server : RpcServer Addr},
      (s.servers host').step e' = some server →
        s'.servers = Function.update s.servers host' server →
        s'.servers host = s.servers host ∨
          ∃ e', (s.servers host).step e' = some (s'.servers host) := by
    intro e' host' server hserver hupdate
    rw [hupdate]
    by_cases heq : host = host'
    · subst heq
      rw [Function.update_self]
      exact Or.inr ⟨e', hserver⟩
    · rw [Function.update_of_ne heq]
      exact Or.inl rfl
  cases e with
  | server host' m =>
    simp only [step] at h
    split_ifs at h
    obtain ⟨server, hm, rfl⟩ := Option.map_eq_some_iff.mp h
    exact hone (.move m) hm rfl
  | receive i =>
    obtain ⟨d, hd, h⟩ := Option.bind_eq_some_iff.mp h
    split_ifs at h
    obtain ⟨server, hs, rfl⟩ := Option.map_eq_some_iff.mp h
    exact hone (.receive d.src d.frame) hs rfl
  | newClient a =>
    simp only [step] at h
    split_ifs at h
    obtain rfl := Option.some.inj h
    exact Or.inl rfl
  | dropClient a =>
    obtain ⟨c, hc, h⟩ := Option.bind_eq_some_iff.mp h
    split_ifs at h
    obtain rfl := Option.some.inj h
    exact Or.inl rfl
  | client a m =>
    obtain ⟨c, hc, h⟩ := Option.bind_eq_some_iff.mp h
    split_ifs at h
    obtain ⟨next, hm, rfl⟩ := Option.map_eq_some_iff.mp h
    exact Or.inl rfl
  | dispatch i =>
    obtain ⟨d, hd, h⟩ := Option.bind_eq_some_iff.mp h
    obtain ⟨c, hc, h⟩ := Option.bind_eq_some_iff.mp h
    obtain ⟨c', hdis, rfl⟩ := Option.map_eq_some_iff.mp h
    exact Or.inl rfl
  | drop i =>
    simp only [step] at h
    split_ifs at h
    obtain rfl := Option.some.inj h
    exact Or.inl rfl
  | duplicate i =>
    obtain ⟨d, hd, rfl⟩ := Option.map_eq_some_iff.mp h
    exact Or.inl rfl

/-- Each server of the network has gone through a run of its own. -/
theorem server_run {hosts : Addr → Bool} {ok : RpcNetwork Addr → RpcEvent Addr → Prop}
    {s : RpcNetwork Addr} {evs : List (RpcEvent Addr)}
    (h : Run (RpcNetwork.step hosts) ok RpcNetwork.new evs s) (host : Addr) :
    ∃ evs', Run RpcServer.step anyEvent RpcServer.new evs' (s.servers host) := by
  induction h with
  | nil => exact ⟨[], Run.nil⟩
  | snoc _ _ hstep ih =>
    obtain ⟨evs', hrun⟩ := ih
    rcases step_servers hstep host with hsame | ⟨e', hserver⟩
    · rw [hsame]
      exact ⟨evs', hrun⟩
    · exact ⟨evs' ++ [e'], hrun.snoc trivial hserver⟩

end RpcNetwork
end AgentTransport
