import AgentTransport.RpcWaiters

/-!
# The retry loop of a call

A call makes up to `max_attempts` attempts, all with one frame. It goes on after an attempt
without a response, but an attempt that the transport gives up on ends the call at once. So
the call keeps its promise exactly if no attempt but the last is given up on.

However many calls run on a client at once, and whatever the dispatcher does, every call that
returns has run this loop over the outcomes of its attempts.
-/
namespace AgentTransport
open Transition

/-- How an attempt ends. -/
inductive Attempt where
  /-- `send_to` times out. -/
  | sendTimeout
  | noResponse
  | response (body : List UInt8)
  deriving DecidableEq

/-- What a call returns. -/
inductive CallResult where
  | ok (body : List UInt8)
  /-- `homa send_to timeout` -/
  | sendTimedOut
  /-- `rpc {rpc_id} timeout after {max_attempts} attempts` -/
  | timedOut (rpcId : UInt64) (maxAttempts : ℕ)
  deriving DecidableEq

namespace Attempt

/-- The loop of `call_with_timeout` with `left` passes to go, and the frames it submits. -/
def loop (frame : List UInt8) (failure : CallResult) (outcome : ℕ → Attempt) :
    ℕ → ℕ → List (List UInt8) × CallResult
  | 0, _ => ([], failure)
  | left + 1, n =>
    match outcome n with
    | .sendTimeout => ([frame], .sendTimedOut)
    | .response body => ([frame], .ok body)
    | .noResponse =>
      let rest := loop frame failure outcome left (n + 1)
      (frame :: rest.1, rest.2)

/-- `call_with_timeout`, where attempt `n` ends with `outcome n`. -/
def callWithTimeout (rpcId : UInt64) (payload : List UInt8) (maxAttempts : ℕ)
    (outcome : ℕ → Attempt) : List (List UInt8) × CallResult :=
  loop (encodeFrame rpcId payload) (.timedOut rpcId maxAttempts) outcome (max maxAttempts 1) 0

/-- What is promised of `attempts` attempts. -/
structure Law (frame : List UInt8) (attempts : ℕ) (outcome : ℕ → Attempt)
    (done : List (List UInt8) × CallResult) : Prop where
  frames : ∀ f ∈ done.1, f = frame
  /-- The call ends with the first attempt that gets a response. -/
  returns : ∀ k < attempts, ∀ body, outcome k = .response body →
    (∀ j < k, ∀ b, outcome j ≠ .response b) → done.2 = .ok body ∧ done.1.length = k + 1
  /-- It fails only if all attempts have failed. -/
  fails : (∀ k < attempts, ∀ body, outcome k ≠ .response body) →
    (∀ body, done.2 ≠ .ok body) ∧ done.1.length = attempts

section Loop

variable {frame : List UInt8} {failure : CallResult} {outcome : ℕ → Attempt}

/-- Attempts without a response lead on to the next one. -/
theorem loop_noResponse {k : ℕ} (left n : ℕ) (h : ∀ j < k, outcome (n + j) = .noResponse) :
    loop frame failure outcome (k + left) n =
      (List.replicate k frame ++ (loop frame failure outcome left (n + k)).1,
        (loop frame failure outcome left (n + k)).2) := by
  induction k generalizing n with
  | zero => simp
  | succ k ih =>
    have hnow : outcome n = .noResponse := h 0 (Nat.succ_pos k)
    have hrest := ih (n + 1) fun j hj => by
      rw [Nat.add_assoc, Nat.add_comm 1 j]
      exact h (j + 1) (Nat.succ_lt_succ hj)
    rw [Nat.add_right_comm, loop, hnow]
    dsimp only
    rw [hrest, Nat.add_assoc n 1 k, Nat.add_comm 1 k]
    rfl

/-- How the loop ends: with the first attempt that is not left without a response, or
without one. -/
theorem loop_cases (frame : List UInt8) (failure : CallResult) (outcome : ℕ → Attempt)
    (attempts : ℕ) :
    ((∀ j < attempts, outcome j = .noResponse) ∧
      loop frame failure outcome attempts 0 = (List.replicate attempts frame, failure)) ∨
    ∃ k < attempts, (∀ j < k, outcome j = .noResponse) ∧
      ((outcome k = .sendTimeout ∧ loop frame failure outcome attempts 0 =
          (List.replicate (k + 1) frame, .sendTimedOut)) ∨
        ∃ body, outcome k = .response body ∧ loop frame failure outcome attempts 0 =
          (List.replicate (k + 1) frame, .ok body)) := by
  by_cases hall : ∀ j < attempts, outcome j = .noResponse
  · left
    have hloop : loop frame failure outcome (attempts + 0) 0 = _ :=
      loop_noResponse 0 0 fun j hj => by rw [Nat.zero_add]; exact hall j hj
    refine ⟨hall, hloop.trans ?_⟩
    rw [loop, List.append_nil]
  · right
    have hex : ∃ k, k < attempts ∧ outcome k ≠ .noResponse := by
      by_contra hnone
      exact hall fun j hj => by_contra fun hne => hnone ⟨j, hj, hne⟩
    obtain ⟨hlt, hne⟩ := Nat.find_spec hex
    have hbefore : ∀ j < Nat.find hex, outcome j = .noResponse := fun j hj =>
      by_contra fun hj' => Nat.find_min hex hj ⟨hj.trans hlt, hj'⟩
    generalize Nat.find hex = k at hlt hne hbefore
    refine ⟨k, hlt, hbefore, ?_⟩
    have hloop : loop frame failure outcome (k + (attempts - k)) 0 = _ :=
      loop_noResponse (attempts - k) 0 fun j hj => by rw [Nat.zero_add]; exact hbefore j hj
    rw [Nat.add_sub_cancel' hlt.le, Nat.zero_add, show attempts - k = attempts - k - 1 + 1 by omega,
      loop] at hloop
    rw [List.replicate_succ']
    cases hk : outcome k with
    | noResponse => exact absurd hk hne
    | sendTimeout =>
      rw [hk] at hloop
      exact Or.inl ⟨rfl, hloop⟩
    | response body =>
      rw [hk] at hloop
      exact Or.inr ⟨body, rfl, hloop⟩

end Loop

section Endings

variable {frame : List UInt8} {outcome : ℕ → Attempt} {attempts k : ℕ}

/-- A call that uses up its attempts without a response keeps its promise. -/
theorem law_exhausted {failure : CallResult} (hfailure : ∀ body, failure ≠ .ok body)
    (hall : ∀ j < attempts, outcome j = .noResponse) :
    Law frame attempts outcome (List.replicate attempts frame, failure) where
  frames f hf := List.eq_of_mem_replicate hf
  returns j hj body hres := by
    rw [hall j hj] at hres
    cases hres
  fails _ := ⟨hfailure, List.length_replicate⟩

/-- A call that ends with its first response keeps its promise. -/
theorem law_response {body : List UInt8} (hk : k < attempts)
    (hbefore : ∀ j < k, outcome j = .noResponse) (hout : outcome k = .response body) :
    Law frame attempts outcome (List.replicate (k + 1) frame, .ok body) where
  frames f hf := List.eq_of_mem_replicate hf
  returns j hj b hres hfirst := by
    have hjk : j = k := by
      rcases Nat.lt_trichotomy j k with hlt | heq | hgt
      · rw [hbefore j hlt] at hres
        cases hres
      · exact heq
      · exact absurd hout (hfirst k hgt body)
    subst hjk
    obtain rfl := response.inj (hout.symm.trans hres)
    exact ⟨rfl, List.length_replicate⟩
  fails hnone := absurd hout (hnone k hk body)

/-- A call that ends because the transport gives up keeps its promise only at the last attempt. -/
theorem law_sendTimeout_iff (hk : k < attempts) (hbefore : ∀ j < k, outcome j = .noResponse)
    (hout : outcome k = .sendTimeout) :
    Law frame attempts outcome (List.replicate (k + 1) frame, .sendTimedOut) ↔ k + 1 = attempts := by
  constructor
  · intro hlaw
    by_cases hnone : ∀ j < attempts, ∀ b, outcome j ≠ .response b
    · rw [← (hlaw.fails hnone).2, List.length_replicate]
    · -- a later attempt would have got a response
      classical
      have hex : ∃ j, j < attempts ∧ ∃ b, outcome j = .response b := by
        by_contra hno
        exact hnone fun j hj b hb => hno ⟨j, hj, b, hb⟩
      obtain ⟨hj, b, hb⟩ := Nat.find_spec hex
      have hfirst : ∀ i < Nat.find hex, ∀ b, outcome i ≠ .response b := fun i hi b hib =>
        Nat.find_min hex hi ⟨hi.trans hj, b, hib⟩
      cases (hlaw.returns _ hj b hb hfirst).1
  · rintro rfl
    refine ⟨fun f hf => List.eq_of_mem_replicate hf, fun j hj b hres _ => ?_, fun _ => ?_⟩
    · rcases Nat.lt_or_eq_of_le (Nat.le_of_lt_succ hj) with hlt | rfl
      · rw [hbefore j hlt] at hres
        cases hres
      · rw [hout] at hres
        cases hres
    · exact ⟨fun b hok => (by cases hok), List.length_replicate⟩

end Endings

/-- A call keeps its promise exactly if the transport gives up on no attempt before the last
one, unless a response came first. -/
theorem law_iff (rpcId : UInt64) (payload : List UInt8) (maxAttempts : ℕ) (outcome : ℕ → Attempt) :
    Law (encodeFrame rpcId payload) (max maxAttempts 1) outcome
        (callWithTimeout rpcId payload maxAttempts outcome) ↔
      ∀ k, k + 1 < max maxAttempts 1 → outcome k = .sendTimeout →
        ∃ j < k, ∃ body, outcome j = .response body := by
  unfold callWithTimeout
  generalize encodeFrame rpcId payload = frame
  generalize max maxAttempts 1 = attempts
  rcases loop_cases frame (.timedOut rpcId maxAttempts) outcome attempts with
    ⟨hall, hdone⟩ | ⟨k, hk, hbefore, ⟨hout, hdone⟩ | ⟨body, hout, hdone⟩⟩ <;> rw [hdone]
  · refine iff_of_true (law_exhausted (fun _ => CallResult.noConfusion) hall) fun j hj hres => ?_
    rw [hall j (by omega)] at hres
    cases hres
  · -- the transport gave up on attempt `k`, and nothing came before
    rw [law_sendTimeout_iff hk hbefore hout]
    constructor
    · rintro rfl j hj hres
      rw [hbefore j (by omega)] at hres
      cases hres
    · intro hcond
      by_contra hearly
      obtain ⟨j, hj, b, hb⟩ := hcond k (by omega) hout
      rw [hbefore j hj] at hb
      cases hb
  · refine iff_of_true (law_response hk hbefore hout) fun j hj hres => ?_
    rcases Nat.lt_trichotomy j k with hlt | rfl | hgt
    · rw [hbefore j hlt] at hres
      cases hres
    · rw [hout] at hres
      cases hres
    · exact ⟨k, hgt, body, hout⟩

/-- Two attempts, the first of which the transport gives up on. The second would have got a
response. -/
theorem law_fails :
    callWithTimeout 1 [7] 2 (fun n => if n = 0 then .sendTimeout else .response [8]) =
        ([encodeFrame 1 [7]], .sendTimedOut) ∧
      ¬ Law (encodeFrame 1 [7]) 2 (fun n => if n = 0 then .sendTimeout else .response [8])
        (callWithTimeout 1 [7] 2 fun n => if n = 0 then .sendTimeout else .response [8]) := by
  refine ⟨rfl, fun hlaw => ?_⟩
  have hfirst : ∀ j < 1, ∀ b, (if j = 0 then sendTimeout else response [8]) ≠ response b := by
    intro j hj b
    rw [if_pos (Nat.lt_one_iff.mp hj)]
    exact Attempt.noConfusion
  cases (hlaw.returns 1 Nat.one_lt_two [8] rfl hfirst).1

end Attempt

variable {Addr : Type}

/-- What a call has submitted so far, and how its attempts have ended. -/
structure AttemptLog where
  frames : List (List UInt8)
  outcomes : List Attempt

namespace AttemptLog

def submitted (l : AttemptLog) (frame : List UInt8) : AttemptLog :=
  { l with frames := l.frames ++ [frame] }

def ended (l : AttemptLog) (outcome : Attempt) : AttemptLog :=
  { l with outcomes := l.outcomes ++ [outcome] }

/-- The outcome of attempt `n`. -/
def outcome (l : AttemptLog) (n : ℕ) : Attempt := l.outcomes.getD n .noResponse

end AttemptLog

/-- The frame of the attempt was submitted. -/
def CallerPhase.submitted : CallerPhase → Bool
  | .begin | .registered _ => false
  | .submitting _ | .waiting _ | .expired => true

/-- A client, a log for each of its callers, and the calls that have returned. -/
structure LoggedClient (Addr : Type) where
  client : RpcClient Addr
  logs : List AttemptLog
  finished : List (Caller Addr × AttemptLog × CallResult)

namespace LoggedClient

def new : LoggedClient Addr := ⟨RpcClient.new, [], []⟩

def logAt (s : LoggedClient Addr) (i : ℕ) : AttemptLog := s.logs.getD i ⟨[], []⟩

/-- Write down what caller `i` does next. -/
def note (s : LoggedClient Addr) (client : RpcClient Addr) (i : ℕ) (l : AttemptLog) :
    LoggedClient Addr :=
  ⟨client, s.logs.set i l, s.finished⟩

/-- Caller `i` returns. -/
def close (s : LoggedClient Addr) (client : RpcClient Addr) (i : ℕ) (c : Caller Addr)
    (l : AttemptLog) (result : CallResult) : LoggedClient Addr :=
  ⟨client, s.logs.eraseIdx i, s.finished ++ [(c, l, result)]⟩

/-- What a move of the client adds to the logs. -/
def record (s : LoggedClient Addr) (client : RpcClient Addr) :
    ClientMove Addr → List (ClientAction Addr) → LoggedClient Addr
  | .call _ _ _, _ => ⟨client, s.logs ++ [⟨[], []⟩], s.finished⟩
  | .submit i, [.send _ frame] => s.note client i ((s.logAt i).submitted frame)
  | .sendTimeout i, [.sendFailed c] =>
    s.close client i c ((s.logAt i).ended .sendTimeout) .sendTimedOut
  | .take i _, [.ok c body] => s.close client i c ((s.logAt i).ended (.response body)) (.ok body)
  | .retry i, [.timedOut c] =>
    s.close client i c ((s.logAt i).ended .noResponse) (.timedOut c.rpcId c.maxAttempts)
  | .retry i, [] => s.note client i ((s.logAt i).ended .noResponse)
  | _, _ => { s with client := client }

def step (s : LoggedClient Addr) : ClientEvent Addr → Option (LoggedClient Addr)
  | .move m => (s.client.move m).map fun next => s.record next.1 m next.2
  | .frame frame => (s.client.dispatch frame).map fun client => { s with client := client }

/-- The log of a call that still runs: no attempt so far got a response. -/
structure Going (c : Caller Addr) (l : AttemptLog) : Prop where
  silent : ∀ o ∈ l.outcomes, o = .noResponse
  left_pos : 0 < c.left
  left_add : l.outcomes.length + c.left = max c.maxAttempts 1
  frames : l.frames = List.replicate (l.outcomes.length + c.phase.submitted.toNat)
    (encodeFrame c.rpcId c.payload)

/-- The call has run the retry loop over the outcomes in its log. -/
def RanLoop (x : Caller Addr × AttemptLog × CallResult) : Prop :=
  Attempt.callWithTimeout x.1.rpcId x.1.payload x.1.maxAttempts x.2.1.outcome =
    (x.2.1.frames, x.2.2)

structure Inv (s : LoggedClient Addr) : Prop where
  length_logs : s.logs.length = s.client.callers.length
  going : ∀ (i : ℕ) (c : Caller Addr) (l : AttemptLog), s.client.callers[i]? = some c →
    s.logs[i]? = some l → Going c l
  finished : ∀ x ∈ s.finished, RanLoop x

variable {s s' : LoggedClient Addr} {c u : Caller Addr} {l : AttemptLog} {i : ℕ}

theorem Inv.new : Inv (new : LoggedClient Addr) where
  length_logs := rfl
  going i c l hi := by simp [LoggedClient.new, RpcClient.new] at hi
  finished x hx := by cases hx

theorem Inv.logAt (h : Inv s) (hi : s.client.callers[i]? = some c) :
    s.logs[i]? = some (s.logAt i) ∧ Going c (s.logAt i) := by
  obtain ⟨hlt, -⟩ := List.getElem?_eq_some_iff.mp hi
  have hlog : s.logs[i]? = some (s.logAt i) := by
    rw [← h.length_logs] at hlt
    rw [LoggedClient.logAt, List.getD_eq_getElem?_getD, List.getElem?_eq_getElem hlt]
    rfl
  exact ⟨hlog, h.going i c _ hi hlog⟩

/-- A caller goes on, and its log with it. -/
theorem Inv.note (h : Inv s) {client : RpcClient Addr}
    (hcallers : client.callers = s.client.callers.set i u) (hgoing : Going u l) :
    Inv (s.note client i l) where
  length_logs := by
    rw [LoggedClient.note, hcallers, List.length_set, List.length_set, h.length_logs]
  going j k l' hk hl' := by
    simp only [LoggedClient.note, hcallers, List.getElem?_set, h.length_logs] at hk hl'
    split_ifs at hk hl' with hij
    · obtain rfl := Option.some.inj hk
      obtain rfl := Option.some.inj hl'
      exact hgoing
    · exact h.going j k l' hk hl'
  finished := h.finished

/-- The same without an entry in the log. -/
theorem Inv.goOn (h : Inv s) {client : RpcClient Addr} (hi : s.client.callers[i]? = some c)
    (hcallers : client.callers = s.client.callers.set i u) (hgoing : Going u (s.logAt i)) :
    Inv { s with client := client } := by
  have hsame : s.logs.set i (s.logAt i) = s.logs := by
    obtain ⟨hlt, heq⟩ := List.getElem?_eq_some_iff.mp (h.logAt hi).1
    rw [← heq, List.set_getElem_self]
  have hnote := h.note hcallers hgoing
  rwa [LoggedClient.note, hsame] at hnote

theorem Inv.close (h : Inv s) {client : RpcClient Addr}
    (hcallers : client.callers = s.client.callers.eraseIdx i) {result : CallResult}
    (hran : RanLoop (c, l, result)) : Inv (s.close client i c l result) where
  length_logs := by
    rw [LoggedClient.close, hcallers, List.length_eraseIdx, List.length_eraseIdx, h.length_logs]
  going j k l' hk hl' := by
    simp only [LoggedClient.close, hcallers, List.getElem?_eraseIdx] at hk hl'
    split_ifs at hk hl' with hij
    · exact h.going j k l' hk hl'
    · exact h.going (j + 1) k l' hk hl'
  finished x hx := by
    rcases List.mem_append.mp hx with hold | hnew
    · exact h.finished x hold
    · obtain rfl := List.mem_singleton.mp hnew
      exact hran

/-- The outcomes of a call that ends with its next attempt. -/
theorem Going.outcome_ended (h : Going c l) (o : Attempt) :
    (∀ j < l.outcomes.length, (l.ended o).outcome j = .noResponse) ∧
      (l.ended o).outcome l.outcomes.length = o := by
  constructor
  · intro j hj
    rw [AttemptLog.outcome, AttemptLog.ended, List.getD_eq_getElem?_getD,
      List.getElem?_append_left hj, List.getElem?_eq_getElem hj]
    exact h.silent _ (List.getElem_mem hj)
  · rw [AttemptLog.outcome, AttemptLog.ended, List.getD_eq_getElem?_getD,
      List.getElem?_append_right le_rfl, Nat.sub_self]
    rfl

/-- A call that ends with this attempt has run the loop. -/
theorem Going.ranLoop (h : Going c l) (hphase : c.phase.submitted = true) {o : Attempt}
    {result : CallResult} (hend : (o = .sendTimeout ∧ result = .sendTimedOut) ∨
      (∃ body, o = .response body ∧ result = .ok body) ∨
        (o = .noResponse ∧ c.left = 1 ∧ result = .timedOut c.rpcId c.maxAttempts)) :
    RanLoop (c, l.ended o, result) := by
  obtain ⟨hbefore, hnow⟩ := h.outcome_ended o
  obtain ⟨left, hleft⟩ := Nat.exists_eq_succ_of_ne_zero h.left_pos.ne'
  have hloop : Attempt.loop (encodeFrame c.rpcId c.payload) (.timedOut c.rpcId c.maxAttempts)
      (l.ended o).outcome (l.outcomes.length + c.left) 0 = _ :=
    Attempt.loop_noResponse c.left 0 fun j hj => by rw [Nat.zero_add]; exact hbefore j hj
  rw [h.left_add, Nat.zero_add, hleft, Attempt.loop, hnow] at hloop
  have hframes : l.frames = List.replicate l.outcomes.length (encodeFrame c.rpcId c.payload) ++
      [encodeFrame c.rpcId c.payload] := by
    rw [h.frames, hphase, Bool.toNat_true, List.replicate_succ']
  rw [RanLoop, Attempt.callWithTimeout, hloop, AttemptLog.ended, hframes]
  rcases hend with ⟨rfl, rfl⟩ | ⟨body, rfl, rfl⟩ | ⟨rfl, hlast, rfl⟩
  · rfl
  · rfl
  · obtain rfl : left = 0 := by omega
    rfl

/-- A caller that only changes its phase, and has submitted its frame or not as before. -/
theorem Going.of_phase (h : Going c l) {phase : CallerPhase}
    (hphase : phase.submitted = c.phase.submitted) : Going { c with phase := phase } l :=
  ⟨h.silent, h.left_pos, h.left_add, by rw [h.frames, ← hphase]⟩

theorem Inv.step (h : Inv s) {e : ClientEvent Addr} (hstep : s.step e = some s') : Inv s' := by
  cases e with
  | frame frame =>
    obtain ⟨client, hclient, rfl⟩ := Option.map_eq_some_iff.mp hstep
    have hcallers := (RpcClient.dispatch_spec hclient).2.callers.1
    exact ⟨by rw [h.length_logs, hcallers], by rw [hcallers]; exact h.going, h.finished⟩
  | move m =>
    obtain ⟨⟨client, acts⟩, hclient, rfl⟩ := Option.map_eq_some_iff.mp hstep
    cases RpcClient.move_spec hclient with
    | call server payload n =>
      refine ⟨?_, fun i c l hi hl => ?_, h.finished⟩
      · simp only [record, List.length_append, List.length_singleton, h.length_logs]
      · simp only [record, List.getElem?_append, h.length_logs] at hi hl
        split_ifs at hi hl with hlt
        · exact h.going i c l hi hl
        · obtain rfl := List.mem_singleton.mp (List.mem_of_getElem? hi)
          obtain rfl := List.mem_singleton.mp (List.mem_of_getElem? hl)
          constructor
          · exact fun o ho => absurd ho List.not_mem_nil
          · exact Nat.lt_of_lt_of_le Nat.zero_lt_one (Nat.le_max_right n 1)
          · exact Nat.zero_add _
          · rfl
    | @register i c hi hphase =>
      refine h.goOn hi (u := { c with phase := .registered s.client.nextChan }) rfl ?_
      exact (h.logAt hi).2.of_phase (by rw [hphase]; rfl)
    | @submit i chan c hi hphase =>
      refine h.note (u := { c with phase := .submitting chan }) rfl ?_
      have hgoing := (h.logAt hi).2
      refine ⟨hgoing.silent, hgoing.left_pos, hgoing.left_add, ?_⟩
      rw [AttemptLog.submitted, hgoing.frames, hphase]
      exact List.replicate_succ'.symm
    | @sent i chan c hi hphase =>
      refine h.goOn hi (u := { c with phase := .waiting chan }) rfl ?_
      exact (h.logAt hi).2.of_phase (by rw [hphase]; rfl)
    | @sendTimeout i chan c hi hphase =>
      exact h.close rfl ((h.logAt hi).2.ranLoop (by rw [hphase]; rfl) (Or.inl ⟨rfl, rfl⟩))
    | @take i j chan c body hi hphase hj =>
      exact h.close rfl
        ((h.logAt hi).2.ranLoop (by rw [hphase]; rfl) (Or.inr (Or.inl ⟨body, rfl, rfl⟩)))
    | @timeout i chan c hi hphase =>
      refine h.goOn hi (u := { c with phase := .expired }) rfl ?_
      exact (h.logAt hi).2.of_phase (by rw [hphase]; rfl)
    | @giveUp i c hi hphase hleft =>
      have hgoing := (h.logAt hi).2
      have hlast : c.left = 1 := Nat.le_antisymm hleft hgoing.left_pos
      exact h.close rfl (hgoing.ranLoop (by rw [hphase]; rfl) (Or.inr (Or.inr ⟨rfl, hlast, rfl⟩)))
    | @retry i c hi hphase hleft =>
      refine h.note (u := { c with left := c.left - 1, phase := .begin }) rfl ?_
      have hgoing := (h.logAt hi).2
      have hadd := hgoing.left_add
      have hlength : ((s.logAt i).ended .noResponse).outcomes.length =
          (s.logAt i).outcomes.length + 1 := List.length_append
      constructor
      · intro o ho
        rcases List.mem_append.mp ho with hold | hnew
        · exact hgoing.silent o hold
        · exact List.mem_singleton.mp hnew
      · exact Nat.sub_pos_of_lt hleft
      · rw [hlength]
        dsimp only
        omega
      · rw [hlength, AttemptLog.ended, hgoing.frames, hphase]
        rfl
    | hand hletter => exact ⟨h.length_logs, h.going, h.finished⟩

/-- Every call that returns on a client has run the retry loop: it submitted the frames, and
returns the result, that the loop gives for the outcomes of its attempts. -/
theorem ranLoop_of_run {evs : List (ClientEvent Addr)} (h : Run step anyEvent new evs s) :
    ∀ x ∈ s.finished, RanLoop x :=
  (h.invariant (fun _ _ _ hs _ hstep => Inv.step hs hstep) Inv.new).finished

end LoggedClient
end AgentTransport
