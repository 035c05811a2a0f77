import AgentTransport.RpcServer
import AgentTransport.Threads

/-!
# One handler run for each request

The mark that the loop leaves in `dedup` is never removed, so a request is accepted at
most once. A request that the loop has accepted counts as a worker that is ready, and a
cached answer that it has found as a replay thread. Then the start of a thread changes
nothing, and each request has at most one worker.
-/
namespace AgentTransport
open ByteString Transition

variable {Addr : Type} [DecidableEq Addr]

namespace RpcServer

variable {s s' : RpcServer Addr} {i : ℕ} {w u : Worker Addr} {key : RpcKey Addr}

/-- The worker that the loop is about to start. -/
def pending (s : RpcServer Addr) : List (Worker Addr) :=
  match s.loop with
  | .accepted src rpcId body => [⟨src, rpcId, body, .ready⟩]
  | _ => []

def jobs (s : RpcServer Addr) : List (Worker Addr) := s.workers ++ s.pending

/-- The copies of cached answers on their way out. -/
def copies (s : RpcServer Addr) : List (Addr × List UInt8) :=
  s.replays ++ match s.loop with
    | .replaying src resp => [(src, resp)]
    | _ => []

/-- `frame` answers the request `key` with what the handler returned for it. -/
def Answers (s : RpcServer Addr) (key : RpcKey Addr) (frame : List UInt8) : Prop :=
  ∃ value, frame = encodeFrame key.2 value ∧ (key, value) ∈ s.returned

/-- `frame` answers a request of `x.1`. -/
def Copy (s : RpcServer Addr) (x : Addr × List UInt8) : Prop :=
  ∃ rpcId, s.Answers (x.1, rpcId) x.2

/-- What is known of a worker in each phase. -/
def Doing (s : RpcServer Addr) (w : Worker Addr) : Prop :=
  match w.phase with
  | .ready => w.key ∉ s.started.map Prod.fst
  | .computing => (w.key, w.body) ∈ s.started ∧ w.key ∉ s.returned.map Prod.fst
  | .sending resp | .storing resp => (w.key, w.body) ∈ s.started ∧ s.Answers w.key resp

structure Inv (s : RpcServer Addr) : Prop where
  jobs_nodup : (s.jobs.map Worker.key).Nodup
  jobs_marked : ∀ w ∈ s.jobs, w.key ∈ s.dedup
  doing : ∀ w ∈ s.jobs, s.Doing w
  started_nodup : (s.started.map Prod.fst).Nodup
  started_marked : ∀ x ∈ s.started, x.1 ∈ s.dedup
  returned_nodup : (s.returned.map Prod.fst).Nodup
  returned_started : ∀ x ∈ s.returned, x.1 ∈ s.started.map Prod.fst
  cached : ∀ key resp, s.dedup.lookup key = some (some resp) → s.Answers key resp
  copied : ∀ x ∈ s.copies, s.Copy x
  sent : ∀ x ∈ s.sent, s.Copy x

omit [DecidableEq Addr] in
theorem Answers.mono {frame : List UInt8} (hle : ∀ x ∈ s.returned, x ∈ s'.returned)
    (h : s.Answers key frame) : s'.Answers key frame := by
  obtain ⟨value, hframe, hmem⟩ := h
  exact ⟨value, hframe, hle _ hmem⟩

omit [DecidableEq Addr] in
theorem Copy.mono {x : Addr × List UInt8} (hle : ∀ x ∈ s.returned, x ∈ s'.returned)
    (h : s.Copy x) : s'.Copy x := by
  obtain ⟨rpcId, hanswers⟩ := h
  exact ⟨rpcId, hanswers.mono hle⟩

omit [DecidableEq Addr] in
/-- What other workers do leaves a worker as it is. -/
theorem Doing.other (h : s.Doing w) (hstarted : ∀ x ∈ s.started, x ∈ s'.started)
    (hreturned : ∀ x ∈ s.returned, x ∈ s'.returned)
    (hstart : ∀ x ∈ s'.started, x ∈ s.started ∨ x.1 ≠ w.key)
    (hreturn : ∀ x ∈ s'.returned, x ∈ s.returned ∨ x.1 ≠ w.key) : s'.Doing w := by
  unfold Doing at h ⊢
  cases hphase : w.phase with
  | ready =>
    rw [hphase] at h
    intro hmem
    obtain ⟨x, hx, hkey⟩ := List.mem_map.mp hmem
    rcases hstart x hx with hold | hne
    · exact h (List.mem_map.mpr ⟨x, hold, hkey⟩)
    · exact hne hkey
  | computing =>
    rw [hphase] at h
    refine ⟨hstarted _ h.1, fun hmem => ?_⟩
    obtain ⟨x, hx, hkey⟩ := List.mem_map.mp hmem
    rcases hreturn x hx with hold | hne
    · exact h.2 (List.mem_map.mpr ⟨x, hold, hkey⟩)
    · exact hne hkey
  | sending resp | storing resp =>
    rw [hphase] at h
    exact ⟨hstarted _ h.1, h.2.mono hreturned⟩

omit [DecidableEq Addr] in
theorem jobs_getElem? (hi : s.workers[i]? = some w) : s.jobs[i]? = some w := by
  obtain ⟨hlt, -⟩ := List.getElem?_eq_some_iff.mp hi
  rw [jobs, List.getElem?_append_left hlt, hi]

omit [DecidableEq Addr] in
theorem jobs_setWorker (hi : s.workers[i]? = some w) : (s.setWorker i u).jobs = s.jobs.set i u := by
  obtain ⟨hlt, -⟩ := List.getElem?_eq_some_iff.mp hi
  rw [jobs, jobs, List.set_append_left _ _ hlt]
  rfl

omit [DecidableEq Addr] in
theorem mem_jobs_setWorker (hi : s.workers[i]? = some w) {x : Worker Addr}
    (hx : x ∈ (s.setWorker i u).jobs) : x ∈ s.jobs ∨ x = u := by
  rw [jobs_setWorker hi] at hx
  exact List.mem_or_eq_of_mem_set hx

omit [DecidableEq Addr] in
/-- Worker `i` ends, the others stay. -/
theorem jobs_eraseIdx (hi : s.workers[i]? = some w) :
    s.workers.eraseIdx i ++ s.pending = s.jobs.eraseIdx i := by
  obtain ⟨hlt, -⟩ := List.getElem?_eq_some_iff.mp hi
  rw [jobs, List.eraseIdx_append_of_lt_length hlt]

omit [DecidableEq Addr] in
theorem mem_jobs_of_eraseIdx (hi : s.workers[i]? = some w) {x : Worker Addr}
    (hx : x ∈ s.workers.eraseIdx i ++ s.pending) : x ∈ s.jobs := by
  rw [jobs_eraseIdx hi] at hx
  exact List.mem_of_mem_eraseIdx hx

omit [DecidableEq Addr] in
theorem mem_eraseIdx_of_jobs (hi : s.workers[i]? = some w) {x : Worker Addr} (hx : x ∈ s.jobs)
    (hne : x ≠ w) : x ∈ s.workers.eraseIdx i ++ s.pending := by
  rw [jobs_eraseIdx hi]
  obtain ⟨j, hj⟩ := List.mem_iff_getElem?.mp hx
  apply List.mem_eraseIdx_iff_getElem?.mpr
  refine ⟨j, ?_, hj⟩
  rintro rfl
  exact hne (Option.some.inj (hj.symm.trans (jobs_getElem? hi)))

section Loop

variable {src : Addr} {rpcId : UInt64} {body resp : List UInt8}

omit [DecidableEq Addr] in
theorem jobs_of_receiving (hloop : s.loop = .receiving) : s.jobs = s.workers := by
  simp [jobs, pending, hloop]

omit [DecidableEq Addr] in
theorem copies_of_receiving (hloop : s.loop = .receiving) : s.copies = s.replays := by
  simp [copies, hloop]

omit [DecidableEq Addr] in
/-- The loop has found a cached answer. -/
theorem jobs_replaying (hloop : s.loop = .receiving) :
    ({ s with loop := .replaying src resp } : RpcServer Addr).jobs = s.jobs := by
  simp [jobs, pending, hloop]

omit [DecidableEq Addr] in
/-- The loop has accepted a request. -/
theorem mem_jobs_accepted (hloop : s.loop = .receiving) {x : Worker Addr}
    (hx : x ∈ s.workers ++ [⟨src, rpcId, body, .ready⟩]) :
    x ∈ s.jobs ∨ x = ⟨src, rpcId, body, .ready⟩ := by
  rw [jobs_of_receiving hloop]
  exact (List.mem_append.mp hx).imp_right List.mem_singleton.mp

omit [DecidableEq Addr] in
theorem jobs_spawnReplay (hloop : s.loop = .replaying src resp) :
    ({ s with loop := .receiving, replays := s.replays ++ [(src, resp)] } :
      RpcServer Addr).jobs = s.jobs := by
  simp [jobs, pending, hloop]

omit [DecidableEq Addr] in
theorem jobs_spawnWorker (hloop : s.loop = .accepted src rpcId body) :
    ({ s with loop := .receiving, workers := s.workers ++ [⟨src, rpcId, body, .ready⟩] } :
      RpcServer Addr).jobs = s.jobs := by
  simp [jobs, pending, hloop]

end Loop

theorem Inv.new : Inv (RpcServer.new : RpcServer Addr) where
  jobs_nodup := List.nodup_nil
  jobs_marked w hw := by cases hw
  doing w hw := by cases hw
  started_nodup := List.nodup_nil
  started_marked x hx := by cases hx
  returned_nodup := List.nodup_nil
  returned_started x hx := by cases hx
  cached key resp h := by simp [RpcServer.new] at h
  copied x hx := by cases hx
  sent x hx := by cases hx

/-- The start of a thread, and what copies of cached answers go through. -/
theorem Inv.of_same (h : Inv s) (hjobs : s'.jobs = s.jobs) (hdedup : s'.dedup = s.dedup)
    (hstarted : s'.started = s.started) (hreturned : s'.returned = s.returned)
    (hcopies : ∀ x ∈ s'.copies, s.Copy x) (hsent : ∀ x ∈ s'.sent, s.Copy x) : Inv s' := by
  have hcopy : ∀ x, s.Copy x → s'.Copy x := fun x hx => hx.mono (by simp [hreturned])
  constructor
  · rw [hjobs]
    exact h.jobs_nodup
  · rw [hjobs, hdedup]
    exact h.jobs_marked
  · intro w hw
    rw [hjobs] at hw
    exact (h.doing w hw).other (by simp [hstarted]) (by simp [hreturned])
      (fun x hx => Or.inl (hstarted ▸ hx)) (fun x hx => Or.inl (hreturned ▸ hx))
  · rw [hstarted]
    exact h.started_nodup
  · rw [hstarted, hdedup]
    exact h.started_marked
  · rw [hreturned]
    exact h.returned_nodup
  · rw [hreturned, hstarted]
    exact h.returned_started
  · intro key resp hlook
    rw [hdedup] at hlook
    exact (h.cached key resp hlook).mono (by simp [hreturned])
  · exact fun x hx => hcopy x (hcopies x hx)
  · exact fun x hx => hcopy x (hsent x hx)

/-- A worker takes a step of its own. -/
theorem Inv.advance (h : Inv s) (hi : s.workers[i]? = some w) (hkey : u.key = w.key)
    (started returned : List (RpcKey Addr × List UInt8)) (sent : List (Addr × List UInt8))
    (hs' : s' = { s.setWorker i u with
      started := s.started ++ started, returned := s.returned ++ returned, sent := s.sent ++ sent })
    (hdoing : s'.Doing u) (hstart : ∀ x ∈ started, x.1 = w.key)
    (hreturn : ∀ x ∈ returned, x.1 = w.key)
    (hstarted : (s'.started.map Prod.fst).Nodup) (hreturned : (s'.returned.map Prod.fst).Nodup)
    (hknown : returned ≠ [] → w.key ∈ s'.started.map Prod.fst) (hsent : ∀ x ∈ sent, s'.Copy x) :
    Inv s' := by
  have hjobs : s'.jobs = s.jobs.set i u := by
    rw [← jobs_setWorker hi, hs']
    rfl
  have hi' := jobs_getElem? hi
  have hmem : w ∈ s.jobs := List.mem_of_getElem? hi'
  have hgrown : ∀ x ∈ s.started, x ∈ s'.started := by
    intro x hx
    rw [hs']
    exact List.mem_append_left _ hx
  have hgrown' : ∀ x ∈ s.returned, x ∈ s'.returned := by
    intro x hx
    rw [hs']
    exact List.mem_append_left _ hx
  have hcases : ∀ x ∈ s'.started, x ∈ s.started ∨ x.1 = w.key := by
    intro x hx
    rw [hs'] at hx
    exact (List.mem_append.mp hx).imp_right (hstart x)
  have hcases' : ∀ x ∈ s'.returned, x ∈ s.returned ∨ x ∈ returned := by
    intro x hx
    rw [hs'] at hx
    exact List.mem_append.mp hx
  have hdedup : s'.dedup = s.dedup := by rw [hs']; rfl
  constructor
  · rw [hjobs]
    exact Threads.nodup_set h.jobs_nodup hi' hkey
  · intro x hx
    rw [hjobs] at hx
    rw [hdedup]
    rcases Threads.mem_set h.jobs_nodup hi' hx with rfl | ⟨hold, _⟩
    · rw [hkey]
      exact h.jobs_marked w hmem
    · exact h.jobs_marked x hold
  · intro x hx
    rw [hjobs] at hx
    rcases Threads.mem_set h.jobs_nodup hi' hx with rfl | ⟨hold, hne⟩
    · exact hdoing
    · apply (h.doing x hold).other hgrown hgrown'
      · intro y hy
        exact (hcases y hy).imp_right fun heq => by rw [heq]; exact hne.symm
      · intro y hy
        exact (hcases' y hy).imp_right fun hin => by rw [hreturn y hin]; exact hne.symm
  · exact hstarted
  · intro x hx
    rw [hdedup]
    rcases hcases x hx with hold | heq
    · exact h.started_marked x hold
    · rw [heq]
      exact h.jobs_marked w hmem
  · exact hreturned
  · intro x hx
    rcases hcases' x hx with hold | hin
    · obtain ⟨y, hy, hyx⟩ := List.mem_map.mp (h.returned_started x hold)
      exact List.mem_map.mpr ⟨y, hgrown y hy, hyx⟩
    · rw [hreturn x hin]
      exact hknown (List.ne_nil_of_mem hin)
  · intro key resp hlook
    rw [hdedup] at hlook
    exact (h.cached key resp hlook).mono hgrown'
  · intro x hx
    have hcopies : s'.copies = s.copies := by rw [hs']; rfl
    rw [hcopies] at hx
    exact (h.copied x hx).mono hgrown'
  · intro x hx
    rw [hs'] at hx
    rcases List.mem_append.mp hx with hold | hin
    · exact (h.sent x hold).mono hgrown'
    · exact hsent x hin

/-- A worker ends, after it stored its answer or because the handler panicked. -/
theorem Inv.leave (h : Inv s) (hi : s.workers[i]? = some w)
    (hs' : s' = { s with workers := s.workers.eraseIdx i, dedup := s'.dedup })
    (hmarks : ∀ key, key ∈ s.dedup → key ∈ s'.dedup)
    (hcached : ∀ key resp, s'.dedup.lookup key = some (some resp) → s.Answers key resp) :
    Inv s' := by
  have hjobs : s'.jobs = s.jobs.eraseIdx i := by
    rw [hs', ← jobs_eraseIdx hi]
    rfl
  have hsub : ∀ x ∈ s'.jobs, x ∈ s.jobs := by
    intro x hx
    rw [hjobs] at hx
    exact List.mem_of_mem_eraseIdx hx
  have hstarted : s'.started = s.started := by rw [hs']
  have hreturned : s'.returned = s.returned := by rw [hs']
  have hcopy : ∀ x, s.Copy x → s'.Copy x := fun x hx => hx.mono (by simp [hreturned])
  constructor
  · rw [hjobs]
    exact Threads.nodup_eraseIdx h.jobs_nodup i
  · intro x hx
    exact hmarks _ (h.jobs_marked x (hsub x hx))
  · intro x hx
    exact (h.doing x (hsub x hx)).other (by simp [hstarted]) (by simp [hreturned])
      (fun y hy => Or.inl (hstarted ▸ hy)) (fun y hy => Or.inl (hreturned ▸ hy))
  · rw [hstarted]
    exact h.started_nodup
  · intro x hx
    rw [hstarted] at hx
    exact hmarks _ (h.started_marked x hx)
  · rw [hreturned]
    exact h.returned_nodup
  · rw [hreturned, hstarted]
    exact h.returned_started
  · intro key resp hlook
    exact (hcached key resp hlook).mono (by simp [hreturned])
  · intro x hx
    have hcopies : s'.copies = s.copies := by rw [hs']; rfl
    rw [hcopies] at hx
    exact hcopy x (h.copied x hx)
  · intro x hx
    have hsent : s'.sent = s.sent := by rw [hs']
    rw [hsent] at hx
    exact hcopy x (h.sent x hx)

/-- The loop gets a frame. -/
theorem Inv.received (h : Inv s) (hloop : s.loop = .receiving) {src : Addr} {frame : List UInt8}
    (hr : Received s src frame s') : Inv s' := by
  have hcopies : s.copies = s.replays := copies_of_receiving hloop
  cases hr with
  | malformed => exact h
  | ongoing => exact h
  | @cached rpcId body resp hdec hcache =>
    apply h.of_same (jobs_replaying hloop) rfl rfl rfl
    · intro x hx
      rcases List.mem_append.mp hx with hold | hnew
      · exact h.copied x (hcopies ▸ hold)
      · obtain rfl := List.mem_singleton.mp hnew
        exact ⟨rpcId, h.cached _ _ hcache⟩
    · exact h.sent
  | @accepted rpcId body hdec hnew =>
    have hfresh : (src, rpcId) ∉ s.dedup := AList.lookup_eq_none.mp hnew
    have hstart : (src, rpcId) ∉ s.started.map Prod.fst := by
      intro hmem
      obtain ⟨x, hx, hkey⟩ := List.mem_map.mp hmem
      exact hfresh (hkey ▸ h.started_marked x hx)
    constructor
    · change ((s.workers ++ [(⟨src, rpcId, body, .ready⟩ : Worker Addr)]).map Worker.key).Nodup
      rw [← jobs_of_receiving hloop]
      apply Threads.nodup_append h.jobs_nodup
      intro hmem
      obtain ⟨x, hx, hkey⟩ := List.mem_map.mp hmem
      have hmark := h.jobs_marked x hx
      rw [hkey] at hmark
      exact hfresh hmark
    · intro x hx
      rw [AList.mem_insert]
      rcases mem_jobs_accepted hloop hx with hold | rfl
      · exact Or.inr (h.jobs_marked x hold)
      · exact Or.inl rfl
    · intro x hx
      rcases mem_jobs_accepted hloop hx with hold | rfl
      · exact h.doing x hold
      · exact hstart
    · exact h.started_nodup
    · intro x hx
      exact (AList.mem_insert _).mpr (Or.inr (h.started_marked x hx))
    · exact h.returned_nodup
    · exact h.returned_started
    · intro key resp hlook
      rw [KeyMap.lookup_insert_eq] at hlook
      split_ifs at hlook with hkey
      · cases hlook
      · exact h.cached key resp hlook
    · intro x hx
      refine h.copied x ?_
      rw [hcopies]
      simpa [copies] using hx
    · exact h.sent

/-- A thread moves. -/
theorem Inv.moved (h : Inv s) {m : ServerMove} (hm : Moved s m s') : Inv s' := by
  have hdoing : ∀ {i w}, s.workers[i]? = some w → s.Doing w := fun hi =>
    h.doing _ (List.mem_of_getElem? (jobs_getElem? hi))
  cases hm with
  | spawnReplay hloop =>
    apply h.of_same (jobs_spawnReplay hloop) rfl rfl rfl _ h.sent
    intro x hx
    apply h.copied x
    simpa [copies, hloop] using hx
  | spawnWorker hloop =>
    apply h.of_same (jobs_spawnWorker hloop) rfl rfl rfl _ h.sent
    intro x hx
    apply h.copied x
    simpa [copies, hloop] using hx
  | @start i src rpcId body hi =>
    have hready : (src, rpcId) ∉ s.started.map Prod.fst := hdoing hi
    have hidle : (src, rpcId) ∉ s.returned.map Prod.fst := by
      intro hmem
      obtain ⟨x, hx, hkey⟩ := List.mem_map.mp hmem
      exact hready (hkey ▸ h.returned_started x hx)
    apply h.advance hi (u := ⟨src, rpcId, body, .computing⟩) rfl [((src, rpcId), body)] [] []
      (by simp [setWorker])
    · exact ⟨List.mem_append_right _ (List.mem_singleton.mpr rfl), hidle⟩
    · simp [Worker.key]
    · simp
    · exact Threads.nodup_append h.started_nodup hready
    · exact h.returned_nodup
    · simp
    · simp
  | @finish i value src rpcId body hi =>
    obtain ⟨hstarted, hidle⟩ : ((src, rpcId), body) ∈ s.started ∧
        (src, rpcId) ∉ s.returned.map Prod.fst := hdoing hi
    apply h.advance hi (u := ⟨src, rpcId, body, .sending (encodeFrame rpcId value)⟩) rfl []
      [((src, rpcId), value)] [] (by simp [setWorker])
    · exact ⟨hstarted, value, rfl, List.mem_append_right _ (List.mem_singleton.mpr rfl)⟩
    · simp
    · simp [Worker.key]
    · exact h.started_nodup
    · exact Threads.nodup_append h.returned_nodup hidle
    · intro _
      exact List.mem_map.mpr ⟨_, hstarted, rfl⟩
    · simp
  | panic hi => exact h.leave hi rfl (fun key hkey => hkey) h.cached
  | @send i src rpcId body resp hi =>
    obtain ⟨hstarted, hanswers⟩ : ((src, rpcId), body) ∈ s.started ∧ s.Answers (src, rpcId) resp :=
      hdoing hi
    apply h.advance hi (u := ⟨src, rpcId, body, .storing resp⟩) rfl [] []
      [(src, resp)] (by simp [setWorker])
    · exact ⟨hstarted, hanswers⟩
    · simp
    · simp
    · exact h.started_nodup
    · exact h.returned_nodup
    · simp
    · intro x hx
      obtain rfl := List.mem_singleton.mp hx
      exact ⟨rpcId, hanswers⟩
  | @store i src rpcId body resp hi =>
    obtain ⟨-, hanswers⟩ : ((src, rpcId), body) ∈ s.started ∧ s.Answers (src, rpcId) resp :=
      hdoing hi
    apply h.leave hi rfl
    · intro key hkey
      exact (AList.mem_insert _).mpr (Or.inr hkey)
    · intro key resp' hlook
      rw [KeyMap.lookup_insert_eq] at hlook
      split_ifs at hlook with hkey
      · rw [hkey, ← Option.some.inj (Option.some.inj hlook)]
        exact hanswers
      · exact h.cached key resp' hlook
  | @replay i copy hi =>
    have hcopy : s.Copy copy := h.copied copy (List.mem_append_left _ (List.mem_of_getElem? hi))
    have hjobs : ({ s with replays := s.replays.eraseIdx i, sent := s.sent ++ [copy] } :
        RpcServer Addr).jobs = s.jobs := rfl
    apply h.of_same hjobs rfl rfl rfl
    · intro x hx
      apply h.copied x
      rcases List.mem_append.mp hx with hold | hnew
      · exact List.mem_append_left _ (List.mem_of_mem_eraseIdx hold)
      · exact List.mem_append_right _ hnew
    · intro x hx
      rcases List.mem_append.mp hx with hold | hnew
      · exact h.sent x hold
      · obtain rfl := List.mem_singleton.mp hnew
        exact hcopy

theorem Inv.step (h : Inv s) {e : ServerEvent Addr} (hs : s.step e = some s') : Inv s' := by
  cases e with
  | receive src frame =>
    obtain ⟨hloop, hr⟩ := step_received hs
    exact h.received hloop hr
  | move m => exact h.moved (move_spec hs)

omit [DecidableEq Addr] in
/-- The requests among the received frames. -/
def requests (evs : List (ServerEvent Addr)) : List (RpcKey Addr × List UInt8) :=
  evs.filterMap fun
    | .receive src frame => (decodeFrame frame).map fun request => ((src, request.1), request.2)
    | .move _ => none

/-- The body of the first request with a key. -/
def firstRequest (evs : List (ServerEvent Addr)) (key : RpcKey Addr) : Option (List UInt8) :=
  ((requests evs).find? fun request => request.1 = key).map Prod.snd

theorem firstRequest_append (evs evs' : List (ServerEvent Addr)) (key : RpcKey Addr) :
    firstRequest (evs ++ evs') key = (firstRequest evs key).or (firstRequest evs' key) := by
  rw [firstRequest, requests, List.filterMap_append, List.find?_append, Option.map_or]
  rfl

theorem firstRequest_move (m : ServerMove) (key : RpcKey Addr) :
    firstRequest [.move m] key = none := rfl

/-- Received requests are marked, and the workers have the first one of each key. -/
structure Firsts (evs : List (ServerEvent Addr)) (s : RpcServer Addr) : Prop where
  marked : ∀ key, (firstRequest evs key).isSome → key ∈ s.dedup
  jobs : ∀ w ∈ s.jobs, firstRequest evs w.key = some w.body
  started : ∀ x ∈ s.started, firstRequest evs x.1 = some x.2

/-- The first request stays the first one. -/
theorem firstRequest_of_append {evs : List (ServerEvent Addr)} {body : List UInt8}
    (h : firstRequest evs key = some body) (evs' : List (ServerEvent Addr)) :
    firstRequest (evs ++ evs') key = some body := by
  rw [firstRequest_append, h, Option.some_or]

theorem Firsts.received {evs : List (ServerEvent Addr)} (h : Firsts evs s)
    (hloop : s.loop = .receiving) {src : Addr} {frame : List UInt8}
    (hr : Received s src frame s') : Firsts (evs ++ [.receive src frame]) s' := by
  have hlast : ∀ {rpcId body}, decodeFrame frame = some (rpcId, body) → ∀ key,
      firstRequest [.receive src frame] key = if (src, rpcId) = key then some body else none := by
    intro rpcId body hdec key
    simp only [firstRequest, requests, List.filterMap_cons, hdec, Option.map_some,
      List.filterMap_nil, List.find?_cons, List.find?_nil]
    split_ifs with hkey
    · simp [hkey]
    · simp [hkey]
  have hmarked : ∀ {rpcId body}, decodeFrame frame = some (rpcId, body) →
      (src, rpcId) ∈ s'.dedup → (∀ key, key ∈ s.dedup → key ∈ s'.dedup) →
      ∀ key, (firstRequest (evs ++ [.receive src frame]) key).isSome → key ∈ s'.dedup := by
    intro rpcId body hdec hmem hsub key hsome
    rw [firstRequest_append, Option.isSome_or, Bool.or_eq_true, hlast hdec] at hsome
    rcases hsome with hold | hnew
    · exact hsub key (h.marked key hold)
    · split_ifs at hnew with hkey
      · exact hkey ▸ hmem
      · cases hnew
  cases hr with
  | malformed hdec =>
    have hnone : ∀ key, firstRequest [.receive src frame] key = none := by
      intro key
      simp [firstRequest, requests, hdec]
    constructor
    · intro key hsome
      rw [firstRequest_append, hnone, Option.or_none] at hsome
      exact h.marked key hsome
    · exact fun w hw => firstRequest_of_append (h.jobs w hw) _
    · exact fun x hx => firstRequest_of_append (h.started x hx) _
  | ongoing hdec hmark =>
    constructor
    · exact hmarked hdec (KeyMap.mem_iff_lookup.mpr ⟨_, hmark⟩) fun key hkey => hkey
    · exact fun w hw => firstRequest_of_append (h.jobs w hw) _
    · exact fun x hx => firstRequest_of_append (h.started x hx) _
  | cached hdec hcache =>
    constructor
    · exact hmarked hdec (KeyMap.mem_iff_lookup.mpr ⟨_, hcache⟩) fun key hkey => hkey
    · intro w hw
      rw [jobs_replaying hloop] at hw
      exact firstRequest_of_append (h.jobs w hw) _
    · exact fun x hx => firstRequest_of_append (h.started x hx) _
  | @accepted rpcId body hdec hnew =>
    have hfirst : firstRequest evs (src, rpcId) = none := by
      by_contra hsome
      have hmem := h.marked _ (Option.isSome_iff_ne_none.mpr hsome)
      exact AList.lookup_eq_none.mp hnew hmem
    constructor
    · apply hmarked hdec
      · exact (AList.mem_insert _).mpr (Or.inl rfl)
      · exact fun key hkey => (AList.mem_insert _).mpr (Or.inr hkey)
    · intro w hw
      rcases mem_jobs_accepted hloop hw with hold | rfl
      · exact firstRequest_of_append (h.jobs w hold) _
      · change firstRequest _ (src, rpcId) = some body
        rw [firstRequest_append, hfirst, Option.none_or, hlast hdec, if_pos rfl]
    · exact fun x hx => firstRequest_of_append (h.started x hx) _

theorem Firsts.moved {evs : List (ServerEvent Addr)} (h : Firsts evs s) {m : ServerMove}
    (hm : Moved s m s') : Firsts (evs ++ [.move m]) s' := by
  have hsame : ∀ key, firstRequest (evs ++ [.move m]) key = firstRequest evs key := by
    intro key
    rw [firstRequest_append, firstRequest_move, Option.or_none]
  have hset : ∀ {i w u}, s.workers[i]? = some w → u.key = w.key → u.body = w.body →
      ∀ x ∈ (s.setWorker i u).jobs, firstRequest evs x.key = some x.body := by
    intro i w u hi hkey hbody x hx
    rcases mem_jobs_setWorker hi hx with hold | rfl
    · exact h.jobs x hold
    · rw [hkey, hbody]
      exact h.jobs w (List.mem_of_getElem? (jobs_getElem? hi))
  constructor
  · intro key hsome
    rw [hsame] at hsome
    have hold := h.marked key hsome
    cases hm with
    | store => exact (AList.mem_insert _).mpr (Or.inr hold)
    | _ => exact hold
  · intro w hw
    rw [hsame]
    cases hm with
    | spawnReplay hloop =>
      rw [jobs_spawnReplay hloop] at hw
      exact h.jobs w hw
    | spawnWorker hloop =>
      rw [jobs_spawnWorker hloop] at hw
      exact h.jobs w hw
    | start hi => exact hset (u := ⟨_, _, _, .computing⟩) hi rfl rfl w hw
    | finish hi => exact hset (u := ⟨_, _, _, .sending _⟩) hi rfl rfl w hw
    | panic hi => exact h.jobs w (mem_jobs_of_eraseIdx hi hw)
    | send hi => exact hset (u := ⟨_, _, _, .storing _⟩) hi rfl rfl w hw
    | store hi => exact h.jobs w (mem_jobs_of_eraseIdx hi hw)
    | replay hi => exact h.jobs w hw
  · intro x hx
    rw [hsame]
    cases hm with
    | start hi =>
      rcases List.mem_append.mp hx with hold | hin
      · exact h.started x hold
      · obtain rfl := List.mem_singleton.mp hin
        exact h.jobs _ (List.mem_of_getElem? (jobs_getElem? hi))
    | _ => exact h.started x hx

/-- The invariant of every run. -/
theorem inv_of_run {evs : List (ServerEvent Addr)}
    (h : Run RpcServer.step anyEvent RpcServer.new evs s) : Inv s ∧ Firsts evs s := by
  induction h with
  | nil =>
    refine ⟨Inv.new, ?_, ?_, ?_⟩
    · intro key hsome
      cases hsome
    · intro w hw
      cases hw
    · intro x hx
      cases hx
  | @snoc evs s s' e _ _ hstep ih =>
    refine ⟨ih.1.step hstep, ?_⟩
    cases e with
    | receive src frame =>
      obtain ⟨hloop, hr⟩ := step_received hstep
      exact ih.2.received hloop hr
    | move m => exact ih.2.moved (move_spec hstep)

/-- **At most once, and one answer.** The handler is started at most once for each
source address and `rpc_id`, on the first request with them, and every frame sent for
them holds the value of that run. -/
theorem one_run_per_request {evs : List (ServerEvent Addr)} {s : RpcServer Addr}
    (h : Run RpcServer.step anyEvent RpcServer.new evs s) :
    (s.started.map Prod.fst).Nodup ∧ (s.returned.map Prod.fst).Nodup ∧
    ∀ x ∈ s.sent, ∃ rpcId body value, x.2 = encodeFrame rpcId value ∧
      firstRequest evs (x.1, rpcId) = some body ∧ ((x.1, rpcId), body) ∈ s.started ∧
      ((x.1, rpcId), value) ∈ s.returned := by
  obtain ⟨hinv, hfirsts⟩ := inv_of_run h
  refine ⟨hinv.started_nodup, hinv.returned_nodup, fun x hx => ?_⟩
  obtain ⟨rpcId, value, hframe, hreturned⟩ := hinv.sent x hx
  obtain ⟨y, hy, hkey⟩ := List.mem_map.mp (hinv.returned_started _ hreturned)
  have hstarted : ((x.1, rpcId), y.2) ∈ s.started := by
    rw [← show y.1 = (x.1, rpcId) from hkey]
    exact hy
  exact ⟨rpcId, y.2, value, hframe, hfirsts.started _ hstarted, hstarted, hreturned⟩

/-- One request, repeated while the handler runs and once more with another body. -/
def repeated : List (ServerEvent ℕ) :=
  [.receive 7 (encodeFrame 1 [5]), .move .spawn, .move (.start 0), .receive 7 (encodeFrame 1 [5]),
    .move (.finish 0 [6]), .move (.send 0), .move (.store 0), .receive 7 (encodeFrame 1 [9]),
    .move .spawn, .move (.replay 0)]

theorem one_run_per_request_repeated : ∃ s : RpcServer ℕ,
    exec RpcServer.step repeated RpcServer.new = some s ∧
    s.sent = [(7, encodeFrame 1 [6]), (7, encodeFrame 1 [6])] ∧
    (s.started.map Prod.fst).Nodup ∧ (s.returned.map Prod.fst).Nodup ∧
    ∀ x ∈ s.sent, ∃ rpcId body value, x.2 = encodeFrame rpcId value ∧
      firstRequest repeated (x.1, rpcId) = some body ∧ ((x.1, rpcId), body) ∈ s.started ∧
      ((x.1, rpcId), value) ∈ s.returned := by
  have hout : (exec RpcServer.step repeated RpcServer.new).map RpcServer.sent =
      some [(7, encodeFrame 1 [6]), (7, encodeFrame 1 [6])] := by
    decide +kernel
  obtain ⟨s, hs, hsent⟩ := Option.map_eq_some_iff.mp hout
  exact ⟨s, hs, hsent, one_run_per_request (run_of_exec hs)⟩

end RpcServer
end AgentTransport
