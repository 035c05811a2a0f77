import AgentTransport.RpcAnswers

/-!
# The mark of a request in progress

A mark is replaced by the worker of its request, at the end. A handler that panics ends
its worker before that, and nobody else ever touches the mark: the key was accepted
once and is not accepted again.
-/
namespace AgentTransport
open ByteString Transition

variable {Addr : Type} [DecidableEq Addr]

namespace RpcServer

variable {s s' : RpcServer Addr} {i : ℕ} {w u : Worker Addr} {key : RpcKey Addr}

/-- A mark whose request nobody works on. -/
def Orphan (s : RpcServer Addr) (key : RpcKey Addr) : Prop :=
  s.dedup.lookup key = some none ∧ ∀ w ∈ s.jobs, w.key ≠ key

/-- What the threads can do by themselves, if no handler panics. -/
def Works (_ : RpcServer Addr) : ServerEvent Addr → Prop
  | .receive _ _ => False
  | .move (.panic _) => False
  | .move _ => True

/-- The threads can replace the mark of `key` by an answer. -/
def Replaces (s : RpcServer Addr) (key : RpcKey Addr) : Prop :=
  ∃ evs s', Run RpcServer.step Works s evs s' ∧
    ∃ resp, s'.dedup.lookup key = some (some resp)

theorem Replaces.of_move {m : ServerMove} (hm : s.move m = some s') (hok : s.Works (.move m))
    (h : s'.Replaces key) : s.Replaces key := by
  obtain ⟨evs, t, hrun, hanswer⟩ := h
  have hfirst : Run RpcServer.step Works s [.move m] s' := Run.single hok hm
  exact ⟨.move m :: evs, t, hfirst.append hrun, hanswer⟩

omit [DecidableEq Addr] in
theorem getElem?_setWorker (hi : s.workers[i]? = some w) :
    (s.setWorker i u).workers[i]? = some u := by
  obtain ⟨hlt, -⟩ := List.getElem?_eq_some_iff.mp hi
  simp [setWorker, hlt]

/-- A worker that is not stopped replaces the mark of its request. -/
theorem replaces_of_worker (hi : s.workers[i]? = some w) : s.Replaces w.key := by
  have hstore : ∀ {s : RpcServer Addr} {src rpcId body resp},
      s.workers[i]? = some ⟨src, rpcId, body, .storing resp⟩ → s.Replaces (src, rpcId) := by
    intro s src rpcId body resp hi
    have hmove : s.step (.move (.store i)) = some { s with
        workers := s.workers.eraseIdx i
        dedup := s.dedup.insert (src, rpcId) (some resp) } := by
      simp only [RpcServer.step, move, hi]
    have hok : s.Works (.move (.store i)) := trivial
    refine ⟨_, _, Run.single hok hmove, resp, ?_⟩
    rw [KeyMap.lookup_insert_eq, if_pos rfl]
  have hsend : ∀ {s : RpcServer Addr} {src rpcId body resp},
      s.workers[i]? = some ⟨src, rpcId, body, .sending resp⟩ → s.Replaces (src, rpcId) := by
    intro s src rpcId body resp hi
    have hmove : s.move (.send i) = some { s.setWorker i ⟨src, rpcId, body, .storing resp⟩ with
        sent := s.sent ++ [(src, resp)] } := by
      simp only [move, hi]
    exact Replaces.of_move hmove trivial (hstore (getElem?_setWorker hi))
  have hfinish : ∀ {s : RpcServer Addr} {src rpcId body},
      s.workers[i]? = some ⟨src, rpcId, body, .computing⟩ → s.Replaces (src, rpcId) := by
    intro s src rpcId body hi
    have hmove : s.move (.finish i []) = some
        { s.setWorker i ⟨src, rpcId, body, .sending (encodeFrame rpcId [])⟩ with
          returned := s.returned ++ [((src, rpcId), [])] } := by
      simp only [move, hi]
    exact Replaces.of_move hmove trivial (hsend (getElem?_setWorker hi))
  obtain ⟨src, rpcId, body, phase⟩ := w
  cases phase with
  | ready =>
    have hmove : s.move (.start i) = some { s.setWorker i ⟨src, rpcId, body, .computing⟩ with
        started := s.started ++ [((src, rpcId), body)] } := by
      simp only [move, hi]
    exact Replaces.of_move hmove trivial (hfinish (getElem?_setWorker hi))
  | computing => exact hfinish hi
  | sending resp => exact hsend hi
  | storing resp => exact hstore hi

theorem replaces_of_job (hw : w ∈ s.jobs) : s.Replaces w.key := by
  rcases List.mem_append.mp hw with hworker | hpending
  · obtain ⟨i, hi⟩ := List.mem_iff_getElem?.mp hworker
    exact replaces_of_worker hi
  · unfold pending at hpending
    split at hpending
    · rename_i src rpcId body hloop
      obtain rfl := List.mem_singleton.mp hpending
      have hmove : s.move .spawn = some { s with
          loop := .receiving
          workers := s.workers ++ [⟨src, rpcId, body, .ready⟩] } := by
        simp only [move, hloop]
      exact Replaces.of_move hmove trivial (replaces_of_worker (i := s.workers.length) (by simp))
    · cases hpending

/-- Every mark has a worker. -/
def Attended (s : RpcServer Addr) : Prop :=
  ∀ key, s.dedup.lookup key = some none → ∃ w ∈ s.jobs, w.key = key

/-- What keeps the marks keeps the workers, except for a handler that panics. -/
theorem Attended.moved (h : s.Attended) {m : ServerMove}
    (hok : ∀ i, m ≠ .panic i) (hm : Moved s m s') : s'.Attended := by
  have hset : ∀ {i w u}, s.workers[i]? = some w → u.key = w.key →
      ∀ key, s.dedup.lookup key = some none → ∃ x ∈ (s.setWorker i u).jobs, x.key = key := by
    intro i w u hi hkey key hmark
    obtain ⟨x, hx, hxkey⟩ := h key hmark
    have hmap := Threads.map_set (f := Worker.key) (jobs_getElem? hi) hkey
    have hmem : key ∈ s.jobs.map Worker.key := List.mem_map.mpr ⟨x, hx, hxkey⟩
    rw [← hmap, ← jobs_setWorker hi] at hmem
    exact List.mem_map.mp hmem
  cases hm with
  | spawnReplay hloop =>
    intro key hmark
    rw [jobs_spawnReplay hloop]
    exact h key hmark
  | spawnWorker hloop =>
    intro key hmark
    rw [jobs_spawnWorker hloop]
    exact h key hmark
  | start hi => exact hset (u := ⟨_, _, _, .computing⟩) hi rfl
  | finish hi => exact hset (u := ⟨_, _, _, .sending _⟩) hi rfl
  | panic hi => exact absurd rfl (hok _)
  | send hi => exact hset (u := ⟨_, _, _, .storing _⟩) hi rfl
  | @store i src rpcId body resp hi =>
    intro key hmark
    rw [KeyMap.lookup_insert_eq] at hmark
    split_ifs at hmark with hkey
    · cases hmark
    · obtain ⟨x, hx, hxkey⟩ := h key hmark
      refine ⟨x, mem_eraseIdx_of_jobs hi hx ?_, hxkey⟩
      rintro rfl
      exact hkey hxkey.symm
  | replay hi => exact h

theorem Attended.received (h : s.Attended) (hloop : s.loop = .receiving) {src : Addr}
    {frame : List UInt8} (hr : Received s src frame s') : s'.Attended := by
  cases hr with
  | malformed => exact h
  | ongoing => exact h
  | cached =>
    intro key hmark
    rw [jobs_replaying hloop]
    exact h key hmark
  | accepted hdec hnew =>
    intro key hmark
    rw [KeyMap.lookup_insert_eq] at hmark
    split_ifs at hmark with hkey
    · exact ⟨_, List.mem_append_right _ (List.mem_singleton.mpr rfl), hkey.symm⟩
    · obtain ⟨x, hx, hxkey⟩ := h key hmark
      rw [jobs_of_receiving hloop] at hx
      exact ⟨x, List.mem_append_left _ hx, hxkey⟩

theorem Attended.step (h : s.Attended) {e : ServerEvent Addr}
    (hok : ∀ i, e ≠ .move (.panic i)) (hs : s.step e = some s') : s'.Attended := by
  cases e with
  | receive src frame =>
    obtain ⟨hloop, hr⟩ := step_received hs
    exact h.received hloop hr
  | move m => exact h.moved (fun i hm => hok i (hm ▸ rfl)) (move_spec hs)

/-- A mark that nobody works on is there for good. -/
theorem Orphan.received (h : s.Orphan key) (hloop : s.loop = .receiving) {src : Addr}
    {frame : List UInt8} (hr : Received s src frame s') : s'.Orphan key := by
  obtain ⟨hmark, hnone⟩ := h
  cases hr with
  | malformed => exact ⟨hmark, hnone⟩
  | ongoing => exact ⟨hmark, hnone⟩
  | cached =>
    refine ⟨hmark, fun x hx => hnone x ?_⟩
    rwa [jobs_replaying hloop] at hx
  | @accepted rpcId body hdec hnew =>
    have hne : (src, rpcId) ≠ key := by
      rintro rfl
      rw [hnew] at hmark
      cases hmark
    constructor
    · rw [KeyMap.lookup_insert_eq, if_neg hne.symm]
      exact hmark
    · intro x hx
      rcases mem_jobs_accepted hloop hx with hold | rfl
      · exact hnone x hold
      · exact hne

theorem Orphan.moved (h : s.Orphan key) {m : ServerMove} (hm : Moved s m s') : s'.Orphan key := by
  obtain ⟨hmark, hnone⟩ := h
  have hset : ∀ {i w u}, s.workers[i]? = some w → u.key = w.key →
      ∀ x ∈ (s.setWorker i u).jobs, x.key ≠ key := by
    intro i w u hi hkey x hx
    rcases mem_jobs_setWorker hi hx with hold | rfl
    · exact hnone x hold
    · rw [hkey]
      exact hnone w (List.mem_of_getElem? (jobs_getElem? hi))
  cases hm with
  | spawnReplay hloop =>
    refine ⟨hmark, fun x hx => hnone x ?_⟩
    rwa [jobs_spawnReplay hloop] at hx
  | spawnWorker hloop =>
    refine ⟨hmark, fun x hx => hnone x ?_⟩
    rwa [jobs_spawnWorker hloop] at hx
  | start hi => exact ⟨hmark, hset (u := ⟨_, _, _, .computing⟩) hi rfl⟩
  | finish hi => exact ⟨hmark, hset (u := ⟨_, _, _, .sending _⟩) hi rfl⟩
  | panic hi => exact ⟨hmark, fun x hx => hnone x (mem_jobs_of_eraseIdx hi hx)⟩
  | send hi => exact ⟨hmark, hset (u := ⟨_, _, _, .storing _⟩) hi rfl⟩
  | @store i src rpcId body resp hi =>
    refine ⟨?_, fun x hx => hnone x (mem_jobs_of_eraseIdx hi hx)⟩
    have hne : (src, rpcId) ≠ key := hnone _ (List.mem_of_getElem? (jobs_getElem? hi))
    rw [KeyMap.lookup_insert_eq, if_neg hne.symm]
    exact hmark
  | replay hi => exact ⟨hmark, hnone⟩

theorem Orphan.step (h : s.Orphan key) {e : ServerEvent Addr} (hs : s.step e = some s') :
    s'.Orphan key := by
  cases e with
  | receive src frame =>
    obtain ⟨hloop, hr⟩ := step_received hs
    exact h.received hloop hr
  | move m => exact h.moved (move_spec hs)

/-- A worker whose handler runs has the mark of its request. -/
theorem marked_of_computing (hinv : Inv s) (hi : s.workers[i]? = some w)
    (hphase : w.phase = .computing) : s.dedup.lookup w.key = some none := by
  have hmem : w ∈ s.jobs := List.mem_of_getElem? (jobs_getElem? hi)
  obtain ⟨entry, hentry⟩ := KeyMap.mem_iff_lookup.mp (hinv.jobs_marked w hmem)
  cases entry with
  | none => exact hentry
  | some resp =>
    -- an answer would have been returned already
    obtain ⟨value, _, hreturned⟩ := hinv.cached _ _ hentry
    have hdoing := hinv.doing w hmem
    rw [Doing, hphase] at hdoing
    exact absurd (List.mem_map.mpr ⟨_, hreturned, rfl⟩) hdoing.2

theorem orphan_of_panic (hinv : Inv s) (hs : s.move (.panic i) = some s') :
    ∃ key, s'.Orphan key := by
  simp only [move] at hs
  split at hs
  · rename_i src rpcId body hi
    obtain rfl := Option.some.inj hs
    refine ⟨(src, rpcId), marked_of_computing hinv hi rfl, fun x hx => ?_⟩
    have herase : x ∈ s.jobs.eraseIdx i := jobs_eraseIdx hi ▸ hx
    exact (Threads.mem_eraseIdx hinv.jobs_nodup (jobs_getElem? hi) herase).2
  · cases hs

/-- **The mark of a request in progress** has a worker that still replaces it, in every
run in which no handler panics and in no other. -/
theorem marks_attended_iff {evs : List (ServerEvent Addr)} {s : RpcServer Addr}
    (h : Run RpcServer.step anyEvent RpcServer.new evs s) :
    (∀ key, s.dedup.lookup key = some none → ∃ w ∈ s.jobs, w.key = key ∧ s.Replaces key) ↔
      ∀ i, .move (.panic i) ∉ evs := by
  have hrun : (∀ i, .move (.panic i) ∉ evs) → s.Attended := by
    induction h with
    | nil =>
      intro _ key hmark
      cases hmark
    | snoc _ _ hstep ih =>
      intro hquiet
      apply (ih fun i hin => hquiet i (List.mem_append_left _ hin)).step ?_ hstep
      rintro i rfl
      exact hquiet i (List.mem_append_right _ (List.mem_singleton.mpr rfl))
  have horphan : ∀ i, .move (.panic i) ∈ evs → ∃ key, s.Orphan key := by
    intro i hin
    clear hrun
    induction h with
    | nil => cases hin
    | @snoc evs t u e hbefore _ hstep ih =>
      rcases List.mem_append.mp hin with hold | hlast
      · obtain ⟨key, hkey⟩ := ih hold
        exact ⟨key, hkey.step hstep⟩
      · obtain rfl := List.mem_singleton.mp hlast
        exact orphan_of_panic (inv_of_run hbefore).1 hstep
  constructor
  · intro hattended i hin
    obtain ⟨key, hmark, hnone⟩ := horphan i hin
    obtain ⟨w, hw, hkey, _⟩ := hattended key hmark
    exact hnone w hw hkey
  · intro hquiet key hmark
    obtain ⟨w, hw, rfl⟩ := hrun hquiet key hmark
    exact ⟨w, hw, rfl, replaces_of_job hw⟩

/-- The handler of one request runs. -/
theorem marks_attended_iff_running : ∃ s : RpcServer ℕ,
    exec RpcServer.step [.receive 7 (encodeFrame 1 [5]), .move .spawn, .move (.start 0)]
      RpcServer.new = some s ∧
    ((∀ key, s.dedup.lookup key = some none → ∃ w ∈ s.jobs, w.key = key ∧ s.Replaces key) ↔
      ∀ i, .move (.panic i) ∉ ([.receive 7 (encodeFrame 1 [5]), .move .spawn, .move (.start 0)] :
        List (ServerEvent ℕ))) := by
  obtain ⟨s, hs⟩ : ∃ s : RpcServer ℕ, exec RpcServer.step
      [.receive 7 (encodeFrame 1 [5]), .move .spawn, .move (.start 0)] RpcServer.new = some s :=
    ⟨_, rfl⟩
  exact ⟨s, hs, marks_attended_iff (run_of_exec hs)⟩

/-- The handler panics on the first request. The mark stays without a worker, and the
retry is discarded. -/
theorem marks_attended_fails : ∃ s : RpcServer ℕ,
    Run RpcServer.step anyEvent RpcServer.new
      [.receive 7 (encodeFrame 1 [5]), .move .spawn, .move (.start 0), .move (.panic 0)] s ∧
    s.dedup.lookup (7, 1) = some none ∧ s.jobs = [] ∧
    s.step (.receive 7 (encodeFrame 1 [5])) = some s := by
  refine ⟨_, run_of_exec rfl, ?_, rfl, rfl⟩
  decide

end RpcServer
end AgentTransport
