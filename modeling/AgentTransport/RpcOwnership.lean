import AgentTransport.RpcAnswers
import AgentTransport.RpcNetwork

/-!
# Whose request a key stands for

While a call is open, everything in a server that stands for its key stands for that
call: the server is the one that was called, and the body is the payload of the call.
On the side of the client, a channel in `waiters` stands under the number of the call
that receives from it.
-/
namespace AgentTransport
open ByteString Transition

variable {Addr : Type} [DecidableEq Addr]

namespace RpcServer

variable {s s' : RpcServer Addr} {i : ℕ} {w u : Worker Addr} {key : RpcKey Addr}
  {here : Prop} {payload : List UInt8}

/-- The server is about to send an answer to `key`, or to work one out. -/
def Handles (s : RpcServer Addr) (key : RpcKey Addr) : Prop :=
  (∃ w ∈ s.jobs, w.key = key ∧ ∀ resp, w.phase ≠ .storing resp) ∨
    ∃ x ∈ s.copies, x.1 = key.1 ∧ ∃ v, decodeFrame x.2 = some (key.2, v)

/-- The server has an answer to `key` to replay, or is about to have one. -/
def Remembers (s : RpcServer Addr) (key : RpcKey Addr) : Prop :=
  (∃ w ∈ s.jobs, w.key = key ∧ ∃ resp, w.phase = .storing resp) ∨
    ∃ resp, s.dedup.lookup key = some (some resp)

/-- What stands for `key` in a server: if it is the one that was called (`here`), then
the call with `payload`, and else nothing that is answered. -/
structure Owned (s : RpcServer Addr) (here : Prop) (key : RpcKey Addr) (payload : List UInt8) :
    Prop where
  handled : ∀ w ∈ s.jobs, w.key = key → (∀ resp, w.phase ≠ .storing resp) →
    here ∧ w.body = payload
  copied : ∀ x ∈ s.copies, x.1 = key.1 → ∀ v, decodeFrame x.2 = some (key.2, v) →
    here ∧ (key, payload) ∈ s.started
  remembered : here → s.Remembers key → (key, payload) ∈ s.started

/-- The handler ran on `payload` for the request `key`, and returned `value`. -/
def Ran (s : RpcServer Addr) (key : RpcKey Addr) (payload value : List UInt8) : Prop :=
  (key, payload) ∈ s.started ∧ (key, value) ∈ s.returned

theorem Owned.of_unused (hhandles : ¬ s.Handles key) (hremembers : here → ¬ s.Remembers key)
    (payload : List UInt8) : s.Owned here key payload where
  handled w hw hkey hphase := absurd (Or.inl ⟨w, hw, hkey, hphase⟩) hhandles
  copied x hx hsrc v hdec := absurd (Or.inr ⟨x, hx, hsrc, v, hdec⟩) hhandles
  remembered hhere hrem := absurd hrem (hremembers hhere)

omit [DecidableEq Addr] in
/-- A frame that answers a request decodes to the number of the request. -/
theorem Answers.decode {frame : List UInt8} (h : s.Answers key frame) {rpcId : UInt64}
    {v : List UInt8} (hdec : decodeFrame frame = some (rpcId, v)) :
    rpcId = key.2 ∧ (key, v) ∈ s.returned := by
  obtain ⟨value, rfl, hreturned⟩ := h
  rw [decode_encodeFrame] at hdec
  obtain ⟨rfl, rfl⟩ := Prod.mk.inj (Option.some.inj hdec)
  exact ⟨rfl, hreturned⟩

/-- The loop gets a frame. A request with the key has to be the one of the call. -/
theorem Owned.received (h : s.Owned here key payload) (hinv : Inv s) (hloop : s.loop = .receiving)
    {src : Addr} {frame : List UInt8} (hr : Received s src frame s')
    (hreq : src = key.1 → ∀ body, decodeFrame frame = some (key.2, body) →
      here ∧ body = payload) : s'.Owned here key payload := by
  have hcopies : s.copies = s.replays := copies_of_receiving hloop
  cases hr with
  | malformed => exact h
  | ongoing => exact h
  | @cached rpcId body resp hdec hcache =>
    have hsame : ({ s with loop := .replaying src resp } : RpcServer Addr).jobs = s.jobs :=
      jobs_replaying hloop
    constructor
    · intro w hw
      rw [hsame] at hw
      exact h.handled w hw
    · intro x hx hsrc v hv
      rcases List.mem_append.mp hx with hold | hnew
      · exact h.copied x (hcopies ▸ hold) hsrc v hv
      · obtain rfl := List.mem_singleton.mp hnew
        obtain ⟨hid, _⟩ := (hinv.cached _ _ hcache).decode hv
        have hkey : (src, rpcId) = key := Prod.ext hsrc hid.symm
        obtain ⟨hhere, _⟩ := hreq hsrc body (by rw [hid]; exact hdec)
        exact ⟨hhere, h.remembered hhere (Or.inr ⟨resp, hkey ▸ hcache⟩)⟩
    · intro hhere hrem
      apply h.remembered hhere
      rcases hrem with ⟨w, hw, hkey, hphase⟩ | hcached
      · exact Or.inl ⟨w, hsame ▸ hw, hkey, hphase⟩
      · exact Or.inr hcached
  | @accepted rpcId body hdec hnew =>
    constructor
    · intro w hw hkey hphase
      rcases mem_jobs_accepted hloop hw with hold | rfl
      · exact h.handled w hold hkey hphase
      · obtain ⟨hsrc, hid⟩ : src = key.1 ∧ rpcId = key.2 := by
          rw [← hkey]
          exact ⟨rfl, rfl⟩
        exact hreq hsrc body (hid ▸ hdec)
    · intro x hx
      apply h.copied x
      rw [hcopies]
      simpa [copies] using hx
    · intro hhere hrem
      apply h.remembered hhere
      rcases hrem with ⟨w, hw, hkey, resp, hphase⟩ | ⟨resp, hlook⟩
      · rcases mem_jobs_accepted hloop hw with hold | rfl
        · exact Or.inl ⟨w, hold, hkey, resp, hphase⟩
        · cases hphase
      · rw [KeyMap.lookup_insert_eq] at hlook
        split_ifs at hlook
        · cases hlook
        · exact Or.inr ⟨resp, hlook⟩

/-- A worker takes a step of its own. -/
theorem Owned.advance (h : s.Owned here key payload) (hi : s.workers[i]? = some w)
    (hkey : u.key = w.key) (hbody : u.body = w.body) (hphase : ∀ resp, w.phase ≠ .storing resp)
    (hknown : (∃ resp, u.phase = .storing resp) → (w.key, w.body) ∈ s.started)
    (hjobs : s'.jobs = (s.setWorker i u).jobs) (hcopies : s'.copies = s.copies)
    (hdedup : s'.dedup = s.dedup) (hstarted : ∀ x ∈ s.started, x ∈ s'.started) :
    s'.Owned here key payload := by
  have hw : w ∈ s.jobs := List.mem_of_getElem? (jobs_getElem? hi)
  have hcases : ∀ x ∈ s'.jobs, x ∈ s.jobs ∨ x = u := by
    intro x hx
    rw [hjobs] at hx
    exact mem_jobs_setWorker hi hx
  constructor
  · intro x hx hxkey hxphase
    rcases hcases x hx with hold | rfl
    · exact h.handled x hold hxkey hxphase
    · rw [hbody]
      exact h.handled w hw (hkey.symm.trans hxkey) hphase
  · intro x hx hsrc v hdec
    rw [hcopies] at hx
    obtain ⟨hhere, hmem⟩ := h.copied x hx hsrc v hdec
    exact ⟨hhere, hstarted _ hmem⟩
  · intro hhere hrem
    apply hstarted
    rcases hrem with ⟨x, hx, hxkey, resp, hxphase⟩ | ⟨resp, hlook⟩
    · rcases hcases x hx with hold | rfl
      · exact h.remembered hhere (Or.inl ⟨x, hold, hxkey, resp, hxphase⟩)
      · have hwkey : w.key = key := hkey.symm.trans hxkey
        have hmem := hknown ⟨resp, hxphase⟩
        rw [hwkey, (h.handled w hw hwkey hphase).2] at hmem
        exact hmem
    · exact h.remembered hhere (Or.inr ⟨resp, hdedup ▸ hlook⟩)

/-- Fewer threads, and what they leave behind. -/
theorem Owned.of_subset (h : s.Owned here key payload) (hjobs : ∀ w ∈ s'.jobs, w ∈ s.jobs)
    (hcopies : ∀ x ∈ s'.copies, x ∈ s.copies) (hstarted : s'.started = s.started)
    (hcached : ∀ resp, s'.dedup.lookup key = some (some resp) → s.Remembers key) :
    s'.Owned here key payload := by
  constructor
  · intro w hw
    exact h.handled w (hjobs w hw)
  · intro x hx
    rw [hstarted]
    exact h.copied x (hcopies x hx)
  · intro hhere hrem
    rw [hstarted]
    apply h.remembered hhere
    rcases hrem with ⟨w, hw, hkey, hphase⟩ | ⟨resp, hlook⟩
    · exact Or.inl ⟨w, hjobs w hw, hkey, hphase⟩
    · exact hcached resp hlook

/-- A thread moves, and what it sends answers the call. -/
theorem Owned.moved (h : s.Owned here key payload) (hinv : Inv s) {m : ServerMove}
    (hm : Moved s m s') :
    s'.Owned here key payload ∧ ∀ x ∈ s.outgoing m, x.1 = key.1 →
      ∀ v, decodeFrame x.2 = some (key.2, v) → here ∧ (key, payload) ∈ s'.started := by
  have hcached : ∀ resp, s.dedup.lookup key = some (some resp) → s.Remembers key :=
    fun resp hlook => Or.inr ⟨resp, hlook⟩
  have hquiet : s.outgoing m = [] → ∀ x ∈ s.outgoing m, x.1 = key.1 →
      ∀ v, decodeFrame x.2 = some (key.2, v) → here ∧ (key, payload) ∈ s'.started := by
    intro hnone x hx
    rw [hnone] at hx
    cases hx
  cases hm with
  | spawnReplay hloop =>
    refine ⟨h.of_subset ?_ ?_ rfl hcached, hquiet rfl⟩
    · simp [jobs_spawnReplay hloop]
    · simp [RpcServer.copies, hloop]
  | spawnWorker hloop =>
    refine ⟨h.of_subset ?_ ?_ rfl hcached, hquiet rfl⟩
    · simp [jobs_spawnWorker hloop]
    · simp [RpcServer.copies, hloop]
  | @start i src rpcId body hi =>
    refine ⟨?_, hquiet rfl⟩
    exact h.advance hi (u := ⟨src, rpcId, body, .computing⟩) rfl rfl (by simp) (by simp) rfl rfl rfl
      fun x hx => List.mem_append_left _ hx
  | @finish i value src rpcId body hi =>
    refine ⟨?_, hquiet rfl⟩
    exact h.advance hi (u := ⟨src, rpcId, body, .sending (encodeFrame rpcId value)⟩) rfl rfl
      (by simp) (by simp) rfl rfl rfl fun x hx => hx
  | panic hi =>
    refine ⟨h.of_subset ?_ (fun x hx => hx) rfl hcached, hquiet rfl⟩
    exact fun x hx => mem_jobs_of_eraseIdx hi hx
  | @send i src rpcId body resp hi =>
    have hw : (⟨src, rpcId, body, .sending resp⟩ : Worker Addr) ∈ s.jobs :=
      List.mem_of_getElem? (jobs_getElem? hi)
    obtain ⟨hstarted, hanswers⟩ : ((src, rpcId), body) ∈ s.started ∧ s.Answers (src, rpcId) resp :=
      hinv.doing _ hw
    constructor
    · exact h.advance hi (u := ⟨src, rpcId, body, .storing resp⟩) rfl rfl (by simp)
        (fun _ => hstarted) rfl rfl rfl fun x hx => hx
    · intro x hx hsrc v hdec
      simp only [outgoing, hi, List.mem_singleton] at hx
      subst hx
      obtain ⟨hid, _⟩ := hanswers.decode hdec
      have hkey : (src, rpcId) = key := Prod.ext hsrc hid.symm
      obtain ⟨hhere, hbody⟩ := h.handled _ hw hkey (by simp)
      refine ⟨hhere, ?_⟩
      rw [← hkey, ← hbody]
      exact hstarted
  | @store i src rpcId body resp hi =>
    refine ⟨h.of_subset (fun x hx => mem_jobs_of_eraseIdx hi hx) (fun x hx => hx) rfl ?_, hquiet rfl⟩
    intro resp' hlook
    rw [KeyMap.lookup_insert_eq] at hlook
    split_ifs at hlook with hkey
    · exact Or.inl ⟨_, List.mem_of_getElem? (jobs_getElem? hi), hkey.symm, resp, rfl⟩
    · exact Or.inr ⟨resp', hlook⟩
  | @replay i copy hi =>
    have hcopy : copy ∈ s.copies := List.mem_append_left _ (List.mem_of_getElem? hi)
    constructor
    · refine h.of_subset (fun w hw => hw) ?_ rfl hcached
      intro x hx
      rcases List.mem_append.mp hx with hold | hin
      · exact List.mem_append_left _ (List.mem_of_mem_eraseIdx hold)
      · exact List.mem_append_right _ hin
    · intro x hx
      simp only [outgoing, hi, Option.toList_some, List.mem_singleton] at hx
      subst hx
      exact h.copied x hcopy

theorem Moved.started_subset {m : ServerMove} (hm : Moved s m s') :
    ∀ x ∈ s.started, x ∈ s'.started := by
  intro x hx
  cases hm with
  | start => exact List.mem_append_left _ hx
  | _ => exact hx

theorem Moved.returned_subset {m : ServerMove} (hm : Moved s m s') :
    ∀ x ∈ s.returned, x ∈ s'.returned := by
  intro x hx
  cases hm with
  | finish => exact List.mem_append_left _ hx
  | _ => exact hx

theorem Received.histories {src : Addr} {frame : List UInt8} (hr : Received s src frame s') :
    s'.started = s.started ∧ s'.returned = s.returned := by
  cases hr <;> exact ⟨rfl, rfl⟩

/-- Each value that was returned is on its way to the cache, or is there. -/
def Kept (s : RpcServer Addr) : Prop :=
  ∀ x ∈ s.returned,
    (∃ w ∈ s.jobs, w.key = x.1 ∧ ∃ resp, w.phase = .sending resp ∨ w.phase = .storing resp) ∨
    ∃ resp, s.dedup.lookup x.1 = some (some resp)

/-- What is not handled and not remembered was not returned. -/
theorem Kept.not_returned (h : s.Kept) (hhandles : ¬ s.Handles key)
    (hremembers : ¬ s.Remembers key) :
    key ∉ s.returned.map Prod.fst := by
  intro hmem
  obtain ⟨x, hx, rfl⟩ := List.mem_map.mp hmem
  rcases h x hx with ⟨w, hw, hkey, resp, hphase | hphase⟩ | hcached
  · exact hhandles (Or.inl ⟨w, hw, hkey, by simp [hphase]⟩)
  · exact hremembers (Or.inl ⟨w, hw, hkey, resp, hphase⟩)
  · exact hremembers (Or.inr hcached)

theorem Kept.received (h : s.Kept) (hloop : s.loop = .receiving) {src : Addr} {frame : List UInt8}
    (hr : Received s src frame s') : s'.Kept := by
  have hjobs : s.jobs = s.workers := jobs_of_receiving hloop
  intro x hx
  rw [hr.histories.2] at hx
  cases hr with
  | malformed => exact h x hx
  | ongoing => exact h x hx
  | cached =>
    apply (h x hx).imp_left
    rintro ⟨w, hw, hrest⟩
    exact ⟨w, List.mem_append_left _ (hjobs ▸ hw), hrest⟩
  | @accepted rpcId body hdec hnew =>
    rcases h x hx with ⟨w, hw, hrest⟩ | ⟨resp, hlook⟩
    · exact Or.inl ⟨w, List.mem_append_left _ (hjobs ▸ hw), hrest⟩
    · have hne : x.1 ≠ (src, rpcId) := by
        intro heq
        rw [heq, hnew] at hlook
        cases hlook
      right
      rw [KeyMap.lookup_insert_eq, if_neg hne]
      exact ⟨resp, hlook⟩

theorem Kept.moved (h : s.Kept) {m : ServerMove} (hm : Moved s m s') : s'.Kept := by
  -- the worker that moves has another key, or goes on with its value
  have hset : ∀ {i w u}, s.workers[i]? = some w → u.key = w.key →
      ((∃ resp, w.phase = .sending resp) → ∃ resp, u.phase = .storing resp) →
      (∀ resp, w.phase ≠ .storing resp) → ∀ x ∈ s.returned,
      (∃ v ∈ (s.setWorker i u).jobs, v.key = x.1 ∧
        ∃ resp, v.phase = .sending resp ∨ v.phase = .storing resp) ∨
      ∃ resp, s.dedup.lookup x.1 = some (some resp) := by
    intro i w u hi hkey hgo hstop x hx
    have hi' := jobs_getElem? hi
    apply (h x hx).imp_left
    rintro ⟨v, hv, hvkey, resp, hphase⟩
    rw [jobs_setWorker hi]
    obtain ⟨j, hj⟩ := List.mem_iff_getElem?.mp hv
    obtain ⟨hilt, -⟩ := List.getElem?_eq_some_iff.mp hi'
    by_cases hij : i = j
    · subst hij
      obtain rfl := Option.some.inj (hi'.symm.trans hj)
      refine ⟨u, List.mem_set hilt u, hkey.trans hvkey, ?_⟩
      rcases hphase with hsending | hstoring
      · obtain ⟨resp', hstoring⟩ := hgo ⟨resp, hsending⟩
        exact ⟨resp', Or.inr hstoring⟩
      · exact absurd hstoring (hstop resp)
    · refine ⟨v, List.mem_of_getElem? (i := j) ?_, hvkey, resp, hphase⟩
      rw [List.getElem?_set_ne hij, hj]
  cases hm with
  | spawnReplay hloop =>
    intro x hx
    rw [jobs_spawnReplay hloop]
    exact h x hx
  | spawnWorker hloop =>
    intro x hx
    rw [jobs_spawnWorker hloop]
    exact h x hx
  | start hi => exact hset hi rfl (by simp) (by simp)
  | @finish i value src rpcId body hi =>
    intro x hx
    rcases List.mem_append.mp hx with hold | hnew
    · exact hset (u := ⟨src, rpcId, body, .sending (encodeFrame rpcId value)⟩) hi rfl (by simp)
        (by simp) x hold
    · obtain rfl := List.mem_singleton.mp hnew
      left
      refine ⟨⟨src, rpcId, body, .sending (encodeFrame rpcId value)⟩, ?_, rfl, _, Or.inl rfl⟩
      apply List.mem_append_left
      obtain ⟨hilt, -⟩ := List.getElem?_eq_some_iff.mp hi
      exact List.mem_set hilt _
  | @panic i src rpcId body hi =>
    intro x hx
    apply (h x hx).imp_left
    rintro ⟨v, hv, hkey, resp, hphase⟩
    refine ⟨v, mem_eraseIdx_of_jobs hi hv ?_, hkey, resp, hphase⟩
    rintro rfl
    simp at hphase
  | send hi => exact hset hi rfl (fun _ => ⟨_, rfl⟩) (by simp)
  | @store i src rpcId body resp hi =>
    intro x hx
    by_cases hkey : x.1 = (src, rpcId)
    · right
      rw [KeyMap.lookup_insert_eq, if_pos hkey]
      exact ⟨resp, rfl⟩
    · rw [KeyMap.lookup_insert_eq, if_neg hkey]
      apply (h x hx).imp_left
      rintro ⟨v, hv, hvkey, hphase⟩
      refine ⟨v, mem_eraseIdx_of_jobs hi hv ?_, hvkey, hphase⟩
      rintro rfl
      exact hkey hvkey.symm
  | replay => exact h

theorem Kept.step (h : s.Kept) {e : ServerEvent Addr} (hstep : s.step e = some s') : s'.Kept := by
  cases e with
  | receive src frame =>
    obtain ⟨hloop, hr⟩ := step_received hstep
    exact h.received hloop hr
  | move m => exact h.moved (move_spec hstep)

theorem kept_of_run {evs : List (ServerEvent Addr)}
    (h : Run RpcServer.step anyEvent RpcServer.new evs s) : s.Kept := by
  apply h.invariant (fun _ _ _ hs _ hstep => hs.step hstep)
  intro x hx
  cases hx

end RpcServer
end AgentTransport
