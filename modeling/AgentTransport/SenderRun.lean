import AgentTransport.Sending

/-!
# Runs of the sender

The sender core is called to start a message, with a decoded control packet, or with the
time. Here every call is described by the ranges it sends, each under the key of its
message, and by what it makes of the entry of a key.
-/
namespace AgentTransport
open Fragmentation

variable {Addr : Type} [DecidableEq Addr]

/-- The calls of the sender core. -/
inductive SenderCall (Addr : Type) where
  | start (dest : Addr) (msgId : UInt64) (data : List UInt8) (now : ℕ)
  | grant (src : Addr) (pkt : Packet) (now : ℕ)
  | resend (src : Addr) (pkt : Packet) (now : ℕ)
  | busy (src : Addr) (pkt : Packet) (now : ℕ)
  | tick (now : ℕ) (order : MapOrder (MsgKey Addr))
  | finish (dest : Addr) (msgId : UInt64)

/-- The messages have lengths that a header can state. -/
def SenderCall.Short : SenderCall Addr → Prop
  | .start _ _ data _ => data.length < 2 ^ 32
  | _ => True

/-- A message that is probed is not reclaimed: it is still being sent. -/
theorem OutMsg.lingers_of_stalled {cfg : TransportConfig} {now : ℕ} {m : OutMsg}
    (h : m.stalled cfg now) : m.lingers cfg now := by
  rw [lingers, doneAt_of_stalled h]
  rfl

/-- The message that a call authorises bytes of. -/
def SenderCall.authorises : SenderCall Addr → Option (MsgKey Addr)
  | .start dest msgId _ _ => some (dest, msgId)
  | .grant src pkt _ => some (src, pkt.msgId)
  | .resend src pkt _ => some (src, pkt.msgId)
  | _ => none

namespace SenderCore

def call (s : SenderCore Addr) : SenderCall Addr → SenderCore Addr × List (Action Addr)
  | .start dest msgId data now => s.start dest msgId data now
  | .grant src pkt now => s.handleGrant src pkt now
  | .resend src pkt now => s.handleResend src pkt now
  | .busy src pkt now => (s.handleBusy src pkt now, [])
  | .tick now order => s.tick now order
  | .finish dest msgId => (s.finish dest msgId, [])

/-- The calls of a run, each with the state in which it is made. -/
def history : SenderCore Addr → List (SenderCall Addr) → List (SenderCore Addr × SenderCall Addr)
  | _, [] => []
  | s, c :: calls => (s, c) :: history (s.call c).1 calls

/-- The call sends the range `r` of the message `data` under the key. -/
inductive Emits (s : SenderCore Addr) :
    SenderCall Addr → MsgKey Addr → List UInt8 → ℕ × ℕ → Prop
  | start {dest : Addr} {msgId : UInt64} {data : List UInt8} {now : ℕ} {r : ℕ × ℕ}
      (hr : r ∈ OutMsg.startRanges s.cfg data) :
      Emits s (.start dest msgId data now) (dest, msgId) data r
  | grant {src : Addr} {pkt : Packet} {now : ℕ} {m : OutMsg} {r : ℕ × ℕ}
      (hm : s.out.lookup (src, pkt.msgId) = some m) (hr : r ∈ m.grantRanges s.cfg pkt) :
      Emits s (.grant src pkt now) (src, pkt.msgId) m.data r
  | resend {src : Addr} {pkt : Packet} {now : ℕ} {m : OutMsg} {r : ℕ × ℕ}
      (hm : s.out.lookup (src, pkt.msgId) = some m) (hr : r ∈ m.answerRanges s.cfg pkt) :
      Emits s (.resend src pkt now) (src, pkt.msgId) m.data r
  | poke {now : ℕ} {order : MapOrder (MsgKey Addr)} {key : MsgKey Addr} {m : OutMsg} {r : ℕ × ℕ}
      (hm : s.out.lookup key = some m) (hstalled : m.stalled s.cfg now)
      (hr : r ∈ m.pokeRanges s.cfg) : Emits s (.tick now order) key m.data r

/-- What a call makes of an entry that it finds. -/
inductive Turns (cfg : TransportConfig) (key : MsgKey Addr) :
    SenderCall Addr → OutMsg → OutMsg → Prop
  | same {c : SenderCall Addr} {m : OutMsg} (hother : c.authorises ≠ some key) :
      Turns cfg key c m m
  | grant {src : Addr} {pkt : Packet} {now : ℕ} {m : OutMsg} (hk : key = (src, pkt.msgId)) :
      Turns cfg key (.grant src pkt now) m (m.handleGrant cfg src pkt now).1
  | resend {src : Addr} {pkt : Packet} {now : ℕ} {m : OutMsg} (hk : key = (src, pkt.msgId)) :
      Turns cfg key (.resend src pkt now) m (m.handleResend cfg src pkt now).1
  | busy {src : Addr} {pkt : Packet} {now : ℕ} {m : OutMsg} :
      Turns cfg key (.busy src pkt now) m (m.handleBusy now)
  | poke {now : ℕ} {order : MapOrder (MsgKey Addr)} {m : OutMsg} :
      Turns cfg key (.tick now order) m { m with lastProgress := now }

variable {s : SenderCore Addr} {c : SenderCall Addr} {key : MsgKey Addr}

@[simp] theorem call_cfg (s : SenderCore Addr) (c : SenderCall Addr) :
    (s.call c).1.cfg = s.cfg := by
  cases c with
  | start dest msgId data now => exact update_cfg _ _ _
  | grant src pkt now => exact update_cfg _ _ _
  | resend src pkt now => exact update_cfg _ _ _
  | busy src pkt now => exact update_cfg _ _ _
  | tick now order => exact tick_cfg s now order
  | finish dest msgId => rfl

/-- An entry after a call is that of a message just started, or one the call found. -/
theorem entry_call {m' : OutMsg} (h : (s.call c).1.out.lookup key = some m') :
    (∃ data now, c = .start key.1 key.2 data now ∧ m' = OutMsg.started s.cfg data now) ∨
      ∃ m, s.out.lookup key = some m ∧ Turns s.cfg key c m m' := by
  cases c with
  | start dest msgId data now =>
    simp only [call, lookup_start] at h
    split_ifs at h with hk
    · obtain rfl := Option.some.inj h
      rw [hk]
      exact Or.inl ⟨data, now, rfl, rfl⟩
    · exact Or.inr ⟨m', h, .same fun hkey => hk (Option.some.inj hkey).symm⟩
  | grant src pkt now =>
    simp only [call, handleGrant, lookup_update] at h
    split_ifs at h with hk
    · obtain ⟨m, hm, rfl⟩ := Option.map_eq_some_iff.mp h
      exact Or.inr ⟨m, hk ▸ hm, .grant hk⟩
    · exact Or.inr ⟨m', h, .same fun hkey => hk (Option.some.inj hkey).symm⟩
  | resend src pkt now =>
    simp only [call, handleResend, lookup_update] at h
    split_ifs at h with hk
    · obtain ⟨m, hm, rfl⟩ := Option.map_eq_some_iff.mp h
      exact Or.inr ⟨m, hk ▸ hm, .resend hk⟩
    · exact Or.inr ⟨m', h, .same fun hkey => hk (Option.some.inj hkey).symm⟩
  | busy src pkt now =>
    simp only [call, handleBusy, lookup_update] at h
    split_ifs at h with hk
    · obtain ⟨m, hm, rfl⟩ := Option.map_eq_some_iff.mp h
      exact Or.inr ⟨m, hk ▸ hm, .busy⟩
    · exact Or.inr ⟨m', h, .same fun hkey => by cases hkey⟩
  | tick now order =>
    simp only [call, lookup_tick] at h
    obtain ⟨m, hm, rfl⟩ := Option.map_eq_some_iff.mp h
    obtain ⟨hlook, _⟩ := Option.filter_eq_some_iff.mp hm
    refine Or.inr ⟨m, hlook, ?_⟩
    unfold OutMsg.tickEntry
    split_ifs
    · exact .poke
    · exact .same fun hkey => by cases hkey
  | finish dest msgId =>
    simp only [call, finish, KeyMap.lookup_erase_eq] at h
    split_ifs at h
    exact Or.inr ⟨m', h, .same fun hkey => by cases hkey⟩

omit [DecidableEq Addr] in
theorem Turns.data {cfg : TransportConfig} {m m' : OutMsg} (h : Turns cfg key c m m') :
    m'.data = m.data := by
  cases h with
  | grant => exact OutMsg.handleGrant_data ..
  | _ => rfl

omit [DecidableEq Addr] in
theorem Turns.advances {cfg : TransportConfig} {m m' : OutMsg} (h : Turns cfg key c m m')
    (hnext : m.nextSend ≤ m.data.length) : m.Advances m' := by
  cases h with
  | same => exact .refl m
  | grant => exact .handleGrant _ _ _ _ hnext
  | resend => exact .handleResend ..
  | busy => exact ⟨rfl, le_rfl, le_rfl, fun _ hd => hd⟩
  | poke => exact ⟨rfl, le_rfl, le_rfl, fun _ hd => hd⟩

/-- A call sends exactly the ranges that `Emits` lists. -/
theorem mem_call {a : Action Addr} : a ∈ (s.call c).2 ↔
    ∃ key data r, Emits s c key data r ∧ a = .send key.1 (dataPacket data key.2 r.1 r.2) := by
  cases c with
  | start dest msgId data now =>
    simp only [call, start_acts, sendRanges, List.mem_map]
    constructor
    · rintro ⟨r, hr, rfl⟩
      exact ⟨(dest, msgId), data, r, .start hr, rfl⟩
    · rintro ⟨_, _, r, hemit, rfl⟩
      cases hemit with
      | start hr => exact ⟨r, hr, rfl⟩
  | grant src pkt now =>
    simp only [call, handleGrant, mem_update_outputs, OutMsg.handleGrant_acts, sendRanges,
      List.mem_map]
    constructor
    · rintro ⟨m, hm, r, hr, rfl⟩
      exact ⟨_, _, r, .grant hm hr, rfl⟩
    · rintro ⟨_, _, r, hemit, rfl⟩
      cases hemit with
      | grant hm hr => exact ⟨_, hm, r, hr, rfl⟩
  | resend src pkt now =>
    simp only [call, handleResend, mem_update_outputs, OutMsg.handleResend_acts, sendRanges,
      List.mem_map]
    constructor
    · rintro ⟨m, hm, r, hr, rfl⟩
      exact ⟨_, _, r, .resend hm hr, rfl⟩
    · rintro ⟨_, _, r, hemit, rfl⟩
      cases hemit with
      | resend hm hr => exact ⟨_, hm, r, hr, rfl⟩
  | busy src pkt now =>
    simp only [call, List.not_mem_nil, false_iff]
    rintro ⟨_, _, _, hemit, _⟩
    cases hemit
  | tick now order =>
    simp only [call, mem_tick_acts]
    constructor
    · rintro ⟨key, m, hm, _, ha⟩
      unfold OutMsg.tickEntry at ha
      split_ifs at ha with hstalled
      · obtain ⟨r, hr, rfl⟩ := List.mem_map.mp ha
        exact ⟨key, m.data, r, .poke hm hstalled hr, rfl⟩
      · cases ha
    · rintro ⟨key, _, r, hemit, rfl⟩
      cases hemit with
      | @poke _ _ _ m _ hm hstalled hr =>
        refine ⟨key, m, hm, OutMsg.lingers_of_stalled hstalled, ?_⟩
        rw [OutMsg.tickEntry, if_pos hstalled]
        exact List.mem_map.mpr ⟨r, hr, rfl⟩
  | finish dest msgId =>
    simp only [call, List.not_mem_nil, false_iff]
    rintro ⟨_, _, _, hemit, _⟩
    cases hemit

/-- The message a call sends from is in the map when the call returns. -/
theorem Emits.lookup_call {data : List UInt8} {r : ℕ × ℕ} (h : Emits s c key data r) :
    ∃ m, (s.call c).1.out.lookup key = some m ∧ m.data = data := by
  cases h with
  | start => exact ⟨_, (lookup_start ..).trans (if_pos rfl), rfl⟩
  | grant hm =>
    simp only [call, handleGrant, lookup_update, hm, if_true]
    exact ⟨_, rfl, OutMsg.handleGrant_data ..⟩
  | resend hm =>
    simp only [call, handleResend, lookup_update, hm, if_true]
    exact ⟨_, rfl, rfl⟩
  | @poke now _ _ m _ hm hstalled =>
    simp only [call, lookup_tick, hm, Option.filter_some, OutMsg.lingers_of_stalled hstalled,
      if_true]
    refine ⟨(m.tickEntry s.cfg now).1, rfl, ?_⟩
    rw [OutMsg.tickEntry, if_pos hstalled]

theorem mem_history_cons {t : SenderCore Addr} {d : SenderCall Addr}
    {calls : List (SenderCall Addr)} :
    (t, d) ∈ history s (c :: calls) ↔ (t = s ∧ d = c) ∨ (t, d) ∈ history (s.call c).1 calls := by
  simp [history]

theorem snd_mem_of_mem_history {calls : List (SenderCall Addr)}
    {x : SenderCore Addr × SenderCall Addr} (hx : x ∈ history s calls) : x.2 ∈ calls := by
  induction calls generalizing s with
  | nil => cases hx
  | cons d calls ih =>
    cases mem_history_cons.mp hx with
    | inl heq => exact heq.2 ▸ List.mem_cons_self
    | inr hrest => exact List.mem_cons_of_mem _ (ih hrest)

/-- What every call of a run keeps holds in every state in which a call is made. -/
theorem history_invariant {P : SenderCore Addr → Prop} {calls : List (SenderCall Addr)}
    (hstep : ∀ s, ∀ c ∈ calls, P s → P (s.call c).1) (hs : P s) :
    ∀ x ∈ history s calls, P x.1 := by
  induction calls generalizing s with
  | nil => simp [history]
  | cons c calls ih =>
    rintro ⟨t, d⟩ hx
    cases mem_history_cons.mp hx with
    | inl heq => exact heq.1 ▸ hs
    | inr hrest =>
      exact ih (fun s c hc => hstep s c (List.mem_cons_of_mem _ hc))
        (hstep s c List.mem_cons_self hs) _ hrest

end SenderCore
end AgentTransport
