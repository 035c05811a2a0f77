import AgentTransport.Network
import AgentTransport.Sending
import AgentTransport.Handling
import Mathlib.Logic.Relation

/-!
# The life of one message

A transfer is what a network state says about one message: its entry at the sender,
its entry at the receiver, and the packets ever sent for it. Since the network may
delay and repeat at will, a packet that arrives is just one that was sent, and the
packets in flight need no record. A transfer moves on its own. Every event of the
network is for every message a sequence of its moves.
-/
namespace AgentTransport
open ByteString Transition

variable {Addr : Type} [DecidableEq Addr]

/-- What runs are restricted to: the messages started, and the GRANTs and RESENDs
that reach a message. -/
structure Policy where
  start : List UInt8 → Prop
  grant : TransportConfig → OutMsg → Packet → Prop
  resend : TransportConfig → OutMsg → Packet → Prop

/-- No restriction. -/
def Policy.any : Policy := ⟨fun _ => True, fun _ _ _ => True, fun _ _ _ => True⟩

/-- The events a policy admits in a state. -/
def Network.Admits (p : Policy) (s : Network Addr) : Event Addr → Prop
  | .start _ _ data _ => p.start data
  | .deliver i _ _ => ∀ d ∈ s.flight[i]?, ∀ pkt payload,
      Packet.decode d.bytes = .ok (pkt, payload) →
      ∀ o, (s.senders d.dest).out.lookup (d.src, pkt.msgId) = some o →
        (pkt.typ = .grant → p.grant (s.senders d.dest).cfg o pkt) ∧
        (pkt.typ = .resend → p.resend (s.senders d.dest).cfg o pkt)
  | _ => True

/-- A policy without restrictions admits every event. -/
theorem Network.admits_any (s : Network Addr) (e : Event Addr) : s.Admits Policy.any e := by
  cases e with
  | deliver => exact fun _ _ _ _ _ _ _ => ⟨fun _ => trivial, fun _ => trivial⟩
  | _ => trivial

instance (p : Policy) [DecidablePred p.start] [∀ cfg o, DecidablePred (p.grant cfg o)]
    [∀ cfg o, DecidablePred (p.resend cfg o)] (s : Network Addr) : DecidablePred (s.Admits p) :=
  fun e =>
  match e with
  | .start _ _ data _ => inferInstanceAs (Decidable (p.start data))
  | .deliver i _ _ => decidable_of_iff (∀ d ∈ s.flight[i]?, ∀ x ∈ (Packet.decode d.bytes).toOption,
      ∀ o ∈ (s.senders d.dest).out.lookup (d.src, x.1.msgId),
        (x.1.typ = .grant → p.grant (s.senders d.dest).cfg o x.1) ∧
        (x.1.typ = .resend → p.resend (s.senders d.dest).cfg o x.1)) <| by
    refine forall₂_congr fun d _ =>
      ⟨fun h pkt payload hdec => h (pkt, payload) ?_, fun h x hx => ?_⟩
    · rw [hdec]
      rfl
    · cases hdec : Packet.decode d.bytes with
      | error msg =>
        rw [hdec] at hx
        cases hx
      | ok y =>
        rw [hdec] at hx
        obtain rfl := Option.some.inj hx
        exact h y.1 y.2 hdec
  | .drop _ | .duplicate _ | .senderTick _ _ _ | .receiverTick _ _ =>
    inferInstanceAs (Decidable True)

@[ext] structure Transfer where
  /-- The entry at the sender. -/
  out : Option OutMsg
  /-- The entry at the receiver. -/
  entry : Option InMsg
  /-- The DATA packets sent so far. -/
  sent : Set (Packet × List UInt8)
  /-- The RESENDs sent so far. -/
  resends : Set Packet
  delivered : Set (List UInt8)

/-- The DATA packets for a list of ranges. -/
def frames (data : List UInt8) (msgId : UInt64) (rs : List (ℕ × ℕ)) :
    Set (Packet × List UInt8) :=
  {x | ∃ r ∈ rs, x = (dataHeader data msgId r.1 r.2, slice data r.1 r.2)}

namespace Transfer

/-- A message that was never started. -/
def idle : Transfer := ⟨none, none, ∅, ∅, ∅⟩

/-- A message that was just started. -/
def first (cfg : TransportConfig) (msgId : UInt64) (data : List UInt8) (now : ℕ) : Transfer :=
  ⟨some (OutMsg.started cfg data now), none, frames data msgId (OutMsg.startRanges cfg data), ∅, ∅⟩

/-- The entry a DATA packet is written to. -/
def entryFor (cfg : TransportConfig) (pkt : Packet) (now : ℕ) (t : Transfer) : InMsg :=
  t.entry.getD (InMsg.new cfg pkt.msgLen.toNat now)

/-- The moves of a message that was started. -/
inductive Step (cfg : TransportConfig) (p : Policy) (rcv : Addr) (key : MsgKey Addr) :
    Transfer → Transfer → Prop
  | grant {t : Transfer} {o : OutMsg} (pkt : Packet) (now : ℕ) (hout : t.out = some o)
      (hok : p.grant cfg o pkt) :
      Step cfg p rcv key t { t with
        out := some (o.handleGrant cfg rcv pkt now).1
        sent := t.sent ∪ frames o.data key.2 (o.grantRanges cfg pkt) }
  | resend {t : Transfer} {o : OutMsg} (pkt : Packet) (now : ℕ) (hout : t.out = some o)
      (hpkt : pkt ∈ t.resends) (hok : p.resend cfg o pkt) :
      Step cfg p rcv key t { t with
        out := some (o.handleResend cfg rcv pkt now).1
        sent := t.sent ∪ frames o.data key.2 (o.answerRanges cfg pkt) }
  | busy {t : Transfer} {o : OutMsg} (now : ℕ) (hout : t.out = some o) :
      Step cfg p rcv key t { t with out := some (o.handleBusy now) }
  | poke {t : Transfer} {o : OutMsg} (now : ℕ) (hout : t.out = some o) (hdone : o.doneAt = none) :
      Step cfg p rcv key t { t with
        out := some { o with lastProgress := now }
        sent := t.sent ∪ frames o.data key.2 (o.pokeRanges cfg) }
  | reclaim {t : Transfer} {o : OutMsg} (hout : t.out = some o) (hdone : o.doneAt.isSome) :
      Step cfg p rcv key t { t with out := none }
  | store {t : Transfer} {m : InMsg} {pkt : Packet} {payload : List UInt8} (now : ℕ)
      (hsent : (pkt, payload) ∈ t.sent)
      (hm : (t.entryFor cfg pkt now).accept cfg pkt payload now = some m)
      (hopen : m.complete = false) :
      Step cfg p rcv key t { t with entry := some m }
  | deliver {t : Transfer} {pkt : Packet} {payload data : List UInt8} (now : ℕ)
      (hsent : (pkt, payload) ∈ t.sent)
      (hdata : (pkt.msgLen.toNat = 0 ∧ data = []) ∨ (0 < pkt.msgLen.toNat ∧ ∃ m,
        (t.entryFor cfg pkt now).accept cfg pkt payload now = some m ∧
          m.complete = true ∧ data = m.buf)) :
      Step cfg p rcv key t { t with entry := none, delivered := insert data t.delivered }
  | rewindow {t : Transfer} {m m' : InMsg} (hentry : t.entry = some m)
      (hsame : InMsg.SameContent m m') :
      Step cfg p rcv key t { t with entry := some m' }
  | ask {t : Transfer} {m : InMsg} {off : ℕ} (hentry : t.entry = some m)
      (hoff : m.missingInWindow cfg = some off) :
      Step cfg p rcv key t { t with resends := insert (m.resendPacket cfg key off) t.resends }
  | giveUp {t : Transfer} {m : InMsg} {off : ℕ} (hentry : t.entry = some m)
      (hoff : m.missingInWindow cfg = some off) :
      Step cfg p rcv key t { t with entry := none }

/-- Sequences of moves. -/
abbrev Steps (cfg : TransportConfig) (p : Policy) (rcv : Addr) (key : MsgKey Addr) :
    Transfer → Transfer → Prop :=
  Relation.ReflTransGen (Step cfg p rcv key)

variable {cfg : TransportConfig} {p : Policy} {rcv : Addr} {key : MsgKey Addr} {t t' : Transfer}

omit [DecidableEq Addr] in
/-- A move that another policy admits too. -/
theorem Step.restrict {p' : Policy} (h : Step cfg p rcv key t t')
    (hgrant : ∀ o pkt, t.out = some o → p.grant cfg o pkt → p'.grant cfg o pkt)
    (hresend : ∀ o pkt, t.out = some o → p.resend cfg o pkt → p'.resend cfg o pkt) :
    Step cfg p' rcv key t t' := by
  cases h with
  | grant pkt now hout hok => exact .grant pkt now hout (hgrant _ pkt hout hok)
  | resend pkt now hout hpkt hok => exact .resend pkt now hout hpkt (hresend _ pkt hout hok)
  | busy now hout => exact .busy now hout
  | poke now hout hdone => exact .poke now hout hdone
  | reclaim hout hdone => exact .reclaim hout hdone
  | store now hsent hm hopen => exact .store now hsent hm hopen
  | deliver now hsent hdata => exact .deliver now hsent hdata
  | rewindow hentry hsame => exact .rewindow hentry hsame
  | ask hentry hoff => exact .ask hentry hoff
  | giveUp hentry hoff => exact .giveUp hentry hoff

omit [DecidableEq Addr] in
/-- A message that was never started does not move. -/
theorem Steps.idle_eq (h : Steps cfg p rcv key idle t) : t = idle := by
  induction h with
  | refl => rfl
  | tail _ hstep ih =>
    rw [ih] at hstep
    cases hstep with
    | grant _ _ hout => cases hout
    | resend _ _ hout => cases hout
    | busy _ hout => cases hout
    | poke _ hout => cases hout
    | reclaim hout => cases hout
    | store _ hsent => cases hsent
    | deliver _ hsent => cases hsent
    | rewindow hentry => cases hentry
    | ask hentry => cases hentry
    | giveUp hentry => cases hentry

omit [DecidableEq Addr] in
/-- What holds of a message just started and is kept by its moves holds always. -/
theorem Steps.invariant {P : Transfer → Prop} {data : List UInt8} {now : ℕ}
    (h : Steps cfg p rcv key (first cfg key.2 data now) t)
    (hfirst : P (first cfg key.2 data now))
    (hstep : ∀ t t', P t → Step cfg p rcv key t t' → P t') : P t := by
  induction h with
  | refl => exact hfirst
  | tail _ hs ih => exact hstep _ _ ih hs

omit [DecidableEq Addr] in
/-- What the handlers of the sender keep of an entry, the moves keep. -/
theorem Steps.out_invariant {E : OutMsg → Prop} {data : List UInt8} {now : ℕ}
    (h : Steps cfg p rcv key (first cfg key.2 data now) t)
    (hfirst : E (OutMsg.started cfg data now))
    (hgrant : ∀ o pkt now, E o → p.grant cfg o pkt → E (o.handleGrant cfg rcv pkt now).1)
    (hresend : ∀ o pkt now, E o → p.resend cfg o pkt → E (o.handleResend cfg rcv pkt now).1)
    (hclock : ∀ o now, E o → E { o with lastProgress := now }) :
    ∀ o, t.out = some o → E o := by
  refine h.invariant (P := fun t => ∀ o, t.out = some o → E o) ?_ ?_
  · intro o ho
    obtain rfl := Option.some.inj ho
    exact hfirst
  · intro t t' hE hs
    cases hs with
    | grant pkt now hout hok =>
      intro o ho
      obtain rfl := Option.some.inj ho
      exact hgrant _ pkt now (hE _ hout) hok
    | resend pkt now hout _ hok =>
      intro o ho
      obtain rfl := Option.some.inj ho
      exact hresend _ pkt now (hE _ hout) hok
    | busy now hout =>
      intro o ho
      obtain rfl := Option.some.inj ho
      exact hclock _ now (hE _ hout)
    | poke now hout _ =>
      intro o ho
      obtain rfl := Option.some.inj ho
      exact hclock _ now (hE _ hout)
    | reclaim =>
      intro o ho
      cases ho
    | store => exact hE
    | deliver => exact hE
    | rewindow => exact hE
    | ask => exact hE
    | giveUp => exact hE

omit [DecidableEq Addr] in
/-- The sender's entry holds the message it was started with, and no position in it
is past the end. -/
theorem Steps.out_within {data : List UInt8} {now : ℕ}
    (h : Steps cfg p rcv key (first cfg key.2 data now) t) :
    ∀ o, t.out = some o → o.data = data ∧ o.nextSend ≤ data.length := by
  refine h.out_invariant (E := fun o => o.data = data ∧ o.nextSend ≤ data.length) ?_ ?_ ?_ ?_
  · exact ⟨rfl, pumpEnd_le (Nat.zero_le _)⟩
  · rintro o pkt now ⟨rfl, hle⟩ _
    exact ⟨OutMsg.handleGrant_data cfg rcv pkt now o,
      OutMsg.handleGrant_nextSend_le cfg rcv pkt now hle⟩
  · rintro o pkt now ⟨rfl, hle⟩ _
    exact ⟨rfl, OutMsg.handleResend_nextSend_le cfg rcv pkt now hle⟩
  · intro o now hE
    exact hE

end Transfer
end AgentTransport
