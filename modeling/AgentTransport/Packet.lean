import AgentTransport.ByteString

/-!
# Wire format

A datagram is a fixed 22-byte little-endian header followed by a payload. The
header fields are reused by packet type: DATA carries a fragment of a message,
GRANT a cumulative authorisation, RESEND a requested range, BUSY nothing.
-/
namespace AgentTransport
open ByteString

/-- Header length in bytes. -/
def headerLen : ℕ := 22

inductive PacketType where
  | data
  | grant
  | resend
  | busy
  deriving DecidableEq, Repr

/-- The type byte, `typ as u8`. -/
def PacketType.toU8 : PacketType → UInt8
  | .data => 0
  | .grant => 1
  | .resend => 2
  | .busy => 3

def PacketType.fromU8 (v : UInt8) : Option PacketType :=
  if v = 0 then some .data
  else if v = 1 then some .grant
  else if v = 2 then some .resend
  else if v = 3 then some .busy
  else none

@[simp] theorem PacketType.fromU8_toU8 (t : PacketType) : fromU8 t.toU8 = some t := by
  cases t <;> rfl

theorem PacketType.toU8_of_fromU8 {v : UInt8} {t : PacketType} (h : fromU8 v = some t) :
    t.toU8 = v := by
  unfold fromU8 at h
  split_ifs at h with h₀ h₁ h₂ h₃
  all_goals
    obtain rfl := Option.some.inj h
    symm
    assumption

/-- A decoded header.
DATA: `msgLen` is the message length, `offset` and `length` place the payload.
GRANT: `offset` is the cumulative authorised offset, `length` what it adds.
RESEND: `offset` and `length` are the requested range. BUSY uses no field. -/
structure Packet where
  typ : PacketType
  priority : UInt8
  msgId : UInt64
  msgLen : UInt32
  offset : UInt32
  length : UInt32
  deriving DecidableEq, Repr

theorem toNat_ofNat_u32 {n : ℕ} (h : n < 2 ^ 32) : (UInt32.ofNat n).toNat = n := by
  rw [UInt32.toNat_ofNat', Nat.mod_eq_of_lt h]

namespace Packet

/-- Header and payload as one datagram. -/
def encode (p : Packet) (payload : List UInt8) : List UInt8 :=
  p.typ.toU8 :: p.priority :: (toLE 8 p.msgId.toNat ++ (toLE 4 p.msgLen.toNat ++
    (toLE 4 p.offset.toNat ++ (toLE 4 p.length.toNat ++ payload))))

/-- Parse a datagram. Every error of the source has kind `InvalidData`; the
strings are its messages. -/
def decode (datagram : List UInt8) : Except String (Packet × List UInt8) :=
  if datagram.length < headerLen then .error "datagram too short for header"
  else
    match PacketType.fromU8 (datagram.getD 0 0) with
    | none => .error "unknown packet type"
    | some typ =>
      let pkt : Packet :=
        { typ := typ
          priority := datagram.getD 1 0
          msgId := UInt64.ofNat (ofLE (slice datagram 2 10))
          msgLen := UInt32.ofNat (ofLE (slice datagram 10 14))
          offset := UInt32.ofNat (ofLE (slice datagram 14 18))
          length := UInt32.ofNat (ofLE (slice datagram 18 22)) }
      let payload := datagram.drop headerLen
      if pkt.typ = .data ∧ payload.length ≠ pkt.length.toNat then
        .error "DATA payload length mismatch"
      else .ok (pkt, payload)

theorem length_encode (p : Packet) (q : List UInt8) :
    (p.encode q).length = headerLen + q.length := by
  simp only [encode, headerLen, List.length_cons, List.length_append, length_toLE]
  omega

/-- A numeral field read back from between what precedes and what follows it. -/
theorem slice_field (pre rest : List UInt8) {d : List UInt8} {w n a b : ℕ}
    (hd : d = pre ++ (toLE w n ++ rest)) (ha : pre.length = a) (hb : a + w = b) :
    slice d a b = toLE w n := by
  subst ha hb hd
  rw [slice, List.take_length_add_append, List.drop_left' rfl, take_toLE_append]

theorem ofLE_toLE_u64 (x : UInt64) : UInt64.ofNat (ofLE (toLE 8 x.toNat)) = x := by
  have hx := x.toNat_lt
  rw [ofLE_toLE, Nat.mod_eq_of_lt (by omega), UInt64.ofNat_toNat]

theorem ofLE_toLE_u32 (x : UInt32) : UInt32.ofNat (ofLE (toLE 4 x.toNat)) = x := by
  have hx := x.toNat_lt
  rw [ofLE_toLE, Nat.mod_eq_of_lt (by omega), UInt32.ofNat_toNat]

/-- Decoding an encoded packet: only the length rule of DATA can reject it. -/
theorem decode_encode_eq (p : Packet) (q : List UInt8) :
    decode (p.encode q) =
      if p.typ = .data ∧ q.length ≠ p.length.toNat then .error "DATA payload length mismatch"
      else .ok (p, q) := by
  have hlen := length_encode p q
  have hid : slice (p.encode q) 2 10 = toLE 8 p.msgId.toNat :=
    slice_field [p.typ.toU8, p.priority] (toLE 4 p.msgLen.toNat ++
      (toLE 4 p.offset.toNat ++ (toLE 4 p.length.toNat ++ q))) rfl rfl rfl
  have hmsg : slice (p.encode q) 10 14 = toLE 4 p.msgLen.toNat :=
    slice_field ([p.typ.toU8, p.priority] ++ toLE 8 p.msgId.toNat)
      (toLE 4 p.offset.toNat ++ (toLE 4 p.length.toNat ++ q)) (by simp [encode]) (by simp) rfl
  have hoff : slice (p.encode q) 14 18 = toLE 4 p.offset.toNat :=
    slice_field ([p.typ.toU8, p.priority] ++ toLE 8 p.msgId.toNat ++ toLE 4 p.msgLen.toNat)
      (toLE 4 p.length.toNat ++ q) (by simp [encode]) (by simp) rfl
  have hlength : slice (p.encode q) 18 22 = toLE 4 p.length.toNat :=
    slice_field ([p.typ.toU8, p.priority] ++ toLE 8 p.msgId.toNat ++ toLE 4 p.msgLen.toNat ++
      toLE 4 p.offset.toNat) q (by simp [encode]) (by simp) rfl
  have hpay : (p.encode q).drop headerLen = q := by
    have h : p.encode q = ([p.typ.toU8, p.priority] ++ toLE 8 p.msgId.toNat ++
        toLE 4 p.msgLen.toNat ++ toLE 4 p.offset.toNat ++ toLE 4 p.length.toNat) ++ q := by
      simp [encode]
    rw [h]
    exact List.drop_left' (by simp [headerLen])
  have htyp : PacketType.fromU8 ((p.encode q).getD 0 0) = some p.typ :=
    PacketType.fromU8_toU8 p.typ
  have hprio : (p.encode q).getD 1 0 = p.priority := rfl
  simp only [decode, htyp, hprio, hid, hmsg, hoff, hlength, hpay, ofLE_toLE_u64, ofLE_toLE_u32]
  rw [if_neg (by omega)]

/-- Encoding then decoding is the identity on packets with a truthful DATA length. -/
theorem decode_encode {p : Packet} {q : List UInt8}
    (h : p.typ = .data → q.length = p.length.toNat) : decode (p.encode q) = .ok (p, q) := by
  rw [decode_encode_eq, if_neg fun hbad => hbad.2 (h hbad.1)]

/-- Whatever an encoding decodes to is what was encoded. -/
theorem eq_of_decode_encode {p p' : Packet} {q q' : List UInt8}
    (h : decode (p.encode q) = .ok (p', q')) : p' = p ∧ q' = q := by
  rw [decode_encode_eq] at h
  split_ifs at h
  simp only [Except.ok.injEq, Prod.mk.injEq] at h
  exact ⟨h.1.symm, h.2.symm⟩

/-- The payload of a decoded DATA packet has the length its header states. -/
theorem length_payload_of_decode {d q : List UInt8} {p : Packet} (h : decode d = .ok (p, q))
    (htyp : p.typ = .data) : q.length = p.length.toNat := by
  unfold decode at h
  split_ifs at h
  split at h
  · cases h
  · dsimp only at h
    split_ifs at h with hbad
    simp only [Except.ok.injEq, Prod.mk.injEq] at h
    obtain ⟨rfl, rfl⟩ := h
    exact not_not.mp fun hne => hbad ⟨htyp, hne⟩

theorem toLE_ofLE_u64 {bs : List UInt8} (h : bs.length = 8) :
    toLE 8 (UInt64.ofNat (ofLE bs)).toNat = bs := by
  have hlt := ofLE_lt bs
  rw [h] at hlt
  rw [UInt64.toNat_ofNat', Nat.mod_eq_of_lt (by omega), ← h, toLE_ofLE]

theorem toLE_ofLE_u32 {bs : List UInt8} (h : bs.length = 4) :
    toLE 4 (UInt32.ofNat (ofLE bs)).toNat = bs := by
  have hlt := ofLE_lt bs
  rw [h] at hlt
  rw [UInt32.toNat_ofNat', Nat.mod_eq_of_lt (by omega), ← h, toLE_ofLE]

/-- A datagram that decodes is the encoding of what it decodes to. -/
theorem eq_encode_of_decode {d q : List UInt8} {p : Packet} (h : decode d = .ok (p, q)) :
    d = p.encode q := by
  unfold decode at h
  split_ifs at h with hshort
  have hlen : 22 ≤ d.length := Nat.le_of_not_lt hshort
  split at h
  · cases h
  · rename_i typ htyp
    dsimp only at h
    split_ifs at h
    simp only [Except.ok.injEq, Prod.mk.injEq] at h
    obtain ⟨rfl, rfl⟩ := h
    have hid : (slice d 2 10).length = 8 := by rw [length_slice]; omega
    have hmsg : (slice d 10 14).length = 4 := by rw [length_slice]; omega
    have hoff : (slice d 14 18).length = 4 := by rw [length_slice]; omega
    have hlength : (slice d 18 22).length = 4 := by rw [length_slice]; omega
    simp only [encode, PacketType.toU8_of_fromU8 htyp, toLE_ofLE_u64 hid, toLE_ofLE_u32 hmsg,
      toLE_ofLE_u32 hoff, toLE_ofLE_u32 hlength]
    -- the slices are read back to front, each together with what follows it
    rw [headerLen, slice_append_drop d (by omega), slice_append_drop d (by omega),
      slice_append_drop d (by omega), slice_append_drop d (by omega)]
    match d, hlen with
    | _ :: _ :: _, _ => rfl

/-- A datagram shows which packet and which payload were encoded, also where the length
rule of DATA is broken. -/
theorem encode_injective : Function.Injective fun x : Packet × List UInt8 => x.1.encode x.2 := by
  rintro ⟨p, q⟩ ⟨p', q'⟩ h
  simp only [encode, List.cons.injEq] at h
  obtain ⟨htyp, hprio, h⟩ := h
  obtain ⟨hid, h⟩ := List.append_inj h (by simp)
  obtain ⟨hmsg, h⟩ := List.append_inj h (by simp)
  obtain ⟨hoff, h⟩ := List.append_inj h (by simp)
  obtain ⟨hlength, rfl⟩ := List.append_inj h (by simp)
  have htyp' : p.typ = p'.typ := by
    apply Option.some.inj
    rw [← PacketType.fromU8_toU8, htyp, PacketType.fromU8_toU8]
  have hid' : p.msgId = p'.msgId := by rw [← ofLE_toLE_u64 p.msgId, hid, ofLE_toLE_u64]
  have hmsg' : p.msgLen = p'.msgLen := by rw [← ofLE_toLE_u32 p.msgLen, hmsg, ofLE_toLE_u32]
  have hoff' : p.offset = p'.offset := by rw [← ofLE_toLE_u32 p.offset, hoff, ofLE_toLE_u32]
  have hlength' : p.length = p'.length := by
    rw [← ofLE_toLE_u32 p.length, hlength, ofLE_toLE_u32]
  have hp : p = p' := by
    cases p
    cases p'
    simp only [mk.injEq]
    exact ⟨htyp', hprio, hid', hmsg', hoff', hlength'⟩
  rw [hp]

/-- Decoding accepts the encodings of the well-formed packets and nothing else, it inverts
the encoding, and no two pairs of a packet and a payload share one. -/
theorem codec_bijective :
    (∀ (d : List UInt8) (p : Packet) (q : List UInt8),
      decode d = .ok (p, q) ↔ d = p.encode q ∧ (p.typ = .data → q.length = p.length.toNat)) ∧
    Function.Injective fun x : Packet × List UInt8 => x.1.encode x.2 := by
  constructor
  · intro d p q
    constructor
    · intro h
      exact ⟨eq_encode_of_decode h, length_payload_of_decode h⟩
    · rintro ⟨rfl, h⟩
      exact decode_encode h
  · exact encode_injective

end Packet
end AgentTransport
