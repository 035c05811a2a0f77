import Mathlib.Data.List.Basic
import Mathlib.Tactic

/-!
# Byte strings

Slices, in-place block writes and fixed-width little-endian numerals over lists.
Slices and writes are stated for any element type; only the numerals need bytes.
A slice is a total function here. Where the bounds are respected it is the usual
half-open range, and the lemmas below state the bounds they use.
-/
namespace ByteString

variable {α : Type*}

/-- The half-open range `[a, b)` of `xs`. -/
def slice (xs : List α) (a b : ℕ) : List α := (xs.take b).drop a

@[simp] theorem length_slice (xs : List α) (a b : ℕ) :
    (slice xs a b).length = min b xs.length - a := by simp [slice]

theorem getElem?_slice (xs : List α) (a b i : ℕ) :
    (slice xs a b)[i]? = if a + i < b then xs[a + i]? else none := by
  simp [slice, List.getElem?_take]

@[simp] theorem slice_zero_length (xs : List α) : slice xs 0 xs.length = xs := by
  simp [slice]

/-- Overwrite the block of `buf` that starts at `off` with `xs`. -/
def overwrite (buf : List α) (off : ℕ) (xs : List α) : List α :=
  buf.take off ++ xs ++ buf.drop (off + xs.length)

theorem length_overwrite {buf : List α} {off : ℕ} {xs : List α}
    (h : off + xs.length ≤ buf.length) : (overwrite buf off xs).length = buf.length := by
  simp only [overwrite, List.length_append, List.length_take, List.length_drop]
  omega

theorem getElem?_overwrite {buf : List α} {off : ℕ} {xs : List α}
    (h : off + xs.length ≤ buf.length) (i : ℕ) :
    (overwrite buf off xs)[i]? =
      if off ≤ i ∧ i < off + xs.length then xs[i - off]? else buf[i]? := by
  have hto : (buf.take off).length = off := by simp only [List.length_take]; omega
  unfold overwrite
  by_cases hlt : i < off
  · rw [if_neg (by omega), List.append_assoc, List.getElem?_append_left (by omega),
      List.getElem?_take, if_pos hlt]
  · by_cases hin : i < off + xs.length
    · rw [if_pos ⟨by omega, hin⟩, List.getElem?_append_left
        (by simp only [List.length_append, hto]; omega),
        List.getElem?_append_right (by omega), hto]
    · rw [if_neg (by omega), List.getElem?_append_right
        (by simp only [List.length_append, hto]; omega), List.getElem?_drop]
      congr 1
      simp only [List.length_append, hto]
      omega

/-- The `w` low bytes of `n`, least significant first. -/
def toLE : ℕ → ℕ → List UInt8
  | 0, _ => []
  | w + 1, n => UInt8.ofNat n :: toLE w (n / 256)

/-- The number a little-endian byte string stands for. -/
def ofLE : List UInt8 → ℕ
  | [] => 0
  | b :: bs => b.toNat + 256 * ofLE bs

@[simp] theorem length_toLE (w n : ℕ) : (toLE w n).length = w := by
  induction w generalizing n with
  | zero => rfl
  | succ w ih => simp [toLE, ih]

@[simp] theorem ofLE_toLE (w n : ℕ) : ofLE (toLE w n) = n % 256 ^ w := by
  induction w generalizing n with
  | zero => simp [toLE, ofLE, Nat.mod_one]
  | succ w ih =>
    have hsplit : n % 256 ^ (w + 1) = n % 256 + 256 * (n / 256 % 256 ^ w) := by
      rw [pow_succ', Nat.mod_mul]
    rw [toLE, ofLE, ih, UInt8.toNat_ofNat', hsplit]

/-- Reading a numeral that is followed by anything gives it back. -/
theorem take_toLE_append (w n : ℕ) (rest : List UInt8) :
    (toLE w n ++ rest).take w = toLE w n := List.take_left' (length_toLE w n)

theorem drop_toLE_append (w n : ℕ) (rest : List UInt8) :
    (toLE w n ++ rest).drop w = rest := List.drop_left' (length_toLE w n)

/-- Writing the number a byte string stands for gives the byte string back. -/
@[simp] theorem toLE_ofLE (bs : List UInt8) : toLE bs.length (ofLE bs) = bs := by
  induction bs with
  | nil => rfl
  | cons b bs ih =>
    have hb := b.toNat_lt
    have hlow : UInt8.ofNat (b.toNat + 256 * ofLE bs) = b := by
      apply UInt8.toNat_inj.mp
      rw [UInt8.toNat_ofNat']
      omega
    have hhigh : (b.toNat + 256 * ofLE bs) / 256 = ofLE bs := by omega
    rw [List.length_cons, ofLE, toLE, hlow, hhigh, ih]

theorem ofLE_lt (bs : List UInt8) : ofLE bs < 256 ^ bs.length := by
  induction bs with
  | nil => simp [ofLE]
  | cons b bs ih =>
    have hb := b.toNat_lt
    rw [ofLE, List.length_cons, pow_succ]
    omega

/-- What follows position `a` is a slice and what follows the slice. -/
theorem slice_append_drop (xs : List α) {a b : ℕ} (h : a ≤ b) :
    slice xs a b ++ xs.drop b = xs.drop a := by
  rw [slice, List.drop_take]
  have hb : xs.drop b = (xs.drop a).drop (b - a) := by
    rw [List.drop_drop]
    congr 1
    omega
  rw [hb, List.take_append_drop]

end ByteString
