import AgentTransport.ByteString
import Mathlib.Algebra.BigOperators.Group.Finset.Basic
import Mathlib.Algebra.Order.BigOperators.Group.Finset
import Mathlib.Tactic

/-!
# Cutting a length into fragments

A string of `len` items is cut at the multiples of `ps`. Fragment `i` is the range
`[i * ps, fragEnd ps len i)`, where only the last fragment can be short. A bitmap
over the fragments has a covered length, the sum of the lengths of the set ones.
For a complete bitmap that sum is `len`, and for no other, which is what allows a
byte counter and a bitmap to stand for each other.
-/
namespace Fragmentation
open scoped BigOperators

/-- The number of fragments, `len / ps` rounded up. -/
def count (ps len : ℕ) : ℕ := (len + ps - 1) / ps

def fragEnd (ps len i : ℕ) : ℕ := min (i * ps + ps) len

def fragLen (ps len i : ℕ) : ℕ := fragEnd ps len i - i * ps

section Arithmetic

variable {ps len : ℕ}

theorem lt_count_iff (hps : 0 < ps) {i : ℕ} : i < count ps len ↔ i * ps < len := by
  rw [count, Nat.lt_iff_add_one_le, Nat.le_div_iff_mul_le hps, Nat.add_mul]
  omega

theorem count_pos (hps : 0 < ps) (hlen : 0 < len) : 0 < count ps len :=
  (lt_count_iff hps).mpr (by omega)

theorem count_zero (hps : 0 < ps) : count ps 0 = 0 := by
  have h : ¬ 0 < count ps 0 := fun h => by
    have := (lt_count_iff hps).mp h
    omega
  omega

theorem count_mono (hps : 0 < ps) {a b : ℕ} (h : a ≤ b) : count ps a ≤ count ps b := by
  by_contra hlt
  have hmem := (lt_count_iff hps).mp (Nat.not_le.mp hlt)
  exact Nat.lt_irrefl _ ((lt_count_iff hps).mpr (Nat.lt_of_lt_of_le hmem h))

theorem fragEnd_le (i : ℕ) : fragEnd ps len i ≤ len := Nat.min_le_right _ _

theorem lt_fragEnd (hps : 0 < ps) {i : ℕ} (hi : i < count ps len) : i * ps < fragEnd ps len i := by
  have h := (lt_count_iff hps).mp hi
  simp only [fragEnd]
  omega

theorem fragLen_pos (hps : 0 < ps) {i : ℕ} (hi : i < count ps len) : 0 < fragLen ps len i := by
  have h := lt_fragEnd hps hi
  simp only [fragLen]
  omega

/-- The fragment a position lies in. -/
theorem div_lt_count (hps : 0 < ps) {p : ℕ} (hp : p < len) : p / ps < count ps len := by
  have h := Nat.div_mul_le_self p ps
  exact (lt_count_iff hps).mpr (by omega)

theorem lt_fragEnd_div (hps : 0 < ps) {p : ℕ} (hp : p < len) : p < fragEnd ps len (p / ps) := by
  have h := Nat.lt_div_mul_add (a := p) hps
  simp only [fragEnd]
  omega

/-- A position of fragment `i` is one whose quotient is `i`. -/
theorem div_eq_of_mem (hps : 0 < ps) {i p : ℕ} (hlo : i * ps ≤ p) (hhi : p < i * ps + ps) :
    p / ps = i := by
  refine (Nat.div_eq_iff hps).mpr ⟨hlo, ?_⟩
  omega

/-- The fragment ends are the multiples of `ps`, and `len`. -/
theorem fragEnd_eq (i : ℕ) : fragEnd ps len i = min ((i + 1) * ps) len := by
  rw [fragEnd, Nat.add_mul, Nat.one_mul]

theorem sum_fragLen (n : ℕ) : ∑ i ∈ Finset.range n, fragLen ps len i = min (n * ps) len := by
  induction n with
  | zero => simp
  | succ n ih =>
    rw [Finset.sum_range_succ, ih, fragLen, fragEnd, Nat.add_mul]
    omega

theorem sum_fragLen_count (hps : 0 < ps) :
    ∑ i ∈ Finset.range (count ps len), fragLen ps len i = len := by
  have h : ¬ count ps len * ps < len := fun h => Nat.lt_irrefl _ ((lt_count_iff hps).mpr h)
  rw [sum_fragLen]
  omega

end Arithmetic

/-- The number of items in the fragments that `bits` marks. -/
def covered (ps len : ℕ) (bits : List Bool) : ℕ :=
  ∑ i ∈ Finset.range bits.length, if bits[i]? = some true then fragLen ps len i else 0

section Bitmap

variable {ps len : ℕ} {bits : List Bool}

theorem covered_replicate_false (n : ℕ) : covered ps len (List.replicate n false) = 0 := by
  simp [covered, List.getElem?_replicate]

theorem covered_le_sum :
    covered ps len bits ≤ ∑ i ∈ Finset.range bits.length, fragLen ps len i := by
  refine Finset.sum_le_sum fun i _ => ?_
  split_ifs <;> omega

theorem covered_le : covered ps len bits ≤ len := by
  refine covered_le_sum.trans ?_
  rw [sum_fragLen]
  omega

theorem covered_set {i : ℕ} (hi : bits[i]? = some false) :
    covered ps len (bits.set i true) = covered ps len bits + fragLen ps len i := by
  have hlt : i < bits.length := (List.getElem?_eq_some_iff.mp hi).1
  have hmem : i ∈ Finset.range bits.length := Finset.mem_range.mpr hlt
  have hrest : ∑ j ∈ (Finset.range bits.length).erase i,
        (if (bits.set i true)[j]? = some true then fragLen ps len j else 0) =
      ∑ j ∈ (Finset.range bits.length).erase i,
        if bits[j]? = some true then fragLen ps len j else 0 := by
    refine Finset.sum_congr rfl fun j hj => ?_
    rw [List.getElem?_set_ne (Finset.ne_of_mem_erase hj).symm]
  have hnew : (bits.set i true)[i]? = some true := by simp [List.getElem?_set_self hlt]
  simp only [covered, List.length_set]
  rw [← Finset.sum_erase_add _ _ hmem, hrest, ← Finset.sum_erase_add _ _ hmem, if_pos hnew,
    if_neg (by simp [hi])]
  omega

/-- A bitmap that covers everything has every bit set. -/
theorem covered_eq_iff (hps : 0 < ps) (hlen : bits.length = count ps len) :
    covered ps len bits = len ↔ ∀ i < bits.length, bits[i]? = some true := by
  constructor
  · intro h i hi
    by_contra hbit
    -- an unset bit leaves its fragment out of the sum
    have hlt : covered ps len bits < ∑ i ∈ Finset.range bits.length, fragLen ps len i := by
      refine Finset.sum_lt_sum (fun j _ => by split_ifs <;> omega)
        ⟨i, Finset.mem_range.mpr hi, ?_⟩
      rw [if_neg hbit]
      exact fragLen_pos hps (hlen ▸ hi)
    rw [hlen, sum_fragLen_count hps, h] at hlt
    omega
  · intro h
    rw [covered, Finset.sum_congr rfl fun i hi => if_pos (h i (Finset.mem_range.mp hi)), hlen,
      sum_fragLen_count hps]

/-- A set prefix of the bitmap covers the prefix of the string. -/
theorem le_covered_of_prefix {n : ℕ} (hn : n ≤ bits.length)
    (h : ∀ i < n, bits[i]? = some true) : min (n * ps) len ≤ covered ps len bits := by
  calc min (n * ps) len = ∑ i ∈ Finset.range n, fragLen ps len i := (sum_fragLen n).symm
    _ = ∑ i ∈ Finset.range n, if bits[i]? = some true then fragLen ps len i else 0 :=
        Finset.sum_congr rfl fun i hi => (if_pos (h i (Finset.mem_range.mp hi))).symm
    _ ≤ covered ps len bits :=
        Finset.sum_le_sum_of_subset (Finset.range_subset_range.mpr hn)

end Bitmap

section Assembly

variable {α : Type*} {ps : ℕ} {D buf : List α} {bits : List Bool}

/-- A buffer that is being filled with the fragments of `D`: it has the length of
`D` and holds the items of `D` in every fragment that `bits` marks. -/
structure Assembled (ps : ℕ) (D buf : List α) (bits : List Bool) : Prop where
  length_buf : buf.length = D.length
  agrees : ∀ p, bits[p / ps]? = some true → buf[p]? = D[p]?

/-- The items of fragment `i`. -/
def fragment (ps : ℕ) (D : List α) (i : ℕ) : List α :=
  ByteString.slice D (i * ps) (fragEnd ps D.length i)

@[simp] theorem length_fragment (i : ℕ) :
    (fragment ps D i).length = fragLen ps D.length i := by
  have h : fragEnd ps D.length i ≤ D.length := fragEnd_le i
  simp only [fragment, ByteString.length_slice, fragLen]
  omega

/-- An empty buffer with no fragment marked. -/
theorem assembled_replicate (x : α) (n : ℕ) :
    Assembled ps D (List.replicate D.length x) (List.replicate n false) where
  length_buf := List.length_replicate
  agrees p h := by simp [List.getElem?_replicate] at h

/-- Writing fragment `i` at its place and marking it keeps the buffer right. -/
theorem Assembled.write (hps : 0 < ps) (h : Assembled ps D buf bits) {i : ℕ}
    (hi : i < count ps D.length) :
    Assembled ps D (ByteString.overwrite buf (i * ps) (fragment ps D i)) (bits.set i true) := by
  have hend := lt_fragEnd hps hi
  have hle : fragEnd ps D.length i ≤ D.length := fragEnd_le i
  have hfit : i * ps + (fragment ps D i).length ≤ buf.length := by
    rw [length_fragment, fragLen, h.length_buf]
    omega
  refine ⟨by rw [ByteString.length_overwrite hfit, h.length_buf], fun p hp => ?_⟩
  rw [ByteString.getElem?_overwrite hfit, length_fragment]
  split_ifs with hin
  · -- `p` is one of the positions just written
    have hpe : p < fragEnd ps D.length i := by
      rw [fragLen] at hin
      omega
    rw [fragment, ByteString.getElem?_slice, if_pos (by omega)]
    congr 1
    omega
  · by_cases hpi : p / ps = i
    · -- a position of fragment `i` that was not written lies past the end
      have hmod := Nat.div_mul_le_self p ps
      have hdiv := Nat.lt_div_mul_add (a := p) hps
      rw [hpi] at hmod hdiv
      have hout : D.length ≤ p := by
        simp only [fragLen, fragEnd] at hin
        omega
      rw [List.getElem?_eq_none (by rw [h.length_buf]; exact hout), List.getElem?_eq_none hout]
    · rw [List.getElem?_set_ne (Ne.symm hpi)] at hp
      exact h.agrees p hp

/-- Once every fragment is marked the buffer is the string. -/
theorem Assembled.eq (hps : 0 < ps) (h : Assembled ps D buf bits)
    (hlen : bits.length = count ps D.length) (hall : ∀ i < bits.length, bits[i]? = some true) :
    buf = D := by
  apply List.ext_getElem?
  intro p
  by_cases hp : p < D.length
  · exact h.agrees p (hall _ (hlen ▸ div_lt_count hps hp))
  · rw [List.getElem?_eq_none (by rw [h.length_buf]; omega), List.getElem?_eq_none (by omega)]

end Assembly

end Fragmentation
