import Mathlib.Data.List.DropRight
import Mathlib.Tactic

/-!
# Remembering the last elements of a sequence

A bounded queue that drops its oldest element for a new one holds the last `n` elements
of what was ever put in. If nothing is put in that the queue holds, then equal elements
of the sequence have at least `n` others between them.
-/
namespace Recent

variable {α : Type*} {n : ℕ} {l : List α} {x : α}

/-- Put `x` into a queue of at most `n`. -/
def push (n : ℕ) (queue : List α) (x : α) : List α :=
  (if n ≤ queue.length then queue.drop 1 else queue) ++ [x]

theorem length_rtake (n : ℕ) (l : List α) : (l.rtake n).length = min n l.length := by
  rw [List.rtake, List.length_drop]
  omega

theorem getElem?_rtake (n : ℕ) (l : List α) (i : ℕ) :
    (l.rtake n)[i]? = l[l.length - n + i]? := by
  rw [List.rtake, List.getElem?_drop]

/-- The queue holds the last elements. -/
theorem push_rtake (hn : 0 < n) (l : List α) (x : α) :
    push n (l.rtake n) x = (l ++ [x]).rtake n := by
  obtain ⟨n, rfl⟩ : ∃ k, n = k + 1 := ⟨n - 1, by omega⟩
  rw [List.rtake_concat_succ, push, length_rtake]
  congr 1
  split_ifs with hfull
  · rw [List.rtake, List.rtake, List.drop_drop]
    congr 1
    omega
  · rw [List.rtake, List.rtake]
    congr 1
    omega

/-- Equal elements have at least `n` others between them. -/
def Spaced (n : ℕ) (l : List α) : Prop :=
  ∀ i j x, i < j → l[i]? = some x → l[j]? = some x → i + n < j

theorem Spaced.nil : Spaced n ([] : List α) := by
  intro i j x _ hi
  simp at hi

/-- What is not in the queue can come next. -/
theorem Spaced.concat (h : Spaced n l) (hx : x ∉ l.rtake n) : Spaced n (l ++ [x]) := by
  intro i j y hij hi hj
  obtain ⟨hjlt, -⟩ := List.getElem?_eq_some_iff.mp hj
  rw [List.length_append, List.length_singleton] at hjlt
  rw [List.getElem?_append_left (by omega)] at hi
  rcases Nat.lt_succ_iff_lt_or_eq.mp hjlt with hlt | rfl
  · rw [List.getElem?_append_left hlt] at hj
    exact h i j y hij hi hj
  · rw [List.getElem?_concat_length] at hj
    obtain rfl := Option.some.inj hj
    by_contra hnear
    apply hx
    apply List.mem_of_getElem? (i := i - (l.length - n))
    rw [getElem?_rtake, ← hi]
    congr 1
    omega

/-- The queue holds nothing twice. -/
theorem Spaced.nodup_rtake (h : Spaced n l) : (l.rtake n).Nodup := by
  rw [List.nodup_iff_getElem?_ne_getElem?]
  intro i j hij hj heq
  rw [length_rtake] at hj
  rw [getElem?_rtake, getElem?_rtake] at heq
  have hlt : l.length - n + j < l.length := by omega
  have hsome := List.getElem?_eq_getElem hlt
  have hfar := h _ _ _ (by omega) (heq.trans hsome) hsome
  omega

end Recent
