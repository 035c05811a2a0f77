import Mathlib.Data.List.Sort
import Mathlib.Tactic

/-!
# Stable sorting by a numeric key

Sorting by a key keeps the order of the items with one key, which form a class. The
sorted list is the concatenation of the classes, and it falls apart at every key into
the items below it and the rest. How many items stand below an item, and how many do not
stand above it, therefore bounds its place whatever the order of the input was.
-/
namespace StableSort

variable {α : Type*} (key : α → ℕ)

/-- The items in the order of their keys, those with one key in the order they had. -/
def sortBy (xs : List α) : List α := xs.insertionSort fun a b => key a ≤ key b

/-- The items of each key below `n`. -/
def classes (n : ℕ) (xs : List α) : List (List α) :=
  (List.range n).map fun c => xs.filter fun x => key x = c

/-- The list is in the order of the keys. -/
abbrev Sorted (xs : List α) : Prop := xs.Pairwise fun a b => key a ≤ key b

variable {key}

theorem perm_sortBy (xs : List α) : (sortBy key xs).Perm xs := List.perm_insertionSort _ _

@[simp] theorem mem_sortBy {xs : List α} {x : α} : x ∈ sortBy key xs ↔ x ∈ xs :=
  (perm_sortBy xs).mem_iff

@[simp] theorem length_sortBy (xs : List α) : (sortBy key xs).length = xs.length :=
  (perm_sortBy xs).length_eq

theorem sorted_sortBy (xs : List α) : Sorted key (sortBy key xs) := by
  have htotal : Std.Total fun a b : α => key a ≤ key b := ⟨fun a b => Nat.le_total _ _⟩
  have htrans : IsTrans α fun a b => key a ≤ key b := ⟨fun a b c => Nat.le_trans⟩
  exact List.pairwise_insertionSort _ xs

/-- Sorting does not reorder a class. -/
theorem filter_sortBy (xs : List α) (c : ℕ) :
    (sortBy key xs).filter (fun x => key x = c) = xs.filter fun x => key x = c := by
  have hclass : Sorted key (xs.filter fun x => key x = c) := by
    apply List.pairwise_of_forall_mem_list
    intro a ha b hb
    have ha := of_decide_eq_true (List.mem_filter.mp ha).2
    have hb := of_decide_eq_true (List.mem_filter.mp hb).2
    omega
  have hsub := List.sublist_insertionSort hclass List.filter_sublist
  have hsub := hsub.filter fun x => decide (key x = c)
  rw [List.filter_filter] at hsub
  simp only [Bool.and_self] at hsub
  symm
  apply hsub.eq_of_length
  exact ((perm_sortBy xs).filter _).length_eq.symm

/-- A sorted list falls apart at every key. -/
theorem Sorted.split {xs : List α} (h : Sorted key xs) (n : ℕ) :
    xs = (xs.filter fun x => key x < n) ++ xs.filter fun x => n ≤ key x := by
  induction xs with
  | nil => rfl
  | cons x xs ih =>
    obtain ⟨hx, hxs⟩ := List.pairwise_cons.mp h
    by_cases hlt : key x < n
    · rw [List.filter_cons_of_pos (by simpa using hlt), List.filter_cons_of_neg (by simpa using hlt),
        List.cons_append, ← ih hxs]
    · have hnone : xs.filter (fun y => key y < n) = [] := by
        apply List.filter_eq_nil_iff.mpr
        intro y hy
        have := hx y hy
        simp only [decide_eq_true_eq]
        omega
      have hall : xs.filter (fun y => n ≤ key y) = xs := by
        apply List.filter_eq_self.mpr
        intro y hy
        have := hx y hy
        simp only [decide_eq_true_eq]
        omega
      rw [List.filter_cons_of_neg (by simpa using hlt), hnone, List.nil_append,
        List.filter_cons_of_pos (by simpa using hlt), hall]

/-- The classes of a sorted list in their order make up the list. -/
theorem Sorted.flatten_classes {xs : List α} (h : Sorted key xs) (n : ℕ) :
    (classes key n xs).flatten = xs.filter fun x => key x < n := by
  induction n with
  | zero => simp [classes]
  | succ n ih =>
    have hsorted : Sorted key (xs.filter fun x => key x < n + 1) := h.sublist List.filter_sublist
    have hsplit := hsorted.split n
    rw [List.filter_filter, List.filter_filter] at hsplit
    have hbelow : (xs.filter fun x => decide (key x < n) && decide (key x < n + 1)) =
        xs.filter fun x => key x < n := by
      apply List.filter_congr
      intro x _
      rw [← Bool.decide_and]
      exact decide_eq_decide.mpr (by omega)
    have htop : (xs.filter fun x => decide (n ≤ key x) && decide (key x < n + 1)) =
        xs.filter fun x => key x = n := by
      apply List.filter_congr
      intro x _
      rw [← Bool.decide_and]
      exact decide_eq_decide.mpr (by omega)
    rw [hsplit, hbelow, htop, ← ih]
    simp [classes, List.range_succ]

theorem classes_sortBy (n : ℕ) (xs : List α) :
    classes key n (sortBy key xs) = classes key n xs := by
  simp only [classes, filter_sortBy]

/-- The classes in their order make up the stable sort. -/
theorem flatten_classes {n : ℕ} {xs : List α} (h : ∀ x ∈ xs, key x < n) :
    (classes key n xs).flatten = sortBy key xs := by
  rw [← classes_sortBy, (sorted_sortBy xs).flatten_classes]
  apply List.filter_eq_self.mpr
  intro x hx
  exact decide_eq_true (h x (mem_sortBy.mp hx))

section Places

variable {xs : List α} {k : ℕ} {x : α}

/-- No more than `k` items do not stand above `x`, so `x` is among the first `k`. -/
theorem Sorted.mem_take (h : Sorted key xs) (hx : x ∈ xs)
    (hk : xs.countP (fun y => key y ≤ key x) ≤ k) : x ∈ xs.take k := by
  have hsplit := h.split (key x + 1)
  have hmem : x ∈ xs.filter fun y => key y < key x + 1 :=
    List.mem_filter.mpr ⟨hx, decide_eq_true (Nat.lt_succ_self _)⟩
  have hlen : (xs.filter fun y => key y < key x + 1).length ≤ k := by
    rw [← List.countP_eq_length_filter]
    simpa only [Nat.lt_succ_iff] using hk
  rw [hsplit, List.take_append, List.mem_append, List.take_of_length_le hlen]
  exact Or.inl hmem

/-- At least `k` items stand below `x`, so `x` is not among the first `k`. -/
theorem Sorted.notMem_take (h : Sorted key xs) (hk : k ≤ xs.countP fun y => key y < key x) :
    x ∉ xs.take k := by
  rw [List.countP_eq_length_filter] at hk
  rw [h.split (key x), List.take_append_of_le_length hk]
  intro hmem
  have hlt := of_decide_eq_true (List.mem_filter.mp (List.mem_of_mem_take hmem)).2
  exact Nat.lt_irrefl _ hlt

/-- What is taken has no larger key than what is left. -/
theorem Sorted.take_le {y : α} (h : Sorted key xs) (hx : x ∈ xs.take k) (hy : y ∈ xs)
    (hout : y ∉ xs.take k) : key x ≤ key y := by
  have hsorted : Sorted key (xs.take k ++ xs.drop k) := by rwa [List.take_append_drop]
  obtain ⟨_, _, hcross⟩ := List.pairwise_append.mp hsorted
  rw [← List.take_append_drop k xs, List.mem_append] at hy
  exact hcross x hx y (hy.resolve_left hout)

/-- An item with the smaller key comes first, also in a prefix that the other is in. -/
theorem Sorted.pair_sublist_take (h : Sorted key xs) (hx : x ∈ xs) {y : α} (hlt : key x < key y)
    (hy : y ∈ xs.take k) : [x, y].Sublist (xs.take k) := by
  have hsorted : Sorted key (xs.take k ++ xs.drop k) := by rwa [List.take_append_drop]
  obtain ⟨hfirst, _, hcross⟩ := List.pairwise_append.mp hsorted
  have hxt : x ∈ xs.take k := by
    rw [← List.take_append_drop k xs, List.mem_append] at hx
    cases hx with
    | inl hx => exact hx
    | inr hx =>
      have := hcross y hy x hx
      omega
  have hfirst : Sorted key (xs.take k) := hfirst
  have hbelow : x ∈ (xs.take k).filter fun z => key z < key y :=
    List.mem_filter.mpr ⟨hxt, decide_eq_true hlt⟩
  have habove : y ∈ (xs.take k).filter fun z => key y ≤ key z :=
    List.mem_filter.mpr ⟨hy, decide_eq_true le_rfl⟩
  rw [hfirst.split (key y)]
  exact (List.singleton_sublist.mpr hbelow).append (List.singleton_sublist.mpr habove)

end Places

/-- An item that arrives last is the last of its class. -/
theorem classes_concat (n : ℕ) (xs : List α) (x : α) :
    classes key n (xs ++ [x]) = (classes key n xs).modify (key x) (· ++ [x]) := by
  apply List.ext_getElem?
  intro c
  rw [List.getElem?_modify]
  simp only [classes, List.getElem?_map, List.filter_append]
  by_cases hc : c < n
  · rw [List.getElem?_range hc]
    by_cases hx : key x = c
    · simp [hx]
    · simp [hx]
  · rw [List.getElem?_eq_none (by simpa using hc)]
    rfl

/-- Drop `k` items from the front of a concatenation. -/
def dropFront : ℕ → List (List α) → List (List α)
  | _, [] => []
  | k, q :: qs => q.drop k :: dropFront (k - q.length) qs

@[simp] theorem length_dropFront (k : ℕ) (qs : List (List α)) :
    (dropFront k qs).length = qs.length := by
  induction qs generalizing k with
  | nil => rfl
  | cons q qs ih => simp [dropFront, ih]

@[simp] theorem dropFront_zero (qs : List (List α)) : dropFront 0 qs = qs := by
  induction qs with
  | nil => rfl
  | cons q qs ih => simp [dropFront, ih]

theorem dropFront_map {β : Type*} (f : α → β) (k : ℕ) (qs : List (List α)) :
    dropFront k (qs.map (List.map f)) = (dropFront k qs).map (List.map f) := by
  induction qs generalizing k with
  | nil => rfl
  | cons q qs ih => simp [dropFront, ih, List.map_drop]

/-- Parts with one key each, the keys counted from `s`, keep their items when the front of
the whole is dropped. -/
theorem dropFront_eq (qs : List (List α)) (s k : ℕ)
    (h : ∀ i q, qs[i]? = some q → ∀ x ∈ q, key x = s + i) :
    dropFront k qs = (List.range' s qs.length).map fun c =>
      (qs.flatten.drop k).filter fun x => key x = c := by
  induction qs generalizing s k with
  | nil => rfl
  | cons q qs ih =>
    have hhead : ∀ x ∈ q, key x = s := h 0 q rfl
    have htail : ∀ i q', qs[i]? = some q' → ∀ x ∈ q', key x = s + 1 + i := by
      intro i q' hq' x hx
      have := h (i + 1) q' (by simpa using hq') x hx
      omega
    have hlater : ∀ x ∈ qs.flatten, key x ≠ s := by
      intro x hx
      obtain ⟨q', hq', hx⟩ := List.mem_flatten.mp hx
      obtain ⟨i, hi⟩ := List.mem_iff_getElem?.mp hq'
      have := htail i q' hi x hx
      omega
    rw [dropFront, ih (s + 1) (k - q.length) htail, List.length_cons, List.range'_succ,
      List.map_cons, List.flatten_cons, List.drop_append]
    congr 1
    · have hkeep : (q.drop k).filter (fun x => key x = s) = q.drop k := by
        apply List.filter_eq_self.mpr
        intro x hx
        exact decide_eq_true (hhead x (List.mem_of_mem_drop hx))
      have hdrop : (qs.flatten.drop (k - q.length)).filter (fun x => key x = s) = [] := by
        apply List.filter_eq_nil_iff.mpr
        intro x hx
        simpa using hlater x (List.mem_of_mem_drop hx)
      rw [List.filter_append, hkeep, hdrop, List.append_nil]
    · apply List.map_congr_left
      intro c hc
      have hc := (List.mem_range'_1.mp hc).1
      have hnone : (q.drop k).filter (fun x => key x = c) = [] := by
        apply List.filter_eq_nil_iff.mpr
        intro x hx
        have := hhead x (List.mem_of_mem_drop hx)
        simp only [decide_eq_true_eq]
        omega
      rw [List.filter_append, hnone, List.nil_append]

/-- Dropping from the front of the classes is dropping from the stable sort. -/
theorem dropFront_classes {n : ℕ} {xs : List α} (h : ∀ x ∈ xs, key x < n) (k : ℕ) :
    dropFront k (classes key n xs) = classes key n ((sortBy key xs).drop k) := by
  have hparts : ∀ i q, (classes key n xs)[i]? = some q → ∀ x ∈ q, key x = 0 + i := by
    intro i q hq x hx
    simp only [classes, List.getElem?_map, Option.map_eq_some_iff] at hq
    obtain ⟨c, hc, rfl⟩ := hq
    obtain ⟨hi, rfl⟩ := List.getElem?_eq_some_iff.mp hc
    have := of_decide_eq_true (List.mem_filter.mp hx).2
    simpa using this
  rw [dropFront_eq _ 0 k hparts, flatten_classes h]
  simp [classes, List.range_eq_range']

end StableSort
