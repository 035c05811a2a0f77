import Mathlib.Data.List.Nodup
import Mathlib.Tactic

/-!
# Pools of threads

A pool is a list of threads in which every thread has a key of its own. One thread is
replaced or removed at a time, so that what is known of the others is still known.
-/
namespace Threads

variable {α κ : Type*} {l : List α} {f : α → κ} {i j : ℕ} {a b x : α}

/-- The key tells the place. -/
theorem index_eq (hnd : (l.map f).Nodup) (hi : l[i]? = some a) (hj : l[j]? = some x)
    (hf : f x = f a) : j = i := by
  obtain ⟨hjlt, -⟩ := List.getElem?_eq_some_iff.mp hj
  apply (List.getElem?_inj (by rwa [List.length_map]) hnd).mp
  rw [List.getElem?_map, List.getElem?_map, hi, hj]
  exact congrArg some hf

/-- The threads after one was replaced. -/
theorem mem_set (hnd : (l.map f).Nodup) (hi : l[i]? = some a) (hx : x ∈ l.set i b) :
    x = b ∨ x ∈ l ∧ f x ≠ f a := by
  obtain ⟨j, hj⟩ := List.mem_iff_getElem?.mp hx
  rw [List.getElem?_set] at hj
  split_ifs at hj with hij
  · exact Or.inl (Option.some.inj hj).symm
  · exact Or.inr ⟨List.mem_of_getElem? hj, fun hsame => hij (index_eq hnd hi hj hsame).symm⟩

/-- The threads after one was removed. -/
theorem mem_eraseIdx (hnd : (l.map f).Nodup) (hi : l[i]? = some a) (hx : x ∈ l.eraseIdx i) :
    x ∈ l ∧ f x ≠ f a := by
  obtain ⟨j, hij, hj⟩ := List.mem_eraseIdx_iff_getElem?.mp hx
  exact ⟨List.mem_of_getElem? hj, fun hsame => hij (index_eq hnd hi hj hsame)⟩

/-- The others are still there when one was replaced. -/
theorem mem_set_of_ne (hi : l[i]? = some a) (hx : x ∈ l) (hne : f x ≠ f a) : x ∈ l.set i b := by
  obtain ⟨j, hj⟩ := List.mem_iff_getElem?.mp hx
  refine List.mem_of_getElem? (i := j) ?_
  rw [List.getElem?_set_ne, hj]
  rintro rfl
  exact hne (congrArg f (Option.some.inj (hj.symm.trans hi)))

/-- The others are still there when one was removed. -/
theorem mem_eraseIdx_of_ne (hi : l[i]? = some a) (hx : x ∈ l) (hne : f x ≠ f a) :
    x ∈ l.eraseIdx i := by
  obtain ⟨j, hj⟩ := List.mem_iff_getElem?.mp hx
  refine List.mem_eraseIdx_iff_getElem?.mpr ⟨j, ?_, hj⟩
  rintro rfl
  exact hne (congrArg f (Option.some.inj (hj.symm.trans hi)))

/-- An item that is there once more may be taken out. -/
theorem subset_eraseIdx_concat (hi : l[i]? = some a) : l ⊆ (l ++ [a]).eraseIdx i := by
  obtain ⟨hlt, -⟩ := List.getElem?_eq_some_iff.mp hi
  intro x hx
  obtain ⟨j, hj⟩ := List.mem_iff_getElem?.mp hx
  by_cases hij : j = i
  · rw [hij, hi] at hj
    rw [← Option.some.inj hj, List.eraseIdx_append_of_lt_length hlt]
    exact List.mem_append_right _ (List.mem_singleton.mpr rfl)
  · refine List.mem_eraseIdx_iff_getElem?.mpr ⟨j, hij, ?_⟩
    rw [List.getElem?_append_left (List.getElem?_eq_some_iff.mp hj).1]
    exact hj

/-- A thread that is replaced by one with the same key. -/
theorem map_set (hi : l[i]? = some a) (hf : f b = f a) : (l.set i b).map f = l.map f := by
  obtain ⟨hlt, rfl⟩ := List.getElem?_eq_some_iff.mp hi
  rw [List.map_set, hf, ← List.getElem_map f (h := by rwa [List.length_map]), List.set_getElem_self]

theorem nodup_set (hnd : (l.map f).Nodup) (hi : l[i]? = some a) (hf : f b = f a) :
    ((l.set i b).map f).Nodup := by
  rw [map_set hi hf]
  exact hnd

theorem nodup_eraseIdx (hnd : (l.map f).Nodup) (i : ℕ) : ((l.eraseIdx i).map f).Nodup :=
  hnd.sublist ((List.eraseIdx_sublist l i).map f)

/-- A thread with a new key. -/
theorem nodup_append (hnd : (l.map f).Nodup) (hx : f x ∉ l.map f) : ((l ++ [x]).map f).Nodup := by
  rw [List.map_append, List.map_singleton, List.nodup_append]
  refine ⟨hnd, List.nodup_singleton _, ?_⟩
  intro k hk k' hk' heq
  rw [heq, List.mem_singleton.mp hk'] at hk
  exact hx hk

end Threads
