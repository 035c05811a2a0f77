import AgentTransport.StableSort

/-!
# A stable priority queue

Items arrive one by one and are numbered as they come. A pop takes items from the front of
the stable sort by class: the lowest class first, and in a class the first to arrive first.
`arrived` and `popped` are histories that no operation reads.
-/
namespace StableQueue
open StableSort

variable {α : Type*}

structure Waiting (α : Type*) where
  pending : List (ℕ × α)
  arrived : List α
  popped : List (ℕ × α)

inductive Op (α : Type*) where
  | accept (x : α)
  | pop (budget : ℕ)

/-- The items with their places in the list. -/
def numbered (xs : List α) : List (ℕ × α) := xs.mapIdx Prod.mk

namespace Waiting

def empty : Waiting α := ⟨[], [], []⟩

def accept (x : α) (w : Waiting α) : Waiting α :=
  { w with pending := w.pending ++ [(w.arrived.length, x)], arrived := w.arrived ++ [x] }

variable (cls : α → ℕ)

/-- The order in which the waiting items leave. -/
def order (w : Waiting α) : List (ℕ × α) := sortBy (fun e => cls e.2) w.pending

/-- What a pop takes. -/
def batch (budget : ℕ) (w : Waiting α) : List (ℕ × α) :=
  (w.order cls).take (min budget w.pending.length)

def pop (budget : ℕ) (w : Waiting α) : Waiting α :=
  { w with
    pending := w.pending.filter fun e => e.1 ∉ (w.batch cls budget).map Prod.fst
    popped := w.popped ++ w.batch cls budget }

def step (w : Waiting α) : Op α → Waiting α
  | .accept x => w.accept x
  | .pop budget => w.pop cls budget

def run (ops : List (Op α)) (w : Waiting α) : Waiting α := ops.foldl (step cls) w

/-- What left and what is waiting is what arrived, and in each class in the order of
arrival. -/
structure Inv (w : Waiting α) : Prop where
  conserved : (w.popped ++ w.pending).Perm (numbered w.arrived)
  ordered : ∀ c, (w.popped ++ w.pending).filter (fun e => cls e.2 = c) =
    (numbered w.arrived).filter fun e => cls e.2 = c

end Waiting

theorem numbered_concat (xs : List α) (x : α) :
    numbered (xs ++ [x]) = numbered xs ++ [(xs.length, x)] := List.mapIdx_concat

@[simp] theorem map_fst_numbered (xs : List α) :
    (numbered xs).map Prod.fst = List.range xs.length := by
  induction xs using List.reverseRecOn with
  | nil => rfl
  | append_singleton xs x ih => simp [numbered_concat, ih, List.range_succ]

@[simp] theorem map_snd_numbered (xs : List α) : (numbered xs).map Prod.snd = xs := by
  induction xs using List.reverseRecOn with
  | nil => rfl
  | append_singleton xs x ih => simp [numbered_concat, ih]

/-- What is left of distinctly numbered items without the first `k` of them. -/
theorem filter_notMem_take {xs : List (ℕ × α)} (h : (xs.map Prod.fst).Nodup) (k : ℕ) :
    xs.filter (fun e => e.1 ∉ (xs.take k).map Prod.fst) = xs.drop k := by
  rw [← List.take_append_drop k xs, List.map_append, List.nodup_append] at h
  obtain ⟨_, _, hdisj⟩ := h
  have hfirst : (xs.take k).filter (fun e => e.1 ∉ (xs.take k).map Prod.fst) = [] := by
    apply List.filter_eq_nil_iff.mpr
    intro e he
    have hmem : e.1 ∈ (xs.take k).map Prod.fst := List.mem_map_of_mem he
    simpa only [decide_eq_true_eq, not_not] using hmem
  have hrest : (xs.drop k).filter (fun e => e.1 ∉ (xs.take k).map Prod.fst) = xs.drop k := by
    apply List.filter_eq_self.mpr
    intro e he
    apply decide_eq_true
    intro hmem
    exact hdisj e.1 hmem e.1 (List.mem_map_of_mem he) rfl
  calc xs.filter (fun e => e.1 ∉ (xs.take k).map Prod.fst)
      = (xs.take k ++ xs.drop k).filter fun e => e.1 ∉ (xs.take k).map Prod.fst := by
        simp only [List.take_append_drop]
    _ = xs.drop k := by rw [List.filter_append, hfirst, hrest, List.nil_append]

namespace Waiting

variable {cls : α → ℕ} {w : Waiting α}

theorem perm_order (w : Waiting α) : (w.order cls).Perm w.pending := perm_sortBy _

theorem batch_eq (budget : ℕ) (w : Waiting α) : w.batch cls budget = (w.order cls).take budget := by
  have hlen : (w.order cls).length = w.pending.length := w.perm_order.length_eq
  rw [batch, ← hlen, ← List.take_eq_take_min]

theorem Inv.nodup (h : Inv cls w) : ((w.popped ++ w.pending).map Prod.fst).Nodup := by
  rw [(h.conserved.map Prod.fst).nodup_iff, map_fst_numbered]
  exact List.nodup_range

theorem Inv.nodup_order (h : Inv cls w) : ((w.order cls).map Prod.fst).Nodup := by
  have hnodup := h.nodup
  rw [List.map_append, List.nodup_append] at hnodup
  rw [(w.perm_order.map Prod.fst).nodup_iff]
  exact hnodup.2.1

/-- A pop leaves what its order has after the batch. -/
theorem Inv.filter_pending_pop (h : Inv cls w) (budget c : ℕ) :
    (w.pop cls budget).pending.filter (fun e => cls e.2 = c) =
      ((w.order cls).drop budget).filter fun e => cls e.2 = c := by
  have hrest := filter_notMem_take h.nodup_order budget
  have hclass : (w.order cls).filter (fun e => cls e.2 = c) =
      w.pending.filter fun e => cls e.2 = c := filter_sortBy w.pending c
  rw [pop, batch_eq, ← hrest, List.filter_filter, List.filter_filter]
  simp only [Bool.and_comm (decide (cls _ = c))]
  rw [← List.filter_filter, ← List.filter_filter, hclass]

theorem Inv.perm_pending_pop (h : Inv cls w) (budget : ℕ) :
    (w.pop cls budget).pending.Perm ((w.order cls).drop budget) := by
  rw [← filter_notMem_take h.nodup_order budget, pop, batch_eq]
  exact w.perm_order.symm.filter _

theorem Inv.empty : Inv cls (empty : Waiting α) := ⟨List.Perm.refl _, fun _ => rfl⟩

theorem Inv.accept (h : Inv cls w) (x : α) : Inv cls (w.accept x) := by
  constructor
  · simp only [Waiting.accept, numbered_concat, ← List.append_assoc]
    exact h.conserved.append_right _
  · intro c
    simp only [Waiting.accept, numbered_concat, ← List.append_assoc]
    rw [List.filter_append, h.ordered c, ← List.filter_append]

theorem Inv.pop (h : Inv cls w) (budget : ℕ) : Inv cls (w.pop cls budget) := by
  constructor
  · have hleft := h.perm_pending_pop budget
    have hall : (w.batch cls budget ++ (w.pop cls budget).pending).Perm w.pending := by
      apply (hleft.append_left _).trans
      rw [batch_eq, List.take_append_drop]
      exact w.perm_order
    have hpopped : (w.pop cls budget).popped = w.popped ++ w.batch cls budget := rfl
    rw [hpopped, List.append_assoc]
    exact (hall.append_left _).trans h.conserved
  · intro c
    have hpopped : (w.pop cls budget).popped = w.popped ++ w.batch cls budget := rfl
    have hclass : (w.order cls).filter (fun e => cls e.2 = c) =
        w.pending.filter fun e => cls e.2 = c := filter_sortBy w.pending c
    rw [hpopped, List.append_assoc, List.filter_append, List.filter_append,
      h.filter_pending_pop, batch_eq, ← List.filter_append, List.take_append_drop, hclass,
      ← List.filter_append, h.ordered]
    rfl

theorem Inv.step (h : Inv cls w) (op : Op α) : Inv cls (w.step cls op) := by
  cases op with
  | accept x => exact h.accept x
  | pop budget => exact h.pop budget

theorem Inv.run (h : Inv cls w) (ops : List (Op α)) : Inv cls (w.run cls ops) := by
  induction ops generalizing w with
  | nil => exact h
  | cons op ops ih => exact ih (h.step op)

/-- A selection from one class sees nothing but that class. -/
theorem filter_snd_eq {sel : α → Bool} {c : ℕ} (hsel : ∀ x, sel x = true → cls x = c)
    (xs : List (ℕ × α)) :
    (xs.map Prod.snd).filter sel =
      ((xs.filter fun e => cls e.2 = c).filter fun e => sel e.2).map Prod.snd := by
  rw [List.filter_map, List.filter_filter]
  congr 1
  apply List.filter_congr
  intro e _
  cases hs : sel e.2 with
  | true => simp [hs, hsel e.2 hs]
  | false => simp [hs]

/-- Items of one class leave in the order in which they arrived. -/
theorem Inv.selected (h : Inv cls w) {sel : α → Bool} {c : ℕ}
    (hsel : ∀ x, sel x = true → cls x = c) :
    ((w.popped ++ w.pending).map Prod.snd).filter sel = w.arrived.filter sel := by
  rw [filter_snd_eq hsel, h.ordered c, ← filter_snd_eq hsel, map_snd_numbered]

/-- The order of leaving is the order of arrival in a class. -/
theorem selected_order {sel : α → Bool} {c : ℕ} (hsel : ∀ x, sel x = true → cls x = c)
    (w : Waiting α) :
    ((w.order cls).map Prod.snd).filter sel = (w.pending.map Prod.snd).filter sel := by
  rw [filter_snd_eq hsel, filter_snd_eq hsel]
  congr 1
  congr 1
  exact filter_sortBy w.pending c

/-- Of two items, the first leaves before the second or both are still waiting. -/
def Precedes (x y : ℕ × α) (w : Waiting α) : Prop :=
  (x ∈ w.pending ∧ y ∈ w.pending ∧ y ∉ w.popped) ∨
    (x ∈ w.popped ∧ (y ∈ w.popped → [x, y].Sublist w.popped))

theorem precedes_of_mem (h : Inv cls w) {x y : ℕ × α} (hx : x ∈ w.pending) (hy : y ∈ w.pending) :
    Precedes x y w := by
  left
  refine ⟨hx, hy, fun hpopped => ?_⟩
  have hnodup := h.nodup
  rw [List.map_append, List.nodup_append] at hnodup
  exact hnodup.2.2 _ (List.mem_map_of_mem hpopped) _ (List.mem_map_of_mem hy) rfl

theorem Precedes.pop {x y : ℕ × α} (hp : Precedes x y w) (hlt : cls x.2 < cls y.2)
    (h : Inv cls w) (budget : ℕ) : Precedes x y (w.pop cls budget) := by
  have hpopped : (w.pop cls budget).popped = w.popped ++ w.batch cls budget := rfl
  have hstay : ∀ e ∈ w.pending, e ∉ w.batch cls budget → e ∈ (w.pop cls budget).pending := by
    intro e he hnot
    rw [batch_eq] at hnot
    rw [(h.perm_pending_pop budget).mem_iff]
    have horder : e ∈ (w.order cls).take budget ++ (w.order cls).drop budget := by
      rw [List.take_append_drop]
      exact w.perm_order.mem_iff.mpr he
    exact (List.mem_append.mp horder).resolve_left hnot
  unfold Precedes
  rw [hpopped]
  rcases hp with ⟨hx, hy, hnot⟩ | ⟨hx, hpair⟩
  · by_cases hxb : x ∈ w.batch cls budget
    · right
      refine ⟨List.mem_append_right _ hxb, fun hyb => ?_⟩
      have hyb := (List.mem_append.mp hyb).resolve_left hnot
      rw [batch_eq] at hyb ⊢
      have hxo : x ∈ w.order cls := w.perm_order.mem_iff.mpr hx
      exact ((sorted_sortBy w.pending).pair_sublist_take hxo hlt hyb).trans
        (List.sublist_append_right _ _)
    · left
      have hyb : y ∉ w.batch cls budget := by
        intro hyb
        rw [batch_eq] at hyb hxb
        have hxo : x ∈ w.order cls := w.perm_order.mem_iff.mpr hx
        have hpair := (sorted_sortBy w.pending).pair_sublist_take hxo hlt hyb
        exact hxb (hpair.subset List.mem_cons_self)
      exact ⟨hstay x hx hxb, hstay y hy hyb, fun hy' =>
        (List.mem_append.mp hy').elim hnot hyb⟩
  · right
    refine ⟨List.mem_append_left _ hx, fun hy => ?_⟩
    cases List.mem_append.mp hy with
    | inl hy => exact (hpair hy).trans (List.sublist_append_left _ _)
    | inr hy =>
      exact (List.singleton_sublist.mpr hx).append (List.singleton_sublist.mpr hy)

theorem Precedes.step {x y : ℕ × α} (hp : Precedes x y w) (hlt : cls x.2 < cls y.2)
    (h : Inv cls w) (op : Op α) : Precedes x y (w.step cls op) := by
  cases op with
  | accept z =>
    cases hp with
    | inl hp =>
      exact Or.inl ⟨List.mem_append_left _ hp.1, List.mem_append_left _ hp.2.1, hp.2.2⟩
    | inr hp => exact Or.inr hp
  | pop budget => exact hp.pop hlt h budget

/-- An item leaves before every item of a larger class that was waiting along with it. -/
theorem Inv.overtakes (h : Inv cls w) {x y : ℕ × α} (hx : x ∈ w.pending) (hy : y ∈ w.pending)
    (hlt : cls x.2 < cls y.2) (ops : List (Op α)) (hleft : y ∈ (w.run cls ops).popped) :
    [x, y].Sublist (w.run cls ops).popped := by
  have hrun : ∀ (ops : List (Op α)) (w : Waiting α), Inv cls w → Precedes x y w →
      Inv cls (w.run cls ops) ∧ Precedes x y (w.run cls ops) := by
    intro ops
    induction ops with
    | nil => exact fun w h hp => ⟨h, hp⟩
    | cons op ops ih => exact fun w h hp => ih _ (h.step op) (hp.step hlt h op)
  obtain ⟨_, hp⟩ := hrun ops w h (precedes_of_mem h hx hy)
  cases hp with
  | inl hp => exact absurd hleft hp.2.2
  | inr hp => exact hp.2 hleft

end Waiting
end StableQueue
