import Mathlib.Data.List.AList
import Mathlib.Tactic

/-!
# Finite maps enumerated in any order

A finite map is a duplicate-free association list, read only through lookups.
The list order carries no meaning: a program that walks the map is given the
order in which the keys come, and every permutation of the keys is such an order.

The second half is about the loops such programs run. A loop over the keys whose
body touches one key at a time acts on every key separately, whatever the order.
-/

/-- Finite maps from `K` to `V`. -/
abbrev KeyMap (K V : Type) := AList (fun _ : K => V)

/-- An enumeration order: it may permute the keys it is given, and nothing else. -/
structure MapOrder (K : Type) where
  enum : List K → List K
  enum_perm : ∀ ks, (enum ks).Perm ks

namespace MapOrder

/-- The keys in the order in which they are stored. -/
def stored (K : Type) : MapOrder K := ⟨id, fun ks => List.Perm.refl ks⟩

instance (K : Type) : Inhabited (MapOrder K) := ⟨stored K⟩

end MapOrder

namespace KeyMap

variable {K V : Type} [DecidableEq K]

/-- Keep the entries that `keep` accepts. -/
def retain (keep : K → V → Bool) (m : KeyMap K V) : KeyMap K V :=
  ⟨m.entries.filter (fun e => keep e.1 e.2),
    List.NodupKeys.sublist List.filter_sublist m.nodupKeys⟩

@[simp] theorem lookup_retain (keep : K → V → Bool) (m : KeyMap K V) (k : K) :
    (retain keep m).lookup k = (m.lookup k).filter (keep k) := by
  ext v
  rw [Option.filter_eq_some_iff, ← Option.mem_def, ← Option.mem_def, AList.mem_lookup_iff,
    AList.mem_lookup_iff]
  simp only [retain, List.mem_filter]

theorem mem_iff_lookup {m : KeyMap K V} {k : K} : k ∈ m ↔ ∃ v, m.lookup k = some v := by
  rw [← AList.lookup_isSome, Option.isSome_iff_exists]

theorem lookup_insert_eq (m : KeyMap K V) (k k' : K) (v : V) :
    (m.insert k v).lookup k' = if k' = k then some v else m.lookup k' := by
  split_ifs with h
  · rw [h, AList.lookup_insert]
  · exact AList.lookup_insert_ne h

theorem lookup_erase_eq (m : KeyMap K V) (k k' : K) :
    (m.erase k).lookup k' = if k' = k then none else m.lookup k' := by
  split_ifs with h
  · rw [h, AList.lookup_erase]
  · exact AList.lookup_erase_ne h

@[simp] theorem erase_insert (m : KeyMap K V) (k : K) (v : V) :
    (m.insert k v).erase k = m.erase k := by
  apply AList.ext
  change List.kerase k (List.kinsert k v m.entries) = List.kerase k m.entries
  simp [List.kinsert_def]

omit [DecidableEq K] in
/-- Two maps with the same keys have as many of them. -/
theorem length_keys_eq {V' : Type} {m : KeyMap K V} {m' : KeyMap K V'}
    (h : ∀ k, k ∈ m ↔ k ∈ m') : m.keys.length = m'.keys.length :=
  ((List.perm_ext_iff_of_nodup m.keys_nodup m'.keys_nodup).mpr fun k => by
    rw [← AList.mem_keys, ← AList.mem_keys, h]).length_eq

omit [DecidableEq K] in
theorem length_keys_le {V' : Type} {m : KeyMap K V} {m' : KeyMap K V'}
    (h : ∀ k, k ∈ m → k ∈ m') : m.keys.length ≤ m'.keys.length :=
  (m.keys_nodup.subperm fun k hk => AList.mem_keys.mp (h k (AList.mem_keys.mpr hk))).length_le

/-- An inserted key adds one key at most. -/
theorem length_keys_insert_le {m : KeyMap K V} {k : K} {n : ℕ} (hm : m.keys.length ≤ n)
    (h : k ∈ m ∨ m.keys.length < n) (v : V) : (m.insert k v).keys.length ≤ n := by
  rw [AList.keys_insert, List.length_cons]
  rcases h with hin | hlt
  · have hkey : k ∈ m.keys := AList.mem_keys.mp hin
    have hpos := List.length_pos_of_mem hkey
    rw [List.length_erase_of_mem hkey]
    omega
  · have hle := m.keys.length_erase_le (a := k)
    omega

theorem length_keys_erase {m : KeyMap K V} {k : K} (h : k ∈ m) :
    (m.erase k).keys.length + 1 = m.keys.length := by
  have hkey : k ∈ m.keys := AList.mem_keys.mp h
  have hpos := List.length_pos_of_mem hkey
  rw [AList.keys_erase, List.length_erase_of_mem hkey]
  omega

/-- The entries in the order `o`. -/
def iter (m : KeyMap K V) (o : MapOrder K) : List (K × V) :=
  (o.enum m.keys).filterMap fun k => (m.lookup k).map (k, ·)

omit [DecidableEq K] in
theorem mem_enum_keys {m : KeyMap K V} {o : MapOrder K} {k : K} :
    k ∈ o.enum m.keys ↔ k ∈ m := by
  rw [(o.enum_perm _).mem_iff, AList.mem_keys]

omit [DecidableEq K] in
theorem nodup_enum_keys (m : KeyMap K V) (o : MapOrder K) : (o.enum m.keys).Nodup :=
  (o.enum_perm _).nodup_iff.mpr m.keys_nodup

theorem mem_iter {m : KeyMap K V} {o : MapOrder K} {k : K} {v : V} :
    (k, v) ∈ m.iter o ↔ m.lookup k = some v := by
  simp only [iter, List.mem_filterMap, Option.map_eq_some_iff, Prod.mk.injEq]
  constructor
  · rintro ⟨k', _, v', hv, rfl, rfl⟩
    exact hv
  · intro hv
    exact ⟨k, mem_enum_keys.mpr (mem_iff_lookup.mpr ⟨v, hv⟩), v, hv, rfl, rfl⟩

theorem map_fst_iter (m : KeyMap K V) (o : MapOrder K) :
    (m.iter o).map Prod.fst = o.enum m.keys := by
  have hall : ∀ ks : List K, (∀ k ∈ ks, k ∈ m) →
      (ks.filterMap fun k => (m.lookup k).map (k, ·)).map Prod.fst = ks := by
    intro ks
    induction ks with
    | nil => simp
    | cons k ks ih =>
      intro hks
      obtain ⟨v, hv⟩ := mem_iff_lookup.mp (hks k (by simp))
      simp only [List.filterMap_cons, hv, Option.map_some, List.map_cons]
      rw [ih fun k' hk' => hks k' (by simp [hk'])]
  exact hall _ fun k hk => mem_enum_keys.mp hk

/-- Two maps with the same entries hand out the same entries, whatever the orders. -/
theorem iter_perm {m m' : KeyMap K V} (h : ∀ k, m.lookup k = m'.lookup k) (o o' : MapOrder K) :
    (m.iter o).Perm (m'.iter o') := by
  have hnodup : ∀ (m : KeyMap K V) (o : MapOrder K), (m.iter o).Nodup := by
    intro m o
    apply List.Nodup.of_map Prod.fst
    rw [map_fst_iter]
    exact nodup_enum_keys m o
  apply (List.perm_ext_iff_of_nodup (hnodup m o) (hnodup m' o')).mpr
  rintro ⟨k, v⟩
  rw [mem_iter, mem_iter, h]

theorem nodup_map_fst_iter (m : KeyMap K V) (o : MapOrder K) :
    ((m.iter o).map Prod.fst).Nodup := by
  rw [map_fst_iter]
  exact nodup_enum_keys m o

end KeyMap

namespace Loop

variable {σ κ ω β : Type}

/-- `for key in keys` with a body that updates the state and pushes outputs. -/
def forEach (body : σ → κ → σ × List ω) : List κ → σ → σ × List ω
  | [], s => (s, [])
  | k :: ks, s =>
    let now := body s k
    let rest := forEach body ks now.1
    (rest.1, now.2 ++ rest.2)

@[simp] theorem forEach_nil (body : σ → κ → σ × List ω) (s : σ) :
    forEach body [] s = (s, []) := rfl

@[simp] theorem forEach_cons (body : σ → κ → σ × List ω) (k : κ) (ks : List κ) (s : σ) :
    forEach body (k :: ks) s =
      ((forEach body ks (body s k).1).1, (body s k).2 ++ (forEach body ks (body s k).1).2) := rfl

theorem forEach_append (body : σ → κ → σ × List ω) (ks ks' : List κ) (s : σ) :
    forEach body (ks ++ ks') s =
      ((forEach body ks' (forEach body ks s).1).1,
        (forEach body ks s).2 ++ (forEach body ks' (forEach body ks s).1).2) := by
  induction ks generalizing s with
  | nil => rfl
  | cons k ks ih => rw [List.cons_append, forEach_cons, ih, forEach_cons, List.append_assoc]

/-- What every pass of the body keeps, the loop keeps. -/
theorem forEach_invariant {body : σ → κ → σ × List ω} {I : σ → Prop}
    (hbody : ∀ s k, I s → I (body s k).1) (ks : List κ) {s : σ} (h : I s) :
    I (forEach body ks s).1 := by
  induction ks generalizing s with
  | nil => exact h
  | cons k ks ih => exact ih (hbody s k h)

/-- A body that reads and writes only its own key, seen through `view`. The
invariant `I` is what the body may assume about the rest of the state. -/
structure Local (body : σ → κ → σ × List ω) (I : σ → Prop) (view : σ → κ → β)
    (next : κ → β → β) (out : κ → β → List ω) : Prop where
  keeps : ∀ s k, I s → I (body s k).1
  self : ∀ s k, I s → view (body s k).1 k = next k (view s k)
  other : ∀ s k k', I s → k' ≠ k → view (body s k).1 k' = view s k'
  outputs : ∀ s k, I s → (body s k).2 = out k (view s k)

/-- The loop visits each key once, so every key ends where its own pass takes it. -/
theorem Local.view_forEach [DecidableEq κ] {body : σ → κ → σ × List ω} {I : σ → Prop}
    {view : σ → κ → β} {next : κ → β → β} {out : κ → β → List ω}
    (hl : Local body I view next out) {ks : List κ} (hks : ks.Nodup) {s : σ} (hI : I s) (k : κ) :
    view (forEach body ks s).1 k = if k ∈ ks then next k (view s k) else view s k := by
  induction ks generalizing s with
  | nil => simp
  | cons j ks ih =>
    have hj : j ∉ ks := (List.nodup_cons.mp hks).1
    rw [forEach_cons, ih (List.nodup_cons.mp hks).2 (hl.keeps s j hI)]
    by_cases hkj : k = j
    · subst hkj
      rw [if_neg hj, hl.self s k hI, if_pos (by simp)]
    · rw [hl.other s j k hI hkj]
      simp [hkj]

/-- The outputs are those of the single passes, each on the state it started from. -/
theorem Local.outputs_forEach [DecidableEq κ] {body : σ → κ → σ × List ω} {I : σ → Prop}
    {view : σ → κ → β} {next : κ → β → β} {out : κ → β → List ω}
    (hl : Local body I view next out) {ks : List κ} (hks : ks.Nodup) {s : σ} (hI : I s) :
    (forEach body ks s).2 = ks.flatMap fun k => out k (view s k) := by
  induction ks generalizing s with
  | nil => simp
  | cons j ks ih =>
    have hj : j ∉ ks := (List.nodup_cons.mp hks).1
    have hrest : (ks.flatMap fun k => out k (view (body s j).1 k)) =
        ks.flatMap fun k => out k (view s k) :=
      List.flatMap_congr fun k hk => by rw [hl.other s j k hI fun h => hj (h ▸ hk)]
    rw [forEach_cons, ih (List.nodup_cons.mp hks).2 (hl.keeps s j hI), hl.outputs s j hI,
      List.flatMap_cons, hrest]

/-- `while cond` with a body that updates the state and pushes outputs: the passes it makes
until its test fails. A loop that does not end is related to nothing. -/
inductive While (cond : σ → Prop) (body : σ → σ × List ω) : σ → σ → List ω → Prop
  | exit {s : σ} (h : ¬ cond s) : While cond body s s []
  | pass {s t : σ} {os : List ω} (h : cond s) (hrest : While cond body (body s).1 t os) :
      While cond body s t ((body s).2 ++ os)

/-- A loop ends in one way at most. -/
theorem While.unique {cond : σ → Prop} {body : σ → σ × List ω} {s t t' : σ} {os os' : List ω}
    (h : While cond body s t os) (h' : While cond body s t' os') : t = t' ∧ os = os' := by
  induction h generalizing t' os' with
  | exit hstop =>
    cases h' with
    | exit => exact ⟨rfl, rfl⟩
    | pass hgo => exact absurd hgo hstop
  | pass hgo _ ih =>
    cases h' with
    | exit hstop => exact absurd hgo hstop
    | pass _ hrest =>
      obtain ⟨rfl, rfl⟩ := ih hrest
      exact ⟨rfl, rfl⟩

end Loop
