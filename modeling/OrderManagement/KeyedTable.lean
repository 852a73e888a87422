import Mathlib.Algebra.BigOperators.Group.List.Basic
import Mathlib.Algebra.Order.BigOperators.Group.List
import Mathlib.Data.List.Nodup
import Mathlib.Tactic.Abel

/-! Tables of rows with pairwise distinct keys, the shape a primary key or a
unique index gives to a relation. Rows keep insertion order, but every lemma
below describes a table through `find`, the rows it holds and its totals. -/

namespace OrderManagement

/-- A table cannot hold two rows of one key, whatever is written into it. -/
structure Table (α : Type) {κ : Type} (key : α → κ) where
  rows : List α
  nodup : (rows.map key).Nodup

namespace Table

variable {α κ M : Type} {key : α → κ}

@[ext] theorem ext {t u : Table α key} (h : t.rows = u.rows) : t = u := by
  cases t
  cases u
  simp_all

def empty (key : α → κ) : Table α key := ⟨[], List.nodup_nil⟩

def total [AddCommGroup M] (t : Table α key) (f : α → M) : M := (t.rows.map f).sum

/-- The first row satisfying `p`, for lookups by something else than the key. -/
def first (t : Table α key) (p : α → Bool) : Option α := t.rows.find? p

@[simp] theorem rows_empty : (empty key).rows = [] := rfl

@[simp] theorem total_empty [AddCommGroup M] (f : α → M) : (empty key).total f = 0 := rfl

theorem total_congr [AddCommGroup M] {t : Table α key} {f g : α → M}
    (h : ∀ r ∈ t.rows, f r = g r) : t.total f = t.total g := by
  unfold total
  rw [List.map_congr_left h]

theorem total_eq_zero [AddCommGroup M] {t : Table α key} {f : α → M}
    (h : ∀ r ∈ t.rows, f r = 0) : t.total f = 0 := by
  rw [total_congr h]
  simp [total]

theorem total_add [AddCommGroup M] (t : Table α key) (f g : α → M) :
    t.total (fun r => f r + g r) = t.total f + t.total g := by
  unfold total
  induction t.rows with
  | nil => simp
  | cons y ys ih =>
    simp only [List.map_cons, List.sum_cons, ih]
    abel

theorem total_ite [AddCommGroup M] (t : Table α key) (p : α → Bool) (f : α → M) :
    t.total (fun r => if p r then f r else 0) = ((t.rows.filter p).map f).sum := by
  unfold total
  induction t.rows with
  | nil => simp
  | cons y ys ih => by_cases h : p y <;> simp [h, ih]

section Ordered

variable [AddCommGroup M] [PartialOrder M] [IsOrderedAddMonoid M]

theorem le_total {t : Table α key} {f : α → M} (h : ∀ r ∈ t.rows, 0 ≤ f r) {r : α}
    (mem : r ∈ t.rows) : f r ≤ t.total f := by
  apply List.single_le_sum
  · intro x hx
    obtain ⟨s, hs, rfl⟩ := List.mem_map.1 hx
    exact h s hs
  · exact List.mem_map_of_mem mem

end Ordered

theorem first_eq_some {t : Table α key} {p : α → Bool} {r : α} (h : t.first p = some r) :
    r ∈ t.rows ∧ p r := ⟨List.mem_of_find?_eq_some h, List.find?_some h⟩

theorem first_eq_none_iff {t : Table α key} {p : α → Bool} :
    t.first p = none ↔ ∀ r ∈ t.rows, ¬ p r := by
  simp [first, List.find?_eq_none]

/-- A lookup that at most one row can answer answers with that row. -/
theorem first_of_unique {t : Table α key} {p : α → Bool} {r : α} (mem : r ∈ t.rows) (hp : p r)
    (unique : ∀ s ∈ t.rows, p s → s = r) : t.first p = some r := by
  obtain ⟨s, hs⟩ : ∃ s, t.first p = some s :=
    Option.isSome_iff_exists.1 (List.find?_isSome.2 ⟨r, mem, hp⟩)
  obtain ⟨smem, hps⟩ := first_eq_some hs
  rw [hs, unique s smem hps]

section Keyed

variable [DecidableEq κ]

def place (key : α → κ) (row : α) : List α → List α
  | [] => [row]
  | x :: xs => if key x = key row then row :: xs else x :: place key row xs

theorem mem_place_of {key : α → κ} {row x : α} {xs : List α} (h : x ∈ place key row xs) :
    x = row ∨ x ∈ xs := by
  induction xs with
  | nil => simpa [place] using h
  | cons y ys ih =>
    unfold place at h
    split at h
    · simp only [List.mem_cons] at h ⊢
      tauto
    · simp only [List.mem_cons] at h ⊢
      rcases h with h | h
      · exact Or.inr (Or.inl h)
      · rcases ih h with h | h
        · exact Or.inl h
        · exact Or.inr (Or.inr h)

theorem nodup_place {key : α → κ} (row : α) {xs : List α} (h : (xs.map key).Nodup) :
    ((place key row xs).map key).Nodup := by
  induction xs with
  | nil => simp [place]
  | cons y ys ih =>
    simp only [List.map_cons, List.nodup_cons, List.mem_map, not_exists, not_and] at h
    unfold place
    split
    · rename_i same
      simp only [List.map_cons, List.nodup_cons, List.mem_map, not_exists, not_and]
      exact ⟨fun x hx => same ▸ h.1 x hx, h.2⟩
    · rename_i other
      simp only [List.map_cons, List.nodup_cons, List.mem_map, not_exists, not_and]
      refine ⟨fun x hx hk => ?_, ih h.2⟩
      rcases mem_place_of hx with rfl | hx
      · exact other hk.symm
      · exact h.1 x hx hk

def put (t : Table α key) (row : α) : Table α key :=
  ⟨place key row t.rows, nodup_place row t.nodup⟩

def find (t : Table α key) (k : κ) : Option α := t.rows.find? fun x => key x = k

@[simp] theorem find_empty (k : κ) : (empty key).find k = none := rfl

theorem find_eq_some_iff {t : Table α key} {k : κ} {r : α} :
    t.find k = some r ↔ r ∈ t.rows ∧ key r = k := by
  constructor
  · intro h
    exact ⟨List.mem_of_find?_eq_some h, by simpa using List.find?_some h⟩
  · rintro ⟨mem, rfl⟩
    obtain ⟨s, hs⟩ : ∃ s, t.find (key r) = some s :=
      Option.isSome_iff_exists.1 (List.find?_isSome.2 ⟨r, mem, by simp⟩)
    have smem := List.mem_of_find?_eq_some hs
    have skey : key s = key r := by simpa using List.find?_some hs
    rw [hs, List.inj_on_of_nodup_map t.nodup smem mem skey]

theorem find_key {t : Table α key} {k : κ} {r : α} (h : t.find k = some r) : key r = k :=
  (find_eq_some_iff.1 h).2

theorem mem_of_find {t : Table α key} {k : κ} {r : α} (h : t.find k = some r) : r ∈ t.rows :=
  (find_eq_some_iff.1 h).1

theorem find_of_mem {t : Table α key} {r : α} (h : r ∈ t.rows) : t.find (key r) = some r :=
  find_eq_some_iff.2 ⟨h, rfl⟩

theorem find_eq_none_iff {t : Table α key} {k : κ} :
    t.find k = none ↔ ∀ r ∈ t.rows, key r ≠ k := by
  simp [find, List.find?_eq_none]

theorem find?_place (key : α → κ) (row : α) (k : κ) (xs : List α) :
    (place key row xs).find? (fun x => key x = k) =
      if key row = k then some row else xs.find? fun x => key x = k := by
  induction xs with
  | nil => by_cases h : key row = k <;> simp [place, h]
  | cons y ys ih =>
    by_cases hy : key y = key row
    · by_cases h : key row = k <;> simp [place, hy, h]
    · by_cases h : key row = k
      · have : key y ≠ k := fun e => hy (e.trans h.symm)
        simp only [place, this, if_false, List.find?_cons, decide_false, ih, h, if_true]
      · simp only [place, hy, if_false, List.find?_cons, ih, h]

theorem find_put (t : Table α key) (row : α) (k : κ) :
    (t.put row).find k = if key row = k then some row else t.find k :=
  find?_place key row k t.rows

@[simp] theorem find_put_self (t : Table α key) (row : α) :
    (t.put row).find (key row) = some row := by simp [find_put]

theorem find_put_of_eq {t : Table α key} {row : α} {k : κ} (h : key row = k) :
    (t.put row).find k = some row := by simp [find_put, h]

theorem find_put_of_ne {t : Table α key} {row : α} {k : κ} (h : key row ≠ k) :
    (t.put row).find k = t.find k := by simp [find_put, h]

theorem find_put_isSome {t : Table α key} {k : κ} (row : α) (h : (t.find k).isSome) :
    ((t.put row).find k).isSome := by
  rw [find_put]
  split <;> simp [h]

theorem mem_put {t : Table α key} {row x : α} :
    x ∈ (t.put row).rows ↔ x = row ∨ (x ∈ t.rows ∧ key x ≠ key row) := by
  constructor
  · intro h
    have hx := find_of_mem h
    rw [find_put] at hx
    split at hx
    · exact Or.inl (Option.some.inj hx).symm
    · rename_i ne
      exact Or.inr ⟨mem_of_find hx, fun e => ne e.symm⟩
  · rintro (rfl | ⟨mem, ne⟩)
    · exact mem_of_find (find_put_self t x)
    · exact mem_of_find ((find_put_of_ne fun e => ne e.symm).trans (find_of_mem mem))

theorem mem_put_self (t : Table α key) (row : α) : row ∈ (t.put row).rows :=
  mem_put.2 (Or.inl rfl)

theorem forall_put {t : Table α key} {row : α} {P : α → Prop} (new : P row)
    (rows : ∀ r ∈ t.rows, P r) : ∀ r ∈ (t.put row).rows, P r := by
  intro r hr
  rcases mem_put.1 hr with rfl | ⟨mem, -⟩
  · exact new
  · exact rows r mem

theorem place_place {r s : α} (h : key r = key s) (xs : List α) :
    place key s (place key r xs) = place key s xs := by
  induction xs with
  | nil => simp [place, h]
  | cons y ys ih =>
    by_cases hy : key y = key r
    · simp [place, hy, h]
    · have hs : key y ≠ key s := fun e => hy (e.trans h.symm)
      simpa [place, hy, hs] using ih

theorem put_put {t : Table α key} {r s : α} (h : key r = key s) : (t.put r).put s = t.put s :=
  ext (place_place h t.rows)

theorem place_of_find? {r : α} {xs : List α} (h : (xs.find? fun x => key x = key r) = some r) :
    place key r xs = xs := by
  induction xs with
  | nil => simp at h
  | cons y ys ih =>
    by_cases hy : key y = key r
    · simp [hy] at h
      simp [place, h]
    · simp only [List.find?_cons, hy, decide_false] at h
      simpa [place, hy] using ih h

theorem put_self {t : Table α key} {r : α} (h : t.find (key r) = some r) : t.put r = t :=
  ext (place_of_find? h)

theorem place_eq_map {f : α → α} {xs : List α} {r : α} (nodup : (xs.map key).Nodup)
    (found : (xs.find? fun x => key x = key r) = some r) (same : key (f r) = key r) :
    place key (f r) xs = xs.map fun x => if key x = key r then f x else x := by
  induction xs with
  | nil => simp at found
  | cons y ys ih =>
    rw [List.map_cons, List.nodup_cons] at nodup
    by_cases hy : key y = key r
    · simp only [List.find?_cons, hy, decide_true, Option.some_inj] at found
      subst found
      have others : ∀ x ∈ ys, key x ≠ key y := fun x mem eq =>
        nodup.1 (List.mem_map.2 ⟨x, mem, eq⟩)
      have rest : (ys.map fun x => if key x = key y then f x else x) = ys.map id :=
        List.map_congr_left fun x mem => if_neg (others x mem)
      simp [place, same, rest]
    · simp only [List.find?_cons, hy, decide_false] at found
      simp [place, same, hy, ih nodup.2 found]

theorem rows_put_of_find {t : Table α key} {f : α → α} {r : α} (found : t.find (key r) = some r)
    (same : key (f r) = key r) :
    (t.put (f r)).rows = t.rows.map fun x => if key x = key r then f x else x :=
  place_eq_map t.nodup found same

theorem place_of_new {row : α} {xs : List α} (new : ∀ x ∈ xs, key x ≠ key row) :
    place key row xs = xs ++ [row] := by
  induction xs with
  | nil => rfl
  | cons y ys ih =>
    have rest := ih fun x hx => new x (List.mem_cons_of_mem y hx)
    simp [place, new y List.mem_cons_self, rest]

theorem rows_put_of_new {t : Table α key} {row : α} (new : t.find (key row) = none) :
    (t.put row).rows = t.rows ++ [row] := place_of_new (find_eq_none_iff.1 new)

theorem map_place {β : Type} {f : α → β} {row : α} {xs : List α} {old : α}
    (found : (xs.find? fun x => key x = key row) = some old) (same : f row = f old) :
    (place key row xs).map f = xs.map f := by
  induction xs with
  | nil => simp at found
  | cons y ys ih =>
    by_cases hy : key y = key row
    · simp only [List.find?_cons, hy, decide_true, Option.some_inj] at found
      subst found
      simp [place, hy, same]
    · simp only [List.find?_cons, hy, decide_false] at found
      simp [place, hy, ih found]

theorem map_put {β : Type} {t : Table α key} {f : α → β} {row old : α}
    (found : t.find (key row) = some old) (same : f row = f old) :
    (t.put row).rows.map f = t.rows.map f := map_place found same

theorem find?_place_of_same {p : α → Bool} {row old : α} {xs : List α}
    (found : (xs.find? fun x => key x = key row) = some old) (same : p row = p old) {r : α}
    (h : xs.find? p = some r) :
    ∃ r', (place key row xs).find? p = some r' ∧ (r' = r ∨ (r' = row ∧ r = old)) := by
  induction xs with
  | nil => simp at h
  | cons y ys ih =>
    by_cases hy : key y = key row
    · simp only [List.find?_cons, hy, decide_true, Option.some_inj] at found
      subst found
      cases hp : p y with
      | true =>
        simp only [List.find?_cons, hp, Option.some_inj] at h
        subst h
        exact ⟨row, by simp [place, hy, same, hp], Or.inr ⟨rfl, rfl⟩⟩
      | false =>
        simp only [List.find?_cons, hp] at h
        exact ⟨r, by simp [place, hy, same, hp, h], Or.inl rfl⟩
    · simp only [List.find?_cons, hy, decide_false] at found
      cases hp : p y with
      | true =>
        simp only [List.find?_cons, hp, Option.some_inj] at h
        subst h
        exact ⟨y, by simp [place, hy, hp], Or.inl rfl⟩
      | false =>
        simp only [List.find?_cons, hp] at h
        obtain ⟨r', found', eq⟩ := ih found h
        exact ⟨r', by simpa [place, hy, hp] using found', eq⟩

/-- An update that `p` cannot see changes at most the row that a lookup by `p` finds. -/
theorem first_put {t : Table α key} {p : α → Bool} {row old : α}
    (found : t.find (key row) = some old) (same : p row = p old) {r : α} (h : t.first p = some r) :
    ∃ r', (t.put row).first p = some r' ∧ (r' = r ∨ (r' = row ∧ r = old)) :=
  find?_place_of_same found same h

theorem first_put_of_new {t : Table α key} {p : α → Bool} {row r : α}
    (new : t.find (key row) = none) (h : t.first p = some r) : (t.put row).first p = some r := by
  unfold first at h ⊢
  rw [rows_put_of_new new, List.find?_append, h]
  rfl

theorem sum_place [AddCommGroup M] (row : α) (f : α → M) (xs : List α) :
    ((place key row xs).map f).sum =
      (xs.map f).sum - ((xs.find? fun x => key x = key row).elim 0 f) + f row := by
  induction xs with
  | nil => simp [place]
  | cons y ys ih =>
    by_cases hy : key y = key row
    · simp only [place, hy, if_true, List.map_cons, List.sum_cons, List.find?_cons, decide_true,
        Option.elim_some]
      abel
    · simp only [place, hy, if_false, List.map_cons, List.sum_cons, List.find?_cons, decide_false,
        ih]
      abel

theorem total_put [AddCommGroup M] (t : Table α key) (row : α) (f : α → M) :
    (t.put row).total f = t.total f - ((t.find (key row)).elim 0 f) + f row :=
  sum_place row f t.rows

theorem total_put_of_find [AddCommGroup M] {t : Table α key} {row old : α} (f : α → M)
    (h : t.find (key row) = some old) : (t.put row).total f = t.total f - f old + f row := by
  simp [total_put, h]

theorem total_put_of_new [AddCommGroup M] {t : Table α key} {row : α} (f : α → M)
    (h : t.find (key row) = none) : (t.put row).total f = t.total f + f row := by
  simp [total_put, h]

theorem filter_key {t : Table α key} {k : κ} {r : α} (h : t.find k = some r) :
    (t.rows.filter fun x => key x = k) = [r] := by
  obtain ⟨mem, eq⟩ := find_eq_some_iff.1 h
  have only : ∀ x ∈ t.rows.filter fun x => key x = k, x = r := fun x hx => by
    obtain ⟨xmem, xkey⟩ := List.mem_filter.1 hx
    exact List.inj_on_of_nodup_map t.nodup xmem mem ((of_decide_eq_true xkey).trans eq.symm)
  have nodup : (t.rows.filter fun x => key x = k).Nodup :=
    (List.Nodup.of_map key t.nodup).filter _
  refine List.Perm.eq_singleton ?_
  rw [List.perm_ext_iff_of_nodup nodup (List.nodup_singleton r)]
  intro x
  rw [List.mem_singleton]
  refine ⟨only x, ?_⟩
  rintro rfl
  exact List.mem_filter.2 ⟨mem, by simpa using eq⟩

theorem total_key [AddCommGroup M] (t : Table α key) (k : κ) (f : α → M) :
    (t.total fun r => if key r = k then f r else 0) = (t.find k).elim 0 f := by
  have guarded := total_ite t (fun r => decide (key r = k)) f
  simp only [decide_eq_true_eq] at guarded
  rw [guarded]
  cases found : t.find k with
  | none =>
    have missing : (t.rows.filter fun r => key r = k) = [] := by
      refine List.filter_eq_nil_iff.2 fun r mem => ?_
      simpa using find_eq_none_iff.1 found r mem
    simp [missing]
  | some r => simp [filter_key found]

/-- A sum over a list of what belongs to the rows, taken row by row. -/
theorem sum_lookup [AddCommGroup M] {β : Type} (t : Table α key) (owner : β → κ)
    (weight : α → β → M) (ys : List β) :
    (ys.map fun y => (t.find (owner y)).elim 0 (weight · y)).sum =
      t.total fun r => ((ys.filter fun y => owner y = key r).map (weight r)).sum := by
  induction ys with
  | nil => exact (total_eq_zero fun r _ => by simp).symm
  | cons y ys ih =>
    have first : (fun r => (((y :: ys).filter fun y => owner y = key r).map (weight r)).sum) =
        fun r => (if key r = owner y then weight r y else 0) +
          ((ys.filter fun y => owner y = key r).map (weight r)).sum := by
      funext r
      by_cases own : owner y = key r
      · simp [own]
      · have other : key r ≠ owner y := fun same => own same.symm
        simp [own, other]
    rw [List.map_cons, List.sum_cons, ih, first, total_add, total_key]

theorem mem_keys_iff {t : Table α key} {k : κ} : k ∈ t.rows.map key ↔ (t.find k).isSome := by
  rw [Option.isSome_iff_exists, List.mem_map]
  constructor
  · rintro ⟨r, mem, rfl⟩
    exact ⟨r, find_of_mem mem⟩
  · rintro ⟨r, found⟩
    exact ⟨r, mem_of_find found, find_key found⟩

theorem total_eq_sum_keys [AddCommGroup M] (t : Table α key) (f : α → M) :
    t.total f = ((t.rows.map key).map fun k => (t.find k).elim 0 f).sum := by
  unfold total
  rw [List.map_map]
  congr 1
  refine List.map_congr_left fun r mem => ?_
  simp [find_of_mem mem]

/-- Two tables that agree under every key on what `f` depends on have one total. -/
theorem total_eq_of_find [AddCommGroup M] {β : Type} {t u : Table α key} {f : α → M} (g : α → β)
    (agree : ∀ k, (t.find k).map g = (u.find k).map g)
    (depends : ∀ r s, key r = key s → g r = g s → f r = f s) : t.total f = u.total f := by
  have keys : (t.rows.map key).Perm (u.rows.map key) := by
    rw [List.perm_ext_iff_of_nodup t.nodup u.nodup]
    intro k
    rw [mem_keys_iff, mem_keys_iff, ← Option.isSome_map, agree, Option.isSome_map]
  rw [total_eq_sum_keys, total_eq_sum_keys, (keys.map _).sum_eq]
  congr 1
  refine List.map_congr_left fun k _ => ?_
  have same := agree k
  cases ht : t.find k with
  | none =>
    rw [ht, Option.map_none, eq_comm, Option.map_eq_none_iff] at same
    rw [same]
  | some r =>
    rw [ht, Option.map_some, eq_comm, Option.map_eq_some_iff] at same
    obtain ⟨s, hs, values⟩ := same
    rw [hs]
    exact depends r s ((find_key ht).trans (find_key hs).symm) values.symm

/-- Rows `xs` satisfy `p` in one table and not in the next, where no others come to satisfy it. -/
theorem countP_add_le {t t' : Table α key} {p : α → Prop} [DecidablePred p] {xs : List α}
    (nodup : (xs.map key).Nodup)
    (inside : ∀ x ∈ xs, x ∈ t.rows ∧ p x)
    (gone : ∀ x ∈ xs, ∀ y, t'.find (key x) = some y → ¬ p y)
    (kept : ∀ k y, t'.find k = some y → p y → ∃ x, t.find k = some x ∧ p x) :
    xs.length + (t'.rows.countP fun x => p x) ≤ t.rows.countP fun x => p x := by
  have rest : ((t'.rows.filter fun x => p x).map key).Nodup :=
    (List.filter_sublist.map key).nodup t'.nodup
  have apart : (xs.map key ++ (t'.rows.filter fun x => p x).map key).Nodup := by
    refine List.nodup_append.2 ⟨nodup, rest, fun k first l later same => ?_⟩
    obtain ⟨x, mem, rfl⟩ := List.mem_map.1 first
    obtain ⟨y, filtered, rfl⟩ := List.mem_map.1 later
    obtain ⟨row, py⟩ := List.mem_filter.1 filtered
    exact gone x mem y (same ▸ find_of_mem row) (of_decide_eq_true py)
  have inner : xs.map key ++ (t'.rows.filter fun x => p x).map key ⊆
      (t.rows.filter fun x => p x).map key := by
    intro k either
    rcases List.mem_append.1 either with first | later
    · obtain ⟨x, mem, rfl⟩ := List.mem_map.1 first
      obtain ⟨row, px⟩ := inside x mem
      exact List.mem_map_of_mem (List.mem_filter.2 ⟨row, decide_eq_true px⟩)
    · obtain ⟨y, filtered, rfl⟩ := List.mem_map.1 later
      obtain ⟨row, py⟩ := List.mem_filter.1 filtered
      obtain ⟨x, found, px⟩ := kept _ y (find_of_mem row) (of_decide_eq_true py)
      refine List.mem_map.2 ⟨x, List.mem_filter.2 ⟨mem_of_find found, decide_eq_true px⟩, ?_⟩
      exact find_key found
  have bound := (List.subperm_of_subset apart inner).length_le
  simpa [List.countP_eq_length_filter] using bound

def AgreeOn (K : κ → Bool) (t u : Table α key) : Prop :=
  (t.rows.filter fun r => K (key r)) = u.rows.filter fun r => K (key r)

theorem find?_filter_of {K : α → Bool} {p : α → Bool} {xs : List α} (sees : ∀ x ∈ xs, p x → K x) :
    (xs.filter K).find? p = xs.find? p := by
  induction xs with
  | nil => rfl
  | cons x xs ih =>
    have rest := ih fun y hy => sees y (List.mem_cons_of_mem x hy)
    cases hk : K x with
    | true => simp only [List.filter_cons_of_pos hk, List.find?_cons, rest]
    | false =>
      have hp : p x = false := by
        by_contra h
        simp [sees x List.mem_cons_self (by simpa using h)] at hk
      rw [List.filter_cons_of_neg (by simp [hk]), rest, List.find?_cons, hp]

theorem filter_place (K : κ → Bool) (row : α) (xs : List α) :
    ((place key row xs).filter fun r => K (key r)) =
      if K (key row) then place key row (xs.filter fun r => K (key r))
      else xs.filter fun r => K (key r) := by
  induction xs with
  | nil => by_cases h : K (key row) <;> simp [place, h]
  | cons x xs ih =>
    by_cases same : key x = key row
    · by_cases h : K (key row) <;> simp [place, same, h]
    · by_cases h : K (key row) <;> by_cases hx : K (key x) <;>
        simp [place, same, ih, h, hx]

namespace AgreeOn

variable {K : κ → Bool} {t u : Table α key}

theorem find (h : AgreeOn K t u) {k : κ} (mem : K k) : t.find k = u.find k := by
  have sees : ∀ x : α, decide (key x = k) = true → K (key x) = true := fun x hx =>
    (of_decide_eq_true hx).symm ▸ mem
  unfold Table.find
  rw [← find?_filter_of fun x (_ : x ∈ t.rows) => sees x,
    ← find?_filter_of fun x (_ : x ∈ u.rows) => sees x]
  exact congrArg (List.find? _) h

omit [DecidableEq κ] in
theorem first (h : AgreeOn K t u) {p : α → Bool} (left : ∀ x ∈ t.rows, p x → K (key x))
    (right : ∀ x ∈ u.rows, p x → K (key x)) : t.first p = u.first p := by
  unfold Table.first
  rw [← find?_filter_of left, ← find?_filter_of right]
  exact congrArg (List.find? _) h

theorem put (h : AgreeOn K t u) (row : α) : AgreeOn K (t.put row) (u.put row) := by
  unfold AgreeOn Table.put at *
  rw [filter_place, filter_place, h]

theorem put_other (h : AgreeOn K t u) {row : α} (other : K (key row) = false) :
    AgreeOn K (t.put row) u := by
  unfold AgreeOn Table.put at *
  rw [filter_place, h]
  simp [other]

end AgreeOn

end Keyed

end Table

end OrderManagement
