import Mathlib.Data.List.Perm.Basic
import Mathlib.Order.Lattice
import Mathlib.Tactic.Common

/-! The first elements of a list in the order of a key. Elements of one key come in any order,
so a list has many arrangements; an element is among the first `n` of all of them exactly if
no more than `n` have a key as small as its own. -/

namespace OrderManagement

namespace OrderedPrefix

variable {α R : Type} [LinearOrder R] {key : α → R} {xs ys : List α} {a : α} {n : ℕ}

/-- `ys` are the elements of `xs` by increasing key, those of one key in any order. -/
structure Arrangement (key : α → R) (xs ys : List α) : Prop where
  perm : ys.Perm xs
  rising : ys.Pairwise fun x y => key x ≤ key y

theorem Arrangement.take_le_drop (h : Arrangement key xs ys) {b : α} (first : a ∈ ys.take n)
    (later : b ∈ ys.drop n) : key a ≤ key b := by
  have rising := h.rising
  rw [← List.take_append_drop n ys, List.pairwise_append] at rising
  exact rising.2.2 a first b later

theorem length_take_of_mem_drop (later : a ∈ ys.drop n) :
    (ys.take n).length = n := by
  have some_ := List.length_pos_of_mem later
  rw [List.length_drop] at some_
  rw [List.length_take]
  omega

/-- With so few elements of a key as small, one is always among the first. -/
theorem Arrangement.mem_take (h : Arrangement key xs ys) (mem : a ∈ xs)
    (few : (xs.countP fun x => key x ≤ key a) ≤ n) : a ∈ ys.take n := by
  by_contra missing
  have later : a ∈ ys.drop n := by
    have all := h.perm.mem_iff.2 mem
    rw [← List.take_append_drop n ys, List.mem_append] at all
    exact all.resolve_left missing
  have first : (ys.take n).countP (fun x => decide (key x ≤ key a)) = n := by
    rw [List.countP_eq_length.2 fun x hx => decide_eq_true (h.take_le_drop hx later),
      length_take_of_mem_drop later]
  have rest : 0 < (ys.drop n).countP fun x => decide (key x ≤ key a) :=
    List.countP_pos_iff.2 ⟨a, later, by simp⟩
  rw [← h.perm.countP_eq, ← List.take_append_drop n ys, List.countP_append, first] at few
  omega

/-- If fewer than `n` others have a key as small as that of some `p`, one of these is among
the first. -/
theorem Arrangement.exists_take {p : α → Prop} [DecidablePred p] (h : Arrangement key xs ys)
    (mem : a ∈ xs) (pa : p a) (few : (xs.countP fun x => ¬ p x ∧ key x ≤ key a) < n) :
    ∃ b ∈ ys.take n, p b := by
  by_contra none_
  push Not at none_
  have later : a ∈ ys.drop n := by
    have all := h.perm.mem_iff.2 mem
    rw [← List.take_append_drop n ys, List.mem_append] at all
    exact all.resolve_left fun first => none_ a first pa
  have first : (ys.take n).countP (fun x => decide (¬ p x ∧ key x ≤ key a)) = n := by
    rw [List.countP_eq_length.2 fun x hx => decide_eq_true ⟨none_ x hx, h.take_le_drop hx later⟩,
      length_take_of_mem_drop later]
  rw [← h.perm.countP_eq, ← List.take_append_drop n ys, List.countP_append, first] at few
  omega

theorem Arrangement.countP_take (h : Arrangement key xs ys) (k : R) :
    ((ys.take n).countP fun x => key x ≤ k) = min n (xs.countP fun x => key x ≤ k) := by
  have split : xs.countP (fun x => decide (key x ≤ k)) =
      (ys.take n).countP (fun x => decide (key x ≤ k)) +
        (ys.drop n).countP fun x => decide (key x ≤ k) := by
    rw [← List.countP_append, List.take_append_drop, h.perm.countP_eq]
  have few : (ys.take n).countP (fun x => decide (key x ≤ k)) ≤ n :=
    List.countP_le_length.trans (List.length_take_le n ys)
  by_cases some_ : ∃ b ∈ ys.drop n, key b ≤ k
  · obtain ⟨b, later, small⟩ := some_
    have first : (ys.take n).countP (fun x => decide (key x ≤ k)) = n := by
      rw [List.countP_eq_length.2 fun x mem =>
        decide_eq_true ((h.take_le_drop mem later).trans small),
        length_take_of_mem_drop later]
    omega
  · have rest : (ys.drop n).countP (fun x => decide (key x ≤ k)) = 0 := by
      rw [List.countP_eq_zero]
      exact fun x later small => some_ ⟨x, later, of_decide_eq_true small⟩
    omega

theorem countP_others [DecidableEq α] {p : α → Prop} [DecidablePred p] (nodup : xs.Nodup) (a : α) :
    xs.countP (fun x => p x) ≤ xs.countP (fun x => ¬ x = a ∧ p x) + 1 := by
  induction xs with
  | nil => simp
  | cons x xs ih =>
    have rest := ih nodup.of_cons
    by_cases same : x = a
    · subst same
      have absent : xs.countP (fun y => ¬ y = x ∧ p y) = xs.countP fun y => p y :=
        List.countP_congr fun y mem => by
          have other : y ≠ x := fun eq => (List.nodup_cons.1 nodup).1 (eq ▸ mem)
          simp [other]
      simp only [List.countP_cons, absent]
      split_ifs <;> simp_all
    · simp only [List.countP_cons, same, not_false_eq_true, true_and]
      omega

/-! Pages of an arrangement. The position of an element is the number of those of a smaller key. -/

theorem Arrangement.position_lt (h : Arrangement key xs ys) (first : a ∈ ys.take n) :
    (xs.countP fun x => key x < key a) < n := by
  have rest : (ys.drop n).countP (fun x => decide (key x < key a)) = 0 := by
    rw [List.countP_eq_zero]
    exact fun x later less => not_le.2 (of_decide_eq_true less) (h.take_le_drop first later)
  -- the element itself is not one of those before it
  have other : (ys.take n).countP (fun x => decide (key x < key a)) < (ys.take n).length := by
    refine lt_of_le_of_ne List.countP_le_length fun all => ?_
    exact lt_irrefl _ (of_decide_eq_true (List.countP_eq_length.1 all a first))
  rw [← h.perm.countP_eq, ← List.take_append_drop n ys, List.countP_append, rest, Nat.add_zero]
  exact other.trans_le (List.length_take_le n ys)

theorem Arrangement.le_position (h : Arrangement key xs ys) (nodup : xs.Nodup)
    (distinct : ∀ x ∈ xs, key x = key a → x = a) (later : a ∈ ys.drop n) :
    n ≤ xs.countP fun x => key x < key a := by
  have apart := h.perm.nodup_iff.2 nodup
  rw [← List.take_append_drop n ys, List.nodup_append] at apart
  have first : (ys.take n).countP (fun x => decide (key x < key a)) = n := by
    rw [List.countP_eq_length.2 fun x mem => decide_eq_true ?_, length_take_of_mem_drop later]
    refine lt_of_le_of_ne (h.take_le_drop mem later) fun same => ?_
    have only := distinct x (h.perm.mem_iff.1 (List.mem_of_mem_take mem)) same
    exact apart.2.2 x mem a later only
  rw [← h.perm.countP_eq, ← List.take_append_drop n ys, List.countP_append, first]
  exact Nat.le_add_right _ _

theorem Arrangement.mem_page_iff (h : Arrangement key xs ys) (nodup : xs.Nodup)
    (distinct : ∀ x ∈ xs, key x = key a → x = a) (mem : a ∈ xs) {offset limit : ℕ} :
    a ∈ (ys.drop offset).take limit ↔ offset ≤ (xs.countP fun x => key x < key a) ∧
      (xs.countP fun x => key x < key a) < offset + limit := by
  have split : ys.take (offset + limit) = ys.take offset ++ (ys.drop offset).take limit :=
    List.take_add
  constructor
  · intro page
    have early : a ∈ ys.take (offset + limit) := split ▸ List.mem_append_right _ page
    exact ⟨h.le_position nodup distinct (List.mem_of_mem_take page), h.position_lt early⟩
  · rintro ⟨low, high⟩
    have all := h.perm.mem_iff.2 mem
    rw [← List.take_append_drop (offset + limit) ys, List.mem_append] at all
    have early : a ∈ ys.take (offset + limit) :=
      all.resolve_right fun later => not_le.2 high (h.le_position nodup distinct later)
    rw [split, List.mem_append] at early
    exact early.resolve_left fun before => not_le.2 (h.position_lt before) low

/-- A position that only rises is met by pages of `n` that are read one after the other. -/
theorem exists_page {position : ℕ → ℕ} {m : ℕ} (rises : ∀ i < m, position i ≤ position (i + 1))
    (last : position m < m * n + n) : ∃ i ≤ m, i * n ≤ position i ∧ position i < i * n + n := by
  induction m with
  | zero => exact ⟨0, le_refl 0, by simp, last⟩
  | succ m ih =>
    by_cases reached : (m + 1) * n ≤ position (m + 1)
    · exact ⟨m + 1, le_refl _, reached, last⟩
    · have before : position m < m * n + n := by
        have step := rises m (Nat.lt_succ_self m)
        rw [Nat.succ_mul] at reached
        omega
      obtain ⟨i, le, found⟩ := ih (fun i less => rises i (less.trans (Nat.lt_succ_self m))) before
      exact ⟨i, le.trans (Nat.le_succ m), found⟩

/-- Elements that come after all others of their key. -/
def lastOfKey (key : α → R) (p : α → Prop) [DecidablePred p] (x y : α) : Bool :=
  decide (key x < key y ∨ key x = key y ∧ (p x → p y))

theorem exists_lastOfKey (key : α → R) (p : α → Prop) [DecidablePred p] (xs : List α) :
    ∃ ys, Arrangement key xs ys ∧ ys.Pairwise fun x y => lastOfKey key p x y = true := by
  refine ⟨xs.mergeSort (lastOfKey key p), ?_⟩
  have sorted : (xs.mergeSort (lastOfKey key p)).Pairwise fun x y =>
    lastOfKey key p x y = true := by
    refine List.pairwise_mergeSort (fun x y z first second => ?_) (fun x y => ?_) xs
    · simp only [lastOfKey, decide_eq_true_eq] at first second ⊢
      rcases first with less | ⟨same, imp⟩ <;> rcases second with less' | ⟨same', imp'⟩
      · exact Or.inl (less.trans less')
      · exact Or.inl (same' ▸ less)
      · exact Or.inl (same ▸ less')
      · exact Or.inr ⟨same.trans same', fun px => imp' (imp px)⟩
    · simp only [lastOfKey, Bool.or_eq_true, decide_eq_true_eq]
      rcases lt_trichotomy (key x) (key y) with less | same | less
      · exact Or.inl (Or.inl less)
      · by_cases py : p y
        · exact Or.inl (Or.inr ⟨same, fun _ => py⟩)
        · exact Or.inr (Or.inr ⟨same.symm, fun again => absurd again py⟩)
      · exact Or.inr (Or.inl less)
  refine ⟨⟨List.mergeSort_perm _ _, sorted.imp fun h => ?_⟩, sorted⟩
  rcases of_decide_eq_true h with less | ⟨same, -⟩
  · exact less.le
  · exact same.le

/-- If for every `p` at least `n` others have a key as small, some arrangement has none of
them among the first. -/
theorem exists_arrangement_avoiding {p : α → Prop} [DecidablePred p]
    (many : ∀ a ∈ xs, p a → n ≤ xs.countP fun x => ¬ p x ∧ key x ≤ key a) :
    ∃ ys, Arrangement key xs ys ∧ ∀ b ∈ ys.take n, ¬ p b := by
  obtain ⟨ys, arranged, sorted⟩ := exists_lastOfKey key p xs
  refine ⟨ys, arranged, fun b first pb => ?_⟩
  obtain ⟨i, bound, eq⟩ := List.mem_iff_getElem.1 first
  rw [List.length_take] at bound
  have inside : i < ys.length := by omega
  rw [List.getElem_take] at eq
  have enough := many b (arranged.perm.mem_iff.1 (eq ▸ List.getElem_mem inside)) pb
  have apart := List.drop_eq_getElem_cons inside
  rw [eq] at apart
  -- those that count come before it, so there are at most `i` of them
  have after : (ys.drop i).countP (fun x => decide (¬ p x ∧ key x ≤ key b)) = 0 := by
    rw [List.countP_eq_zero]
    intro x later counted
    obtain ⟨other, small⟩ := of_decide_eq_true counted
    rw [apart] at later
    rcases List.mem_cons.1 later with rfl | later
    · exact other pb
    · have rest := sorted.drop (i := i)
      rw [apart, List.pairwise_cons] at rest
      rcases of_decide_eq_true (rest.1 x later) with less | ⟨-, imp⟩
      · exact absurd small (not_le.2 less)
      · exact other (imp pb)
  have before : (ys.take i).countP (fun x => decide (¬ p x ∧ key x ≤ key b)) ≤ i :=
    Nat.le_trans List.countP_le_length (List.length_take_le i ys)
  rw [← arranged.perm.countP_eq, ← List.take_append_drop i ys, List.countP_append, after] at enough
  omega

end OrderedPrefix

end OrderManagement
