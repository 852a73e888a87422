import OrderManagement.OrderDomain
import Mathlib.Algebra.Order.Group.Abs
import Mathlib.Tactic.FieldSimp
import Mathlib.Tactic.Linarith
import Mathlib.Tactic.Positivity
import Mathlib.Tactic.Ring

/-! The position arithmetic of one fill. Whatever branch a fill takes (opening,
increasing, reducing, closing or crossing a position), the cost basis
`net * average - realized` moves by the signed quantity times the fill price. -/

namespace OrderManagement

structure PositionCalculation where
  netQuantity : ℚ
  averageEntryPrice : ℚ
  realizedPnl : ℚ
  deriving DecidableEq, Repr

def signedFill (side : OrderSide) (fillQuantity : ℚ) : ℚ :=
  if side = .buy then fillQuantity else -fillQuantity

def calculatePositionAfterFill (currentQuantity currentAveragePrice currentRealizedPnl : ℚ)
    (side : OrderSide) (fillQuantity fillPrice : ℚ) : Except Failure PositionCalculation :=
  let signed := signedFill side fillQuantity
  let newQuantity := currentQuantity + signed
  if currentQuantity = 0 ∨ currentQuantity * signed > 0 then do
    let totalCost := |currentQuantity| * currentAveragePrice + |signed| * fillPrice
    let average ← decimalDiv totalCost |newQuantity|
    .ok ⟨newQuantity, average, currentRealizedPnl⟩
  else
    let closingQuantity := min |currentQuantity| |signed|
    let pnlDelta :=
      if currentQuantity > 0 then (fillPrice - currentAveragePrice) * closingQuantity
      else (currentAveragePrice - fillPrice) * closingQuantity
    let averagePrice :=
      if newQuantity = 0 then 0
      else if currentQuantity * newQuantity > 0 then currentAveragePrice
      else fillPrice
    .ok ⟨newQuantity, averagePrice, currentRealizedPnl + pnlDelta⟩

def calculateUnrealizedPnl (netQuantity averageEntryPrice : ℚ) (markPrice : Option ℚ) : ℚ :=
  match markPrice with
  | none => 0
  | some mark => if netQuantity = 0 then 0 else (mark - averageEntryPrice) * netQuantity

theorem calculateUnrealizedPnl_some (net average mark : ℚ) :
    calculateUnrealizedPnl net average (some mark) = (mark - average) * net := by
  unfold calculateUnrealizedPnl
  split_ifs with h <;> simp [h]

theorem signedFill_ne_zero {side : OrderSide} {q : ℚ} (h : 0 < q) : signedFill side q ≠ 0 := by
  unfold signedFill
  split_ifs
  · exact h.ne'
  · exact neg_ne_zero.2 h.ne'

theorem decimalDiv_of_ne_zero {x y : ℚ} (h : y ≠ 0) : decimalDiv x y = .ok (x / y) := by
  simp [decimalDiv, h]

theorem decimalDiv_ok {x y z : ℚ} (h : decimalDiv x y = .ok z) : y ≠ 0 ∧ z = x / y := by
  unfold decimalDiv at h
  split_ifs at h with hy
  exact ⟨hy, (Except.ok.inj h).symm⟩

/-- A fill on the side of the position (or on a flat one): the two branches of
`calculatePositionAfterFill` as inequalities between plain numbers. -/
theorem same_side_cases {current signed : ℚ} (h : current = 0 ∨ current * signed > 0) :
    (0 ≤ current ∧ 0 ≤ signed) ∨ (current ≤ 0 ∧ signed ≤ 0) := by
  rcases h with rfl | h
  · rcases le_total 0 signed with hs | hs
    · exact Or.inl ⟨le_refl 0, hs⟩
    · exact Or.inr ⟨le_refl 0, hs⟩
  · rcases pos_and_pos_or_neg_and_neg_of_mul_pos h with ⟨hc, hs⟩ | ⟨hc, hs⟩
    · exact Or.inl ⟨hc.le, hs.le⟩
    · exact Or.inr ⟨hc.le, hs.le⟩

theorem other_side_cases {current signed : ℚ} (h : ¬(current = 0 ∨ current * signed > 0)) :
    (0 < current ∧ signed ≤ 0) ∨ (current < 0 ∧ 0 ≤ signed) := by
  push Not at h
  rcases lt_or_gt_of_ne h.1 with hc | hc
  · exact Or.inr ⟨hc, nonneg_of_mul_nonpos_right h.2 hc⟩
  · refine Or.inl ⟨hc, ?_⟩
    by_contra hs
    exact absurd (mul_pos hc (not_le.1 hs)) (not_lt.2 h.2)

section Fill

variable {net average realized : ℚ} {side : OrderSide} {q price : ℚ} {c : PositionCalculation}

theorem calculatePositionAfterFill_cases
    (h : calculatePositionAfterFill net average realized side q price = .ok c) :
    let signed := signedFill side q
    ((net = 0 ∨ net * signed > 0) ∧ net + signed ≠ 0 ∧
      c = ⟨net + signed, (|net| * average + |signed| * price) / |net + signed|, realized⟩) ∨
    (¬(net = 0 ∨ net * signed > 0) ∧
      c = ⟨net + signed,
        if net + signed = 0 then 0 else if net * (net + signed) > 0 then average else price,
        realized + (if net > 0 then (price - average) * min |net| |signed|
          else (average - price) * min |net| |signed|)⟩) := by
  intro signed
  unfold calculatePositionAfterFill at h
  by_cases same : net = 0 ∨ net * signedFill side q > 0
  · simp only [same, if_true] at h
    left
    cases hd : decimalDiv (|net| * average + |signed| * price) |net + signed| with
    | error e => simp [signed, hd, bind, Except.bind] at h
    | ok v =>
      obtain ⟨nonzero, rfl⟩ := decimalDiv_ok hd
      rw [show decimalDiv _ _ = _ from hd] at h
      exact ⟨same, abs_ne_zero.1 nonzero, (Except.ok.inj h).symm⟩
  · simp only [same, if_false] at h
    exact Or.inr ⟨same, (Except.ok.inj h).symm⟩

theorem calculatePositionAfterFill_net
    (h : calculatePositionAfterFill net average realized side q price = .ok c) :
    c.netQuantity = net + signedFill side q := by
  rcases calculatePositionAfterFill_cases h with ⟨-, -, rfl⟩ | ⟨-, rfl⟩ <;> rfl

theorem calculatePositionAfterFill_total (net average realized : ℚ) (side : OrderSide) (price : ℚ)
    (hq : 0 < q) :
    ∃ c, calculatePositionAfterFill net average realized side q price = .ok c := by
  unfold calculatePositionAfterFill
  by_cases same : net = 0 ∨ net * signedFill side q > 0
  · simp only [same, if_true]
    have signed_ne : signedFill side q ≠ 0 := signedFill_ne_zero hq
    have nonzero : |net + signedFill side q| ≠ 0 := by
      rw [abs_ne_zero]
      rcases same_side_cases same with ⟨hn, hs⟩ | ⟨hn, hs⟩
      · exact (add_pos_of_nonneg_of_pos hn (lt_of_le_of_ne hs signed_ne.symm)).ne'
      · exact (add_neg_of_nonpos_of_neg hn (lt_of_le_of_ne hs signed_ne)).ne
    rw [decimalDiv_of_ne_zero nonzero]
    exact ⟨_, rfl⟩
  · simp only [same, if_false]
    exact ⟨_, rfl⟩

theorem calculatePositionAfterFill_average_nonneg (havg : 0 ≤ average) (hp : 0 ≤ price)
    (h : calculatePositionAfterFill net average realized side q price = .ok c) :
    0 ≤ c.averageEntryPrice := by
  rcases calculatePositionAfterFill_cases h with ⟨-, -, rfl⟩ | ⟨-, rfl⟩
  · positivity
  · dsimp only
    split_ifs
    · exact le_refl 0
    · exact havg
    · exact hp

/-- Cost basis: what the position cost, net of what it has realized. -/
def PositionCalculation.costBasis (c : PositionCalculation) : ℚ :=
  c.netQuantity * c.averageEntryPrice - c.realizedPnl

theorem calculatePositionAfterFill_costBasis
    (h : calculatePositionAfterFill net average realized side q price = .ok c) :
    c.costBasis = net * average - realized + signedFill side q * price := by
  unfold PositionCalculation.costBasis
  rcases calculatePositionAfterFill_cases h with ⟨same, nonzero, rfl⟩ | ⟨other, rfl⟩
  · rcases same_side_cases same with ⟨hn, hs⟩ | ⟨hn, hs⟩
    · dsimp only
      rw [abs_of_nonneg hn, abs_of_nonneg hs, abs_of_nonneg (add_nonneg hn hs),
        mul_div_cancel₀ _ nonzero]
      ring
    · have hsum : net + signedFill side q ≤ 0 := add_nonpos hn hs
      dsimp only
      rw [abs_of_nonpos hn, abs_of_nonpos hs, abs_of_nonpos hsum]
      field_simp
      ring
  · generalize signedFill side q = signed at other
    -- reducing, closing and crossing, from a long and from a short position
    rcases other_side_cases other with ⟨hn, hs⟩ | ⟨hn, hs⟩
    · simp only [hn, if_true, abs_of_pos hn, abs_of_nonpos hs, gt_iff_lt, mul_pos_iff_of_pos_left]
      split_ifs with flat reduced
      · rw [min_eq_left (by linarith), show signed = -net by linarith]
        ring
      · rw [min_eq_right (by linarith)]
        ring
      · rw [min_eq_left (by linarith)]
        ring
    · have notLong : ¬ 0 < net := not_lt.2 hn.le
      have sameSign : 0 < net * (net + signed) ↔ net + signed < 0 := by
        constructor
        · intro hpos
          by_contra hge
          exact absurd (mul_nonpos_of_nonpos_of_nonneg hn.le (not_lt.1 hge)) (not_le.2 hpos)
        · exact fun hlt => mul_pos_of_neg_of_neg hn hlt
      simp only [notLong, if_false, abs_of_neg hn, abs_of_nonneg hs, gt_iff_lt, sameSign]
      split_ifs with flat reduced
      · rw [min_eq_left (by linarith), show signed = -net by linarith]
        ring
      · rw [min_eq_right (by linarith)]
        ring
      · rw [min_eq_left (by linarith)]
        ring

end Fill

/-! A fill seen from its own side: `n` is the position in the direction of the fill, and
negative if the fill reduces it. -/

section Oriented

variable {net average realized : ℚ} {side : OrderSide} {q q' price : ℚ} {c c' : PositionCalculation}

def closedQuantity (n q : ℚ) : ℚ := min (max (-n) 0) q

def averageAfter (n average q price : ℚ) : ℚ :=
  if 0 ≤ n then (n * average + q * price) / (n + q)
  else if n + q < 0 then average else if n + q = 0 then 0 else price

theorem signedFill_eq (side : OrderSide) (q : ℚ) : signedFill side q = signedFill side 1 * q := by
  unfold signedFill
  split_ifs <;> ring

theorem signedFill_one (side : OrderSide) : signedFill side 1 = 1 ∨ signedFill side 1 = -1 := by
  unfold signedFill
  split_ifs
  · exact Or.inl rfl
  · exact Or.inr rfl

theorem closedQuantity_of_nonneg {n : ℚ} (h : 0 ≤ n) (positive : 0 < q) :
    closedQuantity n q = 0 := by
  rw [closedQuantity, max_eq_right (by linarith), min_eq_left positive.le]

theorem closedQuantity_of_neg {n : ℚ} (h : n < 0) : closedQuantity n q = min (-n) q := by
  rw [closedQuantity, max_eq_left (by linarith)]

theorem averageAfter_of_nonneg {n : ℚ} (h : 0 ≤ n) :
    averageAfter n average q price = (n * average + q * price) / (n + q) := if_pos h

theorem averageAfter_of_neg {n : ℚ} (h : n < 0) : averageAfter n average q price =
    if n + q < 0 then average else if n + q = 0 then 0 else price := if_neg (not_le.2 h)

/-- Every test and every amount of the calculation depends on `n` and `q` alone. -/
theorem calculatePositionAfterFill_oriented (positive : 0 < q) :
    calculatePositionAfterFill net average realized side q price =
      .ok ⟨net + signedFill side q, averageAfter (signedFill side 1 * net) average q price,
        realized + signedFill side 1 * (average - price) *
          closedQuantity (signedFill side 1 * net) q⟩ := by
  obtain ⟨c, hc⟩ := calculatePositionAfterFill_total net average realized side price positive
  have hcases := calculatePositionAfterFill_cases hc
  rw [hc]
  refine congrArg Except.ok ?_
  rw [signedFill_eq side q] at hcases ⊢
  have sign := signedFill_one side
  generalize signedFill side 1 = σ at hcases sign ⊢
  have square : σ * σ = 1 := by rcases sign with rfl | rfl <;> norm_num
  have abs_sign : ∀ x, |σ * x| = |x| := fun x => by
    rcases sign with rfl | rfl <;> simp
  obtain ⟨n, rfl⟩ : ∃ n, net = σ * n := ⟨σ * net, by rw [← mul_assoc, square, one_mul]⟩
  have product : ∀ x y, σ * x * (σ * y) = x * y := fun x y => by
    rw [mul_mul_mul_comm, square, one_mul]
  rw [← mul_assoc, square, one_mul]
  simp only [← mul_add, product, abs_sign, abs_of_pos positive] at hcases ⊢
  have nonzero : ∀ {x : ℚ}, σ * x = 0 ↔ x = 0 := by
    rcases sign with rfl | rfl <;> simp
  rcases lt_or_ge n 0 with short | long
  · have opposite : n * q ≤ 0 := (mul_neg_of_neg_of_pos short positive).le
    obtain ⟨-, rfl⟩ := hcases.resolve_left fun same =>
      same.1.elim (fun flat => short.ne (nonzero.1 flat)) fun pos => absurd pos (not_lt.2 opposite)
    have reduced : n * (n + q) > 0 ↔ n + q < 0 :=
      ⟨fun pos => by_contra fun ge =>
        absurd (mul_nonpos_of_nonpos_of_nonneg short.le (not_lt.1 ge)) (not_le.2 pos),
        mul_pos_of_neg_of_neg short⟩
    simp only [averageAfter_of_neg short, closedQuantity_of_neg short, nonzero, reduced,
      abs_of_neg short]
    congr 1
    · rcases lt_trichotomy (n + q) 0 with lt | eq | gt
      · simp [lt, lt.ne]
      · simp [eq]
      · simp [gt.ne', not_lt.2 gt.le]
    · rcases sign with rfl | rfl
      · simp [not_lt.2 short.le]
      · simp [short]
  · have same : σ * n = 0 ∨ n * q > 0 :=
      (eq_or_lt_of_le long).imp (fun flat => nonzero.2 flat.symm) fun pos => mul_pos pos positive
    have sum : 0 < n + q := by linarith
    obtain ⟨-, -, rfl⟩ := hcases.resolve_right fun other => other.1 same
    simp only [averageAfter_of_nonneg long, closedQuantity_of_nonneg long positive, mul_zero,
      add_zero,
      abs_of_nonneg long, abs_of_pos sum]

/-- Closing in two steps, the second at the average that the first leaves. -/
theorem closedQuantity_add {n : ℚ} (hq : 0 < q) (hq' : 0 < q') :
    (average - price) * closedQuantity n q +
        (averageAfter n average q price - price) * closedQuantity (n + q) q' =
      (average - price) * closedQuantity n (q + q') := by
  have sum : 0 < q + q' := add_pos hq hq'
  rcases lt_or_ge (n + q) 0 with short | long
  · have before : n < 0 := by linarith
    rw [averageAfter_of_neg before, if_pos short, closedQuantity_of_neg before,
      closedQuantity_of_neg short, closedQuantity_of_neg before, ← mul_add,
      min_eq_right (show q ≤ -n by linarith)]
    refine congrArg _ ?_
    rw [show -(n + q) = -n - q by ring, ← min_add_add_left, add_sub_cancel]
  · rw [closedQuantity_of_nonneg long hq', mul_zero, add_zero]
    rcases lt_or_ge n 0 with before | before
    · rw [closedQuantity_of_neg before, closedQuantity_of_neg before, min_eq_left (by linarith),
        min_eq_left (by linarith)]
    · rw [closedQuantity_of_nonneg before hq, closedQuantity_of_nonneg before sum]

theorem averageAfter_add {n : ℚ} (hq : 0 < q) (hq' : 0 < q') :
    averageAfter (n + q) (averageAfter n average q price) q' price =
      averageAfter n average (q + q') price := by
  rcases lt_or_ge n 0 with before | before
  · rw [averageAfter_of_neg before, averageAfter_of_neg before, ← add_assoc]
    rcases lt_trichotomy (n + q) 0 with short | flat | crossed
    · rw [averageAfter_of_neg short, if_pos short]
    · rw [flat, averageAfter_of_nonneg (le_refl 0)]
      simp only [lt_irrefl, if_false, if_true, zero_mul, zero_add, not_lt.2 hq'.le, hq'.ne',
        mul_div_cancel_left₀ price hq'.ne']
    · have later : 0 < n + q + q' := by linarith
      rw [averageAfter_of_nonneg crossed.le]
      simp only [not_lt.2 crossed.le, crossed.ne', if_false, not_lt.2 later.le, later.ne']
      rw [← add_mul, mul_div_cancel_left₀ price later.ne']
  · have first : n + q ≠ 0 := by linarith
    have second : n + q + q' ≠ 0 := by linarith
    rw [averageAfter_of_nonneg (by linarith), averageAfter_of_nonneg before,
      averageAfter_of_nonneg before, ← add_assoc]
    field_simp
    ring

/-- Two fills at one price leave a position as one fill of their sum does. -/
theorem calculatePositionAfterFill_add (hq : 0 < q) (hq' : 0 < q')
    (h : calculatePositionAfterFill net average realized side q price = .ok c) :
    calculatePositionAfterFill c.netQuantity c.averageEntryPrice c.realizedPnl side q' price =
      calculatePositionAfterFill net average realized side (q + q') price := by
  rw [calculatePositionAfterFill_oriented hq] at h
  obtain rfl := Except.ok.inj h
  rw [calculatePositionAfterFill_oriented hq', calculatePositionAfterFill_oriented (add_pos hq hq')]
  have moved : signedFill side 1 * (net + signedFill side q) = signedFill side 1 * net + q := by
    rcases signedFill_one side with one | one <;> rw [signedFill_eq side q, one] <;> ring
  simp only [moved, averageAfter_add hq hq', Except.ok.injEq, PositionCalculation.mk.injEq,
    true_and]
  refine ⟨?_, ?_⟩
  · rw [signedFill_eq side q, signedFill_eq side q', signedFill_eq side (q + q')]
    ring
  · rw [add_assoc, mul_assoc, mul_assoc, mul_assoc, ← mul_add, closedQuantity_add hq hq']

end Oriented

end OrderManagement
