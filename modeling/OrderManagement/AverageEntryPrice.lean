import Mathlib.Data.List.Infix
import OrderManagement.PositionRules

/-! The average entry price over a list of fills. Between two fills that open a
position the average stays among the prices paid in the direction of the position. -/

namespace OrderManagement

structure Execution where
  side : OrderSide
  quantity : ℚ
  price : ℚ
  quantity_pos : 0 < quantity
  price_pos : 0 < price

def Execution.signed (f : Execution) : ℚ := signedFill f.side f.quantity

theorem Execution.signed_ne_zero (f : Execution) : f.signed ≠ 0 := signedFill_ne_zero f.quantity_pos

def PositionCalculation.flat : PositionCalculation := ⟨0, 0, 0⟩

def PositionCalculation.executed (c : PositionCalculation) (f : Execution) :
    Except Failure PositionCalculation :=
  calculatePositionAfterFill c.netQuantity c.averageEntryPrice c.realizedPnl f.side
    f.quantity f.price

def executedAll (fills : List Execution) : Except Failure PositionCalculation :=
  fills.foldlM PositionCalculation.executed .flat

theorem executedAll_append {fills : List Execution} {c : PositionCalculation}
    (h : executedAll fills = .ok c) (f : Execution) :
    executedAll (fills ++ [f]) = c.executed f := by
  unfold executedAll at h ⊢
  rw [List.foldlM_append, h]
  exact bind_pure (c.executed f)

def netOf (fills : List Execution) : ℚ := (fills.map Execution.signed).sum

theorem netOf_append (fills : List Execution) (f : Execution) :
    netOf (fills ++ [f]) = netOf fills + f.signed := by
  simp [netOf]

/-- The fills from `opening` on belong to the open trade: it opened the position, from flat
or by crossing zero, which has kept its sign since. -/
structure OpenTrade (fills earlier : List Execution) (opening : Execution)
    (later : List Execution) : Prop where
  split : fills = earlier ++ opening :: later
  opens : netOf earlier * netOf (earlier ++ [opening]) ≤ 0
  holds : ∀ l, l <+: later → 0 < netOf (earlier ++ opening :: l) * netOf fills

/-- `average` lies between the prices of two fills of `trade` in the direction of `net`. -/
def Amid (average net : ℚ) (trade : List Execution) : Prop :=
  (∃ f ∈ trade, 0 < net * f.signed ∧ f.price ≤ average) ∧
    ∃ f ∈ trade, 0 < net * f.signed ∧ average ≤ f.price

structure Entered (fills : List Execution) (c : PositionCalculation) : Prop where
  net : c.netQuantity = netOf fills
  flat : c.netQuantity = 0 → c.averageEntryPrice = 0
  traded : c.netQuantity ≠ 0 → 0 < c.averageEntryPrice ∧ ∃ earlier opening later,
    OpenTrade fills earlier opening later ∧
      Amid c.averageEntryPrice c.netQuantity (opening :: later)

section Steps

variable {fills earlier later : List Execution} {opening f : Execution} {average net net' : ℚ}

theorem openTrade_opening (opens : netOf fills * netOf (fills ++ [f]) ≤ 0)
    (nonzero : netOf (fills ++ [f]) ≠ 0) : OpenTrade (fills ++ [f]) fills f [] where
  split := rfl
  opens := opens
  holds l hl := by
    rw [List.prefix_nil.1 hl]
    exact mul_self_pos.2 nonzero

theorem same_sign_trans {x y z : ℚ} (hxy : 0 < x * y) (hyz : 0 < y * z) : 0 < x * z := by
  rcases pos_and_pos_or_neg_and_neg_of_mul_pos hxy with ⟨hx, hy⟩ | ⟨hx, hy⟩
  · exact mul_pos hx ((mul_pos_iff_of_pos_left hy).1 hyz)
  · exact mul_pos_of_neg_of_neg hx (neg_of_mul_pos_right hyz hy.le)

theorem OpenTrade.extend (h : OpenTrade fills earlier opening later)
    (keeps : 0 < netOf fills * netOf (fills ++ [f])) :
    OpenTrade (fills ++ [f]) earlier opening (later ++ [f]) where
  split := by rw [h.split, List.append_assoc, List.cons_append]
  opens := h.opens
  holds l hl := by
    rcases List.prefix_concat_iff.1 hl with rfl | within
    · have whole : earlier ++ opening :: (later ++ [f]) = fills ++ [f] := by
        rw [h.split, List.append_assoc, List.cons_append]
      rw [whole]
      exact mul_self_pos.2 (right_ne_zero_of_mul keeps.ne')
    · exact same_sign_trans (h.holds l within) keeps

theorem amid_opening (direction : 0 < net * f.signed) : Amid f.price net [f] :=
  ⟨⟨f, by simp, direction, le_refl _⟩, ⟨f, by simp, direction, le_refl _⟩⟩

theorem Amid.extend {trade : List Execution} (h : Amid average net trade) (same : 0 < net * net')
    (f : Execution) : Amid average net' (trade ++ [f]) := by
  have turn : ∀ {g : Execution}, 0 < net * g.signed → 0 < net' * g.signed := fun h =>
    same_sign_trans (mul_comm net net' ▸ same) h
  obtain ⟨⟨lo, loMem, loDir, below⟩, ⟨hi, hiMem, hiDir, above⟩⟩ := h
  exact ⟨⟨lo, List.mem_append_left _ loMem, turn loDir, below⟩,
    ⟨hi, List.mem_append_left _ hiMem, turn hiDir, above⟩⟩

theorem weighted_le {a b x y z : ℚ} (ha : 0 ≤ a) (hb : 0 ≤ b) (pos : 0 < a + b) (hx : x ≤ z)
    (hy : y ≤ z) : (a * x + b * y) / (a + b) ≤ z := by
  rw [div_le_iff₀ pos]
  linarith [mul_le_mul_of_nonneg_left hx ha, mul_le_mul_of_nonneg_left hy hb]

theorem le_weighted {a b x y z : ℚ} (ha : 0 ≤ a) (hb : 0 ≤ b) (pos : 0 < a + b) (hx : z ≤ x)
    (hy : z ≤ y) : z ≤ (a * x + b * y) / (a + b) := by
  rw [le_div_iff₀ pos]
  linarith [mul_le_mul_of_nonneg_left hx ha, mul_le_mul_of_nonneg_left hy hb]

/-- Averaging in a fill of the trade's direction: the new price is a bound, or an old one is. -/
theorem amid_average {trade : List Execution} (h : Amid average net trade) (same : 0 < net * net')
    {a b : ℚ} (ha : 0 ≤ a) (hb : 0 ≤ b) (pos : 0 < a + b) (direction : 0 < net * f.signed) :
    Amid ((a * average + b * f.price) / (a + b)) net' (trade ++ [f]) := by
  have turn : ∀ {g : Execution}, 0 < net * g.signed → 0 < net' * g.signed := fun h =>
    same_sign_trans (mul_comm net net' ▸ same) h
  obtain ⟨⟨lo, loMem, loDir, below⟩, ⟨hi, hiMem, hiDir, above⟩⟩ := h
  constructor
  · rcases le_total lo.price f.price with order | order
    · exact ⟨lo, List.mem_append_left _ loMem, turn loDir, le_weighted ha hb pos below order⟩
    · exact ⟨f, by simp, turn direction, le_weighted ha hb pos (order.trans below) (le_refl _)⟩
  · rcases le_total f.price hi.price with order | order
    · exact ⟨hi, List.mem_append_left _ hiMem, turn hiDir, weighted_le ha hb pos above order⟩
    · exact ⟨f, by simp, turn direction, weighted_le ha hb pos (above.trans order) (le_refl _)⟩

theorem abs_add_of_same_side {x y : ℚ} (h : x = 0 ∨ x * y > 0) : |x + y| = |x| + |y| := by
  rcases same_side_cases h with ⟨hx, hy⟩ | ⟨hx, hy⟩
  · rw [abs_of_nonneg hx, abs_of_nonneg hy, abs_of_nonneg (add_nonneg hx hy)]
  · rw [abs_of_nonpos hx, abs_of_nonpos hy, abs_of_nonpos (add_nonpos hx hy)]
    ring

theorem executed_cases {c c' : PositionCalculation} (ok : c.executed f = .ok c') :
    ((c.netQuantity = 0 ∨ c.netQuantity * f.signed > 0) ∧ c'.netQuantity ≠ 0 ∧
      c'.averageEntryPrice = (|c.netQuantity| * c.averageEntryPrice + |f.signed| * f.price) /
        (|c.netQuantity| + |f.signed|)) ∨
    (¬(c.netQuantity = 0 ∨ c.netQuantity * f.signed > 0) ∧
      c'.averageEntryPrice = if c'.netQuantity = 0 then 0
        else if c.netQuantity * c'.netQuantity > 0 then c.averageEntryPrice else f.price) := by
  rcases calculatePositionAfterFill_cases ok with ⟨same, nonzero, rfl⟩ | ⟨other, rfl⟩
  · refine Or.inl ⟨same, nonzero, ?_⟩
    rw [Execution.signed, ← abs_add_of_same_side same]
  · exact Or.inr ⟨other, rfl⟩

theorem Entered.executed {c c' : PositionCalculation} (h : Entered fills c)
    (ok : c.executed f = .ok c') : Entered (fills ++ [f]) c' := by
  have net : c'.netQuantity = netOf (fills ++ [f]) := by
    rw [calculatePositionAfterFill_net ok, netOf_append, ← h.net]
    rfl
  -- a fill that finds no position, or leaves one on the other side, opens one at its price
  have opened : c'.averageEntryPrice = f.price → c'.netQuantity ≠ 0 →
    c.netQuantity * c'.netQuantity ≤ 0 →
      0 < c'.netQuantity * f.signed →
      Entered (fills ++ [f]) c' := fun price nonzero opens direction => by
    refine ⟨net, fun flat => absurd flat nonzero, fun _ => ?_⟩
    rw [price]
    refine ⟨f.price_pos, fills, f, [], openTrade_opening ?_ (net ▸ nonzero), amid_opening direction⟩
    rwa [← net, ← h.net]
  have sum : c'.netQuantity = c.netQuantity + f.signed := calculatePositionAfterFill_net ok
  rcases executed_cases ok with ⟨same, nonzero, average⟩ | ⟨other, average⟩
  · rcases same with flat | direction
    · refine opened ?_ nonzero (by rw [flat, zero_mul]) ?_
      · rw [average, flat, abs_zero, zero_mul, zero_add, zero_add,
          mul_div_cancel_left₀ _ (abs_ne_zero.2 f.signed_ne_zero)]
      · rw [sum, flat, zero_add]
        exact mul_self_pos.2 f.signed_ne_zero
    · have was : c.netQuantity ≠ 0 := left_ne_zero_of_mul direction.ne'
      obtain ⟨positive, earlier, opening, later, trade, amid⟩ := h.traded was
      have keeps : 0 < c.netQuantity * c'.netQuantity := by
        rw [sum, mul_add]
        exact add_pos (mul_self_pos.2 was) direction
      have weights : 0 < |c.netQuantity| + |f.signed| :=
        add_pos_of_pos_of_nonneg (abs_pos.2 was) (abs_nonneg _)
      refine ⟨net, fun flat => absurd flat nonzero, fun _ => ?_⟩
      rw [average]
      refine ⟨?_, earlier, opening, later ++ [f], trade.extend (by rwa [← net, ← h.net]), ?_⟩
      · have := f.price_pos
        positivity
      · exact amid_average amid keeps (abs_nonneg _) (abs_nonneg _) weights direction
  · have was : c.netQuantity ≠ 0 := fun flat => other (Or.inl flat)
    by_cases flat : c'.netQuantity = 0
    · exact ⟨net, fun _ => average.trans (if_pos flat), fun nonzero => absurd flat nonzero⟩
    rw [if_neg flat] at average
    by_cases reduced : c.netQuantity * c'.netQuantity > 0
    · rw [if_pos reduced] at average
      obtain ⟨positive, earlier, opening, later, trade, amid⟩ := h.traded was
      refine ⟨net, fun zero => absurd zero flat, fun _ => ?_⟩
      rw [average]
      exact ⟨positive, earlier, opening, later ++ [f], trade.extend (by rwa [← net, ← h.net]),
        amid.extend reduced f⟩
    · rw [if_neg reduced] at average
      refine opened average flat (not_lt.1 reduced) ?_
      rw [sum] at flat reduced ⊢
      rcases lt_or_gt_of_ne was with short | long
      · have crossed : 0 < c.netQuantity + f.signed :=
          lt_of_le_of_ne (by nlinarith) (Ne.symm flat)
        exact mul_pos crossed (by linarith)
      · have crossed : c.netQuantity + f.signed < 0 := lt_of_le_of_ne (by nlinarith) flat
        exact mul_pos_of_neg_of_neg crossed (by linarith)

end Steps

theorem executed_reducing {c c' : PositionCalculation} {f : Execution} (ok : c.executed f = .ok c')
    (closing : c.netQuantity * f.signed < 0) (still : 0 < c.netQuantity * c'.netQuantity) :
    c'.averageEntryPrice = c.averageEntryPrice := by
  rcases executed_cases ok with ⟨flat | same, -, -⟩ | ⟨-, average⟩
  · simp [flat] at closing
  · exact absurd same closing.not_gt
  · rw [average, if_neg (right_ne_zero_of_mul still.ne'), if_pos still]

theorem executedAll_entered (fills : List Execution) :
    ∃ c, executedAll fills = .ok c ∧ Entered fills c := by
  induction fills using List.reverseRecOn with
  | nil =>
    exact ⟨.flat, rfl, rfl, fun _ => rfl, fun nonzero => (nonzero rfl).elim⟩
  | append_singleton fills f ih =>
    obtain ⟨c, ran, entered⟩ := ih
    obtain ⟨c', ok⟩ := calculatePositionAfterFill_total c.netQuantity c.averageEntryPrice
      c.realizedPnl f.side f.price f.quantity_pos
    exact ⟨c', (executedAll_append ran f).trans ok, entered.executed ok⟩

/-- The average entry price after any fills is an average of prices of the open trade. -/
theorem average_of_openTrade (fills : List Execution) :
    ∃ c, executedAll fills = .ok c ∧ c.netQuantity = netOf fills ∧
      (c.averageEntryPrice = 0 ↔ c.netQuantity = 0) ∧
      (c.netQuantity ≠ 0 → 0 < c.averageEntryPrice ∧ ∃ earlier opening later,
        OpenTrade fills earlier opening later ∧
          Amid c.averageEntryPrice c.netQuantity (opening :: later)) ∧
      ∀ f, ∃ c', executedAll (fills ++ [f]) = .ok c' ∧
        (c.netQuantity * f.signed < 0 → 0 < c.netQuantity * c'.netQuantity →
          c'.averageEntryPrice = c.averageEntryPrice) := by
  obtain ⟨c, ran, entered⟩ := executedAll_entered fills
  refine ⟨c, ran, entered.net, ⟨fun zero => ?_, entered.flat⟩, entered.traded, fun f => ?_⟩
  · by_contra nonzero
    exact (entered.traded nonzero).1.ne' zero
  · obtain ⟨c', ran', -⟩ := executedAll_entered (fills ++ [f])
    exact ⟨c', ran', executed_reducing ((executedAll_append ran f).symm.trans ran')⟩

end OrderManagement
