import Mathlib.Algebra.Order.Floor.Ring
import Mathlib.Data.Rat.Floor
import Mathlib.Tactic.FieldSimp
import Mathlib.Tactic.Linarith
import Mathlib.Tactic.Positivity
import Mathlib.Tactic.Ring

/-! Numeric columns. A column of fixed scale keeps a multiple of `10^-places`,
rounding half away from zero; an exact column keeps every rational number.
Arithmetic between reads and writes is rational throughout. -/

namespace OrderManagement

/-- What a numeric column makes of a number: the value it keeps, and whether it
takes the number at all. -/
structure Numeric where
  round : ℚ → ℚ
  fits : ℚ → Bool
  round_round : ∀ x, round (round x) = round x
  round_mono : Monotone round
  round_zero : round 0 = 0

namespace Numeric

/-- Numbers with at most `places` decimals. -/
def OnGrid (places : ℕ) (x : ℚ) : Prop := (x * 10 ^ places).den = 1

instance (places : ℕ) (x : ℚ) : Decidable (OnGrid places x) :=
  inferInstanceAs (Decidable (_ = 1))

theorem onGrid_iff {places : ℕ} {x : ℚ} : OnGrid places x ↔ ∃ k : ℤ, x * 10 ^ places = k := by
  unfold OnGrid
  constructor
  · intro h
    exact ⟨(x * 10 ^ places).num, ((Rat.den_eq_one_iff _).1 h).symm⟩
  · rintro ⟨k, hk⟩
    rw [hk]
    rfl

theorem OnGrid.add {places : ℕ} {x y : ℚ} (hx : OnGrid places x) (hy : OnGrid places y) :
    OnGrid places (x + y) := by
  obtain ⟨k, hk⟩ := onGrid_iff.1 hx
  obtain ⟨l, hl⟩ := onGrid_iff.1 hy
  exact onGrid_iff.2 ⟨k + l, by push_cast; linarith [add_mul x y (10 ^ places)]⟩

theorem OnGrid.neg {places : ℕ} {x : ℚ} (hx : OnGrid places x) : OnGrid places (-x) := by
  obtain ⟨k, hk⟩ := onGrid_iff.1 hx
  exact onGrid_iff.2 ⟨-k, by push_cast; linarith [neg_mul x (10 ^ places)]⟩

theorem OnGrid.sub {places : ℕ} {x y : ℚ} (hx : OnGrid places x) (hy : OnGrid places y) :
    OnGrid places (x - y) := sub_eq_add_neg x y ▸ hx.add hy.neg

theorem onGrid_zero (places : ℕ) : OnGrid places 0 := onGrid_iff.2 ⟨0, by simp⟩

/-- The integer nearest to `y`, halves going away from zero. -/
def halfAway (y : ℚ) : ℤ := if 0 ≤ y then ⌊y + 1 / 2⌋ else -⌊-y + 1 / 2⌋

theorem halfAway_intCast (k : ℤ) : halfAway k = k := by
  have half : ∀ l : ℤ, ⌊(l : ℚ) + 1 / 2⌋ = l := fun l => by
    rw [Int.floor_eq_iff]
    constructor <;> linarith
  unfold halfAway
  split
  · exact half k
  · have := half (-k)
    push_cast at this
    omega

theorem halfAway_mono {x y : ℚ} (h : x ≤ y) : halfAway x ≤ halfAway y := by
  unfold halfAway
  split_ifs with hx hy hy
  · exact Int.floor_mono (by linarith)
  · linarith
  · have lo : 0 ≤ ⌊y + 1 / 2⌋ := Int.floor_nonneg.2 (by linarith)
    have hi : 0 ≤ ⌊-x + 1 / 2⌋ := Int.floor_nonneg.2 (by linarith)
    omega
  · have := Int.floor_mono (show -y + 1 / 2 ≤ -x + 1 / 2 by linarith)
    omega

theorem halfAway_near (y : ℚ) : |(halfAway y : ℚ) - y| ≤ 1 / 2 := by
  have near : ∀ z : ℚ, |(⌊z + 1 / 2⌋ : ℚ) - z| ≤ 1 / 2 := fun z => by
    have lo := Int.floor_le (z + 1 / 2)
    have hi := Int.lt_floor_add_one (z + 1 / 2)
    rw [abs_le]
    constructor <;> linarith
  unfold halfAway
  split_ifs
  · exact near y
  · rw [← abs_neg]
    have := near (-y)
    push_cast
    rwa [show -(-(⌊-y + 1 / 2⌋ : ℚ) - y) = ⌊-y + 1 / 2⌋ - -y by ring]

/-- Rounding to `places` decimals, halves away from zero. -/
def roundTo (places : ℕ) (x : ℚ) : ℚ := halfAway (x * 10 ^ places) / 10 ^ places

theorem roundTo_onGrid (places : ℕ) (x : ℚ) : OnGrid places (roundTo places x) := by
  refine onGrid_iff.2 ⟨halfAway (x * 10 ^ places), ?_⟩
  unfold roundTo
  field_simp

theorem roundTo_of_onGrid {places : ℕ} {x : ℚ} (h : OnGrid places x) : roundTo places x = x := by
  obtain ⟨k, hk⟩ := onGrid_iff.1 h
  unfold roundTo
  rw [hk, halfAway_intCast, ← hk]
  field_simp

theorem roundTo_near (places : ℕ) (x : ℚ) : |roundTo places x - x| ≤ 1 / 2 / 10 ^ places := by
  have scale : (0 : ℚ) < 10 ^ places := by positivity
  have scaled :
      roundTo places x - x = (halfAway (x * 10 ^ places) - x * 10 ^ places) / 10 ^ places := by
    unfold roundTo
    field_simp
  rw [scaled, abs_div, abs_of_pos scale]
  exact div_le_div_of_nonneg_right (halfAway_near _) scale.le

theorem roundTo_mono (places : ℕ) : Monotone (roundTo places) := by
  intro x y h
  unfold roundTo
  have scaled : x * 10 ^ places ≤ y * 10 ^ places := by
    exact mul_le_mul_of_nonneg_right h (by positivity)
  have := halfAway_mono scaled
  gcongr

def exact : Numeric where
  round := id
  fits _ := true
  round_round _ := rfl
  round_mono := monotone_id
  round_zero := rfl

/-- A column of `places` decimals without an upper bound. -/
def rounded (places : ℕ) : Numeric where
  round := roundTo places
  fits _ := true
  round_round x := roundTo_of_onGrid (roundTo_onGrid places x)
  round_mono := roundTo_mono places
  round_zero := roundTo_of_onGrid (onGrid_zero places)

/-- `NUMERIC(precision, scale)`: `scale` decimals, `precision - scale` digits before them. -/
def column (precision scale : ℕ) : Numeric :=
  { rounded scale with fits := fun x => decide (|roundTo scale x| < 10 ^ (precision - scale)) }

@[simp] theorem exact_round (x : ℚ) : exact.round x = x := rfl

@[simp] theorem exact_fits (x : ℚ) : exact.fits x = true := rfl

theorem round_nonneg (num : Numeric) {x : ℚ} (h : 0 ≤ x) : 0 ≤ num.round x :=
  num.round_zero ▸ num.round_mono h

def Keeps (num : Numeric) (x : ℚ) : Prop := num.round x = x

instance (num : Numeric) (x : ℚ) : Decidable (num.Keeps x) := inferInstanceAs (Decidable (_ = x))

theorem keeps_zero (num : Numeric) : num.Keeps 0 := num.round_zero

/-- The column rounds to `places` decimals, whatever numbers it takes. -/
def RoundsTo (num : Numeric) (places : ℕ) : Prop := ∀ x, num.round x = roundTo places x

section RoundsTo

variable {num : Numeric} {places : ℕ}

theorem RoundsTo.keeps_iff (rounds : num.RoundsTo places) {x : ℚ} :
    num.Keeps x ↔ OnGrid places x := by
  unfold Keeps
  rw [rounds]
  exact ⟨fun kept => kept ▸ roundTo_onGrid places x, roundTo_of_onGrid⟩

theorem RoundsTo.near (rounds : num.RoundsTo places) (x : ℚ) :
    |num.round x - x| ≤ 1 / 2 / 10 ^ places := rounds x ▸ roundTo_near places x

theorem column_roundsTo (precision scale : ℕ) : (column precision scale).RoundsTo scale :=
  fun _ => rfl

end RoundsTo

/-- Columns that keep eight decimals, and the differences of what they keep. -/
structure Grid (num : Numeric) : Prop where
  places : ∀ {x : ℚ}, OnGrid 8 x → num.Keeps x
  sub : ∀ {x y : ℚ}, num.Keeps x → num.Keeps y → num.Keeps (x - y)

theorem Grid.add {num : Numeric} (grid : num.Grid) {x y : ℚ} (hx : num.Keeps x) (hy : num.Keeps y) :
    num.Keeps (x + y) := by
  have := grid.sub hx (grid.sub num.keeps_zero hy)
  rwa [zero_sub, sub_neg_eq_add] at this

theorem exact_keeps (x : ℚ) : exact.Keeps x := rfl

theorem exact_grid : exact.Grid := ⟨fun _ => rfl, fun _ _ => rfl⟩

theorem RoundsTo.grid {num : Numeric} (rounds : num.RoundsTo 8) : num.Grid where
  places := rounds.keeps_iff.2
  sub hx hy := rounds.keeps_iff.2 ((rounds.keeps_iff.1 hx).sub (rounds.keeps_iff.1 hy))

/-- Columns that take zero, what they keep, and the numbers between those they take. -/
structure Ranged (num : Numeric) : Prop where
  zero : num.fits 0 = true
  kept : ∀ x, num.fits (num.round x) = num.fits x
  between : ∀ {x y z : ℚ}, x ≤ y → y ≤ z → num.fits x = true → num.fits z = true →
    num.fits y = true

namespace Ranged

variable {num : Numeric} (ranged : num.Ranged) {x y : ℚ}

include ranged

theorem part (nonneg : 0 ≤ x) (le : x ≤ y) (fits : num.fits y = true) : num.fits x = true :=
  ranged.between nonneg le ranged.zero fits

theorem mean {w v : ℚ} (hw : 0 ≤ w) (hv : 0 < v) (hx : num.fits x = true) (hy : num.fits y = true) :
    num.fits ((w * x + v * y) / (w + v)) = true := by
  have total : 0 < w + v := add_pos_of_nonneg_of_pos hw hv
  rcases le_total x y with le | le
  · have part := mul_le_mul_of_nonneg_left le hv.le
    have part' := mul_le_mul_of_nonneg_left le hw
    refine ranged.between ?_ ?_ hx hy
    · rw [le_div_iff₀ total]
      linarith
    · rw [div_le_iff₀ total]
      linarith
  · have part := mul_le_mul_of_nonneg_left le hv.le
    have part' := mul_le_mul_of_nonneg_left le hw
    refine ranged.between ?_ ?_ hy hx
    · rw [le_div_iff₀ total]
      linarith
    · rw [div_le_iff₀ total]
      linarith

end Ranged

theorem column_ranged (precision scale : ℕ) : (column precision scale).Ranged where
  zero := by
    have zero : roundTo scale 0 = 0 := roundTo_of_onGrid (onGrid_zero scale)
    simp [column, zero]
  kept x := by
    have again : roundTo scale (roundTo scale x) = roundTo scale x :=
      roundTo_of_onGrid (roundTo_onGrid scale x)
    simp only [column, rounded, again]
  between hx hy low high := by
    simp only [column, decide_eq_true_eq, abs_lt] at low high ⊢
    exact ⟨low.1.trans_le (roundTo_mono scale hx), (roundTo_mono scale hy).trans_lt high.2⟩

end Numeric

end OrderManagement
