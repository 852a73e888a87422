import Mathlib.Algebra.Order.Field.Power
import Mathlib.Algebra.Order.Floor.Ring
import Mathlib.Data.Int.Log
import Mathlib.Data.Rat.Floor
import Mathlib.Tactic.FieldSimp
import Mathlib.Tactic.Linarith
import Mathlib.Tactic.NormNum
import Mathlib.Tactic.Positivity
import Mathlib.Tactic.Ring

/-! Double precision over the rationals. `nearest x` is the double nearest to `x`, halves going
to the even one, with no bound on the exponent from above; a bound by a double is kept. -/

namespace BinaryFloats

/-- The integer nearest to `y`, halves going to the even one. -/
def halfEven (y : ℚ) : ℤ :=
  if Int.fract y < 1 / 2 ∨ Int.fract y = 1 / 2 ∧ Even ⌊y⌋ then ⌊y⌋ else ⌊y⌋ + 1

theorem le_halfEven {k : ℤ} {y : ℚ} (h : (k : ℚ) ≤ y) : k ≤ halfEven y := by
  have floor : k ≤ ⌊y⌋ := Int.le_floor.2 h
  unfold halfEven
  split <;> omega

theorem halfEven_le {k : ℤ} {y : ℚ} (h : y ≤ k) : halfEven y ≤ k := by
  have floor : ⌊y⌋ ≤ k := Int.cast_le.1 ((Int.floor_le y).trans h)
  rcases floor.lt_or_eq with below | rfl
  · unfold halfEven
    split <;> omega
  · have whole : Int.fract y = 0 := by
      have := Int.floor_add_fract y
      linarith [Int.fract_nonneg y]
    simp [halfEven, whole]

theorem halfEven_intCast (k : ℤ) : halfEven k = k :=
  le_antisymm (halfEven_le le_rfl) (le_halfEven le_rfl)

theorem halfEven_neg (y : ℚ) : halfEven (-y) = -halfEven y := by
  by_cases whole : Int.fract y = 0
  · have eq : y = (⌊y⌋ : ℤ) := by
      have := Int.floor_add_fract y
      linarith
    rw [eq, ← Int.cast_neg, halfEven_intCast, halfEven_intCast]
  · have fract : Int.fract (-y) = 1 - Int.fract y := Int.fract_neg whole
    have floor : ⌊-y⌋ = -⌊y⌋ - 1 := by
      have lower := Int.floor_add_fract (-y)
      have upper := Int.floor_add_fract y
      rw [fract] at lower
      have : ((⌊-y⌋ : ℤ) : ℚ) = ((-⌊y⌋ - 1 : ℤ) : ℚ) := by
        push_cast
        linarith
      exact_mod_cast this
    have parity : Even (-⌊y⌋ - 1) ↔ ¬ Even ⌊y⌋ := by
      simp [parity_simps]
    unfold halfEven
    rw [fract, floor]
    rcases lt_trichotomy (Int.fract y) (1 / 2) with low | half | high
    · rw [if_neg (by rintro (h | ⟨h, -⟩) <;> linarith), if_pos (Or.inl low)]
      ring
    · by_cases even : Even ⌊y⌋
      · rw [if_neg (by rintro (h | ⟨-, h⟩) <;> [linarith; exact parity.1 h even]),
          if_pos (Or.inr ⟨half, even⟩)]
        ring
      · rw [if_pos (Or.inr ⟨by linarith, parity.2 even⟩),
          if_neg (by rintro (h | ⟨-, h⟩) <;> [linarith; exact even h])]
        ring
    · rw [if_pos (Or.inl (by linarith)), if_neg (by rintro (h | ⟨h, -⟩) <;> linarith)]
      ring

/-- The exponent of the last of the 53 bits of `x`. -/
def lastBit (x : ℚ) : ℤ := max (Int.log 2 |x| - 52) (-1074)

def ulp (x : ℚ) : ℚ := 2 ^ lastBit x

def nearest (x : ℚ) : ℚ := halfEven (x / ulp x) * ulp x

variable {x d : ℚ}

theorem ulp_pos (x : ℚ) : 0 < ulp x := zpow_pos (by norm_num) _

theorem lastBit_neg (x : ℚ) : lastBit (-x) = lastBit x := by
  unfold lastBit
  rw [abs_neg]

theorem nearest_neg (x : ℚ) : nearest (-x) = -nearest x := by
  unfold nearest ulp
  rw [lastBit_neg, neg_div, halfEven_neg]
  push_cast
  ring

theorem nearest_zero : nearest 0 = 0 := by
  have zero : halfEven 0 = 0 := halfEven_intCast 0
  simp [nearest, zero]

theorem nearest_nonneg (h : 0 ≤ x) : 0 ≤ nearest x := by
  have rounded : 0 ≤ halfEven (x / ulp x) := le_halfEven (by
    push_cast
    exact div_nonneg h (ulp_pos x).le)
  exact mul_nonneg (by exact_mod_cast rounded) (ulp_pos x).le

theorem multiple_le_nearest {k : ℤ} (h : k * ulp x ≤ x) : k * ulp x ≤ nearest x := by
  have rounded : k ≤ halfEven (x / ulp x) := le_halfEven ((le_div_iff₀ (ulp_pos x)).2 h)
  exact mul_le_mul_of_nonneg_right (by exact_mod_cast rounded) (ulp_pos x).le

theorem nearest_le_multiple {k : ℤ} (h : x ≤ k * ulp x) : nearest x ≤ k * ulp x := by
  have rounded : halfEven (x / ulp x) ≤ k := halfEven_le ((div_le_iff₀ (ulp_pos x)).2 h)
  exact mul_le_mul_of_nonneg_right (by exact_mod_cast rounded) (ulp_pos x).le

theorem nearest_multiple {k : ℤ} (h : x = k * ulp x) : nearest x = x := by
  have below := multiple_le_nearest (k := k) (x := x) h.ge
  have above := nearest_le_multiple (k := k) (x := x) h.le
  linarith

theorem zpow_eq_multiple {e f : ℤ} (h : e ≤ f) : ∃ k : ℤ, (2 : ℚ) ^ f = k * 2 ^ e := by
  refine ⟨2 ^ (f - e).toNat, ?_⟩
  push_cast
  rw [← zpow_natCast, ← zpow_add₀ (by norm_num), Int.toNat_of_nonneg (by omega)]
  congr 1
  omega

theorem multiple_coarser {e f k : ℤ} (h : e ≤ f) (eq : x = k * 2 ^ f) :
    ∃ l : ℤ, x = l * 2 ^ e := by
  obtain ⟨m, power⟩ := zpow_eq_multiple h
  exact ⟨k * m, by rw [eq, power]; push_cast; ring⟩

theorem nearest_short {e k : ℤ} (low : -1074 ≤ e) (short : |k| < 2 ^ 53) :
    nearest (k * 2 ^ e) = k * 2 ^ e := by
  have power : (0 : ℚ) < 2 ^ e := zpow_pos (by norm_num) _
  by_cases zero : (k : ℚ) * 2 ^ e = 0
  · rw [zero, nearest_zero]
  · have small : |(k : ℚ) * 2 ^ e| < 2 ^ (53 + e) := by
      rw [abs_mul, abs_of_pos power, zpow_add₀ (by norm_num)]
      exact mul_lt_mul_of_pos_right (by exact_mod_cast short) power
    have log : Int.log 2 |(k : ℚ) * 2 ^ e| < 53 + e :=
      (Int.lt_zpow_iff_log_lt (by norm_num) (abs_pos.2 zero)).1 (by exact_mod_cast small)
    obtain ⟨l, own⟩ := multiple_coarser
      (show lastBit ((k : ℚ) * 2 ^ e) ≤ e by unfold lastBit; omega) rfl
    exact nearest_multiple own

theorem nearest_steps {e k : ℤ} (low : -1074 ≤ e) (steps : |k| ≤ 2 ^ 53) :
    nearest (k * 2 ^ e) = k * 2 ^ e := by
  rcases steps.lt_or_eq with short | full
  · exact nearest_short low short
  · -- All 53 bits carry: the number is a power of two.
    obtain ⟨l, double, short⟩ : ∃ l : ℤ, k = l * 2 ∧ |l| < 2 ^ 53 := by
      rcases abs_eq (by norm_num) |>.1 full with eq | eq
      · exact ⟨2 ^ 52, by rw [eq]; norm_num, by norm_num⟩
      · exact ⟨-2 ^ 52, by rw [eq]; norm_num, by norm_num⟩
    have eq : (k : ℚ) * 2 ^ e = l * 2 ^ (e + 1) := by
      rw [double, zpow_add₀ (by norm_num)]
      push_cast
      ring
    rw [eq]
    exact nearest_short (by omega) short

theorem nearest_intCast {n : ℤ} (steps : |n| ≤ 2 ^ 53) : nearest n = n := by
  simpa using nearest_steps (e := 0) (by norm_num) steps

theorem multiple_of_double {e : ℤ} (double : nearest x = x)
    (large : (2 : ℚ) ^ (e + 52) ≤ |x|) : ∃ k : ℤ, x = k * 2 ^ e := by
  have pos : 0 < |x| := lt_of_lt_of_le (zpow_pos (by norm_num) _) large
  have log : e + 52 ≤ Int.log 2 |x| :=
    (Int.zpow_le_iff_le_log (by norm_num) pos).1 (by exact_mod_cast large)
  exact multiple_coarser (show e ≤ lastBit x by unfold lastBit; omega) double.symm

theorem lastBit_mono (pos : 0 < x) (h : x ≤ d) : lastBit x ≤ lastBit d := by
  have log := Int.log_mono_right (b := 2) pos h
  unfold lastBit
  rw [abs_of_pos pos, abs_of_pos (pos.trans_le h)]
  omega

theorem zpow_between (pos : 0 < x) (h : lastBit x < lastBit d) (dpos : 0 < d) :
    x < 2 ^ Int.log 2 d ∧ (2 : ℚ) ^ Int.log 2 d ≤ d ∧ lastBit d ≤ Int.log 2 d := by
  unfold lastBit at h ⊢
  rw [abs_of_pos pos, abs_of_pos dpos] at h
  rw [abs_of_pos dpos]
  refine ⟨?_, ?_, by omega⟩
  · have log : Int.log 2 x < Int.log 2 d := by omega
    exact_mod_cast (Int.lt_zpow_iff_log_lt (b := 2) (by norm_num) pos).2 log
  · exact_mod_cast Int.zpow_log_le_self (b := 2) (by norm_num) dpos

theorem le_nearest_of_pos (double : nearest d = d) (pos : 0 < d) (h : d ≤ x) :
    d ≤ nearest x := by
  rcases (lastBit_mono pos h).lt_or_eq with smaller | same
  · obtain ⟨above, power, coarse⟩ := zpow_between pos smaller (pos.trans_le h)
    obtain ⟨k, eq⟩ := zpow_eq_multiple coarse
    rw [eq] at above power
    exact above.le.trans (multiple_le_nearest power)
  · have own : d = halfEven (d / ulp d) * ulp x := by
      unfold ulp
      rw [← same]
      exact double.symm
    rw [own] at h ⊢
    exact multiple_le_nearest h

theorem nearest_le_of_pos (double : nearest d = d) (pos : 0 < x) (h : x ≤ d) :
    nearest x ≤ d := by
  rcases (lastBit_mono pos h).lt_or_eq with smaller | same
  · obtain ⟨above, power, coarse⟩ := zpow_between pos smaller (pos.trans_le h)
    obtain ⟨k, eq⟩ := zpow_eq_multiple (smaller.le.trans coarse)
    rw [eq] at above power
    exact (nearest_le_multiple above.le).trans power
  · have own : d = halfEven (d / ulp d) * ulp x := by
      unfold ulp
      rw [same]
      exact double.symm
    rw [own] at h ⊢
    exact nearest_le_multiple h

theorem le_nearest (double : nearest d = d) (h : d ≤ x) : d ≤ nearest x := by
  rcases lt_or_ge 0 d with pos | neg
  · exact le_nearest_of_pos double pos h
  · rcases lt_or_ge x 0 with below | above
    · have flipped : nearest (-x) ≤ -d :=
        nearest_le_of_pos (by rw [nearest_neg, double]) (by linarith) (by linarith)
      rw [nearest_neg] at flipped
      linarith
    · exact neg.trans (nearest_nonneg above)

theorem nearest_le (double : nearest d = d) (h : x ≤ d) : nearest x ≤ d := by
  have flipped : -d ≤ nearest (-x) := le_nearest (by rw [nearest_neg, double]) (by linarith)
  rw [nearest_neg] at flipped
  linarith

/-- A large double below a multiple of its last bit is a whole step below. -/
theorem le_of_double_lt {e k : ℤ} (double : nearest x = x)
    (large : (2 : ℚ) ^ (e + 52) ≤ |x|) (h : x < k * 2 ^ e) : x ≤ (k - 1) * 2 ^ e := by
  obtain ⟨l, rfl⟩ := multiple_of_double double large
  have power : (0 : ℚ) < 2 ^ e := zpow_pos (by norm_num) _
  have below : (l : ℚ) < k := lt_of_mul_lt_mul_right h power.le
  have step : l ≤ k - 1 := by
    have : l < k := by exact_mod_cast below
    omega
  exact mul_le_mul_of_nonneg_right (by exact_mod_cast step) power.le

theorem abs_halfEven_le (x : ℚ) : |halfEven (x / ulp x)| ≤ 2 ^ 53 := by
  have bound : |x| < 2 ^ (53 : ℤ) * ulp x := by
    have log : |x| < (2 : ℚ) ^ (Int.log 2 |x| + 1) := by
      exact_mod_cast Int.lt_zpow_succ_log_self (b := 2) (by norm_num) |x|
    refine log.trans_le ?_
    unfold ulp
    rw [← zpow_add₀ (by norm_num)]
    refine zpow_le_zpow_right₀ (by norm_num) ?_
    unfold lastBit
    omega
  have lo := (abs_lt.1 bound).1
  have hi := (abs_lt.1 bound).2
  refine abs_le.2 ⟨le_halfEven ?_, halfEven_le ?_⟩
  · rw [le_div_iff₀ (ulp_pos x)]
    push_cast
    norm_num at lo ⊢
    linarith
  · rw [div_le_iff₀ (ulp_pos x)]
    push_cast
    norm_num at hi ⊢
    linarith

theorem nearest_nearest (x : ℚ) : nearest (nearest x) = nearest x :=
  nearest_steps (le_max_right _ _) (abs_halfEven_le x)

/-- The decimals of some length next to `x`, the nearest first. -/
def decimals (x : ℚ) (digits : ℕ) : List ℚ :=
  let unit := 10 ^ (Int.log 10 |x| - digits)
  [halfEven (x / unit), ⌊x / unit⌋, ⌊x / unit⌋ + 1].map fun k : ℤ => k * unit

/-- The shortest decimal whose nearest double is the double `x`. -/
def shortest (x : ℚ) : ℚ :=
  (((List.range 17).flatMap (decimals x)).find? fun d => nearest d = x).getD x

end BinaryFloats
