import Alator.Series.TimeSeries
import Mathlib.Algebra.Order.Field.Basic
import Mathlib.Data.Rat.Floor
import Mathlib.Data.List.Basic
import Mathlib.Tactic.Linarith

/-!
# Maximum drawdown

The drawdown of the `j`-th value is how far it lies below the highest value up to it,
`v_j / max_{i ≤ j} v_i - 1`, and the maximum drawdown is the least of them, or `0`
(`maxDrawdown`).  `TimeSeries::maxdd` keeps only a peak and a trough, and measures a drawdown
only at a new low since the last peak.  It still finds the least drawdown of every positive
series (`maxdd_eq_maxDrawdown`): a value that is no new low lies above the trough, so its
drawdown is no lower than the one measured at the trough.

The loop invariant `MaxddInv` is stated over the prefix of values read so far; `maxddStep_inv`
proves it for one more value, and `foldl_maxddStep_inv` for the rest of the series.

These are results of exact arithmetic.  The bounds of a drawdown are also proved with the two
`f64` operations of the loop rounded (`maxdd_bounds`): `maxdd` is at most `0` however they
round, and at least `-1` on positive values when the rounding is monotone and exact on `0` and
`-1`; only the strict bound `-1 < maxdd` is lost, since rounding can reach `-1` itself.
-/

namespace Alator.Series

/-- The drawdown of every value: `v_j / max_{i ≤ j} v_i - 1`. -/
def drawdowns (values : List ℚ) : List ℚ :=
  values.mapIdx fun j v => v / (values.take (j + 1)).foldl max 0 - 1

/-- The maximum drawdown: `min(0, min_j (v_j / max_{i ≤ j} v_i - 1))`, `0` for no values. -/
def maxDrawdown (values : List ℚ) : ℚ := (drawdowns values).foldl min 0

/-- The drawdowns of a series with one more value: the last is measured from the highest
value of the whole series. -/
theorem drawdowns_concat (xs : List ℚ) (v : ℚ) :
    drawdowns (xs ++ [v]) = drawdowns xs ++ [v / max (xs.foldl max 0) v - 1] := by
  unfold drawdowns
  rw [List.mapIdx_concat, List.take_of_length_le (by simp), List.foldl_concat]
  congr 1
  refine List.mapIdx_eq_mapIdx_iff.mpr fun j hj => ?_
  rw [List.take_append_of_le_length (by omega)]

theorem maxDrawdown_concat (xs : List ℚ) (v : ℚ) :
    maxDrawdown (xs ++ [v]) = min (maxDrawdown xs) (v / max (xs.foldl max 0) v - 1) := by
  rw [maxDrawdown, drawdowns_concat, List.foldl_concat, maxDrawdown]

theorem maxDrawdown_nonpos (xs : List ℚ) : maxDrawdown xs ≤ 0 := by
  induction xs using List.reverseRecOn with
  | nil => exact le_rfl
  | append_singleton xs v ih => rw [maxDrawdown_concat]; exact (min_le_left _ _).trans ih

namespace TimeSeries

/-- The invariant of the loop of `maxdd` after reading the values `xs`: the peak is their
highest value, `maxdd` their maximum drawdown, and the drawdown of the trough from the peak
is no lower than `maxdd`. -/
structure MaxddInv (xs : List ℚ) (st : MaxddState) : Prop where
  peak : st.peak = xs.foldl max 0
  maxdd : st.maxdd = maxDrawdown xs
  trough_le : st.trough ≤ st.peak
  above : st.maxdd * st.peak ≤ st.trough - st.peak

theorem maxddInv_nil : MaxddInv [] ⟨0, 0, 0, 0⟩ :=
  ⟨rfl, rfl, le_rfl, by norm_num⟩

/-- One more value, when it is positive, keeps the invariant. -/
theorem maxddStep_inv {xs : List ℚ} {st : MaxddState} (h : MaxddInv xs st) {v : ℚ}
    (hv : 0 < v) : MaxddInv (xs ++ [v]) (maxddStep st v) := by
  have hD := maxDrawdown_nonpos xs
  unfold maxddStep
  split_ifs with hpeak htrough
  · -- a new peak: its drawdown is `0`
    refine ⟨by rw [List.foldl_concat, ← h.peak, max_eq_right hpeak.le], ?_, le_rfl, ?_⟩
    · rw [maxDrawdown_concat, ← h.peak, max_eq_right hpeak.le, div_self hv.ne', sub_self,
        min_eq_left hD, h.maxdd]
    · simp only [sub_self]
      exact mul_nonpos_of_nonpos_of_nonneg (h.maxdd ▸ hD) hv.le
  · -- a new low below the peak: its drawdown is measured
    dsimp only
    have hle : v ≤ st.peak := not_lt.mp hpeak
    have hpos : 0 < st.peak := hv.trans_le hle
    have hmin : (if v / st.peak - 1 < st.maxdd then v / st.peak - 1 else st.maxdd) =
        min st.maxdd (v / st.peak - 1) := by
      split_ifs with hlt
      · exact (min_eq_right hlt.le).symm
      · exact (min_eq_left (not_lt.mp hlt)).symm
    refine ⟨by rw [List.foldl_concat, ← h.peak, max_eq_left hle], ?_, hle, ?_⟩
    · rw [hmin, maxDrawdown_concat, ← h.peak, max_eq_left hle, h.maxdd]
    · rw [hmin]
      calc min st.maxdd (v / st.peak - 1) * st.peak ≤ (v / st.peak - 1) * st.peak :=
            mul_le_mul_of_nonneg_right (min_le_right _ _) hpos.le
        _ = v - st.peak := by rw [sub_mul, div_mul_cancel₀ _ hpos.ne', one_mul]
  · -- neither: the value lies above the trough, so its drawdown is no lower than `maxdd`
    have hle : v ≤ st.peak := not_lt.mp hpeak
    have hpos : 0 < st.peak := hv.trans_le hle
    refine ⟨by rw [List.foldl_concat, ← h.peak, max_eq_left hle], ?_, h.trough_le, h.above⟩
    rw [maxDrawdown_concat, ← h.peak, max_eq_left hle, ← h.maxdd, min_eq_left]
    rw [le_sub_iff_add_le, le_div_iff₀ hpos]
    linarith [h.above, not_lt.mp htrough]

/-- The invariant holds over the rest of a positive series. -/
theorem foldl_maxddStep_inv {xs : List ℚ} {st : MaxddState} (h : MaxddInv xs st)
    {ys : List ℚ} (hys : ∀ v ∈ ys, 0 < v) : MaxddInv (xs ++ ys) (ys.foldl maxddStep st) := by
  induction ys generalizing xs st with
  | nil => simpa using h
  | cons y ys ih =>
    have := ih (maxddStep_inv h (hys y (List.mem_cons_self _ _)))
      fun v hv => hys v (List.mem_cons_of_mem _ hv)
    simpa using this

/-- `maxdd` is the maximum drawdown.  For every series of positive values, `maxdd` returns
`min(0, min_j (v_j / max_{i ≤ j} v_i - 1))`, and `0` when there are no values. -/
theorem maxdd_eq_maxDrawdown (s : TimeSeries) (hpos : ∀ v ∈ s.values, 0 < v) :
    s.maxdd = maxDrawdown s.values ∧ (s.values = [] → s.maxdd = 0) :=
  have h : s.maxdd = maxDrawdown s.values := (foldl_maxddStep_inv maxddInv_nil hpos).maxdd
  ⟨h, fun he => by rw [h, he]; rfl⟩

/-- The series of the source's tests. -/
def setup : TimeSeries := new none [100, 105, 120, 80, 90]

theorem maxdd_eq_maxDrawdown_setup :
    (∀ v ∈ setup.values, 0 < v) ∧ setup.maxdd = maxDrawdown setup.values ∧
      (setup.values = [] → setup.maxdd = 0) :=
  have hpos : ∀ v ∈ setup.values, (0 : ℚ) < v := by decide
  ⟨hpos, maxdd_eq_maxDrawdown setup hpos⟩

/-! ### Bounds, with rounding

The loop computes one value in floating point, `t2 = (trough / peak) - 1.0`: two operations,
each rounded.  `roundedMaxddStep rnd` is the loop with `rnd` applied to the result of each,
and comparisons and copies exact; the exact loop is `rnd = id`.  Both bounds of a drawdown
are kept by every rounding that is monotone and exact on `0` and `-1`, as `f64`'s
round-to-nearest is, except that rounding can reach `-1` itself. -/

/-- One turn of the loop of `maxdd` with the division and the subtraction rounded by `rnd`. -/
def roundedMaxddStep (rnd : ℚ → ℚ) (st : MaxddState) (t1 : ℚ) : MaxddState :=
  if t1 > st.peak then { st with peak := t1, trough := t1 }
  else if t1 < st.trough then
    let t2 := rnd (rnd (t1 / st.peak) - 1)
    { st with trough := t1, t2, maxdd := if t2 < st.maxdd then t2 else st.maxdd }
  else st

/-- `maxdd` with the operations of its loop rounded by `rnd`. -/
def roundedMaxdd (rnd : ℚ → ℚ) (s : TimeSeries) : ℚ :=
  (s.values.foldl (roundedMaxddStep rnd) ⟨0, 0, 0, 0⟩).maxdd

/-- Exact arithmetic is the rounding that changes nothing. -/
theorem roundedMaxdd_id (s : TimeSeries) : s.roundedMaxdd id = s.maxdd := rfl

/-- One turn of the loop never raises `maxdd`, however it rounds. -/
theorem roundedMaxddStep_maxdd_le (rnd : ℚ → ℚ) (st : MaxddState) (t1 : ℚ) :
    (roundedMaxddStep rnd st t1).maxdd ≤ st.maxdd := by
  unfold roundedMaxddStep
  split_ifs
  · exact le_rfl
  · -- a new low: `maxdd` takes its drawdown only when that is lower
    dsimp only
    split_ifs with hlt
    · exact hlt.le
    · exact le_rfl
  · exact le_rfl

theorem foldl_roundedMaxddStep_maxdd_le (rnd : ℚ → ℚ) (st : MaxddState) (l : List ℚ) :
    (l.foldl (roundedMaxddStep rnd) st).maxdd ≤ st.maxdd := by
  induction l generalizing st with
  | nil => exact le_rfl
  | cons x l ih => exact (ih _).trans (roundedMaxddStep_maxdd_le rnd st x)

/-- What the loop of `maxdd` keeps on positive values, for a property `P` of drawdowns: the
trough is not negative and at most the peak, and `maxdd` has `P`. -/
structure MaxddIn (P : ℚ → Prop) (st : MaxddState) : Prop where
  trough_nonneg : 0 ≤ st.trough
  trough_le : st.trough ≤ st.peak
  maxdd_mem : P st.maxdd

section MaxddIn

variable {P : ℚ → Prop} {rnd : ℚ → ℚ}
  (hP : ∀ t1 peak : ℚ, 0 < t1 → t1 ≤ peak → P (rnd (rnd (t1 / peak) - 1)))
include hP

/-- When every drawdown the loop can measure from a positive new low has `P`, one turn keeps
`MaxddIn P`. -/
theorem MaxddIn.step {st : MaxddState} (h : MaxddIn P st) {t1 : ℚ} (ht1 : 0 < t1) :
    MaxddIn P (roundedMaxddStep rnd st t1) := by
  unfold roundedMaxddStep
  split_ifs with hpeak htrough
  · exact ⟨ht1.le, le_rfl, h.maxdd_mem⟩
  · -- a new low: it lies above zero and at most the peak
    have hle : t1 ≤ st.peak := not_lt.mp hpeak
    refine ⟨ht1.le, hle, ?_⟩
    dsimp only
    split_ifs
    · exact hP t1 st.peak ht1 hle
    · exact h.maxdd_mem
  · exact h

theorem MaxddIn.foldl {st : MaxddState} (h : MaxddIn P st) {l : List ℚ}
    (hl : ∀ v ∈ l, 0 < v) : MaxddIn P (l.foldl (roundedMaxddStep rnd) st) := by
  induction l generalizing st with
  | nil => exact h
  | cons x l ih =>
    exact ih (h.step hP (hl x (List.mem_cons_self _ _))) fun v hv =>
      hl v (List.mem_cons_of_mem _ hv)

end MaxddIn

/-- A rounding that is monotone and exact on `0` and `-1` keeps every drawdown measured
from a positive new low at `-1` or above: the quotient is positive, so it rounds to `0`
or above, and one less rounds to `-1` or above. -/
theorem neg_one_le_rounded {rnd : ℚ → ℚ} (hmono : Monotone rnd) (h0 : rnd 0 = 0)
    (h1 : rnd (-1) = -1) {t1 peak : ℚ} (ht1 : 0 < t1) (hle : t1 ≤ peak) :
    -1 ≤ rnd (rnd (t1 / peak) - 1) := by
  have hq : 0 ≤ rnd (t1 / peak) := h0 ▸ hmono (div_pos ht1 (ht1.trans_le hle)).le
  calc (-1 : ℚ) = rnd (-1) := h1.symm
    _ ≤ rnd (rnd (t1 / peak) - 1) := hmono (by linarith)

/-- `maxdd` is a drawdown.  For every series and every rounding of the two operations of its
loop, `maxdd` is at most `0`.  For every series of positive values, it is at least `-1`
under every rounding that is monotone and exact on `0` and `-1`, as `f64`'s is, and above
`-1` in exact arithmetic. -/
theorem maxdd_bounds (rnd : ℚ → ℚ) (s : TimeSeries) :
    s.roundedMaxdd rnd ≤ 0 ∧
      (Monotone rnd → rnd 0 = 0 → rnd (-1) = -1 → (∀ v ∈ s.values, 0 < v) →
        -1 ≤ s.roundedMaxdd rnd) ∧
      ((∀ v ∈ s.values, 0 < v) → -1 < s.maxdd) := by
  refine ⟨foldl_roundedMaxddStep_maxdd_le rnd _ s.values, fun hmono h0 h1 hpos => ?_,
    fun hpos => ?_⟩
  · -- rounded: at least `-1`
    have hin : MaxddIn (fun x => -1 ≤ x) ⟨0, 0, 0, 0⟩ := ⟨le_rfl, le_rfl, by norm_num⟩
    exact (hin.foldl (fun _ _ => neg_one_le_rounded hmono h0 h1) hpos).maxdd_mem
  · -- exact: a positive quotient less one is above `-1`
    have hin : MaxddIn (fun x => -1 < x) ⟨0, 0, 0, 0⟩ := ⟨le_rfl, le_rfl, by norm_num⟩
    have hexact : ∀ t1 peak : ℚ, 0 < t1 → t1 ≤ peak → -1 < id (id (t1 / peak) - 1) :=
      fun t1 peak ht1 hle => by simpa using div_pos ht1 (ht1.trans_le hle)
    exact (hin.foldl hexact hpos).maxdd_mem

/-- Rounding down to a whole number is monotone and exact on `0` and `-1`, and takes the
drawdown of `[2, 1]` to `-1` itself, where exact arithmetic gives `-1/2`. -/
theorem maxdd_bounds_floor :
    (new none [2, 1]).roundedMaxdd (fun q => ⌊q⌋) = -1 ∧ (new none [2, 1]).maxdd = -1 / 2 ∧
      (new none [2, 1]).roundedMaxdd (fun q => ⌊q⌋) ≤ 0 ∧
      -1 ≤ (new none [2, 1]).roundedMaxdd (fun q => ⌊q⌋) ∧ -1 < (new none [2, 1]).maxdd :=
  have hmono : Monotone fun q : ℚ => (⌊q⌋ : ℚ) := fun _ _ h =>
    Int.cast_mono (Int.floor_mono h)
  have hpos : ∀ v ∈ (new none [2, 1]).values, (0 : ℚ) < v := by norm_num [new]
  have h := maxdd_bounds (fun q => ⌊q⌋) (new none [2, 1])
  ⟨by norm_num [roundedMaxdd, roundedMaxddStep, new], by norm_num [maxdd, maxddStep, new], h.1,
    h.2.1 hmono (by norm_num) (by norm_num) hpos, h.2.2 hpos⟩

end TimeSeries

end Alator.Series
