import Mathlib.Algebra.Order.Field.Rat
import Mathlib.Algebra.BigOperators.Group.List
import Mathlib.Algebra.BigOperators.Ring.List

/-!
# Time series

`TimeSeries` holds an index and the values, `f64` read as rationals.  This file models the
functions that compute exactly: `new`, `append`, `count`, `pct_change` and `maxdd`;
`pct_change_log` and `vol` take logarithms and square roots and are left out.  The rounding of
each `f64` operation is not modelled, so the identities of the analytics below are those of
exact arithmetic; in `f64` they hold up to rounding.

`new` without an index counts `0, 1, …` over the range `0..values.len() - 1`, one short of the
values, and every `append` keeps that gap: a series built by `new(None, v)` from a nonempty
`v` has one index entry fewer than values for ever (`new_index_lags`), whereas one built from
an empty `v` and grown by `append(None, _)` keeps its index at `0, 1, …` in step with its
values (`new_empty_aligned`).
-/

namespace Alator.Series

/-- `TimeSeries`. -/
structure TimeSeries where
  index : List ℚ
  values : List ℚ

namespace TimeSeries

/-- The range `0..n` as `f64`. -/
def counting (n : Nat) : List ℚ := (List.range n).map fun v : Nat => (v : ℚ)

/-- `TimeSeries::new`.  Without an index, the index is `(0..values.len() - 1)` as `f64`. -/
def new (index : Option (List ℚ)) (values : List ℚ) : TimeSeries :=
  match index with
  | some index => ⟨index, values⟩
  | none =>
    if values.length = 0 then ⟨[], values⟩
    else ⟨counting (values.length - 1), values⟩

/-- `TimeSeries::append`.  Without an index, the next index is one past the last, or `0`. -/
def append (s : TimeSeries) (idx : Option ℚ) (value : ℚ) : TimeSeries :=
  match idx with
  | some idx => ⟨s.index ++ [idx], s.values ++ [value]⟩
  | none =>
    match s.index.getLast? with
    | none => ⟨s.index ++ [0], s.values ++ [value]⟩
    | some idxLast => ⟨s.index ++ [idxLast + 1], s.values ++ [value]⟩

/-- `TimeSeries::count`. -/
def count (s : TimeSeries) : Nat := s.values.length

/-- The loop of `pct_change`, with `temp` the previous value. -/
def pctChangeFrom : ℚ → List ℚ → List ℚ
  | _, [] => []
  | temp, i :: rest => (i / temp - 1) :: pctChangeFrom i rest

/-- `TimeSeries::pct_change`; `self.values[0]` panics on an empty series. -/
def pctChange (s : TimeSeries) : Option (List ℚ) :=
  match s.values with
  | [] => none
  | first :: rest => some (pctChangeFrom first rest)

/-- The loop variables of `TimeSeries::maxdd`. -/
structure MaxddState where
  maxdd : ℚ
  peak : ℚ
  trough : ℚ
  t2 : ℚ

/-- One turn of the loop of `TimeSeries::maxdd`: a new peak resets the trough; a new trough
below it measures its drawdown from the peak. -/
def maxddStep (st : MaxddState) (t1 : ℚ) : MaxddState :=
  if t1 > st.peak then { st with peak := t1, trough := t1 }
  else if t1 < st.trough then
    let t2 := t1 / st.peak - 1
    { st with trough := t1, t2, maxdd := if t2 < st.maxdd then t2 else st.maxdd }
  else st

/-- `TimeSeries::maxdd`. -/
def maxdd (s : TimeSeries) : ℚ := (s.values.foldl maxddStep ⟨0, 0, 0, 0⟩).maxdd

/-- `TimeSeries::var`: the mean square of the values less their mean.  On an empty series the
mean is `0.0 / 0.0`, NaN, and so is the variance: `none`. -/
def var (s : TimeSeries) : Option ℚ :=
  if s.count = 0 then none
  else
    let mean := s.values.sum / s.count
    some ((s.values.map fun ret => (ret - mean) ^ 2).sum / s.count)

/-- A sequence of `append` calls. -/
def appendAll (s : TimeSeries) (appends : List (Option ℚ × ℚ)) : TimeSeries :=
  appends.foldl (fun s a => s.append a.1 a.2) s

/-! ### Returns -/

theorem length_pctChangeFrom (temp : ℚ) (rest : List ℚ) :
    (pctChangeFrom temp rest).length = rest.length := by
  induction rest generalizing temp <;> simp [pctChangeFrom, *]

/-- One more value adds one return, measured from the last value. -/
theorem pctChangeFrom_concat (temp : ℚ) (rest : List ℚ) (v : ℚ) :
    pctChangeFrom temp (rest ++ [v]) = pctChangeFrom temp rest ++ [v / rest.getLast?.getD temp - 1] := by
  induction rest generalizing temp with
  | nil => rfl
  | cons i rest ih => simp only [List.cons_append, pctChangeFrom, List.append_eq, ih,
      List.getLast?_cons, Option.getD_some]

/-! ### The index -/

@[simp] theorem counting_zero : counting 0 = [] := rfl

@[simp] theorem length_counting (n : Nat) : (counting n).length = n := by simp [counting]

theorem counting_succ (n : Nat) : counting (n + 1) = counting n ++ [(n : ℚ)] := by
  simp [counting, List.range_succ]

@[simp] theorem values_append (s : TimeSeries) (idx : Option ℚ) (value : ℚ) :
    (s.append idx value).values = s.values ++ [value] := by
  unfold append; split
  · rfl
  · split <;> rfl

@[simp] theorem length_index_append (s : TimeSeries) (idx : Option ℚ) (value : ℚ) :
    (s.append idx value).index.length = s.index.length + 1 := by
  unfold append; split
  · simp
  · split <;> simp

/-- `append` without an index continues an index that counts `0, 1, …`. -/
theorem index_append_none {s : TimeSeries} {n : Nat}
    (h : s.index = counting n) (value : ℚ) :
    (s.append none value).index = counting (n + 1) := by
  cases n with
  | zero => simp [append, h, counting_succ]
  | succ m =>
    have hlast : s.index.getLast? = some (m : ℚ) := by
      rw [h, counting_succ, List.getLast?_append]; simp
    rw [append, hlast, h, counting_succ (m + 1)]
    simp

theorem appendAll_cons (s : TimeSeries) (a : Option ℚ × ℚ) (as : List (Option ℚ × ℚ)) :
    s.appendAll (a :: as) = (s.append a.1 a.2).appendAll as := rfl

/-- Appends grow the index and the values alike, so their difference stays. -/
theorem appendAll_lengths (s : TimeSeries) (appends : List (Option ℚ × ℚ)) :
    (s.appendAll appends).index.length + s.values.length =
      (s.appendAll appends).values.length + s.index.length := by
  induction appends generalizing s with
  | nil => exact Nat.add_comm _ _
  | cons a as ih =>
    rw [appendAll_cons]
    have := ih (s.append a.1 a.2)
    simp only [length_index_append, values_append, List.length_append,
      List.length_singleton] at this
    omega

/-- Appends without an index keep an index that counts `0, 1, …`. -/
theorem appendAll_none {s : TimeSeries} {n : Nat}
    (h : s.index = counting n) {appends : List (Option ℚ × ℚ)}
    (hnone : ∀ a ∈ appends, a.1 = none) :
    (s.appendAll appends).index =
      counting (n + appends.length) := by
  induction appends generalizing s n with
  | nil => simpa using h
  | cons a as ih =>
    obtain ⟨idx, value⟩ := a
    obtain rfl : idx = none := hnone _ (List.mem_cons_self _ _)
    rw [appendAll_cons, ih (index_append_none h value)
      fun a ha => hnone a (List.mem_cons_of_mem _ ha)]
    simp [Nat.add_right_comm, Nat.add_assoc]

/-- A series started empty and grown by `append(None, _)` keeps its index at `0, 1, …`, as
long as its values. -/
theorem new_empty_aligned (appends : List (Option ℚ × ℚ)) :
    ((new none []).appendAll appends).index.length =
        ((new none []).appendAll appends).values.length ∧
      ((∀ a ∈ appends, a.1 = none) → ((new none []).appendAll appends).index =
        counting ((new none []).appendAll appends).values.length) := by
  have hlen := appendAll_lengths (new none []) appends
  simp only [new, List.length_nil, if_true, add_zero] at hlen ⊢
  refine ⟨hlen, fun hnone => ?_⟩
  rw [appendAll_none (n := 0) rfl hnone, ← hlen, appendAll_none (n := 0) rfl hnone]
  simp

/-- The index of `new(None, values)` lags.  For every nonempty `values` and every sequence of
appends, the index has one entry fewer than the values; when no append gives an index, the
index is `0, 1, …, values.len() - 2`. -/
theorem new_index_lags (values : List ℚ) (hv : values ≠ [])
    (appends : List (Option ℚ × ℚ)) :
    ((new none values).appendAll appends).index.length + 1 =
        ((new none values).appendAll appends).values.length ∧
      ((∀ a ∈ appends, a.1 = none) → ((new none values).appendAll appends).index =
        counting (((new none values).appendAll appends).values.length - 1)) := by
  have hpos : 0 < values.length := List.length_pos.mpr hv
  have hnew : new none values =
      ⟨counting (values.length - 1), values⟩ := by
    simp [new, hpos.ne']
  have hlen := appendAll_lengths (new none values) appends
  rw [hnew] at hlen ⊢
  simp only [length_counting] at hlen
  refine ⟨by omega, fun hnone => ?_⟩
  rw [appendAll_none rfl hnone] at hlen ⊢
  rw [length_counting] at hlen
  congr 1
  omega

theorem new_index_lags_setup :
    [100, 105, 120, 80, 90] ≠ ([] : List ℚ) ∧
      ((new none [100, 105, 120, 80, 90]).appendAll []).index.length + 1 =
        ((new none [100, 105, 120, 80, 90]).appendAll []).values.length ∧
      ((∀ a ∈ ([] : List (Option ℚ × ℚ)), a.1 = none) →
        ((new none [100, 105, 120, 80, 90]).appendAll []).index =
          counting (((new none [100, 105, 120, 80, 90]).appendAll []).values.length - 1)) :=
  have hv : [100, 105, 120, 80, 90] ≠ ([] : List ℚ) := List.cons_ne_nil _ _
  ⟨hv, new_index_lags _ hv []⟩

/-! ### Appends and units -/

/-- `pct_change` is incremental.  For every series, index and value: after `append`, the
returns are those before with one more, the new value over the last one less one; a series
that was empty has no return yet. -/
theorem pctChange_append (s : TimeSeries) (idx : Option ℚ) (v : ℚ) :
    (s.append idx v).pctChange =
      match s.values.getLast? with
      | none => some []
      | some last => s.pctChange.map (· ++ [v / last - 1]) := by
  unfold pctChange
  rw [values_append]
  cases s.values with
  | nil => rfl
  | cons first rest =>
    simp only [List.cons_append, List.getLast?_cons, Option.map_some', pctChangeFrom_concat]

/-- The series with every value multiplied by `c`, as in another unit. -/
def scale (c : ℚ) (s : TimeSeries) : TimeSeries := ⟨s.index, s.values.map (c * ·)⟩

/-- The loop variables of `maxdd` on the series in another unit: the peak and the trough are
values, and scale; `maxdd` and `t2` are ratios, and do not. -/
def MaxddState.scale (c : ℚ) (st : MaxddState) : MaxddState :=
  { st with peak := c * st.peak, trough := c * st.trough }

theorem pctChangeFrom_scale {c : ℚ} (hc : c ≠ 0) (temp : ℚ) (rest : List ℚ) :
    pctChangeFrom (c * temp) (rest.map (c * ·)) = pctChangeFrom temp rest := by
  induction rest generalizing temp with
  | nil => rfl
  | cons i rest ih => simp only [List.map_cons, pctChangeFrom, ih, mul_div_mul_left _ _ hc]

/-- One turn of the loop of `maxdd` commutes with a change of unit. -/
theorem maxddStep_scale {c : ℚ} (hc : 0 < c) (st : MaxddState) (t1 : ℚ) :
    maxddStep (st.scale c) (c * t1) = (maxddStep st t1).scale c := by
  unfold maxddStep
  rw [apply_ite (MaxddState.scale c), apply_ite (MaxddState.scale c)]
  simp only [MaxddState.scale, gt_iff_lt, mul_lt_mul_left hc, mul_div_mul_left _ _ hc.ne']

theorem maxdd_scale {c : ℚ} (hc : 0 < c) (s : TimeSeries) : (s.scale c).maxdd = s.maxdd := by
  have hinit : MaxddState.scale c ⟨0, 0, 0, 0⟩ = ⟨0, 0, 0, 0⟩ := by
    simp only [MaxddState.scale, mul_zero]
  have hrun := List.foldl_hom (MaxddState.scale c) maxddStep (fun st t1 => maxddStep st (c * t1))
    s.values ⟨0, 0, 0, 0⟩ fun st t1 => maxddStep_scale hc st t1
  rw [hinit] at hrun
  simp only [maxdd, scale, List.foldl_map, hrun]
  rfl

theorem var_scale (c : ℚ) (s : TimeSeries) : (s.scale c).var = s.var.map (c ^ 2 * ·) := by
  have hsum : (s.values.map (c * ·)).sum = c * s.values.sum := by
    rw [List.sum_map_mul_left, List.map_id']
  simp only [var, count, scale, List.length_map, List.map_map, Function.comp_def, hsum]
  split_ifs
  · rfl
  · simp only [Option.map_some', mul_div_assoc, ← mul_sub, mul_pow, List.sum_map_mul_left]

theorem pctChange_scale {c : ℚ} (hc : c ≠ 0) (s : TimeSeries) :
    (s.scale c).pctChange = s.pctChange := by
  unfold pctChange scale
  cases s.values with
  | nil => rfl
  | cons first rest => simp only [List.map_cons, pctChangeFrom_scale hc]

/-- In exact arithmetic, the analytics do not depend on the unit.  For every series and every
factor `c > 0`: the series with every value multiplied by `c` has the same `maxdd` and the same
`pct_change`, and its `var` is multiplied by `c ^ 2`. -/
theorem analytics_scale (s : TimeSeries) (c : ℚ) (hc : 0 < c) :
    (s.scale c).maxdd = s.maxdd ∧ (s.scale c).pctChange = s.pctChange ∧
      (s.scale c).var = s.var.map (c ^ 2 * ·) :=
  ⟨maxdd_scale hc s, pctChange_scale hc.ne' s, var_scale c s⟩

theorem analytics_scale_cents :
    (0 : ℚ) < 100 ∧ ((new none [100, 105, 120, 80, 90]).scale 100).maxdd =
        (new none [100, 105, 120, 80, 90]).maxdd ∧
      ((new none [100, 105, 120, 80, 90]).scale 100).pctChange =
        (new none [100, 105, 120, 80, 90]).pctChange ∧
      ((new none [100, 105, 120, 80, 90]).scale 100).var =
        (new none [100, 105, 120, 80, 90]).var.map (100 ^ 2 * ·) :=
  have hc : (0 : ℚ) < 100 := by decide
  ⟨hc, analytics_scale _ 100 hc⟩

end TimeSeries

end Alator.Series
