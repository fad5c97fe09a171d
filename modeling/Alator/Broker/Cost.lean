import Mathlib.Algebra.Order.Field.Rat
import Mathlib.Algebra.Order.BigOperators.Group.List
import Mathlib.Algebra.Order.Field.Basic
import Mathlib.Tactic.Linarith
import Mathlib.Tactic.Ring

/-!
# Broker costs

A `BrokerCost` is a fee per share, a percentage of the trade's value, or a flat fee.  `calc`
is what one cost charges on a trade.  `trade_impact` turns a gross budget and a gross price
into the budget left to spend and the price of a share once the cost is paid, and
`trade_impact_total` does so for each cost of a list in turn.

A broker sizes a buy as `q = net_budget / net_price` shares.  Whatever the costs and their
order, the shares at the gross price and the fees `calc` then charges on that trade stay
within the gross budget (`tradeImpactTotal_within_budget`).  The fold keeps the invariant
`budget_bound`: what is left of the budget, grown by every percentage met so far, does not
exceed the gross budget less the flat fees met so far.
-/

namespace Alator.Broker

/-- `Trade`, with the two fields `calc` reads. -/
structure Trade where
  value : ℚ
  quantity : ℚ

/-- `BrokerCost`. -/
inductive BrokerCost
  | perShare (cost : ℚ)
  | pctOfValue (pct : ℚ)
  | flat (val : ℚ)

namespace BrokerCost

/-- `BrokerCost::calc`. -/
def «calc» : BrokerCost → Trade → ℚ
  | perShare cost, trade => cost * trade.quantity
  | pctOfValue pct, trade => trade.value * pct
  | flat val, _ => val

/-- `BrokerCost::trade_impact`: the net budget and net price once this cost is paid. -/
def tradeImpact (cost : BrokerCost) (grossBudget grossPrice : ℚ) (isBuy : Bool) : ℚ × ℚ :=
  match cost with
  | perShare val => (grossBudget, if isBuy then grossPrice + val else grossPrice - val)
  | pctOfValue pct => (grossBudget * (1 - pct), grossPrice)
  | flat val => (grossBudget - val, grossPrice)

/-- `BrokerCost::trade_impact_total`: `trade_impact` of each cost in turn. -/
def tradeImpactTotal (tradeCosts : List BrokerCost) (grossBudget grossPrice : ℚ)
    (isBuy : Bool) : ℚ × ℚ :=
  tradeCosts.foldl (fun res cost => cost.tradeImpact res.1 res.2 isBuy) (grossBudget, grossPrice)

/-! ### The sizing of a buy -/

/-- A cost with a fee that is not negative, or a percentage between `0` and `1`. -/
def Valid : BrokerCost → Prop
  | perShare cost => 0 ≤ cost
  | pctOfValue pct => 0 ≤ pct ∧ pct ≤ 1
  | flat val => 0 ≤ val

instance (cost : BrokerCost) : Decidable cost.Valid :=
  match cost with
  | perShare cost => inferInstanceAs (Decidable (0 ≤ cost))
  | pctOfValue pct => inferInstanceAs (Decidable (0 ≤ pct ∧ pct ≤ 1))
  | flat val => inferInstanceAs (Decidable (0 ≤ val))

/-- The fee per share of a cost, `0` for the other kinds. -/
def perShareFee : BrokerCost → ℚ
  | perShare cost => cost
  | _ => 0

/-- The percentage of a cost, `0` for the other kinds. -/
def pctRate : BrokerCost → ℚ
  | pctOfValue pct => pct
  | _ => 0

/-- The flat fee of a cost, `0` for the other kinds. -/
def flatFee : BrokerCost → ℚ
  | flat val => val
  | _ => 0

/-- The buy sized from the costs: `q = net_budget / net_price` shares, worth `q` times the
gross price. -/
def sizedBuy (tradeCosts : List BrokerCost) (grossBudget grossPrice : ℚ) : Trade :=
  let net := tradeImpactTotal tradeCosts grossBudget grossPrice true
  ⟨net.1 / net.2 * grossPrice, net.1 / net.2⟩

@[simp] theorem tradeImpactTotal_nil (b p : ℚ) (isBuy : Bool) :
    tradeImpactTotal [] b p isBuy = (b, p) := rfl

theorem tradeImpactTotal_cons (cost : BrokerCost) (l : List BrokerCost) (b p : ℚ)
    (isBuy : Bool) :
    tradeImpactTotal (cost :: l) b p isBuy =
      tradeImpactTotal l (cost.tradeImpact b p isBuy).1 (cost.tradeImpact b p isBuy).2 isBuy :=
  rfl

/-- The fees `calc` charges on a trade, split by kind. -/
theorem sum_calc (l : List BrokerCost) (trade : Trade) :
    (l.map fun cost => cost.«calc» trade).sum = (l.map perShareFee).sum * trade.quantity +
      trade.value * (l.map pctRate).sum + (l.map flatFee).sum := by
  induction l with
  | nil => simp
  | cons cost l ih =>
    simp only [List.map_cons, List.sum_cons, ih]
    cases cost <;> simp only [«calc», perShareFee, pctRate, flatFee] <;> ring

/-- On a buy, the net price is the gross price and every fee per share. -/
theorem tradeImpactTotal_price (l : List BrokerCost) (b p : ℚ) :
    (tradeImpactTotal l b p true).2 = p + (l.map perShareFee).sum := by
  induction l generalizing b p with
  | nil => simp
  | cons cost l ih =>
    rw [tradeImpactTotal_cons, ih]
    cases cost <;> simp only [tradeImpact, perShareFee, List.map_cons, List.sum_cons,
      if_true] <;> ring

theorem sum_nonneg_of_valid {f : BrokerCost → ℚ} (hf : ∀ cost, cost.Valid → 0 ≤ f cost)
    {l : List BrokerCost} (hv : ∀ cost ∈ l, cost.Valid) : 0 ≤ (l.map f).sum :=
  List.sum_nonneg fun _ hx => by
    obtain ⟨cost, hc, rfl⟩ := List.mem_map.mp hx
    exact hf cost (hv cost hc)

theorem perShareFee_nonneg : ∀ cost : BrokerCost, cost.Valid → 0 ≤ cost.perShareFee
  | perShare _, h => h
  | pctOfValue _, _ | flat _, _ => le_refl 0

theorem pctRate_nonneg : ∀ cost : BrokerCost, cost.Valid → 0 ≤ cost.pctRate
  | pctOfValue _, h => h.1
  | perShare _, _ | flat _, _ => le_refl 0

theorem flatFee_nonneg : ∀ cost : BrokerCost, cost.Valid → 0 ≤ cost.flatFee
  | flat _, h => h
  | perShare _, _ | pctOfValue _, _ => le_refl 0

/-- The invariant of the fold over the costs.  When what is left of the budget, grown by the
percentages `R` met so far, is within an allowance `X` that still covers the flat fees to
come, then at the end it is within `X` less those flat fees, grown by the percentages to
come as well. -/
theorem budget_bound {l : List BrokerCost} (hv : ∀ cost ∈ l, cost.Valid) {b p R X : ℚ}
    (hR : 0 ≤ R) (hX : (l.map flatFee).sum ≤ X) (hb : max b 0 * (1 + R) ≤ X) :
    max (tradeImpactTotal l b p true).1 0 * (1 + R + (l.map pctRate).sum) ≤
      X - (l.map flatFee).sum := by
  induction l generalizing b p R X with
  | nil => simpa only [tradeImpactTotal_nil, List.map_nil, List.sum_nil, add_zero, sub_zero]
      using hb
  | cons cost l ih =>
    have hv' : ∀ cost ∈ l, cost.Valid := fun c hc => hv c (List.mem_cons_of_mem _ hc)
    have hrest := sum_nonneg_of_valid flatFee_nonneg hv'
    rw [tradeImpactTotal_cons]
    cases cost with
    | perShare cost =>
      simpa [tradeImpact, pctRate, flatFee] using ih hv' hR (by simpa [flatFee] using hX) hb
    | pctOfValue pct =>
      obtain ⟨h0, h1⟩ : 0 ≤ pct ∧ pct ≤ 1 := hv _ (List.mem_cons_self _ _)
      simp only [List.map_cons, List.sum_cons, pctRate, flatFee, zero_add] at hX ⊢
      -- the budget shrinks by the percentage at least as much as the percentage grows `R`
      have hb' : max (b * (1 - pct)) 0 * (1 + (R + pct)) ≤ X := by
        rcases le_or_lt b 0 with hb0 | hb0
        · rw [max_eq_right (mul_nonpos_of_nonpos_of_nonneg hb0 (by linarith))]
          linarith
        · rw [max_eq_left (mul_nonneg hb0.le (by linarith))]
          rw [max_eq_left hb0.le] at hb
          linarith only [hb, mul_nonneg (mul_nonneg hb0.le h0) (add_nonneg hR h0)]
      have := ih hv' (p := p) (add_nonneg hR h0) hX hb'
      simpa only [tradeImpact, add_assoc] using this
    | flat val =>
      have h0 : 0 ≤ val := hv _ (List.mem_cons_self _ _)
      simp only [List.map_cons, List.sum_cons, pctRate, flatFee, zero_add] at hX ⊢
      -- a flat fee comes off both the budget and the allowance
      have hb' : max (b - val) 0 * (1 + R) ≤ X - val := by
        rcases le_or_lt (b - val) 0 with hb0 | hb0
        · rw [max_eq_right hb0]; linarith
        · rw [max_eq_left hb0.le]
          rw [max_eq_left (by linarith : (0 : ℚ) ≤ b)] at hb
          linarith only [hb, mul_nonneg h0 hR]
      have := ih hv' (p := p) hR (by linarith) hb'
      simpa only [tradeImpact, sub_sub] using this

end BrokerCost

open BrokerCost

/-- Sizing within budget.  For every list of costs with fees that are not negative and
percentages between `0` and `1`, every gross price `p > 0` and every gross budget `B` that
covers the flat fees: the buy of `q = net_budget / net_price` shares at `p`, with the fees
`calc` charges on it, costs at most `B`. -/
theorem tradeImpactTotal_within_budget (costs : List BrokerCost)
    (hv : ∀ cost ∈ costs, cost.Valid) (p B : ℚ) (hp : 0 < p)
    (hB : (costs.map flatFee).sum ≤ B) :
    (sizedBuy costs B p).value + (costs.map fun cost => cost.«calc» (sizedBuy costs B p)).sum ≤ B :=
  by
  have hC := sum_nonneg_of_valid perShareFee_nonneg hv
  have hR := sum_nonneg_of_valid pctRate_nonneg hv
  have hF := sum_nonneg_of_valid flatFee_nonneg hv
  have hbound := budget_bound (p := p) hv le_rfl hB (by
    rw [max_eq_left (hF.trans hB)]; linarith)
  rw [sum_calc]
  simp only [sizedBuy, tradeImpactTotal_price] at hbound ⊢
  set nb := (tradeImpactTotal costs B p true).1
  set C := (costs.map perShareFee).sum
  set R := (costs.map pctRate).sum
  set F := (costs.map flatFee).sum
  have hnp : 0 < p + C := by linarith
  -- `q` shares at the net price are the net budget
  have hq : nb / (p + C) * p + nb / (p + C) * C = nb := by
    rw [← mul_add, div_mul_cancel₀ _ hnp.ne']
  rcases le_or_lt 0 nb with hnb | hnb
  · -- the percentages of the trade's value are within those of the net budget
    have hq0 : 0 ≤ nb / (p + C) := div_nonneg hnb hnp.le
    rw [max_eq_left hnb] at hbound
    have hqR : nb / (p + C) * p * R + nb / (p + C) * C * R = nb * R := by
      rw [← add_mul, hq]
    linarith only [hq, hqR, hbound, mul_nonneg (mul_nonneg hq0 hC) hR]
  · -- nothing is left to spend: the trade and its percentages are negative
    have hq0 : nb / (p + C) < 0 := div_neg_of_neg_of_pos hnb hnp
    linarith only [hq, hnb, hB, mul_nonneg (mul_nonneg (neg_nonneg.mpr hq0.le) hp.le) hR]

/-- A flat fee, a half-percent-of-value fee and a fee per share, as a broker might charge
them. -/
def sampleCosts : List BrokerCost := [.flat 1, .pctOfValue (1 / 200), .perShare (1 / 100)]

theorem tradeImpactTotal_within_budget_sample :
    (∀ cost ∈ sampleCosts, cost.Valid) ∧ (0 : ℚ) < 10 ∧ (sampleCosts.map flatFee).sum ≤ 100 ∧
      (sizedBuy sampleCosts 100 10).value +
        (sampleCosts.map fun cost => cost.«calc» (sizedBuy sampleCosts 100 10)).sum ≤ 100 :=
  have hv : ∀ cost ∈ sampleCosts, cost.Valid := by
    simp only [sampleCosts, List.mem_cons, List.mem_singleton, forall_eq_or_imp, forall_eq,
      List.not_mem_nil, false_imp_iff, implies_true, and_true, Valid]
    norm_num
  have hB : (sampleCosts.map flatFee).sum ≤ 100 := by norm_num [sampleCosts, flatFee]
  ⟨hv, by norm_num, hB, tradeImpactTotal_within_budget sampleCosts hv 10 100 (by norm_num) hB⟩

end Alator.Broker
