import Mathlib.Data.Rat.Defs
import Mathlib.Algebra.Group.Nat.Basic

/-!
# Quotes, orders and trades of the `UistV1` exchange

The data model of `exchange/uist_v1.rs`.  Prices, share counts and trade values are `f64` in
the source; they are modelled by exact rationals, so the comparisons of the order rules are
total.  Timestamps are `i64` and order ids `u64`; the exchange never does arithmetic on
timestamps, and the one `u64` addition (the order counter) is checked: an overflow panics, as
Rust's arithmetic does in a debug build, and a panic is `none` throughout the model.

The quote store `Penelope` is not among the sources.  The exchange reads it through two
lookups only, `get_quote` (its `UistSource` impl) and `get_quotes`, and `Penelope` here is
just those two functions, whatever they are.
-/

namespace Alator

/-- `u64` addition of one, as Rust checks it: an overflow panics. -/
def u64Succ (n : Nat) : Option Nat := if n + 1 < 2 ^ 64 then some (n + 1) else none

theorem u64Succ_eq_some {n m : Nat} : u64Succ n = some m ↔ n + 1 < 2 ^ 64 ∧ m = n + 1 := by
  unfold u64Succ
  split <;> simp_all [eq_comm]

namespace Uist

/-- `TradeType`. -/
inductive TradeType
  | buy
  | sell
  deriving DecidableEq, Repr

/-- `OrderType`. -/
inductive OrderType
  | marketSell
  | marketBuy
  | limitSell
  | limitBuy
  | stopSell
  | stopBuy
  deriving DecidableEq, Repr

/-- `UistQuote`. -/
structure UistQuote where
  bid : ℚ
  ask : ℚ
  date : Int
  symbol : String
  deriving DecidableEq

/-- `Trade`. -/
structure Trade where
  symbol : String
  value : ℚ
  quantity : ℚ
  date : Int
  typ : TradeType
  deriving DecidableEq

/-- `Order`.  The id is `None` until the book stamps the order. -/
structure Order where
  orderId : Option Nat
  orderType : OrderType
  symbol : String
  shares : ℚ
  price : Option ℚ
  deriving DecidableEq

namespace Order

/-- `Order::market`. -/
def market (orderType : OrderType) (symbol : String) (shares : ℚ) : Order :=
  { orderId := none, orderType, symbol, shares, price := none }

/-- `Order::delayed`. -/
def delayed (orderType : OrderType) (symbol : String) (shares price : ℚ) : Order :=
  { orderId := none, orderType, symbol, shares, price := some price }

/-- `Order::market_buy`. -/
def marketBuy (symbol : String) (shares : ℚ) : Order := market .marketBuy symbol shares

/-- `Order::market_sell`. -/
def marketSell (symbol : String) (shares : ℚ) : Order := market .marketSell symbol shares

/-- `Order::stop_buy`. -/
def stopBuy (symbol : String) (shares price : ℚ) : Order := delayed .stopBuy symbol shares price

/-- `Order::stop_sell`. -/
def stopSell (symbol : String) (shares price : ℚ) : Order :=
  delayed .stopSell symbol shares price

/-- `Order::limit_buy`. -/
def limitBuy (symbol : String) (shares price : ℚ) : Order :=
  delayed .limitBuy symbol shares price

/-- `Order::limit_sell`. -/
def limitSell (symbol : String) (shares price : ℚ) : Order :=
  delayed .limitSell symbol shares price

end Order

/-- `<=` on `Option<f64>` as Rust derives it: `None` is below every `Some`. -/
def optionLe : Option ℚ → Option ℚ → Bool
  | none, _ => true
  | some _, none => false
  | some a, some b => decide (a ≤ b)

@[simp] theorem optionLe_none_left (b : Option ℚ) : optionLe none b = true := rfl

@[simp] theorem optionLe_some_some (a b : ℚ) : optionLe (some a) (some b) = decide (a ≤ b) := rfl

@[simp] theorem optionLe_some_none (a : ℚ) : optionLe (some a) none = false := rfl

/-- The quote store as the exchange reads it. -/
structure Penelope where
  /-- `get_quote`, the `UistSource` lookup of one symbol at one date. -/
  getQuote : Int → String → Option UistQuote
  /-- `get_quotes`, every quote at one date. -/
  getQuotes : Int → Option (List UistQuote)

end Uist

end Alator
