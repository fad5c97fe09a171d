import Alator.Uist.Exchange

/-!
# Execution and deletion against their specifications

§4.3 of the spec describes `execute_orders` by a table: a market order always trades, a limit
buy when its price is at least the ask, a limit sell when it is at most the bid, a stop buy
when it is at most the ask, a stop sell when it is at least the bid; a buy trades at the ask,
a sell at the bid, in full.  `refFill` is that table.  The code compares `Option<f64>` prices,
where `None` is below every price; on orders that carry a price the two agree
(`fillOf_eq_refFill`), and `execute_orders` is the reference (`executeOrders_reference`).

The second half is about `delete_order`: on a book with unique ids it is a filter, and the
usual laws of a filter follow (`deleteOrder_is_filter`).
-/

namespace Alator.Uist

open OrderBook

/-- Buy-side order types. -/
def OrderType.isBuy : OrderType → Bool
  | .marketBuy | .limitBuy | .stopBuy => true
  | _ => false

/-- The trigger rule of §4.3, in the spec's words. -/
def triggers (quote : UistQuote) (o : Order) : Bool :=
  match o.orderType, o.price with
  | .marketBuy, _ | .marketSell, _ => true
  | .limitBuy, some p => decide (p ≥ quote.ask)
  | .limitSell, some p => decide (p ≤ quote.bid)
  | .stopBuy, some p => decide (p ≤ quote.ask)
  | .stopSell, some p => decide (p ≥ quote.bid)
  | _, none => false

/-- The trade of §4.3: the whole order, at the ask for a buy and at the bid for a sell. -/
def refTrade (quote : UistQuote) (o : Order) (date : Int) : Trade :=
  if o.orderType.isBuy then
    { symbol := o.symbol, value := quote.ask * o.shares, quantity := o.shares, date, typ := .buy }
  else
    { symbol := o.symbol, value := quote.bid * o.shares, quantity := o.shares, date,
      typ := .sell }

/-- The reference execution of one order: a trade when its symbol has a quote at `date` and
the rule triggers. -/
def refFill (source : Int → String → Option UistQuote) (date : Int) (o : Order) :
    Option Trade :=
  match source date o.symbol with
  | none => none
  | some quote => if triggers quote o then some (refTrade quote o date) else none

/-- An order that is not a market order carries a price. -/
def HasPrice (o : Order) : Prop :=
  o.orderType = .marketBuy ∨ o.orderType = .marketSell ∨ o.price.isSome

theorem orderResult_eq_of_hasPrice {quote : UistQuote} {o : Order} (h : HasPrice o)
    (date : Int) :
    orderResult quote o date = if triggers quote o then some (refTrade quote o date) else none :=
  by
  obtain ⟨id, t, sym, sh, p⟩ := o
  cases p <;> cases t <;>
    simp_all [HasPrice, orderResult, triggers, refTrade, OrderType.isBuy, executeBuy,
      executeSell, ge_iff_le]

theorem fillOf_eq_refFill {o : Order} (h : HasPrice o) (source : Int → String → Option UistQuote)
    (date : Int) : fillOf source date o = refFill source date o := by
  unfold fillOf refFill
  cases source date o.symbol with
  | none => rfl
  | some quote => exact orderResult_eq_of_hasPrice h date

/-- `execute_orders` is its reference: on a book whose orders are stamped with unique ids and
whose limit and stop orders carry a price, it returns in book order one trade per triggered
order, as §4.3 prices it, and leaves exactly the orders that do not trigger, in their order,
with the counter unchanged. -/
theorem executeOrders_reference (b : OrderBook) (hs : Stamped b.inner)
    (hu : (ids b.inner).Nodup) (hp : ∀ o ∈ b.inner, HasPrice o) (date : Int)
    (source : Int → String → Option UistQuote) :
    b.executeOrders date source =
      some (⟨b.inner.filter fun o => (refFill source date o).isNone, b.lastInserted⟩,
        b.inner.filterMap (refFill source date)) := by
  rw [executeOrders_eq hs hu, List.filter_congr fun o ho => by rw [fillOf_eq_refFill (hp o ho)],
    List.filterMap_congr fun o ho => fillOf_eq_refFill (hp o ho) source date]

/-- A book of six stamped orders, for date 101 of the source's tests, where `ABC` is bid at 102
and offered at 103: the market buy, the limit sell at 100 and the stop sell at 104 trigger, the
limit buy at 90 and the stop buy at 110 do not, and `XYZ` has no quote. -/
def sampleBook : OrderBook :=
  ⟨[{ Order.marketBuy "ABC" 100 with orderId := some 0 },
    { Order.limitBuy "ABC" 50 90 with orderId := some 1 },
    { Order.limitSell "ABC" 20 100 with orderId := some 2 },
    { Order.stopSell "ABC" 30 104 with orderId := some 3 },
    { Order.marketSell "XYZ" 10 with orderId := some 4 },
    { Order.stopBuy "ABC" 40 110 with orderId := some 5 }], 6⟩

theorem executeOrders_reference_sample :
    Stamped sampleBook.inner ∧ (ids sampleBook.inner).Nodup ∧
      (∀ o ∈ sampleBook.inner, HasPrice o) ∧
      sampleBook.executeOrders 101 sampleSource =
        some (⟨sampleBook.inner.filter fun o => (refFill sampleSource 101 o).isNone,
          sampleBook.lastInserted⟩, sampleBook.inner.filterMap (refFill sampleSource 101)) ∧
      sampleBook.executeOrders 101 sampleSource =
        some (⟨[{ Order.limitBuy "ABC" 50 90 with orderId := some 1 },
            { Order.marketSell "XYZ" 10 with orderId := some 4 },
            { Order.stopBuy "ABC" 40 110 with orderId := some 5 }], 6⟩,
          [⟨"ABC", 103 * 100, 100, 101, .buy⟩, ⟨"ABC", 102 * 20, 20, 101, .sell⟩,
            ⟨"ABC", 102 * 30, 30, 101, .sell⟩]) :=
  have hs : Stamped sampleBook.inner := by simp [Stamped, sampleBook]
  have hu : (ids sampleBook.inner).Nodup := by decide
  have hp : ∀ o ∈ sampleBook.inner, HasPrice o := by
    simp [sampleBook, HasPrice, Order.marketBuy, Order.marketSell, Order.market, Order.limitBuy,
      Order.limitSell, Order.stopBuy, Order.stopSell, Order.delayed]
  ⟨hs, hu, hp, executeOrders_reference sampleBook hs hu hp 101 sampleSource, rfl⟩

/-! ### `delete_order` -/

namespace UistV1

theorem deleteOrder_eq {s : UistV1} (hu : (ids s.orderbook.inner).Nodup) (a : Nat) :
    s.deleteOrder a = { s with orderbook :=
      ⟨s.orderbook.inner.filter fun o => o.orderId != some a, s.orderbook.lastInserted⟩ } := by
  rw [deleteOrder, deleteOrder_eq_filter hu]

theorem nodup_ids_deleteOrder {s : UistV1} (hu : (ids s.orderbook.inner).Nodup) (a : Nat) :
    (ids (s.deleteOrder a).orderbook.inner).Nodup :=
  hu.sublist (ids_sublist (List.eraseP_sublist _))

end UistV1

/-- `delete_order` is a filter: on a state whose book has unique ids, it removes every order
carrying the id and keeps the others in their order, with the counter unchanged.  So deleting
an absent id changes nothing, deleting an id twice is deleting it once, and two deletions
commute.  These are equalities of whole states, so every later run agrees. -/
theorem deleteOrder_is_filter (s : UistV1) (hu : (ids s.orderbook.inner).Nodup) (a b : Nat) :
    s.deleteOrder a = { s with orderbook :=
        ⟨s.orderbook.inner.filter fun o => o.orderId != some a, s.orderbook.lastInserted⟩ } ∧
      (a ∉ ids s.orderbook.inner → s.deleteOrder a = s) ∧
      (s.deleteOrder a).deleteOrder a = s.deleteOrder a ∧
      (s.deleteOrder a).deleteOrder b = (s.deleteOrder b).deleteOrder a := by
  have hua := UistV1.nodup_ids_deleteOrder hu a
  have hub := UistV1.nodup_ids_deleteOrder hu b
  refine ⟨UistV1.deleteOrder_eq hu a, fun ha => ?_, ?_, ?_⟩
  · -- an absent id: nothing matches
    rw [UistV1.deleteOrder_eq hu, List.filter_eq_self.mpr]
    intro o ho
    simpa using fun h => ha (List.mem_filterMap.mpr ⟨o, ho, h⟩)
  · rw [UistV1.deleteOrder_eq hua, UistV1.deleteOrder_eq hu]
    simp [List.filter_filter]
  · rw [UistV1.deleteOrder_eq hua, UistV1.deleteOrder_eq hub, UistV1.deleteOrder_eq hu,
      UistV1.deleteOrder_eq hu]
    simp [List.filter_filter, Bool.and_comm]

/-- The exchange of the source's tests with `sampleBook` resting in its book. -/
def restingExchange : UistV1 := { UistV1.setup with orderbook := sampleBook }

/-- Deleting two resting orders, 1 and 4, and an id the book does not hold, 7. -/
theorem deleteOrder_is_filter_resting :
    (ids restingExchange.orderbook.inner).Nodup ∧ 7 ∉ ids restingExchange.orderbook.inner ∧
      (restingExchange.deleteOrder 1 = { restingExchange with orderbook :=
          ⟨restingExchange.orderbook.inner.filter fun o => o.orderId != some 1,
            restingExchange.orderbook.lastInserted⟩ } ∧
        (1 ∉ ids restingExchange.orderbook.inner →
          restingExchange.deleteOrder 1 = restingExchange) ∧
        (restingExchange.deleteOrder 1).deleteOrder 1 = restingExchange.deleteOrder 1 ∧
        (restingExchange.deleteOrder 1).deleteOrder 4 =
          (restingExchange.deleteOrder 4).deleteOrder 1) ∧
      (restingExchange.deleteOrder 7 = { restingExchange with orderbook :=
          ⟨restingExchange.orderbook.inner.filter fun o => o.orderId != some 7,
            restingExchange.orderbook.lastInserted⟩ } ∧
        (7 ∉ ids restingExchange.orderbook.inner →
          restingExchange.deleteOrder 7 = restingExchange) ∧
        (restingExchange.deleteOrder 7).deleteOrder 7 = restingExchange.deleteOrder 7 ∧
        (restingExchange.deleteOrder 7).deleteOrder 2 =
          (restingExchange.deleteOrder 2).deleteOrder 7) :=
  have hu : (ids restingExchange.orderbook.inner).Nodup := by decide
  ⟨hu, by decide, deleteOrder_is_filter restingExchange hu 1 4,
    deleteOrder_is_filter restingExchange hu 7 2⟩

end Alator.Uist
