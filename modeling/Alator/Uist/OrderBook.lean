import Alator.Uist.Types
import Mathlib.Data.List.Nodup

/-!
# The order book

`OrderBook` of `exchange/uist_v1.rs`: a queue of resting orders and the counter
`last_inserted` that stamps new ones.  `execute_orders` walks the queue once, collecting the
ids of the orders whose rule triggers and their trades, and then deletes those ids one by one
with `delete_order`, which removes the *first* order carrying an id.

The main results describe the book when its stamped ids are unique:

* `deleteOrder_eq_filter`: `delete_order` removes every order carrying the id;
* `walk_eq`: the walk collects, in book order, the ids and trades of the triggered orders;
* `executeOrders_eq`: `execute_orders` keeps exactly the orders that do not trigger, and
  returns the trades of those that do, in book order.
-/

namespace Alator.Uist

/-- `OrderBook`. -/
structure OrderBook where
  inner : List Order
  lastInserted : Nat
  deriving DecidableEq

namespace OrderBook

/-- `OrderBook::new`. -/
def new : OrderBook := ⟨[], 0⟩

/-- `OrderBook::delete_order`: the loop finds the first order stamped `delete_order_id` and
the book removes it; a missing id leaves the book as it is. -/
def deleteOrder (b : OrderBook) (deleteOrderId : Nat) : OrderBook :=
  { b with inner := b.inner.eraseP fun order => order.orderId == some deleteOrderId }

/-- `OrderBook::insert_order`: the order is stamped with `last_inserted`, appended, and the
counter moves on.  The stamped order is returned, as the caller's `&mut Order` sees it. -/
def insertOrder (b : OrderBook) (order : Order) : Option (OrderBook × Order) :=
  let order := { order with orderId := some b.lastInserted }
  (u64Succ b.lastInserted).map fun lastInserted => (⟨b.inner ++ [order], lastInserted⟩, order)

/-- `OrderBook::is_empty`. -/
def isEmpty (b : OrderBook) : Bool := b.inner.isEmpty

/-- `OrderBook::execute_buy`: a fill of the whole order at the ask. -/
def executeBuy (quote : UistQuote) (order : Order) (date : Int) : Trade :=
  let tradePrice := quote.ask
  { symbol := order.symbol, value := tradePrice * order.shares, quantity := order.shares,
    date, typ := .buy }

/-- `OrderBook::execute_sell`: a fill of the whole order at the bid. -/
def executeSell (quote : UistQuote) (order : Order) (date : Int) : Trade :=
  let tradePrice := quote.bid
  { symbol := order.symbol, value := tradePrice * order.shares, quantity := order.shares,
    date, typ := .sell }

/-- The `result` that the walk of `execute_orders` computes for an order with a quote: the
rule of its type, comparing `Option<f64>` prices as Rust does. -/
def orderResult (quote : UistQuote) (order : Order) (date : Int) : Option Trade :=
  match order.orderType with
  | .marketBuy => some (executeBuy quote order date)
  | .marketSell => some (executeSell quote order date)
  | .limitBuy =>
    if optionLe (some quote.ask) order.price then some (executeBuy quote order date) else none
  | .limitSell =>
    if optionLe order.price (some quote.bid) then some (executeSell quote order date) else none
  | .stopBuy =>
    if optionLe order.price (some quote.ask) then some (executeBuy quote order date) else none
  | .stopSell =>
    if optionLe (some quote.bid) order.price then some (executeSell quote order date) else none

/-- What the walk of `execute_orders` makes of one order: a trade when its symbol has a quote
at `date` and its rule triggers. -/
def fillOf (source : Int → String → Option UistQuote) (date : Int) (order : Order) :
    Option Trade :=
  (source date order.symbol).bind fun quote => orderResult quote order date

/-- A trade of the walk is dated at the date of the walk. -/
theorem fillOf_date {source : Int → String → Option UistQuote} {date : Int} {o : Order}
    {t : Trade} (h : fillOf source date o = some t) : t.date = date := by
  obtain ⟨q, -, h⟩ := Option.bind_eq_some.mp h
  unfold orderResult at h
  split at h <;> (try split at h) <;> cases h <;> rfl

/-- The walk of `execute_orders`, with its two accumulators `completed_orderids` and
`trade_results`.  `order.order_id.unwrap()` on an unstamped order that trades panics. -/
def walk (source : Int → String → Option UistQuote) (date : Int) :
    List Order → Option (List Nat × List Trade)
  | [] => some ([], [])
  | order :: rest =>
    match fillOf source date order with
    | none => walk source date rest
    | some trade =>
      order.orderId.bind fun orderId =>
        (walk source date rest).map fun (completed, trades) =>
          (orderId :: completed, trade :: trades)

/-- `OrderBook::execute_orders`: the walk, then `delete_order` for each completed id. -/
def executeOrders (b : OrderBook) (date : Int) (source : Int → String → Option UistQuote) :
    Option (OrderBook × List Trade) :=
  if b.isEmpty then some (b, [])
  else (walk source date b.inner).map fun (completed, trades) =>
    (completed.foldl deleteOrder b, trades)

@[simp] theorem deleteOrder_lastInserted (b : OrderBook) (k : Nat) :
    (b.deleteOrder k).lastInserted = b.lastInserted := rfl

theorem insertOrder_eq_some {b b' : OrderBook} {o o' : Order} :
    b.insertOrder o = some (b', o') ↔ b.lastInserted + 1 < 2 ^ 64 ∧
      o' = { o with orderId := some b.lastInserted } ∧
      b' = ⟨b.inner ++ [o'], b.lastInserted + 1⟩ := by
  unfold insertOrder
  cases h : u64Succ b.lastInserted with
  | none =>
    simp only [u64Succ, ite_eq_right_iff, reduceCtorEq, imp_false, not_lt] at h
    simp only [Option.map_none', reduceCtorEq, false_iff, not_and]
    intro h'; omega
  | some m =>
    obtain ⟨hlt, rfl⟩ := u64Succ_eq_some.mp h
    simp only [Option.map_some', Option.some.injEq, Prod.mk.injEq, hlt, true_and]
    constructor
    · rintro ⟨rfl, rfl⟩; exact ⟨rfl, rfl⟩
    · rintro ⟨rfl, rfl⟩; exact ⟨rfl, rfl⟩

/-! ### Books with unique ids -/

/-- The ids stamped on the orders of a queue, in queue order. -/
def ids (l : List Order) : List Nat := l.filterMap Order.orderId

/-- Every order of the queue is stamped. -/
def Stamped (l : List Order) : Prop := ∀ o ∈ l, o.orderId.isSome

@[simp] theorem ids_nil : ids [] = [] := rfl

@[simp] theorem ids_append (l l' : List Order) : ids (l ++ l') = ids l ++ ids l' :=
  List.filterMap_append l l' _

theorem ids_sublist {l l' : List Order} (h : l.Sublist l') : (ids l).Sublist (ids l') :=
  h.filterMap _

/-- Two orders of a queue with unique ids that carry the same id are the same order. -/
theorem eq_of_orderId_eq {l : List Order} (hu : (ids l).Nodup) {a b : Order} (ha : a ∈ l)
    (hb : b ∈ l) {k : Nat} (hak : a.orderId = some k) (hbk : b.orderId = some k) : a = b := by
  induction l with
  | nil => cases ha
  | cons c l ih =>
    have hu' : (ids l).Nodup := hu.sublist (ids_sublist (List.sublist_cons_self c l))
    -- an order of `l` carrying `k` rules out `c` carrying it
    have hc : ∀ d ∈ l, d.orderId = some k → c.orderId ≠ some k := fun d hd hdk hck => by
      simp only [ids, List.filterMap_cons, hck, List.nodup_cons] at hu
      exact hu.1 (List.mem_filterMap.mpr ⟨d, hd, hdk⟩)
    rcases List.mem_cons.mp ha with rfl | ha' <;> rcases List.mem_cons.mp hb with rfl | hb'
    · rfl
    · exact absurd hak (hc b hb' hbk)
    · exact absurd hbk (hc a ha' hak)
    · exact ih hu' ha' hb'

/-- In a queue with unique ids, an order's id is among the ids of a filtered queue exactly
when the order passes the filter. -/
theorem mem_ids_filter_iff {l : List Order} (hu : (ids l).Nodup) {p : Order → Bool}
    {o : Order} (ho : o ∈ l) {m : Nat} (hm : o.orderId = some m) :
    m ∈ ids (l.filter p) ↔ p o = true := by
  simp only [ids, List.mem_filterMap, List.mem_filter]
  constructor
  · rintro ⟨o', ⟨ho', hp⟩, hm'⟩
    rwa [eq_of_orderId_eq hu ho ho' hm hm']
  · exact fun hp => ⟨o, ⟨ho, hp⟩, hm⟩

theorem eraseP_orderId_eq_filter {l : List Order} (hu : (ids l).Nodup) (k : Nat) :
    l.eraseP (fun o => o.orderId == some k) = l.filter fun o => o.orderId != some k := by
  induction l with
  | nil => rfl
  | cons c l ih =>
    have hu' : (ids l).Nodup := hu.sublist (ids_sublist (List.sublist_cons_self c l))
    by_cases hck : c.orderId = some k
    · simp only [ids, List.filterMap_cons, hck, List.nodup_cons] at hu
      rw [List.eraseP_cons_of_pos (by simp [hck]), List.filter_cons_of_neg (by simp [hck]),
        List.filter_eq_self.mpr]
      intro d hd
      simpa using fun hdk => hu.1 (List.mem_filterMap.mpr ⟨d, hd, hdk⟩)
    · rw [List.eraseP_cons_of_neg (by simp [hck]), List.filter_cons_of_pos (by simp [hck]),
        ih hu']

/-- On a book with unique ids, `delete_order` removes every order carrying the id, and keeps
the others in their order. -/
theorem deleteOrder_eq_filter {b : OrderBook} (hu : (ids b.inner).Nodup) (k : Nat) :
    b.deleteOrder k = { b with inner := b.inner.filter fun o => o.orderId != some k } := by
  rw [deleteOrder, eraseP_orderId_eq_filter hu]

/-- The deletion loop of `execute_orders`, on a book with unique ids. -/
theorem foldl_deleteOrder {b : OrderBook} (hu : (ids b.inner).Nodup) (ks : List Nat) :
    ks.foldl deleteOrder b =
      { b with inner := b.inner.filter fun o => !ks.any fun k => o.orderId == some k } := by
  induction ks generalizing b with
  | nil => simp
  | cons k ks ih =>
    rw [List.foldl_cons, deleteOrder_eq_filter hu,
      ih (hu.sublist (ids_sublist (List.filter_sublist _)))]
    simp [List.filter_filter, Bool.and_comm, bne]

/-- The walk over a stamped queue collects the ids and the trades of the orders that trigger,
in queue order. -/
theorem walk_eq {source : Int → String → Option UistQuote} {date : Int} {l : List Order}
    (hs : Stamped l) :
    walk source date l = some (ids (l.filter fun o => (fillOf source date o).isSome),
      l.filterMap (fillOf source date)) := by
  induction l with
  | nil => rfl
  | cons o l ih =>
    have ih := ih fun o' h => hs o' (List.mem_cons_of_mem _ h)
    cases hf : fillOf source date o with
    | none => simp [walk, hf, ih, List.filter_cons]
    | some t =>
      obtain ⟨k, hk⟩ := Option.isSome_iff_exists.mp (hs o (List.mem_cons_self _ _))
      simp [walk, hf, hk, ih, List.filter_cons, ids]

/-- `execute_orders` on a stamped book with unique ids keeps exactly the orders that do not
trigger, in their order, and returns the trades of those that do, in book order. -/
theorem executeOrders_eq {b : OrderBook} (hs : Stamped b.inner) (hu : (ids b.inner).Nodup)
    (date : Int) (source : Int → String → Option UistQuote) :
    b.executeOrders date source =
      some (⟨b.inner.filter fun o => (fillOf source date o).isNone, b.lastInserted⟩,
        b.inner.filterMap (fillOf source date)) := by
  unfold executeOrders
  split
  · -- the early return on an empty book
    obtain ⟨inner, n⟩ := b
    simp_all [isEmpty]
  · rw [walk_eq hs, Option.map_some']
    dsimp only
    rw [foldl_deleteOrder hu]
    congr 3
    apply List.filter_congr
    intro o ho
    obtain ⟨m, hm⟩ := Option.isSome_iff_exists.mp (hs o ho)
    have := mem_ids_filter_iff hu (p := fun o => (fillOf source date o).isSome) ho hm
    cases hf : fillOf source date o with
    | none =>
      have hm' : m ∉ ids _ := fun h => by simpa [hf] using this.mp h
      simpa [hm, hf] using fun x hx (h : m = x) => hm' (h ▸ hx)
    | some t => simp_all

/-! ### The id invariant -/

/-- The id discipline of a book: every order is stamped with an id below the counter, the ids
strictly increase along the queue, and the counter is a `u64`. -/
structure IdInv (b : OrderBook) : Prop where
  stamped_lt : ∀ o ∈ b.inner, ∃ k, o.orderId = some k ∧ k < b.lastInserted
  increasing : (ids b.inner).Pairwise (· < ·)
  bound : b.lastInserted < 2 ^ 64

namespace IdInv

variable {b : OrderBook}

theorem stamped (h : IdInv b) : Stamped b.inner := fun o ho => by
  obtain ⟨k, hk, -⟩ := h.stamped_lt o ho
  simp [hk]

theorem nodup (h : IdInv b) : (ids b.inner).Nodup := h.increasing.imp ne_of_lt

/-- The invariant survives the removal of any orders from the queue. -/
theorem of_sublist (h : IdInv b) {l : List Order} (hl : l.Sublist b.inner) :
    IdInv ⟨l, b.lastInserted⟩ :=
  ⟨fun o ho => h.stamped_lt o (hl.subset ho), h.increasing.sublist (ids_sublist hl), h.bound⟩

theorem deleteOrder (h : IdInv b) (k : Nat) : IdInv (b.deleteOrder k) :=
  h.of_sublist (List.eraseP_sublist _)

end IdInv

theorem IdInv.new : IdInv new := ⟨fun _ h => (List.not_mem_nil _ h).elim, List.Pairwise.nil, by decide⟩

end OrderBook

end Alator.Uist
