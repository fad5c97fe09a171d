import Alator.Clock

/-!
# The single exchange

`exchange/single/mod.rs` buffers the orders it receives and hands them to its order book only
on `check`: `check` ticks the clock first, then inserts the buffered orders into the book in
arrival order, executes the book at the new time, appends the executed trades to the trade log
and clears the buffer.  `fetch_trades(from)` returns the trade log from position `from` on, and
panics past its end (the slice `&self.trade_log[from..]`).

The order book (`super::orderbook`), the order and trade types and the price source are not
among the sources, and the exchange never looks inside them: here they are the types `β`, `ω`,
`τ`, `ρ` and the book's methods `OrderBookOps`, and every result holds for all of them.  The
price source shares the exchange's clock, so what it is asked is asked at the exchange's time.

The trade log only grows, by exactly the trades each `check` returns (`run_tradeLog`).  So a
client that remembers the length of the log and later fetches the trades from there receives
every trade executed in between, once each and in order (`fetchTrades_run`).

The buffer is what keeps the exchange free of lookahead: an order received at one time reaches
the book only on the next `check`, after the clock has ticked.  Over any run, the orders handed
to the book and those still buffered are the orders received, once each and in arrival order
(`runHanded_orderBuffer`); an order is handed at the first `check` after its arrival, and that
check executes at a later time than the arrival, unless the clock has run out
(`insertOrder_handed_next_check`).
-/

namespace Alator.Single

/-- The order book as `SingleExchange` calls it. -/
structure OrderBookOps (β ρ ω τ : Type) where
  /-- `OrderBook::new`. -/
  new : β
  /-- `OrderBook::insert_order`. -/
  insertOrder : β → ω → β
  /-- `OrderBook::delete_order`, by `DefaultExchangeOrderId`. -/
  deleteOrder : β → Nat → β
  /-- `OrderBook::clear_orders_by_symbol`. -/
  clearOrdersBySymbol : β → String → β
  /-- `OrderBook::execute_orders`, at a time and against the price source. -/
  executeOrders : β → Int → ρ → β × List τ

/-- `SingleExchange`. -/
structure SingleExchange (β ρ ω τ : Type) where
  clock : Clock
  orderbook : β
  priceSource : ρ
  /-- Every trade executed so far, in order. -/
  tradeLog : List τ
  /-- The orders received since the last `check`, in arrival order. -/
  orderBuffer : List ω

/-- A call to `SingleExchange`, with the one that changes nothing, `fetch_trades`, left out. -/
inductive Call (ω : Type)
  | insertOrder (order : ω)
  | deleteOrder (orderId : Nat)
  | clearOrdersBySymbol (symbol : String)
  | check

/-- The orders a call receives: `insert_order` buffers one. -/
def Call.received {ω : Type} : Call ω → List ω
  | .insertOrder order => [order]
  | _ => []

namespace SingleExchange

variable {β ρ ω τ : Type} (ops : OrderBookOps β ρ ω τ)

/-- `SingleExchange::new`. -/
def new (clock : Clock) (priceSource : ρ) : SingleExchange β ρ ω τ :=
  ⟨clock, ops.new, priceSource, [], []⟩

/-- `SingleExchange::insert_order`: into the buffer. -/
def insertOrder (e : SingleExchange β ρ ω τ) (order : ω) : SingleExchange β ρ ω τ :=
  { e with orderBuffer := e.orderBuffer ++ [order] }

/-- `SingleExchange::delete_order`. -/
def deleteOrder (e : SingleExchange β ρ ω τ) (orderId : Nat) : SingleExchange β ρ ω τ :=
  { e with orderbook := ops.deleteOrder e.orderbook orderId }

/-- `SingleExchange::clear_orders_by_symbol`. -/
def clearOrdersBySymbol (e : SingleExchange β ρ ω τ) (symbol : String) :
    SingleExchange β ρ ω τ :=
  { e with orderbook := ops.clearOrdersBySymbol e.orderbook symbol }

/-- `SingleExchange::fetch_quotes`: the quotes of the price source, or none, through its
`get_quotes`.  The price source holds a clone of the exchange's clock, so its lookup reads the
exchange's `now`. -/
def fetchQuotes {κ : Type} (getQuotes : ρ → Int → Option (List κ)) (e : SingleExchange β ρ ω τ) :
    List κ :=
  (getQuotes e.priceSource e.clock.now).getD []

/-- `SingleExchange::fetch_trades`; the slice panics when `from` is past the end. -/
def fetchTrades (e : SingleExchange β ρ ω τ) («from» : Nat) : Option (List τ) :=
  if «from» ≤ e.tradeLog.length then some (e.tradeLog.drop «from») else none

/-- `SingleExchange::check`: tick, insert the buffer in arrival order, execute at the new
time, log the trades and clear the buffer.  A tick on an exhausted clock leaves it as it is. -/
def check (e : SingleExchange β ρ ω τ) : SingleExchange β ρ ω τ × List τ :=
  let clock := e.clock.tick.getD e.clock
  let orderbook := e.orderBuffer.foldl ops.insertOrder e.orderbook
  let (orderbook, executed) := ops.executeOrders orderbook clock.now e.priceSource
  ({ e with clock, orderbook, tradeLog := e.tradeLog ++ executed, orderBuffer := [] }, executed)

/-- One call, and the trades it returns (only `check` returns any). -/
def step (e : SingleExchange β ρ ω τ) : Call ω → SingleExchange β ρ ω τ × List τ
  | .insertOrder order => (e.insertOrder order, [])
  | .deleteOrder orderId => (e.deleteOrder ops orderId, [])
  | .clearOrdersBySymbol symbol => (e.clearOrdersBySymbol ops symbol, [])
  | .check => e.check ops

/-- A sequence of calls, and the trades each returned, in order. -/
def run : List (Call ω) → SingleExchange β ρ ω τ → SingleExchange β ρ ω τ × List τ
  | [], e => (e, [])
  | call :: calls, e =>
    let (e, executed) := e.step ops call
    let (e, rest) := run calls e
    (e, executed ++ rest)

/-- A call appends to the trade log exactly the trades it returns. -/
theorem step_tradeLog (e : SingleExchange β ρ ω τ) (call : Call ω) :
    (e.step ops call).1.tradeLog = e.tradeLog ++ (e.step ops call).2 := by
  cases call <;> simp [step, insertOrder, deleteOrder, clearOrdersBySymbol, check]

/-- `check` empties the buffer. -/
theorem check_orderBuffer (e : SingleExchange β ρ ω τ) : (e.check ops).1.orderBuffer = [] := rfl

/-- The trade log after a run is the log before it and then every trade the run returned. -/
theorem run_tradeLog (calls : List (Call ω)) (e : SingleExchange β ρ ω τ) :
    (run ops calls e).1.tradeLog = e.tradeLog ++ (run ops calls e).2 := by
  induction calls generalizing e with
  | nil => simp [run]
  | cons call calls ih =>
    simp only [run, ih, step_tradeLog, List.append_assoc]

/-! ### The buffer -/

/-- The orders a call hands to the order book: `check` inserts the whole buffer. -/
def handed (e : SingleExchange β ρ ω τ) : Call ω → List ω
  | .check => e.orderBuffer
  | _ => []

/-- The orders a run hands to the order book, in order. -/
def runHanded : List (Call ω) → SingleExchange β ρ ω τ → List ω
  | [], _ => []
  | call :: calls, e => e.handed call ++ runHanded calls (e.step ops call).1

/-- A call moves the buffer: it hands some to the book and receives some. -/
theorem handed_step (e : SingleExchange β ρ ω τ) (call : Call ω) :
    e.handed call ++ (e.step ops call).1.orderBuffer = e.orderBuffer ++ call.received := by
  cases call <;> simp [handed, Call.received, step, insertOrder, deleteOrder, clearOrdersBySymbol,
    check]

/-- Only `check` moves the clock. -/
theorem step_clock (e : SingleExchange β ρ ω τ) {call : Call ω} (h : call ≠ .check) :
    (e.step ops call).1.clock = e.clock := by
  cases call <;> first | rfl | exact absurd rfl h

theorem run_append (calls calls' : List (Call ω)) (e : SingleExchange β ρ ω τ) :
    (run ops (calls ++ calls') e).1 = (run ops calls' (run ops calls e).1).1 := by
  induction calls generalizing e with
  | nil => rfl
  | cons call calls ih => exact ih _

/-- Without a `check`, a run hands nothing to the book and leaves the clock where it is. -/
theorem runHanded_of_check_not_mem {calls : List (Call ω)} (h : Call.check ∉ calls)
    (e : SingleExchange β ρ ω τ) :
    runHanded ops calls e = [] ∧ (run ops calls e).1.clock = e.clock := by
  induction calls generalizing e with
  | nil => exact ⟨rfl, rfl⟩
  | cons call calls ih =>
    have hcall : call ≠ .check := fun hc => h (hc ▸ List.mem_cons_self _ _)
    obtain ⟨hrun, hclock⟩ := ih (fun hc => h (List.mem_cons_of_mem _ hc)) (e.step ops call).1
    refine ⟨?_, hclock.trans (step_clock ops e hcall)⟩
    cases call <;> first | exact absurd rfl hcall | exact hrun

/-- No order is lost or duplicated in the buffer.  For every order book, every exchange and
every sequence of calls: the orders handed to the book, then those still buffered, are the
orders buffered at the start, then the orders the calls received, in arrival order. -/
theorem runHanded_orderBuffer (calls : List (Call ω)) (e : SingleExchange β ρ ω τ) :
    runHanded ops calls e ++ (run ops calls e).1.orderBuffer =
      e.orderBuffer ++ calls.flatMap Call.received := by
  induction calls generalizing e with
  | nil => simp [runHanded, run]
  | cons call calls ih =>
    simp only [runHanded, run, List.append_assoc, ih, List.flatMap_cons]
    rw [← List.append_assoc, handed_step, List.append_assoc]

/-- No lookahead.  For every order book, every exchange and every run: an order received after
the calls `pre` is not handed to the book by the calls `mid` that follow it without a `check`;
it is in the buffer the next `check` hands to the book, with the clock of its arrival; and that
check executes at a later time than the arrival, unless the clock has run out. -/
theorem insertOrder_handed_next_check (pre mid : List (Call ω)) (order : ω)
    (e : SingleExchange β ρ ω τ) (hmid : Call.check ∉ mid) :
    runHanded ops (.insertOrder order :: mid) (run ops pre e).1 = [] ∧
      order ∈ (run ops (pre ++ .insertOrder order :: mid) e).1.handed .check ∧
      (run ops (pre ++ .insertOrder order :: mid) e).1.clock = (run ops pre e).1.clock ∧
      ((run ops pre e).1.clock.hasNext = true →
        (run ops pre e).1.clock.now <
          ((run ops (pre ++ .insertOrder order :: mid) e).1.step ops .check).1.clock.now) := by
  have hcalls : Call.check ∉ (Call.insertOrder order :: mid) := by
    simpa [List.mem_cons] using hmid
  obtain ⟨hnone, hclock⟩ := runHanded_of_check_not_mem ops hcalls (run ops pre e).1
  have hbuffer := runHanded_orderBuffer ops (.insertOrder order :: mid) (run ops pre e).1
  rw [hnone, List.nil_append] at hbuffer
  rw [run_append]
  refine ⟨hnone, ?_, hclock, fun hnext => ?_⟩
  · simp [handed, hbuffer, Call.received]
  · simp only [step, check]
    rw [hclock]
    exact Clock.now_lt_now_tick_getD hnext

/-- A book that keeps the orders inserted into it: deletion and execution leave it as it is,
and a check returns no trades. -/
def keepBook : OrderBookOps (List Nat) Unit Nat Nat :=
  ⟨[], fun book order => book ++ [order], fun book _ => book, fun book _ => book,
    fun book _ _ => (book, [])⟩

/-- A fresh exchange over `keepBook`, at the first of the times 100 and 101. -/
def keepExchange : SingleExchange (List Nat) Unit Nat Nat :=
  new keepBook ⟨[100, 101], 0, .second, by decide, by decide⟩ ()

theorem insertOrder_handed_next_check_keep :
    (Call.check : Call Nat) ∉ [.deleteOrder 0] ∧
      runHanded keepBook [.insertOrder 7, .deleteOrder 0] (run keepBook [] keepExchange).1 = [] ∧
      7 ∈ (run keepBook ([] ++ [.insertOrder 7, .deleteOrder 0]) keepExchange).1.handed .check ∧
      (run keepBook ([] ++ [.insertOrder 7, .deleteOrder 0]) keepExchange).1.clock =
        (run keepBook [] keepExchange).1.clock ∧
      ((run keepBook [] keepExchange).1.clock.hasNext = true →
        (run keepBook [] keepExchange).1.clock.now <
          ((run keepBook ([] ++ [.insertOrder 7, .deleteOrder 0]) keepExchange).1.step keepBook
            .check).1.clock.now) :=
  have hmid : (Call.check : Call Nat) ∉ [.deleteOrder 0] := by simp
  ⟨hmid, insertOrder_handed_next_check keepBook [] [.deleteOrder 0] 7 keepExchange hmid⟩

/-- Polling the trade log.  For every order book, every exchange and every sequence of calls:
fetching the trades from the length the log had before the calls returns exactly the trades
the calls executed, in order; fetching from past the end of the log panics. -/
theorem fetchTrades_run (calls : List (Call ω)) (e : SingleExchange β ρ ω τ) («from» : Nat) :
    (run ops calls e).1.fetchTrades e.tradeLog.length = some (run ops calls e).2 ∧
      ((run ops calls e).1.fetchTrades «from» = none ↔
        (run ops calls e).1.tradeLog.length < «from») := by
  have hlen : e.tradeLog.length ≤ (run ops calls e).1.tradeLog.length := by
    rw [run_tradeLog, List.length_append]
    exact Nat.le_add_right _ _
  refine ⟨?_, ?_⟩
  · rw [fetchTrades, if_pos hlen, run_tradeLog, List.drop_left]
  · unfold fetchTrades
    split_ifs with h
    · exact iff_of_false id (Nat.not_lt.mpr h)
    · exact iff_of_true rfl (Nat.lt_of_not_le h)

end SingleExchange

end Alator.Single
