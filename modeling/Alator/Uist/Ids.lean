import Alator.Uist.Exchange

/-!
# Order ids over whole runs

The book stamps each order with the counter `last_inserted` when a tick moves it out of the
buffer.  Over any run from a fresh exchange:

* the book keeps `IdInv`: its orders are stamped below the counter, with ids strictly
  increasing along the queue;
* the counter never decreases, and the ids the ticks report as stamped are `0, 1, 2, …` in
  order, so no id is handed out twice;
* the `unwrap` of an id in `execute_orders` never fails: a tick fails only when stamping the
  buffer would overflow the `u64` counter.
-/

namespace Alator.Uist

open OrderBook

theorem map_orderId_stamp (n : Nat) (l : List Order) :
    (stamp n l).map Order.orderId = (List.range' n l.length).map some := by
  induction l generalizing n with
  | nil => rfl
  | cons o l ih => simp [stamp, List.range'_succ, ih]

theorem range'_append_range' {a b c : Nat} (hab : a ≤ b) (hbc : b ≤ c) :
    List.range' a (b - a) ++ List.range' b (c - b) = List.range' a (c - a) := by
  obtain ⟨d, rfl⟩ := Nat.exists_eq_add_of_le hab
  obtain ⟨e, rfl⟩ := Nat.exists_eq_add_of_le hbc
  have := List.range'_append a d e 1
  rw [Nat.one_mul] at this
  rw [Nat.add_sub_cancel_left, Nat.add_sub_cancel_left, this]
  congr 1
  omega

namespace UistV1

variable {s s' : UistV1} {op : Op} {r : Response}

/-- One step moves the counter past exactly the ids it reports as stamped. -/
theorem step_insertedOrders (h : s.orderbook.IdInv) (hs : s.step op = some (s', r)) :
    s.orderbook.lastInserted ≤ s'.orderbook.lastInserted ∧
      r.insertedOrders.map Order.orderId = (List.range' s.orderbook.lastInserted
        (s'.orderbook.lastInserted - s.orderbook.lastInserted)).map some := by
  cases op with
  | insertOrder o => cases hs; simp [Response.insertedOrders, insertOrder]
  | deleteOrder k => cases hs; simp [Response.insertedOrders, deleteOrder]
  | fetchQuotes => cases hs; simp [Response.insertedOrders]
  | tick =>
    obtain ⟨-, rfl, rfl⟩ := (step_tick_eq_some h).mp hs
    simp [tickSpec, Response.insertedOrders, map_orderId_stamp, length_sortOrderBuffer]

/-- Over a run, the counter moves past exactly the ids reported as stamped, in order. -/
theorem run_insertedOrders {ops : List Op} {rs : List Response} (h : s.orderbook.IdInv)
    (hrun : s.run ops = some (s', rs)) :
    s.orderbook.lastInserted ≤ s'.orderbook.lastInserted ∧
      (rs.flatMap Response.insertedOrders).map Order.orderId = (List.range'
        s.orderbook.lastInserted (s'.orderbook.lastInserted - s.orderbook.lastInserted)).map
        some := by
  induction ops generalizing s rs with
  | nil => cases hrun; simp
  | cons op ops ih =>
    obtain ⟨s₁, r, rs₁, h₁, h₂, rfl⟩ := run_cons_eq_some.mp hrun
    obtain ⟨hle₁, hids₁⟩ := step_insertedOrders h h₁
    obtain ⟨hle₂, hids₂⟩ := ih (idInv_step h h₁) h₂
    refine ⟨hle₁.trans hle₂, ?_⟩
    rw [List.flatMap_cons, List.map_append, hids₁, hids₂, ← List.map_append,
      range'_append_range' hle₁ hle₂]

end UistV1

/-- The id discipline of the book, over every run from a fresh exchange: the book's orders are
stamped with ids below the counter that strictly increase along the queue (so they are
unique); no step decreases the counter; the ids reported by the successive ticks are exactly
`0, 1, 2, …`; and the `unwrap` of an id in `execute_orders` never fails, since a tick fails
only when stamping the buffer would overflow the `u64` counter. -/
theorem orderId_discipline (clock : Clock) (source : Penelope) (dataset : String)
    (ops : List Op) (s : UistV1) (rs : List Response)
    (hrun : (UistV1.new clock source dataset).run ops = some (s, rs)) :
    s.orderbook.IdInv ∧
      (∀ op s' r, s.step op = some (s', r) →
        s.orderbook.lastInserted ≤ s'.orderbook.lastInserted) ∧
      (rs.flatMap Response.insertedOrders).map Order.orderId =
        (List.range s.orderbook.lastInserted).map some ∧
      (s.tick = none → ¬ s.StampFits) := by
  have hi := UistV1.idInv_run IdInv.new hrun
  refine ⟨hi, fun op s' r hs => (UistV1.step_insertedOrders hi hs).1, ?_, fun hnone hfit => ?_⟩
  · simpa [List.range_eq_range'] using (UistV1.run_insertedOrders IdInv.new hrun).2
  · rw [UistV1.tick_eq hi, if_pos hfit] at hnone
    cases hnone

theorem orderId_discipline_sample :
    UistV1.setup.run sampleOps = some (sampleEnd.1, sampleEnd.2) ∧
      sampleEnd.1.orderbook.IdInv ∧
      (∀ op s' r, sampleEnd.1.step op = some (s', r) →
        sampleEnd.1.orderbook.lastInserted ≤ s'.orderbook.lastInserted) ∧
      (sampleEnd.2.flatMap Response.insertedOrders).map Order.orderId =
        (List.range sampleEnd.1.orderbook.lastInserted).map some ∧
      (sampleEnd.1.tick = none → ¬ sampleEnd.1.StampFits) :=
  have hrun : UistV1.setup.run sampleOps = some (sampleEnd.1, sampleEnd.2) := rfl
  ⟨hrun, orderId_discipline _ _ _ _ _ _ hrun⟩

end Alator.Uist
