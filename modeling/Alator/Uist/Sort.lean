import Alator.Uist.Types
import Mathlib.Data.List.Basic

/-!
# Sorting the order buffer

`UistV1::sort_order_buffer` sorts the buffer with `slice::sort_by` and the comparator
`|a, _b| match a.get_order_type() { LimitSell | StopSell | MarketSell => Less, _ => Greater }`,
which reads only its first argument.  It is not an order: two sells compare `Less` both ways.

std's stable sort asks `is_less a b := compare a b == Less`, and on a slice of at most 20
elements it runs `insertion_sort_shift_left`: each element in turn moves left through the
sorted prefix while it `is_less` than its left neighbour.  `sortBy` is that insertion sort on
lists.  Longer slices go through std's driftsort, which is not modelled: `sortBy` stands for
`sort_by` at every length, and what is proved of the order a tick stamps in is stated for
buffers of at most 20 orders (`sellsFirst_tick`).

With this comparator a sell is `is_less` than anything and travels to the front, while a buy
never moves.  `sortOrderBuffer_eq` shows what comes out: the sells in *reverse* arrival order,
then the buys in arrival order.
-/

namespace Alator.Uist

variable {α : Type}

/-- `insert_tail` of std's insertion sort, on the sorted prefix kept last element first: the
new element moves left while it `is_less` than its neighbour. -/
def insertTail (isLess : α → α → Bool) (x : α) : List α → List α
  | [] => [x]
  | y :: ys => if isLess x y then y :: insertTail isLess x ys else x :: y :: ys

/-- std's `insertion_sort_shift_left`, the `slice::sort_by` of a short slice, with
`is_less a b := compare a b == Less`. -/
def sortBy (compare : α → α → Ordering) (v : List α) : List α :=
  (v.foldl (fun sorted x => insertTail (fun a b => compare a b == .lt) x sorted) []).reverse

/-- The sell-side order types, which the comparator of `sort_order_buffer` puts first. -/
def OrderType.isSell : OrderType → Bool
  | .limitSell | .stopSell | .marketSell => true
  | _ => false

/-- The comparator of `sort_order_buffer`; it ignores its second argument. -/
def bufferCompare (a _b : Order) : Ordering :=
  match a.orderType with
  | .limitSell | .stopSell | .marketSell => .lt
  | _ => .gt

/-- `UistV1::sort_order_buffer`. -/
def sortOrderBuffer (orderBuffer : List Order) : List Order := sortBy bufferCompare orderBuffer

theorem insertTail_of_forall {isLess : α → α → Bool} {x : α} (h : ∀ y, isLess x y = true)
    (l : List α) : insertTail isLess x l = l ++ [x] := by
  induction l with
  | nil => rfl
  | cons y ys ih => simp [insertTail, h, ih]

theorem bufferCompare_eq_lt (a b : Order) :
    (bufferCompare a b == .lt) = a.orderType.isSell := by
  obtain ⟨_, t, _, _, _⟩ := a
  cases t <;> rfl

/-- The loop of the insertion sort, from a prefix already sorted into buys (reversed) and
sells: sells join the sells at the end, buys the buys at the front. -/
theorem foldl_insertTail_bufferCompare (l B S : List Order) :
    l.foldl (fun sorted x => insertTail (fun a b => bufferCompare a b == .lt) x sorted)
        (B.reverse ++ S) =
      (B ++ l.filter fun o => !o.orderType.isSell).reverse ++
        (S ++ l.filter fun o => o.orderType.isSell) := by
  induction l generalizing B S with
  | nil => simp
  | cons x l ih =>
    rw [List.foldl_cons]
    cases hx : x.orderType.isSell
    · -- a buy stays where it is, at the end of the sorted prefix
      have : insertTail (fun a b => bufferCompare a b == .lt) x (B.reverse ++ S) =
          (B ++ [x]).reverse ++ S := by
        cases h : B.reverse ++ S <;> simp_all [insertTail, bufferCompare_eq_lt]
      rw [this, ih]
      simp [hx]
    · -- a sell travels to the front
      rw [insertTail_of_forall (fun y => by rw [bufferCompare_eq_lt, hx]), List.append_assoc,
        ih]
      simp [hx]

/-- What `sort_order_buffer` leaves in the buffer: the sells in reverse arrival order, then
the buys in arrival order. -/
theorem sortOrderBuffer_eq (orderBuffer : List Order) :
    sortOrderBuffer orderBuffer =
      (orderBuffer.filter fun o => o.orderType.isSell).reverse ++
        orderBuffer.filter fun o => !o.orderType.isSell := by
  have := foldl_insertTail_bufferCompare orderBuffer [] []
  simp only [List.reverse_nil, List.append_nil, List.nil_append] at this
  simp [sortOrderBuffer, sortBy, this]

end Alator.Uist
