import Alator.Http.Jura

/-!
# Isolation of backtests

Every request on one backtest (`tick`, `fetch_quotes`, `insert_order`, `delete_order`) reads
that backtest and the datasets, and at most replaces that backtest: `onBacktest` says this
once, and `tick_eq` and `withExchange_eq` put the code's functions in that form.  The frame
lemma `handle_backtests_ne` and the locality lemma `handle_congr` follow, and from them, by
induction over the requests, what backtest `b` ends with and the replies it gets depend only
on the requests on `b` (`serve_filter`).

Requests create no keys and keep `last`, so on every state reached without `init`
(`ReachableWithoutInit`) the id `new_backtest` returns is fresh (`newBacktest_id_fresh`).
-/

namespace Alator.Http

/-- The requests on one backtest. -/
inductive Request (O : Type)
  | tick (backtestId : Nat)
  | fetchQuotes (backtestId : Nat)
  | insertOrder (order : O) (backtestId : Nat)
  | deleteOrder (asset orderId backtestId : Nat)

/-- The backtest a request is on. -/
def Request.backtestId {O : Type} : Request O → Nat
  | .tick k | .fetchQuotes k | .insertOrder _ k | .deleteOrder _ _ k => k

/-- What a request returns when it finds its backtest. -/
inductive Reply (Q F O : Type)
  | tick (res : List F × List O × List Nat)
  | quotes (quotes : Q)
  | done

/-- The replies a run gives to the requests on backtest `b`, in order. -/
def repliesTo {O R : Type} (b : Nat) (reqs : List (Request O)) (replies : List R) : List R :=
  ((reqs.zip replies).filter fun p => p.1.backtestId == b).map (·.2)

@[simp] theorem repliesTo_cons {O R : Type} (b : Nat) (r : Request O) (rs : List (Request O))
    (a : R) (as : List R) :
    repliesTo b (r :: rs) (a :: as) =
      if r.backtestId = b then a :: repliesTo b rs as else repliesTo b rs as := by
  by_cases h : r.backtestId = b <;> simp [repliesTo, List.filter_cons, h]

namespace AppState

variable {E P Q F O R : Type} (c : Calls E P Q F O)

/-- A request on backtest `k` whose outcome `g` depends only on that backtest and the
datasets: when `g` gives a new backtest and a reply, the backtest is replaced. -/
def onBacktest (s : AppState E P) (k : Nat)
    (g : BacktestState E → (String → Option P) → Option (BacktestState E × R)) :
    AppState E P × Option R :=
  match (s.backtests k).bind fun backtest => g backtest s.datasets with
  | none => (s, none)
  | some (backtest, r) => ({ s with backtests := Function.update s.backtests k (some backtest) },
      some r)

/-- What `tick` does to a backtest, given the datasets. -/
def tickOn (backtest : BacktestState E) (datasets : String → Option P) :
    Option (BacktestState E × List F × List O × List Nat) :=
  (datasets backtest.datasetName).bind fun dataset =>
    (c.getQuotes dataset backtest.date).map fun quotes =>
      ({ backtest with
          exchange := (c.tick backtest.exchange quotes).1
          date := c.getNextDate dataset backtest.date },
        (c.tick backtest.exchange quotes).2)

theorem tick_eq (s : AppState E P) (k : Nat) : s.tick c k = s.onBacktest k (tickOn c) := by
  unfold tick onBacktest tickOn
  cases s.backtests k with
  | none => rfl
  | some backtest =>
    dsimp only [Option.some_bind]
    cases s.datasets backtest.datasetName with
    | none => rfl
    | some dataset =>
      dsimp only [Option.some_bind]
      cases c.getQuotes dataset backtest.date <;> rfl

theorem withExchange_eq (s : AppState E P) (k : Nat) (f : E → E) :
    s.withExchange k f = s.onBacktest k fun backtest _ =>
      some ({ backtest with exchange := f backtest.exchange }, ()) := by
  unfold withExchange onBacktest
  cases s.backtests k <;> rfl

/-- One request. -/
def handle (s : AppState E P) : Request O → AppState E P × Option (Reply Q F O)
  | .tick k => Prod.map id (Option.map .tick) (s.tick c k)
  | .fetchQuotes k => (s, (s.fetchQuotes c k).map .quotes)
  | .insertOrder order k => Prod.map id (Option.map fun _ => .done) (s.insertOrder c order k)
  | .deleteOrder asset orderId k =>
    Prod.map id (Option.map fun _ => .done) (s.deleteOrder c asset orderId k)

/-- Requests one after the other, with the reply to each. -/
def serve (s : AppState E P) : List (Request O) → AppState E P × List (Option (Reply Q F O))
  | [] => (s, [])
  | r :: rs => Prod.map id ((s.handle c r).2 :: ·) ((s.handle c r).1.serve rs)

/-! ### One request touches one backtest -/

section onBacktest

variable {g : BacktestState E → (String → Option P) → Option (BacktestState E × R)}

theorem onBacktest_datasets (s : AppState E P) (k : Nat) :
    (s.onBacktest k g).1.datasets = s.datasets := by
  unfold onBacktest; split <;> rfl

theorem onBacktest_backtests_ne (s : AppState E P) {j k : Nat} (h : j ≠ k) :
    (s.onBacktest k g).1.backtests j = s.backtests j := by
  unfold onBacktest; split
  · rfl
  · exact Function.update_noteq h _ _

theorem onBacktest_congr {s t : AppState E P} {k : Nat} (hb : s.backtests k = t.backtests k)
    (hd : s.datasets = t.datasets) :
    (s.onBacktest k g).1.backtests k = (t.onBacktest k g).1.backtests k ∧
      (s.onBacktest k g).2 = (t.onBacktest k g).2 := by
  unfold onBacktest
  rw [hb, hd]
  split <;> simp [hb]

theorem onBacktest_absent (s : AppState E P) {k : Nat} (h : s.backtests k = none) :
    s.onBacktest k g = (s, none) := by
  simp [onBacktest, h]

end onBacktest

variable {c}

/-- Every request, in the form `onBacktest` describes, apart from `fetch_quotes`, which
changes nothing. -/
theorem handle_eq (r : Request O) :
    (∃ (R : Type) (g : BacktestState E → (String → Option P) → Option (BacktestState E × R))
      (reply : R → Reply Q F O), ∀ s : AppState E P,
      s.handle c r = Prod.map id (Option.map reply) (s.onBacktest r.backtestId g)) ∨
    ∃ k, r = .fetchQuotes k := by
  cases r with
  | tick k => exact .inl ⟨_, _, _, fun s => by rw [handle, tick_eq]; rfl⟩
  | fetchQuotes k => exact .inr ⟨k, rfl⟩
  | insertOrder o k =>
    exact .inl ⟨_, _, _, fun s => by rw [handle, insertOrder, withExchange_eq]; rfl⟩
  | deleteOrder a i k =>
    exact .inl ⟨_, _, _, fun s => by rw [handle, deleteOrder, withExchange_eq]; rfl⟩

theorem handle_datasets (s : AppState E P) (r : Request O) :
    (s.handle c r).1.datasets = s.datasets := by
  rcases handle_eq (c := c) r with ⟨R, g, reply, h⟩ | ⟨k, rfl⟩
  · rw [h]; exact onBacktest_datasets s _
  · rfl

theorem handle_backtests_ne (s : AppState E P) (r : Request O) {j : Nat} (hj : j ≠ r.backtestId) :
    (s.handle c r).1.backtests j = s.backtests j := by
  rcases handle_eq (c := c) r with ⟨R, g, reply, h⟩ | ⟨k, rfl⟩
  · rw [h]; exact onBacktest_backtests_ne s hj
  · rfl

theorem handle_congr {s t : AppState E P} (r : Request O)
    (hb : s.backtests r.backtestId = t.backtests r.backtestId) (hd : s.datasets = t.datasets) :
    (s.handle c r).1.backtests r.backtestId = (t.handle c r).1.backtests r.backtestId ∧
      (s.handle c r).2 = (t.handle c r).2 := by
  rcases handle_eq (c := c) r with ⟨R, g, reply, h⟩ | ⟨k, rfl⟩
  · obtain ⟨h₁, h₂⟩ := onBacktest_congr (g := g) hb hd
    rw [h s, h t]
    exact ⟨h₁, by simp only [Prod.map, h₂]⟩
  · have hb : s.backtests k = t.backtests k := hb
    exact ⟨hb, by simp only [handle, fetchQuotes, hd, hb]⟩

theorem handle_absent (s : AppState E P) (r : Request O) (h : s.backtests r.backtestId = none) :
    s.handle c r = (s, none) := by
  rcases handle_eq (c := c) r with ⟨R, g, reply, he⟩ | ⟨k, rfl⟩
  · rw [he, onBacktest_absent s h]; rfl
  · simp [handle, fetchQuotes, show s.backtests k = none from h]

/-! ### Runs -/

theorem serve_datasets (s : AppState E P) (reqs : List (Request O)) :
    (s.serve c reqs).1.datasets = s.datasets := by
  induction reqs generalizing s with
  | nil => rfl
  | cons r rs ih => exact (ih _).trans (handle_datasets s r)

/-- What backtest `b` ends with, and the replies to its requests, depend only on its own
requests and on what the run starts from at `b` and in the datasets. -/
theorem serve_filter {s t : AppState E P} (b : Nat) (reqs : List (Request O))
    (hb : s.backtests b = t.backtests b) (hd : s.datasets = t.datasets) :
    (s.serve c reqs).1.backtests b =
        (t.serve c (reqs.filter fun r => r.backtestId == b)).1.backtests b ∧
      repliesTo b reqs (s.serve c reqs).2 =
        (t.serve c (reqs.filter fun r => r.backtestId == b)).2 := by
  induction reqs generalizing s t with
  | nil => exact ⟨hb, rfl⟩
  | cons r rs ih =>
    have hd' : (s.handle c r).1.datasets = t.datasets := (handle_datasets s r).trans hd
    by_cases hr : r.backtestId = b
    · -- a request on `b`: both runs take it
      subst hr
      obtain ⟨h₁, h₂⟩ := handle_congr r hb hd
      obtain ⟨ih₁, ih₂⟩ := ih h₁ (hd'.trans (handle_datasets t r).symm)
      rw [List.filter_cons_of_pos (by simp)]
      simp only [serve, Prod.map, id, repliesTo_cons, if_true, h₂]
      exact ⟨ih₁, by rw [ih₂]⟩
    · -- a request on another backtest: `b` does not see it
      obtain ⟨ih₁, ih₂⟩ := ih ((handle_backtests_ne s r (Ne.symm hr)).trans hb) hd'
      rw [List.filter_cons_of_neg (by simpa using hr)]
      simp only [serve, Prod.map, id, repliesTo_cons, if_neg hr]
      exact ⟨ih₁, ih₂⟩

/-- Isolation.  Two runs of requests from any state, whose requests on backtest `b` are the
same in the same order, leave `b` and the datasets the same and give `b` the same replies;
a request on an id that is not a key returns `None` and changes nothing. -/
theorem session_isolation (s : AppState E P) (b : Nat) (reqs₁ reqs₂ : List (Request O))
    (h : reqs₁.filter (fun r => r.backtestId == b) = reqs₂.filter fun r => r.backtestId == b) :
    (s.serve c reqs₁).1.backtests b = (s.serve c reqs₂).1.backtests b ∧
      (s.serve c reqs₁).1.datasets = s.datasets ∧ (s.serve c reqs₂).1.datasets = s.datasets ∧
      repliesTo b reqs₁ (s.serve c reqs₁).2 = repliesTo b reqs₂ (s.serve c reqs₂).2 ∧
      ∀ r : Request O, s.backtests r.backtestId = none → s.handle c r = (s, none) := by
  obtain ⟨h₁, r₁⟩ := serve_filter (c := c) (t := s) b reqs₁ rfl rfl
  obtain ⟨h₂, r₂⟩ := serve_filter (c := c) (t := s) b reqs₂ rfl rfl
  rw [h] at h₁ r₁
  exact ⟨h₁.trans h₂.symm, serve_datasets s reqs₁, serve_datasets s reqs₂, r₁.trans r₂.symm,
    handle_absent s⟩

/-! ### Creation by `new_backtest` alone -/

theorem onBacktest_keys {g : BacktestState E → (String → Option P) → Option (BacktestState E × R)}
    (s : AppState E P) (k j : Nat) :
    ((s.onBacktest k g).1.backtests j).isSome = (s.backtests j).isSome ∧
      (s.onBacktest k g).1.last = s.last := by
  unfold onBacktest
  split
  · exact ⟨rfl, rfl⟩
  · rename_i h
    refine ⟨?_, rfl⟩
    by_cases hj : j = k
    · subst hj
      obtain ⟨b, hb, -⟩ := Option.bind_eq_some.mp h
      simp [hb]
    · simp [Function.update_noteq hj]

/-- A request on one backtest creates no key and keeps `last`. -/
theorem Fresh.handle {s : AppState E P} (h : s.Fresh) (r : Request O) : (s.handle c r).1.Fresh := by
  rcases handle_eq (c := c) r with ⟨R, g, reply, he⟩ | ⟨k, rfl⟩
  · intro j hj
    obtain ⟨hkey, hlast⟩ := onBacktest_keys (g := g) s r.backtestId j
    rw [he] at hj ⊢
    simp only [Prod.map, id, hlast] at hj ⊢
    exact h j (Option.isSome_iff_ne_none.mp (hkey ▸ Option.isSome_iff_ne_none.mpr hj))
  · exact h

variable (c)

/-- The states the server reaches from `create` or `single` by `new_backtest` and requests on
one backtest, without `init`. -/
inductive ReachableWithoutInit : AppState E P → Prop
  | create (datasets : String → Option P) : ReachableWithoutInit (create datasets)
  | single (name : String) (data : P) : ReachableWithoutInit (single c name data)
  | newBacktest {s s' : AppState E P} {name : String} {id : Option Nat} :
      ReachableWithoutInit s → s.newBacktest c name = some (s', id) → ReachableWithoutInit s'
  | request {s : AppState E P} (r : Request O) :
      ReachableWithoutInit s → ReachableWithoutInit (s.handle c r).1

variable {c}

theorem ReachableWithoutInit.fresh {s : AppState E P} (h : ReachableWithoutInit c s) :
    s.Fresh := by
  induction h with
  | create datasets => exact fresh_create datasets
  | single name data => exact fresh_single c name data
  | @newBacktest s s' name id _ hs ih =>
    cases id with
    | none =>
      obtain ⟨newId, -, hm⟩ := Option.map_eq_some'.mp hs
      split at hm
      · cases hm; exact ih
      · cases hm
    | some id => exact (newBacktest_fresh ih hs).2.1
  | request r _ ih => exact ih.handle r

/-- A run of requests keeps a state reachable without `init`. -/
theorem ReachableWithoutInit.serve {s : AppState E P} (h : ReachableWithoutInit c s)
    (reqs : List (Request O)) : ReachableWithoutInit c (s.serve c reqs).1 := by
  induction reqs generalizing s with
  | nil => exact h
  | cons r rs ih => exact ih (.request r h)

/-- Without `init`, session ids are fresh: on every state reached from `create` or `single`
by `new_backtest` and requests on one backtest, `new_backtest` returns an id that is not a key
and leaves every other backtest as it was. -/
theorem newBacktest_id_fresh {s s' : AppState E P} {name : String} {id : Nat}
    (h : ReachableWithoutInit c s) (hs : s.newBacktest c name = some (s', some id)) :
    s.backtests id = none ∧ ∀ k, k ≠ id → s'.backtests k = s.backtests k :=
  have hf := newBacktest_fresh h.fresh hs
  ⟨hf.1, hf.2.2⟩

end AppState

/-- A backend for examples: an exchange is the list of the orders it holds, a tick fills them
all and empties it, a dataset is the list of its dates, and the quotes of a date are the date
itself. -/
def Calls.sample : Calls (List Nat) (List Int) Int Unit Nat where
  new := []
  tick exchange _ := ([], exchange.map fun _ => (), exchange, [])
  insertOrder exchange order := exchange ++ [order]
  deleteOrder exchange _ orderId := exchange.erase orderId
  getFirstDate dataset := dataset.headD 0
  getQuotes dataset date := if date ∈ dataset then some date else none
  getNextDate _ date := date + 1

/-- The server `single` starts over that backend: backtest `0` on the dataset `"d"`. -/
def AppState.singleSample : AppState (List Nat) (List Int) := .single Calls.sample "d" [0, 1, 2]

/-- That server after `new_backtest("d")`: two live backtests, `0` and `2`. -/
def AppState.sample : AppState (List Nat) (List Int) :=
  ((AppState.singleSample.newBacktest Calls.sample "d").getD (AppState.singleSample, none)).1

/-- Requests on both backtests: orders 7 on `0` and 8 on `2`, a tick of each, then order 9
on `2`. -/
def requestsA : List (Request Nat) :=
  [.insertOrder 7 0, .insertOrder 8 2, .tick 2, .tick 0, .insertOrder 9 2]

/-- The same requests on backtest `0`, interleaved with others on `2`: order 8, then its
deletion. -/
def requestsB : List (Request Nat) :=
  [.insertOrder 8 2, .insertOrder 7 0, .deleteOrder 0 8 2, .tick 0]

/-- Backtest `0` ends the same in both runs, its tick filling order 7, while backtest `2` ends
with order 9 after the first run and empty after the second. -/
theorem session_isolation_twoSessions :
    requestsA.filter (fun r => r.backtestId == 0) =
        requestsB.filter (fun r => r.backtestId == 0) ∧
      ((AppState.sample.serve Calls.sample requestsA).1.backtests 2).map (·.exchange) =
        some [9] ∧
      ((AppState.sample.serve Calls.sample requestsB).1.backtests 2).map (·.exchange) = some [] ∧
      repliesTo 0 requestsA (AppState.sample.serve Calls.sample requestsA).2 =
        [some .done, some (.tick ([()], [7], []))] ∧
      (AppState.sample.serve Calls.sample requestsA).1.backtests 0 =
        (AppState.sample.serve Calls.sample requestsB).1.backtests 0 ∧
      (AppState.sample.serve Calls.sample requestsA).1.datasets = AppState.sample.datasets ∧
      (AppState.sample.serve Calls.sample requestsB).1.datasets = AppState.sample.datasets ∧
      repliesTo 0 requestsA (AppState.sample.serve Calls.sample requestsA).2 =
        repliesTo 0 requestsB (AppState.sample.serve Calls.sample requestsB).2 ∧
      ∀ r : Request Nat, AppState.sample.backtests r.backtestId = none →
        AppState.sample.handle Calls.sample r = (AppState.sample, none) :=
  have h : requestsA.filter (fun r => r.backtestId == 0) =
      requestsB.filter (fun r => r.backtestId == 0) := rfl
  ⟨h, rfl, rfl, rfl, AppState.session_isolation (c := Calls.sample) AppState.sample 0 _ _ h⟩

/-- After those requests on both backtests, `new_backtest` returns `3`, which is free, and
leaves backtests `0` and `2` as they were. -/
theorem newBacktest_id_fresh_served :
    ∃ s', (AppState.sample.serve Calls.sample requestsA).1.newBacktest Calls.sample "d" =
        some (s', some 3) ∧
      (AppState.sample.serve Calls.sample requestsA).1.backtests 3 = none ∧
      ∀ k, k ≠ 3 →
        s'.backtests k = (AppState.sample.serve Calls.sample requestsA).1.backtests k :=
  have h₁ : AppState.singleSample.newBacktest Calls.sample "d" = some (AppState.sample, some 2) :=
    rfl
  have hr : AppState.ReachableWithoutInit Calls.sample
      (AppState.sample.serve Calls.sample requestsA).1 :=
    (AppState.ReachableWithoutInit.newBacktest (.single "d" [0, 1, 2]) h₁).serve requestsA
  have hn : (AppState.sample.serve Calls.sample requestsA).1.newBacktest Calls.sample "d" =
      some (_, some 3) := rfl
  ⟨_, hn, AppState.newBacktest_id_fresh hr hn⟩

end Alator.Http
