import TradingTerminal.PaperTrading.PaperEngine

/-!
# The life of a paper order

A market order is filled or rejected as it is submitted, anything else stays pending. `cancelOrder`
does not look at the status it overwrites: finished orders stay finished exactly on the runs that
cancel pending orders only (`finishedStay_iff`). A rejected SELL has read the position of its symbol
and leaves an entry behind; the account is untouched exactly when there was one
(`rejected_untouched_iff`).
-/

namespace TradingTerminal

open Lib

namespace PaperEngine

/-! ## Reachable states -/

/-- Everything an engine's owner can do. -/
inductive Operation where
  | call (call : Call)
  | setSlippage (rate : ℚ)
  | setCommission (rate : ℚ)
  | reset (newBalance : ℚ)

def operate (e : PaperEngine) : Operation → PaperEngine
  | .call call => e.step call
  | .setSlippage rate => e.setSlippage rate
  | .setCommission rate => e.setCommission rate
  | .reset newBalance => e.reset newBalance

/-- A new engine after some operations. -/
def Reachable (e : PaperEngine) : Prop :=
  ∃ (b0 : ℚ) (ops : List Operation), e = run operate { balance := b0 } ops

/-! ## What a submission does -/

section Submission

variable {e : PaperEngine} {order : Order}

/-- The account cannot take a market order: not the cash for a BUY, not the shares for a SELL. -/
def Refused (e : PaperEngine) (order : Order) : Prop :=
  if order.isBuy then
    e.balance < slippedPrice e.slippageRate order * order.quantity +
      slippedPrice e.slippageRate order * order.quantity * e.commissionRate
  else e.getPosition order.symbol < order.quantity

/-- The positions after a refused order: a SELL creates the entry it reads. -/
def readPositions (e : PaperEngine) (order : Order) : UMap String ℚ :=
  if order.isBuy then e.positions
  else e.positions.insert order.symbol (e.getPosition order.symbol)

theorem submitOrder_pending (h : order.type ≠ "market") (now : UInt64) :
    (e.submitOrder order now).2 =
      { e with
        nextOrderId := e.nextOrderId + 1
        orders := e.orders.insert e.nextOrderId { order, timestamp := now } } := by
  simp only [submitOrder, if_neg h]

theorem submitOrder_refused (h : order.type = "market") (hno : e.Refused order) (now : UInt64) :
    (e.submitOrder order now).2 =
      { e with
        nextOrderId := e.nextOrderId + 1
        orders := e.orders.insert e.nextOrderId { order, status := "rejected", timestamp := now }
        positions := e.readPositions order } := by
  unfold Refused at hno
  unfold readPositions
  simp only [submitOrder, if_pos h, processMarketOrderLocked, AList.lookup_insert,
    AList.insert_insert, getPosition]
  cases hb : order.isBuy with
  | true =>
    rw [hb, if_pos rfl] at hno
    simp only [if_true, if_pos hno]
  | false =>
    rw [hb, if_neg Bool.false_ne_true] at hno
    simp only [Bool.false_eq_true, if_false, getPosition] at hno ⊢
    rw [if_pos hno]

/-- A market order that is not refused is stored as filled. -/
theorem submitOrder_filled (h : order.type = "market") (hyes : ¬ e.Refused order) (now : UInt64) :
    (e.submitOrder order now).2.nextOrderId = e.nextOrderId + 1 ∧
      (e.submitOrder order now).2.orders = e.orders.insert e.nextOrderId
        { order, filled := order.quantity, status := "filled", timestamp := now } := by
  unfold Refused at hyes
  simp only [submitOrder, if_pos h, processMarketOrderLocked, AList.lookup_insert,
    AList.insert_insert, getPosition]
  cases hb : order.isBuy with
  | true =>
    rw [hb, if_pos rfl] at hyes
    simp only [if_true, if_neg hyes, and_self]
  | false =>
    rw [hb, if_neg Bool.false_ne_true] at hyes
    simp only [Bool.false_eq_true, if_false, getPosition] at hyes ⊢
    rw [if_neg hyes]
    exact ⟨rfl, rfl⟩

/-- A submission stores one order under the next id; while it is pending nothing of it is filled. -/
theorem submitOrder_orders (e : PaperEngine) (order : Order) (now : UInt64) :
    (e.submitOrder order now).2.nextOrderId = e.nextOrderId + 1 ∧
      ∃ o : PaperOrder, (o.status = "pending" → o.filled = 0) ∧
        (e.submitOrder order now).2.orders = e.orders.insert e.nextOrderId o := by
  by_cases h : order.type = "market"
  · by_cases hno : e.Refused order
    · rw [submitOrder_refused h hno]
      exact ⟨rfl, _, fun _ => rfl, rfl⟩
    · obtain ⟨hnext, horders⟩ := submitOrder_filled h hno now
      refine ⟨hnext, _, fun hpending => ?_, horders⟩
      exact absurd hpending (by simp)
  · rw [submitOrder_pending h]
    exact ⟨rfl, _, fun _ => rfl, rfl⟩

end Submission

/-! ## The stored orders -/

/-- The ids stored have been handed out, and pending orders have filled nothing. -/
structure Stored (e : PaperEngine) : Prop where
  ids : ∀ id o, e.orders.lookup id = some o → id < e.nextOrderId
  pending : ∀ id o, e.orders.lookup id = some o → o.status = "pending" → o.filled = 0

theorem Stored.empty {e : PaperEngine} (h : e.orders = ∅) : e.Stored := by
  constructor <;> intro id o ho <;> rw [h] at ho <;> cases ho

theorem Stored.kept {e : PaperEngine} (h : e.Stored) (call : Call) : (e.step call).Stored := by
  cases call with
  | submit order now =>
    obtain ⟨hnext, o, ho, horders⟩ := e.submitOrder_orders order now
    constructor
    · intro id p hp
      rw [PaperEngine.step, hnext]
      rw [PaperEngine.step, horders] at hp
      by_cases hid : id = e.nextOrderId
      · omega
      · rw [AList.lookup_insert_ne hid] at hp
        have := h.ids id p hp
        omega
    · intro id p hp
      rw [PaperEngine.step, horders] at hp
      by_cases hid : id = e.nextOrderId
      · rw [hid, AList.lookup_insert] at hp
        rwa [← Option.some.inj hp]
      · rw [AList.lookup_insert_ne hid] at hp
        exact h.pending id p hp
  | cancel cancelled =>
    rcases e.cancelOrder_cases cancelled with heq | ⟨o, ho, heq⟩
    · rw [PaperEngine.step, heq]
      exact h
    · rw [PaperEngine.step, heq]
      constructor
      · intro id p hp
        by_cases hid : id = cancelled
        · rw [hid]
          exact h.ids cancelled o ho
        · rw [AList.lookup_insert_ne hid] at hp
          exact h.ids id p hp
      · intro id p hp
        by_cases hid : id = cancelled
        · rw [hid, AList.lookup_insert] at hp
          rw [← Option.some.inj hp]
          intro hstatus
          exact absurd hstatus (by simp)
        · rw [AList.lookup_insert_ne hid] at hp
          exact h.pending id p hp

theorem Reachable.stored {e : PaperEngine} (h : e.Reachable) : e.Stored := by
  obtain ⟨b0, ops, rfl⟩ := h
  apply run_invariant
  · intro e op h
    cases op with
    | call call => exact h.kept call
    | setSlippage | setCommission => exact ⟨h.ids, h.pending⟩
    | reset newBalance => exact .empty rfl
  · exact .empty rfl

/-! ## Finished orders -/

/-- A filled or a rejected order. -/
def PaperOrder.Finished (o : PaperOrder) : Prop := o.status = "filled" ∨ o.status = "rejected"

/-- What finished means on a run: filled and rejected orders keep their status, a cancellation
answers yes for pending orders only, and an order cancelled while pending stays so, unfilled. -/
structure FinishedStay (e : PaperEngine) (calls : List Call) : Prop where
  finished : ∀ earlier later id o, earlier ++ later <+: calls →
    (run step e earlier).orders.lookup id = some o → PaperOrder.Finished o →
    ∃ o', (run step e (earlier ++ later)).orders.lookup id = some o' ∧ o'.status = o.status
  answers : ∀ earlier id, earlier ++ [.cancel id] <+: calls →
    (((run step e earlier).cancelOrder id).1 = true ↔
      ∃ o, (run step e earlier).orders.lookup id = some o ∧ o.status = "pending")
  cancelled : ∀ earlier id later o, earlier ++ .cancel id :: later <+: calls →
    (run step e earlier).orders.lookup id = some o → o.status = "pending" →
    ∃ o', (run step e (earlier ++ .cancel id :: later)).orders.lookup id = some o' ∧
      o'.status = "cancelled" ∧ o'.filled = 0

/-- A stored order is cancelled only while it is pending. -/
def CancelsPending (e : PaperEngine) : Call → Prop
  | .submit .. => True
  | .cancel id => ∀ o, e.orders.lookup id = some o → o.status = "pending"

section Finished

variable {e : PaperEngine}

theorem cancelOrder_of_stored {id : Nat} {o : PaperOrder} (h : e.orders.lookup id = some o) :
    e.cancelOrder id =
      (true, { e with orders := e.orders.insert id { o with status := "cancelled" } }) := by
  simp only [cancelOrder, h]

/-- The answer to a cancellation is whether the order is stored. -/
theorem cancelOrder_answer (e : PaperEngine) (id : Nat) :
    (e.cancelOrder id).1 = true ↔ ∃ o, e.orders.lookup id = some o := by
  cases h : e.orders.lookup id with
  | none => simp [cancelOrder, h]
  | some o => simp [cancelOrder_of_stored h]

/-- An order that is not pending is left alone by calls that cancel pending orders only. -/
theorem Stored.lookup_step (h : e.Stored) {call : Call} (hcall : CancelsPending e call) {id : Nat}
    {o : PaperOrder} (ho : e.orders.lookup id = some o) (hdone : o.status ≠ "pending") :
    (e.step call).orders.lookup id = some o := by
  cases call with
  | submit order now =>
    obtain ⟨-, p, -, horders⟩ := e.submitOrder_orders order now
    have hid : id ≠ e.nextOrderId := (h.ids id o ho).ne
    rw [PaperEngine.step, horders, AList.lookup_insert_ne hid, ho]
  | cancel cancelled =>
    rcases e.cancelOrder_cases cancelled with heq | ⟨p, hp, heq⟩
    · rw [PaperEngine.step, heq, ho]
    · have hid : id ≠ cancelled := by
        rintro rfl
        exact hdone (hcall o ho)
      rw [PaperEngine.step, heq, AList.lookup_insert_ne hid, ho]

theorem Stored.lookup_run (h : e.Stored) {calls : List Call} (hcalls : Guarded step CancelsPending e calls)
    {id : Nat} {o : PaperOrder} (ho : e.orders.lookup id = some o) (hdone : o.status ≠ "pending") :
    (run step e calls).orders.lookup id = some o := by
  induction calls generalizing e with
  | nil => exact ho
  | cons call calls ih =>
    obtain ⟨hcall, hrest⟩ := guarded_cons.1 hcalls
    exact ih (h.kept call) hrest (h.lookup_step hcall ho hdone)

theorem Stored.kept_run (h : e.Stored) (calls : List Call) : (run step e calls).Stored :=
  run_invariant (fun _ call h => h.kept call) h calls

/-- The guard of a run is the guard of what is left of it. -/
theorem guarded_suffix {earlier later calls : List Call} (hcalls : Guarded step CancelsPending e calls)
    (hsplit : earlier ++ later <+: calls) :
    Guarded step CancelsPending (run step e earlier) later := by
  intro ys x hys
  rw [← run_append]
  apply hcalls
  rw [List.append_assoc]
  exact ((List.prefix_append_right_inj earlier).2 hys).trans hsplit

theorem Stored.finishedStay (h : e.Stored) {calls : List Call}
    (hcalls : Guarded step CancelsPending e calls) : FinishedStay e calls := by
  constructor
  · intro earlier later id o hsplit ho hfinished
    refine ⟨o, ?_, rfl⟩
    rw [run_append]
    refine (h.kept_run earlier).lookup_run (guarded_suffix hcalls hsplit) ho ?_
    rcases hfinished with hstatus | hstatus <;> rw [hstatus] <;> simp
  · intro earlier id hsplit
    rw [cancelOrder_answer]
    constructor
    · rintro ⟨o, ho⟩
      exact ⟨o, ho, hcalls earlier (.cancel id) hsplit o ho⟩
    · rintro ⟨o, ho, -⟩
      exact ⟨o, ho⟩
  · intro earlier id later o hsplit ho hpending
    have hstored := h.kept_run earlier
    have hrest := (guarded_cons.1 (guarded_suffix hcalls hsplit)).2
    refine ⟨{ o with status := "cancelled" }, ?_, rfl, hstored.pending id o ho hpending⟩
    rw [run_append, run_cons]
    refine (hstored.kept (.cancel id)).lookup_run hrest ?_ (by simp)
    rw [PaperEngine.step, cancelOrder_of_stored ho, AList.lookup_insert]

/-- **Finished orders stay finished.** From every reachable state and over every run of submissions
and cancellations, finished orders stay finished and only pending ones are cancelled, for good, if
and only if every cancellation of a stored order finds it pending. -/
theorem finishedStay_iff (h : e.Reachable) (calls : List Call) :
    FinishedStay e calls ↔ Guarded step CancelsPending e calls := by
  constructor
  · intro hstay earlier call hsplit
    cases call with
    | submit => trivial
    | cancel id =>
      intro o ho
      obtain ⟨p, hp, hpending⟩ := (hstay.answers earlier id hsplit).1
        ((cancelOrder_answer _ id).2 ⟨o, ho⟩)
      rwa [Option.some.inj (ho.symm.trans hp)]
  · exact h.stored.finishedStay

section FilledOrder

def buyAt100 (type : String) : Order := { symbol := "AAPL", price := 100, quantity := 5, type }

theorem reachable_new (b0 : ℚ) : Reachable { balance := b0 } := ⟨b0, [], rfl⟩

/-- A filled order is cancelled, with the answer yes. -/
theorem cancelFilled_not_finishedStay :
    Reachable { balance := 100000 } ∧
      ¬ FinishedStay { balance := 100000 } [.submit (buyAt100 "market") 0, .cancel 1] := by
  refine ⟨reachable_new 100000, fun h => ?_⟩
  obtain ⟨o, ho, hpending⟩ :=
    (h.answers [.submit (buyAt100 "market") 0] 1 (List.prefix_refl _)).1 (by decide +kernel)
  have hstatus : ((run step { balance := 100000 } [.submit (buyAt100 "market") 0]).orders.lookup 1).map
      PaperOrder.status = some "filled" := by
    decide +kernel
  rw [ho, Option.map_some, hpending] at hstatus
  exact absurd (Option.some.inj hstatus) (by decide)

/-- A limit order is cancelled while it is pending. -/
theorem cancelPending_finishedStay :
    FinishedStay { balance := 100000 } [.submit (buyAt100 "limit") 0, .cancel 1] := by
  refine (finishedStay_iff (reachable_new 100000) _).2 ?_
  refine guarded_cons.2 ⟨trivial, guarded_cons.2 ⟨fun o ho => ?_, guarded_nil⟩⟩
  have hstatus : ((step { balance := 100000 } (.submit (buyAt100 "limit") 0)).orders.lookup 1).map
      PaperOrder.status = some "pending" := by
    decide +kernel
  rw [ho] at hstatus
  exact Option.some.inj hstatus

end FilledOrder

end Finished

/-! ## Rejected orders -/

/-- The order submitted ends as rejected. -/
def EndsRejected (e : PaperEngine) (order : Order) (now : UInt64) : Prop :=
  ∃ o, (e.submitOrder order now).2.orders.lookup (e.submitOrder order now).1 = some o ∧
    o.status = "rejected"

/-- The account reads as before, and nothing is new but an entry in the orders, under the next id. -/
structure Untouched (e e' : PaperEngine) : Prop where
  balance : e'.getBalance = e.getBalance
  positions : ∀ symbol, e'.getAllPositions.lookup symbol = e.getAllPositions.lookup symbol
  portfolioValue : ∀ prices, e'.getPortfolioValue prices = e.getPortfolioValue prices
  orders : ∃ o, e'.orders = e.orders.insert e.nextOrderId o
  rates : e'.slippageRate = e.slippageRate ∧ e'.commissionRate = e.commissionRate

section Rejected

variable {e : PaperEngine} {order : Order} {now : UInt64}

theorem refused_of_endsRejected (h : e.EndsRejected order now) :
    order.type = "market" ∧ e.Refused order := by
  obtain ⟨o, ho, hstatus⟩ := h
  have hid : (e.submitOrder order now).1 = e.nextOrderId := rfl
  rw [hid] at ho
  by_cases htype : order.type = "market"
  · by_cases hno : e.Refused order
    · exact ⟨htype, hno⟩
    · rw [(submitOrder_filled htype hno now).2, AList.lookup_insert] at ho
      rw [← Option.some.inj ho] at hstatus
      exact absurd hstatus (by simp)
  · rw [submitOrder_pending htype, AList.lookup_insert] at ho
    rw [← Option.some.inj ho] at hstatus
    exact absurd hstatus (by simp)

/-- Reading a position changes no entry exactly when there is one. -/
theorem readPositions_lookup_iff (hb : order.isBuy = false) :
    (∀ symbol, (e.readPositions order).lookup symbol = e.positions.lookup symbol) ↔
      order.symbol ∈ e.positions := by
  rw [readPositions, hb, if_neg Bool.false_ne_true]
  constructor
  · intro h
    have hsymbol := h order.symbol
    rw [AList.lookup_insert] at hsymbol
    rw [← AList.lookup_isSome, ← hsymbol]
    rfl
  · intro hmem symbol
    by_cases hs : symbol = order.symbol
    · obtain ⟨quantity, hquantity⟩ := Option.isSome_iff_exists.1 (AList.lookup_isSome.2 hmem)
      rw [hs, AList.lookup_insert, hquantity, getPosition, UMap.getD, hquantity, Option.getD_some]
    · rw [AList.lookup_insert_ne hs]

/-- **Rejected orders.** In every state, reachable or not, an order that ends as rejected leaves the
account untouched if and only if it is a BUY or a SELL of a symbol that has an entry in the positions. -/
theorem rejected_untouched_iff (e : PaperEngine) (order : Order) (now : UInt64)
    (hrejected : e.EndsRejected order now) :
    e.Untouched (e.submitOrder order now).2 ↔ order.isBuy = true ∨ order.symbol ∈ e.positions := by
  obtain ⟨htype, hno⟩ := refused_of_endsRejected hrejected
  rw [submitOrder_refused htype hno]
  cases hb : order.isBuy with
  | true =>
    have hread : e.readPositions order = e.positions := by rw [readPositions, if_pos hb]
    rw [hread]
    exact iff_of_true ⟨rfl, fun _ => rfl, fun _ => rfl, ⟨_, rfl⟩, rfl, rfl⟩ (Or.inl rfl)
  | false =>
    have hentry := readPositions_lookup_iff (e := e) hb
    constructor
    · intro h
      exact Or.inr (hentry.1 h.positions)
    · intro h
      have hmem := h.resolve_left Bool.false_ne_true
      have hsame := hentry.2 hmem
      refine ⟨rfl, hsame, fun prices => ?_, ⟨_, rfl⟩, rfl, rfl⟩
      unfold getPortfolioValue
      congr 1
      apply UMap.sumBy_congr
      · intro symbol
        rw [UMap.termAt, hsame, UMap.termAt]
      · intro symbol
        rw [← AList.lookup_isSome, hsame, AList.lookup_isSome]

section PhantomEntry

def sellFive : Order := { symbol := "AAPL", price := 100, quantity := 5, isBuy := false }

theorem sellFive_endsRejected {e : PaperEngine} (h : e.getPosition "AAPL" < 5) :
    e.EndsRejected sellFive 0 := by
  have hno : e.Refused sellFive := by simpa [Refused, sellFive] using h
  refine ⟨{ order := sellFive, status := "rejected", timestamp := 0 }, ?_, rfl⟩
  rw [submitOrder_refused rfl hno]
  exact AList.lookup_insert _

/-- The SELL of a symbol that is not held is rejected and leaves an entry of no shares. -/
theorem phantomEntry_not_untouched :
    Reachable { balance := 100000 } ∧ EndsRejected { balance := 100000 } sellFive 0 ∧
      ¬ Untouched { balance := 100000 } (submitOrder { balance := 100000 } sellFive 0).2 := by
  refine ⟨reachable_new 100000, sellFive_endsRejected (by decide +kernel), fun h => ?_⟩
  exact absurd (h.positions "AAPL") (by decide +kernel)

def holdsThree : PaperEngine :=
  run operate { balance := 100000 } [.call (.submit { symbol := "AAPL", price := 100, quantity := 3 } 0)]

/-- The SELL of more than is held is rejected and leaves the account as it was. -/
theorem partlyHeld_untouched : holdsThree.Untouched (holdsThree.submitOrder sellFive 0).2 :=
  (rejected_untouched_iff holdsThree sellFive 0 (sellFive_endsRejected (by decide +kernel))).2
    (Or.inr (by decide +kernel))

end PhantomEntry

end Rejected

end PaperEngine

end TradingTerminal
