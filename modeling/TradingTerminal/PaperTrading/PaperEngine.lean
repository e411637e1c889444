import TradingTerminal.Core.Types
import TradingTerminal.Lib.Run
import TradingTerminal.Lib.UMap
import Mathlib.Tactic.Linarith
import Mathlib.Tactic.Positivity
import Mathlib.Tactic.Ring

/-!
# The paper-trading engine

`paper_trading/paper_engine.hpp`: market orders are filled at once against a simulated balance,
everything else stays pending. The mutex makes each call one step.

`Submitted` says once what a submission can do: it stores one order under a fresh id, and what that
order filled is what the balance and the positions move by. The books then balance over any run of
submissions and cancellations (`run_booksBalance`).
-/

namespace TradingTerminal

open Lib

structure PaperOrder where
  order : Order
  filled : ℚ := 0
  status : String := "pending"
  timestamp : UInt64

structure PaperEngine where
  orders : UMap Nat PaperOrder := ∅
  positions : UMap String ℚ := ∅
  balance : ℚ := 100000
  nextOrderId : Nat := 1
  slippageRate : ℚ := 1 / 10000
  commissionRate : ℚ := 1 / 1000

/-- The price a market order fills at: its own, or 150 when it has none, moved against the trader by
the slippage. -/
def slippedPrice (slippageRate : ℚ) (order : Order) : ℚ :=
  let fillPrice := if order.price > 0 then order.price else 150
  let slippage := fillPrice * slippageRate
  fillPrice + if order.isBuy then slippage else -slippage

namespace PaperEngine

def getPosition (e : PaperEngine) (symbol : String) : ℚ := UMap.getD e.positions symbol 0

def processMarketOrderLocked (e : PaperEngine) (orderId : Nat) : PaperEngine :=
  match e.orders.lookup orderId with
  | none => e
  | some paperOrder =>
    let order := paperOrder.order
    let fillPrice := slippedPrice e.slippageRate order
    let commission := fillPrice * order.quantity * e.commissionRate
    let rejected := e.orders.insert orderId { paperOrder with status := "rejected" }
    let filled := e.orders.insert orderId { paperOrder with filled := order.quantity, status := "filled" }
    if order.isBuy then
      let cost := fillPrice * order.quantity + commission
      if e.balance < cost then { e with orders := rejected }
      else
        { e with
          orders := filled
          balance := e.balance - cost
          positions := e.positions.insert order.symbol (e.getPosition order.symbol + order.quantity) }
    else
      -- `positions[symbol]` creates the entry it reads
      let positions := e.positions.insert order.symbol (e.getPosition order.symbol)
      if e.getPosition order.symbol < order.quantity then { e with orders := rejected, positions }
      else
        let revenue := fillPrice * order.quantity - commission
        let left := e.getPosition order.symbol - order.quantity
        let positions := positions.insert order.symbol left
        { e with
          orders := filled
          balance := e.balance + revenue
          positions := if left ≤ 0 then positions.erase order.symbol else positions }

/-- `submit_order`, at a reading `now` of the system clock. -/
def submitOrder (e : PaperEngine) (order : Order) (now : UInt64) : Nat × PaperEngine :=
  let orderId := e.nextOrderId
  let e := { e with
    nextOrderId := e.nextOrderId + 1
    orders := e.orders.insert orderId { order, timestamp := now } }
  (orderId, if order.type = "market" then e.processMarketOrderLocked orderId else e)

def cancelOrder (e : PaperEngine) (orderId : Nat) : Bool × PaperEngine :=
  match e.orders.lookup orderId with
  | none => (false, e)
  | some paperOrder =>
    (true, { e with orders := e.orders.insert orderId { paperOrder with status := "cancelled" } })

def getBalance (e : PaperEngine) : ℚ := e.balance

def getAllPositions (e : PaperEngine) : UMap String ℚ := e.positions

/-- `get_portfolio_value`; a symbol without a price counts nothing. -/
def getPortfolioValue (e : PaperEngine) (currentPrices : UMap String ℚ) : ℚ :=
  e.balance + UMap.sumBy e.positions fun symbol quantity =>
    quantity * UMap.getD currentPrices symbol 0

def setSlippage (e : PaperEngine) (rate : ℚ) : PaperEngine := { e with slippageRate := rate }

def setCommission (e : PaperEngine) (rate : ℚ) : PaperEngine := { e with commissionRate := rate }

def reset (e : PaperEngine) (newBalance : ℚ) : PaperEngine :=
  { e with balance := newBalance, positions := ∅, orders := ∅, nextOrderId := 1 }

/-! ## What a call does -/

/-- The cash a stored order brought in, negative for a BUY. -/
def proceeds (slippageRate commissionRate : ℚ) (o : PaperOrder) : ℚ :=
  let notional := o.filled * slippedPrice slippageRate o.order
  if o.order.isBuy then -(notional * (1 + commissionRate)) else notional * (1 - commissionRate)

/-- The shares of a symbol a stored order brought in, negative for a SELL. -/
def acquired (symbol : String) (o : PaperOrder) : ℚ :=
  if o.order.symbol = symbol then if o.order.isBuy then o.filled else -o.filled else 0

/-- The order is within what the account holds: the cash for a BUY, the shares for a SELL. -/
def Covered (e : PaperEngine) (order : Order) : Prop :=
  if order.isBuy then
    order.quantity * slippedPrice e.slippageRate order * (1 + e.commissionRate) ≤ e.balance
  else order.quantity ≤ e.getPosition order.symbol

/-- `e'` is `e` with `o` stored under `orderId` and what it filled booked. -/
structure Booked (e e' : PaperEngine) (orderId : Nat) (o : PaperOrder) : Prop where
  filled : o.filled = 0 ∨ o.filled = o.order.quantity ∧ e.Covered o.order
  orders : e'.orders = e.orders.insert orderId o
  balance : e'.balance = e.balance + proceeds e.slippageRate e.commissionRate o
  position : ∀ symbol, e'.getPosition symbol = e.getPosition symbol + acquired symbol o
  slippageRate : e'.slippageRate = e.slippageRate
  commissionRate : e'.commissionRate = e.commissionRate

variable {e : PaperEngine}

/-- Storing an order that filled nothing is a booking, if the money and the positions stay. -/
theorem booked_of_not_filled {orderId : Nat} {o : PaperOrder} {positions : UMap String ℚ} {n : Nat}
    (h : o.filled = 0) (hpos : ∀ symbol, UMap.getD positions symbol 0 = e.getPosition symbol) :
    Booked e { e with orders := e.orders.insert orderId o, positions, nextOrderId := n } orderId o := by
  refine ⟨Or.inl h, rfl, ?_, fun symbol => ?_, rfl, rfl⟩
  · have hzero : proceeds e.slippageRate e.commissionRate o = 0 := by
      unfold proceeds
      split <;> simp [h]
    rw [hzero, add_zero]
  · have hzero : acquired symbol o = 0 := by
      unfold acquired
      split
      · split <;> simp [h]
      · rfl
    rw [hzero, add_zero]
    exact hpos symbol

theorem getPosition_insert_self (e : PaperEngine) (symbol symbol' : String) :
    UMap.getD (e.positions.insert symbol (e.getPosition symbol)) symbol' 0 = e.getPosition symbol' := by
  rw [UMap.getD_insert]
  split
  · next h => rw [h]
  · rfl

/-- A closed position reads the same as an erased one, if nothing was oversold. -/
theorem getD_eraseClosed (m : UMap String ℚ) (symbol symbol' : String) {left : ℚ} (h : 0 ≤ left) :
    UMap.getD (if left ≤ 0 then (m.insert symbol left).erase symbol else m.insert symbol left) symbol' 0 =
      if symbol' = symbol then left else UMap.getD m symbol' 0 := by
  split
  · next hle =>
    rw [UMap.getD_erase, le_antisymm hle h]
    split
    · rfl
    · next hne => rw [UMap.getD_insert_ne m hne]
  · rw [UMap.getD_insert]

/-- A pending market order is rejected and moves nothing, or is covered and filled as a whole. -/
theorem processMarketOrderLocked_booked {orderId : Nat} {p : PaperOrder}
    (hp : e.orders.lookup orderId = some p) (h0 : p.filled = 0) :
    (e.processMarketOrderLocked orderId).nextOrderId = e.nextOrderId ∧
      ∃ o : PaperOrder, o.order = p.order ∧ Booked e (e.processMarketOrderLocked orderId) orderId o := by
  simp only [processMarketOrderLocked, hp]
  cases hb : p.order.isBuy with
  | true =>
    simp only [if_true]
    split
    · exact ⟨rfl, { p with status := "rejected" }, rfl, booked_of_not_filled h0 fun _ => rfl⟩
    · next hcost =>
      refine ⟨rfl, { p with filled := p.order.quantity, status := "filled" }, rfl, ?_⟩
      refine ⟨Or.inr ⟨rfl, ?_⟩, rfl, ?_, fun symbol => ?_, rfl, rfl⟩
      · simp only [Covered, hb, if_true]
        linarith
      · simp only [proceeds, hb, if_true]
        ring
      · simp only [getPosition, acquired, hb, if_true, UMap.getD_insert, eq_comm]
        split
        · next h => rw [h]
        · rw [add_zero]
  | false =>
    simp only [Bool.false_eq_true, if_false]
    split
    · exact ⟨rfl, { p with status := "rejected" }, rfl,
        booked_of_not_filled h0 (e.getPosition_insert_self p.order.symbol)⟩
    · next hheld =>
      have hleft : 0 ≤ e.getPosition p.order.symbol - p.order.quantity := by linarith
      refine ⟨rfl, { p with filled := p.order.quantity, status := "filled" }, rfl, ?_⟩
      refine ⟨Or.inr ⟨rfl, ?_⟩, rfl, ?_, fun symbol => ?_, rfl, rfl⟩
      · simp only [Covered, hb, Bool.false_eq_true, if_false]
        linarith
      · simp only [proceeds, hb, Bool.false_eq_true, if_false]
        ring
      · refine (getD_eraseClosed _ _ _ hleft).trans ?_
        rw [getPosition_insert_self]
        simp only [acquired, hb, Bool.false_eq_true, if_false, eq_comm]
        split
        · next h => rw [h, sub_eq_add_neg]
        · rw [add_zero]

/-- A submission stores one order under the next id and books what it filled. -/
theorem submitOrder_booked (e : PaperEngine) (order : Order) (now : UInt64) :
    (e.submitOrder order now).1 = e.nextOrderId ∧
      (e.submitOrder order now).2.nextOrderId = e.nextOrderId + 1 ∧
      ∃ o : PaperOrder, o.order = order ∧ Booked e (e.submitOrder order now).2 e.nextOrderId o := by
  refine ⟨rfl, ?_⟩
  simp only [submitOrder]
  split
  · obtain ⟨hnext, o, horder, hbooked⟩ := processMarketOrderLocked_booked
      (e := { e with
        nextOrderId := e.nextOrderId + 1
        orders := e.orders.insert e.nextOrderId { order, timestamp := now } })
      (AList.lookup_insert e.orders) rfl
    refine ⟨hnext, o, horder, hbooked.filled, ?_, hbooked.balance, hbooked.position,
      hbooked.slippageRate, hbooked.commissionRate⟩
    rw [hbooked.orders, AList.insert_insert]
  · exact ⟨rfl, { order, timestamp := now }, rfl, booked_of_not_filled rfl fun _ => rfl⟩

/-- A cancellation marks a stored order and moves nothing, whatever it filled. -/
theorem cancelOrder_cases (e : PaperEngine) (orderId : Nat) :
    (e.cancelOrder orderId).2 = e ∨
      ∃ p, e.orders.lookup orderId = some p ∧ (e.cancelOrder orderId).2 =
        { e with orders := e.orders.insert orderId { p with status := "cancelled" } } := by
  unfold cancelOrder
  cases h : e.orders.lookup orderId with
  | none => exact Or.inl rfl
  | some p => exact Or.inr ⟨p, rfl, rfl⟩

/-! ## Runs -/

inductive Call where
  | submit (order : Order) (now : UInt64)
  | cancel (orderId : Nat)

def Call.isSubmit : Call → Bool
  | submit _ _ => true
  | cancel _ => false

/-- A submission asks for no negative quantity. -/
def Call.Nonneg : Call → Prop
  | submit order _ => 0 ≤ order.quantity
  | cancel _ => True

def step (e : PaperEngine) : Call → PaperEngine
  | .submit order now => (e.submitOrder order now).2
  | .cancel orderId => (e.cancelOrder orderId).2

/-- The ids the submissions of a run return, in order. -/
def submittedIds (e : PaperEngine) : List Call → List Nat
  | [] => []
  | .submit order now :: calls => (e.submitOrder order now).1 :: submittedIds (e.step (.submit order now)) calls
  | .cancel orderId :: calls => submittedIds (e.step (.cancel orderId)) calls

theorem step_nextOrderId (e : PaperEngine) (call : Call) :
    (e.step call).nextOrderId = e.nextOrderId + if call.isSubmit then 1 else 0 := by
  cases call with
  | submit order now => exact (e.submitOrder_booked order now).2.1
  | cancel orderId =>
    rcases e.cancelOrder_cases orderId with h | ⟨p, -, h⟩
    · rw [step, h]
      rfl
    · rw [step, h]
      rfl

/-- The ids handed out count up without gaps. -/
theorem submittedIds_eq (calls : List Call) (e : PaperEngine) :
    submittedIds e calls = List.range' e.nextOrderId (calls.countP Call.isSubmit) ∧
      (run step e calls).nextOrderId = e.nextOrderId + calls.countP Call.isSubmit := by
  induction calls generalizing e with
  | nil => exact ⟨rfl, rfl⟩
  | cons call calls ih =>
    obtain ⟨hids, hnext⟩ := ih (e.step call)
    have hstep := e.step_nextOrderId call
    cases call with
    | submit order now =>
      rw [hstep] at hids hnext
      rw [run_cons, hnext, submittedIds, hids, (e.submitOrder_booked order now).1]
      simp only [Call.isSubmit, if_true, List.countP_cons, List.range'_succ]
      exact ⟨trivial, by omega⟩
    | cancel orderId =>
      rw [hstep] at hids hnext
      rw [run_cons, hnext, submittedIds, hids]
      simp [Call.isSubmit]

/-! ## The books -/

/-- The sum of a quantity over the stored orders. -/
def total (e : PaperEngine) (f : PaperOrder → ℚ) : ℚ := UMap.sumBy e.orders fun _ o => f o

theorem total_booked {e' : PaperEngine} {orderId : Nat} {o : PaperOrder}
    (h : Booked e e' orderId o) (hnew : orderId ∉ e.orders) (f : PaperOrder → ℚ) :
    e'.total f = e.total f + f o := by
  rw [total, h.orders, UMap.sumBy_insert_of_notMem hnew, total]

/-- The invariant of a run with slippage `s` and commission `c`: the stored orders account for the
balance and the positions, nothing is overdrawn, and the ids from 1 on are taken. -/
structure Kept (b0 s c : ℚ) (e : PaperEngine) : Prop where
  slippageRate : e.slippageRate = s
  commissionRate : e.commissionRate = c
  balance : e.balance = b0 + e.total (proceeds s c)
  position : ∀ symbol, e.getPosition symbol = e.total (acquired symbol)
  solvent : 0 ≤ e.balance
  held : ∀ symbol, 0 ≤ e.getPosition symbol
  next : 1 ≤ e.nextOrderId
  ids : ∀ orderId, orderId ∈ e.orders ↔ 1 ≤ orderId ∧ orderId < e.nextOrderId

variable {b0 s c : ℚ}

theorem slippedPrice_nonneg (hs : 0 ≤ s ∧ s ≤ 1) (order : Order) : 0 ≤ slippedPrice s order := by
  obtain ⟨price, hprice, heq⟩ : ∃ price : ℚ, 0 ≤ price ∧
      slippedPrice s order = price + if order.isBuy then price * s else -(price * s) := by
    refine ⟨if order.price > 0 then order.price else 150, ?_, rfl⟩
    split
    · next h => exact h.le
    · norm_num
  rw [heq]
  split
  · exact add_nonneg hprice (mul_nonneg hprice hs.1)
  · have hslip : price * s ≤ price := mul_le_of_le_one_right hprice hs.2
    linarith

/-- What is covered leaves the balance non-negative. -/
theorem Booked.solvent {e' : PaperEngine} {orderId : Nat} {o : PaperOrder}
    (h : Booked e e' orderId o) (hs : 0 ≤ e.slippageRate ∧ e.slippageRate ≤ 1)
    (hc : e.commissionRate ≤ 1) (hq : 0 ≤ o.order.quantity) (hb : 0 ≤ e.balance) : 0 ≤ e'.balance := by
  have hprice := slippedPrice_nonneg hs o.order
  rw [h.balance]
  unfold proceeds
  rcases h.filled with hfilled | ⟨hfilled, hcovered⟩
  · simp [hfilled, hb]
  · rw [hfilled]
    unfold Covered at hcovered
    cases hbuy : o.order.isBuy with
    | true =>
      rw [hbuy, if_pos rfl] at hcovered
      simp only [if_true]
      linarith
    | false =>
      have hrevenue : 0 ≤ o.order.quantity * slippedPrice e.slippageRate o.order * (1 - e.commissionRate) :=
        mul_nonneg (mul_nonneg hq hprice) (by linarith)
      simp only [Bool.false_eq_true, if_false]
      linarith

theorem Booked.held {e' : PaperEngine} {orderId : Nat} {o : PaperOrder}
    (h : Booked e e' orderId o) (hq : 0 ≤ o.order.quantity) {symbol : String}
    (hp : 0 ≤ e.getPosition symbol) : 0 ≤ e'.getPosition symbol := by
  rw [h.position]
  unfold acquired
  split
  · next hs =>
    rcases h.filled with hfilled | ⟨hfilled, hcovered⟩
    · simp [hfilled, hp]
    · rw [hfilled]
      unfold Covered at hcovered
      cases hbuy : o.order.isBuy with
      | true =>
        simp only [if_true]
        linarith
      | false =>
        rw [hbuy, if_neg (by simp), hs] at hcovered
        simp only [Bool.false_eq_true, if_false]
        linarith
  · linarith

theorem kept_submit (hs : 0 ≤ s ∧ s ≤ 1) (hc : c ≤ 1) (h : Kept b0 s c e) {order : Order}
    (hq : 0 ≤ order.quantity) (now : UInt64) : Kept b0 s c (e.submitOrder order now).2 := by
  obtain ⟨-, hnext, o, rfl, hbooked⟩ := e.submitOrder_booked order now
  have hnew : e.nextOrderId ∉ e.orders := by
    rw [h.ids]
    omega
  refine ⟨?_, ?_, ?_, fun symbol => ?_, ?_, fun symbol => ?_, ?_, fun orderId => ?_⟩
  · rw [hbooked.slippageRate, h.slippageRate]
  · rw [hbooked.commissionRate, h.commissionRate]
  · rw [hbooked.balance, total_booked hbooked hnew, h.balance, h.slippageRate, h.commissionRate,
      add_assoc]
  · rw [hbooked.position, total_booked hbooked hnew, h.position]
  · exact hbooked.solvent (by rwa [h.slippageRate]) (by rwa [h.commissionRate]) hq h.solvent
  · exact hbooked.held hq (h.held symbol)
  · rw [hnext]
    omega
  · have hpos := h.next
    rw [hbooked.orders, hnext, AList.mem_insert, h.ids]
    omega

theorem kept_cancel (h : Kept b0 s c e) (orderId : Nat) : Kept b0 s c (e.cancelOrder orderId).2 := by
  rcases e.cancelOrder_cases orderId with heq | ⟨p, hp, heq⟩
  · rw [heq]
    exact h
  · -- no sum over the stored orders reads their status
    have htotal : ∀ f : PaperOrder → ℚ, f { p with status := "cancelled" } = f p →
        (UMap.sumBy (e.orders.insert orderId { p with status := "cancelled" }) fun _ o => f o) =
          e.total f :=
      fun f hf => UMap.sumBy_insert_of_eq hp hf
    have hmem : orderId ∈ e.orders := AList.lookup_isSome.1 (by rw [hp]; rfl)
    rw [heq]
    refine ⟨h.slippageRate, h.commissionRate, ?_, fun symbol => ?_, h.solvent, h.held, h.next,
      fun id => ?_⟩
    · rw [total, htotal (proceeds s c) rfl]
      exact h.balance
    · rw [total, htotal (acquired symbol) rfl]
      exact h.position symbol
    · rw [AList.mem_insert, or_iff_right_of_imp fun hid => hid ▸ hmem]
      exact h.ids id

/-- The engine as it is set up: an initial balance, the two rates, and nothing else. -/
def opened (b0 s c : ℚ) : PaperEngine := { balance := b0, slippageRate := s, commissionRate := c }

theorem kept_opened (hb : 0 ≤ b0) : Kept b0 s c (opened b0 s c) := by
  refine ⟨rfl, rfl, ?_, fun symbol => ?_, hb, fun symbol => ?_, le_refl 1, fun orderId => ?_⟩
  · simp [opened, total]
  · simp [opened, total, getPosition]
  · simp [opened, getPosition]
  · simp only [opened, AList.notMem_empty, false_iff]
    omega

theorem kept_step (hs : 0 ≤ s ∧ s ≤ 1) (hc : c ≤ 1) (e : PaperEngine) (call : Call)
    (hcall : call.Nonneg) (h : Kept b0 s c e) : Kept b0 s c (e.step call) := by
  cases call with
  | submit order now => exact kept_submit hs hc h hcall now
  | cancel orderId => exact kept_cancel h orderId

/-! ## The books in the terms of the orders -/

/-- The cash that stored orders of one side moved: what filled, at the slipped price, times a factor
for the commission. -/
def cash (e : PaperEngine) (isBuy : Bool) (s factor : ℚ) : ℚ :=
  e.total fun o => if o.order.isBuy = isBuy then o.filled * slippedPrice s o.order * factor else 0

/-- What the stored orders of one side filled of a symbol. -/
def filledOf (e : PaperEngine) (isBuy : Bool) (symbol : String) : ℚ :=
  e.total fun o => if o.order.symbol = symbol ∧ o.order.isBuy = isBuy then o.filled else 0

/-- The books of an engine opened with `b0`, after `n` submissions. -/
structure BooksBalance (b0 s c : ℚ) (n : Nat) (e : PaperEngine) : Prop where
  balance : e.balance = b0 - e.cash true s (1 + c) + e.cash false s (1 - c)
  position : ∀ symbol, e.getPosition symbol = e.filledOf true symbol - e.filledOf false symbol
  solvent : 0 ≤ e.balance
  held : ∀ symbol quantity, e.positions.lookup symbol = some quantity → 0 ≤ quantity
  ids : ∀ orderId, orderId ∈ e.orders ↔ 1 ≤ orderId ∧ orderId ≤ n

theorem total_sub (e : PaperEngine) (f g : PaperOrder → ℚ) :
    (e.total fun o => f o - g o) = e.total f - e.total g :=
  UMap.sumBy_sub e.orders _ _

theorem total_proceeds (e : PaperEngine) (s c : ℚ) :
    e.total (proceeds s c) = e.cash false s (1 - c) - e.cash true s (1 + c) := by
  rw [cash, cash, ← total_sub]
  congr 1
  funext o
  cases h : o.order.isBuy <;> simp [proceeds, h]

theorem total_acquired (e : PaperEngine) (symbol : String) :
    e.total (acquired symbol) = e.filledOf true symbol - e.filledOf false symbol := by
  rw [filledOf, filledOf, ← total_sub]
  congr 1
  funext o
  by_cases hs : o.order.symbol = symbol
  · cases h : o.order.isBuy <;> simp [acquired, hs, h]
  · simp [acquired, hs]

theorem Kept.booksBalance (h : Kept b0 s c e) {n : Nat} (hn : e.nextOrderId = 1 + n) :
    BooksBalance b0 s c n e := by
  refine ⟨?_, fun symbol => ?_, h.solvent, fun symbol quantity hq => ?_, fun orderId => ?_⟩
  · rw [h.balance, total_proceeds]
    ring
  · rw [h.position, total_acquired]
  · have hheld := h.held symbol
    rwa [getPosition, UMap.getD, hq] at hheld
  · rw [h.ids, hn]
    omega

/-- After every run of submissions and cancellations the books balance, the account is solvent and
the submissions have taken the ids from 1 on. -/
theorem run_booksBalance {b0 s c : ℚ} (hb : 0 ≤ b0) (hs : 0 ≤ s ∧ s ≤ 1) (hc : 0 ≤ c ∧ c ≤ 1)
    (calls : List Call) (hcalls : ∀ call ∈ calls, call.Nonneg) :
    BooksBalance b0 s c (calls.countP Call.isSubmit) (run step (opened b0 s c) calls) ∧
      submittedIds (opened b0 s c) calls = List.range' 1 (calls.countP Call.isSubmit) := by
  have hkept : Throughout step (Kept b0 s c) (opened b0 s c) calls :=
    throughout_of_guarded (G := fun _ _ => True) (fun e call hcall h _ => kept_step hs hc.2 e call hcall h)
      hcalls (kept_opened hb) (guarded_of_forall fun _ _ => trivial)
  obtain ⟨hids, hnext⟩ := submittedIds_eq calls (opened b0 s c)
  exact ⟨hkept.last.booksBalance hnext, hids⟩

/-- A BUY that is filled, a SELL that is not covered, a limit order, and a cancellation of the
filled one. -/
theorem fourCalls_booksBalance : let calls : List Call :=
      [.submit { symbol := "AAPL", price := 100, quantity := 5 } 0,
        .submit { symbol := "AAPL", price := 100, quantity := 6, isBuy := false } 1,
        .submit { symbol := "AAPL", price := 90, quantity := 5, type := "limit" } 2, .cancel 1]
    (∀ call ∈ calls, call.Nonneg) ∧
      BooksBalance 100000 (1 / 10000) (1 / 1000) 3
        (run step (opened 100000 (1 / 10000) (1 / 1000)) calls) ∧
      submittedIds (opened 100000 (1 / 10000) (1 / 1000)) calls = [1, 2, 3] := by
  intro calls
  have hcalls : ∀ call ∈ calls, call.Nonneg := by
    simp [calls, Call.Nonneg]
  exact ⟨hcalls, run_booksBalance (by norm_num) (by norm_num) (by norm_num) calls hcalls⟩

end PaperEngine

end TradingTerminal
