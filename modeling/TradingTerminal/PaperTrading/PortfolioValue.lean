import TradingTerminal.PaperTrading.PaperEngine
import Mathlib.Algebra.Order.BigOperators.Group.List

/-!
# What the paper portfolio is worth

`get_portfolio_value` adds the positions at given prices to the balance. Over any run the result is
the initial balance, plus what the prices moved for the filled orders since they were quoted, minus
the slippage and the commissions paid (`portfolioValue_attribution`). So at the quoted prices an
account is never worth more than it started with.
-/

namespace TradingTerminal

open Lib

namespace PaperEngine

/-- The price an order was quoted at. -/
def quoted (order : Order) : ℚ := if order.price > 0 then order.price else 150

/-- What the price of its symbol moved for a stored order since it was quoted. -/
def moved (currentPrices : UMap String ℚ) (o : PaperOrder) : ℚ :=
  (if o.order.isBuy then o.filled else -o.filled) *
    (UMap.getD currentPrices o.order.symbol 0 - quoted o.order)

def slippagePaid (s : ℚ) (o : PaperOrder) : ℚ := o.filled * (quoted o.order * s)

def commissionPaid (s c : ℚ) (o : PaperOrder) : ℚ := o.filled * slippedPrice s o.order * c

theorem quoted_pos (order : Order) : 0 < quoted order := by
  unfold quoted
  split
  · assumption
  · norm_num

/-- A stored order is worth its move, less what its execution cost. -/
theorem proceeds_add_marked (s c : ℚ) (currentPrices : UMap String ℚ) (o : PaperOrder) :
    proceeds s c o + acquired o.order.symbol o * UMap.getD currentPrices o.order.symbol 0 =
      moved currentPrices o - slippagePaid s o - commissionPaid s c o := by
  have hprice : slippedPrice s o.order =
      quoted o.order + if o.order.isBuy then quoted o.order * s else -(quoted o.order * s) := rfl
  unfold proceeds acquired moved slippagePaid commissionPaid
  rw [hprice]
  cases o.order.isBuy with
  | true =>
    simp only [if_true]
    ring
  | false =>
    simp only [Bool.false_eq_true, if_false, if_true]
    ring

variable {e e' : PaperEngine} {currentPrices : UMap String ℚ}

/-- The positions at the prices, over any set of symbols that contains theirs. -/
theorem sumBy_positions {symbols : Finset String} (h : ∀ symbol ∈ e.positions, symbol ∈ symbols) :
    (UMap.sumBy e.positions fun symbol quantity => quantity * UMap.getD currentPrices symbol 0) =
      ∑ symbol ∈ symbols, e.getPosition symbol * UMap.getD currentPrices symbol 0 := by
  rw [UMap.sumBy_eq_sum h]
  refine Finset.sum_congr rfl fun symbol _ => ?_
  cases hq : e.positions.lookup symbol with
  | none =>
    have hposition : e.getPosition symbol = 0 := by rw [getPosition, UMap.getD, hq, Option.getD_none]
    rw [UMap.termAt_of_lookup_none hq, hposition, zero_mul]
  | some quantity =>
    have hposition : e.getPosition symbol = quantity := by
      rw [getPosition, UMap.getD, hq, Option.getD_some]
    rw [UMap.termAt_of_lookup hq, hposition]

/-- A booking moves the value of the portfolio by what the order moved and cost. -/
theorem Booked.portfolioValue {orderId : Nat} {o : PaperOrder} (h : Booked e e' orderId o) :
    e'.getPortfolioValue currentPrices = e.getPortfolioValue currentPrices +
      (moved currentPrices o - slippagePaid e.slippageRate o -
        commissionPaid e.slippageRate e.commissionRate o) := by
  let symbols := insert o.order.symbol (e.positions.keys.toFinset ∪ e'.positions.keys.toFinset)
  have hkeys : ∀ symbol ∈ e.positions, symbol ∈ symbols := fun symbol hs =>
    Finset.mem_insert_of_mem (Finset.mem_union_left _ (List.mem_toFinset.2 (AList.mem_keys.1 hs)))
  have hkeys' : ∀ symbol ∈ e'.positions, symbol ∈ symbols := fun symbol hs =>
    Finset.mem_insert_of_mem (Finset.mem_union_right _ (List.mem_toFinset.2 (AList.mem_keys.1 hs)))
  -- only the position of the order's symbol moves
  have hmoved : ∑ symbol ∈ symbols, acquired symbol o * UMap.getD currentPrices symbol 0 =
      acquired o.order.symbol o * UMap.getD currentPrices o.order.symbol 0 := by
    refine Finset.sum_eq_single _ (fun symbol _ hne => ?_) fun hnot =>
      absurd (Finset.mem_insert_self _ _) hnot
    rw [acquired, if_neg (Ne.symm hne), zero_mul]
  rw [← proceeds_add_marked, getPortfolioValue, getPortfolioValue, sumBy_positions hkeys,
    sumBy_positions hkeys', h.balance]
  simp only [h.position, add_mul, Finset.sum_add_distrib]
  rw [hmoved]
  ring

/-- The value of the portfolio by its orders, none of which filled a negative quantity. -/
structure Valued (b0 s c : ℚ) (currentPrices : UMap String ℚ) (e : PaperEngine) : Prop where
  kept : Kept b0 s c e
  value : e.getPortfolioValue currentPrices = b0 + e.total (moved currentPrices) -
    e.total (slippagePaid s) - e.total (commissionPaid s c)
  filled : ∀ orderId o, e.orders.lookup orderId = some o → 0 ≤ o.filled

variable {b0 s c : ℚ}

theorem valued_opened (hb : 0 ≤ b0) : Valued b0 s c currentPrices (opened b0 s c) :=
  ⟨kept_opened hb, by simp [opened, getPortfolioValue, total], by simp [opened]⟩

theorem Valued.step (hs : 0 ≤ s ∧ s ≤ 1) (hc : c ≤ 1) {call : Call} (hcall : call.Nonneg)
    (h : Valued b0 s c currentPrices e) : Valued b0 s c currentPrices (e.step call) := by
  have hkept := kept_step hs hc e call hcall h.kept
  cases call with
  | submit order now =>
    obtain ⟨-, -, o, horder, hbooked⟩ := e.submitOrder_booked order now
    have hnew : e.nextOrderId ∉ e.orders := by
      rw [h.kept.ids]
      omega
    refine ⟨hkept, ?_, fun orderId o' ho' => ?_⟩
    · show (e.submitOrder order now).2.getPortfolioValue currentPrices = _ + PaperEngine.total
        (e.submitOrder order now).2 _ - PaperEngine.total (e.submitOrder order now).2 _ -
          PaperEngine.total (e.submitOrder order now).2 _
      rw [hbooked.portfolioValue, h.value, h.kept.slippageRate, h.kept.commissionRate,
        total_booked hbooked hnew, total_booked hbooked hnew, total_booked hbooked hnew]
      ring
    · change (e.submitOrder order now).2.orders.lookup orderId = some o' at ho'
      rw [hbooked.orders] at ho'
      by_cases hid : orderId = e.nextOrderId
      · rw [hid, AList.lookup_insert, Option.some.injEq] at ho'
        subst ho'
        rcases hbooked.filled with hzero | ⟨hall, -⟩
        · rw [hzero]
        · rw [hall, horder]
          exact hcall
      · rw [AList.lookup_insert_ne hid] at ho'
        exact h.filled orderId o' ho'
  | cancel orderId =>
    rcases e.cancelOrder_cases orderId with heq | ⟨p, hp, heq⟩
    · rwa [PaperEngine.step, heq]
    · rw [PaperEngine.step, heq] at hkept ⊢
      have htotal : ∀ f : PaperOrder → ℚ, f { p with status := "cancelled" } = f p →
          PaperEngine.total { e with
            orders := e.orders.insert orderId { p with status := "cancelled" } } f = e.total f :=
        fun f hf => UMap.sumBy_insert_of_eq hp hf
      refine ⟨hkept, ?_, fun id o ho => ?_⟩
      · rw [htotal (moved currentPrices) rfl, htotal (slippagePaid s) rfl,
          htotal (commissionPaid s c) rfl]
        exact h.value
      · by_cases hid : id = orderId
        · rw [hid, AList.lookup_insert, Option.some.injEq] at ho
          subst ho
          exact h.filled orderId p hp
        · rw [AList.lookup_insert_ne hid] at ho
          exact h.filled id o ho

/-- A sum over the stored orders of something none of them counts below zero. -/
theorem total_nonneg {f : PaperOrder → ℚ}
    (h : ∀ orderId o, e.orders.lookup orderId = some o → 0 ≤ f o) : 0 ≤ e.total f := by
  refine List.sum_nonneg fun v hv => ?_
  obtain ⟨entry, hentry, rfl⟩ := List.mem_map.1 hv
  exact h entry.1 entry.2 (AList.mem_lookup_iff.2 hentry)

/-- **Where the value of the portfolio comes from.** After every run of submissions and
cancellations, at any prices: the initial balance, plus what the prices moved since the filled
orders were quoted, minus the slippage and the commissions, neither of which is ever negative. -/
theorem portfolioValue_attribution {b0 s c : ℚ} (hb : 0 ≤ b0) (hs : 0 ≤ s ∧ s ≤ 1)
    (hc : 0 ≤ c ∧ c ≤ 1) (calls : List Call) (hcalls : ∀ call ∈ calls, call.Nonneg)
    (currentPrices : UMap String ℚ) :
    let e := run step (opened b0 s c) calls
    e.getPortfolioValue currentPrices =
        b0 + e.total (moved currentPrices) - e.total (slippagePaid s) - e.total (commissionPaid s c) ∧
      0 ≤ e.total (slippagePaid s) ∧ 0 ≤ e.total (commissionPaid s c) := by
  intro e
  have hvalued : Throughout step (Valued b0 s c currentPrices) (opened b0 s c) calls :=
    throughout_of_guarded (G := fun _ _ => True)
      (fun e call hcall h _ => h.step hs hc.2 hcall) hcalls (valued_opened hb)
      (guarded_of_forall fun _ _ => trivial)
  have h : Valued b0 s c currentPrices e := hvalued.last
  refine ⟨h.value, total_nonneg fun orderId o ho => ?_, total_nonneg fun orderId o ho => ?_⟩
  · have hquoted := (quoted_pos o.order).le
    exact mul_nonneg (h.filled orderId o ho) (mul_nonneg hquoted hs.1)
  · exact mul_nonneg (mul_nonneg (h.filled orderId o ho) (slippedPrice_nonneg hs o.order)) hc.1

/-- Five shares bought and three sold at 100, where the price still is: only the costs are gone. -/
theorem roundTrip_attribution :
    let calls : List Call :=
      [.submit { symbol := "AAPL", price := 100, quantity := 5 } 0,
        .submit { symbol := "AAPL", price := 100, quantity := 3, isBuy := false } 1]
    let e := run step (opened 100000 (1 / 10000) (1 / 1000)) calls
    e.getPortfolioValue (AList.singleton "AAPL" 100) = 100000 +
        e.total (moved (AList.singleton "AAPL" 100)) - e.total (slippagePaid (1 / 10000)) -
          e.total (commissionPaid (1 / 10000) (1 / 1000)) ∧
      e.total (moved (AList.singleton "AAPL" 100)) = 0 := by
  intro calls e
  have hcalls : ∀ call ∈ calls, call.Nonneg := by simp [calls, Call.Nonneg]
  exact ⟨(portfolioValue_attribution (by norm_num) (by norm_num) (by norm_num) calls hcalls _).1,
    by decide +kernel⟩

end PaperEngine

end TradingTerminal
