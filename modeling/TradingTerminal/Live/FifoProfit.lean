import TradingTerminal.Live.FrontCost
import TradingTerminal.Live.Ledgers
import Mathlib.Algebra.BigOperators.Group.Finset.Piecewise

/-!
# First in, first out, in closed form

Laid end to end, the amounts bought of a symbol and the amounts sold of it are spans on one line; a
share sold is the share bought at the same place. `fifoProfit` adds up, over all pairs of a purchase
and a sale, what the shares they have in common made. The tracker's total realised P&L is the sum of
these over all symbols, as long as no SELL is for more than is held
(`totalRealizedPnl_eq_sum_fifoProfit`).
-/

namespace TradingTerminal

open Lib

/-! ## Spans -/

/-- An amount traded at one price, at its place on the line of all amounts. -/
structure Span where
  price : ℚ
  low : ℚ
  high : ℚ

/-- Lots laid end to end from `start`. -/
def spans (start : ℚ) : List Lot → List Span
  | [] => []
  | lot :: lots => ⟨lot.price, start, start + lot.quantity⟩ :: spans (start + lot.quantity) lots

/-- The length that two spans have in common. -/
def Span.overlap (s t : Span) : ℚ := max 0 (min s.high t.high - max s.low t.low)

/-- The profit of all pairs of a purchase and a sale. -/
def fifoProfit (buys sells : List Lot) : ℚ :=
  ((spans 0 buys).map fun bought =>
    ((spans 0 sells).map fun sold => (sold.price - bought.price) * bought.overlap sold).sum).sum

theorem spans_append (start : ℚ) (lots lots' : List Lot) :
    spans start (lots ++ lots') = spans start lots ++ spans (start + lotsQuantity lots) lots' := by
  induction lots generalizing start with
  | nil => simp [spans]
  | cons lot lots ih =>
    rw [List.cons_append, spans, spans, ih, lotsQuantity_cons, List.cons_append, add_assoc]

theorem spans_concat (lots : List Lot) (lot : Lot) :
    spans 0 (lots ++ [lot]) =
      spans 0 lots ++ [⟨lot.price, lotsQuantity lots, lotsQuantity lots + lot.quantity⟩] := by
  rw [spans_append, spans, spans, zero_add]

theorem high_le_of_mem_spans {lots : List Lot} (h : Live lots) {start : ℚ} :
    ∀ s ∈ spans start lots, s.high ≤ start + lotsQuantity lots := by
  induction lots generalizing start with
  | nil => simp [spans]
  | cons lot lots ih =>
    obtain ⟨-, hlots⟩ := live_cons.1 h
    have hrest := hlots.nonneg
    rw [spans, lotsQuantity_cons]
    intro s hs
    rcases List.mem_cons.1 hs with rfl | hs
    · dsimp only
      linarith
    · have hle := ih hlots s hs
      linarith

/-- A purchase after all shares sold has none of them. -/
theorem overlap_eq_zero {bought sold : Span} (h : sold.high ≤ bought.low) :
    bought.overlap sold = 0 := by
  have hmin : min bought.high sold.high ≤ bought.low := (min_le_right _ _).trans h
  have hmax : bought.low ≤ max bought.low sold.low := le_max_left _ _
  exact max_eq_left (by linarith)

theorem fifoProfit_buy {buys sells : List Lot} (hsells : Live sells)
    (hle : lotsQuantity sells ≤ lotsQuantity buys) (lot : Lot) :
    fifoProfit (buys ++ [lot]) sells = fifoProfit buys sells := by
  have hnone : ∀ sold ∈ spans 0 sells,
      (sold.price - lot.price) * Span.overlap ⟨lot.price, lotsQuantity buys,
        lotsQuantity buys + lot.quantity⟩ sold = 0 := by
    intro sold hsold
    have hhigh := high_le_of_mem_spans hsells sold hsold
    rw [zero_add] at hhigh
    rw [overlap_eq_zero (hhigh.trans hle), mul_zero]
  unfold fifoProfit
  rw [spans_concat, List.map_append, List.sum_append, List.map_singleton, List.sum_singleton,
    List.map_congr_left hnone]
  simp

theorem fifoProfit_sell (buys sells : List Lot) (lot : Lot) :
    fifoProfit buys (sells ++ [lot]) = fifoProfit buys sells +
      ((spans 0 buys).map fun bought => (lot.price - bought.price) * bought.overlap
        ⟨lot.price, lotsQuantity sells, lotsQuantity sells + lot.quantity⟩).sum := by
  unfold fifoProfit
  rw [spans_concat, ← List.sum_map_add]
  simp

/-- The first lot's part of the profit of a sale. -/
theorem sellFifo_profit_cons {lot : Lot} {lots : List Lot} (h : Live (lot :: lots)) (price : ℚ) {q : ℚ}
    (hq : 0 ≤ q) :
    (sellFifo price q (lot :: lots)).2 = (price - lot.price) * min q lot.quantity +
      (sellFifo price (max 0 (q - lot.quantity)) lots).2 := by
  obtain ⟨hlot, hlots⟩ := live_cons.1 h
  have hrest := hlots.nonneg
  have hmin : min q (lot.quantity + lotsQuantity lots) =
      min q lot.quantity + min (max 0 (q - lot.quantity)) (lotsQuantity lots) := by
    rcases le_total q lot.quantity with hle | hle
    · rw [min_eq_left hle, min_eq_left (by linarith), max_eq_left (by linarith), min_eq_left hrest,
        add_zero]
    · rw [min_eq_right hle, max_eq_right (by linarith), ← min_add_add_left, add_sub_cancel]
  rw [sellFifo_profit_front h price hq, sellFifo_profit_front hlots price (le_max_left 0 _), frontCost,
    lotsQuantity_cons, hmin]
  ring

/-- The part of a span that lies between two places. -/
theorem overlap_eq_sub {price low quantity c d : ℚ} (hq : 0 < quantity) (hcd : c ≤ d) (price' : ℚ) :
    Span.overlap ⟨price, low, low + quantity⟩ ⟨price', c, d⟩ =
      min (max 0 (d - low)) quantity - min (max 0 (c - low)) quantity := by
  unfold Span.overlap
  dsimp only
  simp only [min_def, max_def]
  split_ifs <;> linarith

/-- **Selling from a place on.** What the shares between two places make is what all shares before
the second make less what those before the first do. -/
theorem sum_overlap_spans {lots : List Lot} (h : Live lots) (price : ℚ) {start c d : ℚ} (hcd : c ≤ d) :
    ((spans start lots).map fun bought => (price - bought.price) * bought.overlap ⟨price, c, d⟩).sum =
      (sellFifo price (max 0 (d - start)) lots).2 - (sellFifo price (max 0 (c - start)) lots).2 := by
  induction lots generalizing start with
  | nil => simp [spans, sellFifo]
  | cons lot lots ih =>
    obtain ⟨hlot, hlots⟩ := live_cons.1 h
    have hmax : ∀ x : ℚ, max 0 (max 0 (x - start) - lot.quantity) = max 0 (x - (start + lot.quantity)) := by
      intro x
      rcases le_total x start with hle | hle
      · rw [max_eq_left (by linarith : x - start ≤ 0), max_eq_left (by linarith),
          max_eq_left (by linarith)]
      · rw [max_eq_right (by linarith : 0 ≤ x - start), sub_sub]
    rw [spans, List.map_cons, List.sum_cons, ih hlots, overlap_eq_sub hlot hcd,
      sellFifo_profit_cons h price (le_max_left 0 _), sellFifo_profit_cons h price (le_max_left 0 _),
      hmax, hmax]
    ring

/-! ## Accounts as tails of the line -/

def boughtLots (trades : List Trade) (symbol : String) : List Lot :=
  (trades.filter fun x => x.order.symbol = symbol ∧ x.order.isBuy).map fun x =>
    ⟨x.price, x.order.quantity⟩

def soldLots (trades : List Trade) (symbol : String) : List Lot :=
  (trades.filter fun x => x.order.symbol = symbol ∧ x.order.isBuy = false).map fun x =>
    ⟨x.price, x.order.quantity⟩

/-- An account holds what was bought and not yet sold: the shares behind all that were sold. -/
structure Unsold (buys sells : List Lot) (a : Account) : Prop where
  bought : Live buys
  sold : Live sells
  live : Live a.lots
  held : a.held = lotsQuantity buys - lotsQuantity sells
  cost : ∀ q, 0 ≤ q → frontCost a.lots q =
    frontCost buys (lotsQuantity sells + q) - frontCost buys (lotsQuantity sells)

namespace Unsold

variable {buys sells : List Lot} {a : Account} {x : Trade}

theorem fresh : Unsold [] [] {} :=
  ⟨live_nil, live_nil, live_nil, by simp [Account.held], by simp [frontCost]⟩

theorem sold_le (h : Unsold buys sells a) : lotsQuantity sells ≤ lotsQuantity buys := by
  have hheld : 0 ≤ a.held := h.live.nonneg
  have := h.held
  linarith

theorem buy (h : Unsold buys sells a) (hx : 0 < x.order.quantity) (hb : x.order.isBuy = true) :
    Unsold (buys ++ [⟨x.price, x.order.quantity⟩]) sells (a.trade x) := by
  have hout : ¬ a.SellsOut x := fun hout => by rw [hout.1] at hb; cases hb
  have hlots : (a.trade x).lots = a.lots ++ [⟨x.price, x.order.quantity⟩] := by
    rw [Account.trade_of_not_sellsOut hout, Account.lotsAfter_buy hb]
  have hsold := h.sold.nonneg
  have hle := h.sold_le
  refine ⟨live_concat.2 ⟨h.bought, hx⟩, h.sold, ?_, ?_, fun q hq => ?_⟩
  · rw [hlots]
    exact live_concat.2 ⟨h.live, hx⟩
  · have hheld := h.held
    unfold Account.held at hheld ⊢
    rw [hlots, lotsQuantity_concat, lotsQuantity_concat, hheld]
    ring
  · have hplace : lotsQuantity sells + q - lotsQuantity buys = q - lotsQuantity a.lots := by
      have hheld := h.held
      unfold Account.held at hheld
      rw [hheld]
      ring
    rw [hlots, frontCost_concat h.live _ hq, frontCost_concat h.bought _ (add_nonneg hsold hq),
      frontCost_concat h.bought _ hsold, h.cost q hq, hplace,
      max_eq_left (by linarith : lotsQuantity sells - lotsQuantity buys ≤ 0), min_eq_left hx.le]
    ring

/-- The lots after a sale, also one that closes the account. -/
theorem trade_lots (h : Unsold buys sells a) (hx : 0 < x.order.quantity) (hb : x.order.isBuy = false) :
    (a.trade x).lots = (sellFifo x.price x.order.quantity a.lots).1 := by
  by_cases hout : a.SellsOut x
  · rw [Account.trade_of_sellsOut hout, sellFifo_eq_nil h.live hx.le hout.2]
  · rw [Account.trade_of_not_sellsOut hout, Account.lotsAfter_sell hb]

theorem sell (h : Unsold buys sells a) (hx : 0 < x.order.quantity) (hb : x.order.isBuy = false)
    (hle : x.order.quantity ≤ a.held) :
    Unsold buys (sells ++ [⟨x.price, x.order.quantity⟩]) (a.trade x) := by
  have hlots := h.trade_lots hx hb
  refine ⟨h.bought, live_concat.2 ⟨h.sold, hx⟩, ?_, ?_, fun q hq => ?_⟩
  · rw [hlots]
    exact sellFifo_live h.live
  · have hheld := h.held
    unfold Account.held at hle hheld ⊢
    rw [hlots, sellFifo_quantity h.live hx.le, max_eq_right (by linarith), lotsQuantity_concat, hheld]
    ring
  · rw [hlots, frontCost_sellFifo h.live _ hx.le hq, h.cost _ (add_nonneg hx.le hq),
      h.cost _ hx.le, lotsQuantity_concat, add_assoc]
    ring

/-- What a sale makes is what it adds to the closed form. -/
theorem gain_eq (h : Unsold buys sells a) (hx : 0 < x.order.quantity) (hb : x.order.isBuy = false)
    (hle : x.order.quantity ≤ a.held) :
    fifoProfit buys (sells ++ [⟨x.price, x.order.quantity⟩]) = fifoProfit buys sells + a.gain x := by
  have hsold := h.sold.nonneg
  have hheld := h.held
  have hhold : a.held = lotsQuantity a.lots := rfl
  rw [fifoProfit_sell, sum_overlap_spans h.bought x.price (by linarith), Account.gain_sell hb]
  dsimp only
  rw [sub_zero, sub_zero, max_eq_right hsold, max_eq_right (by linarith),
    sellFifo_profit_front h.bought _ (by linarith), sellFifo_profit_front h.bought _ hsold,
    sellFifo_profit_front h.live _ hx.le, h.cost _ hx.le, ← hhold, min_eq_left hle,
    min_eq_left (by linarith), min_eq_left (by linarith)]
  ring

end Unsold

/-! ## All symbols -/

section Trades

variable {trades : List Trade} {x : Trade} {symbol : String}

theorem boughtLots_concat (trades : List Trade) (x : Trade) (symbol : String) :
    boughtLots (trades ++ [x]) symbol = boughtLots trades symbol ++
      if x.order.symbol = symbol ∧ x.order.isBuy then [⟨x.price, x.order.quantity⟩] else [] := by
  unfold boughtLots
  rw [List.filter_append, List.map_append]
  by_cases h : x.order.symbol = symbol ∧ x.order.isBuy
  · simp [h]
  · simp [h]

theorem soldLots_concat (trades : List Trade) (x : Trade) (symbol : String) :
    soldLots (trades ++ [x]) symbol = soldLots trades symbol ++
      if x.order.symbol = symbol ∧ x.order.isBuy = false then [⟨x.price, x.order.quantity⟩] else [] := by
  unfold soldLots
  rw [List.filter_append, List.map_append]
  by_cases h : x.order.symbol = symbol ∧ x.order.isBuy = false
  · simp [h]
  · simp [h]

/-- The closed form of a symbol. -/
def profitOf (trades : List Trade) (symbol : String) : ℚ :=
  fifoProfit (boughtLots trades symbol) (soldLots trades symbol)

/-- The accounts after the trades hold, symbol by symbol, what was bought and not yet sold. -/
def AllUnsold (trades : List Trade) (accounts : String → Account) : Prop :=
  ∀ symbol, Unsold (boughtLots trades symbol) (soldLots trades symbol) (accounts symbol)

variable {accounts : String → Account}

theorem AllUnsold.trade (h : AllUnsold trades accounts) (hx : 0 < x.order.quantity)
    (hheld : x.order.isBuy = false → x.order.quantity ≤ (accounts x.order.symbol).held) :
    AllUnsold (trades ++ [x])
      (Function.update accounts x.order.symbol ((accounts x.order.symbol).trade x)) := by
  intro symbol
  rw [boughtLots_concat, soldLots_concat]
  by_cases hs : symbol = x.order.symbol
  · subst hs
    rw [Function.update_self]
    cases hb : x.order.isBuy with
    | true => simpa using (h x.order.symbol).buy hx hb
    | false => simpa using (h x.order.symbol).sell hx hb (hheld hb)
  · rw [Function.update_of_ne hs]
    simpa [Ne.symm hs] using h symbol

theorem AllUnsold.profitOf_trade (h : AllUnsold trades accounts) (hx : 0 < x.order.quantity)
    (hheld : x.order.isBuy = false → x.order.quantity ≤ (accounts x.order.symbol).held)
    (symbol : String) :
    profitOf (trades ++ [x]) symbol = profitOf trades symbol +
      if symbol = x.order.symbol then (accounts x.order.symbol).gain x else 0 := by
  unfold profitOf
  rw [boughtLots_concat, soldLots_concat]
  by_cases hs : symbol = x.order.symbol
  · subst hs
    have hsymbol := h x.order.symbol
    cases hb : x.order.isBuy with
    | true =>
      rw [Account.gain_buy hb]
      simpa using fifoProfit_buy hsymbol.sold hsymbol.sold_le ⟨x.price, x.order.quantity⟩
    | false => simpa using hsymbol.gain_eq hx hb (hheld hb)
  · simp [hs, Ne.symm hs]

theorem profitOf_eq_zero (h : symbol ∉ trades.map (·.order.symbol)) : profitOf trades symbol = 0 := by
  have hnone : boughtLots trades symbol = [] := by
    unfold boughtLots
    rw [List.map_eq_nil_iff, List.filter_eq_nil_iff]
    rintro x hx hb
    simp only [Bool.decide_and, Bool.and_eq_true, decide_eq_true_eq] at hb
    exact h (List.mem_map.2 ⟨x, hx, hb.1⟩)
  rw [profitOf, hnone]
  rfl

/-- The sum of the closed forms of all symbols traded. -/
def totalProfit (trades : List Trade) : ℚ :=
  ∑ symbol ∈ (trades.map (·.order.symbol)).toFinset, profitOf trades symbol

theorem AllUnsold.totalProfit_trade (h : AllUnsold trades accounts) (hx : 0 < x.order.quantity)
    (hheld : x.order.isBuy = false → x.order.quantity ≤ (accounts x.order.symbol).held) :
    totalProfit (trades ++ [x]) = totalProfit trades + (accounts x.order.symbol).gain x := by
  unfold totalProfit
  rw [Finset.sum_congr rfl fun symbol _ => h.profitOf_trade hx hheld symbol, Finset.sum_add_distrib]
  congr 1
  · -- a symbol traded for the first time had made nothing
    symm
    apply Finset.sum_subset
    · intro symbol hs
      simp only [List.mem_toFinset, List.map_append, List.mem_append] at hs ⊢
      exact Or.inl hs
    · intro symbol _ hs
      exact profitOf_eq_zero fun hmem => hs (List.mem_toFinset.2 hmem)
  · rw [Finset.sum_ite_eq' _ x.order.symbol fun _ => (accounts x.order.symbol).gain x, if_pos]
    simp

end Trades

/-! ## The tracker -/

/-- A call of `record_trade`. -/
structure RecordedTrade extends Trade where
  fee : ℚ := 0

namespace PnLTracker

def step (t : PnLTracker) (x : RecordedTrade) : PnLTracker := t.recordTrade x.order x.price x.fee

/-- A SELL is for no more than is held of its symbol. -/
def SellsHeld (t : PnLTracker) (x : RecordedTrade) : Prop :=
  x.order.isBuy = false → x.order.quantity ≤ (t.tracked x.order.symbol).quantity

instance (t : PnLTracker) (x : RecordedTrade) : Decidable (t.SellsHeld x) :=
  inferInstanceAs (Decidable (_ → _))

/-- A fee changes nothing but the total of the fees. -/
theorem step_eq (t : PnLTracker) (x : RecordedTrade) :
    t.step x = { t.recordTrade x.order x.price with totalFees := t.totalFees + x.fee } :=
  rfl

theorem run_fifoProfit (xs : List RecordedTrade) (hxs : ∀ x ∈ xs, 0 < x.order.quantity)
    (hheld : Guarded step SellsHeld {} xs) :
    (run step {} xs).Follows (accountAfter (xs.map RecordedTrade.toTrade)) ∧
      AllUnsold (xs.map RecordedTrade.toTrade) (accountAfter (xs.map RecordedTrade.toTrade)) ∧
      (run step {} xs).totalRealizedPnl = totalProfit (xs.map RecordedTrade.toTrade) := by
  induction xs using List.reverseRecOn with
  | nil => exact ⟨follows_empty, fun _ => .fresh, rfl⟩
  | append_singleton xs x ih =>
    have hx : 0 < x.order.quantity := hxs x (by simp)
    have hold : ∀ y ∈ xs, 0 < y.order.quantity := fun y hy => hxs y (List.mem_append_left _ hy)
    obtain ⟨hfollows, hunsold, htotal⟩ :=
      ih hold fun ys y hys => hheld ys y (hys.trans (List.prefix_append xs [x]))
    have hlive := (hunsold x.order.symbol).live
    have hsell : x.order.isBuy = false → x.order.quantity ≤
        (accountAfter (xs.map RecordedTrade.toTrade) x.order.symbol).held := by
      intro hb
      rw [← (hfollows.shows x.order.symbol).quantity]
      exact hheld xs x (List.prefix_refl _) hb
    have hafter : accountAfter ((xs ++ [x]).map RecordedTrade.toTrade) =
        Function.update (accountAfter (xs.map RecordedTrade.toTrade)) x.order.symbol
          ((accountAfter (xs.map RecordedTrade.toTrade) x.order.symbol).trade x.toTrade) := by
      funext symbol
      rw [List.map_append, List.map_singleton, accountAfter_concat, Function.update_apply]
      split
      · next hs => rw [hs]
      · rfl
    have hstep := hfollows.recordTrade (x := x.toTrade) hlive hx
    rw [run_concat, step_eq, hafter]
    refine ⟨⟨hstep.shows, hstep.mem⟩, ?_, ?_⟩
    · rw [List.map_append, List.map_singleton]
      exact hunsold.trade (x := x.toTrade) hx hsell
    · rw [List.map_append, List.map_singleton, hunsold.totalProfit_trade (x := x.toTrade) hx hsell, ← htotal,
        hfollows.recordTrade_eq (x := x.toTrade) hlive hx]

/-- **First in, first out.** Over every sequence of trades of positive quantities, none selling more
than is held, the total realised P&L is the sum over the symbols and over all pairs of a purchase and
a sale of a symbol of what their common shares made. -/
theorem totalRealizedPnl_eq_sum_fifoProfit (xs : List RecordedTrade)
    (hxs : ∀ x ∈ xs, 0 < x.order.quantity) (hheld : Guarded step SellsHeld {} xs) :
    (run step {} xs).totalRealizedPnl =
      ∑ symbol ∈ (xs.map (·.order.symbol)).toFinset,
        fifoProfit (boughtLots (xs.map RecordedTrade.toTrade) symbol)
          (soldLots (xs.map RecordedTrade.toTrade) symbol) := by
  obtain ⟨-, -, htotal⟩ := run_fifoProfit xs hxs hheld
  rw [htotal, totalProfit, List.map_map]
  rfl

section TwoLots

def recorded (isBuy : Bool) (quantity price : ℚ) : RecordedTrade :=
  { order := { symbol := "AAPL", quantity, isBuy }, price, fee := 1 }

/-- Five and five shares bought at 100 and 110, eight of them sold at 120. -/
theorem twoLots_fifoProfit :
    (run step {} [recorded true 5 100, recorded true 5 110, recorded false 8 120]).totalRealizedPnl =
      fifoProfit [⟨100, 5⟩, ⟨110, 5⟩] [⟨120, 8⟩] := by
  have h := totalRealizedPnl_eq_sum_fifoProfit
    [recorded true 5 100, recorded true 5 110, recorded false 8 120] (by decide +kernel) (by decide +kernel)
  rw [h]
  simp [recorded, boughtLots, soldLots]

end TwoLots

end PnLTracker

end TradingTerminal
