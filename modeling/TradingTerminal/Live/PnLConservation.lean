import TradingTerminal.Live.Ledgers
import Mathlib.Tactic.FieldSimp

/-!
# Conservation of P&L

Over exact arithmetic and without fees the total P&L of a tracker should be the sales minus the
purchases plus what the shares held are worth (`Conserved`). Realised P&L is taken off the FIFO
queue, unrealised P&L off an average price that a SELL does not touch, so the two agree on what the
shares held have cost only while every SELL takes, off the front of the queue, shares that cost on
average what all the shares held cost (`KeepsMean`).
-/

namespace TradingTerminal

open Lib

namespace Ledgers

/-! ## What is to be conserved -/

/-- The sum of quantity times price over the trades of one side. -/
def turnover (isBuy : Bool) (trades : List Trade) : ℚ :=
  ((trades.filter (·.order.isBuy = isBuy)).map fun x => x.order.quantity * x.price).sum

/-- Bought minus sold. -/
def net (trades : List Trade) (symbol : String) : ℚ := netQuantity (trades.map Trade.order) symbol

/-- What the shares held are worth, over all symbols traded. -/
def worth (trades : List Trade) (prices : UMap String ℚ) : ℚ :=
  ∑ symbol ∈ (trades.map (·.order.symbol)).toFinset,
    net trades symbol * UMap.getD prices symbol 0

/-- For all prices of the symbols held, total P&L is sales minus purchases plus worth. -/
def Conserved (s : Ledgers) : Prop :=
  ∀ prices : UMap String ℚ, (∀ symbol, net s.trades symbol ≠ 0 → symbol ∈ prices) →
    s.tracker.getTotalPnl prices =
      turnover false s.trades - turnover true s.trades + worth s.trades prices

/-- The trade has a positive quantity and is no SELL of more than is held. -/
structure Covered (s : Ledgers) (x : Trade) : Prop where
  positive : 0 < x.order.quantity
  held : x.order.isBuy = false → x.order.quantity ≤ net s.trades x.order.symbol

/-- A SELL leaves shares that have cost on average what the shares before it had cost. -/
def KeepsMean (s : Ledgers) (x : Trade) : Prop :=
  let a := s.account x.order.symbol
  x.order.isBuy = false →
    lotsCost (a.lotsAfter x) * a.held = lotsCost a.lots * lotsQuantity (a.lotsAfter x)

/-! ## Turnover and net quantity of one more trade -/

theorem turnover_concat (isBuy : Bool) (trades : List Trade) (x : Trade) :
    turnover isBuy (trades ++ [x]) =
      turnover isBuy trades + if x.order.isBuy = isBuy then x.order.quantity * x.price else 0 := by
  unfold turnover
  by_cases h : x.order.isBuy = isBuy
  · simp [h]
  · simp [h]

theorem net_concat (trades : List Trade) (x : Trade) (symbol : String) :
    net (trades ++ [x]) symbol =
      net trades symbol + if symbol = x.order.symbol then x.order.signed else 0 := by
  rw [net, List.map_append, List.map_cons, List.map_nil, netQuantity_concat, net]

/-! ## Two costs of the shares held -/

/-- What the lots in the tracker have cost. -/
def queueCost (t : PnLTracker) : ℚ :=
  UMap.sumBy t.positions fun _ pos => lotsCost pos.tradeHistory

/-- What the quantities in the tracker come to at their average prices. -/
def averageCost (t : PnLTracker) : ℚ :=
  UMap.sumBy t.positions fun _ pos => pos.avgPrice * pos.quantity

/-- The books of a run without oversold symbols: what is held is what was bought and not sold, and
the realised P&L is the turnover plus the cost of what is still in the queues. -/
structure Books (s : Ledgers) : Prop where
  follow : s.Follow
  held : ∀ symbol, net s.trades symbol = (s.account symbol).held
  realised : s.tracker.totalRealizedPnl =
    turnover false s.trades - turnover true s.trades + queueCost s.tracker

variable {s : Ledgers} {x : Trade}

theorem books_empty : Books {} := by
  refine ⟨follow_empty, fun _ => rfl, ?_⟩
  simp [turnover, queueCost]

/-- A term of a sum over the positions that vanishes on the empty entry is its value at the entry. -/
theorem termAt_tracked (t : PnLTracker) {f : PositionTracker → ℚ} (hf : f {} = 0)
    (symbol : String) : UMap.termAt t.positions (fun _ => f) symbol = f (t.tracked symbol) := by
  unfold PnLTracker.tracked UMap.getD
  cases h : t.positions.lookup symbol with
  | none => rw [UMap.termAt_of_lookup_none h, Option.getD_none, hf]
  | some pos => rw [UMap.termAt_of_lookup h, Option.getD_some]

/-- The tracker's entry of the symbol after a trade. -/
def entryAfter (s : Ledgers) (x : Trade) : Option PositionTracker :=
  let a := s.account x.order.symbol
  if a.SellsOut x then none
  else some { quantity := a.held + x.order.signed, avgPrice := s.tracker.avgAfter a x,
              tradeHistory := a.lotsAfter x }

theorem Follow.positions_step (h : s.Follow) (hx : 0 < x.order.quantity) :
    (s.step x).tracker.positions =
      UMap.set s.tracker.positions x.order.symbol (s.entryAfter x) :=
  congrArg PnLTracker.positions (h.tracker.recordTrade_eq (h.live x.order.symbol) hx)

theorem Follow.tracked_step (h : s.Follow) (hx : 0 < x.order.quantity) (symbol : String) :
    (s.step x).tracker.tracked symbol =
      if symbol = x.order.symbol then (s.entryAfter x).getD {} else s.tracker.tracked symbol := by
  rw [PnLTracker.tracked, h.positions_step hx, UMap.getD_set, PnLTracker.tracked]

/-- A sum over the positions after a trade. -/
theorem Follow.sumBy_step (h : s.Follow) (hx : 0 < x.order.quantity) {f : PositionTracker → ℚ}
    (hf : f {} = 0) :
    UMap.sumBy (s.step x).tracker.positions (fun _ => f) =
      UMap.sumBy s.tracker.positions (fun _ => f) - f (s.tracker.tracked x.order.symbol) +
        f ((s.step x).tracker.tracked x.order.symbol) := by
  rw [h.positions_step hx, h.tracked_step hx, if_pos rfl, UMap.sumBy_set, termAt_tracked _ hf]
  cases s.entryAfter x with
  | none => rw [Option.elim_none, Option.getD_none, hf]
  | some pos => rfl

theorem Books.tracked_tradeHistory (h : s.Books) (symbol : String) :
    (s.tracker.tracked symbol).tradeHistory = (s.account symbol).lots :=
  (h.follow.tracker.shows symbol).lots

/-- A covered SELL of everything is a SELL of exactly what is held. -/
theorem Books.quantity_eq_of_sellsOut (h : s.Books) (hx : s.Covered x)
    (hout : (s.account x.order.symbol).SellsOut x) :
    x.order.quantity = (s.account x.order.symbol).held :=
  le_antisymm (h.held x.order.symbol ▸ hx.held hout.1) hout.2

/-- The lots after a covered trade, whether or not it closes the account. -/
theorem Books.lots_trade (h : s.Books) (hx : s.Covered x) :
    ((s.account x.order.symbol).trade x).lots = (s.account x.order.symbol).lotsAfter x := by
  by_cases hout : (s.account x.order.symbol).SellsOut x
  · rw [Account.trade_of_sellsOut hout, Account.lotsAfter_sell hout.1]
    exact (sellFifo_eq_nil (h.follow.live _) hx.positive.le hout.2).symm
  · rw [Account.trade_of_not_sellsOut hout]

/-- What is held after a covered trade. -/
theorem Books.held_lotsAfter (h : s.Books) (hx : s.Covered x) :
    lotsQuantity ((s.account x.order.symbol).lotsAfter x) =
      (s.account x.order.symbol).held + x.order.signed := by
  have hheld := Account.held_trade (h.follow.live x.order.symbol) hx.positive
  rw [Account.held, h.lots_trade hx] at hheld
  rw [hheld, max_eq_right]
  by_cases hout : (s.account x.order.symbol).SellsOut x
  · rw [Order.signed, hout.1, if_neg (by simp), h.quantity_eq_of_sellsOut hx hout]
    linarith
  · exact (Account.held_pos_of_not_sellsOut (h.follow.live _) hx.positive hout).le

/-- The profit of a trade is its turnover plus what it adds to the cost of the queue. -/
theorem Books.gain_eq (h : s.Books) (hx : s.Covered x) :
    let a := s.account x.order.symbol
    a.gain x = lotsCost (a.lotsAfter x) - lotsCost a.lots - x.order.signed * x.price := by
  have hheld := h.held_lotsAfter hx
  dsimp only
  cases hb : x.order.isBuy with
  | true =>
    rw [Account.gain_buy hb, Account.lotsAfter_buy hb, lotsCost_concat, Order.signed, hb,
      if_pos rfl]
    ring
  | false =>
    rw [Account.lotsAfter_sell hb, Account.held] at hheld
    rw [Account.gain_sell hb, sellFifo_profit, Account.lotsAfter_sell hb, hheld]
    ring

theorem Books.step (h : s.Books) (hx : s.Covered x) : (s.step x).Books := by
  have hfollow := h.follow.step hx.positive
  refine ⟨hfollow, ?_, ?_⟩
  · intro symbol
    rw [account_step, Function.update_apply]
    change net (s.trades ++ [x]) symbol = _
    rw [net_concat, h.held]
    split
    · next hs =>
      rw [hs, ← h.held_lotsAfter hx, ← h.lots_trade hx]
      rfl
    · rw [add_zero]
  · have hqueue : queueCost (s.step x).tracker = queueCost s.tracker -
        lotsCost (s.account x.order.symbol).lots +
          lotsCost ((s.account x.order.symbol).lotsAfter x) := by
      unfold queueCost
      rw [h.follow.sumBy_step (f := fun pos => lotsCost pos.tradeHistory) hx.positive rfl,
        h.tracked_tradeHistory, (hfollow.tracker.shows _).lots, account_step, Function.update_self,
        h.lots_trade hx]
    rw [h.follow.totalRealizedPnl_step hx.positive, hqueue, h.realised, h.gain_eq hx]
    change _ = turnover false (s.trades ++ [x]) - turnover true (s.trades ++ [x]) + _
    rw [turnover_concat, turnover_concat, Order.signed]
    cases x.order.isBuy with
    | true => simp only [if_true, Bool.true_eq_false, if_false]; ring
    | false => simp only [if_true, Bool.false_eq_true, if_false]; ring

/-! ## Conservation as equality of the two costs -/

/-- The worth of the shares held, as a sum over the positions of the tracker. -/
theorem Books.worth_eq (h : s.Books) (prices : UMap String ℚ) :
    worth s.trades prices =
      UMap.sumBy s.tracker.positions fun symbol pos => pos.quantity * UMap.getD prices symbol 0 := by
  have hterm : ∀ symbol, UMap.termAt s.tracker.positions
      (fun symbol pos => pos.quantity * UMap.getD prices symbol 0) symbol =
      net s.trades symbol * UMap.getD prices symbol 0 := by
    intro symbol
    rw [h.held, ← (h.follow.tracker.shows symbol).quantity]
    exact termAt_tracked s.tracker (f := fun pos => pos.quantity * UMap.getD prices symbol 0)
      (zero_mul _) symbol
  have hkeys : ∀ symbol ∈ s.tracker.positions,
      symbol ∈ (s.trades.map (·.order.symbol)).toFinset := by
    intro symbol hmem
    by_contra hnot
    have hopen := (h.follow.tracker.mem symbol).1 hmem
    have hpos := (h.follow.live symbol).quantity_pos hopen
    have hzero : net s.trades symbol = 0 := by
      unfold net netQuantity
      rw [List.filter_eq_nil_iff.2]
      · rfl
      · intro order horder
        obtain ⟨y, hy, rfl⟩ := List.mem_map.1 horder
        simp only [List.mem_toFinset, List.mem_map, not_exists, not_and] at hnot
        simpa using hnot y hy
    rw [h.held, Account.held] at hzero
    linarith
  rw [worth, UMap.sumBy_eq_sum hkeys]
  exact Finset.sum_congr rfl fun symbol _ => (hterm symbol).symm

theorem Books.getTotalPnl_eq (h : s.Books) {prices : UMap String ℚ}
    (hcover : ∀ symbol, net s.trades symbol ≠ 0 → symbol ∈ prices) :
    s.tracker.getTotalPnl prices =
      turnover false s.trades - turnover true s.trades + worth s.trades prices +
        (queueCost s.tracker - averageCost s.tracker) := by
  have hunrealised : s.tracker.getTotalUnrealizedPnl prices =
      worth s.trades prices - averageCost s.tracker := by
    rw [h.worth_eq]
    unfold PnLTracker.getTotalUnrealizedPnl averageCost
    rw [← UMap.sumBy_sub]
    refine UMap.sumBy_congr_of_mem ?_
    intro symbol pos hlookup
    have hheld : net s.trades symbol ≠ 0 := by
      have hmem := AList.lookup_isSome.1 (Option.isSome_of_eq_some hlookup)
      rw [h.held]
      exact ((h.follow.live symbol).quantity_pos ((h.follow.tracker.mem symbol).1 hmem)).ne'
    obtain ⟨price, hprice⟩ := Option.isSome_iff_exists.1 (AList.lookup_isSome.2 (hcover symbol hheld))
    simp only [hprice, UMap.getD, Option.getD_some]
    ring
  rw [PnLTracker.getTotalPnl, hunrealised, h.realised]
  ring

theorem Books.conserved_iff (h : s.Books) :
    Conserved s ↔ queueCost s.tracker = averageCost s.tracker := by
  constructor
  · intro hcons
    obtain ⟨prices, hprices⟩ := UMap.exists_lookup_eq_some s.tracker.positions.keys (0 : ℚ)
    have hcover : ∀ symbol, net s.trades symbol ≠ 0 → symbol ∈ prices := by
      intro symbol hne
      rw [h.held] at hne
      have hopen : (s.account symbol).Open := by
        intro hnil
        rw [Account.held, hnil] at hne
        exact hne rfl
      have hkey := AList.mem_keys.1 ((h.follow.tracker.mem symbol).2 hopen)
      exact AList.lookup_isSome.1 (Option.isSome_of_eq_some (hprices symbol hkey))
    have htotal := hcons prices hcover
    rw [h.getTotalPnl_eq hcover] at htotal
    linarith
  · intro hcost prices hcover
    rw [h.getTotalPnl_eq hcover, hcost]
    ring

/-! ## The average price and the queue -/

/-- The average prices account for exactly what the lots have cost. -/
def AtMean (s : Ledgers) : Prop :=
  ∀ symbol, (s.tracker.tracked symbol).avgPrice * (s.account symbol).held =
    lotsCost (s.account symbol).lots

theorem Books.queueCost_eq (h : s.Books) (hmean : s.AtMean) :
    queueCost s.tracker = averageCost s.tracker := by
  refine UMap.sumBy_congr (fun symbol => ?_) fun _ => Iff.rfl
  rw [termAt_tracked s.tracker (f := fun pos => lotsCost pos.tradeHistory) rfl,
    termAt_tracked s.tracker (f := fun pos => pos.avgPrice * pos.quantity) (mul_zero _),
    h.tracked_tradeHistory, (h.follow.tracker.shows symbol).quantity, hmean]

/-- The entry of the symbol after a trade accounts for its lots exactly if the trade keeps the mean. -/
theorem Books.mean_step (h : s.Books) (hx : s.Covered x) (hmean : s.AtMean) :
    (((s.step x).tracker.tracked x.order.symbol).avgPrice *
        ((s.step x).account x.order.symbol).held =
      lotsCost ((s.step x).account x.order.symbol).lots) ↔ KeepsMean s x := by
  have hmean := hmean x.order.symbol
  have hheld := h.held_lotsAfter hx
  rw [account_step, Function.update_self, h.follow.tracked_step hx.positive, if_pos rfl,
    Account.held, h.lots_trade hx, hheld]
  unfold KeepsMean entryAfter
  dsimp only
  rw [hheld]
  by_cases hout : (s.account x.order.symbol).SellsOut x
  · have hnil : (s.account x.order.symbol).lotsAfter x = [] := by
      rw [← h.lots_trade hx, Account.trade_of_sellsOut hout]
    rw [hnil, lotsQuantity_nil] at hheld
    rw [if_pos hout, hnil, ← hheld]
    simp
  · have hpos := Account.held_pos_of_not_sellsOut (h.follow.live _) hx.positive hout
    rw [if_neg hout]
    cases hb : x.order.isBuy with
    | true =>
      rw [Account.lotsAfter_buy hb, lotsCost_concat, ← hmean]
      simp only [Option.getD_some, PnLTracker.avgAfter, Order.signed, hb, if_true,
        Bool.true_eq_false, false_implies, iff_true] at hpos ⊢
      field_simp
    | false =>
      have hbefore : 0 < (s.account x.order.symbol).held := by
        rw [Order.signed, hb, if_neg (by simp)] at hpos
        linarith [hx.positive]
      simp only [Option.getD_some, PnLTracker.avgAfter, hb, Bool.false_eq_true, if_false,
        forall_const]
      rw [← hmean, mul_right_comm, eq_comm]
      constructor
      · intro hcost
        rw [hcost]
      · intro hcost
        exact mul_right_cancel₀ hbefore.ne' hcost

theorem Books.atMean_step (h : s.Books) (hx : s.Covered x) (hmean : s.AtMean)
    (hkeeps : KeepsMean s x) : (s.step x).AtMean := by
  intro symbol
  by_cases hs : symbol = x.order.symbol
  · rw [hs]
    exact (h.mean_step hx hmean).2 hkeeps
  · rw [account_step, Function.update_of_ne hs, h.follow.tracked_step hx.positive, if_neg hs]
    exact hmean symbol

/-- A trade that does not keep the mean parts the two costs. -/
theorem Books.queueCost_ne (h : s.Books) (hx : s.Covered x) (hmean : s.AtMean)
    (hkeeps : ¬ KeepsMean s x) : queueCost (s.step x).tracker ≠ averageCost (s.step x).tracker := by
  have hfollow := h.follow.step hx.positive
  have hne := mt (h.mean_step hx hmean).1 hkeeps
  have hcosts := h.queueCost_eq hmean
  unfold queueCost averageCost at hcosts ⊢
  rw [h.follow.sumBy_step (f := fun pos => lotsCost pos.tradeHistory) hx.positive rfl,
    h.follow.sumBy_step (f := fun pos => pos.avgPrice * pos.quantity) hx.positive (mul_zero _),
    hcosts, h.tracked_tradeHistory, (hfollow.tracker.shows _).lots, (hfollow.tracker.shows _).quantity,
    (h.follow.tracker.shows _).quantity, hmean]
  intro heq
  exact hne (add_left_cancel heq).symm

/-- **Conservation of P&L.** Over every sequence of covered trades, the total P&L of the tracker is
conserved throughout if and only if every SELL leaves shares that have cost on average what the
shares before it had cost. -/
theorem conserved_iff_keepsMean (xs : List Trade) (hxs : Guarded Ledgers.step Covered {} xs) :
    Throughout Ledgers.step Conserved {} xs ↔ Guarded Ledgers.step KeepsMean {} xs := by
  apply throughout_iff_guarded_within (I := fun s => Books s ∧ AtMean s) (A := Covered)
  · rintro s ⟨hbooks, hmean⟩
    exact hbooks.conserved_iff.2 (hbooks.queueCost_eq hmean)
  · rintro s x hx ⟨hbooks, hmean⟩ hkeeps
    exact ⟨hbooks.step hx, hbooks.atMean_step hx hmean hkeeps⟩
  · rintro s x hx ⟨hbooks, hmean⟩ hkeeps hcons
    exact hbooks.queueCost_ne hx hmean hkeeps ((hbooks.step hx).conserved_iff.1 hcons)
  · exact hxs
  · refine ⟨books_empty, fun symbol => ?_⟩
    simp [PnLTracker.tracked, Ledgers.account, Account.held]

section TwoPrices

/-- Ten shares bought at 100, four of them sold at 150. -/
theorem onePrice_conserved :
    Throughout Ledgers.step Conserved {} [fill true 10 100, fill false 4 150] := by
  refine (conserved_iff_keepsMean [fill true 10 100, fill false 4 150] ?_).2 ?_
  · simp only [guarded_cons, guarded_nil, and_true]
    exact ⟨⟨by decide +kernel, by decide +kernel⟩, ⟨by decide +kernel, by decide +kernel⟩⟩
  · simp only [guarded_cons, guarded_nil, and_true]
    exact ⟨fun h => absurd h (by decide +kernel), fun _ => by decide +kernel⟩

/-- Ten shares bought at 100 and ten at 200, then ten sold at 200. -/
def twoPrices : List Trade := [fill true 10 100, fill true 10 200, fill false 10 200]

/-- At a price of 200 the tracker reports a total of 1500 where 1000 was made. -/
theorem twoPrices_not_conserved :
    Guarded Ledgers.step Covered {} twoPrices ∧ ¬ Throughout Ledgers.step Conserved {} twoPrices := by
  constructor
  · simp only [twoPrices, guarded_cons, guarded_nil, and_true]
    exact ⟨⟨by decide +kernel, by decide +kernel⟩, ⟨by decide +kernel, by decide +kernel⟩,
      ⟨by decide +kernel, by decide +kernel⟩⟩
  · intro h
    have hcover : ∀ symbol, net (run Ledgers.step {} twoPrices).trades symbol ≠ 0 →
        symbol ∈ (AList.singleton "AAPL" 200 : UMap String ℚ) := by
      intro symbol hne
      by_contra hnot
      have hs : "AAPL" ≠ symbol := by
        rintro rfl
        exact hnot (List.mem_singleton_self "AAPL")
      exact hne (by simp [twoPrices, Ledgers.step, net, netQuantity, fill, hs])
    exact absurd (h.last _ hcover) (by decide +kernel)

end TwoPrices

end Ledgers

end TradingTerminal
