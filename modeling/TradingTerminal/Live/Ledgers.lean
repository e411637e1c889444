import TradingTerminal.Live.PnLTracker
import TradingTerminal.Live.PositionManager
import TradingTerminal.Lib.Run

/-!
# The two ledgers of the trading core

`core/trading_core.hpp` holds a `PnLTracker` and a `PositionManager`; `Ledgers` feeds both the same
trades and keeps the list of them.

What both account for is one FIFO account per symbol (`Account`), opened flat and closed when it is
sold out. `accountAfter` is the account the trades of a symbol lead to; the tracker follows its lots
(`PnLTracker.Follows`), the manager its lots and its profit (`PositionManager.Follows`). The tracker
adds up the profit of all trades, the manager that of the open accounts, so the two totals part when
an account is closed with a profit or a loss (`realizedPnl_agree_iff`).
-/

namespace TradingTerminal

open Lib

/-! ## Accounts -/

/-- An order that was filled, at the price it was filled at. -/
structure Trade where
  order : Order
  price : ℚ

/-- The lots held of a symbol and the profit made with them since it was last flat. -/
@[ext] structure Account where
  lots : List Lot := []
  realised : ℚ := 0

namespace Account

def held (a : Account) : ℚ := lotsQuantity a.lots

def Open (a : Account) : Prop := a.lots ≠ []

/-- The profit a trade makes. -/
def gain (a : Account) (x : Trade) : ℚ :=
  if x.order.isBuy then 0 else (sellFifo x.price x.order.quantity a.lots).2

/-- The lots after a trade. -/
def lotsAfter (a : Account) (x : Trade) : List Lot :=
  if x.order.isBuy then a.lots ++ [⟨x.price, x.order.quantity⟩]
  else (sellFifo x.price x.order.quantity a.lots).1

/-- The trade is a SELL of everything held, or of more. -/
def SellsOut (a : Account) (x : Trade) : Prop :=
  x.order.isBuy = false ∧ a.held ≤ x.order.quantity

instance (a : Account) (x : Trade) : Decidable (a.SellsOut x) := inferInstanceAs (Decidable (_ ∧ _))

def trade (a : Account) (x : Trade) : Account :=
  if a.SellsOut x then {} else { lots := a.lotsAfter x, realised := a.realised + a.gain x }

variable {a : Account} {x : Trade}

theorem trade_of_sellsOut (h : a.SellsOut x) : a.trade x = {} := if_pos h

theorem trade_of_not_sellsOut (h : ¬ a.SellsOut x) :
    a.trade x = { lots := a.lotsAfter x, realised := a.realised + a.gain x } :=
  if_neg h

theorem lotsAfter_buy (hb : x.order.isBuy = true) :
    a.lotsAfter x = a.lots ++ [⟨x.price, x.order.quantity⟩] :=
  if_pos hb

theorem lotsAfter_sell (hb : x.order.isBuy = false) :
    a.lotsAfter x = (sellFifo x.price x.order.quantity a.lots).1 :=
  if_neg (by simp [hb])

theorem gain_buy (hb : x.order.isBuy = true) : a.gain x = 0 := if_pos hb

theorem gain_sell (hb : x.order.isBuy = false) :
    a.gain x = (sellFifo x.price x.order.quantity a.lots).2 :=
  if_neg (by simp [hb])

theorem live_trade (h : Live a.lots) (hx : 0 < x.order.quantity) : Live (a.trade x).lots := by
  unfold trade lotsAfter
  split
  · exact live_nil
  · split
    · exact live_concat.2 ⟨h, hx⟩
    · exact sellFifo_live h

/-- A trade that does not sell out leaves shares. -/
theorem held_pos_of_not_sellsOut (h : Live a.lots) (hx : 0 < x.order.quantity)
    (hout : ¬ a.SellsOut x) : 0 < a.held + x.order.signed := by
  have hnonneg : 0 ≤ a.held := h.nonneg
  unfold Order.signed
  cases hb : x.order.isBuy with
  | true => simp only [if_true]; linarith
  | false =>
    have hlt : x.order.quantity < a.held := not_le.1 fun hle => hout ⟨hb, hle⟩
    simp only [Bool.false_eq_true, if_false]
    linarith

theorem held_nonpos_of_sellsOut (hout : a.SellsOut x) : a.held + x.order.signed ≤ 0 := by
  unfold Order.signed
  rw [hout.1, if_neg (by simp)]
  linarith [hout.2]

theorem held_lotsAfter (h : Live a.lots) (hx : 0 < x.order.quantity) (hout : ¬ a.SellsOut x) :
    lotsQuantity (a.lotsAfter x) = a.held + x.order.signed := by
  unfold Order.signed
  cases hb : x.order.isBuy with
  | true => rw [lotsAfter_buy hb, lotsQuantity_concat, if_pos rfl, held]
  | false =>
    have hlt : x.order.quantity < a.held := not_le.1 fun hle => hout ⟨hb, hle⟩
    rw [held] at hlt
    rw [lotsAfter_sell hb, sellFifo_quantity h hx.le, max_eq_right (by linarith), if_neg (by simp),
      held, sub_eq_add_neg]

/-- What is held after a trade: a sale of more than is held leaves nothing. -/
theorem held_trade (h : Live a.lots) (hx : 0 < x.order.quantity) :
    (a.trade x).held = max 0 (a.held + x.order.signed) := by
  by_cases hout : a.SellsOut x
  · rw [trade_of_sellsOut hout, max_eq_left (held_nonpos_of_sellsOut hout)]
    rfl
  · rw [trade_of_not_sellsOut hout, max_eq_right (held_pos_of_not_sellsOut h hx hout).le]
    exact held_lotsAfter h hx hout

theorem open_trade (h : Live a.lots) (hx : 0 < x.order.quantity) :
    (a.trade x).Open ↔ ¬ a.SellsOut x := by
  constructor
  · intro hne hout
    exact hne (by rw [trade_of_sellsOut hout])
  · intro hout hnil
    have hpos := held_pos_of_not_sellsOut h hx hout
    rw [← held_lotsAfter h hx hout] at hpos
    rw [trade_of_not_sellsOut hout] at hnil
    have hempty : a.lotsAfter x = [] := hnil
    rw [hempty] at hpos
    exact lt_irrefl 0 hpos

end Account

/-- The account of a symbol after a list of trades. -/
def accountAfter (trades : List Trade) (symbol : String) : Account :=
  trades.foldl (fun a x => if x.order.symbol = symbol then a.trade x else a) {}

@[simp] theorem accountAfter_nil (symbol : String) : accountAfter [] symbol = {} := rfl

theorem accountAfter_concat (trades : List Trade) (x : Trade) (symbol : String) :
    accountAfter (trades ++ [x]) symbol =
      if symbol = x.order.symbol then (accountAfter trades symbol).trade x else accountAfter trades symbol := by
  simp only [accountAfter, List.foldl_append, List.foldl_cons, List.foldl_nil, eq_comm]

/-- The accounts of all symbols hold live lots. -/
theorem accountAfter_live {trades : List Trade} (h : ∀ x ∈ trades, 0 < x.order.quantity)
    (symbol : String) : Live (accountAfter trades symbol).lots := by
  induction trades using List.reverseRecOn with
  | nil => exact live_nil
  | append_singleton trades x ih =>
    have hlive := ih fun y hy => h y (List.mem_append_left _ hy)
    rw [accountAfter_concat]
    split
    · exact Account.live_trade hlive (h x (by simp))
    · exact hlive

/-- An account without lots has no profit on its books. -/
theorem accountAfter_flat {trades : List Trade} (h : ∀ x ∈ trades, 0 < x.order.quantity)
    (symbol : String) (hnil : ¬ (accountAfter trades symbol).Open) :
    (accountAfter trades symbol).realised = 0 := by
  induction trades using List.reverseRecOn with
  | nil => rfl
  | append_singleton trades x ih =>
    have hold : ∀ y ∈ trades, 0 < y.order.quantity := fun y hy => h y (List.mem_append_left _ hy)
    rw [accountAfter_concat] at hnil ⊢
    split at hnil
    · next hs =>
      rw [if_pos hs]
      have hopen := Account.open_trade (accountAfter_live hold symbol) (h x (by simp))
      rw [Account.trade_of_sellsOut (not_not.1 (mt hopen.2 hnil))]
    · next hs =>
      rw [if_neg hs]
      exact ih hold hnil

/-! ## The tracker follows the accounts -/

namespace PnLTracker

/-- An entry of the tracker that shows an account. -/
structure Shows (pos : PositionTracker) (a : Account) : Prop where
  lots : pos.tradeHistory = a.lots
  quantity : pos.quantity = a.held

/-- The tracker shows all accounts and has an entry for those that hold lots. -/
structure Follows (t : PnLTracker) (accounts : String → Account) : Prop where
  shows : ∀ symbol, Shows (t.tracked symbol) (accounts symbol)
  mem : ∀ symbol, symbol ∈ t.positions ↔ (accounts symbol).Open

theorem follows_empty : Follows {} fun _ => {} := by
  constructor
  · intro symbol
    simp only [tracked, UMap.getD_empty]
    exact ⟨rfl, rfl⟩
  · simp [Account.Open]

/-- The average price after a trade: a SELL leaves it as it is. -/
def avgAfter (t : PnLTracker) (a : Account) (x : Trade) : ℚ :=
  let pos := t.tracked x.order.symbol
  if x.order.isBuy then
    (pos.avgPrice * a.held + x.price * x.order.quantity) / (a.held + x.order.quantity)
  else pos.avgPrice

variable {t : PnLTracker} {accounts : String → Account} {x : Trade}

/-- The tracker after a trade; its entry is gone if the trade sells the account out. -/
theorem Follows.recordTrade_eq (h : t.Follows accounts)
    (hlive : Live (accounts x.order.symbol).lots) (hx : 0 < x.order.quantity) :
    let a := accounts x.order.symbol
    t.recordTrade x.order x.price =
      { positions := UMap.set t.positions x.order.symbol <|
          if a.SellsOut x then none
          else some { quantity := a.held + x.order.signed, avgPrice := t.avgAfter a x,
                      tradeHistory := a.lotsAfter x }
        totalRealizedPnl := t.totalRealizedPnl + a.gain x
        totalFees := t.totalFees + 0 } := by
  obtain ⟨hlots, hquantity⟩ := h.shows x.order.symbol
  have hnonneg : 0 ≤ (accounts x.order.symbol).held := hlive.nonneg
  unfold recordTrade
  cases hb : x.order.isBuy with
  | true =>
    have hpos : 0 < (accounts x.order.symbol).held + x.order.quantity := by linarith
    simp only [if_true, hlots, hquantity, avgAfter, Account.SellsOut, Account.gain_buy hb,
      Account.lotsAfter_buy hb, Order.signed, hb, Bool.true_eq_false, false_and, if_false,
      if_pos hpos, if_neg (not_le.2 hpos), UMap.set]
  | false =>
    simp only [Bool.false_eq_true, if_false, hlots, hquantity, avgAfter, Account.SellsOut,
      Account.gain_sell hb, Account.lotsAfter_sell hb, Order.signed, hb, true_and, consumeLots_eq,
      zero_add, ← sub_eq_add_neg, sub_nonpos, UMap.erase_insert_self]
    by_cases hout : (accounts x.order.symbol).held ≤ x.order.quantity
    · simp only [if_pos hout, UMap.set]
    · simp only [if_neg hout, UMap.set]

theorem Follows.recordTrade (h : t.Follows accounts) (hlive : Live (accounts x.order.symbol).lots)
    (hx : 0 < x.order.quantity) :
    (t.recordTrade x.order x.price).Follows
      (Function.update accounts x.order.symbol ((accounts x.order.symbol).trade x)) := by
  rw [h.recordTrade_eq hlive hx]
  by_cases hout : (accounts x.order.symbol).SellsOut x
  · rw [Account.trade_of_sellsOut hout, if_pos hout]
    exact ⟨UMap.forall_getD_set h.shows ⟨rfl, rfl⟩,
      UMap.forall_mem_set h.mem (by simp [Account.Open])⟩
  · have hne := (Account.open_trade hlive hx).2 hout
    rw [Account.trade_of_not_sellsOut hout] at hne ⊢
    rw [if_neg hout]
    exact ⟨UMap.forall_getD_set h.shows ⟨rfl, (Account.held_lotsAfter hlive hx hout).symm⟩,
      UMap.forall_mem_set h.mem (iff_of_true rfl hne)⟩

end PnLTracker

/-! ## The manager follows the accounts -/

namespace PositionManager

/-- An entry of the manager that shows an account. -/
structure Shows (pos : PositionDetail) (a : Account) : Prop where
  lots : pos.lots = a.lots
  quantity : pos.quantity = a.held
  realised : pos.realizedPnl = a.realised

/-- The manager shows all accounts and has an entry for those that hold lots. -/
structure Follows (m : PositionManager) (accounts : String → Account) : Prop where
  shows : ∀ symbol, Shows (m.detail symbol) (accounts symbol)
  mem : ∀ symbol, symbol ∈ m.positions ↔ (accounts symbol).Open

theorem follows_empty : Follows {} fun _ => {} := by
  constructor
  · intro symbol
    simp only [detail, UMap.getD_empty]
    exact ⟨rfl, rfl, rfl⟩
  · simp [Account.Open]

/-- The average price after a trade: a SELL recomputes it from the lots left. -/
def avgAfter (m : PositionManager) (a : Account) (x : Trade) : ℚ :=
  if x.order.isBuy then
    ((m.detail x.order.symbol).avgPrice * a.held + x.price * x.order.quantity) /
      (a.held + x.order.quantity)
  else lotsCost (a.lotsAfter x) / lotsQuantity (a.lotsAfter x)

variable {m : PositionManager} {accounts : String → Account} {x : Trade}

/-- The manager after a trade; its entry is gone if the trade sells the account out. -/
theorem Follows.addPosition_eq (h : m.Follows accounts)
    (hlive : Live (accounts x.order.symbol).lots) (hx : 0 < x.order.quantity) :
    let a := accounts x.order.symbol
    m.addPosition x.order.symbol x.order.signed x.price =
      { positions := UMap.set m.positions x.order.symbol <|
          if a.SellsOut x then none
          else some { quantity := a.held + x.order.signed, avgPrice := m.avgAfter a x,
                      realizedPnl := a.realised + a.gain x, lots := a.lotsAfter x } } := by
  obtain ⟨hlots, hquantity, hrealised⟩ := h.shows x.order.symbol
  have hnonneg : 0 ≤ (accounts x.order.symbol).held := hlive.nonneg
  unfold addPosition
  cases hb : x.order.isBuy with
  | true =>
    have hpos : 0 < (accounts x.order.symbol).held + x.order.quantity := by linarith
    simp only [if_true, hlots, hquantity, hrealised, avgAfter, Account.SellsOut,
      Account.gain_buy hb, Account.lotsAfter_buy hb, Order.signed, hb, Bool.true_eq_false,
      false_and, if_false, gt_iff_lt, if_pos hx, if_pos hpos, add_zero, UMap.set]
  | false =>
    have hneg : ¬ -x.order.quantity > 0 := by linarith
    simp only [Bool.false_eq_true, if_false, hlots, hquantity, hrealised, avgAfter,
      Account.SellsOut, Account.gain_sell hb, Account.lotsAfter_sell hb, Order.signed, hb, true_and,
      consumeLots_eq, if_neg hneg, neg_neg, ← sub_eq_add_neg, sub_nonpos, UMap.erase_insert_self]
    by_cases hout : (accounts x.order.symbol).held ≤ x.order.quantity
    · simp only [if_pos hout, UMap.set]
    · have hleft : 0 < lotsQuantity (sellFifo x.price x.order.quantity
          (accounts x.order.symbol).lots).1 := by
        have hheld := Account.held_lotsAfter hlive hx fun h => hout h.2
        rw [Account.lotsAfter_sell hb] at hheld
        rw [hheld]
        exact Account.held_pos_of_not_sellsOut hlive hx fun h => hout h.2
      simp only [if_neg hout, gt_iff_lt, if_pos hleft, UMap.set]

theorem Follows.addPosition (h : m.Follows accounts) (hlive : Live (accounts x.order.symbol).lots)
    (hx : 0 < x.order.quantity) :
    (m.addPosition x.order.symbol x.order.signed x.price).Follows
      (Function.update accounts x.order.symbol ((accounts x.order.symbol).trade x)) := by
  rw [h.addPosition_eq hlive hx]
  by_cases hout : (accounts x.order.symbol).SellsOut x
  · rw [Account.trade_of_sellsOut hout, if_pos hout]
    exact ⟨UMap.forall_getD_set h.shows ⟨rfl, rfl, rfl⟩,
      UMap.forall_mem_set h.mem (by simp [Account.Open])⟩
  · have hne := (Account.open_trade hlive hx).2 hout
    rw [Account.trade_of_not_sellsOut hout] at hne ⊢
    rw [if_neg hout]
    exact ⟨UMap.forall_getD_set h.shows ⟨rfl, (Account.held_lotsAfter hlive hx hout).symm, rfl⟩,
      UMap.forall_mem_set h.mem (iff_of_true rfl hne)⟩

/-- The total moves by what the account's own profit moves. -/
theorem Follows.getTotalRealizedPnl_addPosition (h : m.Follows accounts)
    (hlive : Live (accounts x.order.symbol).lots) (hx : 0 < x.order.quantity)
    (hflat : ¬ (accounts x.order.symbol).Open → (accounts x.order.symbol).realised = 0) :
    (m.addPosition x.order.symbol x.order.signed x.price).getTotalRealizedPnl =
      m.getTotalRealizedPnl - (accounts x.order.symbol).realised +
        ((accounts x.order.symbol).trade x).realised := by
  have hterm : UMap.termAt m.positions (fun _ pos => pos.realizedPnl) x.order.symbol =
      (accounts x.order.symbol).realised := by
    cases hl : m.positions.lookup x.order.symbol with
    | none =>
      have hclosed := mt (h.mem x.order.symbol).2 (AList.lookup_eq_none.1 hl)
      rw [UMap.termAt_of_lookup_none hl, hflat hclosed]
    | some pos =>
      rw [UMap.termAt_of_lookup hl, ← (h.shows x.order.symbol).realised, detail, UMap.getD, hl]
      rfl
  unfold getTotalRealizedPnl
  rw [h.addPosition_eq hlive hx, UMap.sumBy_set, hterm]
  by_cases hout : (accounts x.order.symbol).SellsOut x
  · rw [if_pos hout, Account.trade_of_sellsOut hout]
    rfl
  · rw [if_neg hout, Account.trade_of_not_sellsOut hout]
    rfl

end PositionManager

/-! ## The two ledgers side by side -/

structure Ledgers where
  tracker : PnLTracker := {}
  manager : PositionManager := {}
  trades : List Trade := []

def Ledgers.step (s : Ledgers) (x : Trade) : Ledgers where
  tracker := s.tracker.recordTrade x.order x.price
  manager := s.manager.addPosition x.order.symbol x.order.signed x.price
  trades := s.trades ++ [x]

namespace Ledgers

def account (s : Ledgers) (symbol : String) : Account := accountAfter s.trades symbol

variable {s : Ledgers} {x : Trade}

theorem account_step (s : Ledgers) (x : Trade) :
    (s.step x).account =
      Function.update s.account x.order.symbol ((s.account x.order.symbol).trade x) := by
  funext symbol
  rw [account, step, accountAfter_concat, Function.update_apply]
  split
  · next h => rw [h, account]
  · rfl

/-- Both ledgers follow the accounts of the trades so far. -/
structure Follow (s : Ledgers) : Prop where
  positive : ∀ x ∈ s.trades, 0 < x.order.quantity
  tracker : s.tracker.Follows s.account
  manager : s.manager.Follows s.account

theorem follow_empty : Follow {} :=
  ⟨by simp, PnLTracker.follows_empty, PositionManager.follows_empty⟩

theorem Follow.live (h : s.Follow) (symbol : String) : Live (s.account symbol).lots :=
  accountAfter_live h.positive symbol

theorem Follow.step (h : s.Follow) (hx : 0 < x.order.quantity) : (s.step x).Follow := by
  refine ⟨?_, ?_, ?_⟩
  · intro y hy
    rcases List.mem_append.1 hy with hy | hy
    · exact h.positive y hy
    · rwa [List.mem_singleton.1 hy]
  · rw [account_step]
    exact h.tracker.recordTrade (h.live x.order.symbol) hx
  · rw [account_step]
    exact h.manager.addPosition (h.live x.order.symbol) hx

theorem Follow.totalRealizedPnl_step (h : s.Follow) (hx : 0 < x.order.quantity) :
    (s.step x).tracker.totalRealizedPnl =
      s.tracker.totalRealizedPnl + (s.account x.order.symbol).gain x := by
  rw [Ledgers.step, h.tracker.recordTrade_eq (h.live x.order.symbol) hx]

/-! ## Agreement -/

/-- The two ledgers report the same quantities and the same total realised P&L. -/
structure Agree (s : Ledgers) : Prop where
  quantity : ∀ symbol, (s.tracker.tracked symbol).quantity = s.manager.getPosition symbol
  realised : s.manager.getTotalRealizedPnl = s.tracker.totalRealizedPnl

/-- A SELL that sells a symbol out leaves nothing realised on its account. -/
def ClosesEven (s : Ledgers) (x : Trade) : Prop :=
  (s.account x.order.symbol).SellsOut x →
    (s.account x.order.symbol).realised + (s.account x.order.symbol).gain x = 0

theorem Follow.quantity (h : s.Follow) (symbol : String) :
    (s.tracker.tracked symbol).quantity = s.manager.getPosition symbol := by
  have hdetail : s.manager.getPosition symbol = (s.manager.detail symbol).quantity := by
    unfold PositionManager.getPosition PositionManager.detail UMap.getD
    cases s.manager.positions.lookup symbol <;> rfl
  rw [hdetail, (h.tracker.shows symbol).quantity, (h.manager.shows symbol).quantity]

/-- After a trade the totals differ by what the closing of an account takes off the manager's. -/
theorem Follow.realised_step (h : s.Follow) (hx : 0 < x.order.quantity)
    (heq : s.manager.getTotalRealizedPnl = s.tracker.totalRealizedPnl) :
    (s.step x).manager.getTotalRealizedPnl = (s.step x).tracker.totalRealizedPnl ↔
      ClosesEven s x := by
  have hmanager := h.manager.getTotalRealizedPnl_addPosition (h.live x.order.symbol) hx
    (accountAfter_flat h.positive x.order.symbol)
  have hstep : (s.step x).manager.getTotalRealizedPnl =
      s.tracker.totalRealizedPnl - (s.account x.order.symbol).realised +
        ((s.account x.order.symbol).trade x).realised := by
    rw [← heq]
    exact hmanager
  rw [hstep, h.totalRealizedPnl_step hx]
  unfold ClosesEven
  by_cases hout : (s.account x.order.symbol).SellsOut x
  · rw [Account.trade_of_sellsOut hout]
    constructor
    · intro heven _
      linarith
    · intro heven
      have := heven hout
      linarith
  · rw [Account.trade_of_not_sellsOut hout]
    simp only [hout, false_implies, iff_true]
    ring

/-- **The two ledgers agree while accounts close even.** Over every sequence of trades of positive
quantities the tracker and the manager report the same quantities and the same total realised P&L
throughout if and only if every SELL that sells a symbol out brings the profit made with it since it
was last flat to zero. -/
theorem realizedPnl_agree_iff (xs : List Trade) (hxs : ∀ x ∈ xs, 0 < x.order.quantity) :
    Throughout step Agree {} xs ↔ Guarded step ClosesEven {} xs := by
  apply throughout_iff_guarded (I := fun s => Follow s ∧ Agree s) (H := fun x => 0 < x.order.quantity)
  · exact fun s h => h.2
  · rintro s x hx ⟨hfollow, hagree⟩ hclose
    refine ⟨hfollow.step hx, (hfollow.step hx).quantity, ?_⟩
    exact (hfollow.realised_step hx hagree.realised).2 hclose
  · rintro s x hx ⟨hfollow, hagree⟩ hclose hafter
    exact hclose ((hfollow.realised_step hx hagree.realised).1 hafter.realised)
  · exact hxs
  · exact ⟨follow_empty, follow_empty.quantity, rfl⟩

section RoundTrip

def fill (isBuy : Bool) (quantity price : ℚ) : Trade :=
  { order := { symbol := "AAPL", quantity, isBuy }, price }

/-- Ten shares bought at 100, five of them sold at 150: the account is still open. -/
theorem halfSold_agree :
    Throughout step Agree {} [fill true 10 100, fill false 5 150] := by
  refine (realizedPnl_agree_iff [fill true 10 100, fill false 5 150] (by decide +kernel)).2 ?_
  simp only [guarded_cons, guarded_nil, and_true]
  exact ⟨fun h => absurd h (by decide +kernel), fun h => absurd h (by decide +kernel)⟩

/-- All ten sold at 150: the tracker has realised 500, the manager has forgotten the account. -/
theorem roundTrip_not_agree :
    (∀ x ∈ [fill true 10 100, fill false 10 150], 0 < x.order.quantity) ∧
      ¬ Throughout step Agree {} [fill true 10 100, fill false 10 150] := by
  refine ⟨by decide +kernel, fun h => ?_⟩
  exact absurd h.last.realised (by decide +kernel)

end RoundTrip

end Ledgers

end TradingTerminal
