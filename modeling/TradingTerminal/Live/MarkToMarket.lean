import TradingTerminal.Live.LotBook

/-!
# What the position manager says a position is worth

The realised and the unrealised profit of a symbol together are the worth of the fills of the symbol
since it was last flat, at the price that is asked about (`sinceFlat_worth`). What was made on
earlier holdings of the symbol is in neither of the two: the entry that held it is erased when the
position is sold out.
-/

namespace TradingTerminal

open Lib

/-- A fill of a symbol: a positive quantity is bought, a negative one sold. -/
structure SignedFill where
  quantity : ℚ
  price : ℚ
  deriving DecidableEq

/-- The shares that fills leave. -/
def netFills (fills : List SignedFill) : ℚ := (fills.map SignedFill.quantity).sum

/-- What fills cost, sales counted as income. -/
def spentOn (fills : List SignedFill) : ℚ := (fills.map fun fill => fill.quantity * fill.price).sum

/-- What fills have made at a price: for each the difference to its own price, by its quantity. -/
def worth (price : ℚ) (fills : List SignedFill) : ℚ :=
  (fills.map fun fill => fill.quantity * (price - fill.price)).sum

@[simp] theorem netFills_nil : netFills [] = 0 := rfl

@[simp] theorem spentOn_nil : spentOn [] = 0 := rfl

theorem netFills_concat (fills : List SignedFill) (fill : SignedFill) :
    netFills (fills ++ [fill]) = netFills fills + fill.quantity := by
  simp [netFills]

theorem spentOn_concat (fills : List SignedFill) (fill : SignedFill) :
    spentOn (fills ++ [fill]) = spentOn fills + fill.quantity * fill.price := by
  simp [spentOn]

theorem worth_eq (price : ℚ) (fills : List SignedFill) :
    worth price fills = price * netFills fills - spentOn fills := by
  induction fills with
  | nil => simp [worth]
  | cons fill fills ih =>
    unfold worth netFills spentOn at *
    rw [List.map_cons, List.sum_cons, ih, List.map_cons, List.sum_cons, List.map_cons,
      List.sum_cons]
    ring

/-- What a call makes of the fills of a symbol since it was last flat. -/
def sinceFlatStep (symbol : String) (fills : List SignedFill) : PositionCall → List SignedFill
  | .addPosition symbol' quantity price =>
    if symbol' = symbol then
      let fills := fills ++ [⟨quantity, price⟩]
      if netFills fills ≤ 0 then [] else fills
    else fills
  | .clear => []

/-- The fills of a symbol since the calls so far last left none of it. -/
def sinceFlat (symbol : String) (xs : List PositionCall) : List SignedFill :=
  run (sinceFlatStep symbol) [] xs

namespace PositionDetail

/-- A balanced entry that counts the shares of a list of fills, and has realised what they cost less
than the lots that are left. -/
structure Accounts (pos : PositionDetail) (fills : List SignedFill) : Prop where
  balanced : pos.Balanced
  quantity : pos.quantity = netFills fills
  realised : pos.realizedPnl = lotsCost pos.lots - spentOn fills

theorem accounts_fresh : Accounts {} [] := ⟨.fresh, rfl, by simp⟩

variable {pos : PositionDetail} {fills : List SignedFill}

theorem Accounts.held (h : pos.Accounts fills) : 0 ≤ pos.quantity :=
  h.balanced.quantity ▸ h.balanced.live.nonneg

/-- A fill is added to the fills that an entry accounts for, or ends them with the entry. -/
theorem Accounts.after (h : pos.Accounts fills) (quantity price : ℚ) :
    ((pos.after quantity price).getD {}).Accounts
      (if netFills (fills ++ [⟨quantity, price⟩]) ≤ 0 then [] else fills ++ [⟨quantity, price⟩]) := by
  have hheld := h.held
  have hnet : netFills (fills ++ [⟨quantity, price⟩]) = pos.quantity + quantity := by
    rw [netFills_concat, h.quantity]
  rw [hnet]
  by_cases hout : pos.quantity + quantity ≤ 0
  · rw [if_pos hout]
    by_cases hbuy : 0 < quantity
    · exact absurd hout (by linarith)
    · rw [after_erased (not_lt.1 hbuy) hout]
      exact accounts_fresh
  · rw [if_neg hout]
    have hleft : 0 < pos.quantity + quantity := not_le.1 hout
    by_cases hbuy : 0 < quantity
    · have hafter : pos.after quantity price = some _ := after_buy hbuy
      refine ⟨?_, ?_, ?_⟩
      · exact (h.balanced.after quantity price _ (by rw [hafter]; rfl)).1
      · rw [hafter, hnet]
        rfl
      · rw [hafter, spentOn_concat]
        simp only [Option.getD_some, lotsCost_concat, h.realised]
        ring
    · have hsell : quantity ≤ 0 := not_lt.1 hbuy
      have hafter : pos.after quantity price = some _ := after_sell hsell hleft
      have hlots : lotsQuantity (sellFifo price (-quantity) pos.lots).1 = pos.quantity + quantity := by
        rw [sellFifo_quantity h.balanced.live (by linarith), ← h.balanced.quantity, sub_neg_eq_add,
          max_eq_right hleft.le]
      refine ⟨?_, ?_, ?_⟩
      · exact (h.balanced.after quantity price _ (by rw [hafter]; rfl)).1
      · rw [hafter, hnet]
        rfl
      · -- the revenue of the sale is what the fills spent less, the cost that left the lots the rest
        rw [hafter, spentOn_concat]
        simp only [Option.getD_some, h.realised, sellFifo_profit, hlots, ← h.balanced.quantity]
        ring

end PositionDetail

namespace PositionManager

/-! ## The getters by the entry -/

section Getters

variable (m : PositionManager) (symbol : String)

theorem getPosition_eq : m.getPosition symbol = (m.detail symbol).quantity := by
  unfold getPosition detail UMap.getD
  cases m.positions.lookup symbol <;> rfl

theorem getRealizedPnl_eq : m.getRealizedPnl symbol = (m.detail symbol).realizedPnl := by
  unfold getRealizedPnl detail UMap.getD
  cases m.positions.lookup symbol <;> rfl

theorem getUnrealizedPnl_eq (price : ℚ) : m.getUnrealizedPnl symbol price =
    (price - (m.detail symbol).avgPrice) * (m.detail symbol).quantity := by
  unfold getUnrealizedPnl detail UMap.getD
  cases m.positions.lookup symbol with
  | none => simp
  | some pos => rfl

end Getters

/-! ## Runs -/

theorem accounts_step {m : PositionManager} {symbol : String} {fills : List SignedFill}
    (h : (m.detail symbol).Accounts fills) (x : PositionCall) :
    ((m.step x).detail symbol).Accounts (sinceFlatStep symbol fills x) := by
  cases x with
  | clear => exact PositionDetail.accounts_fresh
  | addPosition symbol' quantity price =>
    have hdetail : ((m.step (.addPosition symbol' quantity price)).detail symbol) =
        if symbol = symbol' then ((m.detail symbol').after quantity price).getD {}
        else m.detail symbol := by
      rw [step, addPosition_eq, detail, UMap.getD_set]
      rfl
    rw [hdetail]
    by_cases hsame : symbol' = symbol
    · subst hsame
      simp only [sinceFlatStep, if_true]
      exact h.after quantity price
    · rw [if_neg (Ne.symm hsame), sinceFlatStep, if_neg hsame]
      exact h

/-- Every entry accounts for the fills since its symbol was last flat. -/
theorem run_accounts (symbol : String) (xs : List PositionCall) :
    ((run step {} xs).detail symbol).Accounts (sinceFlat symbol xs) := by
  induction xs using List.reverseRecOn with
  | nil => exact PositionDetail.accounts_fresh
  | append_singleton xs x ih =>
    rw [run_concat, sinceFlat, run_concat]
    exact accounts_step ih x

/-- **Marked to the market.** After every sequence of calls the position of a symbol is what its
fills since it was last flat come to, and its realised and unrealised profit at a price are together
what these fills have made at that price. -/
theorem sinceFlat_worth (xs : List PositionCall) (symbol : String) (price : ℚ) :
    (run step {} xs).getPosition symbol = netFills (sinceFlat symbol xs) ∧
      (run step {} xs).getRealizedPnl symbol + (run step {} xs).getUnrealizedPnl symbol price =
        worth price (sinceFlat symbol xs) := by
  have h := run_accounts symbol xs
  constructor
  · rw [getPosition_eq, h.quantity]
  · calc (run step {} xs).getRealizedPnl symbol + (run step {} xs).getUnrealizedPnl symbol price
      _ = lotsCost ((run step {} xs).detail symbol).lots - spentOn (sinceFlat symbol xs) +
          (price - ((run step {} xs).detail symbol).avgPrice) *
            ((run step {} xs).detail symbol).quantity := by
        rw [getRealizedPnl_eq, getUnrealizedPnl_eq, h.realised]
      _ = price * netFills (sinceFlat symbol xs) - spentOn (sinceFlat symbol xs) := by
        rw [← h.balanced.cost, ← h.quantity]
        ring
      _ = worth price (sinceFlat symbol xs) := (worth_eq price _).symm

/-- Ten shares bought at 100 and sold at 150, and ten bought at 200: nothing is left of the first
holding. -/
example : sinceFlat "AAPL" [.addPosition "AAPL" 10 100, .addPosition "AAPL" (-10) 150,
    .addPosition "AAPL" 10 200] = [⟨10, 200⟩] := by
  decide +kernel

end PositionManager

end TradingTerminal
