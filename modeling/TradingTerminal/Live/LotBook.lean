import TradingTerminal.Live.PositionManager
import TradingTerminal.Lib.Run
import TradingTerminal.Lib.WhileLoop

/-!
# The lot book of the position manager

An entry is balanced when its lots hold shares and its quantity and average price are those of its
lots. `PositionDetail.after` is what `add_position` makes of an entry, `none` when it erases it; it
keeps entries balanced whatever is bought or sold (`PositionDetail.Balanced.after`). The loop that
sells is given turn by turn in `SellLoop`, and comes to an end from any lots (`SellLoop.ends`).
-/

namespace TradingTerminal

open Lib

/-! ## The selling loop -/

/-- The variables of the loop `while (remaining > 0 && !lots.empty())`. -/
structure SellLoop where
  remaining : ℚ
  lots : List Lot
  realizedPnl : ℚ

namespace SellLoop

def Running (s : SellLoop) : Prop := 0 < s.remaining ∧ s.lots ≠ []

/-- One turn: sell out of the front lot, and drop it when nothing is left of it. -/
def body (price : ℚ) (s : SellLoop) : SellLoop :=
  match s.lots with
  | [] => s
  | lot :: lots =>
    let sellQty := min s.remaining lot.quantity
    let left := lot.quantity - sellQty
    { remaining := s.remaining - sellQty
      lots := if left ≤ 0 then lots else { lot with quantity := left } :: lots
      realizedPnl := s.realizedPnl + (price - lot.price) * sellQty }

/-- The loop ends, with the lots and the profit of `consumeLots`. -/
theorem ends (price remaining : ℚ) (lots : List Lot) (pnl : ℚ) :
    ∃ left, Ends Running (body price) ⟨remaining, lots, pnl⟩
      ⟨left, (consumeLots price remaining lots pnl).1, (consumeLots price remaining lots pnl).2⟩ := by
  induction lots generalizing remaining pnl with
  | nil => exact ⟨remaining, .stop fun h => h.2 rfl⟩
  | cons lot lots ih =>
    by_cases hremaining : 0 < remaining
    · have hturn : Running ⟨remaining, lot :: lots, pnl⟩ := ⟨hremaining, by simp⟩
      unfold consumeLots
      simp only [gt_iff_lt, if_pos hremaining]
      by_cases hleft : lot.quantity - min remaining lot.quantity ≤ 0
      · obtain ⟨left, hends⟩ := ih (remaining - min remaining lot.quantity)
          (pnl + (price - lot.price) * min remaining lot.quantity)
        refine ⟨left, .turn hturn ?_⟩
        simpa only [body, if_pos hleft] using hends
      · -- the lot covered all that remained
        have hmin : min remaining lot.quantity = remaining := by
          apply min_eq_left
          by_contra hlt
          rw [min_eq_right (not_le.1 hlt).le] at hleft
          exact hleft (sub_self _).le
        refine ⟨remaining - min remaining lot.quantity, .turn hturn ?_⟩
        simp only [body, if_neg hleft]
        apply Ends.stop
        rintro ⟨hpos, -⟩
        rw [hmin, sub_self] at hpos
        exact lt_irrefl 0 hpos
    · refine ⟨remaining, ?_⟩
      unfold consumeLots
      simp only [gt_iff_lt, if_neg hremaining]
      exact .stop fun h => hremaining h.1

end SellLoop

/-! ## One entry -/

namespace PositionDetail

/-- The lots hold shares, and the quantity and the average price are theirs. -/
structure Balanced (pos : PositionDetail) : Prop where
  live : Live pos.lots
  quantity : pos.quantity = lotsQuantity pos.lots
  cost : pos.avgPrice * pos.quantity = lotsCost pos.lots

theorem Balanced.fresh : Balanced {} := ⟨live_nil, rfl, by simp⟩

/-- The entry after `add_position`, or `none` when it is erased. -/
def after (pos : PositionDetail) (quantity price : ℚ) : Option PositionDetail :=
  if 0 < quantity then
    some { quantity := pos.quantity + quantity
           avgPrice := if 0 < pos.quantity + quantity then
             (pos.avgPrice * pos.quantity + price * quantity) / (pos.quantity + quantity) else 0
           realizedPnl := pos.realizedPnl
           lots := pos.lots ++ [⟨price, quantity⟩] }
  else
    let (lots, pnl) := sellFifo price (-quantity) pos.lots
    if pos.quantity + quantity ≤ 0 then none
    else
      some { quantity := pos.quantity + quantity
             avgPrice := if 0 < lotsQuantity lots then lotsCost lots / lotsQuantity lots else 0
             realizedPnl := pos.realizedPnl + pnl
             lots }

variable {pos : PositionDetail} {quantity price : ℚ}

theorem after_buy (h : 0 < quantity) :
    pos.after quantity price =
      some { quantity := pos.quantity + quantity
             avgPrice := if 0 < pos.quantity + quantity then
               (pos.avgPrice * pos.quantity + price * quantity) / (pos.quantity + quantity) else 0
             realizedPnl := pos.realizedPnl
             lots := pos.lots ++ [⟨price, quantity⟩] } :=
  if_pos h

theorem after_erased (h : quantity ≤ 0) (hout : pos.quantity + quantity ≤ 0) :
    pos.after quantity price = none := by
  rw [after, if_neg (not_lt.2 h)]
  exact if_pos hout

theorem after_sell (h : quantity ≤ 0) (hleft : 0 < pos.quantity + quantity) :
    pos.after quantity price =
      some { quantity := pos.quantity + quantity
             avgPrice := if 0 < lotsQuantity (sellFifo price (-quantity) pos.lots).1 then
               lotsCost (sellFifo price (-quantity) pos.lots).1 /
                 lotsQuantity (sellFifo price (-quantity) pos.lots).1 else 0
             realizedPnl := pos.realizedPnl + (sellFifo price (-quantity) pos.lots).2
             lots := (sellFifo price (-quantity) pos.lots).1 } := by
  rw [after, if_neg (not_lt.2 h)]
  exact if_neg (not_le.2 hleft)

/-- What is bought or sold, an entry that stays is balanced and holds shares. -/
theorem Balanced.after (h : pos.Balanced) (quantity price : ℚ) :
    ∀ pos' ∈ pos.after quantity price, pos'.Balanced ∧ 0 < pos'.quantity := by
  have hheld : 0 ≤ pos.quantity := h.quantity ▸ h.live.nonneg
  intro pos' hpos'
  by_cases hbuy : 0 < quantity
  · have htotal : 0 < pos.quantity + quantity := by linarith
    rw [after_buy hbuy, if_pos htotal] at hpos'
    obtain rfl := Option.some.inj hpos'
    refine ⟨⟨live_concat.2 ⟨h.live, hbuy⟩, ?_, ?_⟩, htotal⟩
    · rw [lotsQuantity_concat, ← h.quantity]
    · rw [lotsCost_concat, ← h.cost]
      exact div_mul_cancel₀ _ htotal.ne'
  · have hsell : quantity ≤ 0 := not_lt.1 hbuy
    by_cases hout : pos.quantity + quantity ≤ 0
    · rw [after_erased hsell hout] at hpos'
      cases hpos'
    · have hleft : 0 < pos.quantity + quantity := not_le.1 hout
      -- the lots left hold what the entry counts
      have hlots : lotsQuantity (sellFifo price (-quantity) pos.lots).1 = pos.quantity + quantity := by
        rw [sellFifo_quantity h.live (by linarith), ← h.quantity, sub_neg_eq_add,
          max_eq_right hleft.le]
      rw [after_sell hsell hleft, hlots, if_pos hleft] at hpos'
      obtain rfl := Option.some.inj hpos'
      refine ⟨⟨sellFifo_live h.live, hlots.symm, ?_⟩, hleft⟩
      exact div_mul_cancel₀ _ hleft.ne'

end PositionDetail

/-! ## Runs -/

/-- The calls that change a position manager. -/
inductive PositionCall where
  | addPosition (symbol : String) (quantity price : ℚ)
  | clear

namespace PositionManager

def step (m : PositionManager) : PositionCall → PositionManager
  | .addPosition symbol quantity price => m.addPosition symbol quantity price
  | .clear => m.clear

/-- Only the entry of the symbol changes. -/
theorem addPosition_eq (m : PositionManager) (symbol : String) (quantity price : ℚ) :
    m.addPosition symbol quantity price =
      { positions := UMap.set m.positions symbol ((m.detail symbol).after quantity price) } := by
  unfold addPosition
  by_cases hbuy : 0 < quantity
  · rw [PositionDetail.after_buy hbuy]
    simp only [gt_iff_lt, if_pos hbuy, UMap.set]
  · have hsell : quantity ≤ 0 := not_lt.1 hbuy
    simp only [gt_iff_lt, if_neg hbuy, consumeLots_eq, UMap.erase_insert_self]
    by_cases hout : (m.detail symbol).quantity + quantity ≤ 0
    · rw [PositionDetail.after_erased hsell hout, if_pos hout, UMap.set]
    · rw [PositionDetail.after_sell hsell (not_le.1 hout), if_neg hout, UMap.set]

/-- Every stored entry holds shares and is balanced. -/
def Consistent (m : PositionManager) : Prop :=
  ∀ symbol pos, m.positions.lookup symbol = some pos → pos.Balanced ∧ 0 < pos.quantity

variable {m : PositionManager}

theorem Consistent.detail (h : m.Consistent) (symbol : String) : (m.detail symbol).Balanced :=
  UMap.getD_of PositionDetail.Balanced.fresh (fun _ _ hv => (h _ _ hv).1) symbol

theorem Consistent.step (h : m.Consistent) (x : PositionCall) : (m.step x).Consistent := by
  cases x with
  | clear => exact fun symbol pos hpos => by cases hpos
  | addPosition symbol quantity price =>
    intro symbol' pos hpos
    rw [PositionManager.step, addPosition_eq, UMap.lookup_set] at hpos
    split at hpos
    · exact (h.detail symbol).after quantity price pos hpos
    · exact h symbol' pos hpos

theorem run_consistent (xs : List PositionCall) : (run step {} xs).Consistent :=
  run_invariant (fun _ x h => h.step x) (fun _ _ hpos => by cases hpos) xs

/-- **The lot book.** After every sequence of calls every stored entry holds shares, its lots hold
shares, and its quantity and average price are those of its lots; and the selling loop of the next
call, whatever it is, ends with the lots and the profit that the call books. -/
theorem lotBook_consistent (xs : List PositionCall) :
    (∀ symbol pos, (run step {} xs).positions.lookup symbol = some pos →
      0 < pos.quantity ∧ (∀ lot ∈ pos.lots, 0 < lot.quantity) ∧
        pos.quantity = (pos.lots.map Lot.quantity).sum ∧
        pos.avgPrice * pos.quantity = (pos.lots.map fun lot => lot.price * lot.quantity).sum) ∧
    ∀ symbol quantity price,
      let pos := (run step {} xs).detail symbol
      let (lots, realizedPnl) := consumeLots price (-quantity) pos.lots pos.realizedPnl
      ∃ remaining, ∀ final, Ends SellLoop.Running (SellLoop.body price)
        ⟨-quantity, pos.lots, pos.realizedPnl⟩ final ↔ final = ⟨remaining, lots, realizedPnl⟩ := by
  constructor
  · intro symbol pos hpos
    obtain ⟨hbalanced, hheld⟩ := run_consistent xs symbol pos hpos
    exact ⟨hheld, hbalanced.live, hbalanced.quantity, hbalanced.cost⟩
  · intro symbol quantity price pos
    obtain ⟨remaining, hends⟩ := SellLoop.ends price (-quantity) pos.lots pos.realizedPnl
    exact ⟨remaining, fun final => hends.iff_eq⟩

end PositionManager

end TradingTerminal
