import TradingTerminal.Live.LotBook
import TradingTerminal.Live.FrontCost

/-!
# Partial fills

Booking a fill at once or in two parts can leave different lots: a purchase in two parts leaves two
lots of one price. Entries are alike when they hold the same quantity, have realised the same and
their oldest shares always cost the same; no further call tells alike books apart
(`partialFills_indistinguishable`).
-/

namespace TradingTerminal

open Lib

namespace PositionDetail

/-- Balanced entries that differ in how their lots are cut only. -/
structure Alike (pos pos' : PositionDetail) : Prop where
  left : pos.Balanced
  right : pos'.Balanced
  quantity : pos.quantity = pos'.quantity
  realizedPnl : pos.realizedPnl = pos'.realizedPnl
  frontCost : ∀ q, 0 ≤ q → frontCost pos.lots q = frontCost pos'.lots q

variable {pos pos' : PositionDetail}

theorem Alike.refl (h : pos.Balanced) : Alike pos pos := ⟨h, h, rfl, rfl, fun _ _ => rfl⟩

/-- Alike entries have the same average price, the cost of all shares by their number. -/
theorem Alike.avgPrice (h : Alike pos pos') (hheld : 0 < pos.quantity) : pos.avgPrice = pos'.avgPrice := by
  have hcost : lotsCost pos.lots = lotsCost pos'.lots := by
    rw [← frontCost_all h.left.live le_rfl, ← frontCost_all h.right.live le_rfl, ← h.left.quantity,
      ← h.right.quantity, ← h.quantity]
    exact h.frontCost _ hheld.le
  rw [← h.left.cost, ← h.right.cost, ← h.quantity] at hcost
  exact mul_right_cancel₀ hheld.ne' hcost

theorem Alike.after_buy (h : Alike pos pos') {quantity : ℚ} (hbuy : 0 < quantity) (price : ℚ) :
    Option.Rel Alike (pos.after quantity price) (pos'.after quantity price) := by
  have hkeep := h.left.after quantity price
  have hkeep' := h.right.after quantity price
  rw [PositionDetail.after_buy hbuy] at hkeep
  rw [PositionDetail.after_buy hbuy] at hkeep'
  rw [PositionDetail.after_buy hbuy, PositionDetail.after_buy hbuy]
  apply Option.Rel.some
  refine ⟨(hkeep _ rfl).1, (hkeep' _ rfl).1, ?_, h.realizedPnl, fun q hq => ?_⟩
  · dsimp only
    rw [h.quantity]
  · dsimp only
    rw [frontCost_concat h.left.live _ hq, frontCost_concat h.right.live _ hq, h.frontCost q hq,
      ← h.left.quantity, ← h.right.quantity, h.quantity]

theorem Alike.after_sell (h : Alike pos pos') {quantity : ℚ} (hsell : quantity ≤ 0) (price : ℚ) :
    Option.Rel Alike (pos.after quantity price) (pos'.after quantity price) := by
  by_cases hout : pos.quantity + quantity ≤ 0
  · rw [after_erased hsell hout, after_erased hsell (h.quantity ▸ hout)]
    exact Option.Rel.none
  · have hleft : 0 < pos.quantity + quantity := not_le.1 hout
    have hleft' : 0 < pos'.quantity + quantity := h.quantity ▸ hleft
    have hsold : 0 ≤ -quantity := by linarith
    have hkeep := h.left.after quantity price
    have hkeep' := h.right.after quantity price
    rw [PositionDetail.after_sell hsell hleft] at hkeep
    rw [PositionDetail.after_sell hsell hleft'] at hkeep'
    rw [PositionDetail.after_sell hsell hleft, PositionDetail.after_sell hsell hleft']
    apply Option.Rel.some
    refine ⟨(hkeep _ rfl).1, (hkeep' _ rfl).1, ?_, ?_, fun q hq => ?_⟩
    · dsimp only
      rw [h.quantity]
    · dsimp only
      rw [sellFifo_profit_front h.left.live price hsold, sellFifo_profit_front h.right.live price hsold,
        h.frontCost _ hsold, ← h.left.quantity, ← h.right.quantity, h.quantity, h.realizedPnl]
    · dsimp only
      rw [frontCost_sellFifo h.left.live price hsold hq, frontCost_sellFifo h.right.live price hsold hq,
        h.frontCost _ hsold, h.frontCost _ (add_nonneg hsold hq)]

theorem Alike.after (h : Alike pos pos') (quantity price : ℚ) :
    Option.Rel Alike (pos.after quantity price) (pos'.after quantity price) := by
  rcases lt_or_ge 0 quantity with hbuy | hsell
  · exact h.after_buy hbuy price
  · exact h.after_sell hsell price

/-! ## One fill or two -/

section Split

variable (h : pos.Balanced) {a b : ℚ} (ha : 0 < a) (hb : 0 < b) (price : ℚ)

include h ha hb in
theorem split_buy :
    Option.Rel Alike (pos.after (a + b) price) (((pos.after a price).getD {}).after b price) := by
  have hab : 0 < a + b := add_pos ha hb
  have hfirst := (h.after a price)
  have hkeep := h.after (a + b) price
  rw [PositionDetail.after_buy ha] at hfirst
  have hkeep' := (hfirst _ rfl).1.after b price
  rw [PositionDetail.after_buy hb] at hkeep'
  rw [PositionDetail.after_buy hab] at hkeep
  rw [PositionDetail.after_buy hab, PositionDetail.after_buy ha, Option.getD_some,
    PositionDetail.after_buy hb]
  apply Option.Rel.some
  refine ⟨(hkeep _ rfl).1, (hkeep' _ rfl).1, ?_, rfl, fun q hq => ?_⟩
  · exact (add_assoc _ _ _).symm
  · exact (frontCost_concat_split h.live price ha hb hq).symm

include h ha hb in
theorem split_sell :
    Option.Rel Alike (pos.after (-(a + b)) price) (((pos.after (-a) price).getD {}).after (-b) price) := by
  have ha' : -a ≤ 0 := by linarith
  have hb' : -b ≤ 0 := by linarith
  have hab' : -(a + b) ≤ 0 := by linarith
  rcases le_or_gt (pos.quantity + -a) 0 with hout | hleft
  · -- the first part closes the position, the second finds nothing to sell
    rw [after_erased ha' hout, Option.getD_none, after_erased hab' (by linarith),
      after_erased hb' (by dsimp only; linarith)]
    exact Option.Rel.none
  · rcases le_or_gt (pos.quantity + -(a + b)) 0 with hout' | hleft'
    · -- the second part closes the position
      rw [after_erased hab' hout', PositionDetail.after_sell ha' hleft, Option.getD_some,
        after_erased hb' (by dsimp only; linarith)]
      exact Option.Rel.none
    · have hfirst := h.after (-a) price
      have hkeep := h.after (-(a + b)) price
      rw [PositionDetail.after_sell ha' hleft] at hfirst
      have hkeep' := (hfirst _ rfl).1.after (-b) price
      have hleft'' : 0 < pos.quantity + -a + -b := by linarith
      rw [PositionDetail.after_sell hb' hleft''] at hkeep'
      rw [PositionDetail.after_sell hab' hleft'] at hkeep
      rw [PositionDetail.after_sell hab' hleft', PositionDetail.after_sell ha' hleft, Option.getD_some,
        PositionDetail.after_sell hb' hleft'']
      apply Option.Rel.some
      have hlive : Live (sellFifo price a pos.lots).1 := sellFifo_live h.live
      have htaken : lotsQuantity (sellFifo price a pos.lots).1 = pos.quantity - a := by
        rw [sellFifo_quantity h.live ha.le, ← h.quantity, max_eq_right (by linarith)]
      refine ⟨(hkeep _ rfl).1, (hkeep' _ rfl).1, ?_, ?_, fun q hq => ?_⟩
      · dsimp only
        ring
      · dsimp only
        rw [neg_neg, neg_neg, neg_neg, sellFifo_profit_front h.live price (add_pos ha hb).le,
          sellFifo_profit_front h.live price ha.le, sellFifo_profit_front hlive price hb.le, htaken,
          ← h.quantity, frontCost_sellFifo h.live price ha.le hb.le, min_eq_left (by linarith),
          min_eq_left (by linarith), min_eq_left (by linarith)]
        ring
      · dsimp only
        rw [neg_neg, neg_neg, neg_neg, frontCost_sellFifo h.live price (add_pos ha hb).le hq,
          frontCost_sellFifo hlive price hb.le hq, frontCost_sellFifo h.live price ha.le hb.le,
          frontCost_sellFifo h.live price ha.le (add_nonneg hb.le hq), add_assoc]
        ring

end Split

end PositionDetail

/-! ## Books -/

namespace PositionManager

/-- Books with entries for the same symbols, alike one by one and all of them open. -/
def Alike (m m' : PositionManager) : Prop :=
  ∀ symbol, Option.Rel (fun pos pos' => PositionDetail.Alike pos pos' ∧ 0 < pos.quantity)
    (m.positions.lookup symbol) (m'.positions.lookup symbol)

variable {m m' : PositionManager}

theorem Alike.refl (h : m.Consistent) : Alike m m := by
  intro symbol
  cases hl : m.positions.lookup symbol with
  | none => exact Option.Rel.none
  | some pos =>
    obtain ⟨hbalanced, hheld⟩ := h symbol pos hl
    exact Option.Rel.some ⟨.refl hbalanced, hheld⟩

theorem Alike.lookup (h : Alike m m') (symbol : String) :
    (m.positions.lookup symbol = none ∧ m'.positions.lookup symbol = none) ∨
      ∃ pos pos', m.positions.lookup symbol = some pos ∧ m'.positions.lookup symbol = some pos' ∧
        PositionDetail.Alike pos pos' ∧ 0 < pos.quantity := by
  have hrel := h symbol
  generalize m.positions.lookup symbol = o at hrel ⊢
  generalize m'.positions.lookup symbol = o' at hrel ⊢
  cases hrel with
  | none => exact Or.inl ⟨rfl, rfl⟩
  | some hpos => exact Or.inr ⟨_, _, rfl, rfl, hpos⟩

theorem Alike.detail (h : Alike m m') (symbol : String) :
    PositionDetail.Alike (m.detail symbol) (m'.detail symbol) := by
  unfold PositionManager.detail UMap.getD
  rcases h.lookup symbol with ⟨hl, hl'⟩ | ⟨pos, pos', hl, hl', hpos, -⟩
  · rw [hl, hl']
    exact .refl .fresh
  · rw [hl, hl']
    exact hpos

/-- Books stay alike when alike entries take the place of one symbol's entry. -/
theorem Alike.set (h : Alike m m') (symbol : String) {o o' : Option PositionDetail}
    (ho : Option.Rel PositionDetail.Alike o o') (hheld : ∀ pos ∈ o, 0 < pos.quantity) :
    Alike { positions := UMap.set m.positions symbol o } { positions := UMap.set m'.positions symbol o' } := by
  intro symbol'
  simp only [UMap.lookup_set]
  split
  · cases ho with
    | none => exact Option.Rel.none
    | some hpos => exact Option.Rel.some ⟨hpos, hheld _ rfl⟩
  · exact h symbol'

theorem Alike.step (h : Alike m m') (x : PositionCall) : Alike (m.step x) (m'.step x) := by
  cases x with
  | clear => exact fun symbol => Option.Rel.none
  | addPosition symbol quantity price =>
    rw [PositionManager.step, PositionManager.step, addPosition_eq, addPosition_eq]
    have hpos := h.detail symbol
    exact h.set symbol (hpos.after quantity price) fun pos hmem =>
      (hpos.left.after quantity price pos hmem).2

theorem Alike.run (h : Alike m m') (xs : List PositionCall) :
    Alike (Lib.run PositionManager.step m xs) (Lib.run PositionManager.step m' xs) := by
  induction xs generalizing m m' with
  | nil => exact h
  | cons x xs ih => exact ih (h.step x)

/-- What the getters of a book return. -/
structure SameReadings (m m' : PositionManager) : Prop where
  position : ∀ symbol, m.getPosition symbol = m'.getPosition symbol
  avgPrice : ∀ symbol, m.getAvgPrice symbol = m'.getAvgPrice symbol
  realizedPnl : ∀ symbol, m.getRealizedPnl symbol = m'.getRealizedPnl symbol
  unrealizedPnl : ∀ symbol price, m.getUnrealizedPnl symbol price = m'.getUnrealizedPnl symbol price
  totalRealizedPnl : m.getTotalRealizedPnl = m'.getTotalRealizedPnl

theorem Alike.sameReadings (h : Alike m m') : SameReadings m m' := by
  refine ⟨fun symbol => ?_, fun symbol => ?_, fun symbol => ?_, fun symbol price => ?_, ?_⟩
  · unfold getPosition
    rcases h.lookup symbol with ⟨hl, hl'⟩ | ⟨pos, pos', hl, hl', hpos, -⟩
    · rw [hl, hl']
    · rw [hl, hl']
      exact hpos.quantity
  · unfold getAvgPrice
    rcases h.lookup symbol with ⟨hl, hl'⟩ | ⟨pos, pos', hl, hl', hpos, hheld⟩
    · rw [hl, hl']
    · rw [hl, hl']
      exact hpos.avgPrice hheld
  · unfold getRealizedPnl
    rcases h.lookup symbol with ⟨hl, hl'⟩ | ⟨pos, pos', hl, hl', hpos, -⟩
    · rw [hl, hl']
    · rw [hl, hl']
      exact hpos.realizedPnl
  · unfold getUnrealizedPnl
    rcases h.lookup symbol with ⟨hl, hl'⟩ | ⟨pos, pos', hl, hl', hpos, hheld⟩
    · rw [hl, hl']
    · rw [hl, hl']
      dsimp only
      rw [hpos.avgPrice hheld, hpos.quantity]
  · refine UMap.sumBy_congr (fun symbol => ?_) fun symbol => ?_
    · unfold UMap.termAt
      rcases h.lookup symbol with ⟨hl, hl'⟩ | ⟨pos, pos', hl, hl', hpos, -⟩
      · rw [hl, hl']
      · rw [hl, hl']
        exact hpos.realizedPnl
    · rw [← AList.lookup_isSome, ← AList.lookup_isSome]
      rcases h.lookup symbol with ⟨hl, hl'⟩ | ⟨pos, pos', hl, hl', -⟩ <;> simp [hl, hl']

/-- The entry found by the second of two calls for one symbol. -/
theorem addPosition_twice (m : PositionManager) (symbol : String) (a b price : ℚ) :
    (m.addPosition symbol a price).addPosition symbol b price =
      { positions := UMap.set (UMap.set m.positions symbol ((m.detail symbol).after a price)) symbol
          ((((m.detail symbol).after a price).getD {}).after b price) } := by
  have hfound : (m.addPosition symbol a price).detail symbol =
      ((m.detail symbol).after a price).getD {} := by
    rw [addPosition_eq, detail, UMap.getD_set, if_pos rfl]
  rw [addPosition_eq (m.addPosition symbol a price), hfound, addPosition_eq m]

theorem alike_split (h : m.Consistent) (symbol : String) (isBuy : Bool) {a b : ℚ} (ha : 0 < a)
    (hb : 0 < b) (price : ℚ) :
    let signed := fun q : ℚ => if isBuy then q else -q
    Alike (m.addPosition symbol (signed (a + b)) price)
      ((m.addPosition symbol (signed a) price).addPosition symbol (signed b) price) := by
  intro signed
  have hpos := h.detail symbol
  have hsplit : Option.Rel PositionDetail.Alike ((m.detail symbol).after (signed (a + b)) price)
      ((((m.detail symbol).after (signed a) price).getD {}).after (signed b) price) := by
    cases isBuy with
    | true => exact PositionDetail.split_buy hpos ha hb price
    | false => exact PositionDetail.split_sell hpos ha hb price
  have halike := (Alike.refl h).set symbol hsplit fun pos hmem => (hpos.after _ price pos hmem).2
  rw [addPosition_twice, addPosition_eq]
  intro symbol'
  have hlookup := halike symbol'
  simp only [UMap.lookup_set] at hlookup ⊢
  split
  · next hs => rwa [if_pos hs, if_pos hs] at hlookup
  · next hs => rwa [if_neg hs, if_neg hs] at hlookup

/-- **Partial fills.** From every state that calls can lead to, booking a fill at once or in two parts
at the same price leads to states whose readings agree after every further sequence of calls. -/
theorem partialFills_indistinguishable (earlier later : List PositionCall) (symbol : String)
    (isBuy : Bool) (price a b : ℚ) (ha : 0 < a) (hb : 0 < b) :
    let m := Lib.run step {} earlier
    let signed := fun q : ℚ => if isBuy then q else -q
    SameReadings (Lib.run step (m.addPosition symbol (signed (a + b)) price) later)
      (Lib.run step ((m.addPosition symbol (signed a) price).addPosition symbol (signed b) price) later) :=
  ((alike_split (run_consistent earlier) symbol isBuy ha hb price).run later).sameReadings

/-- Ten shares sold in one fill or in fills of four and six, out of a book of eight. -/
theorem partialFills_oversell :
    (Lib.run step {} [.addPosition "AAPL" 8 100, .addPosition "AAPL" (-10) 120,
        .addPosition "AAPL" 5 90]).getAvgPrice "AAPL" =
      (Lib.run step {} [.addPosition "AAPL" 8 100, .addPosition "AAPL" (-4) 120,
        .addPosition "AAPL" (-6) 120, .addPosition "AAPL" 5 90]).getAvgPrice "AAPL" := by
  have h := partialFills_indistinguishable [.addPosition "AAPL" 8 100] [.addPosition "AAPL" 5 90]
    "AAPL" false 120 4 6 (by norm_num) (by norm_num)
  have hten : (4 : ℚ) + 6 = 10 := by norm_num
  rw [hten] at h
  exact h.avgPrice "AAPL"

end PositionManager

end TradingTerminal
