import TradingTerminal.Core.Types
import TradingTerminal.Lib.Run
import Mathlib.Algebra.Order.Ring.Rat
import Mathlib.Tactic.Linarith

/-!
# Strategies with one slot

A `Trader` is what the base class asks of a strategy. A `Desk` runs one on a stream of ticks, answers
every order by a fill before the next tick, and keeps the fills.

A trader with one slot (`OneSlot`) holds one position at a time: it buys when the slot is empty and
sells when it is not, whatever the symbol of the tick. That it sells only what it holds then hangs on
the ticks: `SellsLast` says that an exit comes on a tick of the symbol bought last, for no more than
was bought. This is enough (`sellsHeld_of_sellsLast`), and with orders of one size it is also needed
(`sellsHeld_iff_sellsLast`).
-/

namespace TradingTerminal

open Lib

variable {σ τ : Type*}

/-- A strategy over states `σ` that is fed ticks of type `τ`. -/
structure Trader (σ τ : Type*) where
  generateSignal : σ → τ → Signal × σ
  onOrderFilled : σ → Order → σ

/-- A strategy and the orders it emitted so far, all filled. -/
structure Desk (σ : Type*) where
  strategy : σ
  fills : List Order := []

/-- A tick, and the fills that answer the orders emitted on it. -/
def Desk.step (T : Trader σ τ) (d : Desk σ) (x : τ) : Desk σ :=
  let (signal, s) := T.generateSignal d.strategy x
  { strategy := signal.orders.foldl T.onOrderFilled s, fills := d.fills ++ signal.orders }

/-- Every SELL emitted on a tick is for a symbol with a positive net filled quantity. -/
def SellsHeld (T : Trader σ τ) (d : Desk σ) (x : τ) : Prop :=
  ∀ order ∈ (T.generateSignal d.strategy x).1.orders, order.isBuy = false →
    0 < netQuantity d.fills order.symbol

instance (T : Trader σ τ) (d : Desk σ) (x : τ) : Decidable (SellsHeld T d x) :=
  inferInstanceAs (Decidable (∀ _ ∈ _, _ → _))

def lastBought (fills : List Order) : Option Order := (fills.filter (·.isBuy)).getLast?

theorem lastBought_buy (fills : List Order) {order : Order} (h : order.isBuy = true) :
    lastBought (fills ++ [order]) = some order := by
  simp [lastBought, h]

/-- How a tick of `symbol` takes the slot from `held` to `held'`, with the orders filled: nothing, a
BUY into an empty slot, or the SELL that empties it. Orders are of quantity `size`; `due` says that
the exit test fires. -/
inductive Answered (symbol : String) (due : Bool) (size : ℚ) (held held' : Bool) :
    List Order → Prop
  | quiet (undue : due = false) (same : held' = held) : Answered symbol due size held held' []
  | entry {order : Order} (undue : due = false) (empty : held = false) (full : held' = true)
      (buy : order.isBuy = true) (here : order.symbol = symbol) (quantity : order.quantity = size) :
      Answered symbol due size held held' [order]
  | exit {order : Order} (fires : due = true) (full : held = true) (empty : held' = false)
      (sell : order.isBuy = false) (here : order.symbol = symbol) (quantity : order.quantity = size) :
      Answered symbol due size held held' [order]

/-- A trader with one slot: `idle` states have no order outstanding. -/
structure OneSlot (T : Trader σ τ) where
  symbol : τ → String
  held : σ → Bool
  idle : σ → Prop
  exitDue : σ → τ → Bool
  size : σ → τ → ℚ
  idle_step : ∀ (d : Desk σ) (x : τ), idle d.strategy → idle (d.step T x).strategy
  answered : ∀ (d : Desk σ) (x : τ), idle d.strategy →
    Answered (symbol x) (exitDue d.strategy x) (size d.strategy x) (held d.strategy)
      (held (d.step T x).strategy) (T.generateSignal d.strategy x).1.orders

namespace OneSlot

variable {T : Trader σ τ} (S : OneSlot T)

/-- The fills that a tick adds are its answered orders. -/
theorem step_answered (d : Desk σ) (x : τ) (hidle : S.idle d.strategy) :
    ∃ orders, (d.step T x).fills = d.fills ++ orders ∧
      Answered (S.symbol x) (S.exitDue d.strategy x) (S.size d.strategy x) (S.held d.strategy)
        (S.held (d.step T x).strategy) orders :=
  ⟨(T.generateSignal d.strategy x).1.orders, rfl, S.answered d x hidle⟩

/-- An exit comes on a tick of the symbol bought last, out of a positive quantity, for no more. -/
def SellsLast (d : Desk σ) (x : τ) : Prop :=
  S.exitDue d.strategy x = true → ∃ order, lastBought d.fills = some order ∧
    order.symbol = S.symbol x ∧ 0 < order.quantity ∧ S.size d.strategy x ≤ order.quantity

instance (d : Desk σ) (x : τ) : Decidable (S.SellsLast d x) :=
  inferInstanceAs (Decidable (_ → ∃ order ∈ lastBought d.fills, _ ∧ _ ∧ _))

/-- The fills without what is in the slot oversell nothing. -/
structure Covered (d : Desk σ) : Prop where
  idle : S.idle d.strategy
  empty : S.held d.strategy = false → ∀ symbol, 0 ≤ netQuantity d.fills symbol
  full : S.held d.strategy = true → ∀ order, lastBought d.fills = some order → ∀ symbol,
    (if symbol = order.symbol then order.quantity else 0) ≤ netQuantity d.fills symbol

variable {S}

theorem Covered.step {d : Desk σ} {x : τ} (h : S.Covered d) (hlast : S.SellsLast d x) :
    S.Covered (d.step T x) := by
  obtain ⟨orders, hfills, hans⟩ := S.step_answered d x h.idle
  refine ⟨S.idle_step d x h.idle, ?_, ?_⟩
  · intro hheld symbol
    rw [hheld] at hans
    rw [hfills]
    cases hans with
    | quiet undue same =>
      rw [List.append_nil]
      exact h.empty same.symm symbol
    | entry _ _ full => cases full
    | @exit order fires full _ sell here quantity =>
      obtain ⟨last, hbuy, hsymbol, -, hsize⟩ := hlast fires
      have hnet := h.full full last hbuy symbol
      rw [netQuantity_concat, Order.signed_of_sell sell, here, ← hsymbol, quantity]
      split
      · next hs =>
        rw [if_pos hs] at hnet
        linarith
      · next hs =>
        rw [if_neg hs] at hnet
        linarith
  · intro hheld last hbuy symbol
    rw [hheld] at hans
    rw [hfills] at hbuy ⊢
    cases hans with
    | quiet undue same =>
      rw [List.append_nil] at hbuy ⊢
      exact h.full same.symm last hbuy symbol
    | entry _ empty _ buy here quantity =>
      obtain rfl := Option.some.inj ((lastBought_buy d.fills buy).symm.trans hbuy)
      have hnet := h.empty empty symbol
      rw [netQuantity_concat, Order.signed_of_buy buy]
      split
      · linarith
      · linarith
    | exit _ _ empty => cases empty

theorem Covered.sellsHeld {d : Desk σ} {x : τ} (h : S.Covered d) (hlast : S.SellsLast d x) :
    SellsHeld T d x := by
  have hans := S.answered d x h.idle
  unfold SellsHeld
  generalize (T.generateSignal d.strategy x).1.orders = orders at hans
  intro order horder hsell
  cases hans with
  | quiet => cases horder
  | entry _ _ _ buy =>
    rw [List.mem_singleton.1 horder, buy] at hsell
    cases hsell
  | exit fires full _ sell here =>
    obtain ⟨last, hbuy, hsymbol, hpos, -⟩ := hlast fires
    have hnet := h.full full last hbuy order.symbol
    rw [List.mem_singleton.1 horder] at hnet ⊢
    rw [here, if_pos hsymbol.symm] at hnet
    rw [here]
    exact hpos.trans_le hnet

variable (S)

/-- Exits on the symbol bought last, for no more than was bought, sell only what is held. -/
theorem sellsHeld_of_sellsLast {s : σ} (hidle : S.idle s) (hempty : S.held s = false) {xs : List τ}
    (h : Guarded (Desk.step T) S.SellsLast { strategy := s } xs) :
    Guarded (Desk.step T) (SellsHeld T) { strategy := s } xs := by
  refine guarded_imp (I := S.Covered) (fun d x hd hx => hd.step hx)
    (fun d x hd hx => hd.sellsHeld hx) ⟨hidle, fun _ symbol => ?_, fun hfull => ?_⟩ h
  · exact le_refl 0
  · rw [hempty] at hfull
    cases hfull

variable {S}

/-- With orders of one size the fills are what is in the slot, and nothing else. -/
structure Exact (S : OneSlot T) (size : ℚ) (d : Desk σ) : Prop where
  idle : S.idle d.strategy
  empty : S.held d.strategy = false → ∀ symbol, netQuantity d.fills symbol = 0
  full : S.held d.strategy = true → ∃ order, lastBought d.fills = some order ∧ order.quantity = size ∧
    ∀ symbol, netQuantity d.fills symbol = if symbol = order.symbol then size else 0

namespace Exact

variable {size : ℚ} {d : Desk σ} {x : τ}

theorem step (h : S.Exact size d) (hsize : S.size d.strategy x = size) (hlast : S.SellsLast d x) :
    S.Exact size (d.step T x) := by
  obtain ⟨orders, hfills, hans⟩ := S.step_answered d x h.idle
  refine ⟨S.idle_step d x h.idle, ?_, ?_⟩
  · intro hheld symbol
    rw [hheld] at hans
    rw [hfills]
    cases hans with
    | quiet undue same =>
      rw [List.append_nil]
      exact h.empty same.symm symbol
    | entry _ _ full => cases full
    | exit fires full _ sell here quantity =>
      obtain ⟨last, hbuy, hsymbol, -⟩ := hlast fires
      obtain ⟨last', hbuy', -, hnet⟩ := h.full full
      obtain rfl := Option.some.inj (hbuy.symm.trans hbuy')
      rw [netQuantity_concat, hnet, Order.signed_of_sell sell, here, ← hsymbol, quantity, hsize]
      split
      · exact add_neg_cancel size
      · exact add_zero 0
  · intro hheld
    rw [hheld] at hans
    rw [hfills]
    cases hans with
    | quiet undue same =>
      rw [List.append_nil]
      exact h.full same.symm
    | @entry order _ empty _ buy here quantity =>
      refine ⟨order, lastBought_buy d.fills buy, quantity.trans hsize, fun symbol => ?_⟩
      rw [netQuantity_concat, h.empty empty, zero_add, Order.signed_of_buy buy, quantity, hsize]
    | exit _ _ empty => cases empty

/-- An exit finds a positive net quantity only on the symbol bought last. -/
theorem sellsHeld_iff (h : S.Exact size d) (hsize : S.size d.strategy x = size) :
    S.SellsLast d x ↔ SellsHeld T d x := by
  have hans := S.answered d x h.idle
  unfold SellsLast SellsHeld
  generalize (T.generateSignal d.strategy x).1.orders = orders at hans
  cases hans with
  | quiet undue => simp [undue]
  | entry undue _ _ buy => simp [undue, buy]
  | @exit order fires full _ sell here =>
    obtain ⟨last, hbuy, hquantity, hnet⟩ := h.full full
    simp only [fires, forall_const, List.mem_singleton, forall_eq, sell, hnet, here, hbuy,
      Option.some.injEq, exists_eq_left', hquantity, hsize, le_refl, and_true]
    constructor
    · rintro ⟨hsymbol, hpos⟩
      rwa [if_pos hsymbol.symm]
    · intro hpos
      split at hpos
      · next hs => exact ⟨hs.symm, hpos⟩
      · exact absurd hpos (lt_irrefl 0)

end Exact

variable (S)

/-- With orders of one size, exits on the symbol bought last are exactly what keeps a run from
selling what it does not hold. -/
theorem sellsHeld_iff_sellsLast {size : ℚ} (hsize : ∀ s x, S.idle s → S.size s x = size) {s : σ}
    (hidle : S.idle s) (hempty : S.held s = false) {xs : List τ} :
    Guarded (Desk.step T) (SellsHeld T) { strategy := s } xs ↔
      Guarded (Desk.step T) S.SellsLast { strategy := s } xs := by
  have hstart : S.Exact size { strategy := s } := by
    refine ⟨hidle, fun _ symbol => rfl, fun hfull => ?_⟩
    rw [hempty] at hfull
    cases hfull
  exact (guarded_congr (I := S.Exact size) (fun d x hd hx => hd.step (hsize _ x hd.idle) hx)
    (fun d x hd => hd.sellsHeld_iff (hsize _ x hd.idle)) hstart).symm

end OneSlot

end TradingTerminal
