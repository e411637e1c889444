import TradingTerminal.Risk.KellyFraction
import TradingTerminal.Lib.Run
import Mathlib.Tactic.FieldSimp
import Mathlib.Tactic.Linarith
import Mathlib.Tactic.NormNum

/-!
# The size of an exit

The enhanced strategy on the ticks of one symbol, with every order filled before the next tick. It
sizes an exit anew from the regime, the returns, the capital and the price of the tick, so it sells
what it bought exactly where these give the size they gave at the entry (`flatAfterExit_iff`). They
do where nothing of it has moved, where the configured size is affordable on both ticks in the same
regime, and where it is affordable on neither and the capital went with the price
(`flatAfterExit_of_sizedAlike`).
-/

namespace TradingTerminal

open Lib

/-- A tick with the breaker's answer and the price of a fill, or a call between two ticks. -/
inductive ExitInput where
  | tick (tick : Tick) (canTrade : Bool) (fillPrice : ℚ)
  | updatePnl (breaker : CircuitBreaker) (pnlAmount : ℚ)
  | setCapital (capital : ℚ)

deriving instance DecidableEq for KellyPositionSizer

/-- The factor of a regime in `get_position_multiplier`. -/
def Regime.multiplier : Regime → ℚ
  | lowVolBull => 15 / 10
  | normalBull => 1
  | highVolBear => 5 / 10
  | crash => 0

theorem RegimeDetector.getPositionMultiplier_eq (r : RegimeDetector) :
    r.getPositionMultiplier = r.detect.multiplier := by
  unfold getPositionMultiplier
  cases r.detect <;> rfl

/-- What the size of an order is computed from, next to the configured size: the regime the tick is
in, the sizer with its returns, the capital and the price. -/
structure SizeInputs where
  regime : Regime
  kelly : KellyPositionSizer
  capital : ℚ
  price : ℚ
  deriving DecidableEq

namespace SizeInputs

/-- The quantity of an order. -/
def quantity (x : SizeInputs) (positionSize : ℚ) : ℚ :=
  min (positionSize * x.regime.multiplier) (x.kelly.calculatePositionSize x.capital x.price)

/-- A quarter of the capital buys the configured size of the regime. -/
def Affordable (x : SizeInputs) (positionSize : ℚ) : Prop :=
  4 * (positionSize * x.regime.multiplier * x.price) ≤ x.capital

/-- An entry and an exit with the same limit on their size: all that the size is computed from is the
same, or the configured size counts on both ticks in the same regime, or the capital does and is in
proportion to the price. -/
def SizedAlike (positionSize : ℚ) (entry exit : SizeInputs) : Prop :=
  exit = entry ∨
    0 ≤ entry.capital ∧ 0 ≤ exit.capital ∧
      (entry.Affordable positionSize ∧ exit.Affordable positionSize ∧ entry.regime = exit.regime ∨
        ¬ entry.Affordable positionSize ∧ ¬ exit.Affordable positionSize ∧
          entry.capital * exit.price = exit.capital * entry.price)

instance (positionSize : ℚ) (x : SizeInputs) : Decidable (x.Affordable positionSize) :=
  inferInstanceAs (Decidable (_ ≤ _))

instance (positionSize : ℚ) (entry exit : SizeInputs) :
    Decidable (SizedAlike positionSize entry exit) :=
  inferInstanceAs (Decidable (_ ∨ _))

variable {positionSize : ℚ} {x entry exit : SizeInputs}

theorem quantity_eq_min (hcapital : 0 ≤ x.capital) (hprice : 0 < x.price) :
    x.quantity positionSize =
      min (positionSize * x.regime.multiplier) (x.capital / (4 * x.price)) := by
  rw [quantity, KellyPositionSizer.calculatePositionSize_eq _ hcapital, if_neg (not_le.2 hprice)]

theorem affordable_iff (hprice : 0 < x.price) :
    x.Affordable positionSize ↔ positionSize * x.regime.multiplier ≤ x.capital / (4 * x.price) := by
  rw [Affordable, le_div_iff₀ (by linarith)]
  constructor <;> intro h <;> linarith

/-- With the same limit the quantity is the same. -/
theorem SizedAlike.quantity_eq (h : SizedAlike positionSize entry exit)
    (hentry : 0 < entry.price) (hexit : 0 < exit.price) :
    exit.quantity positionSize = entry.quantity positionSize := by
  rcases h with rfl | ⟨hcapital, hcapital', hsize | hcap⟩
  · rfl
  · obtain ⟨hfits, hfits', hregime⟩ := hsize
    rw [quantity_eq_min hcapital' hexit, quantity_eq_min hcapital hentry,
      min_eq_left ((affordable_iff hexit).1 hfits'), min_eq_left ((affordable_iff hentry).1 hfits),
      hregime]
  · obtain ⟨hfits, hfits', hratio⟩ := hcap
    have hlimit := (not_le.1 (mt (affordable_iff hentry).2 hfits)).le
    have hlimit' := (not_le.1 (mt (affordable_iff hexit).2 hfits')).le
    rw [quantity_eq_min hcapital' hexit, quantity_eq_min hcapital hentry, min_eq_right hlimit',
      min_eq_right hlimit, div_eq_div_iff (by linarith) (by linarith)]
    linarith

end SizeInputs

/-- A strategy, its fills, and what the size of the latest BUY was computed from. -/
structure SizedDesk where
  strategy : EnhancedIntradayStrategy
  fills : List Order := []
  entered : Option SizeInputs := none

namespace EnhancedIntradayStrategy

/-- What the size of an order on a tick is computed from. -/
def sizeInputs (s : EnhancedIntradayStrategy) (tick : Tick) : SizeInputs :=
  { regime := (s.recordTick tick).regime.detect
    kelly := s.kelly
    capital := s.capital
    price := tick.price }

theorem orderSize_eq (s : EnhancedIntradayStrategy) (tick : Tick) :
    s.orderSize tick = (s.sizeInputs tick).quantity s.positionSize := by
  rw [orderSize, finalSize, RegimeDetector.getPositionMultiplier_eq]
  rfl

end EnhancedIntradayStrategy

namespace SizedDesk

/-- The orders emitted on a tick are filled, each at its quantity. -/
def step (d : SizedDesk) : ExitInput → SizedDesk
  | .tick tick canTrade fillPrice =>
    let (signal, s) := d.strategy.generateSignal tick canTrade
    { strategy :=
        signal.orders.foldl (fun s order => s.onOrderFilled { order with price := fillPrice }) s
      fills := d.fills ++ signal.orders
      entered :=
        if signal.orders.any (·.isBuy) then some (d.strategy.sizeInputs tick) else d.entered }
  | .updatePnl breaker pnlAmount =>
    { d with strategy := (d.strategy.updatePnl breaker pnlAmount).1 }
  | .setCapital capital => { d with strategy := d.strategy.setCapital capital }

/-- A strategy as it is built, before its first tick. -/
def start (size : ℚ) : SizedDesk := { strategy := .new size }

/-- Every SELL is of the quantity of the BUY before it, and nothing is held when no position is. -/
structure FlatAfterExit (symbol : String) (d : SizedDesk) : Prop where
  sells : ∀ before order, before ++ [order] <+: d.fills → order.isBuy = false →
    ∃ buy, lastBought before = some buy ∧ buy.quantity = order.quantity
  flat : d.strategy.inPosition = false → netQuantity d.fills symbol = 0

/-- A tick on which an exit is due gives the order the size that the entry had. -/
def ExitAsEntered (d : SizedDesk) : ExitInput → Prop
  | .tick tick canTrade _ => d.strategy.exitDue tick canTrade = true →
      ∃ entry ∈ d.entered, (d.strategy.sizeInputs tick).quantity d.strategy.positionSize =
        entry.quantity d.strategy.positionSize
  | _ => True

instance (d : SizedDesk) : DecidablePred d.ExitAsEntered
  | .tick _ _ _ => inferInstanceAs (Decidable (_ → ∃ entry ∈ d.entered, _ = _))
  | .updatePnl _ _ => .isTrue trivial
  | .setCapital _ => .isTrue trivial

/-- A tick on which an exit is due has the limit on its size that the entry had. -/
def ExitSizedAlike (d : SizedDesk) : ExitInput → Prop
  | .tick tick canTrade _ => d.strategy.exitDue tick canTrade = true →
      ∃ entry ∈ d.entered,
        SizeInputs.SizedAlike d.strategy.positionSize entry (d.strategy.sizeInputs tick)
  | _ => True

instance (d : SizedDesk) : DecidablePred d.ExitSizedAlike
  | .tick _ _ _ => inferInstanceAs (Decidable (_ → ∃ entry ∈ d.entered, _))
  | .updatePnl _ _ => .isTrue trivial
  | .setCapital _ => .isTrue trivial

/-- A tick of the symbol at a positive price. -/
def OfSymbol (symbol : String) : ExitInput → Prop
  | .tick tick _ _ => tick.symbol = symbol ∧ 0 < tick.price
  | _ => True

instance (symbol : String) : DecidablePred (OfSymbol symbol)
  | .tick _ _ _ => inferInstanceAs (Decidable (_ ∧ _))
  | .updatePnl _ _ => .isTrue trivial
  | .setCapital _ => .isTrue trivial

/-! ## One input -/

/-- What a run keeps as long as exits are sized as their entries. -/
structure Matched (symbol : String) (d : SizedDesk) : Prop extends FlatAfterExit symbol d where
  idle : d.strategy.pendingExit = false
  held : d.strategy.inPosition = true → ∃ entry buy, d.entered = some entry ∧
    0 < entry.price ∧ lastBought d.fills = some buy ∧
    buy.quantity = entry.quantity d.strategy.positionSize ∧
    netQuantity d.fills symbol = buy.quantity

variable {symbol : String} {d : SizedDesk} {tick : Tick} {canTrade : Bool} {fillPrice : ℚ}

/-- A fill added to a list is checked against the BUY before it. -/
theorem sells_concat {fills : List Order} {order : Order}
    (h : ∀ before order, before ++ [order] <+: fills → order.isBuy = false →
      ∃ buy, lastBought before = some buy ∧ buy.quantity = order.quantity) :
    (∀ before last, before ++ [last] <+: fills ++ [order] → last.isBuy = false →
      ∃ buy, lastBought before = some buy ∧ buy.quantity = last.quantity) ↔
    (order.isBuy = false → ∃ buy, lastBought fills = some buy ∧ buy.quantity = order.quantity) := by
  constructor
  · intro hall
    exact hall fills order (List.prefix_refl _)
  · intro hlast before last hprefix hsell
    rcases List.prefix_concat_iff.1 hprefix with heq | hearlier
    · obtain ⟨rfl, hsame⟩ := List.append_inj' heq rfl
      obtain rfl := List.singleton_inj.1 hsame
      exact hlast hsell
    · exact h before last hearlier hsell

/-- What an input other than an order leaves. -/
theorem Matched.congr {d' : SizedDesk} (h : Matched symbol d) (hfills : d'.fills = d.fills)
    (hentered : d'.entered = d.entered)
    (hin : d'.strategy.inPosition = d.strategy.inPosition)
    (hpending : d'.strategy.pendingExit = d.strategy.pendingExit)
    (hsize : d'.strategy.positionSize = d.strategy.positionSize) : Matched symbol d' := by
  refine ⟨⟨?_, ?_⟩, hpending.trans h.idle, ?_⟩
  · rw [hfills]
    exact h.sells
  · rw [hfills, hin]
    exact h.flat
  · rw [hfills, hentered, hin, hsize]
    exact h.held

theorem step_quiet (horders : (d.strategy.generateSignal tick canTrade).1.orders = []) :
    d.step (.tick tick canTrade fillPrice) =
      { d with strategy := (d.strategy.generateSignal tick canTrade).2 } := by
  simp [step, horders]

theorem step_order {order : Order}
    (horders : (d.strategy.generateSignal tick canTrade).1.orders = [order]) :
    d.step (.tick tick canTrade fillPrice) =
      { strategy := (d.strategy.generateSignal tick canTrade).2.onOrderFilled
          { order with price := fillPrice }
        fills := d.fills ++ [order]
        entered := if order.isBuy then some (d.strategy.sizeInputs tick) else d.entered } := by
  simp [step, horders]

/-- A tick on which an exit is due sells as much as was bought if the exit is sized as the entry,
and another quantity if it is not. -/
theorem Matched.step_exit (h : Matched symbol d) (hsymbol : tick.symbol = symbol)
    (hdue : d.strategy.exitDue tick canTrade = true)
    (hin : d.strategy.inPosition = true)
    (horders : (d.strategy.generateSignal tick canTrade).1.orders =
      [marketOrder tick.symbol tick.bid (d.strategy.orderSize tick) false]) :
    (d.ExitAsEntered (.tick tick canTrade fillPrice) →
        Matched symbol (d.step (.tick tick canTrade fillPrice))) ∧
      (¬ d.ExitAsEntered (.tick tick canTrade fillPrice) →
        ¬ FlatAfterExit symbol (d.step (.tick tick canTrade fillPrice))) := by
  obtain ⟨entry, buy, hentered, -, hbuy, hquantity, hnet⟩ := h.held hin
  have hsame : d.ExitAsEntered (.tick tick canTrade fillPrice) ↔
      d.strategy.orderSize tick = buy.quantity := by
    rw [d.strategy.orderSize_eq, hquantity]
    simp only [ExitAsEntered, hdue, forall_const, hentered, Option.mem_def, Option.some.injEq,
      exists_eq_left']
  rw [hsame, step_order horders]
  constructor
  · intro hsize
    refine ⟨⟨(sells_concat h.sells).2 fun _ => ⟨buy, hbuy, hsize.symm⟩, fun _ => ?_⟩, rfl, ?_⟩
    · rw [netQuantity_concat, hnet, ← hsize, ← hsymbol]
      simp [marketOrder, Order.signed]
    · intro hafter
      cases hafter
  · intro hsize hflat
    obtain ⟨last, hlast, heq⟩ := (sells_concat h.sells).1 hflat.sells rfl
    obtain rfl := Option.some.inj (hlast.symm.trans hbuy)
    exact hsize heq.symm

theorem Matched.step_entry (h : Matched symbol d) (hsymbol : tick.symbol = symbol)
    (hprice : 0 < tick.price) (hin : d.strategy.inPosition = false)
    (horders : (d.strategy.generateSignal tick canTrade).1.orders =
      [marketOrder tick.symbol tick.ask (d.strategy.orderSize tick) true])
    (hafter : (d.strategy.generateSignal tick canTrade).2 =
      { d.strategy.recordTick tick with inPosition := true, entryPrice := tick.price }) :
    Matched symbol (d.step (.tick tick canTrade fillPrice)) := by
  rw [step_order horders, hafter]
  refine ⟨⟨(sells_concat h.sells).2 fun hsell => ?_, fun hflat => ?_⟩, h.idle,
    fun _ => ⟨d.strategy.sizeInputs tick, _, rfl, hprice, lastBought_buy _ rfl, ?_, ?_⟩⟩
  · cases hsell
  · cases hflat
  · exact d.strategy.orderSize_eq tick
  · rw [netQuantity_concat, h.flat hin, ← hsymbol]
    simp [marketOrder, Order.signed]

/-- The other outcomes of a tick meet the condition and keep what is kept. -/
theorem Matched.step_tick (h : Matched symbol d) (hsymbol : tick.symbol = symbol)
    (hprice : 0 < tick.price) :
    (d.ExitAsEntered (.tick tick canTrade fillPrice) →
        Matched symbol (d.step (.tick tick canTrade fillPrice))) ∧
      (¬ d.ExitAsEntered (.tick tick canTrade fillPrice) →
        ¬ FlatAfterExit symbol (d.step (.tick tick canTrade fillPrice))) := by
  rcases d.strategy.generateSignal_cases tick canTrade with
    ⟨hundue, horders, hafter⟩ | ⟨hdue, hin, horders⟩ | ⟨hundue, hin, horders, hafter⟩
  · refine ⟨fun _ => ?_, fun hguard => absurd (fun hdue => ?_) hguard⟩
    · rw [step_quiet horders, hafter]
      exact h.congr rfl rfl rfl rfl rfl
    · rw [hundue] at hdue
      cases hdue
  · exact h.step_exit hsymbol hdue hin horders
  · refine ⟨fun _ => h.step_entry hsymbol hprice hin horders hafter,
      fun hguard => absurd (fun hdue => ?_) hguard⟩
    rw [hundue] at hdue
    cases hdue

theorem matched_start (size : ℚ) (symbol : String) : Matched symbol (start size) :=
  ⟨⟨fun before order hprefix => by simp [start] at hprefix, fun _ => rfl⟩, rfl,
    fun hin => by cases hin⟩

theorem Matched.step (h : Matched symbol d) {x : ExitInput} (hx : OfSymbol symbol x)
    (hguard : d.ExitAsEntered x) : Matched symbol (d.step x) := by
  cases x with
  | tick tick canTrade fillPrice => exact (h.step_tick hx.1 hx.2).1 hguard
  | updatePnl breaker pnlAmount => exact h.congr rfl rfl rfl rfl rfl
  | setCapital capital => exact h.congr rfl rfl rfl rfl rfl

/-- Over every run each SELL is of the quantity of its BUY, and nothing is left when the position is
closed, if and only if every exit falls due when what the size is computed from gives the size of the
entry. -/
theorem flatAfterExit_iff (size : ℚ) (symbol : String) {inputs : List ExitInput}
    (hinputs : ∀ x ∈ inputs, OfSymbol symbol x) :
    Throughout SizedDesk.step (FlatAfterExit symbol) (start size) inputs ↔
      Guarded SizedDesk.step ExitAsEntered (start size) inputs := by
  refine throughout_iff_guarded (I := Matched symbol) (H := OfSymbol symbol)
    (fun _ h => h.toFlatAfterExit) (fun _ _ hx h hguard => h.step hx hguard)
    (fun d x hx h hguard => ?_) hinputs (matched_start size symbol)
  cases x with
  | tick tick canTrade fillPrice => exact (h.step_tick hx.1 hx.2).2 hguard
  | updatePnl breaker pnlAmount => exact absurd trivial hguard
  | setCapital capital => exact absurd trivial hguard

/-- An exit with the limit of its entry is of its size. -/
theorem Matched.exitAsEntered (h : Matched symbol d) {x : ExitInput} (hx : OfSymbol symbol x)
    (hguard : d.ExitSizedAlike x) : d.ExitAsEntered x := by
  cases x with
  | tick tick canTrade fillPrice =>
    intro hdue
    obtain ⟨entry, hentered, halike⟩ := hguard hdue
    have hin : d.strategy.inPosition = true := by
      rcases d.strategy.generateSignal_cases tick canTrade with
        ⟨hundue, -⟩ | ⟨-, hin, -⟩ | ⟨hundue, -⟩
      · rw [hundue] at hdue
        cases hdue
      · exact hin
      · rw [hundue] at hdue
        cases hdue
    obtain ⟨entry', -, hentered', hprice, -⟩ := h.held hin
    obtain rfl : entry' = entry := Option.some.inj (hentered'.symm.trans hentered)
    exact ⟨entry', hentered, halike.quantity_eq hprice hx.2⟩
  | updatePnl breaker pnlAmount => trivial
  | setCapital capital => trivial

/-- **Flat after every exit.** Over every stream of ticks of one symbol with positive prices, every
sequence of calls in between and every answer of the breaker: where every exit that falls due has the
limit on its size that the entry had, each SELL is of the quantity of its BUY and nothing is left
when the position is closed. -/
theorem flatAfterExit_of_sizedAlike (size : ℚ) (symbol : String) {inputs : List ExitInput}
    (hinputs : ∀ x ∈ inputs, OfSymbol symbol x)
    (halike : Guarded SizedDesk.step ExitSizedAlike (start size) inputs) :
    Throughout SizedDesk.step (FlatAfterExit symbol) (start size) inputs := by
  have hmatched : Throughout SizedDesk.step (Matched symbol) (start size) inputs :=
    throughout_of_guarded (fun d x hx h hguard => h.step hx (h.exitAsEntered hx hguard)) hinputs
      (matched_start size symbol) halike
  exact fun ys hys => (hmatched ys hys).toFlatAfterExit

/-- Fifty ticks at prices about `base`, on the last of which the strategy buys, and a fall of 3%. -/
def fall (base : ℚ) : List ExitInput :=
  let tick (price : ℚ) : ExitInput := .tick { symbol := "AAPL", price, volume := 10 } true price
  (List.range 50).map (fun i => tick (base * (100 + (i % 2 : Nat)) / 100)) ++
    [tick (base * 98 / 100)]

/-- The size of 100 shares stands where the capital allows it at both prices. -/
theorem fallOfHundred_flatAfterExit :
    Throughout SizedDesk.step (FlatAfterExit "AAPL") (start 100) (fall 100) :=
  flatAfterExit_of_sizedAlike 100 "AAPL" (by decide +kernel) (by decide +kernel)

/-- At a price of 300 a quarter of the capital buys less than 100 shares, and more after the fall:
the exit sells more than was bought. -/
theorem fallOfThreeHundred_not_flatAfterExit :
    ¬ Throughout SizedDesk.step (FlatAfterExit "AAPL") (start 100) (fall 300) := by
  intro h
  exact absurd (h.last.flat (by decide +kernel)) (by decide +kernel)

end SizedDesk

end TradingTerminal
