import TradingTerminal.Strategies.VWAPStrategy
import TradingTerminal.Strategies.EnhancedIntraday

/-!
# What the one-slot strategies sell

`VWAPStrategy` and `EnhancedIntradayStrategy` keep one position flag while they are fed the ticks of
every symbol, so an exit that comes on a tick of another symbol than the one bought sells what is not
held. The enhanced strategy also sizes an exit anew, and can sell more than it bought.
-/

namespace TradingTerminal

open Lib

/-- **Selling what is held.** In every run of the VWAP strategy each SELL is for a symbol with a
positive net filled quantity if and only if every exit comes on a tick of the symbol bought last and
the size of the orders is positive. For the enhanced strategy, whose sizes vary, it is enough that
every exit comes on a tick of the symbol bought last, out of a positive quantity, for no more. -/
theorem oneSlot_sellsHeld (size : ℚ) :
    (∀ ticks : List Tick,
      Guarded (Desk.step VWAPStrategy.trader) (SellsHeld VWAPStrategy.trader)
          { strategy := .new size } ticks ↔
        Guarded (Desk.step VWAPStrategy.trader) (VWAPStrategy.oneSlot size).SellsLast
          { strategy := .new size } ticks) ∧
    ∀ ticks : List (Tick × Bool),
      Guarded (Desk.step EnhancedIntradayStrategy.trader) EnhancedIntradayStrategy.oneSlot.SellsLast
          { strategy := .new size } ticks →
        Guarded (Desk.step EnhancedIntradayStrategy.trader)
          (SellsHeld EnhancedIntradayStrategy.trader) { strategy := .new size } ticks := by
  constructor
  · intro ticks
    exact (VWAPStrategy.oneSlot size).sellsHeld_iff_sellsLast (fun _ _ h => h.2) ⟨rfl, rfl⟩ rfl
  · intro ticks h
    exact EnhancedIntradayStrategy.oneSlot.sellsHeld_of_sellsLast (s := .new size) rfl rfl h

section TwoSymbols

/-- Two ticks of `AAPL`, the second below the average, and one above it. -/
def vwapTicks (last : String) : List Tick :=
  [{ symbol := "AAPL", price := 100, volume := 10 }, { symbol := "AAPL", price := 90, volume := 10 },
    { symbol := last, price := 300, volume := 10 }]

/-- Fifty ticks of `AAPL` between 100 and 101, and one at 98. -/
def enhancedTicks (last : String) : List (Tick × Bool) :=
  (List.range 50).map (fun i => ({ symbol := "AAPL", price := 100 + (i % 2 : Nat), volume := 10 }, true)) ++
    [({ symbol := last, price := 98, volume := 10 }, true)]

/-- When the last tick is one of `MSFT`, both strategies buy `AAPL` and then sell `MSFT`. -/
theorem twoSymbols_not_sellsHeld :
    ¬ Guarded (Desk.step VWAPStrategy.trader) (SellsHeld VWAPStrategy.trader)
        { strategy := .new 10 } (vwapTicks "MSFT") ∧
      ¬ Guarded (Desk.step EnhancedIntradayStrategy.trader)
        (SellsHeld EnhancedIntradayStrategy.trader) { strategy := .new 10 } (enhancedTicks "MSFT") := by
  constructor
  · decide +kernel
  · decide +kernel

/-- When it is one of `AAPL`, both sell what they bought. -/
theorem oneSymbol_sellsHeld :
    Guarded (Desk.step VWAPStrategy.trader) (SellsHeld VWAPStrategy.trader)
        { strategy := .new 10 } (vwapTicks "AAPL") ∧
      Guarded (Desk.step EnhancedIntradayStrategy.trader)
        (SellsHeld EnhancedIntradayStrategy.trader) { strategy := .new 10 } (enhancedTicks "AAPL") := by
  obtain ⟨hvwap, henhanced⟩ := oneSlot_sellsHeld 10
  constructor
  · exact (hvwap (vwapTicks "AAPL")).2 (by decide +kernel)
  · exact henhanced (enhancedTicks "AAPL") (by decide +kernel)

end TwoSymbols

end TradingTerminal
