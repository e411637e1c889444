import TradingTerminal.Strategies.Strategy
import TradingTerminal.Lib.Run
import Mathlib.Tactic.Ring

/-!
# Average-cost positions

`CostBasis` is average-cost accounting of one symbol: buys move the average price to the weighted
mean, sells leave it alone, and a symbol that was closed starts afresh. `update_position` takes every
fill into the mean instead, sells with a negative weight, and keeps a closed position in the list.
Its positions are those of average-cost accounting exactly when every symbol that was traded is held
and its sales since it was last flat made neither profit nor loss (`averageCost_iff`).
-/

namespace TradingTerminal

open Lib

/-- The arguments of one `update_position` call; sold shares have a negative quantity. -/
structure PositionFill where
  symbol : String
  quantity : ℚ
  price : ℚ
  deriving DecidableEq, Repr

def Strategy.onFill (s : Strategy) (fill : PositionFill) : Strategy :=
  s.updatePosition fill.symbol fill.quantity fill.price

/-- The callbacks of both strategies pass their orders on with the sign of the side. -/
theorem Strategy.bookFill_positions (s : Strategy) (order : Order) :
    (s.bookFill order).positions =
      (s.onFill ⟨order.symbol, order.signed, order.price⟩).positions := by
  unfold bookFill onFill updatePosition
  dsimp only
  split
  · rfl
  · split <;> rfl

/-! ## Average-cost accounting -/

/-- The shares held of a symbol, their average price, and what the sales since the symbol was last
flat realised. -/
structure CostBasis where
  quantity : ℚ := 0
  averagePrice : ℚ := 0
  realized : ℚ := 0
  deriving DecidableEq, Repr

def CostBasis.fill (c : CostBasis) (quantity price : ℚ) : CostBasis :=
  let total := c.quantity + quantity
  if 0 < quantity then
    { c with
      quantity := total
      averagePrice := (c.averagePrice * c.quantity + price * quantity) / total }
  else if total = 0 then {}
  else { c with quantity := total, realized := c.realized + (price - c.averagePrice) * -quantity }

def costBasis (fills : List PositionFill) (symbol : String) : CostBasis :=
  (fills.filter (·.symbol = symbol)).foldl (fun c fill => c.fill fill.quantity fill.price) {}

/-- Bought minus sold shares of a symbol. -/
def netFilled (fills : List PositionFill) (symbol : String) : ℚ :=
  ((fills.filter (·.symbol = symbol)).map PositionFill.quantity).sum

/-- A fill that may come after `earlier`: shares change hands at a positive price, and no more are
sold than are held. -/
structure FillsAfter (earlier : List PositionFill) (fill : PositionFill) : Prop where
  quantity : fill.quantity ≠ 0
  price : 0 < fill.price
  held : 0 ≤ netFilled earlier fill.symbol + fill.quantity

instance (earlier : List PositionFill) (fill : PositionFill) : Decidable (FillsAfter earlier fill) :=
  decidable_of_iff (fill.quantity ≠ 0 ∧ 0 < fill.price ∧
      0 ≤ netFilled earlier fill.symbol + fill.quantity)
    ⟨fun h => ⟨h.1, h.2.1, h.2.2⟩, fun h => ⟨h.quantity, h.price, h.held⟩⟩

/-- A sequence of fills without an oversell. -/
def NoOversell (fills : List PositionFill) : Prop :=
  ∀ earlier fill, earlier ++ [fill] <+: fills → FillsAfter earlier fill

/-- The list of positions is the one of average-cost accounting. -/
structure AverageCost (fills : List PositionFill) (positions : List Position) : Prop where
  nodup : (positions.map Position.symbol).Nodup
  listed : ∀ symbol, symbol ∈ positions.map Position.symbol ↔ netFilled fills symbol ≠ 0
  quantity : ∀ pos ∈ positions, pos.quantity = netFilled fills pos.symbol
  averagePrice : ∀ pos ∈ positions, pos.avgEntryPrice = (costBasis fills pos.symbol).averagePrice

theorem noOversell_nil : NoOversell [] := by
  intro earlier fill h
  simp at h

theorem noOversell_concat {fills : List PositionFill} {fill : PositionFill} :
    NoOversell (fills ++ [fill]) ↔ NoOversell fills ∧ FillsAfter fills fill := by
  constructor
  · intro h
    exact ⟨fun earlier x hx => h earlier x (hx.trans (List.prefix_append ..)),
      h fills fill (List.prefix_refl _)⟩
  · rintro ⟨h, hfill⟩ earlier x hx
    rcases List.prefix_concat_iff.1 hx with heq | hprefix
    · obtain ⟨rfl, hx⟩ := List.append_inj' heq rfl
      obtain rfl : x = fill := by simpa using hx
      exact hfill
    · exact h earlier x hprefix

theorem netFilled_concat (fills : List PositionFill) (fill : PositionFill) (symbol : String) :
    netFilled (fills ++ [fill]) symbol =
      netFilled fills symbol + if symbol = fill.symbol then fill.quantity else 0 := by
  unfold netFilled
  by_cases h : fill.symbol = symbol
  · simp [h]
  · simp [h, Ne.symm h]

theorem costBasis_concat (fills : List PositionFill) (fill : PositionFill) (symbol : String) :
    costBasis (fills ++ [fill]) symbol =
      if symbol = fill.symbol then (costBasis fills fill.symbol).fill fill.quantity fill.price
      else costBasis fills symbol := by
  unfold costBasis
  by_cases h : fill.symbol = symbol
  · subst h
    rw [List.filter_append, List.foldl_append, if_pos rfl]
    simp
  · rw [List.filter_append, if_neg (Ne.symm h)]
    simp [h]

@[simp] theorem CostBasis.fill_quantity (c : CostBasis) (quantity price : ℚ) :
    (c.fill quantity price).quantity = c.quantity + quantity := by
  unfold CostBasis.fill
  dsimp only
  split
  · rfl
  · split
    · next h => exact h.symm
    · rfl

theorem costBasis_quantity (fills : List PositionFill) (symbol : String) :
    (costBasis fills symbol).quantity = netFilled fills symbol := by
  induction fills using List.reverseRecOn with
  | nil => rfl
  | append_singleton fills fill ih =>
    rw [costBasis_concat, netFilled_concat]
    split
    · next h =>
      subst h
      rw [CostBasis.fill_quantity, ih]
    · rw [ih, add_zero]

theorem NoOversell.nonneg {fills : List PositionFill} (h : NoOversell fills) (symbol : String) :
    0 ≤ netFilled fills symbol := by
  induction fills using List.reverseRecOn with
  | nil => exact le_refl _
  | append_singleton fills fill ih =>
    obtain ⟨hfills, hfill⟩ := noOversell_concat.1 h
    rw [netFilled_concat]
    split
    · next hsymbol => exact hsymbol ▸ hfill.held
    · rw [add_zero]
      exact ih hfills

/-! ## What a fill does to the cost

Both sides are compared by what the shares held cost, less what their sales realised. -/

/-- The cost of the shares held, less what was realised with those sold. -/
def CostBasis.netCost (c : CostBasis) : ℚ := c.averagePrice * c.quantity - c.realized

theorem CostBasis.netCost_fill {c : CostBasis} {quantity : ℚ} (price : ℚ)
    (hc : 0 ≤ c.quantity) :
    (c.fill quantity price).netCost =
      if c.quantity + quantity = 0 then 0 else c.netCost + price * quantity := by
  unfold CostBasis.fill CostBasis.netCost
  dsimp only
  by_cases hbuy : 0 < quantity
  · have htotal : c.quantity + quantity ≠ 0 := (add_pos_of_nonneg_of_pos hc hbuy).ne'
    rw [if_pos hbuy, if_neg htotal]
    dsimp only
    rw [div_mul_cancel₀ _ htotal]
    ring
  · rw [if_neg hbuy]
    split
    · simp
    · dsimp only
      ring

theorem Position.cost_add (pos : Position) (quantity price : ℚ) :
    (pos.add quantity price).avgEntryPrice * (pos.add quantity price).quantity =
      if pos.quantity + quantity = 0 then 0
      else pos.avgEntryPrice * pos.quantity + price * quantity := by
  unfold Position.add
  dsimp only
  by_cases htotal : pos.quantity + quantity = 0
  · rw [if_pos htotal, htotal, mul_zero]
  · rw [if_pos htotal, if_neg htotal, div_mul_cancel₀ _ htotal]

/-! ## The list of positions -/

theorem addToFirst_of_notMem {symbol : String} {positions : List Position} (quantity price : ℚ)
    (h : symbol ∉ positions.map Position.symbol) :
    addToFirst symbol quantity price positions = none := by
  induction positions with
  | nil => rfl
  | cons pos rest ih =>
    rw [List.map_cons, List.mem_cons, not_or] at h
    rw [addToFirst, if_neg (Ne.symm h.1), ih h.2, Option.map_none]

/-- A symbol that is listed once takes the fill there. -/
theorem addToFirst_of_mem {symbol : String} {positions : List Position} (quantity price : ℚ)
    (hnodup : (positions.map Position.symbol).Nodup) (h : symbol ∈ positions.map Position.symbol) :
    addToFirst symbol quantity price positions = some (positions.map fun pos =>
      if pos.symbol = symbol then pos.add quantity price else pos) := by
  induction positions with
  | nil => simp at h
  | cons pos rest ih =>
    rw [List.map_cons, List.nodup_cons] at hnodup
    rw [addToFirst, List.map_cons]
    by_cases hsymbol : pos.symbol = symbol
    · have hrest : ∀ x ∈ rest, (if x.symbol = symbol then x.add quantity price else x) = x := by
        intro x hx
        apply if_neg
        rintro rfl
        exact hnodup.1 (hsymbol ▸ List.mem_map_of_mem hx)
      rw [if_pos hsymbol, if_pos hsymbol, List.map_congr_left hrest, List.map_id']
    · have hmem : symbol ∈ rest.map Position.symbol := by
        rw [List.map_cons, List.mem_cons] at h
        exact h.resolve_left (Ne.symm hsymbol)
      rw [if_neg hsymbol, if_neg hsymbol, ih hnodup.2 hmem, Option.map_some]

/-- Every symbol that was traded is listed, once, with its net quantity and at its net cost. -/
structure Tracks (fills : List PositionFill) (positions : List Position) : Prop where
  nodup : (positions.map Position.symbol).Nodup
  listed : ∀ symbol, symbol ∈ positions.map Position.symbol ↔ ∃ fill ∈ fills, fill.symbol = symbol
  quantity : ∀ pos ∈ positions, pos.quantity = netFilled fills pos.symbol
  cost : ∀ pos ∈ positions,
    pos.avgEntryPrice * pos.quantity = (costBasis fills pos.symbol).netCost

theorem Position.add_symbol (pos : Position) (quantity price : ℚ) :
    (pos.add quantity price).symbol = pos.symbol :=
  rfl

section Step

variable {fills : List PositionFill} {fill : PositionFill} {s : Strategy}

/-- A symbol that is not listed was not traded. -/
theorem Tracks.filter_eq_nil (h : Tracks fills s.positions) {symbol : String}
    (hmem : symbol ∉ s.positions.map Position.symbol) : fills.filter (·.symbol = symbol) = [] := by
  rw [List.filter_eq_nil_iff]
  intro x hx hsymbol
  exact hmem ((h.listed _).2 ⟨x, hx, by simpa using hsymbol⟩)

/-- A position that is held is at the average price exactly if nothing was realised. -/
theorem Tracks.averagePrice_iff (h : Tracks fills s.positions) {pos : Position}
    (hpos : pos ∈ s.positions) (hheld : netFilled fills pos.symbol ≠ 0) :
    pos.avgEntryPrice = (costBasis fills pos.symbol).averagePrice ↔
      (costBasis fills pos.symbol).realized = 0 := by
  have hcost := h.cost pos hpos
  rw [CostBasis.netCost, costBasis_quantity, h.quantity pos hpos] at hcost
  constructor
  · intro heq
    rw [heq] at hcost
    exact sub_eq_self.1 hcost.symm
  · intro hzero
    rw [hzero, sub_zero] at hcost
    exact mul_right_cancel₀ hheld hcost

theorem Tracks.onFill_listed (h : Tracks fills s.positions) (hfills : NoOversell fills)
    (hmem : fill.symbol ∈ s.positions.map Position.symbol) :
    Tracks (fills ++ [fill]) (s.onFill fill).positions := by
  have hpositions : (s.onFill fill).positions = s.positions.map fun pos =>
      if pos.symbol = fill.symbol then pos.add fill.quantity fill.price else pos := by
    unfold Strategy.onFill Strategy.updatePosition
    rw [addToFirst_of_mem _ _ h.nodup hmem]
  have hsymbols : (s.onFill fill).positions.map Position.symbol = s.positions.map Position.symbol := by
    rw [hpositions, List.map_map]
    apply List.map_congr_left
    intro pos _
    rw [Function.comp_apply]
    split <;> rfl
  rw [hpositions] at hsymbols ⊢
  refine ⟨hsymbols ▸ h.nodup, fun symbol => ?_, ?_, ?_⟩
  · rw [hsymbols, h.listed]
    constructor
    · rintro ⟨x, hx, rfl⟩
      exact ⟨x, List.mem_append_left _ hx, rfl⟩
    · rintro ⟨x, hx, rfl⟩
      rcases List.mem_append.1 hx with hx | hx
      · exact ⟨x, hx, rfl⟩
      · obtain rfl := List.mem_singleton.1 hx
        exact (h.listed _).1 hmem
  · intro pos' hpos'
    obtain ⟨pos, hpos, rfl⟩ := List.mem_map.1 hpos'
    rw [netFilled_concat]
    split
    · next hsymbol => rw [Position.add_symbol, if_pos hsymbol, ← h.quantity pos hpos]; rfl
    · rw [add_zero, h.quantity pos hpos]
  · intro pos' hpos'
    obtain ⟨pos, hpos, rfl⟩ := List.mem_map.1 hpos'
    rw [costBasis_concat]
    split
    · next hsymbol =>
      have hquantity := (costBasis_quantity fills pos.symbol).trans (h.quantity pos hpos).symm
      rw [Position.add_symbol, if_pos hsymbol, Position.cost_add, ← hsymbol,
        CostBasis.netCost_fill _ (by rw [costBasis_quantity]; exact hfills.nonneg _), hquantity,
        h.cost pos hpos]
    · exact h.cost pos hpos

theorem Tracks.onFill_unlisted (h : Tracks fills s.positions)
    (hfill : FillsAfter fills fill) (hmem : fill.symbol ∉ s.positions.map Position.symbol) :
    Tracks (fills ++ [fill]) (s.onFill fill).positions := by
  have hnone := h.filter_eq_nil hmem
  have hbasis : costBasis fills fill.symbol = {} := by rw [costBasis, hnone, List.foldl_nil]
  have hnet : netFilled fills fill.symbol = 0 := by
    rw [netFilled, hnone, List.map_nil, List.sum_nil]
  have hpositions : (s.onFill fill).positions = s.positions ++
      [{ symbol := fill.symbol, quantity := fill.quantity, avgEntryPrice := fill.price,
         currentPrice := fill.price }] := by
    unfold Strategy.onFill Strategy.updatePosition
    rw [addToFirst_of_notMem _ _ hmem, if_pos hfill.quantity]
  rw [hpositions]
  have hother : ∀ pos ∈ s.positions, pos.symbol ≠ fill.symbol := by
    intro pos hpos heq
    exact hmem (heq ▸ List.mem_map_of_mem hpos)
  refine ⟨?_, fun symbol => ?_, ?_, ?_⟩
  · rw [List.map_append, List.map_singleton, ← List.concat_eq_append]
    exact h.nodup.concat hmem
  · rw [List.map_append, List.mem_append, h.listed]
    simp only [List.map_cons, List.map_nil, List.mem_singleton, List.mem_append, or_and_right,
      exists_or, exists_eq_left]
    exact or_congr Iff.rfl eq_comm
  · intro pos hpos
    rw [netFilled_concat]
    rcases List.mem_append.1 hpos with hpos | hpos
    · rw [if_neg (hother pos hpos), add_zero, h.quantity pos hpos]
    · obtain rfl := List.mem_singleton.1 hpos
      rw [if_pos rfl, hnet, zero_add]
  · intro pos hpos
    rw [costBasis_concat]
    rcases List.mem_append.1 hpos with hpos | hpos
    · rw [if_neg (hother pos hpos), h.cost pos hpos]
    · obtain rfl := List.mem_singleton.1 hpos
      rw [if_pos rfl, hbasis, CostBasis.netCost_fill _ (le_refl _), zero_add,
        if_neg hfill.quantity]
      simp [CostBasis.netCost]

end Step

theorem tracks_run {fills : List PositionFill} (h : NoOversell fills) :
    Tracks fills (run Strategy.onFill {} fills).positions := by
  induction fills using List.reverseRecOn with
  | nil => exact ⟨List.nodup_nil, by simp, by simp, by simp⟩
  | append_singleton fills fill ih =>
    obtain ⟨hfills, hfill⟩ := noOversell_concat.1 h
    rw [run_concat]
    by_cases hmem : fill.symbol ∈ (run Strategy.onFill {} fills).positions.map Position.symbol
    · exact (ih hfills).onFill_listed hfills hmem
    · exact (ih hfills).onFill_unlisted hfill hmem

/-- **Average-cost positions.** After any fills without an oversell, the positions are those of
average-cost accounting if and only if every symbol that was traded is held, and its sales since it
was last flat realised nothing. -/
theorem averageCost_iff (fills : List PositionFill) (h : NoOversell fills) :
    AverageCost fills (run Strategy.onFill {} fills).positions ↔
      ∀ fill ∈ fills, netFilled fills fill.symbol ≠ 0 ∧ (costBasis fills fill.symbol).realized = 0 := by
  have htracks := tracks_run h
  generalize run Strategy.onFill {} fills = s at htracks ⊢
  constructor
  · intro haverage fill hfill
    have hmem := (htracks.listed fill.symbol).2 ⟨fill, hfill, rfl⟩
    have hheld := (haverage.listed fill.symbol).1 hmem
    obtain ⟨pos, hpos, hsymbol⟩ := List.mem_map.1 hmem
    refine ⟨hheld, ?_⟩
    rw [← hsymbol] at hheld ⊢
    exact (htracks.averagePrice_iff hpos hheld).1 (haverage.averagePrice pos hpos)
  · intro hall
    have hheld : ∀ symbol ∈ s.positions.map Position.symbol,
        netFilled fills symbol ≠ 0 ∧ (costBasis fills symbol).realized = 0 := by
      intro symbol hsymbol
      obtain ⟨fill, hfill, rfl⟩ := (htracks.listed symbol).1 hsymbol
      exact hall fill hfill
    refine ⟨htracks.nodup, fun symbol => ⟨fun hmem => (hheld symbol hmem).1, fun hnet => ?_⟩,
      htracks.quantity, fun pos hpos => ?_⟩
    · by_contra hmem
      apply hnet
      rw [netFilled, htracks.filter_eq_nil hmem, List.map_nil, List.sum_nil]
    · have hpos' := hheld pos.symbol (List.mem_map_of_mem hpos)
      exact (htracks.averagePrice_iff hpos hpos'.1).2 hpos'.2

/-- Ten shares bought, and half of them sold ten dollars higher. -/
def halfSoldHigher : List PositionFill := [⟨"AAPL", 10, 100⟩, ⟨"AAPL", -5, 110⟩]

theorem halfSoldHigher_noOversell : NoOversell halfSoldHigher := by
  have hbuy : FillsAfter [] ⟨"AAPL", 10, 100⟩ := by decide +kernel
  have hsell : FillsAfter [⟨"AAPL", 10, 100⟩] ⟨"AAPL", -5, 110⟩ := by decide +kernel
  exact noOversell_concat.2 ⟨noOversell_concat.2 ⟨noOversell_nil, hbuy⟩, hsell⟩

/-- The five shares left are listed at 90. -/
theorem halfSoldHigher_not_averageCost :
    NoOversell halfSoldHigher ∧
      (run Strategy.onFill {} halfSoldHigher).positions =
        [{ symbol := "AAPL", quantity := 5, avgEntryPrice := 90, currentPrice := 110 }] ∧
      ¬ AverageCost halfSoldHigher (run Strategy.onFill {} halfSoldHigher).positions := by
  have hpositions : (run Strategy.onFill {} halfSoldHigher).positions =
      [{ symbol := "AAPL", quantity := 5, avgEntryPrice := 90, currentPrice := 110 }] := by
    decide +kernel
  refine ⟨halfSoldHigher_noOversell, hpositions, fun h => ?_⟩
  rw [hpositions] at h
  exact absurd (h.averagePrice _ (List.mem_singleton_self _)) (by decide +kernel)

/-- Two buys, with no sale between them. -/
theorem twoBuys_averageCost :
    AverageCost [⟨"AAPL", 10, 100⟩, ⟨"AAPL", 30, 110⟩]
      (run Strategy.onFill {} [⟨"AAPL", 10, 100⟩, ⟨"AAPL", 30, 110⟩]).positions := by
  have hfirst : FillsAfter [] ⟨"AAPL", 10, 100⟩ := by decide +kernel
  have hsecond : FillsAfter [⟨"AAPL", 10, 100⟩] ⟨"AAPL", 30, 110⟩ := by decide +kernel
  have hfills : NoOversell ([⟨"AAPL", 10, 100⟩] ++ [⟨"AAPL", 30, 110⟩]) :=
    noOversell_concat.2 ⟨noOversell_concat.2 ⟨noOversell_nil, hfirst⟩, hsecond⟩
  exact (averageCost_iff _ hfills).2 (by decide +kernel)

end TradingTerminal
