import TradingTerminal.Live.OneTrade
import TradingTerminal.Exchange.MockExchange
import Mathlib.Algebra.BigOperators.Fin
import Mathlib.Algebra.BigOperators.Group.Finset.Piecewise
import Mathlib.Algebra.Order.BigOperators.Group.Finset
import Mathlib.Algebra.Order.Group.Unbundled.Abs

/-!
# A session with the mock exchange

The terminal of `main.cpp` connected to the mock exchange: the exchange quotes its own price, its
cash is what `process_signal` reads, and it answers the orders of the processor. An input is a write
of the price, a turn of a strategy on the tick of a subscribed symbol, or a pass of the processor.
The writes and the turns are on one thread, so that no turn sees a price that is not clamped yet; a
pass of the processor may come between any two of them. The log `fills` holds the accepted orders
with the prices they were filled at.

A session is a run of the terminal (`Booked.onTrip`), so each strategy trades a symbol at most once;
with the band of the price this bounds the cash of the account for good (`mock_cash`).
-/

namespace TradingTerminal

open Lib

structure MockSession where
  terminal : Terminal
  exchange : MockExchange
  /-- the price is written and not clamped yet -/
  walking : Bool := false
  fills : List (Nat × Order × ℚ) := []

/-- What a turn takes from outside: the generator, the clocks and the risk decision. -/
structure MockTurn where
  volume : ℚ
  tickTime : UInt64 := 0
  clock : UInt64 := 0
  approve : Bool
  now : TimePoint := 0
  timestamp : UInt64 := 0

inductive MockInput where
  | jitter (step : MockExchange.Jitter)
  | clamp
  | turn (i : Nat) (symbol : String) (turn : MockTurn)
  | process (now latency : Nat)

namespace MockSession

/-- The turn of a strategy on the tick the exchange sends for a symbol. -/
def terminalTurn (s : MockSession) (symbol : String) (turn : MockTurn) : Turn :=
  { tick := s.exchange.tick symbol turn.volume turn.tickTime
    clock := turn.clock
    approve := turn.approve
    now := turn.now
    balance := fun _ => s.exchange.balance
    timestamp := turn.timestamp }

def step (s : MockSession) : MockInput → MockSession
  | .jitter step =>
    if s.walking then s else { s with exchange := s.exchange.jitter step, walking := true }
  | .clamp => { s with exchange := s.exchange.clamp, walking := false }
  | .turn i symbol turn =>
    if !s.walking ∧ symbol ∈ s.exchange.symbols then
      { s with terminal := s.terminal.step (.turn i (s.terminalTurn symbol turn)) }
    else s
  | .process now latency =>
    match s.terminal.manager.nextOrder with
    | none => s
    | some order =>
      let (answer, exchange) := s.exchange.placeOrder order now
      { s with
        terminal := s.terminal.step (.process answer latency)
        exchange
        fills :=
          if answer ≠ "" then
            s.fills ++ [(s.terminal.owners.headD 0, order, s.exchange.mockPrice)]
          else s.fills }

/-- The session when `run` starts: the symbols of the configuration are subscribed. -/
def start (params : List StrategyParams) (limits : Limits) (breaker : CircuitBreaker)
    (symbols : List String) : MockSession :=
  { terminal := .start params limits breaker
    exchange := symbols.foldl MockExchange.subscribeSymbol {} }

/-- The cash an accepted order costs. -/
def cost (fill : Nat × Order × ℚ) : ℚ := fill.2.1.signed * fill.2.2

/-- The strategy and the symbol of a fill. -/
def key (fill : Nat × Order × ℚ) : Nat × String := (fill.1, fill.2.1.symbol)

/-- The books of the session: the cash is what the fills left of it, the fills are the accepted
orders, and every order belongs to a strategy and a subscribed symbol. -/
structure Booked (sizes : List ℚ) (symbols : List String) (s : MockSession) : Prop where
  valid : s.exchange.Valid
  inBand : s.walking = false → s.exchange.InBand
  symbols : s.exchange.symbols = symbols
  onTrip : ∃ past, Terminal.OnTrip sizes past s.terminal
  balance : s.exchange.balance = 100000 - (s.fills.map cost).sum
  nonneg : (∀ size ∈ sizes, 0 ≤ size) → 0 ≤ s.exchange.balance
  fills : s.fills.map (fun fill => (fill.1, fill.2.1)) = s.terminal.accepted
  prices : ∀ fill ∈ s.fills, 499 / 10 ≤ fill.2.2 ∧ fill.2.2 ≤ 2501 / 10
  known : ∀ x ∈ s.terminal.placedOrQueued, x.1 < sizes.length ∧ x.2.symbol ∈ s.exchange.symbols

end MockSession

namespace Terminal

variable {t : Terminal}

/-- The order the processor takes is queued, with its owner. -/
theorem nextOrder_mem (howned : t.Owned) {order : Order} (h : t.manager.nextOrder = some order) :
    (t.owners.headD 0, order) ∈ t.placedOrQueued := by
  obtain ⟨-, pending, rest, hq, rfl⟩ := OrderManager.nextOrder_eq_some.1 h
  unfold Owned at howned
  cases howners : t.owners with
  | nil => simp [howners, hq] at howned
  | cons i owners => simp [placedOrQueued, howners, hq]

theorem step_process_accepted {order : Order} (h : t.manager.nextOrder = some order)
    (answer : String) (latency : Nat) :
    (t.step (.process answer latency)).accepted =
      if answer ≠ "" then t.accepted ++ [(t.owners.headD 0, order)] else t.accepted := by
  simp only [step, h]

theorem step_process_subset (howned : t.Owned) (answer : String) (latency : Nat) :
    (t.step (.process answer latency)).placedOrQueued ⊆ t.placedOrQueued := by
  cases (step_process howned answer latency).2 with
  | kept same _ => rw [same]; exact List.Subset.refl _
  | dropped _ rest _ => rw [rest]; exact (List.eraseIdx_sublist _ _).subset

theorem step_turn_accepted (t : Terminal) (i : Nat) (turn : Turn) :
    (t.step (.turn i turn)).accepted = t.accepted := by
  simp only [step]
  split
  · rfl
  · split <;> rfl

/-- A turn adds at most an order of its strategy for the symbol of its tick. -/
theorem step_turn_mem (howned : t.Owned) {i : Nat} {turn : Turn} {x : Nat × Order}
    (hx : x ∈ (t.step (.turn i turn)).placedOrQueued) :
    x ∈ t.placedOrQueued ∨ i < t.strategies.length ∧ x.1 = i ∧ x.2.symbol = turn.tick.symbol := by
  cases hi : t.strategies[i]? with
  | none =>
    have hstep : t.step (.turn i turn) = t := by simp [step, hi]
    rw [hstep] at hx
    exact .inl hx
  | some strategy =>
    have frame := step_turn_frame turn howned hi
    by_cases hhere : x.1 = i ∧ x.2.symbol = turn.tick.symbol
    · exact .inr ⟨(List.getElem?_eq_some_iff.1 hi).1, hhere⟩
    · left
      have hmem : x ∈ (t.step (.turn i turn)).ordersOf x.1 x.2.symbol :=
        List.mem_filter.2 ⟨hx, by simp⟩
      rw [frame.others x.1 x.2.symbol (by by_contra hcon; push Not at hcon; exact hhere hcon)] at hmem
      exact (List.mem_filter.1 hmem).1

end Terminal

namespace MockSession

variable {sizes : List ℚ} {subscribed : List String} {s : MockSession}

theorem booked_start (params : List StrategyParams) (limits : Limits) (breaker : CircuitBreaker)
    (symbols : List String) :
    Booked (params.map fun param => (LiveStrategy.create param).positionSize)
      (start params limits breaker symbols).exchange.symbols
      (start params limits breaker symbols) := by
  obtain ⟨hvalid, hband, hbalance⟩ : (symbols.foldl MockExchange.subscribeSymbol {}).Valid ∧
      (symbols.foldl MockExchange.subscribeSymbol {}).InBand ∧
      (symbols.foldl MockExchange.subscribeSymbol {}).balance = 100000 := by
    refine List.foldlRecOn
      (motive := fun m : MockExchange => m.Valid ∧ m.InBand ∧ m.balance = 100000) symbols _
      ⟨MockExchange.valid_new, MockExchange.inBand_new, rfl⟩
      fun m ⟨hm, hin, hb⟩ symbol _ => ⟨hm.subscribeSymbol symbol, ?_⟩
    unfold MockExchange.subscribeSymbol
    split <;> exact ⟨hin, hb⟩
  refine ⟨hvalid, fun _ => hband, rfl, ⟨[], Terminal.onTrip_start params limits breaker⟩, ?_,
    fun _ => ?_, rfl, by simp [start], by simp [start, Terminal.start, Terminal.placedOrQueued]⟩
  · simp [start, hbalance]
  · simp [start, hbalance]

theorem Booked.jitter (h : Booked sizes subscribed s) (step : MockExchange.Jitter) :
    Booked sizes subscribed (s.step (.jitter step)) := by
  cases hwalking : s.walking with
  | true => simpa only [MockSession.step, hwalking, ite_true] using h
  | false =>
    simp only [MockSession.step, hwalking, Bool.false_eq_true, ite_false]
    exact ⟨h.valid.jitter (h.inBand hwalking) step, Bool.noConfusion, h.symbols, h.onTrip, h.balance,
      h.nonneg, h.fills, h.prices, h.known⟩

theorem Booked.clamp (h : Booked sizes subscribed s) : Booked sizes subscribed (s.step .clamp) :=
  ⟨h.valid.clamp, fun _ => s.exchange.clamp_inBand, h.symbols, h.onTrip, h.balance, h.nonneg, h.fills,
    h.prices, h.known⟩

theorem Booked.turn (h : Booked sizes subscribed s) (i : Nat) (symbol : String) (turn : MockTurn) :
    Booked sizes subscribed (s.step (.turn i symbol turn)) := by
  simp only [MockSession.step]
  split
  case isFalse => exact h
  case isTrue hquoted =>
    obtain ⟨past, honTrip⟩ := h.onTrip
    refine ⟨h.valid, h.inBand, h.symbols, ⟨_, honTrip.turn i (s.terminalTurn symbol turn)⟩, h.balance,
      h.nonneg, ?_, h.prices, fun x hx => ?_⟩
    · rw [Terminal.step_turn_accepted]
      exact h.fills
    · rcases Terminal.step_turn_mem honTrip.owned hx with hx | ⟨hlt, hown, hsym⟩
      · exact h.known x hx
      · refine ⟨?_, ?_⟩
        · rw [hown, ← honTrip.sizes, List.length_map]
          exact hlt
        · rw [hsym]
          exact hquoted.2

theorem Booked.process (h : Booked sizes subscribed s) (now latency : Nat) :
    Booked sizes subscribed (s.step (.process now latency)) := by
  cases hnext : s.terminal.manager.nextOrder with
  | none => simpa only [MockSession.step, hnext] using h
  | some order =>
    obtain ⟨past, honTrip⟩ := h.onTrip
    have hmem := Terminal.nextOrder_mem honTrip.owned hnext
    have hstep : s.step (.process now latency) =
        { s with
          terminal := s.terminal.step (.process (s.exchange.placeOrder order now).1 latency)
          exchange := (s.exchange.placeOrder order now).2
          fills :=
            if (s.exchange.placeOrder order now).1 ≠ "" then
              s.fills ++ [(s.terminal.owners.headD 0, order, s.exchange.mockPrice)]
            else s.fills } := by
      simp only [MockSession.step, hnext]
    have honTrip' := honTrip.process (s.exchange.placeOrder order now).1 latency
    have hsubset := Terminal.step_process_subset honTrip.owned
      (s.exchange.placeOrder order now).1 latency
    have haccepted := Terminal.step_process_accepted hnext
      (s.exchange.placeOrder order now).1 latency
    rw [hstep]
    rcases s.exchange.placeOrder_cases order now with ⟨hrefused, hsame⟩ | ⟨htaken, hcash, hpaid⟩
    · rw [if_neg (not_not.2 hrefused)] at haccepted ⊢
      rw [hsame]
      refine ⟨h.valid, h.inBand, h.symbols, ⟨past, honTrip'⟩, h.balance, h.nonneg, ?_, h.prices,
        fun x hx => h.known x (hsubset hx)⟩
      rw [haccepted]
      exact h.fills
    · rw [if_pos htaken] at haccepted ⊢
      rw [hpaid]
      refine ⟨⟨h.valid.price, h.valid.nodup⟩, h.inBand, h.symbols, ⟨past, honTrip'⟩, ?_,
        fun hsizes => ?_, ?_, ?_, fun x hx => h.known x (hsubset hx)⟩
      · simp only [List.map_append, List.sum_append, List.map_cons, List.map_nil, List.sum_singleton,
          cost, h.balance]
        ring
      · -- a BUY is covered by the cash, a SELL of a quantity that is not negative adds to it
        obtain ⟨hlt, -⟩ := h.known _ hmem
        have hquantity := honTrip.quantity hmem (List.getElem?_eq_getElem hlt)
        have hq : 0 ≤ order.quantity := hquantity ▸ hsizes _ (List.getElem_mem hlt)
        have hprice : 0 ≤ s.exchange.mockPrice := by linarith [h.valid.price.1]
        have hbalance := h.nonneg hsizes
        show 0 ≤ s.exchange.balance - order.signed * s.exchange.mockPrice
        cases hbuy : order.isBuy with
        | true =>
          have := hcash hbuy
          rw [Order.signed_of_buy hbuy]
          linarith
        | false =>
          rw [Order.signed_of_sell hbuy]
          have := mul_nonneg hq hprice
          linarith
      · rw [haccepted, List.map_append, h.fills]
        rfl
      · intro fill hfill
        rcases List.mem_append.1 hfill with hfill | hfill
        · exact h.prices fill hfill
        · rw [List.mem_singleton.1 hfill]
          exact h.valid.price

theorem run_booked (params : List StrategyParams) (limits : Limits) (breaker : CircuitBreaker)
    (symbols : List String) (inputs : List MockInput) :
    Booked (params.map fun param => (LiveStrategy.create param).positionSize)
      (start params limits breaker symbols).exchange.symbols
      (run step (start params limits breaker symbols) inputs) := by
  refine run_invariant (fun s x h => ?_) (booked_start params limits breaker symbols) inputs
  cases x with
  | jitter step => exact h.jitter step
  | clamp => exact h.clamp
  | turn i symbol turn => exact h.turn i symbol turn
  | process now latency => exact h.process now latency

/-! ## How far the cash can go -/

/-- A sum over a list, key by key. -/
theorem sum_map_eq_sum_filter {α κ : Type*} [DecidableEq κ] (key : α → κ) (f : α → ℚ)
    {keys : Finset κ} {xs : List α} (h : ∀ x ∈ xs, key x ∈ keys) :
    (xs.map f).sum = ∑ k ∈ keys, ((xs.filter (key · = k)).map f).sum := by
  induction xs with
  | nil => simp
  | cons x xs ih =>
    obtain ⟨hx, hxs⟩ := List.forall_mem_cons.1 h
    have hcons : ∀ k, (((x :: xs).filter (key · = k)).map f).sum =
        (if key x = k then f x else 0) + ((xs.filter (key · = k)).map f).sum := by
      intro k
      by_cases hk : key x = k <;> simp [hk]
    rw [List.map_cons, List.sum_cons, ih hxs, Finset.sum_congr rfl fun k _ => hcons k,
      Finset.sum_add_distrib, Finset.sum_ite_eq, if_pos hx]

theorem sum_range_getD (sizes : List ℚ) :
    ∑ i ∈ Finset.range sizes.length, 2501 / 10 * sizes.getD i 0 = (sizes.map (2501 / 10 * ·)).sum := by
  induction sizes with
  | nil => rfl
  | cons size sizes ih =>
    rw [List.length_cons, Finset.sum_range_succ', List.map_cons, List.sum_cons, ← ih]
    simp [add_comm]

/-- The fills of a part of a round trip move the cash by at most the price of one lot. -/
theorem abs_sum_cost_le {size : ℚ} (hsize : 0 ≤ size) {fills : List (Nat × Order × ℚ)}
    (hprices : ∀ fill ∈ fills, 499 / 10 ≤ fill.2.2 ∧ fill.2.2 ≤ 2501 / 10)
    (hlots : (fills.map (·.2.1.lot)).Sublist [(true, size), (false, size)]) :
    |(fills.map cost).sum| ≤ 2501 / 10 * size := by
  have hbuy : ∀ fill : Nat × Order × ℚ, fill.2.1.lot = (true, size) → cost fill = size * fill.2.2 := by
    intro fill h
    simp only [Order.lot, Prod.mk.injEq] at h
    rw [cost, Order.signed_of_buy h.1, h.2]
  have hsell : ∀ fill : Nat × Order × ℚ, fill.2.1.lot = (false, size) →
      cost fill = -(size * fill.2.2) := by
    intro fill h
    simp only [Order.lot, Prod.mk.injEq] at h
    rw [cost, Order.signed_of_sell h.1, h.2, neg_mul]
  have hprice : ∀ fill ∈ fills,
      499 / 10 * size ≤ size * fill.2.2 ∧ size * fill.2.2 ≤ 2501 / 10 * size := by
    intro fill hfill
    obtain ⟨hlow, hhigh⟩ := hprices fill hfill
    exact ⟨by nlinarith, by nlinarith⟩
  have hlength := hlots.length_le
  rw [abs_le]
  rcases fills with _ | ⟨fill, _ | ⟨fill', _ | ⟨fill'', fills⟩⟩⟩
  · simp [hsize]
  · have hlot : fill.2.1.lot = (true, size) ∨ fill.2.1.lot = (false, size) := by
      simpa using hlots.mem (List.mem_singleton_self _)
    obtain ⟨hlow, hhigh⟩ := hprice fill (List.mem_singleton_self _)
    rw [List.map_singleton, List.sum_singleton]
    rcases hlot with hlot | hlot
    · rw [hbuy fill hlot]
      constructor <;> linarith
    · rw [hsell fill hlot]
      constructor <;> linarith
  · have hlot := hlots.eq_of_length (by simp)
    simp only [List.map_cons, List.map_nil, List.cons.injEq, and_true] at hlot
    obtain ⟨hlow, hhigh⟩ := hprice fill (by simp)
    obtain ⟨hlow', hhigh'⟩ := hprice fill' (by simp)
    simp only [List.map_cons, List.map_nil, List.sum_cons, List.sum_nil, add_zero,
      hbuy fill hlot.1, hsell fill' hlot.2]
    constructor <;> linarith
  · simp at hlength

/-- The fills of a strategy in a symbol are part of a round trip. -/
theorem Booked.lots (h : Booked sizes subscribed s) {i : Nat} {size : ℚ}
    (hi : sizes[i]? = some size) (symbol : String) :
    (((s.fills.filter (key · = (i, symbol)))).map (·.2.1.lot)).Sublist
      [(true, size), (false, size)] := by
  obtain ⟨past, honTrip⟩ := h.onTrip
  have haccepted : (s.fills.filter (key · = (i, symbol))).map (·.2.1.lot) =
      (s.terminal.accepted.filter fun x => x.1 = i ∧ x.2.symbol = symbol).map (·.2.lot) := by
    rw [← h.fills, List.filter_map, List.map_map]
    congr 2
    funext fill
    simp [key]
  rw [haccepted]
  exact (((List.sublist_append_left _ _).filter _).map _).trans (honTrip.ordersOf_lots hi symbol)

/-- **What the mock account can lose.** In every session of strategies with lots that are not
negative, whatever the walk of the price, the interleaving and the risk decisions, the cash is never
negative and never further from its initial 100000 than 250.1 for each share of a lot of each
strategy in each subscribed symbol. -/
theorem mock_cash (params : List StrategyParams) (limits : Limits) (breaker : CircuitBreaker)
    (symbols : List String) (inputs : List MockInput)
    (hsizes : ∀ param ∈ params, 0 ≤ (LiveStrategy.create param).positionSize) :
    let s := run step (start params limits breaker symbols) inputs
    0 ≤ s.exchange.balance ∧
      |s.exchange.balance - 100000| ≤ s.exchange.symbols.length *
        (params.map fun param => 2501 / 10 * (LiveStrategy.create param).positionSize).sum := by
  intro s
  have h := run_booked params limits breaker symbols inputs
  set sizes := params.map fun param => (LiveStrategy.create param).positionSize
  have hnonneg : ∀ size ∈ sizes, 0 ≤ size := by
    intro size hsize
    obtain ⟨param, hparam, rfl⟩ := List.mem_map.1 hsize
    exact hsizes param hparam
  have hcaps : (params.map fun param => 2501 / 10 * (LiveStrategy.create param).positionSize) =
      sizes.map (2501 / 10 * ·) := by
    simp [sizes, Function.comp_def]
  refine ⟨h.nonneg hnonneg, ?_⟩
  have hkeys : ∀ fill ∈ s.fills,
      key fill ∈ Finset.range sizes.length ×ˢ s.exchange.symbols.toFinset := by
    intro fill hfill
    have haccepted : (fill.1, fill.2.1) ∈ s.terminal.accepted := by
      rw [← h.fills]
      exact List.mem_map_of_mem hfill
    obtain ⟨hlt, hsymbol⟩ := h.known _ (List.mem_append_left _ haccepted)
    exact Finset.mem_product.2 ⟨Finset.mem_range.2 hlt, List.mem_toFinset.2 hsymbol⟩
  have hgroup : ∀ k ∈ Finset.range sizes.length ×ˢ s.exchange.symbols.toFinset,
      |((s.fills.filter (key · = k)).map cost).sum| ≤ 2501 / 10 * sizes.getD k.1 0 := by
    rintro ⟨i, symbol⟩ hk
    have hlt : i < sizes.length := Finset.mem_range.1 (Finset.mem_product.1 hk).1
    have hi : sizes[i]? = some (sizes.getD i 0) := by
      rw [List.getD_eq_getElem?_getD, List.getElem?_eq_getElem hlt, Option.getD_some]
    exact abs_sum_cost_le (hnonneg _ (List.mem_of_getElem? hi))
      (fun fill hfill => h.prices fill (List.mem_filter.1 hfill).1) (h.lots hi symbol)
  have hcash : |s.exchange.balance - 100000| = |(s.fills.map cost).sum| := by
    rw [h.balance, sub_sub_cancel_left, abs_neg]
  calc |s.exchange.balance - 100000|
      = |∑ k ∈ Finset.range sizes.length ×ˢ s.exchange.symbols.toFinset,
          ((s.fills.filter (key · = k)).map cost).sum| := by
        rw [hcash, sum_map_eq_sum_filter key cost hkeys]
    _ ≤ ∑ k ∈ Finset.range sizes.length ×ˢ s.exchange.symbols.toFinset,
          2501 / 10 * sizes.getD k.1 0 :=
        (Finset.abs_sum_le_sum_abs _ _).trans (Finset.sum_le_sum hgroup)
    _ = s.exchange.symbols.length * (sizes.map (2501 / 10 * ·)).sum := by
        rw [Finset.sum_product_right]
        simp only [sum_range_getD]
        rw [Finset.sum_const, List.toFinset_card_of_nodup h.valid.nodup, nsmul_eq_mul]
    _ = _ := by rw [hcaps]

/-- Forty-nine quiet ticks, then the price climbs from 150 to 153 and the momentum strategy buys ten
shares, which are filled while the price is moved once more. -/
def climb : List MockInput :=
  let up : MockExchange.Jitter := ⟨1 / 10, by norm_num [abs_le]⟩
  List.replicate 49 (.turn 0 "AAPL" { volume := 100, approve := true }) ++
    (List.replicate 30 [.jitter up, .clamp]).flatten ++
    [.turn 0 "AAPL" { volume := 100, approve := true }, .jitter up, .process 7 0, .clamp]

theorem climb_cash :
    (run step (start [.momentum] {} (.new 100000 0) ["AAPL"]) climb).fills.length = 1 ∧
      |(run step (start [.momentum] {} (.new 100000 0) ["AAPL"]) climb).exchange.balance - 100000| ≤
        2501 := by
  have hcash := (mock_cash [.momentum] {} (.new 100000 0) ["AAPL"] climb
    (by simp [LiveStrategy.create, LiveStrategy.positionSize, MomentumStrategy.new])).2
  have hsymbols : (run step (start [.momentum] {} (.new 100000 0) ["AAPL"])
      climb).exchange.symbols.length = 1 := by decide +kernel
  rw [hsymbols] at hcash
  refine ⟨by decide +kernel, hcash.trans ?_⟩
  norm_num [LiveStrategy.create, LiveStrategy.positionSize, MomentumStrategy.new]

end MockSession

end TradingTerminal
