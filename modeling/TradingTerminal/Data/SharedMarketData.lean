import TradingTerminal.Data.MarketData
import TradingTerminal.Lib.Linearize

/-!
# The aggregator between threads

`data/market_data.hpp` under its two mutexes. A write holds the aggregator's own one and first goes
to the cache, which has a mutex of its own; `get_last_tick` takes the cache's only, so that it can
come between the two halves of a write. All the same every call is answered as if the calls came one
at a time, in the order in which they got to the cache or took the aggregator's mutex
(`served_oneAtATime`).

`lastTick_served` says what `get_last_tick` answers, in any schedule: the latest tick of the symbol
since the last `clear`, unless ten thousand other symbols have been used since the symbol was.
-/

namespace TradingTerminal

open Lib

inductive MarketDataCall where
  | onTick (tick : Tick)
  | clear
  | getLastTick (symbol : String)
  | getLastPrice (symbol : String)
  | getHistoricalTicks (symbol : String) (count : Int32)
  | getVwap (symbol : String) (lookback : Int32)
  deriving DecidableEq

inductive MarketDataAnswer where
  | done
  | tick (tick : Option Tick)
  | price (price : Except WindowFault ℚ)
  | ticks (ticks : Except WindowFault (List Tick))

namespace MarketDataAggregator

/-! ## The two halves of a write -/

inductive Write where
  | tick (tick : Tick)
  | clear
  deriving DecidableEq

/-- What a write does to the cache. -/
def toCache (m : MarketDataAggregator) : Write → MarketDataAggregator
  | .tick tick => { m with cache := m.cache.put tick.symbol tick }
  | .clear => { m with cache := m.cache.clear }

/-- What it does to the maps, before it lets go of the mutex. -/
def toMaps (m : MarketDataAggregator) : Write → MarketDataAggregator
  | .tick tick =>
    { m with
      symbolTicks :=
        m.symbolTicks.insert tick.symbol
          (pushBounded historySize (UMap.getD m.symbolTicks tick.symbol []) tick)
      lastPrices := m.lastPrices.insert tick.symbol tick.price }
  | .clear => { m with symbolTicks := ∅, lastPrices := ∅ }

def write (m : MarketDataAggregator) (w : Write) : MarketDataAggregator := (m.toCache w).toMaps w

theorem write_tick (m : MarketDataAggregator) (tick : Tick) : m.write (.tick tick) = m.onTick tick :=
  rfl

def clear (m : MarketDataAggregator) : MarketDataAggregator := m.write .clear

/-- `get_last_tick`: the tick, if the symbol is cached, and what the reading does to the cache. -/
def getLastTick (m : MarketDataAggregator) (symbol : String) :
    Option Tick × MarketDataAggregator :=
  ((m.cache.get symbol).1, { m with cache := (m.cache.get symbol).2 })

/-! ## One call at a time -/

def perform (m : MarketDataAggregator) : MarketDataCall → MarketDataAnswer × MarketDataAggregator
  | .onTick tick => (.done, m.onTick tick)
  | .clear => (.done, m.clear)
  | .getLastTick symbol => (.tick (m.getLastTick symbol).1, (m.getLastTick symbol).2)
  | .getLastPrice symbol => (.price (.ok (m.getLastPrice symbol)), m)
  | .getHistoricalTicks symbol count => (.ticks (m.getHistoricalTicks symbol count), m)
  | .getVwap symbol lookback => (.price (m.getVwap symbol lookback), m)

def answer (m : MarketDataAggregator) (call : MarketDataCall) : MarketDataAnswer :=
  (m.perform call).1

def after (m : MarketDataAggregator) (call : MarketDataCall) : MarketDataAggregator :=
  (m.perform call).2

end MarketDataAggregator

/-! ## Threads -/

/-- The aggregator, and the write whose thread holds its mutex between the two halves. -/
structure SharedMarketData where
  data : MarketDataAggregator := {}
  writing : Option MarketDataAggregator.Write := none

/-- Who is scheduled: a thread with a call to make, or the one that is writing. -/
inductive MarketDataTurn where
  | call (call : MarketDataCall)
  | finish
  deriving DecidableEq

namespace SharedMarketData

/-- A call that only needs the aggregator's mutex for as long as it takes. -/
def locked (s : SharedMarketData) (call : MarketDataCall) :
    SharedMarketData × Option (MarketDataCall × MarketDataAnswer) :=
  match s.writing with
  | some _ => (s, none)
  | none => (s, some (call, s.data.answer call))

/-- A write takes the mutex and goes to the cache. -/
def begin (s : SharedMarketData) (call : MarketDataCall) (w : MarketDataAggregator.Write) :
    SharedMarketData × Option (MarketDataCall × MarketDataAnswer) :=
  match s.writing with
  | some _ => (s, none)
  | none => ({ data := s.data.toCache w, writing := some w }, some (call, .done))

/-- One turn, with the call it lets through; a thread that has to wait for the mutex leaves
everything as it is. -/
def serve (s : SharedMarketData) :
    MarketDataTurn → SharedMarketData × Option (MarketDataCall × MarketDataAnswer)
  | .finish =>
    match s.writing with
    | none => (s, none)
    | some w => ({ data := s.data.toMaps w, writing := none }, none)
  | .call (.onTick tick) => s.begin (.onTick tick) (.tick tick)
  | .call .clear => s.begin .clear .clear
  | .call (.getLastTick symbol) =>
    ({ s with data := (s.data.getLastTick symbol).2 },
      some (.getLastTick symbol, .tick (s.data.getLastTick symbol).1))
  | .call (.getLastPrice symbol) => s.locked (.getLastPrice symbol)
  | .call (.getHistoricalTicks symbol count) => s.locked (.getHistoricalTicks symbol count)
  | .call (.getVwap symbol lookback) => s.locked (.getVwap symbol lookback)

/-- The data once the write is through. -/
def settled (s : SharedMarketData) : MarketDataAggregator :=
  match s.writing with
  | none => s.data
  | some w => s.data.toMaps w

section Serve

variable {s : SharedMarketData}

theorem begin_served {call : MarketDataCall} {w : MarketDataAggregator.Write}
    {x : MarketDataCall × MarketDataAnswer} (h : (s.begin call w).2 = some x) :
    x = (call, .done) ∧ (s.begin call w).1.settled = s.settled.write w := by
  unfold begin at h ⊢
  unfold settled
  cases hwriting : s.writing with
  | some w' => simp [hwriting] at h
  | none =>
    simp only [hwriting, Option.some.injEq] at h ⊢
    exact ⟨h.symm, rfl⟩

theorem begin_silent {call : MarketDataCall} {w : MarketDataAggregator.Write}
    (h : (s.begin call w).2 = none) : (s.begin call w).1 = s := by
  unfold begin at h ⊢
  cases hwriting : s.writing with
  | some w' => rfl
  | none => simp [hwriting] at h

theorem locked_served {call : MarketDataCall} {x : MarketDataCall × MarketDataAnswer}
    (h : (s.locked call).2 = some x) : x = (call, s.settled.answer call) := by
  unfold locked at h
  unfold settled
  cases hwriting : s.writing with
  | some w => simp [hwriting] at h
  | none =>
    simp only [hwriting, Option.some.injEq] at h ⊢
    exact h.symm

theorem locked_fst (call : MarketDataCall) : (s.locked call).1 = s := by
  unfold locked
  split <;> rfl

end Serve

/-- The maps of a write do not look at the cache, so that a reading between its halves is one after
them. -/
theorem settled_getLastTick (s : SharedMarketData) (symbol : String) :
    s.settled.getLastTick symbol =
      ((s.data.getLastTick symbol).1,
        ({ s with data := (s.data.getLastTick symbol).2 } : SharedMarketData).settled) := by
  obtain ⟨data, writing⟩ := s
  cases writing with
  | none => rfl
  | some w => cases w <;> rfl

theorem linearizes :
    Linearizes serve MarketDataAggregator.after MarketDataAggregator.answer settled := by
  constructor
  · intro s turn h
    cases turn with
    | finish =>
      obtain ⟨data, writing⟩ := s
      cases writing <;> rfl
    | call call =>
      cases call with
      | onTick tick => exact congrArg settled (begin_silent h)
      | clear => exact congrArg settled (begin_silent h)
      | getLastTick symbol => cases h
      | getLastPrice symbol => exact congrArg settled (s.locked_fst _)
      | getHistoricalTicks symbol count => exact congrArg settled (s.locked_fst _)
      | getVwap symbol lookback => exact congrArg settled (s.locked_fst _)
  · intro s turn call answer h
    cases turn with
    | finish =>
      unfold serve at h
      dsimp only at h
      cases hwriting : s.writing <;> simp [hwriting] at h
    | call call' =>
      cases call' with
      | onTick tick =>
        obtain ⟨hx, hsettled⟩ := begin_served h
        cases hx
        exact ⟨rfl, hsettled.trans (MarketDataAggregator.write_tick _ tick)⟩
      | clear =>
        obtain ⟨hx, hsettled⟩ := begin_served h
        cases hx
        exact ⟨rfl, hsettled⟩
      | getLastTick symbol =>
        have hread := s.settled_getLastTick symbol
        cases h
        constructor
        · show MarketDataAnswer.tick _ = .tick (s.settled.getLastTick symbol).1
          rw [hread]
        · show _ = (s.settled.getLastTick symbol).2
          rw [hread]
          rfl
      | getLastPrice symbol =>
        cases locked_served h
        exact ⟨rfl, congrArg settled (s.locked_fst _)⟩
      | getHistoricalTicks symbol count =>
        cases locked_served h
        exact ⟨rfl, congrArg settled (s.locked_fst _)⟩
      | getVwap symbol lookback =>
        cases locked_served h
        exact ⟨rfl, congrArg settled (s.locked_fst _)⟩

/-- The calls that got through in a schedule on a new aggregator, with their answers. -/
def served (schedule : List MarketDataTurn) : List (MarketDataCall × MarketDataAnswer) :=
  servedBy serve {} schedule

/-- **One at a time.** Whatever the schedule of the threads, every call is answered as by an
aggregator that nobody shares, called in the same order. -/
theorem served_oneAtATime (schedule : List MarketDataTurn) :
    served schedule =
      outputs MarketDataAggregator.after MarketDataAggregator.answer {}
        ((served schedule).map Prod.fst) :=
  (linearizes.servedBy_eq {} schedule).1

/-! ## What is found -/

/-- The ticks since the last `clear`. -/
def ticksSinceClear (served : List (MarketDataCall × MarketDataAnswer)) : List Tick :=
  run (fun ticks x =>
    match x.1 with
    | .onTick tick => ticks ++ [tick]
    | .clear => []
    | _ => ticks) [] served

/-- The symbols used since then, latest first: by a tick, or by a `get_last_tick` that found one. -/
def used (served : List (MarketDataCall × MarketDataAnswer)) : List String :=
  run (fun symbols x =>
    match x with
    | (.onTick tick, _) => tick.symbol :: symbols
    | (.clear, _) => []
    | (.getLastTick symbol, .tick (some _)) => symbol :: symbols
    | _ => symbols) [] served

/-- The accesses of the cache. -/
def history (served : List (MarketDataCall × MarketDataAnswer)) : History String Tick where
  accesses := used served
  puts := (ticksSinceClear served).reverse.map fun tick => (tick.symbol, tick)

/-- The latest put of a symbol is its last tick. -/
theorem value_history (served : List (MarketDataCall × MarketDataAnswer)) (symbol : String) :
    (history served).value symbol =
      (MarketDataAggregator.ticksOf (ticksSinceClear served) symbol).getLast? := by
  unfold History.value history MarketDataAggregator.ticksOf
  generalize ticksSinceClear served = ticks
  induction ticks using List.reverseRecOn with
  | nil => rfl
  | append_singleton ticks tick ih =>
    by_cases hsymbol : tick.symbol = symbol
    · simp [hsymbol]
    · simpa [hsymbol] using ih

/-- What an aggregator holds after the calls it has served: the cache those of its history, the maps
what the ticks since the last `clear` alone leave in them. -/
structure Reflects (m : MarketDataAggregator) (served : List (MarketDataCall × MarketDataAnswer)) :
    Prop where
  capacity : m.cache.capacity = 10000
  cache : m.cache.Shows (history served)
  used : ∀ tick ∈ ticksSinceClear served, tick.symbol ∈ used served
  symbolTicks : m.symbolTicks =
    (run MarketDataAggregator.onTick {} (ticksSinceClear served)).symbolTicks
  lastPrices : m.lastPrices =
    (run MarketDataAggregator.onTick {} (ticksSinceClear served)).lastPrices

namespace Reflects

variable {m : MarketDataAggregator} {before : List (MarketDataCall × MarketDataAnswer)}

theorem empty : Reflects {} [] where
  capacity := rfl
  cache := (LRUCache.shows_run 10000 []).1
  used := by simp [ticksSinceClear]
  symbolTicks := rfl
  lastPrices := rfl

/-- A hit or a miss of the cache. -/
theorem getLastTick_eq (h : Reflects m before) (symbol : String) :
    (m.getLastTick symbol).1 =
      if symbol ∈ (history before).keys 10000 then (history before).value symbol else none := by
  have hkeys := h.cache.keys
  rw [h.capacity] at hkeys
  unfold MarketDataAggregator.getLastTick
  split
  · next hmem =>
    rw [← hkeys] at hmem
    obtain ⟨node, hnode, rfl⟩ := List.mem_map.1 hmem
    rw [LRUCache.get_of_mem h.cache.indexed hnode, h.cache.value node hnode]
  · next hmem => rw [LRUCache.get_of_not_mem h.cache.indexed (hkeys ▸ hmem)]

theorem onTick (h : Reflects m before) (tick : Tick) (a : MarketDataAnswer) :
    Reflects (m.onTick tick) (before ++ [(.onTick tick, a)]) := by
  have hticks : ticksSinceClear (before ++ [(.onTick tick, a)]) = ticksSinceClear before ++ [tick] :=
    run_concat _ _ _ _
  have hused : SharedMarketData.used (before ++ [(.onTick tick, a)]) =
      tick.symbol :: SharedMarketData.used before :=
    run_concat _ _ _ _
  have hhistory : history (before ++ [(.onTick tick, a)]) =
      (history before).step m.cache.capacity (.put tick.symbol tick) := by
    simp [history, hticks, hused, History.step]
  refine ⟨(LRUCache.put_capacity _ _ _).trans h.capacity, ?_, ?_, ?_, ?_⟩
  · rw [hhistory]
    exact h.cache.put tick.symbol tick
  · rw [hticks, hused]
    intro x hx
    rcases List.mem_append.1 hx with hx | hx
    · exact List.mem_cons_of_mem _ (h.used x hx)
    · rw [List.mem_singleton.1 hx]
      exact List.mem_cons_self
  · rw [hticks, run_concat]
    unfold MarketDataAggregator.onTick
    dsimp only
    rw [h.symbolTicks]
    rfl
  · rw [hticks, run_concat]
    unfold MarketDataAggregator.onTick
    dsimp only
    rw [h.lastPrices]
    rfl

theorem clear (h : Reflects m before) (a : MarketDataAnswer) :
    Reflects m.clear (before ++ [(.clear, a)]) := by
  have hticks : ticksSinceClear (before ++ [(.clear, a)]) = [] := run_concat _ _ _ _
  have hused : SharedMarketData.used (before ++ [(.clear, a)]) = [] := run_concat _ _ _ _
  have hhistory : history (before ++ [(.clear, a)]) =
      (history before).step m.cache.capacity .clear := by
    simp [history, hticks, hused, History.step]
  refine ⟨h.capacity, ?_, ?_, ?_, ?_⟩
  · rw [hhistory]
    exact (h.cache.step .clear).1
  · simp [hticks]
  · rw [hticks]
    rfl
  · rw [hticks]
    rfl

/-- A call that leaves the maps as they are. -/
theorem read (h : Reflects m before) {cache : LRUCache String Tick}
    {x : MarketDataCall × MarketDataAnswer} (hcapacity : cache.capacity = m.cache.capacity)
    (hticks : ticksSinceClear (before ++ [x]) = ticksSinceClear before)
    (hused : SharedMarketData.used before ⊆ SharedMarketData.used (before ++ [x]))
    (hshows : cache.Shows { history before with accesses := SharedMarketData.used (before ++ [x]) }) :
    Reflects { m with cache } (before ++ [x]) := by
  refine ⟨hcapacity.trans h.capacity, ?_, ?_, ?_, ?_⟩
  · unfold history
    rw [hticks]
    exact hshows
  · rw [hticks]
    exact fun tick htick => hused (h.used tick htick)
  · rw [hticks]
    exact h.symbolTicks
  · rw [hticks]
    exact h.lastPrices

theorem unused (h : Reflects m before) {x : MarketDataCall × MarketDataAnswer}
    (hticks : ticksSinceClear (before ++ [x]) = ticksSinceClear before)
    (hused : SharedMarketData.used (before ++ [x]) = SharedMarketData.used before) :
    Reflects m (before ++ [x]) :=
  h.read rfl hticks (hused ▸ List.Subset.refl _) (hused ▸ h.cache)

theorem getLastTick (h : Reflects m before) (symbol : String) :
    Reflects (m.getLastTick symbol).2
      (before ++ [(.getLastTick symbol, .tick (m.getLastTick symbol).1)]) := by
  have hticks : ticksSinceClear
      (before ++ [(.getLastTick symbol, .tick (m.getLastTick symbol).1)]) =
        ticksSinceClear before :=
    run_concat _ _ _ _
  have hshows := h.cache.get symbol
  rw [History.step_get, h.capacity] at hshows
  have hanswer := h.getLastTick_eq symbol
  by_cases hmem : symbol ∈ (history before).keys 10000
  · rw [if_pos hmem] at hanswer hshows
    obtain ⟨tick, htick⟩ : ∃ tick, (history before).value symbol = some tick := by
      rw [← h.capacity, ← h.cache.keys] at hmem
      obtain ⟨node, hnode, rfl⟩ := List.mem_map.1 hmem
      exact ⟨node.value, h.cache.value node hnode⟩
    have hused : SharedMarketData.used
        (before ++ [(.getLastTick symbol, .tick (m.getLastTick symbol).1)]) =
          symbol :: SharedMarketData.used before := by
      rw [hanswer, htick]
      exact run_concat _ _ _ _
    refine h.read (h.cache.step (.get symbol)).2 hticks ?_ ?_
    · rw [hused]
      exact List.subset_cons_self _ _
    · rw [hused]
      exact hshows
  · rw [if_neg hmem] at hanswer hshows
    have hused : SharedMarketData.used
        (before ++ [(.getLastTick symbol, .tick (m.getLastTick symbol).1)]) =
          SharedMarketData.used before := by
      rw [hanswer]
      exact run_concat _ _ _ _
    refine h.read (h.cache.step (.get symbol)).2 hticks ?_ ?_
    · rw [hused]
      exact List.Subset.refl _
    · rw [hused]
      exact hshows

theorem after (h : Reflects m before) (call : MarketDataCall) :
    Reflects (m.after call) (before ++ [(call, m.answer call)]) := by
  cases call with
  | onTick tick => exact h.onTick tick _
  | clear => exact h.clear _
  | getLastTick symbol => exact h.getLastTick symbol
  | getLastPrice symbol => exact h.unused (run_concat _ _ _ _) (run_concat _ _ _ _)
  | getHistoricalTicks symbol count => exact h.unused (run_concat _ _ _ _) (run_concat _ _ _ _)
  | getVwap symbol lookback => exact h.unused (run_concat _ _ _ _) (run_concat _ _ _ _)

theorem run_after (h : Reflects m before) (calls : List MarketDataCall) :
    Reflects (run MarketDataAggregator.after m calls)
      (before ++ outputs MarketDataAggregator.after MarketDataAggregator.answer m calls) := by
  induction calls generalizing m before with
  | nil => simpa [outputs] using h
  | cons call calls ih =>
    have hrun := ih (h.after call)
    rw [List.append_assoc, List.singleton_append] at hrun
    exact hrun

end Reflects

/-- What is in the aggregator after a schedule is what the calls that got through left. -/
theorem reflects_scheduled (schedule : List MarketDataTurn) :
    Reflects (scheduled serve {} schedule).settled (served schedule) := by
  obtain ⟨hserved, hsettled⟩ := linearizes.servedBy_eq {} schedule
  have hrun := Reflects.empty.run_after ((served schedule).map Prod.fst)
  rw [List.nil_append, ← served_oneAtATime] at hrun
  rw [hsettled]
  exact hrun

/-- **The last tick.** Whatever the schedule, `get_last_tick` next finds the latest tick of the
symbol since the last `clear`, as long as fewer than ten thousand other symbols have been used since
the symbol last was, and otherwise nothing. The maps hold what the ticks since the last `clear`
alone leave in a new aggregator, so that the readers of prices and histories answer from them. -/
theorem lastTick_served (schedule : List MarketDataTurn) (symbol : String) :
    let s := scheduled serve {} schedule
    let ticks := ticksSinceClear (served schedule)
    (s.data.getLastTick symbol).1 =
        (if ((used (served schedule)).takeWhile (· ≠ symbol)).toFinset.card < 10000 then
          (MarketDataAggregator.ticksOf ticks symbol).getLast?
        else none) ∧
      s.settled.symbolTicks = (run MarketDataAggregator.onTick {} ticks).symbolTicks ∧
      s.settled.lastPrices = (run MarketDataAggregator.onTick {} ticks).lastPrices := by
  intro s ticks
  have h := reflects_scheduled schedule
  refine ⟨?_, h.symbolTicks, h.lastPrices⟩
  have hread : (s.data.getLastTick symbol).1 = (s.settled.getLastTick symbol).1 :=
    (congrArg Prod.fst (s.settled_getLastTick symbol)).symm
  rw [hread, h.getLastTick_eq, value_history, History.keys]
  by_cases hmem : symbol ∈ used (served schedule)
  · simp only [mem_take_recency_iff, history, hmem, true_and]
    rfl
  · have hnone : MarketDataAggregator.ticksOf ticks symbol = [] := by
      apply List.filter_eq_nil_iff.2
      intro tick htick
      simp only [decide_eq_true_eq]
      rintro rfl
      exact hmem (h.used tick htick)
    rw [hnone]
    simp only [mem_take_recency_iff, history, hmem, false_and, List.getLast?_nil, ite_self]

end SharedMarketData

end TradingTerminal
