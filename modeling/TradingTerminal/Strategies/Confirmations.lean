import TradingTerminal.Strategies.LiveStrategy
import TradingTerminal.Lib.Run
import TradingTerminal.Lib.ListErase
import Mathlib.Tactic.Linarith

/-!
# Orders and their confirmations

A live strategy next to the orders it emitted that were not answered yet. Ticks arrive, and every
emitted order is answered by one call of `on_order_filled` or `on_order_rejected` at some later time;
which unanswered order is answered next is arbitrary.

A symbol goes through four phases: flat, buying (the BUY is unanswered), holding, selling (the SELL
is unanswered). The flags of the strategy tell these apart except for one pair: `in_position` is set
when the BUY is emitted, so buying looks like holding. A tick on which an exit is due then sells what
was not confirmed, and `throughout_iff_guarded` turns this into the exact condition.
-/

namespace TradingTerminal

open Lib

/-- What happened to the orders of a strategy; orders are numbered as they are emitted. -/
inductive OrderEvent where
  | emitted (n : Nat) (order : Order)
  | filled (n : Nat) (order : Order)
  | rejected (n : Nat) (order : Order)
  deriving DecidableEq, Repr

/-- A strategy, its unanswered orders with their numbers, and what happened so far. -/
structure Session where
  strategy : LiveStrategy
  count : Nat := 0
  unanswered : List (Nat × Order) := []
  history : List OrderEvent := []

/-- A tick with the reading of the clock, or an answer to the `k`-th unanswered order. -/
inductive SessionInput where
  | tick (tick : Tick) (now : UInt64)
  | filled (k : Nat) (fillPrice : ℚ)
  | rejected (k : Nat)

namespace Session

/-- An order of the returned signal goes out. -/
def emit (s : Session) (order : Order) : Session :=
  { s with
    count := s.count + 1
    unanswered := s.unanswered ++ [(s.count, order)]
    history := s.history ++ [.emitted s.count order] }

/-- The step of a session. -/
def step (s : Session) : SessionInput → Session
  | .tick tick now =>
    let (signal, strategy) := s.strategy.generateSignal tick now
    signal.orders.foldl emit { s with strategy }
  | .filled k fillPrice =>
    match s.unanswered[k]? with
    | some (n, order) =>
      { s with
        strategy := s.strategy.onOrderFilled { order with price := fillPrice }
        unanswered := s.unanswered.eraseIdx k
        history := s.history ++ [.filled n order] }
    | none => s
  | .rejected k =>
    match s.unanswered[k]? with
    | some (n, order) =>
      { s with
        strategy := s.strategy.onOrderRejected order
        unanswered := s.unanswered.eraseIdx k
        history := s.history ++ [.rejected n order] }
    | none => s

/-- A strategy as the terminal builds it, before its first tick. -/
def start (params : StrategyParams) : Session := { strategy := .create params }

/-- The unanswered orders of a symbol. -/
def openOrders (s : Session) (symbol : String) : List (Nat × Order) :=
  s.unanswered.filter (·.2.symbol = symbol)

end Session

/-! ## Reading a history -/

/-- The number of the latest BUY emitted for a symbol. -/
def lastBuy (history : List OrderEvent) (symbol : String) : Option Nat :=
  history.foldl (fun last event =>
    match event with
    | .emitted n order => if order.isBuy ∧ order.symbol = symbol then some n else last
    | _ => last) none

/-- The order with the number was reported filled. -/
def ReportedFilled (history : List OrderEvent) (n : Nat) : Prop :=
  ∃ order, .filled n order ∈ history

/-- The orders reported filled. -/
def filledOrders (history : List OrderEvent) : List Order :=
  history.filterMap fun event =>
    match event with
    | .filled _ order => some order
    | _ => none

/-- Every SELL was emitted after the latest BUY of its symbol had been reported filled. -/
def SellsConfirmed (history : List OrderEvent) : Prop :=
  ∀ before n order, before ++ [.emitted n order] <+: history → order.isBuy = false →
    ∃ m, lastBuy before order.symbol = some m ∧ ReportedFilled before m

section History

variable (history : List OrderEvent) (n : Nat) (order : Order) (symbol : String)

theorem lastBuy_emitted :
    lastBuy (history ++ [.emitted n order]) symbol =
      if order.isBuy ∧ order.symbol = symbol then some n else lastBuy history symbol := by
  simp [lastBuy]

@[simp] theorem lastBuy_filled :
    lastBuy (history ++ [.filled n order]) symbol = lastBuy history symbol := by
  simp [lastBuy]

@[simp] theorem lastBuy_rejected :
    lastBuy (history ++ [.rejected n order]) symbol = lastBuy history symbol := by
  simp [lastBuy]

@[simp] theorem filledOrders_emitted :
    filledOrders (history ++ [.emitted n order]) = filledOrders history := by
  simp [filledOrders]

@[simp] theorem filledOrders_filled :
    filledOrders (history ++ [.filled n order]) = filledOrders history ++ [order] := by
  simp [filledOrders]

@[simp] theorem filledOrders_rejected :
    filledOrders (history ++ [.rejected n order]) = filledOrders history := by
  simp [filledOrders]

variable {history n}

theorem ReportedFilled.concat (h : ReportedFilled history n) (event : OrderEvent) :
    ReportedFilled (history ++ [event]) n :=
  let ⟨order, hmem⟩ := h
  ⟨order, List.mem_append_left _ hmem⟩

theorem reportedFilled_filled : ReportedFilled (history ++ [.filled n order]) n :=
  ⟨order, by simp⟩

theorem SellsConfirmed.concat (h : SellsConfirmed history) {event : OrderEvent}
    (hnew : ∀ n order, event = .emitted n order → order.isBuy = false →
      ∃ m, lastBuy history order.symbol = some m ∧ ReportedFilled history m) :
    SellsConfirmed (history ++ [event]) := by
  intro before n order hpre hsell
  rcases List.prefix_concat_iff.1 hpre with heq | hpre
  · obtain ⟨rfl, hevent⟩ := List.append_inj' heq rfl
    exact hnew n order (List.singleton_inj.1 hevent).symm hsell
  · exact h before n order hpre hsell

end History

/-! ## The phases of a symbol -/

/-- The phase of a symbol, read off its flags `p`, its unanswered orders, its net filled quantity
and the latest BUY. -/
inductive Phase (size : ℚ) (symbol : String) (history : List OrderEvent) (p : PositionState)
    (unanswered : List (Nat × Order)) (net : ℚ) : Prop
  | flat (inPosition : p.inPosition = false) (pendingExit : p.pendingExit = false)
      (none : unanswered = []) (net : net = 0)
  | buying {n : Nat} {order : Order} (inPosition : p.inPosition = true)
      (pendingExit : p.pendingExit = false) (one : unanswered = [(n, order)])
      (sized : Sized size symbol true order) (net : net = 0)
      (last : lastBuy history symbol = some n)
  | holding {n : Nat} (inPosition : p.inPosition = true) (pendingExit : p.pendingExit = false)
      (none : unanswered = []) (net : net = size) (last : lastBuy history symbol = some n)
      (confirmed : ReportedFilled history n)
  | selling {n m : Nat} {order : Order} (inPosition : p.inPosition = true)
      (pendingExit : p.pendingExit = true) (one : unanswered = [(m, order)])
      (sized : Sized size symbol false order) (net : net = size)
      (last : lastBuy history symbol = some n) (confirmed : ReportedFilled history n)

section Phase

variable {size net : ℚ} {symbol : String} {history history' : List OrderEvent}
  {p p' : PositionState} {unanswered : List (Nat × Order)} {event : OrderEvent}

/-- A phase reads only the two flags, the latest BUY and whether that was reported filled. -/
theorem Phase.congr (h : Phase size symbol history p unanswered net)
    (hin : p'.inPosition = p.inPosition) (hpend : p'.pendingExit = p.pendingExit)
    (hlast : lastBuy history' symbol = lastBuy history symbol)
    (hfilled : ∀ n, ReportedFilled history n → ReportedFilled history' n) :
    Phase size symbol history' p' unanswered net := by
  cases h with
  | flat inPosition pendingExit none net =>
    exact .flat (hin.trans inPosition) (hpend.trans pendingExit) none net
  | buying inPosition pendingExit one sized net last =>
    exact .buying (hin.trans inPosition) (hpend.trans pendingExit) one sized net
      (hlast.trans last)
  | holding inPosition pendingExit none net last confirmed =>
    exact .holding (hin.trans inPosition) (hpend.trans pendingExit) none net (hlast.trans last)
      (hfilled _ confirmed)
  | selling inPosition pendingExit one sized net last confirmed =>
    exact .selling (hin.trans inPosition) (hpend.trans pendingExit) one sized net
      (hlast.trans last) (hfilled _ confirmed)

/-- An event that concerns other symbols leaves the phase. -/
theorem Phase.frame (h : Phase size symbol history p unanswered net) (hp : p' = p)
    (hlast : lastBuy (history ++ [event]) symbol = lastBuy history symbol) :
    Phase size symbol (history ++ [event]) p' unanswered net :=
  h.congr (by rw [hp]) (by rw [hp]) hlast fun _ hn => hn.concat event

theorem Phase.length_le_one (h : Phase size symbol history p unanswered net) :
    unanswered.length ≤ 1 := by
  cases h with
  | flat _ _ none _ => simp [none]
  | buying _ _ one _ _ _ => simp [one]
  | holding _ _ none _ _ _ => simp [none]
  | selling _ _ one _ _ _ _ => simp [one]

theorem Phase.net_eq (h : Phase size symbol history p unanswered net) : net = 0 ∨ net = size := by
  cases h with
  | flat _ _ _ net => exact .inl net
  | buying _ _ _ _ net _ => exact .inl net
  | holding _ _ _ net _ _ => exact .inr net
  | selling _ _ _ _ net _ _ => exact .inr net

/-- Without a position nothing is unanswered and nothing was bought. -/
theorem Phase.empty (h : Phase size symbol history p unanswered net) (hin : p.inPosition = false) :
    unanswered = [] ∧ net = 0 := by
  cases h with
  | flat _ _ none net => exact ⟨none, net⟩
  | buying held _ _ _ _ _ => exact absurd (hin.symm.trans held) Bool.false_ne_true
  | holding held _ _ _ _ _ => exact absurd (hin.symm.trans held) Bool.false_ne_true
  | selling held _ _ _ _ _ _ => exact absurd (hin.symm.trans held) Bool.false_ne_true

/-- A position that is neither being bought nor being sold was confirmed. -/
theorem Phase.held (h : Phase size symbol history p unanswered net) (hin : p.inPosition = true)
    (hidle : p.pendingExit = false) (hbuy : ∀ x ∈ unanswered, x.2.isBuy = false) :
    ∃ n, unanswered = [] ∧ net = size ∧ lastBuy history symbol = some n ∧
      ReportedFilled history n := by
  cases h with
  | flat empty _ _ _ => exact absurd (empty.symm.trans hin) Bool.false_ne_true
  | buying _ _ one sized _ _ =>
    have hsell := hbuy _ (by rw [one]; exact List.mem_singleton_self _)
    exact absurd (hsell.symm.trans sized.isBuy) Bool.false_ne_true
  | holding _ _ none net last confirmed => exact ⟨_, none, net, last, confirmed⟩
  | selling _ pending _ _ _ _ _ => exact absurd (hidle.symm.trans pending) Bool.false_ne_true

/-- The unanswered order of a symbol is reported filled. -/
theorem Phase.fill {n : Nat} {order : Order}
    (h : Phase size symbol history p [(n, order)] net) :
    Phase size symbol (history ++ [.filled n order]) (p.filled order.isBuy) []
      (net + order.signed) := by
  cases h with
  | flat _ _ none _ => cases none
  | buying inPosition pendingExit one sized hnet last =>
    cases one
    simp only [PositionState.filled, sized.isBuy, Bool.not_true, Bool.false_eq_true, ite_false]
    refine .holding inPosition pendingExit rfl ?_ (by simpa using last)
      (reportedFilled_filled order)
    simp [hnet, Order.signed, sized.isBuy, sized.quantity]
  | holding _ _ none _ _ _ => cases none
  | selling inPosition pendingExit one sized hnet last confirmed =>
    cases one
    simp only [PositionState.filled, sized.isBuy, Bool.not_false, ite_true]
    refine .flat rfl rfl rfl ?_
    simp [hnet, Order.signed, sized.isBuy, sized.quantity]

/-- The unanswered order of a symbol is rejected. -/
theorem Phase.reject {n : Nat} {order : Order}
    (h : Phase size symbol history p [(n, order)] net) :
    Phase size symbol (history ++ [.rejected n order]) (p.rejected order.isBuy) [] net := by
  cases h with
  | flat _ _ none _ => cases none
  | buying inPosition pendingExit one sized hnet last =>
    cases one
    simp only [PositionState.rejected, sized.isBuy, ite_true]
    exact .flat rfl pendingExit rfl hnet
  | holding _ _ none _ _ _ => cases none
  | selling inPosition pendingExit one sized hnet last confirmed =>
    cases one
    simp only [PositionState.rejected, sized.isBuy, Bool.false_eq_true, ite_false]
    exact .holding inPosition rfl rfl hnet (by simpa using last) (confirmed.concat _)

end Phase

namespace Session

/-! ## The property and its condition -/

def net (s : Session) (symbol : String) : ℚ := netQuantity (filledOrders s.history) symbol

/-- What a strategy promises: it sells only what was confirmed, it has at most one unanswered order
per symbol, and the net filled quantity is nothing or one position. -/
structure SellsOnlyHeld (s : Session) : Prop where
  confirmed : SellsConfirmed s.history
  oneOpen : ∀ symbol, (s.openOrders symbol).length ≤ 1
  net : ∀ symbol, s.net symbol = 0 ∨ s.net symbol = s.strategy.positionSize

/-- No exit is due on a tick of a symbol whose BUY is still unanswered. -/
def BuyAnswered (s : Session) : SessionInput → Prop
  | .tick tick now => s.strategy.exitDue tick now = true →
      ∀ x ∈ s.openOrders tick.symbol, x.2.isBuy = false
  | _ => True

/-- Every symbol is in a phase, and the sells so far were confirmed. -/
structure Phased (s : Session) : Prop where
  phase : ∀ symbol, Phase s.strategy.positionSize symbol s.history (s.strategy.position symbol)
    (s.openOrders symbol) (s.net symbol)
  confirmed : SellsConfirmed s.history

theorem Phased.sellsOnlyHeld {s : Session} (h : Phased s) : SellsOnlyHeld s :=
  ⟨h.confirmed, fun symbol => (h.phase symbol).length_le_one, fun symbol => (h.phase symbol).net_eq⟩

theorem phased_start (params : StrategyParams) : Phased (start params) := by
  refine ⟨fun symbol => .flat ?_ ?_ rfl rfl, ?_⟩
  · simp [start]
  · simp [start]
  · intro before n order hpre
    simp [start] at hpre

/-! ## Ticks -/

section Tick

variable {s : Session} {tick : Tick} {now : UInt64}

theorem openOrders_emit (s : Session) (order : Order) (symbol : String) :
    (s.emit order).openOrders symbol =
      s.openOrders symbol ++ if order.symbol = symbol then [(s.count, order)] else [] := by
  by_cases h : order.symbol = symbol <;> simp [emit, openOrders, h]

theorem openOrders_emit_first {order : Order} {symbol : String} {strategy : LiveStrategy}
    (hsymbol : order.symbol = symbol) (hnone : s.openOrders symbol = []) :
    ({ s with strategy }.emit order).openOrders symbol = [(s.count, order)] := by
  rw [openOrders_emit, if_pos hsymbol]
  exact congrArg (· ++ _) hnone

@[simp] theorem net_emit (s : Session) (order : Order) (symbol : String) :
    (s.emit order).net symbol = s.net symbol := by
  simp [emit, net]

theorem step_emits {order : Order}
    (horders : (s.strategy.generateSignal tick now).1.orders = [order]) :
    s.step (.tick tick now) =
      { s with strategy := (s.strategy.generateSignal tick now).2 }.emit order := by
  simp [step, horders]

theorem step_quiet (horders : (s.strategy.generateSignal tick now).1.orders = []) :
    s.step (.tick tick now) = { s with strategy := (s.strategy.generateSignal tick now).2 } := by
  simp [step, horders]

/-- An emitted order leaves every other symbol in its phase. -/
theorem Phased.emit_other (h : Phased s) {order : Order} {symbol : String}
    {strategy : LiveStrategy} (hsize : strategy.positionSize = s.strategy.positionSize)
    (hpos : strategy.position symbol = s.strategy.position symbol) (hne : order.symbol ≠ symbol) :
    let s' := { s with strategy }.emit order
    Phase s'.strategy.positionSize symbol s'.history (s'.strategy.position symbol)
      (s'.openOrders symbol) (s'.net symbol) := by
  intro s'
  have hopen : s'.openOrders symbol = s.openOrders symbol := by
    simp only [s', openOrders_emit, if_neg hne, List.append_nil]
    rfl
  rw [hopen, show s'.strategy.positionSize = s.strategy.positionSize from hsize,
    show s'.net symbol = s.net symbol from net_emit _ order symbol]
  refine (h.phase symbol).frame hpos ?_
  simp [lastBuy_emitted, hne]

/-- An order that is emitted in the right phase of its symbol. -/
theorem Phased.emit (h : Phased s) {order : Order} {symbol : String} {strategy : LiveStrategy}
    (hsymbol : order.symbol = symbol) (hsize : strategy.positionSize = s.strategy.positionSize)
    (hothers : ∀ k, k ≠ symbol → strategy.position k = s.strategy.position k)
    (hhere : Phase s.strategy.positionSize symbol (s.history ++ [.emitted s.count order])
      (strategy.position symbol) [(s.count, order)] (s.net symbol))
    (hnone : s.openOrders symbol = [])
    (hconfirmed : order.isBuy = false →
      ∃ m, lastBuy s.history symbol = some m ∧ ReportedFilled s.history m) :
    Phased ({ s with strategy }.emit order) := by
  refine ⟨fun k => ?_, h.confirmed.concat fun m o heq hsell => ?_⟩
  · by_cases hk : k = symbol
    · subst hk
      rw [openOrders_emit_first hsymbol hnone, net_emit]
      exact hsize.symm ▸ hhere
    · refine h.emit_other hsize (hothers k hk) ?_
      rw [hsymbol]
      exact Ne.symm hk
  · obtain ⟨rfl, rfl⟩ := OrderEvent.emitted.inj heq
    rw [hsymbol]
    exact hconfirmed hsell

theorem Phased.step_tick (h : Phased s) (hguard : BuyAnswered s (.tick tick now)) :
    Phased (s.step (.tick tick now)) := by
  obtain ⟨here, others⟩ := s.strategy.generateSignal_positions tick now
  have hsize := s.strategy.generateSignal_positionSize tick now
  have hphase := h.phase tick.symbol
  cases here with
  | quiet orders valid inPosition pendingExit undue =>
    rw [step_quiet orders]
    refine ⟨fun symbol => ?_, h.confirmed⟩
    simp only [hsize]
    by_cases hs : symbol = tick.symbol
    · subst hs
      exact hphase.congr inPosition pendingExit rfl fun _ => id
    · rw [others symbol hs]
      exact h.phase symbol
  | exit orders valid sized held idle fires inPosition pendingExit =>
    rw [step_emits orders]
    -- the guard rules out that the position is still being bought
    obtain ⟨n, hnone, hnet, hlast, hconfirmed⟩ := hphase.held held idle (hguard fires)
    refine h.emit sized.symbol hsize others ?_ hnone fun _ => ⟨n, hlast, hconfirmed⟩
    refine .selling inPosition pendingExit rfl sized hnet ?_ (hconfirmed.concat _)
    rw [lastBuy_emitted, if_neg (by simp [sized.isBuy])]
    exact hlast
  | entry orders valid sized flat idle inPosition pendingExit =>
    rw [step_emits orders]
    obtain ⟨hnone, hnet⟩ := hphase.empty flat
    refine h.emit sized.symbol hsize others ?_ hnone fun hsell => ?_
    · refine .buying inPosition pendingExit rfl sized hnet ?_
      rw [lastBuy_emitted, if_pos ⟨sized.isBuy, sized.symbol⟩]
    · exact absurd (hsell.symm.trans sized.isBuy) Bool.false_ne_true

/-- An exit that is due while the BUY is unanswered leaves two unanswered orders. -/
theorem Phased.step_tick_unguarded (h : Phased s) (hguard : ¬ BuyAnswered s (.tick tick now)) :
    ¬ SellsOnlyHeld (s.step (.tick tick now)) := by
  intro hheld
  simp only [BuyAnswered, not_forall, Bool.not_eq_false] at hguard
  obtain ⟨hdue, x, hx, hbuy⟩ := hguard
  obtain ⟨here, -⟩ := s.strategy.generateSignal_positions tick now
  cases h.phase tick.symbol with
  | flat _ _ none _ => simp [none] at hx
  | holding _ _ none _ _ _ => simp [none] at hx
  | selling _ _ one sized _ _ _ =>
    rw [one, List.mem_singleton] at hx
    subst hx
    simp [sized.isBuy] at hbuy
  | buying hin hpend one _ _ _ =>
    cases here with
    | quiet _ _ _ _ undue => simp [undue hin hpend] at hdue
    | entry _ _ _ flat _ _ _ => simp [hin] at flat
    | exit orders _ sized _ _ _ _ _ =>
      have hone := hheld.oneOpen tick.symbol
      rw [step_emits orders, openOrders_emit, if_pos sized.symbol] at hone
      have hopen := congrArg List.length one
      simp only [openOrders, List.length_append, List.length_singleton] at hone hopen
      omega

end Tick

/-! ## Answers -/

section Answer

variable {s : Session} {k n : Nat} {order : Order}

/-- The answered order was the only unanswered one of its symbol, and no other symbol notices. -/
theorem Phased.openOrders_erase (h : Phased s) (hk : s.unanswered[k]? = some (n, order)) :
    s.openOrders order.symbol = [(n, order)] ∧
      { s with unanswered := s.unanswered.eraseIdx k }.openOrders order.symbol = [] ∧
      ∀ symbol, symbol ≠ order.symbol →
        { s with unanswered := s.unanswered.eraseIdx k }.openOrders symbol =
          s.openOrders symbol := by
  obtain ⟨hone, hnone⟩ := filter_eraseIdx_of_pos hk (by simp) (h.phase order.symbol).length_le_one
  refine ⟨hone, hnone, fun symbol hs => ?_⟩
  exact filter_eraseIdx_of_neg hk (by simpa using Ne.symm hs)

/-- An answer moves the order's symbol as `hhere` says; the other symbols stay in their phase. -/
theorem Phased.answer {change : PositionState → PositionState} {strategy : LiveStrategy}
    {event : OrderEvent} (h : Phased s) (hk : s.unanswered[k]? = some (n, order))
    (hsize : strategy.positionSize = s.strategy.positionSize)
    (hpos : OnlyAt order.symbol (fun p p' => p' = change p) s.strategy.position strategy.position)
    (hevent : ∀ m o, event ≠ .emitted m o)
    (hlast : ∀ symbol, lastBuy (s.history ++ [event]) symbol = lastBuy s.history symbol)
    (hnet : ∀ symbol, symbol ≠ order.symbol →
      netQuantity (filledOrders (s.history ++ [event])) symbol = s.net symbol)
    (hhere : ∀ p, Phase s.strategy.positionSize order.symbol s.history p [(n, order)]
        (s.net order.symbol) →
      Phase s.strategy.positionSize order.symbol (s.history ++ [event]) (change p) []
        (netQuantity (filledOrders (s.history ++ [event])) order.symbol)) :
    Phased { s with strategy, unanswered := s.unanswered.eraseIdx k,
                    history := s.history ++ [event] } := by
  obtain ⟨hone, hnone, hothers⟩ := h.openOrders_erase hk
  refine ⟨fun symbol => ?_, h.confirmed.concat fun m o heq => absurd heq (hevent m o)⟩
  simp only [hsize, Session.net]
  unfold openOrders at hnone hothers ⊢
  by_cases hs : symbol = order.symbol
  · subst hs
    have hphase := h.phase order.symbol
    rw [hone] at hphase
    rw [hpos.here, hnone]
    exact hhere _ hphase
  · rw [hothers symbol hs, hnet symbol hs]
    exact (h.phase symbol).frame (hpos.others symbol hs) (hlast symbol)

theorem Phased.step_filled (h : Phased s) (k : Nat) (fillPrice : ℚ) :
    Phased (s.step (.filled k fillPrice)) := by
  simp only [Session.step]
  cases hk : s.unanswered[k]? with
  | none => exact h
  | some x =>
    obtain ⟨n, order⟩ := x
    refine h.answer hk (s.strategy.onOrderFilled_positionSize _)
      (s.strategy.onOrderFilled_positions { order with price := fillPrice }) (by simp) (by simp)
      (fun symbol hs => ?_) (fun p hphase => ?_)
    · rw [filledOrders_filled, netQuantity_concat, if_neg hs, add_zero, net]
    · rw [filledOrders_filled, netQuantity_concat, if_pos rfl]
      exact hphase.fill

theorem Phased.step_rejected (h : Phased s) (k : Nat) : Phased (s.step (.rejected k)) := by
  simp only [Session.step]
  cases hk : s.unanswered[k]? with
  | none => exact h
  | some x =>
    obtain ⟨n, order⟩ := x
    refine h.answer hk (s.strategy.onOrderRejected_positionSize _)
      (s.strategy.onOrderRejected_positions order) (by simp) (by simp)
      (fun symbol _ => ?_) (fun p hphase => ?_)
    · rw [filledOrders_rejected, net]
    · rw [filledOrders_rejected]
      exact hphase.reject

end Answer

theorem Phased.step {s : Session} (h : Phased s) {x : SessionInput} (hguard : BuyAnswered s x) :
    Phased (s.step x) := by
  cases x with
  | tick tick now => exact h.step_tick hguard
  | filled k fillPrice => exact h.step_filled k fillPrice
  | rejected k => exact h.step_rejected k

/-- **Sells are covered exactly while exits wait for the BUY.** Over every sequence of ticks and
answers a strategy keeps its promise if and only if no exit falls due on a tick of a symbol whose
BUY has not been answered. -/
theorem sellsOnlyHeld_iff_buyAnswered (params : StrategyParams) (inputs : List SessionInput) :
    Throughout Session.step SellsOnlyHeld (start params) inputs ↔
      Guarded Session.step BuyAnswered (start params) inputs :=
  throughout_iff_guarded (I := Phased) (H := fun _ => True) (fun _ h => h.sellsOnlyHeld)
    (fun _ _ _ h hguard => h.step hguard)
    (fun s x _ h hguard => by
      cases x with
      | tick tick now => exact h.step_tick_unguarded hguard
      | filled k fillPrice => exact absurd trivial hguard
      | rejected k => exact absurd trivial hguard)
    (fun _ _ => trivial) (phased_start params)

/-- Forty-nine quiet ticks, a jump that both strategies buy, and a fall below the trailing stop. -/
def dip : List SessionInput :=
  let tick (price volume : ℚ) : SessionInput :=
    .tick { symbol := "AAPL", price, volume, bid := price, ask := price } 0
  List.replicate 49 (tick 100 1) ++ [tick 105 100, tick 99 1]

/-- Both strategies sell on the last tick although nobody has answered the BUY. -/
theorem dip_not_sellsOnlyHeld :
    ¬ Throughout Session.step SellsOnlyHeld (start .momentum) dip ∧
      ¬ Throughout Session.step SellsOnlyHeld (start .weighted) dip := by
  have momentum : ((run Session.step (start .momentum) dip).openOrders "AAPL").map (·.2.isBuy) =
      [true, false] := by decide +kernel
  have weighted : ((run Session.step (start .weighted) dip).openOrders "AAPL").map (·.2.isBuy) =
      [true, false] := by decide +kernel
  constructor
  · intro h
    have hlen := h.last.oneOpen "AAPL"
    rw [← List.length_map (·.2.isBuy), momentum] at hlen
    simp at hlen
  · intro h
    have hlen := h.last.oneOpen "AAPL"
    rw [← List.length_map (·.2.isBuy), weighted] at hlen
    simp at hlen

end Session

end TradingTerminal
