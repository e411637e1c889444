import TradingTerminal.Live.OrderThreads
import TradingTerminal.Lib.Run

/-!
# How the order processor sleeps and wakes

`OrderThreads` leaves out what `process_orders` does between two orders: it takes the queue lock,
waits on the condition variable until an order is queued or the manager stops, and keeps the lock
while it looks at the queue. Here that part is added. `m_cv.wait(lock, pred)` is the loop of the
standard, test and block while the predicate fails; the blocking releases the lock, a
notification reaches the processor only when it is blocked, and it may also wake by itself. As in
`OrderThreads`, the calls of the exchange return.

The critical section of a caller is one action, so the processor is the only thread that holds the
lock between two actions. Its test of the inner loop and its pop are two actions: `stop` needs no
lock and may store in between. The notification of `process_signal` is the action that leaves its order
loop. `stop` is two actions, the store to `m_running` and `notify_all`; neither takes the lock. The
join that follows returns once the processor is done; the status thread, which only sleeps and tests
`m_running`, is left out.
-/

namespace TradingTerminal

open Lib

/-- Where the processor stands in `process_orders`. -/
inductive ProcessorPhase where
  /-- At the test of the outer loop. -/
  | looping
  /-- Wants the lock to test the predicate: it enters `wait`, or was woken. -/
  | locking
  /-- Holds the lock, at the test of the predicate. -/
  | testing
  /-- Holds the lock, has found the predicate false and is about to block. -/
  | parking
  | asleep
  /-- Holds the lock, at the test of the inner loop. -/
  | draining
  /-- Holds the lock, has passed the test and is about to pop. -/
  | popping
  /-- Has popped an order and released the lock. -/
  | serving
  /-- Done with the order, wants the lock back. -/
  | returning
  | done
  deriving DecidableEq, Repr

/-- How far `stop` has come. -/
inductive Stopper where
  | idle
  | stored
  | notified
  deriving DecidableEq, Repr

structure OrderWakeups where
  threads : OrderThreads
  phase : ProcessorPhase := .looping
  stopper : Stopper := .idle

/-- One thread takes one step, or the processor wakes without a notification. -/
inductive WakeAction where
  | call (i : Nat) (signal : Signal) (now : TimePoint) (timestamp : UInt64)
  | produce (i : Nat) (approve : Bool)
  | process (answer : String) (latency : Nat)
  | wakeSpuriously
  | stop
  | notifyAll

/-- The processor holds the queue lock. -/
def ProcessorPhase.locked : ProcessorPhase → Bool
  | testing | parking | draining | popping => true
  | _ => false

/-- A notification, or a spurious wake-up. -/
def ProcessorPhase.notified : ProcessorPhase → ProcessorPhase
  | asleep => locking
  | phase => phase

namespace OrderWakeups

/-- The next step of caller `i`: the push waits for the lock, the end of the loop notifies. -/
def produce (w : OrderWakeups) (i : Nat) (approve : Bool) : OrderWakeups :=
  match w.threads.producers i with
  | .numbered .. =>
    if w.phase.locked then w else { w with threads := w.threads.produce i approve }
  | .looping [] _ => { w with threads := w.threads.produce i approve, phase := w.phase.notified }
  | _ => { w with threads := w.threads.produce i approve }

/-- `!m_order_queue.empty() || !m_running`. -/
def wakeDue (w : OrderWakeups) : Bool :=
  !w.threads.manager.orderQueue.isEmpty || !w.threads.manager.running

/-- `!m_order_queue.empty() && m_running`. -/
def orderDue (w : OrderWakeups) : Bool :=
  !w.threads.manager.orderQueue.isEmpty && w.threads.manager.running

/-- The next step of the processor. -/
def process (w : OrderWakeups) (answer : String) (latency : Nat) : OrderWakeups :=
  match w.phase with
  | .looping => { w with phase := if w.threads.manager.running then .locking else .done }
  | .locking => { w with phase := .testing }
  | .testing => { w with phase := if w.wakeDue then .draining else .parking }
  | .parking => { w with phase := .asleep }
  | .draining =>
    if w.orderDue then
      { w with threads := w.threads.process answer latency, phase := .popping }
    else { w with phase := .looping }
  | .popping => { w with threads := w.threads.process answer latency, phase := .serving }
  | .serving =>
    let threads := w.threads.process answer latency
    { w with
      threads
      phase := if threads.processor = .waiting then .returning else .serving }
  | .returning => { w with phase := .draining }
  | .asleep | .done => w

def step (w : OrderWakeups) : WakeAction → OrderWakeups
  | .call i signal now timestamp => { w with threads := w.threads.call i signal now timestamp }
  | .produce i approve => w.produce i approve
  | .process answer latency => w.process answer latency
  | .wakeSpuriously => { w with phase := w.phase.notified }
  | .stop =>
    if w.stopper = .idle then { w with threads := w.threads.step .stop, stopper := .stored } else w
  | .notifyAll =>
    if w.stopper = .stored then { w with phase := w.phase.notified, stopper := .notified } else w

/-- A started order manager whose processor has not run yet. -/
def fresh (limits : Limits) (breaker : CircuitBreaker) : OrderWakeups :=
  { threads := .fresh limits breaker }

/-! ## What a step does to the order manager -/

/-- Every step is a step of the order manager under threads, or leaves it alone. -/
theorem step_threads (w : OrderWakeups) (a : WakeAction) :
    (w.step a).threads = w.threads ∨ ∃ x, (w.step a).threads = w.threads.step x := by
  cases a with
  | call i signal now timestamp => exact .inr ⟨.call i signal now timestamp, rfl⟩
  | produce i approve =>
    have hstep : ∀ phase : ProcessorPhase, ({ w with threads := w.threads.produce i approve, phase } :
        OrderWakeups).threads = w.threads.step (.produce i approve) := fun _ => rfl
    simp only [step, produce]
    split
    · split
      · exact .inl rfl
      · exact .inr ⟨_, hstep w.phase⟩
    · exact .inr ⟨_, hstep _⟩
    · exact .inr ⟨_, hstep w.phase⟩
  | process answer latency =>
    simp only [step, process]
    cases w.phase with
    | draining =>
      dsimp only
      split
      · exact .inr ⟨.process answer latency, rfl⟩
      · exact .inl rfl
    | popping => exact .inr ⟨.process answer latency, rfl⟩
    | serving => exact .inr ⟨.process answer latency, rfl⟩
    | _ => exact .inl rfl
  | wakeSpuriously => exact .inl rfl
  | stop =>
    simp only [step]
    split
    · exact .inr ⟨.stop, rfl⟩
    · exact .inl rfl
  | notifyAll =>
    simp only [step]
    split <;> exact .inl rfl

/-- **Refinement.** With the lock and the condition variable in between, the order manager still
goes through a run of `OrderThreads`. -/
theorem run_threads (w : OrderWakeups) (xs : List WakeAction) :
    ∃ ys, (run step w xs).threads = run OrderThreads.step w.threads ys := by
  induction xs generalizing w with
  | nil => exact ⟨[], rfl⟩
  | cons a xs ih =>
    obtain ⟨ys, hys⟩ := ih (w.step a)
    rcases step_threads w a with hsame | ⟨x, hx⟩
    · exact ⟨ys, by rw [run_cons, hys, hsame]⟩
    · exact ⟨x :: ys, by rw [run_cons, hys, hx, run_cons]⟩

end OrderWakeups

/-- The steps the processor still takes with the order it has popped or is about to. -/
def Processor.steps : Processor → Nat
  | waiting => 0
  | popping => 4
  | popped _ => 3
  | answered _ _ => 2
  | counted _ _ => 1

namespace OrderThreads

variable {t : OrderThreads}

/-- What the callers leave alone. -/
structure CallerFrame (t t' : OrderThreads) : Prop where
  processor : t'.processor = t.processor
  sent : t'.sent = t.sent
  running : t'.manager.running = t.manager.running

theorem call_callerFrame (t : OrderThreads) (i : Nat) (signal : Signal) (now : TimePoint)
    (timestamp : UInt64) :
    CallerFrame t (t.call i signal now timestamp) ∧
      (t.call i signal now timestamp).manager.orderQueue = t.manager.orderQueue := by
  unfold call
  split
  · split
    · exact ⟨⟨rfl, rfl, rfl⟩, rfl⟩
    · dsimp only
      split <;> exact ⟨⟨rfl, rfl, rfl⟩, rfl⟩
  · exact ⟨⟨rfl, rfl, rfl⟩, rfl⟩

theorem setProducer_producers_of_ne {i j : Nat} (p : Producer) (h : j ≠ i) :
    (t.setProducer i p).producers j = t.producers j :=
  Function.update_of_ne h _ _

theorem setProducer_producers_self (i : Nat) (p : Producer) :
    (t.setProducer i p).producers i = p :=
  Function.update_self _ _ _

/-- A call that is under way goes on under a new call. -/
theorem call_busy {i j : Nat} (signal : Signal) (now : TimePoint) (timestamp : UInt64)
    (h : t.producers j ≠ .idle) : (t.call i signal now timestamp).producers j ≠ .idle := by
  unfold call
  split
  · next hi =>
    have hij : j ≠ i := by
      rintro rfl
      exact h hi
    split
    · exact h
    · dsimp only
      split
      · exact h
      · rwa [setProducer_producers_of_ne _ hij]
  · exact h

theorem produce_callerFrame (t : OrderThreads) (i : Nat) (approve : Bool) :
    CallerFrame t (t.produce i approve) := by
  unfold produce
  split
  case h_3 => split <;> exact ⟨rfl, rfl, rfl⟩
  case h_6 => split <;> exact ⟨rfl, rfl, rfl⟩
  all_goals exact ⟨rfl, rfl, rfl⟩

/-- A step in the order loop appends to the queue or leaves it. -/
theorem produce_orderQueue (t : OrderThreads) (i : Nat) (approve : Bool) :
    t.manager.orderQueue <+: (t.produce i approve).manager.orderQueue := by
  unfold produce
  split
  case h_3 => split <;> exact List.prefix_refl _
  case h_6 =>
    dsimp only
    split
    · exact List.prefix_refl _
    · exact List.prefix_append _ _
  all_goals exact List.prefix_refl _

/-- With an order queued the processor of a running manager passes the test of the inner loop. -/
theorem process_waiting (hp : t.processor = .waiting) (hq : t.manager.orderQueue ≠ [])
    (hr : t.manager.running = true) (answer : String) (latency : Nat) :
    t.process answer latency = { t with processor := .popping } := by
  simp [process, hp, hq, hr]

/-- Past the test it takes the front order, stopped or not. -/
theorem process_popping (hp : t.processor = .popping) {pending : PendingOrder}
    {rest : List PendingOrder} (hq : t.manager.orderQueue = pending :: rest) (answer : String)
    (latency : Nat) :
    t.process answer latency =
      { t with manager := { t.manager with orderQueue := rest }, processor := .popped pending } := by
  simp [process, hp, hq]

/-- The orders placed and the one in hand. -/
def handedOver (t : OrderThreads) : List Order :=
  t.placed ++ t.processor.inHand.map PendingOrder.order

/-- With a popped order the processor looks at nothing else. -/
structure Serves (t t' : OrderThreads) : Prop where
  orderQueue : t'.manager.orderQueue = t.manager.orderQueue
  running : t'.manager.running = t.manager.running
  handedOver : t'.handedOver = t.handedOver
  steps : t'.processor.steps < t.processor.steps

theorem process_serves (hp : t.processor ≠ .waiting ∧ t.processor ≠ .popping) (answer : String)
    (latency : Nat) : Serves t (t.process answer latency) := by
  cases hproc : t.processor with
  | waiting => exact absurd hproc hp.1
  | popping => exact absurd hproc hp.2
  | popped pending =>
    refine ⟨?_, ?_, ?_, ?_⟩ <;>
      simp [process, hproc, OrderThreads.handedOver, placed, Processor.steps]
  | answered pending orderId =>
    by_cases ha : orderId = ""
    · refine ⟨?_, ?_, ?_, ?_⟩ <;>
        simp [process, hproc, ha, OrderThreads.handedOver, placed, Processor.steps]
    · refine ⟨?_, ?_, ?_, ?_⟩ <;>
        simp [process, hproc, ha, OrderThreads.handedOver, placed, Processor.steps]
  | counted pending orderId =>
    refine ⟨?_, ?_, ?_, ?_⟩ <;>
      simp [process, hproc, OrderThreads.handedOver, placed, Processor.steps]

/-- An order in hand keeps the processor from the test of the loop. -/
theorem process_ne_popping (hp : t.processor ≠ .waiting ∧ t.processor ≠ .popping) (answer : String)
    (latency : Nat) : (t.process answer latency).processor ≠ .popping := by
  cases hproc : t.processor with
  | waiting => exact absurd hproc hp.1
  | popping => exact absurd hproc hp.2
  | popped pending => simp [process, hproc]
  | answered pending orderId =>
    by_cases ha : orderId = "" <;> simp [process, hproc, ha]
  | counted pending orderId => simp [process, hproc]

/-- The end of the order loop. -/
theorem produce_finished {i : Nat} {timestamp : UInt64}
    (h : t.producers i = .looping [] timestamp) (approve : Bool) :
    t.produce i approve = t.setProducer i .idle := by
  simp [produce, h]

end OrderThreads

/-- A bound on the steps a caller still takes in `process_signal`. -/
def Producer.steps : Producer → Nat
  | idle => 0
  | looping orders _ => 3 * orders.length + 1
  | blocked _ rest _ => 3 * rest.length + 2
  | approved _ rest _ => 3 * rest.length + 3
  | numbered _ _ rest _ => 3 * rest.length + 2

/-- The caller is under way and not at the end of its order loop. -/
def Producer.inLoop : Producer → Bool
  | idle => false
  | looping orders _ => !orders.isEmpty
  | _ => true

/-- A caller in its loop comes closer to the end, and is still under way. -/
theorem OrderThreads.produce_inLoop {t : OrderThreads} {i : Nat} (hp : t.processor ≠ .popping)
    (h : (t.producers i).inLoop = true) (approve : Bool) :
    (t.produce i approve).producers i ≠ .idle ∧
      ((t.produce i approve).producers i).steps < (t.producers i).steps := by
  cases hi : t.producers i with
  | idle => simp [hi, Producer.inLoop] at h
  | looping orders timestamp =>
    cases orders with
    | nil => simp [hi, Producer.inLoop] at h
    | cons order rest =>
      simp only [produce, hi]
      split <;> rw [setProducer_producers_self]
      · exact ⟨by simp, by simp only [Producer.steps, List.length_cons]; omega⟩
      · exact ⟨by simp, by simp only [Producer.steps, List.length_cons]; omega⟩
  | blocked order rest timestamp =>
    simp only [produce, hi, setProducer_producers_self]
    exact ⟨by simp, by simp [Producer.steps]⟩
  | approved order rest timestamp =>
    simp only [produce, hi, setProducer_producers_self]
    exact ⟨by simp, by simp [Producer.steps]⟩
  | numbered n order rest timestamp =>
    simp only [produce, hi, if_neg hp, setProducer_producers_self]
    exact ⟨by simp, by simp [Producer.steps]⟩

namespace OrderWakeups

variable {w : OrderWakeups}

/-- What a caller's step can do: nothing, go on in the loop, or notify and leave. -/
theorem produce_cases (w : OrderWakeups) (i : Nat) (approve : Bool) :
    (w.produce i approve = w ∧
      (w.phase.locked = true ∨ w.threads.producers i = .idle)) ∨
    ((w.threads.producers i).inLoop = true ∧
      (w.phase.locked = true → (w.threads.produce i approve).manager.orderQueue =
        w.threads.manager.orderQueue) ∧
      w.produce i approve = { w with threads := w.threads.produce i approve }) ∨
    ∃ timestamp, w.threads.producers i = .looping [] timestamp ∧
      w.produce i approve =
        { w with threads := w.threads.setProducer i .idle, phase := w.phase.notified } := by
  unfold produce
  cases hi : w.threads.producers i with
  | idle => exact .inl ⟨by simp [OrderThreads.produce, hi], .inr rfl⟩
  | looping orders timestamp =>
    cases orders with
    | nil =>
      refine .inr (.inr ⟨timestamp, rfl, ?_⟩)
      rw [OrderThreads.produce_finished hi]
    | cons order rest =>
      refine .inr (.inl ⟨rfl, fun _ => ?_, rfl⟩)
      simp only [OrderThreads.produce, hi]
      split <;> rfl
  | blocked order rest timestamp =>
    refine .inr (.inl ⟨rfl, fun _ => ?_, rfl⟩)
    simp only [OrderThreads.produce, hi]
    rfl
  | approved order rest timestamp =>
    refine .inr (.inl ⟨rfl, fun _ => ?_, rfl⟩)
    simp only [OrderThreads.produce, hi]
    rfl
  | numbered n order rest timestamp =>
    cases hlocked : w.phase.locked with
    | true => exact .inl ⟨by simp, .inl rfl⟩
    | false => exact .inr (.inl ⟨rfl, by simp, by simp⟩)

/-! ## What holds in every state -/

theorem notified_ne_asleep (phase : ProcessorPhase) : phase.notified ≠ .asleep := by
  cases phase <;> simp [ProcessorPhase.notified]

theorem notified_of_ne {phase : ProcessorPhase} (h : phase ≠ .asleep) : phase.notified = phase := by
  cases phase <;> simp_all [ProcessorPhase.notified]

/-- What the processor has in hand in each phase. -/
def Holds : ProcessorPhase → Processor → Prop
  | .popping, p => p = .popping
  | .serving, p => p ≠ .waiting ∧ p ≠ .popping
  | _, p => p = .waiting

/-- The processor blocks with an empty queue only; an order it sleeps on has a caller under way. -/
structure Sound (w : OrderWakeups) : Prop where
  holds : Holds w.phase w.threads.processor
  popping : w.phase = .popping → w.threads.manager.orderQueue ≠ []
  parking : w.phase = .parking → w.threads.manager.orderQueue = []
  slept : w.phase = .asleep → w.threads.manager.orderQueue ≠ [] →
    ∃ i, w.threads.producers i ≠ .idle
  done : w.phase = .done → w.threads.manager.running = false
  stopped : w.stopper ≠ .idle → w.threads.manager.running = false

theorem sound_fresh (limits : Limits) (breaker : CircuitBreaker) : Sound (fresh limits breaker) := by
  refine ⟨rfl, ?_, ?_, ?_, ?_, ?_⟩ <;> simp [fresh, OrderThreads.fresh]

theorem Sound.waiting (h : Sound w) (hpop : w.phase ≠ .popping) (hserve : w.phase ≠ .serving) :
    w.threads.processor = .waiting := by
  have hholds := h.holds
  cases hp : w.phase with
  | popping => exact absurd hp hpop
  | serving => exact absurd hp hserve
  | _ => simpa [hp, Holds] using hholds

theorem Sound.serving (h : Sound w) (hp : w.phase = .serving) :
    w.threads.processor ≠ .waiting ∧ w.threads.processor ≠ .popping := by
  simpa [hp, Holds] using h.holds

theorem Sound.popping_processor (h : Sound w) (hp : w.phase = .popping) :
    w.threads.processor = .popping := by
  simpa [hp, Holds] using h.holds

theorem Sound.call (h : Sound w) (i : Nat) (signal : Signal) (now : TimePoint)
    (timestamp : UInt64) : Sound (w.step (.call i signal now timestamp)) := by
  obtain ⟨frame, hqueue⟩ := w.threads.call_callerFrame i signal now timestamp
  refine ⟨?_, ?_, ?_, ?_, ?_, ?_⟩
  · show Holds w.phase (w.threads.call i signal now timestamp).processor
    rw [frame.processor]
    exact h.holds
  · intro hphase hnil
    exact h.popping hphase (hqueue.symm.trans hnil)
  · intro hphase
    exact hqueue.trans (h.parking hphase)
  · intro hphase hne
    obtain ⟨j, hj⟩ := h.slept hphase (by rwa [← hqueue])
    exact ⟨j, OrderThreads.call_busy signal now timestamp hj⟩
  · exact fun hphase => frame.running.trans (h.done hphase)
  · exact fun hstop => frame.running.trans (h.stopped hstop)

/-- Waking the processor is always fine. -/
theorem Sound.notified (h : Sound w) : Sound { w with phase := w.phase.notified } := by
  by_cases hphase : w.phase = .asleep
  · have hwaiting : w.threads.processor = .waiting :=
      h.waiting (by simp [hphase]) (by simp [hphase])
    have hlocking : w.phase.notified = .locking := by rw [hphase]; rfl
    refine ⟨?_, ?_, ?_, ?_, ?_, h.stopped⟩ <;> simp [hlocking, hwaiting, Holds]
  · rwa [notified_of_ne hphase]

theorem Sound.produce (h : Sound w) (i : Nat) (approve : Bool) : Sound (w.produce i approve) := by
  rcases w.produce_cases i approve with ⟨hsame, -⟩ | ⟨hloop, hqueue, hstep⟩ | ⟨timestamp, -, hstep⟩
  · rwa [hsame]
  · have frame := w.threads.produce_callerFrame i approve
    rw [hstep]
    refine ⟨?_, ?_, ?_, ?_, ?_, ?_⟩
    · show Holds w.phase (w.threads.produce i approve).processor
      rw [frame.processor]
      exact h.holds
    · intro hphase hnil
      have hphase : w.phase = .popping := hphase
      exact h.popping hphase ((hqueue (by rw [hphase]; rfl)).symm.trans hnil)
    · intro hphase
      have hphase : w.phase = .parking := hphase
      exact (hqueue (by rw [hphase]; rfl)).trans (h.parking hphase)
    · intro hphase _
      have hphase : w.phase = .asleep := hphase
      have hwaiting := h.waiting (by simp [hphase]) (by simp [hphase])
      exact ⟨i, (OrderThreads.produce_inLoop (by simp [hwaiting]) hloop approve).1⟩
    · exact fun hphase => frame.running.trans (h.done hphase)
    · exact fun hstop => frame.running.trans (h.stopped hstop)
  · rw [hstep]
    have hn := h.notified
    exact ⟨hn.holds, hn.popping, hn.parking, fun hphase => absurd hphase (notified_ne_asleep _),
      hn.done, h.stopped⟩

theorem Sound.process (h : Sound w) (answer : String) (latency : Nat) :
    Sound (w.process answer latency) := by
  have hwaiting := h.waiting
  unfold OrderWakeups.process
  cases hphase : w.phase with
  | looping =>
    have hp := hwaiting (by simp [hphase]) (by simp [hphase])
    cases hr : w.threads.manager.running with
    | true => refine ⟨?_, ?_, ?_, ?_, ?_, h.stopped⟩ <;> simp [hp, Holds]
    | false => refine ⟨?_, ?_, ?_, ?_, ?_, h.stopped⟩ <;> simp [hp, hr, Holds]
  | locking =>
    have hp := hwaiting (by simp [hphase]) (by simp [hphase])
    refine ⟨?_, ?_, ?_, ?_, ?_, h.stopped⟩ <;> simp [hp, Holds]
  | testing =>
    have hp := hwaiting (by simp [hphase]) (by simp [hphase])
    cases hdue : w.wakeDue with
    | true => refine ⟨?_, ?_, ?_, ?_, ?_, h.stopped⟩ <;> simp [hp, Holds]
    | false =>
      -- the predicate fails only on an empty queue
      have hempty : w.threads.manager.orderQueue = [] := by
        simpa [wakeDue] using (Bool.or_eq_false_iff.1 hdue).1
      refine ⟨?_, ?_, ?_, ?_, ?_, h.stopped⟩ <;> simp [hp, hempty, Holds]
  | parking =>
    have hp := hwaiting (by simp [hphase]) (by simp [hphase])
    have hempty := h.parking hphase
    refine ⟨?_, ?_, ?_, ?_, ?_, h.stopped⟩ <;> simp [hp, hempty, Holds]
  | asleep => simpa [hphase] using h
  | draining =>
    have hp := hwaiting (by simp [hphase]) (by simp [hphase])
    cases hdue : w.orderDue with
    | false => refine ⟨?_, ?_, ?_, ?_, ?_, h.stopped⟩ <;> simp [hp, Holds]
    | true =>
      obtain ⟨hne, hr⟩ := Bool.and_eq_true_iff.1 hdue
      have hne : w.threads.manager.orderQueue ≠ [] := by simpa using hne
      have htest := OrderThreads.process_waiting hp hne hr answer latency
      refine ⟨?_, ?_, ?_, ?_, ?_, fun hstop => absurd (h.stopped hstop) (by simp [hr])⟩ <;>
        simp [htest, hne, Holds]
  | popping =>
    cases hq : w.threads.manager.orderQueue with
    | nil => exact absurd hq (h.popping hphase)
    | cons pending rest =>
      have hpop := OrderThreads.process_popping (h.popping_processor hphase) hq answer latency
      refine ⟨?_, ?_, ?_, ?_, ?_, ?_⟩
      case refine_6 =>
        intro hstop
        rw [hpop]
        exact h.stopped hstop
      all_goals simp [hpop, Holds]
  | serving =>
    have hserves := OrderThreads.process_serves (h.serving hphase) answer latency
    have hstopped : w.stopper ≠ .idle → _ := fun hstop => hserves.running.trans (h.stopped hstop)
    by_cases hw : (w.threads.process answer latency).processor = .waiting
    · refine ⟨?_, ?_, ?_, ?_, ?_, hstopped⟩ <;> simp [hw, Holds]
    · have hne := OrderThreads.process_ne_popping (h.serving hphase) answer latency
      refine ⟨?_, ?_, ?_, ?_, ?_, hstopped⟩ <;> simp [hw, hne, Holds]
  | returning =>
    have hp := hwaiting (by simp [hphase]) (by simp [hphase])
    refine ⟨?_, ?_, ?_, ?_, ?_, h.stopped⟩ <;> simp [hp, Holds]
  | done => simpa [hphase] using h

theorem Sound.stop (h : Sound w) : Sound (w.step .stop) := by
  simp only [OrderWakeups.step]
  split
  · exact ⟨h.holds, h.popping, h.parking, h.slept, fun _ => rfl, fun _ => rfl⟩
  · exact h

theorem Sound.step (h : Sound w) (a : WakeAction) : Sound (w.step a) := by
  cases a with
  | call i signal now timestamp => exact h.call i signal now timestamp
  | produce i approve => exact h.produce i approve
  | process answer latency => exact h.process answer latency
  | wakeSpuriously => exact h.notified
  | stop => exact h.stop
  | notifyAll =>
    simp only [OrderWakeups.step]
    split
    · next hstored =>
      have hn := h.notified
      exact ⟨hn.holds, hn.popping, hn.parking, hn.slept, hn.done,
        fun _ => h.stopped (by simp [hstored])⟩
    · exact h

end OrderWakeups

end TradingTerminal
