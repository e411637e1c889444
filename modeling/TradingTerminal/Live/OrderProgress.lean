import TradingTerminal.Live.OrderWakeups
import TradingTerminal.Lib.Progress

/-!
# The order processor makes progress

What the sleeping and waking of `OrderWakeups` amounts to. While the manager runs no order is slept
on (`front_served`). After `stop` nothing more is sent (`stopped_sends_nothing`), and `stop` returns
unless its notification is missed (`stop_returns_iff`). "By its own steps" is `Inevitable`: no other
thread is waited for, whatever the exchange answers and the risk check decides.
-/

namespace TradingTerminal

open Lib

namespace OrderWakeups

variable {w : OrderWakeups}

/-! ## What a thread brings about alone -/

/-- The steps of the processor, whatever the exchange answers. -/
def Processes (a : WakeAction) : Prop := ∃ answer latency, a = .process answer latency

/-- The steps of caller `i`, whatever the risk check decides. -/
def Produces (i : Nat) (a : WakeAction) : Prop := ∃ approve, a = .produce i approve

/-- The processor is up with an order at the front of the queue. -/
structure Ahead (pending : PendingOrder) (rest : List PendingOrder) (handed : List Order)
    (w : OrderWakeups) : Prop where
  sound : Sound w
  queue : w.threads.manager.orderQueue = pending :: rest
  running : w.threads.manager.running = true
  handed : w.threads.handedOver = handed
  awake : w.phase ≠ .asleep

/-- With the order it has popped the processor goes on, or is through with it. -/
theorem process_serving (hp : w.phase = .serving) (answer : String) (latency : Nat) :
    ∃ phase, (phase = .returning ∨ phase = .serving) ∧
      w.process answer latency =
        { w with threads := w.threads.process answer latency, phase := phase } := by
  by_cases hw : (w.threads.process answer latency).processor = .waiting
  · exact ⟨.returning, .inl rfl, by simp [process, hp, hw]⟩
  · exact ⟨.serving, .inr rfl, by simp [process, hp, hw]⟩

/-- A bound on the processor's steps to the next pop. -/
def toPop (w : OrderWakeups) : Nat :=
  match w.phase with
  | .looping => 4
  | .locking => 3
  | .testing => 2
  | .returning => 2
  | .draining => 1
  | .serving => 2 + w.threads.processor.steps
  | _ => 0

variable {pending : PendingOrder} {rest : List PendingOrder} {handed : List Order}

/-- A processor that is up passes the test of the inner loop. -/
theorem Ahead.drains (h : Ahead pending rest handed w) :
    Inevitable step Processes (fun w => w.phase = .popping ∧ Ahead pending rest handed w) w := by
  refine inevitable_of_measure toPop (I := Ahead pending rest handed) ?_ h
  rintro w _ h hnot ⟨answer, latency, rfl⟩
  have hsound := h.sound.process answer latency
  have hphase : w.phase ≠ .popping := fun hd => hnot ⟨hd, h⟩
  show _ ∨ Ahead pending rest handed (w.process answer latency) ∧
    toPop (w.process answer latency) < toPop w
  cases hp : w.phase with
  | looping =>
    have hstep : w.process answer latency = { w with phase := .locking } := by
      simp [process, hp, h.running]
    rw [hstep] at hsound ⊢
    exact .inr ⟨⟨hsound, h.queue, h.running, h.handed, by simp⟩, by simp [toPop, hp]⟩
  | locking =>
    have hstep : w.process answer latency = { w with phase := .testing } := by simp [process, hp]
    rw [hstep] at hsound ⊢
    exact .inr ⟨⟨hsound, h.queue, h.running, h.handed, by simp⟩, by simp [toPop, hp]⟩
  | testing =>
    have hstep : w.process answer latency = { w with phase := .draining } := by
      simp [process, hp, wakeDue, h.queue]
    rw [hstep] at hsound ⊢
    exact .inr ⟨⟨hsound, h.queue, h.running, h.handed, by simp⟩, by simp [toPop, hp]⟩
  | parking => simpa [h.queue] using h.sound.parking hp
  | asleep => exact absurd hp h.awake
  | draining =>
    have hwaiting := h.sound.waiting (by simp [hp]) (by simp [hp])
    have hne : w.threads.manager.orderQueue ≠ [] := by simp [h.queue]
    have hstep : w.process answer latency =
        { w with threads := { w.threads with processor := .popping }, phase := .popping } := by
      simp only [process, hp, OrderThreads.process_waiting hwaiting hne h.running]
      simp [orderDue, h.queue, h.running]
    have hhanded := h.handed
    simp only [OrderThreads.handedOver, hwaiting, Processor.inHand] at hhanded
    rw [hstep] at hsound ⊢
    exact .inr ⟨⟨hsound, h.queue, h.running, hhanded, by simp⟩, by simp [toPop, hp]⟩
  | popping => exact absurd hp hphase
  | serving =>
    have hserves := OrderThreads.process_serves (h.sound.serving hp) answer latency
    have hlt := hserves.steps
    have hqueue := hserves.orderQueue.trans h.queue
    have hrunning := hserves.running.trans h.running
    have hhanded := hserves.handedOver.trans h.handed
    obtain ⟨phase, hphase, hstep⟩ := process_serving hp answer latency
    rw [hstep] at hsound ⊢
    rcases hphase with rfl | rfl
    · exact .inr ⟨⟨hsound, hqueue, hrunning, hhanded, by simp⟩, by simp [toPop, hp]; omega⟩
    · exact .inr ⟨⟨hsound, hqueue, hrunning, hhanded, by simp⟩, by simp [toPop, hp]; omega⟩
  | returning =>
    have hstep : w.process answer latency = { w with phase := .draining } := by simp [process, hp]
    rw [hstep] at hsound ⊢
    exact .inr ⟨⟨hsound, h.queue, h.running, h.handed, by simp⟩, by simp [toPop, hp]⟩
  | done => simpa [h.running] using h.sound.done hp

/-- Past the test it takes the front order and hands it to the exchange. -/
theorem Ahead.places (h : Ahead pending rest handed w) (hp : w.phase = .popping) :
    Inevitable step Processes (fun w => w.threads.placed = handed ++ [pending.order]) w := by
  have hpopping := h.sound.popping_processor hp
  have hhanded : w.threads.placed = handed := by
    simpa [OrderThreads.handedOver, hpopping] using h.handed
  refine .later ?_
  rintro _ ⟨answer, latency, rfl⟩
  have hpop := OrderThreads.process_popping hpopping h.queue answer latency
  have hstep : w.step (.process answer latency) =
      { w with
        threads := { w.threads with
          manager := { w.threads.manager with orderQueue := rest }, processor := .popped pending }
        phase := .serving } := by
    simp only [step, process, hp]
    rw [hpop]
  rw [hstep]
  refine .later ?_
  rintro _ ⟨answer, latency, rfl⟩
  refine .here ?_
  simpa [step, process, OrderThreads.process, OrderThreads.placed] using hhanded

/-- Whatever the decisions, a caller under way wakes the sleeping processor. -/
theorem caller_wakes {i : Nat} (hphase : w.phase = .asleep)
    (hi : w.threads.producers i ≠ .idle) (hsound : Sound w) (hr : w.threads.manager.running = true)
    (hhanded : w.threads.handedOver = handed)
    (hq : pending :: rest <+: w.threads.manager.orderQueue) :
    Inevitable step (Produces i) (fun w => ∃ added, Ahead pending (rest ++ added) handed w) w := by
  refine inevitable_of_measure (fun w => (w.threads.producers i).steps)
    (I := fun w => w.phase = .asleep ∧ w.threads.producers i ≠ .idle ∧ Sound w ∧
      w.threads.manager.running = true ∧ w.threads.handedOver = handed ∧
      pending :: rest <+: w.threads.manager.orderQueue) ?_ ⟨hphase, hi, hsound, hr, hhanded, hq⟩
  rintro w _ ⟨hphase, hi, hsound, hr, hhanded, hq⟩ - ⟨approve, rfl⟩
  have hsound' := hsound.produce i approve
  rcases w.produce_cases i approve with ⟨-, hstuck⟩ | ⟨hloop, -, hstep⟩ | ⟨timestamp, -, hstep⟩
  · rcases hstuck with hlocked | hidle
    · simp [hphase, ProcessorPhase.locked] at hlocked
    · exact absurd hidle hi
  · right
    have hwaiting := hsound.waiting (by simp [hphase]) (by simp [hphase])
    obtain ⟨hbusy, hlt⟩ := OrderThreads.produce_inLoop (by simp [hwaiting]) hloop approve
    have frame := w.threads.produce_callerFrame i approve
    show _ ∧ ((w.produce i approve).threads.producers i).steps < _
    rw [show w.step (.produce i approve) = w.produce i approve from rfl]
    rw [hstep] at hsound' ⊢
    refine ⟨⟨hphase, hbusy, hsound', frame.running.trans hr, ?_, ?_⟩, hlt⟩
    · rw [← hhanded, OrderThreads.handedOver, OrderThreads.handedOver, OrderThreads.placed,
        OrderThreads.placed, frame.sent, frame.processor]
    · exact hq.trans (w.threads.produce_orderQueue i approve)
  · left
    obtain ⟨added, hadded⟩ := hq
    refine ⟨added, ?_⟩
    rw [show w.step (.produce i approve) = w.produce i approve from rfl]
    rw [hstep] at hsound' ⊢
    exact ⟨hsound', hadded.symm, hr, hhanded, notified_ne_asleep _⟩

/-! ## No order is slept on -/

/-- The order has been handed to the exchange, after those that were before it in `w`. -/
def Served (w : OrderWakeups) (pending : PendingOrder) (w' : OrderWakeups) : Prop :=
  w'.threads.placed = w.threads.handedOver ++ [pending.order]

/-- A processor that is up places the front order by its own steps. -/
theorem Ahead.served (h : Ahead pending rest w.threads.handedOver w) :
    Inevitable step Processes (Served w pending) w :=
  h.drains.trans fun _ ⟨hp, h⟩ => h.places hp

/-- **No order is slept on.** Whatever the interleaving, while the manager runs the order at the
front of the queue reaches the exchange: a processor that is up gets there by its own steps, and on
a sleeping one some call of `process_signal` is still under way, whose own steps wake it. -/
theorem front_served (limits : Limits) (breaker : CircuitBreaker) (xs : List WakeAction)
    {pending : PendingOrder} {rest : List PendingOrder}
    (hqueue : (run step (fresh limits breaker) xs).threads.manager.orderQueue = pending :: rest)
    (hrunning : (run step (fresh limits breaker) xs).threads.manager.running = true) :
    let w := run step (fresh limits breaker) xs
    (w.phase ≠ .asleep → Inevitable step Processes (Served w pending) w) ∧
      (w.phase = .asleep → ∃ i, Inevitable step (Produces i)
        (Inevitable step Processes (Served w pending)) w) := by
  intro w
  have hsound : Sound w := run_invariant (fun _ a h => h.step a) (sound_fresh limits breaker) xs
  constructor
  · intro hawake
    exact Ahead.served ⟨hsound, hqueue, hrunning, rfl, hawake⟩
  · intro hasleep
    obtain ⟨i, hi⟩ := hsound.slept hasleep (by rw [hqueue]; exact List.cons_ne_nil _ _)
    refine ⟨i, ?_⟩
    have hfront : pending :: rest <+: w.threads.manager.orderQueue := by rw [hqueue]
    have hwoken := caller_wakes hasleep hi hsound hrunning rfl hfront
    refine hwoken.trans fun w' ⟨added, h⟩ => .here ?_
    exact h.drains.trans fun _ ⟨hp, h⟩ => h.places hp

/-- A BUY of one share. -/
def oneBuy : Signal :=
  { symbol := "AAPL", orders := [{ symbol := "AAPL", price := 100, quantity := 1 }], valid := true }

/-- The processor falls asleep, then a caller pushes an order and has not notified yet. -/
def pushedWhileAsleep : List WakeAction :=
  List.replicate 4 (.process "" 0) ++ .call 0 oneBuy 0 0 :: List.replicate 3 (.produce 0 true)

theorem pushedWhileAsleep_served :
    let w := run step (fresh {} (.new 100000 0)) pushedWhileAsleep
    w.phase = .asleep ∧ ∃ pending i, Inevitable step (Produces i)
      (Inevitable step Processes (Served w pending)) w := by
  intro w
  have hasleep : w.phase = .asleep := by decide +kernel
  have hqueue : w.threads.manager.orderQueue =
      [{ order := { clientOrderId := "client_1", symbol := "AAPL", price := 100, quantity := 1 }
         timestamp := 0, status := "pending" }] := by decide +kernel
  obtain ⟨-, hserved⟩ := front_served {} (.new 100000 0) pushedWhileAsleep hqueue (by decide +kernel)
  exact ⟨hasleep, _, hserved hasleep⟩

/-! ## Stopping -/

/-- The order the processor takes next, stopped or not: the front one, once the test is passed. -/
def claimed (w : OrderWakeups) : List Order :=
  if w.phase = .popping then (w.threads.manager.orderQueue.take 1).map PendingOrder.order else []

/-- The orders behind it. -/
def unclaimed (w : OrderWakeups) : List PendingOrder :=
  if w.phase = .popping then w.threads.manager.orderQueue.tail else w.threads.manager.orderQueue

/-- What a stopped manager keeps of the state `stop` found. -/
structure Halted (w w' : OrderWakeups) : Prop where
  sound : Sound w'
  stopped : w'.stopper ≠ .idle
  handed : w'.threads.handedOver ++ w'.claimed = w.threads.handedOver ++ w.claimed
  queue : w.unclaimed <+: w'.unclaimed

/-- The callers leave the claimed order alone and add behind the others. -/
theorem Halted.of_callers {w w' w'' : OrderWakeups} (h : Halted w w') (hsound : Sound w'')
    (hstopper : w''.stopper = w'.stopper)
    (hpopping : w''.phase = .popping ↔ w'.phase = .popping)
    (hhanded : w''.threads.handedOver = w'.threads.handedOver)
    (hlocked : w'.phase = .popping →
      w''.threads.manager.orderQueue = w'.threads.manager.orderQueue)
    (hqueue : w'.threads.manager.orderQueue <+: w''.threads.manager.orderQueue) :
    Halted w w'' := by
  have hclaimed : w''.claimed = w'.claimed := by
    unfold claimed
    by_cases hp : w'.phase = .popping
    · simp only [hpopping.2 hp, hp, ite_true, hlocked hp]
    · simp only [mt hpopping.1 hp, hp, ite_false]
  have hunclaimed : w'.unclaimed <+: w''.unclaimed := by
    unfold unclaimed
    by_cases hp : w'.phase = .popping
    · simp only [hpopping.2 hp, hp, ite_true, hlocked hp, List.prefix_refl]
    · simp only [mt hpopping.1 hp, hp, ite_false, hqueue]
  exact ⟨hsound, hstopper ▸ h.stopped, by rw [hhanded, hclaimed, h.handed],
    h.queue.trans hunclaimed⟩

theorem notified_popping (phase : ProcessorPhase) : phase.notified = .popping ↔ phase = .popping := by
  cases phase <;> simp [ProcessorPhase.notified]

/-- Once stopped, and with no order claimed or in hand, the processor passes no test of its loop. -/
theorem process_idle (hpop : w.phase ≠ .popping) (hserve : w.phase ≠ .serving)
    (hr : w.threads.manager.running = false) (answer : String) (latency : Nat) :
    ∃ phase, phase ≠ .popping ∧ w.process answer latency = { w with phase := phase } := by
  cases hp : w.phase with
  | looping => exact ⟨.done, by simp, by simp [process, hp, hr]⟩
  | locking => exact ⟨.testing, by simp, by simp [process, hp]⟩
  | testing => exact ⟨.draining, by simp, by simp [process, hp, wakeDue, hr]⟩
  | parking => exact ⟨.asleep, by simp, by simp [process, hp]⟩
  | draining => exact ⟨.looping, by simp, by simp [process, hp, orderDue, hr]⟩
  | returning => exact ⟨.draining, by simp, by simp [process, hp]⟩
  | popping => exact absurd hp hpop
  | serving => exact absurd hp hserve
  | asleep | done =>
    have hsame : w.process answer latency = w := by simp [process, hp]
    exact ⟨w.phase, hpop, hsame⟩

/-- The processor moves the claimed order into its hand, and claims no other. -/
theorem Halted.process {w w' : OrderWakeups} (h : Halted w w') (answer : String) (latency : Nat) :
    Halted w (w'.process answer latency) := by
  have hsound := h.sound.process answer latency
  have hrunning := h.sound.stopped h.stopped
  cases hp : w'.phase with
  | popping =>
    cases hq : w'.threads.manager.orderQueue with
    | nil => exact absurd hq (h.sound.popping hp)
    | cons pending rest =>
      have hpopping := h.sound.popping_processor hp
      have hstep : w'.process answer latency =
          { w' with
            threads := { w'.threads with
              manager := { w'.threads.manager with orderQueue := rest }
              processor := .popped pending }
            phase := .serving } := by
        simp only [OrderWakeups.process, hp]
        rw [OrderThreads.process_popping hpopping hq]
      have hbefore : w'.threads.handedOver ++ w'.claimed = w'.threads.placed ++ [pending.order] := by
        simp [OrderThreads.handedOver, claimed, hp, hpopping, hq]
      have hunclaimed : w'.unclaimed = rest := by simp [unclaimed, hp, hq]
      rw [hstep] at hsound ⊢
      refine ⟨hsound, h.stopped, Eq.trans ?_ (hbefore.symm.trans h.handed), ?_⟩
      · simp [OrderThreads.handedOver, claimed, OrderThreads.placed]
      · simpa [unclaimed] using hunclaimed ▸ h.queue
  | serving =>
    have hserves := OrderThreads.process_serves (h.sound.serving hp) answer latency
    obtain ⟨phase, hphase, hstep⟩ := process_serving hp answer latency
    have hne : phase ≠ .popping := by rcases hphase with rfl | rfl <;> simp
    rw [hstep] at hsound ⊢
    refine h.of_callers hsound rfl (iff_of_false hne (by simp [hp])) hserves.handedOver
      (fun hpop => absurd hpop (by simp [hp])) ?_
    rw [hserves.orderQueue]
  | _ =>
    obtain ⟨phase, hne, hstep⟩ :=
      process_idle (by simp [hp]) (by simp [hp]) hrunning answer latency
    rw [hstep] at hsound ⊢
    exact h.of_callers hsound rfl (iff_of_false hne (by simp [hp])) rfl
      (fun hpop => absurd hpop (by simp [hp])) (List.prefix_refl _)

theorem Halted.step {w w' : OrderWakeups} (h : Halted w w') (a : WakeAction) :
    Halted w (w'.step a) := by
  have hsound := h.sound.step a
  cases a with
  | call i signal now timestamp =>
    obtain ⟨frame, hqueue⟩ := w'.threads.call_callerFrame i signal now timestamp
    refine h.of_callers hsound rfl Iff.rfl ?_ (fun _ => hqueue) ?_
    · simp only [OrderWakeups.step, OrderThreads.handedOver, OrderThreads.placed, frame.sent,
        frame.processor]
    · rw [OrderWakeups.step, hqueue]
  | produce i approve =>
    change Sound (w'.produce i approve) at hsound
    change Halted w (w'.produce i approve)
    rcases w'.produce_cases i approve with ⟨hsame, -⟩ | ⟨-, hlocked, hstep⟩ | ⟨timestamp, -, hstep⟩
    · rwa [hsame]
    · have frame := w'.threads.produce_callerFrame i approve
      rw [hstep] at hsound ⊢
      refine h.of_callers hsound rfl Iff.rfl ?_ (fun hp => hlocked (by rw [hp]; rfl))
        (w'.threads.produce_orderQueue i approve)
      rw [OrderThreads.handedOver, OrderThreads.handedOver, OrderThreads.placed,
        OrderThreads.placed, frame.sent, frame.processor]
    · rw [hstep] at hsound ⊢
      exact h.of_callers hsound rfl (notified_popping _) rfl (fun _ => rfl) (List.prefix_refl _)
  | process answer latency => exact h.process answer latency
  | wakeSpuriously =>
    exact h.of_callers hsound rfl (notified_popping _) rfl (fun _ => rfl) (List.prefix_refl _)
  | stop =>
    have hne := h.stopped
    simpa [OrderWakeups.step, hne] using h
  | notifyAll =>
    change Sound (if w'.stopper = .stored then _ else w') at hsound
    simp only [OrderWakeups.step]
    split at hsound
    · next hstored =>
      rw [if_pos hstored]
      have hcallers : Halted w { w' with phase := w'.phase.notified } :=
        h.of_callers h.sound.notified rfl (notified_popping _) rfl (fun _ => rfl)
          (List.prefix_refl _)
      exact ⟨hsound, by simp, hcallers.handed, hcallers.queue⟩
    · next hstored =>
      rw [if_neg hstored]
      exact h

/-- **A stopped manager sends nothing more.** Once `stop` has stored, the only orders that can still
reach the exchange are the one the processor has in hand and, if it has passed the test of its loop,
the one at the front that it is about to pop. Those behind stay queued. -/
theorem stopped_sends_nothing (limits : Limits) (breaker : CircuitBreaker) (xs ys : List WakeAction)
    (hstop : (run step (fresh limits breaker) xs).stopper ≠ .idle) :
    let w := run step (fresh limits breaker) xs
    let w' := run step w ys
    w'.threads.placed <+: w.threads.handedOver ++ w.claimed ∧ w.unclaimed <+: w'.unclaimed := by
  intro w w'
  have hsound : Sound w := run_invariant (fun _ a h => h.step a) (sound_fresh limits breaker) xs
  have h : Halted w w' :=
    run_invariant (fun _ a h => h.step a) ⟨hsound, hstop, rfl, List.prefix_refl _⟩ ys
  refine ⟨?_, h.queue⟩
  rw [← h.handed, OrderThreads.handedOver, List.append_assoc]
  exact List.prefix_append _ _

/-- The processor is at the test of its loop with one order queued, and a caller pushes another. -/
def twoQueued : List WakeAction :=
  [.call 0 oneBuy 0 0, .produce 0 true, .produce 0 true, .produce 0 true, .call 1 oneBuy 0 0,
    .produce 1 true, .produce 1 true, .produce 1 true, .process "" 0, .process "" 0, .process "" 0]

/-- A `stop` that stores right after the test: one order is still sent, the other is not. -/
theorem twoQueued_stopped :
    let w := run step (fresh {} (.new 100000 0)) (twoQueued ++ [.process "" 0, .stop])
    let w' := run step w (.notifyAll :: List.replicate 9 (.process "id" 0))
    w'.phase = .done ∧ w'.threads.placed.map Order.clientOrderId = ["client_1"] ∧
      w.unclaimed.map (·.order.clientOrderId) = ["client_2"] ∧ w.unclaimed <+: w'.unclaimed := by
  intro w w'
  have h := (stopped_sends_nothing {} (.new 100000 0) (twoQueued ++ [.process "" 0, .stop])
    (.notifyAll :: List.replicate 9 (.process "id" 0)) (by decide +kernel)).2
  exact ⟨by decide +kernel, by decide +kernel, by decide +kernel, h⟩

/-- A bound on the processor's steps to its end once the manager is stopped. -/
def toEnd (w : OrderWakeups) : Nat :=
  match w.phase with
  | .looping => 1
  | .draining => 2
  | .popping => 8
  | .testing => 3
  | .returning => 3
  | .locking => 4
  | .serving => 3 + w.threads.processor.steps
  | _ => 0

/-- The manager is stopped and the processor will not block any more. -/
structure Closing (w : OrderWakeups) : Prop where
  sound : Sound w
  stopped : w.threads.manager.running = false
  parking : w.phase ≠ .parking
  asleep : w.phase ≠ .asleep

/-- Such a processor comes to its end. -/
theorem Closing.ends (h : Closing w) : Inevitable step Processes (fun w => w.phase = .done) w := by
  refine inevitable_of_measure toEnd (I := Closing) ?_ h
  rintro w _ h hdone ⟨answer, latency, rfl⟩
  have hsound := h.sound.process answer latency
  show (w.process answer latency).phase = .done ∨
    Closing (w.process answer latency) ∧ toEnd (w.process answer latency) < toEnd w
  cases hp : w.phase with
  | looping => exact .inl (by simp [process, hp, h.stopped])
  | locking =>
    have hstep : w.process answer latency = { w with phase := .testing } := by simp [process, hp]
    rw [hstep] at hsound ⊢
    exact .inr ⟨⟨hsound, h.stopped, by simp, by simp⟩, by simp [toEnd, hp]⟩
  | testing =>
    have hstep : w.process answer latency = { w with phase := .draining } := by
      simp [process, hp, wakeDue, h.stopped]
    rw [hstep] at hsound ⊢
    exact .inr ⟨⟨hsound, h.stopped, by simp, by simp⟩, by simp [toEnd, hp]⟩
  | parking => exact absurd hp h.parking
  | asleep => exact absurd hp h.asleep
  | draining =>
    have hstep : w.process answer latency = { w with phase := .looping } := by
      simp [process, hp, orderDue, h.stopped]
    rw [hstep] at hsound ⊢
    exact .inr ⟨⟨hsound, h.stopped, by simp, by simp⟩, by simp [toEnd, hp]⟩
  | popping =>
    cases hq : w.threads.manager.orderQueue with
    | nil => exact absurd hq (h.sound.popping hp)
    | cons pending rest =>
      have hpopping := h.sound.popping_processor hp
      have hstep : w.process answer latency =
          { w with
            threads := { w.threads with
              manager := { w.threads.manager with orderQueue := rest }
              processor := .popped pending }
            phase := .serving } := by
        simp only [process, hp]
        rw [OrderThreads.process_popping hpopping hq]
      rw [hstep] at hsound ⊢
      exact .inr ⟨⟨hsound, h.stopped, by simp, by simp⟩, by simp [toEnd, hp, Processor.steps]⟩
  | serving =>
    have hserves := OrderThreads.process_serves (h.sound.serving hp) answer latency
    have hlt := hserves.steps
    have hstopped := hserves.running.trans h.stopped
    obtain ⟨phase, hphase, hstep⟩ := process_serving hp answer latency
    rw [hstep] at hsound ⊢
    rcases hphase with rfl | rfl
    · exact .inr ⟨⟨hsound, hstopped, by simp, by simp⟩, by simp [toEnd, hp]; omega⟩
    · exact .inr ⟨⟨hsound, hstopped, by simp, by simp⟩, by simp [toEnd, hp]; omega⟩
  | returning =>
    have hstep : w.process answer latency = { w with phase := .draining } := by simp [process, hp]
    rw [hstep] at hsound ⊢
    exact .inr ⟨⟨hsound, h.stopped, by simp, by simp⟩, by simp [toEnd, hp]⟩
  | done => exact absurd hp hdone

/-- The processor blocks, or is about to, and its own steps will not change that. -/
theorem not_ends (h : w.phase = .parking ∨ w.phase = .asleep) :
    ¬ Inevitable step Processes (fun w => w.phase = .done) w := by
  refine not_inevitable_of_invariant (I := fun w => w.phase = .parking ∨ w.phase = .asleep)
    ⟨.process "" 0, "", 0, rfl⟩ ?_ ?_ h
  · rintro w _ hp ⟨answer, latency, rfl⟩
    rcases hp with hp | hp <;> simp [step, process, hp]
  · rintro w (hp | hp) <;> simp [hp]

/-- The notification of `stop` does not fall between the processor's test and its blocking. -/
def NotInWindow (w : OrderWakeups) (a : WakeAction) : Prop :=
  a = .notifyAll → w.stopper = .stored → w.phase ≠ .parking

/-- A processor that is up when `stop` notifies does not block any more. -/
theorem step_up (h : Sound w)
    (hup : w.stopper = .notified → w.phase ≠ .parking ∧ w.phase ≠ .asleep) {a : WakeAction}
    (hguard : NotInWindow w a) :
    (w.step a).stopper = .notified → (w.step a).phase ≠ .parking ∧ (w.step a).phase ≠ .asleep := by
  have hnotified : ∀ phase : ProcessorPhase, phase ≠ .parking →
      phase.notified ≠ .parking ∧ phase.notified ≠ .asleep := by
    intro phase hp
    cases phase <;> simp_all [ProcessorPhase.notified]
  cases a with
  | call i signal now timestamp => exact hup
  | produce i approve =>
    show (w.produce i approve).stopper = .notified → _
    change _ → (w.produce i approve).phase ≠ .parking ∧ (w.produce i approve).phase ≠ .asleep
    rcases w.produce_cases i approve with ⟨hsame, -⟩ | ⟨-, -, hstep⟩ | ⟨timestamp, -, hstep⟩
    · rwa [hsame]
    · rw [hstep]
      exact hup
    · rw [hstep]
      exact fun hn => hnotified _ (hup hn).1
  | process answer latency =>
    intro hn
    have hsame : (w.process answer latency).stopper = w.stopper := by
      unfold process
      cases w.phase <;> dsimp only
      split <;> rfl
    have hn : w.stopper = .notified := hsame.symm.trans hn
    obtain ⟨hparking, hasleep⟩ := hup hn
    have hr := h.stopped (by simp [hn])
    show (w.process answer latency).phase ≠ .parking ∧ (w.process answer latency).phase ≠ .asleep
    unfold process
    cases hp : w.phase with
    | looping => simp [hr]
    | locking => simp
    | testing => simp [wakeDue, hr]
    | parking => exact absurd hp hparking
    | asleep => exact absurd hp hasleep
    | draining => simp [orderDue, hr]
    | popping => simp
    | serving =>
      dsimp only
      split <;> simp
    | returning => simp
    | done => simp [hp]
  | wakeSpuriously => exact fun hn => hnotified _ (hup hn).1
  | stop =>
    simp only [OrderWakeups.step]
    split
    · simp
    · exact hup
  | notifyAll =>
    simp only [OrderWakeups.step]
    split
    · next hstored => exact fun _ => hnotified _ (hguard rfl hstored)
    · exact hup

/-- **When `stop` returns.** `stop` stores to `m_running` without the queue lock. In every run the
processor comes to its end by itself after the notification, so that the join returns, if and only
if the notification does not fall between the processor's test of the predicate and its blocking. -/
theorem stop_returns_iff (limits : Limits) (breaker : CircuitBreaker) (xs : List WakeAction) :
    Throughout step (fun w => w.stopper = .notified →
        Inevitable step Processes (fun w => w.phase = .done) w) (fresh limits breaker) xs ↔
      Guarded step NotInWindow (fresh limits breaker) xs := by
  refine throughout_iff_guarded (H := fun _ => True)
    (I := fun w => Sound w ∧ (w.stopper = .notified → w.phase ≠ .parking ∧ w.phase ≠ .asleep))
    ?_ ?_ ?_ (fun _ _ => trivial) ⟨sound_fresh limits breaker, by simp [fresh]⟩
  · rintro w ⟨hsound, hup⟩ hnotified
    have hstopped := hsound.stopped (by simp [hnotified])
    exact Closing.ends ⟨hsound, hstopped, (hup hnotified).1, (hup hnotified).2⟩
  · rintro w a - ⟨hsound, hup⟩ hguard
    exact ⟨hsound.step a, step_up hsound hup hguard⟩
  · rintro w a - ⟨hsound, hup⟩ hguard hP
    simp only [NotInWindow, Classical.not_imp, not_not] at hguard
    obtain ⟨rfl, hstored, hparking⟩ := hguard
    have hstep : w.step .notifyAll = { w with stopper := .notified } := by
      simp [step, hstored, hparking, ProcessorPhase.notified]
    rw [hstep] at hP
    exact not_ends (w := { w with stopper := .notified }) (.inl hparking) (hP rfl)

/-- The processor has tested the predicate when `stop` stores and notifies: `stop` hangs. -/
example : ¬ Guarded step NotInWindow (fresh {} (.new 100000 0))
    (List.replicate 3 (.process "" 0) ++ [.stop, .notifyAll]) := by
  intro h
  exact h (List.replicate 3 (.process "" 0) ++ [.stop]) .notifyAll (List.prefix_refl _) rfl rfl rfl

end OrderWakeups

end TradingTerminal
