import TradingTerminal.Lib.CyclicIndex
import TradingTerminal.Lib.Run

/-!
# The single-producer single-consumer queue

`live/lock_free_queue.hpp`, at the grain of single atomic loads and stores and single accesses to the
buffer, taken as sequentially consistent. `Pusher` and `Popper` say how far the call in progress of
each side has come and hold its local variables; `Spsc.step` lets one side take one step, so a list
of sides is an interleaving. `accepted` and `popped` are the items of the calls that returned true.

`Spsc.Linked` ties all of it to the two counts `accepted.length` and `popped.length`: head and tail
are these counts modulo the capacity.
-/

namespace TradingTerminal

open Lib

variable {T : Type*} {capacity : Nat}

structure LockFreeQueue (T : Type*) where
  head : Nat := 0
  tail : Nat := 0
  buffer : Nat → T

namespace LockFreeQueue

/-- A value in `size_t`. -/
def sizeT (n : Nat) : Nat := n % 2 ^ 64

/-- `(i + 1) % Capacity`. -/
def next (capacity i : Nat) : Nat := sizeT (i + 1) % capacity

/-- `(t - h + Capacity) % Capacity`, in `size_t` arithmetic. -/
def size (capacity : Nat) (q : LockFreeQueue T) : Nat :=
  sizeT (sizeT (q.tail + 2 ^ 64 - q.head) + capacity) % capacity

def empty (q : LockFreeQueue T) : Bool := q.head == q.tail

def full (capacity : Nat) (q : LockFreeQueue T) : Bool := next capacity q.tail == q.head

end LockFreeQueue

/-- How far a call of `push` has come: not begun, `tail` loaded, found not full, item written. -/
inductive Pusher (T : Type*) where
  | idle
  | loaded (item : T) (currentTail : Nat)
  | writing (item : T) (currentTail nextTail : Nat)
  | storing (item : T) (nextTail : Nat)

/-- How far a call of `pop` has come: not begun, `head` loaded, found not empty, item read. -/
inductive Popper (T : Type*) where
  | idle
  | loaded (currentHead : Nat)
  | reading (currentHead : Nat)
  | storing (item : T) (currentHead : Nat)

/-- The queue, the two sides and the items they have passed on. -/
structure Spsc (T : Type*) where
  queue : LockFreeQueue T
  pusher : Pusher T := .idle
  popper : Popper T := .idle
  accepted : List T := []
  popped : List T := []

/-- One side takes a step; `item` is what the producer pushes if it begins a call. -/
inductive Side (T : Type*) where
  | producer (item : T)
  | consumer

namespace Spsc

/-- The next step of `push`. -/
def push (capacity : Nat) (s : Spsc T) (item : T) : Spsc T :=
  match s.pusher with
  | .idle => { s with pusher := .loaded item s.queue.tail }
  | .loaded item currentTail =>
    let nextTail := LockFreeQueue.next capacity currentTail
    if nextTail = s.queue.head then { s with pusher := .idle }
    else { s with pusher := .writing item currentTail nextTail }
  | .writing item currentTail nextTail =>
    { s with
      queue := { s.queue with buffer := Function.update s.queue.buffer currentTail item }
      pusher := .storing item nextTail }
  | .storing item nextTail =>
    { s with
      queue := { s.queue with tail := nextTail }
      pusher := .idle
      accepted := s.accepted ++ [item] }

/-- The next step of `pop`. -/
def pop (capacity : Nat) (s : Spsc T) : Spsc T :=
  match s.popper with
  | .idle => { s with popper := .loaded s.queue.head }
  | .loaded currentHead =>
    if currentHead = s.queue.tail then { s with popper := .idle }
    else { s with popper := .reading currentHead }
  | .reading currentHead =>
    { s with popper := .storing (s.queue.buffer currentHead) currentHead }
  | .storing item currentHead =>
    { s with
      queue := { s.queue with head := LockFreeQueue.next capacity currentHead }
      popper := .idle
      popped := s.popped ++ [item] }

def step (capacity : Nat) (s : Spsc T) : Side T → Spsc T
  | .producer item => s.push capacity item
  | .consumer => s.pop capacity

/-- The number of items accepted and not yet popped. -/
def pending (s : Spsc T) : Nat := s.accepted.length - s.popped.length

/-! ## The invariant -/

/-- Where the producer stands, with `n` items accepted and `m` popped: its copy of `tail` is current,
and from the check for a full queue on there is room for one more item. -/
def PusherAt (capacity n m : Nat) (buffer : Nat → T) : Pusher T → Prop
  | .idle => True
  | .loaded _ currentTail => currentTail = n % capacity
  | .writing _ currentTail nextTail =>
    currentTail = n % capacity ∧ nextTail = (n + 1) % capacity ∧ n + 1 < m + capacity
  | .storing item nextTail =>
    nextTail = (n + 1) % capacity ∧ n + 1 < m + capacity ∧ buffer (n % capacity) = item

/-- Where the consumer stands: its copy of `head` is current, and from the check for an empty queue
on there is an item left, which is the one it has read. -/
def PopperAt (capacity n m : Nat) (accepted : List T) : Popper T → Prop
  | .idle => True
  | .loaded currentHead => currentHead = m % capacity
  | .reading currentHead => currentHead = m % capacity ∧ m < n
  | .storing item currentHead =>
    currentHead = m % capacity ∧ m < n ∧ accepted[m]? = some item

/-- A pop only makes more room for the producer. -/
theorem PusherAt.release {n m : Nat} {buffer : Nat → T} {pusher : Pusher T}
    (h : PusherAt capacity n m buffer pusher) : PusherAt capacity n (m + 1) buffer pusher := by
  cases pusher with
  | idle => trivial
  | loaded item currentTail => exact h
  | writing item currentTail nextTail =>
    obtain ⟨htail, hnext, hfree⟩ := h
    exact ⟨htail, hnext, by omega⟩
  | storing item nextTail =>
    obtain ⟨hnext, hfree, hitem⟩ := h
    exact ⟨hnext, by omega, hitem⟩

/-- A push only adds an item behind the one that the consumer is at. -/
theorem PopperAt.accept {m : Nat} {accepted : List T} {popper : Popper T}
    (h : PopperAt capacity accepted.length m accepted popper) (item : T) :
    PopperAt capacity (accepted ++ [item]).length m (accepted ++ [item]) popper := by
  cases popper with
  | idle => trivial
  | loaded currentHead => exact h
  | reading currentHead =>
    refine ⟨h.1, ?_⟩
    rw [List.length_append]
    exact Nat.lt_add_right _ h.2
  | storing front currentHead =>
    obtain ⟨hhead, hlt, hfront⟩ := h
    refine ⟨hhead, ?_, ?_⟩
    · rw [List.length_append]
      exact Nat.lt_add_right _ hlt
    · rw [List.getElem?_append_left hlt]
      exact hfront

/-- The state of the queue as a function of what was accepted and popped. -/
structure Linked (capacity : Nat) (s : Spsc T) : Prop where
  head : s.queue.head = s.popped.length % capacity
  tail : s.queue.tail = s.accepted.length % capacity
  popped_prefix : s.popped <+: s.accepted
  room : s.accepted.length < s.popped.length + capacity
  buffer : ∀ i, s.popped.length ≤ i → i < s.accepted.length →
    s.accepted[i]? = some (s.queue.buffer (i % capacity))
  pusher : PusherAt capacity s.accepted.length s.popped.length s.queue.buffer s.pusher
  popper : PopperAt capacity s.accepted.length s.popped.length s.accepted s.popper

theorem linked_start (hpos : 0 < capacity) (buffer : Nat → T) :
    Linked capacity { queue := { buffer } } := by
  refine ⟨?_, ?_, List.prefix_refl _, by simpa using hpos, ?_, trivial, trivial⟩
  · exact (Nat.zero_mod capacity).symm
  · exact (Nat.zero_mod capacity).symm
  · intro i _ hi
    exact absurd hi (Nat.not_lt_zero i)

theorem next_mod (hcap : capacity ≤ 2 ^ 63) (hpos : 0 < capacity) (n : Nat) :
    LockFreeQueue.next capacity (n % capacity) = (n + 1) % capacity := by
  have hlt : n % capacity < capacity := Nat.mod_lt n hpos
  have hwrap : n % capacity + 1 < 2 ^ 64 := by omega
  rw [LockFreeQueue.next, LockFreeQueue.sizeT, Nat.mod_eq_of_lt hwrap, succ_mod]

variable {s : Spsc T}

/-- The producer's steps. -/
theorem Linked.push (h : Linked capacity s) (hcap : capacity ≤ 2 ^ 63) (item : T) :
    Linked capacity (s.push capacity item) := by
  have hroom := h.room
  have hle := h.popped_prefix.length_le
  have hpos : 0 < capacity := by omega
  have hpusher := h.pusher
  unfold Spsc.push
  cases hp : s.pusher with
  | idle => exact ⟨h.head, h.tail, h.popped_prefix, h.room, h.buffer, h.tail, h.popper⟩
  | loaded item currentTail =>
    rw [hp] at hpusher
    obtain rfl : currentTail = _ := hpusher
    dsimp only
    rw [next_mod hcap hpos, h.head]
    split
    · exact ⟨h.head, h.tail, h.popped_prefix, h.room, h.buffer, trivial, h.popper⟩
    · next hne =>
      have hfree : s.accepted.length + 1 < s.popped.length + capacity := by
        -- the only distance that would read as full is `capacity` itself
        by_contra hfull
        have heq : s.accepted.length + 1 = s.popped.length + capacity := by omega
        exact hne (by rw [heq, Nat.add_mod_right])
      exact ⟨h.head, h.tail, h.popped_prefix, h.room, h.buffer, ⟨rfl, rfl, hfree⟩, h.popper⟩
  | writing item currentTail nextTail =>
    rw [hp] at hpusher
    obtain ⟨rfl, hnext, hfree⟩ := hpusher
    refine ⟨h.head, h.tail, h.popped_prefix, h.room, ?_, ⟨hnext, hfree, ?_⟩, h.popper⟩
    · intro i hi hlt
      dsimp only at hi hlt ⊢
      rw [Function.update_of_ne (mod_ne_mod hlt (by omega))]
      exact h.buffer i hi hlt
    · exact Function.update_self ..
  | storing item nextTail =>
    rw [hp] at hpusher
    obtain ⟨rfl, hfree, hitem⟩ := hpusher
    refine ⟨h.head, ?_, h.popped_prefix.trans (List.prefix_append _ _), ?_, ?_, trivial, ?_⟩
    · simp
    · simpa using hfree
    · intro i hi hlt
      dsimp only at hlt ⊢
      rw [List.length_append, List.length_singleton] at hlt
      rcases Nat.lt_succ_iff_lt_or_eq.1 hlt with hlt | rfl
      · rw [List.getElem?_append_left hlt]
        exact h.buffer i hi hlt
      · rw [List.getElem?_concat_length, hitem]
    · exact h.popper.accept item

/-- The consumer's steps. -/
theorem Linked.pop (h : Linked capacity s) (hcap : capacity ≤ 2 ^ 63) :
    Linked capacity (s.pop capacity) := by
  have hroom := h.room
  have hle := h.popped_prefix.length_le
  have hpos : 0 < capacity := by omega
  have hpopper := h.popper
  unfold Spsc.pop
  cases hp : s.popper with
  | idle => exact ⟨h.head, h.tail, h.popped_prefix, h.room, h.buffer, h.pusher, h.head⟩
  | loaded currentHead =>
    rw [hp] at hpopper
    obtain rfl : currentHead = _ := hpopper
    dsimp only
    rw [h.tail]
    split
    · exact ⟨h.head, h.tail, h.popped_prefix, h.room, h.buffer, h.pusher, trivial⟩
    · next hne =>
      refine ⟨h.head, h.tail, h.popped_prefix, h.room, h.buffer, h.pusher, rfl, ?_⟩
      exact lt_of_le_of_ne hle fun heq => hne (by rw [heq])
  | reading currentHead =>
    rw [hp] at hpopper
    obtain ⟨rfl, hlt⟩ := hpopper
    exact ⟨h.head, h.tail, h.popped_prefix, h.room, h.buffer, h.pusher, rfl, hlt,
      h.buffer _ le_rfl hlt⟩
  | storing item currentHead =>
    rw [hp] at hpopper
    obtain ⟨rfl, hlt, hitem⟩ := hpopper
    refine ⟨?_, h.tail, ?_, ?_, ?_, ?_, trivial⟩
    · simp [next_mod hcap hpos]
    · obtain ⟨rest, hrest⟩ := h.popped_prefix
      rw [← hrest, List.getElem?_append_right le_rfl, Nat.sub_self] at hitem
      obtain ⟨tail, rfl⟩ : ∃ tail, rest = item :: tail := by
        cases rest with
        | nil => cases hitem
        | cons y tail => exact ⟨tail, by simpa using hitem⟩
      exact ⟨tail, by rw [← hrest, List.append_assoc]; rfl⟩
    · simp only [List.length_append, List.length_singleton]
      omega
    · intro i hi hlt
      simp only [List.length_append, List.length_singleton] at hi
      exact h.buffer i (by omega) hlt
    · dsimp only
      rw [List.length_append, List.length_singleton]
      exact h.pusher.release

theorem Linked.step (h : Linked capacity s) (hcap : capacity ≤ 2 ^ 63) (x : Side T) :
    Linked capacity (s.step capacity x) := by
  cases x with
  | producer item => exact h.push hcap item
  | consumer => exact h.pop hcap

/-! ## What the queue promises -/

/-- A bounded FIFO queue: items come out in the order they went in, the two sides never touch the
same slot, at most `capacity - 1` items are pending, and between calls the observers tell how many. -/
structure BoundedFifo (capacity : Nat) (s : Spsc T) : Prop where
  fifo : s.popped <+: s.accepted
  slots : ∀ currentHead item currentTail nextTail, s.popper = .reading currentHead →
    s.pusher = .writing item currentTail nextTail →
    currentHead ≠ currentTail ∧ currentHead < capacity ∧ currentTail < capacity
  bound : s.pending ≤ capacity - 1
  size : s.pusher = .idle → s.popper = .idle → s.queue.size capacity = s.pending
  empty : s.pusher = .idle → s.popper = .idle → (s.queue.empty = true ↔ s.pending = 0)
  full : s.pusher = .idle → s.popper = .idle →
    (s.queue.full capacity = true ↔ s.pending = capacity - 1)

theorem Linked.boundedFifo (h : Linked capacity s) (hcap : capacity ≤ 2 ^ 63) :
    BoundedFifo capacity s := by
  have hroom := h.room
  have hle := h.popped_prefix.length_le
  have hpos : 0 < capacity := by omega
  have hhead : s.popped.length % capacity < capacity := Nat.mod_lt _ hpos
  have htail : s.accepted.length % capacity < capacity := Nat.mod_lt _ hpos
  refine ⟨h.popped_prefix, ?_, ?_, ?_, ?_, ?_⟩
  · intro currentHead item currentTail nextTail hpop hpush
    have hpopper := h.popper
    have hpusher := h.pusher
    rw [hpop] at hpopper
    rw [hpush] at hpusher
    obtain ⟨rfl, hlt⟩ := hpopper
    obtain ⟨rfl, -, -⟩ := hpusher
    exact ⟨mod_ne_mod hlt hroom, hhead, htail⟩
  · rw [pending]
    omega
  · intro _ _
    have hdist := sub_mod_of_lt hle hroom
    rw [LockFreeQueue.size, h.head, h.tail, pending, ← hdist,
      LockFreeQueue.sizeT, LockFreeQueue.sizeT]
    generalize s.popped.length % capacity = i at *
    generalize s.accepted.length % capacity = j at *
    have hwrap : ((j + 2 ^ 64 - i) % 2 ^ 64 + capacity) % 2 ^ 64 = j + capacity - i := by omega
    rw [hwrap]
  · intro _ _
    rw [LockFreeQueue.empty, h.head, h.tail, beq_iff_eq, mod_eq_mod_iff hle hroom, pending]
    omega
  · intro _ _
    rw [LockFreeQueue.full, h.head, h.tail, next_mod hcap hpos, beq_iff_eq, pending]
    constructor
    · intro heq
      by_contra hne
      exact mod_ne_mod (c := capacity) (by omega) (by omega) heq.symm
    · intro heq
      have hsucc : s.accepted.length + 1 = s.popped.length + capacity := by omega
      rw [hsucc, Nat.add_mod_right]

/-- **The queue is a bounded FIFO queue under concurrent use.** For every power of two as capacity,
every item type and every interleaving of the steps of one producer and one consumer. -/
theorem run_boundedFifo (k : Nat) (hk : k < 64) (buffer : Nat → T) (xs : List (Side T)) :
    BoundedFifo (2 ^ k) (run (step (2 ^ k)) { queue := { buffer } } xs) := by
  have hcap : 2 ^ k ≤ 2 ^ 63 := Nat.pow_le_pow_right (by omega) (by omega)
  have hlinked : Linked (2 ^ k) (run (step (2 ^ k)) { queue := { buffer } } xs) :=
    run_invariant (fun _ x h => h.step hcap x) (linked_start (Nat.two_pow_pos k) buffer) xs
  exact hlinked.boundedFifo hcap

/-- A queue of two slots holds one item: the second push finds it full, and its answer comes while
the consumer is in the middle of a call. -/
theorem twoSlots_boundedFifo :
    BoundedFifo 2 (run (step 2) { queue := { buffer := fun _ => 0 } }
      [.producer 7, .producer 7, .producer 7, .consumer, .producer 7, .producer 8, .consumer,
        .producer 8, .consumer, .consumer]) :=
  run_boundedFifo 1 (by decide) (fun _ => 0) _

end Spsc

end TradingTerminal
