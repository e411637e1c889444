import TradingTerminal.Lib.UMap
import TradingTerminal.Lib.Recency
import TradingTerminal.Lib.Run
import Mathlib.Data.List.Perm.Basic

/-!
# The LRU cache

`data/cache.hpp`: a linked list of key-value pairs and a map from keys to iterators into it. An
iterator is the address of a list node; `push_front` allocates a node at a new address.

`Indexed` relates the two structures. Over it, what the cache holds is a function of the accesses it
has seen (`History`): the keys are the most recently accessed distinct ones, cut off at the capacity,
each with the value of its latest `put`.
-/

namespace TradingTerminal

open Lib

variable {κ β : Type*} [DecidableEq κ]

/-- A node of `std::list<std::pair<Key, Value>>`. -/
structure Node (κ β : Type*) where
  addr : Nat
  key : κ
  value : β

structure LRUCache (κ β : Type*) where
  capacity : Nat := 1000
  cacheList : List (Node κ β) := []
  cacheMap : UMap κ Nat := ∅
  /-- the address of the next node to be allocated -/
  nextAddr : Nat := 0

namespace LRUCache

/-- `cache_list.erase(it)`. -/
def listErase (c : LRUCache κ β) (it : Nat) : List (Node κ β) :=
  c.cacheList.filter fun node => node.addr ≠ it

def size (c : LRUCache κ β) : Nat := c.cacheMap.keys.length

/-- The first part of `put`: an entry of the key is taken out of both structures. -/
def drop (c : LRUCache κ β) (key : κ) : LRUCache κ β :=
  match c.cacheMap.lookup key with
  | some it => { c with cacheList := c.listErase it, cacheMap := c.cacheMap.erase key }
  | none => c

/-- The second part: a new node at the front, and the map entry that points to it. -/
def pushFront (c : LRUCache κ β) (key : κ) (value : β) : LRUCache κ β :=
  { c with
    cacheList := ⟨c.nextAddr, key, value⟩ :: c.cacheList
    cacheMap := c.cacheMap.insert key c.nextAddr
    nextAddr := c.nextAddr + 1 }

/-- The third part: over capacity, the last node goes. -/
def evict (c : LRUCache κ β) : LRUCache κ β :=
  if c.size > c.capacity then
    match c.cacheList.getLast? with
    | some last =>
      { c with cacheList := c.cacheList.dropLast, cacheMap := c.cacheMap.erase last.key }
    | none => c
  else c

def put (c : LRUCache κ β) (key : κ) (value : β) : LRUCache κ β :=
  ((c.drop key).pushFront key value).evict

/-- The value read, if the key is there, and the cache after the node was spliced to the front. -/
def get (c : LRUCache κ β) (key : κ) : Option β × LRUCache κ β :=
  match c.cacheMap.lookup key with
  | none => (none, c)
  | some it =>
    match c.cacheList.find? fun node => node.addr = it with
    | some node => (some node.value, { c with cacheList := node :: c.listErase it })
    -- an iterator that points to no node is not reachable
    | none => (none, c)

def contains (c : LRUCache κ β) (key : κ) : Bool := (c.cacheMap.lookup key).isSome

def clear (c : LRUCache κ β) : LRUCache κ β := { c with cacheList := [], cacheMap := ∅ }

def getKeys (c : LRUCache κ β) : List κ := c.cacheList.map Node.key

/-! ## The list and the map -/

/-- The list holds each key once, its nodes lie at different addresses, and the map points from the
keys of the list to its nodes. -/
structure Indexed (c : LRUCache κ β) : Prop where
  keys_nodup : c.getKeys.Nodup
  addrs_nodup : (c.cacheList.map Node.addr).Nodup
  addr_lt : ∀ node ∈ c.cacheList, node.addr < c.nextAddr
  lookup : ∀ key it, c.cacheMap.lookup key = some it ↔
    ∃ node ∈ c.cacheList, node.key = key ∧ node.addr = it

variable {c : LRUCache κ β}

theorem Indexed.mem_iff (h : c.Indexed) (key : κ) : key ∈ c.cacheMap ↔ key ∈ c.getKeys := by
  rw [← AList.lookup_isSome, Option.isSome_iff_exists, getKeys, List.mem_map]
  constructor
  · rintro ⟨it, hit⟩
    obtain ⟨node, hnode, hkey, -⟩ := (h.lookup key it).1 hit
    exact ⟨node, hnode, hkey⟩
  · rintro ⟨node, hnode, hkey⟩
    exact ⟨node.addr, (h.lookup key node.addr).2 ⟨node, hnode, hkey, rfl⟩⟩

theorem Indexed.size_eq (h : c.Indexed) : c.size = c.getKeys.length := by
  apply List.Perm.length_eq
  rw [List.perm_ext_iff_of_nodup (AList.keys_nodup c.cacheMap) h.keys_nodup]
  intro key
  rw [← AList.mem_keys, h.mem_iff]

/-- Erasing the node the map points to is erasing the node of the key. -/
theorem Indexed.listErase_eq (h : c.Indexed) {key : κ} {it : Nat}
    (hit : c.cacheMap.lookup key = some it) :
    c.listErase it = c.cacheList.filter fun node => node.key ≠ key := by
  obtain ⟨node, hnode, rfl, rfl⟩ := (h.lookup key it).1 hit
  apply List.filter_congr
  intro x hx
  have haddr : x.addr = node.addr ↔ x = node :=
    ⟨fun he => List.inj_on_of_nodup_map h.addrs_nodup hx hnode he, fun he => he ▸ rfl⟩
  have hkey : x.key = node.key ↔ x = node :=
    ⟨fun he => List.inj_on_of_nodup_map h.keys_nodup hx hnode he, fun he => he ▸ rfl⟩
  exact decide_eq_decide.2 (not_congr (haddr.trans hkey.symm))

theorem map_key_filter {l : List (Node κ β)} (h : (l.map Node.key).Nodup) (key : κ) :
    (l.filter fun node => node.key ≠ key).map Node.key = (l.map Node.key).erase key := by
  rw [h.erase_eq_filter, List.filter_map]
  congr 1
  apply List.filter_congr
  intro node _
  by_cases hk : node.key = key <;> simp [hk]

theorem indexed_empty (capacity : Nat) : Indexed ({ capacity } : LRUCache κ β) := by
  constructor
  · exact List.nodup_nil
  · exact List.nodup_nil
  · simp
  · simp

/-! ## The parts of `put` -/

theorem Indexed.drop_cacheList (h : c.Indexed) (key : κ) :
    (c.drop key).cacheList = c.cacheList.filter fun node => node.key ≠ key := by
  unfold drop
  cases hl : c.cacheMap.lookup key with
  | some it => exact h.listErase_eq hl
  | none =>
    symm
    apply List.filter_eq_self.2
    intro node hnode
    have hnot : key ∉ c.getKeys := fun hmem =>
      AList.lookup_eq_none.1 hl ((h.mem_iff key).2 hmem)
    simp only [ne_eq, decide_not, Bool.not_eq_true', decide_eq_false_iff_not]
    rintro rfl
    exact hnot (List.mem_map_of_mem hnode)

theorem Indexed.drop (h : c.Indexed) (key : κ) : (c.drop key).Indexed := by
  have hlist := h.drop_cacheList key
  have hnext : (c.drop key).nextAddr = c.nextAddr := by
    unfold LRUCache.drop
    split <;> rfl
  have hlookup : ∀ k, (c.drop key).cacheMap.lookup k = if k = key then none
      else c.cacheMap.lookup k := by
    intro k
    unfold LRUCache.drop
    split
    · next it hit =>
      split
      · next hk => rw [hk, AList.lookup_erase]
      · next hk => rw [AList.lookup_erase_ne hk]
    · next hnone =>
      split
      · next hk => rw [hk, hnone]
      · rfl
  have hsub : (c.drop key).cacheList.Sublist c.cacheList := hlist ▸ List.filter_sublist
  refine ⟨(hsub.map _).nodup h.keys_nodup, (hsub.map _).nodup h.addrs_nodup, ?_, ?_⟩
  · intro node hnode
    rw [hnext]
    exact h.addr_lt node (hsub.subset hnode)
  · intro k it
    rw [hlookup, hlist]
    constructor
    · intro hk
      split at hk
      · cases hk
      · next hne =>
        obtain ⟨node, hnode, rfl, rfl⟩ := (h.lookup k it).1 hk
        exact ⟨node, List.mem_filter.2 ⟨hnode, by simpa using hne⟩, rfl, rfl⟩
    · rintro ⟨node, hnode, rfl, rfl⟩
      obtain ⟨hmem, hne⟩ := List.mem_filter.1 hnode
      rw [if_neg (by simpa using hne)]
      exact (h.lookup _ _).2 ⟨node, hmem, rfl, rfl⟩

theorem Indexed.not_mem_drop (h : c.Indexed) (key : κ) : key ∉ (c.drop key).getKeys := by
  rw [getKeys, h.drop_cacheList, map_key_filter h.keys_nodup]
  exact h.keys_nodup.not_mem_erase

@[simp] theorem drop_capacity (c : LRUCache κ β) (key : κ) :
    (c.drop key).capacity = c.capacity := by
  unfold drop
  split <;> rfl

theorem Indexed.pushFront (h : c.Indexed) {key : κ} (hkey : key ∉ c.getKeys) (value : β) :
    (c.pushFront key value).Indexed := by
  refine ⟨List.nodup_cons.2 ⟨hkey, h.keys_nodup⟩, List.nodup_cons.2 ⟨?_, h.addrs_nodup⟩, ?_, ?_⟩
  · intro hmem
    obtain ⟨node, hnode, haddr⟩ := List.mem_map.1 hmem
    exact absurd (h.addr_lt node hnode) (by rw [haddr]; exact lt_irrefl _)
  · intro node hnode
    rcases List.mem_cons.1 hnode with rfl | hnode
    · exact Nat.lt_succ_self _
    · exact Nat.lt_succ_of_lt (h.addr_lt node hnode)
  · intro k it
    simp only [LRUCache.pushFront, List.mem_cons, exists_eq_or_imp]
    by_cases hk : k = key
    · subst hk
      rw [AList.lookup_insert, Option.some.injEq]
      have hno : ¬ ∃ node ∈ c.cacheList, node.key = k ∧ node.addr = it := by
        rintro ⟨node, hnode, rfl, -⟩
        exact hkey (List.mem_map_of_mem hnode)
      simp [hno]
    · rw [AList.lookup_insert_ne hk, h.lookup]
      simp [Ne.symm hk]

theorem Indexed.evict_cacheList (h : c.Indexed) (hlen : c.cacheList.length ≤ c.capacity + 1) :
    c.evict.cacheList = c.cacheList.take c.capacity := by
  have hsize : c.size = c.cacheList.length := by rw [h.size_eq, getKeys, List.length_map]
  unfold evict
  split
  · next hover =>
    have hfull : c.cacheList.length = c.capacity + 1 := by omega
    cases hlast : c.cacheList.getLast? with
    | none =>
      rw [List.getLast?_eq_none_iff] at hlast
      rw [hlast] at hfull
      simp at hfull
    | some last => rw [List.dropLast_eq_take, hfull, Nat.add_sub_cancel]
  · next hunder => rw [List.take_of_length_le (by omega)]

theorem Indexed.evict (h : c.Indexed) : c.evict.Indexed := by
  unfold LRUCache.evict
  split
  · cases hlast : c.cacheList.getLast? with
    | none => exact h
    | some last =>
      have hsplit : c.cacheList = c.cacheList.dropLast ++ [last] :=
        (List.dropLast_append_getLast? last hlast).symm
      have hsub : c.cacheList.dropLast.Sublist c.cacheList := List.dropLast_sublist _
      have hout : ∀ node ∈ c.cacheList.dropLast, node.key ≠ last.key := by
        have hnodup := h.keys_nodup
        rw [getKeys, hsplit, List.map_append, List.nodup_append] at hnodup
        intro node hnode
        exact hnodup.2.2 _ (List.mem_map_of_mem hnode) _ (by simp)
      refine ⟨(hsub.map _).nodup h.keys_nodup, (hsub.map _).nodup h.addrs_nodup,
        fun node hnode => h.addr_lt node (hsub.subset hnode), ?_⟩
      intro k it
      by_cases hk : k = last.key
      · subst hk
        rw [AList.lookup_erase]
        constructor
        · intro hnone
          cases hnone
        · rintro ⟨node, hnode, hkey, -⟩
          exact absurd hkey (hout node hnode)
      · rw [AList.lookup_erase_ne hk, h.lookup]
        constructor
        · rintro ⟨node, hnode, rfl, rfl⟩
          rw [hsplit] at hnode
          rcases List.mem_append.1 hnode with hnode | hnode
          · exact ⟨node, hnode, rfl, rfl⟩
          · exact absurd (congrArg Node.key (List.mem_singleton.1 hnode)) hk
        · rintro ⟨node, hnode, rfl, rfl⟩
          exact ⟨node, hsub.subset hnode, rfl, rfl⟩
  · exact h

theorem Indexed.put_cacheList (h : c.Indexed) (hlen : c.cacheList.length ≤ c.capacity) (key : κ)
    (value : β) :
    ∃ addr, (c.put key value).cacheList =
      (⟨addr, key, value⟩ :: c.cacheList.filter fun node => node.key ≠ key).take c.capacity := by
  have hpush := (h.drop key).pushFront (h.not_mem_drop key) value
  have hlist : ((c.drop key).pushFront key value).cacheList =
      ⟨(c.drop key).nextAddr, key, value⟩ :: c.cacheList.filter fun node => node.key ≠ key := by
    rw [← h.drop_cacheList]
    rfl
  refine ⟨(c.drop key).nextAddr, ?_⟩
  rw [LRUCache.put, hpush.evict_cacheList, hlist]
  · exact congrArg (fun n => List.take n _) (drop_capacity c key)
  · rw [hlist, List.length_cons]
    have := List.length_filter_le (fun node : Node κ β => node.key ≠ key) c.cacheList
    change _ ≤ (c.drop key).capacity + 1
    rw [drop_capacity]
    omega

theorem Indexed.put (h : c.Indexed) (key : κ) (value : β) : (c.put key value).Indexed :=
  ((h.drop key).pushFront (h.not_mem_drop key) value).evict

@[simp] theorem put_capacity (c : LRUCache κ β) (key : κ) (value : β) :
    (c.put key value).capacity = c.capacity := by
  have hevict : ∀ c : LRUCache κ β, c.evict.capacity = c.capacity := by
    intro c
    unfold evict
    split
    · split <;> rfl
    · rfl
  rw [put, hevict]
  exact drop_capacity c key

/-! ## `get` -/

theorem get_of_not_mem (h : c.Indexed) {key : κ} (hkey : key ∉ c.getKeys) :
    c.get key = (none, c) := by
  have hnone : c.cacheMap.lookup key = none :=
    AList.lookup_eq_none.2 fun hmem => hkey ((h.mem_iff key).1 hmem)
  unfold get
  rw [hnone]

/-- A hit reads the node of the key and moves it to the front. -/
theorem get_of_mem (h : c.Indexed) {node : Node κ β} (hnode : node ∈ c.cacheList) :
    c.get node.key = (some node.value,
      { c with cacheList := node :: c.cacheList.filter fun x => x.key ≠ node.key }) := by
  have hlookup := (h.lookup node.key node.addr).2 ⟨node, hnode, rfl, rfl⟩
  have hfind : (c.cacheList.find? fun x => x.addr = node.addr) = some node := by
    cases hf : c.cacheList.find? fun x => x.addr = node.addr with
    | none => exact absurd (List.find?_eq_none.1 hf node hnode) (by simp)
    | some x =>
      have haddr : x.addr = node.addr := by simpa using List.find?_some hf
      rw [List.inj_on_of_nodup_map h.addrs_nodup (List.mem_of_find?_eq_some hf) hnode haddr]
  unfold get
  rw [hlookup]
  dsimp only
  rw [hfind]
  dsimp only
  rw [h.listErase_eq hlookup]

theorem Indexed.get (h : c.Indexed) (key : κ) : (c.get key).2.Indexed := by
  by_cases hkey : key ∈ c.getKeys
  · obtain ⟨node, hnode, rfl⟩ := List.mem_map.1 hkey
    rw [get_of_mem h hnode]
    have hperm : (node :: c.cacheList.filter fun x => x.key ≠ node.key).Perm c.cacheList := by
      apply (List.perm_ext_iff_of_nodup _ (List.Nodup.of_map _ h.keys_nodup)).2
      · intro x
        rw [List.mem_cons, List.mem_filter]
        constructor
        · rintro (rfl | ⟨hx, -⟩)
          · exact hnode
          · exact hx
        · intro hx
          by_cases he : x.key = node.key
          · exact Or.inl (List.inj_on_of_nodup_map h.keys_nodup hx hnode he)
          · exact Or.inr ⟨hx, by simpa using he⟩
      · refine List.nodup_cons.2 ⟨by simp, ?_⟩
        exact (List.Nodup.of_map _ h.keys_nodup).filter _
    refine ⟨(hperm.map _).nodup_iff.2 h.keys_nodup, (hperm.map _).nodup_iff.2 h.addrs_nodup,
      fun x hx => h.addr_lt x (hperm.mem_iff.1 hx), ?_⟩
    intro k it
    simp only [hperm.mem_iff]
    exact h.lookup k it
  · rwa [get_of_not_mem h hkey]

theorem contains_eq (h : c.Indexed) (key : κ) : c.contains key = true ↔ key ∈ c.getKeys := by
  rw [contains, AList.lookup_isSome, h.mem_iff]

end LRUCache

/-! ## Histories of accesses -/

inductive CacheOp (κ β : Type*) where
  | put (key : κ) (value : β)
  | get (key : κ)
  | contains (key : κ)
  | clear

/-- What a cache has seen since it was last cleared, latest first: the accesses that count, which are
the puts and the gets that hit, and the values put. -/
structure History (κ β : Type*) where
  accesses : List κ := []
  puts : List (κ × β) := []

namespace History

/-- The most recently accessed distinct keys, as many as the capacity allows. -/
def keys (h : History κ β) (capacity : Nat) : List κ := (recency h.accesses).take capacity

/-- The value of the latest put of a key. -/
def value (h : History κ β) (key : κ) : Option β :=
  (h.puts.find? fun p => p.1 = key).map Prod.snd

def step (capacity : Nat) (h : History κ β) : CacheOp κ β → History κ β
  | .put key value => { accesses := key :: h.accesses, puts := (key, value) :: h.puts }
  | .get key => if key ∈ h.keys capacity then { h with accesses := key :: h.accesses } else h
  | .contains _ => h
  | .clear => {}

@[simp] theorem keys_empty (capacity : Nat) : ({} : History κ β).keys capacity = [] :=
  List.take_nil

theorem step_get (capacity : Nat) (h : History κ β) (key : κ) :
    h.step capacity (.get key) =
      if key ∈ h.keys capacity then { h with accesses := key :: h.accesses } else h :=
  rfl

theorem value_put (h : History κ β) (capacity : Nat) (key key' : κ) (value : β) :
    (h.step capacity (.put key value)).value key' =
      if key' = key then some value else h.value key' := by
  unfold step History.value
  rw [List.find?_cons]
  by_cases hk : key' = key
  · simp [hk]
  · simp [hk, Ne.symm hk]

end History

namespace LRUCache

def step (c : LRUCache κ β) : CacheOp κ β → LRUCache κ β
  | .put key value => c.put key value
  | .get key => (c.get key).2
  | .contains _ => c
  | .clear => c.clear

/-- The cache shows the history of its accesses. -/
structure Shows (c : LRUCache κ β) (h : History κ β) : Prop where
  indexed : c.Indexed
  keys : c.getKeys = h.keys c.capacity
  value : ∀ node ∈ c.cacheList, h.value node.key = some node.value

variable {c : LRUCache κ β} {h : History κ β}

theorem Shows.length_le (hs : c.Shows h) : c.cacheList.length ≤ c.capacity := by
  have hlen := congrArg List.length hs.keys
  rw [getKeys, List.length_map] at hlen
  rw [hlen]
  exact List.length_take_le _ _

theorem Shows.put (hs : c.Shows h) (key : κ) (value : β) :
    (c.put key value).Shows (h.step c.capacity (.put key value)) := by
  obtain ⟨addr, hlist⟩ := hs.indexed.put_cacheList hs.length_le key value
  refine ⟨hs.indexed.put key value, ?_, ?_⟩
  · rw [put_capacity, getKeys, hlist, List.map_take, List.map_cons,
      map_key_filter hs.indexed.keys_nodup]
    change (touch key c.getKeys).take c.capacity = (touch key (recency h.accesses)).take c.capacity
    rw [hs.keys]
    exact take_touch_take key _ _
  · intro node hnode
    rw [History.value_put]
    rw [hlist] at hnode
    rcases List.mem_cons.1 (List.mem_of_mem_take hnode) with rfl | hnode
    · exact if_pos rfl
    · obtain ⟨hmem, hne⟩ := List.mem_filter.1 hnode
      rw [if_neg (by simpa using hne)]
      exact hs.value node hmem

theorem Shows.get (hs : c.Shows h) (key : κ) :
    (c.get key).2.Shows (h.step c.capacity (.get key)) := by
  have hkeys := hs.keys
  have hindexed := hs.indexed.get key
  rw [History.step_get]
  by_cases hkey : key ∈ c.getKeys
  · obtain ⟨node, hnode, rfl⟩ := List.mem_map.1 hkey
    rw [get_of_mem hs.indexed hnode] at hindexed ⊢
    rw [if_pos (hkeys ▸ hkey)]
    refine ⟨hindexed, ?_, ?_⟩
    · rw [getKeys, List.map_cons, map_key_filter hs.indexed.keys_nodup]
      change touch node.key c.getKeys = (touch node.key (recency h.accesses)).take c.capacity
      rw [hkeys] at hkey ⊢
      exact (take_touch_of_mem hkey).symm
    · intro x hx
      rcases List.mem_cons.1 hx with rfl | hx
      · exact hs.value _ hnode
      · exact hs.value x (List.mem_of_mem_filter hx)
  · rw [get_of_not_mem hs.indexed hkey, if_neg (hkeys ▸ hkey)]
    exact hs

theorem Shows.step (hs : c.Shows h) (op : CacheOp κ β) :
    (c.step op).Shows (h.step c.capacity op) ∧ (c.step op).capacity = c.capacity := by
  cases op with
  | put key value => exact ⟨hs.put key value, put_capacity c key value⟩
  | get key =>
    refine ⟨hs.get key, ?_⟩
    unfold LRUCache.step LRUCache.get
    dsimp only
    split
    · rfl
    · split <;> rfl
  | contains key => exact ⟨hs, rfl⟩
  | clear =>
    have hempty := indexed_empty (κ := κ) (β := β) c.capacity
    exact ⟨⟨⟨hempty.keys_nodup, hempty.addrs_nodup, by simp [LRUCache.step, clear],
      hempty.lookup⟩, (History.keys_empty _).symm, by simp [LRUCache.step, clear]⟩, rfl⟩

theorem shows_run (capacity : Nat) (ops : List (CacheOp κ β)) :
    (run step { capacity } ops).Shows (run (History.step capacity) {} ops) ∧
      (run step ({ capacity } : LRUCache κ β) ops).capacity = capacity := by
  induction ops using List.reverseRecOn with
  | nil => exact ⟨⟨indexed_empty capacity, (History.keys_empty capacity).symm, by simp⟩, rfl⟩
  | append_singleton ops op ih =>
    obtain ⟨hs, hcapacity⟩ := ih
    rw [run_concat, run_concat]
    have hstep := hs.step op
    rw [hcapacity] at hstep
    exact hstep

/-- What a cache promises after a history of accesses. -/
structure Refines (c : LRUCache κ β) (h : History κ β) (capacity : Nat) : Prop where
  same_keys : ∀ key, key ∈ c.cacheMap ↔ key ∈ c.getKeys
  nodup : c.getKeys.Nodup
  size : c.size = c.getKeys.length
  size_le : c.size ≤ capacity
  keys : c.getKeys = h.keys capacity
  hit : ∀ key ∈ h.keys capacity, ∃ value, h.value key = some value ∧ (c.get key).1 = some value
  miss : ∀ key, key ∉ h.keys capacity → c.get key = (none, c)
  contains : ∀ key, c.contains key = true ↔ key ∈ h.keys capacity

/-- **The cache is a least-recently-used cache.** After every sequence of operations on a cache of any
capacity, the list and the map hold the same keys, each once and no more than the capacity; they are
the most recently accessed ones, in that order; a `get` hits exactly these and reads the latest value
put; a miss changes nothing. -/
theorem run_refines (capacity : Nat) (ops : List (CacheOp κ β)) :
    (run step { capacity } ops).Refines (run (History.step capacity) {} ops) capacity := by
  obtain ⟨hs, hcapacity⟩ := shows_run capacity ops
  generalize run step ({ capacity } : LRUCache κ β) ops = c at *
  generalize run (History.step capacity) ({} : History κ β) ops = h at *
  have hkeys := hs.keys
  rw [hcapacity] at hkeys
  refine ⟨hs.indexed.mem_iff, hs.indexed.keys_nodup, hs.indexed.size_eq, ?_, hkeys, ?_, ?_, ?_⟩
  · rw [hs.indexed.size_eq, hkeys]
    exact List.length_take_le _ _
  · intro key hkey
    rw [← hkeys] at hkey
    obtain ⟨node, hnode, rfl⟩ := List.mem_map.1 hkey
    exact ⟨node.value, hs.value node hnode, by rw [get_of_mem hs.indexed hnode]⟩
  · intro key hkey
    exact get_of_not_mem hs.indexed (hkeys ▸ hkey)
  · intro key
    rw [contains_eq hs.indexed, hkeys]

end LRUCache

end TradingTerminal
