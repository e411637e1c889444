import TradingTerminal.Exchange.AlpacaResponses
import TradingTerminal.Lib.Run
import TradingTerminal.Lib.UMap

/-!
# The order poller

One round of `AlpacaClient::poll_order_updates` takes the list of open orders into the map of active
orders: an order is stored if its id is new or its status has changed, and nothing is done about an
order that is no longer listed. The map mirrors every list it is given exactly when no order comes
back changed under the same status, and none leaves the list while it was last seen active
(`mirrors_iff`).
-/

namespace TradingTerminal

open Lib

/-- `Order::is_active` -/
def ExchangeOrder.isActive (order : ExchangeOrder) : Bool :=
  order.status = "new" || order.status = "accepted" || order.status = "partially_filled"

namespace OrderPoller

/-- One turn of the loop over the listed orders. -/
def pollOrder (activeOrders : UMap String ExchangeOrder) (order : ExchangeOrder) :
    UMap String ExchangeOrder :=
  match activeOrders.lookup order.alpacaId with
  | none => activeOrders.insert order.alpacaId order
  | some known =>
    if known.status ≠ order.status then activeOrders.insert order.alpacaId order else activeOrders

def pollOrderUpdates (activeOrders : UMap String ExchangeOrder) (orders : List ExchangeOrder) :
    UMap String ExchangeOrder :=
  orders.foldl pollOrder activeOrders

def ids (orders : List ExchangeOrder) : List String := orders.map ExchangeOrder.alpacaId

/-- The listed record of an id. -/
def listed (orders : List ExchangeOrder) (id : String) : Option ExchangeOrder :=
  orders.find? fun order => order.alpacaId = id

/-- The map holds the listed orders as they are listed, and no others that are active. -/
structure Mirrors (activeOrders : UMap String ExchangeOrder) (orders : List ExchangeOrder) :
    Prop where
  stored : ∀ order ∈ orders, activeOrders.lookup order.alpacaId = some order
  inactive : ∀ id order, activeOrders.lookup id = some order → id ∉ ids orders →
    order.isActive = false

/-- The last record of an id in a row of lists, the last list last. -/
def lastSeen (snapshots : List (List ExchangeOrder)) (id : String) : Option ExchangeOrder :=
  snapshots.foldl (fun seen orders => (listed orders id).or seen) none

/-- A list that follows on from the earlier ones: an order last seen with the same status is
unchanged, and an order last seen active is listed again. -/
structure FollowsOn (earlier : List (List ExchangeOrder)) (orders : List ExchangeOrder) : Prop where
  unchanged : ∀ order ∈ orders, ∀ known, lastSeen earlier order.alpacaId = some known →
    known.status = order.status → known = order
  relisted : ∀ id known, lastSeen earlier id = some known → known.isActive = true → id ∈ ids orders

/-! ## One round -/

/-- The record stored for a listed order, given the one known before. -/
def recordOf (known : Option ExchangeOrder) (order : ExchangeOrder) : ExchangeOrder :=
  match known with
  | none => order
  | some known => if known.status = order.status then known else order

theorem lookup_pollOrder (activeOrders : UMap String ExchangeOrder) (order : ExchangeOrder)
    (id : String) :
    (pollOrder activeOrders order).lookup id =
      if id = order.alpacaId then
        some (recordOf (activeOrders.lookup id) order)
      else activeOrders.lookup id := by
  unfold pollOrder
  by_cases hid : id = order.alpacaId
  · subst hid
    rw [if_pos rfl]
    cases hknown : activeOrders.lookup order.alpacaId with
    | none => simp [recordOf]
    | some known =>
      by_cases hstatus : known.status = order.status
      · simp [hstatus, hknown, recordOf]
      · simp [hstatus, recordOf]
  · rw [if_neg hid]
    cases activeOrders.lookup order.alpacaId with
    | none => exact AList.lookup_insert_ne hid
    | some known =>
      dsimp only
      split
      · exact AList.lookup_insert_ne hid
      · rfl

theorem listed_eq_none {orders : List ExchangeOrder} {id : String} :
    listed orders id = none ↔ id ∉ ids orders := by
  simp [listed, ids]

theorem listed_eq_some {orders : List ExchangeOrder} (hnodup : (ids orders).Nodup) {id : String}
    {order : ExchangeOrder} : listed orders id = some order ↔ order ∈ orders ∧ order.alpacaId = id := by
  constructor
  · intro h
    exact ⟨List.mem_of_find?_eq_some h, by simpa using List.find?_some h⟩
  · rintro ⟨hmem, rfl⟩
    cases hfound : listed orders order.alpacaId with
    | none => exact absurd (List.mem_map_of_mem hmem) (listed_eq_none.1 hfound)
    | some found =>
      have hid : found.alpacaId = order.alpacaId := by simpa using List.find?_some hfound
      rw [List.inj_on_of_nodup_map hnodup (List.mem_of_find?_eq_some hfound) hmem hid]

/-- A round stores what is listed, except over a record with the same status. -/
theorem lookup_pollOrderUpdates {orders : List ExchangeOrder} (hnodup : (ids orders).Nodup)
    (activeOrders : UMap String ExchangeOrder) (id : String) :
    (pollOrderUpdates activeOrders orders).lookup id =
      match listed orders id with
      | none => activeOrders.lookup id
      | some order => some (recordOf (activeOrders.lookup id) order) := by
  unfold pollOrderUpdates
  induction orders generalizing activeOrders with
  | nil => rfl
  | cons order orders ih =>
    rw [ids, List.map_cons, List.nodup_cons] at hnodup
    rw [List.foldl_cons, ih hnodup.2, lookup_pollOrder]
    by_cases hid : id = order.alpacaId
    · have hrest : listed orders id = none := listed_eq_none.2 (hid ▸ hnodup.1)
      have hfirst : listed (order :: orders) id = some order := by simp [listed, hid]
      rw [hrest, hfirst, if_pos hid]
    · have hfirst : listed (order :: orders) id = listed orders id := by
        simp [listed, Ne.symm hid]
      rw [hfirst, if_neg hid]

theorem lastSeen_concat (earlier : List (List ExchangeOrder)) (orders : List ExchangeOrder)
    (id : String) :
    lastSeen (earlier ++ [orders]) id = (listed orders id).or (lastSeen earlier id) := by
  simp [lastSeen, List.foldl_append]

section Round

variable {earlier : List (List ExchangeOrder)} {orders : List ExchangeOrder}
  {activeOrders : UMap String ExchangeOrder}

/-- From a map of the orders last seen, a round mirrors the list exactly if it follows on. -/
theorem mirrors_round_iff (hnodup : (ids orders).Nodup)
    (hseen : ∀ id, activeOrders.lookup id = lastSeen earlier id) :
    Mirrors (pollOrderUpdates activeOrders orders) orders ↔ FollowsOn earlier orders := by
  have hlookup := lookup_pollOrderUpdates hnodup activeOrders
  have hlisted : ∀ order ∈ orders, listed orders order.alpacaId = some order := fun order hmem =>
    (listed_eq_some hnodup).2 ⟨hmem, rfl⟩
  constructor
  · intro h
    refine ⟨fun order hmem known hknown hstatus => ?_, fun id known hknown hactive => ?_⟩
    · have hstored := h.stored order hmem
      rw [hlookup, hlisted order hmem, hseen, hknown] at hstored
      simpa [recordOf, hstatus] using hstored
    · by_contra hid
      have hkept : (pollOrderUpdates activeOrders orders).lookup id = some known := by
        rw [hlookup, listed_eq_none.2 hid]
        exact (hseen id).trans hknown
      rw [h.inactive id known hkept hid] at hactive
      cases hactive
  · intro h
    refine ⟨fun order hmem => ?_, fun id known hknown hid => ?_⟩
    · rw [hlookup, hlisted order hmem, hseen]
      cases hknown : lastSeen earlier order.alpacaId with
      | none => rfl
      | some known =>
        by_cases hstatus : known.status = order.status
        · rw [h.unchanged order hmem known hknown hstatus]
          simp [recordOf]
        · simp [recordOf, hstatus]
    · rw [hlookup, listed_eq_none.2 hid] at hknown
      rw [← Bool.not_eq_true]
      intro hactive
      exact hid (h.relisted id known ((hseen id).symm.trans hknown) hactive)

/-- A round that mirrors the list leaves a map of the orders last seen. -/
theorem lookup_round (hnodup : (ids orders).Nodup)
    (hseen : ∀ id, activeOrders.lookup id = lastSeen earlier id)
    (h : Mirrors (pollOrderUpdates activeOrders orders) orders) (id : String) :
    (pollOrderUpdates activeOrders orders).lookup id = lastSeen (earlier ++ [orders]) id := by
  rw [lastSeen_concat]
  cases hlisted : listed orders id with
  | none => rw [lookup_pollOrderUpdates hnodup, hlisted, Option.none_or, ← hseen]
  | some order =>
    obtain ⟨hmem, rfl⟩ := (listed_eq_some hnodup).1 hlisted
    rw [h.stored order hmem, Option.some_or]

end Round

/-! ## Runs -/

/-- A poller with the lists it was given. -/
structure PollRun where
  activeOrders : UMap String ExchangeOrder := ∅
  snapshots : List (List ExchangeOrder) := []

namespace PollRun

def step (r : PollRun) (orders : List ExchangeOrder) : PollRun where
  activeOrders := pollOrderUpdates r.activeOrders orders
  snapshots := r.snapshots ++ [orders]

/-- The map mirrors the last list. -/
def MirrorsLast (r : PollRun) : Prop := ∀ orders ∈ r.snapshots.getLast?, Mirrors r.activeOrders orders

/-- **The poller as a mirror.** Over any lists with distinct ids, the map mirrors each list after its
round if and only if each list follows on from the earlier ones. -/
theorem mirrors_iff (snapshots : List (List ExchangeOrder))
    (hnodup : ∀ orders ∈ snapshots, (ids orders).Nodup) :
    Throughout step MirrorsLast {} snapshots ↔
      Guarded step (fun r orders => FollowsOn r.snapshots orders) {} snapshots := by
  have hlast : ∀ (r : PollRun) orders, MirrorsLast (r.step orders) ↔
      Mirrors (pollOrderUpdates r.activeOrders orders) orders := by
    intro r orders
    simp [MirrorsLast, step]
  refine throughout_iff_guarded
    (I := fun r => MirrorsLast r ∧ ∀ id, r.activeOrders.lookup id = lastSeen r.snapshots id)
    (fun r h => h.1) (fun r orders hdistinct hr hfollows => ?_)
    (fun r orders hdistinct hr hnot => ?_) hnodup ⟨by simp [MirrorsLast], fun id => rfl⟩
  · have hmirrors := (mirrors_round_iff hdistinct hr.2).2 hfollows
    exact ⟨(hlast r orders).2 hmirrors, lookup_round hdistinct hr.2 hmirrors⟩
  · rw [hlast]
    exact fun hmirrors => hnot ((mirrors_round_iff hdistinct hr.2).1 hmirrors)

/-- An order half filled, then three quarters, under one status. -/
def partialFills : List (List ExchangeOrder) :=
  [[{ alpacaId := "1", symbol := "AAPL", status := "partially_filled", filledQuantity := .finite 50 }],
    [{ alpacaId := "1", symbol := "AAPL", status := "partially_filled",
       filledQuantity := .finite 75 }]]

/-- The second fill does not reach the map. -/
theorem partialFills_not_mirrored :
    (∀ orders ∈ partialFills, (ids orders).Nodup) ∧
      ((run step {} partialFills).activeOrders.lookup "1").map ExchangeOrder.filledQuantity =
        some (.finite 50) ∧
      ¬ Throughout step MirrorsLast {} partialFills := by
  have hfilled : ((run step {} partialFills).activeOrders.lookup "1").map
      ExchangeOrder.filledQuantity = some (.finite 50) := by decide +kernel
  refine ⟨by decide +kernel, hfilled, fun h => ?_⟩
  have hmirrors := h.last (partialFills.getLastD []) rfl
  have hstored := hmirrors.stored _ (List.mem_singleton_self _)
  rw [hstored] at hfilled
  exact absurd hfilled (by decide +kernel)

/-- An order accepted and then filled. -/
theorem acceptedThenFilled_mirrored :
    Throughout step MirrorsLast {}
      [[{ alpacaId := "1", status := "accepted" }], [{ alpacaId := "1", status := "filled" }], []] := by
  refine (mirrors_iff _ (by decide +kernel)).2 ?_
  have hfirst : FollowsOn [] [{ alpacaId := "1", status := "accepted" }] :=
    ⟨by simp [lastSeen], by simp [lastSeen]⟩
  have hsecond : FollowsOn [[{ alpacaId := "1", status := "accepted" }]]
      [{ alpacaId := "1", status := "filled" }] := by
    refine ⟨by simp [lastSeen, listed], fun id known hknown _ => ?_⟩
    by_cases hid : "1" = id
    · simp [ids, ← hid]
    · simp [lastSeen, listed, hid] at hknown
  have hthird : FollowsOn [[{ alpacaId := "1", status := "accepted" }],
      [{ alpacaId := "1", status := "filled" }]] [] := by
    refine ⟨by simp, fun id known hknown hactive => ?_⟩
    by_cases hid : "1" = id
    · simp [lastSeen, listed, hid] at hknown
      rw [← hknown] at hactive
      simp [ExchangeOrder.isActive] at hactive
    · simp [lastSeen, listed, hid] at hknown
  exact guarded_cons.2 ⟨hfirst, guarded_cons.2 ⟨hsecond, guarded_cons.2 ⟨hthird, guarded_nil⟩⟩⟩

end PollRun

end OrderPoller

end TradingTerminal
