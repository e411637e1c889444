import TradingTerminal.Live.FifoLots

/-!
# The cost of the oldest shares

`frontCost lots q` is what the oldest `q` shares of a queue cost. As a function of `q` it says all
that sales can find out about a queue: what a sale makes (`sellFifo_profit_front`), and the same
function for the queue it leaves (`frontCost_sellFifo`). Cutting a lot in two does not change it.
-/

namespace TradingTerminal

def frontCost : List Lot → ℚ → ℚ
  | [], _ => 0
  | lot :: lots, q =>
    lot.price * min q lot.quantity + frontCost lots (max 0 (q - lot.quantity))

section FrontCost

variable {lots : List Lot}

theorem frontCost_zero (h : Live lots) : frontCost lots 0 = 0 := by
  induction lots with
  | nil => rfl
  | cons lot lots ih =>
    obtain ⟨hlot, hlots⟩ := live_cons.1 h
    rw [frontCost, min_eq_left hlot.le, max_eq_left (by linarith), ih hlots]
    ring

/-- All shares cost what the queue costs. -/
theorem frontCost_all (h : Live lots) {q : ℚ} (hq : lotsQuantity lots ≤ q) :
    frontCost lots q = lotsCost lots := by
  induction lots generalizing q with
  | nil => rfl
  | cons lot lots ih =>
    obtain ⟨hlot, hlots⟩ := live_cons.1 h
    have hrest := hlots.nonneg
    rw [lotsQuantity_cons] at hq
    rw [frontCost, lotsCost_cons, min_eq_right (by linarith), max_eq_right (by linarith),
      ih hlots (by linarith)]

/-- A sale makes the revenue of the shares it finds minus what these cost. -/
theorem sellFifo_profit_front (h : Live lots) (price : ℚ) {q : ℚ} (hq : 0 ≤ q) :
    (sellFifo price q lots).2 = price * min q (lotsQuantity lots) - frontCost lots q := by
  induction lots generalizing q with
  | nil => simp [sellFifo, frontCost, hq]
  | cons lot lots ih =>
    obtain ⟨hlot, hlots⟩ := live_cons.1 h
    have hrest := hlots.nonneg
    unfold sellFifo frontCost
    rw [lotsQuantity_cons]
    split
    · next hle =>
      obtain rfl : q = 0 := le_antisymm hle hq
      rw [min_eq_left (by linarith), min_eq_left hlot.le, max_eq_left (by linarith),
        frontCost_zero hlots]
      ring
    · split
      · next hle =>
        have hmin : min q (lot.quantity + lotsQuantity lots) =
            lot.quantity + min (q - lot.quantity) (lotsQuantity lots) := by
          rw [← min_add_add_left, add_sub_cancel]
        dsimp only
        rw [ih hlots (sub_nonneg.2 hle), hmin, min_eq_right hle, max_eq_right (sub_nonneg.2 hle)]
        ring
      · next hlt =>
        have hlt := not_le.1 hlt
        rw [min_eq_left (by linarith), min_eq_left hlt.le, max_eq_left (by linarith),
          frontCost_zero hlots]
        ring

/-- What the oldest shares cost after a sale: those behind the shares that were sold. -/
theorem frontCost_sellFifo (h : Live lots) (price : ℚ) {q r : ℚ} (hq : 0 ≤ q) (hr : 0 ≤ r) :
    frontCost (sellFifo price q lots).1 r = frontCost lots (q + r) - frontCost lots q := by
  induction lots generalizing q with
  | nil => simp [sellFifo, frontCost]
  | cons lot lots ih =>
    obtain ⟨hlot, hlots⟩ := live_cons.1 h
    unfold sellFifo
    split
    · next hle =>
      obtain rfl : q = 0 := le_antisymm hle hq
      rw [zero_add, frontCost_zero h, sub_zero]
    · split
      · next hle =>
        have hleft : 0 ≤ q - lot.quantity := sub_nonneg.2 hle
        dsimp only
        rw [ih hlots hleft, frontCost, frontCost, min_eq_right (by linarith), min_eq_right hle,
          max_eq_right (by linarith), max_eq_right hleft, sub_add_eq_add_sub]
        ring
      · next hlt =>
        have hlt := not_le.1 hlt
        have hmin : min (q + r) lot.quantity = q + min r (lot.quantity - q) := by
          rw [← min_add_add_left, add_sub_cancel]
        have hrest : r - (lot.quantity - q) = q + r - lot.quantity := by ring
        rw [frontCost, frontCost, frontCost, hmin, hrest, min_eq_left hlt.le,
          max_eq_left (by linarith : q - lot.quantity ≤ 0), frontCost_zero hlots]
        ring

/-- A lot bought last is sold when all older shares are. -/
theorem frontCost_concat (h : Live lots) (lot : Lot) {q : ℚ} (hq : 0 ≤ q) :
    frontCost (lots ++ [lot]) q =
      frontCost lots q + lot.price * min (max 0 (q - lotsQuantity lots)) lot.quantity := by
  induction lots generalizing q with
  | nil => simp [frontCost, hq]
  | cons first lots ih =>
    obtain ⟨hfirst, hlots⟩ := live_cons.1 h
    have hrest := hlots.nonneg
    have hmax : max 0 (max 0 (q - first.quantity) - lotsQuantity lots) =
        max 0 (q - (first.quantity + lotsQuantity lots)) := by
      rcases le_total q first.quantity with hle | hle
      · rw [max_eq_left (by linarith : q - first.quantity ≤ 0), max_eq_left (by linarith),
          max_eq_left (by linarith)]
      · rw [max_eq_right (by linarith : 0 ≤ q - first.quantity), sub_sub]
    rw [List.cons_append, frontCost, ih hlots (le_max_left 0 _), frontCost, lotsQuantity_cons, hmax]
    ring

/-- Buying in two parts at one price is buying at once. -/
theorem frontCost_concat_split (h : Live lots) (price : ℚ) {a b q : ℚ} (ha : 0 < a) (hb : 0 < b)
    (hq : 0 ≤ q) :
    frontCost (lots ++ [⟨price, a⟩] ++ [⟨price, b⟩]) q = frontCost (lots ++ [⟨price, a + b⟩]) q := by
  have hlive : Live (lots ++ [⟨price, a⟩]) := live_concat.2 ⟨h, ha⟩
  rw [frontCost_concat hlive _ hq, frontCost_concat h _ hq, frontCost_concat h _ hq,
    lotsQuantity_concat]
  dsimp only
  have hsplit : ∀ x : ℚ, min (max 0 x) (a + b) = min (max 0 x) a + min (max 0 (x - a)) b := by
    intro x
    rcases le_total x a with hxa | hxa
    · have hx : max 0 x ≤ a := max_le ha.le hxa
      rw [min_eq_left (by linarith), min_eq_left hx, max_eq_left (by linarith : x - a ≤ 0),
        min_eq_left hb.le, add_zero]
    · have hxa' : 0 ≤ x - a := sub_nonneg.2 hxa
      rw [max_eq_right (by linarith : 0 ≤ x), min_eq_right hxa, max_eq_right hxa', ← min_add_add_left,
        add_sub_cancel]
  rw [hsplit, ← sub_sub]
  ring

end FrontCost

end TradingTerminal
