import QuantAgent.Domain.Redelivery
import QuantAgent.Domain.Settlement

/-!
# Sales against settled purchases

What a replay without corporate actions books, session by session: every share that is sold was
bought in an earlier session.  The lots left over are what was bought and not sold, unless a sale
of less than nothing was booked, which moves no lot.
-/

namespace QuantAgent.Domain

open Library

def OrderEvent.execution (event : OrderEvent ℚ) : Option (Fill ℚ) :=
  if event.eventType.isExecution then event.fill else none

/-- The executions behind the ones already seen, each once, with the session it settles in. -/
def executionsFrom (dates : Dict String String) :
    List String → List (OrderEvent ℚ) → List (Fill ℚ × String)
  | _, [] => []
  | seen, event :: rest =>
    match event.execution with
    | none => executionsFrom dates seen rest
    | some fill =>
      if fill.executionId ∈ seen then executionsFrom dates seen rest
      else
        (fill, settlementDate dates event fill) ::
          executionsFrom dates (fill.executionId :: seen) rest

def executions (dates : Dict String String) (events : List (OrderEvent ℚ)) :
    List (Fill ℚ × String) := executionsFrom dates [] events

def tally (size : ℚ → ℚ) (bookings : List (Fill ℚ × String)) (side : Side) (symbol : String)
    (counts : String → Bool) : ℚ :=
  (bookings.map fun booking ↦
    if booking.1.side = side ∧ booking.1.symbol = symbol ∧ counts booking.2 = true then
      size booking.1.quantity
    else 0).sum

/-- The shares that the bookings of one side trade. -/
def volume : List (Fill ℚ × String) → Side → String → (String → Bool) → ℚ := tally id

/-- The shares that the bookings of one side take out of lots. -/
def taken : List (Fill ℚ × String) → Side → String → (String → Bool) → ℚ := tally (max · 0)

theorem tally_append (size : ℚ → ℚ) (first second : List (Fill ℚ × String)) (side : Side)
    (symbol : String) (counts : String → Bool) :
    tally size (first ++ second) side symbol counts =
      tally size first side symbol counts + tally size second side symbol counts := by
  unfold tally
  rw [List.map_append, List.sum_append]

theorem tally_singleton (size : ℚ → ℚ) (booking : Fill ℚ × String) (side : Side)
    (symbol : String) (counts : String → Bool) :
    tally size [booking] side symbol counts =
      if booking.1.side = side ∧ booking.1.symbol = symbol ∧ counts booking.2 = true then
        size booking.1.quantity
      else 0 := by
  unfold tally
  rw [List.map_singleton, List.sum_singleton]

section

variable (bookings : List (Fill ℚ × String)) (side : Side) (symbol : String)

theorem volume_le_taken (counts : String → Bool) :
    volume bookings side symbol counts ≤ taken bookings side symbol counts := by
  apply List.sum_le_sum
  intro booking _
  split
  · exact le_max_left _ _
  · exact le_refl 0

/-- As much is traded as is taken, exactly when no quantity that counts is negative. -/
theorem volume_eq_taken_iff :
    volume bookings side symbol (fun _ ↦ true) = taken bookings side symbol (fun _ ↦ true) ↔
      ∀ booking ∈ bookings, booking.1.side = side → booking.1.symbol = symbol →
        0 ≤ booking.1.quantity := by
  induction bookings with
  | nil => exact iff_of_true rfl (List.forall_mem_nil _)
  | cons booking bookings ih =>
    have hvolume := tally_append id [booking] bookings side symbol fun _ ↦ true
    have htaken := tally_append (max · 0) [booking] bookings side symbol fun _ ↦ true
    have hrest := volume_le_taken bookings side symbol fun _ ↦ true
    rw [List.singleton_append, tally_singleton] at hvolume htaken
    rw [volume, taken, hvolume, htaken, List.forall_mem_cons, ← ih]
    rw [volume, taken] at hrest ⊢
    by_cases hcounts : booking.1.side = side ∧ booking.1.symbol = symbol
    · have hall : booking.1.side = side ∧ booking.1.symbol = symbol ∧ true = true :=
        ⟨hcounts.1, hcounts.2, rfl⟩
      rw [if_pos hall, if_pos hall, id_eq]
      have hone := le_max_left booking.1.quantity 0
      constructor
      · intro hsum
        have hsame : booking.1.quantity = max booking.1.quantity 0 := by linarith
        refine ⟨fun _ _ ↦ ?_, by linarith⟩
        rw [hsame]
        exact le_max_right _ _
      · intro hboth
        rw [max_eq_left (hboth.1 hcounts.1 hcounts.2), hboth.2]
    · have hnone : ¬ (booking.1.side = side ∧ booking.1.symbol = symbol ∧ true = true) :=
        fun h ↦ hcounts ⟨h.1, h.2.1⟩
      rw [if_neg hnone, if_neg hnone, zero_add, zero_add]
      exact ⟨fun hsum ↦ ⟨fun hside hsymbol ↦ absurd ⟨hside, hsymbol⟩ hcounts, hsum⟩, And.right⟩

end

namespace AccountState

/-- What the lots of an account owe to the bookings behind it. -/
structure Tallied (bookings : List (Fill ℚ × String)) (state : AccountState) : Prop where
  positive : state.AllPositive
  position : ∀ symbol, state.position symbol =
    volume bookings .buy symbol (fun _ ↦ true) - taken bookings .sell symbol (fun _ ↦ true)
  /-- What may be sold in a session, and what was sold up to it, was bought before it. -/
  settled : ∀ symbol date, state.sellable symbol date + taken bookings .sell symbol (· ≤ date) ≤
    volume bookings .buy symbol (· < date)

theorem tallied_opening (initialCash : ℚ) : Tallied [] (opening initialCash) where
  positive := allPositive_opening initialCash
  position _ := by
    change (0 : ℚ) = 0 - 0
    rw [sub_zero]
  settled _ _ := by
    change (0 : ℚ) + 0 ≤ 0
    rw [add_zero]

/-- A sale leaves no more to sell than there was. -/
theorem sellableQuantity_consume_le {lots : List PositionLot}
    (hpositive : ∀ lot ∈ lots, 0 < lot.quantity) (quantity : ℚ) (date later : String) :
    sellableQuantity (PositionLot.parcels.consume (PositionLot.sellableOn date) quantity lots)
        later ≤ sellableQuantity lots later := by
  unfold sellableQuantity
  exact Parcels.available_consume_le (fun _ _ ↦ rfl) hpositive

variable {state after : AccountState}

theorem AllPositive.sellable_nonneg (h : state.AllPositive) (symbol date : String) :
    0 ≤ state.sellable symbol date := by
  apply List.sum_nonneg
  intro size hsize
  obtain ⟨lot, hlot, rfl⟩ := List.mem_map.mp hsize
  exact (h symbol lot (List.mem_of_mem_filter hlot)).le

variable [Hashing ℚ]

variable {fill : Fill ℚ} {date : String}

/-- A booking leaves the lots of the other symbols. -/
theorem lotsOf_of_book {symbol : String} (h : state.book fill date = .ok after)
    (hother : symbol ≠ fill.symbol) :
    after.lotsOf symbol = state.lotsOf symbol := by
  cases hside : fill.side with
  | buy =>
    rw [book_buy_ok hside h, lotsOf_insert state (state.applyBuy fill date) rfl, if_neg hother]
  | sell =>
    simp only [book, applyFill, hside] at h
    obtain ⟨sold, hsold, hchecked⟩ := Fold.bind_iff.mp h
    obtain ⟨-, -, hsame⟩ := Fold.bind_iff.mp hchecked
    cases hsame
    unfold applySell at hsold
    simp only at hsold
    split at hsold
    · cases hsold
    · cases hsold
      unfold lotsOf
      simp only
      split
      · rw [Dict.get?_erase, if_neg hother]
      · rw [Dict.get?_insert_of_ne _ hother]

variable {bookings : List (Fill ℚ × String)}

omit [Hashing ℚ] in
/-- The shares that a booking moves. -/
theorem shareDelta_eq (fill : Fill ℚ) (date symbol : String) :
    shareDelta fill symbol = volume [(fill, date)] .buy symbol (fun _ ↦ true) -
      taken [(fill, date)] .sell symbol fun _ ↦ true := by
  rw [volume, taken, tally_singleton, tally_singleton, shareDelta]
  by_cases hsymbol : fill.symbol = symbol
  · cases hside : fill.side <;> simp [hsymbol]
  · simp [hsymbol]

omit [Hashing ℚ] in
theorem tally_of_other {counted : Side} (hside : fill.side ≠ counted) (size : ℚ → ℚ)
    (bookings : List (Fill ℚ × String)) (symbol : String) (counts : String → Bool) :
    tally size (bookings ++ [(fill, date)]) counted symbol counts =
      tally size bookings counted symbol counts := by
  rw [tally_append, tally_singleton, if_neg fun h ↦ hside h.1, add_zero]

theorem Tallied.position_book (h : Tallied bookings state)
    (hbook : state.book fill date = .ok after) (symbol : String) : after.position symbol =
      volume (bookings ++ [(fill, date)]) .buy symbol (fun _ ↦ true) -
        taken (bookings ++ [(fill, date)]) .sell symbol (fun _ ↦ true) := by
  obtain ⟨-, hposition, -⟩ := book_ok h.positive hbook
  rw [hposition, h.position, shareDelta_eq fill date, volume, taken, tally_append, tally_append]
  ring

theorem Tallied.buy (h : Tallied bookings state) (hside : fill.side = .buy)
    (hbook : state.book fill date = .ok after) : Tallied (bookings ++ [(fill, date)]) after := by
  refine ⟨(book_ok h.positive hbook).1, h.position_book hbook, fun symbol later ↦ ?_⟩
  have hsold : taken (bookings ++ [(fill, date)]) .sell symbol (· ≤ later) =
      taken bookings .sell symbol (· ≤ later) :=
    tally_of_other (by rw [hside]; decide) ..
  have hafter := book_buy_ok hside hbook
  have hlots := lotsOf_insert state (state.applyBuy fill date) rfl symbol
  have hold := h.settled symbol later
  rw [hsold, volume, tally_append, tally_singleton, ← volume, hafter]
  by_cases hsymbol : fill.symbol = symbol
  · have hadded : (state.applyBuy fill date).sellable symbol later =
        state.sellable symbol later + if date < later then fill.quantity else 0 := by
      rw [sellable, hlots, if_pos hsymbol.symm, hsymbol, sellableQuantity_fromFill]
      rfl
    have hcounted : (if (fill, date).1.side = .buy ∧ (fill, date).1.symbol = symbol ∧
        decide ((fill, date).2 < later) = true then id (fill, date).1.quantity else 0) =
        if date < later then fill.quantity else 0 := by
      simp only [hside, hsymbol, decide_eq_true_eq, true_and, id_eq]
    rw [hadded, hcounted]
    linarith
  · have hsame : (state.applyBuy fill date).sellable symbol later =
        state.sellable symbol later := by
      rw [sellable, hlots, if_neg fun hsame ↦ hsymbol hsame.symm, sellable]
    rw [hsame, if_neg fun h ↦ hsymbol h.2.1, add_zero]
    exact hold

/-- A sale is tallied: what it takes could have been sold in every later session too. -/
theorem Tallied.sell (h : Tallied bookings state) (hside : fill.side = .sell)
    (hbook : state.book fill date = .ok after) : Tallied (bookings ++ [(fill, date)]) after := by
  obtain ⟨henough, hkept⟩ := book_sell_ok hside hbook
  refine ⟨(book_ok h.positive hbook).1, h.position_book hbook, fun symbol later ↦ ?_⟩
  have hbought : volume (bookings ++ [(fill, date)]) .buy symbol (· < later) =
      volume bookings .buy symbol (· < later) :=
    tally_of_other (by rw [hside]; decide) ..
  have hold := h.settled symbol later
  rw [hbought, taken, tally_append, tally_singleton, ← taken]
  by_cases hsymbol : fill.symbol = symbol
  · have hlots : after.sellable symbol later =
        sellableQuantity (PositionLot.parcels.consume (PositionLot.sellableOn date)
          fill.quantity (state.lotsOf symbol)) later := by
      rw [sellable, ← hsymbol, hkept]
    rw [hsymbol] at henough
    by_cases hlater : date ≤ later
    · rw [if_pos ⟨hside, hsymbol, decide_eq_true hlater⟩, hlots]
      rcases le_total fill.quantity 0 with hnone | hsome
      · rw [Parcels.consume_of_nonpos hnone, max_eq_right hnone]
        exact (add_zero (taken _ _ _ _)).symm ▸ hold
      · rw [sellableQuantity_consume (h.positive symbol) hlater hsome henough, max_eq_left hsome]
        have hsame : state.sellable symbol later = sellableQuantity (state.lotsOf symbol) later :=
          rfl
        linarith
    · have hearlier : ¬ (fill.side = .sell ∧ fill.symbol = symbol ∧
          decide (date ≤ later) = true) := fun h ↦ hlater (of_decide_eq_true h.2.2)
      rw [if_neg hearlier, add_zero, hlots]
      have hless := sellableQuantity_consume_le (h.positive symbol) fill.quantity date later
      exact (add_le_add_left hless _).trans hold
  · have hsame : after.sellable symbol later = state.sellable symbol later := by
      rw [sellable, lotsOf_of_book hbook fun hsame ↦ hsymbol hsame.symm, sellable]
    rw [hsame, if_neg fun h ↦ hsymbol h.2.1, add_zero]
    exact hold

theorem tallied_bookAll {more : List (Fill ℚ × String)} (h : Tallied bookings state)
    (hbook : state.bookAll more = .ok after) :
    Tallied (bookings ++ more) after := by
  induction more generalizing bookings state with
  | nil =>
    cases hbook
    rw [List.append_nil]
    exact h
  | cons booking more ih =>
    obtain ⟨next, hnext, hrest⟩ := Fold.bind_iff.mp hbook
    have hone : Tallied (bookings ++ [booking]) next := by
      cases hside : booking.1.side with
      | buy => exact h.buy hside hnext
      | sell => exact h.sell hside hnext
    have hall := ih hone hrest
    rwa [List.append_assoc, List.singleton_append] at hall

end AccountState

namespace AccountReplay

variable [Hashing ℚ] {dates : Dict String String}

/-- A replay without corporate actions books the executions, each once. -/
theorem bookAll_of_run {events : List (OrderEvent ℚ)} {index : ℕ} {replay next : AccountReplay}
    {seen : List String} (hseen : ∀ id, id ∈ seen ↔ (replay.applied.get? id).isSome = true)
    (h : run dates [] index replay events = .ok next) :
    replay.account.bookAll (executionsFrom dates seen events) = .ok next.account := by
  induction events generalizing index replay seen with
  | nil =>
    cases h
    rfl
  | cons event events ih =>
    obtain ⟨adjusted, hadjusted, hrest⟩ := Fold.bind_iff.mp h
    obtain rfl : replay = adjusted := Except.ok.inj hadjusted
    obtain ⟨stepped, hstepped, hlater⟩ := Fold.bind_iff.mp hrest
    rw [executionsFrom, OrderEvent.execution]
    cases hkind : event.eventType.isExecution with
    | false =>
      have hsame : replay = stepped := by
        simp only [step, hkind, Bool.false_eq_true, if_false] at hstepped
        exact Except.ok.inj hstepped
      subst hsame
      exact ih hseen hlater
    | true =>
      simp only [step, hkind, if_true] at hstepped
      rw [if_pos rfl]
      cases hfill : event.fill with
      | none =>
        rw [hfill] at hstepped
        cases hstepped
      | some fill =>
        simp only [hfill] at hstepped ⊢
        cases hknown : replay.applied.get? fill.executionId with
        | some earlier =>
          have hmember : fill.executionId ∈ seen := by
            rw [hseen, hknown]
            rfl
          rw [if_pos hmember]
          simp only [hknown] at hstepped
          split at hstepped
          · cases hstepped
            have hagain := @ih (index + 1)
              { replay with duplicates := replay.duplicates ++ [fill.executionId] } seen
            exact hagain hseen hlater
          · cases hstepped
        | none =>
          have hnew : fill.executionId ∉ seen := by
            rw [hseen, hknown]
            exact Bool.false_ne_true
          rw [if_neg hnew]
          simp only [hknown] at hstepped
          obtain ⟨account, haccount, hreplay⟩ := Fold.bind_iff.mp hstepped
          cases hreplay
          refine Fold.bind_iff.mpr ⟨account, haccount, ih (fun id ↦ ?_) hlater⟩
          rw [List.mem_cons, hseen, Dict.get?_insert]
          by_cases hid : id = fill.executionId
          · simp [hid]
          · simp [hid]

end AccountReplay

/-- The executions of an accepted list of events are booked one after the other. -/
theorem bookAll_of_replayAccount [Hashing ℚ] {events : List (OrderEvent ℚ)} {initialCash : ℚ}
    {dates : Dict String String} {account : AccountState}
    (h : replayAccount events initialCash dates [] = .ok account) :
    ∃ booked, (AccountState.opening initialCash).bookAll (executions dates events) = .ok booked ∧
      account.lots = booked.lots := by
  obtain ⟨replay, hrun, hlate⟩ := Fold.bind_iff.mp h
  obtain ⟨last, hlast, haccount⟩ := Fold.bind_iff.mp hlate
  have hnone : replay.adjustAll [] = .ok last := by
    simpa only [List.filter_nil, List.mergeSort_nil, List.map_nil] using hlast
  obtain rfl : replay = last := Except.ok.inj hnone
  cases haccount
  refine ⟨replay.account, AccountReplay.bookAll_of_run (fun id ↦ ?_) hrun, rfl⟩
  exact iff_of_false List.not_mem_nil Bool.false_ne_true

/-- Sales are covered by purchases of earlier sessions, and the lots are what is left. -/
structure SettledInTime (bookings : List (Fill ℚ × String)) (account : AccountState) : Prop where
  /-- What is sold up to a session was bought before it. -/
  covered : ∀ symbol date,
    volume bookings .sell symbol (· ≤ date) ≤ volume bookings .buy symbol (· < date)
  /-- Every lot holds something. -/
  positive : account.AllPositive
  /-- The lots of a symbol are what was bought and not sold. -/
  balanced : ∀ symbol, account.position symbol =
    volume bookings .buy symbol (fun _ ↦ true) - volume bookings .sell symbol (fun _ ↦ true)

/-- A replay without corporate actions settles in time exactly when it books no sale of less than
nothing. -/
theorem settledInTime_iff [Hashing ℚ] {events : List (OrderEvent ℚ)} {initialCash : ℚ}
    {dates : Dict String String} {account : AccountState}
    (h : replayAccount events initialCash dates [] = .ok account) :
    SettledInTime (executions dates events) account ↔
      ∀ booking ∈ executions dates events, booking.1.side = .sell → 0 ≤ booking.1.quantity := by
  obtain ⟨booked, hbooked, hlots⟩ := bookAll_of_replayAccount h
  have htallied := AccountState.tallied_bookAll (AccountState.tallied_opening initialCash) hbooked
  rw [List.nil_append] at htallied
  have hlotsOf : ∀ symbol, account.lotsOf symbol = booked.lotsOf symbol := by
    intro symbol
    rw [AccountState.lotsOf, AccountState.lotsOf, hlots]
  have hposition : ∀ symbol, account.position symbol = booked.position symbol := by
    intro symbol
    rw [AccountState.position, AccountState.position, hlotsOf]
  have hpositive : account.AllPositive := by
    intro symbol lot hlot
    rw [hlotsOf] at hlot
    exact htallied.positive symbol lot hlot
  have hcovered : ∀ symbol date, volume (executions dates events) .sell symbol (· ≤ date) ≤
      volume (executions dates events) .buy symbol (· < date) := by
    intro symbol date
    calc volume (executions dates events) .sell symbol (· ≤ date)
        ≤ taken (executions dates events) .sell symbol (· ≤ date) := volume_le_taken _ _ _ _
      _ ≤ booked.sellable symbol date + taken (executions dates events) .sell symbol (· ≤ date) :=
          le_add_of_nonneg_left (htallied.positive.sellable_nonneg symbol date)
      _ ≤ volume (executions dates events) .buy symbol (· < date) := htallied.settled symbol date
  constructor
  · intro hsettled booking hbooking hside
    have hbalanced := hsettled.balanced booking.1.symbol
    rw [hposition, htallied.position, sub_right_inj] at hbalanced
    exact (volume_eq_taken_iff _ _ _).mp hbalanced.symm booking hbooking hside rfl
  · intro hall
    refine ⟨hcovered, hpositive, fun symbol ↦ ?_⟩
    have hsold := (volume_eq_taken_iff (executions dates events) .sell symbol).mpr
      fun booking hbooking hside _ ↦ hall booking hbooking hside
    rw [hposition, htallied.position, hsold]

def sampleTrade (executionId : String) (side : Side) (quantity : ℚ) (date : String) : Fill ℚ where
  executionId
  orderId := "ord-1"
  symbol := "600000.SH"
  side
  quantity
  price := 10
  referencePrice := none
  commission := 0
  stampDuty := 0
  transferFee := 0
  filledAt := date
  lineage := .empty

def tradeEvent (fill : Fill ℚ) : OrderEvent ℚ where
  eventType := .fill
  orderId := fill.orderId
  sequence := 0
  eventTime := fill.filledAt
  fill := some fill
  reason := none
  riskDecision := none
  lineage := .empty

/-- A hundred shares are bought in one session and sold in the next. -/
def roundTrip : List (OrderEvent ℚ) := [
  tradeEvent (sampleTrade "e1" .buy 100 "2026-01-05"),
  tradeEvent (sampleTrade "e2" .sell 100 "2026-01-06")]

/-- A purchase that is sold in the next session settles in time. -/
theorem settledInTime_roundTrip : ∃ account,
    replayAccount roundTrip 1000000 .empty [] = .ok account ∧
      SettledInTime (executions .empty roundTrip) account := by
  have haccepted : (replayAccount roundTrip 1000000 .empty []).isOk = true := by decide +kernel
  cases hreplay : replayAccount roundTrip 1000000 .empty [] with
  | error violation =>
    rw [hreplay] at haccepted
    cases haccepted
  | ok account =>
    refine ⟨account, rfl, (settledInTime_iff hreplay).mpr ?_⟩
    have hall : ((executions .empty roundTrip).all fun booking ↦
        decide (booking.1.side = .sell → 0 ≤ booking.1.quantity)) = true := by decide +kernel
    intro booking hbooking
    exact of_decide_eq_true (List.all_eq_true.mp hall booking hbooking)

/-- A sale of minus a hundred shares is accepted, and no lot stands for it. -/
def negativeSale : List (OrderEvent ℚ) := [
  tradeEvent (sampleTrade "e1" .sell (-100) "2026-01-05")]

theorem not_settledInTime_negativeSale : ∃ account,
    replayAccount negativeSale 1000000 .empty [] = .ok account ∧
      ¬ SettledInTime (executions .empty negativeSale) account := by
  have hflat : ((replayAccount negativeSale 1000000 .empty []).toOption.map fun account ↦
      account.position "600000.SH") = some 0 := by decide +kernel
  have hsold : volume (executions .empty negativeSale) .sell "600000.SH" (fun _ ↦ true) = -100 := by
    decide +kernel
  have hbought : volume (executions .empty negativeSale) .buy "600000.SH" (fun _ ↦ true) = 0 := by
    decide +kernel
  cases hreplay : replayAccount negativeSale 1000000 .empty [] with
  | error violation =>
    rw [hreplay] at hflat
    cases hflat
  | ok account =>
    refine ⟨account, rfl, fun hsettled ↦ ?_⟩
    rw [hreplay] at hflat
    have hposition : account.position "600000.SH" = 0 := Option.some.inj hflat
    have hbalanced := hsettled.balanced "600000.SH"
    rw [hposition, hsold, hbought] at hbalanced
    norm_num at hbalanced

end QuantAgent.Domain
