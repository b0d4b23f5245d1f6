import QuantAgent.Domain.BookAccount

/-!
# Executions delivered again

A chain may hold an execution more than once.  The book and the account know it again and leave
everything as it is; only the settlement dates are collected once more, and the last record of an
execution decides.  A repeated record changes the account exactly where it moves a settlement.
-/

namespace QuantAgent.Domain

open Library

/-! ## The economic state -/

def roundMicros (x : ℚ) : ℚ := roundHalfEven (x * 1000000) / 1000000

namespace PositionLot

def content (lot : PositionLot) : String × ℚ × ℚ × String :=
  (lot.positionLotId, lot.quantity, roundMicros lot.costPrice, lot.acquiredOn)

/-- Tuples are sorted by their first difference. -/
def contentLe (left right : String × ℚ × ℚ × String) : Bool :=
  if left.1 ≠ right.1 then left.1 < right.1
  else if left.2.1 ≠ right.2.1 then left.2.1 < right.2.1
  else if left.2.2.1 ≠ right.2.2.1 then left.2.2.1 < right.2.2.1
  else left.2.2.2 ≤ right.2.2.2

def contentJson (content : String × ℚ × ℚ × String) : Json ℚ :=
  .arr [.str content.1, .num content.2.1, .num content.2.2.1, .str content.2.2.2]

end PositionLot

namespace AccountState

/-- The lots of all symbols, symbols and lots in order. -/
def lotsContent (state : AccountState) : List (String × Json ℚ) :=
  (state.lots.entries.mergeSort fun left right ↦ left.1 ≤ right.1).map fun entry ↦
    (entry.1, .arr (((entry.2.map PositionLot.content).mergeSort PositionLot.contentLe).map
      PositionLot.contentJson))

/-- The document behind the digest of an account; repeated executions are not in it. -/
def contentPayload (state : AccountState) : Json ℚ :=
  .obj [
    ("cash", .num (roundMicros state.cash)),
    ("lots", .obj state.lotsContent),
    ("realisedPnl", .num (roundMicros state.realisedPnl)),
    ("totalFees", .num (roundMicros state.totalFees)),
    ("totalSlippage", .num (roundMicros state.totalSlippage))]

/-- The digest of the economic state, by the digest of a printed document. -/
def contentHash (sha256 : Json ℚ → String) (state : AccountState) : String :=
  sha256 state.contentPayload

/-- Two accounts differ in their repeated executions only. -/
structure SameEconomics (state other : AccountState) : Prop where
  cash : other.cash = state.cash
  lots : other.lots = state.lots
  costBasis : other.costBasis = state.costBasis
  realisedPnl : other.realisedPnl = state.realisedPnl
  contentHash : ∀ sha256, other.contentHash sha256 = state.contentHash sha256
  rest : { other with duplicateExecutions := state.duplicateExecutions } = state

theorem sameEconomics_duplicates (state : AccountState) (duplicateExecutions : List String) :
    state.SameEconomics { state with duplicateExecutions } :=
  ⟨rfl, rfl, rfl, rfl, fun _ ↦ rfl, rfl⟩

/-- A fill settles alike on two dates: on the same one, or as a sale that finds enough shares on the
other and takes the same lots. -/
def SettlesAlike (state : AccountState) (fill : Fill ℚ) (date date' : String) : Prop :=
  date' = date ∨ (fill.side = .sell ∧ fill.quantity ≤ state.sellable fill.symbol date' ∧
    PositionLot.parcels.consume (PositionLot.sellableOn date') fill.quantity
        (state.lotsOf fill.symbol) =
      PositionLot.parcels.consume (PositionLot.sellableOn date) fill.quantity
        (state.lotsOf fill.symbol))

end AccountState

/-! ## Records that repeat an execution -/

structure SameReport (fill again : Fill ℚ) : Prop where
  executionId : again.executionId = fill.executionId
  side : again.side = fill.side
  quantity : again.quantity = fill.quantity
  price : again.price = fill.price
  fees : again.fees = fill.fees

/-- A record repeats the execution of another for the same order, on whatever date. -/
def LedgerRecord.Repeats (original record : LedgerRecord ℚ) : Prop :=
  ∃ event again fill repeated, original.event = some event ∧ record.event = some again ∧
    event.eventType.isExecution = true ∧ again.eventType.isExecution = true ∧
    event.fill = some fill ∧ again.fill = some repeated ∧ again.orderId = event.orderId ∧
    SameReport fill repeated

/-- A longer chain, whose further records all repeat an execution of the shorter one. -/
structure CanonicalLedger.Redelivers [Hashing ℚ] (ledger longer : CanonicalLedger ℚ)
    (repeats : List (LedgerRecord ℚ)) : Prop where
  records : longer.records = ledger.records ++ repeats
  valid : longer.Valid
  repeats : ∀ record ∈ repeats, ∃ original ∈ ledger.records, original.Repeats record

theorem sameExecution_refl (fill : Fill ℚ) : sameExecution fill fill = true := by
  simp [sameExecution, Arithmetic.near, Arithmetic.same, Arithmetic.abs, Arithmetic.tolerance]

variable {fill again : Fill ℚ} {now : String} {book : OrderBook ℚ}

theorem SameReport.sameExecution (h : SameReport fill again) (seen : Fill ℚ) :
    Domain.sameExecution seen again = Domain.sameExecution seen fill := by
  simp only [Domain.sameExecution, h.side, h.quantity, h.price, h.fees]

/-! ## The book knows an execution again -/

namespace OrderBook

def Holds (book : OrderBook ℚ) (orderId : String) (fill : Fill ℚ) : Prop :=
  ∃ order existing, book.orders.get? orderId = some order ∧
    order.findFill fill.executionId = some existing ∧ sameExecution existing fill = true

variable {book after : OrderBook ℚ} {orderId now : String} {fill : Fill ℚ}

theorem Holds.congr (h : book.Holds orderId fill) (hsame : SameReport fill again) :
    book.Holds orderId again := by
  obtain ⟨order, existing, hget, hfind, hexisting⟩ := h
  refine ⟨order, existing, hget, ?_, ?_⟩
  · rw [hsame.executionId, hfind]
  · rw [hsame.sameExecution, hexisting]

theorem Holds.insert {other : String} {order updated : Order ℚ} (h : book.Holds orderId fill)
    (hget : book.orders.get? other = some order)
    (hafter : after.orders = book.orders.insert other updated)
    (hfills : ∃ more, updated.fills = order.fills ++ more) : after.Holds orderId fill := by
  obtain ⟨held, existing, hheld, hfind, hexisting⟩ := h
  by_cases hsame : orderId = other
  · rw [hsame, hget] at hheld
    cases hheld
    obtain ⟨more, hmore⟩ := hfills
    refine ⟨updated, existing, ?_, ?_, hexisting⟩
    · rw [hafter, hsame, Dict.get?_insert_self]
    · unfold Order.findFill at hfind ⊢
      rw [hmore, List.find?_append, hfind]
      rfl
  · refine ⟨held, existing, ?_, hfind, hexisting⟩
    rw [hafter, Dict.get?_insert_of_ne _ hsame, hheld]

open CanonicalLedger (replayRecord replayRecords)

variable [Hashing ℚ]

variable {record : LedgerRecord ℚ}

theorem Holds.step (h : book.Holds orderId fill)
    (hstep : replayRecord now book record = .ok after) : after.Holds orderId fill := by
  unfold CanonicalLedger.replayRecord at hstep
  split at hstep
  · cases hstep
    exact h
  · rename_i event hevent
    split at hstep
    · split at hstep
      · cases hstep
      · split at hstep
        · cases hstep
        · rename_i intent hintent
          cases hstep
          cases hknown : book.orders.get?
              (Order.fromIntent intent (event.lineage.get .parentOrderId)).orderId with
          | some known => rwa [openOrder_known now hknown]
          | none =>
            obtain ⟨held, existing, hheld, hfind, hexisting⟩ := h
            refine ⟨held, existing, ?_, hfind, hexisting⟩
            rw [orders_openOrder now hknown, Dict.get?_insert_of_ne _ ?_, hheld]
            intro hsame
            rw [hsame, hknown] at hheld
            cases hheld
    · split at hstep
      · cases hstep
      · rename_i applied updated happly
        cases hstep
        obtain ⟨order, hget, ⟨-, rfl, -⟩ | ⟨hadvance, horders, -⟩⟩ := apply_ok happly
        · exact h
        · refine h.insert hget horders ?_
          rcases Order.apply_some hadvance with ⟨booked, -, -, -, -, -, -, rfl⟩ | ⟨-, -, rfl⟩
          · exact ⟨[booked], rfl⟩
          · exact ⟨[], (List.append_nil _).symm⟩

variable {event : OrderEvent ℚ}

theorem holds_of_replayRecord (h : replayRecord now book record = .ok after)
    (hevent : record.event = some event) (hkind : event.eventType.isExecution = true)
    (hfill : event.fill = some fill) : after.Holds event.orderId fill := by
  have hcreated : event.eventType ≠ .created := by
    intro hcreated
    rw [hcreated] at hkind
    cases hkind
  obtain ⟨updated, happly⟩ := (CanonicalLedger.replayRecord_event hevent hcreated).mp h
  obtain ⟨order, hget, ⟨habsorbed, rfl, -⟩ | ⟨hadvance, horders, -⟩⟩ := apply_ok happly
  · unfold Order.apply at habsorbed
    rw [if_pos hkind, hfill] at habsorbed
    simp only [Order.applyFill] at habsorbed
    split at habsorbed
    · rename_i existing hfind
      split at habsorbed
      · rename_i hsame
        exact ⟨order, existing, hget, hfind, hsame⟩
      · cases habsorbed
    · split at habsorbed
      · cases habsorbed
      · split at habsorbed
        · cases habsorbed
        · split at habsorbed <;> cases habsorbed
  · rcases Order.apply_some hadvance with ⟨booked, -, hbooked, hnew, -, -, -, rfl⟩ | ⟨hother, -, -⟩
    · cases hfill.symm.trans hbooked
      refine ⟨order.afterFill fill, fill, ?_, ?_, sameExecution_refl fill⟩
      · rw [horders, Dict.get?_insert_self]
      · unfold Order.findFill at hnew ⊢
        rw [Order.afterFill, List.find?_append, hnew]
        simp
    · rw [hkind] at hother
      cases hother

theorem Holds.replayRecord (h : book.Holds event.orderId fill) (hevent : record.event = some event)
    (hkind : event.eventType.isExecution = true) (hfill : event.fill = some fill) :
    CanonicalLedger.replayRecord now book record = .ok book := by
  have hcreated : event.eventType ≠ .created := by
    intro hcreated
    rw [hcreated] at hkind
    cases hkind
  obtain ⟨order, existing, hget, hfind, hsame⟩ := h
  refine (CanonicalLedger.replayRecord_event hevent hcreated).mpr ⟨order, ?_⟩
  simp only [apply, hget, hfill, Order.apply, hkind, if_true, Order.applyFill, hfind, hsame]

end OrderBook

/-! ## The account knows an execution again -/

namespace AccountReplay

def Holds (replay : AccountReplay) (fill : Fill ℚ) : Prop :=
  ∃ seen, replay.applied.get? fill.executionId = some seen ∧ sameExecution seen fill = true

variable {replay next : AccountReplay} {fill : Fill ℚ}

theorem Holds.congr (h : replay.Holds fill) (hsame : SameReport fill again) :
    replay.Holds again := by
  obtain ⟨seen, hseen, hequal⟩ := h
  refine ⟨seen, ?_, ?_⟩
  · rw [hsame.executionId, hseen]
  · rw [hsame.sameExecution, hequal]

def HoldsInput (replay : AccountReplay) (input : ReplayInput) : Prop :=
  ∀ event fill, input = .event event → event.eventType.isExecution = true →
    event.fill = some fill → replay.Holds fill

variable [Hashing ℚ] {dates : Dict String String}

variable {event : OrderEvent ℚ}

/-- An execution is applied once its event is folded. -/
theorem holds_of_step (h : replay.step dates event = .ok next)
    (hkind : event.eventType.isExecution = true) (hfill : event.fill = some fill) :
    next.Holds fill := by
  unfold AccountReplay.step at h
  rw [if_pos hkind, hfill] at h
  simp only at h
  split at h
  · rename_i seen hseen
    split at h
    · rename_i hsame
      cases h
      exact ⟨seen, hseen, hsame⟩
    · cases h
  · cases hbook : replay.account.book fill (settlementDate dates event fill) with
    | error violation =>
      rw [hbook] at h
      cases h
    | ok account =>
      rw [hbook] at h
      cases h
      exact ⟨fill, Dict.get?_insert_self _ _ _, sameExecution_refl fill⟩

theorem Holds.step (h : replay.Holds fill) (hstep : replay.step dates event = .ok next) :
    next.Holds fill := by
  obtain ⟨seen, hseen, hequal⟩ := h
  refine ⟨seen, ?_, hequal⟩
  rcases step_cases hstep with ⟨booked, -, -, -, -, hnew, -, -, happlied⟩ | ⟨-, happlied, -⟩
  · rw [happlied, Dict.get?_insert_of_ne _ ?_, hseen]
    intro hsame
    rw [hsame, hnew] at hseen
    cases hseen
  · rw [happlied, hseen]

variable {input : ReplayInput}

theorem holdsInput_of_take (h : replay.take dates input = .ok next) :
    next.HoldsInput input := by
  intro event fill hinput hkind hfill
  rw [hinput] at h
  exact holds_of_step h hkind hfill

theorem HoldsInput.take {earlier : ReplayInput} (h : replay.HoldsInput earlier)
    (hstep : replay.take dates input = .ok next) :
    next.HoldsInput earlier := by
  intro event fill hinput hkind hfill
  have hheld := h event fill hinput hkind hfill
  cases input with
  | event later => exact hheld.step hstep
  | adjustment action =>
    cases hadjust : replay.account.adjust action with
    | error violation =>
      rw [AccountReplay.take, hadjust] at hstep
      cases hstep
    | ok account =>
      rw [AccountReplay.take, hadjust] at hstep
      cases hstep
      exact hheld

/-- Executions that were applied before are only listed as repeated. -/
theorem foldlM_repeats {events : List (OrderEvent ℚ)}
    (h : ∀ event ∈ events, ∃ fill, event.eventType.isExecution = true ∧ event.fill = some fill ∧
      replay.Holds fill) :
    ∃ again, events.foldlM (AccountReplay.step dates) replay = .ok
      { replay with duplicates := replay.duplicates ++ again } := by
  induction events generalizing replay with
  | nil => exact ⟨[], by rw [List.append_nil]; rfl⟩
  | cons event events ih =>
    obtain ⟨fill, hkind, hfill, seen, hseen, hequal⟩ := h event (List.mem_cons_self ..)
    have hstep : replay.step dates event = .ok
        { replay with duplicates := replay.duplicates ++ [fill.executionId] } := by
      simp only [AccountReplay.step, hkind, if_true, hfill, hseen, hequal]
    have hheld : ∀ other ∈ events, ∃ fill, other.eventType.isExecution = true ∧
        other.fill = some fill ∧
        Holds { replay with duplicates := replay.duplicates ++ [fill.executionId] } fill :=
      fun other hother ↦ h other (List.mem_cons_of_mem _ hother)
    obtain ⟨again, hrest⟩ :=
      @ih { replay with duplicates := replay.duplicates ++ [fill.executionId] } hheld
    refine ⟨fill.executionId :: again, Fold.cons_iff.mpr ⟨_, hstep, ?_⟩⟩
    rw [hrest, List.append_assoc, List.singleton_append]

end AccountReplay

/-! ## When a settlement moves -/

namespace AccountState

variable [Hashing ℚ]

variable {state after : AccountState} {fill : Fill ℚ} {date : String}

theorem book_buy_ok (hside : fill.side = .buy) (h : state.book fill date = .ok after) :
    after = state.applyBuy fill date := by
  simp only [book, applyFill, hside, bind, Except.bind] at h
  split at h
  · cases h
  · exact (Except.ok.inj h).symm

theorem book_sell_ok (hside : fill.side = .sell) (h : state.book fill date = .ok after) :
    fill.quantity ≤ state.sellable fill.symbol date ∧ after.lotsOf fill.symbol =
      PositionLot.parcels.consume (PositionLot.sellableOn date) fill.quantity
        (state.lotsOf fill.symbol) := by
  simp only [book, applyFill, hside, applySell, bind, Except.bind] at h
  split at h
  · cases h
  · rename_i sold hsold
    split at hsold
    · cases hsold
    · rename_i henough
      cases hsold
      split at h
      · cases h
      · cases h
        refine ⟨not_lt.mp henough, ?_⟩
        by_cases hempty : (PositionLot.parcels.consume (PositionLot.sellableOn date)
            fill.quantity (state.lotsOf fill.symbol)).isEmpty = true
        · rw [lotsOf_erase state _ (if_pos hempty), if_pos rfl, List.isEmpty_iff.mp hempty]
        · rw [lotsOf_insert state _ (if_neg hempty), if_pos rfl]

/-- A fill that is booked on one date is booked with the same result on another exactly when it
settles alike. -/
theorem book_eq_iff (date' : String) (h : state.book fill date = .ok after) :
    state.book fill date' = state.book fill date ↔ state.SettlesAlike fill date date' := by
  constructor
  · intro hsame
    cases hside : fill.side with
    | buy =>
      have hother := book_buy_ok hside (hsame.trans h)
      have hone := book_buy_ok hside h
      have hlots : (state.applyBuy fill date').lotsOf fill.symbol =
          (state.applyBuy fill date).lotsOf fill.symbol := by rw [← hother, ← hone]
      rw [lotsOf_insert state (state.applyBuy fill date') rfl, if_pos rfl,
        lotsOf_insert state (state.applyBuy fill date) rfl, if_pos rfl] at hlots
      have hlot := List.singleton_inj.mp (List.append_cancel_left hlots)
      exact .inl (congrArg PositionLot.acquiredOn hlot)
    | sell =>
      obtain ⟨-, hkept⟩ := book_sell_ok hside h
      obtain ⟨henough', hkept'⟩ := book_sell_ok hside (hsame.trans h)
      exact .inr ⟨hside, henough', hkept'.symm.trans hkept⟩
  · intro halike
    rcases halike with hdate | ⟨hside, henough', hkept⟩
    · rw [hdate]
    · have hfinds : ¬ sellableQuantity (state.lotsOf fill.symbol) date < fill.quantity :=
        not_lt.mpr (book_sell_ok hside h).1
      have hfinds' : ¬ sellableQuantity (state.lotsOf fill.symbol) date' < fill.quantity :=
        not_lt.mpr henough'
      simp only [book, applyFill, hside, applySell, if_neg hfinds, if_neg hfinds', hkept]

end AccountState

namespace AccountReplay

/-- The settlement dates of an input, by either map, make no difference to the account. -/
def Unmoved (dates dates' : Dict String String) (replay : AccountReplay) (input : ReplayInput) :
    Prop :=
  ∀ event fill, input = .event event → event.eventType.isExecution = true →
    event.fill = some fill → replay.applied.get? fill.executionId = none →
      replay.account.SettlesAlike fill (settlementDate dates event fill)
        (settlementDate dates' event fill)

variable [Hashing ℚ] {dates : Dict String String}

variable {replay : AccountReplay}

theorem step_of_new {event : OrderEvent ℚ} (dates : Dict String String)
    (hkind : event.eventType.isExecution = true) (hfill : event.fill = some fill)
    (hnew : replay.applied.get? fill.executionId = none) :
    replay.step dates event =
      (replay.account.book fill (settlementDate dates event fill)).map fun account ↦
        { replay with account, applied := replay.applied.insert fill.executionId fill } := by
  simp only [AccountReplay.step, hkind, if_true, hfill, hnew]
  rfl

/-- An input is folded alike by two maps exactly when they settle it alike. -/
theorem take_eq_iff {next : AccountReplay} {input : ReplayInput} (dates' : Dict String String)
    (h : replay.take dates input = .ok next) :
    replay.take dates' input = replay.take dates input ↔
      Unmoved dates dates' replay input := by
  cases input with
  | adjustment action =>
    refine iff_of_true rfl fun event fill hinput ↦ ?_
    cases hinput
  | event event =>
    by_cases hexecutes : ∃ fill, event.eventType.isExecution = true ∧ event.fill = some fill ∧
        replay.applied.get? fill.executionId = none
    · obtain ⟨fill, hkind, hfill, hnew⟩ := hexecutes
      have hunmoved : Unmoved dates dates' replay (.event event) ↔
          replay.account.SettlesAlike fill (settlementDate dates event fill)
            (settlementDate dates' event fill) := by
        constructor
        · intro hall
          exact hall event fill rfl hkind hfill hnew
        · intro halike other fill' hother _ hfill' _
          obtain rfl := ReplayInput.event.inj hother
          cases hfill.symm.trans hfill'
          exact halike
      simp only [take] at h ⊢
      rw [hunmoved, step_of_new dates' hkind hfill hnew, step_of_new dates hkind hfill hnew]
      rw [step_of_new dates hkind hfill hnew] at h
      cases hbook : replay.account.book fill (settlementDate dates event fill) with
      | error violation =>
        rw [hbook] at h
        cases h
      | ok account =>
        rw [← AccountState.book_eq_iff (settlementDate dates' event fill) hbook, hbook]
        cases replay.account.book fill (settlementDate dates' event fill) with
        | error violation => simp [Except.map]
        | ok account' => simp [Except.map]
    · have hsame : ∀ dates', replay.step dates' event = replay.step dates event := by
        intro dates'
        unfold AccountReplay.step
        split
        · rename_i hkind
          split
          · rfl
          · rename_i fill hfill
            split
            · rfl
            · rename_i hnew
              exact absurd ⟨fill, hkind, hfill, hnew⟩ hexecutes
        · rfl
      refine iff_of_true (hsame dates') ?_
      intro other fill hother hkind hfill hnew
      obtain rfl := ReplayInput.event.inj hother
      exact absurd ⟨fill, hkind, hfill, hnew⟩ hexecutes

end AccountReplay

/-! ## The schedule of a longer chain -/

theorem scheduleFrom_append (actions : List (ℤ × CorporateAction ℚ)) (index : ℕ)
    (first second : List (OrderEvent ℚ)) :
    scheduleFrom actions index (first ++ second) =
      scheduleFrom actions index first ++ scheduleFrom actions (index + first.length) second := by
  induction first generalizing index with
  | nil => rfl
  | cons event first ih =>
    rw [List.cons_append, scheduleFrom, scheduleFrom, ih, List.length_cons]
    rw [List.append_assoc, List.cons_append, Nat.add_assoc, Nat.add_comm 1]

variable {events : List (OrderEvent ℚ)}

theorem event_mem_schedule {event : OrderEvent ℚ} (h : event ∈ events)
    (actions : List (ℤ × CorporateAction ℚ)) :
    ReplayInput.event event ∈ schedule events actions := by
  refine List.mem_append_left _ ?_
  generalize 0 = index
  induction events generalizing index with
  | nil => cases h
  | cons head events ih =>
    rw [scheduleFrom, List.mem_append, List.mem_cons]
    rcases List.mem_cons.mp h with rfl | hlater
    · exact .inr (.inl rfl)
    · exact .inr (.inr (ih hlater (index + 1)))

variable {actions : List (ℤ × CorporateAction ℚ)}

/-- Behind the last action an event stands alone. -/
theorem scheduleFrom_of_lt {index : ℕ} (h : ∀ entry ∈ actions, entry.1 < index)
    (events : List (OrderEvent ℚ)) :
    scheduleFrom actions index events = events.map ReplayInput.event := by
  induction events generalizing index with
  | nil => rfl
  | cons event events ih =>
    have hnone : actions.filter (·.1 = (index : ℤ)) = [] := by
      rw [List.filter_eq_nil_iff]
      intro entry hentry
      have := h entry hentry
      simp only [decide_eq_true_eq]
      omega
    rw [scheduleFrom, hnone, ih fun entry hentry ↦ ?_]
    · rfl
    · have := h entry hentry
      push_cast
      omega

section

variable (h : ∀ entry ∈ actions, 0 ≤ entry.1 ∧ entry.1 ≤ (events.length : ℤ))
include h

/-- Behind the events stand the actions at the end, in their order. -/
theorem schedule_eq :
    schedule events actions = scheduleFrom actions 0 events ++
      ((actions.filter (·.1 = (events.length : ℤ))).map (·.2)).map .adjustment := by
  have hlate : (actions.filter fun entry ↦ ¬(0 ≤ entry.1 ∧ entry.1 < (events.length : ℤ))) =
      actions.filter (·.1 = (events.length : ℤ)) := by
    refine List.filter_congr fun entry hentry ↦ ?_
    have := h entry hentry
    rw [decide_eq_decide]
    omega
  have hsorted : (actions.filter (·.1 = (events.length : ℤ))).mergeSort
      (fun left right ↦ left.1 ≤ right.1) = actions.filter (·.1 = (events.length : ℤ)) := by
    refine List.mergeSort_of_pairwise ?_
    refine List.Pairwise.imp_of_mem ?_ (List.pairwise_of_forall fun _ _ ↦ trivial)
    intro left right hleft hright _
    have hleft' := (List.mem_filter.mp hleft).2
    have hright' := (List.mem_filter.mp hright).2
    simp only [decide_eq_true_eq] at hleft' hright' ⊢
    omega
  simp only [schedule, hlate, hsorted]

/-- Events behind the last corporate action are folded last. -/
theorem schedule_append (more : List (OrderEvent ℚ)) :
    schedule (events ++ more) actions = schedule events actions ++ more.map ReplayInput.event := by
  cases more with
  | nil => simp
  | cons event more =>
    have hlonger : ∀ entry ∈ actions,
        0 ≤ entry.1 ∧ entry.1 ≤ ((events ++ event :: more).length : ℤ) := by
      intro entry hentry
      have := h entry hentry
      rw [List.length_append, List.length_cons]
      omega
    have hnone : actions.filter (·.1 = ((events ++ event :: more).length : ℤ)) = [] := by
      rw [List.filter_eq_nil_iff]
      intro entry hentry
      have := h entry hentry
      rw [List.length_append, List.length_cons, decide_eq_true_eq]
      omega
    have hbehind : ∀ entry ∈ actions, entry.1 < ((events.length + 1 : ℕ) : ℤ) := by
      intro entry hentry
      have := h entry hentry
      omega
    rw [schedule_eq hlonger, schedule_eq h, hnone, scheduleFrom_append, Nat.zero_add, scheduleFrom,
      scheduleFrom_of_lt hbehind]
    simp

end

namespace CanonicalLedger

variable {records : List (LedgerRecord ℚ)}

variable {seen : ℕ}

theorem le_of_mem_actionsFrom {entry : ℕ × Json ℚ} (h : entry ∈ actionsFrom seen records) :
    entry.1 ≤ seen + (records.filterMap LedgerRecord.event).length := by
  induction records generalizing seen with
  | nil => cases h
  | cons record records ih =>
    unfold actionsFrom at h
    cases hevent : record.event with
    | some event =>
      rw [hevent] at h
      have hle := ih h
      rw [List.filterMap_cons, hevent, List.length_cons]
      omega
    | none =>
      rw [hevent] at h
      rw [List.filterMap_cons, hevent]
      simp only at h
      split at h
      · exact ih h
      · rcases List.mem_cons.mp h with rfl | hlater
        · exact Nat.le_add_right _ _
        · exact ih hlater

theorem actionsFrom_append {more : List (LedgerRecord ℚ)}
    (h : ∀ record ∈ more, record.event ≠ none) :
    actionsFrom seen (records ++ more) = actionsFrom seen records := by
  induction records generalizing seen with
  | nil =>
    rw [List.nil_append, actionsFrom]
    induction more generalizing seen with
    | nil => rfl
    | cons record more ih =>
      obtain ⟨event, hevent⟩ := Option.ne_none_iff_exists'.mp (h record (List.mem_cons_self ..))
      rw [actionsFrom, hevent]
      exact ih fun other hother ↦ h other (List.mem_cons_of_mem _ hother)
  | cons record records ih =>
    rw [List.cons_append, actionsFrom, actionsFrom, ih, ih]

variable {ledger : CanonicalLedger ℚ}

theorem corporateActions_bounds {actions : List (ℤ × CorporateAction ℚ)}
    (h : ledger.corporateActions = some actions) {entry : ℤ × CorporateAction ℚ}
    (hentry : entry ∈ actions) :
    0 ≤ entry.1 ∧ entry.1 ≤ (ledger.events.length : ℤ) := by
  obtain ⟨given, hgiven, haction⟩ := Fold.exists_of_mem_mapM h hentry
  obtain ⟨action, -, rfl⟩ := Option.map_eq_some_iff.mp haction
  have hle := le_of_mem_actionsFrom hgiven
  rw [Nat.zero_add] at hle
  exact ⟨Int.natCast_nonneg _, Int.ofNat_le.mpr hle⟩

/-- Everything the replay of the account of a chain folds. -/
def inputs (ledger : CanonicalLedger ℚ) : List ReplayInput :=
  schedule ledger.events (ledger.corporateActions.getD [])

variable [Hashing ℚ]

/-- Everything a replay needs, and what it returns. -/
theorem replay_ok_iff {initialCash : ℚ} {account : AccountState} :
    ledger.replay now initialCash = .ok (book, account) ↔
      ledger.Valid ∧ replayRecords now .empty ledger.records = .ok book ∧
        ledger.corporateActions ≠ none ∧
        ∃ replay, ledger.inputs.foldlM (AccountReplay.take ledger.tradeDates)
            (AccountReplay.start initialCash) = .ok replay ∧
          account = { replay.account with duplicateExecutions := replay.duplicates } := by
  unfold replay replayBook inputs Valid
  cases ledger.verify with
  | error brokenAt => simp
  | ok head =>
    simp only
    cases replayRecords now .empty ledger.records with
    | error error => simp
    | ok replayed =>
      cases ledger.corporateActions with
      | none => simp
      | some actions =>
        rw [Option.getD_some, ← replayAccount_ok_iff]
        simp only
        cases replayAccount ledger.events initialCash ledger.tradeDates actions with
        | error violation => simp
        | ok settled => simp

namespace Redelivers

variable {ledger longer : CanonicalLedger ℚ} {repeats : List (LedgerRecord ℚ)}

variable {record : LedgerRecord ℚ}

section

variable (h : ledger.Redelivers longer repeats)
include h

theorem exists_event (hrecord : record ∈ repeats) :
    ∃ original ∈ ledger.records, ∃ event again fill repeated,
      original.event = some event ∧ record.event = some again ∧
      event.eventType.isExecution = true ∧ again.eventType.isExecution = true ∧
      event.fill = some fill ∧ again.fill = some repeated ∧ again.orderId = event.orderId ∧
      SameReport fill repeated :=
  h.repeats record hrecord

theorem event_ne_none (hrecord : record ∈ repeats) :
    record.event ≠ none := by
  obtain ⟨-, -, -, again, -, -, -, hagain, -⟩ := h.exists_event hrecord
  rw [hagain]
  exact Option.some_ne_none again

theorem corporateActions_eq :
    longer.corporateActions = ledger.corporateActions := by
  rw [corporateActions, h.records, actionsFrom_append fun record ↦ h.event_ne_none, ← corporateActions]

theorem inputs_eq :
    longer.inputs = ledger.inputs ++
      (repeats.filterMap LedgerRecord.event).map ReplayInput.event := by
  have hevents : longer.events = ledger.events ++ repeats.filterMap LedgerRecord.event := by
    rw [events, h.records, List.filterMap_append, ← events]
  rw [inputs, inputs, h.corporateActions_eq, hevents]
  refine schedule_append ?_ _
  cases hactions : ledger.corporateActions with
  | none =>
    intro entry hentry
    cases hentry
  | some actions => exact fun entry ↦ corporateActions_bounds hactions

theorem replayRecords_eq (hbook : replayRecords now .empty ledger.records = .ok book) :
    replayRecords now .empty longer.records = .ok book := by
  have hheld : ∀ record ∈ ledger.records, ∀ event fill, record.event = some event →
      event.eventType.isExecution = true → event.fill = some fill →
        book.Holds event.orderId fill :=
    fun record hrecord ↦ Fold.holds_of_mem
      (fun book record ↦ ∀ event fill, record.event = some event →
        event.eventType.isExecution = true → event.fill = some fill →
          book.Holds event.orderId fill)
      (fun _ _ _ hstep _ _ ↦ OrderBook.holds_of_replayRecord hstep)
      (fun _ _ _ _ hearlier hstep event fill hevent hkind hfill ↦
        (hearlier event fill hevent hkind hfill).step hstep)
      hbook hrecord
  rw [h.records, replayRecords, Fold.append_iff]
  refine ⟨book, hbook, ?_⟩
  have hrepeats := h.repeats
  clear h
  induction repeats with
  | nil => rfl
  | cons record repeats ih =>
    obtain ⟨original, horiginal, event, again, fill, repeated, hevent, hagain, hkind, hkind', hfill,
      hfill', horder, hsame⟩ := hrepeats record (List.mem_cons_self ..)
    have hholds := (hheld original horiginal event fill hevent hkind hfill).congr hsame
    rw [← horder] at hholds
    rw [Fold.cons_iff]
    exact ⟨book, hholds.replayRecord hagain hkind' hfill',
      ih fun other hother ↦ hrepeats other (List.mem_cons_of_mem _ hother)⟩

end

end Redelivers

end CanonicalLedger

namespace CanonicalLedger

variable [Hashing ℚ]

/-- The longer chain settles every execution as the shorter one does. -/
def UnmovedBy (ledger longer : CanonicalLedger ℚ) (initialCash : ℚ) : Prop :=
  ∀ state input, Fold.Meets (AccountReplay.take ledger.tradeDates)
    (AccountReplay.start initialCash) ledger.inputs state input →
      AccountReplay.Unmoved ledger.tradeDates longer.tradeDates state input

/-- Replaying the shorter chain by the settlement dates of the longer one passes through the same
accounts. -/
def SamePassage (ledger longer : CanonicalLedger ℚ) (initialCash : ℚ) : Prop :=
  ∀ before rest, ledger.inputs = before ++ rest →
    before.foldlM (AccountReplay.take longer.tradeDates) (AccountReplay.start initialCash) =
      before.foldlM (AccountReplay.take ledger.tradeDates) (AccountReplay.start initialCash)

omit [Hashing ℚ] in
def KeepsDate (dates : Dict String String) (record : LedgerRecord ℚ) : Prop :=
  ∀ event fill date, record.event = some event → event.fill = some fill →
    record.tradeDate = some date → date ≠ "" → dates.get? fill.executionId = some date

omit [Hashing ℚ] in
theorem get?_datesStep_keep {dates : Dict String String} {record : LedgerRecord ℚ}
    {event : OrderEvent ℚ} (hevent : record.event = some event) (hfill : event.fill = some fill)
    (h : KeepsDate dates record) (key : String) :
    (datesStep dates record).get? key = dates.get? key := by
  simp only [datesStep, hevent, datesAfter, hfill]
  split
  · rfl
  · rename_i date hdate
    split
    · rfl
    · rename_i hne
      rw [Dict.get?_insert]
      split
      · rename_i hkey
        rw [hkey, h event fill date hevent hfill hdate hne]
      · rfl

namespace Redelivers

variable {ledger longer : CanonicalLedger ℚ} {repeats : List (LedgerRecord ℚ)}

section

variable (h : ledger.Redelivers longer repeats)
include h

/-- The repeats are known to the account of the shorter chain. -/
theorem foldlM_repeats {initialCash : ℚ} {replay : AccountReplay}
    (hfold : ledger.inputs.foldlM (AccountReplay.take ledger.tradeDates) (AccountReplay.start
      initialCash) = .ok replay) (dates : Dict String String) :
    ∃ again, (repeats.filterMap LedgerRecord.event).foldlM (AccountReplay.step dates) replay =
      .ok { replay with duplicates := replay.duplicates ++ again } := by
  refine AccountReplay.foldlM_repeats fun later hlater ↦ ?_
  obtain ⟨record, hrecord, hlater⟩ := List.mem_filterMap.mp hlater
  obtain ⟨original, horiginal, event, again, fill, repeated, hevent, hagain, hkind, hkind', hfill,
    hfill', -, hsame⟩ := h.exists_event hrecord
  cases hagain.symm.trans hlater
  have hmem := List.mem_filterMap.mpr ⟨original, horiginal, hevent⟩
  have hheld := Fold.holds_of_mem AccountReplay.HoldsInput
    (fun _ _ _ ↦ AccountReplay.holdsInput_of_take) (fun _ _ _ _ ↦ AccountReplay.HoldsInput.take)
    hfold (event_mem_schedule hmem _)
  exact ⟨repeated, hkind', hfill', (hheld event fill rfl hkind hfill).congr hsame⟩

theorem tradeDates_eq :
    longer.tradeDates = repeats.foldl datesStep ledger.tradeDates := by
  rw [tradeDates, h.records, List.foldl_append, ← tradeDates]

/-- Repeats that keep their dates move no settlement. -/
theorem unmoved_of_keepsDate (hkeeps : ∀ record ∈ repeats, KeepsDate ledger.tradeDates record)
    (initialCash : ℚ) :
    ledger.UnmovedBy longer initialCash := by
  have hget : ∀ key, longer.tradeDates.get? key = ledger.tradeDates.get? key := by
    rw [h.tradeDates_eq]
    have hevents : ∀ record ∈ repeats, ∃ event fill, record.event = some event ∧
        event.fill = some fill := by
      intro record hrecord
      obtain ⟨-, -, -, again, -, repeated, -, hagain, -, -, -, hfill, -⟩ := h.exists_event hrecord
      exact ⟨again, repeated, hagain, hfill⟩
    clear h
    generalize ledger.tradeDates = dates at hkeeps ⊢
    induction repeats generalizing dates with
    | nil => exact fun key ↦ rfl
    | cons record repeats ih =>
      obtain ⟨event, fill, hevent, hfill⟩ := hevents record (List.mem_cons_self ..)
      have hstep := get?_datesStep_keep hevent hfill (hkeeps record (List.mem_cons_self ..))
      have hlater : ∀ other ∈ repeats, KeepsDate (datesStep dates record) other := by
        intro other hother event fill date hevent hfill hdate hne
        rw [hstep]
        exact hkeeps other (List.mem_cons_of_mem _ hother) event fill date hevent hfill hdate hne
      intro key
      rw [List.foldl_cons, ih (fun other hother ↦ hevents other (List.mem_cons_of_mem _ hother))
        _ hlater, hstep]
  intro state input _ event fill _ _ _ _
  refine .inl ?_
  rw [settlementDate, settlementDate, hget, hget]

end

end Redelivers

/-- Executions delivered again leave every account on the way as it was exactly when they move no
settlement; and then the longer chain replays to the same book and the same economics. -/
theorem sameEconomics_of_unmoved {ledger longer : CanonicalLedger ℚ}
    {repeats : List (LedgerRecord ℚ)} {now : String} {initialCash : ℚ} {book : OrderBook ℚ}
    {account : AccountState} (hreplay : ledger.replay now initialCash = .ok (book, account))
    (h : ledger.Redelivers longer repeats) :
    (ledger.SamePassage longer initialCash ↔ ledger.UnmovedBy longer initialCash) ∧
    (ledger.UnmovedBy longer initialCash →
      ∃ other, longer.replay now initialCash = .ok (book, other) ∧ account.SameEconomics other) ∧
    ((∀ record ∈ repeats, KeepsDate ledger.tradeDates record) →
      ledger.UnmovedBy longer initialCash) := by
  obtain ⟨-, hbook, hactions, replay, hfold, rfl⟩ := replay_ok_iff.mp hreplay
  have hpassage : ledger.SamePassage longer initialCash ↔ ledger.UnmovedBy longer initialCash := by
    rw [SamePassage, Fold.eq_iff_meets _ hfold]
    have hiff : ∀ state input, Fold.Meets (AccountReplay.take ledger.tradeDates)
        (AccountReplay.start initialCash) ledger.inputs state input →
          (state.take longer.tradeDates input = state.take ledger.tradeDates input ↔
            AccountReplay.Unmoved ledger.tradeDates longer.tradeDates state input) := by
      intro state input hmeets
      obtain ⟨next, hnext⟩ := hmeets.exists_next hfold
      exact AccountReplay.take_eq_iff _ hnext
    constructor
    · intro hall state input hmeets
      exact (hiff state input hmeets).mp (hall state input hmeets)
    · intro hall state input hmeets
      exact (hiff state input hmeets).mpr (hall state input hmeets)
  refine ⟨hpassage, fun hunmoved ↦ ?_, fun hkeeps ↦ h.unmoved_of_keepsDate hkeeps initialCash⟩
  have hlonger : ledger.inputs.foldlM (AccountReplay.take longer.tradeDates)
      (AccountReplay.start initialCash) = .ok replay := by
    rw [hpassage.mpr hunmoved ledger.inputs [] (List.append_nil _).symm, hfold]
  obtain ⟨again, hagain⟩ := h.foldlM_repeats hfold longer.tradeDates
  refine ⟨{ replay.account with duplicateExecutions := replay.duplicates ++ again },
    replay_ok_iff.mpr ⟨h.valid, h.replayRecords_eq hbook, ?_,
      { replay with duplicates := replay.duplicates ++ again }, ?_, rfl⟩,
    AccountState.sameEconomics_duplicates _ _⟩
  · rwa [h.corporateActions_eq]
  · rw [h.inputs_eq, Fold.append_iff]
    refine ⟨replay, hlonger, ?_⟩
    rw [List.foldlM_map]
    exact hagain

end CanonicalLedger

/-! ## One fill, delivered on two dates -/

section Sample

variable [Hashing ℚ]

def soleOrder : Order ℚ := openedOrder (hundredShares "oi_1")

def redelivered (date : String) : LedgerRecord ℚ :=
  fillRecord soleOrder (hundredFilled soleOrder) (some date)

/-- The chain of one order, with its fill delivered again. -/
def deliveredAgain (date : String) : CanonicalLedger ℚ :=
  .ofRecords (filledRecords "oi_1" ++ [redelivered date])

omit [Hashing ℚ] in
theorem exists_sealRecords_append [Hashing ℚ] (previous : String)
    (first second : List (LedgerRecord ℚ)) : ∃ between,
      sealRecords previous (first ++ second) =
        sealRecords previous first ++ sealRecords between second := by
  induction first generalizing previous with
  | nil => exact ⟨previous, rfl⟩
  | cons record first ih =>
    obtain ⟨between, hbetween⟩ := ih (digest previous record.body.toDict)
    refine ⟨between, ?_⟩
    rw [List.cons_append, sealRecords, sealRecords, hbetween, List.cons_append]

theorem redelivers_oneOrder (date : String) : ∃ repeats,
    oneOrder.Redelivers (deliveredAgain date) repeats := by
  obtain ⟨between, hbetween⟩ := exists_sealRecords_append genesisHash (filledRecords "oi_1")
    [redelivered date]
  obtain ⟨before, hbefore⟩ := exists_sealRecords_append genesisHash
    (openingRecords (hundredShares "oi_1") (some "2024-01-02"))
    [fillRecord soleOrder (hundredFilled soleOrder) (some "2024-01-02")]
  refine ⟨_, hbetween, (CanonicalLedger.linked_ofRecords _).valid, ?_⟩
  intro record hrecord
  obtain rfl := List.mem_singleton.mp hrecord
  let event := orderEvent soleOrder .fill (some (hundredFilled soleOrder))
  refine ⟨{ fillRecord soleOrder (hundredFilled soleOrder) (some "2024-01-02") with
      previousHash := before
      recordHash := digest before
        (fillRecord soleOrder (hundredFilled soleOrder) (some "2024-01-02")).body.toDict }, ?_,
    event, event, hundredFilled soleOrder, hundredFilled soleOrder, rfl, rfl, rfl, rfl, rfl, rfl,
    rfl, rfl, rfl, rfl, rfl, rfl⟩
  have hrecords : oneOrder.records = _ := hbefore
  rw [hrecords]
  exact List.mem_append_right _ (List.mem_singleton.mpr rfl)

variable {date : String}

/-- The purchase settles on the date of the last record of its execution. -/
theorem settlementDate_sample (records : List (LedgerRecord ℚ)) (hdate : date ≠ "") :
    settlementDate ((records ++ [redelivered date]).foldl CanonicalLedger.datesStep .empty)
      (orderEvent soleOrder .fill (some (hundredFilled soleOrder))) (hundredFilled soleOrder) =
        date := by
  have hget : ((records ++ [redelivered date]).foldl CanonicalLedger.datesStep .empty).get?
      (hundredFilled soleOrder).executionId = some date := by
    rw [List.foldl_append, List.foldl_cons, List.foldl_nil]
    simp only [redelivered, fillRecord, eventRecord, orderEvent, CanonicalLedger.datesStep,
      CanonicalLedger.datesAfter, if_neg hdate]
    exact Dict.get?_insert_self _ _ _
  rw [settlementDate, hget, orDefault, if_neg hdate]

theorem lotsOf_boughtOnce (dates : Dict String String) :
    (boughtOnce dates soleOrder).account.lotsOf "600000.SH" =
      [PositionLot.fromFill (hundredFilled soleOrder) (settlementDate dates
        (orderEvent soleOrder .fill (some (hundredFilled soleOrder))) (hundredFilled soleOrder))] :=
  rfl

/-- The chain of one order replays, and so does the longer one, with the lot dated by the last
record. -/
theorem exists_replay_again (hdate : date ≠ "") : ∃ book account other,
    oneOrder.replay "t0" 10000 = .ok (book, account) ∧
      (deliveredAgain date).replay "t0" 10000 = .ok (book, other) ∧
      account.lotsOf "600000.SH" = [PositionLot.fromFill (hundredFilled soleOrder) "2024-01-02"] ∧
      other.lotsOf "600000.SH" = [PositionLot.fromFill (hundredFilled soleOrder) date] := by
  let records := filledRecords "oi_1"
  let dates := records.foldl CanonicalLedger.datesStep .empty
  let dates' := (records ++ [redelivered date]).foldl CanonicalLedger.datesStep .empty
  obtain ⟨opened, filled, -, -, hfill, hbook, -⟩ := exists_filled (.start 10000) "oi_1" dates rfl
    (step_boughtOnce dates soleOrder)
  have hactions : ∀ record ∈ records, orNull record.corporateAction = .null :=
    fun record ↦ corporateAction_filledRecords
  have hholds : filled.Holds soleOrder.orderId (hundredFilled soleOrder) :=
    OrderBook.holds_of_replayRecord (Rebuild.step_ok hfill).1 rfl rfl rfl
  have hagain : CanonicalLedger.replayRecords "t0" .empty (records ++ [redelivered date]) =
      .ok filled := by
    rw [CanonicalLedger.replayRecords_append]
    refine ⟨filled, hbook, ?_⟩
    rw [CanonicalLedger.replayRecords_singleton]
    exact hholds.replayRecord rfl rfl rfl
  have haccount : replayAccount ((records ++ [redelivered date]).filterMap LedgerRecord.event) 10000
      dates' [] = .ok { (boughtOnce dates' soleOrder).account with
        duplicateExecutions := ["ex-1"] } := by
    rw [replayAccount_nil_ok_iff]
    refine ⟨{ boughtOnce dates' soleOrder with duplicates := ["ex-1"] }, ?_, rfl⟩
    rw [List.filterMap_append, Fold.append_iff]
    refine ⟨_, foldlM_filledRecords (step_boughtOnce dates' soleOrder), ?_⟩
    exact (Fold.singleton _ _).trans (step_boughtTwice dates' soleOrder soleOrder)
  refine ⟨filled, _, _, CanonicalLedger.replay_ofRecords hactions hbook
    (replayAccount_nil_ok_iff.mpr
      ⟨_, foldlM_filledRecords (step_boughtOnce dates soleOrder), rfl⟩),
    CanonicalLedger.replay_ofRecords (fun record hrecord ↦ ?_) hagain haccount, ?_, ?_⟩
  · rcases List.mem_append.mp hrecord with hrecord | hrecord
    · exact hactions record hrecord
    · rw [List.mem_singleton.mp hrecord]
      rfl
  · refine (lotsOf_boughtOnce dates).trans ?_
    rw [show dates = (openingRecords (hundredShares "oi_1") (some "2024-01-02") ++
        [redelivered "2024-01-02"]).foldl CanonicalLedger.datesStep .empty from rfl,
      settlementDate_sample _ (by decide)]
  · refine (lotsOf_boughtOnce dates').trans ?_
    rw [settlementDate_sample _ hdate]

end Sample

theorem sameEconomics_of_unmoved_oneOrder : ∃ repeats book, ∃ account : AccountState,
    oneOrder.Redelivers (deliveredAgain "2024-01-02") repeats ∧
    (oneOrder.SamePassage (deliveredAgain "2024-01-02") 10000 ↔
      oneOrder.UnmovedBy (deliveredAgain "2024-01-02") 10000) ∧
    (oneOrder.UnmovedBy (deliveredAgain "2024-01-02") 10000 →
      ∃ other, (deliveredAgain "2024-01-02").replay "t0" 10000 = .ok (book, other) ∧
        account.SameEconomics other) ∧
    ((∀ record ∈ repeats, CanonicalLedger.KeepsDate oneOrder.tradeDates record) →
      oneOrder.UnmovedBy (deliveredAgain "2024-01-02") 10000) := by
  obtain ⟨repeats, hrepeats⟩ := redelivers_oneOrder "2024-01-02"
  obtain ⟨book, account, -, hreplay, -⟩ := exists_replay_again (show "2024-01-02" ≠ "" by decide)
  exact ⟨repeats, book, account, hrepeats,
    CanonicalLedger.sameEconomics_of_unmoved hreplay hrepeats⟩

/-- The same fill on a later date moves the lot to it. -/
theorem not_sameEconomics_deliveredAgain : ∃ repeats book account other,
    oneOrder.replay "t0" 10000 = .ok (book, account) ∧
      oneOrder.Redelivers (deliveredAgain "2024-01-05") repeats ∧
      (deliveredAgain "2024-01-05").replay "t0" 10000 = .ok (book, other) ∧
      other.lots ≠ account.lots := by
  obtain ⟨repeats, hrepeats⟩ := redelivers_oneOrder "2024-01-05"
  obtain ⟨book, account, other, hreplay, hother, hlots, hlots'⟩ :=
    exists_replay_again (show "2024-01-05" ≠ "" by decide)
  refine ⟨repeats, book, account, other, hreplay, hrepeats, hother, fun hsame ↦ ?_⟩
  have hlot : [PositionLot.fromFill (hundredFilled soleOrder) "2024-01-05"] =
      [PositionLot.fromFill (hundredFilled soleOrder) "2024-01-02"] := by
    rw [← hlots, ← hlots', AccountState.lotsOf, AccountState.lotsOf, hsame]
  have hdate := congrArg PositionLot.acquiredOn (List.singleton_inj.mp hlot)
  exact absurd hdate (by decide)

end QuantAgent.Domain
