import QuantAgent.Domain.Accounting

/-!
# Replaying the account of a settled chain

In a chain whose executions are all different and dated, every fill settles on the date of its own
record.  The replayed account is then the fold of the fills with their dates, which grows with the
chain record by record.
-/

namespace QuantAgent.Domain

open Library

namespace AccountState

variable [Hashing ℚ]

/-- A purchase or sale leaves the list of repeated executions alone. -/
theorem duplicateExecutions_of_book {state after : AccountState} {fill : Fill ℚ} {date : String}
    (h : state.book fill date = .ok after) :
    after.duplicateExecutions = state.duplicateExecutions := by
  unfold book applyFill at h
  cases hside : fill.side with
  | buy =>
    simp only [hside, bind, Except.bind] at h
    split at h
    · cases h
    · cases h
      rfl
  | sell =>
    simp only [hside, applySell, bind, Except.bind] at h
    split at h
    · cases h
    · rename_i sold hsold
      split at hsold
      · cases hsold
      · cases hsold
        split at h
        · cases h
        · cases h
          rfl

def bookAll (state : AccountState) (bookings : List (Fill ℚ × String)) :
    Except InvariantViolation AccountState :=
  bookings.foldlM (fun state booking ↦ state.book booking.1 booking.2) state

theorem bookAll_append (state after : AccountState) (first second : List (Fill ℚ × String)) :
    state.bookAll (first ++ second) = .ok after ↔
      ∃ between, state.bookAll first = .ok between ∧ between.bookAll second = .ok after := by
  rw [bookAll, List.foldlM_append, ← bookAll]
  cases hfirst : state.bookAll first with
  | error error => simp [bind, Except.bind]
  | ok between => simp [bind, Except.bind, bookAll]

theorem bookAll_singleton (state : AccountState) (booking : Fill ℚ × String) :
    state.bookAll [booking] = state.book booking.1 booking.2 := by
  rw [bookAll, List.foldlM_cons]
  cases state.book booking.1 booking.2 <;> rfl

end AccountState

namespace LedgerRecord

def booking (record : LedgerRecord ℚ) : Option (Fill ℚ × String) :=
  match record.event with
  | some event =>
    if event.eventType.isExecution then event.fill.map fun fill ↦ (fill, record.tradeDate.getD "")
    else none
  | none => none

/-- An order event that carries a fill exactly when it is an execution, and then a date. -/
structure Settled (record : LedgerRecord ℚ) : Prop where
  present : record.event ≠ none
  fill : ∀ event, record.event = some event → (event.eventType.isExecution ↔ event.fill ≠ none)
  dated : ∀ event fill, record.event = some event → event.fill = some fill →
    ∃ date, record.tradeDate = some date ∧ date ≠ ""

/-- A settled record either books nothing and carries no fill, or books its fill on its date. -/
theorem Settled.cases {record : LedgerRecord ℚ} (h : record.Settled) :
    ∃ event, record.event = some event ∧
      ((event.eventType.isExecution = false ∧ event.fill = none ∧ record.booking = none) ∨
        ∃ fill date, event.eventType.isExecution = true ∧ event.fill = some fill ∧
          record.tradeDate = some date ∧ date ≠ "" ∧ record.booking = some (fill, date)) := by
  obtain ⟨event, hevent⟩ := Option.ne_none_iff_exists'.mp h.present
  refine ⟨event, hevent, ?_⟩
  have hiff := h.fill event hevent
  cases hfill : event.fill with
  | none =>
    left
    have hkind : event.eventType.isExecution = false := by simpa [hfill] using hiff
    exact ⟨hkind, rfl, by simp [booking, hevent, hkind]⟩
  | some fill =>
    right
    have hkind : event.eventType.isExecution = true := by simpa [hfill] using hiff
    obtain ⟨date, hdate, hne⟩ := h.dated event fill hevent hfill
    exact ⟨fill, date, hkind, rfl, hdate, hne, by simp [booking, hevent, hkind, hfill, hdate]⟩

end LedgerRecord

def bookings (records : List (LedgerRecord ℚ)) : List (Fill ℚ × String) :=
  records.filterMap LedgerRecord.booking

def executionIds (records : List (LedgerRecord ℚ)) : List String :=
  (bookings records).map fun booking ↦ booking.1.executionId

theorem bookings_append (first second : List (LedgerRecord ℚ)) :
    bookings (first ++ second) = bookings first ++ bookings second :=
  List.filterMap_append

theorem executionIds_append (first second : List (LedgerRecord ℚ)) :
    executionIds (first ++ second) = executionIds first ++ executionIds second := by
  simp [executionIds, bookings_append]

/-- Every record settled, and every execution a different one. -/
structure SettledChain (records : List (LedgerRecord ℚ)) : Prop where
  settled : ∀ record ∈ records, record.Settled
  distinct : (executionIds records).Nodup

theorem settledChain_nil : SettledChain [] where
  settled _ h := by cases h
  distinct := List.nodup_nil

variable {records : List (LedgerRecord ℚ)}

/-- One more settled record with a new execution, or with none. -/
theorem SettledChain.push (h : SettledChain records) {record : LedgerRecord ℚ}
    (hrecord : record.Settled)
    (hnew : ∀ fill date, record.booking = some (fill, date) → fill.executionId ∉ executionIds
      records) : SettledChain (records ++ [record]) where
  settled other hother := by
    rcases List.mem_append.mp hother with hother | hother
    · exact h.settled other hother
    · rw [List.mem_singleton.mp hother]
      exact hrecord
  distinct := by
    rw [executionIds_append]
    refine List.Nodup.append h.distinct ?_ ?_
    · cases hbooking : record.booking <;> simp [executionIds, bookings, hbooking]
    · intro id hid hlast
      cases hbooking : record.booking with
      | none => simp [executionIds, bookings, hbooking] at hlast
      | some booking =>
        simp only [executionIds, bookings, List.filterMap_cons, hbooking, List.filterMap_nil,
          List.map_cons, List.map_nil, List.mem_singleton] at hlast
        rw [hlast] at hid
        exact hnew booking.1 booking.2 hbooking hid

open CanonicalLedger (datesStep datesAfter)

variable {dates : Dict String String} {key date : String}

/-- A date that was stored stays, unless the same execution is recorded again. -/
theorem get?_datesStep {record : LedgerRecord ℚ} (hrecord : record.Settled)
    (hget : dates.get? key = some date)
    (hother : ∀ fill date, record.booking = some (fill, date) → fill.executionId ≠ key) :
    (datesStep dates record).get? key = some date := by
  obtain ⟨event, hevent, ⟨-, hfill, -⟩ | ⟨fill, date', -, hfill, hdate, -, hbooking⟩⟩ := hrecord.cases
  · simp only [datesStep, hevent, datesAfter, hfill]
    split
    · exact hget
    · split
      · exact hget
      · split
        · exact hget
        · rename_i hnone
          rw [Dict.get?_insert_of_ne _ (fun heq ↦ ?_), hget]
          rw [heq, hnone] at hget
          cases hget
  · simp only [datesStep, hevent, datesAfter, hfill, hdate]
    split
    · exact hget
    · rw [Dict.get?_insert_of_ne _ (Ne.symm (hother fill date' hbooking)), hget]

theorem get?_foldl_datesStep (hrecords : ∀ record ∈ records, record.Settled)
    (hget : dates.get? key = some date) (hkey : key ∉ executionIds records) :
    (records.foldl datesStep dates).get? key = some date := by
  induction records generalizing dates with
  | nil => exact hget
  | cons record records ih =>
    have hsplit := executionIds_append [record] records
    rw [List.singleton_append] at hsplit
    rw [hsplit, List.mem_append, not_or] at hkey
    rw [List.foldl_cons]
    refine ih (fun other h ↦ hrecords other (List.mem_cons_of_mem _ h)) ?_ hkey.2
    refine get?_datesStep (hrecords record List.mem_cons_self) hget ?_
    intro fill date' hbooking heq
    refine hkey.1 ?_
    simp [executionIds, bookings, hbooking, heq]

/-- In a settled chain every execution is dated by its own record. -/
theorem get?_dates_of_settled (h : SettledChain records) {fill : Fill ℚ}
    (hmem : (fill, date) ∈ bookings records) (dates : Dict String String) :
    (records.foldl datesStep dates).get? fill.executionId = some date := by
  induction records generalizing dates with
  | nil => simp [bookings] at hmem
  | cons record records ih =>
    have hsplit := executionIds_append [record] records
    rw [List.singleton_append] at hsplit
    have hdistinct := h.distinct
    rw [hsplit] at hdistinct
    have hrest : SettledChain records :=
      ⟨fun other hother ↦ h.settled other (List.mem_cons_of_mem _ hother),
        hdistinct.of_append_right⟩
    rw [List.foldl_cons]
    obtain ⟨event, hevent, ⟨-, -, hnone⟩ | ⟨given, date', -, hfill, hdate, hne, hbooking⟩⟩ :=
      (h.settled record List.mem_cons_self).cases
    · rw [bookings, List.filterMap_cons, hnone] at hmem
      exact ih hrest hmem _
    · rw [bookings, List.filterMap_cons, hbooking] at hmem
      rcases List.mem_cons.mp hmem with heq | hmem
      · cases heq
        have hstored : (datesStep dates record).get? fill.executionId = some date := by
          simp only [datesStep, hevent, datesAfter, hfill, hdate, if_neg hne]
          exact Dict.get?_insert_self _ _ _
        refine get?_foldl_datesStep hrest.settled hstored ?_
        refine List.disjoint_of_nodup_append hdistinct ?_
        simp [executionIds, bookings, hbooking]
      · exact ih hrest hmem _

variable [Hashing ℚ]

theorem run_of_settled (h : SettledChain records)
    (hdates : ∀ fill date, (fill, date) ∈ bookings records → dates.get? fill.executionId = some
      date) {replay : AccountReplay} (index : ℕ)
    (hnew : ∀ id ∈ executionIds records, replay.applied.get? id = none) :
    (AccountReplay.run dates [] index replay (records.filterMap LedgerRecord.event)).map
        (fun replay' ↦ (replay'.account, replay'.duplicates)) =
      (replay.account.bookAll (bookings records)).map fun account ↦
        (account, replay.duplicates) := by
  induction records generalizing replay index with
  | nil => rfl
  | cons record records ih =>
    have hsplit := executionIds_append [record] records
    rw [List.singleton_append] at hsplit
    have hdistinct := h.distinct
    rw [hsplit] at hdistinct hnew
    have hrest : SettledChain records :=
      ⟨fun other hother ↦ h.settled other (List.mem_cons_of_mem _ hother),
        hdistinct.of_append_right⟩
    obtain ⟨event, hevent, ⟨hkind, -, hnone⟩ | ⟨fill, date, hkind, hfill, hdate, hne, hbooking⟩⟩ :=
      (h.settled record List.mem_cons_self).cases
    · have hbookings : bookings (record :: records) = bookings records := by
        rw [bookings, List.filterMap_cons, hnone]
        rfl
      have hstep : replay.step dates event = .ok replay := by simp [AccountReplay.step, hkind]
      rw [hbookings] at hdates ⊢
      rw [List.filterMap_cons, hevent]
      simp only [AccountReplay.run, AccountReplay.adjustAll, List.filter_nil, List.map_nil,
        List.foldlM_nil, bind, Except.bind, pure, Except.pure, hstep]
      exact ih hrest hdates (index + 1) fun id hid ↦ hnew id (List.mem_append_right _ hid)
    · have hbookings : bookings (record :: records) = (fill, date) :: bookings records := by
        rw [bookings, List.filterMap_cons, hbooking]
        rfl
      have hid : fill.executionId ∈ executionIds [record] := by
        simp [executionIds, bookings, hbooking]
      have hsettles : settlementDate dates event fill = date := by
        rw [settlementDate, hdates fill date (by rw [hbookings]; exact List.mem_cons_self),
          orDefault, if_neg hne]
      have hstep : replay.step dates event = (replay.account.book fill date).map fun account ↦
            { replay with account, applied := replay.applied.insert fill.executionId fill } := by
        simp only [AccountReplay.step, hkind, if_true, hfill,
          hnew _ (List.mem_append_left _ hid), hsettles]
        rfl
      rw [List.filterMap_cons, hevent, hbookings, AccountState.bookAll, List.foldlM_cons]
      simp only [AccountReplay.run, AccountReplay.adjustAll, List.filter_nil, List.map_nil,
        List.foldlM_nil, bind, Except.bind, pure, Except.pure, hstep]
      cases replay.account.book fill date with
      | error violation => rfl
      | ok account =>
        refine ih hrest (fun other otherDate hother ↦ hdates other otherDate ?_) (index + 1) ?_
        · rw [hbookings]
          exact List.mem_cons_of_mem _ hother
        · intro id hother
          have hne' : id ≠ fill.executionId := by
            rintro rfl
            exact List.disjoint_of_nodup_append hdistinct hid hother
          simp only
          rw [Dict.get?_insert_of_ne _ hne']
          exact hnew id (List.mem_append_right _ hother)

omit [Hashing ℚ] in
theorem duplicateExecutions_of_bookAll [Hashing ℚ] {state after : AccountState}
    {bookings : List (Fill ℚ × String)} (h : state.bookAll bookings = .ok after) :
    after.duplicateExecutions = state.duplicateExecutions := by
  induction bookings generalizing state with
  | nil =>
    cases h
    rfl
  | cons booking bookings ih =>
    obtain ⟨between, hfirst, hrest⟩ := (AccountState.bookAll_append state after [booking] _).mp h
    rw [AccountState.bookAll_singleton] at hfirst
    rw [ih hrest, AccountState.duplicateExecutions_of_book hfirst]

theorem replayAccount_of_settled {ledger : CanonicalLedger ℚ} (h : SettledChain ledger.records)
    (initialCash : ℚ) :
    replayAccount ledger.events initialCash ledger.tradeDates [] =
      (AccountState.opening initialCash).bookAll (bookings ledger.records) := by
  let start : AccountReplay := ⟨.opening initialCash, .empty, []⟩
  have hrun : (AccountReplay.run ledger.tradeDates [] 0 start ledger.events).map
      (fun replay ↦ (replay.account, replay.duplicates)) =
        (start.account.bookAll (bookings ledger.records)).map fun account ↦
          (account, start.duplicates) :=
    run_of_settled h (fun fill date hmem ↦ get?_dates_of_settled h hmem .empty) 0
      fun id _ ↦ Dict.get?_empty id
  have hreplay : replayAccount ledger.events initialCash ledger.tradeDates [] =
      (AccountReplay.run ledger.tradeDates [] 0 start ledger.events).map fun replay ↦
        { replay.account with duplicateExecutions := replay.duplicates } := by
    rw [replayAccount]
    cases AccountReplay.run ledger.tradeDates [] 0 start ledger.events with
    | error violation => rfl
    | ok replay => simp [AccountReplay.adjustAll, bind, Except.bind, pure, Except.pure, Except.map]
  rw [hreplay]
  cases hbooked : start.account.bookAll (bookings ledger.records) with
  | error violation =>
    rw [hbooked] at hrun
    cases hstate : AccountReplay.run ledger.tradeDates [] 0 start ledger.events with
    | error other =>
      rw [hstate] at hrun
      cases hrun
      rfl
    | ok replay =>
      rw [hstate] at hrun
      cases hrun
  | ok account =>
    rw [hbooked] at hrun
    have hduplicates : account.duplicateExecutions = [] := duplicateExecutions_of_bookAll hbooked
    cases hstate : AccountReplay.run ledger.tradeDates [] 0 start ledger.events with
    | error other =>
      rw [hstate] at hrun
      cases hrun
    | ok replay =>
      rw [hstate] at hrun
      obtain ⟨haccount, hsame⟩ := Prod.mk.inj (Except.ok.inj hrun)
      simp only [Except.map, haccount, hsame, start, Except.ok.injEq]
      rw [← hduplicates]

end QuantAgent.Domain
