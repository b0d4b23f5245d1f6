import QuantAgent.Domain.ActionReplay

/-!
# Replaying in the order of the chain

The reader of a chain takes its order events and its corporate actions apart and gives every action
the number of events before it; the replay puts the two streams together again.  What it folds is the
chain itself, record by record, wherever the actions stand.
-/

namespace QuantAgent.Domain

open Library

namespace LedgerRecord

def Brings (record : LedgerRecord ℚ) (action : CorporateAction ℚ) : Prop :=
  record.event = none ∧ orNull record.corporateAction ≠ .null ∧
    CorporateAction.fromDict (orNull record.corporateAction) = some action

end LedgerRecord

namespace AccountReplay

open CanonicalLedger (AccountReplayError)

variable [Hashing ℚ]

/-- Fold one record: its order event, or else its corporate action. -/
def takeRecord (dates : Dict String String) (replay : AccountReplay) (record : LedgerRecord ℚ) :
    Except AccountReplayError AccountReplay :=
  match record.event with
  | some event => (replay.step dates event).mapError .account
  | none =>
    match orNull record.corporateAction with
    | .null => .ok replay
    | payload =>
      match CorporateAction.fromDict payload with
      | none => .error .malformedAction
      | some action =>
        (replay.account.adjust action).mapError .account |>.map fun account ↦
          { replay with account }

def finished (replay : AccountReplay) : AccountState :=
  { replay.account with duplicateExecutions := replay.duplicates }

omit [Hashing ℚ] in
theorem mapError_ok_iff {α ε ε' : Type} {result : Except ε α} {f : ε → ε'} {value : α} :
    result.mapError f = .ok value ↔ result = .ok value := by
  cases result with
  | error error => simp [Except.mapError]
  | ok found => simp [Except.mapError]

variable {dates : Dict String String} {replay after : AccountReplay} {record : LedgerRecord ℚ}

theorem takeRecord_event {event : OrderEvent ℚ} (h : record.event = some event) :
    replay.takeRecord dates record = .ok after ↔ replay.take dates (.event event) = .ok after := by
  rw [takeRecord, h]
  exact mapError_ok_iff

theorem takeRecord_action {action : CorporateAction ℚ} (h : record.Brings action) :
    replay.takeRecord dates record = .ok after ↔
      replay.take dates (.adjustment action) = .ok after := by
  obtain ⟨hevent, hpayload, haction⟩ := h
  rw [takeRecord, hevent, take]
  simp only [haction]
  cases replay.account.adjust action with
  | error violation => simp [Except.mapError, Except.map]
  | ok account => simp [Except.mapError, Except.map]

/-- A record without an event and without an action changes nothing. -/
theorem takeRecord_empty (hevent : record.event = none)
    (hpayload : orNull record.corporateAction = .null) :
    replay.takeRecord dates record = .ok replay := by
  rw [takeRecord, hevent]
  simp only [hpayload]

/-- An action that cannot be read stops the fold. -/
theorem takeRecord_malformed (hevent : record.event = none)
    (hpayload : orNull record.corporateAction ≠ .null)
    (haction : CorporateAction.fromDict (orNull record.corporateAction) = none) :
    replay.takeRecord dates record = .error .malformedAction := by
  rw [takeRecord, hevent]
  simp only [haction]

end AccountReplay

def placed (actions : List (ℤ × CorporateAction ℚ)) (index : ℕ) (events : List (OrderEvent ℚ)) :
    List ReplayInput :=
  scheduleFrom actions index events ++
    ((actions.filter (·.1 = ((index + events.length : ℕ) : ℤ))).map (·.2)).map .adjustment

variable {actions : List (ℤ × CorporateAction ℚ)}

theorem scheduleFrom_cons_of_lt {entry : ℤ × CorporateAction ℚ} {index : ℕ} (h : entry.1 < index)
    (events : List (OrderEvent ℚ)) :
    scheduleFrom (entry :: actions) index events = scheduleFrom actions index events := by
  induction events generalizing index with
  | nil => rfl
  | cons event events ih =>
    have hnext : entry.1 < ((index + 1 : ℕ) : ℤ) := by
      push_cast
      omega
    rw [scheduleFrom, scheduleFrom, ih hnext, List.filter_cons_of_neg (by simp; omega)]

theorem placed_cons (index : ℕ) (action : CorporateAction ℚ)
    (actions : List (ℤ × CorporateAction ℚ)) (events : List (OrderEvent ℚ)) :
    placed (((index : ℤ), action) :: actions) index events =
      .adjustment action :: placed actions index events := by
  cases events with
  | nil =>
    simp [placed, scheduleFrom]
  | cons event events =>
    have hnext : ((index : ℤ), action).1 < ((index + 1 : ℕ) : ℤ) := by simp
    have hlast : ¬ (index : ℤ) = ((index + (event :: events).length : ℕ) : ℤ) := by
      rw [List.length_cons]
      omega
    rw [placed, placed, scheduleFrom, scheduleFrom, scheduleFrom_cons_of_lt hnext,
      List.filter_cons_of_pos (by simp), List.filter_cons_of_neg (by simpa using hlast)]
    rfl

/-- Where no action stands at the index, the event at the index comes first. -/
theorem placed_event {index : ℕ} (h : ∀ entry ∈ actions, ((index + 1 : ℕ) : ℤ) ≤ entry.1)
    (event : OrderEvent ℚ) (events : List (OrderEvent ℚ)) :
    placed actions index (event :: events) = .event event :: placed actions (index + 1) events := by
  have hnone : actions.filter (·.1 = (index : ℤ)) = [] := by
    rw [List.filter_eq_nil_iff]
    intro entry hentry
    have := h entry hentry
    simp only [decide_eq_true_eq]
    omega
  rw [placed, placed, scheduleFrom, hnone, List.length_cons, Nat.add_assoc index 1, Nat.add_comm 1]
  rfl

namespace CanonicalLedger

/-- The corporate actions of a list of records behind a number of order events. -/
def positioned (seen : ℕ) (records : List (LedgerRecord ℚ)) :
    Option (List (ℤ × CorporateAction ℚ)) :=
  (actionsFrom seen records).mapM fun entry ↦
    (CorporateAction.fromDict entry.2).map fun action ↦ ((entry.1 : ℤ), action)

variable {record : LedgerRecord ℚ}

theorem positioned_event {event : OrderEvent ℚ} (h : record.event = some event) (seen : ℕ)
    (records : List (LedgerRecord ℚ)) :
    positioned seen (record :: records) = positioned (seen + 1) records := by
  rw [positioned, actionsFrom, h, positioned]

theorem positioned_empty (hevent : record.event = none)
    (hpayload : orNull record.corporateAction = .null) (seen : ℕ)
    (records : List (LedgerRecord ℚ)) :
    positioned seen (record :: records) = positioned seen records := by
  rw [positioned, actionsFrom, hevent]
  simp only [hpayload]
  rfl

theorem positioned_action (hevent : record.event = none)
    (hpayload : orNull record.corporateAction ≠ .null) (seen : ℕ)
    (records : List (LedgerRecord ℚ)) :
    positioned seen (record :: records) =
      (CorporateAction.fromDict (orNull record.corporateAction)).bind fun action ↦
        (positioned seen records).map fun actions ↦ ((seen : ℤ), action) :: actions := by
  have hfrom : actionsFrom seen (record :: records) =
      (seen, orNull record.corporateAction) :: actionsFrom seen records := by
    rw [actionsFrom, hevent]
    simp only
  rw [positioned, hfrom, List.mapM_cons]
  cases CorporateAction.fromDict (orNull record.corporateAction) with
  | none => rfl
  | some action =>
    rw [Option.map_some, Option.bind_some, positioned]
    cases (actionsFrom seen records).mapM fun entry ↦
        (CorporateAction.fromDict entry.2).map fun action ↦ ((entry.1 : ℤ), action) with
    | none => rfl
    | some actions => rfl

theorem le_of_mem_positioned {seen : ℕ} {records : List (LedgerRecord ℚ)}
    {actions : List (ℤ × CorporateAction ℚ)} (h : positioned seen records = some actions)
    {entry : ℤ × CorporateAction ℚ} (hentry : entry ∈ actions) : (seen : ℤ) ≤ entry.1 := by
  induction records generalizing seen actions with
  | nil =>
    cases h
    cases hentry
  | cons record records ih =>
    cases hevent : record.event with
    | some event =>
      rw [positioned_event hevent] at h
      have hle := ih h hentry
      push_cast at hle
      omega
    | none =>
      by_cases hpayload : orNull record.corporateAction = .null
      · rw [positioned_empty hevent hpayload] at h
        exact ih h hentry
      · rw [positioned_action hevent hpayload] at h
        obtain ⟨action, -, hrest⟩ := Option.bind_eq_some_iff.mp h
        obtain ⟨later, hlater, rfl⟩ := Option.map_eq_some_iff.mp hrest
        rcases List.mem_cons.mp hentry with rfl | hmem
        · exact le_rfl
        · exact ih hlater hmem

variable [Hashing ℚ]

/-- The two streams of a list of records, put together, are folded like the records themselves. -/
theorem foldlM_takeRecord_iff {dates : Dict String String} {replay after : AccountReplay}
    (seen : ℕ) (records : List (LedgerRecord ℚ)) :
    records.foldlM (AccountReplay.takeRecord dates) replay = .ok after ↔
      ∃ actions, positioned seen records = some actions ∧
        (placed actions seen (records.filterMap LedgerRecord.event)).foldlM
          (AccountReplay.take dates) replay = .ok after := by
  induction records generalizing seen replay with
  | nil =>
    have hnone : positioned seen [] = some [] := rfl
    have hplaced : placed [] seen [] = [] := by simp [placed, scheduleFrom]
    simp only [hnone, Option.some.injEq, exists_eq_left', List.filterMap_nil, hplaced,
      List.foldlM_nil, pure, Except.pure, Except.ok.injEq]
  | cons record records ih =>
    rw [Fold.cons_iff]
    cases hevent : record.event with
    | some event =>
      simp only [AccountReplay.takeRecord_event hevent, positioned_event hevent,
        List.filterMap_cons, hevent]
      constructor
      · rintro ⟨between, hstep, hrest⟩
        obtain ⟨actions, hactions, hfold⟩ := (ih (seen + 1)).mp hrest
        refine ⟨actions, hactions, ?_⟩
        rw [placed_event fun entry ↦ le_of_mem_positioned hactions, Fold.cons_iff]
        exact ⟨between, hstep, hfold⟩
      · rintro ⟨actions, hactions, hfold⟩
        rw [placed_event fun entry ↦ le_of_mem_positioned hactions, Fold.cons_iff] at hfold
        obtain ⟨between, hstep, hrest⟩ := hfold
        exact ⟨between, hstep, (ih (seen + 1)).mpr ⟨actions, hactions, hrest⟩⟩
    | none =>
      rw [List.filterMap_cons, hevent]
      by_cases hpayload : orNull record.corporateAction = .null
      · simp only [AccountReplay.takeRecord_empty hevent hpayload,
          positioned_empty hevent hpayload, Except.ok.injEq, exists_eq_left']
        exact ih seen
      · rw [positioned_action hevent hpayload]
        cases haction : CorporateAction.fromDict (orNull record.corporateAction) with
        | none => simp [AccountReplay.takeRecord_malformed hevent hpayload haction]
        | some action =>
          have hbrings : record.Brings action := ⟨hevent, hpayload, haction⟩
          simp only [AccountReplay.takeRecord_action hbrings, Option.bind_some]
          constructor
          · rintro ⟨between, hstep, hrest⟩
            obtain ⟨actions, hactions, hfold⟩ := (ih seen).mp hrest
            refine ⟨_, by rw [hactions, Option.map_some], ?_⟩
            rw [placed_cons, Fold.cons_iff]
            exact ⟨between, hstep, hfold⟩
          · rintro ⟨placements, hplacements, hfold⟩
            obtain ⟨actions, hactions, rfl⟩ := Option.map_eq_some_iff.mp hplacements
            rw [placed_cons, Fold.cons_iff] at hfold
            obtain ⟨between, hstep, hrest⟩ := hfold
            exact ⟨between, hstep, (ih seen).mpr ⟨actions, hactions, hrest⟩⟩

/-- A chain is replayed exactly when it verifies, its orders replay and its records fold. -/
theorem replay_iff_takeRecord {ledger : CanonicalLedger ℚ} {now : String} {initialCash : ℚ}
    {book : OrderBook ℚ} {account : AccountState} :
    ledger.replay now initialCash = .ok (book, account) ↔
      ledger.Valid ∧ replayRecords now .empty ledger.records = .ok book ∧
        ∃ replay, ledger.records.foldlM (AccountReplay.takeRecord ledger.tradeDates)
            (AccountReplay.start initialCash) = .ok replay ∧
          account = replay.finished := by
  have hsame : ledger.corporateActions = positioned 0 ledger.records := rfl
  have hinputs {actions : List (ℤ × CorporateAction ℚ)}
      (hactions : ledger.corporateActions = some actions) :
      ledger.inputs = placed actions 0 (ledger.records.filterMap LedgerRecord.event) := by
    rw [inputs, hactions, Option.getD_some,
      schedule_eq fun entry ↦ corporateActions_bounds hactions, placed, Nat.zero_add]
    rfl
  rw [replay_ok_iff]
  refine and_congr_right fun _ ↦ and_congr_right fun _ ↦ ?_
  constructor
  · rintro ⟨hactions, replay, hfold, rfl⟩
    obtain ⟨actions, hactions⟩ := Option.ne_none_iff_exists'.mp hactions
    rw [hinputs hactions] at hfold
    exact ⟨replay, (foldlM_takeRecord_iff 0 _).mpr ⟨actions, hsame.symm.trans hactions, hfold⟩, rfl⟩
  · rintro ⟨replay, hfold, rfl⟩
    obtain ⟨actions, hactions, hplaced⟩ := (foldlM_takeRecord_iff 0 _).mp hfold
    have hread := hsame.trans hactions
    refine ⟨by simp [hread], replay, ?_, rfl⟩
    rw [hinputs hread, hplaced]

theorem allPositive_of_takeRecord {dates : Dict String String} {replay next : AccountReplay}
    (h : replay.account.AllPositive) (hstep : replay.takeRecord dates record = .ok next) :
    next.account.AllPositive := by
  cases hevent : record.event with
  | some event =>
    exact AccountReplay.allPositive_of_take h ((AccountReplay.takeRecord_event hevent).mp hstep)
  | none =>
    by_cases hpayload : orNull record.corporateAction = .null
    · rw [AccountReplay.takeRecord_empty hevent hpayload] at hstep
      exact Except.ok.inj hstep ▸ h
    · cases haction : CorporateAction.fromDict (orNull record.corporateAction) with
      | none =>
        rw [AccountReplay.takeRecord_malformed hevent hpayload haction] at hstep
        exact absurd hstep (by simp)
      | some action =>
        have hbrings : record.Brings action := ⟨hevent, hpayload, haction⟩
        exact AccountReplay.allPositive_of_take h
          ((AccountReplay.takeRecord_action hbrings).mp hstep)

omit [Hashing ℚ] in
theorem lotsOf_adjust {state after : AccountState} (hpositive : state.AllPositive)
    {action : CorporateAction ℚ} (h : state.adjust action = .ok after) (symbol : String) :
    after.lotsOf symbol = if symbol = action.symbol then
      (state.lotsOf symbol).map (AccountState.adjustedLot action) else state.lotsOf symbol := by
  by_cases hflat : state.lotsOf action.symbol = []
  · rw [AccountState.adjust_of_flat hpositive hflat] at h
    rw [← Except.ok.inj h]
    split
    · rename_i hsymbol
      rw [hsymbol, hflat, List.map_nil]
    · rfl
  · obtain ⟨-, rfl⟩ := (AccountState.adjust_of_held hpositive hflat).mp h
    rw [AccountState.lotsOf_insert state _ rfl symbol]
    split
    · rename_i hsymbol
      rw [hsymbol]
    · rfl

/-- The account is the fold of the records in the order of the chain, and every corporate action is
folded in its place: the lots held there are scaled, whatever stands before and behind it. -/
structure InOrder (ledger : CanonicalLedger ℚ) (initialCash : ℚ) (account : AccountState) :
    Prop where
  sequential : ∃ replay, ledger.records.foldlM (AccountReplay.takeRecord ledger.tradeDates)
    (AccountReplay.start initialCash) = .ok replay ∧ account = replay.finished
  inPlace : ∀ before record after action,
    ledger.records = before ++ record :: after → record.Brings action →
      ∃ held scaled replay,
        before.foldlM (AccountReplay.takeRecord ledger.tradeDates)
          (AccountReplay.start initialCash) = .ok held ∧
        held.account.adjust action = .ok scaled ∧
        (∀ symbol, scaled.lotsOf symbol = if symbol = action.symbol then
          (held.account.lotsOf symbol).map (AccountState.adjustedLot action)
          else held.account.lotsOf symbol) ∧
        after.foldlM (AccountReplay.takeRecord ledger.tradeDates)
          { held with account := scaled } = .ok replay ∧
        account = replay.finished

/-- Whatever chain of order events and corporate actions is replayed, its account is the fold of the
records in their order, with every action in its place. -/
theorem inOrder_of_replay {ledger : CanonicalLedger ℚ} {now : String} {initialCash : ℚ}
    {book : OrderBook ℚ} {account : AccountState}
    (h : ledger.replay now initialCash = .ok (book, account)) :
    ledger.InOrder initialCash account := by
  obtain ⟨-, -, replay, hfold, rfl⟩ := replay_iff_takeRecord.mp h
  refine ⟨⟨replay, hfold, rfl⟩, ?_⟩
  intro before record after action hrecords hbrings
  rw [hrecords, Fold.append_iff] at hfold
  obtain ⟨held, hbefore, hrest⟩ := hfold
  obtain ⟨next, hstep, hafter⟩ := Fold.cons_iff.mp hrest
  have hpositive := Fold.invariant (fun replay ↦ replay.account.AllPositive) (fun _ _ _ _ hheld ↦
    allPositive_of_takeRecord hheld) (fun symbol lot hlot ↦ by cases hlot) hbefore
  have htake := (AccountReplay.takeRecord_action hbrings).mp hstep
  rw [AccountReplay.take] at htake
  cases hadjust : held.account.adjust action with
  | error violation =>
    rw [hadjust] at htake
    exact absurd htake (by simp [Except.map])
  | ok scaled =>
    rw [hadjust] at htake
    cases htake
    exact ⟨held, scaled, replay, hbefore, hadjust, lotsOf_adjust hpositive hadjust, hafter, rfl⟩

end CanonicalLedger

section Sample

variable [Hashing ℚ]

/-- The shares bought become half as many again. -/
theorem exists_adjust_bought (dates : Dict String String) (order : Order ℚ) :
    ∃ after, AccountState.adjust { (boughtOnce dates order).account with duplicateExecutions := [] }
      sampleAction = .ok after := by
  have hlots : AccountState.lotsOf
      { (boughtOnce dates order).account with duplicateExecutions := [] } sampleAction.symbol =
        [PositionLot.fromFill (hundredFilled order) (settlementDate dates
          (orderEvent order .fill (some (hundredFilled order))) (hundredFilled order))] := rfl
  have hpositive : AccountState.AllPositive
      { (boughtOnce dates order).account with duplicateExecutions := [] } := by
    have hopening : (AccountReplay.start 10000).account.AllPositive :=
      fun symbol lot hlot ↦ by cases hlot
    have htake : (AccountReplay.start 10000).take dates
        (.event (orderEvent order .fill (some (hundredFilled order)))) =
          .ok (boughtOnce dates order) := step_boughtOnce dates order
    exact AccountReplay.allPositive_of_take hopening htake
  refine ⟨_, (AccountState.adjust_of_held hpositive (by rw [hlots]; simp)).mpr ⟨?_, rfl⟩⟩
  intro lot hlot
  rw [hlots, List.mem_singleton] at hlot
  have hshares : lot.quantity * sampleAction.shareRatio = ((150 : ℤ) : ℚ) := by
    rw [hlot]
    norm_num [PositionLot.fromFill, hundredFilled, sampleFill, sampleAction]
  have hround : AccountState.adjustedShares sampleAction lot = 150 := by
    rw [AccountState.adjustedShares, hshares, roundHalfEven_intCast]
  rw [AccountState.Fractional, hround, hshares]
  norm_num

end Sample

/-- The chain of one order and a split behind its fill is replayed in order. -/
theorem inOrder_split : ∃ account,
    (oneOrder.withAction "t1" (some "2024-01-03") sampleAction).InOrder 10000 account := by
  obtain ⟨book, hreplay⟩ := exists_book_oneOrder
  obtain ⟨after, hadjust⟩ := exists_adjust_bought oneOrderDates (openedOrder (hundredShares "oi_1"))
  have hsplit : (oneOrder.withAction "t1" (some "2024-01-03") sampleAction).replay "t0" 10000 =
      .ok (book, after) :=
    (CanonicalLedger.replay_withAction (CanonicalLedger.linked_ofRecords _) hreplay
      (by norm_num [sampleAction]) (by norm_num [sampleAction]) book after).mpr ⟨rfl, hadjust⟩
  exact ⟨after, CanonicalLedger.inOrder_of_replay hsplit⟩

end QuantAgent.Domain
