import QuantAgent.Domain.AccountSchedule
import QuantAgent.Domain.MirrorReplay
import QuantAgent.Domain.OrderLifecycle

/-!
# Chains from records

Given records can be chained: each is sealed with the digest behind its predecessor's.  Only the
verification reads the hashes, so a sealed chain replays like its records.
-/

namespace QuantAgent.Domain

open Library

section Chain

variable {N : Type} [Arithmetic N] [Hashing N]

/-- The records with the hashes of a chain behind a given one. -/
def sealRecords (previous : String) : List (LedgerRecord N) → List (LedgerRecord N)
  | [] => []
  | record :: rest =>
    let recordHash := digest previous record.body.toDict
    { record with previousHash := previous, recordHash } :: sealRecords recordHash rest

namespace CanonicalLedger

/-- The ledger that holds given records as a chain. -/
def ofRecords (records : List (LedgerRecord N)) : CanonicalLedger N where
  records := sealRecords genesisHash records
  head := ((sealRecords genesisHash records).getLast?.map LedgerRecord.recordHash).getD genesisHash
  tornTail := false
  writeFailure := none
  durable := false

section

omit [Arithmetic N]

/-- A sealed chain verifies up to its last digest. -/
theorem verifyFrom_seal (previous : String) (index : ℕ) (records : List (LedgerRecord N)) :
    verifyFrom previous index (sealRecords previous records) =
      .ok (((sealRecords previous records).getLast?.map LedgerRecord.recordHash).getD previous) := by
  induction records generalizing previous index with
  | nil => rfl
  | cons record records ih =>
    rw [sealRecords, verifyFrom, if_pos ⟨rfl, rfl⟩, ih, List.getLast?_cons]
    cases (sealRecords (digest previous record.body.toDict) records).getLast? <;> rfl

theorem linked_ofRecords (records : List (LedgerRecord N)) : (ofRecords records).Linked :=
  verifyFrom_seal genesisHash 0 records

theorem filterMap_seal {α : Type} {f : LedgerRecord N → Option α}
    (hf : ∀ record previousHash recordHash, f { record with previousHash, recordHash } = f record)
    (previous : String) (records : List (LedgerRecord N)) :
    (sealRecords previous records).filterMap f = records.filterMap f := by
  induction records generalizing previous with
  | nil => rfl
  | cons record records ih =>
    rw [sealRecords, List.filterMap_cons, List.filterMap_cons, hf, ih]

theorem foldl_seal {σ : Type} {f : σ → LedgerRecord N → σ}
    (hf : ∀ s record previousHash recordHash,
      f s { record with previousHash, recordHash } = f s record)
    (previous : String) (s : σ) (records : List (LedgerRecord N)) :
    (sealRecords previous records).foldl f s = records.foldl f s := by
  induction records generalizing previous s with
  | nil => rfl
  | cons record records ih =>
    rw [sealRecords, List.foldl_cons, List.foldl_cons, hf, ih]

end

theorem replayRecords_seal (now previous : String) (book : OrderBook N)
    (records : List (LedgerRecord N)) :
    replayRecords now book (sealRecords previous records) = replayRecords now book records := by
  induction records generalizing previous book with
  | nil => rfl
  | cons record records ih =>
    have hrecord : replayRecord now book { record with
        previousHash := previous
        recordHash := digest previous record.body.toDict } = replayRecord now book record := rfl
    rw [sealRecords, replayRecords, replayRecords, List.foldlM_cons, List.foldlM_cons, hrecord]
    congr 1
    funext between
    exact ih _ between

end CanonicalLedger

end Chain

namespace CanonicalLedger

variable [Hashing ℚ]

variable {records : List (LedgerRecord ℚ)}

omit [Hashing ℚ] in
theorem actionsFrom_eq_nil (seen : ℕ)
    (h : ∀ record ∈ records, orNull record.corporateAction = .null) :
    actionsFrom seen records = [] := by
  induction records generalizing seen with
  | nil => rfl
  | cons record records ih =>
    have hrest := fun seen ↦ ih seen fun other hother ↦ h other (List.mem_cons_of_mem _ hother)
    rw [actionsFrom, h record (List.mem_cons_self ..)]
    cases record.event with
    | none => exact hrest seen
    | some event => exact hrest (seen + 1)

theorem corporateActions_ofRecords (h : ∀ record ∈ records, orNull record.corporateAction = .null) :
    (ofRecords records).corporateActions = some [] := by
  have hsealed : ∀ previous, ∀ record ∈ sealRecords previous records,
      orNull record.corporateAction = .null := by
    induction records with
    | nil =>
      intro previous record hrecord
      cases hrecord
    | cons head records ih =>
      intro previous record hrecord
      rw [sealRecords] at hrecord
      rcases List.mem_cons.mp hrecord with rfl | hrest
      · exact h head (List.mem_cons_self ..)
      · exact ih (fun other hother ↦ h other (List.mem_cons_of_mem _ hother)) _ record hrest
  rw [corporateActions, ofRecords, actionsFrom_eq_nil 0 (hsealed _)]
  rfl

/-- A sealed chain without corporate actions replays like its records. -/
theorem replay_ofRecords {now : String} {initialCash : ℚ} {book : OrderBook ℚ}
    {account : AccountState} (hactions : ∀ record ∈ records, orNull record.corporateAction = .null)
    (hbook : replayRecords now .empty records = .ok book)
    (haccount : replayAccount (records.filterMap LedgerRecord.event) initialCash (records.foldl
      datesStep .empty) [] = .ok account) :
    (ofRecords records).replay now initialCash = .ok (book, account) := by
  have hverify := linked_ofRecords records
  rw [Linked] at hverify
  have hevents : (ofRecords records).events = records.filterMap LedgerRecord.event :=
    filterMap_seal (fun _ _ _ ↦ rfl) _ _
  have hdates : (ofRecords records).tradeDates = records.foldl datesStep .empty :=
    foldl_seal (fun _ _ _ _ ↦ rfl) _ _ _
  have hreplayBook : (ofRecords records).replayBook now = .ok book := by
    rw [replayBook, hverify]
    exact (replayRecords_seal now genesisHash .empty records).trans hbook
  rw [replay, hreplayBook, corporateActions_ofRecords hactions, hevents, hdates]
  simp only [haccount]

end CanonicalLedger

section Life

variable [Hashing ℚ]

def orderEvent (order : Order ℚ) (kind : OrderEventType) (fill : Option (Fill ℚ)) : OrderEvent ℚ where
  eventType := kind
  orderId := order.orderId
  sequence := 0
  eventTime := "t0"
  fill
  reason := none
  riskDecision := none
  lineage := order.lineage

def eventRecord (event : OrderEvent ℚ) (tradeDate : Option String) (intent : Json ℚ) :
    LedgerRecord ℚ where
  sequence := 0
  recordedAt := "t0"
  previousHash := ""
  recordHash := ""
  event := some event
  tradeDate
  corporateAction := .null
  intent

def openedOrder (intent : OrderIntent ℚ) : Order ℚ := Order.fromIntent intent.kept none

def acceptedOrder (intent : OrderIntent ℚ) : Order ℚ :=
  (((openedOrder intent).afterEvent .riskApproved none).afterEvent .submitted none).afterEvent
    .accepted none

/-- The records that open an order and take it to the venue. -/
def openingRecords (intent : OrderIntent ℚ) (tradeDate : Option String) : List (LedgerRecord ℚ) :=
  [eventRecord (orderEvent (openedOrder intent) .created none) tradeDate (intentToDict intent),
    eventRecord (orderEvent (openedOrder intent) .riskApproved none) tradeDate .null,
    eventRecord (orderEvent (openedOrder intent) .submitted none) tradeDate .null,
    eventRecord (orderEvent (openedOrder intent) .accepted none) tradeDate .null]

def fillRecord (order : Order ℚ) (fill : Fill ℚ) (tradeDate : Option String) : LedgerRecord ℚ :=
  eventRecord (orderEvent order .fill (some fill)) tradeDate .null

open CanonicalLedger (replayRecord replayRecords)

variable {book : OrderBook ℚ} {order held : Order ℚ}

variable (now : String) (tradeDate : Option String)

theorem replayRecord_of_some {updated : Order ℚ} {kind : OrderEventType} {fill : Option (Fill ℚ)}
    (hget : book.orders.get? order.orderId = some held) (hkind : kind ≠ .created)
    (hadvance : held.apply kind fill none = .ok (some updated)) :
    ∃ after, replayRecord now book (eventRecord (orderEvent order kind fill) tradeDate .null) =
        .ok after ∧ after.orders.get? order.orderId = some updated ∧
      ∀ other, other ≠ order.orderId → after.orders.get? other = book.orders.get? other := by
  obtain ⟨after, happly, horders⟩ := OrderBook.apply_of_some hget hadvance none now
  refine ⟨after, (CanonicalLedger.replayRecord_event rfl hkind).mpr ⟨updated, happly⟩, ?_, ?_⟩
  · rw [horders, Dict.get?_insert_self]
  · intro other hne
    rw [horders, Dict.get?_insert_of_ne _ hne]

theorem replayRecord_status (kind : OrderEventType) (tradeDate : Option String)
    (hget : book.orders.get? order.orderId = some held) (hcreated : kind ≠ .created)
    (hkind : kind.isExecution = false) (htarget : kind.targetStatus ≠ .rejected)
    (hallowed : kind.targetStatus ∈ allowedTransitions held.status) :
    ∃ after, replayRecord now book (eventRecord (orderEvent order kind none) tradeDate .null) =
        .ok after ∧ after.orders.get? order.orderId = some (held.afterEvent kind none) ∧
      ∀ other, other ≠ order.orderId → after.orders.get? other = book.orders.get? other :=
  replayRecord_of_some now tradeDate hget hcreated
    (Order.apply_event hkind htarget hallowed none none)

variable {intent : OrderIntent ℚ}

theorem exists_replayRecords_opening (hnew : book.orders.get? (openedOrder intent).orderId = none) :
    ∃ after, replayRecords now book (openingRecords intent tradeDate) = .ok after ∧
      after.orders.get? (openedOrder intent).orderId = some (acceptedOrder intent) ∧
      ∀ other, other ≠ (openedOrder intent).orderId →
        after.orders.get? other = book.orders.get? other := by
  have hcreated : replayRecord now book (eventRecord (orderEvent (openedOrder intent) .created none)
      tradeDate (intentToDict intent)) = .ok (book.openOrder intent.kept none now).1 := by
    have hparent : (openedOrder intent).lineage.get .parentOrderId = none := by
      simp [openedOrder, Order.fromIntent]
    rw [CanonicalLedger.replayRecord_created rfl rfl rfl]
    simp only [orderEvent, hparent]
  have hopened : (book.openOrder intent.kept none now).1.orders =
      book.orders.insert (openedOrder intent).orderId (openedOrder intent) :=
    OrderBook.orders_openOrder now hnew
  have hget : (book.openOrder intent.kept none now).1.orders.get? (openedOrder intent).orderId =
      some (openedOrder intent) := by
    rw [hopened, Dict.get?_insert_self]
  obtain ⟨approved, happroved, hgetApproved, hkeepsApproved⟩ :=
    replayRecord_status now .riskApproved tradeDate hget (by decide) rfl (by decide)
      (show OrderStatus.approved ∈ allowedTransitions .pendingRisk by decide)
  obtain ⟨submitted, hsubmitted, hgetSubmitted, hkeepsSubmitted⟩ :=
    replayRecord_status now .submitted tradeDate hgetApproved (by decide) rfl (by decide)
      (show OrderStatus.submitted ∈ allowedTransitions .approved by decide)
  obtain ⟨accepted, haccepted, hgetAccepted, hkeepsAccepted⟩ :=
    replayRecord_status now .accepted tradeDate hgetSubmitted (by decide) rfl (by decide)
      (show OrderStatus.accepted ∈ allowedTransitions .submitted by decide)
  refine ⟨accepted, ?_, hgetAccepted, fun other hne ↦ ?_⟩
  · rw [openingRecords, replayRecords, Fold.cons_iff]
    refine ⟨_, hcreated, ?_⟩
    rw [Fold.cons_iff]
    refine ⟨_, happroved, ?_⟩
    rw [Fold.cons_iff]
    refine ⟨_, hsubmitted, ?_⟩
    rw [Fold.singleton, haccepted]
  · rw [hkeepsAccepted other hne, hkeepsSubmitted other hne, hkeepsApproved other hne, hopened,
      Dict.get?_insert_of_ne _ hne]

variable {fill : Fill ℚ}

theorem replayRecord_fill (hget : book.orders.get? order.orderId = some held)
    (haccepts : held.Accepts fill) :
    ∃ after, replayRecord now book (fillRecord order fill tradeDate) = .ok after ∧
      after.orders.get? order.orderId = some (held.afterFill fill) ∧
      ∀ other, other ≠ order.orderId → after.orders.get? other = book.orders.get? other :=
  replayRecord_of_some now tradeDate hget (by decide)
    ((Order.apply_execution_iff rfl).mpr ⟨haccepts, rfl⟩)

/-- An accepted order takes any new fill that fits. -/
theorem acceptedOrder_accepts (h : fill.quantity ≤ truncate intent.quantity) :
    (acceptedOrder intent).Accepts fill := by
  refine (Order.accepts_iff _ _).mpr ⟨rfl, rfl, ?_⟩
  have hfilled : (acceptedOrder intent).filledQuantity = 0 := rfl
  rw [hfilled, zero_add]
  exact h

variable {dates : Dict String String}

theorem AccountReplay.step_of_not_execution (replay : AccountReplay) {event : OrderEvent ℚ}
    (h : event.eventType.isExecution = false) :
    replay.step dates event = .ok replay := by
  simp [AccountReplay.step, h]

theorem foldlM_step_opening (replay : AccountReplay) (intent : OrderIntent ℚ)
    (tradeDate : Option String) :
    ((openingRecords intent tradeDate).filterMap LedgerRecord.event).foldlM
      (AccountReplay.step dates) replay = .ok replay := by
  have hskip : ∀ kind, kind.isExecution = false →
      replay.step dates (orderEvent (openedOrder intent) kind none) = .ok replay :=
    fun kind hkind ↦ replay.step_of_not_execution hkind
  simp only [openingRecords, eventRecord, List.filterMap_cons, List.filterMap_nil]
  rw [Fold.cons_iff]
  refine ⟨replay, hskip _ rfl, ?_⟩
  rw [Fold.cons_iff]
  refine ⟨replay, hskip _ rfl, ?_⟩
  rw [Fold.cons_iff]
  refine ⟨replay, hskip _ rfl, ?_⟩
  rw [Fold.singleton, hskip _ rfl]

end Life

end QuantAgent.Domain
