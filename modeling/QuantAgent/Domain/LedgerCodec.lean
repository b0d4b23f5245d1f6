import QuantAgent.Domain.Ledger

/-!
# What a record keeps of an event

Reading back what was just written is not the identity: empty lineage links are dropped, numbers
are converted, and a missing decider gets a name.  An event is `Storable` when none of this touches
it.  The chain verifies exactly for storable events, because the digest is taken over what was
given and recomputed over what was kept.
-/

namespace QuantAgent.Domain

open Library

variable {N : Type} [Number N]

/-- A number that `float(x or 0.0)` leaves alone. -/
def IsFee (x : N) : Prop := Number.toFloat (Number.orZero x) = some x

structure Fill.Storable (fill : Fill N) : Prop where
  quantity : Number.toInt fill.quantity = fill.quantity
  price : Number.toFloat fill.price = some fill.price
  commission : IsFee fill.commission
  stampDuty : IsFee fill.stampDuty
  transferFee : IsFee fill.transferFee
  lineage : fill.lineage.NoEmptyLink

omit [Number N] in
structure RiskDecision.Storable (decision : RiskDecision N) : Prop where
  decidedBy : decision.decidedBy ≠ ""
  lineage : decision.lineage.NoEmptyLink

structure OrderEvent.Storable (event : OrderEvent N) : Prop where
  sequence : Number.toInt event.sequence = event.sequence
  fill : ∀ fill, event.fill = some fill → fill.Storable
  riskDecision : ∀ decision, event.riskDecision = some decision → decision.Storable
  lineage : event.lineage.NoEmptyLink

def Fill.stored (fill : Fill N) : Option (Fill N) := do
  let price ← Number.toFloat fill.price
  let commission ← Number.toFloat (Number.orZero fill.commission)
  let stampDuty ← Number.toFloat (Number.orZero fill.stampDuty)
  let transferFee ← Number.toFloat (Number.orZero fill.transferFee)
  some { fill with
    quantity := Number.toInt fill.quantity
    price, commission, stampDuty, transferFee
    lineage := fill.lineage.compact }

omit [Number N] in
def RiskDecision.stored (decision : RiskDecision N) : RiskDecision N :=
  { decision with
    decidedBy := orDefault (some decision.decidedBy) "risk_engine"
    lineage := decision.lineage.compact }

/-- What a record keeps of a fill that may be missing. -/
def storedFill : Option (Fill N) → Option (Option (Fill N))
  | none => some none
  | some fill => fill.stored.map some

def OrderEvent.stored (event : OrderEvent N) : Option (OrderEvent N) := do
  let fill ← storedFill event.fill
  some { event with
    sequence := Number.toInt event.sequence
    fill
    riskDecision := event.riskDecision.map RiskDecision.stored
    lineage := event.lineage.compact }

/-- What a record keeps of an event that may be missing. -/
def storedEvent : Option (OrderEvent N) → Option (Option (OrderEvent N))
  | none => some none
  | some event => event.stored.map some

omit [Number N] in
@[simp]
theorem orDefault_empty (value : String) : orDefault (some value) "" = value := by
  by_cases h : value = "" <;> simp [orDefault, h]

theorem fillFromDict_fillToDict (fill : Fill N) : fillFromDict (fillToDict fill) = fill.stored := by
  have hlineage := Lineage.fromMapping_asDict (N := N) fill.lineage
  simp only [fillFromDict, fillToDict, requiredStr, requiredNum, getStr, feeOf, getNum, Json.get?,
    List.reverse_cons, List.reverse_nil, List.nil_append, List.cons_append, List.lookup_cons, String.reduceBEq]
  simp only [Option.bind_eq_bind, Option.bind_some, Side.ofValue_value, orDefault_empty,
    Option.map_some, Option.getD_some, Fill.stored, hlineage]
  cases fill.referencePrice <;> rfl

omit [Number N] in
theorem riskFromDict_riskToDict (decision : RiskDecision N) :
    riskFromDict (riskToDict decision) = some decision.stored := by
  have hlineage := Lineage.fromMapping_asDict (N := N) decision.lineage
  simp only [riskFromDict, riskToDict, requiredStr, getStr, getJson, Json.get?,
    List.reverse_cons, List.reverse_nil, List.nil_append, List.cons_append, List.lookup_cons, String.reduceBEq]
  simp only [Option.bind_eq_bind, Option.bind_some, orDefault_empty, Option.getD_some,
    RiskDecision.stored, hlineage]

theorem optionalMapping_fill (fill : Option (Fill N)) :
    optionalMapping fillFromDict ((fill.map fillToDict).getD .null) = storedFill fill := by
  cases fill with
  | none => rfl
  | some fill =>
    have h := fillFromDict_fillToDict fill
    simp only [Option.map_some, Option.getD_some, storedFill, ← h]
    rfl

omit [Number N] in
theorem optionalMapping_risk (decision : Option (RiskDecision N)) :
    optionalMapping riskFromDict ((decision.map riskToDict).getD .null) =
      some (decision.map RiskDecision.stored) := by
  cases decision with
  | none => rfl
  | some decision =>
    have h := riskFromDict_riskToDict decision
    have hmapping : optionalMapping riskFromDict (riskToDict decision) =
        (riskFromDict (riskToDict decision)).map some := rfl
    simp only [Option.map_some, Option.getD_some, hmapping, h]

theorem eventFromDict_eventToDict (event : OrderEvent N) :
    eventFromDict (eventToDict event) = event.stored := by
  have hlineage := Lineage.fromMapping_asDict (N := N) event.lineage
  have hfill := optionalMapping_fill event.fill
  have hrisk := optionalMapping_risk event.riskDecision
  simp only [eventFromDict, eventToDict, requiredStr, requiredNum, getStr, getJson, Json.get?,
    List.reverse_cons, List.reverse_nil, List.nil_append, List.cons_append, List.lookup_cons, String.reduceBEq]
  simp only [Option.bind_eq_bind, Option.bind_some, OrderEventType.ofValue_value,
    Option.getD_some, hfill, hrisk, hlineage, OrderEvent.stored]
  cases event.reason <;> rfl

theorem optionalMapping_event (event : Option (OrderEvent N)) :
    optionalMapping eventFromDict ((event.map eventToDict).getD .null) = storedEvent event := by
  cases event with
  | none => rfl
  | some event =>
    have h := eventFromDict_eventToDict event
    simp only [Option.map_some, Option.getD_some, storedEvent, ← h]
    rfl

/-- The record made of an entry: the event as it is kept, everything else as it was given. -/
def Entry.record (entry : Entry N) (length : ℕ) (recordedAt previous hash : String)
    (kept : Option (OrderEvent N)) : LedgerRecord N where
  sequence := Number.natCast length
  recordedAt
  previousHash := previous
  recordHash := hash
  event := kept
  tradeDate := entry.tradeDate
  corporateAction := (entry.corporateAction.map CorporateAction.toDict).getD .null
  intent := (entry.intent.map intentToDict).getD .null

theorem recordFromDict_payload (entry : Entry N) (length : ℕ) (recordedAt previous hash : String) :
    recordFromDict ((entry.body length recordedAt).payload previous hash) =
      (storedEvent entry.event).map (entry.record length recordedAt previous hash) := by
  have hevent := optionalMapping_event entry.event
  simp only [recordFromDict, RecordBody.payload, Entry.body, requiredStr, requiredNum, getStr,
    getJson, Json.get?, List.reverse_cons, List.reverse_nil, List.nil_append, List.cons_append,
    List.lookup_cons, String.reduceBEq]
  simp only [Option.bind_eq_bind, Option.getD_some, hevent]
  cases storedEvent entry.event with
  | none => rfl
  | some kept => cases h : entry.tradeDate <;> simp [Entry.record, optionalStr, h, Number.toInt_natCast]

theorem Fill.stored_eq_some_iff (fill : Fill N) : fill.stored = some fill ↔ fill.Storable := by
  constructor
  · intro h
    simp only [Fill.stored, Option.bind_eq_bind, Option.bind_eq_some_iff, Option.some.injEq] at h
    obtain ⟨price, hprice, commission, hcommission, stampDuty, hstamp, transferFee, htransfer,
      heq⟩ := h
    obtain rfl : price = fill.price := congrArg Fill.price heq
    obtain rfl : commission = fill.commission := congrArg Fill.commission heq
    obtain rfl : stampDuty = fill.stampDuty := congrArg Fill.stampDuty heq
    obtain rfl : transferFee = fill.transferFee := congrArg Fill.transferFee heq
    exact ⟨congrArg Fill.quantity heq, hprice, hcommission, hstamp, htransfer,
      (Lineage.compact_eq_self_iff _).mp (congrArg Fill.lineage heq)⟩
  · rintro ⟨hquantity, hprice, hcommission, hstamp, htransfer, hlineage⟩
    simp only [IsFee] at hcommission hstamp htransfer
    simp only [Fill.stored, hquantity, hprice, hcommission, hstamp, htransfer,
      (Lineage.compact_eq_self_iff _).mpr hlineage, Option.bind_eq_bind, Option.bind_some]

omit [Number N] in
theorem RiskDecision.stored_eq_iff (decision : RiskDecision N) :
    decision.stored = decision ↔ decision.Storable := by
  constructor
  · intro h
    refine ⟨?_, (Lineage.compact_eq_self_iff _).mp (congrArg RiskDecision.lineage h)⟩
    intro hempty
    have hby := congrArg RiskDecision.decidedBy h
    simp [RiskDecision.stored, orDefault, hempty] at hby
  · rintro ⟨hby, hlineage⟩
    simp [RiskDecision.stored, orDefault, hby, (Lineage.compact_eq_self_iff _).mpr hlineage]

theorem storedFill_eq_iff (fill : Option (Fill N)) :
    storedFill fill = some fill ↔ ∀ f, fill = some f → f.Storable := by
  cases fill with
  | none => simp [storedFill]
  | some fill =>
    have h := fill.stored_eq_some_iff
    simp only [storedFill, Option.map_eq_some_iff, Option.some.injEq, exists_eq_right, h,
      forall_eq']

omit [Number N] in
theorem storedRisk_eq_iff (decision : Option (RiskDecision N)) :
    decision.map RiskDecision.stored = decision ↔ ∀ d, decision = some d → d.Storable := by
  cases decision with
  | none => simp
  | some decision => simp [decision.stored_eq_iff]

/-- An event is kept as it is exactly when it is storable. -/
theorem OrderEvent.stored_eq_some_iff (event : OrderEvent N) :
    event.stored = some event ↔ event.Storable := by
  constructor
  · intro h
    simp only [OrderEvent.stored, Option.bind_eq_bind, Option.bind_eq_some_iff,
      Option.some.injEq] at h
    obtain ⟨fill, hfill, heq⟩ := h
    obtain rfl : fill = event.fill := congrArg OrderEvent.fill heq
    exact ⟨congrArg OrderEvent.sequence heq, (storedFill_eq_iff _).mp hfill,
      (storedRisk_eq_iff _).mp (congrArg OrderEvent.riskDecision heq),
      (Lineage.compact_eq_self_iff _).mp (congrArg OrderEvent.lineage heq)⟩
  · rintro ⟨hsequence, hfill, hrisk, hlineage⟩
    simp only [OrderEvent.stored, (storedFill_eq_iff _).mpr hfill, hsequence,
      (storedRisk_eq_iff _).mpr hrisk, (Lineage.compact_eq_self_iff _).mpr hlineage,
      Option.bind_eq_bind, Option.bind_some]

theorem storedEvent_eq_iff (event : Option (OrderEvent N)) :
    storedEvent event = some event ↔ ∀ e, event = some e → e.Storable := by
  cases event with
  | none => simp [storedEvent]
  | some event =>
    have h := event.stored_eq_some_iff
    simp only [storedEvent, Option.map_eq_some_iff, Option.some.injEq, exists_eq_right, h,
      forall_eq']

end QuantAgent.Domain
