import Mathlib.Data.List.Dedup
import Mathlib.Data.List.Sort
import Mathlib.Data.Rat.Floor
import Mathlib.Data.String.Basic

/-!
# Gaps of the daily panel

The verified panel and the panel of a second provider are joined by symbol and day, field by field.
A value of the second provider is approved where the joined row of the verified panel has a gap, and
applied to every row of the symbol and the day.  So a value of another row of the day may be
displaced, and of several fields filled on a day only the last one is named.
-/

namespace QuantAgent.Data

/-- `COMPARED_FIELDS`. -/
inductive DailyField where
  | open
  | high
  | low
  | close
  | volume
  | amount
  | preclose
  deriving DecidableEq, Repr

namespace DailyField

def name : DailyField → String
  | .open => "open"
  | .high => "high"
  | .low => "low"
  | .close => "close"
  | .volume => "volume"
  | .amount => "amount"
  | .preclose => "preclose"

def compared : List DailyField := [.open, .high, .low, .close, .volume, .amount, .preclose]

theorem mem_compared (field : DailyField) : field ∈ compared := by
  cases field <;> decide

/-- The fields of which an adjustment mode is read. -/
def isPrice : DailyField → Bool
  | .open | .high | .low | .close => true
  | _ => false

end DailyField

/-- A number of a panel, or what stands in its place. -/
inductive DailyCell where
  | missing
  | infinite
  | finite (value : ℚ)
  deriving DecidableEq, Repr

namespace DailyCell

def isFinite : DailyCell → Bool
  | .finite _ => true
  | _ => false

/-- `_as_float`. -/
def asFloat : DailyCell → DailyCell
  | .finite value => .finite value
  | _ => .missing

end DailyCell

structure DailyRow (D : Type) where
  symbol : String
  tradeDate : D
  cells : DailyField → DailyCell
  patchProvenance : Option String

structure DailyPanel (D : Type) where
  columns : DailyField → Bool
  rows : List (DailyRow D)

inductive ComparisonOutcome where
  | matched
  | mismatchValue
  | mismatchUnit
  | mismatchAdjustment
  | missingInU0
  | missingInQmt
  deriving DecidableEq, Repr

/-- `FieldComparison`. -/
structure FieldComparison where
  fieldName : DailyField
  u0Value : DailyCell
  qmtValue : DailyCell
  outcome : ComparisonOutcome
  relativeDelta : DailyCell := .missing
  detail : String := ""

def priceRtol : ℚ := 1 / 10000

def volumeRtol : ℚ := 1 / 1000

def volumeAtol : ℚ := 100

def amountRtol : ℚ := 5 / 1000

def lotRatio : ℚ := 100

def lotRatioTol : ℚ := 1 / 100

/-- `_close`, of finite numbers. -/
def closeTo (a b rtol atol : ℚ) : Bool := |a - b| ≤ max atol (rtol * |b|)

/-- The outcome for two finite numbers, with its detail. -/
def finiteOutcome (fieldName : DailyField) (u0 qmt : ℚ) : ComparisonOutcome × String :=
  match fieldName with
  | .volume =>
    if closeTo qmt u0 volumeRtol volumeAtol then (.matched, "")
    else if u0 ≠ 0 ∧ |qmt / u0 - lotRatio| < lotRatioTol then
      (.mismatchUnit, "QMT is ~100x U0: QMT reporting shares where U0 has 手, or vice versa")
    else if qmt ≠ 0 ∧ |u0 / qmt - lotRatio| < lotRatioTol then
      (.mismatchUnit, "U0 is ~100x QMT: lot/share unit disagreement")
    else (.mismatchValue, "")
  | .amount => (if closeTo qmt u0 amountRtol 0 then .matched else .mismatchValue, "")
  | _ => (if closeTo qmt u0 priceRtol 0 then .matched else .mismatchValue, "")

theorem finiteOutcome_ne (fieldName : DailyField) (u0 qmt : ℚ) :
    (finiteOutcome fieldName u0 qmt).1 ≠ .missingInU0 := by
  unfold finiteOutcome
  split
  · split
    · simp
    · split
      · simp
      · split <;> simp
  · split <;> simp
  · split <;> simp

/-- `compare_field`. -/
def compareField (fieldName : DailyField) (u0Value qmtValue : DailyCell) : FieldComparison :=
  match u0Value, qmtValue with
  | .finite u0, .finite qmt =>
    let (outcome, detail) := finiteOutcome fieldName u0 qmt
    { fieldName
      u0Value
      qmtValue
      outcome
      relativeDelta := if u0 = 0 then .missing else .finite ((qmt - u0) / u0)
      detail }
  | .finite u0, .infinite =>
    { fieldName
      u0Value
      qmtValue
      outcome := .mismatchValue
      relativeDelta := if u0 = 0 then .missing else .infinite }
  | .finite _, .missing =>
    { fieldName, u0Value, qmtValue := .missing, outcome := .missingInQmt }
  | _, qmtValue =>
    { fieldName, u0Value := .missing, qmtValue := qmtValue.asFloat, outcome := .missingInU0 }

def priceRatio (comparison : FieldComparison) : Option DailyCell :=
  if comparison.fieldName.isPrice && comparison.outcome = .mismatchValue then
    match comparison.u0Value, comparison.qmtValue with
    | .finite u0, .finite qmt => if u0 = 0 then none else some (.finite (qmt / u0))
    | .finite u0, .infinite => if u0 = 0 then none else some .infinite
    | _, _ => none
  else none

/-- `classify_adjustment_mismatch`: the deviation is compared through its square.  It is no number
where a ratio is infinite. -/
def classifyAdjustmentMismatch (comparisons : List FieldComparison) : Bool :=
  let ratios := comparisons.filterMap priceRatio
  if ratios.length < 3 then false
  else if ratios.any fun ratio ↦ !ratio.isFinite then false
  else
    let values := ratios.filterMap fun
      | .finite value => some value
      | _ => none
    let mean : ℚ := values.sum / values.length
    let variance : ℚ := (values.map fun value ↦ (value - mean) ^ 2).sum / values.length
    variance < (max |mean| (1 / 10 ^ 12) / 1000) ^ 2

/-- The outcome of a comparison once its prices are known to be adjusted otherwise. -/
def FieldComparison.adjusted (comparison : FieldComparison) : FieldComparison :=
  if comparison.fieldName.isPrice && comparison.outcome = .mismatchValue then
    { comparison with
      outcome := .mismatchAdjustment
      detail := "all OHLC differ by a constant ratio: adjustment-mode " ++
        "disagreement (raw vs qfq vs hfq), not a bad print" }
  else comparison

section Reconcile

variable {D : Type} (dayText : D → Option String)

def DailyRow.key (row : DailyRow D) : String × Option String := (row.symbol, dayText row.tradeDate)

structure MergedRecord (D : Type) where
  symbol : String
  tradeDate : Option String
  u0 : Option (DailyRow D)
  qmt : Option (DailyRow D)

def DailyPanel.rowsAt (panel : DailyPanel D) (key : String × Option String) : List (DailyRow D) :=
  panel.rows.filter fun row ↦ row.key dayText = key

/-- The records of one key: every pair of rows, or the rows of the only side. -/
def recordsAt (u0 qmt : DailyPanel D) (key : String × Option String) : List (MergedRecord D) :=
  match u0.rowsAt dayText key, qmt.rowsAt dayText key with
  | left, [] => left.map fun row ↦ ⟨key.1, key.2, some row, none⟩
  | [], right => right.map fun row ↦ ⟨key.1, key.2, none, some row⟩
  | left, right => left.flatMap fun row ↦ right.map fun other ↦ ⟨key.1, key.2, some row, some other⟩

/-- Keys in order; a missing day comes last. -/
def keyAtMost (first second : String × Option String) : Prop :=
  first.1 < second.1 ∨ first.1 = second.1 ∧
    (second.2 = none ∨ ∃ day ∈ first.2, ∃ other ∈ second.2, day ≤ other)

instance : DecidableRel keyAtMost := fun _ _ ↦ inferInstanceAs (Decidable (_ ∨ _))

def mergedKeys (u0 qmt : DailyPanel D) : List (String × Option String) :=
  ((u0.rows ++ qmt.rows).map (DailyRow.key dayText)).dedup.insertionSort keyAtMost

/-- `u0.merge(qmt, on=["symbol", "trade_date"], how="outer")`. -/
def merged (u0 qmt : DailyPanel D) : List (MergedRecord D) :=
  (mergedKeys dayText u0 qmt).flatMap (recordsAt dayText u0 qmt)

/-- The fields that both panels have, which are the ones with a suffix in a record. -/
def sharedFields (u0 qmt : DailyPanel D) : List DailyField :=
  DailyField.compared.filter fun field ↦ u0.columns field && qmt.columns field

structure ReconciledRow where
  symbol : String
  tradeDate : Option String
  adjustmentMismatch : Bool
  comparisons : List FieldComparison

/-- The comparisons of a record, before its prices are taken together. -/
def comparisonsOf (fields : List DailyField) (record : MergedRecord D) : List FieldComparison :=
  match record.u0, record.qmt with
  | some u0, some qmt => fields.map fun field ↦
    compareField field (u0.cells field) (qmt.cells field)
  | some u0, none => fields.map fun field ↦
    { fieldName := field
      u0Value := (u0.cells field).asFloat
      qmtValue := .missing
      outcome := .missingInQmt }
  | none, some qmt => fields.map fun field ↦
    { fieldName := field
      u0Value := .missing
      qmtValue := (qmt.cells field).asFloat
      outcome := .missingInU0 }
  | none, none => []

def reconcileRecord (fields : List DailyField) (record : MergedRecord D) : ReconciledRow :=
  let comparisons := comparisonsOf fields record
  let adjustmentMismatch := classifyAdjustmentMismatch comparisons
  { symbol := record.symbol
    tradeDate := record.tradeDate
    adjustmentMismatch
    comparisons := if adjustmentMismatch then comparisons.map FieldComparison.adjusted
      else comparisons }

/-- `reconcile`: the results. -/
def reconcile (u0 qmt : DailyPanel D) : List ReconciledRow :=
  (merged dayText u0 qmt).map (reconcileRecord (sharedFields u0 qmt))

end Reconcile

inductive PatchDecision where
  | approved
  | rejectedU0Authoritative
  | rejectedNoEvidence
  | rejectedUnitMismatch
  deriving DecidableEq, Repr

class ValueDigest where
  /-- `_hash`. -/
  hash : DailyCell → String

def providerU0 : String := "u0_verified"

def providerQmt : String := "qmt_xtdata"

/-- `PatchRecord`. -/
structure PatchRecord where
  symbol : String
  tradeDate : Option String
  fieldName : DailyField
  oldProvider : String
  newProvider : String
  oldValue : DailyCell
  newValue : DailyCell
  reason : String
  validation : String
  oldHash : String
  newHash : String
  decision : PatchDecision

/-- `applied`. -/
def PatchRecord.applied (patch : PatchRecord) : Bool := patch.decision = .approved

/-- The decision on a comparison, with its reason and its validation; none where it is passed
over. -/
def decisionOf (allowFillMissing : Bool) (comparison : FieldComparison) :
    Option (PatchDecision × String × String) :=
  match comparison.outcome with
  | .matched => none
  | .missingInU0 =>
    if comparison.qmtValue ≠ .missing then
      some (if allowFillMissing then .approved else .rejectedNoEvidence,
        "U0 has no value for this cell; QMT fills a genuine gap",
        "gap fill; no U0 value was displaced")
    else
      some (.rejectedU0Authoritative, "value disagreement with no evidence that U0 is wrong",
        "U0 passed identity/provider/coverage/quality gates; a second " ++
          "opinion alone does not overturn it")
  | .mismatchUnit =>
    some (.rejectedUnitMismatch,
      if comparison.detail = "" then "lot/share unit disagreement" else comparison.detail,
      "a unit disagreement is a schema defect in one adapter; " ++
        "patching values would bake the defect into the panel")
  | .mismatchAdjustment =>
    some (.rejectedU0Authoritative, "adjustment-mode disagreement, not a data error",
      "U0 declares its own adjustment mode; QMT must be aligned, not merged")
  | .missingInQmt => none
  | .mismatchValue =>
    some (.rejectedU0Authoritative, "value disagreement with no evidence that U0 is wrong",
      "U0 passed identity/provider/coverage/quality gates; a second " ++
        "opinion alone does not overturn it")

section Patches

variable [ValueDigest]

def patchOf (allowFillMissing : Bool) (row : ReconciledRow) (comparison : FieldComparison) :
    Option PatchRecord :=
  (decisionOf allowFillMissing comparison).map fun (decision, reason, validation) ↦
    { symbol := row.symbol
      tradeDate := row.tradeDate
      fieldName := comparison.fieldName
      oldProvider := providerU0
      newProvider := providerQmt
      oldValue := comparison.u0Value
      newValue := comparison.qmtValue
      reason
      validation
      oldHash := ValueDigest.hash comparison.u0Value
      newHash := ValueDigest.hash comparison.qmtValue
      decision }

/-- `propose_patches`. -/
def proposePatches (reconciliation : List ReconciledRow) (allowFillMissing : Bool) :
    List PatchRecord :=
  reconciliation.flatMap fun row ↦ row.comparisons.filterMap (patchOf allowFillMissing row)

end Patches

def PatchRecord.provenance (patch : PatchRecord) : String :=
  patch.fieldName.name ++ ":" ++ patch.oldProvider ++ "->" ++ patch.newProvider

def provenanceText (field : DailyField) : String :=
  field.name ++ ":" ++ providerU0 ++ "->" ++ providerQmt

section Apply

variable {D : Type} (dayText : D → Option String)

def PatchRecord.covers (patch : PatchRecord) (row : DailyRow D) : Bool :=
  row.symbol = patch.symbol && (dayText row.tradeDate).isSome &&
    dayText row.tradeDate = patch.tradeDate

def PatchRecord.applyTo (patch : PatchRecord) (row : DailyRow D) : DailyRow D :=
  if patch.applied && patch.covers dayText row then
    { row with
      cells := Function.update row.cells patch.fieldName patch.newValue
      patchProvenance := some patch.provenance }
  else row

structure PatchLedger where
  patchesConsidered : ℕ
  patchesApplied : ℕ
  patchesRejected : ℕ
  records : List PatchRecord

/-- One turn of the loop: the panel, and how many patches were applied. -/
def applyPatch (state : DailyPanel D × ℕ) (patch : PatchRecord) : DailyPanel D × ℕ :=
  if patch.applied && state.1.rows.any (patch.covers dayText) then
    ({ state.1 with rows := state.1.rows.map (patch.applyTo dayText) }, state.2 + 1)
  else state

/-- `apply_patches`. -/
def applyPatches (panel : DailyPanel D) (patches : List PatchRecord) : DailyPanel D × PatchLedger :=
  let (result, applied) := patches.foldl (applyPatch dayText) (panel, 0)
  (result, {
    patchesConsidered := patches.length
    patchesApplied := applied
    patchesRejected := patches.length - applied
    records := patches })

end Apply

section Promise

variable {D : Type} (dayText : D → Option String) [ValueDigest]

def Names (provenance : Option String) (field : DailyField) : Prop :=
  ∃ text, provenance = some text ∧
    field.name.toList ∈ text.toList.splitOnP fun c ↦ !c.isAlphanum

def Filled (row after : DailyRow D) (field : DailyField) : Prop :=
  (row.cells field).isFinite = false ∧ (after.cells field).isFinite = true

/-- `apply_patches(u0, propose_patches(reconcile(u0, qmt)))`. -/
def gapFilled (u0 qmt : DailyPanel D) : DailyPanel D × PatchLedger :=
  applyPatches dayText u0 (proposePatches (reconcile dayText u0 qmt) true)

/-- No value of the panel is displaced; every field that was filled is named in its row; and what
fills it is a value of the other panel for the same symbol, day and field. -/
structure FillsGaps (u0 qmt : DailyPanel D) : Prop where
  kept : ∀ (i : ℕ) (row after : DailyRow D), u0.rows[i]? = some row →
    (gapFilled dayText u0 qmt).1.rows[i]? = some after →
      ∀ field, (row.cells field).isFinite = true → after.cells field = row.cells field
  named : ∀ (i : ℕ) (row after : DailyRow D), u0.rows[i]? = some row →
    (gapFilled dayText u0 qmt).1.rows[i]? = some after →
      ∀ field, Filled row after field → Names after.patchProvenance field
  sourced : ∀ (i : ℕ) (row after : DailyRow D), u0.rows[i]? = some row →
    (gapFilled dayText u0 qmt).1.rows[i]? = some after →
      ∀ field, Filled row after field → ∃ other ∈ qmt.rows,
        other.key dayText = row.key dayText ∧ after.cells field = other.cells field

def Fillable (u0 qmt : DailyPanel D) (key : String × Option String) (field : DailyField) : Prop :=
  field ∈ sharedFields u0 qmt ∧
    (∃ row ∈ u0.rowsAt dayText key, (row.cells field).isFinite = false) ∧
      ∃ other ∈ qmt.rowsAt dayText key, (other.cells field).isFinite = true

def lastValue (panel : DailyPanel D) (key : String × Option String) (field : DailyField) :
    Option DailyCell :=
  ((panel.rowsAt dayText key).filter fun row ↦ (row.cells field).isFinite).getLast?.map fun row ↦
    row.cells field

/-- On a day at most one field has a gap that can be filled, and every value of the field on the
day is the one it would be filled with. -/
structure OneGap (u0 qmt : DailyPanel D) (key : String × Option String) : Prop where
  alone : ∀ first second, Fillable dayText u0 qmt key first → Fillable dayText u0 qmt key second →
    first = second
  undisplaced : ∀ field, Fillable dayText u0 qmt key field → ∀ row ∈ u0.rowsAt dayText key,
    (row.cells field).isFinite = true → lastValue dayText qmt key field = some (row.cells field)

end Promise

end QuantAgent.Data
