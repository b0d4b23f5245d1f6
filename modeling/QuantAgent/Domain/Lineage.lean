import QuantAgent.Library.Json
import Mathlib.Data.List.Nodup

/-!
# Lineage

The chain of custody carried by every order, fill, ledger row and risk decision, its JSON form and
what comes back from it.  Reading drops empty strings that writing keeps, so exactly the lineages
without an empty link survive the round trip.
-/

namespace QuantAgent.Domain

open Library

/-- The links of the chain, from the broadest research context down to a single execution. -/
inductive LineageField where
  | researchId
  | experimentId
  | strategyId
  | strategyVersionId
  | modelVersionId
  | runId
  | signalId
  | orderIntentId
  | orderId
  | parentOrderId
  | brokerOrderId
  | executionId
  | positionLotId
  | riskDecisionId
  deriving DecidableEq, Repr

namespace LineageField

def name : LineageField → String
  | researchId => "research_id"
  | experimentId => "experiment_id"
  | strategyId => "strategy_id"
  | strategyVersionId => "strategy_version_id"
  | modelVersionId => "model_version_id"
  | runId => "run_id"
  | signalId => "signal_id"
  | orderIntentId => "order_intent_id"
  | orderId => "order_id"
  | parentOrderId => "parent_order_id"
  | brokerOrderId => "broker_order_id"
  | executionId => "execution_id"
  | positionLotId => "position_lot_id"
  | riskDecisionId => "risk_decision_id"

/-- Every link, in the order of the names that a sorted mapping prints. -/
def sorted : List LineageField :=
  [brokerOrderId, executionId, experimentId, modelVersionId, orderId, orderIntentId,
    parentOrderId, positionLotId, researchId, riskDecisionId, runId, signalId, strategyId,
    strategyVersionId]

theorem mem_sorted (field : LineageField) : field ∈ sorted := by
  cases field <;> decide

theorem sorted_nodup : sorted.Nodup := by
  decide

theorem name_injective : Function.Injective name := by
  intro left right h
  cases left <;> cases right <;> first | rfl | exact absurd h (by decide)

end LineageField

@[ext]
structure Lineage where
  get : LineageField → Option String

namespace Lineage

def empty : Lineage := ⟨fun _ ↦ none⟩

instance : Inhabited Lineage := ⟨empty⟩

def derive (lineage : Lineage) (field : LineageField) (value : Option String) : Lineage :=
  ⟨Function.update lineage.get field value⟩

@[simp]
theorem get_derive_self (lineage : Lineage) (field : LineageField) (value : Option String) :
    (lineage.derive field value).get field = value := by
  simp [derive]

@[simp]
theorem get_derive_of_ne (lineage : Lineage) {field other : LineageField} (h : other ≠ field)
    (value : Option String) : (lineage.derive field value).get other = lineage.get other := by
  simp [derive, h]

variable {N : Type}

def asDict (lineage : Lineage) : Json N :=
  .obj (LineageField.sorted.filterMap fun field ↦
    (lineage.get field).map fun value ↦ (field.name, .str value))

/-- The links found in a mapping; empty strings count as absent. -/
def fromMapping (payload : Option (Json N)) : Lineage :=
  ⟨fun field ↦ match payload.bind (·.get? field.name) with
    | some (.str value) => if value = "" then none else some value
    | _ => none⟩

def compact (lineage : Lineage) : Lineage :=
  ⟨fun field ↦ if lineage.get field = some "" then none else lineage.get field⟩

def NoEmptyLink (lineage : Lineage) : Prop :=
  ∀ field, lineage.get field ≠ some ""

theorem compact_eq_self_iff (lineage : Lineage) :
    lineage.compact = lineage ↔ lineage.NoEmptyLink := by
  constructor
  · intro h field hempty
    have hfield := congrFun (congrArg Lineage.get h) field
    simp [compact, hempty] at hfield
  · intro h
    ext1
    funext field
    simp [compact, h field]

theorem NoEmptyLink.derive {lineage : Lineage} (h : lineage.NoEmptyLink) {field : LineageField}
    {value : Option String} (hvalue : value ≠ some "") :
    (lineage.derive field value).NoEmptyLink := by
  intro other
  by_cases hother : other = field
  · subst hother
    simpa using hvalue
  · rw [get_derive_of_ne lineage hother]
    exact h other

theorem noEmptyLink_empty : empty.NoEmptyLink := by
  intro field h
  cases h

/-- A link is found under its name in the mapping that `asDict` builds. -/
theorem lookup_links (fields : List LineageField) (hnodup : fields.Nodup) (lineage : Lineage)
    (field : LineageField) :
    (fields.filterMap fun other ↦ (lineage.get other).map fun value ↦
        ((other.name, .str value) : String × Json N)).lookup field.name =
      if field ∈ fields then (lineage.get field).map .str else none := by
  induction fields with
  | nil => rfl
  | cons other fields ih =>
    obtain ⟨hnotMem, htail⟩ := List.nodup_cons.mp hnodup
    specialize ih htail
    rw [List.filterMap_cons]
    by_cases heq : field = other
    · subst heq
      cases hvalue : lineage.get field with
      | none => simp only [Option.map_none, ih, hvalue, ite_self]
      | some value => simp
    · have hname : (field.name == other.name) = false := by
        simpa using fun h ↦ heq (LineageField.name_injective h)
      cases hvalue : lineage.get other with
      | none => simp only [Option.map_none, ih, List.mem_cons, heq, false_or]
      | some value =>
        simp only [Option.map_some, List.lookup_cons, hname, ih, List.mem_cons, heq, false_or]

theorem get?_asDict (lineage : Lineage) (field : LineageField) :
    (lineage.asDict : Json N).get? field.name = (lineage.get field).map .str := by
  simp only [asDict, Json.get?, ← List.filterMap_reverse]
  rw [lookup_links _ (List.nodup_reverse.mpr LineageField.sorted_nodup),
    if_pos (List.mem_reverse.mpr (LineageField.mem_sorted field))]

/-- Reading what `asDict` wrote loses exactly the empty links. -/
theorem fromMapping_asDict (lineage : Lineage) :
    fromMapping (some (lineage.asDict : Json N)) = lineage.compact := by
  ext1
  funext field
  simp only [fromMapping, Option.bind_some, get?_asDict, compact]
  cases hvalue : lineage.get field with
  | none => simp
  | some value => simp

theorem asDict_injective : Function.Injective (asDict : Lineage → Json N) := by
  intro left right h
  ext1
  funext field
  have hfield := congrArg (fun payload ↦ payload.get? field.name) h
  simp only [get?_asDict] at hfield
  cases hleft : left.get field <;> cases hright : right.get field <;> simp_all

end Lineage

end QuantAgent.Domain
