import QuantAgent.Library.DictDefault
import QuantAgent.MarketRules.Ashare
import QuantAgent.Paper.EventLedger

/-!
# The kill switch

Scoped switches that stay latched until they are cleared.  Every latch and every clearance is
journalled, and the latched set is rebuilt from the journal.
-/

namespace QuantAgent.Paper

open Library Domain

/-- `SCOPE_ORDER`. -/
def scopeOrder : String := "ORDER"

/-- `SCOPE_STRATEGY`. -/
def scopeStrategy : String := "STRATEGY"

/-- `SCOPE_PORTFOLIO`. -/
def scopePortfolio : String := "PORTFOLIO"

/-- `SCOPE_GLOBAL`. -/
def scopeGlobal : String := "GLOBAL"

/-- `SCOPES`. -/
def scopes : List String := [scopeOrder, scopeStrategy, scopePortfolio, scopeGlobal]

/-- The identifier of a switch: a missing and an empty key both stand for any key. -/
def switchId (scope : String) (key : Option String) : String :=
  scope ++ ":" ++ orDefault key "*"

def SwitchRecord.name (record : SwitchRecord) : String × Option String :=
  (record.scope, record.key)

inductive KillSwitchError where
  | unknownScope (scope : String)
  | notConfirmed
  deriving DecidableEq, Repr

structure KillSwitch where
  triggered : Dict String SwitchRecord

namespace KillSwitch

def released : KillSwitch := ⟨.empty⟩

def without (switch : KillSwitch) (id : String) : KillSwitch := ⟨switch.triggered.erase id⟩

/-- `trigger`: the first breach is the record, and a repeat adds nothing.  The second component is
what goes to the journal. -/
def trigger (switch : KillSwitch) (scope reason : String) (key : Option String) (now : String) :
    KillSwitch × List EventBody × Except KillSwitchError SwitchRecord :=
  if scope ∉ scopes then (switch, [], .error (.unknownScope scope))
  else
    match switch.triggered.get? (switchId scope key) with
    | some existing => (switch, [], .ok existing)
    | none =>
      let record : SwitchRecord := { scope, key, reason, triggeredAt := now }
      (⟨switch.triggered.insert (switchId scope key) record⟩, [.killSwitchTriggered record],
        .ok record)

/-- `clear`: only with the confirmation of a human. -/
def clear (switch : KillSwitch) (scope : String) (key : Option String) (humanConfirmation : Bool)
    (author reason : Option String) (now : String) :
    KillSwitch × List EventBody × Except KillSwitchError Bool :=
  if !humanConfirmation then (switch, [], .error .notConfirmed)
  else
    match switch.triggered.get? (switchId scope key) with
    | none => (switch, [], .ok false)
    | some _ =>
      (switch.without (switchId scope key),
        [.killSwitchCleared
          { scope, key, humanConfirmation := true, author, reason, clearedAt := now }],
        .ok true)

/-- One event of `restore`. -/
def restoreEvent (switch : KillSwitch) (event : Event) : KillSwitch :=
  match event.body with
  | .killSwitchTriggered payload =>
    let scope := orDefault (some payload.scope) scopeGlobal
    ⟨switch.triggered.setDefault (switchId scope payload.key)
      { scope
        key := payload.key
        reason := orDefault (some payload.reason) "unknown"
        triggeredAt := orDefault (some payload.triggeredAt) event.eventTime }⟩
  | .killSwitchCleared payload =>
    switch.without (switchId (orDefault (some payload.scope) scopeGlobal) payload.key)
  | _ => switch

/-- `restore`: the latched set from the events of a ledger. -/
def restore (switch : KillSwitch) (events : List Event) : KillSwitch :=
  events.foldl restoreEvent switch

/-- `active`. -/
def active (switch : KillSwitch) : List SwitchRecord := switch.triggered.values

/-- Whether a switch refuses an order: a portfolio switch lets the book be reduced. -/
def refuses (record : SwitchRecord) (side : Side) (strategyId : Option String) : Bool :=
  if record.scope = scopeGlobal then true
  else if record.scope = scopePortfolio ∧ side = .buy then true
  else record.scope = scopeStrategy ∧ (record.key = none ∨ record.key = strategyId)

/-- `blocking`. -/
def blocking (switch : KillSwitch) (side : Side) (strategyId : Option String) :
    List SwitchRecord :=
  switch.active.filter fun record ↦ refuses record side strategyId

/-- `PaperBroker.killed`. -/
def killed (switch : KillSwitch) : Bool :=
  switch.active.any fun record ↦ record.scope = scopeGlobal

/-- The same switches are latched, whatever their reasons and times. -/
def SameLatches (left right : KillSwitch) : Prop :=
  ∀ id, (left.triggered.get? id).map SwitchRecord.name =
    (right.triggered.get? id).map SwitchRecord.name

/-- Every latch has a known scope and stands under its own identifier. -/
def Named (switch : KillSwitch) : Prop :=
  ∀ id record, switch.triggered.get? id = some record →
    record.scope ∈ scopes ∧ id = switchId record.scope record.key

variable {switch : KillSwitch}

theorem killed_iff : switch.killed = true ↔
    ∃ id record, switch.triggered.get? id = some record ∧ record.scope = scopeGlobal := by
  unfold killed active
  rw [List.any_eq_true]
  constructor
  · intro h
    obtain ⟨record, hmem, hscope⟩ := h
    obtain ⟨id, hid⟩ := Dict.mem_values_iff.mp hmem
    exact ⟨id, record, hid, of_decide_eq_true hscope⟩
  · intro h
    obtain ⟨id, record, hid, hscope⟩ := h
    exact ⟨record, Dict.mem_values_iff.mpr ⟨id, hid⟩, decide_eq_true hscope⟩

/-- Whether the account is killed depends on the names of the latches only. -/
theorem killed_iff_name : switch.killed = true ↔
    ∃ id name, (switch.triggered.get? id).map SwitchRecord.name = some name ∧
      name.1 = scopeGlobal := by
  rw [killed_iff]
  constructor
  · intro h
    obtain ⟨id, record, hid, hscope⟩ := h
    exact ⟨id, record.name, by rw [hid]; rfl, hscope⟩
  · intro h
    obtain ⟨id, name, hid, hscope⟩ := h
    obtain ⟨record, hrecord, hname⟩ := Option.map_eq_some_iff.mp hid
    exact ⟨id, record, hrecord, by rw [← hscope, ← hname]; rfl⟩

theorem SameLatches.killed_eq {left right : KillSwitch} (h : left.SameLatches right) :
    left.killed = right.killed := by
  rw [Bool.eq_iff_iff, killed_iff_name, killed_iff_name]
  simp only [h _]

theorem named_released : released.Named := by
  intro id record h
  cases h

theorem Named.without (h : switch.Named) (id : String) :
    (switch.without id).Named := fun _ _ hfound ↦ h _ _ (Dict.get?_of_get?_erase hfound)

theorem head?_switchId (scope : String) (key : Option String) :
    (switchId scope key).toList.head? = (scope.toList ++ [':']).head? := by
  unfold switchId
  rw [String.toList_append, String.toList_append]
  cases scope.toList with
  | nil => rfl
  | cons _ _ => rfl

variable {scope : String}

theorem scope_eq_of_switchId_global (hscope : scope ∈ scopes) {key key' : Option String}
    (h : switchId scope key = switchId scopeGlobal key') :
    scope = scopeGlobal := by
  have hhead : (scope.toList ++ [':']).head? = (scopeGlobal.toList ++ [':']).head? := by
    rw [← head?_switchId scope key, h, head?_switchId]
  revert hhead
  simp only [scopes, List.mem_cons, List.not_mem_nil, or_false] at hscope
  obtain rfl | rfl | rfl | rfl := hscope <;> decide

/-- No switch of a known scope has an identifier without a scope. -/
theorem switchId_ne_blank (hscope : scope ∈ scopes) (key key' : Option String) :
    switchId scope key ≠ switchId "" key' := by
  intro h
  have hhead : (scope.toList ++ [':']).head? = some ':' := by
    rw [← head?_switchId scope key, h, head?_switchId]
    rfl
  revert hhead
  simp only [scopes, List.mem_cons, List.not_mem_nil, or_false] at hscope
  obtain rfl | rfl | rfl | rfl := hscope <;> decide

theorem orDefault_scope (hscope : scope ∈ scopes) (default : String) :
    orDefault (some scope) default = scope := by
  revert hscope
  intro hscope
  simp only [scopes, List.mem_cons, List.not_mem_nil, or_false] at hscope
  obtain rfl | rfl | rfl | rfl := hscope <;> rfl

end KillSwitch

end QuantAgent.Paper
