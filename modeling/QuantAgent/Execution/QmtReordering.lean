import QuantAgent.Domain.ClaimOnce
import QuantAgent.Execution.QmtCalls

/-!
# Order states under reordering

The entry of an order is replaced as a whole by whoever writes last.  No entry loses fills or leaves
a terminal state exactly as long as every writer is at least as recent as the entry it replaces: a
row that arrives, the return of a submission, the answer to a cancel request and an error report.
-/

namespace QuantAgent.Execution

open Library Domain

variable {V N : Type}

/-- An entry that has no fewer fills and is terminal if the other one is. -/
structure OrderState.AtMost (earlier later : OrderState N) : Prop where
  filled : earlier.filledQuantity ≤ later.filledQuantity
  terminal : earlier.status.terminal → later.status.terminal

/-- Every entry is still there, with at least its fills, and terminal if it was. -/
def NotBehind (earlier later : Dict String (OrderState N)) : Prop :=
  ∀ clientId state, earlier.get? clientId = some state →
    ∃ state', later.get? clientId = some state' ∧ state.AtMost state'

theorem OrderState.AtMost.refl (state : OrderState N) : state.AtMost state := ⟨le_rfl, id⟩

theorem OrderState.AtMost.trans {first second third : OrderState N} (h : first.AtMost second)
    (h' : second.AtMost third) : first.AtMost third :=
  ⟨h.filled.trans h'.filled, fun hterminal ↦ h'.terminal (h.terminal hterminal)⟩

theorem NotBehind.refl (orders : Dict String (OrderState N)) : NotBehind orders orders :=
  fun _ state h ↦ ⟨state, h, .refl state⟩

theorem NotBehind.trans {first second third : Dict String (OrderState N)}
    (h : NotBehind first second) (h' : NotBehind second third) : NotBehind first third := by
  intro clientId state hstate
  obtain ⟨state', hstate', hle⟩ := h clientId state hstate
  obtain ⟨state'', hstate'', hle'⟩ := h' clientId state' hstate'
  exact ⟨state'', hstate'', hle.trans hle'⟩

def Recorded (orders : Dict String (OrderState N)) (clientId : String)
    (property : OrderState N → Prop) : Prop :=
  ∀ recorded, orders.get? clientId = some recorded → property recorded

/-- Replacing an entry loses nothing exactly when the new one is no older. -/
theorem notBehind_insert_iff (orders : Dict String (OrderState N)) (clientId : String)
    (state : OrderState N) :
    NotBehind orders (orders.insert clientId state) ↔
      Recorded orders clientId fun recorded ↦ recorded.AtMost state := by
  constructor
  · intro h recorded hrecorded
    obtain ⟨state', hstate', hle⟩ := h clientId recorded hrecorded
    rw [Dict.get?_insert_self] at hstate'
    rw [Option.some.inj hstate']
    exact hle
  · intro h other recorded hrecorded
    by_cases hkey : other = clientId
    · subst hkey
      exact ⟨state, Dict.get?_insert_self _ _ _, h recorded hrecorded⟩
    · exact ⟨recorded, by rw [Dict.get?_insert_of_ne _ hkey, hrecorded], .refl recorded⟩

namespace Host

def Forward (earlier later : Host V N) : Prop :=
  NotBehind earlier.gateway.orders later.gateway.orders

section Step

variable [Documents N] [NumText N] [BrokerValue V N] [PyText] [Sha1]

/-- In every state of a run, an order has at least the fills it had in any state before, and is
terminal if it was. -/
def OrdersMonotone (h : Host V N) (actions : List (Action V N)) : Prop :=
  Run.Ascends step Forward h actions

/-- Every writer is at least as recent as the entry it replaces. -/
def Timely (h : Host V N) : Action V N → Prop
  | .submitReturned i answer =>
    match h.calls[i]? with
    | some (.submitting order) =>
      Recorded h.gateway.orders order.clientOrderId fun recorded ↦
        match answer with
        | none => recorded.filledQuantity ≤ 0
        | some value =>
          match BrokerValue.int value with
          | .value code =>
            recorded.filledQuantity ≤ 0 ∧ (recorded.status.terminal → code ≤ 0)
          | _ => True
    | _ => True
  | .cancelReturned i _ =>
    match h.calls[i]? with
    | some (.cancelling clientOrderId current) =>
      Recorded h.gateway.orders clientOrderId fun recorded ↦
        recorded.filledQuantity ≤ current.filledQuantity ∧
          (recorded.status.terminal → current.status.terminal)
    | _ => True
  | .errorRecorded i =>
    match h.calls[i]? with
    | some (.rejecting clientId _ _ current) =>
      Recorded h.gateway.orders clientId fun recorded ↦
        recorded.filledQuantity ≤ current.elim 0 OrderState.filledQuantity
    | _ => True
  | .ingest row _ =>
    let clientId := (h.gateway.clientIdForSnapshot row (textAttr row.orderId)).getD ""
    clientId ≠ "" →
      ∀ status quantity price, h.gateway.mapBrokerStatus row.orderStatus = some status →
        QMTGateway.tradedQuantity row = some quantity →
        floatAttr [row.tradedPrice, row.avgPrice, row.price] (BrokerValue.zero V) =
          some price →
        Recorded h.gateway.orders clientId fun recorded ↦
          recorded.filledQuantity ≤ quantity ∧ (recorded.status.terminal → status.terminal)
  | _ => True

section

omit [Documents N] [NumText N] [BrokerValue V N] [PyText] [Sha1]

theorem forward_of_eq {h h' : Host V N} (heq : h'.gateway.orders = h.gateway.orders) :
    Forward h h' := by
  rw [Forward, heq]
  exact .refl _

theorem forward_of_insert_iff {h h' : Host V N} {clientId : String} {state : OrderState N}
    (heq : h'.gateway.orders = h.gateway.orders.insert clientId state) :
    Forward h h' ↔ Recorded h.gateway.orders clientId fun recorded ↦ recorded.AtMost state := by
  rw [Forward, heq]
  exact notBehind_insert_iff _ _ _

end

omit [BrokerValue V N] [PyText] in
theorem registerClientIdentity_orders (g : QMTGateway V N) (file : Option (List Char))
    (clientOrderId : String) (now : ClaimTime) :
    (g.registerClientIdentity file clientOrderId now).1.orders = g.orders := by
  unfold QMTGateway.registerClientIdentity
  split
  · rfl
  · split
    · rfl
    · split
      · rfl
      · simp only
        split
        · rfl
        · rfl

section

variable (h : Host V N)
include h

theorem forward_submit (order : Order N) (now : ClaimTime) :
    Forward h (h.submit order now) := by
  unfold submit
  split
  · exact forward_of_eq rfl
  · rename_i hnew
    split
    · refine (forward_of_insert_iff rfl).mpr ?_
      intro recorded hrecorded
      exact absurd (Option.isSome_of_eq_some hrecorded) hnew
    · have horders := registerClientIdentity_orders h.gateway h.file order.clientOrderId now
      split
      · exact forward_of_eq rfl
      · split
        · rename_i heq
          rw [heq] at horders
          exact forward_of_eq horders
        · rename_i heq
          rw [heq] at horders
          exact forward_of_eq horders

/-- The answer to a submission replaces the entry by one without fills. -/
theorem forward_submitReturned_iff (i : ℕ) (answer : Option V) :
    Forward h (h.step (.submitReturned i answer)) ↔ Timely h (.submitReturned i answer) := by
  cases hcall : h.calls[i]? with
  | none =>
    simp only [step, Timely, hcall]
    exact iff_of_true (forward_of_eq rfl) trivial
  | some call =>
    cases call with
    | submitting order =>
      match answer with
      | none =>
        simp only [step, Timely, hcall, QMTGateway.submitReturned]
        rw [forward_of_insert_iff rfl]
        refine forall₂_congr fun recorded hrecorded ↦ ?_
        exact ⟨fun hle ↦ hle.filled, fun hle ↦ ⟨hle, fun _ ↦ rfl⟩⟩
      | some value =>
        cases hcode : (BrokerValue.int value : Conversion ℤ) with
        | value code =>
          simp only [step, Timely, hcall, QMTGateway.submitReturned, hcode]
          by_cases hrefused : code ≤ 0
          · simp only [if_pos hrefused]
            rw [forward_of_insert_iff rfl]
            refine forall₂_congr fun recorded hrecorded ↦ ?_
            exact ⟨fun hle ↦ ⟨hle.filled, fun _ ↦ hrefused⟩, fun hle ↦ ⟨hle.1, fun _ ↦ rfl⟩⟩
          · simp only [if_neg hrefused]
            rw [forward_of_insert_iff rfl]
            refine forall₂_congr fun recorded hrecorded ↦ ?_
            constructor
            · exact fun hle ↦ ⟨hle.filled, fun hterminal ↦ nomatch hle.terminal hterminal⟩
            · exact fun hle ↦ ⟨hle.1, fun hterminal ↦ absurd (hle.2 hterminal) hrefused⟩
        | refused =>
          simp only [step, Timely, hcall, QMTGateway.submitReturned, hcode]
          exact iff_of_true (forward_of_eq rfl) fun _ _ ↦ trivial
        | failed =>
          simp only [step, Timely, hcall, QMTGateway.submitReturned, hcode]
          exact iff_of_true (forward_of_eq rfl) fun _ _ ↦ trivial
    | _ =>
      simp only [step, Timely, hcall]
      exact iff_of_true (forward_of_eq rfl) trivial

omit [Documents N] [NumText N] [PyText] [Sha1] in
/-- A cancelled dry run keeps its fills. -/
theorem forward_cancel (clientOrderId : String) :
    Forward h (h.cancel clientOrderId) := by
  unfold cancel
  split
  · refine (forward_of_insert_iff rfl).mpr ?_
    intro recorded hrecorded
    refine ⟨?_, fun _ ↦ rfl⟩
    change recorded.filledQuantity ≤
      (h.gateway.orders.get? clientOrderId).elim 0 OrderState.filledQuantity
    replace hrecorded : h.gateway.orders.get? clientOrderId = some recorded := hrecorded
    rw [hrecorded]
    exact le_rfl
  · split
    · exact forward_of_eq rfl
    · split
      · unfold requestCancel
        split
        · exact forward_of_eq rfl
        · exact forward_of_eq rfl
      · exact forward_of_eq rfl

omit [Documents N] [NumText N] [BrokerValue V N] [PyText] [Sha1] in
theorem forward_lookedUp (i : ℕ) (clientOrderId : String) :
    Forward h (h.lookedUp i clientOrderId) := by
  unfold lookedUp
  simp only
  split
  · unfold requestCancel
    split
    · exact forward_of_eq rfl
    · exact forward_of_eq rfl
  · exact forward_of_eq rfl

/-- The answer to a cancel request restores the entry the request read. -/
theorem forward_cancelReturned_iff (i : ℕ) (failure : Option String) :
    Forward h (h.step (.cancelReturned i failure)) ↔ Timely h (.cancelReturned i failure) := by
  cases hcall : h.calls[i]? with
  | none =>
    simp only [step, Timely, hcall]
    exact iff_of_true (forward_of_eq rfl) trivial
  | some call =>
    cases call with
    | cancelling clientOrderId current =>
      simp only [step, Timely, hcall]
      rw [forward_of_insert_iff rfl]
      refine forall₂_congr fun recorded hrecorded ↦ ?_
      exact ⟨fun hle ↦ ⟨hle.filled, hle.terminal⟩, fun hle ↦ ⟨hle.1, hle.2⟩⟩
    | _ =>
      simp only [step, Timely, hcall]
      exact iff_of_true (forward_of_eq rfl) trivial

/-- An error report keeps the fills of the entry it read. -/
theorem forward_errorRecorded_iff (i : ℕ) :
    Forward h (h.step (.errorRecorded i)) ↔ Timely h (.errorRecorded i) := by
  cases hcall : h.calls[i]? with
  | none =>
    simp only [step, Timely, hcall]
    exact iff_of_true (forward_of_eq rfl) trivial
  | some call =>
    cases call with
    | rejecting clientId brokerId message current =>
      simp only [step, Timely, hcall]
      rw [forward_of_insert_iff rfl]
      refine forall₂_congr fun recorded hrecorded ↦ ?_
      exact ⟨fun hle ↦ hle.filled, fun hle ↦ ⟨hle, fun _ ↦ rfl⟩⟩
    | _ =>
      simp only [step, Timely, hcall]
      exact iff_of_true (forward_of_eq rfl) trivial

end

omit [Documents N] [NumText N] [BrokerValue V N] [PyText] [Sha1] in
theorem noteBrokerId_orders (g : QMTGateway V N) (brokerId clientId : String) :
    (g.noteBrokerId brokerId clientId).orders = g.orders := by
  unfold QMTGateway.noteBrokerId
  split
  · rfl
  · rfl

section

omit [Documents N] [NumText N] [PyText] [Sha1]

theorem noteBrokerId_mapBrokerStatus (g : QMTGateway V N) (brokerId clientId : String) :
    (g.noteBrokerId brokerId clientId).mapBrokerStatus = g.mapBrokerStatus := by
  unfold QMTGateway.noteBrokerId
  split
  · rfl
  · rfl

theorem noteUnresolved_orders (g : QMTGateway V N) (row : OrderRow V) :
    (g.noteUnresolved row).orders = g.orders := by
  unfold QMTGateway.noteUnresolved
  simp only
  split
  · rfl
  · rfl

end

theorem forward_ingest_iff (h : Host V N) (row : OrderRow V) (source : String) :
    Forward h (h.step (.ingest row source)) ↔ Timely h (.ingest row source) := by
  simp only [step, Timely, QMTGateway.ingestOrderSnapshot]
  by_cases hknown : (h.gateway.clientIdForSnapshot row (textAttr row.orderId)).getD "" = ""
  · rw [if_pos hknown]
    exact iff_of_true (forward_of_eq (noteUnresolved_orders _ _)) (absurd hknown)
  · rw [if_neg hknown]
    have horders := noteBrokerId_orders h.gateway (textAttr row.orderId)
      ((h.gateway.clientIdForSnapshot row (textAttr row.orderId)).getD "")
    simp only [QMTGateway.snapshotState, noteBrokerId_mapBrokerStatus, ne_eq, hknown,
      not_false_eq_true, forall_const]
    cases hstatus : h.gateway.mapBrokerStatus row.orderStatus with
    | none => exact iff_of_true (forward_of_eq horders) (by simp)
    | some status =>
      cases hquantity : QMTGateway.tradedQuantity row with
      | none => exact iff_of_true (forward_of_eq horders) (by simp)
      | some quantity =>
        cases hprice : floatAttr [row.tradedPrice, row.avgPrice, row.price]
            (BrokerValue.zero V) with
        | none => exact iff_of_true (forward_of_eq horders) (by simp)
        | some price =>
          generalize (h.gateway.clientIdForSnapshot row (textAttr row.orderId)).getD "" =
            clientId at horders ⊢
          let state : OrderState N := {
            clientOrderId := clientId
            brokerOrderId :=
              if textAttr row.orderId = "" then none else some (textAttr row.orderId)
            status
            filledQuantity := quantity
            avgPrice := price
            lastMessage := "broker_" ++ source }
          let h' : Host V N := { h with
            gateway := (h.gateway.noteBrokerId (textAttr row.orderId) clientId).record state }
          have hinsert := congrArg (fun orders ↦ orders.insert clientId state) horders
          refine (forward_of_insert_iff hinsert).trans ?_
          constructor
          · intro hle status' quantity' price' hstatus' hquantity' _ recorded hrecorded
            rw [← Option.some.inj hstatus', ← Option.some.inj hquantity']
            exact ⟨(hle recorded hrecorded).filled, (hle recorded hrecorded).terminal⟩
          · intro hle recorded hrecorded
            have hboth := hle status quantity price rfl rfl rfl recorded hrecorded
            exact ⟨hboth.1, hboth.2⟩

/-- A step moves what is recorded forward exactly when its writer is recent enough. -/
theorem forward_step_iff (h : Host V N) (action : Action V N) :
    Forward h (h.step action) ↔ Timely h action := by
  cases action with
  | submit order now => exact iff_of_true (forward_submit h order now) trivial
  | orderStock i =>
    refine iff_of_true ?_ trivial
    simp only [step]
    split
    · exact forward_of_eq rfl
    · exact forward_of_eq rfl
  | submitReturned i answer => exact forward_submitReturned_iff h i answer
  | cancel clientOrderId => exact iff_of_true (forward_cancel h clientOrderId) trivial
  | lookedUp i =>
    refine iff_of_true ?_ trivial
    simp only [step]
    split
    · exact forward_lookedUp h i _
    · exact forward_of_eq rfl
  | cancelReturned i failure => exact forward_cancelReturned_iff h i failure
  | ingest row source => exact forward_ingest_iff h row source
  | errorReported error =>
    refine iff_of_true ?_ trivial
    simp only [step, errorReported]
    split
    · exact forward_of_eq rfl
    · exact forward_of_eq rfl
  | errorRecorded i => exact forward_errorRecorded_iff h i
  | abandon _ => exact iff_of_true (forward_of_eq rfl) trivial
  | startPreflight => exact iff_of_true (forward_of_eq rfl) trivial
  | endPreflight _ => exact iff_of_true (forward_of_eq rfl) trivial
  | bindLiveClient _ => exact iff_of_true (forward_of_eq rfl) trivial
  | disconnect => exact iff_of_true (forward_of_eq rfl) trivial
  | onConnected => exact iff_of_true (forward_of_eq rfl) trivial
  | onDisconnected => exact iff_of_true (forward_of_eq rfl) trivial
  | elsewhere _ => exact iff_of_true (forward_of_eq rfl) trivial

/-- From any state, no order ever loses fills or leaves a terminal state exactly when every writer
is at least as recent as the entry it replaces. -/
theorem ordersMonotone_iff (h : Host V N) (actions : List (Action V N)) :
    OrdersMonotone h actions ↔ Run.Always step Timely h actions := by
  rw [OrdersMonotone, Run.ascends_iff_always (fun h ↦ .refl _) (fun _ _ _ ↦ .trans)]
  exact ⟨.imp fun h action ↦ (forward_step_iff h action).mp,
    .imp fun h action ↦ (forward_step_iff h action).mpr⟩

end Step

section Overtaken

/-- The rows a venue has for its orders, in the order it produced them: the cumulative fill of an
order never decreases. -/
def Cumulative [BrokerValue V N] (venue : List (OrderRow V)) : Prop :=
  venue.Pairwise fun earlier later ↦ textAttr earlier.orderId = textAttr later.orderId →
    ∀ quantity ∈ QMTGateway.tradedQuantity earlier,
      ∀ quantity' ∈ QMTGateway.tradedQuantity later, quantity ≤ quantity'

def Delivered (venue : List (OrderRow V)) (actions : List (Action V N)) : Prop :=
  ∀ row source, .ingest row source ∈ actions → row ∈ venue

def freshGateway : QMTGateway XtValue PyNumber where
  config := liveConfig
  xtConst := none
  orders := .empty
  brokerToClient := .empty
  remarkToClient := .empty
  clientToRemark := .empty
  unresolvedOwnedRemarks := []
  identityStore := .fresh
  connected := false
  preflightOk := false

example : (QMTGateway.create liveConfig none : Except (GatewayError PyNumber) _) = .ok freshGateway :=
  rfl

def rowOf (status volume : ℤ) : OrderRow XtValue where
  orderId := some (.int 7001)
  orderRemark := none
  orderStatus := some (.int status)
  tradedVolume := some (.int volume)
  filledVolume := none
  tradedPrice := some (.int 10)
  avgPrice := none
  price := some (.int 10)

def approvedOrder : Order PyNumber where
  clientOrderId := "cid-001"
  symbol := "600000.SH"
  side := .buy
  quantity := 200
  orderType := .limit
  price := some (.int 10)
  riskCheckResult := "approved"

def filledInParts : List (OrderRow XtValue) := [rowOf 55 100, rowOf 56 200]

/-- The row of the whole fill arrives, and then the one of the first part. -/
def overtaken : List (Action XtValue PyNumber) := [
  .bindLiveClient liveConstants,
  .endPreflight [],
  .submit approvedOrder ClaimSystem.noon,
  .orderStock 0,
  .submitReturned 0 (some (.int 7001)),
  .ingest (rowOf 56 200) "callback",
  .ingest (rowOf 55 100) "query"]

def freshHost : Host XtValue PyNumber := ⟨freshGateway, [], none, []⟩

/-- The order has lost half of its fill and its terminal state. -/
theorem overtaken_entries :
    (((Run.run step freshHost (overtaken.take 6)).gateway.orders.get? "cid-001").map
        fun state ↦ (state.filledQuantity, state.status)) = some (200, .filled) ∧
      (((Run.run step freshHost overtaken).gateway.orders.get? "cid-001").map
        fun state ↦ (state.filledQuantity, state.status)) = some (100, .partlyFilled) := by
  decide +kernel

theorem not_ordersMonotone_overtaken :
    Cumulative filledInParts ∧ Delivered filledInParts overtaken ∧
      ¬ OrdersMonotone freshHost overtaken := by
  refine ⟨?_, ?_, ?_⟩
  · simp only [Cumulative, filledInParts, List.pairwise_cons]
    refine ⟨?_, by simp⟩
    intro later hlater _ quantity hquantity quantity' hquantity'
    rw [List.mem_singleton.mp hlater] at hquantity'
    have hfirst : QMTGateway.tradedQuantity (rowOf 55 100) = some 100 := rfl
    have hsecond : QMTGateway.tradedQuantity (rowOf 56 200) = some 200 := rfl
    rw [hfirst, Option.mem_some_iff] at hquantity
    rw [hsecond, Option.mem_some_iff] at hquantity'
    omega
  · intro row source hmem
    simp only [overtaken, List.mem_cons, List.not_mem_nil, reduceCtorEq, Action.ingest.injEq,
      false_or, or_false] at hmem
    rcases hmem with ⟨rfl, rfl⟩ | ⟨rfl, rfl⟩
    · simp [filledInParts]
    · simp [filledInParts]
  · intro hmonotone
    obtain ⟨hbefore, hafter⟩ := overtaken_entries
    obtain ⟨state, hstate, hentry⟩ := Option.map_eq_some_iff.mp hbefore
    have hforward := hmonotone (overtaken.take 6) (overtaken.drop 6) [] (by simp)
    obtain ⟨state', hstate', hle⟩ := hforward "cid-001" state hstate
    rw [List.take_append_drop] at hstate'
    rw [hstate', Option.map_some, Option.some.injEq] at hafter
    have hfilled := hle.filled
    rw [(Prod.mk.inj hentry).1, (Prod.mk.inj hafter).1] at hfilled
    exact absurd hfilled (by decide)

end Overtaken

end Host

end QuantAgent.Execution
