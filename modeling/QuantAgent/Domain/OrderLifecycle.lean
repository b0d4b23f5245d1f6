import QuantAgent.Domain.HexHashing
import QuantAgent.Domain.OrderBook
import QuantAgent.Domain.RatText
import QuantAgent.Library.Run

/-!
# The life of an order

What holds of every order after any sequence of calls of a book.  Nothing here looks at the sign of
a quantity: an intent that was built by hand may ask for nothing, and an execution may report no
shares or fewer than none.  Everything else holds of every run, and the rest exactly of the runs
without such an intent or execution.
-/

namespace QuantAgent.Domain

open Library Library.Run

inductive BookCall (N : Type) where
  | opening (intent : OrderIntent N) (parentOrderId : Option String) (now : String)
  | event (orderId : String) (kind : OrderEventType) (fill : Option (Fill N))
      (reason : Option String) (riskDecision : Option (RiskDecision N)) (now : String)

namespace OrderBook

section Calls

variable {N : Type} [Arithmetic N] [Hashing N]

def call (book : OrderBook N) : BookCall N → OrderBook N × Except OrderError (Order N)
  | .opening intent parentOrderId now =>
    let (after, order) := book.openOrder intent parentOrderId now
    (after, .ok order)
  | .event orderId kind fill reason riskDecision now =>
    match book.apply orderId kind fill reason riskDecision now with
    | .error error => (book, .error error)
    | .ok (after, order) => (after, .ok order)

def step (book : OrderBook N) (input : BookCall N) : OrderBook N := (book.call input).1

variable {book : OrderBook N} {parentOrderId reason : Option String}

variable {intent : OrderIntent N}

theorem step_opening (now : String)
    (hnew : book.orders.get? (Order.fromIntent intent parentOrderId).orderId = none) :
    (book.step (.opening intent parentOrderId now)).orders = book.orders.insert
      (Order.fromIntent intent parentOrderId).orderId (Order.fromIntent intent parentOrderId) :=
  orders_openOrder now hnew

theorem step_opening_known {known : Order N} (now : String)
    (hknown : book.orders.get? (Order.fromIntent intent parentOrderId).orderId = some known) :
    book.step (.opening intent parentOrderId now) = book :=
  openOrder_known now hknown

variable {orderId now : String} {kind : OrderEventType} {fill : Option (Fill N)}
  {riskDecision : Option (RiskDecision N)}

variable {order updated : Order N}

theorem step_event (hget : book.orders.get? orderId = some order)
    (hadvance : order.apply kind fill reason = .ok (some updated)) :
    (book.step (.event orderId kind fill reason riskDecision now)).orders =
      book.orders.insert orderId updated := by
  simp [step, call, OrderBook.apply, hget, hadvance]

theorem get?_step_event (hget : book.orders.get? orderId = some order)
    (riskDecision : Option (RiskDecision N)) (now : String)
    (hadvance : order.apply kind fill reason = .ok (some updated)) :
    (book.step (.event orderId kind fill reason riskDecision now)).orders.get? orderId =
      some updated := by
  rw [step_event hget hadvance, Dict.get?_insert_self]

theorem step_event_of_not
    (h : ∀ order updated, book.orders.get? orderId = some order → order.apply kind fill reason ≠
      .ok (some updated)) :
    book.step (.event orderId kind fill reason riskDecision now) = book := by
  cases happly : book.apply orderId kind fill reason riskDecision now with
  | error error => simp [step, call, happly]
  | ok result =>
    obtain ⟨after, updated⟩ := result
    obtain ⟨order, hget, ⟨-, hsame, -⟩ | ⟨hadvance, -, -⟩⟩ := apply_ok happly
    · simp [step, call, happly, hsame]
    · exact absurd hadvance (h order updated hget)

/-- What a call raises leaves the orders and the events as they are. -/
theorem call_error {input : BookCall N} {error : OrderError}
    (h : (book.call input).2 = .error error) : (book.call input).1 = book := by
  cases input with
  | opening intent parentOrderId now => cases h
  | event orderId kind fill reason riskDecision now =>
    cases happly : book.apply orderId kind fill reason riskDecision now with
    | error raised => simp [call, happly]
    | ok result => simp [call, happly] at h

end Calls

end OrderBook

namespace Order

/-- What the record of one order is meant to satisfy. -/
structure Sound (order : Order ℚ) : Prop where
  total : order.filledQuantity = (order.fills.map Fill.quantity).sum
  nonneg : 0 ≤ order.filledQuantity
  within : order.filledQuantity ≤ order.quantity
  distinct : (order.fills.map Fill.executionId).Nodup
  filled : order.status = .filled ↔ order.filledQuantity = order.quantity
  partlyFilled : order.status = .partiallyFilled →
    0 < order.filledQuantity ∧ order.filledQuantity < order.quantity
  rejected : order.status = .rejected → order.fills = []

theorem fromIntent_sound_iff [Hashing ℚ] (intent : OrderIntent ℚ) (parentOrderId : Option String) :
    (fromIntent intent parentOrderId).Sound ↔ 0 < intent.quantity := by
  constructor
  · intro h
    have hwithin : (0 : ℚ) ≤ intent.quantity := by simpa [fromIntent] using h.within
    have hopen : (fromIntent intent parentOrderId).status ≠ .filled := by simp [fromIntent]
    have hne : (0 : ℚ) ≠ intent.quantity := by simpa [fromIntent] using mt h.filled.mpr hopen
    exact lt_of_le_of_ne hwithin hne
  · intro h
    exact {
      total := by simp [fromIntent]
      nonneg := by simp [fromIntent]
      within := by simpa [fromIntent] using h.le
      distinct := by simp [fromIntent]
      filled := by simpa [fromIntent] using h.ne
      partlyFilled := by simp [fromIntent]
      rejected := by simp [fromIntent] }

/-- The statuses in which an execution can be booked. -/
def isWorking {N : Type} (order : Order N) : Bool :=
  order.status ∈ [OrderStatus.accepted, .partiallyFilled, .cancelRequested]

section

variable (order : Order ℚ) (fill : Fill ℚ)

/-- A book takes an execution it has not seen, for an order that works and has room for it. -/
theorem accepts_iff :
    order.Accepts fill ↔ order.findFill fill.executionId = none ∧ order.isWorking = true ∧
      order.filledQuantity + fill.quantity ≤ order.quantity := by
  have hallowed : (order.afterFill fill).status ∈ allowedTransitions order.status ↔
      order.isWorking = true := by
    have hstatus : (order.afterFill fill).status = .filled ∨
        (order.afterFill fill).status = .partiallyFilled := by
      unfold afterFill
      by_cases h : order.filledQuantity + fill.quantity = order.quantity <;> simp [h]
    rcases hstatus with h | h <;> rw [h] <;> unfold isWorking <;>
      cases order.status <;> decide
  have hlive : order.isWorking = true → order.isTerminal = false := by
    unfold isWorking isTerminal
    cases order.status <;> decide
  constructor
  · intro h
    exact ⟨h.new, hallowed.mp h.allowed, by simpa using h.room⟩
  · rintro ⟨hnew, hworks, hroom⟩
    exact ⟨hnew, hlive hworks, by simpa using hroom, hallowed.mpr hworks⟩

theorem fills_afterFill :
    (order.afterFill fill).fills = order.fills ++ [fill] := rfl

theorem filledQuantity_afterFill :
    (order.afterFill fill).filledQuantity = order.filledQuantity + fill.quantity := rfl

theorem status_afterFill :
    (order.afterFill fill).status = if order.filledQuantity + fill.quantity = order.quantity then
      .filled else .partiallyFilled := by
  simp [afterFill]

end

variable {order : Order ℚ}

theorem Sound.filled_lt (h : order.Sound) (hworks : order.isWorking = true) :
    order.filledQuantity < order.quantity := by
  refine lt_of_le_of_ne h.within (fun heq ↦ ?_)
  rw [isWorking, h.filled.mpr heq] at hworks
  exact absurd hworks (by decide)

/-- An execution keeps the record sound, without taking shares back, exactly when it reports no
negative quantity and leaves something filled. -/
theorem Sound.afterFill_iff {fill : Fill ℚ} (h : order.Sound) (haccepts : order.Accepts fill) :
    ((order.afterFill fill).Sound ∧ order.filledQuantity ≤ (order.afterFill fill).filledQuantity) ↔
      0 ≤ fill.quantity ∧ 0 < order.filledQuantity + fill.quantity := by
  obtain ⟨hnew, hworks, hroom⟩ := (accepts_iff order fill).mp haccepts
  have hpositive := h.nonneg.trans_lt (h.filled_lt hworks)
  constructor
  · intro hafter
    obtain ⟨hsound, hgrows⟩ := hafter
    rw [filledQuantity_afterFill] at hgrows
    refine ⟨by linarith, ?_⟩
    by_cases hfull : order.filledQuantity + fill.quantity = order.quantity
    · rwa [hfull]
    · have hpart := hsound.partlyFilled (by rw [status_afterFill, if_neg hfull])
      simpa [filledQuantity_afterFill] using hpart.1
  · intro hquantity
    obtain ⟨hnonneg, hsome⟩ := hquantity
    refine ⟨?_, by rw [filledQuantity_afterFill]; linarith⟩
    exact {
      total := by simp [fills_afterFill, filledQuantity_afterFill, h.total]
      nonneg := by simpa [filledQuantity_afterFill] using hsome.le
      within := hroom
      distinct := by
        rw [fills_afterFill, List.map_append, List.nodup_append]
        refine ⟨h.distinct, by simp, fun executionId hmem other hother ↦ ?_⟩
        obtain ⟨existing, hexisting, rfl⟩ := List.mem_map.mp hmem
        obtain rfl : other = fill.executionId := by simpa using hother
        simpa using List.find?_eq_none.mp hnew existing hexisting
      filled := by
        rw [status_afterFill, filledQuantity_afterFill]
        by_cases hfull : order.filledQuantity + fill.quantity = order.quantity <;>
          simp [hfull, afterFill]
      partlyFilled := by
        rw [status_afterFill, filledQuantity_afterFill]
        intro hpart
        have hne : order.filledQuantity + fill.quantity ≠ order.quantity := by
          intro hfull
          simp [hfull] at hpart
        exact ⟨hsome, lt_of_le_of_ne hroom hne⟩
      rejected := by
        rw [status_afterFill]
        split <;> simp }

variable {kind : OrderEventType} {fill : Option (Fill ℚ)} {reason : Option String}

theorem fills_of_apply_rejected {updated : Order ℚ} (hkind : kind.isExecution = false)
    (h : order.apply kind fill reason = .ok (some updated))
    (htarget : kind.targetStatus = .rejected) :
    order.fills = [] := by
  unfold apply at h
  simp only [hkind, Bool.false_eq_true, if_false, htarget, if_true] at h
  split at h
  · cases h
  · split at h
    · cases h
    · rename_i hrejectable
      unfold assertRejectable at hrejectable
      split at hrejectable
      · rename_i hnever
        simp only [Bool.and_eq_true, List.isEmpty_iff] at hnever
        exact hnever.2
      · cases hrejectable

/-- Every other event keeps the record sound. -/
theorem Sound.afterEvent (h : order.Sound) (hkind : kind.isExecution = false)
    (happly : order.apply kind fill reason = .ok (some (order.afterEvent kind reason)))
    (hallowed : kind.targetStatus ∈ allowedTransitions order.status) :
    (order.afterEvent kind reason).Sound := by
  have hopen : order.status ≠ .filled := by
    intro hfilled
    rw [hfilled] at hallowed
    exact absurd hallowed (by simp [allowedTransitions])
  have htarget : kind.targetStatus ≠ .filled ∧ kind.targetStatus ≠ .partiallyFilled := by
    cases kind <;> simp [OrderEventType.targetStatus, OrderEventType.isExecution] at hkind ⊢
  exact {
    total := h.total
    nonneg := h.nonneg
    within := h.within
    distinct := h.distinct
    filled := by
      have hleft := htarget.1
      have hright := mt h.filled.mpr hopen
      exact iff_of_false hleft hright
    partlyFilled := fun hpart ↦ absurd hpart htarget.2
    rejected := fun hrejected ↦ show order.fills = [] from
      fills_of_apply_rejected hkind happly hrejected }

end Order

namespace OrderBook

section Runs

variable [Hashing ℚ]

def Sound (book : OrderBook ℚ) : Prop :=
  ∀ orderId order, book.orders.get? orderId = some order → order.Sound

/-- A call takes no shares back, leaves an order that is over as it is, and changes nothing when it
raises. -/
structure Steady (book : OrderBook ℚ) (input : BookCall ℚ) : Prop where
  grows : ∀ orderId order, book.orders.get? orderId = some order →
    ∃ after, (book.step input).orders.get? orderId = some after ∧
      order.filledQuantity ≤ after.filledQuantity ∧ (order.isTerminal = true → after = order)
  raised : ∀ error, (book.call input).2 = .error error →
    (book.call input).1.orders = book.orders ∧ (book.call input).1.events = book.events

/-- The life-cycle invariant of a run that starts with an empty book. -/
def LifecycleHolds (inputs : List (BookCall ℚ)) : Prop :=
  Throughout step Sound .empty inputs ∧ Always step Steady .empty inputs

/-- A new order asks for shares; a new execution of a working order that has room for it reports no
negative quantity, and not zero while nothing is filled. -/
def Proper (book : OrderBook ℚ) : BookCall ℚ → Prop
  | .opening intent parentOrderId _ =>
    book.orders.get? (Order.fromIntent intent parentOrderId).orderId = none → 0 < intent.quantity
  | .event orderId kind fill _ _ _ =>
    ∀ order execution, book.orders.get? orderId = some order → kind.isExecution = true →
      fill = some execution → order.findFill execution.executionId = none →
      order.isWorking = true → order.filledQuantity + execution.quantity ≤ order.quantity →
      0 ≤ execution.quantity ∧ 0 < order.filledQuantity + execution.quantity

variable {book : OrderBook ℚ} {input : BookCall ℚ}

theorem Steady.of_raised
    (hgrows : ∀ orderId order, book.orders.get? orderId = some order → ∃ after, (book.step
      input).orders.get? orderId = some after ∧ order.filledQuantity ≤ after.filledQuantity ∧
      (order.isTerminal = true → after = order)) :
    Steady book input where
  grows := hgrows
  raised error h := by
    rw [call_error h]
    exact ⟨rfl, rfl⟩

variable {updated order : Order ℚ}

variable {orderId : String}

omit [Hashing ℚ] in
/-- Writing one order keeps a book sound exactly when that order is sound. -/
theorem sound_insert_iff {after : OrderBook ℚ} (h : Sound book)
    (hafter : after.orders = book.orders.insert orderId updated) :
    Sound after ↔ updated.Sound := by
  constructor
  · intro hsound
    exact hsound orderId updated (by rw [hafter, Dict.get?_insert_self])
  · intro hsound other order hget
    rw [hafter, Dict.get?_insert] at hget
    split at hget
    · rwa [← Option.some.inj hget]
    · exact h other order hget

theorem steady_of_step_eq (h : book.step input = book) :
    Steady book input :=
  .of_raised fun orderId order hget ↦ ⟨order, by rwa [h], le_rfl, fun _ ↦ rfl⟩

/-- Writing a successor of one order is steady exactly when the successor is. -/
theorem steady_event_iff (hget : book.orders.get? orderId = some order)
    (hafter : (book.step input).orders = book.orders.insert orderId updated) :
    Steady book input ↔ order.filledQuantity ≤ updated.filledQuantity ∧
      (order.isTerminal = true → updated = order) := by
  constructor
  · intro h
    obtain ⟨after, hafter', hgrows⟩ := h.grows orderId order hget
    rw [hafter, Dict.get?_insert_self] at hafter'
    rwa [Option.some.inj hafter']
  · intro h
    refine .of_raised fun other held hheld ↦ ?_
    by_cases hsame : other = orderId
    · subst hsame
      rw [← Option.some.inj (hget.symm.trans hheld)]
      exact ⟨updated, by rw [hafter, Dict.get?_insert_self], h⟩
    · exact ⟨held, by rwa [hafter, Dict.get?_insert_of_ne _ hsame], le_rfl, fun _ ↦ rfl⟩

theorem sound_step_opening (h : Sound book) (intent : OrderIntent ℚ) (parentOrderId : Option String)
    (now : String) :
    (Sound (book.step (.opening intent parentOrderId now)) ∧
      Steady book (.opening intent parentOrderId now)) ↔
      Proper book (.opening intent parentOrderId now) := by
  cases hget : book.orders.get? (Order.fromIntent intent parentOrderId).orderId with
  | some known =>
    have hstep := step_opening_known now hget
    refine iff_of_true ⟨by rwa [hstep], steady_of_step_eq hstep⟩ (fun hnew ↦ ?_)
    rw [hget] at hnew
    cases hnew
  | none =>
    have hstep := step_opening now hget
    have hsteady : Steady book (.opening intent parentOrderId now) := by
      refine .of_raised fun other held hheld ↦ ⟨held, ?_, le_rfl, fun _ ↦ rfl⟩
      have hne : other ≠ (Order.fromIntent intent parentOrderId).orderId := by
        intro hsame
        rw [← hsame, hheld] at hget
        cases hget
      rwa [hstep, Dict.get?_insert_of_ne _ hne]
    rw [sound_insert_iff h hstep, Order.fromIntent_sound_iff]
    exact ⟨fun hsound _ ↦ hsound.1, fun hproper ↦ ⟨hproper hget, hsteady⟩⟩

theorem sound_step_event (h : Sound book) (orderId now : String) (kind : OrderEventType)
    (fill : Option (Fill ℚ)) (reason : Option String) (riskDecision : Option (RiskDecision ℚ)) :
    (Sound (book.step (.event orderId kind fill reason riskDecision now)) ∧
      Steady book (.event orderId kind fill reason riskDecision now)) ↔
      Proper book (.event orderId kind fill reason riskDecision now) := by
  by_cases hadvances : ∃ order updated, book.orders.get? orderId = some order ∧
      order.apply kind fill reason = .ok (some updated)
  · obtain ⟨order, updated, hget, hadvance⟩ := hadvances
    have hstep : (book.step (.event orderId kind fill reason riskDecision now)).orders =
        book.orders.insert orderId updated := step_event hget hadvance
    rw [sound_insert_iff h hstep, steady_event_iff hget hstep]
    have hsound := h orderId order hget
    rcases Order.apply_some hadvance with
      ⟨execution, hkind, rfl, hnew, hlive, hroom, hallowed, rfl⟩ | ⟨hkind, hallowed, rfl⟩
    · have haccepts : order.Accepts execution := ⟨hnew, hlive, hroom, hallowed⟩
      have hiff := hsound.afterFill_iff haccepts
      constructor
      · intro hafter held other hheld _ hother _ _ _
        rw [← Option.some.inj (hget.symm.trans hheld), ← Option.some.inj hother]
        exact hiff.mp ⟨hafter.1, hafter.2.1⟩
      · intro hproper
        obtain ⟨hunseen, hworks, hfits⟩ := (Order.accepts_iff order execution).mp haccepts
        have hafter := hiff.mpr (hproper order execution hget hkind rfl hunseen hworks hfits)
        refine ⟨hafter.1, hafter.2, fun hterminal ↦ ?_⟩
        rw [hlive] at hterminal
        cases hterminal
    · refine iff_of_true ⟨hsound.afterEvent hkind hadvance hallowed, le_rfl, fun hterminal ↦ ?_⟩ ?_
      · rw [Order.isTerminal] at hterminal
        cases hstatus : order.status <;>
          simp [hstatus, terminalStatuses, allowedTransitions] at hterminal hallowed
      · intro _ _ _ hexecution
        rw [hkind] at hexecution
        cases hexecution
  · have hstep : book.step (.event orderId kind fill reason riskDecision now) = book :=
      step_event_of_not fun order updated hget hadvance ↦ hadvances ⟨order, updated, hget, hadvance⟩
    refine iff_of_true ⟨by rwa [hstep], steady_of_step_eq hstep⟩ ?_
    intro order execution hget hkind hfill hnew hworks hroom
    subst hfill
    have haccepts := (Order.accepts_iff order execution).mpr ⟨hnew, hworks, hroom⟩
    exact absurd ⟨order, _, hget, (Order.apply_execution_iff hkind).mpr ⟨haccepts, rfl⟩⟩ hadvances

/-- A call keeps a book sound and is steady exactly when it is proper. -/
theorem sound_step_iff (h : Sound book) (input : BookCall ℚ) :
    (Sound (book.step input) ∧ Steady book input) ↔ Proper book input := by
  cases input with
  | opening intent parentOrderId now => exact sound_step_opening h intent parentOrderId now
  | event orderId kind fill reason riskDecision now =>
    exact sound_step_event h orderId now kind fill reason riskDecision

omit [Hashing ℚ] in
theorem sound_empty : Sound .empty := by
  intro orderId order hget
  cases hget

/-- The life-cycle invariant holds of exactly the runs whose calls are all proper. -/
theorem lifecycleHolds_iff (inputs : List (BookCall ℚ)) :
    LifecycleHolds inputs ↔ Always step Proper .empty inputs := by
  have hstep : ∀ book input, Sound book →
      ((Sound (book.step input) ∧ Steady book input) ↔ Proper book input) :=
    fun _ input h ↦ sound_step_iff h input
  exact throughout_and_always_iff hstep sound_empty

def sampleIntent : OrderIntent ℚ where
  orderIntentId := "oi_1"
  symbol := "600000.SH"
  side := .buy
  quantity := 100
  tradeDate := "2024-01-02"
  limitPrice := none
  referencePrice := none
  lineage := .empty

def emptyFill (orderId : String) : Fill ℚ where
  executionId := "ex-1"
  orderId
  symbol := "600000.SH"
  side := .buy
  quantity := 0
  price := 10
  referencePrice := none
  commission := 0
  stampDuty := 0
  transferFee := 0
  filledAt := "2024-01-02T09:31:00+00:00"
  lineage := .empty

/-- An order is opened, approved, submitted and accepted; then the report arrives. -/
def emptyFillCalls (orderId : String) : List (BookCall ℚ) :=
  [.opening sampleIntent none "t0",
    .event orderId .riskApproved none none none "t1",
    .event orderId .submitted none none none "t2",
    .event orderId .accepted none none none "t3",
    .event orderId .partialFill (some (emptyFill orderId)) none none "t4"]

theorem get?_emptyFillCalls (horder : Order.fromIntent sampleIntent none = order) :
    (run step .empty (emptyFillCalls order.orderId)).orders.get? order.orderId =
      some ((((order.afterEvent .riskApproved none).afterEvent .submitted none).afterEvent
        .accepted none).afterFill (emptyFill order.orderId)) := by
  have hstatus : order.status = .pendingRisk := by rw [← horder, Order.fromIntent]
  have hopened : (step .empty (.opening sampleIntent none "t0")).orders.get? order.orderId =
      some order := by
    rw [← horder, step_opening "t0" (Dict.get?_empty _), Dict.get?_insert_self]
  have happroved := get?_step_event hopened none "t1" (Order.apply_event rfl (by decide)
    (by rw [hstatus]; decide) none none : order.apply .riskApproved none none = _)
  have hsubmitted := get?_step_event happroved none "t2"
    (Order.apply_event rfl (by decide)
      (show OrderStatus.submitted ∈ allowedTransitions .approved by decide) none none :
      (order.afterEvent .riskApproved none).apply .submitted none none = _)
  have haccepted := get?_step_event hsubmitted none "t3"
    (Order.apply_event rfl (by decide)
      (show OrderStatus.accepted ∈ allowedTransitions .submitted by decide) none none :
      ((order.afterEvent .riskApproved none).afterEvent .submitted none).apply
        .accepted none none = _)
  have haccepts : (((order.afterEvent .riskApproved none).afterEvent .submitted none).afterEvent
      .accepted none).Accepts (emptyFill order.orderId) := by
    refine (Order.accepts_iff _ _).mpr ⟨?_, rfl, ?_⟩
    · rw [← horder]
      rfl
    · rw [← horder]
      norm_num [Order.afterEvent, Order.fromIntent, emptyFill, sampleIntent]
  exact get?_step_event haccepted none "t4"
    ((Order.apply_execution_iff rfl).mpr ⟨haccepts, rfl⟩)

theorem not_sound_emptyFillCalls :
    ¬ Sound (run step .empty (emptyFillCalls (Order.fromIntent sampleIntent none).orderId)) := by
  intro hsound
  have hheld := get?_emptyFillCalls rfl
  have hpart := (hsound _ _ hheld).partlyFilled (by
    rw [Order.status_afterFill, if_neg]
    norm_num [Order.afterEvent, Order.fromIntent, emptyFill, sampleIntent])
  norm_num [Order.afterFill, Order.afterEvent, Order.fromIntent, emptyFill, sampleIntent] at hpart

end Runs

/-- The order is partially filled, with nothing filled. -/
theorem not_lifecycleHolds_emptyFill :
    ¬ LifecycleHolds (emptyFillCalls (Order.fromIntent sampleIntent none).orderId) := by
  intro h
  obtain ⟨hsound, -⟩ := h
  exact not_sound_emptyFillCalls hsound.last

end OrderBook

end QuantAgent.Domain
