import QuantAgent.Services.Attribution

/-!
# The identity of a delivery

A delivery is claimed under its idempotency key and its run; a second one under the same key is
compared by a fingerprint that leaves the signal identifier out.  Nothing that was accepted or
claimed is forgotten, so a delivery gives rise to at most one canonical order, whatever worker
rounds, recoveries, restarts and crashes follow.
-/

namespace QuantAgent.Services

open Library Execution
open Domain (CanonicalLedger Hashing LedgerRecord Mirror MirrorCall Moment OrderIntent)

namespace PaperOrderService

/-! ## What is never forgotten -/

def openings (s : PaperOrderService) : List String :=
  s.ledger.events.filterMap fun event ↦
    if event.eventType = .created then some event.orderId else none

structure Keeps (before after : PaperOrderService) : Prop where
  requests : ∀ key stored, before.requests.get? key = some stored →
    ∃ later, after.requests.get? key = some later ∧ later.request = stored.request ∧
      later.fingerprint = stored.fingerprint
  intents : ∀ key, before.intents.get? key ≠ none → after.intents.get? key ≠ none

theorem Keeps.refl (s : PaperOrderService) : Keeps s s :=
  ⟨fun _ stored h ↦ ⟨stored, h, rfl, rfl⟩, fun _ h ↦ h⟩

theorem Keeps.trans {first second third : PaperOrderService} (h : Keeps first second)
    (h' : Keeps second third) : Keeps first third where
  requests key stored hstored := by
    obtain ⟨later, hlater, hrequest, hfingerprint⟩ := h.requests key stored hstored
    obtain ⟨last, hlast, hrequest', hfingerprint'⟩ := h'.requests key later hlater
    exact ⟨last, hlast, hrequest'.trans hrequest, hfingerprint'.trans hfingerprint⟩
  intents key hclaimed := h'.intents key (h.intents key hclaimed)

/-- A later root on which nothing more was opened. -/
structure Follows (before after : PaperOrderService) : Prop where
  keeps : Keeps before after
  openings : after.openings = before.openings

/-- A condition that stays while nothing is opened. -/
def Stable (kept : PaperOrderService → Prop) : Prop :=
  ∀ s after, kept s → Follows s after → kept after

variable {key : String}

theorem follows_resolve (s : PaperOrderService) {stored after : Submission}
    (hstored : s.requests.get? key = some stored) (hrequest : after.request = stored.request)
    (hfingerprint : after.fingerprint = stored.fingerprint) :
    Follows s { s with requests := s.requests.insert key after } where
  keeps := by
    refine ⟨fun other found hfound ↦ ?_, fun _ h ↦ h⟩
    rw [Dict.get?_insert]
    split
    · rename_i heq
      rw [heq, hstored] at hfound
      cases hfound
      exact ⟨after, rfl, hrequest, hfingerprint⟩
    · exact ⟨found, hfound, rfl, rfl⟩
  openings := rfl

theorem follows_accept {s : PaperOrderService} (submission : Submission)
    (hnew : s.requests.get? key = none) :
    Follows s { s with requests := s.requests.insert key submission } where
  keeps := by
    refine ⟨fun other found hfound ↦ ?_, fun _ h ↦ h⟩
    have hother : other ≠ key := by
      intro heq
      rw [heq, hnew] at hfound
      cases hfound
    exact ⟨found, by rw [Dict.get?_insert_of_ne _ hother]; exact hfound, rfl, rfl⟩
  openings := rfl

theorem keeps_claim (s : PaperOrderService) (key : String) (claim : IntentClaim)
    (process : Option Process) :
    Keeps s { s with intents := s.intents.insert key claim, process } := by
  refine ⟨fun _ stored h ↦ ⟨stored, h, rfl, rfl⟩, fun other h ↦ ?_⟩
  rw [Dict.get?_insert]
  split
  · simp
  · exact h

variable [Hashing ℚ]

section

variable (s : PaperOrderService) (process : Process) (moment : Moment)

theorem follows_event (orderId : String) (kind : Domain.OrderEventType)
    (fill : Option (Domain.Fill ℚ)) (reason : Option String)
    (decision : Option (Domain.RiskDecision ℚ)) (tradeDate : Option String) :
    Follows s (s.withMirror process ((s.mirror process).perform moment
      (.event orderId kind fill reason decision tradeDate)).1) where
  keeps := ⟨(Keeps.refl s).requests, (Keeps.refl s).intents⟩
  openings := by
    rcases Mirror.appended_cases (s.mirror process) moment
        (.event orderId kind fill reason decision tradeDate) with
      ⟨hsame, -⟩ | ⟨order, event, kept, record, hadvance, hstored, hevent, -, hrecords, -⟩
    · rw [openings, openings, CanonicalLedger.events, CanonicalLedger.events]
      rw [withMirror]
      simp only [hsame]
      rfl
    · have hother : kept.eventType ≠ .created := by
        intro hcreated
        rw [(Domain.OrderEvent.stored_terms hstored).1] at hcreated
        obtain ⟨_, -, happly, rfl⟩ := MirrorCall.advance_event hadvance
        cases hcreated
        exact absurd happly (Domain.Order.apply_created_ne _ _ _ _)
      rw [openings, openings, CanonicalLedger.events, CanonicalLedger.events]
      rw [withMirror]
      simp only [hrecords, List.filterMap_append, List.filterMap_cons, List.filterMap_nil, hevent,
        if_neg hother, List.append_nil]
      rfl

theorem openings_opening (intent : OrderIntent ℚ) (tradeDate : Option String) :
    (s.withMirror process ((s.mirror process).perform moment
        (.opening intent none tradeDate)).1).openings = s.openings ∨
      ∃ orderId, (s.withMirror process ((s.mirror process).perform moment
        (.opening intent none tradeDate)).1).openings = s.openings ++ [orderId] := by
  rcases Mirror.appended_cases (s.mirror process) moment (.opening intent none tradeDate) with
    ⟨hsame, -⟩ | ⟨order, event, kept, record, hadvance, hstored, hevent, -, hrecords, -⟩
  · left
    rw [openings, openings, CanonicalLedger.events, CanonicalLedger.events, withMirror]
    simp only [hsame]
    rfl
  · right
    have hcreated : kept.eventType = .created := by
      rw [(Domain.OrderEvent.stored_terms hstored).1]
      obtain ⟨-, rfl⟩ := MirrorCall.advance_opening hadvance
      rfl
    refine ⟨kept.orderId, ?_⟩
    rw [openings, openings, CanonicalLedger.events, CanonicalLedger.events, withMirror]
    simp only [hrecords, List.filterMap_append, List.filterMap_cons, List.filterMap_nil, hevent,
      if_pos hcreated]
    rfl

end

/-! ## Procedures that open nothing -/

section Stable

variable {always kept : PaperOrderService → Prop}

section

variable (hkept : Stable kept) (halways : ∀ s, kept s → always s)
include hkept halways

theorem stays_event (moment : Moment) (orderId : String) (kind : Domain.OrderEventType)
    (fill : Option (Domain.Fill ℚ)) (reason : Option String)
    (decision : Option (Domain.RiskDecision ℚ)) (tradeDate : Option String) :
    Durable.Upholds always kept
      (mirrored moment (.event orderId kind fill reason decision tradeDate)) fun _ ↦ kept := by
  refine upholds_mirrored fun s process hs hprocess ↦ ?_
  have hafter := hkept s _ hs
    (follows_event s process moment orderId kind fill reason decision tradeDate)
  exact ⟨halways _ hafter, fun _ _ ↦ hafter⟩

theorem stays_venueEvents (events : List VenueEvent) :
    Durable.Upholds always kept (venueEvents events) fun _ ↦ kept := by
  induction events with
  | nil => exact .done fun _ hs ↦ hs
  | cons event events ih =>
    unfold venueEvents
    refine Durable.Upholds.look.next fun seen ↦ ?_
    cases hprocess : seen.process with
    | none => exact .raise
    | some process =>
      have hstep : ∀ s, kept s ∧ seen = s → kept (s.withMirror process
          ((s.mirror process).perform event.moment event.call).1) := by
        intro s hs
        exact hkept s _ hs.1 (follows_event s process event.moment event.orderId event.kind
          event.fill event.reason none event.tradeDate)
      exact Durable.Upholds.andThen kept
        (Durable.Upholds.save (fun s hs ↦ halways _ (hstep s hs)) hstep) fun _ ↦ ih

theorem stays_applyCanonicalRisk (canonical : Domain.Order ℚ) (given : Surroundings) :
    Durable.Upholds always kept (applyCanonicalRisk canonical given) fun _ ↦ kept := by
  unfold applyCanonicalRisk
  simp only
  split
  · refine Durable.Upholds.andThen _ (stays_event hkept halways _ _ _ _ _ _ _) fun _ ↦ ?_
    refine Durable.Upholds.andThen _ (stays_event hkept halways _ _ _ _ _ _ _) fun _ ↦ ?_
    exact .done fun _ hs ↦ hs
  · refine Durable.Upholds.andThen _ (stays_event hkept halways _ _ _ _ _ _ _) fun _ ↦ ?_
    exact .done fun _ hs ↦ hs

theorem stays_recordVenueRefusal (canonical : Domain.Order ℚ) (reason : String) (moment : Moment) :
    Durable.Upholds always kept (recordVenueRefusal canonical reason moment) fun _ ↦ kept := by
  unfold recordVenueRefusal
  refine Durable.Upholds.afterLook fun seen ↦ ?_
  split
  · split
    · refine Durable.Upholds.andThen _ (stays_event hkept halways _ _ _ _ _ _ _) fun _ ↦ ?_
      exact .done fun _ hs ↦ hs
    · exact .done fun _ hs ↦ hs
  · exact .raise

theorem stays_route (order : WireOrder) (canonical : Domain.Order ℚ) (given : Surroundings) :
    Durable.Upholds always kept (route order canonical given) fun _ ↦ kept := by
  unfold route
  refine Durable.Upholds.andThen _ (stays_venueEvents hkept halways given.venue) fun _ ↦ ?_
  split
  · exact .done fun _ hs ↦ hs
  · refine Durable.Upholds.andThen _ (stays_recordVenueRefusal hkept halways canonical _ _)
      fun _ ↦ ?_
    exact .done fun _ hs ↦ hs
  · exact .raise

end

section

omit [Hashing ℚ]

section

variable (hkept : Stable kept) (halways : ∀ s, kept s → always s) (key : String)
include hkept halways

theorem stays_resolve {change : Submission → Submission}
    (hrequest : ∀ stored, (change stored).request = stored.request)
    (hfingerprint : ∀ stored, (change stored).fingerprint = stored.fingerprint) :
    Durable.Upholds always kept (resolve key change) fun _ ↦ kept := by
  have hstep : ∀ (s : PaperOrderService) stored, kept s → s.requests.get? key = some stored →
      kept { s with requests := s.requests.insert key (change stored) } :=
    fun s stored hs hstored ↦
      hkept s _ hs (follows_resolve s hstored (hrequest stored) (hfingerprint stored))
  refine Durable.Upholds.save (fun s hs ↦ halways _ ?_) fun s hs ↦ ?_
  · split
    · exact hs
    · rename_i stored hstored
      exact hstep s stored hs hstored
  · split
    · exact hs
    · rename_i stored hstored
      exact hstep s stored hs hstored

theorem stays_resolveIntent (claim : IntentClaim) (state : OrderState ℚ) :
    Durable.Upholds always kept (resolveIntent key claim state) fun _ ↦ kept := by
  have hstep : ∀ s, kept s → kept { s with
      intents := s.intents.insert key claim
      process := s.process.map fun process ↦
        { process with wire := process.wire.insert state.clientOrderId state } } :=
    fun s hs ↦ hkept s _ hs ⟨keeps_claim s key claim _, rfl⟩
  exact Durable.Upholds.save (fun s hs ↦ halways _ (hstep s hs)) hstep

end

end

theorem stays_resolveFromLedger (hkept : Stable kept) (halways : ∀ s, kept s → always s)
    (key : String) (request : PaperOrderRequest) (now : String) :
    Durable.Upholds always kept (resolveFromLedger key request now) fun _ ↦ kept := by
  unfold resolveFromLedger
  refine Durable.Upholds.afterLook fun seen ↦ ?_
  split
  · exact .raise
  · split
    · exact stays_resolve hkept halways key (fun _ ↦ rfl) fun _ ↦ rfl
    · exact stays_resolve hkept halways key (fun _ ↦ rfl) fun _ ↦ rfl

end Stable

/-! ## A worker round opens one order at most -/

section Rounds

variable [OrderTexts] [Sha1]

omit [OrderTexts] [Sha1] [Hashing ℚ] in
/-- The intent of a round is claimed, and at most one order was opened since. -/
structure Claimed (s₀ : PaperOrderService) (intentKey : String) (s : PaperOrderService) : Prop where
  keeps : Keeps s₀ s
  claimed : s.intents.get? intentKey ≠ none
  openings : s.openings = s₀.openings ∨ ∃ orderId, s.openings = s₀.openings ++ [orderId]

omit [OrderTexts] [Sha1] [Hashing ℚ] in
/-- Nothing was opened, or an order whose intent was not claimed before and is now. -/
def OpensOnce (s₀ : PaperOrderService) (intentKey : String) (s : PaperOrderService) : Prop :=
  Follows s₀ s ∨ s₀.intents.get? intentKey = none ∧ Claimed s₀ intentKey s

variable (s₀ : PaperOrderService)

section

omit [OrderTexts] [Sha1] [Hashing ℚ]

theorem stable_claimed (intentKey : String) :
    Stable (Claimed s₀ intentKey) := by
  intro s after hs hafter
  refine ⟨hs.keeps.trans hafter.keeps, hafter.keeps.intents intentKey hs.claimed, ?_⟩
  rw [hafter.openings]
  exact hs.openings

theorem stable_follows : Stable (Follows s₀) :=
  fun _ _ hs hafter ↦ ⟨hs.keeps.trans hafter.keeps, hafter.openings.trans hs.openings⟩

theorem stable_opensOnce (intentKey : String) :
    Stable (OpensOnce s₀ intentKey) := by
  intro s after hs hafter
  rcases hs with hfollows | ⟨hnew, hclaimed⟩
  · exact .inl (stable_follows s₀ s after hfollows hafter)
  · exact .inr ⟨hnew, stable_claimed s₀ intentKey s after hclaimed hafter⟩

end

variable {intentKey key : String}

theorem once_submitClaimed {s₀ : PaperOrderService} (order : WireOrder) (session : String)
    (hnew : s₀.intents.get? intentKey = none) (given : Surroundings) :
    Durable.Upholds (OpensOnce s₀ intentKey)
      (fun s ↦ Claimed s₀ intentKey s ∧ s.openings = s₀.openings)
      (submitClaimed order session given) fun _ ↦ Claimed s₀ intentKey := by
  have hstable := stable_claimed s₀ intentKey
  have halways : ∀ s, Claimed s₀ intentKey s → OpensOnce s₀ intentKey s :=
    fun _ hs ↦ .inr ⟨hnew, hs⟩
  have hopening : ∀ intent, Durable.Upholds (OpensOnce s₀ intentKey)
      (fun s ↦ Claimed s₀ intentKey s ∧ s.openings = s₀.openings)
      (mirrored given.opened (.opening intent none (some session)))
      fun _ ↦ Claimed s₀ intentKey := by
    intro intent
    refine upholds_mirrored fun s process hs hprocess ↦ ?_
    have hafter : Claimed s₀ intentKey (s.withMirror process
        ((s.mirror process).perform given.opened (.opening intent none (some session))).1) := by
      refine ⟨⟨hs.1.keeps.requests, hs.1.keeps.intents⟩, hs.1.claimed, ?_⟩
      have hone := openings_opening s process given.opened intent (some session)
      rw [hs.2] at hone
      exact hone
    exact ⟨halways _ hafter, fun _ _ ↦ hafter⟩
  unfold submitClaimed
  refine Durable.Upholds.afterLift fun intent ↦ ?_
  refine Durable.Upholds.andThen _ (hopening intent) fun canonical ↦ ?_
  refine Durable.Upholds.andThen _ (stays_applyCanonicalRisk hstable halways canonical given)
    fun _ ↦ ?_
  simp only
  split
  · refine Durable.Upholds.andThen _ (stays_route hstable halways order canonical given)
      fun answer ↦ ?_
    refine Durable.Upholds.andThen _ (stays_resolveIntent hstable halways _ _ _) fun _ ↦ ?_
    exact .done fun _ hs ↦ hs
  · refine Durable.Upholds.andThen _ (stays_resolveIntent hstable halways _ _ _) fun _ ↦ ?_
    exact .done fun _ hs ↦ hs

theorem once_submitOrder (order : WireOrder)
    (hkey : ∀ session, exchangeSession order.timestamp = some session → intentKey = orderIntentKey
      order session) (given : Surroundings) :
    Durable.Upholds (OpensOnce s₀ intentKey) (fun s ↦ s = s₀) (submitOrder order given)
      fun _ ↦ OpensOnce s₀ intentKey := by
  have hstart : Follows s₀ s₀ := ⟨.refl s₀, rfl⟩
  unfold submitOrder
  cases hsession : exchangeSession order.timestamp with
  | none => exact .raise
  | some session =>
    obtain rfl := hkey session hsession
    let intentKey := orderIntentKey order session
    simp only
    refine Durable.Upholds.look.next fun seen ↦ ?_
    split
    · split
      · exact .raise
      · refine .done fun s hs ↦ ?_
        rw [hs.1]
        exact .inl hstart
    · rename_i hnone
      have hclaimed : ∀ s, s = s₀ ∧ seen = s →
          s₀.intents.get? intentKey = none ∧
          Claimed s₀ intentKey { s with intents := s.intents.insert intentKey {
            clientOrderId := order.clientOrderId
            fingerprint := requestFingerprint order
            orderId := none
            riskApproved := none
            riskReason := none
            venueRefused := none } } := by
        intro s hs
        obtain ⟨rfl, rfl⟩ := hs
        refine ⟨hnone, keeps_claim seen intentKey _ seen.process, ?_, .inl rfl⟩
        rw [Dict.get?_insert_self]
        simp
      intro s hs
      obtain ⟨hnew, hafter⟩ := hclaimed s hs
      refine Durable.Upholds.andThen
        (fun s ↦ Claimed s₀ intentKey s ∧ s.openings = s₀.openings)
        (Durable.Upholds.save (fun s hs ↦ .inr (hclaimed s hs)) fun s hs ↦ ?_) (fun _ ↦ ?_) s hs
      · refine ⟨(hclaimed s hs).2, ?_⟩
        rw [hs.1]
        rfl
      · refine Durable.Upholds.andThen _ (once_submitClaimed order session hnew given)
          fun state ↦ ?_
        exact .done fun _ hs ↦ .inr ⟨hnew, hs⟩

/-- The intent key of a request under its delivery key, when its date can be read. -/
def intentKeyOf (key : String) (request : PaperOrderRequest) : String :=
  ((exchangeSession request.timestamp).map (orderIntentKey (request.wireOrder key))).getD ""

omit [Sha1] in
theorem intentKeyOf_of_session {session : String} {request : PaperOrderRequest}
    (h : exchangeSession request.timestamp = some session) :
    intentKeyOf key request = orderIntentKey (request.wireOrder key) session := by
  rw [intentKeyOf, h]
  rfl

theorem once_execute {stored : Submission} (hstored : s₀.requests.get? key = some stored)
    (given : Surroundings) :
    Durable.Upholds (OpensOnce s₀ (intentKeyOf key stored.request)) (fun s ↦ s = s₀)
      (execute key given) fun _ ↦ OpensOnce s₀ (intentKeyOf key stored.request) := by
  let intentKey := intentKeyOf key stored.request
  have hstart : ∀ s, s = s₀ → OpensOnce s₀ intentKey s := by
    intro s hs
    rw [hs]
    exact .inl ⟨.refl s₀, rfl⟩
  have hstable := stable_opensOnce s₀ intentKey
  unfold execute
  refine Durable.Upholds.look.next fun seen ↦ ?_
  by_cases hseen : seen = s₀
  · rw [hseen, hstored]
    simp only
    have hbefore : ∀ s, s = s₀ ∧ s₀ = s → OpensOnce s₀ intentKey s := fun s hs ↦ hstart s hs.1
    split
    · split
      · refine Durable.Upholds.imp ?_ hbefore fun _ _ h ↦ h
        exact stays_resolve hstable (fun _ h ↦ h) key (fun _ ↦ rfl) fun _ ↦ rfl
      · have hsubmit := once_submitOrder s₀ (stored.request.wireOrder key)
          (fun session hsession ↦ intentKeyOf_of_session hsession) given
        refine (hsubmit.imp (fun s hs ↦ hs.1) fun _ _ h ↦ h).next fun answer ↦ ?_
        split
        · exact stays_resolveFromLedger hstable (fun _ h ↦ h) key stored.request given.now
        · exact stays_resolve hstable (fun _ h ↦ h) key (fun _ ↦ rfl) fun _ ↦ rfl
    · exact .done hbefore
  · intro s hs
    exact absurd (hs.2.trans hs.1) hseen

/-! ## Steps -/

omit [Sha1] [OrderTexts] [Hashing ℚ] in
theorem follows_ended (s : PaperOrderService) (process : Option Process) :
    Follows s { s with process } :=
  ⟨⟨(Keeps.refl s).requests, (Keeps.refl s).intents⟩, rfl⟩

section

omit [Sha1] [OrderTexts]

theorem follows_submit (request : PaperOrderRequest) :
    Durable.Upholds (Follows s₀) (fun s ↦ s = s₀) (submit request) fun _ _ ↦ True := by
  unfold submit
  refine Durable.Upholds.afterLift fun _ ↦ ?_
  refine Durable.Upholds.look.next fun seen ↦ ?_
  cases hknown : seen.requests.get? request.requestKey with
  | some known =>
    simp only
    split
    · exact .raise
    · exact .done fun _ _ ↦ trivial
  | none =>
    refine Durable.Upholds.save (fun s hs ↦ ?_) fun _ _ ↦ trivial
    rw [hs.2] at hknown
    rw [← hs.1]
    exact follows_accept (.accepted request) hknown

theorem follows_settle (key now : String) :
    Durable.Upholds (Follows s₀) (fun s ↦ s = s₀) (settle key now) fun _ _ ↦ True := by
  have hkept : ∀ s, s = s₀ → Follows s₀ s := by
    intro s hs
    rw [hs]
    exact ⟨.refl s₀, rfl⟩
  unfold settle
  refine Durable.Upholds.afterLook fun seen ↦ ?_
  split
  · exact .done fun _ _ ↦ trivial
  · split
    · exact (stays_resolveFromLedger (stable_follows s₀) (fun _ h ↦ h) key _ now).imp hkept
        fun _ _ _ ↦ trivial
    · exact .done fun _ _ ↦ trivial

end

omit [Sha1] [OrderTexts] [Hashing ℚ] in
theorem Stable.ended {kept : PaperOrderService → Prop} (h : Stable kept) :
    ∀ s, kept s → kept { s with process := none } :=
  fun s hs ↦ h s _ hs (follows_ended s none)

/-- What a call keeps wherever it stops, its step keeps. -/
theorem of_call {condition : PaperOrderService → Prop}
    (hended : ∀ s, condition s → condition { s with process := none })
    {s : PaperOrderService} (hs : condition s) {call : ServiceCall}
    (h : Durable.Upholds condition (fun s' ↦ s' = s) call.procedure fun _ _ ↦ True) :
    condition (s.step (.call call)) ∧ ∀ replacements, condition (s.step (.crash call replacements)) := by
  constructor
  · rw [step]
    split
    · exact h.final rfl hs
    · exact hs
  · intro replacements
    rw [step]
    split
    · exact hended _ (h.stopped rfl hs replacements)
    · exact hs

end Rounds

end PaperOrderService

def ServiceStep.roundOf : ServiceStep → Option String
  | .call (.execute key _) => some key
  | .crash (.execute key _) _ => some key
  | _ => none

def ServiceStep.Delivers (request : PaperOrderRequest) : ServiceStep → Prop
  | .call (.submit arrived) => arrived = request
  | .crash (.submit arrived) _ => arrived = request
  | _ => False

namespace PaperOrderService

variable [Hashing ℚ] [OrderTexts] [Sha1]

variable {input : ServiceStep}

theorem follows_step (s : PaperOrderService) (h : input.roundOf = none) :
    Follows s (s.step input) := by
  have hstart : Follows s s := ⟨.refl s, rfl⟩
  have hcall : ∀ call : ServiceCall, (ServiceStep.call call).roundOf = none →
      Durable.Upholds (Follows s) (fun s' ↦ s' = s) call.procedure fun _ _ ↦ True := by
    intro call hround
    cases call with
    | submit request => exact follows_submit s request
    | execute key given => cases hround
    | settle key now => exact follows_settle s key now
    | venue events =>
      refine (stays_venueEvents (stable_follows s) (fun _ h ↦ h) events).imp ?_ fun _ _ _ ↦ trivial
      intro s' hs
      rw [hs]
      exact hstart
  cases input with
  | start now initialCash =>
    change Follows s (s.start now initialCash)
    unfold start
    split
    · exact follows_ended s none
    · exact ⟨⟨(Keeps.refl s).requests, (Keeps.refl s).intents⟩, rfl⟩
  | call call => exact (of_call (stable_follows s).ended hstart (hcall call h)).1
  | crash call replacements =>
    have hround : (ServiceStep.call call).roundOf = none := by
      cases call <;> first | rfl | cases h
    exact (of_call (stable_follows s).ended hstart (hcall call hround)).2 replacements

variable {key intentKey : String}

/-- A worker round of a delivery that is not known does nothing. -/
theorem follows_round_of_unknown (s : PaperOrderService) (hround : input.roundOf = some key)
    (hnew : s.requests.get? key = none) :
    Follows s (s.step input) := by
  have hstart : Follows s s := ⟨.refl s, rfl⟩
  have hcall : ∀ given, Durable.Upholds (Follows s) (fun s' ↦ s' = s)
      (ServiceCall.execute key given).procedure fun _ _ ↦ True := by
    intro given s' hs
    have hnothing : execute key given s' = ([], .ok ()) := by
      unfold execute
      rw [Durable.look_next, hs, hnew]
      rfl
    change (∀ passed ∈ (execute key given s').1, _) ∧ _
    rw [hnothing]
    exact ⟨List.forall_mem_nil _, fun _ _ ↦ trivial⟩
  cases input with
  | start now initialCash => cases hround
  | call call =>
    cases call <;> cases hround
    exact (of_call (stable_follows s).ended hstart (hcall _)).1
  | crash call replacements =>
    cases call <;> cases hround
    exact (of_call (stable_follows s).ended hstart (hcall _)).2 replacements

variable {stored : Submission}

/-- A worker round opens nothing, or the one order of an intent that is claimed from now on. -/
theorem opensOnce_round (s : PaperOrderService) (hround : input.roundOf = some key)
    (hstored : s.requests.get? key = some stored) :
    OpensOnce s (intentKeyOf key stored.request) (s.step input) := by
  have hstart : OpensOnce s (intentKeyOf key stored.request) s := .inl ⟨.refl s, rfl⟩
  have hstable := stable_opensOnce s (intentKeyOf key stored.request)
  have hcall : ∀ given, Durable.Upholds (OpensOnce s (intentKeyOf key stored.request))
      (fun s' ↦ s' = s) (ServiceCall.execute key given).procedure fun _ _ ↦ True :=
    fun given ↦ (once_execute s hstored given).imp (fun _ h ↦ h) fun _ _ _ ↦ trivial
  cases input with
  | start now initialCash => cases hround
  | call call =>
    cases call <;> cases hround
    exact (of_call hstable.ended hstart (hcall _)).1
  | crash call replacements =>
    cases call <;> cases hround
    exact (of_call hstable.ended hstart (hcall _)).2 replacements

variable {s : PaperOrderService}

omit [Hashing ℚ] [OrderTexts] [Sha1] in
theorem OpensOnce.keeps {after : PaperOrderService} (h : OpensOnce s intentKey after) :
    Keeps s after := by
  rcases h with hfollows | ⟨-, hclaimed⟩
  · exact hfollows.keeps
  · exact hclaimed.keeps

theorem keeps_step (s : PaperOrderService) (input : ServiceStep) : Keeps s (s.step input) := by
  cases hround : input.roundOf with
  | none => exact (follows_step s hround).keeps
  | some key =>
    cases hstored : s.requests.get? key with
    | none => exact (follows_round_of_unknown s hround hstored).keeps
    | some stored => exact (opensOnce_round s hround hstored).keeps

theorem keeps_run (s : PaperOrderService) (steps : List ServiceStep) :
    Keeps s (Run.run step s steps) := by
  induction steps generalizing s with
  | nil => exact .refl s
  | cons input steps ih => exact (keeps_step s input).trans (ih (s.step input))

/-! ## One order for a delivery -/

def openedIn (s : PaperOrderService) (input : ServiceStep) : List String :=
  (s.step input).openings.drop s.openings.length

def gaveRise (key : String) : PaperOrderService → List ServiceStep → List String
  | _, [] => []
  | s, input :: steps =>
    (if input.roundOf = some key then s.openedIn input else []) ++ gaveRise key (s.step input) steps

theorem openedIn_of_follows (h : Follows s (s.step input)) : s.openedIn input = [] := by
  rw [openedIn, h.openings, List.drop_length]

theorem length_openedIn_le (h : OpensOnce s intentKey (s.step input)) :
    (s.openedIn input).length ≤ 1 := by
  rcases h with hfollows | ⟨-, hclaimed⟩
  · rw [openedIn_of_follows hfollows]
    exact Nat.zero_le 1
  · rcases hclaimed.openings with hsame | ⟨orderId, hone⟩
    · rw [openedIn, hsame, List.drop_length]
      exact Nat.zero_le 1
    · rw [openedIn, hone, List.drop_left]
      exact le_refl 1

variable {request first second : PaperOrderRequest}

/-- Once its intent is claimed, a delivery gives rise to no order any more. -/
theorem gaveRise_of_claimed
    (hstored : ∃ stored, s.requests.get? key = some stored ∧ stored.request = request)
    (hclaimed : s.intents.get? (intentKeyOf key request) ≠ none) (steps : List ServiceStep) :
    gaveRise key s steps = [] := by
  induction steps generalizing s with
  | nil => rfl
  | cons input steps ih =>
    obtain ⟨stored, hstored, hrequest⟩ := hstored
    have hkeeps := keeps_step s input
    have hlater : ∃ later, (s.step input).requests.get? key = some later ∧
        later.request = request := by
      obtain ⟨later, hlater, hsame, -⟩ := hkeeps.requests key stored hstored
      exact ⟨later, hlater, hsame.trans hrequest⟩
    rw [gaveRise, ih hlater (hkeeps.intents _ hclaimed), List.append_nil]
    split
    · rename_i hround
      rcases opensOnce_round s hround hstored with hfollows | ⟨hnew, -⟩
      · exact openedIn_of_follows hfollows
      · rw [hrequest] at hnew
        exact absurd hnew hclaimed
    · rfl

/-- A delivery gives rise to at most one order, whatever happens. -/
theorem length_gaveRise_le (key : String) (s : PaperOrderService) (steps : List ServiceStep) :
    (gaveRise key s steps).length ≤ 1 := by
  induction steps generalizing s with
  | nil => exact Nat.zero_le 1
  | cons input steps ih =>
    rw [gaveRise]
    by_cases hround : input.roundOf = some key
    · rw [if_pos hround]
      cases hstored : s.requests.get? key with
      | none =>
        rw [openedIn_of_follows (follows_round_of_unknown s hround hstored), List.nil_append]
        exact ih (s.step input)
      | some stored =>
        have honce := opensOnce_round s hround hstored
        rcases id honce with hfollows | ⟨-, hclaimed⟩
        · rw [openedIn_of_follows hfollows, List.nil_append]
          exact ih (s.step input)
        · obtain ⟨later, hlater, hsame, -⟩ := hclaimed.keeps.requests key stored hstored
          rw [gaveRise_of_claimed ⟨later, hlater, hsame⟩ hclaimed.claimed, List.append_nil]
          exact length_openedIn_le honce
    · rw [if_neg hround, List.nil_append]
      exact ih (s.step input)

/-! ## How a delivery is answered -/

omit [Hashing ℚ] [OrderTexts] [Sha1] in
/-- Two requests name the same terms, all but the signal. -/
structure SameTerms (first second : PaperOrderRequest) : Prop where
  symbol : first.symbol = second.symbol
  side : first.normalisedSide = second.normalisedSide
  quantity : first.quantity = second.quantity
  limitPrice : roundHalfEven (first.limitPrice * 1000000) =
    roundHalfEven (second.limitPrice * 1000000)
  tradeDate : first.tradeDate = second.tradeDate
  strategyVersionId : first.strategyVersionId = second.strategyVersionId

omit [Hashing ℚ] [OrderTexts] [Sha1] in
structure SameOrder (first second : PaperOrderRequest) : Prop extends SameTerms first second where
  signalId : first.signalId = second.signalId

section

omit [OrderTexts] [Sha1]

/-- The fingerprint tells the terms apart, and nothing else. -/
theorem fingerprint_eq_iff (first second : PaperOrderRequest) :
    first.fingerprint = second.fingerprint ↔ SameTerms first second := by
  constructor
  · intro h
    have hshown := Hashing.contentId_injective h
    simp only [Domain.shown, Domain.shownMembers, Json.obj.injEq, List.cons.injEq, Prod.mk.injEq,
      Json.num.injEq, Json.str.injEq, true_and, and_true, Int.cast_inj] at hshown
    obtain ⟨hprice, hquantity, hside, hversion, hsymbol, hdate⟩ := hshown
    have hrounded := (div_left_inj' (by norm_num : (1000000 : ℚ) ≠ 0)).mp hprice
    exact ⟨hsymbol, hside, hquantity, Int.cast_injective hrounded, hdate, hversion⟩
  · intro h
    rw [PaperOrderRequest.fingerprint, PaperOrderRequest.fingerprint, h.symbol, h.side, h.quantity,
      h.limitPrice, h.tradeDate, h.strategyVersionId]

/-- A valid delivery to a known key changes nothing: its fingerprint decides how it is answered. -/
theorem submit_known (hvalid : request.validate = .ok ())
    (hstored : s.requests.get? request.requestKey = some stored) :
    submit request s = ([], if stored.fingerprint = request.fingerprint then .ok () else
      .error (.idempotencyConflict request.requestKey stored.fingerprint request.fingerprint)) := by
  have hchecked : request.validate.mapError ServiceError.rejected = .ok () := by
    rw [hvalid]
    rfl
  unfold submit
  rw [Durable.lift_next hchecked, Durable.look_next, hstored]
  by_cases hsame : stored.fingerprint = request.fingerprint
  · simp only [hsame, ne_eq, not_true_eq_false, if_false, if_true]
    rfl
  · simp only [hsame, ne_eq, not_false_eq_true, if_true, if_false]
    rfl

end

/-- A request was accepted in a run from a new root, and another one arrives for its delivery key in
a later state. -/
structure Redelivered (steps : List ServiceStep) (first second : PaperOrderRequest)
    (s : PaperOrderService) : Prop where
  arrives : ∃ before accepting between rest,
    steps = before ++ accepting :: (between ++ .call (.submit second) :: rest) ∧
    accepting.Delivers first ∧
    (Run.run step fresh before).requests.get? first.requestKey = none ∧
    ((Run.run step fresh before).step accepting).requests.get? first.requestKey ≠ none ∧
    s = Run.run step ((Run.run step fresh before).step accepting) between
  running : s.process.isSome
  valid : second.validate = .ok ()
  idempotencyKey : second.idempotencyKey = first.idempotencyKey
  runId : second.runId = first.runId

omit [OrderTexts] [Sha1] in
structure AnsweredByTerms (first second : PaperOrderRequest) (s : PaperOrderService) : Prop where
  duplicate : SameOrder first second → submit second s = ([], .ok ())
  conflict : ¬ SameOrder first second → ∃ stored attempted,
    submit second s = ([], .error (.idempotencyConflict second.requestKey stored attempted))

variable {steps : List ServiceStep}

theorem Redelivered.requestKey_eq (h : Redelivered steps first second s) :
    second.requestKey = first.requestKey := by
  rw [PaperOrderRequest.requestKey, PaperOrderRequest.requestKey, h.idempotencyKey, h.runId]

omit [OrderTexts] [Sha1] in
/-- A new delivery is accepted with its own fingerprint. -/
theorem accepted_submit {s₀ : PaperOrderService}
    (hnew : s₀.requests.get? request.requestKey = none) :
    Durable.Upholds
      (fun s ↦ ∀ stored, s.requests.get? request.requestKey = some stored →
        stored.fingerprint = request.fingerprint)
      (fun s ↦ s = s₀) (submit request) fun _ _ ↦ True := by
  unfold submit
  refine Durable.Upholds.afterLift fun _ ↦ ?_
  refine Durable.Upholds.look.next fun seen ↦ ?_
  cases hknown : seen.requests.get? request.requestKey with
  | some known =>
    intro s hs
    rw [hs.2, hs.1, hnew] at hknown
    cases hknown
  | none =>
    refine Durable.Upholds.save (fun s _ stored hstored ↦ ?_) fun _ _ ↦ trivial
    rw [Dict.get?_insert_self] at hstored
    rw [← Option.some.inj hstored]
    rfl

theorem fingerprint_of_arrival {accepting : ServiceStep} (hdelivers : accepting.Delivers request)
    (hnew : s.requests.get? request.requestKey = none) :
    ∀ stored, (s.step accepting).requests.get? request.requestKey = some stored →
      stored.fingerprint = request.fingerprint := by
  have hbefore : ∀ stored, s.requests.get? request.requestKey = some stored →
      stored.fingerprint = request.fingerprint := by
    intro stored hstored
    rw [hnew] at hstored
    cases hstored
  have hsubmit : Durable.Upholds _ (fun s' ↦ s' = s) (ServiceCall.submit request).procedure
      fun _ _ ↦ True := accepted_submit hnew
  have hcall := of_call (fun _ h ↦ h) hbefore hsubmit
  cases accepting with
  | start now initialCash => cases hdelivers
  | call call =>
    cases call <;> cases hdelivers
    exact hcall.1
  | crash call replacements =>
    cases call <;> cases hdelivers
    exact hcall.2 replacements

/-- The request that was accepted is what a later delivery is compared with. -/
theorem Redelivered.exists_stored (h : Redelivered steps first second s) :
    ∃ stored, s.requests.get? second.requestKey = some stored ∧
      stored.fingerprint = first.fingerprint := by
  obtain ⟨before, accepting, between, rest, -, hdelivers, hnew, haccepted, hs⟩ := h.arrives
  obtain ⟨stored, hstored⟩ := Option.ne_none_iff_exists'.mp haccepted
  have hfingerprint := fingerprint_of_arrival hdelivers hnew stored hstored
  obtain ⟨later, hlater, -, hsame⟩ := (keeps_run _ between).requests _ stored hstored
  rw [hs, h.requestKey_eq]
  exact ⟨later, hlater, hsame.trans hfingerprint⟩

/-- The terms without the signal decide how a delivery is answered. -/
theorem Redelivered.answer (h : Redelivered steps first second s) :
    (SameTerms first second → submit second s = ([], .ok ())) ∧
      (¬ SameTerms first second → ∃ stored attempted,
        submit second s =
          ([], .error (.idempotencyConflict second.requestKey stored attempted))) := by
  obtain ⟨stored, hstored, hfingerprint⟩ := h.exists_stored
  have hanswer := submit_known h.valid hstored
  rw [hfingerprint] at hanswer
  rw [← fingerprint_eq_iff]
  constructor
  · intro hsame
    rw [hanswer, if_pos hsame]
  · intro hother
    exact ⟨_, _, by rw [hanswer, if_neg hother]⟩

/-- Every delivery to an accepted key is answered by the order it asks for, and each key gives rise
to one order at most. -/
structure DeliveryIdentity (steps : List ServiceStep) : Prop where
  answered : ∀ first second s, Redelivered steps first second s → AnsweredByTerms first second s
  atMostOne : ∀ key, (gaveRise key fresh steps).length ≤ 1

/-- Every delivery to an accepted key that has the other terms has the signal as well. -/
def SignalsAgree (steps : List ServiceStep) : Prop :=
  ∀ first second s, Redelivered steps first second s → SameTerms first second →
    first.signalId = second.signalId

/-- In a run from a new root deliveries are told apart by the orders they ask for, exactly when none
of them differs from the accepted one in the signal alone. -/
theorem deliveryIdentity_iff (steps : List ServiceStep) :
    DeliveryIdentity steps ↔ SignalsAgree steps := by
  constructor
  · intro h first second s hdelivery hterms
    by_contra hother
    obtain ⟨stored, attempted, hconflict⟩ :=
      (h.answered first second s hdelivery).conflict fun hsame ↦ hother hsame.signalId
    rw [hdelivery.answer.1 hterms] at hconflict
    cases hconflict
  · intro h
    refine ⟨fun first second s hdelivery ↦ ?_, fun key ↦ length_gaveRise_le key fresh steps⟩
    refine ⟨fun hsame ↦ hdelivery.answer.1 hsame.toSameTerms, fun hother ↦ ?_⟩
    refine hdelivery.answer.2 fun hterms ↦ hother ⟨hterms, ?_⟩
    exact h first second s hdelivery hterms

/-! ## Two signals under one key -/

def otherSignal : PaperOrderRequest := { buyRequest with signalId := "other sleeve" }

/-- A process accepts the purchase, and the other one arrives for its key. -/
def twoSignals : List ServiceStep := [
  .start "2026-01-05" 1000000,
  .call (.submit buyRequest),
  .call (.submit otherSignal)]

theorem redelivered_twoSignals :
    Redelivered twoSignals buyRequest otherSignal
      (Run.run step fresh (twoSignals.take 2)) := by
  have hbuy : buyRequest.validate = .ok () := by decide +kernel
  let started : PaperOrderService := { fresh with process := some ⟨.empty, .empty⟩ }
  let bought : PaperOrderService :=
    { started with
      requests := Dict.empty.insert buyRequest.requestKey (.accepted buyRequest) }
  have hbought : step started (.call (.submit buyRequest)) = bought := step_submit rfl hbuy rfl
  have hrun : Run.run step fresh (twoSignals.take 2) = bought := by
    simp only [twoSignals, List.take_succ_cons, List.take_zero, Run.run_cons, Run.run_nil,
      start_fresh, started, hbought]
  have hfirst : Run.run step fresh [.start "2026-01-05" 1000000] = started := by
    rw [Run.run_cons, Run.run_nil, start_fresh]
  rw [hrun]
  refine ⟨⟨[.start "2026-01-05" 1000000], .call (.submit buyRequest), [], [], rfl, rfl, ?_, ?_, ?_⟩,
    rfl, by decide +kernel, rfl, rfl⟩
  · rw [hfirst]
    rfl
  · rw [hfirst, hbought, Dict.get?_insert_self]
    simp
  · rw [hfirst, hbought, Run.run_nil]

end PaperOrderService

open PaperOrderService in
/-- The purchase for another signal is answered as a duplicate of the first. -/
theorem not_deliveryIdentity_twoSignals : ¬ DeliveryIdentity twoSignals := by
  intro h
  obtain ⟨stored, attempted, hconflict⟩ :=
    (h.answered _ _ _ redelivered_twoSignals).conflict fun hsame ↦
      absurd hsame.signalId (by decide)
  have hterms : SameTerms buyRequest otherSignal := ⟨rfl, rfl, rfl, rfl, rfl, rfl⟩
  rw [redelivered_twoSignals.answer.1 hterms] at hconflict
  cases hconflict

end QuantAgent.Services
