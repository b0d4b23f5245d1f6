import QuantAgent.Services.OpenedOrders

/-!
# Requests that are reported executed

A request that is stored as executed names an order of the ledger, by its canonical identifier or
through the claim of its intent.  In a run of submissions, worker rounds, recoveries, restarts and
crashes this order was opened for the request exactly as long as every request that is settled from
the ledger finds its own order there: the lookup goes by the signal, which covers the symbol and one
joined text of date and signal identifier, but neither side nor quantity.
-/

namespace QuantAgent.Services

open Library Execution
open Domain (CanonicalLedger Hashing LedgerRecord Mirror MirrorCall Moment OrderBook OrderIntent)

def Submission.ReportsOrder (stored : Submission) : Prop :=
  stored.filledQuantity ≠ none ∨
    (stored.venueStatus ≠ none ∧ stored.venueStatus ≠ some "REFUSED")

namespace PaperOrderService

/-- The order a stored answer is about: the one it names, or else the one that was opened for the
client order it came from. -/
def Reported (s : PaperOrderService) (stored : Submission) (orderId : String) : Prop :=
  stored.canonicalOrderId = some orderId ∨
    stored.canonicalOrderId = none ∧ ∃ key claim, s.intents.get? key = some claim ∧
      stored.outcome = some claim.clientOrderId ∧ claim.orderId = some orderId

variable [Hashing ℚ] [OrderTexts]

def ExecutedOnOwnOrder (s : PaperOrderService) : Prop :=
  ∀ key stored, s.requests.get? key = some stored → stored.state = .executed →
    (∀ orderId, stored.canonicalOrderId = some orderId →
      OpenedFor s.ledger orderId stored.request) ∧
    (stored.ReportsOrder → ∃ orderId, s.Reported stored orderId ∧
      OpenedFor s.ledger orderId stored.request)

omit [OrderTexts] in
def OpenedUnder (s : PaperOrderService) (key orderId : String) : Prop :=
  ∃ record ∈ s.ledger.records, ∃ order session intent,
    OpenedBy record orderId order session intent ∧ orderIntentKey order session = key

structure Sound (s : PaperOrderService) : Prop where
  managed : Managed s.ledger.records
  valid : ∀ key stored, s.requests.get? key = some stored →
    (stored.request.normalisedSide = "BUY" ∨ stored.request.normalisedSide = "SELL") ∧
      stored.request.signalId ≠ ""
  blank : ∀ key stored, s.requests.get? key = some stored → stored.state = .queued →
    stored.canonicalOrderId = none ∧ stored.filledQuantity = none ∧ stored.venueStatus = none
  /-- An intent is claimed for the request that its client order names. -/
  claimed : ∀ key claim, s.intents.get? key = some claim →
    ∃ stored session, s.requests.get? claim.clientOrderId = some stored ∧
      exchangeSession stored.request.timestamp = some session ∧
      key = orderIntentKey (stored.request.wireOrder claim.clientOrderId) session
  opened : ∀ key claim orderId, s.intents.get? key = some claim →
    claim.orderId = some orderId → s.OpenedUnder key orderId
  /-- The process remembers answers of resolved intents only. -/
  answered : ∀ process, s.process = some process → ∀ client state,
    process.wire.get? client = some state → state.clientOrderId = client ∧
      ∃ key claim orderId, s.intents.get? key = some claim ∧ claim.clientOrderId = client ∧
        claim.orderId = some orderId
  own : s.ExecutedOnOwnOrder

variable {s : PaperOrderService} {key : String} {stored : Submission}
  {kept : PaperOrderService → Prop}

theorem sound_fresh : fresh.Sound where
  managed := by
    intro record hrecord
    cases hrecord
  valid _ _ h := by cases h
  blank _ _ h := by cases h
  claimed _ _ h := by cases h
  opened _ _ _ h := by cases h
  answered _ h := by cases h
  own _ _ h := by cases h

theorem Sound.openedFor (h : s.Sound) (hstored : s.requests.get? key = some stored)
    {client session orderId : String}
    (hsession : exchangeSession stored.request.timestamp = some session)
    (hopened : s.OpenedUnder (orderIntentKey (stored.request.wireOrder client) session) orderId) :
    OpenedFor s.ledger orderId stored.request := by
  obtain ⟨record, hrecord, order, session', intent, hby, hkey⟩ := hopened
  obtain ⟨hside, hsignal⟩ := h.valid key stored hstored
  rw [openedFor_iff h.managed hrecord hby]
  exact isFor_of_orderIntentKey hby.made hkey hsession hside hsignal

theorem Sound.openedFor_iff_isFor (h : s.Sound) {now : String} {book : OrderBook ℚ}
    (hreplay : s.ledger.replayBook now = .ok book) {order : Domain.Order ℚ}
    (horder : order ∈ book.orders.values) {request : PaperOrderRequest} :
    OpenedFor s.ledger order.orderId request ↔ IsFor order request := by
  have hrecords : CanonicalLedger.replayRecords now .empty s.ledger.records = .ok book := by
    rw [CanonicalLedger.replayBook] at hreplay
    split at hreplay
    · cases hreplay
    · exact hreplay
  obtain ⟨⟨orderId, found⟩, hentry, rfl⟩ := List.mem_map.mp horder
  obtain ⟨record, hrecord, wire, session, intent, hby, hterms⟩ :=
    tracedTo_of_replay h.managed hrecords orderId found (Dict.get?_of_mem_entries hentry)
  obtain ⟨hid, hsymbol, hside, hquantity, hdate, hsignal⟩ := fromIntent_kept_terms hby.made
  have hsame : found.orderId = orderId := by
    rw [hterms.orderId, hid, ← hby.orderId]
  have hlineage := congrArg (fun lineage : Domain.Lineage ↦ lineage.get .signalId) hterms.lineage
  simp only
  rw [hsame, openedFor_iff h.managed hrecord hby, isFor_iff hsymbol hside hquantity hdate hsignal,
    isFor_iff (hterms.symbol.trans hsymbol) (hterms.side.trans hside)
      (hterms.quantity.trans hquantity) (hterms.tradeDate.trans hdate) (hlineage.trans hsignal)]

/-- The ledger grows, and the process remembers no more answers. -/
theorem Sound.grow {s' : PaperOrderService} (h : s.Sound) (hrequests : s'.requests = s.requests)
    (hintents : s'.intents = s.intents) (hmanaged : Managed s'.ledger.records)
    {more : List (LedgerRecord ℚ)} (hmore : s'.ledger.records = s.ledger.records ++ more)
    (hwire : ∀ process', s'.process = some process' → ∀ client state,
      process'.wire.get? client = some state →
        ∃ process, s.process = some process ∧ process.wire.get? client = some state) :
    s'.Sound where
  managed := hmanaged
  valid := by
    rw [hrequests]
    exact h.valid
  blank := by
    rw [hrequests]
    exact h.blank
  claimed := by
    rw [hrequests, hintents]
    exact h.claimed
  opened := by
    rw [hintents]
    intro key claim orderId hclaim horder
    obtain ⟨record, hrecord, hby⟩ := h.opened key claim orderId hclaim horder
    exact ⟨record, by rw [hmore]; exact List.mem_append_left more hrecord, hby⟩
  answered := by
    rw [hintents]
    intro process' hprocess' client state hstate
    obtain ⟨process, hprocess, hbefore⟩ := hwire process' hprocess' client state hstate
    exact h.answered process hprocess client state hbefore
  own := by
    intro key stored hstored hexecuted
    rw [hrequests] at hstored
    obtain ⟨hnamed, hreported⟩ := h.own key stored hstored hexecuted
    refine ⟨fun orderId horder ↦ (hnamed orderId horder).of_append hmore, fun hreports ↦ ?_⟩
    obtain ⟨orderId, hfrom, hopened⟩ := hreported hreports
    refine ⟨orderId, ?_, hopened.of_append hmore⟩
    rw [Reported, hintents]
    exact hfrom

theorem Sound.withMirror (h : s.Sound) {process : Process} (hprocess : s.process = some process)
    {after : Mirror ℚ} (hmanaged : Managed after.ledger.records) {more : List (LedgerRecord ℚ)}
    (hmore : after.ledger.records = s.ledger.records ++ more) :
    (s.withMirror process after).Sound := by
  refine h.grow rfl rfl hmanaged hmore ?_
  intro process' hprocess' client state hstate
  cases hprocess'
  exact ⟨process, hprocess, hstate⟩

theorem Sound.ended (h : s.Sound) :
    ({ s with process := none } : PaperOrderService).Sound :=
  h.grow rfl rfl h.managed (List.append_nil _).symm nofun

theorem Sound.store (h : s.Sound) {after : Submission}
    (hstored : s.requests.get? key = some stored) (hrequest : after.request = stored.request)
    (hsettled : after.state ≠ .queued) (hown : after.state = .executed →
      (∀ orderId, after.canonicalOrderId = some orderId →
        OpenedFor s.ledger orderId stored.request) ∧
      (after.ReportsOrder → ∃ orderId, s.Reported after orderId ∧
        OpenedFor s.ledger orderId stored.request)) :
    ({ s with requests := s.requests.insert key after } : PaperOrderService).Sound where
  managed := h.managed
  valid := by
    intro other found hfound
    rw [Dict.get?_insert] at hfound
    split at hfound
    · cases hfound
      rw [hrequest]
      exact h.valid key stored hstored
    · exact h.valid other found hfound
  blank := by
    intro other found hfound hqueued
    rw [Dict.get?_insert] at hfound
    split at hfound
    · cases hfound
      exact absurd hqueued hsettled
    · exact h.blank other found hfound hqueued
  claimed := by
    intro intentKey claim hclaim
    obtain ⟨found, session, hfound, hsession, hkey⟩ := h.claimed intentKey claim hclaim
    simp only [Dict.get?_insert]
    split
    · rename_i heq
      rw [heq] at hfound hkey
      cases hstored.symm.trans hfound
      refine ⟨after, session, rfl, ?_, ?_⟩
      · rw [hrequest]
        exact hsession
      · rw [hrequest, heq]
        exact hkey
    · exact ⟨found, session, hfound, hsession, hkey⟩
  opened := h.opened
  answered := h.answered
  own := by
    intro other found hfound hexecuted
    rw [Dict.get?_insert] at hfound
    split at hfound
    · cases hfound
      rw [hrequest]
      exact hown hexecuted
    · exact h.own other found hfound hexecuted

theorem Sound.accept (h : s.Sound) {request : PaperOrderRequest}
    (hnew : s.requests.get? key = none)
    (hside : request.stored.normalisedSide = "BUY" ∨ request.stored.normalisedSide = "SELL")
    (hsignal : request.signalId ≠ "") :
    ({ s with requests := s.requests.insert key (.accepted request) } : PaperOrderService).Sound where
  managed := h.managed
  valid := by
    intro other found hfound
    rw [Dict.get?_insert] at hfound
    split at hfound
    · cases hfound
      exact ⟨hside, hsignal⟩
    · exact h.valid other found hfound
  blank := by
    intro other found hfound hqueued
    rw [Dict.get?_insert] at hfound
    split at hfound
    · cases hfound
      exact ⟨rfl, rfl, rfl⟩
    · exact h.blank other found hfound hqueued
  claimed := by
    intro intentKey claim hclaim
    obtain ⟨found, session, hfound, hrest⟩ := h.claimed intentKey claim hclaim
    refine ⟨found, session, ?_, hrest⟩
    rw [Dict.get?_insert_of_ne, hfound]
    rintro rfl
    rw [hnew] at hfound
    cases hfound
  opened := h.opened
  answered := h.answered
  own := by
    intro other found hfound hexecuted
    rw [Dict.get?_insert] at hfound
    split at hfound
    · cases hfound
      cases hexecuted
    · exact h.own other found hfound hexecuted

omit [Hashing ℚ] [OrderTexts] in
theorem Reported.of_insert {claim : IntentClaim}
    (hold : ∀ known, s.intents.get? key = some known → known.orderId = none) {process}
    {orderId : String} (h : s.Reported stored orderId) :
    ({ s with intents := s.intents.insert key claim, process } : PaperOrderService).Reported stored
      orderId := by
  rcases h with hnamed | ⟨hnone, other, found, hfound, hclient, horder⟩
  · exact .inl hnamed
  · refine .inr ⟨hnone, other, found, ?_, hclient, horder⟩
    rw [Dict.get?_insert_of_ne, hfound]
    rintro rfl
    rw [hold found hfound] at horder
    cases horder

/-- The intent of a stored request is claimed, or its claim is resolved with an order that was
opened under it. -/
theorem Sound.claim (h : s.Sound) {claim : IntentClaim}
    (hold : ∀ known, s.intents.get? key = some known → known.orderId = none) {session : String}
    (hstored : s.requests.get? claim.clientOrderId = some stored)
    (hsession : exchangeSession stored.request.timestamp = some session)
    (hkey : key = orderIntentKey (stored.request.wireOrder claim.clientOrderId) session)
    (hopened : ∀ orderId, claim.orderId = some orderId → s.OpenedUnder key orderId)
    {process : Option Process} (hanswered : ∀ process', process = some process' → ∀ client state,
      process'.wire.get? client = some state →
        (∃ before, s.process = some before ∧ before.wire.get? client = some state) ∨
          state.clientOrderId = client ∧ claim.clientOrderId = client ∧ claim.orderId ≠ none) :
    ({ s with intents := s.intents.insert key claim, process } : PaperOrderService).Sound where
  managed := h.managed
  valid := h.valid
  blank := h.blank
  claimed := by
    intro other found hfound
    rw [Dict.get?_insert] at hfound
    split at hfound
    · rename_i heq
      cases hfound
      rw [heq]
      exact ⟨stored, session, hstored, hsession, hkey⟩
    · exact h.claimed other found hfound
  opened := by
    intro other found orderId hfound horder
    rw [Dict.get?_insert] at hfound
    split at hfound
    · rename_i heq
      cases hfound
      rw [heq]
      exact hopened orderId horder
    · exact h.opened other found orderId hfound horder
  answered := by
    intro process' hprocess' client state hstate
    rcases hanswered process' hprocess' client state hstate with
      ⟨before, hbefore, hwire⟩ | ⟨hclient, hclaim, horder⟩
    · obtain ⟨hclient, other, found, orderId, hfound, hfoundClient, horder⟩ :=
        h.answered before hbefore client state hwire
      refine ⟨hclient, other, found, orderId, ?_, hfoundClient, horder⟩
      rw [Dict.get?_insert_of_ne, hfound]
      rintro rfl
      rw [hold found hfound] at horder
      cases horder
    · obtain ⟨orderId, hid⟩ := Option.ne_none_iff_exists'.mp horder
      exact ⟨hclient, key, claim, orderId, Dict.get?_insert_self _ _ _, hclaim, hid⟩
  own := by
    intro other found hfound hexecuted
    obtain ⟨hnamed, hreported⟩ := h.own other found hfound hexecuted
    refine ⟨hnamed, fun hreports ↦ ?_⟩
    obtain ⟨orderId, hfrom, hfor⟩ := hreported hreports
    exact ⟨orderId, hfrom.of_insert hold, hfor⟩

def Steady (kept : PaperOrderService → Prop) : Prop :=
  ∀ s process (after : Mirror ℚ) more, after.ledger.records = s.ledger.records ++ more → kept s →
    kept (s.withMirror process after)

omit [OrderTexts] in
/-- A mirrored call does what it does to the book and the ledger. -/
theorem upholds_mirrored {always before : PaperOrderService → Prop} {moment : Moment}
    {call : MirrorCall ℚ} {after : Domain.Order ℚ → PaperOrderService → Prop}
    (h : ∀ s process, before s → s.process = some process →
      always (s.withMirror process ((s.mirror process).perform moment call).1) ∧
      ∀ canonical, ((s.mirror process).perform moment call).2 = .ok canonical →
        after canonical (s.withMirror process ((s.mirror process).perform moment call).1)) :
    Durable.Upholds always before (mirrored moment call) after := by
  unfold mirrored
  refine Durable.Upholds.look.next fun seen ↦ ?_
  cases hprocess : seen.process with
  | none => exact .raise
  | some process =>
    let outcome := (seen.mirror process).perform moment call
    let saved : PaperOrderService → Prop := fun s ↦
      ∀ canonical, outcome.2 = .ok canonical → after canonical s
    refine Durable.Upholds.andThen saved (Durable.Upholds.save ?_ ?_) fun _ ↦ ?_
    · rintro s ⟨hs, rfl⟩
      exact (h seen process hs hprocess).1
    · rintro s ⟨hs, rfl⟩
      exact (h seen process hs hprocess).2
    · refine Durable.Upholds.lift.imp (fun _ hs ↦ hs) ?_
      rintro canonical s ⟨hsaved, hok⟩
      refine hsaved canonical ?_
      cases hresult : outcome.2 with
      | error error =>
        rw [show ((seen.mirror process).perform moment call).2 = .error error from hresult] at hok
        cases hok
      | ok found =>
        rw [show ((seen.mirror process).perform moment call).2 = .ok found from hresult] at hok
        rw [Except.ok.inj hok]

theorem upholds_mirrored_event (hkept : Steady kept) (moment : Moment) (orderId : String)
    (kind : Domain.OrderEventType) (fill : Option (Domain.Fill ℚ)) (reason : Option String)
    (decision : Option (Domain.RiskDecision ℚ)) (tradeDate : Option String) :
    Durable.Upholds Sound (fun s ↦ s.Sound ∧ kept s)
      (mirrored moment (.event orderId kind fill reason decision tradeDate))
      fun _ s ↦ s.Sound ∧ kept s := by
  refine upholds_mirrored fun s process hs hprocess ↦ ?_
  obtain ⟨more, hmore⟩ := exists_records_of_perform (s.mirror process) moment
    (.event orderId kind fill reason decision tradeDate)
  have hmanaged : Managed ((s.mirror process).perform moment
      (.event orderId kind fill reason decision tradeDate)).1.ledger.records :=
    managed_perform_event hs.1.managed moment orderId kind fill reason decision tradeDate
  have hsound := hs.1.withMirror hprocess hmanaged hmore
  exact ⟨hsound, fun _ _ ↦ ⟨hsound, hkept s process _ more hmore hs.2⟩⟩

theorem upholds_mirrored_opening (hkept : Steady kept) (moment : Moment) {order : WireOrder}
    {session : String} {intent : OrderIntent ℚ}
    (hmade : canonicalIntent order session = .ok intent) (tradeDate : Option String) :
    Durable.Upholds Sound (fun s ↦ s.Sound ∧ kept s)
      (mirrored moment (.opening intent none tradeDate))
      fun canonical s ↦ s.Sound ∧ kept s ∧
        s.OpenedUnder (orderIntentKey order session) canonical.orderId := by
  refine upholds_mirrored fun s process hs hprocess ↦ ?_
  obtain ⟨more, hmore⟩ := exists_records_of_perform (s.mirror process) moment
    (.opening intent none tradeDate)
  have hbefore : Managed (s.mirror process).ledger.records := hs.1.managed
  obtain ⟨hmanaged, hopened⟩ := managed_perform_opening hbefore moment hmade tradeDate
  have hsound := hs.1.withMirror hprocess hmanaged hmore
  refine ⟨hsound, fun canonical hcanonical ↦ ⟨hsound, hkept s process _ more hmore hs.2, ?_⟩⟩
  obtain ⟨record, hrecord, hby⟩ := hopened canonical hcanonical
  exact ⟨record, hrecord, order, session, intent, hby, rfl⟩

theorem upholds_venueEvents (hkept : Steady kept) (events : List VenueEvent) :
    Durable.Upholds Sound (fun s ↦ s.Sound ∧ kept s) (venueEvents events)
      fun _ s ↦ s.Sound ∧ kept s := by
  induction events with
  | nil => exact .done fun _ hs ↦ hs
  | cons event events ih =>
    unfold venueEvents
    refine Durable.Upholds.look.next fun seen ↦ ?_
    cases hprocess : seen.process with
    | none => exact .raise
    | some process =>
      have hstep : ∀ s, (s.Sound ∧ kept s) ∧ seen = s →
          (s.withMirror process
            ((s.mirror process).perform event.moment event.call).1).Sound ∧
          kept (s.withMirror process
            ((s.mirror process).perform event.moment event.call).1) := by
        rintro s ⟨⟨hsound, hs⟩, rfl⟩
        obtain ⟨more, hmore⟩ := exists_records_of_perform (seen.mirror process) event.moment
          event.call
        have hmanaged : Managed ((seen.mirror process).perform event.moment
            event.call).1.ledger.records :=
          managed_perform_event hsound.managed event.moment event.orderId event.kind event.fill
            event.reason none event.tradeDate
        exact ⟨hsound.withMirror hprocess hmanaged hmore, hkept _ process _ more hmore hs⟩
      exact Durable.Upholds.andThen _ (Durable.Upholds.save (fun s hs ↦ (hstep s hs).1) hstep)
        fun _ ↦ ih

theorem upholds_applyCanonicalRisk (hkept : Steady kept) (canonical : Domain.Order ℚ)
    (given : Surroundings) :
    Durable.Upholds Sound (fun s ↦ s.Sound ∧ kept s) (applyCanonicalRisk canonical given)
      fun _ s ↦ s.Sound ∧ kept s := by
  unfold applyCanonicalRisk
  simp only
  split
  · refine Durable.Upholds.andThen _ (upholds_mirrored_event hkept _ _ _ _ _ _ _) fun _ ↦ ?_
    refine Durable.Upholds.andThen _ (upholds_mirrored_event hkept _ _ _ _ _ _ _) fun _ ↦ ?_
    exact .done fun _ hs ↦ hs
  · refine Durable.Upholds.andThen _ (upholds_mirrored_event hkept _ _ _ _ _ _ _) fun _ ↦ ?_
    exact .done fun _ hs ↦ hs

theorem upholds_recordVenueRefusal (hkept : Steady kept) (canonical : Domain.Order ℚ)
    (reason : String) (moment : Moment) :
    Durable.Upholds Sound (fun s ↦ s.Sound ∧ kept s) (recordVenueRefusal canonical reason moment)
      fun _ s ↦ s.Sound ∧ kept s := by
  unfold recordVenueRefusal
  refine Durable.Upholds.afterLook fun seen ↦ ?_
  split
  · split
    · refine Durable.Upholds.andThen _ (upholds_mirrored_event hkept _ _ _ _ _ _ _) fun _ ↦ ?_
      exact .done fun _ hs ↦ hs
    · exact .done fun _ hs ↦ hs
  · exact .raise

theorem upholds_route (hkept : Steady kept) (order : WireOrder) (canonical : Domain.Order ℚ)
    (given : Surroundings) :
    Durable.Upholds Sound (fun s ↦ s.Sound ∧ kept s) (route order canonical given)
      fun answer s ↦ (s.Sound ∧ kept s) ∧ answer.1.clientOrderId = order.clientOrderId := by
  unfold route
  refine Durable.Upholds.andThen _ (upholds_venueEvents hkept given.venue) fun _ ↦ ?_
  split
  · exact .done fun _ hs ↦ ⟨hs, rfl⟩
  · refine Durable.Upholds.andThen _ (upholds_recordVenueRefusal hkept canonical _ _) fun _ ↦ ?_
    exact .done fun _ hs ↦ ⟨hs, rfl⟩
  · exact .raise

omit [Hashing ℚ] [OrderTexts] in
def Waiting (key : String) (stored : Submission) (intentKey : String) (s : PaperOrderService) :
    Prop :=
  s.requests.get? key = some stored ∧
    ∀ known, s.intents.get? intentKey = some known → known.orderId = none

/-- A state to report comes from a client order whose order was opened for the request. -/
structure Answers (key : String) (stored : Submission) (state : OrderState ℚ)
    (s : PaperOrderService) : Prop where
  sound : s.Sound
  known : s.requests.get? key = some stored
  order : ∃ intentKey claim orderId, s.intents.get? intentKey = some claim ∧
    claim.clientOrderId = state.clientOrderId ∧ claim.orderId = some orderId ∧
    OpenedFor s.ledger orderId stored.request

theorem upholds_resolveIntent {session orderId : String}
    (hsession : exchangeSession stored.request.timestamp = some session) {claim : IntentClaim}
    {state : OrderState ℚ} (hclient : claim.clientOrderId = key)
    (hstate : state.clientOrderId = key) (horder : claim.orderId = some orderId) :
    let intentKey := orderIntentKey (stored.request.wireOrder key) session
    Durable.Upholds Sound
      (fun s ↦ (s.Sound ∧ Waiting key stored intentKey s) ∧ s.OpenedUnder intentKey orderId)
      (resolveIntent intentKey claim state)
      fun _ s ↦ s.Answers key stored state := by
  intro intentKey
  have hsound : ∀ s : PaperOrderService,
      (s.Sound ∧ Waiting key stored intentKey s) ∧ s.OpenedUnder intentKey orderId →
        ({ s with
          intents := s.intents.insert intentKey claim
          process := s.process.map fun process ↦
            { process with wire := process.wire.insert state.clientOrderId state } } :
          PaperOrderService).Sound := by
    rintro s ⟨⟨hs, hstored, hold⟩, hopened⟩
    refine hs.claim hold ?_ hsession ?_ ?_ ?_
    · rw [hclient]
      exact hstored
    · rw [hclient]
    · intro found hfound
      rw [horder] at hfound
      rw [← Option.some.inj hfound]
      exact hopened
    · intro process' hprocess' client known hknown
      obtain ⟨before, hbefore, rfl⟩ := Option.map_eq_some_iff.mp hprocess'
      simp only [Dict.get?_insert] at hknown
      split at hknown
      · rename_i heq
        cases hknown
        refine .inr ⟨heq.symm, ?_, by simp [horder]⟩
        rw [hclient, heq, hstate]
      · exact .inl ⟨before, hbefore, hknown⟩
  refine Durable.Upholds.save hsound fun s hs ↦ ?_
  have hafter := hsound s hs
  obtain ⟨⟨hbefore, hstored, -⟩, hopened⟩ := hs
  refine ⟨hafter, hstored, intentKey, claim, orderId, Dict.get?_insert_self _ _ _, ?_, horder,
    hbefore.openedFor hstored hsession hopened⟩
  rw [hclient, hstate]

variable [Sha1]

theorem upholds_submitClaimed {session : String}
    (hsession : exchangeSession stored.request.timestamp = some session) (given : Surroundings) :
    Durable.Upholds Sound
      (fun s ↦ s.Sound ∧
        Waiting key stored (orderIntentKey (stored.request.wireOrder key) session) s)
      (submitClaimed (stored.request.wireOrder key) session given)
      fun state s ↦ s.Answers key stored state := by
  let order := stored.request.wireOrder key
  let intentKey := orderIntentKey order session
  have hwaiting : Steady (Waiting key stored intentKey) := fun _ _ _ _ _ hs ↦ hs
  have hopened (orderId : String) : Steady fun s ↦
      Waiting key stored intentKey s ∧ s.OpenedUnder intentKey orderId := by
    rintro s process after more hmore ⟨hs, record, hrecord, hby⟩
    exact ⟨hs, record, by
      rw [show (s.withMirror process after).ledger.records = s.ledger.records ++ more from hmore]
      exact List.mem_append_left more hrecord, hby⟩
  unfold submitClaimed
  refine Durable.Upholds.afterOk fun intent hintent ↦ ?_
  have hmade : canonicalIntent order session = .ok intent := by
    cases hresult : canonicalIntent order session with
    | error error =>
      rw [hresult] at hintent
      cases hintent
    | ok made =>
      rw [hresult] at hintent
      exact congrArg Except.ok (Except.ok.inj hintent)
  refine (upholds_mirrored_opening hwaiting given.opened hmade (some session)).next
    fun canonical ↦ ?_
  have hsteady := hopened canonical.orderId
  refine Durable.Upholds.andThen _ (upholds_applyCanonicalRisk hsteady canonical given) fun _ ↦ ?_
  simp only
  split
  · refine (upholds_route hsteady order canonical given).next fun answer ↦ ?_
    by_cases hclient : answer.1.clientOrderId = key
    · refine Durable.Upholds.andThen _ ((upholds_resolveIntent hsession ?_ hclient rfl).imp ?_
        fun _ _ h ↦ h) fun _ ↦ ?_
      · exact rfl
      · rintro s ⟨⟨hs, hwait, hunder⟩, -⟩
        exact ⟨⟨hs, hwait⟩, hunder⟩
      · exact .done fun _ hs ↦ hs
    · rintro s ⟨-, hsame⟩
      exact absurd hsame hclient
  · refine Durable.Upholds.andThen _ ((upholds_resolveIntent hsession ?_ ?_ rfl).imp ?_
      fun _ _ h ↦ h) fun _ ↦ ?_
    · exact rfl
    · exact rfl
    · rintro s ⟨hs, hwait, hunder⟩
      exact ⟨⟨hs, hwait⟩, hunder⟩
    · exact .done fun _ hs ↦ hs

end PaperOrderService

end QuantAgent.Services
