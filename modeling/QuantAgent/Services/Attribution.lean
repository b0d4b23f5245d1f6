import QuantAgent.Domain.Settlement
import QuantAgent.Services.OwnOrders

/-!
# Settling requests from the ledger

A request that is settled from the ledger is stored as executed on the first order with the signal
expected for it.  The signal covers the symbol and one text that joins the date and the signal
identifier, but neither the side nor the quantity; so a run keeps every request on its own order
exactly as long as the first order that is found also has the other terms of the request.
-/

namespace QuantAgent.Services

open Library Execution
open Domain (CanonicalLedger Hashing LedgerRecord Mirror MirrorCall Moment OrderBook OrderIntent)

namespace PaperOrderService

variable [Hashing ℚ] [OrderTexts] [Sha1]

/-! ## When a request is settled from the ledger -/

omit [OrderTexts] [Sha1] in
def expectedOrder (book : OrderBook ℚ) (request : PaperOrderRequest) : Option (Domain.Order ℚ) :=
  book.orders.values.find? fun order ↦
    order.lineage.get .signalId = some request.expectedSignalId

omit [Sha1] in
/-- The first order of the ledger with the signal expected for a request, if there is one, has the
side, the quantity, the session and the signal of the request as well. -/
def SettlesOwn (s : PaperOrderService) (request : PaperOrderRequest) (now : String) : Prop :=
  ∀ book order, s.ledger.replayBook now = .ok book → expectedOrder book request = some order →
    IsFor order request

/-- The intent of an order was claimed for the same terms, and this process has no answer. -/
def Unanswered (s : PaperOrderService) (order : WireOrder) : Prop :=
  ∃ session known, exchangeSession order.timestamp = some session ∧
    s.intents.get? (orderIntentKey order session) = some known ∧
    known.fingerprint = requestFingerprint order ∧
    (s.process.bind fun process ↦ process.wire.get? known.clientOrderId) = none

/-- A round that settles a queued request from the ledger finds its own order there. -/
def Attributes (s : PaperOrderService) : ServiceCall → Prop
  | .submit _ => True
  | .venue _ => True
  | .settle key now => ∀ stored, s.requests.get? key = some stored → stored.state = .queued →
      s.SettlesOwn stored.request now
  | .execute key given => ∀ stored, s.requests.get? key = some stored → stored.state = .queued →
      given.market = none → s.Unanswered (stored.request.wireOrder key) →
        s.SettlesOwn stored.request given.now

/-- A step of a running process whose call settles a request, and lives to store it. -/
def AttributesStep (s : PaperOrderService) : ServiceStep → Prop
  | .start _ _ => True
  | .call call => s.process.isSome → s.Attributes call
  | .crash call replacements => s.process.isSome → replacements ≠ 0 → s.Attributes call

omit [OrderTexts] [Sha1] in
def settledPayload (book : OrderBook ℚ) (stored : Submission) : Submission :=
  match expectedOrder book stored.request with
  | none => stored.interrupted
  | some order => stored.matched order

variable {key now : String} {stored : Submission}

omit [OrderTexts] [Sha1] in
theorem resolveFromLedger_apply (s : PaperOrderService)
    (hstored : s.requests.get? key = some stored) {book : OrderBook ℚ}
    (hreplay : s.ledger.replayBook now = .ok book) :
    resolveFromLedger key stored.request now s =
      ([{ s with requests := s.requests.insert key (settledPayload book stored) }], .ok ()) := by
  unfold resolveFromLedger
  rw [Durable.look_next, hreplay]
  simp only
  rw [← expectedOrder, settledPayload]
  cases expectedOrder book stored.request with
  | none => simp only [resolve, Durable.save, hstored]
  | some order => simp only [resolve, Durable.save, hstored]

variable {s₀ s : PaperOrderService}

omit [Sha1] in
/-- A request is settled soundly when it finds its own order. -/
theorem upholds_resolveFromLedger (hstored : s₀.requests.get? key = some stored)
    (hqueued : stored.state = .queued) (hown : s₀.SettlesOwn stored.request now) :
    Durable.Upholds Sound (fun s ↦ s.Sound ∧ s = s₀) (resolveFromLedger key stored.request now)
      fun _ _ ↦ True := by
  rintro s ⟨hs, rfl⟩
  refine ⟨?_, fun _ _ ↦ trivial⟩
  obtain ⟨hcanonical, hfilled, hvenue⟩ := hs.blank key stored hstored hqueued
  cases hreplay : s.ledger.replayBook now with
  | error error =>
    unfold resolveFromLedger
    rw [Durable.look_next, hreplay]
    intro passed hpassed
    cases hpassed
  | ok book =>
    rw [resolveFromLedger_apply s hstored hreplay]
    intro passed hpassed
    rw [List.mem_singleton.mp hpassed, settledPayload]
    cases hfound : expectedOrder book stored.request with
    | none => exact hs.store hstored rfl (by simp [Submission.interrupted]) nofun
    | some order =>
      have hmem := List.mem_of_find?_eq_some hfound
      have hopened := (hs.openedFor_iff_isFor hreplay hmem).mpr (hown book order hreplay hfound)
      refine hs.store hstored rfl (by simp [Submission.matched]) fun _ ↦ ⟨?_, fun _ ↦ ?_⟩
      · intro orderId hid
        rw [← Option.some.inj hid]
        exact hopened
      · exact ⟨order.orderId, .inl rfl, hopened⟩

omit [Sha1] in
theorem not_executedOnOwnOrder_of_not_settlesOwn (h : s.Sound)
    (hstored : s.requests.get? key = some stored) (hnot : ¬ s.SettlesOwn stored.request now) :
    ∃ after, resolveFromLedger key stored.request now s = ([after], .ok ()) ∧
      ∀ process, ¬ ({ after with process } : PaperOrderService).ExecutedOnOwnOrder := by
  simp only [SettlesOwn, not_forall] at hnot
  obtain ⟨book, order, hreplay, hfound, hother⟩ := hnot
  refine ⟨_, resolveFromLedger_apply s hstored hreplay, fun process hown ↦ hother ?_⟩
  have hpayload : settledPayload book stored = stored.matched order := by
    rw [settledPayload, hfound]
  have hmem := List.mem_of_find?_eq_some hfound
  have hreported := hown key (settledPayload book stored) (Dict.get?_insert_self _ _ _)
  rw [hpayload] at hreported
  rw [← h.openedFor_iff_isFor hreplay hmem]
  exact (hreported rfl).1 order.orderId rfl

/-! ## The rounds -/

/-- The order manager yields an answer for the order of the request, or it was handled before and
nothing has changed. -/
theorem upholds_submitOrder (hstored : s₀.requests.get? key = some stored) (given : Surroundings) :
    Durable.Upholds Sound (fun s ↦ s.Sound ∧ s = s₀)
      (submitOrder (stored.request.wireOrder key) given) fun answer s ↦
        match answer with
        | none => (s.Sound ∧ s = s₀) ∧ s₀.Unanswered (stored.request.wireOrder key)
        | some state => s.Answers key stored state := by
  let order := stored.request.wireOrder key
  unfold submitOrder
  cases hsession : exchangeSession order.timestamp with
  | none => exact .raise
  | some session =>
    simp only
    refine Durable.Upholds.look.next fun seen ↦ ?_
    let intentKey := orderIntentKey order session
    cases hknown : seen.intents.get? (orderIntentKey (stored.request.wireOrder key) session) with
    | some known =>
      simp only
      split
      · exact .raise
      · rename_i hsame
        refine .done ?_
        rintro s ⟨⟨hs, rfl⟩, rfl⟩
        cases hwire : seen.process.bind fun process ↦ process.wire.get? known.clientOrderId with
        | none =>
          exact ⟨⟨hs, rfl⟩, session, known, hsession, hknown, not_not.mp hsame, hwire⟩
        | some state =>
          obtain ⟨process, hprocess, hstate⟩ := Option.bind_eq_some_iff.mp hwire
          obtain ⟨hclient, other, claim, orderId, hclaim, hsameClient, horder⟩ :=
            hs.answered process hprocess known.clientOrderId state hstate
          -- both claims are for the request that the client order names
          obtain ⟨owner, session', howner, hsession', hkey⟩ := hs.claimed _ known hknown
          obtain ⟨owner', session'', howner', hsession'', hkey'⟩ := hs.claimed other claim hclaim
          rw [hsameClient] at howner' hkey'
          cases howner.symm.trans howner'
          cases hsession'.symm.trans hsession''
          obtain rfl : other =
            orderIntentKey (stored.request.wireOrder key) session := hkey'.trans hkey.symm
          refine ⟨hs, hstored, _, claim, orderId, hclaim, hsameClient.trans hclient.symm,
            horder, ?_⟩
          exact hs.openedFor hstored hsession (hs.opened _ claim orderId hclaim horder)
    | none =>
      simp only
      refine Durable.Upholds.andThen
        (fun s ↦ s.Sound ∧ Waiting key stored intentKey s) ?_ fun _ ↦ ?_
      · have hclaimed : ∀ s : PaperOrderService, (s.Sound ∧ s = s₀) ∧ seen = s →
            ({ s with intents := s.intents.insert intentKey {
                clientOrderId := key, fingerprint := requestFingerprint order
                orderId := none, riskApproved := none, riskReason := none
                venueRefused := none } } : PaperOrderService).Sound := by
          rintro s ⟨⟨hs, rfl⟩, rfl⟩
          refine hs.claim ?_ hstored hsession rfl (fun orderId horder ↦ by cases horder) ?_
          · intro known hbefore
            cases hknown.symm.trans hbefore
          · intro process hprocess client state hstate
            exact .inl ⟨process, hprocess, hstate⟩
        refine Durable.Upholds.save hclaimed fun s hs ↦ ⟨hclaimed s hs, ?_, ?_⟩
        · rw [hs.1.2]
          exact hstored
        · intro known hbefore
          rw [Dict.get?_insert_self] at hbefore
          rw [← Option.some.inj hbefore]
      · refine (upholds_submitClaimed hsession given).next fun state ↦ ?_
        exact .done fun _ hs ↦ hs

theorem upholds_execute {given : Surroundings} (h : s₀.Attributes (.execute key given)) :
    Durable.Upholds Sound (fun s ↦ s.Sound ∧ s = s₀) (execute key given) fun _ _ ↦ True := by
  unfold execute
  refine Durable.Upholds.look.next fun seen ↦ ?_
  cases hstored : seen.requests.get? key with
  | none => exact .done fun _ _ ↦ trivial
  | some stored =>
    simp only
    split
    · rename_i hqueued
      by_cases hseen : seen = s₀
      · subst hseen
        refine Durable.Upholds.imp
          (?_ : Durable.Upholds Sound (fun s ↦ s.Sound ∧ s = seen) _ fun _ _ ↦ True)
          (fun s hs ↦ hs.1) fun _ _ h ↦ h
        cases hmarket : given.market with
        | some reason =>
          refine Durable.Upholds.save ?_ fun _ _ ↦ trivial
          rintro s ⟨hs, rfl⟩
          obtain ⟨hcanonical, hfilled, -⟩ := hs.blank key stored hstored hqueued
          simp only [hstored]
          refine hs.store hstored rfl (by simp [Submission.refused]) fun _ ↦ ⟨?_, ?_⟩
          · intro orderId hid
            cases hcanonical.symm.trans hid
          · rintro (hreported | ⟨-, hreported⟩)
            · exact absurd hfilled hreported
            · exact absurd rfl hreported
        | none =>
          simp only
          refine (upholds_submitOrder hstored given).next fun answer ↦ ?_
          cases answer with
          | none =>
            intro s hs
            exact upholds_resolveFromLedger hstored hqueued
              (h stored hstored hqueued hmarket hs.2) s hs.1
          | some state =>
            refine Durable.Upholds.save (fun s hs ↦ ?_) fun _ _ ↦ trivial
            obtain ⟨hsound, hknown, intentKey, claim, orderId, hclaim, hclient, horder,
              hopened⟩ := hs
            obtain ⟨hcanonical, -, -⟩ := hsound.blank key stored hknown hqueued
            simp only [hknown]
            refine hsound.store hknown rfl (by simp [Submission.answered])
              fun _ ↦ ⟨?_, fun _ ↦ ⟨orderId, .inr ⟨hcanonical, intentKey, claim, hclaim, ?_,
                horder⟩, hopened⟩⟩
            · intro found hid
              cases hcanonical.symm.trans hid
            · rw [hclient]
              rfl
      · rintro s ⟨⟨-, hs⟩, hsame⟩
        exact absurd (hsame.trans hs) hseen
    · exact .done fun _ _ ↦ trivial

omit [Sha1] in
theorem upholds_settle
    (h : ∀ stored, s₀.requests.get? key = some stored → stored.state = .queued → s₀.SettlesOwn
      stored.request now) :
    Durable.Upholds Sound (fun s ↦ s.Sound ∧ s = s₀) (settle key now) fun _ _ ↦ True := by
  unfold settle
  refine Durable.Upholds.look.next fun seen ↦ ?_
  cases hstored : seen.requests.get? key with
  | none => exact .done fun _ _ ↦ trivial
  | some stored =>
    simp only
    split
    · rename_i hqueued
      rintro s ⟨⟨hs, rfl⟩, rfl⟩
      exact upholds_resolveFromLedger hstored hqueued (h stored hstored hqueued) seen ⟨hs, rfl⟩
    · exact .done fun _ _ ↦ trivial

omit [Hashing ℚ] [OrderTexts] [Sha1] in
theorem valid_of_validate {request : PaperOrderRequest} (h : request.validate = .ok ()) :
    (request.normalisedSide = "BUY" ∨ request.normalisedSide = "SELL") ∧
      request.signalId ≠ "" := by
  unfold PaperOrderRequest.validate at h
  repeat' split at h
  all_goals try cases h
  rename_i hside hsignal
  refine ⟨?_, ?_⟩
  · by_contra hneither
    exact hside (not_or.mp hneither)
  · intro hempty
    exact hsignal (by rw [hempty]; rfl)

omit [Sha1] in
theorem upholds_submit (request : PaperOrderRequest) :
    Durable.Upholds Sound Sound (submit request) fun _ _ ↦ True := by
  unfold submit
  refine Durable.Upholds.afterOk fun _ hchecked ↦ ?_
  have hvalid : request.validate = .ok () := by
    cases hresult : request.validate with
    | error error =>
      rw [hresult] at hchecked
      cases hchecked
    | ok _ => rfl
  refine Durable.Upholds.look.next fun seen ↦ ?_
  cases hknown : seen.requests.get? request.requestKey with
  | some known =>
    simp only
    split
    · exact .raise
    · exact .done fun _ _ ↦ trivial
  | none =>
    refine Durable.Upholds.save ?_ fun _ _ ↦ trivial
    rintro s ⟨hs, rfl⟩
    obtain ⟨hside, hsignal⟩ := valid_of_validate hvalid
    refine hs.accept hknown ?_ hsignal
    rcases hside with hbuy | hsell
    · left
      rw [PaperOrderRequest.normalisedSide, PaperOrderRequest.stored, hbuy]
      change String.ofList ("BUY".toList.map Char.toUpper) = "BUY"
      decide
    · right
      rw [PaperOrderRequest.normalisedSide, PaperOrderRequest.stored, hsell]
      change String.ofList ("SELL".toList.map Char.toUpper) = "SELL"
      decide

/-! ## Runs -/

/-- A call that settles no request on the order of another one is sound wherever it stops. -/
theorem upholds_call {call : ServiceCall} (h : s₀.Attributes call) :
    Durable.Upholds Sound (fun s ↦ s.Sound ∧ s = s₀) call.procedure fun _ _ ↦ True := by
  cases call with
  | submit request => exact (upholds_submit request).imp (fun _ hs ↦ hs.1) fun _ _ hs ↦ hs
  | execute key given => exact upholds_execute h
  | settle key now => exact upholds_settle h
  | venue events =>
    have hsteady : Steady fun _ ↦ True := fun _ _ _ _ _ _ ↦ trivial
    exact (upholds_venueEvents hsteady events).imp (fun _ hs ↦ ⟨hs.1, trivial⟩) fun _ _ _ ↦ trivial

/-- A step keeps a root sound when its request is settled on its own order. -/
theorem sound_step (h : s.Sound) {input : ServiceStep} (hstep : s.AttributesStep input) :
    (s.step input).Sound := by
  cases input with
  | start now initialCash =>
    change (s.start now initialCash).Sound
    unfold start
    split
    · exact h.ended
    · refine h.grow rfl rfl h.managed (List.append_nil _).symm ?_
      intro process' hprocess' client state hstate
      cases hprocess'
      cases hstate
  | call call =>
    change (if s.process.isSome then call.procedure.final s else s).Sound
    split
    · rename_i hrunning
      exact (upholds_call (hstep hrunning)).final ⟨h, rfl⟩ h
    · exact h
  | crash call replacements =>
    change (if s.process.isSome then
      { call.procedure.stopped s replacements with process := none } else s).Sound
    split
    · rename_i hrunning
      by_cases hzero : replacements = 0
      · subst hzero
        exact h.ended
      · exact ((upholds_call (hstep hrunning hzero)).stopped ⟨h, rfl⟩ h replacements).ended
    · exact h

/-- What a round does that settles a request from the ledger. -/
theorem exists_settled_of_not_attributes (h : s.Sound) {call : ServiceCall}
    (hnot : ¬ s.Attributes call) :
    ∃ after, call.procedure s = ([after], .ok ()) ∧
      ∀ process, ¬ ({ after with process } : PaperOrderService).ExecutedOnOwnOrder := by
  cases call with
  | submit request => exact absurd trivial hnot
  | venue events => exact absurd trivial hnot
  | settle key now =>
    simp only [Attributes, not_forall] at hnot
    obtain ⟨stored, hstored, hqueued, hother⟩ := hnot
    obtain ⟨after, happly, hfails⟩ := not_executedOnOwnOrder_of_not_settlesOwn h hstored hother
    refine ⟨after, ?_, hfails⟩
    change settle key now s = _
    unfold settle
    rw [Durable.look_next, hstored]
    simp only [if_pos hqueued]
    exact happly
  | execute key given =>
    simp only [Attributes, not_forall] at hnot
    obtain ⟨stored, hstored, hqueued, hmarket, hunanswered, hother⟩ := hnot
    obtain ⟨after, happly, hfails⟩ := not_executedOnOwnOrder_of_not_settlesOwn h hstored hother
    refine ⟨after, ?_, hfails⟩
    obtain ⟨session, known, hsession, hknown, hsame, hwire⟩ := hunanswered
    have hyields : submitOrder (stored.request.wireOrder key) given s = ([], .ok none) := by
      unfold submitOrder
      rw [hsession]
      simp only
      rw [Durable.look_next, hknown]
      simp only [hsame, ne_eq, not_true_eq_false, if_false, hwire]
      rfl
    change execute key given s = _
    unfold execute
    rw [Durable.look_next, hstored]
    simp only [if_pos hqueued, hmarket]
    rw [Durable.next_ok (congrArg Prod.snd hyields)]
    simp only [Durable.final, hyields, List.getLastD_nil, List.nil_append]
    rw [happly]

/-- A round that settles a request on the order of another one is seen in what it stores. -/
theorem not_executedOnOwnOrder_step (h : s.Sound) {input : ServiceStep}
    (hnot : ¬ s.AttributesStep input) : ¬ (s.step input).ExecutedOnOwnOrder := by
  cases input with
  | start now initialCash => exact absurd trivial hnot
  | call call =>
    simp only [AttributesStep, not_forall] at hnot
    obtain ⟨hrunning, hother⟩ := hnot
    obtain ⟨after, happly, hfails⟩ := exists_settled_of_not_attributes h hother
    have hstep : s.step (.call call) = after := by
      simp only [step, if_pos hrunning, Durable.final, happly]
      rfl
    rw [hstep]
    exact hfails after.process
  | crash call replacements =>
    simp only [AttributesStep, not_forall] at hnot
    obtain ⟨hrunning, hsome, hother⟩ := hnot
    obtain ⟨after, happly, hfails⟩ := exists_settled_of_not_attributes h hother
    have hstep : s.step (.crash call replacements) = { after with process := none } := by
      obtain ⟨count, rfl⟩ := Nat.exists_eq_succ_of_ne_zero hsome
      simp only [step, if_pos hrunning, Durable.stopped, happly, List.take_succ_cons, List.take_nil]
      rfl
    rw [hstep]
    exact hfails none

/-- In a run from a new root every request is executed on its own order throughout, exactly when
every request that is settled from the ledger finds its own order there. -/
theorem executedOnOwnOrder_throughout_iff (steps : List ServiceStep) :
    Run.Throughout step ExecutedOnOwnOrder fresh steps ↔
      Run.Always step AttributesStep fresh steps := by
  have hkept : ∀ s input, Sound s → AttributesStep s input → Sound (step s input) :=
    fun _ _ h hinput ↦ sound_step h hinput
  have hfails : ∀ s input, Sound s → ¬ AttributesStep s input →
      ¬ ExecutedOnOwnOrder (step s input) := fun _ _ h hnot ↦ not_executedOnOwnOrder_step h hnot
  exact Run.throughout_iff_always_of_invariant (fun s h ↦ Sound.own h) hkept hfails sound_fresh

end PaperOrderService

/-! ## A run on which two requests share a signal -/

/-- The session of an order that is stamped with a date and an instant of it. -/
instance isoTexts : OrderTexts where
  exchangeSession text :=
    if text.toList.drop 10 = "T10:00:00+00:00".toList then some (String.ofList (text.toList.take 10))
    else none
  priceText
    | none => "None"
    | some price =>
      if price.den = 1 then toString price.num ++ ".0" else String.ofList (Domain.printRat price)

namespace PaperOrderService

variable {s : PaperOrderService}

theorem start_of_settled [Hashing ℚ] (hlinked : s.ledger.Linked)
    (hsettled : Domain.SettledChain s.ledger.records) {now : String} {book : OrderBook ℚ}
    (hbook : CanonicalLedger.replayRecords now .empty s.ledger.records = .ok book)
    (hbookings : Domain.bookings s.ledger.records = []) (initialCash : ℚ) :
    s.start now initialCash =
      { s with ledger := { s.ledger with writeFailure := none }, process := some ⟨book, .empty⟩ } := by
  have haccount : (Domain.AccountState.opening initialCash).bookAll
      (Domain.bookings s.ledger.records) = .ok (.opening initialCash) := by
    rw [hbookings]
    rfl
  have hreplay := CanonicalLedger.replay_of_settled hlinked hsettled hbook haccount
  simp only [start, hreplay]

structure FirstOpening [Hashing ℚ] (ledger : CanonicalLedger ℚ) (book : OrderBook ℚ)
    (order : Domain.Order ℚ) (now : String) : Prop where
  linked : ledger.Linked
  writable : ledger.writeFailure = none
  settled : Domain.SettledChain ledger.records
  nothingBooked : Domain.bookings ledger.records = []
  replay : CanonicalLedger.replayRecords now .empty ledger.records = .ok book
  orders : book.orders = Dict.empty.insert order.orderId order.withoutPrices

variable {order : WireOrder}

theorem exists_canonicalIntent [Hashing ℚ] (h : 0 < order.quantity) (session : String) :
    ∃ intent, canonicalIntent order session = .ok intent := by
  have hpositive : Domain.Arithmetic.less Domain.Number.zero (order.quantity : ℚ) = true := by
    rw [Domain.rat_less, Domain.rat_zero]
    exact decide_eq_true (by exact_mod_cast h)
  exact ⟨_, if_pos hpositive⟩

variable {session : String} {intent : OrderIntent ℚ}

theorem noEmptyLink_opened [Hashing ℚ] (h : canonicalIntent order session = .ok intent) :
    (Domain.Order.fromIntent intent none).lineage.NoEmptyLink := by
  unfold canonicalIntent Domain.OrderIntent.create at h
  split at h
  · cases h
    have hid (label : String) (parts : Json ℚ) : some (Domain.contentId label parts) ≠ some "" :=
      fun hempty ↦ Hashing.contentId_ne_empty label parts (Option.some.inj hempty)
    have hrun : (some managerRun : Option String) ≠ some "" := by decide
    have hsignal : (signalOf order.symbol session order.signalOrManual).NoEmptyLink :=
      (Domain.Lineage.noEmptyLink_empty.derive hrun).derive (hid _ _)
    exact ((hsignal.derive (hid _ _)).derive (hid _ _)).derive (by simp)
  · cases h

/-- An order opened on an empty ledger is the first one there. -/
theorem exists_firstOpening [Hashing ℚ] (h : canonicalIntent order session = .ok intent)
    (moment : Moment) (hwrite : moment.write = .landed) (now : String) :
    ∃ after : Mirror ℚ, ∃ book,
      (Mirror.fresh true).perform moment (.opening intent none (some session)) =
        (after, .ok (Domain.Order.fromIntent intent none)) ∧
      FirstOpening after.ledger book (Domain.Order.fromIntent intent none) now := by
  let call : MirrorCall ℚ := .opening intent none (some session)
  let opened := Domain.Order.fromIntent intent none
  let event := OrderBook.createdEvent .empty moment.now opened
  have hlineage := noEmptyLink_opened h
  have hstorable : (call.entry event).Storable := by
    rintro _ ⟨⟩
    exact Mirror.storable_created hlineage
  have hplain : (call.entry event).Plain := by
    refine Domain.Entry.plain_of_decision ?_
    rintro _ decision ⟨⟩ hdecision
    cases hdecision
  have hadvance : call.advance (Mirror.fresh true : Mirror ℚ).book moment.now =
      some (opened, event) := rfl
  have hwritable : (Mirror.fresh true : Mirror ℚ).ledger.writeFailure = none := rfl
  have happend := CanonicalLedger.append_storable moment.recordedAt hwritable hstorable
    fun _ ↦ ⟨hwrite, hplain⟩
  let record := (Mirror.fresh true : Mirror ℚ).ledger.recordOf moment.recordedAt (call.entry event)
    (some event)
  have hperform : (Mirror.fresh true : Mirror ℚ).perform moment call =
      (⟨OrderBook.push .empty opened event, (CanonicalLedger.fresh true).push record⟩,
        .ok opened) := by
    rw [Mirror.perform_of_advance hadvance, happend]
    rfl
  have hquantity : Mirror.IntegerQuantity call := by
    intro made parentOrderId tradeDate hcall
    obtain ⟨rfl, -, -⟩ := MirrorCall.opening.inj hcall
    obtain ⟨-, -, hshares, -⟩ := canonicalIntent_ok h
    rw [hshares, Domain.rat_toInt, Domain.truncate_intCast]
  have htracks : (⟨OrderBook.push .empty opened event,
      (CanonicalLedger.fresh true).push record⟩ : Mirror ℚ).Tracks now :=
    (Mirror.tracks_fresh now true).push hadvance hstorable hquantity
  obtain ⟨book, hreplay, horders⟩ := htracks.replay
  have hsettled : record.Settled := by
    refine ⟨nofun, ?_, ?_⟩
    · rintro _ ⟨⟩
      exact ⟨nofun, fun hfill ↦ absurd rfl hfill⟩
    · rintro _ fill ⟨⟩ hfill
      cases hfill
  have hbooking : record.booking = none := rfl
  refine ⟨_, book, hperform, htracks.linked, rfl, ?_, ?_, hreplay, ?_⟩
  · refine Domain.settledChain_nil.push hsettled fun fill date hbooked ↦ ?_
    cases hbooked
  · change Domain.bookings ([] ++ [record]) = []
    rw [Domain.bookings_append]
    rfl
  · rw [horders]
    rfl

/-- A new delivery that passes the checks is queued. -/
theorem submit_apply [Hashing ℚ] {request : PaperOrderRequest} (hvalid : request.validate = .ok ())
    (hnew : s.requests.get? request.requestKey = none) :
    submit request s =
      ([{ s with requests := s.requests.insert request.requestKey (.accepted request) }],
        .ok ()) := by
  have hchecked : request.validate.mapError ServiceError.rejected = .ok () := by
    rw [hvalid]
    rfl
  unfold submit
  rw [Durable.lift_next hchecked, Durable.look_next, hnew]
  rfl

section

variable [Hashing ℚ] [OrderTexts] [Sha1]

theorem start_fresh :
    step fresh (.start "2026-01-05" 1000000) = { fresh with process := some ⟨.empty, .empty⟩ } :=
  start_of_settled (CanonicalLedger.linked_fresh true) Domain.settledChain_nil
    (show CanonicalLedger.replayRecords "2026-01-05" .empty [] = .ok .empty from rfl) rfl 1000000

theorem step_submit {request : PaperOrderRequest} (hrunning : s.process.isSome = true)
    (hvalid : request.validate = .ok ()) (hnew : s.requests.get? request.requestKey = none) :
    step s (.call (.submit request)) =
      { s with requests := s.requests.insert request.requestKey (.accepted request) } := by
  change (if s.process.isSome then Durable.final (submit request) s else s) = _
  rw [if_pos hrunning, Durable.final, submit_apply hvalid hnew]
  rfl

end

/-- A round of a new intent that stops behind the opening of its order. -/
theorem stopped_execute_opened [Hashing ℚ] [OrderTexts] [Sha1] {key : String} {stored : Submission}
    {given : Surroundings} {process : Process} {after : Mirror ℚ} {canonical : Domain.Order ℚ}
    (hstored : s.requests.get? key = some stored) (hqueued : stored.state = .queued)
    (hmarket : given.market = none)
    (hsession : exchangeSession stored.request.timestamp = some session)
    (hnew : s.intents.get? (orderIntentKey (stored.request.wireOrder key) session) = none)
    (hmade : canonicalIntent (stored.request.wireOrder key) session = .ok intent)
    (hprocess : s.process = some process)
    (hperform : (s.mirror process).perform given.opened (.opening intent none (some session)) =
      (after, .ok canonical)) :
    ∃ intents, (execute key given).stopped s 2 =
      { requests := s.requests, intents, ledger := after.ledger
        process := some { process with book := after.book } } := by
  let order := stored.request.wireOrder key
  let claimed : PaperOrderService :=
    { s with intents := s.intents.insert (orderIntentKey order session) {
        clientOrderId := key
        fingerprint := requestFingerprint order
        orderId := none
        riskApproved := none
        riskReason := none
        venueRefused := none } }
  have hmirrored : mirrored given.opened (.opening intent none (some session)) claimed =
      ([claimed.withMirror process after], .ok canonical) := by
    unfold mirrored
    rw [Durable.look_next]
    have hrunning : claimed.process = some process := hprocess
    have hsame : (claimed.mirror process).perform given.opened
        (.opening intent none (some session)) = (after, .ok canonical) := hperform
    simp only [hrunning, hsame]
    rfl
  obtain ⟨routed, hrouted⟩ : ∃ routed,
      (submitClaimed order session given claimed).1 = claimed.withMirror process after :: routed := by
    have hlift : (canonicalIntent order session).mapError ServiceError.intent = .ok intent := by
      rw [hmade]
      rfl
    unfold submitClaimed
    rw [Durable.lift_next hlift]
    obtain ⟨routed, hrouted⟩ := Durable.passed_next
      (mirrored given.opened (.opening intent none (some session))) _ claimed
    rw [hmirrored] at hrouted
    exact ⟨routed, hrouted⟩
  obtain ⟨more, hmore⟩ : ∃ more, (submitOrder order given s).1 =
      claimed :: claimed.withMirror process after :: more := by
    have hdate : exchangeSession order.timestamp = some session := hsession
    unfold submitOrder
    simp only [hdate]
    rw [Durable.look_next, hnew]
    simp only
    rw [Durable.next_ok rfl]
    obtain ⟨more, hmore⟩ := Durable.passed_next (submitClaimed order session given)
      (fun state ↦ pure (some state)) claimed
    refine ⟨routed ++ more, (congrArg (List.cons claimed) hmore).trans ?_⟩
    rw [hrouted]
    rfl
  obtain ⟨rest, hrest⟩ : ∃ rest, (execute key given s).1 =
      claimed :: claimed.withMirror process after :: rest := by
    unfold execute
    rw [Durable.look_next, hstored]
    simp only [if_pos hqueued, hmarket]
    obtain ⟨rest, hrest⟩ := Durable.passed_next (submitOrder order given) _ s
    refine ⟨more ++ rest, hrest.trans ?_⟩
    rw [hmore]
    rfl
  rw [Durable.stopped_two hrest]
  exact ⟨_, rfl⟩

/-! ## Two sides of one signal -/

def sleeveRequest (idempotencyKey side : String) : PaperOrderRequest where
  idempotencyKey
  runId := "run"
  symbol := "600000.SH"
  side
  quantity := 100
  limitPrice := 10
  tradeDate := "2026-01-05"
  strategyVersionId := ""
  signalId := "sleeve"

def buyRequest : PaperOrderRequest := sleeveRequest "first" "BUY"

def sellRequest : PaperOrderRequest := sleeveRequest "second" "SELL"

def landedAt (now : String) : Moment := ⟨now, now, .landed⟩

def approving : Surroundings where
  market := none
  verdict := {
    approved := true
    rule := "order_manager_basic_admissibility"
    threshold := .str "positive_quantity+valid_limit_price+exchange_quantity"
    measured := .obj [("mode", .str "non_live_or_research"), ("upstream", .str "not_checked")]
    reason := "basic OMS and exchange-quantity admissibility passed; this is not production risk " ++
      "certification"
    decidedBy := "order_manager"
    decidedAt := "2026-01-05T02:00:00+00:00" }
  venue := []
  answer := .raised
  opened := landedAt "2026-01-05T02:00:00+00:00"
  decided := landedAt "2026-01-05T02:00:00+00:00"
  submitted := landedAt "2026-01-05T02:00:00+00:00"
  refused := landedAt "2026-01-05T02:00:00+00:00"
  now := "2026-01-05T02:00:00+00:00"

section TwoSides

variable [Hashing ℚ]

/-- The process dies behind the opening of the purchase; the sale is queued. -/
def interruptedPurchase : List ServiceStep := [
  .start "2026-01-05" 1000000,
  .call (.submit buyRequest),
  .crash (.execute buyRequest.requestKey approving) 2,
  .start "2026-01-05" 1000000,
  .call (.submit sellRequest)]

def settleSale : ServiceStep := .call (.settle sellRequest.requestKey "2026-01-05")

theorem requestKey_ne : sellRequest.requestKey ≠ buyRequest.requestKey := by
  intro h
  have hshown := Hashing.contentId_injective h
  simp only [Domain.shown, Domain.shownMembers, Json.obj.injEq, List.cons.injEq, Prod.mk.injEq,
    Json.str.injEq, true_and, and_true] at hshown
  revert hshown
  decide

/-- The sale waits, and the first order with its signal is the purchase. -/
theorem interruptedPurchase_state :
    (Run.run step fresh interruptedPurchase).Sound ∧
      ¬ (Run.run step fresh interruptedPurchase).AttributesStep settleSale := by
  have hbuy : buyRequest.validate = .ok () := by decide +kernel
  have hsell : sellRequest.validate = .ok () := by decide +kernel
  have hsession : exchangeSession (Submission.accepted buyRequest).request.timestamp =
      some "2026-01-05" := by
    change exchangeSession buyRequest.timestamp = _
    decide +kernel
  let started : PaperOrderService := { fresh with process := some ⟨.empty, .empty⟩ }
  have hstart : step fresh (.start "2026-01-05" 1000000) = started := start_fresh
  let bought : PaperOrderService :=
    { started with
      requests := Dict.empty.insert buyRequest.requestKey (.accepted buyRequest) }
  have hbought : step started (.call (.submit buyRequest)) = bought := step_submit rfl hbuy rfl
  have hqueued : bought.requests.get? buyRequest.requestKey = some (.accepted buyRequest) :=
    Dict.get?_insert_self _ _ _
  -- the order of the purchase is opened, and the process dies
  let order := (Submission.accepted buyRequest).request.wireOrder buyRequest.requestKey
  obtain ⟨intent, hmade⟩ := exists_canonicalIntent
    (show 0 < order.quantity by change (0 : ℤ) < 100; decide) "2026-01-05"
  obtain ⟨after, book, hperform, hopening⟩ :=
    exists_firstOpening hmade approving.opened rfl "2026-01-05"
  obtain ⟨intents, hstopped⟩ := stopped_execute_opened hqueued rfl rfl hsession rfl hmade
    (show bought.process = some ⟨.empty, .empty⟩ from rfl) hperform
  let opened : PaperOrderService := ⟨bought.requests, intents, after.ledger, none⟩
  have hcrash : step bought (.crash (.execute buyRequest.requestKey approving) 2) = opened := by
    change ({ Durable.stopped (execute buyRequest.requestKey approving) bought 2 with
      process := none } : PaperOrderService) = opened
    rw [hstopped]
  -- the next process accepts the sale
  let restarted : PaperOrderService :=
    { opened with ledger := { after.ledger with writeFailure := none }
                  process := some ⟨book, .empty⟩ }
  have hrestart : step opened (.start "2026-01-05" 1000000) = restarted :=
    start_of_settled hopening.linked hopening.settled hopening.replay hopening.nothingBooked
      1000000
  have hnew : restarted.requests.get? sellRequest.requestKey = none := by
    change (Dict.empty.insert buyRequest.requestKey (Submission.accepted buyRequest)).get?
      sellRequest.requestKey = none
    rw [Dict.get?_insert_of_ne _ requestKey_ne]
    rfl
  let sold : PaperOrderService :=
    { restarted with
      requests := restarted.requests.insert sellRequest.requestKey (.accepted sellRequest) }
  have hsold : step restarted (.call (.submit sellRequest)) = sold := step_submit rfl hsell hnew
  have hrun : Run.run step fresh interruptedPurchase = sold := by
    simp only [interruptedPurchase, Run.run_cons, Run.run_nil, hstart, hbought, hcrash, hrestart,
      hsold]
  rw [hrun]
  constructor
  · have hcalls : bought.AttributesStep (.crash (.execute buyRequest.requestKey approving) 2) := by
      intro _ _ stored _ _ _ hunanswered
      obtain ⟨_, known, -, hknown, -⟩ := hunanswered
      cases hknown
    have hsoundStarted : started.Sound := by
      rw [← hstart]
      exact sound_step sound_fresh trivial
    have hsoundBought : bought.Sound := by
      rw [← hbought]
      exact sound_step hsoundStarted fun _ ↦ trivial
    have hsoundOpened : opened.Sound := by
      rw [← hcrash]
      exact sound_step hsoundBought hcalls
    have hsoundRestarted : restarted.Sound := by
      rw [← hrestart]
      exact sound_step hsoundOpened trivial
    rw [← hsold]
    exact sound_step hsoundRestarted fun _ ↦ trivial
  · intro hsettles
    have hreplay : sold.ledger.replayBook "2026-01-05" = .ok book := by
      have hverify : sold.ledger.verify = .ok after.ledger.head := hopening.linked
      rw [CanonicalLedger.replayBook, hverify]
      exact hopening.replay
    have hsignal : (Domain.Order.fromIntent intent none).withoutPrices.lineage.get .signalId =
        some sellRequest.stored.expectedSignalId := by
      obtain ⟨-, -, -, -, hlink, -⟩ := canonicalIntent_ok hmade
      change ((intent.lineage.derive _ _).derive _ _).get .signalId = _
      rw [Domain.Lineage.get_derive_of_ne _ (by decide), Domain.Lineage.get_derive_of_ne _ (by decide),
        hlink]
      rfl
    have hfound : expectedOrder book sellRequest.stored =
        some (Domain.Order.fromIntent intent none).withoutPrices := by
      unfold expectedOrder
      rw [hopening.orders]
      exact List.find?_cons_of_pos (decide_eq_true hsignal)
    have hsale : sold.requests.get? sellRequest.requestKey = some (.accepted sellRequest) :=
      Dict.get?_insert_self _ _ _
    have hfor := hsettles rfl _ hsale rfl book _ hreplay hfound
    obtain ⟨-, hside, -⟩ := canonicalIntent_ok hmade
    have hbuySide : order.side = .buy :=
      if_pos (show buyRequest.stored.normalisedSide = "BUY" by decide +kernel)
    have hsellSide : sellRequest.stored.normalisedSide = "SELL" := by decide +kernel
    have hsides : intent.side.value = sellRequest.stored.normalisedSide := hfor.side
    rw [hside, hbuySide, hsellSide] at hsides
    revert hsides
    decide

theorem interruptedPurchase_misreported :
    ¬ Run.Throughout step ExecutedOnOwnOrder fresh (interruptedPurchase ++ [settleSale]) := by
  intro hall
  obtain ⟨hsound, hnot⟩ := interruptedPurchase_state
  have hlast := hall.last
  rw [Run.run_append] at hlast
  exact not_executedOnOwnOrder_step hsound hnot hlast

end TwoSides

/-- A process that died behind the opening of a purchase leaves the next one a sale, queued for the
same signal, to settle: it is reported executed on the purchase. -/
theorem not_executedOnOwnOrder_interruptedPurchase :
    ¬ Run.Throughout step ExecutedOnOwnOrder fresh (interruptedPurchase ++ [settleSale]) :=
  interruptedPurchase_misreported

end PaperOrderService

end QuantAgent.Services
