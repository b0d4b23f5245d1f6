import QuantAgent.Domain.Mirror

/-!
# Replaying the ledger of a mirrored book

A replay folds the recorded events into a book of its own.  As long as every event was storable and
every opened quantity an integer, that book is the live one with the prices of its orders blanked
out; so it is the live one itself exactly when no opened intent carried a price.
-/

namespace QuantAgent.Domain

open Library

variable {N : Type} [Arithmetic N] [Hashing N]

theorem Mirror.appended_cases (mirror : Mirror N) (moment : Moment) (call : MirrorCall N) :
    ((mirror.perform moment call).1.ledger.records = mirror.ledger.records ∧
      ∀ canonical, (mirror.perform moment call).2 = .ok canonical →
        call.advance mirror.book moment.now = none) ∨
    ∃ order event kept record, call.advance mirror.book moment.now = some (order, event) ∧
      event.stored = some kept ∧ record.event = some kept ∧
      record.intent = ((call.entry event).intent.map intentToDict).getD .null ∧
      (mirror.perform moment call).1.ledger.records = mirror.ledger.records ++ [record] ∧
      (mirror.perform moment call).2 = .ok order := by
  rcases mirror.perform_cases moment call with
    ⟨hnone, hsame, -⟩ | ⟨order, event, hadvance, -, hledger, hresult⟩
  · left
    rw [hsame]
    exact ⟨rfl, fun _ _ ↦ hnone⟩
  · rcases hresult with ⟨record, hok, hreturned⟩ | ⟨error, herror, hraised⟩
    · right
      obtain ⟨kept, hkept, hrecord, hpush⟩ := CanonicalLedger.append_ok hok
      rw [MirrorCall.entry_event] at hkept
      obtain ⟨stored, hstored, rfl⟩ := Option.map_eq_some_iff.mp hkept
      refine ⟨order, event, stored, record, hadvance, hstored, ?_, ?_, ?_, hreturned⟩
      · rw [hrecord]
        rfl
      · rw [hrecord]
        rfl
      · rw [hledger, hpush]
        rfl
    · left
      rw [hledger, (CanonicalLedger.append_error herror).1]
      refine ⟨rfl, fun canonical hcanonical ↦ ?_⟩
      rw [hraised] at hcanonical
      cases hcanonical

omit [Hashing N] in
theorem OrderEvent.stored_terms {event kept : OrderEvent N} (h : event.stored = some kept) :
    kept.eventType = event.eventType ∧ kept.orderId = event.orderId ∧
      kept.lineage = event.lineage.compact := by
  simp only [OrderEvent.stored, Option.bind_eq_bind, Option.bind_eq_some_iff] at h
  obtain ⟨fill, -, h⟩ := h
  cases h
  exact ⟨rfl, rfl, rfl⟩

omit [Hashing N] in
def OrderIntent.kept (intent : OrderIntent N) : OrderIntent N :=
  { intent with
    quantity := Number.toInt intent.quantity
    limitPrice := none
    referencePrice := none
    lineage := intent.lineage.compact }

omit [Hashing N] in
theorem intentFromDict_intentToDict (intent : OrderIntent N) :
    CanonicalLedger.intentFromDict (intentToDict intent) = some intent.kept := by
  have hlineage := Lineage.fromMapping_asDict (N := N) intent.lineage
  simp only [CanonicalLedger.intentFromDict, intentToDict, requiredStr, requiredNum, Json.get?,
    List.reverse_cons, List.reverse_nil, List.nil_append, List.cons_append, List.lookup_cons,
    String.reduceBEq]
  simp only [Option.bind_eq_bind, Option.bind_some, Side.ofValue_value, hlineage, OrderIntent.kept]

theorem Lineage.compact_derive_derive {lineage : Lineage} {first second : LineageField}
    {value value' : Option String}
    (h : ((lineage.derive first value).derive second value').NoEmptyLink) :
    (lineage.compact.derive first value).derive second value' =
      (lineage.derive first value).derive second value' := by
  ext1
  funext field
  by_cases hsecond : field = second
  · subst hsecond
    simp
  · have hfield := h field
    rw [get_derive_of_ne _ hsecond] at hfield ⊢
    rw [get_derive_of_ne _ hsecond]
    by_cases hfirst : field = first
    · subst hfirst
      simp
    · rw [get_derive_of_ne _ hfirst] at hfield ⊢
      rw [get_derive_of_ne _ hfirst]
      simp [compact, hfield]

/-- The order a replay opens is the original one without its prices. -/
theorem Order.fromIntent_kept {intent : OrderIntent N} {parentOrderId : Option String}
    (hquantity : Number.toInt intent.quantity = intent.quantity)
    (hlineage : (fromIntent intent parentOrderId).lineage.NoEmptyLink) :
    fromIntent intent.kept parentOrderId = (fromIntent intent parentOrderId).withoutPrices := by
  have hderived := Lineage.compact_derive_derive hlineage
  simp only [fromIntent, OrderIntent.kept, withoutPrices, hquantity, hderived]

namespace CanonicalLedger

variable {now : String}

variable {book after : OrderBook N}

theorem replayRecords_append {first second : List (LedgerRecord N)} :
    replayRecords now book (first ++ second) = .ok after ↔
      ∃ between, replayRecords now book first = .ok between ∧
        replayRecords now between second = .ok after := by
  rw [replayRecords, List.foldlM_append, ← replayRecords]
  cases hfirst : replayRecords now book first with
  | error error => simp [bind, Except.bind]
  | ok between => simp [bind, Except.bind, replayRecords]

theorem replayRecords_singleton (book : OrderBook N) (record : LedgerRecord N) :
    replayRecords now book [record] = replayRecord now book record := by
  rw [replayRecords, List.foldlM_cons]
  cases replayRecord now book record <;> rfl

variable {record : LedgerRecord N}

variable {event : OrderEvent N}

theorem replayRecord_created {intent : OrderIntent N} (hevent : record.event = some event)
    (hkind : event.eventType = .created) (hintent : record.intent = intentToDict intent) :
    replayRecord now book record =
      .ok (book.openOrder intent.kept (event.lineage.get .parentOrderId) now).1 := by
  have hkept := intentFromDict_intentToDict intent
  have hpresent : orNull (intentToDict intent) = intentToDict intent := rfl
  simp only [replayRecord, hevent, hkind, if_true, hintent, hpresent]
  rw [intentToDict] at hkept ⊢
  simp only [hkept]

theorem replayRecord_event (hevent : record.event = some event)
    (hkind : event.eventType ≠ .created) :
    replayRecord now book record = .ok after ↔
      ∃ updated, book.apply event.orderId event.eventType event.fill event.reason
        event.riskDecision now = .ok (after, updated) := by
  simp only [replayRecord, hevent, if_neg hkind]
  cases book.apply event.orderId event.eventType event.fill event.reason event.riskDecision now with
  | error error => simp
  | ok result => simp [Prod.ext_iff]

variable {orderId : String} {order : Order N}

/-- A replayed record changes no term of an order that is there already. -/
theorem sameTerms_of_replayRecord (h : replayRecord now book record = .ok after)
    (hget : book.orders.get? orderId = some order) :
    ∃ order', after.orders.get? orderId = some order' ∧ order.SameTerms order' := by
  cases hevent : record.event with
  | none =>
    simp only [replayRecord, hevent, Except.ok.injEq] at h
    subst h
    exact ⟨order, hget, .refl order⟩
  | some event =>
    by_cases hkind : event.eventType = .created
    · simp only [replayRecord, hevent, hkind, if_true] at h
      split at h
      · cases h
      · split at h
        · cases h
        · cases h
          unfold OrderBook.openOrder
          simp only
          split
          · exact ⟨order, hget, .refl order⟩
          · rename_i hnone
            refine ⟨order, ?_, .refl order⟩
            rw [Dict.get?_insert_of_ne _ (fun heq ↦ ?_), hget]
            rw [heq, hnone] at hget
            cases hget
    · obtain ⟨updated, happly⟩ := (replayRecord_event hevent hkind).mp h
      obtain ⟨before, hbefore, ⟨-, rfl, -⟩ | ⟨hchange, horders, -⟩⟩ := OrderBook.apply_ok happly
      · exact ⟨order, hget, .refl order⟩
      · rw [horders]
        by_cases hsame : orderId = event.orderId
        · subst hsame
          rw [hget] at hbefore
          cases hbefore
          exact ⟨updated, Dict.get?_insert_self _ _ _, Order.sameTerms_of_apply hchange⟩
        · exact ⟨order, by rw [Dict.get?_insert_of_ne _ hsame, hget], .refl order⟩

theorem sameTerms_of_replayRecords {records : List (LedgerRecord N)}
    (h : replayRecords now book records = .ok after)
    (hget : book.orders.get? orderId = some order) :
    ∃ order', after.orders.get? orderId = some order' ∧ order.SameTerms order' := by
  induction records generalizing book order with
  | nil =>
    cases h
    exact ⟨order, hget, .refl order⟩
  | cons record records ih =>
    obtain ⟨between, hfirst, hrest⟩ := replayRecords_append.mp
      (show replayRecords now book ([record] ++ records) = .ok after from h)
    rw [replayRecords_singleton] at hfirst
    obtain ⟨order', hget', hterms⟩ := sameTerms_of_replayRecord hfirst hget
    obtain ⟨order'', hget'', hterms'⟩ := ih hrest hget'
    exact ⟨order'', hget'', hterms.trans hterms'⟩

end CanonicalLedger

namespace Mirror

open CanonicalLedger

variable (now : String)

/-- The chain verifies, and its replay is the live book without prices. -/
structure Tracks (mirror : Mirror N) : Prop where
  linked : mirror.ledger.Linked
  replay : ∃ book, replayRecords now .empty mirror.ledger.records = .ok book ∧
    book.orders = mirror.book.orders.map Order.withoutPrices

theorem tracks_fresh (durable : Bool) : (fresh durable : Mirror N).Tracks now where
  linked := linked_fresh durable
  replay := ⟨.empty, rfl, rfl⟩

omit [Hashing N] in
def IntegerQuantity (call : MirrorCall N) : Prop :=
  ∀ intent parentOrderId tradeDate, call = .opening intent parentOrderId tradeDate →
    Number.toInt intent.quantity = intent.quantity

variable {now}

variable {mirror : Mirror N} {call : MirrorCall N} {at' recordedAt orderId : String}
  {order known : Order N} {event : OrderEvent N}

variable {book final : OrderBook N}

/-- Replaying the record of an event does to the replayed book what the event did to the live one;
its fill is replayed with it. -/
theorem replayRecord_of_advance (horders : book.orders = mirror.book.orders.map Order.withoutPrices)
    (hadvance : call.advance mirror.book at' = some (order, event))
    (hstorable : (call.entry event).Storable) (hquantity : IntegerQuantity call) :
    ∃ after, replayRecord now book
      (mirror.ledger.recordOf recordedAt (call.entry event) (some event)) = .ok after ∧
        after.orders = book.orders.insert event.orderId order.withoutPrices ∧
        ∃ replayed : OrderEvent N, after.events = book.events ++ [replayed] ∧
          replayed.fill = event.fill := by
  have hget : ∀ orderId, book.orders.get? orderId =
      (mirror.book.orders.get? orderId).map Order.withoutPrices := by
    intro orderId
    rw [horders, Dict.get?_map]
  rcases MirrorCall.advance_some hadvance with
    ⟨intent, parentOrderId, tradeDate, rfl, rfl, hnone, rfl⟩ |
    ⟨orderId, kind, fill, reason, riskDecision, tradeDate, before, rfl, hbefore, happly, rfl⟩
  · have hlineage := (hstorable _ rfl).lineage
    have hopened := Order.fromIntent_kept (hquantity _ _ _ rfl) hlineage
    have hparent : (Order.fromIntent intent parentOrderId).lineage.get .parentOrderId =
        parentOrderId := Lineage.get_derive_self _ _ _
    have hnew : book.orders.get? (Order.fromIntent intent parentOrderId).withoutPrices.orderId =
        none := by
      rw [hget, show (Order.fromIntent intent parentOrderId).withoutPrices.orderId =
        (Order.fromIntent intent parentOrderId).orderId from rfl, hnone]
      rfl
    refine ⟨book.push (Order.fromIntent intent parentOrderId).withoutPrices
      (book.createdEvent now (Order.fromIntent intent parentOrderId).withoutPrices), ?_, rfl,
      _, rfl, rfl⟩
    rw [replayRecord_created rfl rfl rfl]
    simp only [OrderBook.createdEvent, hparent, OrderBook.openOrder, hopened, hnew]
    rfl
  · have hkind : kind ≠ .created := by
      rintro rfl
      exact Order.apply_created_ne _ _ _ _ happly
    have hblank := Order.apply_withoutPrices before kind fill reason
    rw [happly] at hblank
    let replayed : OrderEvent N := ⟨kind, orderId, Number.natCast book.events.length, now, fill,
      reason, riskDecision, before.lineage⟩
    have hbook : book.apply orderId kind fill reason riskDecision now =
        .ok (book.push order.withoutPrices replayed, order.withoutPrices) := by
      simp only [OrderBook.apply, hget, hbefore, Option.map_some, hblank]
      rfl
    exact ⟨_, (replayRecord_event rfl hkind).mpr ⟨_, hbook⟩, rfl, replayed, rfl, rfl⟩

/-- One more mirrored event keeps the replay on the track of the live book. -/
theorem Tracks.push (h : mirror.Tracks now)
    (hadvance : call.advance mirror.book at' = some (order, event))
    (hstorable : (call.entry event).Storable) (hquantity : IntegerQuantity call) :
    (⟨mirror.book.push order event, mirror.ledger.push
      (mirror.ledger.recordOf recordedAt (call.entry event) (some event))⟩ : Mirror N).Tracks now := by
  have hstored := (storedEvent_eq_iff _).mpr hstorable
  have hlinked : (mirror.ledger.push (mirror.ledger.recordOf recordedAt (call.entry event)
      (call.entry event).event)).Linked := linked_push h.linked hstored
  rw [MirrorCall.entry_event] at hlinked
  obtain ⟨book, hreplay, horders⟩ := h.replay
  obtain ⟨after, hafter, hinsert, -⟩ := replayRecord_of_advance horders hadvance hstorable hquantity
  refine ⟨hlinked, after, replayRecords_append.mpr ⟨book, hreplay, ?_⟩, ?_⟩
  · rw [replayRecords_singleton, hafter]
  · rw [hinsert, horders, OrderBook.push, Dict.map_insert]

/-- The append of the call, when one is made, succeeds. -/
def Appends (mirror : Mirror N) (input : Moment × MirrorCall N) : Prop :=
  ∀ error, (mirror.perform input.1 input.2).2 ≠ .error (.append error)

variable {input : Moment × MirrorCall N}

theorem appends_of_recordable (h : mirror.Recordable input) : mirror.Appends input := by
  rcases mirror.perform_cases input.1 input.2 with
    ⟨-, -, hno⟩ | ⟨order, event, hadvance, -, -, ⟨_, -, hok⟩ | ⟨_, hfailed, -⟩⟩
  · exact hno
  · intro error herror
    rw [hok] at herror
    cases herror
  · obtain ⟨hwritable, hstorable, hwritten⟩ := h order event hadvance
    rw [append_storable input.1.recordedAt hwritable hstorable hwritten] at hfailed
    cases hfailed

theorem step_of_appends (h : mirror.Appends input) :
    (input.2.advance mirror.book input.1.now = none ∧ mirror.step input = mirror) ∨
    ∃ order event kept, input.2.advance mirror.book input.1.now = some (order, event) ∧
      storedEvent (some event) = some kept ∧
      mirror.step input = ⟨mirror.book.push order event, mirror.ledger.push
        (mirror.ledger.recordOf input.1.recordedAt (input.2.entry event) kept)⟩ := by
  rcases mirror.perform_cases input.1 input.2 with
    ⟨hnone, hsame, -⟩ | ⟨order, event, hadvance, hbook, hledger, hresult⟩
  · exact .inl ⟨hnone, hsame⟩
  · rcases hresult with ⟨record, hok, -⟩ | ⟨error, -, hraised⟩
    · obtain ⟨kept, hkept, rfl, hpush⟩ := append_ok hok
      rw [MirrorCall.entry_event] at hkept
      refine .inr ⟨order, event, kept, hadvance, hkept, ?_⟩
      rw [hpush] at hledger
      rw [← hbook, ← hledger]
      rfl
    · exact absurd hraised (h error)

/-- The recorded event is storable, and an opened intent is for an integer number of shares and
carries no price. -/
def Faithful (mirror : Mirror N) (input : Moment × MirrorCall N) : Prop :=
  ∀ order event, input.2.advance mirror.book input.1.now = some (order, event) →
    (input.2.entry event).Storable ∧
      ∀ intent parentOrderId tradeDate, input.2 = .opening intent parentOrderId tradeDate →
        Number.toInt intent.quantity = intent.quantity ∧ intent.limitPrice = none ∧
          intent.referencePrice = none

variable (now) in
/-- The replayed book holds the orders of the live one, in their order and in every field. -/
def Replays (mirror : Mirror N) : Prop :=
  ∃ book, mirror.ledger.replayBook now = .ok book ∧ book.orders = mirror.book.orders

def Priceless (mirror : Mirror N) : Prop :=
  ∀ orderId order, mirror.book.orders.get? orderId = some order → order.withoutPrices = order

theorem Tracks.replays (h : mirror.Tracks now) (hpriceless : mirror.Priceless) :
    mirror.Replays now := by
  obtain ⟨book, hreplay, horders⟩ := h.replay
  refine ⟨book, ?_, horders.trans (Dict.map_eq_self hpriceless)⟩
  have hverify := h.linked
  rw [replayBook, hverify]
  exact hreplay

theorem Tracks.step (h : mirror.Tracks now) (happends : mirror.Appends input)
    (hfaithful : mirror.Faithful input) :
    (mirror.step input).Tracks now := by
  rcases step_of_appends happends with ⟨-, hsame⟩ | ⟨order, event, kept, hadvance, hkept, hstep⟩
  · rw [hsame]
    exact h
  · obtain ⟨hstorable, hterms⟩ := hfaithful order event hadvance
    have hstored := (storedEvent_eq_iff _).mpr hstorable
    rw [MirrorCall.entry_event, hkept] at hstored
    cases hstored
    rw [hstep]
    exact h.push hadvance hstorable fun intent parentOrderId tradeDate hcall ↦
      (hterms intent parentOrderId tradeDate hcall).1

/-- A call changes no term of an order that is there already. -/
theorem sameTerms_of_advance (hadvance : call.advance book at' = some (order, event))
    (hget : book.orders.get? orderId = some known) :
    ∃ known', (book.push order event).orders.get? orderId = some known' ∧
      known.SameTerms known' := by
  by_cases hsame : orderId = event.orderId
  · subst hsame
    refine ⟨order, Dict.get?_insert_self _ _ _, ?_⟩
    rcases MirrorCall.advance_some hadvance with
      ⟨_, _, _, -, -, hnone, rfl⟩ | ⟨_, _, _, _, _, _, before, -, hbefore, happly, rfl⟩
    · rw [OrderBook.createdEvent, hnone] at hget
      cases hget
    · rw [hbefore] at hget
      cases hget
      exact Order.sameTerms_of_apply happly
  · exact ⟨known, by rw [OrderBook.push, Dict.get?_insert_of_ne _ hsame, hget], .refl known⟩

variable {inputs : List (Moment × MirrorCall N)}

theorem sameTerms_of_run (hget : mirror.book.orders.get? orderId = some known) :
    ∃ known', (Run.run Mirror.step mirror inputs).book.orders.get? orderId = some known' ∧
      known.SameTerms known' := by
  induction inputs generalizing mirror known with
  | nil => exact ⟨known, hget, .refl known⟩
  | cons input inputs ih =>
    have hstep : ∃ known', (mirror.step input).book.orders.get? orderId = some known' ∧
        known.SameTerms known' := by
      rcases mirror.perform_cases input.1 input.2 with
        ⟨-, hsame, -⟩ | ⟨order, event, hadvance, hbook, -, -⟩
      · rw [Mirror.step, hsame]
        exact ⟨known, hget, .refl known⟩
      · rw [Mirror.step, hbook]
        exact sameTerms_of_advance hadvance hget
    obtain ⟨known', hget', hterms⟩ := hstep
    obtain ⟨known'', hget'', hterms'⟩ := ih hget'
    exact ⟨known'', hget'', hterms.trans hterms'⟩

theorem exists_records_of_run (mirror : Mirror N) (inputs : List (Moment × MirrorCall N)) :
    ∃ more, (Run.run Mirror.step mirror inputs).ledger.records = mirror.ledger.records ++ more := by
  induction inputs generalizing mirror with
  | nil => exact ⟨[], (List.append_nil _).symm⟩
  | cons input inputs ih =>
    have hstep : ∃ more, (mirror.step input).ledger.records = mirror.ledger.records ++ more := by
      rcases mirror.perform_cases input.1 input.2 with
        ⟨-, hsame, -⟩ | ⟨order, event, hadvance, -, hledger, hresult⟩
      · rw [Mirror.step, hsame]
        exact ⟨[], (List.append_nil _).symm⟩
      · rw [Mirror.step, hledger]
        rcases hresult with ⟨record, hok, -⟩ | ⟨error, herror, -⟩
        · obtain ⟨kept, -, -, hpush⟩ := append_ok hok
          rw [hpush]
          exact ⟨[record], rfl⟩
        · rw [(append_error herror).1]
          exact ⟨[], (List.append_nil _).symm⟩
    obtain ⟨more, hmore⟩ := hstep
    obtain ⟨more', hmore'⟩ := ih (mirror.step input)
    exact ⟨more ++ more', by rw [Run.run_cons, hmore', hmore, List.append_assoc]⟩

theorem Priceless.step (h : mirror.Priceless) (hfaithful : mirror.Faithful input) :
    (mirror.step input).Priceless := by
  rcases mirror.perform_cases input.1 input.2 with
    ⟨-, hsame, -⟩ | ⟨order, event, hadvance, hbook, -, -⟩
  · rw [Mirror.step, hsame]
    exact h
  · have hterms := (hfaithful order event hadvance).2
    intro orderId known hget
    rw [Mirror.step, hbook, OrderBook.push, Dict.get?_insert] at hget
    split at hget
    · cases hget
      rw [Order.withoutPrices_eq_self_iff]
      rcases MirrorCall.advance_some hadvance with
        ⟨intent, parentOrderId, tradeDate, hcall, rfl, -, -⟩ |
        ⟨_, _, _, _, _, _, before, -, hbefore, happly, -⟩
      · exact (hterms intent parentOrderId tradeDate hcall).2
      · have hbare := (Order.withoutPrices_eq_self_iff before).mp (h _ before hbefore)
        have hsame := Order.sameTerms_of_apply happly
        exact ⟨hsame.limitPrice.trans hbare.1, hsame.referencePrice.trans hbare.2⟩
    · exact h orderId known hget

theorem replays_of_faithful (htracks : mirror.Tracks now) (hpriceless : mirror.Priceless)
    (happends : Run.Always Mirror.step Appends mirror inputs)
    (hfaithful : Run.Always Mirror.step Faithful mirror inputs) :
    (Run.run Mirror.step mirror inputs).Replays now := by
  induction inputs generalizing mirror with
  | nil => exact htracks.replays hpriceless
  | cons input inputs ih =>
    exact ih (htracks.step happends.1 hfaithful.1) (hpriceless.step hfaithful.1) happends.2
      hfaithful.2

variable (now) in
/-- If the chain replays, the replayed book knows the orders of the live one. -/
def SameOrders (mirror : Mirror N) : Prop :=
  ∀ book, replayRecords now .empty mirror.ledger.records = .ok book →
    book.orders.keys = mirror.book.orders.keys

omit [Arithmetic N] [Hashing N] in
theorem keys_push (book : OrderBook N) (order : Order N) (event : OrderEvent N) :
    (book.push order event).orders.keys =
      if event.orderId ∈ book.orders.keys then book.orders.keys
      else book.orders.keys ++ [event.orderId] :=
  Dict.keys_insert _ _ _

/-- What the replay makes of a record the live book has just made. -/
theorem replay_of_advance (hsame : mirror.SameOrders now)
    (hadvance : call.advance mirror.book at' = some (order, event)) {between after : OrderBook N}
    (hbetween : replayRecords now .empty mirror.ledger.records = .ok between)
    (hafter : replayRecord now between (mirror.ledger.recordOf recordedAt (call.entry event) (some
      event)) = .ok after) :
    after.orders.keys = (mirror.book.push order event).orders.keys ∧
      ∀ intent parentOrderId tradeDate, call = .opening intent parentOrderId tradeDate →
        after.orders.get? event.orderId = some (Order.fromIntent intent.kept parentOrderId) := by
  have hkeys := hsame between hbetween
  rw [keys_push]
  rcases MirrorCall.advance_some hadvance with
    ⟨intent, parentOrderId, tradeDate, rfl, rfl, hnone, rfl⟩ |
    ⟨orderId, kind, fill, reason, riskDecision, tradeDate, before, rfl, hbefore, happly, rfl⟩
  · let order := Order.fromIntent intent parentOrderId
    have hparent : order.lineage.get .parentOrderId = parentOrderId := Lineage.get_derive_self _ _ _
    have hopened : (.ok (between.openOrder intent.kept (order.lineage.get .parentOrderId) now).1 :
        Except ReplayError (OrderBook N)) = .ok after :=
      (replayRecord_created rfl rfl rfl).symm.trans hafter
    cases hopened
    have hid : (Order.fromIntent intent.kept parentOrderId).orderId = order.orderId := rfl
    have hnew : between.orders.get? order.orderId = none := by
      rw [Dict.get?_eq_none_iff, hkeys, ← Dict.get?_eq_none_iff]
      exact hnone
    have horders : (between.openOrder intent.kept (order.lineage.get .parentOrderId) now).1.orders =
        between.orders.insert order.orderId (Order.fromIntent intent.kept parentOrderId) := by
      simp only [OrderBook.openOrder, hparent, hid, hnew]
    refine ⟨?_, ?_⟩
    · rw [horders, Dict.keys_insert, hkeys]
      rfl
    · intro intent' parentOrderId' tradeDate' hcall
      cases hcall
      rw [horders]
      exact Dict.get?_insert_self _ _ _
  · have hkind : kind ≠ .created := by
      rintro rfl
      exact Order.apply_created_ne _ _ _ _ happly
    obtain ⟨updated, hupdated⟩ := (replayRecord_event rfl hkind).mp hafter
    refine ⟨?_, fun intent' parentOrderId' tradeDate' hcall ↦ by cases hcall⟩
    have hmem := Dict.mem_keys_of_get? hbefore
    rw [if_pos hmem, ← hkeys]
    obtain ⟨known, hknown, ⟨-, rfl, -⟩ | ⟨-, horders, -⟩⟩ := OrderBook.apply_ok hupdated
    · rfl
    · rw [horders]
      exact Dict.keys_insert_of_mem (Dict.mem_keys_of_get? hknown) _

/-- A chain that verifies at the end of a run verified at its start. -/
theorem valid_of_run (h : (Run.run Mirror.step mirror inputs).ledger.Valid) :
    mirror.ledger.Valid := by
  obtain ⟨more, hmore⟩ := exists_records_of_run mirror inputs
  obtain ⟨head, hhead⟩ := h
  have hboth : ({ mirror.ledger with records := mirror.ledger.records ++ more } :
      CanonicalLedger N).Valid := ⟨head, by rw [← hmore]; exact hhead⟩
  exact hboth.of_append

/-- A chain that replays at the end of a run replayed at its start. -/
theorem replay_of_run
    (h : replayRecords now .empty (Run.run Mirror.step mirror inputs).ledger.records = .ok final) :
    ∃ book more, replayRecords now .empty mirror.ledger.records = .ok book ∧
      replayRecords now book more = .ok final := by
  obtain ⟨more, hmore⟩ := exists_records_of_run mirror inputs
  rw [hmore] at h
  obtain ⟨book, hbook, hrest⟩ := replayRecords_append.mp h
  exact ⟨book, more, hbook, hrest⟩

/-- The chain verifies after one more record only if the record kept its event. -/
theorem exact_of_valid {ledger : CanonicalLedger N} (hlinked : ledger.Linked)
    {kept : Option (OrderEvent N)} (hkept : storedEvent (some event) = some kept)
    (hvalid : (ledger.push (ledger.recordOf recordedAt (call.entry event) kept)).Valid) :
    kept = some event ∧ (call.entry event).Storable ∧
      (ledger.push (ledger.recordOf recordedAt (call.entry event) (some event))).Linked := by
  have hentry : storedEvent (call.entry event).event = some kept := by
    rw [MirrorCall.entry_event, hkept]
  have hexact := (verify_push_iff hlinked hentry).mp hvalid
  rw [hexact] at hentry
  have hlinked' : (ledger.push (ledger.recordOf recordedAt (call.entry event)
      (call.entry event).event)).Linked := linked_push hlinked hentry
  rw [MirrorCall.entry_event] at hexact hlinked'
  exact ⟨hexact, (storedEvent_eq_iff _).mp hentry, hlinked'⟩

/-- An opened order that ends up the same in the replay has an integer quantity and no price. -/
theorem terms_of_same {intent : OrderIntent N} {parentOrderId : Option String}
    (hlive : (Order.fromIntent intent parentOrderId).SameTerms order)
    (hreplayed : (Order.fromIntent intent.kept parentOrderId).SameTerms order) :
    Number.toInt intent.quantity = intent.quantity ∧ intent.limitPrice = none ∧
      intent.referencePrice = none :=
  ⟨hreplayed.quantity.symm.trans hlive.quantity, hlive.limitPrice.symm.trans hreplayed.limitPrice,
    hlive.referencePrice.symm.trans hreplayed.referencePrice⟩

theorem faithful_of_replays (hlinked : mirror.ledger.Linked) (hsame : mirror.SameOrders now)
    (happends : Run.Always Mirror.step Appends mirror inputs)
    (hvalid : (Run.run Mirror.step mirror inputs).ledger.Valid)
    (hreplay : replayRecords now .empty (Run.run Mirror.step mirror inputs).ledger.records = .ok
      final) (horders : final.orders = (Run.run Mirror.step mirror inputs).book.orders) :
    Run.Always Mirror.step Faithful mirror inputs := by
  induction inputs generalizing mirror with
  | nil => trivial
  | cons input inputs ih =>
    rw [Run.run_cons] at hvalid hreplay horders
    rcases step_of_appends happends.1 with
      ⟨hnone, hstay⟩ | ⟨order, event, kept, hadvance, hkept, hstep⟩
    · have hrest := happends.2
      rw [hstay] at hrest hvalid hreplay horders
      refine ⟨fun order event hadvance ↦ ?_, ?_⟩
      · rw [hnone] at hadvance
        cases hadvance
      · rw [hstay]
        exact ih hlinked hsame hrest hvalid hreplay horders
    · have hnext := valid_of_run hvalid
      rw [hstep] at hnext
      obtain ⟨rfl, hstorable, hlinked'⟩ := exact_of_valid hlinked hkept hnext
      obtain ⟨after, more, hafter, hmore⟩ := replay_of_run hreplay
      have hsplit := hafter
      rw [hstep] at hsplit
      obtain ⟨between, hbetween, hrecord⟩ := replayRecords_append.mp hsplit
      rw [replayRecords_singleton] at hrecord
      obtain ⟨hkeys, hopened⟩ := replay_of_advance hsame hadvance hbetween hrecord
      have hsame' : (mirror.step input).SameOrders now := by
        intro book hbook
        cases hafter.symm.trans hbook
        rw [hstep]
        exact hkeys
      refine ⟨?_, ih (by rw [hstep]; exact hlinked') hsame' happends.2 hvalid hreplay horders⟩
      intro order' event' hadvance'
      obtain ⟨rfl, rfl⟩ := Prod.mk.inj (Option.some.inj (hadvance.symm.trans hadvance'))
      refine ⟨hstorable, fun intent parentOrderId tradeDate hcall ↦ ?_⟩
      -- follow the order to the end of the run in both books
      have hlive : (mirror.step input).book.orders.get? event.orderId =
          some (Order.fromIntent intent parentOrderId) := by
        rw [hcall] at hadvance
        obtain ⟨rfl, -⟩ := MirrorCall.advance_opening hadvance
        rw [hstep]
        exact Dict.get?_insert_self _ _ _
      obtain ⟨last, hlast, hterms⟩ := sameTerms_of_run hlive
      obtain ⟨last', hlast', hterms'⟩ := sameTerms_of_replayRecords hmore
        (hopened intent parentOrderId tradeDate hcall)
      rw [horders, hlast] at hlast'
      cases hlast'
      exact terms_of_same hterms hterms'

theorem sameOrders_fresh (durable : Bool) : (fresh durable : Mirror N).SameOrders now := by
  intro book hbook
  cases hbook
  rfl

/-- After a run whose appends all succeeded, the replay is the live book exactly when every call
was faithful. -/
theorem replays_iff_faithful (now : String) (durable : Bool) {inputs : List (Moment × MirrorCall N)}
    (happends : Run.Always Mirror.step Appends (fresh durable : Mirror N) inputs) :
    (Run.run Mirror.step (fresh durable : Mirror N) inputs).Replays now ↔
      Run.Always Mirror.step Faithful (fresh durable : Mirror N) inputs := by
  constructor
  · rintro ⟨final, hreplay, horders⟩
    rw [replayBook] at hreplay
    split at hreplay
    · cases hreplay
    · rename_i head hverify
      exact faithful_of_replays (linked_fresh durable) (sameOrders_fresh durable) happends
        ⟨head, hverify⟩ hreplay horders
  · exact replays_of_faithful (tracks_fresh now durable) (fun _ _ h ↦ by cases h) happends

theorem always_appends_buy (limitPrice : Option ℚ) :
    Run.Always Mirror.step Appends (fresh true) [buyInput .landed limitPrice] :=
  ⟨appends_of_recordable (recordable_buy limitPrice), trivial⟩

/-- The condition of the replay at one intent without prices. -/
theorem replays_iff_faithful_buy :
    (Run.run Mirror.step (fresh true) [buyInput .landed none]).Replays "2026-01-06" ↔
      Run.Always Mirror.step Faithful (fresh true) [buyInput .landed none] :=
  replays_iff_faithful "2026-01-06" true (always_appends_buy none)

/-- The limit price of an opened order is gone after a restart. -/
theorem not_replays_limitPrice :
    Run.Always Mirror.step Appends (fresh true) [buyInput .landed (some 10)] ∧
      ¬ (Run.run Mirror.step (fresh true) [buyInput .landed (some 10)]).Replays "2026-01-06" := by
  refine ⟨always_appends_buy (some 10), ?_⟩
  rintro ⟨final, hreplay, horders⟩
  rw [replayBook] at hreplay
  split at hreplay
  · cases hreplay
  · rename_i head hverify
    have hfaithful := faithful_of_replays (linked_fresh true) (sameOrders_fresh true)
      (always_appends_buy (some 10)) ⟨head, hverify⟩ hreplay horders
    obtain ⟨-, hterms⟩ := hfaithful.1 _ _ rfl
    cases (hterms _ _ _ rfl).2.1

end Mirror

end QuantAgent.Domain
