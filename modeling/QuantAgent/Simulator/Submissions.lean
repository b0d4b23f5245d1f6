import QuantAgent.Simulator.Booking

/-!
# The submissions of a session

An order that no earlier order shares its identifier with is refused at the gate, refused by the
broker, or traded, and its audit row says which.  Later orders of the session leave the row alone,
so the rows of a session are the rows of its orders one after the other.
-/

namespace QuantAgent.Simulator

open Library
open Execution (OrderSide OrderStatus)

variable {D : Type} [LinearOrder D] [Calendar D]

section Outcomes

variable [SquareRoot] [MarketRules.Platform]

inductive Submission (day : Panel D) (date : D) (books : Books D) (order : Order D) :
    Books D → OrderRow D → Prop
  | refused (row : OrderRow D) (hquantity : row.filledQuantity = 0) (hcosts : row.costs = none) :
      Submission day date books order books row
  | rejected (price : ℚ) (message : String) (row : OrderRow D)
      (hquantity : row.filledQuantity = 0) (hcosts : row.costs = none) :
      Submission day date books order (books.reject order price message).1 row
  | traded (trade : TradeFill D) (row : OrderRow D)
      (hid : trade.clientOrderId = order.clientOrderId) (hpositive : 0 < trade.fillQuantity)
      (hdeliverable : books.Deliverable trade)
      (hcharged : ∃ fill, trade = Books.tradeOf day date order fill)
      (hquantity : row.filledQuantity = trade.fillQuantity)
      (hprice : row.avgPrice = trade.fillPrice)
      (hcosts : row.costs.map CostPart.totalCost = some trade.totalCost)
      (horder : row.order = some ⟨order.symbol, order.side, order.quantity, order.price⟩) :
      Submission day date books order (books.book date order trade) row

inductive Submissions (day : Panel D) (date : D) :
    Books D → List (Order D) → Books D → List (OrderRow D) → Prop
  | nil (books : Books D) : Submissions day date books [] books []
  | cons {books between after : Books D} {order : Order D} {orders : List (Order D)}
      {row : OrderRow D} {rows : List (OrderRow D)}
      (first : Submission day date books order between row)
      (rest : Submissions day date between orders after rows) :
      Submissions day date books (order :: orders) after (row :: rows)

/-- What a relation says of every submission, and of two that follow each other, it says of all. -/
theorem Submissions.induct {P : Books D → Books D → List (OrderRow D) → Prop} {day : Panel D}
    {date : D} {books after : Books D} {orders : List (Order D)} {rows : List (OrderRow D)}
    (hnil : ∀ books, P books books [])
    (hcons : ∀ books between after order row rows, order ∈ orders →
      Submission day date books order between row → P between after rows →
      P books after (row :: rows))
    (h : Submissions day date books orders after rows) : P books after rows := by
  induction h with
  | nil books => exact hnil books
  | cons first rest ih =>
    refine hcons _ _ _ _ _ _ List.mem_cons_self first (ih ?_)
    intro books between after order row rows horder
    exact hcons books between after order row rows (List.mem_cons_of_mem _ horder)

end Outcomes

def Knows (manager : OrderManager D) (books : Books D) (id : OrderId D) : Prop :=
  id ∈ books.fillsByClientOrderId.keys ∨ id ∈ books.orderObjects.keys ∨
    id ∈ manager.wire.keys ∨ ∃ key ∈ manager.claims.keys, key.clientOrderId = id

omit [Calendar D] in
/-- The claim and the history know nothing of an identifier that is not in use. -/
theorem OrderManager.known_eq_none {manager : OrderManager D} {books : Books D} {order : Order D}
    (h : ¬ Knows manager books order.clientOrderId) (session : String) :
    manager.known session order = none := by
  unfold known
  split
  · rw [if_neg]
    intro hwire
    exact h (.inr (.inr (.inl hwire)))
  · rw [Dict.get?_eq_none_iff]
    intro hkey
    exact h (.inr (.inr (.inr ⟨_, hkey, rfl⟩)))

omit [LinearOrder D] [Calendar D] in
theorem OrderManager.pretradeDecision_fst (manager : OrderManager D) (books : Books D)
    (session : String) (order : Order D) :
    (manager.pretradeDecision books session order).1.claims = manager.claims ∧
      (manager.pretradeDecision books session order).1.wire = manager.wire ∧
      (manager.pretradeDecision books session order).1.forensicReplay = manager.forensicReplay ∧
      (manager.pretradeDecision books session order).1.config = manager.config := by
  have hseeded : ((manager.seeded session).claims = manager.claims ∧
      (manager.seeded session).wire = manager.wire ∧
      (manager.seeded session).forensicReplay = manager.forensicReplay ∧
      (manager.seeded session).config = manager.config) := by
    unfold seeded
    split
    · exact ⟨rfl, rfl, rfl, rfl⟩
    · exact ⟨rfl, rfl, rfl, rfl⟩
  unfold pretradeDecision
  split
  · exact ⟨rfl, rfl, rfl, rfl⟩
  split
  · exact ⟨rfl, rfl, rfl, rfl⟩
  split
  · exact ⟨rfl, rfl, rfl, rfl⟩
  split
  · exact ⟨rfl, rfl, rfl, rfl⟩
  · exact hseeded

omit [Calendar D] in
theorem mem_keys_claimed {manager : OrderManager D} {session : String} {order : Order D}
    {key : ClaimKey D} (h : key ∈ (manager.claimed session order).claims.keys) :
    key ∈ manager.claims.keys ∨ key.clientOrderId = order.clientOrderId := by
  unfold OrderManager.claimed at h
  split at h
  · exact .inl h
  · simp only [Dict.keys_insert] at h
    split at h
    · exact .inl h
    · rcases List.mem_append.mp h with h | h
      · exact .inl h
      · rw [List.mem_singleton.mp h]
        exact .inr rfl

omit [LinearOrder D] [Calendar D] in
theorem mem_keys_insert {K V : Type} [DecidableEq K] {d : Dict K V} {key other : K} {value : V}
    (h : other ∈ (d.insert key value).keys) : other ∈ d.keys ∨ other = key := by
  rw [Dict.keys_insert] at h
  split at h
  · exact .inl h
  · rcases List.mem_append.mp h with h | h
    · exact .inl h
    · exact .inr (List.mem_singleton.mp h)

variable (books : Books D) (date : D) (order : Order D) (trade : TradeFill D)

theorem Books.fills_book :
    (books.book date order trade).fillsByClientOrderId =
      books.fillsByClientOrderId.insert order.clientOrderId trade := by
  obtain ⟨rows, -, heq⟩ := books.book_spec date order trade
  rw [heq]

theorem Books.orderObjects_book :
    (books.book date order trade).orderObjects =
      books.orderObjects.insert order.clientOrderId order := by
  obtain ⟨rows, -, heq⟩ := books.book_spec date order trade
  rw [heq]

/-- What a submission touches: the records of its own order. -/
structure OwnRecords (order : Order D) (books after : Books D) : Prop where
  fills : ∀ id, id ≠ order.clientOrderId →
    after.fillsByClientOrderId.get? id = books.fillsByClientOrderId.get? id
  objects : ∀ id, id ≠ order.clientOrderId →
    after.orderObjects.get? id = books.orderObjects.get? id
  fillKeys : ∀ id ∈ after.fillsByClientOrderId.keys,
    id ∈ books.fillsByClientOrderId.keys ∨ id = order.clientOrderId
  objectKeys : ∀ id ∈ after.orderObjects.keys,
    id ∈ books.orderObjects.keys ∨ id = order.clientOrderId

omit [Calendar D] in
theorem ownRecords_reject (price : ℚ) (message : String) :
    OwnRecords order books (books.reject order price message).1 where
  fills := fun _ _ ↦ rfl
  objects := fun _ h ↦ Dict.get?_insert_of_ne _ h _
  fillKeys := fun _ h ↦ .inl h
  objectKeys := fun _ h ↦ mem_keys_insert h

theorem ownRecords_book :
    OwnRecords order books (books.book date order trade) where
  fills := fun _ h ↦ by rw [Books.fills_book, Dict.get?_insert_of_ne _ h]
  objects := fun _ h ↦ by rw [Books.orderObjects_book, Dict.get?_insert_of_ne _ h]
  fillKeys := fun _ h ↦ mem_keys_insert (by rwa [Books.fills_book] at h)
  objectKeys := fun _ h ↦ mem_keys_insert (by rwa [Books.orderObjects_book] at h)

variable [SquareRoot] [MarketRules.Platform]

/-- An order whose identifier is not in use yields one state, and its row says what came of it. -/
theorem OrderManager.submitOne_of_fresh (simulator : FillSimulator) (day : Panel D)
    (date : D) (session : String) {manager : OrderManager D} {books : Books D} {order : Order D}
    (hfresh : ¬ Knows manager books order.clientOrderId) (signalDate : D) :
    ∃ manager' books' state,
      manager.submitOne simulator day date session books order = (manager', books', some state) ∧
      state.clientOrderId = order.clientOrderId ∧
      Submission day date books order books' (orderRow books' date signalDate state) ∧
      OwnRecords order books books' ∧
      (∀ id, Knows manager' books' id → Knows manager books id ∨ id = order.clientOrderId) := by
  have hfill := Dict.get?_eq_none_iff.mpr fun h ↦ hfresh (.inl h)
  obtain ⟨hclaims, hwire, -, -⟩ :=
    (manager.claimed session order).pretradeDecision_fst books session order
  have hclaimedWire : (manager.claimed session order).wire = manager.wire := by
    unfold claimed
    split
    · rfl
    · rfl
  -- Whoever answers the order afterwards knows its identifier and those of before.
  have hknows : ∀ (after : OrderManager D) (books' : Books D) (state : OrderState D),
      state.clientOrderId = order.clientOrderId → OwnRecords order books books' →
      after.claims = (manager.claimed session order).claims →
      after.wire = (manager.claimed session order).wire.insert state.clientOrderId state →
      ∀ id, Knows after books' id → Knows manager books id ∨ id = order.clientOrderId := by
    intro after books' state hstate hown hafterClaims hafterWire id hid
    rcases hid with h | h | h | ⟨key, hkey, rfl⟩
    · exact (hown.fillKeys id h).imp_left .inl
    · exact (hown.objectKeys id h).imp_left (.inr ∘ .inl)
    · rw [hafterWire, hclaimedWire, hstate] at h
      exact (mem_keys_insert h).imp_left fun hold ↦ .inr (.inr (.inl hold))
    · rw [hafterClaims] at hkey
      exact (mem_keys_claimed hkey).imp_left fun hold ↦ .inr (.inr (.inr ⟨key, hold, rfl⟩))
  unfold submitOne
  rw [known_eq_none hfresh]
  simp only
  cases hdecision : (manager.claimed session order).pretradeDecision books session order with
  | mk gated reason =>
    rw [hdecision] at hclaims hwire
    cases reason with
    | some reason =>
      have hown : OwnRecords order books books :=
        ⟨fun _ _ ↦ rfl, fun _ _ ↦ rfl, fun _ h ↦ .inl h, fun _ h ↦ .inl h⟩
      refine ⟨_, _, _, rfl, rfl, .refused _ rfl ?_, hown, ?_⟩
      · simp [orderRow, hfill]
      · exact hknows _ _ _ rfl hown hclaims (by rw [update, hwire])
    | none =>
      simp only
      obtain ⟨price, message, heq⟩ | ⟨trade, status, message, hid, hpositive, -, hdeliverable,
          hcharged, heq⟩ := books.submit_cases simulator day date order
      · rw [heq]
        have hown := ownRecords_reject books order price message
        refine ⟨_, _, _, rfl, rfl, .rejected price message _ rfl ?_, hown, ?_⟩
        · simp [orderRow, Books.reject, hfill]
        · apply hknows (gated.sent session order _) _ (books.reject order price message).2 rfl hown
            hclaims
          rw [← hwire]
          rfl
      · rw [heq]
        have hown := ownRecords_book books date order trade
        refine ⟨_, _, _, rfl, rfl, .traded trade _ hid hpositive hdeliverable hcharged rfl rfl
          ?_ ?_, hown, ?_⟩
        · simp [orderRow, Books.fills_book]
        · simp [orderRow, Books.orderObjects_book]
        · apply hknows (gated.sent session order _) _ ⟨order.clientOrderId, status,
            trade.fillQuantity, trade.fillPrice, message⟩ rfl hown hclaims
          rw [← hwire]
          rfl

/-- The rows of orders with identifiers of their own, as the books know them at the end. -/
theorem OrderManager.submissions_submitAll (simulator : FillSimulator) (day : Panel D)
    (date : D) (session : String) (signalDate : D) {manager : OrderManager D} {books : Books D}
    {orders : List (Order D)} (hnodup : (orders.map Order.clientOrderId).Nodup)
    (hfresh : ∀ order ∈ orders, ¬ Knows manager books order.clientOrderId) :
    ∃ manager' books' states,
      manager.submitAll simulator day date session books orders = (manager', books', states) ∧
      Submissions day date books orders books' (states.map (orderRow books' date signalDate)) ∧
      (∀ id ∉ orders.map Order.clientOrderId,
        books'.fillsByClientOrderId.get? id = books.fillsByClientOrderId.get? id ∧
          books'.orderObjects.get? id = books.orderObjects.get? id) ∧
      (∀ id, Knows manager' books' id →
        Knows manager books id ∨ id ∈ orders.map Order.clientOrderId) := by
  induction orders generalizing manager books with
  | nil => exact ⟨manager, books, [], rfl, .nil books, fun _ _ ↦ ⟨rfl, rfl⟩, fun _ h ↦ .inl h⟩
  | cons order orders ih =>
    rw [List.map_cons, List.nodup_cons] at hnodup
    obtain ⟨manager', between, state, hone, hstate, hfirst, hown, hknows⟩ :=
      submitOne_of_fresh simulator day date session (hfresh order List.mem_cons_self) signalDate
    have hrestFresh : ∀ other ∈ orders, ¬ Knows manager' between other.clientOrderId := by
      intro other hother hknown
      rcases hknows _ hknown with hold | heq
      · exact hfresh other (List.mem_cons_of_mem _ hother) hold
      · exact hnodup.1 (heq ▸ List.mem_map.mpr ⟨other, hother, rfl⟩)
    obtain ⟨manager'', after, states, hall, hrest, hkept, hknowsRest⟩ := ih hnodup.2 hrestFresh
    have hsame := hkept order.clientOrderId hnodup.1
    have hrow : orderRow after date signalDate state = orderRow between date signalDate state := by
      unfold orderRow
      rw [hstate, hsame.1, hsame.2]
    refine ⟨manager'', after, state :: states, ?_, ?_, ?_, ?_⟩
    · rw [submitAll, hone]
      simp only
      rw [hall]
      rfl
    · rw [List.map_cons, hrow]
      exact .cons hfirst hrest
    · intro id hid
      rw [List.map_cons, List.mem_cons, not_or] at hid
      obtain ⟨hfills, hobjects⟩ := hkept id hid.2
      exact ⟨hfills.trans (hown.fills id hid.1), hobjects.trans (hown.objects id hid.1)⟩
    · intro id hid
      rw [List.map_cons, List.mem_cons]
      rcases hknowsRest id hid with hbefore | hmem
      · exact (hknows id hbefore).imp_right .inl
      · exact .inr (.inr hmem)

end QuantAgent.Simulator
