import QuantAgent.Library.DatedLog
import QuantAgent.Simulator.Submissions

/-!
# Sessions and runs

A session is blocked and changes nothing, or settles the inventory and credits the corporate
actions; when there is a price it submits its orders and is valued.  The orders of a session carry
its date, so a run never meets an identifier twice, and its logs are kept by date.
-/

namespace QuantAgent.Simulator

open Library Library.Run
open Execution (OrderSide OrderStatus)

variable {D : Type} [LinearOrder D]

omit [LinearOrder D] in
theorem pricesOf_sublist (day : Panel D) : ((pricesOf day).map Prod.fst).Sublist day.symbols := by
  unfold pricesOf closeBySymbol Panel.symbols
  induction day.rows with
  | nil => exact .slnil
  | cons row rows ih =>
    rw [List.map_cons, List.map_cons, List.filterMap_cons]
    cases (row.cell .close).numeric.filter (0 < ·) with
    | none => exact ih.cons _
    | some price => exact ih.cons_cons _

variable {intents : List (String × ℚ × Intent)}

omit [LinearOrder D] in
/-- An order belongs to one price, and is made on the date of the session. -/
theorem mem_ordersOf {signalDate executionDate : D} {order : Order D}
    (h : order ∈ ordersOf signalDate executionDate intents) :
    order.clientOrderId.executionDate = executionDate ∧
      order.clientOrderId.signalDate = signalDate ∧
      (order.symbol, order.price, Intent.order order.side order.quantity) ∈ intents := by
  unfold ordersOf at h
  simp only at h
  have hmem := (List.mem_append.mp h).elim List.mem_of_mem_filter List.mem_of_mem_filter
  obtain ⟨⟨symbol, price, intent⟩, hentry, heq⟩ := List.mem_filterMap.mp hmem
  cases intent with
  | idle => cases heq
  | skip skipped => cases heq
  | order side quantity =>
    cases heq
    exact ⟨rfl, rfl, hentry⟩

omit [LinearOrder D] in
/-- No two orders of a session share an identifier. -/
theorem nodup_ordersOf (signalDate executionDate : D) (h : (intents.map Prod.fst).Nodup) :
    ((ordersOf signalDate executionDate intents).map Order.clientOrderId).Nodup := by
  have hsymbols : ((ordersOf signalDate executionDate intents).map Order.symbol).Nodup := by
    unfold ordersOf
    simp only
    generalize hall : List.filterMap _ intents = all
    have hperm := List.filter_append_perm (fun order : Order D ↦ decide (order.side = .sell)) all
    have hnot : (fun order : Order D ↦ !decide (order.side = .sell)) =
        fun order : Order D ↦ decide (order.side ≠ .sell) := by
      funext order
      simp
    rw [hnot] at hperm
    apply (hperm.map Order.symbol).nodup_iff.mpr
    refine List.Nodup.sublist ?_ h
    rw [← hall]
    clear hperm hall h
    induction intents with
    | nil => exact .slnil
    | cons entry intents ih =>
      obtain ⟨symbol, price, intent⟩ := entry
      cases intent with
      | idle => exact ih.cons _
      | skip skipped => exact ih.cons _
      | order side quantity => exact ih.cons_cons _
  exact List.Nodup.of_map OrderId.symbol (by rw [List.map_map]; exact hsymbols)

section Reconcile

variable [SquareRoot] [MarketRules.Platform] [Calendar D]

/-- The orders of a session are submitted one after the other, under identifiers of their own. -/
theorem OrderManager.reconcile_spec (simulator : FillSimulator) {day : Panel D} (date : D)
    (session : String) {manager : OrderManager D} {books : Books D} (signalDate : D)
    (weights : Weights) (nav : ℚ) (hnodup : day.symbols.Nodup)
    (hfresh : ∀ id, Knows manager books id → id.executionDate ≠ date) :
    ∃ manager' books' states skipped orders,
      manager.reconcile simulator day date session books signalDate weights (pricesOf day) nav =
        (manager', books', states, skipped) ∧
      Submissions day date books orders books' (states.map (orderRow books' date signalDate)) ∧
      (∀ order ∈ orders, order.symbol ∈ (pricesOf day).map Prod.fst) ∧
      (∀ id, Knows manager' books' id → Knows manager books id ∨ id.executionDate = date) := by
  have hsymbols : ((intentsOf manager.config books.ledger weights (pricesOf day) nav).map
      Prod.fst) = (pricesOf day).map Prod.fst := by
    unfold intentsOf
    rw [List.map_map]
    rfl
  have hids := nodup_ordersOf signalDate date
    (by rw [hsymbols]; exact hnodup.sublist (pricesOf_sublist day))
  let orders := (ordersOf signalDate date
    (intentsOf manager.config books.ledger weights (pricesOf day) nav)).filter fun order ↦
      manager.ordersToday order.symbol < manager.config.maxOrdersPerSymbolPerDay
  have hsublist : orders.Sublist (ordersOf signalDate date
      (intentsOf manager.config books.ledger weights (pricesOf day) nav)) := List.filter_sublist
  obtain ⟨manager', books', states, heq, hsubmissions, -, hknows⟩ :=
    submissions_submitAll simulator day date session signalDate (hids.sublist (hsublist.map _))
      (fun order horder hknown ↦ hfresh _ hknown (mem_ordersOf (hsublist.subset horder)).1)
  refine ⟨manager', books', states,
    skippedOf (intentsOf manager.config books.ledger weights (pricesOf day) nav), orders, ?_,
    hsubmissions, ?_, ?_⟩
  · unfold reconcile
    simp only
    rw [heq]
  · intro order horder
    obtain ⟨-, -, hintent⟩ := mem_ordersOf (hsublist.subset horder)
    rw [← hsymbols]
    exact List.mem_map.mpr ⟨_, hintent, rfl⟩
  · intro id hid
    apply (hknows id hid).imp_right
    intro hmem
    obtain ⟨order, horder, rfl⟩ := List.mem_map.mp hmem
    exact (mem_ordersOf (hsublist.subset horder)).1

end Reconcile

section Session

variable [SquareRoot] [MarketRules.Platform] [Calendar D]

omit [LinearOrder D] [Calendar D] [SquareRoot] [MarketRules.Platform] in
/-- Settled inventory and credited corporate actions. -/
def Books.opened (books : Books D) (day : Panel D) (date : D) : Books D :=
  { books with ledger := books.ledger.releaseFrozenShares }.applyCorporateActions day date

omit [LinearOrder D] [SquareRoot] [MarketRules.Platform] [Calendar D] in
/-- The records of orders are no business of the corporate actions. -/
theorem Books.records_opened (books : Books D) (day : Panel D) (date : D) :
    (books.opened day date).fillsByClientOrderId = books.fillsByClientOrderId ∧
      (books.opened day date).orderObjects = books.orderObjects := by
  have hfold : ∀ (held : Dict String Position) (rows : List (Bar D)) (reached : Books D),
      (rows.foldl (applyRow day date held) reached).fillsByClientOrderId =
          reached.fillsByClientOrderId ∧
        (rows.foldl (applyRow day date held) reached).orderObjects = reached.orderObjects := by
    intro held rows
    induction rows with
    | nil => exact fun reached ↦ ⟨rfl, rfl⟩
    | cons row rows ih =>
      intro reached
      obtain heq | ⟨position, close, -, -, heq | ⟨cashPerShare, shareRatio, -, -, -, heq⟩⟩ :=
        applyRow_cases day date held reached row
      · rw [List.foldl_cons, heq]
        exact ih reached
      · rw [List.foldl_cons, heq]
        exact ih _
      · rw [List.foldl_cons, heq]
        exact ih _
  unfold opened applyCorporateActions
  split
  · exact hfold _ _ _
  · exact ⟨rfl, rfl⟩

def OrderManager.opened (manager : OrderManager D) (config : SimulationConfig) : OrderManager D :=
  if config.fixCrossDayOrderDedup then manager.resetDailyCounters else manager

def weightsOf (schedule : Schedule D) (date : D) : Weights :=
  ((schedule.get? date).map Prod.snd).getD Dict.empty

def Blocked (market : Panel D) (schedule : Schedule D) (state : Simulation D) (date : D) : Prop :=
  (blockReason state.manager.config.negligibleWeight state.books.ledger (weightsOf schedule date)
    (market.onDay date)).isSome

inductive SessionStep (config : SimulationConfig) (market : Panel D) (schedule : Schedule D)
    (state : Simulation D) (date : D) : Simulation D → Prop
  | blocked (hblocked : Blocked market schedule state date) :
      SessionStep config market schedule state date state
  | unpriced (hopen : ¬ Blocked market schedule state date)
      (hprices : pricesOf (market.onDay date) = []) :
      SessionStep config market schedule state date
        { state with
          books := state.books.opened (market.onDay date) date
          manager := state.manager.opened config }
  | valued (hopen : ¬ Blocked market schedule state date)
      (manager : OrderManager D) (books : Books D) (orders : List (Order D))
      (rows : List (OrderRow D)) (skipped : List (SkippedRow D))
      (hsubmissions : Submissions (market.onDay date) date
        (state.books.opened (market.onDay date) date) orders books rows)
      (horders : ∀ order ∈ orders, order.symbol ∈ (pricesOf (market.onDay date)).map Prod.fst)
      (hrows : ∀ row ∈ rows, row.tradeDate = date)
      (hskipped : ∀ row ∈ skipped, row.tradeDate = date)
      (hknows : ∀ id, Knows manager books id →
        Knows state.manager state.books id ∨ id.executionDate = date) :
      SessionStep config market schedule state date
        { books
          manager
          navRows := state.navRows ++
            [(date, markToMarketNav books.ledger (pricesOf (market.onDay date)))]
          orderRows := state.orderRows ++ rows
          skippedRows := state.skippedRows ++ skipped
          positionRows := state.positionRows ++ positionRows books date
            ((schedule.get? date).map Prod.fst) (pricesOf (market.onDay date)) }

variable {config : SimulationConfig} {state : Simulation D} {date : D}

omit [LinearOrder D] [SquareRoot] [MarketRules.Platform] [Calendar D] in
theorem knows_opened {day : Panel D} {id : OrderId D}
    (h : Knows (state.manager.opened config) (state.books.opened day date) id) :
    Knows state.manager state.books id := by
  obtain ⟨hfills, hobjects⟩ := state.books.records_opened day date
  have hmanager : (state.manager.opened config).wire = state.manager.wire ∧
      (state.manager.opened config).claims = state.manager.claims := by
    unfold OrderManager.opened
    split
    · exact ⟨rfl, rfl⟩
    · exact ⟨rfl, rfl⟩
  unfold Knows at h ⊢
  rwa [hfills, hobjects, hmanager.1, hmanager.2] at h

/-- What is known at a session is of other sessions. -/
def FreshAt (state : Simulation D) (date : D) : Prop :=
  ∀ id, Knows state.manager state.books id → id.executionDate ≠ date

variable {market : Panel D} {schedule : Schedule D}

omit [SquareRoot] [MarketRules.Platform] [Calendar D] in
/-- The symbols of a session that is not blocked differ, and it has the closes it needs. -/
theorem of_not_blocked (h : ¬ Blocked market schedule state date) :
    (market.onDay date).symbols.Nodup ∧ .close ∈ market.columns ∧
      ∀ symbol ∈ requiredSymbols state.manager.config.negligibleWeight state.books.ledger
        (weightsOf schedule date), symbol ∈ (pricesOf (market.onDay date)).map Prod.fst := by
  unfold Blocked blockReason at h
  simp only at h
  split at h
  · exact absurd rfl h
  split at h
  · exact absurd rfl h
  rename_i hnodup
  split at h
  · exact absurd rfl h
  rename_i hclose
  split at h
  · exact absurd rfl h
  split at h
  · exact absurd rfl h
  rename_i hprices
  exact ⟨not_not.mp hnodup, not_not.mp hclose, not_not.mp hprices⟩

/-- A session whose identifiers are new does one of three things. -/
theorem sessionStep (config : SimulationConfig) (market : Panel D) (clock : D → String)
    (schedule : Schedule D) (hfresh : FreshAt state date) :
    SessionStep config market schedule state date
      (session config market clock schedule state date) := by
  by_cases hblocked : Blocked market schedule state date
  · have heq : session config market clock schedule state date = state := if_pos hblocked
    rw [heq]
    exact .blocked hblocked
  · have hnodup := (of_not_blocked hblocked).1
    have heq : session config market clock schedule state date = _ := if_neg hblocked
    rw [heq]
    clear heq
    simp only
    split
    · rename_i hempty
      exact .unpriced hblocked (List.isEmpty_iff.mp hempty)
    · have hopened : ∀ id, Knows (state.manager.opened config)
          (state.books.opened (market.onDay date) date) id → id.executionDate ≠ date :=
        fun id hid ↦ hfresh id (knows_opened hid)
      unfold execute
      cases hsignal : schedule.get? date with
      | none =>
        simp only [List.append_nil]
        have hstep : SessionStep config market schedule state date _ := .valued hblocked
          (state.manager.opened config) (state.books.opened (market.onDay date) date) [] [] []
          (.nil _) (List.forall_mem_nil _) (fun _ h ↦ absurd h List.not_mem_nil)
          (List.forall_mem_nil _) (fun id hid ↦ .inl (knows_opened hid))
        rw [hsignal, List.append_nil, List.append_nil] at hstep
        exact hstep
      | some signal =>
        obtain ⟨signalDate, weights⟩ := signal
        obtain ⟨manager, books, states, skipped, orders, hreconcile, hsubmissions, horders,
            hknows⟩ :=
          (state.manager.opened config).reconcile_spec
            ⟨config.volumeParticipationCap, config.slippageBps⟩ date (clock date) signalDate
            (applyStPolicy config weights (currentWeights
              (state.books.opened (market.onDay date) date).ledger
              (pricesOf (market.onDay date))) (market.onDay date))
            (markToMarketNav (state.books.opened (market.onDay date) date).ledger
              (pricesOf (market.onDay date))) hnodup hopened
        have hstep : SessionStep config market schedule state date _ := .valued hblocked
          manager books orders
          (states.map (orderRow books date signalDate))
          (skipped.map fun order ↦ ⟨date, signalDate, order⟩) hsubmissions horders
          (fun row hrow ↦ by
            obtain ⟨order, -, rfl⟩ := List.mem_map.mp hrow
            rfl)
          (fun row hrow ↦ by
            obtain ⟨order, -, rfl⟩ := List.mem_map.mp hrow
            rfl)
          (fun id hid ↦ (hknows id hid).imp_left knows_opened)
        unfold Books.opened OrderManager.opened at hreconcile
        simp only [hreconcile]
        rw [hsignal] at hstep
        exact hstep

/-- The invariant rule of a run: its sessions come in order, so no identifier is met twice. -/
theorem run_of_sessionStep {P : Simulation D → Prop} (clock : D → String) {dates : List D}
    (hsorted : dates.Pairwise (· < ·)) (hfresh : ∀ date ∈ dates, FreshAt state date) (h : P state)
    (hstep : ∀ state date after, date ∈ dates → SessionStep config market schedule state date after
      → P state → P after) :
    P (run (session config market clock schedule) state dates) := by
  induction dates generalizing state with
  | nil => exact h
  | cons date dates ih =>
    rw [List.pairwise_cons] at hsorted
    have hsession := sessionStep config market clock schedule (hfresh date List.mem_cons_self)
    refine ih hsorted.2 ?_ (hstep _ _ _ List.mem_cons_self hsession h) ?_
    · -- A later session knows what was known before, and the identifiers of this one.
      intro later hlater id hid
      have hold := hfresh later (List.mem_cons_of_mem _ hlater)
      have hnew : id.executionDate = date → id.executionDate ≠ later :=
        fun heq ↦ heq ▸ ne_of_lt (hsorted.1 later hlater)
      generalize session config market clock schedule state date = after at hsession hid
      cases hsession with
      | blocked => exact hold id hid
      | unpriced => exact hold id (knows_opened hid)
      | valued hopen manager books orders rows skipped hsubmissions horders hrows hskipped hknows =>
        rcases hknows id hid with hbefore | hdate
        · exact hold id hbefore
        · exact hnew hdate
    · intro state' date' after hmem
      exact hstep state' date' after (List.mem_cons_of_mem _ hmem)

omit [LinearOrder D] [SquareRoot] [MarketRules.Platform] [Calendar D] in
/-- A new run knows no identifier. -/
theorem freshAt_openingOf (config : SimulationConfig) (market : Panel D) (date : D) :
    FreshAt (openingOf config market) date := by
  rintro id (h | h | h | ⟨key, h, -⟩)
  · cases h
  · cases h
  · cases h
  · cases h

omit [LinearOrder D] [SquareRoot] [MarketRules.Platform] [Calendar D] in
theorem Books.caRows_opened (books : Books D) (day : Panel D) (date : D) :
    ∃ actions, (books.opened day date).caRows = books.caRows ++ actions ∧
      ∀ row ∈ actions, row.tradeDate = date := by
  have hfold : ∀ (held : Dict String Position) (rows : List (Bar D)) (reached : Books D),
      ∃ actions, (rows.foldl (applyRow day date held) reached).caRows = reached.caRows ++ actions ∧
        ∀ row ∈ actions, row.tradeDate = date := by
    intro held rows
    induction rows with
    | nil => exact fun reached ↦ ⟨[], (List.append_nil _).symm, List.forall_mem_nil _⟩
    | cons row rows ih =>
      intro reached
      obtain ⟨later, hlater, hdates⟩ := ih (applyRow day date held reached row)
      obtain ⟨first, hfirst, hdate⟩ : ∃ first, (applyRow day date held reached row).caRows =
          reached.caRows ++ first ∧ ∀ row ∈ first, row.tradeDate = date := by
        obtain heq | ⟨position, close, -, -, heq | ⟨cashPerShare, shareRatio, -, -, -, heq⟩⟩ :=
          applyRow_cases day date held reached row
        · rw [heq]
          exact ⟨[], (List.append_nil _).symm, List.forall_mem_nil _⟩
        · rw [heq]
          exact ⟨_, rfl, fun row h ↦ by rw [List.mem_singleton.mp h]⟩
        · rw [heq]
          exact ⟨_, rfl, fun row h ↦ by rw [List.mem_singleton.mp h]⟩
      refine ⟨first ++ later, ?_, ?_⟩
      · rw [List.foldl_cons, hlater, hfirst, List.append_assoc]
      · exact List.forall_mem_append.mpr ⟨hdate, hdates⟩
  unfold opened applyCorporateActions
  split
  · exact hfold _ _ _
  · exact ⟨[], (List.append_nil _).symm, List.forall_mem_nil _⟩

theorem OrderManager.caRows_submitAll (simulator : FillSimulator) (day : Panel D) (date : D)
    (session : String) (manager : OrderManager D) (books : Books D) (orders : List (Order D)) :
    ∃ actions, (manager.submitAll simulator day date session books orders).2.1.caRows =
      books.caRows ++ actions ∧ ∀ row ∈ actions, row.tradeDate = date := by
  induction orders generalizing manager books with
  | nil => exact ⟨[], (List.append_nil _).symm, List.forall_mem_nil _⟩
  | cons order orders ih =>
    obtain ⟨first, hfirst, hdate⟩ : ∃ first,
        (manager.submitOne simulator day date session books order).2.1.caRows =
          books.caRows ++ first ∧ ∀ row ∈ first, row.tradeDate = date := by
      unfold submitOne
      split
      · exact ⟨[], (List.append_nil _).symm, List.forall_mem_nil _⟩
      simp only
      split
      · exact ⟨[], (List.append_nil _).symm, List.forall_mem_nil _⟩
      · obtain ⟨price, message, heq⟩ | ⟨trade, status, message, -, -, -, -, -, heq⟩ :=
          books.submit_cases simulator day date order
        · rw [heq]
          exact ⟨[], (List.append_nil _).symm, List.forall_mem_nil _⟩
        · rw [heq]
          obtain ⟨rows, htax, hfill⟩ := books.book_spec date order trade
          refine ⟨rows, ?_, htax.dated⟩
          simp only
          rw [hfill]
    obtain ⟨later, hlater, hdates⟩ := ih
      (manager.submitOne simulator day date session books order).1
      (manager.submitOne simulator day date session books order).2.1
    refine ⟨first ++ later, ?_, ?_⟩
    · rw [submitAll]
      simp only
      rw [hlater, hfirst, List.append_assoc]
    · exact List.forall_mem_append.mpr ⟨hdate, hdates⟩

section Logs

variable (config : SimulationConfig) (market : Panel D) (clock : D → String)
  (schedule : Schedule D)

theorem session_logs (state : Simulation D) (date : D) :
    (∃ rows, (session config market clock schedule state date).navRows = state.navRows ++ rows ∧
      ∀ row ∈ rows, row.1 = date) ∧
    (∃ rows, (session config market clock schedule state date).orderRows =
      state.orderRows ++ rows ∧ ∀ row ∈ rows, row.tradeDate = date) ∧
    (∃ rows, (session config market clock schedule state date).skippedRows =
      state.skippedRows ++ rows ∧ ∀ row ∈ rows, row.tradeDate = date) ∧
    (∃ rows, (session config market clock schedule state date).positionRows =
      state.positionRows ++ rows ∧ ∀ row ∈ rows, row.tradeDate = date) ∧
    ∃ rows, (session config market clock schedule state date).books.caRows =
      state.books.caRows ++ rows ∧ ∀ row ∈ rows, row.tradeDate = date := by
  obtain ⟨actions, hactions, hdates⟩ := state.books.caRows_opened (market.onDay date) date
  unfold session
  simp only
  split
  · exact ⟨⟨[], by simp⟩, ⟨[], by simp⟩, ⟨[], by simp⟩, ⟨[], by simp⟩, ⟨[], by simp⟩⟩
  split
  · exact ⟨⟨[], by simp⟩, ⟨[], by simp⟩, ⟨[], by simp⟩, ⟨[], by simp⟩, ⟨actions, hactions, hdates⟩⟩
  refine ⟨⟨_, rfl, by simp⟩, ⟨_, rfl, ?_⟩, ⟨_, rfl, ?_⟩, ⟨_, rfl, ?_⟩, ?_⟩
  · unfold execute
    intro row hrow
    split at hrow
    · cases hrow
    · obtain ⟨_, -, rfl⟩ := List.mem_map.mp hrow
      rfl
  · unfold execute
    intro row hrow
    split at hrow
    · cases hrow
    · obtain ⟨_, -, rfl⟩ := List.mem_map.mp hrow
      rfl
  · intro row hrow
    obtain ⟨_, -, rfl⟩ := List.mem_map.mp hrow
    rfl
  · unfold execute
    split
    · exact ⟨actions, hactions, hdates⟩
    · obtain ⟨taxes, htaxes, htaxDates⟩ := OrderManager.caRows_submitAll
        ⟨config.volumeParticipationCap, config.slippageBps⟩ (market.onDay date) date (clock date)
        (state.manager.opened config) (state.books.opened (market.onDay date) date) _
      refine ⟨actions ++ taxes, ?_, ?_⟩
      · rw [← List.append_assoc, ← hactions]
        exact htaxes
      · exact List.forall_mem_append.mpr ⟨hdates, htaxDates⟩

theorem dated_navRows : Dated (session config market clock schedule) Simulation.navRows Prod.fst :=
  fun state date ↦ (session_logs config market clock schedule state date).1

theorem dated_orderRows :
    Dated (session config market clock schedule) Simulation.orderRows OrderRow.tradeDate :=
  fun state date ↦ (session_logs config market clock schedule state date).2.1

theorem dated_positionRows :
    Dated (session config market clock schedule) Simulation.positionRows PositionRow.tradeDate :=
  fun state date ↦ (session_logs config market clock schedule state date).2.2.2.1

theorem dated_caRows :
    Dated (session config market clock schedule) (fun state ↦ state.books.caRows)
      ActionRow.tradeDate :=
  fun state date ↦ (session_logs config market clock schedule state date).2.2.2.2

end Logs

end Session

/-- The sessions of a panel come in order, each once. -/
theorem pairwise_sessions (market : Panel D) : market.sessions.Pairwise (· < ·) := by
  have hsorted : market.sessions.Pairwise (· ≤ ·) := List.pairwise_insertionSort _ _
  have hnodup : market.sessions.Nodup :=
    (List.perm_insertionSort _ _).nodup_iff.mpr (List.nodup_dedup _)
  exact (hsorted.and hnodup).imp fun hboth ↦ lt_of_le_of_ne hboth.1 hboth.2

theorem pairwise_valuationSessions (schedule : Schedule D) (market : Panel D) :
    (valuationSessions schedule market.sessions).Pairwise (· < ·) := by
  unfold valuationSessions
  split
  · exact (pairwise_sessions market).filter _
  · exact .nil

section Valued

variable [SquareRoot] [MarketRules.Platform] [Calendar D] (config : SimulationConfig)
  (market : Panel D) (clock : D → String) (schedule : Schedule D)

def upTo (dates : List D) : Simulation D :=
  run (session config market clock schedule) (openingOf config market) dates

variable {config market clock schedule}

variable {dates : List D}

/-- What is known after some sessions carries their dates. -/
theorem mem_of_knows_upTo (hsorted : dates.Pairwise (· < ·)) {id : OrderId D}
    (h : Knows (upTo config market clock schedule dates).manager (upTo config market clock schedule
      dates).books id) : id.executionDate ∈ dates := by
  refine run_of_sessionStep (P := fun state ↦ ∀ id, Knows state.manager state.books id →
    id.executionDate ∈ dates) clock hsorted (fun date _ ↦ freshAt_openingOf config market date)
    ?_ ?_ id h
  · intro id hid
    exact absurd rfl (freshAt_openingOf config market id.executionDate id hid)
  · intro state date after hdate hsession hstate id hid
    cases hsession with
    | blocked => exact hstate id hid
    | unpriced => exact hstate id (knows_opened hid)
    | valued hopen manager books orders rows skipped hsubmissions horders hrows hskipped hknows =>
      rcases hknows id hid with hbefore | heq
      · exact hstate id hbefore
      · exact heq ▸ hdate

variable {date : D}

/-- Every session of a run is one of three things. -/
theorem sessionStep_upTo (config : SimulationConfig) (market : Panel D) (clock : D → String)
    (schedule : Schedule D) {before after : List D}
    (hsorted : (before ++ date :: after).Pairwise (· < ·)) :
    SessionStep config market schedule (upTo config market clock schedule before) date
      (upTo config market clock schedule (before ++ [date])) := by
  obtain ⟨hbefore, -, hcross⟩ := List.pairwise_append.mp hsorted
  have hlast : upTo config market clock schedule (before ++ [date]) =
      session config market clock schedule (upTo config market clock schedule before) date :=
    run_append _ _ _
  rw [hlast]
  apply sessionStep
  intro id hid
  exact ne_of_lt (hcross _ (mem_of_knows_upTo hbefore hid) date List.mem_cons_self)

/-- A value of a run was taken when its session was done. -/
theorem of_mem_navRows (hsorted : dates.Pairwise (· < ·)) {value : ℚ}
    (h : (date, value) ∈ (upTo config market clock schedule dates).navRows) :
    ∃ before after manager books orders rows skipped, dates = before ++ date :: after ∧
      ¬ Blocked market schedule (upTo config market clock schedule before) date ∧
      Submissions (market.onDay date) date
        ((upTo config market clock schedule before).books.opened (market.onDay date) date) orders
        books rows ∧
      (∀ order ∈ orders, order.symbol ∈ (pricesOf (market.onDay date)).map Prod.fst) ∧
      (∀ row ∈ rows, row.tradeDate = date) ∧
      (∀ row ∈ skipped, row.tradeDate = date) ∧
      value = markToMarketNav books.ledger (pricesOf (market.onDay date)) ∧
      upTo config market clock schedule (before ++ [date]) =
        { books
          manager
          navRows := (upTo config market clock schedule before).navRows ++ [(date, value)]
          orderRows := (upTo config market clock schedule before).orderRows ++ rows
          skippedRows := (upTo config market clock schedule before).skippedRows ++ skipped
          positionRows := (upTo config market clock schedule before).positionRows ++
            positionRows books date ((schedule.get? date).map Prod.fst)
              (pricesOf (market.onDay date)) } := by
  obtain ⟨before, after, hdates, hnot, hmem⟩ :=
    (dated_navRows config market clock schedule).exists_step h List.not_mem_nil
  change (date, value) ∈ (upTo config market clock schedule (before ++ [date])).navRows at hmem
  have hsession := sessionStep_upTo config market clock schedule (hdates ▸ hsorted)
  generalize hstate : upTo config market clock schedule (before ++ [date]) = state at hsession hmem
  cases hsession with
  | blocked => exact absurd hmem hnot
  | unpriced => exact absurd hmem hnot
  | valued hopen manager books orders rows skipped hsubmissions horders hrows hskipped hknows =>
    have hvalue : value = markToMarketNav books.ledger (pricesOf (market.onDay date)) := by
      rcases List.mem_append.mp hmem with hold | hnew
      · exact absurd hold hnot
      · exact (Prod.mk.inj (List.mem_singleton.mp hnew)).2
    refine ⟨before, after, manager, books, orders, rows, skipped, hdates, hopen, hsubmissions,
      horders, hrows, hskipped, hvalue, ?_⟩
    rw [hstate, hvalue]

end Valued

end QuantAgent.Simulator
