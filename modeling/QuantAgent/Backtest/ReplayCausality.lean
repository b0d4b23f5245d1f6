import Mathlib.Algebra.Order.BigOperators.Group.List
import QuantAgent.Backtest.Microstructure
import QuantAgent.MarketRules.Reference

/-!
# What a replay knows of the future

The fills that a replay stamps with events up to a sequence number, against the events that come
later.  Ticks and snapshots are taken one after the other, so nothing later can change them.  A
passive order that is replayed in its queue starts behind everything its price will show all day:
what is inserted later delays or removes earlier fills.
-/

namespace QuantAgent.Backtest.Microstructure

open Library Domain MarketRules

/-! ## Two frames -/

def EventFrame.upTo (frame : EventFrame) (k : ℤ) : List Event :=
  frame.events.filter fun event ↦ event.ingestSequence ≤ k

/-- Two frames have the same columns, and the same events up to a sequence number. -/
structure AgreeUpTo (k : ℤ) (frame other : EventFrame) : Prop where
  columns : frame.columns = other.columns
  events : (frame.upTo k).Perm (other.upTo k)

def Fill.seen (fill : Fill) : ℤ × ℚ × ℚ × ℚ × Option ℚ :=
  (fill.ingestSequence, fill.shares, fill.price, fill.fillTime, fill.queuePositionShares)

def seenUpTo (k : ℤ) (fills : List Fill) : List (ℤ × ℚ × ℚ × ℚ × Option ℚ) :=
  (fills.filter fun fill ↦ fill.ingestSequence ≤ k).map Fill.seen

/-! ## Eligible events -/

variable {events others : List Event}

/-- Sorted events with different sequence numbers are strictly ordered. -/
theorem pairwise_eligibleEvents (simulator : Simulator) (intent : OrderIntent)
    (h : (events.map Event.ingestSequence).Nodup) :
    (eligibleEvents simulator intent events).Pairwise fun first second ↦
      first.ingestSequence < second.ingestSequence := by
  have hnodup : ((eligibleEvents simulator intent events).map Event.ingestSequence).Nodup := by
    apply ((List.perm_insertionSort _ _).map _).nodup_iff.mpr
    exact h.sublist ((List.filter_sublist.trans List.filter_sublist).map _)
  have : Std.Total fun first second : Event ↦ first.ingestSequence ≤ second.ingestSequence :=
    ⟨fun first second ↦ le_total _ _⟩
  have : IsTrans Event fun first second ↦ first.ingestSequence ≤ second.ingestSequence :=
    ⟨fun _ _ _ ↦ le_trans⟩
  have hsorted := List.pairwise_insertionSort
    (fun first second : Event ↦ first.ingestSequence ≤ second.ingestSequence)
    ((events.filter fun event ↦ event.symbol = intent.symbol).filter (eligible simulator intent))
  exact (hsorted.and (List.pairwise_map.mp hnodup)).imp fun hboth ↦
    lt_of_le_of_ne hboth.1 hboth.2

/-- Strictly ordered lists of the same events are the same. -/
theorem eq_of_perm_of_pairwise (h : events.Perm others)
    (hevents : events.Pairwise fun first second ↦ first.ingestSequence < second.ingestSequence)
    (hothers : others.Pairwise fun first second ↦ first.ingestSequence < second.ingestSequence) :
    events = others :=
  h.eq_of_pairwise (fun _ _ _ _ hless hmore ↦ absurd hmore hless.not_gt) hevents hothers

theorem eligibleEvents_congr (simulator : Simulator) (intent : OrderIntent) (h : events.Perm others)
    (hnodup : (events.map Event.ingestSequence).Nodup) :
    eligibleEvents simulator intent events = eligibleEvents simulator intent others := by
  apply eq_of_perm_of_pairwise
  · exact (List.perm_insertionSort _ _).trans
      (((h.filter _).filter _).trans (List.perm_insertionSort _ _).symm)
  · exact pairwise_eligibleEvents simulator intent hnodup
  · exact pairwise_eligibleEvents simulator intent ((h.map _).nodup_iff.mp hnodup)

theorem mem_eligibleEvents {simulator : Simulator} {intent : OrderIntent} {event : Event} :
    event ∈ eligibleEvents simulator intent events ↔
      event ∈ events ∧ event.symbol = intent.symbol ∧ eligible simulator intent event := by
  rw [eligibleEvents, List.mem_insertionSort, List.mem_filter, List.mem_filter, decide_eq_true_eq,
    and_assoc]

/-- The events that an order replays of those up to a sequence number. -/
def replayedUpTo (simulator : Simulator) (intent : OrderIntent) (frame : EventFrame) (k : ℤ) :
    List Event :=
  eligibleEvents simulator intent (frame.upTo k)

theorem exists_eligibleEvents_eq (simulator : Simulator) (intent : OrderIntent) (frame : EventFrame)
    (k : ℤ) : ∃ later, eligibleEvents simulator intent frame.events =
        replayedUpTo simulator intent frame k ++ later ∧
      later = eligibleEvents simulator intent
        (frame.events.filter fun event ↦ ¬ event.ingestSequence ≤ k) ∧
      (∀ event ∈ replayedUpTo simulator intent frame k, event.ingestSequence ≤ k) ∧
      ∀ event ∈ later, ¬ event.ingestSequence ≤ k := by
  have hearly : ∀ event ∈ replayedUpTo simulator intent frame k, event.ingestSequence ≤ k := by
    intro event hevent
    simpa using (List.mem_filter.mp (mem_eligibleEvents.mp hevent).1).2
  have hlate : ∀ event ∈ eligibleEvents simulator intent
      (frame.events.filter fun event ↦ ¬ event.ingestSequence ≤ k),
        ¬ event.ingestSequence ≤ k := by
    intro event hevent
    simpa using (List.mem_filter.mp (mem_eligibleEvents.mp hevent).1).2
  refine ⟨_, ?_, rfl, hearly, hlate⟩
  apply eq_of_perm_of_pairwise
  · have hsplit := List.filter_append_perm (fun event : Event ↦ decide (event.ingestSequence ≤ k))
      frame.events
    have hparts := ((hsplit.filter fun event ↦ event.symbol = intent.symbol).filter
      (eligible simulator intent)).symm
    rw [List.filter_append, List.filter_append] at hparts
    refine (List.perm_insertionSort _ _).trans (hparts.trans ?_)
    have hnot : (fun event : Event ↦ !decide (event.ingestSequence ≤ k)) =
        fun event : Event ↦ decide (¬ event.ingestSequence ≤ k) := by
      funext event
      exact decide_not.symm
    rw [hnot]
    exact (List.perm_insertionSort _ _).symm.append (List.perm_insertionSort _ _).symm
  · exact pairwise_eligibleEvents simulator intent frame.distinct
  · apply List.pairwise_append.mpr
    refine ⟨pairwise_eligibleEvents simulator intent
        (frame.distinct.sublist (List.filter_sublist.map _)),
      pairwise_eligibleEvents simulator intent
        (frame.distinct.sublist (List.filter_sublist.map _)), ?_⟩
    intro first hfirst second hsecond
    exact (hearly first hfirst).trans_lt (not_le.mp (hlate second hsecond))

/-! ## Seen fills -/

@[simp]
theorem settleLast_nil (remaining : ℚ) : settleLast remaining [] = [] := by
  unfold settleLast
  split <;> rfl

theorem map_seen_settleLast (remaining : ℚ) (fills : List Fill) :
    (settleLast remaining fills).map Fill.seen = fills.map Fill.seen := by
  unfold settleLast
  split
  · cases fills using List.reverseRecOn with
    | nil => rfl
    | append_singleton fills fill =>
      rw [List.dropLast_concat, List.getLast?_concat, List.map_append, List.map_append]
      rfl
  · rfl

theorem seenUpTo_eq (k : ℤ) (fills : List Fill) :
    seenUpTo k fills = (fills.map Fill.seen).filter fun seen ↦ seen.1 ≤ k := by
  rw [seenUpTo, List.filter_map]
  rfl

section Replays

variable [Platform] {σ : Type} {done : σ → Bool} {step : σ → Event → σ × Option (ℚ × ℚ)}

/-- What a loop over the eligible events shows up to a sequence number, it shows of the events up to
it. -/
theorem seenUpTo_emit {simulator : Simulator} {intent : OrderIntent} {frame : EventFrame} {k : ℤ}
    (tradeDate model : String) (queuePosition : Option ℚ) (remaining : ℚ) (s : σ) :
    seenUpTo k (settleLast remaining
        ((emit done step s (eligibleEvents simulator intent frame.events)).map
          (fillOf simulator tradeDate intent model queuePosition))) =
      (emit done step s (replayedUpTo simulator intent frame k)).map fun output ↦
        (fillOf simulator tradeDate intent model queuePosition output).seen := by
  obtain ⟨later, hsplit, -, hearly, hlate⟩ := exists_eligibleEvents_eq simulator intent frame k
  rw [seenUpTo_eq, map_seen_settleLast, hsplit, List.map_map, List.filter_map]
  have hfilter : (emit done step s (replayedUpTo simulator intent frame k ++ later)).filter
      (fun output ↦ decide (output.1.ingestSequence ≤ k)) =
        emit done step s (replayedUpTo simulator intent frame k) :=
    filter_emit (p := fun event : Event ↦ decide (event.ingestSequence ≤ k))
      (fun event hevent ↦ decide_eq_true (hearly event hevent))
      (fun event hevent ↦ decide_eq_false (hlate event hevent)) s
  rw [← hfilter]
  rfl

end Replays

/-! ## The queue at a price -/

def moving (columns : List EventColumn) (side : Side) (limit : ℚ) (events : List Event) :
    List Event :=
  events.filter fun event ↦ event.priceIn columns = some limit && consumes columns side event

def Event.sizedIn (columns : List EventColumn) (event : Event) : Bool :=
  (event.volumeIn columns).isSome

/-- The size that moves the queue before the first event without a size clears it. -/
def movedSize (columns : List EventColumn) (side : Side) (limit : ℚ) (events : List Event) : ℚ :=
  (((moving columns side limit events).takeWhile (Event.sizedIn columns)).map fun event ↦
    (((event.volumeIn columns).getD 0 : ℚ≥0) : ℚ)).sum

def queueFills (columns : List EventColumn) (side : Side) (limit : ℚ) (state : QueueState)
    (events : List Event) : List (Event × (ℚ × ℚ)) :=
  emit QueueState.spent (queueStep columns side limit) state events

section Queue

variable {columns : List EventColumn} {side : Side} {limit : ℚ}

theorem queueFills_append (state : QueueState) (first rest : List Event) :
    queueFills columns side limit state (first ++ rest) =
      queueFills columns side limit state first ++ queueFills columns side limit
        (emitted QueueState.spent (queueStep columns side limit) state first) rest :=
  emit_append state first rest

theorem queueFills_moving (state : QueueState) (events : List Event) :
    queueFills columns side limit state (moving columns side limit events) =
      queueFills columns side limit state events := by
  apply emit_filter
  intro s event hevent
  exact if_neg (by simp [hevent])

variable {queue remaining : ℚ}

variable {event : Event}

theorem queueStep_of_volume {volume : ℚ≥0}
    (hmoving : (event.priceIn columns = some limit && consumes columns side event) = true)
    (hvolume : event.volumeIn columns = some volume) :
    queueStep columns side limit ⟨queue, remaining⟩ event =
      if 0 < (volume : ℚ) - min queue volume ∧ queue - min queue volume ≤ 0 then
        (⟨queue - min queue volume,
            remaining - min remaining ((volume : ℚ) - min queue volume)⟩,
          some (min remaining ((volume : ℚ) - min queue volume), limit))
      else (⟨queue - min queue volume, remaining⟩, none) := by
  unfold queueStep
  rw [if_pos hmoving, hvolume]
  simp only [Bool.and_eq_true, decide_eq_true_eq]

variable {events : List Event}

section

variable (hremaining : 0 < remaining)
  (hmoving : ∀ event ∈ events, (event.priceIn columns = some limit && consumes columns side event) =
    true)
  (hsizes : ∀ event ∈ events, event.sizedIn columns)
include hremaining hmoving hsizes

/-- A queue that holds what moves it fills nothing, and is shorter by it. -/
theorem queueFills_of_le
    (hle : (events.map fun event ↦ (((event.volumeIn columns).getD 0 : ℚ≥0) : ℚ)).sum ≤ queue) :
    queueFills columns side limit ⟨queue, remaining⟩ events = [] ∧
      emitted QueueState.spent (queueStep columns side limit) ⟨queue, remaining⟩ events =
        ⟨queue - (events.map fun event ↦ (((event.volumeIn columns).getD 0 : ℚ≥0) : ℚ)).sum,
          remaining⟩ := by
  induction events generalizing queue with
  | nil => simp [queueFills, emitted]
  | cons event events ih =>
    obtain ⟨volume, hvolume⟩ := Option.isSome_iff_exists.mp (hsizes event List.mem_cons_self)
    have hopen : QueueState.spent ⟨queue, remaining⟩ = false := decide_eq_false hremaining.not_ge
    rw [List.map_cons, List.sum_cons, hvolume, Option.getD_some] at hle ⊢
    have hrest : 0 ≤ (events.map fun event ↦
        (((event.volumeIn columns).getD 0 : ℚ≥0) : ℚ)).sum := by
      apply List.sum_nonneg
      intro size hsize
      obtain ⟨other, -, rfl⟩ := List.mem_map.mp hsize
      exact NNRat.coe_nonneg _
    have hmin : min queue (volume : ℚ) = volume := min_eq_right (by linarith)
    have hstep : queueStep columns side limit ⟨queue, remaining⟩ event =
        (⟨queue - volume, remaining⟩, none) := by
      rw [queueStep_of_volume (hmoving event List.mem_cons_self) hvolume, hmin, sub_self]
      exact if_neg fun hboth ↦ lt_irrefl _ hboth.1
    have hle' : (events.map fun event ↦ (((event.volumeIn columns).getD 0 : ℚ≥0) : ℚ)).sum ≤
        queue - volume := by
      linarith
    obtain ⟨hfills, hstate⟩ := ih
      (fun other hother ↦ hmoving other (List.mem_cons_of_mem _ hother))
      (fun other hother ↦ hsizes other (List.mem_cons_of_mem _ hother)) hle'
    rw [queueFills, emit_cons hopen, emitted_cons hopen, hstep]
    refine ⟨hfills, hstate.trans ?_⟩
    rw [sub_sub]

/-- A queue that holds less than what moves it fills something. -/
theorem queueFills_of_lt
    (hlt : queue < (events.map fun event ↦ (((event.volumeIn columns).getD 0 : ℚ≥0) : ℚ)).sum)
    (hqueue : 0 ≤ queue) : queueFills columns side limit ⟨queue, remaining⟩ events ≠ [] := by
  induction events generalizing queue with
  | nil => exact absurd hlt (by simpa using hqueue)
  | cons event events ih =>
    obtain ⟨volume, hvolume⟩ := Option.isSome_iff_exists.mp (hsizes event List.mem_cons_self)
    have hopen : QueueState.spent ⟨queue, remaining⟩ = false := decide_eq_false hremaining.not_ge
    rw [List.map_cons, List.sum_cons, hvolume, Option.getD_some] at hlt
    have hstep : queueStep columns side limit ⟨queue, remaining⟩ event = _ :=
      queueStep_of_volume (hmoving event List.mem_cons_self) hvolume
    rw [queueFills, emit_cons hopen, hstep]
    rcases le_or_gt (volume : ℚ) queue with hheld | hover
    · rw [min_eq_right hheld, sub_self, if_neg fun hboth ↦ lt_irrefl _ hboth.1]
      exact ih (fun other hother ↦ hmoving other (List.mem_cons_of_mem _ hother))
        (fun other hother ↦ hsizes other (List.mem_cons_of_mem _ hother)) (by linarith)
        (by linarith)
    · rw [min_eq_left hover.le, sub_self, if_pos ⟨by linarith, le_rfl⟩]
      exact List.cons_ne_nil _ _

end

theorem mem_moving (h : event ∈ moving columns side limit events) : event ∈ events ∧
      (event.priceIn columns = some limit && consumes columns side event) = true :=
  List.mem_filter.mp h

/-- A queue that holds less than what moves it fills for an event with a size, before the first
event without one. -/
theorem exists_queueFills_of_lt (hremaining : 0 < remaining)
    (hlt : queue < movedSize columns side limit events) (hqueue : 0 ≤ queue) :
    ∃ output ∈ queueFills columns side limit ⟨queue, remaining⟩ events,
      output.1 ∈ (moving columns side limit events).takeWhile (Event.sizedIn columns) := by
  have hsome := queueFills_of_lt hremaining (fun event hevent ↦ (mem_moving (List.takeWhile_subset _
    hevent)).2) (fun _ hevent ↦ List.mem_takeWhile_imp hevent) hlt hqueue
  obtain ⟨output, houtput⟩ := List.exists_mem_of_ne_nil _ hsome
  refine ⟨output, ?_, mem_of_mem_emit houtput⟩
  rw [← queueFills_moving, ← List.takeWhile_append_dropWhile (p := Event.sizedIn columns)
    (l := moving columns side limit events), queueFills_append]
  exact List.mem_append_left _ houtput

/-- A queue that holds what moves it fills nothing before the first event without a size. -/
theorem mem_dropWhile_of_queueFills (hremaining : 0 < remaining)
    (hle : movedSize columns side limit events ≤ queue) {output : Event × (ℚ × ℚ)}
    (h : output ∈ queueFills columns side limit ⟨queue, remaining⟩ events) :
    output.1 ∈ (moving columns side limit events).dropWhile (Event.sizedIn columns) := by
  have hnone := (queueFills_of_le hremaining (fun event hevent ↦ (mem_moving (List.takeWhile_subset
    _ hevent)).2) (fun _ hevent ↦ List.mem_takeWhile_imp hevent) hle).1
  rw [← queueFills_moving, ← List.takeWhile_append_dropWhile (p := Event.sizedIn columns)
    (l := moving columns side limit events), queueFills_append, hnone, List.nil_append] at h
  exact mem_of_mem_emit h

/-- Two queues that both hold what moves them fill the same. -/
theorem queueFills_congr {other : ℚ} (hremaining : 0 < remaining)
    (hqueue : movedSize columns side limit events ≤ queue)
    (hother : movedSize columns side limit events ≤ other) :
    queueFills columns side limit ⟨queue, remaining⟩ events =
      queueFills columns side limit ⟨other, remaining⟩ events := by
  rw [← queueFills_moving, ← queueFills_moving ⟨other, remaining⟩]
  have hall : ∀ event ∈ moving columns side limit events,
      (event.priceIn columns = some limit && consumes columns side event) = true :=
    fun event hevent ↦ (List.mem_filter.mp hevent).2
  unfold movedSize at hqueue hother
  generalize moving columns side limit events = moves at hqueue hother hall ⊢
  have hrest := List.head?_dropWhile_not (Event.sizedIn columns) moves
  have hsized : ∀ event ∈ moves.takeWhile (Event.sizedIn columns), event.sizedIn columns :=
    fun _ hevent ↦ List.mem_takeWhile_imp hevent
  have hmoving : ∀ event ∈ moves.takeWhile (Event.sizedIn columns),
      (event.priceIn columns = some limit && consumes columns side event) = true :=
    fun event hevent ↦ hall event (List.takeWhile_subset _ hevent)
  obtain ⟨hnone, hstate⟩ := queueFills_of_le hremaining hmoving hsized hqueue
  obtain ⟨hnone', hstate'⟩ := queueFills_of_le hremaining hmoving hsized hother
  have hsplit := List.takeWhile_append_dropWhile (p := Event.sizedIn columns) (l := moves)
  rw [← hsplit, queueFills_append, queueFills_append, hnone, hnone', hstate, hstate',
    List.nil_append, List.nil_append]
  cases hdrop : moves.dropWhile (Event.sizedIn columns) with
  | nil => rfl
  | cons event later =>
    -- The first event without a size clears the queue, whatever it held.
    rw [hdrop] at hrest
    have hmove : (event.priceIn columns = some limit && consumes columns side event) = true := by
      apply hall
      rw [← hsplit, hdrop]
      exact List.mem_append_right _ List.mem_cons_self
    have hvolume : event.volumeIn columns = none := by simpa [Event.sizedIn] using hrest
    have hclear : ∀ queue, queueStep columns side limit ⟨queue, remaining⟩ event =
        (⟨0, remaining⟩, none) := by
      intro queue
      unfold queueStep
      rw [if_pos hmove, hvolume]
    have hopen : ∀ queue, QueueState.spent ⟨queue, remaining⟩ = false :=
      fun _ ↦ decide_eq_false hremaining.not_ge
    rw [queueFills, queueFills, emit_cons (hopen _), emit_cons (hopen _), hclear, hclear]

end Queue

/-! ## Causal replays -/

section Causality

variable [Platform]

/-- What is seen of an order up to a sequence number is the same for all frames that agree up to
it. -/
def Causal (simulator : Simulator) (tradeDate : String) (state : String → SymbolState)
    (intent : OrderIntent) (k : ℤ) (frame : EventFrame) : Prop :=
  ∀ other, AgreeUpTo k frame other →
    seenUpTo k (replay simulator tradeDate state other intent) =
      seenUpTo k (replay simulator tradeDate state frame intent)

omit [Platform] in
/-- The intent can trade, and is a lot at least. -/
def Accepted (state : String → SymbolState) (intent : OrderIntent) : Prop :=
  checkTradability intent (state intent.symbol) = none ∧ 0 < sized intent

/-- When continuous trading ends, in milliseconds. -/
def closingTime : ℚ := 53820000

omit [Platform] in
/-- A passive order with a limit that is replayed in its queue while later events can still join it:
the trades and cancellations at its price up to a sequence number do not exceed what is inserted
there up to it. -/
def QueueHolds (simulator : Simulator) (state : String → SymbolState) (intent : OrderIntent) (k : ℤ)
    (frame : EventFrame) : Prop :=
  simulator.level = .a → intent.style = .passive → ∀ limit, intent.limitPrice = some limit →
    Accepted state intent → .side ∈ frame.columns →
    (∀ event ∈ frame.upTo k, event.exchangeTime < closingTime) →
      movedSize frame.columns intent.side limit (replayedUpTo simulator intent frame k) ≤
        restingSize frame.columns intent.side limit (replayedUpTo simulator intent frame k)

variable {intent : OrderIntent}

section

variable (simulator : Simulator) (tradeDate : String) (state : String → SymbolState)
  (frame : EventFrame)

/-- An order without events fills nothing, so an accepted intent is just filled. -/
theorem replay_eq (h : Accepted state intent) :
    replay simulator tradeDate state frame intent =
      fill simulator tradeDate frame.columns intent (sized intent) frame.events := by
  obtain ⟨htradable, hsized⟩ := h
  unfold replay rejection
  rw [htradable]
  simp only [if_neg hsized.not_ge]
  split
  · rename_i hrejected
    split at hrejected
    · rename_i hnone
      have heligible : eligibleEvents simulator intent frame.events = [] := by
        rw [eligibleEvents, hnone]
        rfl
      have hticks : fillLevelC simulator tradeDate frame.columns intent (sized intent)
          frame.events = [] := by
        rw [fillLevelC, fillRemaining, heligible, emit_nil, List.map_nil, settleLast_nil]
      unfold fill
      cases simulator.level with
      | a =>
        simp only
        unfold fillLevelA
        split
        · simp only
          rw [heligible, emit_nil, List.map_nil, settleLast_nil]
        · exact hticks.symm
      | b =>
        simp only
        unfold fillLevelB
        split
        · exact hticks.symm
        · rw [fillRemaining, heligible, emit_nil, List.map_nil, settleLast_nil]
      | c => exact hticks.symm
    · cases hrejected
  · rfl

theorem replay_of_not_accepted (h : ¬ Accepted state intent) :
    replay simulator tradeDate state frame intent = [] := by
  unfold replay rejection
  cases htradable : checkTradability intent (state intent.symbol) with
  | some reason => rfl
  | none =>
    have hsized := not_lt.mp fun hpositive ↦ h ⟨htradable, hpositive⟩
    simp only [if_pos hsized]

end

variable {k : ℤ} {frame other : EventFrame}

omit [Platform] in
/-- Frames that agree replay the same events up to their sequence number. -/
theorem AgreeUpTo.replayed_eq (h : AgreeUpTo k frame other) (simulator : Simulator)
    (intent : OrderIntent) :
    replayedUpTo simulator intent frame k = replayedUpTo simulator intent other k :=
  eligibleEvents_congr simulator intent h.events
    (frame.distinct.sublist (List.filter_sublist.map _))

variable {simulator : Simulator}

section

variable (h : AgreeUpTo k frame other)
include h

/-- A fill model that takes the events one after the other is causal. -/
theorem seenUpTo_fillRemaining (tradeDate model : String) (step : ℚ → Event → ℚ × Option (ℚ × ℚ))
    (shares : ℤ) :
    seenUpTo k (fillRemaining simulator tradeDate intent model step shares
        (eligibleEvents simulator intent other.events)) =
      seenUpTo k (fillRemaining simulator tradeDate intent model step shares
        (eligibleEvents simulator intent frame.events)) := by
  rw [fillRemaining, fillRemaining, seenUpTo_emit, seenUpTo_emit, h.replayed_eq]

theorem seenUpTo_fillLevelC (tradeDate : String) (shares : ℤ) :
    seenUpTo k (fillLevelC simulator tradeDate other.columns intent shares other.events) =
      seenUpTo k (fillLevelC simulator tradeDate frame.columns intent shares frame.events) := by
  rw [h.columns]
  exact seenUpTo_fillRemaining h tradeDate _ _ shares

theorem seenUpTo_fillLevelB (tradeDate : String) (shares : ℤ) :
    seenUpTo k (fillLevelB simulator tradeDate other.columns intent shares other.events) =
      seenUpTo k (fillLevelB simulator tradeDate frame.columns intent shares frame.events) := by
  unfold fillLevelB
  rw [← h.columns]
  split
  · have hticks : seenUpTo k (fillLevelC simulator tradeDate other.columns intent shares
        other.events) = _ := seenUpTo_fillLevelC h tradeDate shares
    rwa [← h.columns] at hticks
  · exact seenUpTo_fillRemaining h tradeDate _ _ shares

end

variable {limit time : ℚ}

/-- What a replay in a queue shows up to a sequence number. -/
theorem seenUpTo_queue (hstyle : intent.style = .passive) (hlimit : intent.limitPrice = some limit)
    (tradeDate : String) (shares : ℤ) :
    seenUpTo k (fillLevelA simulator tradeDate frame.columns intent shares frame.events) =
      (queueFills frame.columns intent.side limit
        ⟨restingSize frame.columns intent.side limit
          (eligibleEvents simulator intent frame.events), shares⟩
        (replayedUpTo simulator intent frame k)).map fun output ↦
          (fillOf simulator tradeDate intent "order_queue_replay" (some 0) output).seen := by
  unfold fillLevelA
  rw [hstyle, hlimit]
  exact seenUpTo_emit ..

section

omit [Platform]

theorem restingSize_append (columns : List EventColumn) (side : Side) (limit : ℚ)
    (first rest : List Event) : restingSize columns side limit (first ++ rest) =
      restingSize columns side limit first + restingSize columns side limit rest := by
  rw [restingSize, List.filter_append, List.map_append, List.sum_append]
  rfl

theorem lt_closingTime_of_continuous {board : Board} (h : continuous board time) :
    time < closingTime := by
  by_contra hlate
  rw [not_lt, closingTime] at hlate
  have hminute : (897 : ℤ) ≤ ⌊time / 60000⌋ := by
    rw [Int.le_floor]
    push_cast
    linarith
  have hphase : phaseOfMinute ⌊time / 60000⌋ board ≠ .continuousAm ∧
      phaseOfMinute ⌊time / 60000⌋ board ≠ .continuousPm := by
    generalize ⌊time / 60000⌋ = minute at hminute
    have hbefore : ∀ bound : ℤ, bound ≤ 897 → decide (minute < bound) = false :=
      fun bound hbound ↦ decide_eq_false (by omega)
    unfold phaseOfMinute sessionWindows
    simp only [List.find?_cons, hbefore 560 (by decide), hbefore 565 (by decide),
      hbefore 570 (by decide), hbefore 691 (by decide), hbefore 780 (by decide),
      hbefore 897 (by decide), Bool.and_false, List.find?_nil]
    split
    · rename_i hfound
      split at hfound
      · cases hfound
        decide
      · cases hfound
    · split
      · decide
      · split <;> decide
  unfold continuous at h
  split at h
  · rename_i hphase'
    exact hphase.1 hphase'
  · rename_i hphase'
    exact hphase.2 hphase'
  · cases h

end

/-! ## Frames that end early or late -/

omit [Platform] in
def EventFrame.cut (frame : EventFrame) (k : ℤ) : EventFrame where
  columns := frame.columns
  events := frame.upTo k
  distinct := frame.distinct.sublist (List.filter_sublist.map _)
  ordered := fun first hfirst second hsecond ↦
    frame.ordered first (List.mem_of_mem_filter hfirst) second (List.mem_of_mem_filter hsecond)

variable {event late : Event}

section

omit [Platform]

theorem mem_upTo :
    event ∈ frame.upTo k ↔ event ∈ frame.events ∧ event.ingestSequence ≤ k := by
  rw [EventFrame.upTo, List.mem_filter, decide_eq_true_eq]

theorem agreeUpTo_cut (frame : EventFrame) (k : ℤ) : AgreeUpTo k frame (frame.cut k) where
  columns := rfl
  events := by
    have hcut : (frame.cut k).upTo k = frame.upTo k :=
      List.filter_eq_self.mpr fun event hevent ↦ decide_eq_true (mem_upTo.mp hevent).2
    rw [hcut]

end

omit [Platform] in
def EventFrame.joined (frame : EventFrame) (k : ℤ) (late : Event) (hlate : k < late.ingestSequence)
    (htime : ∀ event ∈ frame.upTo k, event.exchangeTime ≤ late.exchangeTime) : EventFrame where
  columns := frame.columns
  events := frame.upTo k ++ [late]
  distinct := by
    rw [List.map_append, List.map_singleton]
    apply ((frame.cut k).distinct).append (List.nodup_singleton _)
    rintro sequence hsequence hsame
    obtain ⟨event, hevent, rfl⟩ := List.mem_map.mp hsequence
    have hle := (mem_upTo.mp hevent).2
    rw [List.mem_singleton.mp hsame] at hle
    exact absurd hle hlate.not_ge
  ordered := by
    intro first hfirst second hsecond hless
    rcases List.mem_append.mp hfirst with hfirst | hfirst
    · rcases List.mem_append.mp hsecond with hsecond | hsecond
      · exact (frame.cut k).ordered first hfirst second hsecond hless
      · rw [List.mem_singleton.mp hsecond]
        exact htime first hfirst
    · rcases List.mem_append.mp hsecond with hsecond | hsecond
      · rw [List.mem_singleton.mp hfirst] at hless
        exact absurd (hlate.trans hless) (mem_upTo.mp hsecond).2.not_gt
      · rw [List.mem_singleton.mp hfirst, List.mem_singleton.mp hsecond]

section

omit [Platform]

section

variable (frame : EventFrame) (hlate : k < late.ingestSequence)
  (htime : ∀ event ∈ frame.upTo k, event.exchangeTime ≤ late.exchangeTime)
include hlate htime

theorem events_joined :
    (frame.joined k late hlate htime).events = frame.upTo k ++ [late] := rfl

theorem agreeUpTo_joined :
    AgreeUpTo k frame (frame.joined k late hlate htime) where
  columns := rfl
  events := by
    have hjoined : (frame.joined k late hlate htime).upTo k = frame.upTo k := by
      have hearly : (frame.upTo k).filter (fun event ↦ event.ingestSequence ≤ k) = frame.upTo k :=
        List.filter_eq_self.mpr fun event hevent ↦ decide_eq_true (mem_upTo.mp hevent).2
      have hnone : [late].filter (fun event ↦ event.ingestSequence ≤ k) = [] := by
        simp [hlate]
      rw [EventFrame.upTo, EventFrame.joined, List.filter_append, hearly, hnone, List.append_nil]
    rw [hjoined]

end

end

omit [Platform] in
/-- The last time of a frame up to a sequence number, after one o'clock. -/
def lastTime (frame : EventFrame) (k : ℤ) : ℚ :=
  (frame.upTo k).foldr (fun event time ↦ max event.exchangeTime time) 46800000

section

omit [Platform]

theorem lastTime_spec (events : List Event) :
    (46800000 : ℚ) ≤ events.foldr (fun event time ↦ max event.exchangeTime time) 46800000 ∧
      (∀ event ∈ events, event.exchangeTime ≤
        events.foldr (fun event time ↦ max event.exchangeTime time) 46800000) ∧
      ((∀ event ∈ events, event.exchangeTime < closingTime) →
        events.foldr (fun event time ↦ max event.exchangeTime time) 46800000 < closingTime) := by
  induction events with
  | nil =>
    refine ⟨le_rfl, fun _ h ↦ absurd h List.not_mem_nil, fun _ ↦ ?_⟩
    norm_num [closingTime]
  | cons event events ih =>
    obtain ⟨hfrom, hall, hto⟩ := ih
    refine ⟨hfrom.trans (le_max_right _ _), ?_, ?_⟩
    · intro other hother
      rcases List.mem_cons.mp hother with rfl | hother
      · exact le_max_left _ _
      · exact (hall other hother).trans (le_max_right _ _)
    · intro hopen
      exact max_lt (hopen event List.mem_cons_self)
        (hto fun other hother ↦ hopen other (List.mem_cons_of_mem _ hother))

theorem continuous_of_afternoon (board : Board) (hfrom : 46800000 ≤ time)
    (hto : time < closingTime) : continuous board time := by
  have hlow : (780 : ℤ) ≤ ⌊time / 60000⌋ := by
    rw [Int.le_floor]
    push_cast
    linarith
  have hhigh : ⌊time / 60000⌋ < 897 := by
    rw [Int.floor_lt]
    rw [closingTime] at hto
    push_cast
    linarith
  unfold continuous
  generalize ⌊time / 60000⌋ = minute at hlow hhigh
  have hbefore : ∀ bound : ℤ, bound ≤ 780 → decide (minute < bound) = false :=
    fun bound hbound ↦ decide_eq_false (by omega)
  have hphase : phaseOfMinute minute board = .continuousPm := by
    unfold phaseOfMinute sessionWindows
    simp only [List.find?_cons, hbefore 560 (by decide), hbefore 565 (by decide),
      hbefore 570 (by decide), hbefore 691 (by decide), hbefore 780 (by decide), Bool.and_false,
      decide_eq_true hlow, decide_eq_true hhigh, Bool.and_true]
  rw [hphase]

theorem later_eq_nil (hevent : event ∈ frame.upTo k) (hclosed : closingTime ≤ event.exchangeTime)
    (simulator : Simulator) (intent : OrderIntent) :
    eligibleEvents simulator intent
      (frame.events.filter fun event ↦ ¬ event.ingestSequence ≤ k) = [] := by
  apply List.eq_nil_iff_forall_not_mem.mpr
  intro late hlate
  obtain ⟨hmem, -, heligible⟩ := mem_eligibleEvents.mp hlate
  obtain ⟨hin, hafter⟩ := List.mem_filter.mp hmem
  obtain ⟨hfirst, hle⟩ := mem_upTo.mp hevent
  have hless : event.ingestSequence < late.ingestSequence := by
    rw [decide_eq_true_eq, not_le] at hafter
    exact hle.trans_lt hafter
  have horder := frame.ordered event hfirst late hin hless
  unfold eligible at heligible
  split at heligible
  · cases heligible
  · rw [Bool.and_eq_true] at heligible
    exact absurd (lt_closingTime_of_continuous heligible.2) (hclosed.trans horder).not_gt

end

variable {columns : List EventColumn}

section

omit [Platform]

theorem restingSize_of_notMem (h : .side ∉ columns) (side : Side) (limit : ℚ)
    (events : List Event) : restingSize columns side limit events = 0 := by
  have hnone : events.filter (rests columns side limit) = [] := by
    apply List.filter_eq_nil_iff.mpr
    intro event _
    simp [rests, Event.sideIn, h]
  rw [restingSize, hnone]
  rfl

theorem volumeShares_mem_of_moved {side : Side} {events : List Event}
    (h : 0 < movedSize columns side limit events) :
    .volumeShares ∈ columns := by
  by_contra hnone
  have hzero : movedSize columns side limit events = 0 := by
    apply List.sum_eq_zero
    intro size hsize
    obtain ⟨event, -, rfl⟩ := List.mem_map.mp hsize
    simp [Event.volumeIn, hnone]
  exact h.ne' hzero

end

variable {tradeDate : String} {state : String → SymbolState}

/-- What the replay of a passive order in its queue shows up to a sequence number. -/
theorem seenUpTo_replay (hlevel : simulator.level = .a) (hstyle : intent.style = .passive)
    (hlimit : intent.limitPrice = some limit) (haccepted : Accepted state intent) :
    seenUpTo k (replay simulator tradeDate state frame intent) =
      (queueFills frame.columns intent.side limit
        ⟨restingSize frame.columns intent.side limit
          (eligibleEvents simulator intent frame.events), sized intent⟩
        (replayedUpTo simulator intent frame k)).map fun output ↦
          (fillOf simulator tradeDate intent "order_queue_replay" (some 0) output).seen := by
  rw [replay_eq _ _ _ _ haccepted, fill, hlevel]
  exact seenUpTo_queue hstyle hlimit tradeDate _

/-! ## The condition -/

theorem causal_of_queueHolds (h : QueueHolds simulator state intent k frame) :
    Causal simulator tradeDate state intent k frame := by
  intro other hagree
  by_cases haccepted : Accepted state intent
  · rw [replay_eq _ _ _ _ haccepted, replay_eq _ _ _ _ haccepted]
    unfold fill
    cases hlevel : simulator.level with
    | b => exact seenUpTo_fillLevelB hagree tradeDate _
    | c => exact seenUpTo_fillLevelC hagree tradeDate _
    | a =>
      simp only
      cases hstyle : intent.style with
      | marketable =>
        have hticks : ∀ frame : EventFrame, fillLevelA simulator tradeDate frame.columns intent
            (sized intent) frame.events = fillLevelC simulator tradeDate frame.columns intent
              (sized intent) frame.events := by
          intro frame
          unfold fillLevelA
          rw [hstyle]
        rw [hticks, hticks]
        exact seenUpTo_fillLevelC hagree tradeDate _
      | passive =>
        cases hlimit : intent.limitPrice with
        | none =>
          have hticks : ∀ frame : EventFrame, fillLevelA simulator tradeDate frame.columns
              intent (sized intent) frame.events = fillLevelC simulator tradeDate
                frame.columns intent (sized intent) frame.events := by
            intro frame
            unfold fillLevelA
            rw [hstyle, hlimit]
          rw [hticks, hticks]
          exact seenUpTo_fillLevelC hagree tradeDate _
        | some limit =>
          rw [seenUpTo_queue hstyle hlimit, seenUpTo_queue hstyle hlimit,
            ← hagree.replayed_eq, ← hagree.columns]
          congr 1
          obtain ⟨later, hsplit, hlater, -, -⟩ := exists_eligibleEvents_eq simulator intent frame k
          obtain ⟨later', hsplit', hlater', -, -⟩ :=
            exists_eligibleEvents_eq simulator intent other k
          rw [hsplit, hsplit', ← hagree.replayed_eq]
          by_cases hside : .side ∈ frame.columns
          · by_cases hopen : ∀ event ∈ frame.upTo k, event.exchangeTime < closingTime
            · have hheld := h hlevel hstyle limit hlimit haccepted hside hopen
              have hmore : ∀ later, movedSize frame.columns intent.side limit
                  (replayedUpTo simulator intent frame k) ≤
                    restingSize frame.columns intent.side limit
                      (replayedUpTo simulator intent frame k ++ later) := by
                intro later
                refine hheld.trans ?_
                rw [restingSize_append, NNRat.coe_add]
                exact le_add_of_nonneg_right (NNRat.coe_nonneg _)
              exact queueFills_congr (by exact_mod_cast haccepted.2) (hmore later') (hmore later)
            · obtain ⟨event, hevent, hclosed⟩ := not_forall₂.mp hopen
              have hevent' := hagree.events.mem_iff.mp hevent
              rw [hlater, hlater', later_eq_nil hevent (not_lt.mp hclosed),
                later_eq_nil hevent' (not_lt.mp hclosed)]
          · rw [restingSize_of_notMem hside, restingSize_of_notMem hside]
  · rw [replay_of_not_accepted _ _ _ _ haccepted, replay_of_not_accepted _ _ _ _ haccepted]

/-- A queue that is moved by more than it holds can be joined too late. -/
theorem queueHolds_of_causal (h : Causal simulator tradeDate state intent k frame) :
    QueueHolds simulator state intent k frame := by
  intro hlevel hstyle limit hlimit haccepted hside hopen
  by_contra hmoved
  rw [not_le] at hmoved
  have hremaining : (0 : ℚ) < sized intent := by exact_mod_cast haccepted.2
  obtain ⟨output, houtput, hsized⟩ := exists_queueFills_of_lt hremaining hmoved (NNRat.coe_nonneg _)
  obtain ⟨hmem, hmoves⟩ := mem_moving (List.takeWhile_subset _ hsized)
  obtain ⟨hfrom, hall, hto⟩ := lastTime_spec (frame.upTo k)
  obtain ⟨hearly, -, heligible⟩ := mem_eligibleEvents.mp hmem
  have hpositive := (NNRat.coe_nonneg _).trans_lt hmoved
  have hvolume := volumeShares_mem_of_moved hpositive
  have hprice : .price ∈ frame.columns := by
    by_contra hnone
    simp [Event.priceIn, hnone] at hmoves
  let late : Event := {
    symbol := intent.symbol
    ingestSequence := k + 1
    exchangeTime := lastTime frame k
    eventAction := "INSERT"
    side := some intent.side
    price := some limit
    volumeShares := some (Rat.toNNRat (movedSize frame.columns intent.side limit
      (replayedUpTo simulator intent frame k)))
    askPrice := none
    bidPrice := none
    askVolumeShares := none
    bidVolumeShares := none }
  have hbehind := lt_add_one k
  have htime : ∀ event ∈ frame.upTo k, event.exchangeTime ≤ late.exchangeTime := hall
  have hlate : eligible simulator intent late := by
    unfold eligible at heligible ⊢
    split at heligible
    · cases heligible
    simp only [Bool.and_eq_true, decide_eq_true_eq] at heligible ⊢
    exact ⟨heligible.1.trans (hall _ hearly),
      continuous_of_afternoon intent.board hfrom (hto hopen)⟩
  have hrests : rests frame.columns intent.side limit late = true := by
    simp [rests, late, Event.priceIn, Event.sideIn, hprice, hside]
  have hcut := h (frame.cut k) (agreeUpTo_cut frame k)
  have hjoined := h (frame.joined k late hbehind htime) (agreeUpTo_joined frame hbehind htime)
  have hevents : eligibleEvents simulator intent
      (frame.joined k late hbehind htime).events =
        replayedUpTo simulator intent frame k ++ [late] := by
    obtain ⟨later, hsplit, hlater, -, -⟩ := exists_eligibleEvents_eq simulator intent
      (frame.joined k late hbehind htime) k
    have hone : (frame.joined k late hbehind htime).events.filter
        (fun event ↦ ¬ event.ingestSequence ≤ k) = [late] := by
      have hnone : (frame.upTo k).filter (fun event ↦ ¬ event.ingestSequence ≤ k) = [] := by
        apply List.filter_eq_nil_iff.mpr
        intro event hevent
        simpa using (mem_upTo.mp hevent).2
      have hkept : [late].filter (fun event ↦ ¬ event.ingestSequence ≤ k) = [late] := by
        simp [late]
      rw [events_joined, List.filter_append, hnone, hkept, List.nil_append]
    have hsingle : eligibleEvents simulator intent [late] = [late] := by
      have hsymbol : [late].filter (fun event ↦ event.symbol = intent.symbol) = [late] := by
        simp [late]
      rw [eligibleEvents, hsymbol, List.filter_cons_of_pos hlate]
      rfl
    rw [hsplit, hlater, hone, hsingle, ← (agreeUpTo_joined frame hbehind htime).replayed_eq]
  rw [← hcut, seenUpTo_replay hlevel hstyle hlimit haccepted,
    seenUpTo_replay hlevel hstyle hlimit haccepted, hevents,
    ← (agreeUpTo_joined frame hbehind htime).replayed_eq,
    ← (agreeUpTo_cut frame k).replayed_eq] at hjoined
  have hmore : movedSize frame.columns intent.side limit (replayedUpTo simulator intent frame k) ≤
      restingSize frame.columns intent.side limit
        (replayedUpTo simulator intent frame k ++ [late]) := by
    have hone : restingSize frame.columns intent.side limit [late] =
        Rat.toNNRat (movedSize frame.columns intent.side limit
          (replayedUpTo simulator intent frame k)) := by
      rw [restingSize, List.filter_cons_of_pos hrests]
      simp [late, Event.volumeIn, hvolume]
    rw [restingSize_append, hone, NNRat.coe_add, Rat.coe_toNNRat _ hpositive.le]
    exact le_add_of_nonneg_left (NNRat.coe_nonneg _)
  -- The fill of the frame that ends early is behind the queue in the frame with the late insertion.
  have hshown : (fillOf simulator tradeDate intent "order_queue_replay" (some 0) output).seen ∈
      (queueFills frame.columns intent.side limit
        ⟨restingSize frame.columns intent.side limit
          (replayedUpTo simulator intent frame k ++ [late]), sized intent⟩
        (replayedUpTo simulator intent frame k)).map fun output ↦
          (fillOf simulator tradeDate intent "order_queue_replay" (some 0) output).seen := by
    have hcutShown := List.mem_map_of_mem (f := fun output ↦
      (fillOf simulator tradeDate intent "order_queue_replay" (some 0) output).seen) houtput
    rw [show eligibleEvents simulator intent (frame.cut k).events =
      replayedUpTo simulator intent frame k from rfl] at hjoined
    exact hjoined ▸ hcutShown
  obtain ⟨other, hother, hsame⟩ := List.mem_map.mp hshown
  have hdropped := mem_dropWhile_of_queueFills hremaining hmore hother
  have hsequence := congrArg Prod.fst hsame
  have hdistinct : ((moving frame.columns intent.side limit
      (replayedUpTo simulator intent frame k)).map Event.ingestSequence).Nodup := by
    have hpairwise := pairwise_eligibleEvents simulator intent (frame.cut k).distinct
    exact (List.pairwise_map.mpr (hpairwise.imp fun hless ↦ hless.ne)).sublist
      (List.filter_sublist.map _)
  rw [← List.takeWhile_append_dropWhile (p := Event.sizedIn frame.columns)
    (l := moving frame.columns intent.side limit (replayedUpTo simulator intent frame k)),
    List.map_append] at hdistinct
  exact (List.nodup_append.mp hdistinct).2.2 _ (List.mem_map_of_mem hsized) _
    (List.mem_map_of_mem hdropped) hsequence.symm

/-- What a replay shows up to a sequence number does not depend on later events exactly when the
queue of the order holds what moves it. -/
theorem causal_iff (simulator : Simulator) (tradeDate : String) (state : String → SymbolState)
    (intent : OrderIntent) (k : ℤ) (frame : EventFrame) :
    Causal simulator tradeDate state intent k frame ↔
      QueueHolds simulator state intent k frame :=
  ⟨queueHolds_of_causal, causal_of_queueHolds⟩

end Causality

/-! ## A queue that is joined too late -/

def insertion (sequence : ℤ) (time : ℚ) (side : Side) : Event where
  symbol := "600000"
  ingestSequence := sequence
  exchangeTime := time
  eventAction := "INSERT"
  side := some side
  price := some 10
  volumeShares := some 300
  askPrice := none
  bidPrice := none
  askVolumeShares := none
  bidVolumeShares := none

/-- A sale that meets an empty queue at ten o'clock. -/
def soldFrame : EventFrame where
  columns := [.eventAction, .side, .price, .volumeShares]
  events := [insertion 1 36000000 .sell]
  distinct := by decide
  ordered := by decide +kernel

/-- The sale, and a purchase that is inserted a minute later. -/
def joinedFrame : EventFrame where
  columns := [.eventAction, .side, .price, .volumeShares]
  events := [insertion 1 36000000 .sell, insertion 2 36060000 .buy]
  distinct := by decide
  ordered := by decide +kernel

theorem agreeUpTo_joinedFrame : AgreeUpTo 1 soldFrame joinedFrame where
  columns := rfl
  events := .refl _

def joiningIntent : OrderIntent where
  symbol := "600000"
  side := .buy
  shares := 300
  style := .passive
  limitPrice := some 10
  releaseTime := some 34200000
  board := .shMain
  isFullLiquidation := false

/-- The order that is inserted later takes the place of the one that rests. -/
theorem not_causal_soldFrame : ¬ Causal ⟨.a, 0, 1 / 4000, 1 / 10⟩ "2026-01-05" (fun _ ↦ {})
    joiningIntent 1 soldFrame := by
  intro h
  have hlengths := congrArg List.length (h joinedFrame agreeUpTo_joinedFrame)
  revert hlengths
  decide +kernel

end QuantAgent.Backtest.Microstructure
