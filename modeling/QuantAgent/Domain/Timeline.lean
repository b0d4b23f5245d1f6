import Mathlib.Data.String.Basic

/-!
# Instants and their order

Timestamps as the standard library compares them.  Two stamps of one time zone are compared by the
clock on the wall, two stamps of different zones by the instants they denote; and a stamp whose
offset depends on which of two passes of the clock is meant never equals a stamp of another zone.
Events are ordered by their time, the causal rank of their kind, the source's sequence and a stable
identity.
-/

namespace QuantAgent.Domain

/-- A timestamp with a time zone, in microseconds. -/
structure DateTime where
  wall : ℤ
  /-- The identity of the time zone object. -/
  zone : ℕ
  utcOffset : ℤ
  /-- The offset is another one for the other pass of the clock. -/
  ambiguous : Bool
  deriving DecidableEq, Repr

namespace DateTime

def instant (moment : DateTime) : ℤ := moment.wall - moment.utcOffset

/-- `self < other`. -/
def less (left right : DateTime) : Bool :=
  if left.zone = right.zone then left.wall < right.wall else left.instant < right.instant

/-- `self == other`. -/
def same (left right : DateTime) : Bool :=
  if left.zone = right.zone then left.wall = right.wall
  else !left.ambiguous && !right.ambiguous && left.instant = right.instant

theorem less_asymm {left right : DateTime} (h : left.less right = true) :
    right.less left = false := by
  unfold less at *
  by_cases hzone : left.zone = right.zone
  · rw [if_pos hzone, decide_eq_true_eq] at h
    rw [if_pos hzone.symm, decide_eq_false_iff_not]
    omega
  · rw [if_neg hzone, decide_eq_true_eq] at h
    rw [if_neg (Ne.symm hzone), decide_eq_false_iff_not]
    omega

theorem same_comm (left right : DateTime) : left.same right = right.same left := by
  unfold same
  by_cases hzone : left.zone = right.zone
  · rw [if_pos hzone, if_pos hzone.symm, Bool.decide_congr eq_comm]
  · rw [if_neg hzone, if_neg (Ne.symm hzone), Bool.decide_congr eq_comm]
    simp only [Bool.and_comm]

theorem not_less_of_same {left right : DateTime} (h : left.same right = true) :
    left.less right = false := by
  unfold less
  unfold same at h
  by_cases hzone : left.zone = right.zone
  · rw [if_pos hzone, decide_eq_true_eq] at h
    rw [if_pos hzone, decide_eq_false_iff_not]
    omega
  · rw [if_neg hzone] at h
    simp only [Bool.and_eq_true, decide_eq_true_eq] at h
    rw [if_neg hzone, decide_eq_false_iff_not]
    omega

end DateTime

inductive Stamp where
  | aware (moment : DateTime)
  /-- Without a time zone, or no timestamp at all. -/
  | naive (text : String)

inductive TimeError where
  | naiveTimestamp (text : String)
  | impossibleAvailability (eventTime availableTime : DateTime)
  | frontierRetreat (current target : DateTime)

/-- Refuse anything without a zone. -/
def ensureAware : Stamp → Except TimeError DateTime
  | .aware moment => .ok moment
  | .naive text => .error (.naiveTimestamp text)

/-- When something happened and when it became knowable, never before it happened. -/
structure EventTime where
  eventTime : DateTime
  availableTime : DateTime
  possible : availableTime.less eventTime = false

/-- The stamps of an event, unless it was knowable before it happened. -/
def EventTime.create (eventTime availableTime : Stamp) : Except TimeError EventTime :=
  match ensureAware eventTime, ensureAware availableTime with
  | .error error, _ => .error error
  | _, .error error => .error error
  | .ok happened, .ok known =>
    if h : known.less happened = true then .error (.impossibleAvailability happened known)
    else .ok ⟨happened, known, by simpa using h⟩

/-- A fact knowable the instant it occurs. -/
def EventTime.immediate (moment : DateTime) : EventTime where
  eventTime := moment
  availableTime := moment
  possible := by simp [DateTime.less]

structure DecisionFrontier where
  decisionTime : DateTime
  deriving DecidableEq, Repr

/-- Move the frontier forward.  It never moves back. -/
def DecisionFrontier.advancedTo (frontier : DecisionFrontier) (moment : DateTime) :
    Except TimeError DecisionFrontier :=
  if moment.less frontier.decisionTime then
    .error (.frontierRetreat frontier.decisionTime moment)
  else .ok ⟨moment⟩

/-- The rank of a kind among the events of one instant. -/
def eventPriorities : List (String × ℕ) :=
  [("CALENDAR", 0), ("SESSION_OPEN", 1), ("CORPORATE_ACTION", 2), ("SECURITY_STATE", 3),
    ("SUSPENSION", 4), ("PRICE_LIMIT", 5), ("QUOTE", 6), ("TRADE", 7), ("BAR", 8), ("SIGNAL", 9),
    ("TARGET", 10), ("RISK_DECISION", 11), ("ORDER", 12), ("CANCEL", 13), ("VENUE_CALLBACK", 14),
    ("FILL", 15), ("EXPIRY", 16), ("MARK_TO_MARKET", 17), ("SETTLEMENT", 18),
    ("SESSION_CLOSE", 19), ("END_OF_DAY", 20)]

/-- An unknown kind sorts after every known one. -/
def unknownPriority : ℕ := 21

/-- `EVENT_PRIORITY.get(kind.upper(), UNKNOWN_PRIORITY)`. -/
def eventPriority (kind : String) : ℕ := (eventPriorities.lookup kind.toUpper).getD unknownPriority

structure SortKey where
  time : DateTime
  priority : ℕ
  sequence : ℤ
  identity : String

def orderingKey (stamps : EventTime) (kind : String) (sequence : ℤ) (identity : String) :
    SortKey where
  time := stamps.eventTime
  priority := eventPriority kind
  sequence
  identity

namespace SortKey

/-- Tuples are compared at the first place where they differ. -/
def less (left right : SortKey) : Bool :=
  if left.time.same right.time then
    if left.priority = right.priority then
      if left.sequence = right.sequence then left.identity < right.identity
      else left.sequence < right.sequence
    else left.priority < right.priority
  else left.time.less right.time

theorem less_asymm {left right : SortKey} (h : left.less right = true) :
    right.less left = false := by
  unfold less at *
  rw [DateTime.same_comm] at h
  by_cases htime : right.time.same left.time
  · rw [if_pos htime] at h ⊢
    by_cases hpriority : left.priority = right.priority
    · rw [if_pos hpriority] at h
      rw [if_pos hpriority.symm]
      by_cases hsequence : left.sequence = right.sequence
      · rw [if_pos hsequence, decide_eq_true_eq] at h
        rw [if_pos hsequence.symm, decide_eq_false_iff_not]
        exact lt_asymm h
      · rw [if_neg hsequence, decide_eq_true_eq] at h
        rw [if_neg (Ne.symm hsequence), decide_eq_false_iff_not]
        exact lt_asymm h
    · rw [if_neg hpriority, decide_eq_true_eq] at h
      rw [if_neg (Ne.symm hpriority), decide_eq_false_iff_not]
      exact lt_asymm h
  · rw [if_neg htime] at h ⊢
    exact DateTime.less_asymm h

theorem less_irrefl (key : SortKey) : key.less key = false := by
  cases h : key.less key with
  | false => rfl
  | true => rw [less_asymm h] at h; exact h.symm

/-- A key that does not precede another has no earlier time. -/
theorem not_less_time {left right : SortKey} (h : left.less right = false) :
    left.time.less right.time = false := by
  unfold less at h
  by_cases htime : left.time.same right.time
  · exact DateTime.not_less_of_same htime
  · rwa [if_neg htime] at h

end SortKey

end QuantAgent.Domain
