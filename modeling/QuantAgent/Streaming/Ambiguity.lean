import QuantAgent.Domain.Orders
import QuantAgent.Library.FirstExit

/-!
# When one bar touches both the stop and the target

A bar that reached both levels of a bracket does not say in which order.  The resolution takes the
stop, or reports the ambiguity, or follows a finer path.  Without a path its price is never better
than what a path through the bar would have given.  With a path it fills at the level, also where
the path jumped over the stop, and it takes a bar for a touch that the path does not show.
-/

namespace QuantAgent.Streaming

open Domain Library

/-! ## Bars and outcomes -/

def touchTolerance : ℚ := 1 / 1000000000

/-- What to do with a bar that is consistent with both outcomes. -/
inductive AmbiguityPolicy where
  | conservative
  | markAmbiguous
  deriving DecidableEq, Repr

inductive PathResolution where
  | targetOnly
  | stopOnly
  | neither
  | ambiguousResolvedByIntrabar
  | ambiguousResolvedConservatively
  | ambiguousUnresolved
  deriving DecidableEq, Repr

inductive Trigger where
  | stop
  | target
  deriving DecidableEq, Repr

/-- A bar whose open and close lie within its range. -/
structure Bar where
  openPrice : ℚ
  high : ℚ
  low : ℚ
  closePrice : ℚ
  ordered : low ≤ high
  openInside : low - touchTolerance ≤ openPrice ∧ openPrice ≤ high + touchTolerance
  closeInside : low - touchTolerance ≤ closePrice ∧ closePrice ≤ high + touchTolerance

inductive InvalidBar where
  | lowExceedsHigh
  | openOutside
  | closeOutside
  deriving DecidableEq, Repr

/-- `__post_init__`. -/
def Bar.create (openPrice high low closePrice : ℚ) : Except InvalidBar Bar :=
  if hordered : high < low then .error .lowExceedsHigh
  else if hopen : low - touchTolerance ≤ openPrice ∧ openPrice ≤ high + touchTolerance then
    if hclose : low - touchTolerance ≤ closePrice ∧ closePrice ≤ high + touchTolerance then
      .ok ⟨openPrice, high, low, closePrice, not_lt.mp hordered, hopen, hclose⟩
    else .error .closeOutside
  else .error .openOutside

structure BarPathOutcome where
  resolution : PathResolution
  triggered : Option Trigger
  triggerPrice : Option ℚ
  ambiguous : Bool
  rule : String
  deriving DecidableEq, Repr

/-- The stop and the target are on the wrong sides of each other. -/
inductive InvalidBracket where
  | long (stop target : ℚ)
  | short (stop target : ℚ)
  deriving DecidableEq, Repr

/-! ## Resolution -/

/-- `_touched`: whether the bar reached a level. -/
def touched (bar : Bar) (level : ℚ) (fromAbove : Bool) : Bool :=
  if fromAbove then bar.low ≤ level + touchTolerance else level - touchTolerance ≤ bar.high

/-- `_fill_price`: where a trigger fills.  A bar that opens beyond the level fills at the open. -/
def fillPrice (bar : Bar) (level : ℚ) (adverseBelow : Bool) : ℚ :=
  if adverseBelow then
    if bar.openPrice ≤ level then min bar.openPrice level else level
  else if level ≤ bar.openPrice then max bar.openPrice level else level

/-- `_first_touch`: which level a finer path reached first. -/
def firstTouch (side : Side) (stop target : ℚ) : List ℚ → Option (Trigger × ℚ)
  | [] => none
  | price :: path =>
    let long : Bool := side = .buy
    if (if long then price ≤ stop + touchTolerance else stop - touchTolerance ≤ price) then
      some (.stop, stop)
    else if (if long then target - touchTolerance ≤ price else price ≤ target + touchTolerance) then
      some (.target, target)
    else firstTouch side stop target path

def neitherTouched : BarPathOutcome where
  resolution := .neither
  triggered := none
  triggerPrice := none
  ambiguous := false
  rule := "bar reached neither level"

def stopTouched (price : ℚ) : BarPathOutcome where
  resolution := .stopOnly
  triggered := some .stop
  triggerPrice := some price
  ambiguous := false
  rule := "bar reached only the stop"

def targetTouched (price : ℚ) : BarPathOutcome where
  resolution := .targetOnly
  triggered := some .target
  triggerPrice := some price
  ambiguous := false
  rule := "bar reached only the target"

/-- A finer path that shows which level came first. -/
def settledByPath (first : Trigger × ℚ) : BarPathOutcome where
  resolution := .ambiguousResolvedByIntrabar
  triggered := some first.1
  triggerPrice := some first.2
  ambiguous := true
  rule := "intrabar path observed; first touch settles the order"

def unresolved : BarPathOutcome where
  resolution := .ambiguousUnresolved
  triggered := none
  triggerPrice := none
  ambiguous := true
  rule := "both levels touched; caller asked to be told rather than assumed for"

def assumedStop (price : ℚ) : BarPathOutcome where
  resolution := .ambiguousResolvedConservatively
  triggered := some .stop
  triggerPrice := some price
  ambiguous := true
  rule := "both levels touched and no intrabar path was supplied; the adverse level " ++
    "is assumed to have triggered first"

def resolveBoth (bar : Bar) (side : Side) (stop target : ℚ) (intrabar : Option (List ℚ))
    (policy : AmbiguityPolicy) : BarPathOutcome :=
  match firstTouch side stop target (intrabar.getD []) with
  | some first => settledByPath first
  | none =>
    match policy with
    | .markAmbiguous => unresolved
    | .conservative => assumedStop (fillPrice bar stop (side = .buy))

/-- `resolve_same_bar`: which of a stop and a target triggered within one bar. -/
def resolveSameBar (bar : Bar) (side : Side) (stop target : ℚ) (intrabar : Option (List ℚ))
    (policy : AmbiguityPolicy) : Except InvalidBracket BarPathOutcome :=
  let long : Bool := side = .buy
  if long ∧ target ≤ stop then .error (.long stop target)
  else if ¬ long ∧ stop ≤ target then .error (.short stop target)
  else
    match touched bar stop long, touched bar target (!long) with
    | false, false => .ok neitherTouched
    | true, false => .ok (stopTouched (fillPrice bar stop long))
    | false, true => .ok (targetTouched (fillPrice bar target (!long)))
    | true, true => .ok (resolveBoth bar side stop target intrabar policy)

/-! ## Prices at and beyond a level -/

/-- A stop and a target on the right sides of each other. -/
structure Bracket (side : Side) where
  stop : ℚ
  target : ℚ
  ordered : match side with
    | .buy => stop < target
    | .sell => target < stop

section Levels

variable {K : Type} [LE K]

def NoBetter (side : Side) (price other : K) : Prop :=
  match side with
  | .buy => price ≤ other
  | .sell => other ≤ price

def Reaches (side : Side) : Trigger → K → K → Prop
  | .stop, level, price => NoBetter side price level
  | .target, level, price => NoBetter side level price

end Levels

namespace Bracket

variable {side : Side}

def price (bracket : Bracket side) : Trigger → ℚ
  | .stop => bracket.stop
  | .target => bracket.target

def Touches (bracket : Bracket side) (level : Trigger) (price : ℚ) : Prop :=
  match side, level with
  | .buy, .stop => price ≤ bracket.stop + touchTolerance
  | .sell, .stop => bracket.stop - touchTolerance ≤ price
  | .buy, .target => bracket.target - touchTolerance ≤ price
  | .sell, .target => price ≤ bracket.target + touchTolerance

/-- The bar comes to a level, as far as the tolerance can tell. -/
def TouchedBy (bracket : Bracket side) (bar : Bar) : Trigger → Prop
  | .stop => touched bar bracket.stop (side = .buy) = true
  | .target => touched bar bracket.target (!(side = .buy : Bool)) = true

instance (bracket : Bracket side) (bar : Bar) (level : Trigger) :
    Decidable (bracket.TouchedBy bar level) := by
  unfold TouchedBy
  cases level <;> infer_instance

def lower (bracket : Bracket side) : ℚ :=
  match side with
  | .buy => bracket.stop
  | .sell => bracket.target

def upper (bracket : Bracket side) : ℚ :=
  match side with
  | .buy => bracket.target
  | .sell => bracket.stop

instance (bracket : Bracket side) (level : Trigger) (price : ℚ) :
    Decidable (bracket.Touches level price) := by
  unfold Touches
  cases side <;> cases level <;> infer_instance

/-! ## What a resolution promises -/

structure PathThrough (bar : Bar) (path : ℝ → ℝ) : Prop where
  continuous : ContinuousOn path (Set.Icc 0 1)
  opens : path 0 = bar.openPrice
  closes : path 1 = bar.closePrice
  inside : ∀ moment ∈ Set.Icc (0 : ℝ) 1, bar.low ≤ path moment ∧ path moment ≤ bar.high
  attainsLow : ∃ moment ∈ Set.Icc (0 : ℝ) 1, path moment = bar.low
  attainsHigh : ∃ moment ∈ Set.Icc (0 : ℝ) 1, path moment = bar.high

/-- Where a position leaves on a path: at the open, when the bar opens at a level or beyond it, and
else at the first level reached. -/
def ExitsAt (bracket : Bracket side) (bar : Bar) (path : ℝ → ℝ) (exit : ℝ) : Prop :=
  ((∃ level, Reaches side level (bracket.price level) bar.openPrice) ∧ exit = bar.openPrice) ∨
    (¬ ∃ level, Reaches side level (bracket.price level) bar.openPrice) ∧
      ∃ moment, FirstExit.Exits path 0 1 bracket.lower bracket.upper moment ∧ exit = path moment

/-- A finer path that starts at the open of the bar and stays in its range. -/
def Follows (bar : Bar) (path : List ℚ) : Prop :=
  path.head? = some bar.openPrice ∧ ∀ price ∈ path, bar.low ≤ price ∧ price ≤ bar.high

/-- The first price of a finer path that is at a level or beyond it is there at this level. -/
def ReachesFirst (bracket : Bracket side) (path : List ℚ) (level : Trigger) (price : ℚ) : Prop :=
  ∃ before after, path = before ++ price :: after ∧
    (∀ earlier ∈ before, ∀ other, ¬ Reaches side other (bracket.price other) earlier) ∧
    Reaches side level (bracket.price level) price

/-- A resolution does not flatter: without a finer path its price is no better than the exit on any
path through the bar, and with one it names the level reached first and is no better than the first
price there. -/
def NeverFlatters (bracket : Bracket side) (bar : Bar) (intrabar : Option (List ℚ))
    (policy : AmbiguityPolicy) : Prop :=
  ∀ outcome, resolveSameBar bar side bracket.stop bracket.target intrabar policy = .ok outcome →
    ∀ level price, outcome.triggered = some level → outcome.triggerPrice = some price →
      (intrabar.getD [] = [] → ∀ path, PathThrough bar path → ∀ exit, ExitsAt bracket bar path exit →
        NoBetter side (price : ℝ) exit) ∧
      (intrabar.getD [] ≠ [] → Follows bar (intrabar.getD []) →
        ∃ first, ReachesFirst bracket (intrabar.getD []) level first ∧ NoBetter side price first)

/-- Nothing triggers: the bar comes to no level, or it comes to both, the path to none, and the
caller wants to be told. -/
def NothingTriggers (bracket : Bracket side) (bar : Bar) (path : List ℚ) (policy : AmbiguityPolicy) :
    Prop :=
  (∀ level, ¬ bracket.TouchedBy bar level) ∨
    (∀ level, bracket.TouchedBy bar level) ∧
      (∀ price ∈ path, ∀ level, ¬ bracket.Touches level price) ∧ policy = .markAmbiguous

def TouchesFirst (bracket : Bracket side) (path : List ℚ) (level : Trigger) : Prop :=
  ∃ before price after, path = before ++ price :: after ∧
    (∀ earlier ∈ before, ∀ other, ¬ bracket.Touches other earlier) ∧
    bracket.Touches level price ∧ (level = .target → ¬ bracket.Touches .stop price)

/-- The path reaches the level that it touches first; and where this is the stop, it is there
exactly at the stop, or the bar opens there and does not come to the target. -/
def ComesTo (bracket : Bracket side) (bar : Bar) (path : List ℚ) : Prop :=
  ∃ level price, bracket.TouchesFirst path level ∧ bracket.ReachesFirst path level price ∧
    (level = .stop →
      price = bracket.stop ∨ price = bar.openPrice ∧ ¬ bracket.TouchedBy bar .target)

/-- A finer path, where there is one, settles what the bar leaves open. -/
def Settles (bracket : Bracket side) (bar : Bar) (intrabar : Option (List ℚ))
    (policy : AmbiguityPolicy) : Prop :=
  intrabar.getD [] ≠ [] → Follows bar (intrabar.getD []) →
    bracket.NothingTriggers bar (intrabar.getD []) policy ∨
      bracket.ComesTo bar (intrabar.getD [])

/-! ## Facts about levels -/

section Levels

variable {bracket : Bracket side} {bar : Bar} {level : Trigger} {price : ℚ}

theorem noBetter_refl (side : Side) (price : ℚ) : NoBetter side price price := by
  cases side with
  | buy => exact le_refl price
  | sell => exact le_refl price

theorem noBetter_antisymm {other : ℚ} (h : NoBetter side price other)
    (h' : NoBetter side other price) : price = other := by
  cases side with
  | buy => exact le_antisymm h h'
  | sell => exact le_antisymm h' h

theorem noBetter_stop (h : Reaches side .target bracket.target price) :
    NoBetter side bracket.stop price := by
  have hordered := bracket.ordered
  cases side with
  | buy => exact (le_of_lt hordered).trans h
  | sell => exact le_trans h (le_of_lt hordered)

theorem not_reaches_both (h : Reaches side .target bracket.target price) :
    ¬ Reaches side .stop bracket.stop price := by
  have hordered := bracket.ordered
  cases side with
  | buy => exact not_le.mpr (lt_of_lt_of_le hordered h)
  | sell => exact not_le.mpr (lt_of_le_of_lt h hordered)

theorem touches_of_reaches (h : Reaches side level (bracket.price level) price) :
    bracket.Touches level price := by
  have hsmall : 0 < touchTolerance := by norm_num [touchTolerance]
  cases side with
  | buy =>
    cases level with
    | stop => exact le_trans h (le_add_of_nonneg_right hsmall.le)
    | target => exact le_trans (sub_le_self _ hsmall.le) h
  | sell =>
    cases level with
    | stop => exact le_trans (sub_le_self _ hsmall.le) h
    | target => exact le_trans h (le_add_of_nonneg_right hsmall.le)

theorem touchedBy_of_touches (hinside : bar.low ≤ price ∧ price ≤ bar.high)
    (h : bracket.Touches level price) : bracket.TouchedBy bar level := by
  obtain ⟨hlow, hhigh⟩ := hinside
  cases side with
  | buy =>
    cases level with
    | stop => simpa [TouchedBy, touched] using hlow.trans h
    | target => simpa [TouchedBy, touched] using le_trans h hhigh
  | sell =>
    cases level with
    | stop => simpa [TouchedBy, touched] using le_trans h hhigh
    | target => simpa [TouchedBy, touched] using hlow.trans h

def fill (bracket : Bracket side) (bar : Bar) : Trigger → ℚ
  | .stop => fillPrice bar bracket.stop (side = .buy)
  | .target => fillPrice bar bracket.target (!(side = .buy : Bool))

/-- A bar that opens at a level or beyond it fills at the open. -/
theorem fill_of_reaches (level : Trigger)
    (h : Reaches side level (bracket.price level) bar.openPrice) :
    bracket.fill bar level = bar.openPrice := by
  cases side with
  | buy =>
    cases level with
    | stop =>
      have hle : bar.openPrice ≤ bracket.stop := h
      simp [fill, fillPrice, hle]
    | target =>
      have hle : bracket.target ≤ bar.openPrice := h
      simp [fill, fillPrice, hle]
  | sell =>
    cases level with
    | stop =>
      have hle : bracket.stop ≤ bar.openPrice := h
      simp [fill, fillPrice, hle]
    | target =>
      have hle : bar.openPrice ≤ bracket.target := h
      simp [fill, fillPrice, hle]

theorem fill_of_not_reaches (level : Trigger)
    (h : ¬ Reaches side level (bracket.price level) bar.openPrice) :
    bracket.fill bar level = bracket.price level := by
  cases side with
  | buy =>
    cases level with
    | stop =>
      have hle : ¬ bar.openPrice ≤ bracket.stop := h
      simp [fill, fillPrice, hle, price]
    | target =>
      have hle : ¬ bracket.target ≤ bar.openPrice := h
      simp [fill, fillPrice, hle, price]
  | sell =>
    cases level with
    | stop =>
      have hle : ¬ bracket.stop ≤ bar.openPrice := h
      simp [fill, fillPrice, hle, price]
    | target =>
      have hle : ¬ bar.openPrice ≤ bracket.target := h
      simp [fill, fillPrice, hle, price]

theorem noBetter_fill_stop (bracket : Bracket side) (bar : Bar) :
    NoBetter side (bracket.fill bar .stop) bracket.stop := by
  by_cases h : Reaches side .stop bracket.stop bar.openPrice
  · rw [fill_of_reaches .stop h]
    exact h
  · rw [fill_of_not_reaches .stop h]
    exact noBetter_refl side bracket.stop

end Levels

/-! ## What is resolved -/

section Resolve

variable (bracket : Bracket side) (bar : Bar) (intrabar : Option (List ℚ))
  (policy : AmbiguityPolicy)

theorem resolveSameBar_eq :
    resolveSameBar bar side bracket.stop bracket.target intrabar policy = .ok (
      if bracket.TouchedBy bar .stop then
        if bracket.TouchedBy bar .target then
          resolveBoth bar side bracket.stop bracket.target intrabar policy
        else stopTouched (bracket.fill bar .stop)
      else if bracket.TouchedBy bar .target then targetTouched (bracket.fill bar .target)
      else neitherTouched) := by
  have hordered := bracket.ordered
  have hlong : ¬ ((decide (side = .buy) = true) ∧ bracket.target ≤ bracket.stop) := by
    rintro ⟨hside, hwrong⟩
    obtain rfl : side = .buy := by simpa using hside
    exact absurd hordered (not_lt.mpr hwrong)
  have hshort : ¬ (¬ (decide (side = .buy) = true) ∧ bracket.stop ≤ bracket.target) := by
    rintro ⟨hside, hwrong⟩
    obtain rfl : side = .sell := by
      cases side with
      | buy => exact absurd rfl hside
      | sell => rfl
    exact absurd hordered (not_lt.mpr hwrong)
  unfold resolveSameBar
  simp only [if_neg hlong, if_neg hshort]
  by_cases hstop : bracket.TouchedBy bar .stop
  · have hstop' := hstop
    by_cases htarget : bracket.TouchedBy bar .target
    · have htarget' := htarget
      rw [if_pos hstop, if_pos htarget, hstop', htarget']
    · have htarget' := Bool.eq_false_iff.mpr htarget
      rw [if_pos hstop, if_neg htarget, hstop', htarget']
      rfl
  · have hstop' := Bool.eq_false_iff.mpr hstop
    by_cases htarget : bracket.TouchedBy bar .target
    · have htarget' := htarget
      rw [if_neg hstop, if_pos htarget, hstop', htarget']
      rfl
    · have htarget' := Bool.eq_false_iff.mpr htarget
      rw [if_neg hstop, if_neg htarget, hstop', htarget']

theorem firstTouch_cons (first : ℚ) (path : List ℚ) :
    firstTouch side bracket.stop bracket.target (first :: path) =
      if bracket.Touches .stop first then some (.stop, bracket.stop)
      else if bracket.Touches .target first then some (.target, bracket.target)
      else firstTouch side bracket.stop bracket.target path := by
  cases side with
  | buy => simp [firstTouch, Touches]
  | sell => simp [firstTouch, Touches]

theorem firstTouch_eq_none_iff (path : List ℚ) :
    firstTouch side bracket.stop bracket.target path = none ↔
      ∀ price ∈ path, ∀ level, ¬ bracket.Touches level price := by
  induction path with
  | nil => simp [firstTouch]
  | cons first path ih =>
    rw [firstTouch_cons, List.forall_mem_cons, ← ih]
    by_cases hstop : bracket.Touches .stop first
    · rw [if_pos hstop]
      exact iff_of_false (by simp) fun h ↦ h.1 .stop hstop
    · rw [if_neg hstop]
      by_cases htarget : bracket.Touches .target first
      · rw [if_pos htarget]
        exact iff_of_false (by simp) fun h ↦ h.1 .target htarget
      · rw [if_neg htarget]
        refine (and_iff_right ?_).symm
        intro level
        cases level with
        | stop => exact hstop
        | target => exact htarget

theorem firstTouch_eq_some_iff (path : List ℚ) {first : Trigger × ℚ} :
    firstTouch side bracket.stop bracket.target path = some first ↔
      ∃ level, first = (level, bracket.price level) ∧ bracket.TouchesFirst path level := by
  induction path with
  | nil => simp [firstTouch, TouchesFirst]
  | cons price path ih =>
    have hcons (level : Trigger) (hnone : ∀ other, ¬ bracket.Touches other price) :
        bracket.TouchesFirst (price :: path) level ↔ bracket.TouchesFirst path level := by
      constructor
      · rintro ⟨before, found, after, hpath, hbefore, hfound, hstop⟩
        cases before with
        | nil => exact absurd ((List.cons.inj hpath).1 ▸ hfound) (hnone level)
        | cons head before =>
          exact ⟨before, found, after, (List.cons.inj hpath).2,
            fun earlier hmem ↦ hbefore earlier (List.mem_cons_of_mem _ hmem), hfound, hstop⟩
      · rintro ⟨before, found, after, rfl, hbefore, hfound, hstop⟩
        exact ⟨price :: before, found, after, rfl,
          List.forall_mem_cons.mpr ⟨hnone, hbefore⟩, hfound, hstop⟩
    have hhead (level : Trigger) (h : bracket.Touches level price) :
        bracket.TouchesFirst (price :: path) level ↔
          (level = .target → ¬ bracket.Touches .stop price) := by
      constructor
      · rintro ⟨before, found, after, hpath, hbefore, hfound, hstop⟩
        cases before with
        | nil => rwa [(List.cons.inj hpath).1]
        | cons head before =>
          exact absurd ((List.cons.inj hpath).1 ▸ h) (hbefore head List.mem_cons_self level)
      · exact fun hstop ↦ ⟨[], price, path, rfl, by simp, h, hstop⟩
    rw [firstTouch_cons]
    by_cases hstop : bracket.Touches .stop price
    · rw [if_pos hstop, Option.some.injEq]
      constructor
      · rintro rfl
        exact ⟨.stop, rfl, (hhead .stop hstop).mpr (by simp)⟩
      · rintro ⟨level, rfl, hfirst⟩
        cases level with
        | stop => rfl
        | target =>
          obtain ⟨before, found, after, hpath, hbefore, hfound, hnot⟩ := hfirst
          cases before with
          | nil => exact absurd ((List.cons.inj hpath).1 ▸ hstop) (hnot rfl)
          | cons head before =>
            exact absurd ((List.cons.inj hpath).1 ▸ hstop) (hbefore head List.mem_cons_self .stop)
    · rw [if_neg hstop]
      by_cases htarget : bracket.Touches .target price
      · rw [if_pos htarget, Option.some.injEq]
        constructor
        · rintro rfl
          exact ⟨.target, rfl, (hhead .target htarget).mpr fun _ ↦ hstop⟩
        · rintro ⟨level, rfl, hfirst⟩
          cases level with
          | target => rfl
          | stop =>
            obtain ⟨before, found, after, hpath, hbefore, hfound, -⟩ := hfirst
            cases before with
            | nil => exact absurd ((List.cons.inj hpath).1 ▸ hfound) hstop
            | cons head before =>
              exact absurd ((List.cons.inj hpath).1 ▸ htarget)
                (hbefore head List.mem_cons_self .target)
      · rw [if_neg htarget, ih]
        have hnone : ∀ other, ¬ bracket.Touches other price := by
          intro other
          cases other with
          | stop => exact hstop
          | target => exact htarget
        simp only [hcons _ hnone]

end Resolve

/-! ## Without a finer path -/

section Through

variable {bracket : Bracket side} {bar : Bar} {path : ℝ → ℝ} {exit : ℝ}

theorem noBetter_cast {price other : ℚ} (h : NoBetter side price other) :
    NoBetter side (price : ℝ) (other : ℝ) := by
  cases side with
  | buy => exact Rat.cast_le.mpr h
  | sell => exact Rat.cast_le.mpr h

theorem exit_eq_fill (hpath : PathThrough bar path) (h : ExitsAt bracket bar path exit) :
    ∃ level, bracket.TouchedBy bar level ∧ exit = bracket.fill bar level ∧
      (Reaches side level (bracket.price level) bar.openPrice ∨
        ∀ other, ¬ Reaches side other (bracket.price other) bar.openPrice) := by
  rcases h with ⟨⟨level, hreaches⟩, rfl⟩ | ⟨hnone, moment, hexits, rfl⟩
  · have hinside : bar.low ≤ bar.openPrice ∧ bar.openPrice ≤ bar.high := by
      have hopen := hpath.inside 0 ⟨le_rfl, zero_le_one⟩
      rw [hpath.opens] at hopen
      exact ⟨Rat.cast_le.mp hopen.1, Rat.cast_le.mp hopen.2⟩
    refine ⟨level, touchedBy_of_touches hinside (touches_of_reaches hreaches), ?_, .inl hreaches⟩
    rw [fill_of_reaches level hreaches]
  · have hlevel : ∃ level, path moment = bracket.price level := by
      rcases hexits.onLevel with hlower | hupper
      · cases side with
        | buy => exact ⟨.stop, hlower⟩
        | sell => exact ⟨.target, hlower⟩
      · cases side with
        | buy => exact ⟨.target, hupper⟩
        | sell => exact ⟨.stop, hupper⟩
    obtain ⟨level, hvalue⟩ := hlevel
    have hnot := not_exists.mp hnone
    have hinside : bar.low ≤ bracket.price level ∧ bracket.price level ≤ bar.high := by
      have hmoment := hpath.inside moment hexits.mem
      rw [hvalue] at hmoment
      exact ⟨Rat.cast_le.mp hmoment.1, Rat.cast_le.mp hmoment.2⟩
    have hself : Reaches side level (bracket.price level) (bracket.price level) := by
      cases level with
      | stop => exact noBetter_refl side _
      | target => exact noBetter_refl side _
    refine ⟨level, touchedBy_of_touches hinside (touches_of_reaches hself), ?_, .inr hnot⟩
    rw [hvalue, fill_of_not_reaches level (hnot level)]

theorem noBetter_fill_target
    (h : Reaches side .target bracket.target bar.openPrice ∨
      ∀ other, ¬ Reaches side other (bracket.price other) bar.openPrice) :
    NoBetter side (bracket.fill bar .stop) (bracket.fill bar .target) := by
  rcases h with htarget | hnone
  · rw [fill_of_not_reaches .stop (not_reaches_both htarget), fill_of_reaches .target htarget]
    exact noBetter_stop htarget
  · rw [fill_of_not_reaches .stop (hnone .stop), fill_of_not_reaches .target (hnone .target)]
    exact noBetter_stop (noBetter_refl side bracket.target)

end Through

/-! ## With a finer path -/

section Finer

variable {bracket : Bracket side} {bar : Bar} {path : List ℚ} {level : Trigger} {price : ℚ}

theorem touchedBy_of_touchesFirst (hfollows : Follows bar path)
    (h : bracket.TouchesFirst path level) : bracket.TouchedBy bar level := by
  obtain ⟨before, first, after, rfl, -, htouches, -⟩ := h
  exact touchedBy_of_touches (hfollows.2 first (by simp)) htouches

theorem exists_touchesFirst (h : bracket.ReachesFirst path level price) :
    ∃ other, bracket.TouchesFirst path other := by
  obtain ⟨before, after, hpath, -, hreaches⟩ := h
  cases hfirst : firstTouch side bracket.stop bracket.target path with
  | none =>
    refine absurd (touches_of_reaches hreaches) ?_
    exact (bracket.firstTouch_eq_none_iff path).mp hfirst price (by rw [hpath]; simp) level
  | some first =>
    obtain ⟨other, -, htouches⟩ := (bracket.firstTouch_eq_some_iff path).mp hfirst
    exact ⟨other, htouches⟩

section

variable (hfollows : Follows bar path)
include hfollows

theorem openPrice_of_reachesFirst (h : bracket.ReachesFirst path level price) :
    price = bar.openPrice ∨ ¬ Reaches side level (bracket.price level) bar.openPrice := by
  obtain ⟨before, after, rfl, hbefore, -⟩ := h
  have hopen := hfollows.1
  cases before with
  | nil => exact .inl (Option.some.inj hopen)
  | cons head before =>
    right
    rw [← show head = bar.openPrice from Option.some.inj hopen]
    exact hbefore head List.mem_cons_self level

theorem noBetter_fill_of_reachesFirst (h : bracket.ReachesFirst path .target price) :
    NoBetter side (bracket.fill bar .target) price := by
  have hreaches := h.choose_spec.choose_spec.2.2
  rcases openPrice_of_reachesFirst hfollows h with rfl | hnot
  · rw [fill_of_reaches .target hreaches]
    exact noBetter_refl side _
  · rw [fill_of_not_reaches .target hnot]
    exact hreaches

/-- The stop fills no better than the first price of the path at the stop exactly when this price is
the stop or the open. -/
theorem noBetter_fill_stop_iff (h : bracket.ReachesFirst path .stop price) :
    NoBetter side (bracket.fill bar .stop) price ↔
      price = bracket.stop ∨ price = bar.openPrice := by
  have hreaches := h.choose_spec.choose_spec.2.2
  constructor
  · intro hfill
    rcases openPrice_of_reachesFirst hfollows h with hopen | hnot
    · exact .inr hopen
    · rw [fill_of_not_reaches .stop hnot] at hfill
      exact .inl (noBetter_antisymm hreaches hfill)
  · rintro (rfl | rfl)
    · exact noBetter_fill_stop bracket bar
    · rw [fill_of_reaches .stop hreaches]
      exact noBetter_refl side _

theorem flatters_one_iff (hlevel : bracket.TouchedBy bar level)
    (hother : ∀ other, other ≠ level → ¬ bracket.TouchedBy bar other) :
    (∃ first, bracket.ReachesFirst path level first ∧
      NoBetter side (bracket.fill bar level) first) ↔ bracket.ComesTo bar path := by
  have honly {other : Trigger} (h : bracket.TouchedBy bar other) : other = level := by
    by_contra hne
    exact hother other hne h
  constructor
  · rintro ⟨first, hreaches, hfill⟩
    obtain ⟨touched, htouches⟩ := exists_touchesFirst hreaches
    obtain rfl := honly (touchedBy_of_touchesFirst hfollows htouches)
    refine ⟨touched, first, htouches, hreaches, ?_⟩
    rintro rfl
    have hnone := hother .target (by simp)
    exact ((noBetter_fill_stop_iff hfollows hreaches).mp hfill).imp_right fun hopen ↦ ⟨hopen, hnone⟩
  · rintro ⟨other, first, htouches, hreaches, hexact⟩
    obtain rfl := honly (touchedBy_of_touchesFirst hfollows htouches)
    refine ⟨first, hreaches, ?_⟩
    cases other with
    | stop =>
      refine (noBetter_fill_stop_iff hfollows hreaches).mpr ?_
      exact (hexact rfl).imp_right fun hopen ↦ hopen.1
    | target => exact noBetter_fill_of_reachesFirst hfollows hreaches

end

theorem flatters_both_iff (htarget : bracket.TouchedBy bar .target)
    (htouches : bracket.TouchesFirst path level) :
    (∃ first, bracket.ReachesFirst path level first ∧ NoBetter side (bracket.price level) first) ↔
      bracket.ComesTo bar path := by
  have hsame {other : Trigger} (h : bracket.TouchesFirst path other) : other = level := by
    have hfirst := (bracket.firstTouch_eq_some_iff path).mpr ⟨level, rfl, htouches⟩
    rw [(bracket.firstTouch_eq_some_iff path).mpr ⟨other, rfl, h⟩] at hfirst
    exact (Prod.mk.inj (Option.some.inj hfirst)).1
  constructor
  · rintro ⟨first, hreaches, hprice⟩
    refine ⟨level, first, htouches, hreaches, ?_⟩
    rintro rfl
    exact .inl (noBetter_antisymm hreaches.choose_spec.choose_spec.2.2 hprice)
  · rintro ⟨other, first, hother, hreaches, hexact⟩
    obtain rfl := hsame hother
    refine ⟨first, hreaches, ?_⟩
    cases other with
    | stop =>
      rcases hexact rfl with rfl | ⟨-, hnone⟩
      · exact noBetter_refl side _
      · exact absurd htarget hnone
    | target => exact hreaches.choose_spec.choose_spec.2.2

theorem not_comesTo_of_untouched (h : firstTouch side bracket.stop bracket.target path = none) :
    ¬ bracket.ComesTo bar path := by
  rintro ⟨other, first, htouches, -, -⟩
  have hfirst := (bracket.firstTouch_eq_some_iff path).mpr ⟨other, rfl, htouches⟩
  exact absurd (h.symm.trans hfirst) (by simp)

theorem flatters_path_iff (hfollows : Follows bar path) (policy : AmbiguityPolicy)
    {outcome : BarPathOutcome}
    (houtcome : outcome =
      if bracket.TouchedBy bar .stop then
        if bracket.TouchedBy bar .target then
          resolveBoth bar side bracket.stop bracket.target (some path) policy
        else stopTouched (bracket.fill bar .stop)
      else if bracket.TouchedBy bar .target then targetTouched (bracket.fill bar .target)
      else neitherTouched) :
    (∀ level price, outcome.triggered = some level → outcome.triggerPrice = some price →
        ∃ first, bracket.ReachesFirst path level first ∧ NoBetter side price first) ↔
      bracket.NothingTriggers bar path policy ∨ bracket.ComesTo bar path := by
  by_cases hstop : bracket.TouchedBy bar .stop
  · have hsomething : ¬ ∀ level, ¬ bracket.TouchedBy bar level := fun hnone ↦ hnone .stop hstop
    by_cases htarget : bracket.TouchedBy bar .target
    · simp only [if_pos hstop, if_pos htarget, resolveBoth, Option.getD_some] at houtcome
      have hboth : ∀ level, bracket.TouchedBy bar level := by
        intro level
        cases level with
        | stop => exact hstop
        | target => exact htarget
      cases hfirst : firstTouch side bracket.stop bracket.target path with
      | none =>
        have huntouched := (bracket.firstTouch_eq_none_iff path).mp hfirst
        rw [hfirst] at houtcome
        cases policy with
        | markAmbiguous =>
          refine iff_of_true ?_ (.inl (.inr ⟨hboth, huntouched, rfl⟩))
          intro level price htriggered
          exact absurd htriggered (by simp [houtcome, unresolved])
        | conservative =>
          refine iff_of_false ?_ ?_
          · intro hall
            obtain ⟨first, hreaches, -⟩ :=
              hall .stop _ (by rw [houtcome]; rfl) (by rw [houtcome]; rfl)
            obtain ⟨other, htouches⟩ := exists_touchesFirst hreaches
            obtain ⟨before, price, after, rfl, -, hprice, -⟩ := htouches
            exact huntouched price (by simp) other hprice
          · rintro ((hnone | ⟨-, -, hpolicy⟩) | hcomes)
            · exact hsomething hnone
            · exact absurd hpolicy (by simp)
            · exact not_comesTo_of_untouched hfirst hcomes
      | some first =>
        obtain ⟨level, rfl, htouches⟩ := (bracket.firstTouch_eq_some_iff path).mp hfirst
        rw [hfirst] at houtcome
        have hnothing : ¬ bracket.NothingTriggers bar path policy := by
          rintro (hnone | ⟨-, huntouched, -⟩)
          · exact hsomething hnone
          · rw [(bracket.firstTouch_eq_none_iff path).mpr huntouched] at hfirst
            exact absurd hfirst (by simp)
        rw [or_iff_right hnothing, ← flatters_both_iff htarget htouches, houtcome]
        simp [settledByPath]
    · rw [if_pos hstop, if_neg htarget] at houtcome
      have hnothing : ¬ bracket.NothingTriggers bar path policy := by
        rintro (hnone | ⟨hboth, -⟩)
        · exact hsomething hnone
        · exact htarget (hboth .target)
      have honly : ∀ other, other ≠ .stop → ¬ bracket.TouchedBy bar other := by
        intro other hne
        cases other with
        | stop => exact absurd rfl hne
        | target => exact htarget
      rw [or_iff_right hnothing, ← flatters_one_iff hfollows hstop honly, houtcome]
      simp [stopTouched]
  · by_cases htarget : bracket.TouchedBy bar .target
    · rw [if_neg hstop, if_pos htarget] at houtcome
      have hnothing : ¬ bracket.NothingTriggers bar path policy := by
        rintro (hnone | ⟨hboth, -⟩)
        · exact hnone .target htarget
        · exact hstop (hboth .stop)
      have honly : ∀ other, other ≠ .target → ¬ bracket.TouchedBy bar other := by
        intro other hne
        cases other with
        | stop => exact hstop
        | target => exact absurd rfl hne
      rw [or_iff_right hnothing, ← flatters_one_iff hfollows htarget honly, houtcome]
      simp [targetTouched]
    · rw [if_neg hstop, if_neg htarget] at houtcome
      refine iff_of_true ?_ (.inl (.inl ?_))
      · intro level price htriggered
        exact absurd htriggered (by simp [houtcome, neitherTouched])
      · intro level
        cases level with
        | stop => exact hstop
        | target => exact htarget

end Finer

/-! ## When a resolution does not flatter -/

/-- A resolution does not flatter exactly when the finer path, where there is one, settles what the
bar leaves open. -/
theorem neverFlatters_iff_settles (bracket : Bracket side) (bar : Bar)
    (intrabar : Option (List ℚ)) (policy : AmbiguityPolicy) :
    NeverFlatters bracket bar intrabar policy ↔ Settles bracket bar intrabar policy := by
  rw [NeverFlatters, Settles, resolveSameBar_eq]
  simp only [Except.ok.injEq, forall_eq']
  by_cases hgiven : intrabar.getD [] = []
  · -- the bar alone
    refine iff_of_true ?_ fun hne ↦ absurd hgiven hne
    intro level price htriggered hprice
    refine ⟨fun _ path hpath exit hexit ↦ ?_, fun hne ↦ absurd hgiven hne⟩
    obtain ⟨reached, hreached, rfl, hopen⟩ := exit_eq_fill hpath hexit
    apply noBetter_cast
    have hstopFill : NoBetter side (bracket.fill bar .stop) (bracket.fill bar reached) := by
      cases reached with
      | stop => exact noBetter_refl side _
      | target => exact noBetter_fill_target hopen
    by_cases hstop : bracket.TouchedBy bar .stop
    · by_cases htarget : bracket.TouchedBy bar .target
      · have hnone : firstTouch side bracket.stop bracket.target [] = none := rfl
        simp only [if_pos hstop, if_pos htarget, resolveBoth, hgiven, hnone] at htriggered hprice
        cases policy with
        | markAmbiguous => exact absurd htriggered (by simp [unresolved])
        | conservative =>
          cases hprice
          exact hstopFill
      · simp only [if_pos hstop, if_neg htarget] at hprice
        cases hprice
        exact hstopFill
    · by_cases htarget : bracket.TouchedBy bar .target
      · simp only [if_neg hstop, if_pos htarget] at hprice
        cases hprice
        cases reached with
        | stop => exact absurd hreached hstop
        | target => exact noBetter_refl side _
      · simp only [if_neg hstop, if_neg htarget] at hprice
        exact absurd hprice (by simp [neitherTouched])
  · by_cases hfollows : Follows bar (intrabar.getD [])
    · have hsame : resolveBoth bar side bracket.stop bracket.target intrabar policy =
          resolveBoth bar side bracket.stop bracket.target (some (intrabar.getD [])) policy := rfl
      simp only [hgiven, hfollows, ne_eq, not_false_eq_true, true_implies, false_implies, true_and]
      exact flatters_path_iff hfollows policy rfl
    · refine iff_of_true ?_ fun _ hpath ↦ absurd hpath hfollows
      intro level price _ _
      exact ⟨fun hnil ↦ absurd hnil hgiven, fun _ hpath ↦ absurd hpath hfollows⟩

end Bracket

/-! ## A path that jumps over the stop -/

def wideBar : Bar where
  openPrice := 10
  high := 11
  low := 9
  closePrice := 9
  ordered := by norm_num
  openInside := by norm_num [touchTolerance]
  closeInside := by norm_num [touchTolerance]

/-- A long position with its stop and its target inside the bar. -/
def longBracket : Bracket .buy where
  stop := 19 / 2
  target := 21 / 2
  ordered := by norm_num

/-- The path falls from ten to nine, and the stop fills at nine and a half. -/
theorem not_neverFlatters_jump :
    ¬ Bracket.NeverFlatters longBracket wideBar (some [10, 9]) .conservative := by
  intro hnever
  have hstop : longBracket.TouchedBy wideBar .stop := by decide +kernel
  have htarget : longBracket.TouchedBy wideBar .target := by decide +kernel
  have houtcome : resolveSameBar wideBar .buy longBracket.stop longBracket.target (some [10, 9])
      .conservative = .ok (settledByPath (.stop, longBracket.stop)) := by
    have hfirst : firstTouch .buy longBracket.stop longBracket.target [10, 9] =
        some (.stop, longBracket.stop) := by decide +kernel
    rw [Bracket.resolveSameBar_eq, if_pos hstop, if_pos htarget, resolveBoth, Option.getD_some,
      hfirst]
  have hfollows : Bracket.Follows wideBar [10, 9] := by
    refine ⟨rfl, ?_⟩
    intro price hmem
    rcases List.mem_pair.mp hmem with rfl | rfl
    · exact ⟨by norm_num [wideBar], by norm_num [wideBar]⟩
    · exact ⟨by norm_num [wideBar], by norm_num [wideBar]⟩
  obtain ⟨first, ⟨before, after, hpath, -, hreaches⟩, hprice⟩ :=
    (hnever _ houtcome .stop longBracket.stop rfl rfl).2 (by simp) hfollows
  have hmem : first ∈ [(10 : ℚ), 9] := by
    rw [show ([10, 9] : List ℚ) = before ++ first :: after from hpath]
    simp
  have hexact : first = 19 / 2 := le_antisymm hreaches hprice
  rcases List.mem_pair.mp hmem with rfl | rfl
  · norm_num at hexact
  · norm_num at hexact

end QuantAgent.Streaming
