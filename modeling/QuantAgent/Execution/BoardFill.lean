import Mathlib.Data.List.Sort
import QuantAgent.QuantMath.Ashare

/-!
# Chasing the board

The minute bars of a day are summed up in the first seal of the board, the first break after it and
the number of breaks.  A buy order that queues at the board is filled by the first break, and by no
later one: a board that broke before the order, sealed again and broke behind it fills nobody.
-/

namespace QuantAgent.Execution

open Library QuantMath

def priceTick : ℚ := 1 / 100

/-- `text.zfill(width)`: zeros stand behind a sign. -/
def zfill (width : ℕ) (text : List Char) : List Char :=
  let zeros := List.replicate (width - text.length) '0'
  match text with
  | '+' :: rest => '+' :: (zeros ++ rest)
  | '-' :: rest => '-' :: (zeros ++ rest)
  | _ => zeros ++ text

def limitUpPct (symbol : String) (isSt : Bool) : ℚ :=
  let s := zfill 6 (symbol.toList.takeWhile (· ≠ '.'))
  if startsWith s ["30", "68"] then 1 / 5
  else if startsWith s ["82", "83", "87", "88", "43", "92"] then 3 / 10
  else if isSt then 1 / 20
  else 1 / 10

def limitUpPrice (prevClose : ℚ) (symbol : String) (isSt : Bool) : ℚ :=
  roundCents (prevClose * (1 + limitUpPct symbol isSt))

/-- A row of the frame; a cell that holds no finite number is `none`. -/
structure BarRow where
  high : Option ℚ
  low : Option ℚ
  close : Option ℚ
  volume : Option ℚ
  tradeTime : String

/-- The frame of a day; it may come without times. -/
structure BarFrame where
  rows : List BarRow
  timed : Bool

structure MinuteBar where
  high : ℚ
  low : ℚ
  close : ℚ
  volume : Option ℚ
  time : String

/-- `text.split(" ")[-1]`. -/
def lastWord (text : String) : String :=
  String.ofList (text.toList.reverse.takeWhile (· ≠ ' ')).reverse

def BarFrame.read (frame : BarFrame) (row : BarRow) : Option MinuteBar := do
  let high ← row.high
  let low ← row.low
  let close ← row.close
  return ⟨high, low, close, row.volume, if frame.timed then lastWord row.tradeTime else ""⟩

def BarFrame.bars (frame : BarFrame) : List MinuteBar :=
  (if frame.timed then frame.rows.insertionSort fun row later ↦ row.tradeTime ≤ later.tradeTime
    else frame.rows).filterMap frame.read

structure BoardDayState where
  limitPrice : ℚ
  touched : Bool
  firstTouchTime : Option String
  firstSealTime : Option String
  brokeAfterSeal : Bool
  firstBreakTime : Option String
  nBreaks : ℕ
  closedSealed : Bool
  volumeAtLimitAfter : ℚ

namespace MinuteBar

variable (lim : ℚ) (bar : MinuteBar)

def touches : Bool := lim - priceTick / 2 ≤ bar.high

def closesAtLimit : Bool := lim - priceTick / 2 ≤ bar.close

def seals : Bool := bar.touches lim && bar.closesAtLimit lim

def below : Bool := bar.low < lim - priceTick / 2

end MinuteBar

/-- One flag of the loop over the bars after the seal: the breaks so far and the flag before. -/
def countBreak (seen : ℕ × Bool) (flag : Bool) : ℕ × Bool :=
  (if flag && !seen.2 then seen.1 + 1 else seen.1, flag)

def detectBoardDay (frame : BarFrame) (prevClose : ℚ) (symbol : String) (isSt : Bool) :
    Option BoardDayState :=
  if frame.rows = [] ∨ prevClose ≤ 0 then none
  else
    let lim := limitUpPrice prevClose symbol isSt
    match frame.bars.getLast? with
    | none => none
    | some last =>
      let closed := last.closesAtLimit lim
      match frame.bars.find? (·.touches lim) with
      | none => some ⟨lim, false, none, none, false, none, 0, false, 0⟩
      | some touch =>
        match frame.bars.dropWhile (!·.seals lim) with
        | [] => some ⟨lim, true, some touch.time, none, false, none, 0, closed, 0⟩
        | board :: after =>
          let breaking := after.filter (·.below lim)
          some {
            limitPrice := lim
            touched := true
            firstTouchTime := some touch.time
            firstSealTime := some board.time
            brokeAfterSeal := !breaking.isEmpty
            firstBreakTime := breaking.head?.map (·.time)
            nBreaks := ((after.map (·.below lim)).foldl countBreak (0, false)).1
            closedSealed := closed
            volumeAtLimitAfter :=
              ((after.filter (!·.below lim)).map fun bar ↦ bar.volume.getD 0).sum }

structure BoardFillResult where
  filled : Bool
  fillPrice : Option ℚ
  fillTime : Option String
  reason : String
  closedSealed : Bool

/-- `order_time or first_seal_time`. -/
def queuedAt (orderTime : Option String) (firstSealTime : String) : String :=
  match orderTime with
  | none => firstSealTime
  | some time => if time = "" then firstSealTime else time

def boardChaseFill (state : Option BoardDayState) (orderTime : Option String)
    (fillOnSealProb : ℚ) : BoardFillResult :=
  match state with
  | none => ⟨false, none, none, "not_touched", false⟩
  | some state =>
    if !state.touched then ⟨false, none, none, "not_touched", false⟩
    else
      match state.firstSealTime with
      | none => ⟨false, none, none, "no_seal", state.closedSealed⟩
      | some firstSealTime =>
        match state.firstBreakTime.filter fun time ↦
          state.brokeAfterSeal && queuedAt orderTime firstSealTime ≤ time with
        | some time =>
          ⟨true, some state.limitPrice, some time, "filled_on_break", state.closedSealed⟩
        | none =>
          if 0 < fillOnSealProb then
            ⟨false, some state.limitPrice, none, "unfilled_sealed_prob_path", state.closedSealed⟩
          else ⟨false, none, none, "unfilled_sealed", state.closedSealed⟩

/-- A day of bars with finite consistent prices, in the order of their times. -/
structure BoardDay where
  bars : List MinuteBar
  consistent : ∀ bar ∈ bars, bar.low ≤ bar.close ∧ bar.close ≤ bar.high
  ordered : bars.Pairwise fun bar later ↦ bar.time < later.time
  plain : ∀ bar ∈ bars, ' ' ∉ bar.time.toList
  prevClose : ℚ
  prevClose_pos : 0 < prevClose
  symbol : String
  isSt : Bool

namespace BoardDay

variable (day : BoardDay) (orderTime : Option String)

def frame : BarFrame where
  rows := day.bars.map fun bar ↦ ⟨some bar.high, some bar.low, some bar.close, bar.volume, bar.time⟩
  timed := true

def lim : ℚ := limitUpPrice day.prevClose day.symbol day.isSt

def state : Option BoardDayState := detectBoardDay day.frame day.prevClose day.symbol day.isSt

/-- What becomes of an order that is never filled while the seal holds. -/
def fill : BoardFillResult := boardChaseFill day.state orderTime 0

def fromSeal : List MinuteBar := day.bars.dropWhile (!·.seals day.lim)

/-- The bars after the first sealed one that trade below the limit. -/
def breaking : List MinuteBar := day.fromSeal.tail.filter (·.below day.lim)

/-- The time of the order, by default that of the first seal. -/
def queued : String := queuedAt orderTime ((day.fromSeal.head?.map (·.time)).getD "")

end BoardDay

/-- The maximal runs of raised flags; a run is counted at its last flag. -/
def runs : List Bool → ℕ
  | [] => 0
  | flag :: rest => runs rest + if flag && rest.head? ≠ some true then 1 else 0

/-- The order is filled exactly by the first break that is not before it, and every run of breaks is
counted. -/
structure FillsOnBreak (day : BoardDay) (orderTime : Option String) : Prop where
  filled_iff : (day.fill orderTime).filled ↔
    ∃ bar ∈ day.breaking, day.queued orderTime ≤ bar.time
  first : ∀ bar, day.breaking.find? (day.queued orderTime ≤ ·.time) = some bar →
    (day.fill orderTime).fillPrice = some day.lim ∧
      (day.fill orderTime).fillTime = some bar.time
  counted : ∀ state, day.state = some state →
    state.nBreaks = runs (day.fromSeal.tail.map (·.below day.lim))

theorem foldl_countBreak (flags : List Bool) (seen : ℕ × Bool) :
    (flags.foldl countBreak seen).1 + (if seen.2 && flags.head? = some true then 1 else 0) =
      seen.1 + runs flags := by
  induction flags generalizing seen with
  | nil => simp [runs]
  | cons flag rest ih =>
    have hrest := ih (countBreak seen flag)
    rw [List.foldl_cons]
    cases flag with
    | false => simpa [countBreak, runs] using hrest
    | true =>
      by_cases hnext : rest.head? = some true <;> cases hseen : seen.2 <;>
        simp [countBreak, runs, hnext, hseen] at hrest ⊢ <;> omega

namespace BoardDay

variable (day : BoardDay) {orderTime : Option String}

theorem bars_frame : day.frame.bars = day.bars := by
  have hsorted : day.frame.rows.insertionSort (fun row later ↦ row.tradeTime ≤ later.tradeTime) =
      day.frame.rows := by
    refine List.Pairwise.insertionSort_eq (List.pairwise_map.mpr ?_)
    exact day.ordered.imp fun h ↦ h.le
  have hread : ∀ bar ∈ day.bars, day.frame.read
      ⟨some bar.high, some bar.low, some bar.close, bar.volume, bar.time⟩ = some bar := by
    intro bar hbar
    have hword : lastWord bar.time = bar.time := by
      rw [lastWord, List.takeWhile_eq_self_iff.mpr, List.reverse_reverse, String.ofList_toList]
      intro c hc
      have hne : c ≠ ' ' := fun hblank ↦ day.plain bar hbar (hblank ▸ List.mem_reverse.mp hc)
      exact decide_eq_true hne
    simp [BarFrame.read, frame, hword]
  calc day.frame.bars
      = day.frame.rows.filterMap day.frame.read := congrArg (List.filterMap _) hsorted
    _ = day.bars.filterMap some := by
        rw [frame, List.filterMap_map]
        exact List.filterMap_congr hread
    _ = day.bars := List.filterMap_some

theorem state_of_unsealed (h : day.fromSeal = []) {state : BoardDayState}
    (hstate : day.state = some state) : state.firstSealTime = none ∧ state.nBreaks = 0 := by
  rw [fromSeal, lim] at h
  simp only [BoardDay.state, detectBoardDay, bars_frame, h] at hstate
  split at hstate
  · cases hstate
  · split at hstate
    · cases hstate
    · split at hstate <;> cases hstate <;> exact ⟨rfl, rfl⟩

theorem state_of_sealed {board : MinuteBar} {after : List MinuteBar}
    (h : day.fromSeal = board :: after) :
    ∃ touchTime closed volume, day.state = some ⟨day.lim, true, touchTime, some board.time,
      !day.breaking.isEmpty, day.breaking.head?.map (·.time), runs (after.map (·.below day.lim)),
      closed, volume⟩ := by
  have hbreaking : day.breaking = after.filter (·.below day.lim) := by
    rw [breaking, h, List.tail_cons]
  have hruns := foldl_countBreak (after.map (·.below day.lim)) (0, false)
  simp only [Bool.false_and, Bool.false_eq_true, if_false, Nat.add_zero, Nat.zero_add] at hruns
  have hboard : board ∈ day.bars := (List.dropWhile_sublist _).subset (h ▸ List.mem_cons_self)
  have hseals : board.seals day.lim = true := by
    have hhead := List.head?_dropWhile_not (fun bar : MinuteBar ↦ !bar.seals day.lim) day.bars
    rw [← fromSeal, h] at hhead
    simpa using hhead
  obtain ⟨touch, htouch⟩ : ∃ touch, day.bars.find? (·.touches day.lim) = some touch := by
    refine Option.isSome_iff_exists.mp (List.find?_isSome.mpr ⟨board, hboard, ?_⟩)
    exact (Bool.and_eq_true_iff.mp hseals).1
  obtain ⟨last, hlast⟩ : ∃ last, day.bars.getLast? = some last :=
    ⟨_, List.getLast?_eq_some_getLast (List.ne_nil_of_mem hboard)⟩
  refine ⟨some touch.time, last.closesAtLimit day.lim,
    ((after.filter (!·.below day.lim)).map fun bar ↦ bar.volume.getD 0).sum, ?_⟩
  rw [fromSeal] at h
  rw [hbreaking, ← hruns]
  unfold lim at *
  simp only [BoardDay.state, detectBoardDay, bars_frame, h, hlast, htouch]
  rw [if_neg]
  rintro (hempty | hprice)
  · exact List.ne_nil_of_mem hboard (List.map_eq_nil_iff.mp hempty)
  · exact not_lt.mpr hprice day.prevClose_pos

theorem fill_of_nil (h : day.breaking = []) : (day.fill orderTime).filled = false := by
  cases hseal : day.fromSeal with
  | nil =>
    cases hstate : day.state with
    | none => rw [fill, hstate, boardChaseFill]
    | some state =>
      rw [fill, hstate, boardChaseFill, (day.state_of_unsealed hseal hstate).1]
      cases state.touched <;> rfl
  | cons board after =>
    obtain ⟨touchTime, closed, volume, hstate⟩ := day.state_of_sealed hseal
    rw [fill, hstate, h]
    rfl

/-- The first break alone decides on the fill. -/
theorem fill_of_cons (orderTime : Option String) {bar : MinuteBar} {rest : List MinuteBar}
    (h : day.breaking = bar :: rest) :
    ((day.fill orderTime).filled ↔ day.queued orderTime ≤ bar.time) ∧
      (day.queued orderTime ≤ bar.time →
        (day.fill orderTime).fillPrice = some day.lim ∧
          (day.fill orderTime).fillTime = some bar.time) := by
  cases hseal : day.fromSeal with
  | nil => simp [breaking, hseal] at h
  | cons board after =>
    obtain ⟨touchTime, closed, volume, hstate⟩ := day.state_of_sealed hseal
    have hqueued : day.queued orderTime = queuedAt orderTime board.time := by
      rw [queued, hseal]
      rfl
    rw [fill, hstate, h, hqueued]
    by_cases hlate : queuedAt orderTime board.time ≤ bar.time <;>
      simp [boardChaseFill, Option.filter, hlate]

theorem state_counted {state : BoardDayState} (hstate : day.state = some state) :
    state.nBreaks = runs (day.fromSeal.tail.map (·.below day.lim)) := by
  cases hseal : day.fromSeal with
  | nil => exact (day.state_of_unsealed hseal hstate).2
  | cons board after =>
    obtain ⟨touchTime, closed, volume, hsealed⟩ := day.state_of_sealed hseal
    cases hsealed.symm.trans hstate
    rfl

/-- No break comes before the first one. -/
theorem le_of_mem_breaking {bar other : MinuteBar} {rest : List MinuteBar}
    (h : day.breaking = bar :: rest) (hother : other ∈ day.breaking) : bar.time ≤ other.time := by
  have hordered : day.breaking.Pairwise fun bar later ↦ bar.time < later.time :=
    day.ordered.sublist
      (List.filter_sublist.trans ((List.tail_sublist _).trans (List.dropWhile_sublist _)))
  rw [h] at hother hordered
  rcases List.mem_cons.mp hother with rfl | hlater
  · exact le_refl _
  · exact ((List.pairwise_cons.mp hordered).1 other hlater).le

end BoardDay

/-- The board is sealed at 11.00, breaks, is sealed again and breaks again. -/
def reopenedDay : BoardDay where
  bars := [⟨11, 10, 11, none, "09:31:00"⟩, ⟨11, 10, 10, none, "09:32:00"⟩,
    ⟨11, 11, 11, none, "09:33:00"⟩, ⟨11, 10, 10, none, "09:35:00"⟩]
  consistent := by decide +kernel
  ordered := by decide +kernel
  plain := by decide +kernel
  prevClose := 10
  prevClose_pos := by decide +kernel
  symbol := "600000.SH"
  isSt := false

end QuantAgent.Execution
