import QuantAgent.Library.Decimal
import QuantAgent.MarketRules.Ashare

/-!
# A platform to evaluate the rules on

Library functions that agree with the ones of the source on plain ISO dates, on unsigned decimal
integers, on squares and on numbers with at most two decimals.
-/

namespace QuantAgent.MarketRules

open Library

namespace Reference

/-- The number that a run of decimal digits stands for. -/
def readDigits (chars : List Char) : Option ℕ :=
  if !chars.isEmpty && chars.all Char.isDigit then some (ofDecimal chars) else none

def daysIn (year month : ℕ) : ℕ :=
  if month = 2 then if year % 4 = 0 && (year % 100 ≠ 0 || year % 400 = 0) then 29 else 28
  else if month ∈ [4, 6, 9, 11] then 30 else 31

/-- A date of the form `YYYY-MM-DD`. -/
def readIsoDate (text : String) : Option Date :=
  match text.toList.splitOn '-' with
  | [year, month, day] =>
    match readDigits year, readDigits month, readDigits day with
    | some y, some m, some d =>
      if year.length = 4 && month.length = 2 && day.length = 2 && 1 ≤ m && m ≤ 12 && 1 ≤ d &&
          d ≤ daysIn y m then some ⟨y, m, d⟩ else none
    | _, _, _ => none
  | _ => none

def rootOf (x : ℚ) : ℚ := x.num.toNat.sqrt / x.den.sqrt

def cents (x : ℚ) : String :=
  let hundredths := roundHalfEven (x * 100)
  let below := hundredths.natAbs % 100
  (if hundredths < 0 then "-" else "") ++ toString (hundredths.natAbs / 100) ++ "." ++
    (if below < 10 then "0" else "") ++ toString below

end Reference

open Reference in
instance : Platform where
  readDate := readIsoDate
  readInt text := (readDigits text.toList).map Int.ofNat
  sqrt := rootOf
  showPlain x := if x.den = 1 then toString x.num ++ ".0" else cents x
  showGeneral x := if x.den = 1 then toString x.num else cents x
  showWhole x := toString (roundHalfEven x)
  showCents := cents

example : asDate "2026-01-05T10:00" = some ⟨2026, 1, 5⟩ := by decide

end QuantAgent.MarketRules
