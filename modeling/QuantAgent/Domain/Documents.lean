import QuantAgent.Domain.PyNumber
import QuantAgent.Library.JsonKeys

/-!
# Decoded documents

What the language makes of a decoded JSON value: its truth value, its string, its integer, and
equality.  Of strings and integers of other values nothing is assumed.
-/

namespace QuantAgent.Domain

open Library

/-- The builtins applied to decoded values. -/
class Documents (N : Type) extends Number N where
  /-- `str(value)`. -/
  str : Json N → String
  /-- `int(value)`; `none` is a raised error. -/
  int : Json N → Option ℤ
  /-- `left == right`. -/
  same : Json N → Json N → Bool
  str_str : ∀ text, str (.str text) = text
  same_refl : ∀ value : Json N, value.Plain → value.Distinct → same value value = true

variable {N : Type}

/-- `bool(value)`. -/
def Json.truthy [Number N] : Json N → Bool
  | .null => false
  | .bool value => value
  | .num value => Number.truthy value
  | .str text => text ≠ ""
  | .arr items => !items.isEmpty
  | .obj members => !members.isEmpty
  | .foreign _ => true

/-- `str(payload.get(key) or "")`. -/
def Json.textOr [Documents N] (value : Option (Json N)) : String :=
  match value with
  | some value => if Json.truthy value then Documents.str value else ""
  | none => ""

@[simp]
theorem Json.textOr_str [Documents N] (text : String) :
    Json.textOr (some (.str text : Json N)) = text := by
  by_cases h : text = ""
  · simp [Json.textOr, Json.truthy, h]
  · simp [Json.textOr, Json.truthy, h, Documents.str_str]

/-- A caller's mapping of decoded values, none of which repeats a key. -/
structure Mapping (N : Type) where
  members : Dict String (Json N)
  distinct : ∀ member ∈ members.entries, member.2.Distinct

/-- `{}`. -/
def Mapping.empty : Mapping N where
  members := .empty
  distinct := by simp [Dict.empty]

/-- Strings, numbers and truth values as they are printed; containers are shown in their JSON form,
and equality does not look across the kinds of numbers. -/
instance : Documents PyNumber where
  str
    | .str text => text
    | .null => "None"
    | .bool true => "True"
    | .bool false => "False"
    | value => String.ofList value.text
  int
    | .num (.int value) => some value
    | .num (.float token) => some (truncate token.value)
    | .bool value => some (if value then 1 else 0)
    | .str text =>
      if text.toList ≠ [] ∧ text.toList.all Char.isDigit then some (ofDecimal text.toList)
      else none
    | _ => none
  same left right := left.text = right.text
  str_str _ := rfl
  same_refl _ _ _ := by simp

end QuantAgent.Domain
