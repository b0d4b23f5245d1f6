import QuantAgent.Domain.Documents

/-!
# Broker adapters

Orders and order states as a broker adapter sees them, and what the language makes of the values a
broker package hands over: its rows carry attributes that may be missing and need not be numbers.
-/

namespace QuantAgent.Execution

open Library Domain

inductive OrderSide where
  | buy
  | sell
  deriving DecidableEq, Repr

inductive OrderType where
  | limit
  | market
  deriving DecidableEq, Repr

inductive OrderStatus where
  | pending
  | submitted
  | partlyFilled
  | filled
  | cancelled
  | rejected
  deriving DecidableEq, Repr

/-- `_TERMINAL`. -/
def OrderStatus.terminal : OrderStatus → Bool
  | .filled => true
  | .cancelled => true
  | .rejected => true
  | _ => false

structure Order (N : Type) where
  clientOrderId : String
  symbol : String
  side : OrderSide
  quantity : ℤ
  orderType : OrderType
  price : Option N
  riskCheckResult : String
  deriving DecidableEq

structure OrderState (N : Type) where
  clientOrderId : String
  brokerOrderId : Option String
  status : OrderStatus
  filledQuantity : ℤ
  avgPrice : N
  lastMessage : String
  deriving DecidableEq

/-- What `int(value)` or `float(value)` does. -/
inductive Conversion (α : Type) where
  | value (result : α)
  /-- `TypeError` or `ValueError`. -/
  | refused
  /-- Any other error. -/
  | failed

class BrokerValue (V : Type) (N : outParam Type) where
  /-- `bool(value)`. -/
  truthy : V → Bool
  /-- `str(value)`. -/
  str : V → String
  /-- `int(value)`. -/
  int : V → Conversion ℤ
  /-- `float(value)`. -/
  float : V → Conversion N
  /-- `left == right`. -/
  same : V → V → Bool
  /-- `math.isfinite(float(price)) and float(price) > 0`. -/
  usablePrice : N → Bool
  /-- `0.0`. -/
  zero : N
  /-- A text the package hands over. -/
  text : String → V
  truthy_text : ∀ content, truthy (text content) = decide (content ≠ "")
  str_text : ∀ content, str (text content) = content

/-- The builtins applied to texts. -/
class PyText where
  /-- `text.strip().lower()`. -/
  folded : String → String
  /-- `repr(text)`. -/
  quoted : String → String

section Attributes

variable {V N : Type} [BrokerValue V N]

/-- `str(getattr(row, name, "") or "")`. -/
def textAttr (value : Option V) : String :=
  match value with
  | none => ""
  | some value => if BrokerValue.truthy value then BrokerValue.str value else ""

/-- The first attribute that `convert` accepts; `none` when it raises something else. -/
def firstAttr {α : Type} (convert : V → Conversion α) (default : α) : List (Option V) → Option α
  | [] => some default
  | none :: rest => firstAttr convert default rest
  | some value :: rest =>
    match convert value with
    | .value result => some result
    | .refused => firstAttr convert default rest
    | .failed => none

/-- `_int_attr`. -/
def intAttr (attributes : List (Option V)) (default : ℤ) : Option ℤ :=
  firstAttr BrokerValue.int default attributes

/-- `_float_attr`. -/
def floatAttr (attributes : List (Option V)) (default : N) : Option N :=
  firstAttr BrokerValue.float default attributes

end Attributes

inductive XtValue where
  | int (value : ℤ)
  | text (content : String)
  deriving DecidableEq

/-- A broker package that hands over integers and texts, and no text that is a number. -/
instance : BrokerValue XtValue PyNumber where
  truthy
    | .int value => value ≠ 0
    | .text content => content ≠ ""
  str
    | .int value => String.ofList (PyNumber.printInt value)
    | .text content => content
  int
    | .int value => .value value
    | .text _ => .refused
  float
    | .int value => .value (.float (PyNumber.floatOfInt value))
    | .text _ => .refused
  same left right := left = right
  usablePrice
    | .int value => 0 < value
    | .float token => 0 < token.value
  zero := .float (PyNumber.floatOfInt 0)
  text := .text
  truthy_text _ := rfl
  str_text _ := rfl

/-- What becomes of texts without quotes and characters outside ASCII. -/
instance : PyText where
  folded text :=
    let started := text.toList.dropWhile Char.isWhitespace
    String.ofList ((started.reverse.dropWhile Char.isWhitespace).reverse.map Char.toLower)
  quoted text := "'" ++ text ++ "'"

end QuantAgent.Execution
