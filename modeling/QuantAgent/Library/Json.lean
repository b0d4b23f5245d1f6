import Mathlib.Data.String.Basic

/-!
# JSON text

A JSON document over an arbitrary type of numerals, the text a writer prints for it on one line,
and a reader.  The writer leaves every character outside the ASCII control block as it is, which
is what `ensure_ascii=False` asks for; the reader is a pushdown machine that consumes one character
at a time, so what it does on a concatenation is the run on the second part from the state after
the first.  A document without foreign objects is read back from its text.
-/

namespace QuantAgent.Library

/-- Numerals with a printed form made of number characters, which reads back to the numeral. -/
class NumText (N : Type) where
  print : N → List Char
  read : List Char → Option N
  read_print : ∀ value, read (print value) = some value
  print_chars : ∀ value, ∀ c ∈ print value, c.isDigit ∨ c ∈ ['-', '+', '.', 'e', 'E']
  print_start : ∀ value, ∃ c rest, print value = c :: rest ∧ (c.isDigit ∨ c = '-')

/-- A JSON document.  `foreign` is an in-memory object that JSON has no form for, together with
the string a `default` hook would print in its place. -/
inductive Json (N : Type) where
  | null
  | bool (value : Bool)
  | num (value : N)
  | str (value : String)
  | arr (items : List (Json N))
  | obj (members : List (String × Json N))
  | foreign (shown : String)

namespace Json

variable {N : Type}

/-- The member stored under `key`; a later member of the same key replaces an earlier one. -/
def get? : Json N → String → Option (Json N)
  | .obj members, key => members.reverse.lookup key
  | _, _ => none

/-- One hexadecimal digit below sixteen, in lower case. -/
def hexDigit (n : ℕ) : Char :=
  if n < 10 then Char.ofNat (48 + n) else Char.ofNat (87 + n)

def escapeChar (c : Char) : List Char :=
  if c = '"' then ['\\', '"']
  else if c = '\\' then ['\\', '\\']
  else if c = '\n' then ['\\', 'n']
  else if c = '\r' then ['\\', 'r']
  else if c = '\t' then ['\\', 't']
  else if c = '\x08' then ['\\', 'b']
  else if c = '\x0c' then ['\\', 'f']
  else if c.toNat < 32 then
    ['\\', 'u', '0', '0', hexDigit (c.toNat / 16), hexDigit (c.toNat % 16)]
  else [c]

def quoted (s : String) : List Char :=
  '"' :: s.toList.flatMap escapeChar ++ ['"']

section Text

variable [NumText N]

mutual

/-- The one-line text of a document, with `", "` and `": "` as separators. -/
def text : Json N → List Char
  | .null => ['n', 'u', 'l', 'l']
  | .bool true => ['t', 'r', 'u', 'e']
  | .bool false => ['f', 'a', 'l', 's', 'e']
  | .num value => NumText.print value
  | .str value => quoted value
  | .arr items => '[' :: textItems items ++ [']']
  | .obj members => '{' :: textMembers members ++ ['}']
  | .foreign _ => []

def textItems : List (Json N) → List Char
  | [] => []
  | [item] => text item
  | item :: next :: rest => text item ++ ',' :: ' ' :: textItems (next :: rest)

def textMembers : List (String × Json N) → List Char
  | [] => []
  | [(key, value)] => quoted key ++ ':' :: ' ' :: text value
  | (key, value) :: next :: rest =>
    quoted key ++ ':' :: ' ' :: text value ++ ',' :: ' ' :: textMembers (next :: rest)

end

end Text

mutual

/-- No foreign object anywhere: the documents a writer without a `default` hook accepts. -/
def Plain : Json N → Prop
  | .arr items => PlainItems items
  | .obj members => PlainMembers members
  | .foreign _ => False
  | _ => True

/-- `Plain` of every item. -/
def PlainItems : List (Json N) → Prop
  | [] => True
  | item :: rest => Plain item ∧ PlainItems rest

/-- `Plain` of every member value. -/
def PlainMembers : List (String × Json N) → Prop
  | [] => True
  | (_, value) :: rest => Plain value ∧ PlainMembers rest

end

mutual

/-- `Plain` is decided by a walk over the document. -/
def decidePlain : (document : Json N) → Decidable (Plain document)
  | .null => isTrue trivial
  | .bool _ => isTrue trivial
  | .num _ => isTrue trivial
  | .str _ => isTrue trivial
  | .arr items => decidePlainItems items
  | .obj members => decidePlainMembers members
  | .foreign _ => isFalse id

/-- `decidePlain` for the items of an array. -/
def decidePlainItems : (items : List (Json N)) → Decidable (PlainItems items)
  | [] => isTrue trivial
  | item :: rest => @instDecidableAnd _ _ (decidePlain item) (decidePlainItems rest)

/-- `decidePlain` for the members of an object. -/
def decidePlainMembers : (members : List (String × Json N)) → Decidable (PlainMembers members)
  | [] => isTrue trivial
  | (_, value) :: rest => @instDecidableAnd _ _ (decidePlain value) (decidePlainMembers rest)

end

instance (document : Json N) : Decidable (Plain document) := decidePlain document

mutual

/-- Every string of a document, keys included. -/
def strings : Json N → List String
  | .str value => [value]
  | .arr items => stringsItems items
  | .obj members => stringsMembers members
  | _ => []

def stringsItems : List (Json N) → List String
  | [] => []
  | item :: rest => strings item ++ stringsItems rest

def stringsMembers : List (String × Json N) → List String
  | [] => []
  | (key, value) :: rest => key :: strings value ++ stringsMembers rest

end

/-- The blanks a reader skips between tokens. -/
def isBlank (c : Char) : Bool :=
  c = ' ' || c = '\t' || c = '\n' || c = '\r'

/-- The characters that can stand in a numeral. -/
def isNumberChar (c : Char) : Bool :=
  c.isDigit || c = '-' || c = '+' || c = '.' || c = 'e' || c = 'E'

def hexValue (c : Char) : Option ℕ :=
  if c.isDigit then some (c.toNat - 48)
  else if 97 ≤ c.toNat ∧ c.toNat ≤ 102 then some (c.toNat - 87)
  else if 65 ≤ c.toNat ∧ c.toNat ≤ 70 then some (c.toNat - 55)
  else none

/-- An open container waiting for the value under construction. -/
inductive Frame (N : Type) where
  | item (items : List (Json N))
  | member (members : List (String × Json N)) (key : String)

/-- What a string under construction becomes: a value, or the key of the next member. -/
inductive Target (N : Type) where
  | value
  | key (members : List (String × Json N))

/-- Where the reader stands inside a string: in plain text, after a backslash, inside the four
digits of a `\u` escape, or between the two halves of a surrogate pair. -/
inductive Escape where
  | plain
  | backslash
  | unicode (high : Option ℕ) (digits value : ℕ)
  | highHalf (high : ℕ)
  | highHalfBackslash (high : ℕ)

/-- Where the reader stands between two characters. -/
inductive State (N : Type) where
  | value (frames : List (Frame N))
  | firstItem (frames : List (Frame N))
  | afterItem (items : List (Json N)) (frames : List (Frame N))
  | firstKey (frames : List (Frame N))
  | nextKey (members : List (String × Json N)) (frames : List (Frame N))
  | colon (members : List (String × Json N)) (key : String) (frames : List (Frame N))
  | afterMember (members : List (String × Json N)) (frames : List (Frame N))
  | string (target : Target N) (read : List Char) (escape : Escape) (frames : List (Frame N))
  | number (read : List Char) (frames : List (Frame N))
  | literal (rest : List Char) (value : Json N) (frames : List (Frame N))
  | done (value : Json N)
  | dead

/-- Hand a completed value to the innermost open container. -/
def deliver (value : Json N) : List (Frame N) → State N
  | [] => .done value
  | .item items :: frames => .afterItem (items ++ [value]) frames
  | .member members key :: frames => .afterMember (members ++ [(key, value)]) frames

/-- The state after the closing quote of a string. -/
def closeString (frames : List (Frame N)) (read : List Char) : Target N → State N
  | .value => deliver (.str (String.ofList read)) frames
  | .key members => .colon members (String.ofList read) frames

def startValue (frames : List (Frame N)) (c : Char) : State N :=
  if c = '{' then .firstKey frames
  else if c = '[' then .firstItem frames
  else if c = '"' then .string .value [] .plain frames
  else if c = 't' then .literal ['r', 'u', 'e'] (.bool true) frames
  else if c = 'f' then .literal ['a', 'l', 's', 'e'] (.bool false) frames
  else if c = 'n' then .literal ['u', 'l', 'l'] .null frames
  else if c.isDigit || c = '-' then .number [c] frames
  else .dead

/-- One character where a value has just been completed. -/
def stepSettled : State N → Char → State N
  | .afterItem items frames, c =>
    if isBlank c then .afterItem items frames
    else if c = ',' then .value (.item items :: frames)
    else if c = ']' then deliver (.arr items) frames
    else .dead
  | .afterMember members frames, c =>
    if isBlank c then .afterMember members frames
    else if c = ',' then .nextKey members frames
    else if c = '}' then deliver (.obj members) frames
    else .dead
  | .done value, c => if isBlank c then .done value else .dead
  | _, _ => .dead

def shortEscape (c : Char) : Option Char :=
  if c = '"' then some '"'
  else if c = '\\' then some '\\'
  else if c = '/' then some '/'
  else if c = 'b' then some '\x08'
  else if c = 'f' then some '\x0c'
  else if c = 'n' then some '\n'
  else if c = 'r' then some '\r'
  else if c = 't' then some '\t'
  else none

/-- A completed `\u` escape.  A half of a surrogate pair without the other is no character. -/
def finishUnicode (target : Target N) (read : List Char) (frames : List (Frame N)) :
    Option ℕ → ℕ → State N
  | none, value =>
    if 0xD800 ≤ value ∧ value ≤ 0xDBFF then .string target read (.highHalf value) frames
    else if 0xDC00 ≤ value ∧ value ≤ 0xDFFF then .dead
    else .string target (read ++ [Char.ofNat value]) .plain frames
  | some high, value =>
    if 0xDC00 ≤ value ∧ value ≤ 0xDFFF then
      .string target
        (read ++ [Char.ofNat (0x10000 + (high - 0xD800) * 0x400 + (value - 0xDC00))])
        .plain frames
    else .dead

/-- One character inside a string.  Control characters must be escaped there. -/
def stepString (target : Target N) (read : List Char) (frames : List (Frame N)) :
    Escape → Char → State N
  | .plain, c =>
    if c = '"' then closeString frames read target
    else if c = '\\' then .string target read .backslash frames
    else if c.toNat < 32 then .dead
    else .string target (read ++ [c]) .plain frames
  | .backslash, c =>
    if c = 'u' then .string target read (.unicode none 0 0) frames
    else match shortEscape c with
      | some char => .string target (read ++ [char]) .plain frames
      | none => .dead
  | .unicode high digits value, c =>
    match hexValue c with
    | none => .dead
    | some digit =>
      if digits = 3 then finishUnicode target read frames high (16 * value + digit)
      else .string target read (.unicode high (digits + 1) (16 * value + digit)) frames
  | .highHalf high, c =>
    if c = '\\' then .string target read (.highHalfBackslash high) frames else .dead
  | .highHalfBackslash high, c =>
    if c = 'u' then .string target read (.unicode (some high) 0 0) frames else .dead

section Read

variable [NumText N]

/-- A numeral ends at the first character that cannot belong to it. -/
def finishNumber (frames : List (Frame N)) (read : List Char) : State N :=
  match NumText.read read with
  | some value => deliver (.num value) frames
  | none => .dead

def step : State N → Char → State N
  | .value frames, c => if isBlank c then .value frames else startValue frames c
  | .firstItem frames, c =>
    if isBlank c then .firstItem frames
    else if c = ']' then deliver (.arr []) frames
    else startValue (.item [] :: frames) c
  | .firstKey frames, c =>
    if isBlank c then .firstKey frames
    else if c = '}' then deliver (.obj []) frames
    else if c = '"' then .string (.key []) [] .plain frames
    else .dead
  | .nextKey members frames, c =>
    if isBlank c then .nextKey members frames
    else if c = '"' then .string (.key members) [] .plain frames
    else .dead
  | .colon members key frames, c =>
    if isBlank c then .colon members key frames
    else if c = ':' then .value (.member members key :: frames)
    else .dead
  | .string target read escape frames, c => stepString target read frames escape c
  | .number read frames, c =>
    if isNumberChar c then .number (read ++ [c]) frames
    else stepSettled (finishNumber frames read) c
  | .literal [] value frames, c => stepSettled (deliver value frames) c
  | .literal (expected :: rest) value frames, c =>
    if c = expected then
      if rest = [] then deliver value frames else .literal rest value frames
    else .dead
  | .afterItem items frames, c => stepSettled (.afterItem items frames) c
  | .afterMember members frames, c => stepSettled (.afterMember members frames) c
  | .done value, c => stepSettled (.done value) c
  | .dead, _ => .dead

def run (state : State N) (chars : List Char) : State N :=
  chars.foldl step state

/-- What the reader answers at the end of its input. -/
def finish : State N → Option (Json N)
  | .done value => some value
  | .number read [] => (NumText.read read).map .num
  | _ => none

/-- Parse a complete text; `none` is the decode error. -/
def loads (chars : List Char) : Option (Json N) :=
  finish (run (.value []) chars)

end Read

end Json

end QuantAgent.Library
