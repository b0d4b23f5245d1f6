import QuantAgent.Library.Json

/-!
# Content addressing

The two digests of the repository as an interface: the chain digest of a ledger record and the
identifier derived from an object's content.  Both print their argument with a hook that shows
foreign objects as strings, so they see a document only up to that.  They are treated as
injective.
-/

namespace QuantAgent.Domain

open Library

variable {N : Type}

mutual

/-- The document as a printer with `default=str` sees it. -/
def shown : Json N → Json N
  | .arr items => .arr (shownItems items)
  | .obj members => .obj (shownMembers members)
  | .foreign text => .str text
  | document => document

/-- `shown` for the items of an array. -/
def shownItems : List (Json N) → List (Json N)
  | [] => []
  | item :: rest => shown item :: shownItems rest

/-- `shown` for the members of an object. -/
def shownMembers : List (String × Json N) → List (String × Json N)
  | [] => []
  | (key, value) :: rest => (key, shown value) :: shownMembers rest

end

/-- The digest functions, with what is assumed of them. -/
class Hashing (N : Type) where
  /-- The digest of a record body behind a predecessor's digest. -/
  digest : String → Json N → String
  /-- A stable identifier derived from the content that defines an object. -/
  contentId : String → Json N → String
  digest_injective : ∀ {previous previous' : String} {body body' : Json N},
    digest previous body = digest previous' body' → previous = previous' ∧ shown body = shown body'
  digest_ascii : ∀ previous body, ∀ c ∈ (digest previous body).toList, c.toNat < 128
  contentId_injective : ∀ {label : String} {parts parts' : Json N},
    contentId label parts = contentId label parts' → shown parts = shown parts'
  contentId_ne_empty : ∀ label parts, contentId label parts ≠ ""

export Hashing (digest contentId)

/-- A string, or `null` when there is none. -/
def optionalStr (value : Option String) : Json N :=
  value.elim .null .str

/-- A number, or `null` when there is none. -/
def optionalNum (value : Option N) : Json N :=
  value.elim .null .num

@[simp]
theorem shown_str (value : String) : shown (.str value : Json N) = .str value := by
  rw [shown] <;> simp

@[simp]
theorem shown_num (value : N) : shown (.num value) = .num value := by
  rw [shown] <;> simp

@[simp]
theorem shown_null : shown (.null : Json N) = .null := by
  rw [shown] <;> simp

@[simp]
theorem shown_bool (value : Bool) : shown (.bool value : Json N) = .bool value := by
  rw [shown] <;> simp

@[simp]
theorem shown_optionalStr (value : Option String) :
    shown (optionalStr value : Json N) = optionalStr value := by
  cases value <;> simp [optionalStr]

theorem optionalStr_injective : Function.Injective (optionalStr : Option String → Json N) := by
  intro left right h
  cases left <;> cases right <;> simp_all [optionalStr]

end QuantAgent.Domain
