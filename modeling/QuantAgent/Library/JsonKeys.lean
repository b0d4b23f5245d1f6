import QuantAgent.Library.Dict
import QuantAgent.Library.Json

/-!
# Documents without repeated keys

A JSON text may repeat a key inside one object; a dictionary cannot.  A reader that refuses repeated
keys accepts exactly the documents that are trees of dictionaries.
-/

namespace QuantAgent.Library.Json

variable {N : Type}

mutual

/-- No object anywhere repeats a key. -/
def Distinct : Json N → Prop
  | .arr items => DistinctItems items
  | .obj members => (members.map Prod.fst).Nodup ∧ DistinctMembers members
  | _ => True

/-- `Distinct` of every item. -/
def DistinctItems : List (Json N) → Prop
  | [] => True
  | item :: rest => Distinct item ∧ DistinctItems rest

/-- `Distinct` of every member value. -/
def DistinctMembers : List (String × Json N) → Prop
  | [] => True
  | (_, value) :: rest => Distinct value ∧ DistinctMembers rest

end

mutual

/-- `Distinct` is decided by a walk over the document. -/
def decideDistinct : (document : Json N) → Decidable (Distinct document)
  | .null => isTrue trivial
  | .bool _ => isTrue trivial
  | .num _ => isTrue trivial
  | .str _ => isTrue trivial
  | .arr items => decideDistinctItems items
  | .obj members => @instDecidableAnd _ _ inferInstance (decideDistinctMembers members)
  | .foreign _ => isTrue trivial

/-- `decideDistinct` for the items of an array. -/
def decideDistinctItems : (items : List (Json N)) → Decidable (DistinctItems items)
  | [] => isTrue trivial
  | item :: rest => @instDecidableAnd _ _ (decideDistinct item) (decideDistinctItems rest)

/-- `decideDistinct` for the members of an object. -/
def decideDistinctMembers :
    (members : List (String × Json N)) → Decidable (DistinctMembers members)
  | [] => isTrue trivial
  | (_, value) :: rest =>
    @instDecidableAnd _ _ (decideDistinct value) (decideDistinctMembers rest)

end

instance (document : Json N) : Decidable (Distinct document) := decideDistinct document

theorem distinctMembers_iff {members : List (String × Json N)} :
    DistinctMembers members ↔ ∀ member ∈ members, Distinct member.2 := by
  induction members with
  | nil => simp [DistinctMembers]
  | cons member members ih =>
    rw [DistinctMembers, ih, List.forall_mem_cons]

theorem plainMembers_iff {members : List (String × Json N)} :
    PlainMembers members ↔ ∀ member ∈ members, Plain member.2 := by
  induction members with
  | nil => simp [PlainMembers]
  | cons member members ih =>
    rw [PlainMembers, ih, List.forall_mem_cons]

theorem distinctItems_texts (texts : List String) :
    DistinctItems (texts.map (.str : String → Json N)) := by
  induction texts with
  | nil => trivial
  | cons text texts ih => exact ⟨trivial, ih⟩

end QuantAgent.Library.Json
