import QuantAgent.Domain.Hashing
import QuantAgent.Library.JsonText

/-!
# A digest that is injective

The assumptions on the digest functions are met by printing a document in hexadecimal, so results
that rest on them are not vacuous.
-/

namespace QuantAgent.Domain

open Library

variable {N : Type}

/-- The code point of a character in six hexadecimal digits. -/
def hexOf (c : Char) : List Char :=
  [Json.hexDigit (c.toNat / 1048576 % 16), Json.hexDigit (c.toNat / 65536 % 16),
    Json.hexDigit (c.toNat / 4096 % 16), Json.hexDigit (c.toNat / 256 % 16),
    Json.hexDigit (c.toNat / 16 % 16), Json.hexDigit (c.toNat % 16)]

theorem hexDigit_inj {m n : ℕ} (hm : m < 16) (hn : n < 16)
    (h : Json.hexDigit m = Json.hexDigit n) : m = n := by
  have := congrArg Json.hexValue h
  rw [Json.hexValue_hexDigit m hm, Json.hexValue_hexDigit n hn] at this
  exact Option.some.inj this

theorem toNat_lt (c : Char) : c.toNat < 16777216 := by
  have h := c.valid
  simp only [UInt32.isValidChar, Nat.isValidChar] at h
  have htoNat : c.toNat = c.val.toNat := rfl
  omega

theorem hexOf_injective : Function.Injective hexOf := by
  intro left right h
  simp only [hexOf, List.cons.injEq, and_true] at h
  obtain ⟨h5, h4, h3, h2, h1, h0⟩ := h
  have e5 := hexDigit_inj (by omega) (by omega) h5
  have e4 := hexDigit_inj (by omega) (by omega) h4
  have e3 := hexDigit_inj (by omega) (by omega) h3
  have e2 := hexDigit_inj (by omega) (by omega) h2
  have e1 := hexDigit_inj (by omega) (by omega) h1
  have e0 := hexDigit_inj (by omega) (by omega) h0
  have hleft := toNat_lt left
  have hright := toNat_lt right
  have hcode : left.toNat = right.toNat := by omega
  rw [← Char.ofNat_toNat left, hcode, Char.ofNat_toNat]

def hexText (chars : List Char) : String := String.ofList (chars.flatMap hexOf)

theorem hexText_injective : Function.Injective hexText := by
  intro left right h
  replace h := String.ofList_injective h
  induction left generalizing right with
  | nil =>
    cases right with
    | nil => rfl
    | cons c right => simp [hexOf] at h
  | cons c left ih =>
    cases right with
    | nil => simp [hexOf] at h
    | cons d right =>
      rw [List.flatMap_cons, List.flatMap_cons] at h
      obtain ⟨hhead, htail⟩ := List.append_inj h rfl
      rw [hexOf_injective hhead, ih htail]

theorem hexText_ascii (chars : List Char) : ∀ c ∈ (hexText chars).toList, c.toNat < 128 := by
  intro c hc
  simp only [hexText, String.toList_ofList, List.mem_flatMap] at hc
  obtain ⟨d, -, hc⟩ := hc
  have hdigit : ∀ n < 16, (Json.hexDigit n).toNat < 128 := by decide
  simp only [hexOf, List.mem_cons, List.not_mem_nil, or_false] at hc
  rcases hc with rfl | rfl | rfl | rfl | rfl | rfl <;> exact hdigit _ (Nat.mod_lt _ (by decide))

mutual

/-- What a printer with a hook shows has no foreign object left. -/
theorem plain_shown : ∀ document : Json N, (shown document).Plain
  | .null => by simp [Json.Plain]
  | .bool _ => by simp [Json.Plain]
  | .num _ => by simp [Json.Plain]
  | .str _ => by simp [Json.Plain]
  | .arr items => by
      rw [shown, Json.Plain]
      exact plainItems_shown items
  | .obj members => by
      rw [shown, Json.Plain]
      exact plainMembers_shown members
  | .foreign _ => by
      rw [shown]
      trivial

/-- `plain_shown` for the items of an array. -/
theorem plainItems_shown : ∀ items : List (Json N), Json.PlainItems (shownItems items)
  | [] => by
      rw [shownItems]
      trivial
  | item :: rest => by
      rw [shownItems]
      exact ⟨plain_shown item, plainItems_shown rest⟩

/-- `plain_shown` for the members of an object. -/
theorem plainMembers_shown :
    ∀ members : List (String × Json N), Json.PlainMembers (shownMembers members)
  | [] => by
      rw [shownMembers]
      trivial
  | (_, value) :: rest => by
      rw [shownMembers]
      exact ⟨plain_shown value, plainMembers_shown rest⟩

end

variable [NumText N]

theorem text_obj_injective {first second : List (String × Json N)} (hfirst : (Json.obj first).Plain)
    (hsecond : (Json.obj second).Plain) (h : (Json.obj first).text = (Json.obj second).text) :
    first = second := by
  have hload := Json.loads_text hfirst
  rw [h, Json.loads_text hsecond] at hload
  exact (Json.obj.inj (Option.some.inj hload)).symm

/-- Digests that print their argument in hexadecimal. -/
instance hexHashing : Hashing N where
  digest previous body :=
    hexText (Json.obj [("body", shown body), ("previous", .str previous)]).text
  contentId label parts := label ++ "_" ++ hexText (Json.obj [("parts", shown parts)]).text
  digest_injective := by
    intro previous previous' body body' h
    have hplain : ∀ (p : String) (b : Json N),
        (Json.obj [("body", shown b), ("previous", .str p)]).Plain :=
      fun _ b ↦ ⟨plain_shown b, trivial, trivial⟩
    have heq := text_obj_injective (hplain _ _) (hplain _ _) (hexText_injective h)
    simpa [and_comm] using heq
  digest_ascii _ _ := hexText_ascii _
  contentId_injective := by
    intro label parts parts' h
    have hplain : ∀ p : Json N, (Json.obj [("parts", shown p)]).Plain :=
      fun p ↦ ⟨plain_shown p, trivial⟩
    have htext : hexText (Json.obj [("parts", shown parts)]).text =
        hexText (Json.obj [("parts", shown parts')]).text := by
      have hlist := congrArg String.toList h
      simp only [String.toList_append] at hlist
      exact String.toList_injective (List.append_cancel_left hlist)
    have heq := text_obj_injective (hplain _) (hplain _) (hexText_injective htext)
    simpa using heq
  contentId_ne_empty := by
    intro label parts h
    have hlist := congrArg String.toList h
    simp [String.toList_append] at hlist

end QuantAgent.Domain
