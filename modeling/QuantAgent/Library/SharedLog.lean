import Mathlib.Data.List.Basic

/-!
# Views of a shared log

A log that several parties append to, and a view that each of them folds from the entries it has
read.  A party remembers how far it has read; its own append goes into its view at once, while its
offset stays behind, so it reads that entry again later.  Where applying an entry twice in a row is
applying it once, every party that reads to the end has the fold of the whole log.
-/

namespace QuantAgent.Library

/-- A party: how many entries it has read, and what it made of them. -/
structure Reader (V : Type) where
  offset : ℕ
  view : V

namespace SharedLog

variable {V E : Type} (apply : V → E → V) (start : V)

def fold (log : List E) : V := log.foldl apply start

def Tracks (log : List E) (reader : Reader V) : Prop :=
  reader.offset ≤ log.length ∧
    (reader.view = fold apply start (log.take reader.offset) ∨
      ∃ entry, log[reader.offset]? = some entry ∧
        reader.view = apply (fold apply start (log.take reader.offset)) entry)

def sync (log : List E) (reader : Reader V) : Reader V where
  offset := log.length
  view := (log.drop reader.offset).foldl apply reader.view

variable {apply start}

@[simp]
theorem fold_append (first second : List E) :
    fold apply start (first ++ second) = second.foldl apply (fold apply start first) :=
  List.foldl_append ..

theorem tracks_start (log : List E) : Tracks apply start log ⟨0, start⟩ :=
  ⟨Nat.zero_le _, .inl rfl⟩

theorem tracks_fold (log : List E) :
    Tracks apply start log ⟨log.length, fold apply start log⟩ :=
  ⟨Nat.le_refl _, .inl (by rw [List.take_length])⟩

/-- Whatever a party knew, reading to the end gives it the fold of the log. -/
theorem sync_view (hidem : ∀ view entry, apply (apply view entry) entry = apply view entry)
    {log : List E} {reader : Reader V} (h : Tracks apply start log reader) :
    (sync apply log reader).view = fold apply start log := by
  obtain ⟨_, hview | ⟨entry, hentry, hview⟩⟩ := h
  · calc
      _ = (log.drop reader.offset).foldl apply (fold apply start (log.take reader.offset)) := by
        rw [sync, hview]
      _ = fold apply start log := by rw [← fold_append, List.take_append_drop]
  · have hnext : log.drop reader.offset = entry :: log.drop (reader.offset + 1) := by
      obtain ⟨hlt, hget⟩ := List.getElem?_eq_some_iff.mp hentry
      rw [List.drop_eq_getElem_cons hlt, hget]
    calc
      _ = (log.drop (reader.offset + 1)).foldl apply
          (apply (apply (fold apply start (log.take reader.offset)) entry) entry) := by
        rw [sync, hview, hnext, List.foldl_cons]
      _ = (entry :: log.drop (reader.offset + 1)).foldl apply
          (fold apply start (log.take reader.offset)) := by
        rw [hidem, List.foldl_cons]
      _ = fold apply start log := by rw [← hnext, ← fold_append, List.take_append_drop]

/-- The appends of others leave a party where it was. -/
theorem Tracks.append {log : List E} {reader : Reader V} (h : Tracks apply start log reader)
    (entry : E) : Tracks apply start (log ++ [entry]) reader := by
  obtain ⟨hoffset, hview⟩ := h
  have htake : (log ++ [entry]).take reader.offset = log.take reader.offset :=
    List.take_append_of_le_length hoffset
  refine ⟨Nat.le_trans hoffset (by simp), ?_⟩
  rw [htake]
  refine hview.imp_right ?_
  intro hnext
  obtain ⟨next, hget, hview⟩ := hnext
  refine ⟨next, ?_, hview⟩
  rw [List.getElem?_append_left (List.getElem?_eq_some_iff.mp hget).1, hget]

/-- The own append of a party that has read everything goes into its view at once. -/
theorem tracks_record (log : List E) (entry : E) :
    Tracks apply start (log ++ [entry]) ⟨log.length, apply (fold apply start log) entry⟩ := by
  have htake : (log ++ [entry]).take log.length = log := by simp
  exact ⟨by simp, .inr ⟨entry, by simp, by rw [htake]⟩⟩

end SharedLog

end QuantAgent.Library
