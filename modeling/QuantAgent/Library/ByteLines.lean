import Mathlib.Data.List.DropRight

/-!
# Files read as bytes

The lines of a byte string, each with its end, and the blanks that are stripped from it.  Only a
line feed, a carriage return or the two together end a line of bytes.
-/

namespace QuantAgent.Library.ByteLines

/-- The line under construction, and the bytes after it. -/
def splitFrom (line : List Char) : List Char → List (List Char)
  | '\r' :: '\n' :: rest => (line ++ ['\r', '\n']) :: splitFrom [] rest
  | c :: rest =>
    if c = '\n' ∨ c = '\r' then (line ++ [c]) :: splitFrom [] rest
    else splitFrom (line ++ [c]) rest
  | [] => if line = [] then [] else [line]

/-- `splitlines(keepends=True)`. -/
def split (chars : List Char) : List (List Char) := splitFrom [] chars

def isBlank (c : Char) : Bool :=
  c ∈ [' ', '\t', '\n', '\r', '\x0b', '\x0c']

/-- A byte string without the blanks at its ends. -/
def strip (chars : List Char) : List Char :=
  (chars.dropWhile isBlank).rdropWhile isBlank

/-- The bytes up to the last line feed. -/
def terminated (chars : List Char) : List Char := chars.rdropWhile (· ≠ '\n')

theorem splitFrom_append {chars : List Char} (h : ∀ c ∈ chars, c ≠ '\n' ∧ c ≠ '\r')
    (line rest : List Char) : splitFrom line (chars ++ rest) = splitFrom (line ++ chars) rest := by
  induction chars generalizing line with
  | nil => simp
  | cons c chars ih =>
    obtain ⟨hfeed, hreturn⟩ := h c List.mem_cons_self
    rw [List.cons_append, splitFrom, if_neg (not_or.mpr ⟨hfeed, hreturn⟩),
      ih fun d hd ↦ h d (List.mem_cons_of_mem _ hd)]
    · simp
    · intro tail hc
      exact absurd hc hreturn

/-- A line comes off the front, with its end. -/
theorem split_line {chars : List Char} (h : ∀ c ∈ chars, c ≠ '\n' ∧ c ≠ '\r') (rest : List Char) :
    split (chars ++ ['\n'] ++ rest) = (chars ++ ['\n']) :: split rest := by
  rw [split, List.append_assoc, splitFrom_append h, List.nil_append, List.singleton_append,
    splitFrom]
  · simp [split]
  · intro tail hc
    exact absurd hc (by decide)

/-- What is visible at both ends of a line remains, its end goes. -/
theorem strip_line {first last : Char} {rest middle : List Char} (hfirst : isBlank first = false)
    (hlast : isBlank last = false) (h : first :: rest = middle ++ [last]) :
    strip (first :: rest ++ ['\n']) = first :: rest := by
  have hend : isBlank '\n' = true := by decide
  have hlast' : ¬ isBlank last = true := by simp [hlast]
  rw [strip, List.cons_append, List.dropWhile_cons_of_neg (by simp [hfirst]), ← List.cons_append,
    List.rdropWhile_concat_pos _ _ _ hend, h, List.rdropWhile_concat_neg _ _ _ hlast']

/-- What ends with a line feed is kept, whatever follows it. -/
theorem terminated_line (chars rest : List Char) :
    terminated (chars ++ ['\n'] ++ rest) = chars ++ ['\n'] ++ terminated rest := by
  induction rest using List.reverseRecOn with
  | nil => simp [terminated]
  | append_singleton rest c ih =>
    simp only [terminated] at ih ⊢
    rw [← List.append_assoc, List.rdropWhile_concat, List.rdropWhile_concat, ih]
    split
    · rfl
    · simp

theorem terminated_of_notMem {chars : List Char} (h : '\n' ∉ chars) : terminated chars = [] := by
  rw [terminated, List.rdropWhile_eq_nil_iff]
  intro c hc
  simpa using fun heq : c = '\n' ↦ h (heq ▸ hc)

end QuantAgent.Library.ByteLines
