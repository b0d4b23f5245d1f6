import QuantAgent.Library.Json

/-!
# Reading back printed JSON, and failing on anything torn

The reader started on a value-expecting state hands the printed document to the enclosing
container, whatever follows the document.  Two consequences are about files that grow by one line
at a time: a strict initial part of a printed object never parses, and neither does such a part
with a second object written right behind it.
-/

namespace QuantAgent.Library.Json

variable {N : Type} [NumText N]

@[simp]
theorem run_nil (state : State N) : run state [] = state := rfl

@[simp]
theorem run_cons (state : State N) (c : Char) (rest : List Char) :
    run state (c :: rest) = run (step state c) rest := rfl

theorem run_append (state : State N) (first second : List Char) :
    run state (first ++ second) = run (run state first) second :=
  List.foldl_append ..

theorem hexValue_hexDigit : ∀ n < 16, hexValue (hexDigit n) = some n := by
  decide

section

variable (target : Target N) (read : List Char) (frames : List (Frame N))

@[simp]
theorem step_string_backslash :
    step (.string target read .plain frames) '\\' = .string target read .backslash frames := rfl

@[simp]
theorem step_backslash_u :
    step (.string target read .backslash frames) 'u' =
      .string target read (.unicode none 0 0) frames := rfl

end

variable {target : Target N} {read : List Char} {frames : List (Frame N)} {c d : Char}

theorem step_backslash_short {char : Char} (hu : c ≠ 'u') (h : shortEscape c = some char) :
    step (.string target read .backslash frames) c =
      .string target (read ++ [char]) .plain frames := by
  simp [step, stepString, hu, h]

theorem step_unicode_digit {high : Option ℕ} {digits value digit : ℕ} (h : hexValue c = some digit)
    (hlast : digits ≠ 3) :
    step (.string target read (.unicode high digits value) frames) c =
      .string target read (.unicode high (digits + 1) (16 * value + digit)) frames := by
  simp [step, stepString, h, hlast]

theorem step_unicode_last {high : Option ℕ} {value digit : ℕ} (h : hexValue c = some digit) :
    step (.string target read (.unicode high 3 value) frames) c =
      finishUnicode target read frames high (16 * value + digit) := by
  simp [step, stepString, h]

omit [NumText N] in
theorem finishUnicode_control (h : c.toNat < 32) :
    finishUnicode target read frames none c.toNat = .string target (read ++ [c]) .plain frames := by
  have hlow : ¬(0xD800 ≤ c.toNat ∧ c.toNat ≤ 0xDBFF) := by omega
  have hhigh : ¬(0xDC00 ≤ c.toNat ∧ c.toNat ≤ 0xDFFF) := by omega
  simp only [finishUnicode, hlow, hhigh, if_false, Char.ofNat_toNat]

/-- The quoted form of one character puts exactly that character into the string being read. -/
theorem run_escapeChar (target : Target N) (read : List Char) (frames : List (Frame N)) (c : Char)
    (rest : List Char) :
    run (.string target read .plain frames) (escapeChar c ++ rest) =
      run (.string target (read ++ [c]) .plain frames) rest := by
  unfold escapeChar
  split_ifs with hquote hslash hnewline hreturn htab hback hform hcontrol
  iterate 7 subst_vars; rfl
  · have hzero : hexValue '0' = some 0 := by decide
    have hhigh := hexValue_hexDigit (c.toNat / 16) (by omega)
    have hlow := hexValue_hexDigit (c.toNat % 16) (by omega)
    have hcode : 16 * (c.toNat / 16) + c.toNat % 16 = c.toNat := by omega
    simp only [List.cons_append, List.nil_append, run_cons, step_string_backslash, step_backslash_u]
    rw [step_unicode_digit hzero (by decide), step_unicode_digit hzero (by decide),
      step_unicode_digit hhigh (by decide), step_unicode_last hlow]
    simp only [Nat.mul_zero, Nat.zero_add, Nat.add_zero, hcode, finishUnicode_control hcontrol]
  · simp [step, stepString, hquote, hslash, hcontrol]

theorem run_escaped (target : Target N) (frames : List (Frame N)) (chars read rest : List Char) :
    run (.string target read .plain frames) (chars.flatMap escapeChar ++ '"' :: rest) =
      run (closeString frames (read ++ chars) target) rest := by
  induction chars generalizing read with
  | nil => simp [step, stepString]
  | cons c chars ih =>
    rw [List.flatMap_cons, List.append_assoc, run_escapeChar, ih]
    simp

/-- A string is handed on once its closing quote is read. -/
theorem run_quoted_tail (target : Target N) (frames : List (Frame N)) (s : String)
    (rest : List Char) :
    run (.string target [] .plain frames) (s.toList.flatMap escapeChar ++ '"' :: rest) =
      run (closeString frames s.toList target) rest := by
  simpa using run_escaped target frames s.toList [] rest

theorem isNumberChar_of_print {value : N} (h : c ∈ NumText.print value) :
    isNumberChar c = true := by
  have hc := NumText.print_chars value c h
  simp only [List.mem_cons, List.not_mem_nil, or_false] at hc
  rcases hc with hd | rfl | rfl | rfl | rfl | rfl
  · simp [isNumberChar, hd]
  all_goals decide

theorem run_number (frames : List (Frame N)) (chars read rest : List Char)
    (h : ∀ c ∈ chars, isNumberChar c = true) :
    run (.number read frames) (chars ++ rest) = run (.number (read ++ chars) frames) rest := by
  induction chars generalizing read with
  | nil => simp
  | cons c chars ih =>
    have hc := h c (by simp)
    have htail := ih (read ++ [c]) (fun d hd ↦ h d (by simp [hd]))
    simpa [step, hc] using htail

theorem step_settled_deliver (value : Json N) (frames : List (Frame N)) (c : Char) :
    stepSettled (deliver value frames) c = step (deliver value frames) c := by
  cases frames with
  | nil => rfl
  | cons frame frames => cases frame <;> rfl

/-- A digit is none of the characters that carry JSON structure. -/
theorem isDigit_ne (hc : c.isDigit = true) (hd : d.isDigit = false) : c ≠ d := by
  rintro rfl
  rw [hc] at hd
  exact Bool.noConfusion hd

theorem not_isBlank_of_isDigit (hc : c.isDigit = true) : isBlank c = false := by
  simp [isBlank, isDigit_ne hc (d := ' ') (by decide), isDigit_ne hc (d := '\t') (by decide),
    isDigit_ne hc (d := '\n') (by decide), isDigit_ne hc (d := '\r') (by decide)]

theorem step_value_number (frames : List (Frame N)) (hc : c.isDigit ∨ c = '-') :
    step (.value frames) c = .number [c] frames := by
  rcases hc with hd | rfl
  · simp [step, startValue, hd, not_isBlank_of_isDigit hd, isDigit_ne hd (d := '{') (by decide),
      isDigit_ne hd (d := '[') (by decide), isDigit_ne hd (d := '"') (by decide),
      isDigit_ne hd (d := 't') (by decide), isDigit_ne hd (d := 'f') (by decide),
      isDigit_ne hd (d := 'n') (by decide)]
  · rfl

/-- The character behind a numeral ends it. -/
theorem run_print (frames : List (Frame N)) (value : N) (c : Char) (rest : List Char)
    (hc : isNumberChar c = false) :
    run (.value frames) (NumText.print value ++ c :: rest) =
      run (deliver (.num value) frames) (c :: rest) := by
  obtain ⟨first, tail, hprint, hfirst⟩ := NumText.print_start value
  have htail : ∀ d ∈ tail, isNumberChar d = true := fun d hd ↦
    isNumberChar_of_print (show d ∈ NumText.print value by
      rw [hprint]
      exact List.mem_cons_of_mem _ hd)
  have hstart := step_value_number frames hfirst
  have hend : step (.number (first :: tail) frames) c = step (deliver (.num value) frames) c := by
    have hread : NumText.read (first :: tail) = some value := by
      rw [← hprint, NumText.read_print]
    simp only [step, hc, Bool.false_eq_true, if_false, finishNumber, hread]
    exact step_settled_deliver _ _ _
  rw [hprint, List.cons_append, run_cons, hstart, run_number frames tail [first] _ htail]
  simp only [List.singleton_append, run_cons, hend]

theorem text_start : ∀ {value : Json N}, Plain value →
    ∃ c rest, text value = c :: rest ∧ isBlank c = false ∧ c ≠ ']'
  | .null, _ => ⟨'n', _, rfl, by decide, by decide⟩
  | .bool true, _ => ⟨'t', _, rfl, by decide, by decide⟩
  | .bool false, _ => ⟨'f', _, rfl, by decide, by decide⟩
  | .num value, _ => by
      obtain ⟨c, rest, hprint, hc⟩ := NumText.print_start value
      refine ⟨c, rest, hprint, ?_, ?_⟩
      · rcases hc with hd | rfl
        · exact not_isBlank_of_isDigit hd
        · decide
      · rintro rfl
        exact absurd hc (by decide)
  | .str _, _ => ⟨'"', _, rfl, by decide, by decide⟩
  | .arr _, _ => ⟨'[', _, rfl, by decide, by decide⟩
  | .obj _, _ => ⟨'{', _, rfl, by decide, by decide⟩

/-- The first item of an array is read like any later one. -/
theorem run_firstItem (frames : List (Frame N)) {value : Json N} (h : Plain value)
    (rest : List Char) :
    run (.firstItem frames) (text value ++ rest) =
      run (.value (.item [] :: frames)) (text value ++ rest) := by
  obtain ⟨c, tail, htext, hblank, hclose⟩ := text_start h
  simp [htext, step, hblank, hclose]

theorem textItems_start (item : Json N) (items : List (Json N)) :
    ∃ tail, textItems (item :: items) = text item ++ tail := by
  cases items with
  | nil => exact ⟨[], by simp [textItems]⟩
  | cons next items => exact ⟨_, rfl⟩

theorem textMembers_start (key : String) (value : Json N) (members : List (String × Json N)) :
    ∃ tail, textMembers ((key, value) :: members) = '"' :: tail := by
  cases members with
  | nil => exact ⟨_, rfl⟩
  | cons next members => exact ⟨_, rfl⟩

/-- A member's key, colon and blank are consumed before its value. -/
theorem run_member_key (before : List (String × Json N)) (frames : List (Frame N)) (key : String)
    (rest : List Char) :
    run (.nextKey before frames) (quoted key ++ ':' :: ' ' :: rest) =
      run (.value (.member before key :: frames)) rest := by
  have hstart : step (.nextKey before frames) '"' = .string (.key before) [] .plain frames := rfl
  simp only [quoted, List.cons_append, List.append_assoc, run_cons, hstart, List.nil_append]
  rw [run_quoted_tail]
  simp only [closeString, String.ofList_toList]
  rfl

mutual

/-- Reading a printed document hands it to the enclosing container. -/
theorem run_text : ∀ (value : Json N), Plain value → ∀ (frames : List (Frame N)) (c : Char)
    (rest : List Char), isNumberChar c = false →
    run (.value frames) (text value ++ c :: rest) = run (deliver value frames) (c :: rest)
  | .null, _, _, _, _, _ => rfl
  | .bool true, _, _, _, _, _ => rfl
  | .bool false, _, _, _, _, _ => rfl
  | .num value, _, frames, c, rest, hc => run_print frames value c rest hc
  | .str s, _, frames, c, rest, _ => by
      have hstart : step (.value frames) '"' = .string .value [] .plain frames := rfl
      simp only [text, quoted, List.cons_append, List.append_assoc, run_cons, hstart,
        List.nil_append]
      rw [run_quoted_tail]
      simp [closeString, run_cons]
  | .arr [], _, frames, c, rest, _ => rfl
  | .arr (item :: items), h, frames, c, rest, _ => by
      have hitem := h.1
      have hstart : step (.value frames) '[' = .firstItem frames := rfl
      have hitems := run_textItems (item :: items) h (by simp) [] frames (c :: rest)
      obtain ⟨tail, htail⟩ := textItems_start item items
      simp only [text, List.cons_append, List.append_assoc, run_cons, hstart, List.nil_append]
      rw [htail, List.append_assoc, run_firstItem frames hitem, ← List.append_assoc, ← htail, hitems]
      simp [run_cons]
  | .obj [], _, frames, c, rest, _ => rfl
  | .obj ((key, value) :: members), h, frames, c, rest, _ => by
      have hstart : step (.value frames) '{' = .firstKey frames := rfl
      have hfirst : ∀ chars, run (.firstKey frames) ('"' :: chars) =
          run (.nextKey [] frames) ('"' :: chars) := fun _ ↦ rfl
      have hmembers := run_textMembers ((key, value) :: members) h (by simp) [] frames (c :: rest)
      obtain ⟨tail, htail⟩ := textMembers_start key value members
      simp only [text, List.cons_append, List.append_assoc, run_cons, hstart, List.nil_append]
      rw [htail, List.cons_append, hfirst, ← List.cons_append, ← htail, hmembers]
      simp [run_cons]

/-- The items of an array are collected up to its closing bracket. -/
theorem run_textItems : ∀ (items : List (Json N)), PlainItems items → items ≠ [] →
    ∀ (before : List (Json N)) (frames : List (Frame N)) (rest : List Char),
    run (.value (.item before :: frames)) (textItems items ++ ']' :: rest) =
      run (deliver (.arr (before ++ items)) frames) rest
  | [], _, h, _, _, _ => absurd rfl h
  | [item], h, _, before, frames, rest => by
      rw [textItems, run_text item h.1 _ ']' rest (by decide)]
      rfl
  | item :: next :: items, h, _, before, frames, rest => by
      have hsep : ∀ chars, run (.afterItem (before ++ [item]) frames) (',' :: ' ' :: chars) =
          run (.value (.item (before ++ [item]) :: frames)) chars := fun _ ↦ rfl
      rw [textItems, List.append_assoc, List.cons_append, List.cons_append,
        run_text item h.1 _ ',' _ (by decide), deliver, hsep,
        run_textItems (next :: items) h.2 (by simp) (before ++ [item]) frames rest]
      simp

/-- The members of an object are collected up to its closing brace. -/
theorem run_textMembers : ∀ (members : List (String × Json N)), PlainMembers members →
    members ≠ [] →
    ∀ (before : List (String × Json N)) (frames : List (Frame N)) (rest : List Char),
    run (.nextKey before frames) (textMembers members ++ '}' :: rest) =
      run (deliver (.obj (before ++ members)) frames) rest
  | [], _, h, _, _, _ => absurd rfl h
  | [(key, value)], h, _, before, frames, rest => by
      rw [textMembers, List.append_assoc, List.cons_append, List.cons_append, run_member_key,
        run_text value h.1 _ '}' rest (by decide)]
      rfl
  | (key, value) :: next :: members, h, _, before, frames, rest => by
      have hsep : ∀ chars,
          run (.afterMember (before ++ [(key, value)]) frames) (',' :: ' ' :: chars) =
            run (.nextKey (before ++ [(key, value)]) frames) chars := fun _ ↦ rfl
      simp only [textMembers, List.append_assoc, List.cons_append]
      rw [run_member_key, run_text value h.1 _ ',' _ (by decide), deliver, hsep,
        run_textMembers (next :: members) h.2 (by simp) (before ++ [(key, value)]) frames rest]
      simp

end

variable {members : List (String × Json N)}

/-- The braces of a printed object are consumed, and the object is handed on. -/
theorem run_text_obj (h : Plain (.obj members)) (frames : List (Frame N)) :
    run (.value frames) (text (.obj members)) = deliver (.obj members) frames := by
  cases members with
  | nil => rfl
  | cons member members =>
    have hstart : step (.value frames) '{' = .firstKey frames := rfl
    have hfirst : ∀ chars, run (.firstKey frames) ('"' :: chars) =
        run (.nextKey [] frames) ('"' :: chars) := fun _ ↦ rfl
    have hmembers := run_textMembers (member :: members) h (by simp) [] frames []
    obtain ⟨tail, htail⟩ := textMembers_start member.1 member.2 members
    simp only [text, List.cons_append, run_cons, hstart]
    rw [htail, List.cons_append, hfirst, ← List.cons_append, ← htail, hmembers]
    rfl

/-- A document without foreign objects is read back from its text. -/
theorem loads_text (h : Plain (.obj members)) :
    loads (text (.obj members)) = some (.obj members) := by
  rw [loads, run_text_obj h]
  rfl

theorem hexDigit_range : ∀ n < 16, 32 ≤ (hexDigit n).toNat ∧ (hexDigit n).toNat < 128 := by
  decide

/-- The quoted form of a character is printable ASCII, or the character itself. -/
theorem mem_escapeChar (h : d ∈ escapeChar c) :
    32 ≤ d.toNat ∧ (d.toNat < 128 ∨ d = c) := by
  unfold escapeChar at h
  split_ifs at h with hquote hslash hnewline hreturn htab hback hform hcontrol
  iterate 7
    simp only [List.mem_cons, List.not_mem_nil, or_false] at h
    rcases h with rfl | rfl <;> exact ⟨by decide, .inl (by decide)⟩
  · have hhigh := hexDigit_range (c.toNat / 16) (by omega)
    have hlow := hexDigit_range (c.toNat % 16) (by omega)
    simp only [List.mem_cons, List.not_mem_nil, or_false] at h
    rcases h with rfl | rfl | rfl | rfl | rfl | rfl
    iterate 4 exact ⟨by decide, .inl (by decide)⟩
    · exact ⟨hhigh.1, .inl hhigh.2⟩
    · exact ⟨hlow.1, .inl hlow.2⟩
  · simp only [List.mem_cons, List.not_mem_nil, or_false] at h
    exact ⟨by rw [h]; omega, .inr h⟩

theorem escapeChar_of_wide (h : 128 ≤ c.toNat) : escapeChar c = [c] := by
  have hne : ∀ d : Char, d.toNat < 128 → c ≠ d := by
    rintro d hd rfl
    omega
  have hcontrol : ¬ c.toNat < 32 := by omega
  simp [escapeChar, hcontrol, hne '"' (by decide), hne '\\' (by decide), hne '\n' (by decide),
    hne '\r' (by decide), hne '\t' (by decide), hne '\x08' (by decide), hne '\x0c' (by decide)]

theorem mem_quoted {s : String} (h : c ∈ quoted s) :
    32 ≤ c.toNat ∧ (c.toNat < 128 ∨ c ∈ s.toList) := by
  simp only [quoted, List.mem_append, List.mem_cons, List.mem_flatMap, List.not_mem_nil,
    or_false] at h
  rcases h with (rfl | ⟨d, hd, hc⟩) | rfl
  · exact ⟨by decide, .inl (by decide)⟩
  · obtain ⟨hlow, hascii | rfl⟩ := mem_escapeChar hc
    · exact ⟨hlow, .inl hascii⟩
    · exact ⟨hlow, .inr hd⟩
  · exact ⟨by decide, .inl (by decide)⟩

theorem quoted_of_wide {s : String} (h : c ∈ s.toList) (hwide : 128 ≤ c.toNat) :
    c ∈ quoted s := by
  simp only [quoted, List.mem_append, List.mem_cons, List.mem_flatMap]
  exact .inl (.inr ⟨c, h, by simp [escapeChar_of_wide hwide]⟩)

theorem isDigit_range (h : c.isDigit = true) : 32 ≤ c.toNat ∧ c.toNat < 128 := by
  simp only [Char.isDigit, ge_iff_le, Bool.and_eq_true, decide_eq_true_eq, UInt32.le_iff_toNat_le]
    at h
  have hlow : '0'.val.toNat = 48 := rfl
  have hhigh : '9'.val.toNat = 57 := rfl
  simp only [Char.toNat]
  omega

theorem mem_print {value : N} (h : c ∈ NumText.print value) :
    32 ≤ c.toNat ∧ c.toNat < 128 := by
  have hc := NumText.print_chars value c h
  simp only [List.mem_cons, List.not_mem_nil, or_false] at hc
  rcases hc with hd | rfl | rfl | rfl | rfl | rfl
  · exact isDigit_range hd
  all_goals decide

/-- No control character, and outside ASCII only what given strings hold. -/
def Printed (strings : List String) (c : Char) : Prop :=
  32 ≤ c.toNat ∧ (c.toNat < 128 ∨ ∃ s ∈ strings, c ∈ s.toList)

theorem printed_of_ascii {strings : List String} (h : 32 ≤ c.toNat ∧ c.toNat < 128) :
    Printed strings c := ⟨h.1, .inl h.2⟩

theorem Printed.mono {strings more : List String} (h : Printed strings c)
    (hmore : ∀ s ∈ strings, s ∈ more) : Printed more c := by
  obtain ⟨hlow, hascii | ⟨s, hs, hc⟩⟩ := h
  · exact ⟨hlow, .inl hascii⟩
  · exact ⟨hlow, .inr ⟨s, hmore s hs, hc⟩⟩

theorem printed_of_quoted {s : String} {strings : List String} (h : c ∈ quoted s)
    (hs : s ∈ strings) : Printed strings c := by
  obtain ⟨hlow, hascii | hmem⟩ := mem_quoted h
  · exact ⟨hlow, .inl hascii⟩
  · exact ⟨hlow, .inr ⟨s, hs, hmem⟩⟩

mutual

/-- A printed document holds no control character, and outside ASCII only what its strings hold. -/
theorem mem_text : ∀ (value : Json N) {c : Char}, c ∈ text value → Printed (strings value) c
  | .null, c, h => by
      simp only [text, List.mem_cons, List.not_mem_nil, or_false] at h
      rcases h with rfl | rfl | rfl | rfl <;> exact printed_of_ascii (by decide)
  | .bool true, c, h => by
      simp only [text, List.mem_cons, List.not_mem_nil, or_false] at h
      rcases h with rfl | rfl | rfl | rfl <;> exact printed_of_ascii (by decide)
  | .bool false, c, h => by
      simp only [text, List.mem_cons, List.not_mem_nil, or_false] at h
      rcases h with rfl | rfl | rfl | rfl | rfl <;> exact printed_of_ascii (by decide)
  | .num value, c, h => printed_of_ascii (mem_print h)
  | .str value, c, h => printed_of_quoted h (by simp [strings])
  | .arr items, c, h => by
      simp only [text, List.mem_append, List.mem_cons, List.not_mem_nil, or_false] at h
      rcases h with (rfl | h) | rfl
      · exact printed_of_ascii (by decide)
      · exact mem_textItems items h
      · exact printed_of_ascii (by decide)
  | .obj members, c, h => by
      simp only [text, List.mem_append, List.mem_cons, List.not_mem_nil, or_false] at h
      rcases h with (rfl | h) | rfl
      · exact printed_of_ascii (by decide)
      · exact mem_textMembers members h
      · exact printed_of_ascii (by decide)
  | .foreign _, c, h => absurd h (by simp [text])

theorem mem_textItems : ∀ (items : List (Json N)) {c : Char}, c ∈ textItems items →
    Printed (stringsItems items) c
  | [], c, h => absurd h (by simp [textItems])
  | [item], c, h => (mem_text item h).mono (by simp [stringsItems])
  | item :: next :: rest, c, h => by
      simp only [textItems, List.mem_append, List.mem_cons] at h
      rw [stringsItems]
      rcases h with h | rfl | rfl | h
      · exact (mem_text item h).mono fun _ ↦ List.mem_append_left _
      · exact printed_of_ascii (by decide)
      · exact printed_of_ascii (by decide)
      · exact (mem_textItems (next :: rest) h).mono fun _ ↦ List.mem_append_right _

theorem mem_textMembers : ∀ (members : List (String × Json N)) {c : Char},
    c ∈ textMembers members → Printed (stringsMembers members) c
  | [], c, h => absurd h (by simp [textMembers])
  | [(key, value)], c, h => by
      simp only [textMembers, List.mem_append, List.mem_cons] at h
      rcases h with h | rfl | rfl | h
      · exact printed_of_quoted h (by simp [stringsMembers])
      · exact printed_of_ascii (by decide)
      · exact printed_of_ascii (by decide)
      · exact (mem_text value h).mono fun s hs ↦ by simp [stringsMembers, hs]
  | (key, value) :: next :: rest, c, h => by
      simp only [textMembers, List.mem_append, List.mem_cons] at h
      rw [stringsMembers]
      rcases h with (h | rfl | rfl | h) | rfl | rfl | h
      · exact printed_of_quoted h (by simp)
      · exact printed_of_ascii (by decide)
      · exact printed_of_ascii (by decide)
      · exact (mem_text value h).mono fun s hs ↦ by simp [hs]
      · exact printed_of_ascii (by decide)
      · exact printed_of_ascii (by decide)
      · exact (mem_textMembers (next :: rest) h).mono fun _ ↦ List.mem_append_right _

end

mutual

/-- What a string of the document holds outside ASCII stands in the text as it is. -/
theorem wide_mem_text : ∀ (value : Json N) {s : String} {c : Char}, s ∈ strings value →
    c ∈ s.toList → 128 ≤ c.toNat → c ∈ text value
  | .str value, s, c, hs, hc, hwide => by
      simp only [strings, List.mem_cons, List.not_mem_nil, or_false] at hs
      subst hs
      exact quoted_of_wide hc hwide
  | .arr items, s, c, hs, hc, hwide => by
      have h := wide_mem_textItems items hs hc hwide
      simp [text, h]
  | .obj members, s, c, hs, hc, hwide => by
      have h := wide_mem_textMembers members hs hc hwide
      simp [text, h]
  | .null, _, _, hs, _, _ => absurd hs (by simp [strings])
  | .bool _, _, _, hs, _, _ => absurd hs (by simp [strings])
  | .num _, _, _, hs, _, _ => absurd hs (by simp [strings])
  | .foreign _, _, _, hs, _, _ => absurd hs (by simp [strings])

/-- `wide_mem_text` for the items of an array. -/
theorem wide_mem_textItems : ∀ (items : List (Json N)) {s : String} {c : Char},
    s ∈ stringsItems items → c ∈ s.toList → 128 ≤ c.toNat → c ∈ textItems items
  | [], _, _, hs, _, _ => absurd hs (by simp [stringsItems])
  | [item], s, c, hs, hc, hwide => by
      simp only [stringsItems, List.append_nil] at hs
      exact wide_mem_text item hs hc hwide
  | item :: next :: rest, s, c, hs, hc, hwide => by
      rw [stringsItems, List.mem_append] at hs
      rcases hs with hs | hs
      · simp [textItems, wide_mem_text item hs hc hwide]
      · simp [textItems, wide_mem_textItems (next :: rest) hs hc hwide]

/-- `wide_mem_text` for the members of an object. -/
theorem wide_mem_textMembers : ∀ (members : List (String × Json N)) {s : String} {c : Char},
    s ∈ stringsMembers members → c ∈ s.toList → 128 ≤ c.toNat → c ∈ textMembers members
  | [], _, _, hs, _, _ => absurd hs (by simp [stringsMembers])
  | [(key, value)], s, c, hs, hc, hwide => by
      simp only [stringsMembers, List.append_nil, List.mem_cons] at hs
      rcases hs with rfl | hs
      · simp [textMembers, quoted_of_wide hc hwide]
      · simp [textMembers, wide_mem_text value hs hc hwide]
  | (key, value) :: next :: rest, s, c, hs, hc, hwide => by
      rw [stringsMembers, List.mem_append, List.mem_cons] at hs
      rcases hs with (rfl | hs) | hs
      · simp [textMembers, quoted_of_wide hc hwide]
      · simp [textMembers, wide_mem_text value hs hc hwide]
      · simp [textMembers, wide_mem_textMembers (next :: rest) hs hc hwide]

end

end QuantAgent.Library.Json
