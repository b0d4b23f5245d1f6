import Mathlib.Data.List.DropRight

/-!
# Text files read line by line

The bytes of a UTF-8 file, universal newlines, and the splitting of a text into lines.  Lines end
at every character that ends a line for `str.splitlines`, which is a larger set than the one a
text file is written with; a text without any of these comes back as the line it was written as.
-/

namespace QuantAgent.Library.TextFile

def encodeUtf8 (chars : List Char) : ByteArray :=
  (String.ofList chars).toByteArray

/-- Decode bytes; `none` is the decode error on a cut or foreign sequence. -/
def decodeUtf8 (bytes : ByteArray) : Option (List Char) :=
  bytes.utf8Decode?.map Array.toList

/-- The newline translation of a file opened in text mode. -/
def universalNewlines : List Char → List Char
  | '\r' :: '\n' :: rest => '\n' :: universalNewlines rest
  | c :: rest => (if c = '\r' then '\n' else c) :: universalNewlines rest
  | [] => []

/-- The characters at which a text is split into lines. -/
def isLineBoundary (c : Char) : Bool :=
  c ∈ ['\n', '\r', '\x0b', '\x0c', '\x1c', '\x1d', '\x1e', '\u0085', '\u2028', '\u2029']

/-- The line under construction, and the text after it. -/
def splitLinesFrom (line : List Char) : List Char → List (List Char)
  | '\r' :: '\n' :: rest => line :: splitLinesFrom [] rest
  | c :: rest =>
    if isLineBoundary c then line :: splitLinesFrom [] rest
    else splitLinesFrom (line ++ [c]) rest
  | [] => if line = [] then [] else [line]

def splitLines (chars : List Char) : List (List Char) :=
  splitLinesFrom [] chars

/-- The characters that are stripped from the ends of a line. -/
def isSpace (c : Char) : Bool :=
  c ∈ [' ', '\t', '\n', '\r', '\x0b', '\x0c', '\x1c', '\x1d', '\x1e', '\x1f', '\u0085', '\u00a0',
    '\u1680', '\u2000', '\u2001', '\u2002', '\u2003', '\u2004', '\u2005', '\u2006', '\u2007',
    '\u2008', '\u2009', '\u200a', '\u2028', '\u2029', '\u202f', '\u205f', '\u3000']

/-- A text without the blanks at its ends. -/
def strip (chars : List Char) : List Char :=
  (chars.dropWhile isSpace).rdropWhile isSpace

theorem encodeUtf8_append (first second : List Char) :
    encodeUtf8 (first ++ second) = encodeUtf8 first ++ encodeUtf8 second := by
  simp [encodeUtf8]

theorem decodeUtf8_encodeUtf8 (chars : List Char) : decodeUtf8 (encodeUtf8 chars) = some chars := by
  simp [decodeUtf8, encodeUtf8, List.utf8Decode?_utf8Encode]

/-- Whole characters in front of the bytes are decoded first. -/
theorem decodeUtf8_encodeUtf8_append (chars : List Char) (bytes : ByteArray) :
    decodeUtf8 (encodeUtf8 chars ++ bytes) = (decodeUtf8 bytes).map (chars ++ ·) := by
  induction chars with
  | nil =>
    simp [encodeUtf8]
  | cons c chars ih =>
    have hsplit : encodeUtf8 (c :: chars) = [c].utf8Encode ++ encodeUtf8 chars := by
      rw [← List.singleton_append, encodeUtf8_append]
      simp [encodeUtf8]
    rw [hsplit, ByteArray.append_assoc, decodeUtf8,
      ByteArray.utf8Decode?_utf8Encode_singleton_append]
    rw [decodeUtf8] at ih
    simp only [Option.map_map] at ih ⊢
    cases hdecoded : (encodeUtf8 chars ++ bytes).utf8Decode? with
    | none =>
      rw [hdecoded] at ih
      cases hrest : decodeUtf8 bytes with
      | none => rfl
      | some _ => simp [hrest] at ih
    | some rest =>
      rw [hdecoded] at ih
      cases hrest : decodeUtf8 bytes with
      | none => simp [hrest] at ih
      | some tail =>
        simp only [hrest, Option.map_some, Option.some.injEq] at ih
        simp [ih]

variable {bytes : ByteArray} {chars : List Char}

theorem encodeUtf8_of_decodeUtf8 (h : decodeUtf8 bytes = some chars) :
    encodeUtf8 chars = bytes := by
  obtain ⟨decoded, hdecoded, rfl⟩ := Option.map_eq_some_iff.mp h
  have hget := ByteArray.utf8Encode_get_utf8Decode? (b := bytes)
    (h := Option.isSome_of_eq_some hdecoded)
  simpa [encodeUtf8, hdecoded] using hget

/-- Bytes cut from an encoded text decode, if at all, to an initial part of the text. -/
theorem exists_append_of_decodeUtf8 {rest : ByteArray} {whole : List Char}
    (h : decodeUtf8 bytes = some chars) (hcut : bytes ++ rest = encodeUtf8 whole) :
    ∃ missing, chars ++ missing = whole := by
  have hbytes := encodeUtf8_of_decodeUtf8 h
  refine List.isPrefix_of_utf8Encode_append_eq_utf8Encode rest ?_
  rw [← hbytes] at hcut
  simpa [encodeUtf8] using hcut

theorem encodeUtf8_ne_empty (h : chars ≠ []) :
    encodeUtf8 chars ≠ .empty := by
  intro hempty
  have hdecode := decodeUtf8_encodeUtf8 chars
  rw [hempty] at hdecode
  exact h (Option.some.inj hdecode).symm

theorem universalNewlines_of_no_return (h : '\r' ∉ chars) :
    universalNewlines chars = chars := by
  induction chars with
  | nil => rfl
  | cons c chars ih =>
    have hc : c ≠ '\r' := fun heq ↦ h (heq ▸ List.mem_cons_self)
    have hrest := ih (fun hmem ↦ h (List.mem_cons_of_mem _ hmem))
    rw [universalNewlines]
    · simp [hc, hrest]
    · rintro rest rfl
      exact absurd rfl hc

variable {c : Char}

theorem splitLinesFrom_cons_boundary (hc : isLineBoundary c = true) (hreturn : c ≠ '\r')
    (line rest : List Char) :
    splitLinesFrom line (c :: rest) = line :: splitLinesFrom [] rest := by
  rw [splitLinesFrom]
  · simp [hc]
  · rintro tail rfl
    exact absurd rfl hreturn

theorem splitLinesFrom_cons (hc : isLineBoundary c = false) (line rest : List Char) :
    splitLinesFrom line (c :: rest) = splitLinesFrom (line ++ [c]) rest := by
  rw [splitLinesFrom]
  · simp [hc]
  · rintro tail rfl
    exact absurd hc (by decide)

section

variable (h : ∀ c ∈ chars, isLineBoundary c = false)
include h

theorem splitLinesFrom_append (line rest : List Char) :
    splitLinesFrom line (chars ++ rest) = splitLinesFrom (line ++ chars) rest := by
  induction chars generalizing line with
  | nil => simp
  | cons c chars ih =>
    rw [List.cons_append, splitLinesFrom_cons (h c (by simp)), ih (fun d hd ↦ h d (by simp [hd]))]
    simp

/-- A text without line ends, behind which the next character ends the line. -/
theorem splitLines_boundary (hc : isLineBoundary c = true) (hreturn : c ≠ '\r') (rest : List Char) :
    splitLines (chars ++ c :: rest) = chars :: splitLines rest := by
  rw [splitLines, splitLinesFrom_append h, splitLinesFrom_cons_boundary hc hreturn]
  rfl

theorem splitLines_last (hne : chars ≠ []) :
    splitLines chars = [chars] := by
  have hsplit := splitLinesFrom_append h [] []
  rw [List.append_nil] at hsplit
  rw [splitLines, hsplit, splitLinesFrom]
  simp [hne]

end

theorem no_boundary_of_mem_splitLinesFrom {line text : List Char}
    (hline : ∀ c ∈ line, isLineBoundary c = false) :
    ∀ found ∈ splitLinesFrom line text, ∀ c ∈ found, isLineBoundary c = false := by
  induction line, text using splitLinesFrom.induct with
  | case1 line rest ih =>
    intro found hfound
    rw [splitLinesFrom] at hfound
    rcases List.mem_cons.mp hfound with rfl | hfound
    · exact hline
    · exact ih (by simp) found hfound
  | case2 line c rest hreturn hboundary ih =>
    intro found hfound
    rw [splitLinesFrom, if_pos hboundary] at hfound
    · rcases List.mem_cons.mp hfound with rfl | hfound
      · exact hline
      · exact ih (by simp) found hfound
    · exact hreturn
  | case3 line c rest hreturn hboundary ih =>
    intro found hfound
    rw [splitLinesFrom, if_neg hboundary] at hfound
    · refine ih (fun d hd ↦ ?_) found hfound
      rcases List.mem_append.mp hd with hd | hd
      · exact hline d hd
      · rw [List.mem_singleton.mp hd]
        exact Bool.eq_false_iff.mpr hboundary
    · exact hreturn
  | case4 =>
    intro found hfound
    simp [splitLinesFrom] at hfound
  | case5 line hne =>
    intro found hfound
    rw [splitLinesFrom, if_neg hne] at hfound
    rw [List.mem_singleton.mp hfound]
    exact hline

theorem exists_first_boundary (h : ∃ c ∈ chars, isLineBoundary c = true) :
    ∃ first c rest, chars = first ++ c :: rest ∧ isLineBoundary c = true ∧
      ∀ d ∈ first, isLineBoundary d = false := by
  induction chars with
  | nil => simp at h
  | cons c chars ih =>
    cases hc : isLineBoundary c with
    | true => exact ⟨[], c, chars, rfl, hc, by simp⟩
    | false =>
      obtain ⟨d, hd, hboundary⟩ := h
      have htail : ∃ d ∈ chars, isLineBoundary d = true := by
        rcases List.mem_cons.mp hd with rfl | hd
        · rw [hc] at hboundary
          cases hboundary
        · exact ⟨d, hd, hboundary⟩
      obtain ⟨first, e, rest, rfl, he, hfirst⟩ := ih htail
      refine ⟨c :: first, e, rest, rfl, he, ?_⟩
      intro x hx
      rcases List.mem_cons.mp hx with rfl | hx
      · exact hc
      · exact hfirst x hx

theorem dropWhile_of_start (hc : isSpace c = false) (rest : List Char) :
    (c :: rest).dropWhile isSpace = c :: rest := by
  simp [hc]

/-- A text that starts and ends with something visible is left alone. -/
theorem strip_of_visible {first last : Char} {rest middle : List Char}
    (hfirst : isSpace first = false) (hlast : isSpace last = false)
    (h : first :: rest = middle ++ [last]) : strip (first :: rest) = first :: rest := by
  have hlast' : ¬ isSpace last = true := by simp [hlast]
  rw [strip, dropWhile_of_start hfirst, h, List.rdropWhile_concat_neg _ _ _ hlast']

/-- Stripping a text that starts with something visible only shortens it, and never past the last
visible character. -/
theorem strip_append {visible : List Char}
    (hstart : ∀ d, visible.head? = some d → isSpace d = false) (hc : isSpace c = false)
    (rest : List Char) :
    ∃ kept dropped, rest = kept ++ dropped ∧
      strip (visible ++ c :: rest) = visible ++ c :: kept := by
  have hdrop : (visible ++ c :: rest).dropWhile isSpace = visible ++ c :: rest := by
    cases visible with
    | nil => exact dropWhile_of_start hc rest
    | cons d visible => exact dropWhile_of_start (hstart d rfl) _
  rw [strip, hdrop]
  induction rest using List.reverseRecOn with
  | nil =>
    have hc' : ¬ isSpace c = true := by simp [hc]
    exact ⟨[], [], rfl, List.rdropWhile_concat_neg _ _ _ hc'⟩
  | append_singleton rest d ih =>
    have hassoc : visible ++ c :: (rest ++ [d]) = (visible ++ c :: rest) ++ [d] := by simp
    rw [hassoc, List.rdropWhile_concat]
    split
    · have hdrop' : (visible ++ c :: rest).dropWhile isSpace = visible ++ c :: rest := by
        cases visible with
        | nil => exact dropWhile_of_start hc rest
        | cons d visible => exact dropWhile_of_start (hstart d rfl) _
      obtain ⟨kept, dropped, rfl, hkept⟩ := ih hdrop'
      exact ⟨kept, dropped ++ [d], by simp, hkept⟩
    · exact ⟨rest ++ [d], [], by simp, hassoc.symm⟩

end QuantAgent.Library.TextFile
