import QuantAgent.Library.JsonTorn
import QuantAgent.Library.TextFile

/-!
# A file of objects, some of whose lines are cut

Objects are printed one a line to the end of a file, and of some only a part arrives.  The file is
read line by line, and a line that is no document is an error.  The reader comes to the end exactly
if every line but the last that left anything is whole, and of the last at most the line end is
missing: whatever is written behind a cut line shares that line, and the two are no document.
-/

namespace QuantAgent.Library.TornLines

open TextFile

variable {N : Type}

/-- The byte behind a cut, where a whole character follows it. -/
theorem isUTF8FirstByte_behind {bytes cut rest : ByteArray} {c : Char}
    (h : bytes = cut ++ (encodeUtf8 [c] ++ rest)) (hsize : cut.size < bytes.size) :
    bytes[cut.size].IsUTF8FirstByte := by
  subst h
  have hchar : encodeUtf8 [c] = (String.utf8EncodeChar c).toByteArray := by
    simp [encodeUtf8, List.utf8Encode_singleton]
  rw [ByteArray.getElem_append_right (le_refl _)]
  simp only [Nat.sub_self, hchar]
  exact ByteArray.isUTF8FirstByte_getElem_zero_utf8EncodeChar_append

variable {chars : List Char}

/-- Bytes in front of a whole character that decode with it decode alone. -/
theorem exists_decode_of_append_char {cut rest : ByteArray} {c : Char}
    (h : decodeUtf8 (cut ++ (encodeUtf8 [c] ++ rest)) = some chars) :
    ∃ kept, decodeUtf8 cut = some kept := by
  have hbytes : (String.ofList chars).toByteArray = cut ++ (encodeUtf8 [c] ++ rest) :=
    encodeUtf8_of_decodeUtf8 h
  have hpos : 0 < (encodeUtf8 [c]).size := by
    apply Nat.pos_of_ne_zero
    intro hzero
    exact encodeUtf8_ne_empty (List.cons_ne_nil c []) (ByteArray.size_eq_zero_iff.mp hzero)
  have hsize : cut.size < (String.ofList chars).toByteArray.size := by
    rw [hbytes, ByteArray.size_append, ByteArray.size_append]
    omega
  have hvalid : String.Pos.Raw.IsValid (String.ofList chars) ⟨cut.size⟩ :=
    String.Pos.Raw.isValid_iff_isUTF8FirstByte.mpr
      (Or.inr ⟨hsize, isUTF8FirstByte_behind hbytes hsize⟩)
  have hcut := hvalid.isValidUTF8_extract_zero
  rw [hbytes, ByteArray.extract_append_eq_left rfl] at hcut
  obtain ⟨kept, hkept⟩ := Option.isSome_iff_exists.mp (ByteArray.isSome_utf8Decode?_iff.mpr hcut)
  exact ⟨kept.toList, by rw [decodeUtf8, hkept, Option.map_some]⟩

/-- The line under construction, and the text after it. -/
def linesFrom (line : List Char) : List Char → List (List Char)
  | [] => if line = [] then [] else [line]
  | c :: rest => if c = '\n' then line :: linesFrom [] rest else linesFrom (line ++ [c]) rest

section Read

variable [NumText N]

/-- The documents of the lines that are not blank; `none` is a line that is no document. -/
def readLines : List (List Char) → Option (List (Json N))
  | [] => some []
  | line :: rest =>
    if strip line = [] then readLines rest
    else do
      let document ← Json.loads (strip line)
      let later ← readLines rest
      return document :: later

/-- The documents of a file; `none` is a decode error or a line that is no document. -/
def documents (bytes : ByteArray) : Option (List (Json N)) := do
  let chars ← decodeUtf8 bytes
  readLines (linesFrom [] (universalNewlines chars))

end Read

theorem linesFrom_append (h : '\n' ∉ chars) (line rest : List Char) :
    linesFrom line (chars ++ rest) = linesFrom (line ++ chars) rest := by
  induction chars generalizing line with
  | nil => rw [List.nil_append, List.append_nil]
  | cons c chars ih =>
    have hc : c ≠ '\n' := fun heq ↦ h (heq ▸ List.mem_cons_self)
    have hrest := ih (fun hmem ↦ h (List.mem_cons_of_mem _ hmem)) (line ++ [c])
    rw [List.cons_append, linesFrom, if_neg hc, hrest, List.append_assoc, List.singleton_append]

theorem linesFrom_feed (h : '\n' ∉ chars) (line rest : List Char) :
    linesFrom line (chars ++ '\n' :: rest) = (line ++ chars) :: linesFrom [] rest := by
  rw [linesFrom_append h, linesFrom, if_pos rfl]

section Text

variable [NumText N] {members : List (String × Json N)} {chars missing : List Char}

theorem feed_notMem (h : chars ++ missing = (Json.obj members).text) : '\n' ∉ chars := by
  intro hmem
  have htext := h ▸ List.mem_append_left _ hmem
  exact absurd (Json.mem_text _ htext).1 (by decide)

theorem return_notMem (h : chars ++ missing = (Json.obj members).text) : '\r' ∉ chars := by
  intro hmem
  have htext := h ▸ List.mem_append_left _ hmem
  exact absurd (Json.mem_text _ htext).1 (by decide)

/-- A printed object starts and ends with a visible character. -/
theorem strip_object (members : List (String × Json N)) :
    strip (Json.obj members).text = (Json.obj members).text := by
  have hfirst : isSpace '{' = false := by decide
  have hlast : isSpace '}' = false := by decide
  simp only [Json.text, List.cons_append]
  exact strip_of_visible hfirst hlast (by rw [← List.cons_append])

/-- What of an object arrived begins with its brace. -/
theorem exists_brace (h : chars ++ missing = (Json.obj members).text) (hne : chars ≠ []) :
    ∃ rest, chars = '{' :: rest := by
  obtain ⟨c, rest, rfl⟩ := List.exists_cons_of_ne_nil hne
  simp only [Json.text, List.cons_append] at h
  rw [(List.cons.inj h).1]
  exact ⟨rest, rfl⟩

/-- Stripping a nonempty strict initial part of a printed object leaves such a part. -/
theorem loads_strip_cut (hplain : (Json.obj members).Plain)
    (h : chars ++ missing = (Json.obj members).text) (hne : chars ≠ []) (hmissing : missing ≠ []) :
    strip chars ≠ [] ∧ (Json.loads (strip chars) : Option (Json N)) = none := by
  obtain ⟨rest, rfl⟩ := exists_brace h hne
  have hempty : ∀ d, ([] : List Char).head? = some d → isSpace d = false := by simp
  have hbrace : isSpace '{' = false := by decide
  obtain ⟨kept, dropped, rfl, hstrip⟩ := strip_append hempty hbrace rest
  rw [List.nil_append, List.nil_append] at hstrip
  have hcut : '{' :: kept ++ (dropped ++ missing) = (Json.obj members).text := by simpa using h
  rw [hstrip]
  exact ⟨List.cons_ne_nil _ _, Json.loads_torn hplain hcut (by simp [hmissing])⟩

end Text

section Glued

variable [NumText N] {members : List (String × Json N)} {line chars missing : List Char}

/-- A line that starts with an object and has not come to the end of a document outside it. -/
structure Opened (line : List Char) : Prop where
  head : line.head? = some '{'
  inside : Json.Inside (Json.run (.value [] : Json.State N) line)

structure Broken (N : Type) [NumText N] (line : List Char) : Prop extends Opened (N := N) line where
  visible : strip line ≠ []
  loads_eq : (Json.loads (strip line) : Option (Json N)) = none

theorem opened_cut (h : chars ++ missing = (Json.obj members).text) (hne : chars ≠ []) :
    Opened (N := N) chars := by
  have hinside := Json.inside_run_text h hne
  obtain ⟨rest, rfl⟩ := exists_brace h hne
  exact ⟨rfl, hinside⟩

theorem broken_cut (hplain : (Json.obj members).Plain)
    (h : chars ++ missing = (Json.obj members).text) (hne : chars ≠ []) (hmissing : missing ≠ []) :
    Broken N chars := by
  obtain ⟨hvisible, hloads⟩ := loads_strip_cut hplain h hne hmissing
  exact { toOpened := opened_cut h hne, visible := hvisible, loads_eq := hloads }

/-- An object behind an opened line, however little of it arrived, leaves no document. -/
theorem Opened.glue {letter : Char} (hletter : Json.KeyLetter letter) (hline : Opened (N := N) line)
    (hplain : (Json.obj members).Plain) {tail : List Char}
    (hstart : (Json.obj members).text = '{' :: '"' :: letter :: tail)
    (h : chars ++ missing = (Json.obj members).text) (hne : chars ≠ []) :
    Broken N (line ++ chars) := by
  have hopened : Opened (N := N) (line ++ chars) := by
    refine ⟨?_, ?_⟩
    · rw [List.head?_append, hline.head]
      rfl
    · rw [Json.run_append]
      exact Json.inside_run hline.inside chars
  obtain ⟨rest, rfl⟩ := exists_brace h hne
  have hvisible : ∀ d, line.head? = some d → isSpace d = false := by
    intro d hd
    rw [hline.head] at hd
    obtain rfl : '{' = d := Option.some.inj hd
    decide
  obtain ⟨kept, dropped, rfl, hstrip⟩ := strip_append hvisible (c := '{') (by decide) rest
  have hkept : ('{' :: kept) ++ (dropped ++ missing) = (Json.obj members).text := by
    rw [← h]
    simp
  refine { toOpened := hopened, visible := ?_, loads_eq := ?_ }
  · rw [hstrip]
    simp
  · rw [hstrip, Json.loads, Json.run_append]
    exact Json.finish_piece hletter hline.inside hplain hstart hkept (List.cons_ne_nil _ _)

end Glued

/-- What arrived of the line of an object: all of it, or so many bytes of the object itself. -/
structure Piece (N : Type) where
  members : List (String × Json N)
  reached : Option ℕ

section Pieces

variable [NumText N]

namespace Piece

def object (piece : Piece N) : Json N := .obj piece.members

def bytes (piece : Piece N) : ByteArray :=
  match piece.reached with
  | none => encodeUtf8 (piece.object.text ++ ['\n'])
  | some reached => (encodeUtf8 piece.object.text).extract 0 reached

/-- The whole object arrived, with its line end or without. -/
def Printed (piece : Piece N) : Prop :=
  ∀ reached ∈ piece.reached, (encodeUtf8 piece.object.text).size ≤ reached

/-- An object whose first key begins with a letter, of which something arrived. -/
structure Legible (letter : Char) (piece : Piece N) : Prop where
  plain : piece.object.Plain
  starts : ∃ tail, piece.object.text = '{' :: '"' :: letter :: tail
  arrived : piece.reached ≠ some 0

end Piece

def content : List (Piece N) → ByteArray
  | [] => .empty
  | piece :: rest => piece.bytes ++ content rest

/-- Every piece is a whole line, or the last one and printed to its end. -/
def Sound : List (Piece N) → Prop
  | [] => True
  | piece :: rest => (piece.reached = none ∨ rest = [] ∧ piece.Printed) ∧ Sound rest

theorem content_append (first second : List (Piece N)) :
    content (first ++ second) = content first ++ content second := by
  induction first with
  | nil => simp [content]
  | cons piece first ih => rw [List.cons_append, content, content, ih, ByteArray.append_assoc]

variable {pieces : List (Piece N)}

theorem sound_of_whole (h : ∀ piece ∈ pieces, piece.reached = none) :
    Sound pieces := by
  induction pieces with
  | nil => trivial
  | cons piece rest ih =>
    obtain ⟨hpiece, hrest⟩ := List.forall_mem_cons.mp h
    exact ⟨Or.inl hpiece, ih hrest⟩

theorem sound_concat (pieces : List (Piece N)) (piece : Piece N) :
    Sound (pieces ++ [piece]) ↔
      (∀ before ∈ pieces, before.reached = none) ∧ (piece.reached = none ∨ piece.Printed) := by
  induction pieces with
  | nil => simp [Sound]
  | cons first pieces ih =>
    rw [List.cons_append, Sound, ih, List.forall_mem_cons]
    simp [and_assoc]

omit [NumText N] in
theorem extract_of_size_le {bytes : ByteArray} {reached : ℕ} (h : bytes.size ≤ reached) :
    bytes.extract 0 reached = bytes := by
  apply ByteArray.ext
  rw [ByteArray.data_extract, Array.extract_eq_self_of_le]
  exact h

variable {letter : Char}

theorem exists_content_brace (hne : pieces ≠ []) (h : ∀ piece ∈ pieces, piece.Legible letter) :
    ∃ bytes, content pieces = encodeUtf8 ['{'] ++ bytes := by
  obtain ⟨piece, rest, rfl⟩ := List.exists_cons_of_ne_nil hne
  have hpiece := h piece List.mem_cons_self
  obtain ⟨tail, htail⟩ := hpiece.starts
  have hencode : ∀ chars : List Char,
      encodeUtf8 ('{' :: chars) = encodeUtf8 ['{'] ++ encodeUtf8 chars := by
    intro chars
    rw [← encodeUtf8_append, List.singleton_append]
  rw [content, Piece.bytes, htail]
  cases hreached : piece.reached with
  | none =>
    rw [List.cons_append, hencode, ByteArray.append_assoc]
    exact ⟨_, rfl⟩
  | some reached =>
    have hpos : 1 ≤ reached := by
      have harrived := hpiece.arrived
      rw [hreached] at harrived
      exact Nat.one_le_iff_ne_zero.mpr fun hzero ↦ harrived (congrArg some hzero)
    have hbrace : (encodeUtf8 ['{']).size = 1 := by decide
    have hwhole : (encodeUtf8 ['{']).extract 0 reached = encodeUtf8 ['{'] :=
      extract_of_size_le (hbrace.trans_le hpos)
    dsimp only
    rw [hencode, ByteArray.extract_append, hwhole, ByteArray.append_assoc]
    exact ⟨_, rfl⟩

variable {chars line : List Char}

theorem universalNewlines_append (h : '\r' ∉ chars) (rest : List Char) :
    universalNewlines (chars ++ rest) = chars ++ universalNewlines rest := by
  induction chars with
  | nil => rfl
  | cons c chars ih =>
    have hc : c ≠ '\r' := fun heq ↦ h (heq ▸ List.mem_cons_self)
    rw [List.cons_append, universalNewlines, if_neg hc,
      ih fun hmem ↦ h (List.mem_cons_of_mem _ hmem), List.cons_append]
    intro tail heq
    exact absurd heq hc

theorem Broken.readLines_eq (h : Broken N line) (rest : List (List Char)) :
    readLines (line :: rest) = (none : Option (List (Json N))) := by
  rw [readLines, if_neg h.visible, h.loads_eq]
  rfl

variable {members : List (String × Json N)}

/-- The line of an object is read, and then the rest of the file. -/
theorem documents_line (hplain : (Json.obj members).Plain) (bytes : ByteArray) :
    documents (encodeUtf8 ((Json.obj members).text ++ ['\n']) ++ bytes) =
      (documents bytes).map (Json.obj members :: ·) := by
  have hnil : (Json.obj members).text ++ [] = (Json.obj members).text := List.append_nil _
  have hvisible : (Json.obj members).text ≠ [] := List.cons_ne_nil _ _
  rw [documents, documents, decodeUtf8_encodeUtf8_append]
  cases decodeUtf8 bytes with
  | none => rfl
  | some chars =>
    have hreturn : '\r' ∉ (Json.obj members).text ++ ['\n'] := by
      rw [List.mem_append, not_or]
      exact ⟨return_notMem hnil, by decide⟩
    simp only [Option.map_some, Option.bind_eq_bind, Option.bind_some]
    rw [universalNewlines_append hreturn, List.append_assoc, List.singleton_append,
      linesFrom_feed (feed_notMem hnil), List.nil_append, readLines, strip_object,
      if_neg hvisible, Json.loads_text hplain]
    cases (readLines (linesFrom [] (universalNewlines chars)) : Option (List (Json N))) with
    | none => rfl
    | some later => rfl

/-- An object without its line end at the end of a file is read. -/
theorem documents_object (hplain : (Json.obj members).Plain) :
    documents (encodeUtf8 (Json.obj members).text) = some [Json.obj members] := by
  have hnil : (Json.obj members).text ++ [] = (Json.obj members).text := List.append_nil _
  have hvisible : (Json.obj members).text ≠ [] := List.cons_ne_nil _ _
  have hlines : linesFrom [] (Json.obj members).text = [(Json.obj members).text] := by
    have happend := linesFrom_append (feed_notMem hnil) [] []
    rw [List.append_nil, List.nil_append, linesFrom, if_neg hvisible] at happend
    exact happend
  rw [documents, decodeUtf8_encodeUtf8, Option.bind_eq_bind, Option.bind_some,
    universalNewlines_of_no_return (return_notMem hnil), hlines, readLines, strip_object,
    if_neg hvisible, Json.loads_text hplain]
  rfl

theorem documents_of_sound (h : ∀ piece ∈ pieces, piece.Legible letter) (hsound : Sound pieces) :
    documents (content pieces) = some (pieces.map Piece.object) := by
  induction pieces with
  | nil => rfl
  | cons piece rest ih =>
    obtain ⟨hpiece, hrest⟩ := List.forall_mem_cons.mp h
    have hlater := ih hrest hsound.2
    rw [content, Piece.bytes]
    rcases hsound.1 with hwhole | ⟨rfl, hprinted⟩
    · rw [hwhole]
      have hline := documents_line hpiece.plain (content rest)
      rw [hlater] at hline
      exact hline
    · cases hreached : piece.reached with
      | none =>
        have hline := documents_line hpiece.plain (content ([] : List (Piece N)))
        rw [hlater] at hline
        exact hline
      | some reached =>
        dsimp only
        rw [extract_of_size_le (hprinted reached hreached), content, ByteArray.append_empty]
        exact documents_object hpiece.plain

/-- What of a cut line a reader decodes, and what it decodes behind it. -/
theorem decode_cut {piece : Piece N} {rest : List (Piece N)} {reached : ℕ}
    (hpiece : piece.Legible letter) (hrest : ∀ piece ∈ rest, piece.Legible letter)
    (hreached : piece.reached = some reached)
    (h : decodeUtf8 (content (piece :: rest)) = some chars) :
    ∃ kept missing later, chars = kept ++ later ∧ kept ≠ [] ∧
      kept ++ missing = piece.object.text ∧ (missing = [] → piece.Printed) ∧
      decodeUtf8 (content rest) = some later := by
  have hbytes : piece.bytes = (encodeUtf8 piece.object.text).extract 0 reached := by
    rw [Piece.bytes, hreached]
  have hpos : reached ≠ 0 := fun hzero ↦ hpiece.arrived (hreached.trans (congrArg some hzero))
  obtain ⟨kept, hkept⟩ : ∃ kept, decodeUtf8 piece.bytes = some kept := by
    by_cases hne : rest = []
    · subst hne
      rw [content, content, ByteArray.append_empty] at h
      exact ⟨chars, h⟩
    · obtain ⟨bytes, hbrace⟩ := exists_content_brace hne hrest
      rw [content, hbrace] at h
      exact exists_decode_of_append_char h
  have hencode := encodeUtf8_of_decodeUtf8 hkept
  have hsplit : piece.bytes ++ (encodeUtf8 piece.object.text).extract reached
      (max reached (encodeUtf8 piece.object.text).size) = encodeUtf8 piece.object.text := by
    rw [hbytes, ByteArray.extract_append_extract, Nat.zero_min, extract_of_size_le (by omega)]
  obtain ⟨missing, hmissing⟩ := exists_append_of_decodeUtf8 hkept hsplit
  rw [content, ← hencode, decodeUtf8_encodeUtf8_append] at h
  obtain ⟨later, hlater, rfl⟩ := Option.map_eq_some_iff.mp h
  refine ⟨kept, missing, later, rfl, ?_, hmissing, ?_, hlater⟩
  · rintro rfl
    have hempty := hbytes.symm.trans hencode.symm
    have hsize := ByteArray.extract_eq_empty_iff.mp hempty
    have htext : (encodeUtf8 piece.object.text).size ≠ 0 := by
      intro hzero
      exact encodeUtf8_ne_empty (List.cons_ne_nil _ _) (ByteArray.size_eq_zero_iff.mp hzero)
    omega
  · rintro rfl limit hlimit
    obtain rfl : reached = limit := Option.some.inj (hreached.symm.trans hlimit)
    rw [List.append_nil] at hmissing
    have hsize := congrArg ByteArray.size (hbytes.symm.trans (hencode.symm.trans (congrArg
      encodeUtf8 hmissing)))
    rw [ByteArray.size_extract] at hsize
    omega

section

variable (hletter : Json.KeyLetter letter) (h : ∀ piece ∈ pieces, piece.Legible letter)
include hletter h

/-- Whatever is written behind a line that is no document, the reader stops at that line. -/
theorem readLines_of_broken (hline : Opened (N := N) line) (hbroken : Broken N line ∨ pieces ≠ [])
    (hdecode : decodeUtf8 (content pieces) = some chars) :
    readLines (linesFrom line (universalNewlines chars)) = (none : Option (List (Json N))) := by
  induction pieces generalizing line chars with
  | nil =>
    obtain rfl : [] = chars := by
      rw [content, ← show encodeUtf8 [] = .empty from rfl, decodeUtf8_encodeUtf8] at hdecode
      exact Option.some.inj hdecode
    have hbad := hbroken.resolve_right (absurd rfl)
    have hne : line ≠ [] := by
      rintro rfl
      exact absurd hline.head (by simp)
    rw [universalNewlines, linesFrom, if_neg hne, hbad.readLines_eq]
  | cons piece rest ih =>
    obtain ⟨hpiece, hrest⟩ := List.forall_mem_cons.mp h
    obtain ⟨tail, hstart⟩ := hpiece.starts
    cases hreached : piece.reached with
    | none =>
      have hnil : piece.object.text ++ [] = piece.object.text := List.append_nil _
      have hbad := hline.glue hletter hpiece.plain hstart hnil (List.cons_ne_nil _ _)
      have hreturn : '\r' ∉ piece.object.text ++ ['\n'] := by
        rw [List.mem_append, not_or]
        exact ⟨return_notMem hnil, by decide⟩
      rw [content, Piece.bytes, hreached] at hdecode
      dsimp only at hdecode
      rw [decodeUtf8_encodeUtf8_append] at hdecode
      obtain ⟨later, -, rfl⟩ := Option.map_eq_some_iff.mp hdecode
      rw [universalNewlines_append hreturn, List.append_assoc, List.singleton_append,
        linesFrom_feed (feed_notMem hnil), hbad.readLines_eq]
    | some reached =>
      obtain ⟨kept, missing, later, rfl, hne, hcut, -, hlater⟩ :=
        decode_cut hpiece hrest hreached hdecode
      have hbad := hline.glue hletter hpiece.plain hstart hcut hne
      rw [universalNewlines_append (return_notMem hcut), linesFrom_append (feed_notMem hcut)]
      exact ih hrest hbad.toOpened (Or.inl hbad) hlater

/-- A file that is not sound is not read to its end. -/
theorem documents_of_not_sound (hsound : ¬ Sound pieces) :
    documents (content pieces) = (none : Option (List (Json N))) := by
  induction pieces with
  | nil => exact absurd trivial hsound
  | cons piece rest ih =>
    obtain ⟨hpiece, hrest⟩ := List.forall_mem_cons.mp h
    cases hreached : piece.reached with
    | none =>
      have hlater : ¬ Sound rest := fun hrest ↦ hsound ⟨Or.inl hreached, hrest⟩
      have hline := documents_line hpiece.plain (content rest)
      rw [ih hrest hlater] at hline
      rw [content, Piece.bytes, hreached]
      exact hline
    | some reached =>
      rw [documents]
      cases hdecode : decodeUtf8 (content (piece :: rest)) with
      | none => rfl
      | some chars =>
        obtain ⟨kept, missing, later, rfl, hne, hcut, hprinted, hlater⟩ :=
          decode_cut hpiece hrest hreached hdecode
        have hbroken : Broken N kept ∨ rest ≠ [] := by
          by_cases hnil : rest = []
          · subst hnil
            have hmissing : missing ≠ [] := by
              intro hmissing
              exact hsound ⟨Or.inr ⟨rfl, hprinted hmissing⟩, trivial⟩
            exact Or.inl (broken_cut hpiece.plain hcut hne hmissing)
          · exact Or.inr hnil
        rw [Option.bind_eq_bind, Option.bind_some,
          universalNewlines_append (return_notMem hcut),
          linesFrom_append (feed_notMem hcut), List.nil_append]
        exact readLines_of_broken hletter hrest (opened_cut hcut hne) hbroken hlater

end

end Pieces

end QuantAgent.Library.TornLines
