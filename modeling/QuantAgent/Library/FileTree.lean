import Mathlib.Data.List.Dedup
import Mathlib.Data.List.Infix
import QuantAgent.Library.Dict

/-!
# File trees

Files with their texts and folders, by the components of their paths.  Paths are walked component by
component, with `..` for the folder above; a move renames everything below a path.
-/

namespace QuantAgent.Library

abbrev Path := List String

structure FileTree where
  files : Dict Path String
  folders : List Path

namespace FileTree

def Holds (tree : FileTree) (path : Path) (text : String) : Prop := (path, text) ∈ tree.files.entries

/-- `path.is_file()`. -/
def isFile (tree : FileTree) (path : Path) : Bool := path ∈ tree.files.keys

/-- `path.is_dir()`. -/
def isFolder (tree : FileTree) (path : Path) : Bool :=
  path = [] || tree.folders.any (path <+: ·) ||
    tree.files.keys.any fun file ↦ path <+: file ∧ path ≠ file

/-- `path.exists()`. -/
def present (tree : FileTree) (path : Path) : Bool := tree.isFile path || tree.isFolder path

def children (tree : FileTree) (folder : Path) : List String :=
  ((tree.files.keys ++ tree.folders).filterMap fun path ↦
    if folder <+: path then path[folder.length]? else none).dedup

/-- Where a path of components leads from a folder; what is walked through must be a folder. -/
def resolve (tree : FileTree) : Path → List String → Option Path
  | folder, [] => some folder
  | folder, name :: names =>
    if tree.isFolder folder then
      if name = "" ∨ name = "." then resolve tree folder names
      else if name = ".." then resolve tree folder.dropLast names
      else resolve tree (folder ++ [name]) names
    else none

/-- `path.write_text(text)`. -/
def write (tree : FileTree) (path : Path) (text : String) : FileTree :=
  { tree with files := tree.files.insert path text }

/-- The text of a file, empty where there is none. -/
def textOf (tree : FileTree) (path : Path) : String := (tree.files.get? path).getD ""

def append (tree : FileTree) (path : Path) (text : String) : FileTree :=
  tree.write path (tree.textOf path ++ text)

/-- `path.mkdir(parents=True, exist_ok=True)`; nothing is made where a file is in the way. -/
def makeFolders (tree : FileTree) (path : Path) : Option FileTree :=
  if tree.files.keys.any (· <+: path) then none
  else some { tree with folders := path.inits ++ tree.folders }

/-- `shutil.rmtree(path)`. -/
def removeTree (tree : FileTree) (path : Path) : FileTree where
  files := ⟨tree.files.entries.filter fun entry ↦ ¬ path <+: entry.1,
    tree.files.nodup.sublist (List.filter_sublist.map _)⟩
  folders := tree.folders.filter fun folder ↦ ¬ path <+: folder

/-- `path.rmdir()`, which raises where the folder is not empty. -/
def removeFolder (tree : FileTree) (path : Path) : Option FileTree :=
  if tree.children path ≠ [] then none
  else some { tree with folders := tree.folders.filter (· ≠ path) }

def reroot (source target path : Path) : Path :=
  if source <+: path then target ++ path.drop source.length else path

/-- A path that a move leaves or takes along, and does not replace. -/
def outlives (source target path : Path) : Bool :=
  source <+: path ∨ ¬ target <+: path

variable {other file : Path}

theorem reroot_inj {source target path : Path} (hpath : outlives source target path)
    (hother : outlives source target other)
    (h : reroot source target path = reroot source target other) : path = other := by
  have htarget : ∀ {below : Path}, ¬ source <+: below → outlives source target below →
      ¬ target <+: below := by
    intro below hbelow houtlives
    simpa [outlives, hbelow] using houtlives
  unfold reroot at h
  split at h
  · rename_i hbelow
    split at h
    · rename_i hbelow'
      obtain ⟨rest, rfl⟩ := hbelow
      obtain ⟨rest', rfl⟩ := hbelow'
      simpa using h
    · rename_i hbelow'
      exact absurd (h ▸ List.prefix_append _ _) (htarget hbelow' hother)
  · rename_i hbelow
    split at h
    · exact absurd (h ▸ List.prefix_append _ _) (htarget hbelow hpath)
    · exact h

/-- `os.rename`: what was at the target is replaced. -/
def rename (tree : FileTree) (source target : Path) : FileTree where
  files :=
    ⟨(tree.files.entries.filter fun entry ↦ outlives source target entry.1).map fun entry ↦
        (reroot source target entry.1, entry.2), by
      rw [List.map_map]
      apply List.Nodup.map_on ?_ (tree.files.nodup.of_map _ |>.filter _)
      intro first hfirst second hsecond h
      have hkeys := reroot_inj (List.mem_filter.mp hfirst).2 (List.mem_filter.mp hsecond).2 h
      exact List.inj_on_of_nodup_map tree.files.nodup (List.mem_filter.mp hfirst).1
        (List.mem_filter.mp hsecond).1 hkeys⟩
  folders := source.dropLast.inits ++ target.dropLast.inits ++
    tree.folders.map (reroot source target)

/-- `shutil.move`: into the target where that is a folder. -/
def move (tree : FileTree) (source target : Path) : Option FileTree :=
  let real := if tree.isFolder target then target ++ [source.getLastD ""] else target
  if source = target then some tree
  else if tree.isFolder target && tree.present real then none
  else if tree.isFolder source && (tree.isFile real || source <+: real) then none
  else some (tree.rename source real)

variable {tree : FileTree} {path source target : Path} {text : String}

theorem isFile_iff : tree.isFile path = true ↔ ∃ text, tree.Holds path text := by
  simp only [isFile, decide_eq_true_eq, Dict.keys, List.mem_map, Holds]
  constructor
  · rintro ⟨entry, hentry, rfl⟩
    exact ⟨entry.2, hentry⟩
  · rintro ⟨text, htext⟩
    exact ⟨_, htext, rfl⟩

theorem isFolder_of_below (h : tree.Holds file text) (hbelow : path <+: file) (hne : path ≠ file) :
    tree.isFolder path = true := by
  have hfile : file ∈ tree.files.keys := List.mem_map.mpr ⟨_, h, rfl⟩
  unfold isFolder
  simp only [Bool.or_eq_true, List.any_eq_true, decide_eq_true_eq]
  exact .inr ⟨file, hfile, hbelow, hne⟩

theorem not_below_of_absent (h : tree.present path = false) (hfile : tree.Holds file text) :
    ¬ path <+: file := by
  intro hbelow
  rw [present, Bool.or_eq_false_iff] at h
  rcases eq_or_ne path file with rfl | hne
  · exact absurd (isFile_iff.mpr ⟨text, hfile⟩) (by simp [h.1])
  · exact absurd (isFolder_of_below hfile hbelow hne) (by simp [h.2])

variable {found : String}

theorem holds_write : (tree.write path text).Holds other found ↔
    (other = path ∧ found = text) ∨ (other ≠ path ∧ tree.Holds other found) :=
  Dict.mem_entries_insert

variable {tree' : FileTree}

theorem makeFolders_files (h : tree.makeFolders path = some tree') :
    tree'.files = tree.files := by
  unfold makeFolders at h
  split at h
  · cases h
  · rw [← Option.some.inj h]

theorem removeFolder_files (h : tree.removeFolder path = some tree') :
    tree'.files = tree.files := by
  unfold removeFolder at h
  split at h
  · cases h
  · rw [← Option.some.inj h]

theorem holds_removeTree :
    (tree.removeTree path).Holds other found ↔ tree.Holds other found ∧ ¬ path <+: other := by
  simp [Holds, removeTree]

theorem holds_rename :
    (tree.rename source target).Holds other found ↔ ∃ file, tree.Holds file found ∧
      outlives source target file = true ∧ reroot source target file = other := by
  simp only [Holds, rename, List.mem_map, List.mem_filter, Prod.exists, Prod.mk.injEq]
  constructor
  · rintro ⟨file, text, ⟨hfile, houtlives⟩, hreroot, rfl⟩
    exact ⟨file, hfile, houtlives, hreroot⟩
  · rintro ⟨file, hfile, houtlives, hreroot⟩
    exact ⟨file, found, ⟨hfile, houtlives⟩, hreroot, rfl⟩

/-- A move to where nothing is takes every file below its source along, and leaves the others. -/
theorem holds_reroot (habsent : tree.present target = false) (h : tree.Holds file found) :
    (tree.rename source target).Holds (reroot source target file) found := by
  refine holds_rename.mpr ⟨file, h, ?_, rfl⟩
  have hbelow := not_below_of_absent habsent h
  simp [outlives, hbelow]

theorem reroot_of_not_below (h : ¬ source <+: path) : reroot source target path = path := if_neg h

theorem reroot_append (rest : Path) : reroot source target (source ++ rest) = target ++ rest := by
  unfold reroot
  rw [if_pos (List.prefix_append _ _), List.drop_left]

/-- Files that are below neither end of a move stay as they are. -/
theorem holds_rename_of_apart (hsource : ¬ source <+: other) (htarget : ¬ target <+: other) :
    (tree.rename source target).Holds other found ↔ tree.Holds other found := by
  rw [holds_rename]
  constructor
  · rintro ⟨file, hfile, -, rfl⟩
    by_cases hbelow : source <+: file
    · obtain ⟨rest, rfl⟩ := hbelow
      rw [reroot_append] at htarget
      exact absurd (List.prefix_append _ _) htarget
    · rwa [reroot_of_not_below hbelow]
  · intro h
    refine ⟨other, h, ?_, reroot_of_not_below hsource⟩
    simp [outlives, htarget]

theorem move_of_absent (habsent : tree.present target = false) (hne : source ≠ target)
    (happart : ¬ source <+: target) : tree.move source target = some (tree.rename source target) := by
  have hparts := habsent
  rw [present, Bool.or_eq_false_iff] at hparts
  simp [move, hne, hparts.1, hparts.2, happart]

theorem of_move (habsent : tree.present target = false) (hne : source ≠ target)
    (h : tree.move source target = some tree') : tree' = tree.rename source target := by
  have hparts := habsent
  rw [present, Bool.or_eq_false_iff] at hparts
  unfold move at h
  simp only [hparts.2, Bool.false_eq_true, if_false, hne, Bool.false_and] at h
  split at h
  · cases h
  · exact (Option.some.inj h).symm

theorem present_iff : tree.present path = true ↔ path = [] ∨
    (∃ folder ∈ tree.folders, path <+: folder) ∨ ∃ file text, tree.Holds file text ∧ path <+: file := by
  rw [present, Bool.or_eq_true, isFile_iff]
  constructor
  · rintro (⟨text, htext⟩ | hfolder)
    · exact .inr (.inr ⟨path, text, htext, List.prefix_rfl⟩)
    · simp only [isFolder, Bool.or_eq_true, decide_eq_true_eq, List.any_eq_true, Dict.keys,
        List.mem_map] at hfolder
      rcases hfolder with (hroot | ⟨folder, hfolder, hbelow⟩) | ⟨file, ⟨entry, hentry, rfl⟩, hbelow, -⟩
      · exact .inl hroot
      · exact .inr (.inl ⟨folder, hfolder, hbelow⟩)
      · exact .inr (.inr ⟨entry.1, entry.2, hentry, hbelow⟩)
  · rintro (rfl | ⟨folder, hfolder, hbelow⟩ | ⟨file, text, hfile, hbelow⟩)
    · exact .inr (by simp [isFolder])
    · right
      simp only [isFolder, Bool.or_eq_true, decide_eq_true_eq, List.any_eq_true]
      exact .inl (.inr ⟨folder, hfolder, hbelow⟩)
    · by_cases hsame : path = file
      · exact .inl ⟨text, hsame ▸ hfile⟩
      · exact .inr (isFolder_of_below hfile hbelow hsame)

theorem present_of_prefix (h : tree.present source = true) (hbelow : path <+: source) :
    tree.present path = true := by
  rw [present_iff] at h ⊢
  rcases h with rfl | ⟨folder, hfolder, habove⟩ | ⟨file, text, hfile, habove⟩
  · exact .inl (List.prefix_nil.mp hbelow)
  · exact .inr (.inl ⟨folder, hfolder, hbelow.trans habove⟩)
  · exact .inr (.inr ⟨file, text, hfile, hbelow.trans habove⟩)

/-- A path that is below and above a rerooted one only where it was so before the move. -/
theorem prefix_of_reroot {below : Path} (h : path <+: reroot source target below)
    (habove : ¬ path <+: target) (hbelow : ¬ target <+: path) : path <+: below := by
  by_cases hmoved : source <+: below
  · obtain ⟨rest, rfl⟩ := hmoved
    rw [reroot_append] at h
    rcases List.prefix_or_prefix_of_prefix h (List.prefix_append target rest) with hle | hle
    · exact absurd hle habove
    · exact absurd hle hbelow
  · rwa [reroot_of_not_below hmoved] at h

/-- A move makes nothing present apart from its target. -/
theorem present_rename (h : tree.present path = false) (habove : ¬ path <+: target)
    (hbelow : ¬ target <+: path) (hsource : ¬ path <+: source.dropLast) :
    (tree.rename source target).present path = false := by
  rw [← Bool.not_eq_true, present_iff] at h ⊢
  rintro (rfl | ⟨folder, hfolder, hunder⟩ | ⟨file, text, hfile, hunder⟩)
  · exact h (.inl rfl)
  · simp only [rename, List.mem_append, List.mem_inits, List.mem_map] at hfolder
    rcases hfolder with (hinit | hinit) | ⟨before, hbefore, rfl⟩
    · exact hsource (hunder.trans hinit)
    · exact habove (hunder.trans (hinit.trans (List.dropLast_prefix _)))
    · exact h (.inr (.inl ⟨before, hbefore, prefix_of_reroot hunder habove hbelow⟩))
  · obtain ⟨before, hbefore, -, rfl⟩ := holds_rename.mp hfile
    exact h (.inr (.inr ⟨before, text, hbefore, prefix_of_reroot hunder habove hbelow⟩))

theorem mem_children {name : String} : name ∈ tree.children path ↔
    (∃ folder ∈ tree.folders, path ++ [name] <+: folder) ∨
      ∃ file text, tree.Holds file text ∧ path ++ [name] <+: file := by
  have hstep : ∀ {other : Path}, (if path <+: other then other[path.length]? else none) = some name ↔
      path ++ [name] <+: other := by
    intro other
    constructor
    · intro h
      split at h
      · rename_i hunder
        obtain ⟨rest, rfl⟩ := hunder
        cases rest with
        | nil => simp at h
        | cons first rest =>
          simp only [List.getElem?_append_right le_rfl, Nat.sub_self, List.getElem?_cons_zero,
            Option.some.injEq] at h
          subst h
          exact ⟨rest, by simp⟩
      · cases h
    · rintro ⟨rest, rfl⟩
      rw [List.append_assoc, if_pos (List.prefix_append _ _),
        List.getElem?_append_right le_rfl, Nat.sub_self]
      rfl
  simp only [children, List.mem_dedup, List.mem_filterMap, List.mem_append, hstep]
  constructor
  · rintro ⟨other, hfile | hfolder, hunder⟩
    · obtain ⟨entry, hentry, rfl⟩ := List.mem_map.mp hfile
      exact .inr ⟨entry.1, entry.2, hentry, hunder⟩
    · exact .inl ⟨other, hfolder, hunder⟩
  · rintro (⟨folder, hfolder, hunder⟩ | ⟨file, text, hfile, hunder⟩)
    · exact ⟨folder, .inr hfolder, hunder⟩
    · exact ⟨file, .inl (List.mem_map.mpr ⟨_, hfile, rfl⟩), hunder⟩

end FileTree

end QuantAgent.Library
