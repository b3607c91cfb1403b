/-
# Paths of a Unix system

A path is a text that is read as components: `/` separates them, empty and `.` segments are
dropped where they mean nothing, and what counts as the parent is again a text.  This is how
the standard library of Rust reads a path.

A path is kept as its segments, the texts between the separators.  Locations of files are
lists of names, the outermost directory first, and a file system says what is where; there are
no links in it.
-/
import Mathlib.Data.List.DropRight
import Mathlib.Data.List.Infix
import Mathlib.Logic.Function.Basic

namespace UnixPath

open List

/-- The texts between the separators. -/
abbrev Segments := List (List Char)

/-- A location, as the names on the way to it. -/
abbrev Location := List (List Char)

inductive Component : Type where
  | rootDir
  | curDir
  | parentDir
  | normal (name : List Char)
  deriving DecidableEq

/-- `Path::new`. -/
def segments (t : List Char) : Segments := t.splitOn '/'

/-- The text of a path. -/
def text (p : Segments) : List Char := ['/'].intercalate p

/-- The component of a segment behind a separator, if it is one. -/
def inner (segment : List Char) : Option Component :=
  if segment = [] ∨ segment = ['.'] then none
  else if segment = ['.', '.'] then some .parentDir
  else some (.normal segment)

/-- The component of the first segment, which is not empty. -/
def leading (segment : List Char) : Component :=
  if segment = ['.'] then .curDir
  else if segment = ['.', '.'] then .parentDir
  else .normal segment

/-- `Path::components`. -/
def components : Segments → List Component
  | [] | [[]] => []
  | [] :: rest => .rootDir :: rest.filterMap inner
  | first :: rest => leading first :: rest.filterMap inner

/-- Drop the segments at the end that are no components. -/
def trimEnd (rest : Segments) : Segments :=
  rest.rdropWhile fun segment => (inner segment).isNone

/-- `Path::parent`. -/
def parent : Segments → Option Segments
  | [] | [[]] => none
  | first :: rest =>
    if trimEnd rest = [] then if first = [] then none else some [[]]
    else if first = [] ∧ trimEnd (trimEnd rest).dropLast = [] then some [[], []]
    else some (first :: trimEnd (trimEnd rest).dropLast)

/-- The names that a path adds to a location. -/
def Component.name : Component → Option (List Char)
  | .normal name => some name
  | .parentDir => some ['.', '.']
  | _ => none

def names (p : Segments) : Location := (components p).filterMap Component.name

/-- `Path::join`. -/
def join (base : Location) (p : Segments) : Location :=
  if (components p).head? = some .rootDir then names p else base ++ names p

/-- The component goes down or stays. -/
def Component.isDown : Component → Bool
  | .normal _ | .curDir => true
  | _ => false

/-- No component leads up or to the root. -/
def Descends (p : Segments) : Prop := ∀ c ∈ components p, c.isDown = true

instance (p : Segments) : Decidable (Descends p) :=
  inferInstanceAs (Decidable (∀ c ∈ components p, c.isDown = true))

theorem join_of_descends {base : Location} {p : Segments} (h : Descends p) :
    join base p = base ++ names p := by
  unfold join
  rw [if_neg]
  intro hroot
  have hmem : Component.rootDir ∈ components p := mem_of_head? hroot
  have hdown := h _ hmem
  cases hdown

/-- What a path reads after its first segment. -/
theorem components_cons {first : List Char} (hfirst : first ≠ []) (rest : Segments) :
    components (first :: rest) = leading first :: rest.filterMap inner := by
  unfold components
  split
  · simp_all
  · simp_all
  · simp_all
  · simp_all

theorem trimEnd_subset (rest : Segments) : trimEnd rest ⊆ rest :=
  ( rdropWhile_prefix _ rest).subset

/-- The parent of a path that goes down goes down. -/
theorem Descends.parent {p q : Segments} (h : Descends p) (hq : parent p = some q) :
    Descends q := by
  unfold UnixPath.parent at hq
  split at hq
  · cases hq
  · cases hq
  · rename_i first rest hne
    have hfirst : first ≠ [] := by
      rintro rfl
      cases rest with
      | nil => exact hne rfl rfl
      | cons r rest =>
        have hroot := h .rootDir (by simp [components])
        cases hroot
    rw [Descends, components_cons hfirst] at h
    simp only [hfirst, if_false, false_and] at hq
    split at hq
    · cases hq
      intro c hc
      cases hc
    · cases hq
      intro c hc
      rw [components_cons hfirst] at hc
      apply h c
      rcases mem_cons.mp hc with rfl | hc
      · exact mem_cons_self
      · apply mem_cons_of_mem
        obtain ⟨segment, hsegment, hinner⟩ := mem_filterMap.mp hc
        have hlast := dropLast_subset _ (trimEnd_subset _ hsegment)
        exact mem_filterMap.mpr ⟨segment, trimEnd_subset _ hlast, hinner⟩

/-! ## Names of files -/

/-- `Path::file_stem` of a name: what stands before its last dot, unless that is nothing. -/
def stem (name : List Char) : List Char :=
  let after := name.reverse.takeWhile (· ≠ '.')
  let before := name.dropLast.take (name.length - 1 - after.length)
  if after.length = name.length ∨ before = [] then name else before

/-- `Path::with_extension`. -/
def withExtension (location : Location) (extension : List Char) : Location :=
  match location.getLast? with
  | some name => location.dropLast ++ [stem name ++ '.' :: extension]
  | none => location

theorem withExtension_append {base rel : Location} (h : rel ≠ []) (extension : List Char) :
    withExtension (base ++ rel) extension = base ++ withExtension rel extension := by
  unfold withExtension
  rw [getLast?_append_of_ne_nil _ h]
  cases hlast : rel.getLast? with
  | none => exact absurd (getLast?_eq_none_iff.mp hlast) h
  | some name =>
    simp only
    rw [dropLast_append_of_ne_nil h, append_assoc]

/-- The files with their contents, and the directories. -/
structure FileSystem where
  files : Location → Option (List UInt8)
  dirs : Location → Bool
  disjoint : ∀ l, dirs l = true → files l = none

namespace FileSystem

variable {fs fs' : FileSystem} {l l' : Location} {bytes : List UInt8}

/-- `create_dir_all`, which fails where a file is in the way. -/
def createDirAll (fs : FileSystem) (l : Location) : Option FileSystem :=
  if h : ∀ q ∈ l.inits, fs.files q = none then
    some { fs with
      dirs := fun q => fs.dirs q || decide (q ∈ l.inits)
      disjoint := by
        intro q hq
        rcases Bool.or_eq_true_iff.mp hq with hq | hq
        · exact fs.disjoint q hq
        · exact h q (of_decide_eq_true hq) }
  else none

/-- `remove_file`, where there is one. -/
def removeFile (fs : FileSystem) (l : Location) : FileSystem where
  files := Function.update fs.files l none
  dirs := fs.dirs
  disjoint := by
    intro q hq
    by_cases hql : q = l
    · rw [hql, Function.update_self]
    · rw [Function.update_of_ne hql]
      exact fs.disjoint q hq

/-- `File::create` and what is written then. -/
def writeFile (fs : FileSystem) (l : Location) (bytes : List UInt8) : Option FileSystem :=
  if h : fs.dirs l = true then none
  else some
    { files := Function.update fs.files l (some bytes)
      dirs := fs.dirs
      disjoint := by
        intro q hq
        by_cases hql : q = l
        · subst hql
          exact absurd hq h
        · rw [Function.update_of_ne hql]
          exact fs.disjoint q hq }

/-- Whether there is something at a location. -/
def taken (fs : FileSystem) (l : Location) : Bool := fs.dirs l || (fs.files l).isSome

theorem taken_eq_false : fs.taken l = false ↔ fs.dirs l = false ∧ fs.files l = none := by
  unfold taken
  rw [Bool.or_eq_false_iff, Option.isSome_eq_false_iff, Option.isNone_iff_eq_none]

/-- `create_dir`, which does nothing where there is the directory. -/
def createDir (fs : FileSystem) (l : Location) : Option FileSystem :=
  if h : fs.files l = none then
    some { fs with
      dirs := fun q => fs.dirs q || decide (q = l)
      disjoint := by
        intro q hq
        rcases Bool.or_eq_true_iff.mp hq with hq | hq
        · exact fs.disjoint q hq
        · rw [of_decide_eq_true hq]
          exact h }
  else none

/-- `rename` that does not replace what is there. -/
def renameNoReplace (fs : FileSystem) (l l' : Location) : Option FileSystem :=
  if fs.taken l' then none
  else (fs.files l).bind fun bytes => (fs.removeFile l).writeFile l' bytes

theorem writeFile_eq_none : fs.writeFile l bytes = none ↔ fs.dirs l = true := by
  unfold writeFile
  split
  · rename_i hdir
    exact iff_of_true rfl hdir
  · rename_i hdir
    exact iff_of_false (by simp) hdir

theorem files_createDirAll (h : fs.createDirAll l = some fs') : fs'.files = fs.files := by
  unfold createDirAll at h
  split at h <;> cases h
  rfl

theorem dirs_createDirAll (h : fs.createDirAll l = some fs') (l' : Location) :
    fs'.dirs l' = true ↔ fs.dirs l' = true ∨ l' <+: l := by
  unfold createDirAll at h
  split at h <;> cases h
  rw [Bool.or_eq_true_iff, decide_eq_true_iff, mem_inits]

theorem files_writeFile (h : fs.writeFile l bytes = some fs') :
    fs'.files = Function.update fs.files l (some bytes) := by
  unfold writeFile at h
  split at h <;> cases h
  rfl

theorem dirs_writeFile (h : fs.writeFile l bytes = some fs') : fs'.dirs = fs.dirs := by
  unfold writeFile at h
  split at h <;> cases h
  rfl

theorem createDir_eq_none : fs.createDir l = none ↔ fs.files l ≠ none := by
  unfold createDir
  split
  · rename_i hnone
    exact iff_of_false (by simp) (fun h => h hnone)
  · rename_i hsome
    exact iff_of_true rfl hsome

theorem files_createDir (h : fs.createDir l = some fs') : fs'.files = fs.files := by
  unfold createDir at h
  split at h <;> cases h
  rfl

theorem dirs_createDir (h : fs.createDir l = some fs') (l' : Location) :
    fs'.dirs l' = true ↔ fs.dirs l' = true ∨ l' = l := by
  unfold createDir at h
  split at h <;> cases h
  rw [Bool.or_eq_true_iff, decide_eq_true_iff]

theorem files_removeFile : (fs.removeFile l).files = Function.update fs.files l none := rfl

theorem dirs_removeFile : (fs.removeFile l).dirs = fs.dirs := rfl

/-- What a rename does: the target was free and has the bytes now, the source is gone. -/
theorem of_renameNoReplace (h : fs.renameNoReplace l l' = some fs') :
    ∃ bytes, fs.files l = some bytes ∧ fs.taken l' = false ∧ fs'.dirs = fs.dirs ∧
      fs'.files = Function.update (Function.update fs.files l none) l' (some bytes) := by
  unfold renameNoReplace at h
  split at h
  · cases h
  · rename_i hfree
    obtain ⟨bytes, hbytes, hwrite⟩ := Option.bind_eq_some_iff.mp h
    refine ⟨bytes, hbytes, (Bool.not_eq_true _).mp hfree, ?_, ?_⟩
    · rw [dirs_writeFile hwrite, dirs_removeFile]
    · rw [files_writeFile hwrite, files_removeFile]

/-- A rename fails where the target is taken, or there is nothing to rename. -/
theorem renameNoReplace_eq_none {bytes : List UInt8} (hl : fs.files l = some bytes) :
    fs.renameNoReplace l l' = none ↔ fs.taken l' = true := by
  unfold renameNoReplace
  by_cases htaken : fs.taken l' = true
  · rw [if_pos htaken]
    exact iff_of_true rfl htaken
  · rw [if_neg htaken, hl, Option.bind_some, writeFile_eq_none, dirs_removeFile]
    have hdirs := (taken_eq_false.mp ((Bool.not_eq_true _).mp htaken)).1
    rw [hdirs]
    exact iff_of_false (by decide) htaken

/-- A directory is not written to. -/
theorem dirs_of_writeFile (h : fs.writeFile l bytes = some fs') : fs.dirs l = false := by
  unfold writeFile at h
  split at h
  · cases h
  · rename_i hdir
    exact (Bool.not_eq_true _).mp hdir

end FileSystem

end UnixPath
