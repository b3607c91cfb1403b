/-
# What an installation may touch

Files of an installation should lie in the directory of the extension and not among its private
data, their sizes should be bounded, and the manifest on disk should be the one of the archive.
Paths never lead up; but an id may be `.`, the binary and the libraries beside it may be put
among the private data or in the place of the manifest, and the sizes that are bounded are the
declared ones.

The files of a package are listed from its archive.  An installation writes the first of them, in
this order, as far as the checks let it come.
-/
import HeraMind.Extension.Package
import Mathlib.Algebra.Order.BigOperators.Group.List
import Mathlib.Algebra.Order.Ring.Nat

namespace HeraMind.Extension.Package

open List Transition UnixPath

variable {Details : Type}

/-! ## The claim -/

/-- A place below the directory of an extension that belongs to its private data. -/
def inData (rel : Location) : Bool := decide (rel.head? = some data) && decide (1 < rel.length)

/-- The location is in the directory of the extension, whose id is the name of a directory, and
not among its private data. -/
def Confined (target : Location) (m : Manifest Details) (location : Location) : Prop :=
  components (segments m.id) = [.normal m.id] ∧
    ∃ rel, rel ≠ [] ∧ location = target ++ m.id :: rel ∧ inData rel = false

section Claim

variable (env : Env Details) (a : Archive) (target : Location)

/-- The manifest of an archive. -/
def manifestOf : Option (Manifest Details) :=
  (a.byName manifestJson).bind fun e => env.fromSlice e.bytes

/-- The bytes that were written. -/
def Installation.total (s : Installation Details) : ℕ := (s.log.map FileOp.size).sum

/-- All files that were created, overwritten or removed are confined, and sizes are bounded. -/
structure Contained (s : Installation Details) : Prop where
  confined : ∀ op ∈ s.log, ∃ m, manifestOf env a = some m ∧ Confined target m op.location
  entries : ∀ location bytes, .written location bytes true ∈ s.log →
    bytes.length ≤ maxExtractFileSize
  total : s.total ≤ maxExtractTotalSize

/-- After a successful installation the manifest on disk is the one of the archive. -/
def KeepsManifest (s : Installation Details) : Prop :=
  ∀ m r, s.phase = .done m r →
    s.fs.files r.manifestPath = (a.byName manifestJson).map Entry.bytes

end Claim

/-! ## The files of a package -/

/-- A file of a package: its place below the directory of the extension, the size that is declared
for it, and the bytes that reading it yields. -/
structure PackageFile where
  place : Location
  declared : ℕ
  bytes : List UInt8
  /-- It is an entry of the archive. -/
  entry : Bool
  /-- Nothing is charged for what is no entry. -/
  free : entry = false → declared = 0
  /-- It is a link, or its path leads up. -/
  refused : Bool

/-- The file of an entry. -/
def Entry.at (e : Entry) (dir : Location) (rel : List Char) : PackageFile where
  place := dir ++ names (segments rel)
  declared := e.size
  bytes := e.bytes
  entry := true
  free := nofun
  refused := e.symlink || !decide (Descends (segments rel))

/-- The libraries beside the binary. -/
def siblingFiles (rel : List Char) (dir : Segments) (entries : List Entry) : List PackageFile :=
  entries.filterMap fun e =>
    if e.opens && decide (isSibling rel dir e.name = some true) then
      some (e.at (names dir) (trimStartMatches (dirPrefix dir) e.name))
    else none

/-- The entries of a directory of resources. -/
def resourceFiles (dir : List Char) (entries : List Entry) : List PackageFile :=
  entries.filterMap fun e =>
    if e.opens && decide (dir ++ ['/'] <+: e.name ∧ ¬ ['/'] <:+ e.name) then
      some (e.at [dir] (e.name.drop (dir.length + 1)))
    else none

/-- The description for the loader. -/
def sidecarFile (rel : List Char) (bytes : List UInt8) : PackageFile where
  place := withExtension (names (segments rel)) "json".toList
  declared := 0
  bytes := bytes
  entry := false
  free _ := rfl
  refused := false

section Files

variable (env : Env Details) (a : Archive)

def resources (dirs : List (List Char)) : List PackageFile :=
  dirs.flatMap fun dir => resourceFiles dir a.entries

/-- The description, and what comes after it. -/
def fromSidecar (m : Manifest Details) (rel : List Char) : List PackageFile :=
  match env.sidecar m with
  | some bytes => sidecarFile rel bytes :: resources a (resourceDirs m)
  | none => []

/-- The binary, and what comes after it. -/
def fromBinary (m : Manifest Details) : List PackageFile :=
  match m.binaryFor env.platform with
  | none => []
  | some rel =>
    match a.byName rel with
    | none => []
    | some e => e.at [] rel ::
      match parent (segments rel) with
      | some dir => siblingFiles rel dir a.entries ++ fromSidecar env a m rel
      | none => fromSidecar env a m rel

/-- The files of the package, in the order in which they are unpacked. -/
def packageFiles (m : Manifest Details) : List PackageFile :=
  match a.byName manifestJson with
  | some e => e.at [] manifestJson :: fromBinary env a m
  | none => []

/-- What is declared for files. -/
def declaredBytes (files : List PackageFile) : ℕ := (files.map PackageFile.declared).sum

/-- What reading files yields. -/
def yieldedBytes (files : List PackageFile) : ℕ := (files.map fun f => f.bytes.length).sum

/-- The budget after files. -/
def chargeAll (files : List PackageFile) : Except PackageError InstallBudget :=
  files.foldlM (fun b f => if f.entry then b.charge f.declared else .ok b) ⟨0, 0⟩

/-- The checks let the files through: they are made of paths and of declared sizes. -/
structure Admitted (files : List PackageFile) : Prop where
  each : ∀ f ∈ files, f.refused = false ∧ f.declared ≤ maxExtractFileSize
  budget : ∃ b, chargeAll files = .ok b

/-- The id is not `.` and no file is placed among the private data; and where files yield more
than they declare, they yield no more than the limits. -/
structure Fits (m : Manifest Details) (files : List PackageFile) : Prop where
  place : ∀ f ∈ files, m.id ≠ ['.'] ∧ inData f.place = false
  entry : ∀ f ∈ files, f.entry = true → f.declared < f.bytes.length →
    f.bytes.length ≤ maxExtractFileSize
  total : declaredBytes files < yieldedBytes files → yieldedBytes files ≤ maxExtractTotalSize

/-- The last file in the place of the manifest. -/
def lastManifest (files : List PackageFile) : Option PackageFile :=
  (files.filter fun f => f.place = [manifestJson]).getLast?

/-- The archive is sound: its files fit as far as the checks let them through, and the last one in
the place of the manifest, if they let all through, is the manifest. -/
structure Sound (m : Manifest Details) : Prop where
  fits : ∀ files, files <+: packageFiles env a m → Admitted files → Fits m files
  manifest : Admitted (packageFiles env a m) →
    (lastManifest (packageFiles env a m)).map PackageFile.bytes =
      (a.byName manifestJson).map Entry.bytes

/-- The files that are still to come. -/
def laterFiles : Phase Details → List PackageFile
  | .manifest m => packageFiles env a m
  | .binary m => fromBinary env a m
  | .siblings m rel _ dir i => siblingFiles rel dir (a.entries.drop i) ++ fromSidecar env a m rel
  | .sidecar m rel _ => fromSidecar env a m rel
  | .entering _ _ dirs => resources a dirs
  | .within _ _ dir dirs i => resourceFiles dir (a.entries.drop i) ++ resources a dirs
  | _ => []

end Files

/-- The manifest that a phase goes by. -/
def Phase.manifest? : Phase Details → Option (Manifest Details)
  | .manifest m | .binary m | .siblings m _ _ _ _ | .sidecar m _ _ | .entering m _ _
  | .within m _ _ _ _ | .done m _ => some m
  | _ => none

/-! ## Paths -/

theorem foldlM_safeJoin {rel : List Char} {cs : List Component} {dst location : Location}
    (h : cs.foldlM (fun resolved component =>
      match component with
      | .normal name => (.ok (resolved ++ [name]) : Except PackageError Location)
      | .curDir => .ok resolved
      | .parentDir => .error (.zip (.pathTraversal rel))
      | .rootDir => .error (.zip (.absolutePath rel))) dst = .ok location) :
    location = dst ++ cs.filterMap Component.name ∧ ∀ c ∈ cs, c.isDown = true := by
  induction cs generalizing dst with
  | nil =>
    cases h
    refine ⟨by simp, fun c hc => ?_⟩
    cases hc
  | cons c cs ih =>
    rw [foldlM_cons] at h
    cases c with
    | normal name | curDir =>
      obtain ⟨hlocation, hdown⟩ := ih h
      refine ⟨?_, ?_⟩
      · rw [hlocation, filterMap_cons]
        simp [Component.name]
      · intro c hc
        rcases mem_cons.mp hc with rfl | hc
        · rfl
        · exact hdown c hc
    | parentDir | rootDir => cases h

/-- `safe_join_within` goes down. -/
theorem safeJoinWithin_eq_ok {dst location : Location} {rel : List Char}
    (h : safeJoinWithin dst rel = .ok location) :
    location = dst ++ names (segments rel) ∧ Descends (segments rel) :=
  foldlM_safeJoin h

/-- The directory of an extension whose id was checked. -/
theorem extDir_eq (target : Location) {m : Manifest Details} (h : validateManifest m = .ok ())
    (hid : m.id ≠ ['.']) :
    components (segments m.id) = [.normal m.id] ∧ extDir target m = target ++ [m.id] := by
  have hchars : m.id ≠ [] ∧ ¬ ['.', '.'] <:+: m.id ∧ '/' ∉ m.id := by
    unfold validateManifest at h
    split at h
    · cases h
    · split at h
      · cases h
      · split at h
        · cases h
        · rename_i hne
          split at h
          · cases h
          · rename_i hcharacters
            exact ⟨hne, fun hdots => hcharacters (Or.inl hdots),
              fun hslash => hcharacters (Or.inr (Or.inl hslash))⟩
  obtain ⟨hne, hdots, hslash⟩ := hchars
  have hparent : m.id ≠ ['.', '.'] := by
    intro hid
    apply hdots
    rw [hid]
  have hsegments : segments m.id = [m.id] := splitOn_eq_singleton hslash
  have hcomponents : components (segments m.id) = [.normal m.id] := by
    rw [hsegments, components_cons hne]
    simp [leading, hid, hparent]
  refine ⟨hcomponents, ?_⟩
  unfold extDir join names
  rw [hcomponents]
  simp [Component.name]

/-- An id that is a name is not `.`. -/
theorem ne_dot_of_components {m : Manifest Details}
    (h : components (segments m.id) = [.normal m.id]) : m.id ≠ ['.'] := by
  intro hid
  rw [hid] at h
  have hdot : components (segments ['.']) = [.curDir] := by decide
  rw [hdot] at h
  cases h

/-! ## Writing a file -/

section Put

variable {s t u : Installation Details} {o : Order Details} {ops ops' : List FileOp}

/-- A step on the file of an order has touched that file at most, which was no directory: what it
did, newest first. -/
structure Changes (o : Order Details) (s t : Installation Details) (ops : List FileOp) : Prop where
  log : t.log = ops ++ s.log
  budget : t.budget = s.budget
  dirs : ∀ l, s.fs.dirs l = true → t.fs.dirs l = true
  files : ∀ l, l ≠ o.location → t.fs.files l = s.fs.files l
  free : ops ≠ [] → s.fs.dirs o.location = false

theorem Changes.trans (h : Changes o s t ops) (h' : Changes o t u ops') :
    Changes o s u (ops' ++ ops) := by
  refine ⟨by rw [h'.log, h.log, append_assoc], h'.budget.trans h.budget,
    fun l hl => h'.dirs l (h.dirs l hl), fun l hl => (h'.files l hl).trans (h.files l hl),
    fun hne => ?_⟩
  by_cases hops : ops = []
  · rw [hops, append_nil] at hne
    refine Bool.eq_false_iff.mpr fun hdir => ?_
    have hdir := h.dirs _ hdir
    rw [h'.free hne] at hdir
    cases hdir
  · exact h.free hops

/-- A new phase, and directories that are made. -/
theorem changes_nil {fs : FileSystem} (phase : Phase Details) (hfiles : fs.files = s.fs.files)
    (hdirs : ∀ l, s.fs.dirs l = true → fs.dirs l = true) :
    Changes o s { s with fs := fs, phase := phase } [] :=
  ⟨rfl, rfl, hdirs, fun _ _ => congrFun hfiles _, fun h => absurd rfl h⟩

theorem changes_fail : Changes o s s.fail [] := changes_nil _ rfl fun _ h => h

theorem changes_clear (s : Installation Details) (o : Order Details) :
    ∃ ops, Changes o s (s.clear o) ops ∧ ops <+ [.removed o.location] := by
  unfold Installation.clear
  split
  · rename_i hthere
    refine ⟨_, ⟨rfl, rfl, fun _ h => h, fun l hl => Function.update_of_ne hl _ _, fun _ => ?_⟩,
      Sublist.refl _⟩
    refine Bool.eq_false_iff.mpr fun hdir => ?_
    rw [s.fs.disjoint _ hdir] at hthere
    simp at hthere
  · exact ⟨[], changes_nil _ rfl fun _ h => h, nil_sublist _⟩

/-- Either the writing fails, or the file is there. -/
theorem changes_write (s : Installation Details) (o : Order Details) (io : Io) :
    ∃ ops, Changes o s (s.write o io) ops ∧
      ops <+ [.written o.location (Installation.copied o io) o.entry] ∧
      ((s.write o io).phase = .failed .io ∨
        ((s.write o io).phase = o.phase ∧ (s.write o io).fs.files o.location = some o.bytes ∧
          ops = [.written o.location o.bytes o.entry])) := by
  unfold Installation.write
  split
  · exact ⟨[], changes_fail, nil_sublist _, Or.inl rfl⟩
  · rename_i fs hsome
    have hfiles := FileSystem.files_writeFile hsome
    refine ⟨_, ⟨rfl, rfl, fun l hl => (FileSystem.dirs_writeFile hsome).symm ▸ hl, fun l hl => ?_,
      fun _ => FileSystem.dirs_of_writeFile hsome⟩, Sublist.refl _, ?_⟩
    · rw [hfiles, Function.update_of_ne hl]
    · by_cases hbad : (o.readFails || decide (io ≠ .ok)) = true
      · exact Or.inl (if_pos hbad)
      · obtain rfl : io = .ok := by
          by_contra hio
          simp [hio] at hbad
        refine Or.inr ⟨if_neg hbad, ?_, rfl⟩
        rw [hfiles, Function.update_self]
        rfl

/-- The file of an order, and the old one in its place: either the step fails, or the file is
there. -/
theorem changes_put (s : Installation Details) (o : Order Details) (io : Io) :
    ∃ ops, Changes o { s with budget := o.budget } (s.put o io) ops ∧
      ops <+ [.written o.location (Installation.copied o io) o.entry, .removed o.location] ∧
      ((s.put o io).phase = .failed .io ∨
        ((s.put o io).phase = o.phase ∧ (s.put o io).fs.files o.location = some o.bytes ∧
          .written o.location o.bytes o.entry ∈ ops)) := by
  unfold Installation.put
  cases hdirs : s.fs.createDirAll o.location.dropLast with
  | none => cases io <;> exact ⟨[], changes_fail, nil_sublist _, Or.inl rfl⟩
  | some fs =>
    have hmade : Changes o { s with budget := o.budget } { s with budget := o.budget, fs := fs } [] :=
      changes_nil _ (FileSystem.files_createDirAll hdirs)
        fun l hl => (FileSystem.dirs_createDirAll hdirs l).mpr (Or.inl hl)
    obtain ⟨ops, hclear, hops⟩ := changes_clear { s with budget := o.budget, fs := fs } o
    cases io with
    | mkdirFails => exact ⟨[], changes_fail, nil_sublist _, Or.inl rfl⟩
    | createFails =>
      exact ⟨_, (hmade.trans hclear).trans changes_fail,
        ((append_nil ops).symm ▸ hops).trans (sublist_cons_self _ _), Or.inl rfl⟩
    | ok | copyFails n =>
      obtain ⟨ops', hwrite, hops', hphase⟩ := changes_write (Installation.clear _ o) o _
      refine ⟨_, (hmade.trans hclear).trans hwrite, ?_, ?_⟩
      · rw [append_nil]
        exact hops'.append hops
      · refine hphase.imp_right fun ⟨hphase, hfile, hwritten⟩ => ⟨hphase, hfile, ?_⟩
        rw [hwritten]
        exact mem_cons_self

theorem length_copied_le (o : Order Details) (io : Io) :
    (Installation.copied o io).length ≤ o.bytes.length := by
  unfold Installation.copied
  split
  · exact length_take_le' _ _
  · exact Nat.le_refl _

end Put

/-! ## Moves -/

section Moves

variable {env : Env Details} {a : Archive} {target : Location} {s : Installation Details}
  {o : Order Details} {m : Manifest Details} {f : PackageFile} {file : Location}
  {rel : List Char} {b b' : InstallBudget}

/-- The binary was written. -/
structure BinaryAt (target : Location) (m : Manifest Details) (rel : List Char)
    (file : Location) : Prop where
  location : file = extDir target m ++ names (segments rel)
  ne : names (segments rel) ≠ []
  descends : Descends (segments rel)

/-- The installation ended with an error, or panicked. -/
def Phase.isOver : Phase Details → Bool
  | .failed _ | .panicked => true
  | _ => false

/-- What is known in a phase. -/
def Known (target : Location) : Phase Details → Prop
  | .siblings m rel file dir _ => BinaryAt target m rel file ∧ parent (segments rel) = some dir
  | .sidecar m rel file => BinaryAt target m rel file
  | .done m r => r.manifestPath = extDir target m ++ [manifestJson]
  | _ => True

/-- The file that an order writes is the first of those that are still to come. -/
structure OrderOk (env : Env Details) (a : Archive) (target : Location) (s : Installation Details)
    (o : Order Details) (m : Manifest Details) (f : PackageFile) : Prop where
  phase : o.phase.manifest? = some m
  files : laterFiles env a s.phase = f :: laterFiles env a o.phase
  location : o.location = extDir target m ++ f.place
  bytes : o.bytes = f.bytes
  entry : o.entry = f.entry
  each : f.refused = false ∧ f.declared ≤ maxExtractFileSize
  charge : (if f.entry then s.budget.charge f.declared else .ok s.budget) = .ok o.budget
  next : f.place ≠ [] → Known target o.phase

/-- A phase that no file is written for has the same files to come, unless it is the end. -/
def Follows (env : Env Details) (a : Archive) (target : Location) (s : Installation Details)
    (m : Manifest Details) (phase : Phase Details) : Prop :=
  phase.isOver = true ∨
    (phase.manifest? = some m ∧ laterFiles env a phase = laterFiles env a s.phase ∧
      Known target phase)

/-- What a move leads to. -/
def MoveOk (env : Env Details) (a : Archive) (target : Location) (s : Installation Details)
    (m : Manifest Details) : Move Details → Prop
  | .next phase | .mkdir _ phase => Follows env a target s m phase
  | .put o => ∃ f, OrderOk env a target s o m f

theorem extractFile_eq_ok {name : List Char} {e : Entry}
    (h : extractFile a name b = .ok (e, b')) :
    a.byName name = some e ∧ e.symlink = false ∧ e.size ≤ maxExtractFileSize ∧
      b.charge e.size = .ok b' := by
  unfold extractFile at h
  split at h
  · cases h
  · rename_i e' he
    split at h
    · cases h
    · rename_i hlink
      split at h
      · cases h
      · rename_i hsize
        split at h
        · rename_i hcharge
          cases h
          exact ⟨he, Bool.eq_false_iff.mpr hlink, not_lt.mp hsize, hcharge⟩
        · cases h

/-- An entry that the checks let through. -/
theorem each_at {e : Entry} (dir : Location) (hlink : e.symlink = false)
    (hsize : e.size ≤ maxExtractFileSize) (hdescends : Descends (segments rel)) :
    (e.at dir rel).refused = false ∧ (e.at dir rel).declared ≤ maxExtractFileSize := by
  refine ⟨?_, hsize⟩
  unfold Entry.at
  rw [hlink, decide_eq_true hdescends]
  rfl

theorem moveOk_manifest (hphase : s.phase = .manifest m) :
    MoveOk env a target s m (moveManifest a target s.budget m) := by
  unfold moveManifest
  split
  · exact Or.inl rfl
  · rename_i e b he
    obtain ⟨hname, hlink, hsize, hcharge⟩ := extractFile_eq_ok he
    refine ⟨e.at [] manifestJson, rfl, ?_, rfl, rfl, rfl, each_at [] hlink hsize (by decide),
      hcharge, fun _ => trivial⟩
    rw [hphase]
    unfold laterFiles packageFiles
    rw [hname]

theorem moveOk_binary (hphase : s.phase = .binary m) :
    MoveOk env a target s m (moveBinary env a target s.budget m) := by
  unfold moveBinary
  split
  · exact Or.inl rfl
  · rename_i rel hrel
    split
    · exact Or.inl rfl
    · rename_i file hfile
      obtain ⟨hlocation, hdescends⟩ := safeJoinWithin_eq_ok hfile
      split
      · exact Or.inl rfl
      · rename_i e b he
        obtain ⟨hname, hlink, hsize, hcharge⟩ := extractFile_eq_ok he
        refine ⟨e.at [] rel, ?_, ?_, hlocation, rfl, rfl, each_at [] hlink hsize hdescends,
          hcharge, fun hne => ?_⟩
        · cases parent (segments rel) <;> rfl
        · rw [hphase]
          unfold laterFiles fromBinary
          simp only [hrel, hname]
          cases parent (segments rel) <;> rfl
        · have hbinary : BinaryAt target m rel file := ⟨hlocation, hne, hdescends⟩
          cases hparent : parent (segments rel) with
          | none => exact hbinary
          | some dir => exact ⟨hbinary, hparent⟩

theorem moveOk_sibling {dir : Segments} {i : ℕ} (hphase : s.phase = .siblings m rel file dir i)
    (hbinary : BinaryAt target m rel file) (hparent : parent (segments rel) = some dir) :
    MoveOk env a target s m (moveSibling a target s.budget m rel file dir i) := by
  have hnow : laterFiles env a s.phase =
      siblingFiles rel dir (a.entries.drop i) ++ fromSidecar env a m rel := by
    rw [hphase]
    rfl
  unfold moveSibling
  split
  · rename_i hend
    refine Or.inr ⟨rfl, ?_, hbinary⟩
    rw [hnow, drop_eq_nil_of_le (List.getElem?_eq_none_iff.mp hend)]
    rfl
  · rename_i e he
    obtain ⟨hi, he⟩ := List.getElem?_eq_some_iff.mp he
    rw [drop_eq_getElem_cons hi, he] at hnow
    have hskip : (e.opens && decide (isSibling rel dir e.name = some true)) = false →
        Follows env a target s m (.siblings m rel file dir (i + 1)) := by
      intro hno
      refine Or.inr ⟨rfl, ?_, hbinary, hparent⟩
      rw [hnow, siblingFiles, filterMap_cons_none (by rw [hno]; rfl)]
      rfl
    split
    · rename_i hopens
      split
      · exact Or.inl rfl
      · rename_i hsibling
        exact hskip (by rw [hsibling]; simp)
      · rename_i hsibling
        unfold putLibrary
        split
        · exact Or.inl rfl
        · rename_i hlink
          split
          · exact Or.inl rfl
          · rename_i hsize
            split
            · exact Or.inl rfl
            · rename_i b hcharge
              unfold putEntry
              split
              · exact Or.inl rfl
              · rename_i l hl
                obtain ⟨hlocation, hdescends⟩ := safeJoinWithin_eq_ok hl
                have hdown := hbinary.descends.parent hparent
                refine ⟨e.at (names dir) (trimStartMatches (dirPrefix dir) e.name), rfl, ?_, ?_, rfl,
                  rfl, each_at _ (Bool.eq_false_iff.mpr hlink) (not_lt.mp hsize) hdescends, hcharge,
                  fun _ => ⟨hbinary, hparent⟩⟩
                · rw [hnow, siblingFiles, filterMap_cons_some (by rw [hopens, hsibling]; rfl)]
                  rfl
                · rw [hlocation, join_of_descends hdown, append_assoc]
                  rfl
    · rename_i hclosed
      exact hskip (by rw [Bool.eq_false_iff.mpr hclosed]; rfl)

theorem moveOk_sidecar (hphase : s.phase = .sidecar m rel file)
    (hbinary : BinaryAt target m rel file) :
    MoveOk env a target s m (moveSidecar env s.budget m file) := by
  unfold moveSidecar
  split
  · exact Or.inl rfl
  · rename_i bytes hbytes
    refine ⟨sidecarFile rel bytes, rfl, ?_, ?_, rfl, rfl, ⟨rfl, Nat.zero_le _⟩, rfl,
      fun _ => trivial⟩
    · rw [hphase]
      show fromSidecar env a m rel = sidecarFile rel bytes :: resources a (resourceDirs m)
      unfold fromSidecar
      rw [hbytes]
    · show withExtension file _ = extDir target m ++ withExtension (names (segments rel)) _
      rw [hbinary.location, withExtension_append hbinary.ne]

theorem moveOk_within {dir : List Char} {dirs : List (List Char)} {i : ℕ}
    (hphase : s.phase = .within m file dir dirs i) :
    MoveOk env a target s m (moveWithin a target s.budget m file dir dirs i) := by
  have hnow : laterFiles env a s.phase =
      resourceFiles dir (a.entries.drop i) ++ resources a dirs := by
    rw [hphase]
    rfl
  unfold moveWithin
  split
  · rename_i hend
    refine Or.inr ⟨rfl, ?_, trivial⟩
    rw [hnow, drop_eq_nil_of_le (List.getElem?_eq_none_iff.mp hend)]
    rfl
  · rename_i e he
    obtain ⟨hi, he⟩ := List.getElem?_eq_some_iff.mp he
    rw [drop_eq_getElem_cons hi, he] at hnow
    split
    · rename_i hopens
      split
      · rename_i hname
        split
        · exact Or.inl rfl
        · rename_i l hl
          obtain ⟨hlocation, hdescends⟩ := safeJoinWithin_eq_ok hl
          split
          · exact Or.inl rfl
          · rename_i hlink
            split
            · exact Or.inl rfl
            · rename_i hsize
              split
              · exact Or.inl rfl
              · rename_i b hcharge
                refine ⟨e.at [dir] (e.name.drop (dir.length + 1)), rfl, ?_, ?_, rfl, rfl,
                  each_at _ (Bool.eq_false_iff.mpr hlink) (not_lt.mp hsize) hdescends, hcharge,
                  fun _ => trivial⟩
                · rw [hnow, resourceFiles, filterMap_cons_some
                    (by rw [hopens, decide_eq_true hname]; rfl)]
                  rfl
                · rw [hlocation, append_assoc]
                  rfl
      · rename_i hname
        refine Or.inr ⟨rfl, ?_, trivial⟩
        rw [hnow, resourceFiles, filterMap_cons_none
          (by rw [decide_eq_false hname, Bool.and_false]; rfl)]
        rfl
    · exact Or.inl rfl

/-- What the move of a phase leads to. -/
theorem moveOk_of_move {mv : Move Details} (hphase : s.phase.manifest? = some m)
    (hknown : Known target s.phase) (h : move env a target s.budget s.phase = some mv) :
    MoveOk env a target s m mv := by
  cases hcase : s.phase with
  | opening | failed error | panicked =>
    rw [hcase] at hphase
    cases hphase
  | manifest m =>
    rw [hcase] at h hphase
    cases h
    cases hphase
    exact moveOk_manifest hcase
  | binary m =>
    rw [hcase] at h hphase
    cases h
    cases hphase
    exact moveOk_binary hcase
  | siblings m rel file dir i =>
    rw [hcase] at h hphase hknown
    cases h
    cases hphase
    exact moveOk_sibling hcase hknown.1 hknown.2
  | sidecar m rel file =>
    rw [hcase] at h hphase hknown
    cases h
    cases hphase
    exact moveOk_sidecar hcase hknown
  | entering m file dirs =>
    rw [hcase] at h hphase
    cases hphase
    cases dirs with
    | nil =>
      cases h
      refine Or.inr ⟨rfl, ?_, rfl⟩
      rw [hcase]
      rfl
    | cons dir dirs =>
      cases h
      refine Or.inr ⟨rfl, ?_, trivial⟩
      rw [hcase]
      rfl
  | within m file dir dirs i =>
    rw [hcase] at h hphase
    cases h
    cases hphase
    exact moveOk_within hcase
  | done m r =>
    rw [hcase] at h
    cases h

end Moves

/-! ## How far an installation is -/

section Reached

variable {env : Env Details} {a : Archive} {target : Location} {s s' : Installation Details}
  {io : Io} {o : Order Details} {m : Manifest Details} {f : PackageFile}
  {files pre : List PackageFile} {fs : FileSystem} {tr : List (Installation Details × Io)}

/-- What a budget after files was charged. -/
theorem totalBytes_of_chargeAll {b : InstallBudget} (h : chargeAll files = .ok b) :
    declaredBytes files = b.totalBytes ∧ b.totalBytes ≤ maxExtractTotalSize := by
  induction files using List.reverseRecOn generalizing b with
  | nil =>
    cases h
    exact ⟨rfl, Nat.zero_le _⟩
  | append_singleton files f ih =>
    unfold chargeAll at h ih
    rw [foldlM_append] at h
    cases hbefore : List.foldlM (fun b f => if f.entry then b.charge f.declared else .ok b)
        (⟨0, 0⟩ : InstallBudget) files with
    | error error =>
      rw [hbefore] at h
      cases h
    | ok b₀ =>
      rw [hbefore] at h
      obtain ⟨hdeclared, hle⟩ := ih hbefore
      have h' : (if f.entry then b₀.charge f.declared else .ok b₀) = .ok b :=
        (bind_pure _).symm.trans h
      have hsum : declaredBytes (files ++ [f]) = declaredBytes files + f.declared := by
        simp [declaredBytes]
      rw [hsum, hdeclared]
      cases hentry : f.entry with
      | false =>
        rw [hentry] at h'
        cases h'
        rw [f.free hentry]
        exact ⟨rfl, hle⟩
      | true =>
        rw [hentry, if_pos rfl] at h'
        unfold InstallBudget.charge at h'
        dsimp only at h'
        split at h'
        · cases h'
        · rename_i hmax
          split at h'
          · cases h'
          · cases h'
            have hlimit : maxExtractTotalSize < 2 ^ 64 - 1 := by decide
            dsimp only
            omega

theorem chargeAll_append {b b' : InstallBudget} (h : chargeAll pre = .ok b)
    (hf : (if f.entry then b.charge f.declared else .ok b) = .ok b') :
    chargeAll (pre ++ [f]) = .ok b' := by
  unfold chargeAll at h ⊢
  rw [foldlM_append, h]
  exact (bind_pure _).trans hf

/-- The manifest was checked, and the directory is there. -/
structure Ready (env : Env Details) (a : Archive) (target : Location) (m : Manifest Details)
    (fs : FileSystem) : Prop where
  manifest : manifestOf env a = some m
  valid : validateManifest m = .ok ()
  dir : fs.dirs (extDir target m) = true

/-- The operation belongs to a file of the package. -/
def Belongs (target : Location) (m : Manifest Details) (f : PackageFile) (op : FileOp) : Prop :=
  f.place ≠ [] ∧ op.location = extDir target m ++ f.place ∧
    ∀ location bytes entry, op = .written location bytes entry →
      entry = f.entry ∧ bytes.length ≤ f.bytes.length

/-- Only these files were touched. -/
structure Touched (target : Location) (m : Manifest Details) (files : List PackageFile)
    (log : List FileOp) : Prop where
  op : ∀ op ∈ log, ∃ f ∈ files, Belongs target m f op
  total : (log.map FileOp.size).sum ≤ yieldedBytes files

/-- The first files of the package were written, and the others are still to come. -/
structure Progress (env : Env Details) (a : Archive) (target : Location) (m : Manifest Details)
    (pre : List PackageFile) (s : Installation Details) : Prop where
  phase : s.phase.manifest? = some m
  known : Known target s.phase
  ready : Ready env a target m s.fs
  files : packageFiles env a m = pre ++ laterFiles env a s.phase
  each : ∀ f ∈ pre, f.refused = false ∧ f.declared ≤ maxExtractFileSize
  charged : chargeAll pre = .ok s.budget
  touched : Touched target m pre s.log
  whole : ∀ f ∈ pre, .written (extDir target m ++ f.place) f.bytes f.entry ∈ s.log
  total : yieldedBytes pre ≤ s.total
  manifest : ∀ f, lastManifest pre = some f →
    s.fs.files (extDir target m ++ [manifestJson]) = some f.bytes

/-- How far an installation is. -/
inductive Reached (env : Env Details) (a : Archive) (target : Location)
    (s : Installation Details) : Prop
  | opening (phase : s.phase = .opening) (log : s.log = []) (budget : s.budget = ⟨0, 0⟩)
  | going (m : Manifest Details) (pre : List PackageFile) (h : Progress env a target m pre s)
  | refused (ended : s.phase.isOver = true) (log : s.log = [])
  | stopped (m : Manifest Details) (pre : List PackageFile) (ended : s.phase.isOver = true)
      (ready : manifestOf env a = some m ∧ validateManifest m = .ok ())
      (files : pre <+: packageFiles env a m) (admitted : Admitted pre)
      (touched : Touched target m pre s.log)

theorem Progress.admitted (h : Progress env a target m pre s) : Admitted pre :=
  ⟨h.each, _, h.charged⟩

theorem Progress.prefix (h : Progress env a target m pre s) : pre <+: packageFiles env a m :=
  h.files ▸ prefix_append _ _

/-- A file that is touched is below the directory of the extension. -/
theorem place_ne_nil (hready : Ready env a target m s.fs)
    (hlocation : o.location = extDir target m ++ f.place) (hfree : s.fs.dirs o.location = false) :
    f.place ≠ [] := by
  intro hnil
  rw [hlocation, hnil, append_nil, hready.dir] at hfree
  cases hfree

theorem yieldedBytes_append (files files' : List PackageFile) :
    yieldedBytes (files ++ files') = yieldedBytes files + yieldedBytes files' := by
  unfold yieldedBytes
  rw [map_append, sum_append]

/-- What a step does to files belongs to its file. -/
theorem touched_put {t : Installation Details} {ops : List FileOp}
    (hready : Ready env a target m s.fs) (ho : OrderOk env a target s o m f)
    (h : Touched target m pre s.log) (hput : Changes o { s with budget := o.budget } t ops)
    (hops : ops <+ [.written o.location (Installation.copied o io) o.entry, .removed o.location]) :
    Touched target m (pre ++ [f]) t.log := by
  have hlog : t.log = ops ++ s.log := hput.log
  have hcopied := length_copied_le o io
  rw [ho.bytes] at hcopied
  rw [hlog]
  refine ⟨fun op hop => ?_, ?_⟩
  · rcases mem_append.mp hop with hop | hop
    · have hplace := place_ne_nil hready ho.location (hput.free (ne_nil_of_mem hop))
      refine ⟨f, by simp, hplace, ?_, ?_⟩
      · rw [← ho.location]
        rcases mem_cons.mp (hops.subset hop) with rfl | hop
        · rfl
        · rw [mem_singleton.mp hop]
          rfl
      · rintro location bytes entry rfl
        rcases mem_cons.mp (hops.subset hop) with hop | hop
        · cases hop
          exact ⟨ho.entry, hcopied⟩
        · cases mem_singleton.mp hop
    · obtain ⟨g, hg, hbelongs⟩ := h.op op hop
      exact ⟨g, mem_append_left _ hg, hbelongs⟩
  · have hsize := (hops.map FileOp.size).sum_le_sum fun _ _ => Nat.zero_le _
    have hboth : ([.written o.location (Installation.copied o io) o.entry,
        .removed o.location].map FileOp.size).sum = (Installation.copied o io).length + 0 := rfl
    have htotal := h.total
    rw [map_append, sum_append, yieldedBytes_append]
    have hf : yieldedBytes [f] = f.bytes.length := Nat.add_zero _
    omega

/-- After a file that was written whole. -/
theorem lastManifest_append {fs : FileSystem} (hlast : ∀ g, lastManifest pre = some g →
      s.fs.files (extDir target m ++ [manifestJson]) = some g.bytes)
    (hlocation : o.location = extDir target m ++ f.place)
    (hother : ∀ l, l ≠ o.location → fs.files l = s.fs.files l)
    (hfile : fs.files o.location = some f.bytes) {g : PackageFile}
    (hg : lastManifest (pre ++ [f]) = some g) :
    fs.files (extDir target m ++ [manifestJson]) = some g.bytes := by
  unfold lastManifest at hg
  rw [filter_append] at hg
  by_cases hplace : f.place = [manifestJson]
  · rw [filter_cons_of_pos (by simp [hplace]), filter_nil, getLast?_concat] at hg
    cases hg
    rw [← hplace, ← hlocation]
    exact hfile
  · rw [filter_cons_of_neg (by simp [hplace]), filter_nil, append_nil] at hg
    rw [hother]
    · exact hlast g hg
    · rw [hlocation]
      intro heq
      exact hplace (append_cancel_left heq).symm

theorem progress_put (h : Progress env a target m pre s) (ho : OrderOk env a target s o m f) :
    Reached env a target (s.put o io) := by
  obtain ⟨ops, hput, hops, hphase⟩ := changes_put s o io
  have hfiles : packageFiles env a m = pre ++ [f] ++ laterFiles env a o.phase := by
    rw [h.files, ho.files, append_assoc]
    rfl
  have htouched := touched_put h.ready ho h.touched hput hops
  have heach : ∀ g ∈ pre ++ [f], g.refused = false ∧ g.declared ≤ maxExtractFileSize :=
    forall_mem_append.mpr ⟨h.each, forall_mem_singleton.mpr ho.each⟩
  have hcharged := chargeAll_append h.charged ho.charge
  rcases hphase with hfail | ⟨hphase, hfile, hwritten⟩
  · refine .stopped m (pre ++ [f]) ?_ ⟨h.ready.manifest, h.ready.valid⟩
      (hfiles ▸ prefix_append _ _) ⟨heach, _, hcharged⟩ htouched
    rw [hfail]
    rfl
  · have hlog : (s.put o io).log = ops ++ s.log := hput.log
    have hplace := place_ne_nil h.ready ho.location (hput.free (ne_nil_of_mem hwritten))
    rw [ho.location, ho.bytes, ho.entry] at hwritten
    rw [ho.bytes] at hfile
    refine .going m (pre ++ [f]) ⟨hphase ▸ ho.phase, hphase ▸ ho.next hplace,
      ⟨h.ready.manifest, h.ready.valid, hput.dirs _ h.ready.dir⟩, hphase ▸ hfiles, heach,
      hput.budget ▸ hcharged, htouched, ?_, ?_,
      fun g hg => lastManifest_append h.manifest ho.location hput.files hfile hg⟩
    · rw [hlog]
      exact forall_mem_append.mpr ⟨fun g hg => mem_append_right _ (h.whole g hg),
        forall_mem_singleton.mpr (mem_append_left _ hwritten)⟩
    · have hsize := single_le_sum (fun _ _ => Nat.zero_le _) _
        (mem_map_of_mem (f := FileOp.size) hwritten)
      have htotal := h.total
      have hf : yieldedBytes [f] = f.bytes.length := Nat.add_zero _
      unfold Installation.total at htotal ⊢
      rw [hlog, yieldedBytes_append, map_append, sum_append]
      exact (Nat.add_comm _ _).le.trans (Nat.add_le_add (hf.le.trans hsize) htotal)

/-- No file is written. -/
theorem Progress.follows {phase : Phase Details} (h : Progress env a target m pre s)
    (hfollows : Follows env a target s m phase) (hfiles : fs.files = s.fs.files)
    (hdirs : ∀ l, s.fs.dirs l = true → fs.dirs l = true) :
    Reached env a target { s with fs := fs, phase := phase } := by
  rcases hfollows with hover | ⟨hphase, hlater, hknown⟩
  · exact .stopped m pre hover ⟨h.ready.manifest, h.ready.valid⟩ h.prefix h.admitted
      h.touched
  · refine .going m pre ⟨hphase, hknown, ⟨h.ready.manifest, h.ready.valid, hdirs _ h.ready.dir⟩,
      ?_, h.each, h.charged, h.touched, h.whole, h.total, ?_⟩
    · rw [hlater]
      exact h.files
    · intro g hg
      show fs.files _ = _
      rw [hfiles]
      exact h.manifest g hg

/-- The archive is refused, or its manifest is good. -/
theorem openPackage_cases (env : Env Details) (a : Archive) (target : Location) :
    (∃ phase : Phase Details, openPackage env a target = .next phase ∧ phase.isOver = true) ∨
    ∃ m, manifestOf env a = some m ∧ validateManifest m = .ok () ∧
      openPackage env a target = .mkdir (extDir target m) (.manifest m) := by
  unfold openPackage
  split
  · exact Or.inl ⟨_, rfl, rfl⟩
  · rename_i e he
    split
    · exact Or.inl ⟨_, rfl, rfl⟩
    · split
      · exact Or.inl ⟨_, rfl, rfl⟩
      · rename_i m hm
        split
        · exact Or.inl ⟨_, rfl, rfl⟩
        · rename_i hvalid
          refine Or.inr ⟨m, ?_, hvalid, rfl⟩
          unfold manifestOf
          rw [he]
          exact hm

theorem reached_open (hlog : s.log = []) (hbudget : s.budget = ⟨0, 0⟩)
    (hs : step env a target s io = some s')
    (hmove : move env a target s.budget s.phase = some (openPackage env a target)) :
    Reached env a target s' := by
  unfold step at hs
  rw [hmove] at hs
  rcases openPackage_cases env a target with
    ⟨phase, hopen, hover⟩ | ⟨m, hm, hvalid, hopen⟩
  · rw [hopen] at hs
    cases hs
    exact .refused hover hlog
  · rw [hopen] at hs
    cases hs
    unfold Installation.mkdir
    split
    · rename_i fs hfs
      split
      · exact .refused rfl hlog
      · have hdir := (FileSystem.dirs_createDirAll hfs (extDir target m)).mpr
          (Or.inr (prefix_refl _))
        refine .going m [] ⟨rfl, trivial, ⟨hm, hvalid, hdir⟩, rfl, by simp, ?_, ?_, by simp,
          Nat.zero_le _, fun g hg => by cases hg⟩
        · rw [hbudget]
          rfl
        · rw [hlog]
          exact ⟨by simp, Nat.zero_le _⟩
    · exact .refused rfl hlog

/-- The step lemma. -/
theorem reached_step (h : Reached env a target s) (hs : step env a target s io = some s') :
    Reached env a target s' := by
  cases h with
  | opening hphase hlog hbudget =>
    refine reached_open hlog hbudget hs ?_
    rw [hphase]
    rfl
  | refused hover hlog | stopped m pre hover hready hfiles hadmitted htouched =>
    have hend : move env a target s.budget s.phase = none := by
      cases hcase : s.phase with
      | failed error | panicked => rfl
      | _ =>
        rw [hcase] at hover
        cases hover
    unfold step at hs
    rw [hend] at hs
    cases hs
  | going m pre h =>
    unfold step at hs
    cases hmove : move env a target s.budget s.phase with
    | none =>
      rw [hmove] at hs
      cases hs
    | some mv =>
      rw [hmove] at hs
      have hok := moveOk_of_move h.phase h.known hmove
      cases mv with
      | next phase =>
        cases hs
        exact h.follows hok rfl fun _ hl => hl
      | mkdir dir phase =>
        cases hs
        have hfail : Reached env a target s.fail :=
          h.follows (Or.inl rfl) rfl fun _ hl => hl
        unfold Installation.mkdir
        split
        · rename_i fs hfs
          split
          · exact hfail
          · exact h.follows hok (FileSystem.files_createDirAll hfs)
              fun l hl => (FileSystem.dirs_createDirAll hfs l).mpr (Or.inl hl)
        · exact hfail
      | put o =>
        cases hs
        obtain ⟨f, ho⟩ := hok
        exact progress_put h ho

theorem reached_of_run (hrun : Run (step env a target) (start fs) tr s) :
    Reached env a target s :=
  hrun.invariant' (I := Reached env a target) (.opening rfl rfl rfl)
    fun _ _ _ h hs => reached_step h hs

/-! ## What is touched -/

/-- A location below the directory of the extension is confined if and only if the id is a name
and the place is not private. -/
theorem confined_iff {location : Location} (hm : manifestOf env a = some m)
    (hvalid : validateManifest m = .ok ()) (hlocation : location = extDir target m ++ f.place)
    (hne : f.place ≠ []) :
    (∃ m', manifestOf env a = some m' ∧ Confined target m' location) ↔
      m.id ≠ ['.'] ∧ inData f.place = false := by
  constructor
  · rintro ⟨m', hm', hcomponents, rel, -, hrel, hdata⟩
    rw [hm] at hm'
    cases hm'
    have hid := ne_dot_of_components hcomponents
    have hext := (extDir_eq target hvalid hid).2
    have hplace : f.place = rel := by
      rw [hlocation, hext, append_assoc] at hrel
      have htail := append_cancel_left hrel
      exact (cons.inj htail).2
    exact ⟨hid, by rw [hplace]; exact hdata⟩
  · rintro ⟨hid, hdata⟩
    obtain ⟨hcomponents, hext⟩ := extDir_eq target hvalid hid
    refine ⟨m, hm, hcomponents, f.place, hne, ?_, hdata⟩
    rw [hlocation, hext, append_assoc]
    rfl

/-- What is touched of files that fit is contained: their declared sizes were charged. -/
theorem contained_of_fits (hm : manifestOf env a = some m) (hvalid : validateManifest m = .ok ())
    (hadmitted : Admitted pre) (hfits : Fits m pre)
    (htouched : Touched target m pre s.log) : Contained env a target s := by
  refine ⟨fun op hop => ?_, fun location bytes hop => ?_, ?_⟩
  · obtain ⟨f, hf, hne, hlocation, -⟩ := htouched.op op hop
    exact (confined_iff hm hvalid hlocation hne).mpr (hfits.place f hf)
  · obtain ⟨f, hf, -, -, hwritten⟩ := htouched.op _ hop
    obtain ⟨hentry, hbytes⟩ := hwritten location bytes true rfl
    refine hbytes.trans ?_
    by_cases hmore : f.declared < f.bytes.length
    · exact hfits.entry f hf hentry.symm hmore
    · exact (not_lt.mp hmore).trans (hadmitted.each f hf).2
  · refine htouched.total.trans ?_
    by_cases hmore : declaredBytes pre < yieldedBytes pre
    · exact hfits.total hmore
    · obtain ⟨b, hb⟩ := hadmitted.budget
      obtain ⟨hdeclared, hle⟩ := totalBytes_of_chargeAll hb
      exact (not_lt.mp hmore).trans (hdeclared.le.trans hle)

/-- When the installation is done, all files were written. -/
theorem progress_of_done (h : Reached env a target s) {r : InstallResult}
    (hdone : s.phase = .done m r) : Progress env a target m (packageFiles env a m) s := by
  cases h with
  | going m' pre h =>
    have hphase := h.phase
    have hfiles := h.files
    rw [hdone] at hphase hfiles
    cases hphase
    have hall : packageFiles env a m = pre := hfiles.trans (append_nil pre)
    rw [hall]
    exact h
  | opening hphase =>
    rw [hdone] at hphase
    cases hphase
  | refused hover | stopped _ _ hover =>
    rw [hdone] at hover
    cases hover

/-- The files that were written whole fit, if all is contained. -/
theorem fits_of_contained (hprogress : Progress env a target m pre s)
    (h : Contained env a target s) (hfiles : files <+: pre) : Fits m files := by
  obtain ⟨rest, hrest⟩ := hfiles
  have hmem : ∀ f ∈ files, f ∈ pre := fun f hf => hrest ▸ mem_append_left rest hf
  refine ⟨fun f hf => ?_, fun f hf hentry _ => ?_, fun _ => ?_⟩
  · have hwritten := hprogress.whole f (hmem f hf)
    obtain ⟨g, hg, hne, hlocation, -⟩ := hprogress.touched.op _ hwritten
    have hplace : f.place ≠ [] := by
      rw [append_cancel_left hlocation]
      exact hne
    exact (confined_iff hprogress.ready.manifest hprogress.ready.valid rfl hplace).mp
      (h.confined _ hwritten)
  · have hwritten := hprogress.whole f (hmem f hf)
    rw [hentry] at hwritten
    exact h.entries _ _ hwritten
  · have hle : yieldedBytes files ≤ yieldedBytes pre := by
      rw [← hrest, yieldedBytes_append]
      exact Nat.le_add_right _ _
    exact hle.trans (hprogress.total.trans h.total)

theorem keepsManifest_iff (hprogress : Progress env a target m (packageFiles env a m) s)
    {r : InstallResult} (hdone : s.phase = .done m r) :
    KeepsManifest a s ↔ (lastManifest (packageFiles env a m)).map PackageFile.bytes =
      (a.byName manifestJson).map Entry.bytes := by
  have hknown := hprogress.known
  rw [hdone] at hknown
  have hpath : r.manifestPath = extDir target m ++ [manifestJson] := hknown
  obtain ⟨f, hf⟩ : ∃ f, lastManifest (packageFiles env a m) = some f := by
    refine Option.ne_none_iff_exists'.mp ?_
    unfold lastManifest
    rw [Ne, getLast?_eq_none_iff]
    have hmanifest := hprogress.ready.manifest
    unfold manifestOf at hmanifest
    obtain ⟨e, he, -⟩ := Option.bind_eq_some_iff.mp hmanifest
    unfold packageFiles
    rw [he]
    have hplace : (e.at [] manifestJson).place = [manifestJson] :=
      (by decide : names (segments manifestJson) = [manifestJson])
    exact ne_nil_of_mem (mem_filter.mpr ⟨mem_cons_self, decide_eq_true hplace⟩)
  rw [hf, Option.map_some, ← hprogress.manifest f hf, ← hpath]
  constructor
  · intro h
    exact h m r hdone
  · intro h m' r' hdone'
    rw [hdone] at hdone'
    cases hdone'
    exact h

end Reached

/-- In every installation of a sound archive, however system calls go, all that is touched is
confined and bounded, and the manifest is kept; and where an installation was done and this is
so, the archive is sound. -/
theorem install_contained_iff (env : Env Details) (a : Archive) (target : Location)
    (fs : FileSystem) (tr : List (Installation Details × Io)) (s : Installation Details)
    (hrun : Run (step env a target) (start fs) tr s) :
    ((∀ m, manifestOf env a = some m → Sound env a m) →
      Contained env a target s ∧ KeepsManifest a s) ∧
    ∀ m r, s.phase = .done m r →
      (Contained env a target s ∧ KeepsManifest a s ↔ Sound env a m) := by
  have hreached := reached_of_run hrun
  have hdone_of : ∀ m r, s.phase = .done m r → ∀ hsound : Sound env a m,
      Contained env a target s ∧ KeepsManifest a s := by
    intro m r hdone hsound
    have hprogress := progress_of_done hreached hdone
    exact ⟨contained_of_fits hprogress.ready.manifest hprogress.ready.valid
      hprogress.admitted (hsound.fits _ (prefix_refl _) hprogress.admitted)
      hprogress.touched, (keepsManifest_iff hprogress hdone).mpr
        (hsound.manifest hprogress.admitted)⟩
  refine ⟨fun hsound => ?_, fun m r hdone => ⟨fun h => ?_, hdone_of m r hdone⟩⟩
  · refine ⟨?_, fun m r hdone => ?_⟩
    · cases hreached with
      | opening _ hlog | refused _ hlog =>
        refine ⟨fun op hop => ?_, fun _ _ hop => ?_, ?_⟩
        · rw [hlog] at hop
          cases hop
        · rw [hlog] at hop
          cases hop
        · unfold Installation.total
          rw [hlog]
          exact Nat.zero_le _
      | going m pre h =>
        exact contained_of_fits h.ready.manifest h.ready.valid h.admitted
          ((hsound m h.ready.manifest).fits pre h.prefix h.admitted) h.touched
      | stopped m pre _ hready hfiles hadmitted htouched =>
        exact contained_of_fits hready.1 hready.2 hadmitted
          ((hsound m hready.1).fits pre hfiles hadmitted) htouched
    · have hm := (progress_of_done hreached hdone).ready.manifest
      exact (hdone_of m r hdone (hsound m hm)).2 m r hdone
  · have hprogress := progress_of_done hreached hdone
    exact ⟨fun files hfiles _ => fits_of_contained hprogress h.1 hfiles,
      fun _ => (keepsManifest_iff hprogress hdone).mp h.2⟩

/-! ## Tests -/

section Tests

variable {env : Env Details} {a : Archive} {target : Location} {s : Installation Details}
  {m : Manifest Details} {fs : FileSystem} {tr : List (Installation Details × Io)}

/-- An archive is sound if all its files are within the limits, whatever they declare. -/
theorem sound_of_limits (hplace : ∀ f ∈ packageFiles env a m, (m.id ≠ ['.'] ∧
      inData f.place = false) ∧ f.bytes.length ≤ maxExtractFileSize)
    (htotal : yieldedBytes (packageFiles env a m) ≤ maxExtractTotalSize)
    (hlast : (lastManifest (packageFiles env a m)).map PackageFile.bytes =
      (a.byName manifestJson).map Entry.bytes) : Sound env a m := by
  refine ⟨fun files hfiles _ => ⟨fun f hf => (hplace f (hfiles.subset hf)).1,
    fun f hf _ _ => (hplace f (hfiles.subset hf)).2, fun _ => ?_⟩, fun _ => hlast⟩
  obtain ⟨rest, hrest⟩ := hfiles
  rw [← hrest, yieldedBytes_append] at htotal
  exact (Nat.le_add_right _ _).trans htotal

/-- The installation is done. -/
def Phase.isDone : Phase Details → Bool
  | .done _ _ => true
  | _ => false

theorem Phase.exists_of_isDone {phase : Phase Details} (h : phase.isDone = true) :
    ∃ m r, phase = .done m r := by
  cases phase with
  | done m r => exact ⟨m, r, rfl⟩
  | _ => cases h

/-- The test of a manifest that was not kept. -/
def losesManifest (a : Archive) (s : Installation Details) : Bool :=
  match s.phase with
  | .done _ r => decide (s.fs.files r.manifestPath ≠ (a.byName manifestJson).map Entry.bytes)
  | _ => false

theorem not_keepsManifest_of_test (h : losesManifest a s = true) : ¬ KeepsManifest a s := by
  intro hkeeps
  unfold losesManifest at h
  split at h
  · rename_i m r hdone
    exact of_decide_eq_true h (hkeeps m r hdone)
  · cases h

end Tests

/-! ## Packages -/

namespace Sample

/-- The bytes of an ASCII text. -/
def ascii (lines : List String) : List UInt8 :=
  lines.flatMap fun t => t.toList.map fun c => c.toNat.toUInt8

def manifestText (id binary : String) : List UInt8 :=
  ascii ["\x7b\"format\":", "\"heramind-extension-package\"", ",\"id\":\"", id,
    "\",\"name\":\"Weather\"", ",\"version\":\"1.0.0\"", ",\"binaries\":\x7b\"wasm\":\"", binary,
    "\"\x7d\x7d"]

def manifest (id binary : String) : Manifest Unit where
  format := packageFormat
  abiVersion := 3
  id := id.toList
  version := "1.0.0".toList
  binaries := [("wasm".toList, binary.toList)]
  frontend := false
  details := ()

def sidecarText (id : String) : List UInt8 :=
  ascii ["\x7b\n  \"author\": null,\n", "  \"commands\": [],\n", "  \"description\": null,\n",
    "  \"file_path\": null,\n", "  \"homepage\": null,\n", "  \"id\": \"", id, "\",\n",
    "  \"license\": null,\n", "  \"metrics\": [],\n", "  \"name\": \"Weather\",\n",
    "  \"version\": \"1.0.0\"\n\x7d"]

/-- The parser and the printer, for one manifest. -/
def env (id binary : String) : Env Unit where
  fromSlice bytes := if bytes = manifestText id binary then some (manifest id binary) else none
  sidecar _ := some (sidecarText id)
  platform := "linux_amd64".toList

def entry (name : String) (bytes : List UInt8) : Entry where
  name := name.toList
  size := bytes.length
  symlink := false
  opens := true
  bytes := bytes
  readFails := false

def target : Location := ["extensions".toList]

/-- There is nothing yet. -/
def empty : FileSystem where
  files _ := none
  dirs _ := false
  disjoint _ _ := rfl

/-- A package of a manifest and a binary. -/
def package (id binary : String) (h : binary.toList ≠ manifestJson) : Archive where
  entries := [entry "manifest.json" (manifestText id binary), entry binary [0, 97, 115, 109]]
  nodup := by
    show ([manifestJson, binary.toList] : List (List Char)).Nodup
    simp [h.symm]

/-- An installation where all goes well. -/
def steps (n : ℕ) : List Io := List.replicate n .ok

/-- A package whose binary declares one byte, and yields others.  The manifest has 126 bytes. -/
def overlong (bytes : List UInt8) : Archive where
  entries := [{ entry "manifest.json" (manifestText "weather" "extension.wasm") with size := 126 },
    { entry "extension.wasm" bytes with size := 1 }]
  nodup := by
    show ([manifestJson, "extension.wasm".toList] : List (List Char)).Nodup
    decide

/-- The parser, where nothing but the manifest is parsed. -/
def lenient : Env Unit :=
  { env "weather" "extension.wasm" with
    fromSlice := fun _ => some (manifest "weather" "extension.wasm") }

/-- A file that is longer than an entry may be is written. -/
theorem overlong_uncontained : ∃ bytes tr s,
    Run (step lenient (overlong bytes) target) (start empty) tr s ∧
      ¬ Contained lenient (overlong bytes) target s := by
  have hrun : ∀ bytes, ∃ tr s,
      Run (step lenient (overlong bytes) target) (start empty) tr s ∧
        ∃ location, .written location bytes true ∈ s.log := by
    intro bytes
    exact ⟨_, _, ((Run.nil.snoc (a := .ok) rfl).snoc (a := .ok) rfl).snoc (a := .ok) rfl,
      _, mem_cons_self⟩
  obtain ⟨tr, s, hrun, location, hwritten⟩ :=
    hrun (List.replicate (maxExtractFileSize + 1) 0)
  refine ⟨_, tr, s, hrun, fun h => ?_⟩
  have hle := h.entries location _ hwritten
  rw [length_replicate] at hle
  omega

/-- The installation is done, and a file of the package has no place. -/
def misplaced (env : Env Unit) (a : Archive) (s : Installation Unit) : Bool :=
  match s.phase with
  | .done m _ => (packageFiles env a m).any fun f => decide (m.id = ['.']) || inData f.place
  | _ => false

/-- An installation that puts a file where it does not belong. -/
theorem uncontained (env : Env Unit) (a : Archive)
    (h : (replay (step env a target) (start empty) (steps 20)).any (fun r =>
      decide (misplaced env a r.2 = true)) = true) :
    ∃ tr s, Run (step env a target) (start empty) tr s ∧ (∃ m r, s.phase = .done m r) ∧
      ¬ Contained env a target s := by
  obtain ⟨tr, s, hrun, hp⟩ := exists_run _ _ _ (fun _ s => misplaced env a s = true) h
  unfold misplaced at hp
  split at hp
  · rename_i m r hdone
    obtain ⟨f, hf, hwhere⟩ := any_eq_true.mp hp
    refine ⟨tr, s, hrun, ⟨m, r, hdone⟩, fun hcontained => ?_⟩
    have hprogress := progress_of_done (reached_of_run hrun) hdone
    have hplace := (fits_of_contained hprogress hcontained (prefix_refl _)).place f hf
    rw [hplace.2, Bool.or_false, decide_eq_true_eq] at hwhere
    exact hplace.1 hwhere
  · cases hp

end Sample

theorem install_contained_sample :
    ∃ tr s, Run (step (Sample.env "weather" "bin/extension.wasm")
        (Sample.package "weather" "bin/extension.wasm" (by decide)) Sample.target)
        (start Sample.empty) tr s ∧
      (∃ m r, s.phase = .done m r) ∧
      Contained (Sample.env "weather" "bin/extension.wasm")
        (Sample.package "weather" "bin/extension.wasm" (by decide)) Sample.target s ∧
      KeepsManifest (Sample.package "weather" "bin/extension.wasm" (by decide)) s := by
  let env := Sample.env "weather" "bin/extension.wasm"
  let a := Sample.package "weather" "bin/extension.wasm" (by decide)
  obtain ⟨tr, s, hrun, hdone⟩ := exists_run (step env a Sample.target)
    (start Sample.empty) (Sample.steps 20) (fun tr s => s.phase.isDone = true) (by decide +kernel)
  have hsound : ∀ m, manifestOf env a = some m → Sound env a m := by
    intro m hm
    obtain ⟨e, -, hm⟩ := Option.bind_eq_some_iff.mp hm
    have hmanifest : m = Sample.manifest "weather" "bin/extension.wasm" := by
      change (if _ then some _ else none) = _ at hm
      split at hm
      · exact (Option.some.inj hm).symm
      · cases hm
    subst hmanifest
    exact sound_of_limits (by decide +kernel) (by decide +kernel) (by decide +kernel)
  have hkept := (install_contained_iff env a Sample.target Sample.empty tr s hrun).1 hsound
  exact ⟨tr, s, hrun, Phase.exists_of_isDone hdone, hkept⟩

/-- The id `.` leads to the directory of all extensions; a binary is put among the private data,
or its description in the place of the manifest; and more bytes are written than an entry may
have. -/
theorem install_uncontained :
    (∃ tr s, Run (step (Sample.env "." "extension.wasm")
        (Sample.package "." "extension.wasm" (by decide)) Sample.target) (start Sample.empty) tr s ∧
      (∃ m r, s.phase = .done m r) ∧
      ¬ Contained (Sample.env "." "extension.wasm")
        (Sample.package "." "extension.wasm" (by decide)) Sample.target s) ∧
    (∃ tr s, Run (step (Sample.env "weather" "data/extension.wasm")
        (Sample.package "weather" "data/extension.wasm" (by decide)) Sample.target)
        (start Sample.empty) tr s ∧
      (∃ m r, s.phase = .done m r) ∧
      ¬ Contained (Sample.env "weather" "data/extension.wasm")
        (Sample.package "weather" "data/extension.wasm" (by decide)) Sample.target s) ∧
    (∃ tr s, Run (step (Sample.env "weather" "manifest.wasm")
        (Sample.package "weather" "manifest.wasm" (by decide)) Sample.target)
        (start Sample.empty) tr s ∧
      ¬ KeepsManifest (Sample.package "weather" "manifest.wasm" (by decide)) s) ∧
    ∃ bytes tr s, Run (step Sample.lenient (Sample.overlong bytes) Sample.target)
        (start Sample.empty) tr s ∧
      ¬ Contained Sample.lenient (Sample.overlong bytes) Sample.target s := by
  refine ⟨?_, ?_, ?_, ?_⟩
  · exact Sample.uncontained _ _ (by decide +kernel)
  · exact Sample.uncontained _ _ (by decide +kernel)
  · let a := Sample.package "weather" "manifest.wasm" (by decide)
    obtain ⟨tr, s, hrun, hp⟩ := exists_run
      (step (Sample.env "weather" "manifest.wasm") a Sample.target) (start Sample.empty)
      (Sample.steps 20) (fun tr s => losesManifest a s = true) (by decide +kernel)
    exact ⟨tr, s, hrun, not_keepsManifest_of_test hp⟩
  · exact Sample.overlong_uncontained

end HeraMind.Extension.Package
