/-
# Installing a package

`install_from_archive` (`crates/heramind-core/src/extension/package.rs`) unpacks the archive of an
extension below the directory of all extensions: the manifest, the binary that the manifest
names, the libraries beside it, a description for the loader, and four directories of
resources.  What the archive says is not to be trusted.  Paths go through `safe_join_within`,
and sizes are charged to a budget: the sizes that the archive declares, not the bytes that come
out of it.

An installation is a run of steps, one for each file.  A step is told how its system calls go.
-/
import HeraMind.Lib.ByteText
import HeraMind.Lib.Run
import HeraMind.Lib.UnixPath

namespace HeraMind.Extension.Package

open Transition UnixPath

/-! ## Manifest and archive -/

/-- `PACKAGE_FORMAT`. -/
def packageFormat : List Char := "heramind-extension-package".toList

/-- `CURRENT_ABI_VERSION`. -/
def currentAbiVersion : ℕ := 3

/-- `MIN_ABI_VERSION`. -/
def minAbiVersion : ℕ := 3

/-- `ExtensionPackageManifest`.  What only the description for the loader and the dashboards use
is in `details`. -/
structure Manifest (Details : Type) where
  format : List Char
  abiVersion : ℕ
  id : List Char
  version : List Char
  binaries : List (List Char × List Char)
  /-- There is a frontend. -/
  frontend : Bool
  details : Details

/-- An entry of an archive.  Its bytes are those that reading it yields, however many it
declares; reading may end with an error. -/
structure Entry where
  name : List Char
  size : ℕ
  symlink : Bool
  /-- It can be opened. -/
  opens : Bool
  bytes : List UInt8
  readFails : Bool
  deriving DecidableEq

/-- `ZipArchive`, whose entries have different names. -/
structure Archive where
  entries : List Entry
  nodup : (entries.map Entry.name).Nodup

/-- `by_name`. -/
def Archive.byName (a : Archive) (name : List Char) : Option Entry :=
  a.entries.find? fun e => e.name = name ∧ e.opens = true

inductive ManifestError : Type where
  | idRequired
  | idCharacters (id : List Char)
  | versionRequired
  | sidecarNotSerialized
  deriving DecidableEq

inductive ZipError : Type where
  | symlinkRejected (name : List Char)
  | fileTooLarge (name : List Char) (size : ℕ)
  | libraryTooLarge (name : List Char) (size : ℕ)
  | totalTooLarge
  | tooManyFiles
  | pathTraversal (rel : List Char)
  | absolutePath (rel : List Char)
  | accessFailed (i : ℕ)
  deriving DecidableEq

/-- `PackageError`. -/
inductive PackageError : Type where
  | invalidFormat (got : List Char)
  | missingFile (name : List Char)
  | unsupportedPlatform (platform : List Char) (available : List (List Char))
  | invalidManifest (error : ManifestError)
  | incompatibleVersion (got : ℕ)
  | io
  | zip (error : ZipError)
  | json
  deriving DecidableEq

/-- What the installer finds around it: the parser of manifests, the description of an extension
for the loader, and the platform. -/
structure Env (Details : Type) where
  fromSlice : List UInt8 → Option (Manifest Details)
  sidecar : Manifest Details → Option (List UInt8)
  platform : List Char

variable {Details : Type}

/-- `validate_manifest`. -/
def validateManifest (m : Manifest Details) : Except PackageError Unit :=
  if m.format ≠ packageFormat then .error (.invalidFormat m.format)
  else if m.abiVersion < minAbiVersion ∨ currentAbiVersion < m.abiVersion then
    .error (.incompatibleVersion m.abiVersion)
  else if m.id = [] then .error (.invalidManifest .idRequired)
  else if ['.', '.'] <:+: m.id ∨ '/' ∈ m.id ∨ '\\' ∈ m.id ∨ '\x00' ∈ m.id then
    .error (.invalidManifest (.idCharacters m.id))
  else if m.version = [] then .error (.invalidManifest .versionRequired)
  else .ok ()

/-- The path of the binary for a platform, or of the one for all platforms. -/
def Manifest.binaryFor (m : Manifest Details) (platform : List Char) : Option (List Char) :=
  match m.binaries.lookup platform with
  | some path => some path
  | none => m.binaries.lookup "wasm".toList

/-! ## Budget -/

/-- `MAX_EXTRACT_FILE_SIZE`. -/
def maxExtractFileSize : ℕ := 200 * 1024 * 1024

/-- `MAX_EXTRACT_TOTAL_SIZE`. -/
def maxExtractTotalSize : ℕ := 500 * 1024 * 1024

/-- `MAX_EXTRACT_FILE_COUNT`. -/
def maxExtractFileCount : ℕ := 10000

/-- `InstallBudget`. -/
structure InstallBudget where
  totalBytes : ℕ
  fileCount : ℕ
  deriving DecidableEq

/-- `charge`. -/
def InstallBudget.charge (b : InstallBudget) (bytes : ℕ) : Except PackageError InstallBudget :=
  let totalBytes := min (b.totalBytes + bytes) (2 ^ 64 - 1)
  let fileCount := b.fileCount + 1
  if maxExtractTotalSize < totalBytes then .error (.zip .totalTooLarge)
  else if maxExtractFileCount < fileCount then .error (.zip .tooManyFiles)
  else .ok ⟨totalBytes, fileCount⟩

/-! ## Paths -/

def manifestJson : List Char := "manifest.json".toList

def data : List Char := "data".toList

/-- `safe_join_within`. -/
def safeJoinWithin (dst : Location) (rel : List Char) : Except PackageError Location :=
  (components (segments rel)).foldlM (fun resolved component =>
    match component with
    | .normal name => .ok (resolved ++ [name])
    | .curDir => .ok resolved
    | .parentDir => .error (.zip (.pathTraversal rel))
    | .rootDir => .error (.zip (.absolutePath rel))) dst

/-- What is before the names of the libraries in a directory. -/
def dirPrefix (dir : Segments) : List Char :=
  if text dir = [] then [] else text dir ++ ['/']

def trimAux (pre : List Char) : ℕ → List Char → List Char
  | 0, t => t
  | n + 1, t => if pre ≠ [] ∧ pre <+: t then trimAux pre n (t.drop pre.length) else t

/-- `trim_start_matches`. -/
def trimStartMatches (pre t : List Char) : List Char := trimAux pre t.length t

/-- The entry is a library beside the binary.  `name[name.len() - 1..]` panics if the last
character has more than one byte, or there is none. -/
def isSibling (rel : List Char) (dir : Segments) (name : List Char) : Option Bool :=
  if dirPrefix dir <+: name ∧ ¬ ['/'] <:+ name ∧ name ≠ rel ∧ ¬ data ++ ['/'] <+: name then
    if name = [] then none
    else
      match ByteText.sliceFrom name (ByteText.len name - 1) with
      | some last => some (!decide (['/'] <+: last) && name.count '/' == rel.count '/')
      | none => none
  else some false

/-- The first checks of `extract_file_sync`. -/
def extractFile (a : Archive) (name : List Char) (b : InstallBudget) :
    Except PackageError (Entry × InstallBudget) :=
  match a.byName name with
  | none => .error (.missingFile name)
  | some e =>
    if e.symlink then .error (.zip (.symlinkRejected name))
    else if maxExtractFileSize < e.size then .error (.zip (.fileTooLarge name e.size))
    else
      match b.charge e.size with
      | .ok b => .ok (e, b)
      | .error error => .error error

/-! ## The installation -/

/-- `InstallResult`, as far as it depends on the installation. -/
structure InstallResult where
  extensionId : List Char
  version : List Char
  binaryPath : Location
  manifestPath : Location
  frontendDir : Option Location
  resourcesDir : Option Location
  modelsDir : Option Location

/-- Where the installation is. -/
inductive Phase (Details : Type) : Type where
  | opening
  | manifest (m : Manifest Details)
  | binary (m : Manifest Details)
  /-- The entry `i` is next to be looked at, for the directory of the binary `rel`. -/
  | siblings (m : Manifest Details) (rel : List Char) (file : Location) (dir : Segments) (i : ℕ)
  | sidecar (m : Manifest Details) (rel : List Char) (file : Location)
  | entering (m : Manifest Details) (file : Location) (dirs : List (List Char))
  | within (m : Manifest Details) (file : Location) (dir : List Char) (dirs : List (List Char))
      (i : ℕ)
  | done (m : Manifest Details) (result : InstallResult)
  | failed (error : PackageError)
  | panicked

/-- What was done to a file. -/
inductive FileOp : Type where
  | removed (location : Location)
  | written (location : Location) (bytes : List UInt8) (entry : Bool)

def FileOp.location : FileOp → Location
  | .removed location | .written location _ _ => location

def FileOp.size : FileOp → ℕ
  | .removed _ => 0
  | .written _ bytes _ => bytes.length

/-- The state of an installation, with what was done to files, newest first. -/
structure Installation (Details : Type) where
  fs : FileSystem
  budget : InstallBudget
  phase : Phase Details
  log : List FileOp

/-- A file that is to be written, and where the installation is then. -/
structure Order (Details : Type) where
  location : Location
  bytes : List UInt8
  readFails : Bool
  /-- It is an entry of the archive. -/
  entry : Bool
  budget : InstallBudget
  phase : Phase Details

/-- What comes next. -/
inductive Move (Details : Type) : Type where
  | next (phase : Phase Details)
  | mkdir (dir : Location) (phase : Phase Details)
  | put (order : Order Details)

/-- How the system calls of a step go. -/
inductive Io : Type where
  | ok
  | mkdirFails
  | createFails
  /-- After some bytes. -/
  | copyFails (n : ℕ)
  deriving DecidableEq

section Install

variable (env : Env Details) (a : Archive) (target : Location)

/-- `ext_dir`. -/
def extDir (m : Manifest Details) : Location := join target (segments m.id)

/-- An entry that passes the checks is to be written. -/
def putEntry (location : Except PackageError Location) (e : Entry) (b : InstallBudget)
    (phase : Location → Phase Details) : Move Details :=
  match location with
  | .error error => .next (.failed error)
  | .ok location => .put ⟨location, e.bytes, e.readFails, true, b, phase location⟩

/-- The manifest is read and checked. -/
def openPackage : Move Details :=
  match a.byName manifestJson with
  | none => .next (.failed (.missingFile manifestJson))
  | some e =>
    if e.readFails then .next (.failed .io)
    else
      match env.fromSlice e.bytes with
      | none => .next (.failed .json)
      | some m =>
        match validateManifest m with
        | .error error => .next (.failed error)
        | .ok () => .mkdir (extDir target m) (.manifest m)

def moveManifest (b : InstallBudget) (m : Manifest Details) : Move Details :=
  match extractFile a manifestJson b with
  | .error error => .next (.failed error)
  | .ok (e, b) => putEntry (.ok (extDir target m ++ [manifestJson])) e b fun _ => .binary m

def moveBinary (b : InstallBudget) (m : Manifest Details) : Move Details :=
  match m.binaryFor env.platform with
  | none => .next (.failed (.unsupportedPlatform env.platform (m.binaries.map Prod.fst)))
  | some rel =>
    match safeJoinWithin (extDir target m) rel with
    | .error error => .next (.failed error)
    | .ok file =>
      match extractFile a rel b with
      | .error error => .next (.failed error)
      | .ok (e, b) => putEntry (.ok file) e b fun _ =>
        match parent (segments rel) with
        | some dir => .siblings m rel file dir 0
        | none => .sidecar m rel file

/-- The library is written. -/
def putLibrary (b : InstallBudget) (m : Manifest Details) (rel : List Char) (file : Location)
    (dir : Segments) (i : ℕ) (e : Entry) : Move Details :=
  if e.symlink then .next (.failed (.zip (.symlinkRejected e.name)))
  else if maxExtractFileSize < e.size then
    .next (.failed (.zip (.libraryTooLarge e.name e.size)))
  else
    match b.charge e.size with
    | .error error => .next (.failed error)
    | .ok b => putEntry
      (safeJoinWithin (join (extDir target m) dir) (trimStartMatches (dirPrefix dir) e.name))
      e b fun _ => .siblings m rel file dir (i + 1)

def moveSibling (b : InstallBudget) (m : Manifest Details) (rel : List Char) (file : Location)
    (dir : Segments) (i : ℕ) : Move Details :=
  match a.entries[i]? with
  | none => .next (.sidecar m rel file)
  | some e =>
    if e.opens then
      match isSibling rel dir e.name with
      | none => .next .panicked
      | some false => .next (.siblings m rel file dir (i + 1))
      | some true => putLibrary target b m rel file dir i e
    else .next (.siblings m rel file dir (i + 1))

/-- The directories that are unpacked. -/
def resourceDirs (m : Manifest Details) : List (List Char) :=
  (if m.frontend then ["frontend".toList] else []) ++
    ["models".toList, "assets".toList, "config".toList]

def moveSidecar (b : InstallBudget) (m : Manifest Details) (file : Location) : Move Details :=
  match env.sidecar m with
  | none => .next (.failed (.invalidManifest .sidecarNotSerialized))
  | some bytes => .put ⟨withExtension file "json".toList, bytes, false, false, b,
      .entering m file (resourceDirs m)⟩

/-- `extract_directory_sync`. -/
def moveWithin (b : InstallBudget) (m : Manifest Details) (file : Location) (dir : List Char)
    (dirs : List (List Char)) (i : ℕ) : Move Details :=
  match a.entries[i]? with
  | none => .next (.entering m file dirs)
  | some e =>
    if e.opens then
      if dir ++ ['/'] <+: e.name ∧ ¬ ['/'] <:+ e.name then
        match safeJoinWithin (extDir target m ++ [dir]) (e.name.drop (dir.length + 1)) with
        | .error error => .next (.failed error)
        | .ok location =>
          if e.symlink then .next (.failed (.zip (.symlinkRejected e.name)))
          else if maxExtractFileSize < e.size then
            .next (.failed (.zip (.fileTooLarge e.name e.size)))
          else
            match b.charge e.size with
            | .error error => .next (.failed error)
            | .ok b => putEntry (.ok location) e b fun _ => .within m file dir dirs (i + 1)
      else .next (.within m file dir dirs (i + 1))
    else .next (.failed (.zip (.accessFailed i)))

/-- The resource directories are there by then. -/
def result (m : Manifest Details) (file : Location) : InstallResult where
  extensionId := m.id
  version := m.version
  binaryPath := file
  manifestPath := extDir target m ++ [manifestJson]
  frontendDir := if m.frontend then some (extDir target m ++ ["frontend".toList]) else none
  resourcesDir := some (extDir target m ++ ["assets".toList])
  modelsDir := some (extDir target m ++ ["models".toList])

/-- `install_from_archive`, up to the next access to the file system. -/
def move (b : InstallBudget) : Phase Details → Option (Move Details)
  | .opening => some (openPackage env a target)
  | .manifest m => some (moveManifest a target b m)
  | .binary m => some (moveBinary env a target b m)
  | .siblings m rel file dir i => some (moveSibling a target b m rel file dir i)
  | .sidecar m _ file => some (moveSidecar env b m file)
  | .entering m file [] => some (.next (.done m (result target m file)))
  | .entering m file (dir :: dirs) =>
    some (.mkdir (extDir target m ++ [dir]) (.within m file dir dirs 0))
  | .within m file dir dirs i => some (moveWithin a target b m file dir dirs i)
  | .done _ _ | .failed _ | .panicked => none

end Install

/-! ## Steps -/

namespace Installation

variable (s : Installation Details)

def fail : Installation Details := { s with phase := .failed .io }

/-- The first bytes that a step copies. -/
def copied (o : Order Details) : Io → List UInt8
  | .copyFails n => o.bytes.take n
  | _ => o.bytes

/-- The file that was there is removed before an entry is written. -/
def clear (o : Order Details) : Installation Details :=
  if o.entry && (s.fs.files o.location).isSome then
    { s with fs := s.fs.removeFile o.location, log := .removed o.location :: s.log }
  else s

/-- A file is written. -/
def write (o : Order Details) (io : Io) : Installation Details :=
  match s.fs.writeFile o.location (copied o io) with
  | none => s.fail
  | some fs =>
    { s with
      fs := fs
      log := .written o.location (copied o io) o.entry :: s.log
      phase := if o.readFails || decide (io ≠ .ok) then .failed .io else o.phase }

/-- The parent directory, the old file, and the new one. -/
def put (o : Order Details) (io : Io) : Installation Details :=
  let charged := { s with budget := o.budget }
  match io, s.fs.createDirAll o.location.dropLast with
  | .mkdirFails, _ | _, none => charged.fail
  | .createFails, some fs => ({ charged with fs := fs }.clear o).fail
  | io, some fs => ({ charged with fs := fs }.clear o).write o io

def mkdir (dir : Location) (phase : Phase Details) (io : Io) : Installation Details :=
  match s.fs.createDirAll dir with
  | some fs => if io = .mkdirFails then s.fail else { s with fs := fs, phase := phase }
  | none => s.fail

end Installation

section Step

variable (env : Env Details) (a : Archive) (target : Location)

/-- One step. -/
def step (s : Installation Details) (io : Io) : Option (Installation Details) :=
  match move env a target s.budget s.phase with
  | none => none
  | some (.next phase) => some { s with phase := phase }
  | some (.mkdir dir phase) => some (s.mkdir dir phase io)
  | some (.put o) => some (s.put o io)

/-- Before the installation, in any file system. -/
def start (fs : FileSystem) : Installation Details where
  fs := fs
  budget := ⟨0, 0⟩
  phase := .opening
  log := []

end Step

end HeraMind.Extension.Package
