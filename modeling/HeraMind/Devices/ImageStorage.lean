/-
# Stored images

How an image of a device is saved as a file and read back by its URL
(`crates/heramind-devices/src/image_storage.rs`).  A save stages the bytes in a temporary file of its
own and renames it without replacing anything, first to the primary name, then to names with a
number from a counter that all saves share.

Saves run concurrently, one access to the file system after the other.  They share the file system
and the counter.  The file system has no links and no errors but those of names that are taken.
-/
import HeraMind.Lib.ByteText
import HeraMind.Lib.Calls
import HeraMind.Lib.Run
import HeraMind.Lib.UnixPath

namespace HeraMind.Devices.ImageStorage

open Transition UnixPath

inductive ImageStorageError : Type where
  | invalidPathComponent (reason : String)
  | unknownFileType
  | ioError
  | tooLarge (len : ℕ)
  deriving DecidableEq

/-- `MAX_INTERNAL_IMAGE_BYTES`. -/
def maxInternalImageBytes : ℕ := 20 * 1024 * 1024

/-- Detect the file extension from magic bytes. -/
def detectExtension (bytes : List UInt8) : String :=
  if bytes.length < 4 then "bin"
  else if bytes.take 3 = [0xFF, 0xD8, 0xFF] then "jpg"
  else if bytes.take 4 = [0x89, 0x50, 0x4E, 0x47] then "png"
  else if bytes.take 4 = [0x47, 0x49, 0x46, 0x38] then "gif"
  else if 12 ≤ bytes.length ∧ bytes.take 4 = [0x52, 0x49, 0x46, 0x46]
      ∧ (bytes.drop 8).take 4 = [0x57, 0x45, 0x42, 0x50] then "webp"
  else if bytes.take 2 = [0x42, 0x4D] then "bmp"
  else if bytes.take 4 = [0x49, 0x49, 0x2A, 0x00] ∨ bytes.take 4 = [0x4D, 0x4D, 0x00, 0x2A] then
    "tiff"
  else "bin"

/-- Detect the MIME type from magic bytes. -/
def detectMimeFromBytes (bytes : List UInt8) : String :=
  match detectExtension bytes with
  | "jpg" => "image/jpeg"
  | "png" => "image/png"
  | "gif" => "image/gif"
  | "webp" => "image/webp"
  | "bmp" => "image/bmp"
  | "tiff" => "image/tiff"
  | _ => "image/jpeg"

/-- Validate a path component. -/
def validatePathComponent (component : String) : Except ImageStorageError String :=
  if component = "" then .error (.invalidPathComponent "empty string")
  else if ByteText.contains ['.', '.'] component.toList then
    .error (.invalidPathComponent ("contains path traversal: " ++ component))
  else if '/' ∈ component.toList ∨ '\\' ∈ component.toList then
    .error (.invalidPathComponent ("contains path separator: " ++ component))
  else if '\x00' ∈ component.toList then .error (.invalidPathComponent "contains null byte")
  else if 255 < ByteText.len component.toList then
    .error (.invalidPathComponent "too long (>255 chars)")
  else .ok component

/-! ## Names -/

/-- The arguments of `save_image_binary`, but for the directory. -/
structure SaveRequest where
  deviceId : String
  metric : String
  timestamp : Int64
  bytes : List UInt8
  deriving DecidableEq

/-- An `i64` as text. -/
def formatI64 (n : Int64) : List Char :=
  match n.toInt with
  | .ofNat m => Nat.toDigits 10 m
  | .negSucc m => '-' :: Nat.toDigits 10 (m + 1)

/-- `Uuid::simple`: 32 digits. -/
def simple (id : BitVec 128) : List Char :=
  (List.range 32).map fun i => Nat.digitChar (id.toNat >>> (4 * (31 - i)) % 16)

/-- What saves need besides their arguments: the content-derived UUID, and the data directory. -/
structure Env where
  /-- `Uuid::new_v5` of the bytes. -/
  contentId : List UInt8 → BitVec 128
  dataDir : Location

namespace Env

variable (env : Env)

def imagesDir : Location := join env.dataDir (segments "images".toList)

def metricDir (r : SaveRequest) : Location :=
  join (join env.imagesDir (segments r.deviceId.toList)) (segments r.metric.toList)

/-- The path of a name in the directory of the metric. -/
def path (r : SaveRequest) (name : List Char) : Location := join (env.metricDir r) (segments name)

/-- `<timestamp>_<content id>`. -/
def stem (r : SaveRequest) : List Char :=
  formatI64 r.timestamp ++ '_' :: simple (env.contentId r.bytes)

def primaryName (r : SaveRequest) : List Char :=
  env.stem r ++ '.' :: (detectExtension r.bytes).toList

def fallbackName (r : SaveRequest) (n : UInt64) : List Char :=
  env.stem r ++ '_' :: (Nat.toDigits 10 n.toNat ++ '.' :: (detectExtension r.bytes).toList)

end Env

/-- The URL of a name in the directory of the metric. -/
def SaveRequest.url (r : SaveRequest) (name : List Char) : String :=
  "/api/images/" ++ r.deviceId ++ "/" ++ r.metric ++ "/" ++ String.ofList name

/-! ## Saving -/

/-- What saves share. -/
structure Disk where
  fs : FileSystem
  /-- `IMAGE_FILENAME_UNIQUIFIER`. -/
  uniquifier : UInt64

/-- Where a save is.  From `write` on it has a temporary file; in the fallback loop it may try
`left` more names. -/
inductive Pc : Type where
  /-- `create_dir_all` has made the outermost directories. -/
  | mkdir (made : ℕ)
  | stage
  | write (tmp : List Char)
  | primary (tmp : List Char)
  | compare (tmp : List Char)
  | next (tmp : List Char) (left : ℕ)
  | fallback (tmp : List Char) (n : UInt64) (left : ℕ)
  | compareFallback (tmp : List Char) (n : UInt64) (left : ℕ)
  | done (result : Except ImageStorageError String)

/-- The validation at the beginning of a save. -/
def start (r : SaveRequest) : Pc :=
  match validatePathComponent r.deviceId with
  | .error e => .done (.error e)
  | .ok _ =>
    match validatePathComponent r.metric with
    | .error e => .done (.error e)
    | .ok _ => .mkdir 0

/-- The names of temporary files. -/
def IsTempName (name : List Char) : Prop :=
  ".tmp".toList <+: name ∧ (name.drop 4).all Char.isAlphanum = true

instance (name : List Char) : Decidable (IsTempName name) := by
  unfold IsTempName
  infer_instance

/-- Whether a file exists and has exactly these bytes. -/
def existingMatches (fs : FileSystem) (path : Location) (bytes : List UInt8) : Bool :=
  fs.files path = some bytes

/-- A save ends, and its temporary file is dropped. -/
def finish (env : Env) (r : SaveRequest) (tmp : List Char)
    (result : Except ImageStorageError String) (d : Disk) : Option (Disk × Pc) :=
  some ({ d with fs := d.fs.removeFile (env.path r tmp) }, .done result)

/-- A save goes on.  The name of its temporary file is picked at random. -/
def proceed (env : Env) (r : SaveRequest) (pick : List Char) (d : Disk) :
    Pc → Option (Disk × Pc)
  | .mkdir made =>
    match d.fs.createDir ((env.metricDir r).take made) with
    | some fs =>
      some ({ d with fs },
        if made < (env.metricDir r).length then .mkdir (made + 1) else .stage)
    | none => some (d, .done (.error .ioError))
  | .stage =>
    if IsTempName pick ∧ d.fs.taken (env.path r pick) = false then
      (d.fs.writeFile (env.path r pick) []).map fun fs => ({ d with fs }, .write pick)
    else none
  | .write tmp =>
    (d.fs.writeFile (env.path r tmp) r.bytes).map fun fs => ({ d with fs }, .primary tmp)
  | .primary tmp =>
    match d.fs.renameNoReplace (env.path r tmp) (env.path r (env.primaryName r)) with
    | some fs => some ({ d with fs }, .done (.ok (r.url (env.primaryName r))))
    | none => some (d, .compare tmp)
  | .compare tmp =>
    if existingMatches d.fs (env.path r (env.primaryName r)) r.bytes then
      finish env r tmp (.ok (r.url (env.primaryName r))) d
    else some (d, .next tmp 256)
  | .next tmp left =>
    match left with
    | 0 => finish env r tmp (.error .ioError) d
    | left + 1 =>
      some ({ d with uniquifier := d.uniquifier + 1 }, .fallback tmp d.uniquifier left)
  | .fallback tmp n left =>
    match d.fs.renameNoReplace (env.path r tmp) (env.path r (env.fallbackName r n)) with
    | some fs => some ({ d with fs }, .done (.ok (r.url (env.fallbackName r n))))
    | none => some (d, .compareFallback tmp n left)
  | .compareFallback tmp n left =>
    if existingMatches d.fs (env.path r (env.fallbackName r n)) r.bytes then
      finish env r tmp (.ok (r.url (env.fallbackName r n))) d
    else some (d, .next tmp left)
  | .done _ => none

structure Save where
  request : SaveRequest
  pc : Pc

structure State where
  disk : Disk
  saves : List Save

inductive Action : Type where
  /-- `save_image_binary` is called. -/
  | save (r : SaveRequest)
  /-- A save goes on. -/
  | proceed (i : ℕ) (pick : List Char)

def step (env : Env) (s : State) : Action → Option State
  | .save r => some { s with saves := s.saves ++ [⟨r, start r⟩] }
  | .proceed i pick =>
    match s.saves[i]? with
    | none => none
    | some c =>
      (proceed env c.request pick s.disk c.pc).map fun next =>
        ⟨next.1, s.saves.set i ⟨c.request, next.2⟩⟩

/-- Before the first save of a process. -/
def init (fs : FileSystem) : State := ⟨⟨fs, 0⟩, []⟩

/-! ## Reading -/

/-- The prefix of internal URLs. -/
def urlPrefix : List Char := "/api/images/".toList

/-- Read an internal image URL back into bytes and MIME type. -/
def readInternalImageUrl (env : Env) (fs : FileSystem) (url : String) :
    Except ImageStorageError (List UInt8 × String) :=
  if urlPrefix <+: url.toList then
    let urlPath := url.toList.drop urlPrefix.length
    if '\x00' ∈ urlPath ∨
        (components (segments urlPath)).any fun c => c = .parentDir ∨ c = .rootDir then
      .error (.invalidPathComponent "path traversal is not allowed in /api/images/ URL")
    else
      let imagePath := join env.imagesDir (segments urlPath)
      if fs.taken env.imagesDir = false ∨ fs.taken imagePath = false then .error .ioError
      else if ¬ env.imagesDir <+: imagePath then
        .error (.invalidPathComponent "image path escapes the images directory")
      else
        match fs.files imagePath with
        | none => .error .ioError
        | some bytes =>
          if maxInternalImageBytes < bytes.length then .error (.tooLarge bytes.length)
          else if detectExtension bytes = "bin" then .error .unknownFileType
          else .ok (bytes, detectMimeFromBytes bytes)
  else .error (.invalidPathComponent ("not a /api/images/ URL: " ++ url))

end HeraMind.Devices.ImageStorage
