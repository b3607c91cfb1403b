/-
# Where an image is saved and where its URL leads

The path that a save builds from device, metric and name is the one that reading parses from the
URL.  A component may be a single dot, which both sides drop; a name of a file is never one.
-/
import HeraMind.Devices.ImageStorage

namespace HeraMind.Devices.ImageStorage

open List
open UnixPath

variable {env : Env} {r : SaveRequest} {base : Location} {name : List Char}

/-! ## Components -/

/-- A component that passes validation. -/
structure ValidComponent (component : List Char) : Prop where
  ne_nil : component ≠ []
  noParent : component ≠ ['.', '.']
  noSlash : '/' ∉ component
  noNul : '\x00' ∉ component

theorem validComponent_of_ok {component component' : String}
    (h : validatePathComponent component = .ok component') : ValidComponent component.toList := by
  unfold validatePathComponent at h
  split at h
  · cases h
  rename_i hne
  split at h
  · cases h
  rename_i hparent
  split at h
  · cases h
  rename_i hsep
  split at h
  · cases h
  rename_i hnul
  refine ⟨fun hnil => hne (String.toList_inj.mp (by rw [hnil]; rfl)), ?_,
    fun hmem => hsep (Or.inl hmem), hnul⟩
  intro heq
  apply hparent
  rw [heq]
  decide

/-- Both components of a request pass validation. -/
structure Valid (r : SaveRequest) : Prop where
  device : ValidComponent r.deviceId.toList
  metric : ValidComponent r.metric.toList
  starts : start r = .mkdir 0

theorem valid_or_error (r : SaveRequest) : Valid r ∨ ∃ e, start r = .done (.error e) := by
  cases hdevice : validatePathComponent r.deviceId with
  | error e => exact Or.inr ⟨e, by rw [start, hdevice]⟩
  | ok device =>
    cases hmetric : validatePathComponent r.metric with
    | error e => exact Or.inr ⟨e, by rw [start, hdevice, hmetric]⟩
    | ok metric =>
      exact Or.inl ⟨validComponent_of_ok hdevice, validComponent_of_ok hmetric,
        by rw [start, hdevice, hmetric]⟩

variable {component : List Char}

theorem names_singleton (h : ValidComponent component) :
    names [component] = if component = ['.'] then [] else [component] := by
  unfold names
  rw [components_cons h.ne_nil, leading, filterMap_nil]
  by_cases hdot : component = ['.']
  · rw [if_pos hdot, if_pos hdot]
    rfl
  · rw [if_neg hdot, if_neg h.noParent, if_neg hdot]
    rfl

theorem leading_isDown (h : ValidComponent component) :
    (leading component).isDown = true := by
  unfold leading
  by_cases hdot : component = ['.']
  · rw [if_pos hdot]
    rfl
  · rw [if_neg hdot, if_neg h.noParent]
    rfl

theorem descends_cons {rest : Segments} (h : ValidComponent component)
    (hrest : ∀ segment ∈ rest, ValidComponent segment) : Descends (component :: rest) := by
  intro c hc
  rw [components_cons h.ne_nil] at hc
  rcases mem_cons.mp hc with rfl | hc
  · exact leading_isDown h
  · obtain ⟨segment, hsegment, hinner⟩ := mem_filterMap.mp hc
    unfold UnixPath.inner at hinner
    split at hinner
    · cases hinner
    · rw [if_neg (hrest segment hsegment).noParent] at hinner
      cases hinner
      rfl

theorem segments_of_valid (h : ValidComponent component) :
    segments component = [component] := splitOn_eq_singleton h.noSlash

theorem join_segments (h : ValidComponent component) :
    join base (segments component) = base ++ names [component] := by
  rw [segments_of_valid h]
  exact join_of_descends (descends_cons h fun _ hmem => absurd hmem not_mem_nil)

/-- The names of a path are those of its segments. -/
theorem names_cons {first : List Char} {rest : Segments} (hfirst : ValidComponent first)
    (hrest : ∀ segment ∈ rest, ValidComponent segment) :
    names (first :: rest) = names [first] ++ rest.flatMap fun segment => names [segment] := by
  have htail : (rest.filterMap UnixPath.inner).filterMap Component.name
      = rest.flatMap fun segment => names [segment] := by
    induction rest with
    | nil => rfl
    | cons segment rest ih =>
      have hsegment := hrest segment (mem_cons_self ..)
      rw [flatMap_cons, ← ih fun s hs => hrest s (mem_cons_of_mem _ hs),
        names_singleton hsegment, filterMap_cons]
      by_cases hdot : segment = ['.']
      · rw [if_pos hdot, UnixPath.inner, if_pos (Or.inr hdot)]
        rfl
      · rw [if_neg hdot, UnixPath.inner, if_neg (by simp [hdot, hsegment.ne_nil]),
          if_neg hsegment.noParent]
        rfl
  rw [← htail]
  unfold names
  rw [components_cons hfirst.ne_nil, components_cons hfirst.ne_nil, filterMap_nil,
    ← filterMap_append]
  rfl

/-! ## Names of files -/

/-- A name of a file that a path can end with. -/
structure PlainName (name : List Char) : Prop where
  valid : ValidComponent name
  noDot : name ≠ ['.']

theorem names_of_plain (h : PlainName name) : names [name] = [name] := by
  rw [names_singleton h.valid, if_neg h.noDot]

/-- The extensions of the formats. -/
theorem detectExtension_mem (bytes : List UInt8) :
    detectExtension bytes ∈ ["bin", "jpg", "png", "gif", "webp", "bmp", "tiff"] := by
  unfold detectExtension
  split
  · simp
  split
  · simp
  split
  · simp
  split
  · simp
  split
  · simp
  split
  · simp
  split
  · simp
  · simp

/-- The characters of names, up to the separators. -/
def IsNameChar (c : Char) : Prop := c ≠ '/' ∧ c ≠ '\x00'

instance : DecidablePred IsNameChar := fun c =>
  inferInstanceAs (Decidable (c ≠ '/' ∧ c ≠ '\x00'))

theorem isNameChar_of_isDigit {c : Char} (h : c.isDigit = true) : IsNameChar c := by
  constructor
  · rintro rfl
    exact absurd h (by decide)
  · rintro rfl
    exact absurd h (by decide)

theorem isNameChar_toDigits {n : ℕ} : ∀ c ∈ Nat.toDigits 10 n, IsNameChar c := fun _ hc =>
  isNameChar_of_isDigit (Nat.isDigit_of_mem_toDigits (by decide) (by decide) hc)

theorem isNameChar_simple (id : BitVec 128) : ∀ c ∈ simple id, IsNameChar c := by
  intro c hc
  obtain ⟨i, -, rfl⟩ := mem_map.mp hc
  have hlt : id.toNat >>> (4 * (31 - i)) % 16 < 16 := Nat.mod_lt _ (by decide)
  generalize id.toNat >>> (4 * (31 - i)) % 16 = digit at hlt
  have hall : ∀ digit < 16, IsNameChar (Nat.digitChar digit) := by
    unfold IsNameChar
    decide
  exact hall digit hlt

theorem isNameChar_extension (bytes : List UInt8) :
    ∀ c ∈ (detectExtension bytes).toList, IsNameChar c := by
  have hall : (["bin", "jpg", "png", "gif", "webp", "bmp", "tiff"].all fun ext =>
      ext.toList.all fun c => decide (IsNameChar c)) = true := by decide
  exact ByteText.forall_mem_of_all (all_eq_true.mp hall _ (detectExtension_mem bytes))

/-- A timestamp begins with a digit or a minus sign. -/
theorem formatI64_cons (n : Int64) :
    ∃ c t, formatI64 n = c :: t ∧ c ≠ '.' ∧ ∀ d ∈ c :: t, IsNameChar d := by
  unfold formatI64
  cases n.toInt with
  | ofNat m =>
    obtain ⟨c, t, ht⟩ := exists_cons_of_ne_nil (Nat.toDigits_ne_nil (n := m) (b := 10))
    refine ⟨c, t, ht, ?_, ?_⟩
    · rintro rfl
      have hdigit : ('.' : Char).isDigit = true :=
        Nat.isDigit_of_mem_toDigits (b := 10) (by decide) (by decide)
          (by rw [ht]; exact mem_cons_self ..)
      exact absurd hdigit (by decide)
    · rw [← ht]
      exact isNameChar_toDigits
  | negSucc m =>
    refine ⟨'-', Nat.toDigits 10 (m + 1), rfl, by decide, ?_⟩
    intro d hd
    rcases mem_cons.mp hd with rfl | hd
    · exact ⟨by decide, by decide⟩
    · exact isNameChar_toDigits d hd

/-- A name that begins with the stem of a request. -/
structure FinalName (env : Env) (r : SaveRequest) (name : List Char) : Prop where
  eq : name = env.primaryName r ∨ ∃ n, name = env.fallbackName r n

theorem FinalName.cons (h : FinalName env r name) :
    ∃ c d t, name = c :: d :: t ∧ c ≠ '.' ∧ ∀ e ∈ name, IsNameChar e := by
  obtain ⟨c, t, ht, hc, hchars⟩ := formatI64_cons r.timestamp
  have hstem : ∀ e ∈ env.stem r, IsNameChar e := by
    intro e he
    unfold Env.stem at he
    rw [ht] at he
    rcases mem_append.mp he with he | he
    · exact hchars e he
    · rcases mem_cons.mp he with rfl | he
      · exact ⟨by decide, by decide⟩
      · exact isNameChar_simple _ e he
  have hext := isNameChar_extension r.bytes
  have hcons : ∀ rest : List Char, ∃ d u, env.stem r ++ rest = c :: d :: u := by
    intro rest
    unfold Env.stem
    rw [ht]
    cases t with
    | nil | cons d t => exact ⟨_, _, rfl⟩
  obtain rfl | ⟨n, rfl⟩ := h.eq
  · unfold Env.primaryName
    obtain ⟨d, u, hu⟩ := hcons ('.' :: (detectExtension r.bytes).toList)
    refine ⟨c, d, u, hu, hc, ?_⟩
    intro e he
    rcases mem_append.mp he with he | he
    · exact hstem e he
    · rcases mem_cons.mp he with rfl | he
      · exact ⟨by decide, by decide⟩
      · exact hext e he
  · unfold Env.fallbackName
    obtain ⟨d, u, hu⟩ :=
      hcons ('_' :: (Nat.toDigits 10 n.toNat ++ '.' :: (detectExtension r.bytes).toList))
    refine ⟨c, d, u, hu, hc, ?_⟩
    intro e he
    rcases mem_append.mp he with he | he
    · exact hstem e he
    · rcases mem_cons.mp he with rfl | he
      · exact ⟨by decide, by decide⟩
      · rcases mem_append.mp he with he | he
        · exact isNameChar_toDigits e he
        · rcases mem_cons.mp he with rfl | he
          · exact ⟨by decide, by decide⟩
          · exact hext e he

theorem FinalName.plain (h : FinalName env r name) : PlainName name := by
  obtain ⟨c, d, t, hname, hc, hchars⟩ := h.cons
  refine ⟨⟨?_, ?_, fun hmem => (hchars _ hmem).1 rfl, fun hmem => (hchars _ hmem).2 rfl⟩, ?_⟩
  · rw [hname]
    exact cons_ne_nil _ _
  · rw [hname]
    intro heq
    exact hc (cons.inj heq).1
  · rw [hname]
    intro heq
    exact hc (cons.inj heq).1

/-- The name of a saved image is not one of a temporary file. -/
theorem FinalName.not_temp (h : FinalName env r name) : ¬ IsTempName name := by
  obtain ⟨c, d, t, rfl, hc, -⟩ := h.cons
  rintro ⟨⟨rest, hrest⟩, -⟩
  exact hc (cons.inj hrest).1.symm

theorem IsTempName.plain (h : IsTempName name) : PlainName name := by
  obtain ⟨⟨rest, rfl⟩, hall⟩ := h
  have hchars : ∀ c ∈ ".tmp".toList ++ rest, IsNameChar c := by
    intro c hc
    rcases mem_append.mp hc with hc | hc
    · exact ByteText.forall_mem_of_all (t := ".tmp".toList) (by decide) c hc
    · have hdrop : (".tmp".toList ++ rest).drop 4 = rest := rfl
      rw [hdrop] at hall
      have halnum := all_eq_true.mp hall c hc
      constructor
      · rintro rfl
        exact absurd halnum (by decide)
      · rintro rfl
        exact absurd halnum (by decide)
  refine ⟨⟨by simp, ?_, fun hmem => (hchars _ hmem).1 rfl, fun hmem => (hchars _ hmem).2 rfl⟩, ?_⟩
  · intro heq
    exact absurd (congrArg List.length heq) (by simp)
  · intro heq
    exact absurd (congrArg List.length heq) (by simp)

/-! ## Paths and URLs -/

theorem path_eq (h : PlainName name) : env.path r name = env.metricDir r ++ [name] := by
  unfold Env.path
  rw [join_segments h.valid, names_of_plain h]

theorem metricDir_eq (h : Valid r) :
    env.metricDir r = env.imagesDir ++ (names [r.deviceId.toList] ++ names [r.metric.toList]) := by
  unfold Env.metricDir
  rw [join_segments h.metric, join_segments h.device, append_assoc]

theorem url_injective {name name' : List Char} (heq : r.url name = r.url name') : name = name' := by
  have htext := congrArg String.toList heq
  unfold SaveRequest.url at htext
  rw [String.toList_append, String.toList_append (s := _ ++ "/")] at htext
  simpa using append_cancel_left htext

/-- The path in the URL of a name. -/
def urlPath (r : SaveRequest) (name : List Char) : List Char :=
  ['/'].intercalate [r.deviceId.toList, r.metric.toList, name]

theorem toList_url (r : SaveRequest) (name : List Char) :
    (r.url name).toList = urlPrefix ++ urlPath r name := by
  unfold SaveRequest.url urlPath urlPrefix
  rw [intercalate_cons_cons, intercalate_cons_cons, intercalate_singleton]
  simp [String.toList_append]

theorem segments_urlPath (h : Valid r) (hname : PlainName name) :
    segments (urlPath r name) = [r.deviceId.toList, r.metric.toList, name] := by
  refine splitOn_intercalate '/' ?_ (cons_ne_nil _ _)
  intro segment hsegment
  simp only [mem_cons, not_mem_nil, or_false] at hsegment
  rcases hsegment with rfl | rfl | rfl
  · exact h.device.noSlash
  · exact h.metric.noSlash
  · exact hname.valid.noSlash

theorem validComponents (h : Valid r) (hname : PlainName name) :
    ∀ segment ∈ [r.metric.toList, name], ValidComponent segment := by
  intro segment hsegment
  simp only [mem_cons, not_mem_nil, or_false] at hsegment
  rcases hsegment with rfl | rfl
  · exact h.metric
  · exact hname.valid

/-- The URL of a name leads to its path. -/
theorem join_urlPath (h : Valid r) (hname : PlainName name) :
    join env.imagesDir (segments (urlPath r name)) = env.path r name := by
  have hrest := validComponents h hname
  rw [segments_urlPath h hname, join_of_descends (descends_cons h.device hrest),
    names_cons h.device hrest, path_eq hname, metricDir_eq h]
  simp [names_of_plain hname]

theorem urlPath_guards (h : Valid r) (hname : PlainName name) :
    '\x00' ∉ urlPath r name ∧
      ((components (segments (urlPath r name))).any fun c => c = .parentDir ∨ c = .rootDir)
        = false := by
  constructor
  · unfold urlPath
    rw [intercalate_cons_cons, intercalate_cons_cons, intercalate_singleton]
    have hdevice := h.device.noNul
    have hmetric := h.metric.noNul
    have hfile := hname.valid.noNul
    simp [hdevice, hmetric, hfile]
  · rw [segments_urlPath h hname, any_eq_false]
    intro c hc
    have hdown := descends_cons h.device (validComponents h hname) c hc
    cases c with
    | rootDir => cases hdown
    | curDir => simp
    | parentDir => cases hdown
    | normal name => simp

/-- Reading the URL of a name gives what is in its file, if that is an image of bounded size. -/
theorem readInternalImageUrl_eq {fs : FileSystem} {bytes : List UInt8} (h : Valid r)
    (hname : PlainName name) (hdirs : fs.dirs env.imagesDir = true)
    (hfile : fs.files (env.path r name) = some bytes) (hformat : detectExtension bytes ≠ "bin")
    (hsize : bytes.length ≤ maxInternalImageBytes) :
    readInternalImageUrl env fs (r.url name) = .ok (bytes, detectMimeFromBytes bytes) := by
  obtain ⟨hnul, hguard⟩ := urlPath_guards h hname
  have hdir : fs.taken env.imagesDir = true := by
    unfold FileSystem.taken
    rw [hdirs]
    rfl
  have htaken : fs.taken (env.path r name) = true := by
    unfold FileSystem.taken
    rw [hfile, Option.isSome_some, Bool.or_true]
  have hbelow : env.imagesDir <+: env.path r name := by
    rw [path_eq hname, metricDir_eq h, append_assoc]
    exact prefix_append _ _
  unfold readInternalImageUrl
  rw [toList_url, if_pos (prefix_append _ _), drop_left]
  dsimp only
  rw [if_neg (by rw [hguard]; simp [hnul]), join_urlPath h hname,
    if_neg (by rw [hdir, htaken]; decide), if_neg (not_not.mpr hbelow), hfile]
  dsimp only
  rw [if_neg (by omega), if_neg hformat]

end HeraMind.Devices.ImageStorage
