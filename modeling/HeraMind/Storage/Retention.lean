/-
# Retention

`apply_retention` of `crates/heramind-storage/src/timeseries.rs` and the policy it reads.
For each source and metric of the table it resolves how many hours to keep, looking into
the latest value if an image may have hours of its own, and deletes what is older.

Calls come one after the other here, so `retention_in_progress` is false whenever one
begins.  How a value is read as a text, and how base64 is decoded, are parameters.
-/
import HeraMind.Lib.ByteText
import HeraMind.Storage.Latest
import HeraMind.Storage.Queries

namespace HeraMind.Storage

open List Option AList

variable {V : Type}

/-! ## Images -/

/-- What `value_looks_like_image` uses of other crates. -/
structure ImageProbe (V : Type) where
  /-- `Value::as_str`. -/
  asStr : V → Option (List Char)
  /-- `base64::engine::general_purpose::STANDARD`. -/
  decodeStandard : List Char → Option (List UInt8)
  /-- `base64::engine::general_purpose::URL_SAFE_NO_PAD`. -/
  decodeUrlSafeNoPad : List Char → Option (List UInt8)

/-- The magic bytes of JPEG, PNG, GIF, WebP and BMP. -/
def imageMagic : List (List UInt8) :=
  [[0xFF, 0xD8, 0xFF], [0x89, 0x50, 0x4E, 0x47], [0x47, 0x49, 0x46, 0x38],
    [0x52, 0x49, 0x46, 0x46], [0x42, 0x4D]]

/-- A text that is told to be an image by how it begins. -/
def isImageUrl (s : List Char) : Bool :=
  "data:image/".toList.isPrefixOf s || "/api/images/".toList.isPrefixOf s

/-- Does this value look like image data?  None if the slice of its first 32 bytes
panics. -/
def valueLooksLikeImage (probe : ImageProbe V) (value : V) : Option Bool :=
  match probe.asStr value with
  | none => some false
  | some s =>
    if isImageUrl s then some true
    else if ByteText.len s < 32 then some false
    else (ByteText.sliceTo s 32).map fun prefix_ =>
      let decoded :=
        ((probe.decodeStandard prefix_).or (probe.decodeUrlSafeNoPad prefix_)).getD []
      imageMagic.any fun magic => magic.isPrefixOf decoded

/-! ## The policy -/

/-- Data retention policy configuration.  No hours keep the data forever. -/
structure RetentionPolicy where
  /-- Default retention period in hours. -/
  defaultHours : Option UInt64
  /-- Per-metric retention overrides. -/
  metricOverrides : HashMap String (Option UInt64)
  /-- Per-device-type retention overrides. -/
  deviceTypeOverrides : HashMap String (Option UInt64)
  /-- Fallback retention for image metrics. -/
  imageRetentionHours : Option UInt64

/-- An `i64` that wraps around. -/
def wrapI64 (x : ℤ) : ℤ := x.bmod (2 ^ 64)

/-- `now - (hours as i64 * 3600)`. -/
def cutoffOf (now : ℤ) (hours : UInt64) : ℤ :=
  wrapI64 (now - wrapI64 (wrapI64 hours.toNat * 3600))

namespace RetentionPolicy

/-- Get retention hours for a specific metric. -/
def getRetentionHours (policy : RetentionPolicy) (deviceType metric : String) :
    Option UInt64 :=
  match policy.metricOverrides.lookup metric with
  | some retention => retention
  | none =>
    match policy.deviceTypeOverrides.lookup deviceType with
    | some retention => retention
    | none => policy.defaultHours

end RetentionPolicy

/-! ## The pass -/

structure RetentionPolicyCleanupResult where
  pointsRemoved : ℕ
  metricsCleaned : List String
  deriving DecidableEq

/-- The upper end of the scan for the sources and metrics of the table. -/
def pairBound : GroupKey := ("\u00ff", "\u00ff")

/-- A source and metric in the order of the table, not after `("\u{FF}", "\u{FF}")`. -/
def InScan (group : GroupKey) : Prop :=
  group.1 < pairBound.1 ∨ group.1 = pairBound.1 ∧ group.2 ≤ pairBound.2

instance decidableInScan (group : GroupKey) : Decidable (InScan group) :=
  inferInstanceAs (Decidable (_ ∨ _))

/-- All sources and metrics that the scan finds. -/
def metricPairs (table : HashMap Key (DataPoint V)) : List GroupKey :=
  (table.entries.filterMap fun e =>
    if InScan (e.1.1, e.1.2.1) then some (e.1.1, e.1.2.1) else none).dedup

namespace CachedStore

/-- Cheap existence probe: does the group have at least one point? -/
def hasAnyPoint (s : CachedStore V) (group : GroupKey) : Bool :=
  !(Storage.range s.table group i64Min i64Max).isEmpty

/-- Whether the latest point of a group makes it an image metric.  A text in the row reads back as
it is. -/
def useImage (probe : ImageProbe V) (s : CachedStore V) (group : GroupKey) : Option Bool :=
  match latestRow s.table group with
  | some latest => valueLooksLikeImage probe latest.value
  | none => some false

/-- Resolve effective retention hours. -/
def effectiveHours (probe : ImageProbe V) (policy : RetentionPolicy) (s : CachedStore V)
    (group : GroupKey) : Option (Option UInt64) :=
  let deviceType := "" -- could be enhanced to look up device type
  let explicitHours := policy.getRetentionHours deviceType group.2
  if explicitHours = policy.defaultHours then
    if policy.imageRetentionHours.isSome ∧ policy.imageRetentionHours ≠ explicitHours then
      (s.useImage probe group).map fun useImage =>
        if useImage then policy.imageRetentionHours else explicitHours
    else some explicitHours
  else some explicitHours

/-- Delete what the hours do not keep of a group, and its metric info if nothing is left. -/
def retain (now : ℤ) (s : CachedStore V) (group : GroupKey) (hours : Option UInt64) :
    ℕ × CachedStore V :=
  match hours with
  | none => (0, s)
  | some hours =>
    let cutoff := cutoffOf now hours
    if cutoff < now then
      let (removed, s') := s.deleteRange group i64Min cutoff
      if 0 < removed ∧ s'.hasAnyPoint group = false then
        (removed, { s' with metricsInfo := s'.metricsInfo.erase (metricKey group) })
      else (removed, s')
    else (0, s)

/-- The loop of `apply_retention`, with its result so far.  A panic ends it. -/
def retainAll (probe : ImageProbe V) (policy : RetentionPolicy) (now : ℤ) :
    List GroupKey → RetentionPolicyCleanupResult → CachedStore V →
      Option RetentionPolicyCleanupResult × CachedStore V
  | [], result, s => (some result, s)
  | group :: groups, result, s =>
    match s.effectiveHours probe policy group with
    | none => (none, s)
    | some hours =>
      let (removed, s') := s.retain now group hours
      let result' :=
        if 0 < removed then
          ⟨result.pointsRemoved + removed, result.metricsCleaned.insert (metricKey group)⟩
        else result
      retainAll probe policy now groups result' s'

/-- Apply retention policy and clean up old data.  The hash set of the sources and metrics
is visited in the given order. -/
def applyRetention (probe : ImageProbe V) (policy : RetentionPolicy) (now : ℤ)
    (order : List GroupKey) (s : CachedStore V) :
    Option RetentionPolicyCleanupResult × CachedStore V :=
  retainAll probe policy now order ⟨0, []⟩ s

end CachedStore

/-! ## What the policy says -/

section Policy

variable {probe : ImageProbe V} {policy : RetentionPolicy} {now t : ℤ} {s s' : CachedStore V}
  {group : GroupKey} {hours : Option UInt64} {order : List GroupKey}
  {result : RetentionPolicyCleanupResult}

/-- The latest value of a group is image-like. -/
def CachedStore.isImage (probe : ImageProbe V) (s : CachedStore V) (group : GroupKey) : Bool :=
  s.useImage probe group == some true

/-- The hours of a metric: its override, or else that of the device type, or else those for
images if it is one, or else the default. -/
def RetentionPolicy.hoursFor (policy : RetentionPolicy) (deviceType metric : String)
    (isImage : Bool) : Option UInt64 :=
  match policy.metricOverrides.lookup metric with
  | some hours => hours
  | none =>
    match policy.deviceTypeOverrides.lookup deviceType with
    | some hours => hours
    | none =>
      if isImage then policy.imageRetentionHours.or policy.defaultHours
      else policy.defaultHours

/-- A point of this time is older than the hours keep it. -/
def Expired (now : ℤ) (hours : Option UInt64) (t : ℤ) : Prop :=
  ∃ h ∈ hours, t ≤ now - h.toNat * 3600

instance decidableExpired (now : ℤ) (hours : Option UInt64) (t : ℤ) :
    Decidable (Expired now hours t) :=
  inferInstanceAs (Decidable (∃ h ∈ hours, _))

/-- The pass comes to its end, computes every cutoff without overflow, and removes from each
source and metric what has expired and nothing else. -/
structure KeepsPolicy (probe : ImageProbe V) (policy : RetentionPolicy)
    (deviceType : String → String) (now : ℤ) (order : List GroupKey) (s : CachedStore V) :
    Prop where
  completes : (s.applyRetention probe policy now order).1.isSome
  noOverflow : ∀ group ∈ metricPairs s.table, ∀ h,
    s.effectiveHours probe policy group = some (some h) → cutoffOf now h = now - h.toNat * 3600
  removes : ∀ source metric t,
    (s.applyRetention probe policy now order).2.table.lookup (source, metric, t) =
      if Expired now
          (policy.hoursFor (deviceType source) metric (s.isImage probe (source, metric))) t then
        none
      else s.table.lookup (source, metric, t)

/-! ## What the pass reads -/

/-- The pass looks into the latest value: nothing but the default seems to apply, and the
hours for images would be others. -/
def RetentionPolicy.Sniffs (policy : RetentionPolicy) (metric : String) : Prop :=
  policy.getRetentionHours "" metric = policy.defaultHours ∧
    policy.imageRetentionHours.isSome ∧ policy.imageRetentionHours ≠ policy.defaultHours

/-- The hours that the pass takes for a metric: those for images in place of the default,
even if the default is an override. -/
def RetentionPolicy.hoursTaken (policy : RetentionPolicy) (metric : String) (isImage : Bool) :
    Option UInt64 :=
  if policy.getRetentionHours "" metric = policy.defaultHours ∧
      policy.imageRetentionHours.isSome ∧ isImage then
    policy.imageRetentionHours
  else policy.getRetentionHours "" metric

/-- An override that equals the default on an image, or a device type with an override:
the pass does not see either. -/
def RetentionPolicy.Misread (policy : RetentionPolicy) (deviceType metric : String)
    (isImage : Bool) : Prop :=
  match policy.metricOverrides.lookup metric with
  | some hours => hours = policy.defaultHours ∧ policy.imageRetentionHours.isSome ∧ isImage
  | none =>
    policy.deviceTypeOverrides.lookup deviceType ≠ policy.deviceTypeOverrides.lookup "" ∨
      policy.deviceTypeOverrides.lookup "" = some policy.defaultHours ∧
        policy.imageRetentionHours.isSome ∧ isImage

/-- The first 32 bytes of a text can be sliced off where the probe does so. -/
def Sliceable (text : List Char) : Prop :=
  isImageUrl text = false → 32 ≤ ByteText.len text → ∃ a b, text = a ++ b ∧ ByteText.len a = 32

/-- What keeps a pass to its policy. -/
structure Readable (probe : ImageProbe V) (policy : RetentionPolicy)
    (deviceType : String → String) (now : ℤ) (s : CachedStore V) : Prop where
  sliceable : ∀ group ∈ metricPairs s.table, policy.Sniffs group.2 →
    ∀ latest, latestRow s.table group = some latest →
      ∀ text, probe.asStr latest.value = some text → Sliceable text
  inI64 : ∀ group ∈ metricPairs s.table,
    ∀ h ∈ policy.hoursTaken group.2 (s.isImage probe group), i64Min ≤ now - h.toNat * 3600
  scanned : ∀ source metric t point, s.table.lookup (source, metric, t) = some point →
    ¬ InScan (source, metric) →
      ¬ Expired now
        (policy.hoursFor (deviceType source) metric (s.isImage probe (source, metric))) t
  notZero : ∀ source metric t point, s.table.lookup (source, metric, t) = some point →
    InScan (source, metric) →
    policy.hoursTaken metric (s.isImage probe (source, metric)) = some 0 →
      ¬ Expired now
        (policy.hoursFor (deviceType source) metric (s.isImage probe (source, metric))) t
  asMeant : ∀ source metric t point, s.table.lookup (source, metric, t) = some point →
    InScan (source, metric) →
    policy.hoursTaken metric (s.isImage probe (source, metric)) ≠ some 0 →
    policy.Misread (deviceType source) metric (s.isImage probe (source, metric)) →
      (Expired now (policy.hoursTaken metric (s.isImage probe (source, metric))) t ↔
        Expired now
          (policy.hoursFor (deviceType source) metric (s.isImage probe (source, metric))) t)

theorem hoursTaken_eq_of_not_misread {deviceType metric : String} {isImage : Bool}
    (h : ¬ policy.Misread deviceType metric isImage) :
    policy.hoursTaken metric isImage = policy.hoursFor deviceType metric isImage := by
  unfold RetentionPolicy.Misread at h
  unfold RetentionPolicy.hoursTaken RetentionPolicy.hoursFor RetentionPolicy.getRetentionHours
  cases hmetric : policy.metricOverrides.lookup metric with
  | some hours =>
    rw [hmetric] at h
    exact if_neg h
  | none =>
    rw [hmetric] at h
    dsimp only at h ⊢
    rw [not_or, not_not] at h
    obtain ⟨hsame, hdefault⟩ := h
    rw [hsame]
    cases hdevice : policy.deviceTypeOverrides.lookup "" with
    | some hours =>
      rw [hdevice, some.injEq] at hdefault
      exact if_neg hdefault
    | none =>
      cases isImage with
      | false => simp
      | true => cases policy.imageRetentionHours <;> simp

/-- Slicing off the first 32 bytes panics inside of a character only. -/
theorem valueLooksLikeImage_eq_none {value : V} :
    valueLooksLikeImage probe value = none ↔
      ∃ text, probe.asStr value = some text ∧ ¬ Sliceable text := by
  unfold valueLooksLikeImage
  cases htext : probe.asStr value with
  | none => simp
  | some text =>
    simp only [some.injEq, exists_eq_left']
    unfold Sliceable
    by_cases hurl : isImageUrl text = true
    · simp [hurl]
    · by_cases hlen : ByteText.len text < 32
      · simp [hurl, hlen]
      · have hle : 32 ≤ ByteText.len text := by omega
        simp [hurl, hlen, hle, ByteText.sliceTo_eq_none]

theorem effectiveHours_eq_none :
    s.effectiveHours probe policy group = none ↔
      policy.Sniffs group.2 ∧ s.useImage probe group = none := by
  unfold CachedStore.effectiveHours RetentionPolicy.Sniffs
  dsimp only
  by_cases hdefault : policy.getRetentionHours "" group.2 = policy.defaultHours
  · rw [if_pos hdefault, hdefault]
    by_cases himage : policy.imageRetentionHours.isSome ∧
        policy.imageRetentionHours ≠ policy.defaultHours
    · rw [if_pos himage]
      simp [himage]
    · rw [if_neg himage]
      simp [himage]
  · rw [if_neg hdefault]
    simp [hdefault]

/-- If the pass does not panic at a group, it takes its hours. -/
theorem effectiveHours_eq_hoursTaken (h : s.effectiveHours probe policy group ≠ none) :
    s.effectiveHours probe policy group =
      some (policy.hoursTaken group.2 (s.isImage probe group)) := by
  rw [ne_eq, effectiveHours_eq_none, not_and] at h
  unfold RetentionPolicy.Sniffs at h
  unfold CachedStore.effectiveHours RetentionPolicy.hoursTaken
  dsimp only
  by_cases hdefault : policy.getRetentionHours "" group.2 = policy.defaultHours
  · rw [if_pos hdefault, hdefault]
    by_cases himage : policy.imageRetentionHours.isSome
    · by_cases hne : policy.imageRetentionHours = policy.defaultHours
      · simp [hne]
      · obtain ⟨isImage, hisImage⟩ := ne_none_iff_exists'.mp (h ⟨hdefault, himage, hne⟩)
        rw [if_pos ⟨himage, hne⟩, hisImage, map_some]
        simp [himage, CachedStore.isImage, hisImage]
    · simp [himage]
  · rw [if_neg hdefault]
    simp [hdefault]

/-! ## What the pass removes -/

/-- The pass removes points of this time. -/
def Removes (now : ℤ) (hours : Option UInt64) (t : ℤ) : Prop :=
  ∃ h ∈ hours, cutoffOf now h < now ∧ t ≤ cutoffOf now h

instance decidableRemoves (now : ℤ) (hours : Option UInt64) (t : ℤ) :
    Decidable (Removes now hours t) :=
  inferInstanceAs (Decidable (∃ h ∈ hours, _))

/-- Every row has an `i64` as its timestamp. -/
def I64Rows (table : HashMap Key (DataPoint V)) : Prop :=
  ∀ key ∈ table, i64Min ≤ key.2.2 ∧ key.2.2 ≤ i64Max

theorem table_retain (s : CachedStore V) (group : GroupKey) (hours : Option UInt64) :
    (s.retain now group hours).2.table =
      match hours with
      | none => s.table
      | some h =>
        if cutoffOf now h < now then (deleteRows s.table group i64Min (cutoffOf now h)).2
        else s.table := by
  unfold CachedStore.retain
  cases hours with
  | none => rfl
  | some h =>
    dsimp only
    split
    · split
      · rfl
      · rfl
    · rfl

/-- A group loses the points that are removed, and no other group loses any. -/
theorem lookup_retain (s : CachedStore V) (group : GroupKey) (hours : Option UInt64) (key : Key)
    (hi64 : i64Min ≤ key.2.2) :
    (s.retain now group hours).2.table.lookup key =
      if (key.1, key.2.1) = group ∧ Removes now hours key.2.2 then none
      else s.table.lookup key := by
  rw [table_retain]
  unfold Removes
  cases hours with
  | none => simp
  | some h =>
    dsimp only
    by_cases hcut : cutoffOf now h < now
    · rw [if_pos hcut, lookup_deleteRows]
      simp [hcut, hi64]
    · rw [if_neg hcut]
      simp [hcut]

theorem lookup_none_of_lt (hrows : I64Rows s.table) {key : Key} (hlt : key.2.2 < i64Min) :
    s.table.lookup key = none := by
  rw [AList.lookup_eq_none]
  intro hmem
  have hle := (hrows key hmem).1
  omega

theorem I64Rows.retain (hrows : I64Rows s.table) (group : GroupKey) (hours : Option UInt64) :
    I64Rows (s.retain now group hours).2.table := by
  have hdelete : ∀ stop, I64Rows (deleteRows s.table group i64Min stop).2 := by
    intro stop key hmem
    apply hrows key
    rw [← lookup_isSome, lookup_deleteRows] at hmem
    split at hmem
    · cases hmem
    · exact lookup_isSome.mp hmem
  rw [table_retain]
  split
  · exact hrows
  · split
    · exact hdelete _
    · exact hrows

theorem I64Rows.retainAll (hrows : I64Rows s.table) :
    I64Rows (CachedStore.retainAll probe policy now order result s).2.table := by
  induction order generalizing result s with
  | nil => exact hrows
  | cons group order ih =>
    rw [CachedStore.retainAll]
    split
    · exact hrows
    · exact ih (hrows.retain group _)

/-- The latest point depends on the rows of the group only. -/
theorem latestRow_congr {table table' : HashMap Key (DataPoint V)}
    (h : ∀ t, table.lookup (group.1, group.2, t) = table'.lookup (group.1, group.2, t)) :
    latestRow table group = latestRow table' group := by
  have hsame : Points.ofGroup table.lookup group = Points.ofGroup table'.lookup group :=
    funext h
  have hlast := isLast_latestRow table group
  rw [hsame] at hlast
  exact hlast.unique (isLast_latestRow table' group)

theorem useImage_congr (h : latestRow s.table group = latestRow s'.table group) :
    s.useImage probe group = s'.useImage probe group := by
  unfold CachedStore.useImage
  rw [h]

theorem effectiveHours_congr (h : latestRow s.table group = latestRow s'.table group) :
    s.effectiveHours probe policy group = s'.effectiveHours probe policy group := by
  unfold CachedStore.effectiveHours
  rw [useImage_congr h]

/-- What one group loses changes nothing about the latest point of another one. -/
theorem latestRow_retain (hrows : I64Rows s.table) {group' : GroupKey} (hne : group' ≠ group) :
    latestRow (s.retain now group hours).2.table group' = latestRow s.table group' := by
  apply latestRow_congr
  intro t
  by_cases hlt : t < i64Min
  · rw [lookup_none_of_lt hrows hlt, lookup_none_of_lt (hrows.retain group hours) hlt]
  · rw [lookup_retain s group hours _ (by simpa using hlt), if_neg]
    rintro ⟨heq, -⟩
    exact hne heq

/-- The pass comes to its end if no group makes it panic. -/
theorem isSome_retainAll (hrows : I64Rows s.table) (hnodup : order.Nodup) :
    (CachedStore.retainAll probe policy now order result s).1.isSome ↔
      ∀ group ∈ order, s.effectiveHours probe policy group ≠ none := by
  induction order generalizing result s with
  | nil => simp [CachedStore.retainAll]
  | cons group order ih =>
    obtain ⟨hnot, hnodup⟩ := nodup_cons.mp hnodup
    rw [CachedStore.retainAll, forall_mem_cons]
    cases hhours : s.effectiveHours probe policy group with
    | none => simp
    | some hours =>
      dsimp only
      rw [ih (hrows.retain group hours) hnodup]
      have hrest : ∀ group' ∈ order, (s.retain now group hours).2.effectiveHours probe policy
          group' = s.effectiveHours probe policy group' := by
        intro group' hmem
        apply effectiveHours_congr
        apply latestRow_retain hrows
        rintro rfl
        exact hnot hmem
      constructor
      · intro h
        refine ⟨by simp, fun group' hmem => ?_⟩
        rw [← hrest group' hmem]
        exact h group' hmem
      · rintro ⟨-, h⟩ group' hmem
        rw [hrest group' hmem]
        exact h group' hmem

/-- A pass that comes to its end removes from each group what its hours say. -/
theorem lookup_retainAll (hrows : I64Rows s.table) (hnodup : order.Nodup)
    (hend : (CachedStore.retainAll probe policy now order result s).1.isSome) (key : Key)
    (hi64 : i64Min ≤ key.2.2) :
    (CachedStore.retainAll probe policy now order result s).2.table.lookup key =
      if (key.1, key.2.1) ∈ order ∧ Removes now
          (policy.hoursTaken key.2.1 (s.isImage probe (key.1, key.2.1))) key.2.2 then none
      else s.table.lookup key := by
  have hhours := (isSome_retainAll hrows hnodup).mp hend
  induction order generalizing result s with
  | nil => simp [CachedStore.retainAll]
  | cons group order ih =>
    obtain ⟨hnot, hnodup⟩ := nodup_cons.mp hnodup
    have hgroup := effectiveHours_eq_hoursTaken (hhours group mem_cons_self)
    rw [CachedStore.retainAll, hgroup] at hend ⊢
    dsimp only at hend ⊢
    have hrows' : I64Rows (s.retain now group
        (policy.hoursTaken group.2 (s.isImage probe group))).2.table := hrows.retain group _
    rw [ih hrows' hnodup hend ((isSome_retainAll hrows' hnodup).mp hend),
      lookup_retain s group _ key hi64]
    by_cases hkey : (key.1, key.2.1) = group
    · rw [hkey, if_neg (fun h => hnot h.1)]
      subst hkey
      simp
    · have himage : (s.retain now group (policy.hoursTaken group.2
          (s.isImage probe group))).2.isImage probe (key.1, key.2.1) =
            s.isImage probe (key.1, key.2.1) := by
        unfold CachedStore.isImage
        rw [useImage_congr (latestRow_retain hrows hkey)]
      rw [himage, if_neg (fun h : _ ∧ _ => hkey h.1)]
      simp [hkey]

theorem mem_metricPairs {table : HashMap Key (DataPoint V)} :
    group ∈ metricPairs table ↔
      InScan group ∧ ∃ t point, table.lookup (group.1, group.2, t) = some point := by
  unfold metricPairs
  rw [mem_dedup, mem_filterMap]
  constructor
  · rintro ⟨⟨⟨source, metric, t⟩, point⟩, he, h⟩
    split at h
    · rename_i hin
      cases h
      exact ⟨hin, t, point, mem_lookup_iff.mpr he⟩
    · cases h
  · rintro ⟨hin, t, point, hlookup⟩
    refine ⟨⟨(group.1, group.2, t), point⟩, mem_lookup_iff.mp hlookup, ?_⟩
    rw [if_pos hin]

/-- The cutoff is computed without overflow if it is an `i64`. -/
theorem cutoffOf_eq_iff (hnow : now ≤ i64Max) (h : UInt64) :
    cutoffOf now h = now - h.toNat * 3600 ↔ i64Min ≤ now - h.toNat * 3600 := by
  have hwrap : cutoffOf now h = (now - h.toNat * 3600).bmod (2 ^ 64) := by
    unfold cutoffOf wrapI64
    rw [Int.sub_bmod_bmod, Int.sub_bmod, Int.bmod_mul_bmod, ← Int.sub_bmod]
  rw [hwrap]
  unfold i64Min
  unfold i64Max at hnow
  constructor
  · intro heq
    rw [← heq]
    have hle := Int.le_bmod (x := now - h.toNat * 3600) (m := 2 ^ 64) (by decide)
    omega
  · intro hle
    apply Int.bmod_eq_of_le_mul_two
    · omega
    · omega

/-- Without overflow, the pass removes what has expired, unless the hours are zero. -/
theorem removes_iff (hfits : ∀ h ∈ hours, cutoffOf now h = now - h.toNat * 3600) :
    Removes now hours t ↔ hours ≠ some 0 ∧ Expired now hours t := by
  unfold Removes Expired
  cases hours with
  | none => simp
  | some h =>
    have hcut := hfits h rfl
    simp only [mem_def, some.injEq, exists_eq_left', hcut, ne_eq]
    refine and_congr_left fun _ => ?_
    rw [← UInt64.toNat_inj]
    simp
    omega

theorem useImage_eq_none :
    s.useImage probe group = none ↔
      ∃ latest, latestRow s.table group = some latest ∧
        ∃ text, probe.asStr latest.value = some text ∧ ¬ Sliceable text := by
  unfold CachedStore.useImage
  cases hlatest : latestRow s.table group with
  | none => simp
  | some latest => simp [valueLooksLikeImage_eq_none]

/-- The pass panics at no group exactly when it can slice every value it looks into. -/
theorem completes_iff (hrows : I64Rows s.table) (horder : order.Perm (metricPairs s.table)) :
    (s.applyRetention probe policy now order).1.isSome ↔
      ∀ group ∈ metricPairs s.table, policy.Sniffs group.2 →
        ∀ latest, latestRow s.table group = some latest →
          ∀ text, probe.asStr latest.value = some text → Sliceable text := by
  have hnodup : order.Nodup := horder.nodup_iff.mpr (nodup_dedup _)
  unfold CachedStore.applyRetention
  rw [isSome_retainAll hrows hnodup]
  apply forall_congr'
  intro group
  rw [horder.mem_iff, ne_eq, effectiveHours_eq_none, useImage_eq_none, not_and]
  apply imp_congr_right
  intro _
  apply imp_congr_right
  intro _
  constructor
  · intro h latest hlatest text htext
    by_contra hnot
    exact h ⟨latest, hlatest, text, htext, hnot⟩
  · rintro h ⟨latest, hlatest, text, htext, hnot⟩
    exact hnot (h latest hlatest text htext)

theorem noOverflow_iff (hnow : now ≤ i64Max)
    (hhours : ∀ group ∈ metricPairs s.table, s.effectiveHours probe policy group ≠ none) :
    (∀ group ∈ metricPairs s.table, ∀ h, s.effectiveHours probe policy group = some (some h) →
        cutoffOf now h = now - h.toNat * 3600) ↔
      ∀ group ∈ metricPairs s.table,
        ∀ h ∈ policy.hoursTaken group.2 (s.isImage probe group), i64Min ≤ now - h.toNat * 3600 := by
  apply forall_congr'
  intro group
  apply imp_congr_right
  intro hmem
  apply forall_congr'
  intro h
  rw [effectiveHours_eq_hoursTaken (hhours group hmem), some.injEq, cutoffOf_eq_iff hnow, mem_def]

/-- What is left after a pass that panics nowhere and computes its cutoffs right. -/
theorem lookup_applyRetention (hrows : I64Rows s.table)
    (horder : order.Perm (metricPairs s.table))
    (hend : (s.applyRetention probe policy now order).1.isSome)
    (hfits : ∀ group ∈ metricPairs s.table,
      ∀ h ∈ policy.hoursTaken group.2 (s.isImage probe group),
        cutoffOf now h = now - h.toNat * 3600)
    {source metric : String} {point : DataPoint V}
    (hrow : s.table.lookup (source, metric, t) = some point) :
    (s.applyRetention probe policy now order).2.table.lookup (source, metric, t) =
      if InScan (source, metric) ∧
          policy.hoursTaken metric (s.isImage probe (source, metric)) ≠ some 0 ∧
            Expired now (policy.hoursTaken metric (s.isImage probe (source, metric))) t then none
      else some point := by
  have hnodup : order.Nodup := horder.nodup_iff.mpr (nodup_dedup _)
  have hkey : (source, metric, t) ∈ s.table := lookup_isSome.mp (by rw [hrow]; rfl)
  have hmem : (source, metric) ∈ order ↔ InScan (source, metric) := by
    rw [horder.mem_iff, mem_metricPairs]
    exact and_iff_left ⟨t, point, hrow⟩
  unfold CachedStore.applyRetention at hend ⊢
  rw [lookup_retainAll hrows hnodup hend _ (hrows _ hkey).1, hrow]
  by_cases hscan : InScan (source, metric)
  · have hin : (source, metric) ∈ order := hmem.mpr hscan
    have hremoves := removes_iff (t := t) (hfits _ (horder.mem_iff.mp hin))
    simp [hin, hscan, hremoves]
  · have hout : (source, metric) ∉ order := fun hin => hscan (hmem.mp hin)
    simp [hout, hscan]

theorem lookup_applyRetention_of_none (hrows : I64Rows s.table)
    (horder : order.Perm (metricPairs s.table))
    (hend : (s.applyRetention probe policy now order).1.isSome) {key : Key}
    (hrow : s.table.lookup key = none) :
    (s.applyRetention probe policy now order).2.table.lookup key = none := by
  have hnodup : order.Nodup := horder.nodup_iff.mpr (nodup_dedup _)
  unfold CachedStore.applyRetention at hend ⊢
  by_cases hlt : key.2.2 < i64Min
  · exact lookup_none_of_lt hrows.retainAll hlt
  · rw [lookup_retainAll hrows hnodup hend _ (by omega), hrow]
    split
    · rfl
    · rfl

end Policy

/-! ### A text that is not base64 -/

namespace Retention

/-- Values that are texts, none of which decodes. -/
def texts : ImageProbe (List Char) := ⟨some, fun _ => none, fun _ => none⟩

/-- A month by default, three days for images, and a day for the temperature. -/
def policy : RetentionPolicy where
  defaultHours := some 720
  metricOverrides := (∅ : HashMap String (Option UInt64)).insert "temp" (some 24)
  deviceTypeOverrides := ∅
  imageRetentionHours := some 72

/-- A store with one row, of second 1000. -/
def oneRow (metric : String) (value : List Char) : CachedStore (List Char) :=
  .opened ((∅ : HashMap Key (DataPoint (List Char))).insert ("device:d1", metric, 1000)
    ⟨1000, value, none, none⟩) 200 60000000000 0

theorem key_of_oneRow {metric : String} {value : List Char} {key : Key}
    (h : key ∈ (oneRow metric value).table) : key = ("device:d1", metric, 1000) := by
  have hmem : key ∈ (∅ : HashMap Key (DataPoint (List Char))).insert
      ("device:d1", metric, 1000) ⟨1000, value, none, none⟩ := h
  rw [mem_insert] at hmem
  rcases hmem with rfl | hmem
  · rfl
  · cases hmem

end Retention

end HeraMind.Storage
