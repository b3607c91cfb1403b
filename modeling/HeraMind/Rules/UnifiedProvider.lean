/-
# The cached values of the data sources

`crates/heramind-rules/src/unified_provider.rs`: the last known value of every data source, under
the type, the id and the metric of the source.  The cache has room for 4096 entries; an update that
needs one more drops an entry with the smallest timestamp, the first one that the iteration of the
hash map comes to, so which of them it is belongs to the update.
-/
import HeraMind.Rules.Models

namespace HeraMind.Rules

/-- Cache entry for metric values; the timestamp is in milliseconds. -/
structure CacheEntry (F : Type) where
  value : RuleValue F
  timestamp : ℤ
  ttlMs : UInt64

/-- An entry is expired; a time to live of 0 never ends. -/
def CacheEntry.isExpired {F : Type} (e : CacheEntry F) (now : ℤ) : Bool :=
  if e.ttlMs = 0 then false else decide (e.ttlMs.toInt64.toInt < now - e.timestamp)

/-- Type, id and metric of a source. -/
abbrev CacheKey := String × String × String

/-- The name of a source type in a cache key. -/
def DataSourceType.cacheName : DataSourceType → String
  | .device => "device"
  | .extension => "extension"
  | .transform => "transform"

def DataSourceId.cacheKey (s : DataSourceId) : CacheKey :=
  (s.sourceType.cacheName, s.sourceId, s.fieldPath)

/-- `MAX_CACHE_ENTRIES`. -/
def maxCacheEntries : ℕ := 4096

/-- Unified value provider for the rule engine. -/
structure UnifiedValueProvider (F : Type) where
  cache : HashMap CacheKey (CacheEntry F)
  defaultTtlMs : UInt64

namespace UnifiedValueProvider

variable {F : Type}

/-- `UnifiedValueProvider::new`. -/
def new : UnifiedValueProvider F := ⟨∅, 0⟩

/-- No entry is older than the one under the key. -/
def isOldest (cache : HashMap CacheKey (CacheEntry F)) (key : CacheKey) : Bool :=
  match cache.lookup key with
  | some e => cache.entries.all fun e' => decide (e.timestamp ≤ e'.2.timestamp)
  | none => false

/-- There is no room for another entry under the key. -/
def Evicts (p : UnifiedValueProvider F) (key : CacheKey) (entry : CacheEntry F) : Prop :=
  maxCacheEntries < (p.cache.insert key entry).keys.length

instance (p : UnifiedValueProvider F) (key : CacheKey) (entry : CacheEntry F) :
    Decidable (p.Evicts key entry) :=
  inferInstanceAs (Decidable (_ < _))

/-- `update_rule_value_with_ttl`, with the key that is evicted if there is no room; `none` if that
is not an oldest one. -/
def updateRuleValueWithTtl (p : UnifiedValueProvider F) (key : CacheKey) (value : RuleValue F)
    (ttlMs : UInt64) (now : ℤ) (oldestKey : CacheKey) : Option (UnifiedValueProvider F) :=
  let entry : CacheEntry F := ⟨value, now, ttlMs⟩
  if p.Evicts key entry then
    if isOldest (p.cache.insert key entry) oldestKey then
      some { p with cache := (p.cache.insert key entry).erase oldestKey }
    else none
  else some { p with cache := p.cache.insert key entry }

/-- `update_rule_value`. -/
def updateRuleValue (p : UnifiedValueProvider F) (key : CacheKey) (value : RuleValue F) (now : ℤ)
    (oldestKey : CacheKey) : Option (UnifiedValueProvider F) :=
  p.updateRuleValueWithTtl key value p.defaultTtlMs now oldestKey

/-- `update_device_value`. -/
def updateDeviceValue (p : UnifiedValueProvider F) (deviceId metric : String) (value : F) (now : ℤ)
    (oldestKey : CacheKey) : Option (UnifiedValueProvider F) :=
  p.updateRuleValue ("device", deviceId, metric) (.number value) now oldestKey

/-- `get_by_source`, at a time. -/
def getBySource (p : UnifiedValueProvider F) (now : ℤ) : ValueProvider F := fun source =>
  match p.cache.lookup source.cacheKey with
  | some entry => if entry.isExpired now then none else some entry.value
  | none => none

/-! ## What an update leaves -/

/-- The provider has a value under a key for ever, as far as nobody replaces it. -/
def Keeps (p : UnifiedValueProvider F) (key : CacheKey) (value : RuleValue F) : Prop :=
  ∃ entry, p.cache.lookup key = some entry ∧ entry.value = value ∧ entry.ttlMs = 0

theorem Keeps.getBySource {p : UnifiedValueProvider F} {source : DataSourceId}
    {value : RuleValue F} (h : p.Keeps source.cacheKey value) (now : ℤ) :
    p.getBySource now source = some value := by
  obtain ⟨entry, hlookup, hvalue, httl⟩ := h
  unfold UnifiedValueProvider.getBySource
  rw [hlookup]
  have hexpired : ¬ entry.isExpired now = true := by
    unfold CacheEntry.isExpired
    rw [if_pos httl]
    decide
  rw [← hvalue]
  exact if_neg hexpired

variable {p p' : UnifiedValueProvider F} {key k : CacheKey} {value v : RuleValue F}
  {ttlMs : UInt64} {now : ℤ} {oldestKey : CacheKey}

/-- What an update does: the entry is inserted, and if there is no room another one is dropped. -/
theorem updateRuleValueWithTtl_eq_some
    (h : p.updateRuleValueWithTtl key value ttlMs now oldestKey = some p') :
    p'.defaultTtlMs = p.defaultTtlMs ∧
      ((p.Evicts key ⟨value, now, ttlMs⟩ ∧
          p'.cache = (p.cache.insert key ⟨value, now, ttlMs⟩).erase oldestKey) ∨
        (¬ p.Evicts key ⟨value, now, ttlMs⟩ ∧
          p'.cache = p.cache.insert key ⟨value, now, ttlMs⟩)) := by
  unfold updateRuleValueWithTtl at h
  dsimp only at h
  by_cases hevicts : p.Evicts key ⟨value, now, ttlMs⟩
  · rw [if_pos hevicts] at h
    split at h
    · cases h
      exact ⟨rfl, Or.inl ⟨hevicts, rfl⟩⟩
    · cases h
  · rw [if_neg hevicts] at h
    cases h
    exact ⟨rfl, Or.inr ⟨hevicts, rfl⟩⟩

theorem lookup_of_update (h : p.updateRuleValueWithTtl key value ttlMs now oldestKey = some p')
    (hspared : p.Evicts key ⟨value, now, ttlMs⟩ → oldestKey ≠ k) :
    p'.cache.lookup k = (p.cache.insert key ⟨value, now, ttlMs⟩).lookup k := by
  obtain ⟨-, ⟨hevicts, hcache⟩ | ⟨-, hcache⟩⟩ := updateRuleValueWithTtl_eq_some h
  · rw [hcache, AList.lookup_erase_ne (hspared hevicts).symm]
  · rw [hcache]

/-- A value is kept by the updates of other keys that do not evict it. -/
theorem Keeps.update (hkeeps : p.Keeps k v)
    (h : p.updateRuleValueWithTtl key value ttlMs now oldestKey = some p') (hne : k ≠ key)
    (hspared : p.Evicts key ⟨value, now, ttlMs⟩ → oldestKey ≠ k) : p'.Keeps k v := by
  obtain ⟨entry, hlookup, hentry⟩ := hkeeps
  refine ⟨entry, ?_, hentry⟩
  rw [lookup_of_update h hspared, AList.lookup_insert_ne hne, hlookup]

/-- A value that is written without a time to live is kept, if it is not evicted at once. -/
theorem keeps_update (h : p.updateRuleValueWithTtl key value 0 now oldestKey = some p')
    (hspared : p.Evicts key ⟨value, now, 0⟩ → oldestKey ≠ key) : p'.Keeps key value := by
  refine ⟨⟨value, now, 0⟩, ?_, rfl, rfl⟩
  rw [lookup_of_update h hspared, AList.lookup_insert]

end UnifiedValueProvider

end HeraMind.Rules
