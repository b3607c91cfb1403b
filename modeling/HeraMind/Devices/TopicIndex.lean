/-
# The index of the telemetry topics

The lookup of a device by its telemetry topic, with the index of `DeviceRegistry` that only lookups
fill (`crates/heramind-devices/src/registry.rs`).  An entry may be stale, so it is checked.
-/
import HeraMind.Devices.RegistryCalls

namespace HeraMind.Devices

variable {F : Type}

/-- The registry with its calls and `topic_index`; `topics` has the topic that each call of
`unregister_device` has read. -/
structure TopicServer (F : Type) where
  server : RegistryServer F
  topicIndex : HashMap String String
  topics : ℕ → Option String

/-- A section of a call, or a whole lookup. -/
inductive TopicLabel (F : Type) where
  | registry (label : RegistryLabel F)
  | find (topic : String)

def TopicLabel.registry? : TopicLabel F → Option (RegistryLabel F)
  | .registry label => some label
  | .find _ => none

def DeviceConfig.isOn (topic : String) (config : DeviceConfig F) : Bool :=
  config.connectionConfig.telemetryTopic = some topic

namespace TopicServer

def devices (s : TopicServer F) : List (DeviceConfig F) := s.server.registry.devices.values

/-- The device of the index, if it still has the topic. -/
def findIndexed (s : TopicServer F) (topic : String) : Option (DeviceConfig F) :=
  (s.topicIndex.lookup topic).bind fun deviceId =>
    (s.server.registry.getDevice deviceId).filter (DeviceConfig.isOn topic)

/-- `find_device_by_telemetry_topic`, with the index that it leaves. -/
def findDeviceByTelemetryTopic (s : TopicServer F) (topic : String) :
    Option (String × DeviceConfig F) × HashMap String String :=
  match s.findIndexed topic with
  | some config => (some (config.deviceId, config), s.topicIndex)
  | none =>
    -- a stale entry is removed, and the scan repairs the index
    match s.devices.find? (DeviceConfig.isOn topic) with
    | some config =>
      (some (config.deviceId, config), (s.topicIndex.erase topic).insert topic config.deviceId)
    | none => (none, s.topicIndex.erase topic)

/-- What a section of `unregister_device` does besides. -/
def unregister (s : TopicServer F) : RegistryLabel F → TopicServer F
  | .call _ => s
  | .advance n =>
    match s.server.calls[n]? with
    | some (.start (.unregisterDevice deviceId)) =>
      { s with
        topics := Function.update s.topics n
          ((s.server.registry.getDevice deviceId).bind (·.connectionConfig.telemetryTopic)) }
    | some (.removeDevice _ _) =>
      { s with topicIndex := (s.topics n).elim s.topicIndex s.topicIndex.erase }
    | _ => s

variable (sj : SerdeJson F) (isAlphanumeric : Char → Bool)

/-- One step; what cannot happen changes nothing. -/
def step (s : TopicServer F) : TopicLabel F → TopicServer F
  | .registry label =>
    { s.unregister label with server := (s.server.step sj isAlphanumeric label).getD s.server }
  | .find topic => { s with topicIndex := (s.findDeviceByTelemetryTopic topic).2 }

def run (s : TopicServer F) (labels : List (TopicLabel F)) : TopicServer F :=
  labels.foldl (step sj isAlphanumeric) s

/-! ## The answer -/

/-- A right answer: a device as it is now, on the topic, or none where there is none. -/
def Answers (s : TopicServer F) (topic : String) (found : Option (String × DeviceConfig F)) : Prop :=
  (∃ config ∈ s.devices, config.isOn topic = true ∧ found = some (config.deviceId, config)) ∨
    (∀ config ∈ s.devices, config.isOn topic = false) ∧ found = none

/-- The answer is right, whatever the index says. -/
theorem answers_find (s : TopicServer F) (topic : String) :
    s.Answers topic (s.findDeviceByTelemetryTopic topic).1 := by
  unfold findDeviceByTelemetryTopic
  split
  · rename_i config hindexed
    obtain ⟨deviceId, -, hfilter⟩ := Option.bind_eq_some_iff.mp hindexed
    obtain ⟨hdevice, hon⟩ := Option.filter_eq_some_iff.mp hfilter
    refine Or.inl ⟨config, KeyedMap.mem_values.mpr ?_, hon, rfl⟩
    rw [KeyedMap.key_of_lookup hdevice]
    exact hdevice
  · split
    · rename_i config hscan
      exact Or.inl ⟨config, List.mem_of_find?_eq_some hscan, List.find?_some hscan, rfl⟩
    · rename_i hscan
      exact Or.inr ⟨fun config hmem =>
        Bool.eq_false_iff.mpr (List.find?_eq_none.mp hscan config hmem), rfl⟩

/-- Lookups leave no trace in the registry. -/
theorem server_run (s : TopicServer F) (labels : List (TopicLabel F)) :
    (s.run sj isAlphanumeric labels).server = (labels.filterMap TopicLabel.registry?).foldl
      (fun server label => (server.step sj isAlphanumeric label).getD server) s.server := by
  induction labels generalizing s with
  | nil => rfl
  | cons label labels ih =>
    show ((s.step sj isAlphanumeric label).run sj isAlphanumeric labels).server = _
    rw [ih]
    cases label with
    | registry label | find topic => rfl

/-- If no two devices share the topic there is one right answer. -/
theorem Answers.unique {s : TopicServer F} {topic : String}
    {found found' : Option (String × DeviceConfig F)} (h : s.Answers topic found)
    (h' : s.Answers topic found') (hunique : ∀ config ∈ s.devices, ∀ config' ∈ s.devices,
      config.isOn topic = true → config'.isOn topic = true → config.deviceId = config'.deviceId) :
    found' = found := by
  rcases h with ⟨config, hmem, hon, rfl⟩ | ⟨hoff, rfl⟩
  · rcases h' with ⟨config', hmem', hon', rfl⟩ | ⟨hoff', -⟩
    · have hid := hunique config' hmem' config hmem hon' hon
      have hconfig : some config' = some config := by
        rw [← KeyedMap.mem_values.mp hmem', hid, KeyedMap.mem_values.mp hmem]
      rw [Option.some_inj.mp hconfig]
    · exact absurd hon (by rw [hoff' config hmem]; decide)
  · rcases h' with ⟨config', hmem', hon', -⟩ | ⟨-, hfound'⟩
    · exact absurd hon' (by rw [hoff config' hmem']; decide)
    · exact hfound'

/-- After any run a lookup gives a right answer, and lookups before it make no difference unless
devices share the topic. -/
theorem find_transparent (s : TopicServer F) (labels : List (TopicLabel F)) (topic : String) :
    let after := s.run sj isAlphanumeric labels
    after.Answers topic (after.findDeviceByTelemetryTopic topic).1 ∧
    ((∀ config ∈ after.devices, ∀ config' ∈ after.devices, config.isOn topic = true →
        config'.isOn topic = true → config.deviceId = config'.deviceId) →
      ∀ labels', labels'.filterMap TopicLabel.registry? = labels.filterMap TopicLabel.registry? →
        ((s.run sj isAlphanumeric labels').findDeviceByTelemetryTopic topic).1 =
          (after.findDeviceByTelemetryTopic topic).1) := by
  refine ⟨answers_find _ topic, fun hunique labels' hlabels => ?_⟩
  refine (answers_find _ topic).unique ?_ hunique
  have hanswer := answers_find (s.run sj isAlphanumeric labels') topic
  unfold Answers devices at hanswer ⊢
  rwa [server_run, hlabels, ← server_run] at hanswer

/-- A device that sends to a topic. -/
def sensor (deviceId topic : String) : DeviceConfig ℤ :=
  ⟨deviceId, deviceId, "sensor", "mqtt", ⟨some topic, none, none, none, []⟩, none, 0, none⟩

/-- A registry with two devices, and one of them is being removed. -/
def removal : TopicServer ℤ where
  server :=
    ⟨⟨.empty, (KeyedMap.empty.put (sensor "a" "x")).put (sensor "b" "y"), ∅, .new⟩,
      [.start (.unregisterDevice "a")]⟩
  topicIndex := ∅
  topics := fun _ => none

/-- The lookups between the sections of the removal make no difference. -/
theorem find_transparent_removal :
    let run := removal.run ⟨fun _ => true, id, id, 128⟩ Char.isAlphanum
    let advance := TopicLabel.registry (.advance 0)
    let after := run [advance, advance]
    after.devices.map DeviceConfig.deviceId = ["b"] ∧
      ((run [.find "x", advance, .find "y", advance]).findDeviceByTelemetryTopic "y").1 =
        (after.findDeviceByTelemetryTopic "y").1 :=
  ⟨by decide +kernel, (find_transparent _ _ removal _ "y").2 (by decide +kernel) _ rfl⟩

end TopicServer

end HeraMind.Devices
