/-
# Concurrent saves

What holds of each save at each of its steps, whatever the others do.  A save writes to its own
temporary file and renames it to a name that was free; directories and saved images stay as they
are.  So what a save knows of them goes on to hold, and its temporary file is touched by no other.
-/
import HeraMind.Devices.ImagePaths

namespace HeraMind.Devices.ImageStorage

open Option Function
open Transition UnixPath

variable {env : Env} {r : SaveRequest} {fs fs' : FileSystem} {name tmp pick : List Char}

/-! ## What a step leaves alone -/

/-- The location of a temporary file. -/
def IsTemp (l : Location) : Prop := ∃ name, l.getLast? = some name ∧ IsTempName name

theorem isTemp_path (h : IsTempName tmp) : IsTemp (env.path r tmp) :=
  ⟨tmp, by rw [path_eq h.plain, List.getLast?_concat], h⟩

theorem not_isTemp_path (h : FinalName env r name) : ¬ IsTemp (env.path r name) := by
  rintro ⟨name', hlast, htemp⟩
  rw [path_eq h.plain, List.getLast?_concat] at hlast
  cases hlast
  exact h.not_temp htemp

/-- Directories and files stay, but for one temporary file. -/
structure Frame (own : Option Location) (fs fs' : FileSystem) : Prop where
  dirs : ∀ l, fs.dirs l = true → fs'.dirs l = true
  kept : ∀ l bytes, ¬ IsTemp l → fs.files l = some bytes → fs'.files l = some bytes
  temp : ∀ l, IsTemp l → own ≠ some l → fs'.files l = fs.files l

theorem Frame.refl (own : Option Location) (fs : FileSystem) : Frame own fs fs :=
  ⟨fun _ h => h, fun _ _ _ h => h, fun _ _ _ => rfl⟩

theorem frame_createDir {l : Location} (h : fs.createDir l = some fs') : Frame none fs fs' := by
  constructor
  · intro q hq
    exact (FileSystem.dirs_createDir h q).mpr (Or.inl hq)
  · intro q bytes _ hq
    rwa [FileSystem.files_createDir h]
  · intro q _ _
    rw [FileSystem.files_createDir h]

theorem frame_writeFile {bytes : List UInt8} (htmp : IsTempName tmp)
    (h : fs.writeFile (env.path r tmp) bytes = some fs') :
    Frame (some (env.path r tmp)) fs fs' ∧ fs'.files (env.path r tmp) = some bytes := by
  have hfiles := FileSystem.files_writeFile h
  refine ⟨⟨?_, ?_, ?_⟩, by rw [hfiles, update_self]⟩
  · intro q hq
    rwa [FileSystem.dirs_writeFile h]
  · intro q content hq hcontent
    have hne : q ≠ env.path r tmp := fun heq => hq (heq ▸ isTemp_path htmp)
    rwa [hfiles, update_of_ne hne]
  · intro q _ hq
    have hne : q ≠ env.path r tmp := fun heq => hq (by rw [heq])
    rw [hfiles, update_of_ne hne]

theorem frame_removeFile (htmp : IsTempName tmp) :
    Frame (some (env.path r tmp)) fs (fs.removeFile (env.path r tmp)) := by
  constructor
  · exact fun _ hq => hq
  · intro q content hq hcontent
    have hne : q ≠ env.path r tmp := fun heq => hq (heq ▸ isTemp_path htmp)
    rwa [FileSystem.files_removeFile, update_of_ne hne]
  · intro q _ hq
    have hne : q ≠ env.path r tmp := fun heq => hq (by rw [heq])
    rw [FileSystem.files_removeFile, update_of_ne hne]

theorem frame_rename {bytes : List UInt8} (htmp : IsTempName tmp) (hname : FinalName env r name)
    (hbytes : fs.files (env.path r tmp) = some bytes)
    (h : fs.renameNoReplace (env.path r tmp) (env.path r name) = some fs') :
    Frame (some (env.path r tmp)) fs fs' ∧ fs'.files (env.path r name) = some bytes := by
  obtain ⟨content, hcontent, hfree, hdirs, hfiles⟩ := FileSystem.of_renameNoReplace h
  obtain rfl : content = bytes := some.inj (hcontent.symm.trans hbytes)
  refine ⟨⟨?_, ?_, ?_⟩, by rw [hfiles, update_self]⟩
  · intro q hq
    rwa [hdirs]
  · intro q content' hq hcontent'
    -- the target was free, and the source is a temporary file
    have htarget : q ≠ env.path r name := by
      rintro rfl
      rw [(FileSystem.taken_eq_false.mp hfree).2] at hcontent'
      cases hcontent'
    have hsource : q ≠ env.path r tmp := fun heq => hq (heq ▸ isTemp_path htmp)
    rwa [hfiles, update_of_ne htarget, update_of_ne hsource]
  · intro q hq hown
    have htarget : q ≠ env.path r name := fun heq => not_isTemp_path hname (heq ▸ hq)
    have hsource : q ≠ env.path r tmp := fun heq => hown (by rw [heq])
    rw [hfiles, update_of_ne htarget, update_of_ne hsource]

/-! ## What a save knows -/

/-- A name is taken by something else than a file with these bytes. -/
def Refused (fs : FileSystem) (l : Location) (bytes : List UInt8) : Prop :=
  fs.taken l = true ∧ fs.files l ≠ some bytes

/-- The directory of the metric and those above it are there. -/
def HasDirs (env : Env) (fs : FileSystem) (r : SaveRequest) : Prop :=
  ∀ k ≤ (env.metricDir r).length, fs.dirs ((env.metricDir r).take k) = true

/-- The primary name is taken by something else. -/
def PrimaryRefused (env : Env) (fs : FileSystem) (r : SaveRequest) : Prop :=
  Refused fs (env.path r (env.primaryName r)) r.bytes

/-- The bytes of a request are saved at a name, and the URL is the one of the name. -/
def SavedAt (env : Env) (fs : FileSystem) (r : SaveRequest) (url : String) (name : List Char) :
    Prop :=
  FinalName env r name ∧ url = r.url name ∧ fs.files (env.path r name) = some r.bytes ∧
    (name = env.primaryName r ∨ PrimaryRefused env fs r)

/-- The temporary file of a save. -/
def Pc.tmpName : Pc → Option (List Char)
  | .write tmp | .primary tmp | .compare tmp | .next tmp _ | .fallback tmp _ _
  | .compareFallback tmp _ _ => some tmp
  | _ => none

/-- The temporary file that the next step may touch. -/
def Pc.owns (pick : List Char) : Pc → Option (List Char)
  | .stage => some pick
  | pc => pc.tmpName

/-- The save has staged its bytes and has its directory. -/
def Staged (env : Env) (fs : FileSystem) (r : SaveRequest) (tmp : List Char)
    (content : List UInt8) : Prop :=
  Valid r ∧ HasDirs env fs r ∧ IsTempName tmp ∧ fs.files (env.path r tmp) = some content

/-- What a save knows at each of its steps. -/
def Holds (env : Env) (fs : FileSystem) (r : SaveRequest) : Pc → Prop
  | .mkdir made => Valid r ∧ made ≤ (env.metricDir r).length ∧
      ∀ k < made, fs.dirs ((env.metricDir r).take k) = true
  | .stage => Valid r ∧ HasDirs env fs r
  | .write tmp => ∃ content, Staged env fs r tmp content
  | .primary tmp => Staged env fs r tmp r.bytes
  | .compare tmp => Staged env fs r tmp r.bytes ∧
      fs.taken (env.path r (env.primaryName r)) = true
  | .next tmp _ | .fallback tmp _ _ => Staged env fs r tmp r.bytes ∧ PrimaryRefused env fs r
  | .compareFallback tmp n _ => Staged env fs r tmp r.bytes ∧
      fs.taken (env.path r (env.fallbackName r n)) = true ∧ PrimaryRefused env fs r
  | .done (.ok url) => Valid r ∧ HasDirs env fs r ∧ ∃ name, SavedAt env fs r url name
  | .done (.error _) => True

theorem finalName_primary : FinalName env r (env.primaryName r) := ⟨Or.inl rfl⟩

theorem finalName_fallback (n : UInt64) : FinalName env r (env.fallbackName r n) :=
  ⟨Or.inr ⟨n, rfl⟩⟩

/-! ## What goes on to hold -/

section

variable {own : Option Location} (hframe : Frame own fs fs')

include hframe

theorem Frame.taken (hname : FinalName env r name) (h : fs.taken (env.path r name) = true) :
    fs'.taken (env.path r name) = true := by
  unfold FileSystem.taken at h ⊢
  rcases (Bool.or_eq_true _ _).mp h with hdir | hfile
  · rw [hframe.dirs _ hdir, Bool.true_or]
  · obtain ⟨bytes, hbytes⟩ := isSome_iff_exists.mp hfile
    rw [hframe.kept _ bytes (not_isTemp_path hname) hbytes, isSome_some, Bool.or_true]

theorem Frame.refused (hname : FinalName env r name)
    (h : Refused fs (env.path r name) r.bytes) : Refused fs' (env.path r name) r.bytes := by
  obtain ⟨htaken, hne⟩ := h
  refine ⟨hframe.taken hname htaken, ?_⟩
  unfold FileSystem.taken at htaken
  rcases (Bool.or_eq_true _ _).mp htaken with hdir | hfile
  · rw [fs'.disjoint _ (hframe.dirs _ hdir)]
    exact nofun
  · obtain ⟨bytes, hbytes⟩ := isSome_iff_exists.mp hfile
    rw [hframe.kept _ bytes (not_isTemp_path hname) hbytes, ← hbytes]
    exact hne

theorem Frame.hasDirs (h : HasDirs env fs r) : HasDirs env fs' r := fun k hk =>
  hframe.dirs _ (h k hk)

theorem Frame.savedAt {url : String} (h : SavedAt env fs r url name) :
    SavedAt env fs' r url name := by
  obtain ⟨hname, hurl, hfile, hwhy⟩ := h
  exact ⟨hname, hurl, hframe.kept _ _ (not_isTemp_path hname) hfile,
    hwhy.imp_right (hframe.refused finalName_primary)⟩

theorem Frame.staged {content : List UInt8} (hown : own ≠ some (env.path r tmp))
    (h : Staged env fs r tmp content) : Staged env fs' r tmp content := by
  obtain ⟨hvalid, hdirs, htmp, hfile⟩ := h
  exact ⟨hvalid, hframe.hasDirs hdirs, htmp, by rwa [hframe.temp _ (isTemp_path htmp) hown]⟩

/-- What a save knows holds after a step that does not touch its temporary file. -/
theorem Frame.holds {pc : Pc} (hown : ∀ tmp, pc.tmpName = some tmp → own ≠ some (env.path r tmp))
    (h : Holds env fs r pc) : Holds env fs' r pc := by
  cases pc with
  | mkdir made => exact ⟨h.1, h.2.1, fun k hk => hframe.dirs _ (h.2.2 k hk)⟩
  | stage => exact ⟨h.1, hframe.hasDirs h.2⟩
  | write tmp =>
    obtain ⟨content, hstaged⟩ := h
    exact ⟨content, hframe.staged (hown tmp rfl) hstaged⟩
  | primary tmp => exact hframe.staged (hown tmp rfl) h
  | compare tmp => exact ⟨hframe.staged (hown tmp rfl) h.1, hframe.taken finalName_primary h.2⟩
  | next tmp left | fallback tmp n left =>
    exact ⟨hframe.staged (hown tmp rfl) h.1, hframe.refused finalName_primary h.2⟩
  | compareFallback tmp n left =>
    exact ⟨hframe.staged (hown tmp rfl) h.1, hframe.taken (finalName_fallback n) h.2.1,
      hframe.refused finalName_primary h.2.2⟩
  | done result =>
    cases result with
    | error e => trivial
    | ok url =>
      obtain ⟨hvalid, hdirs, name, hsaved⟩ := h
      exact ⟨hvalid, hframe.hasDirs hdirs, name, hframe.savedAt hsaved⟩

end

/-! ## One step of a save -/

/-- What a step of a save does: it touches one temporary file, the save knows what it has to, and
a temporary file it has afterwards is its own or was free. -/
structure StepSpec (env : Env) (r : SaveRequest) (pick : List Char) (fs fs' : FileSystem)
    (pc pc' : Pc) : Prop where
  frame : Frame ((pc.owns pick).map (env.path r)) fs fs'
  holds : Holds env fs' r pc'
  own : ∀ t, pc'.tmpName = some t →
    pc.tmpName = some t ∨ (pc.tmpName = none ∧ fs.taken (env.path r t) = false)

variable {d d' : Disk} {pc pc' : Pc}

theorem staged_removeFile (hstaged : Staged env fs r tmp r.bytes) {url : String}
    (hsaved : SavedAt env fs r url name) :
    Frame (some (env.path r tmp)) fs (fs.removeFile (env.path r tmp)) ∧
      Holds env (fs.removeFile (env.path r tmp)) r (.done (.ok url)) := by
  obtain ⟨hvalid, hdirs, htmp, -⟩ := hstaged
  have hframe : Frame (some (env.path r tmp)) fs (fs.removeFile (env.path r tmp)) :=
    frame_removeFile htmp
  exact ⟨hframe, hvalid, hframe.hasDirs hdirs, name, hframe.savedAt hsaved⟩

/-- A rename that succeeds saves the image. -/
theorem staged_rename (hstaged : Staged env fs r tmp r.bytes) (hname : FinalName env r name)
    (hwhy : name = env.primaryName r ∨ PrimaryRefused env fs r)
    (h : fs.renameNoReplace (env.path r tmp) (env.path r name) = some fs') :
    Frame (some (env.path r tmp)) fs fs' ∧ Holds env fs' r (.done (.ok (r.url name))) := by
  obtain ⟨hvalid, hdirs, htmp, hbytes⟩ := hstaged
  obtain ⟨hframe, hsaved⟩ := frame_rename htmp hname hbytes h
  exact ⟨hframe, hvalid, hframe.hasDirs hdirs, name, hname, rfl, hsaved,
    hwhy.imp_right (hframe.refused finalName_primary)⟩

/-- A rename that fails found the name taken. -/
theorem taken_of_rename (hstaged : Staged env fs r tmp r.bytes)
    (h : fs.renameNoReplace (env.path r tmp) (env.path r name) = none) :
    fs.taken (env.path r name) = true :=
  (FileSystem.renameNoReplace_eq_none hstaged.2.2.2).mp h

theorem refused_of_not_matches (htaken : fs.taken (env.path r name) = true)
    (h : ¬ existingMatches fs (env.path r name) r.bytes = true) :
    Refused fs (env.path r name) r.bytes :=
  ⟨htaken, fun heq => h (decide_eq_true heq)⟩

theorem proceed_spec (h : Holds env d.fs r pc) (hstep : proceed env r pick d pc = some (d', pc')) :
    StepSpec env r pick d.fs d'.fs pc pc' := by
  cases pc with
  | mkdir made =>
    obtain ⟨hvalid, hle, hdirs⟩ := h
    rw [proceed] at hstep
    split at hstep
    · rename_i fs hmake
      cases hstep
      have hframe := frame_createDir hmake
      have hnew := (FileSystem.dirs_createDir hmake _).mpr (Or.inr rfl)
      have hdirs' : ∀ k < made + 1, fs.dirs ((env.metricDir r).take k) = true := by
        intro k hk
        by_cases heq : k = made
        · rw [heq]
          exact hnew
        · exact hframe.dirs _ (hdirs k (by omega))
      by_cases hlt : made < (env.metricDir r).length
      · rw [if_pos hlt]
        exact ⟨hframe, ⟨hvalid, hlt, hdirs'⟩, nofun⟩
      · rw [if_neg hlt]
        exact ⟨hframe, ⟨hvalid, fun k hk => hdirs' k (by omega)⟩, nofun⟩
    · cases hstep
      exact ⟨Frame.refl _ _, trivial, nofun⟩
  | stage =>
    obtain ⟨hvalid, hdirs⟩ := h
    rw [proceed] at hstep
    split at hstep
    · rename_i hpick
      obtain ⟨fs, hwrite, heq⟩ := map_eq_some_iff.mp hstep
      cases heq
      obtain ⟨hframe, hfile⟩ := frame_writeFile hpick.1 hwrite
      refine ⟨hframe, ⟨[], hvalid, hframe.hasDirs hdirs, hpick.1, hfile⟩, fun t ht => ?_⟩
      cases ht
      exact Or.inr ⟨rfl, hpick.2⟩
    · cases hstep
  | write tmp =>
    obtain ⟨content, hvalid, hdirs, htmp, hfile⟩ := h
    rw [proceed] at hstep
    obtain ⟨fs, hwrite, heq⟩ := map_eq_some_iff.mp hstep
    cases heq
    obtain ⟨hframe, hfile'⟩ := frame_writeFile htmp hwrite
    exact ⟨hframe, ⟨hvalid, hframe.hasDirs hdirs, htmp, hfile'⟩, fun t ht => Or.inl ht⟩
  | primary tmp =>
    rw [proceed] at hstep
    split at hstep
    · rename_i fs hrename
      cases hstep
      obtain ⟨hframe, hdone⟩ := staged_rename h finalName_primary (Or.inl rfl) hrename
      exact ⟨hframe, hdone, nofun⟩
    · rename_i hrename
      cases hstep
      exact ⟨Frame.refl _ _, ⟨h, taken_of_rename h hrename⟩, fun t ht => Or.inl ht⟩
  | compare tmp =>
    obtain ⟨hstaged, htaken⟩ := h
    rw [proceed] at hstep
    split at hstep
    · rename_i hmatch
      cases hstep
      obtain ⟨hframe, hdone⟩ := staged_removeFile hstaged
        ⟨finalName_primary, rfl, of_decide_eq_true hmatch, Or.inl rfl⟩
      exact ⟨hframe, hdone, nofun⟩
    · rename_i hmatch
      cases hstep
      exact ⟨Frame.refl _ _, ⟨hstaged, refused_of_not_matches htaken hmatch⟩,
        fun t ht => Or.inl ht⟩
  | next tmp left =>
    cases left with
    | zero =>
      rw [proceed] at hstep
      cases hstep
      exact ⟨frame_removeFile h.1.2.2.1, trivial, nofun⟩
    | succ left =>
      rw [proceed] at hstep
      cases hstep
      exact ⟨Frame.refl _ _, h, fun t ht => Or.inl ht⟩
  | fallback tmp n left =>
    obtain ⟨hstaged, hprimary⟩ := h
    rw [proceed] at hstep
    split at hstep
    · rename_i fs hrename
      cases hstep
      obtain ⟨hframe, hdone⟩ :=
        staged_rename hstaged (finalName_fallback n) (Or.inr hprimary) hrename
      exact ⟨hframe, hdone, nofun⟩
    · rename_i hrename
      cases hstep
      exact ⟨Frame.refl _ _, ⟨hstaged, taken_of_rename hstaged hrename, hprimary⟩,
        fun t ht => Or.inl ht⟩
  | compareFallback tmp n left =>
    obtain ⟨hstaged, -, hprimary⟩ := h
    rw [proceed] at hstep
    split at hstep
    · rename_i hmatch
      cases hstep
      obtain ⟨hframe, hdone⟩ := staged_removeFile hstaged
        ⟨finalName_fallback n, rfl, of_decide_eq_true hmatch, Or.inr hprimary⟩
      exact ⟨hframe, hdone, nofun⟩
    · cases hstep
      exact ⟨Frame.refl _ _, ⟨hstaged, hprimary⟩, fun t ht => Or.inl ht⟩
  | done result => cases hstep

/-! ## Runs -/

/-- Each save knows what it has to, and no two have the same temporary file. -/
structure Inv (env : Env) (s : State) : Prop where
  holds : ∀ (i : ℕ) (c : Save), s.saves[i]? = some c → Holds env s.disk.fs c.request c.pc
  apart : ∀ (i j : ℕ) (c c' : Save) (t t' : List Char), i ≠ j → s.saves[i]? = some c →
    s.saves[j]? = some c' →
    c.pc.tmpName = some t → c'.pc.tmpName = some t' →
      env.path c.request t ≠ env.path c'.request t'

theorem Inv.init (env : Env) (fs : FileSystem) : Inv env (init fs) :=
  ⟨fun _ _ h => (nomatch h), fun _ _ _ _ _ _ _ h => (nomatch h)⟩

theorem holds_start : Holds env fs r (start r) := by
  rcases valid_or_error r with hvalid | ⟨e, hstart⟩
  · rw [hvalid.starts]
    exact ⟨hvalid, Nat.zero_le _, fun k hk => absurd hk (Nat.not_lt_zero k)⟩
  · rw [hstart]
    trivial

theorem tmpName_start (r : SaveRequest) : (start r).tmpName = none := by
  rcases valid_or_error r with hvalid | ⟨e, hstart⟩
  · rw [hvalid.starts]
    rfl
  · rw [hstart]
    rfl

theorem Holds.tmp_exists {t : List Char} (h : Holds env fs r pc) (ht : pc.tmpName = some t) :
    fs.taken (env.path r t) = true := by
  have hfile : ∃ content, fs.files (env.path r t) = some content := by
    cases pc with
    | mkdir made | stage => cases ht
    | write tmp =>
      cases ht
      exact ⟨_, h.choose_spec.2.2.2⟩
    | primary tmp =>
      cases ht
      exact ⟨_, h.2.2.2⟩
    | compare tmp | next tmp left | fallback tmp n left | compareFallback tmp n left =>
      cases ht
      exact ⟨_, h.1.2.2.2⟩
    | done result => cases ht
  obtain ⟨content, hcontent⟩ := hfile
  unfold FileSystem.taken
  rw [hcontent, isSome_some, Bool.or_true]

/-- The cases of a step: a new save, or one that goes on. -/
theorem step_cases {s s' : State} {a : Action} (h : step env s a = some s') :
    (∃ r, a = .save r ∧ s' = { s with saves := s.saves ++ [⟨r, start r⟩] }) ∨
      ∃ i pick r pc d' pc', a = .proceed i pick ∧ s.saves[i]? = some ⟨r, pc⟩ ∧
        proceed env r pick s.disk pc = some (d', pc') ∧ s' = ⟨d', s.saves.set i ⟨r, pc'⟩⟩ := by
  cases a with
  | save r => exact Or.inl ⟨r, rfl, (some.inj h).symm⟩
  | proceed i pick =>
    rw [step] at h
    split at h
    · cases h
    · rename_i c hc
      obtain ⟨⟨d', pc'⟩, hproceed, heq⟩ := map_eq_some_iff.mp h
      exact Or.inr ⟨i, pick, c.request, c.pc, d', pc', rfl, hc, hproceed, heq.symm⟩

/-- The step of one save does not touch the temporary file of another one. -/
theorem Inv.owns_ne {s : State} (h : Inv env s) {i j : ℕ} (hij : j ≠ i) {c : Save}
    (hi : s.saves[i]? = some ⟨r, pc⟩) (hj : s.saves[j]? = some c)
    (hstep : proceed env r pick s.disk pc = some (d', pc')) {t : List Char}
    (ht : c.pc.tmpName = some t) :
    (pc.owns pick).map (env.path r) ≠ some (env.path c.request t) := by
  intro heq
  obtain ⟨t', ht', hpath⟩ := map_eq_some_iff.mp heq
  by_cases hstage : pc = .stage
  · -- the temporary file of a save that stages is new
    subst hstage
    cases ht'
    rw [proceed] at hstep
    split at hstep
    · rename_i hpick
      have htaken := (h.holds j c hj).tmp_exists ht
      rw [← hpath, hpick.2] at htaken
      cases htaken
    · cases hstep
  · have htmp : pc.tmpName = some t' := by
      cases pc with
      | stage => exact absurd rfl hstage
      | mkdir made | write tmp | primary tmp | compare tmp | next tmp left | fallback tmp n left
      | compareFallback tmp n left | done result => exact ht'
    exact h.apart i j ⟨r, pc⟩ c t' t (Ne.symm hij) hi hj htmp ht hpath

theorem Inv.step {s s' : State} {a : Action} (h : Inv env s) (hstep : step env s a = some s') :
    Inv env s' := by
  rcases step_cases hstep with ⟨r, -, rfl⟩ | ⟨i, pick, r, pc, d', pc', -, hi, hproceed, rfl⟩
  · constructor
    · intro j c hj
      rcases Calls.getElem?_append_cases hj with ⟨-, rfl⟩ | hj
      · exact holds_start
      · exact h.holds j c hj
    · intro j k c c' t t' hjk hj hk ht ht'
      rcases Calls.getElem?_append_cases hj with ⟨-, rfl⟩ | hj
      · rw [tmpName_start] at ht
        cases ht
      rcases Calls.getElem?_append_cases hk with ⟨-, rfl⟩ | hk
      · rw [tmpName_start] at ht'
        cases ht'
      exact h.apart j k c c' t t' hjk hj hk ht ht'
  · have hspec := proceed_spec (h.holds i _ hi) hproceed
    -- a temporary file of the save that went on, beside that of another save
    have hapart : ∀ j c t t', j ≠ i → s.saves[j]? = some c → pc'.tmpName = some t →
        c.pc.tmpName = some t' → env.path r t ≠ env.path c.request t' := by
      intro j c t t' hji hj ht ht'
      rcases hspec.own t ht with hold | ⟨-, hfree⟩
      · exact h.apart i j ⟨r, pc⟩ c t t' (Ne.symm hji) hi hj hold ht'
      · intro heq
        have htaken := (h.holds j c hj).tmp_exists ht'
        rw [← heq, hfree] at htaken
        cases htaken
    constructor
    · intro j c hj
      rcases Calls.getElem?_set_cases hj with ⟨-, rfl⟩ | ⟨hji, hj⟩
      · exact hspec.holds
      · exact hspec.frame.holds (fun t ht => h.owns_ne hji hi hj hproceed ht) (h.holds j c hj)
    · intro j k c c' t t' hjk hj hk ht ht'
      rcases Calls.getElem?_set_cases hj with ⟨hji, rfl⟩ | ⟨hji, hj'⟩
      · rcases Calls.getElem?_set_cases hk with ⟨hki, -⟩ | ⟨hki, hk'⟩
        · exact absurd (hji.trans hki.symm) hjk
        · exact hapart k c' t t' hki hk' ht ht'
      · rcases Calls.getElem?_set_cases hk with ⟨-, rfl⟩ | ⟨hki, hk'⟩
        · exact (hapart j c t' t hji hj' ht' ht).symm
        · exact h.apart j k c c' t t' hjk hj' hk' ht ht'

theorem inv_of_run {s : State} {tr : List (State × Action)}
    (hrun : Run (step env) (init fs) tr s) : Inv env s :=
  hrun.invariant' (Inv.init env fs) fun _ _ _ h hstep => h.step hstep

end HeraMind.Devices.ImageStorage
