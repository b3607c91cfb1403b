/-
# Saves that run out of names

A save tries its primary name and 256 fallback names.  If something else has all of them, it fails.
Directories count: a device and a metric are names of directories, and a metric may be called what a
fallback name will be.  So the same image may be refused the second time.
-/
import HeraMind.Devices.ImageForever

namespace HeraMind.Devices.ImageStorage

open List
open Transition UnixPath

variable {env : Env} {r : SaveRequest} {fs : FileSystem} {d d' : Disk} {pc pc' : Pc}
  {pick : List Char}

/-! ## One save alone -/

/-- A save that goes on alone gets to where it stops. -/
theorem run_alone {J : Disk → Pc → Prop} (stop : Pc → Bool)
    (hgo : ∀ d pc, J d pc → stop pc = false → ∃ pick d' pc',
      proceed env r pick d pc = some (d', pc') ∧ rank env r pc' < rank env r pc ∧ J d' pc')
    {i : ℕ} (s : State) (pc : Pc) (hi : s.saves[i]? = some ⟨r, pc⟩) (hJ : J s.disk pc) :
    ∃ tr s' pc', Run (step env) s tr s' ∧ s'.saves = s.saves.set i ⟨r, pc'⟩ ∧ stop pc' = true ∧
      J s'.disk pc' := by
  induction hn : rank env r pc using Nat.strong_induction_on generalizing s pc with
  | _ n ih =>
    subst hn
    cases hstop : stop pc with
    | true =>
      obtain ⟨hlt, hget⟩ := List.getElem?_eq_some_iff.mp hi
      refine ⟨[], s, pc, .nil, ?_, hstop, hJ⟩
      rw [← hget, set_getElem_self]
    | false =>
      obtain ⟨pick, d', pc', hproceed, hlt, hJ'⟩ := hgo s.disk pc hJ hstop
      have hstep : step env s (.proceed i pick) = some ⟨d', s.saves.set i ⟨r, pc'⟩⟩ := by
        rw [step, hi]
        dsimp only
        rw [hproceed]
        rfl
      obtain ⟨tr, s', pc'', hrun, hsaves, hstop', hJ''⟩ :=
        ih _ hlt ⟨d', s.saves.set i ⟨r, pc'⟩⟩ pc' (Calls.getElem?_set_self hi _) hJ' rfl
      refine ⟨_, s', pc'', (Run.nil.snoc hstep).append hrun, ?_, hstop', hJ''⟩
      rw [hsaves, set_set]

/-! ## Making directories -/

/-- What holds while a save makes its directories, where no file is in the way. -/
structure MakesDirs (env : Env) (r : SaveRequest) (d₀ d : Disk) (pc : Pc) : Prop where
  files : d.fs.files = d₀.fs.files
  uniquifier : d.uniquifier = d₀.uniquifier
  dirs : ∀ l, d.fs.dirs l = true → d₀.fs.dirs l = true ∨ l <+: env.metricDir r
  kept : ∀ l, d₀.fs.dirs l = true → d.fs.dirs l = true
  phase : pc = .stage ∧ HasDirs env d.fs r ∨ ∃ made, pc = .mkdir made ∧
    made ≤ (env.metricDir r).length ∧ ∀ k < made, d.fs.dirs ((env.metricDir r).take k) = true

def isStage : Pc → Bool
  | .stage => true
  | _ => false

theorem MakesDirs.proceed {d₀ : Disk}
    (hfree : ∀ k ≤ (env.metricDir r).length, d₀.fs.files ((env.metricDir r).take k) = none)
    (h : MakesDirs env r d₀ d pc) (hstop : isStage pc = false) :
    ∃ pick d' pc', proceed env r pick d pc = some (d', pc') ∧ rank env r pc' < rank env r pc ∧
      MakesDirs env r d₀ d' pc' := by
  obtain ⟨rfl, -⟩ | ⟨made, rfl, hle, hmade⟩ := h.phase
  · cases hstop
  cases hmake : d.fs.createDir ((env.metricDir r).take made) with
  | none =>
    have hsome := FileSystem.createDir_eq_none.mp hmake
    rw [h.files] at hsome
    exact absurd (hfree made hle) hsome
  | some fs =>
    have hdirs := FileSystem.dirs_createDir hmake
    have hmade' : ∀ k < made + 1, fs.dirs ((env.metricDir r).take k) = true := by
      intro k hk
      by_cases heq : k = made
      · rw [heq]
        exact (hdirs _).mpr (Or.inr rfl)
      · exact (hdirs _).mpr (Or.inl (hmade k (by omega)))
    refine ⟨[], _, _, by rw [ImageStorage.proceed, hmake], ?_, ?_⟩
    · by_cases hlt : made < (env.metricDir r).length
      · rw [if_pos hlt]
        show 774 + _ < 774 + _
        omega
      · rw [if_neg hlt]
        show 773 < 774 + _
        omega
    · constructor
      · exact (FileSystem.files_createDir hmake).trans h.files
      · exact h.uniquifier
      · intro l hl
        rcases (hdirs l).mp hl with hl | rfl
        · exact h.dirs l hl
        · exact Or.inr ( take_prefix _ _)
      · exact fun l hl => (hdirs l).mpr (Or.inl (h.kept l hl))
      · by_cases hlt : made < (env.metricDir r).length
        · rw [if_pos hlt]
          exact Or.inr ⟨made + 1, rfl, hlt, hmade'⟩
        · rw [if_neg hlt]
          exact Or.inl ⟨rfl, fun k hk => hmade' k (by omega)⟩

/-- A save that is called where no file is in the way makes its directories. -/
theorem exists_run_makesDirs (hstart : start r = .mkdir 0) (s : State)
    (hfree : ∀ k ≤ (env.metricDir r).length, s.disk.fs.files ((env.metricDir r).take k) = none) :
    ∃ tr s', Run (step env) s tr s' ∧ s'.saves = s.saves ++ [⟨r, .stage⟩] ∧
      MakesDirs env r s.disk s'.disk .stage := by
  have hcall : step env s (.save r) = some { s with saves := s.saves ++ [⟨r, start r⟩] } := rfl
  have hnew : (s.saves ++ [⟨r, start r⟩])[s.saves.length]? = some ⟨r, .mkdir 0⟩ := by
    rw [getElem?_concat_length, hstart]
  have hbegins : MakesDirs env r s.disk s.disk (.mkdir 0) :=
    ⟨rfl, rfl, fun _ h => Or.inl h, fun _ h => h,
      Or.inr ⟨0, rfl, Nat.zero_le _, fun _ h => absurd h (Nat.not_lt_zero _)⟩⟩
  obtain ⟨tr, s', pc', hrun, hsaves, hstop, hmakes⟩ :=
    run_alone (J := MakesDirs env r s.disk) isStage
      (fun _ _ h hstop => h.proceed hfree hstop)
      { s with saves := s.saves ++ [⟨r, start r⟩] } _ hnew hbegins
  have hpc : pc' = .stage := by
    obtain ⟨rfl, -⟩ | ⟨made, rfl, -⟩ := hmakes.phase
    · rfl
    · cases hstop
  subst hpc
  refine ⟨_, s', (Run.nil.snoc hcall).append hrun, ?_, hmakes⟩
  rw [hsaves, set_append_right _ _ (le_refl _), Nat.sub_self]
  rfl

/-! ## Running out of names -/

/-- What the counter is while a save goes on alone that called it first when it was `c`, and that
it has not ended well. -/
def Counted (c uniquifier : UInt64) : Pc → Prop
  | .mkdir _ => False
  | .next _ left => ∃ k, k + left = 256 ∧ uniquifier = c + UInt64.ofNat k
  | .fallback _ n left | .compareFallback _ n left => ∃ k, k + left = 255 ∧ n = c + UInt64.ofNat k ∧
      uniquifier = c + UInt64.ofNat (k + 1)
  | .done result => ∃ e, result = .error e
  | _ => uniquifier = c

/-- What holds while a save goes on whose names are all taken by something else. -/
structure Doomed (env : Env) (r : SaveRequest) (pick : List Char) (c : UInt64) (d : Disk) (pc : Pc) :
    Prop where
  holds : Holds env d.fs r pc
  primary : Refused d.fs (env.path r (env.primaryName r)) r.bytes
  fallback : ∀ k < 256, Refused d.fs (env.path r (env.fallbackName r (c + UInt64.ofNat k))) r.bytes
  picked : pc = .stage → d.fs.taken (env.path r pick) = false
  counted : Counted c d.uniquifier pc

theorem not_matches_of_refused {l : Location} {bytes : List UInt8} (h : Refused fs l bytes) :
    ¬ existingMatches fs l bytes = true := fun hmatch => h.2 (of_decide_eq_true hmatch)

/-- The names stay taken. -/
theorem Doomed.step {c : UInt64} (h : Doomed env r pick c d pc) {pick' : List Char}
    (hproceed : proceed env r pick' d pc = some (d', pc')) (hstage : pc' ≠ .stage)
    (hcounted : Counted c d'.uniquifier pc') : Doomed env r pick c d' pc' := by
  have hspec := proceed_spec h.holds hproceed
  exact ⟨hspec.holds, hspec.frame.refused finalName_primary h.primary,
    fun k hk => hspec.frame.refused (finalName_fallback _) (h.fallback k hk),
    fun heq => absurd heq hstage, hcounted⟩

theorem Doomed.proceed {c : UInt64} (hpick : IsTempName pick) (h : Doomed env r pick c d pc)
    (hstop : pc.ended = false) :
    ∃ pick' d' pc', proceed env r pick' d pc = some (d', pc') ∧ rank env r pc' < rank env r pc ∧
      Doomed env r pick c d' pc' := by
  have hcounted := h.counted
  have hgo : pc = .stage → d.fs.taken (env.path r pick) = false := h.picked
  cases pc with
  | mkdir made => exact hcounted.elim
  | stage =>
    obtain ⟨d', pc', hproceed, hrank⟩ := exists_proceed h.holds rfl hpick (hgo rfl)
    have hwrites := hproceed
    rw [ImageStorage.proceed, if_pos ⟨hpick, hgo rfl⟩] at hwrites
    obtain ⟨fs, -, heq⟩ := Option.map_eq_some_iff.mp hwrites
    cases heq
    exact ⟨pick, _, _, hproceed, hrank, h.step hproceed (by simp) hcounted⟩
  | write tmp =>
    obtain ⟨content, -, -, -, hfile⟩ := h.holds
    cases hwrite : d.fs.writeFile (env.path r tmp) r.bytes with
    | none =>
      rw [FileSystem.writeFile_eq_none] at hwrite
      rw [d.fs.disjoint _ hwrite] at hfile
      cases hfile
    | some fs =>
      have hproceed : ImageStorage.proceed env r pick d (.write tmp)
          = some ({ d with fs }, .primary tmp) := by
        rw [ImageStorage.proceed, hwrite]
        rfl
      exact ⟨pick, _, _, hproceed, Nat.lt_succ_self 771, h.step hproceed (by simp) hcounted⟩
  | primary tmp =>
    have hproceed : ImageStorage.proceed env r pick d (.primary tmp) = some (d, .compare tmp) := by
      rw [ImageStorage.proceed, (FileSystem.renameNoReplace_eq_none h.holds.2.2.2).mpr h.primary.1]
    exact ⟨pick, _, _, hproceed, Nat.lt_succ_self 770, h.step hproceed (by simp) hcounted⟩
  | compare tmp =>
    have hproceed : ImageStorage.proceed env r pick d (.compare tmp) = some (d, .next tmp 256) := by
      rw [ImageStorage.proceed, if_neg (not_matches_of_refused h.primary)]
    refine ⟨pick, _, _, hproceed, Nat.lt_succ_self 769, h.step hproceed (by simp) ⟨0, rfl, ?_⟩⟩
    rw [show d.uniquifier = c from hcounted]
    exact (UInt64.add_zero c).symm
  | next tmp left =>
    obtain ⟨k, hk, hcounter⟩ := hcounted
    cases left with
    | zero =>
      have hproceed : ImageStorage.proceed env r pick d (.next tmp 0)
          = finish env r tmp (.error .ioError) d := rfl
      exact ⟨pick, _, _, hproceed, Nat.succ_pos 0, h.step hproceed (by simp) ⟨_, rfl⟩⟩
    | succ left =>
      have hproceed : ImageStorage.proceed env r pick d (.next tmp (left + 1))
          = some ({ d with uniquifier := d.uniquifier + 1 }, .fallback tmp d.uniquifier left) := rfl
      refine ⟨pick, _, _, hproceed, Nat.lt_succ_self (3 * left + 3),
        h.step hproceed (by simp) ⟨k, by omega, hcounter, ?_⟩⟩
      show d.uniquifier + 1 = _
      rw [hcounter, UInt64.ofNat_add, UInt64.add_assoc]
      rfl
  | fallback tmp n left =>
    obtain ⟨k, hk, rfl, hcounter⟩ := hcounted
    have hproceed : ImageStorage.proceed env r pick d (.fallback tmp (c + UInt64.ofNat k) left)
        = some (d, .compareFallback tmp (c + UInt64.ofNat k) left) := by
      rw [ImageStorage.proceed, (FileSystem.renameNoReplace_eq_none h.holds.1.2.2.2).mpr
        (h.fallback k (by omega)).1]
    exact ⟨pick, _, _, hproceed, Nat.lt_succ_self (3 * left + 2),
      h.step hproceed (by simp) ⟨k, hk, rfl, hcounter⟩⟩
  | compareFallback tmp n left =>
    obtain ⟨k, hk, rfl, hcounter⟩ := hcounted
    have hproceed : ImageStorage.proceed env r pick d
        (.compareFallback tmp (c + UInt64.ofNat k) left) = some (d, .next tmp left) := by
      rw [ImageStorage.proceed, if_neg (not_matches_of_refused (h.fallback k (by omega)))]
    exact ⟨pick, _, _, hproceed, Nat.lt_succ_self (3 * left + 1),
      h.step hproceed (by simp) ⟨k + 1, by omega, hcounter⟩⟩
  | done result => cases hstop

/-- A save whose names are all taken by something else fails, where no other interferes. -/
theorem exists_run_fails (hvalid : Valid r) {s : State} (hdirs : HasDirs env s.disk.fs r)
    (hpick : IsTempName pick) (hfree : s.disk.fs.taken (env.path r pick) = false)
    (hprimary : Refused s.disk.fs (env.path r (env.primaryName r)) r.bytes)
    (hfallback : ∀ k < 256, Refused s.disk.fs
      (env.path r (env.fallbackName r (s.disk.uniquifier + UInt64.ofNat k))) r.bytes) :
    ∃ tr s' e, Run (step env) s tr s' ∧ s'.saves = s.saves ++ [⟨r, .done (.error e)⟩] := by
  have hnofile : ∀ k ≤ (env.metricDir r).length,
      s.disk.fs.files ((env.metricDir r).take k) = none :=
    fun k hk => s.disk.fs.disjoint _ (hdirs k hk)
  obtain ⟨tr₁, s₁, hrun₁, hsaves₁, hmade⟩ := exists_run_makesDirs hvalid.starts s hnofile
  have hframe : Frame none s.disk.fs s₁.disk.fs :=
    ⟨hmade.kept, fun l bytes _ h => by rwa [hmade.files], fun l _ _ => by rw [hmade.files]⟩
  -- all directories of the save were there, so the name for its temporary file is still free
  have hfree₁ : s₁.disk.fs.taken (env.path r pick) = false := by
    rw [FileSystem.taken_eq_false] at hfree ⊢
    refine ⟨?_, by rw [hmade.files]; exact hfree.2⟩
    by_contra hdir
    rcases hmade.dirs _ ((Bool.not_eq_false _).mp hdir) with hdir | hfront
    · rw [hfree.1] at hdir
      cases hdir
    · have hlen := hfront.length_le
      rw [path_eq hpick.plain, length_append, length_singleton] at hlen
      omega
  have hnew : s₁.saves[s.saves.length]? = some ⟨r, .stage⟩ := by
    rw [hsaves₁, getElem?_concat_length]
  have hdoomed : Doomed env r pick s.disk.uniquifier s₁.disk .stage :=
    ⟨⟨hvalid, hframe.hasDirs hdirs⟩, hframe.refused finalName_primary hprimary,
      fun k hk => hframe.refused (finalName_fallback _) (hfallback k hk), fun _ => hfree₁,
      hmade.uniquifier⟩
  obtain ⟨tr₂, s₂, pc', hrun₂, hsaves₂, hended, hdoomed'⟩ :=
    run_alone (J := Doomed env r pick s.disk.uniquifier) Pc.ended
      (fun _ _ h hstop => h.proceed hpick hstop) s₁ _ hnew hdoomed
  obtain ⟨e, rfl⟩ : ∃ e, pc' = .done (.error e) := by
    have hcounted := hdoomed'.counted
    cases pc' with
    | done result =>
      obtain ⟨e, rfl⟩ := hcounted
      exact ⟨e, rfl⟩
    | mkdir made | stage | write tmp | primary tmp | compare tmp | next tmp left
    | fallback tmp n left | compareFallback tmp n left => cases hended
  refine ⟨_, s₂, e, hrun₁.append hrun₂, ?_⟩
  rw [hsaves₂, hsaves₁, set_append_right _ _ (le_refl _), Nat.sub_self]
  rfl

/-! ## The same image refused -/

/-- Another image of the same device, metric and time. -/
def frameB : SaveRequest := ⟨".", "x", 100, [0xFF, 0xD8, 0xFF, 0xE0, 0xBB]⟩

/-- A metric of device `x` that is called what a fallback name of the second image is. -/
def blocker (k : ℕ) : SaveRequest :=
  ⟨"x", String.ofList (colliding.fallbackName frameB (UInt64.ofNat (k + 1))), 0, frameA.bytes⟩

def isFirst : Pc → Bool
  | .mkdir 0 => true
  | _ => false

theorem valid_of_isFirst {r : SaveRequest} (h : isFirst (start r) = true) : Valid r := by
  rcases valid_or_error r with hvalid | ⟨e, he⟩
  · exact hvalid
  · rw [he] at h
    cases h

theorem valid_frameB : Valid frameB := valid_of_isFirst (by decide)

theorem metricDir_frameB : colliding.metricDir frameB = ["images".toList, ['x']] := by
  decide

/-- The beginning of all fallback names of the second image. -/
def stemB : List Char := ['1', '0', '0', '_'] ++ (List.replicate 32 '0' ++ ['_'])

theorem fallbackName_frameB {k : ℕ} (hk : k < 256) :
    colliding.fallbackName frameB (UInt64.ofNat (k + 1))
      = stemB ++ (Nat.toDigits 10 (k + 1) ++ ".jpg".toList) := by
  have hstem : colliding.stem frameB ++ ['_'] = stemB := by decide
  have hext : '.' :: (detectExtension frameB.bytes).toList = ".jpg".toList := by decide
  unfold Env.fallbackName
  rw [UInt64.toNat_ofNat_of_lt' (by show k + 1 < 18446744073709551616; omega), hext, ← hstem,
    append_assoc]
  rfl

/-- The characters of a name with one dot, by its three parts. -/
theorem forall_mem_fallbackName {P : Char → Prop} {n : ℕ} (hstem : ∀ c ∈ stemB, P c)
    (hdigit : ∀ c : Char, c.isDigit = true → P c) (hext : ∀ c ∈ ".jpg".toList, P c) :
    ∀ c ∈ stemB ++ (Nat.toDigits 10 n ++ ".jpg".toList), P c := by
  intro c hc
  rcases mem_append.mp hc with hc | hc
  · exact hstem c hc
  · rcases mem_append.mp hc with hc | hc
    · exact hdigit c (Nat.isDigit_of_mem_toDigits (by decide) (by decide) hc)
    · exact hext c hc

theorem len_of_small {t : List Char} (h : ∀ c ∈ t, c.utf8Size = 1) : ByteText.len t = t.length := by
  induction t with
  | nil => rfl
  | cons c t ih =>
    rw [ByteText.len_cons, h c (mem_cons_self ..), length_cons,
      ih fun d hd => h d (mem_cons_of_mem _ hd), Nat.add_comm]

theorem utf8Size_of_isDigit {c : Char} (h : c.isDigit = true) : c.utf8Size = 1 := by
  have hle : c.val ≤ '9'.val := by
    unfold Char.isDigit at h
    simp only [ge_iff_le, Bool.and_eq_true, decide_eq_true_eq] at h
    exact h.2
  have hbound : '9'.val ≤ 127 := by decide
  exact Char.utf8Size_eq_one_iff.mpr (UInt32.le_trans hle hbound)

theorem valid_blocker {k : ℕ} (hk : k < 256) : Valid (blocker k) := by
  have htext : (blocker k).metric.toList
      = stemB ++ (Nat.toDigits 10 (k + 1) ++ ".jpg".toList) := by
    rw [← fallbackName_frameB hk]
    exact String.toList_ofList
  have hdots : ((blocker k).metric.toList).count '.' = 1 := by
    have hdigits : (Nat.toDigits 10 (k + 1)).count '.' = 0 := by
      rw [count_eq_zero]
      intro hmem
      have hdigit := Nat.isDigit_of_mem_toDigits (b := 10) (by decide) (by decide) hmem
      exact absurd hdigit (by decide)
    rw [htext, count_append, count_append, hdigits]
    decide
  have hsep : ∀ c ∈ (blocker k).metric.toList, c ≠ '/' ∧ c ≠ '\\' ∧ c ≠ '\x00' := by
    rw [htext]
    refine forall_mem_fallbackName (ByteText.forall_mem_of_all (by decide))
      (fun c hc => ?_) (ByteText.forall_mem_of_all (by decide))
    refine ⟨?_, ?_, ?_⟩
    · rintro rfl
      exact absurd hc (by decide)
    · rintro rfl
      exact absurd hc (by decide)
    · rintro rfl
      exact absurd hc (by decide)
  have hlen : ByteText.len (blocker k).metric.toList ≤ 255 := by
    have hthree : (Nat.toDigits 10 (k + 1)).length ≤ 3 :=
      (Nat.length_toDigits_le_iff (by decide) (by decide)).mpr (by omega)
    rw [len_of_small (by
      rw [htext]
      exact forall_mem_fallbackName (ByteText.forall_mem_of_all (by decide))
        (fun c => utf8Size_of_isDigit) (ByteText.forall_mem_of_all (by decide))), htext,
        length_append, length_append]
    show 37 + (_ + 4) ≤ 255
    omega
  have hmetric : validatePathComponent (blocker k).metric = .ok (blocker k).metric := by
    unfold validatePathComponent
    rw [if_neg, if_neg, if_neg, if_neg, if_neg]
    · omega
    · exact fun hmem => (hsep _ hmem).2.2 rfl
    · rintro (hmem | hmem)
      · exact (hsep _ hmem).1 rfl
      · exact (hsep _ hmem).2.1 rfl
    · -- two dots in a row would be two dots
      intro hcontains
      unfold ByteText.contains at hcontains
      have hwithin : ['.', '.'] <:+: (blocker k).metric.toList := by
        by_contra hnot
        rw [ByteText.find_eq_none.mpr hnot] at hcontains
        cases hcontains
      have hcount := hwithin.sublist.count_le '.'
      rw [hdots] at hcount
      exact absurd hcount (by decide)
    · intro hempty
      rw [hempty] at hdots
      exact absurd hdots (by decide)
  have hdevice : validatePathComponent (blocker k).deviceId = .ok "x" := by
    show validatePathComponent "x" = _
    rfl
  refine valid_of_isFirst ?_
  unfold start
  rw [hdevice, hmetric]
  rfl

theorem metricDir_blocker {k : ℕ} (hk : k < 256) :
    colliding.metricDir (blocker k)
      = colliding.path frameB (colliding.fallbackName frameB (UInt64.ofNat (k + 1))) := by
  have hname : FinalName colliding frameB
      (colliding.fallbackName frameB (UInt64.ofNat (k + 1))) := finalName_fallback _
  have hmetric : (blocker k).metric.toList
      = colliding.fallbackName frameB (UInt64.ofNat (k + 1)) := String.toList_ofList
  have hdevice : colliding.imagesDir ++ names ["x".toList] = ["images".toList, ['x']] := by
    decide
  rw [metricDir_eq (valid_blocker hk), path_eq hname.plain, hmetric, names_of_plain hname.plain,
    metricDir_frameB, ← append_assoc, ← hdevice]
  rfl

/-- The two images have been saved, the second one by its first fallback name. -/
structure Begun (s : State) : Prop where
  saved : ∃ url, s.saves[1]? = some ⟨frameB, .done (.ok url)⟩
  uniquifier : s.disk.uniquifier = 1
  primary : s.disk.fs.files (colliding.path frameB (colliding.primaryName frameB))
    = some frameA.bytes
  dirs : HasDirs colliding s.disk.fs frameB
  free : s.disk.fs.taken (colliding.path frameB ".tmp9".toList) = false
  unused : ∀ k < 256, s.disk.fs.files (colliding.metricDir (blocker k)) = none

theorem exists_begun : ∃ tr s, Run (step colliding) (init empty) tr s ∧ Begun s := by
  obtain ⟨tr, s, hrun, hsaved, hcounter, hprimary, hdirs, hfree, hunused⟩ := exists_run
    (step colliding) (init empty)
    ([.save frameA] ++ List.replicate 6 (.proceed 0 ".tmp0".toList)
      ++ [.save frameB] ++ List.replicate 9 (.proceed 1 ".tmp1".toList))
    (fun _ s => (s.saved 1 frameB).isSome = true ∧ s.disk.uniquifier = 1 ∧
      s.disk.fs.files (colliding.path frameB (colliding.primaryName frameB)) = some frameA.bytes ∧
      (∀ k : Fin 3, s.disk.fs.dirs ((colliding.metricDir frameB).take k) = true) ∧
      s.disk.fs.taken (colliding.path frameB ".tmp9".toList) = false ∧
      ∀ k : Fin 256, s.disk.fs.files ["images".toList, ['x'],
        stemB ++ (Nat.toDigits 10 (k.val + 1) ++ ['.', 'j', 'p', 'g'])] = none) (by decide +kernel)
  obtain ⟨url, hurl⟩ := Option.isSome_iff_exists.mp hsaved
  refine ⟨tr, s, hrun, ⟨url, saved_eq_some hurl⟩, hcounter, hprimary, fun k hk => ?_, hfree,
    fun k hk => ?_⟩
  · rw [metricDir_frameB] at hk
    exact hdirs ⟨k, Nat.lt_succ_of_le hk⟩
  · rw [metricDir_blocker hk, path_eq (finalName_fallback _).plain, metricDir_frameB,
      fallbackName_frameB hk]
    exact hunused ⟨k, hk⟩

/-- What the saves of the blockers change, `n` of them so far. -/
structure Blocked (s₀ : State) (n : ℕ) (s : State) : Prop where
  saves : ∃ more, s.saves = s₀.saves ++ more
  files : s.disk.fs.files = s₀.disk.fs.files
  uniquifier : s.disk.uniquifier = s₀.disk.uniquifier
  kept : ∀ l, s₀.disk.fs.dirs l = true → s.disk.fs.dirs l = true
  dirs : ∀ l, s.disk.fs.dirs l = true →
    s₀.disk.fs.dirs l = true ∨ ∃ k < 256, l <+: colliding.metricDir (blocker k)
  made : ∀ k < n, s.disk.fs.dirs (colliding.metricDir (blocker k)) = true

theorem length_metricDir_blocker {k : ℕ} (hk : k < 256) :
    (colliding.metricDir (blocker k)).length = 3 := by
  rw [metricDir_blocker hk, path_eq (finalName_fallback _).plain, metricDir_frameB]
  rfl

/-- No file is in the way of the directories of a blocker. -/
theorem Blocked.noFile {s₀ s : State} {n : ℕ} (h : Blocked s₀ n s) (hbegun : Begun s₀)
    (hn : n < 256) : ∀ k ≤ (colliding.metricDir (blocker n)).length,
      s.disk.fs.files ((colliding.metricDir (blocker n)).take k) = none := by
  intro k hk
  rw [length_metricDir_blocker hn] at hk
  rw [h.files]
  by_cases hlast : k = 3
  · rw [hlast, take_of_length_le (length_metricDir_blocker hn).le]
    exact hbegun.unused n hn
  · have htake : (colliding.metricDir (blocker n)).take k = (colliding.metricDir frameB).take k := by
      have hle : k ≤ (colliding.metricDir frameB).length := by
        rw [metricDir_frameB]
        show k ≤ 2
        omega
      rw [metricDir_blocker hn, path_eq (finalName_fallback _).plain, take_append_of_le_length hle]
    rw [htake]
    refine s₀.disk.fs.disjoint _ (hbegun.dirs k ?_)
    rw [metricDir_frameB]
    show k ≤ 2
    omega

theorem exists_blocked {s₀ : State} (hbegun : Begun s₀) :
    ∀ n ≤ 256, ∃ tr s, Run (step colliding) s₀ tr s ∧ Blocked s₀ n s := by
  intro n
  induction n with
  | zero =>
    intro _
    exact ⟨[], s₀, .nil, ⟨[], (append_nil _).symm⟩, rfl, rfl, fun _ h => h,
      fun _ h => Or.inl h, fun k hk => absurd hk (Nat.not_lt_zero k)⟩
  | succ n ih =>
    intro hn
    obtain ⟨tr, s, hrun, h⟩ := ih (by omega)
    obtain ⟨tr', s', hrun', hsaves, hmakes⟩ :=
      exists_run_makesDirs (valid_blocker hn).starts s (h.noFile hbegun hn)
    obtain ⟨more, hmore⟩ := h.saves
    refine ⟨_, s', hrun.append hrun', ?_, ?_, ?_, ?_, ?_, ?_⟩
    · exact ⟨more ++ [⟨blocker n, .stage⟩], by rw [hsaves, hmore, append_assoc]⟩
    · exact hmakes.files.trans h.files
    · exact hmakes.uniquifier.trans h.uniquifier
    · exact fun l hl => hmakes.kept l (h.kept l hl)
    · intro l hl
      rcases hmakes.dirs l hl with hl | hl
      · exact h.dirs l hl
      · exact Or.inr ⟨n, hn, hl⟩
    · intro k hk
      by_cases heq : k = n
      · rw [heq]
        obtain ⟨-, hdirs⟩ | ⟨_, hpc, -⟩ := hmakes.phase
        · have hfull := hdirs _ (le_refl _)
          rwa [take_length] at hfull
        · cases hpc
      · exact hmakes.kept _ (h.made k (by omega))

/-- An image that was saved is refused when it is saved again: directories have its fallback
names. -/
theorem repeat_refused :
    ¬ ∀ (env : Env) (fs : FileSystem) (tr : List (State × Action)) (s : State)
        (tr' : List (State × Action)) (s' : State) (i j : ℕ) (r : SaveRequest) (url : String)
        (result : Except ImageStorageError String),
      Run (step env) (init fs) tr s → s.saves[i]? = some ⟨r, .done (.ok url)⟩ →
        Run (step env) s tr' s' → s.saves.length ≤ j → s'.saves[j]? = some ⟨r, .done result⟩ →
          ∃ url', result = .ok url' := by
  intro hclaim
  obtain ⟨tr₀, s₀, hrun₀, hbegun⟩ := exists_begun
  obtain ⟨tr₁, s₁, hrun₁, h⟩ := exists_blocked hbegun 256 (le_refl _)
  obtain ⟨url, hurl⟩ := hbegun.saved
  have htemp : IsTempName ".tmp9".toList := by decide
  have hfree : s₁.disk.fs.taken (colliding.path frameB ".tmp9".toList) = false := by
    have hfree₀ := FileSystem.taken_eq_false.mp hbegun.free
    rw [FileSystem.taken_eq_false, h.files]
    refine ⟨?_, hfree₀.2⟩
    by_contra hdir
    rcases h.dirs _ ((Bool.not_eq_false _).mp hdir) with hdir | ⟨k, hk, hfront⟩
    · rw [hfree₀.1] at hdir
      cases hdir
    · -- a directory of a blocker is no temporary file
      have hname : FinalName colliding frameB
          (colliding.fallbackName frameB (UInt64.ofNat (k + 1))) := finalName_fallback _
      have heq := hfront.eq_of_length (by
        rw [length_metricDir_blocker hk, path_eq htemp.plain, metricDir_frameB]
        rfl)
      rw [metricDir_blocker hk] at heq
      exact not_isTemp_path hname (heq ▸ isTemp_path htemp)
  have hprimary : s₁.disk.fs.files (colliding.path frameB (colliding.primaryName frameB))
      = some frameA.bytes := by
    rw [h.files]
    exact hbegun.primary
  obtain ⟨tr₂, s₂, e, hrun₂, hsaves₂⟩ := exists_run_fails valid_frameB
    (fun k hk => h.kept _ (hbegun.dirs k hk)) htemp hfree
    (by
      refine ⟨?_, by rw [hprimary]; decide⟩
      unfold FileSystem.taken
      rw [hprimary, Option.isSome_some, Bool.or_true])
    (by
      intro k hk
      have hcounter : s₁.disk.uniquifier + UInt64.ofNat k = UInt64.ofNat (k + 1) := by
        rw [h.uniquifier, hbegun.uniquifier, UInt64.add_comm, UInt64.ofNat_add]
        rfl
      have hdir := h.made k hk
      rw [metricDir_blocker hk] at hdir
      rw [hcounter]
      refine ⟨?_, by rw [s₁.disk.fs.disjoint _ hdir]; exact fun heq => nomatch heq⟩
      unfold FileSystem.taken
      rw [hdir, Bool.true_or])
  have hlen : s₀.saves.length ≤ s₁.saves.length := by
    obtain ⟨more, hmore⟩ := h.saves
    rw [hmore, length_append]
    exact Nat.le_add_right _ _
  obtain ⟨url', hok⟩ := hclaim colliding empty tr₀ s₀ _ s₂ 1 s₁.saves.length frameB url
    (.error e) hrun₀ hurl (hrun₁.append hrun₂) hlen
    (by rw [hsaves₂, getElem?_concat_length])
  cases hok

end HeraMind.Devices.ImageStorage
