/-
# A stored image is what its URL serves

An image that was saved is read back by its URL in every later state.  A save of the same request
comes to an end: it gives a URL that serves the same bytes, unless the primary name and all fallback
names that it tries are taken by something else; where the primary name has the image already, it
gives its URL and leaves all files as they are.
-/
import Mathlib.Data.List.Nodup
import HeraMind.Devices.ImageRuns

namespace HeraMind.Devices.ImageStorage

open List Option Function
open Transition UnixPath

variable {env : Env} {r : SaveRequest} {fs : FileSystem} {d d' : Disk} {pc pc' : Pc}
  {pick : List Char} {url : String}

/-- The numbers that a step of a save draws from the shared counter. -/
def Pc.draws (d : Disk) : Pc → List UInt64
  | .next _ (_ + 1) => [d.uniquifier]
  | _ => []

/-- The numbers that save `j` draws in a run, the last one first. -/
def drawn (j : ℕ) (tr : List (State × Action)) : List UInt64 :=
  tr.flatMap fun
    | (s, .proceed i _) => if i = j then s.saves[j]?.elim [] fun c => c.pc.draws s.disk else []
    | (_, .save _) => []

/-- The primary name and the fallback names of the numbers are taken by something else than the
bytes of the request. -/
def Tried (env : Env) (fs : FileSystem) (r : SaveRequest) (ns : List UInt64) : Prop :=
  PrimaryRefused env fs r ∧ ∀ n ∈ ns, Refused fs (env.path r (env.fallbackName r n)) r.bytes

/-- The primary name and all 256 fallback names that a save tries are taken by something else. -/
def Exhausted (env : Env) (fs : FileSystem) (r : SaveRequest) (ns : List UInt64) : Prop :=
  Tried env fs r ns ∧ ns.length = 256

/-- A bound for the steps that a save still takes. -/
def rank (env : Env) (r : SaveRequest) : Pc → ℕ
  | .mkdir made => 774 + ((env.metricDir r).length - made)
  | .stage => 773
  | .write _ => 772
  | .primary _ => 771
  | .compare _ => 770
  | .next _ left => 3 * left + 1
  | .fallback _ _ left => 3 * left + 3
  | .compareFallback _ _ left => 3 * left + 2
  | .done _ => 0

/-- Whether a save has ended. -/
def Pc.ended : Pc → Bool
  | .done _ => true
  | _ => false

/-- The URL of a request's image serves its bytes, if they are an image of bounded size. -/
def Serves (env : Env) (fs : FileSystem) (r : SaveRequest) (url : String) : Prop :=
  detectExtension r.bytes ≠ "bin" → r.bytes.length ≤ maxInternalImageBytes →
    readInternalImageUrl env fs url = .ok (r.bytes, detectMimeFromBytes r.bytes)

/-! ## Reading what was saved -/

theorem HasDirs.imagesDir (hvalid : Valid r) (h : HasDirs env fs r) :
    fs.dirs env.imagesDir = true := by
  have hdir := @metricDir_eq env r hvalid
  have hle : env.imagesDir.length ≤ (env.metricDir r).length := by
    rw [hdir, length_append]
    exact Nat.le_add_right _ _
  have htake : (env.metricDir r).take env.imagesDir.length = env.imagesDir := by
    rw [hdir]
    exact take_left
  have hdirs := h _ hle
  rwa [htake] at hdirs

theorem Holds.serves (h : Holds env fs r (.done (.ok url))) : Serves env fs r url := by
  obtain ⟨hvalid, hdirs, name, hname, rfl, hfile, -⟩ := h
  exact fun hformat hsize =>
    readInternalImageUrl_eq hvalid hname.plain (hdirs.imagesDir hvalid) hfile hformat hsize

/-! ## Saving once more -/

theorem files_of_dirs {l : Location} (h : fs.dirs l = true) : fs.createDir l ≠ none := by
  intro hnone
  exact FileSystem.createDir_eq_none.mp hnone (fs.disjoint l h)

theorem Frame.tried {own : Option Location} {fs fs' : FileSystem} {ns : List UInt64}
    (hframe : Frame own fs fs') (h : Tried env fs r ns) : Tried env fs' r ns :=
  ⟨hframe.refused finalName_primary h.1, fun n hn =>
    hframe.refused (finalName_fallback n) (h.2 n hn)⟩

/-- What the numbers that a save has drawn are at each of its steps, where the directories are
there. -/
def Progress (env : Env) (fs : FileSystem) (r : SaveRequest) (ns : List UInt64) : Pc → Prop
  | .next _ left => Tried env fs r ns ∧ ns.length + left = 256
  | .fallback _ n left | .compareFallback _ n left =>
    ∃ ns', ns = n :: ns' ∧ Tried env fs r ns' ∧ ns'.length + (left + 1) = 256
  | .done (.ok _) => True
  | .done (.error _) => Exhausted env fs r ns
  | _ => ns = []

theorem Frame.progress {own : Option Location} {fs fs' : FileSystem} {ns : List UInt64}
    (hframe : Frame own fs fs') (h : Progress env fs r ns pc) : Progress env fs' r ns pc := by
  cases pc with
  | next tmp left => exact ⟨hframe.tried h.1, h.2⟩
  | fallback tmp n left | compareFallback tmp n left =>
    obtain ⟨ns', hns, htried, hlen⟩ := h
    exact ⟨ns', hns, hframe.tried htried, hlen⟩
  | mkdir made | stage | write tmp | primary tmp | compare tmp => exact h
  | done result =>
    cases result with
    | ok url => trivial
    | error e => exact ⟨hframe.tried h.1, h.2⟩

/-- Each number that a save draws is that of a fallback name it finds taken, before it draws the
next one or fails. -/
theorem progress_of_proceed {ns : List UInt64} (h : Holds env d.fs r pc)
    (hdirs : HasDirs env d.fs r) (hprogress : Progress env d.fs r ns pc)
    (hstep : proceed env r pick d pc = some (d', pc')) :
    Progress env d'.fs r (pc.draws d ++ ns) pc' := by
  have hframe := (proceed_spec h hstep).frame
  cases pc with
  | mkdir made =>
    rw [proceed] at hstep
    split at hstep
    · by_cases hlt : made < (env.metricDir r).length
      · rw [if_pos hlt] at hstep
        cases hstep
        exact hprogress
      · rw [if_neg hlt] at hstep
        cases hstep
        exact hprogress
    · rename_i hnone
      exact absurd hnone (files_of_dirs (hdirs made h.2.1))
  | stage =>
    rw [proceed] at hstep
    split at hstep
    · obtain ⟨fs, -, heq⟩ := map_eq_some_iff.mp hstep
      cases heq
      exact hprogress
    · cases hstep
  | write tmp =>
    obtain ⟨fs, -, heq⟩ := map_eq_some_iff.mp hstep
    cases heq
    exact hprogress
  | primary tmp =>
    rw [proceed] at hstep
    split at hstep
    · cases hstep
      trivial
    · cases hstep
      exact hprogress
  | compare tmp =>
    rw [proceed] at hstep
    split at hstep
    · cases hstep
      trivial
    · rename_i hmatch
      cases hstep
      have hnil : ns = [] := hprogress
      rw [hnil]
      exact ⟨⟨refused_of_not_matches h.2 hmatch, fun _ hn => absurd hn not_mem_nil⟩, rfl⟩
  | next tmp left =>
    cases left with
    | zero =>
      cases hstep
      exact ⟨hframe.tried hprogress.1, hprogress.2⟩
    | succ left =>
      cases hstep
      exact ⟨ns, rfl, hprogress⟩
  | fallback tmp n left =>
    rw [proceed] at hstep
    split at hstep
    · cases hstep
      trivial
    · cases hstep
      exact hprogress
  | compareFallback tmp n left =>
    rw [proceed] at hstep
    split at hstep
    · cases hstep
      trivial
    · rename_i hmatch
      cases hstep
      obtain ⟨ns', rfl, htried, hlen⟩ := hprogress
      refine ⟨⟨htried.1, fun m hm => ?_⟩, ?_⟩
      · rcases mem_cons.mp hm with rfl | hm
        · exact refused_of_not_matches h.2.1 hmatch
        · exact htried.2 m hm
      · show ns'.length + 1 + left = 256
        omega
  | done result => cases hstep

/-- Where the primary name has the image, a step changes temporary files only. -/
theorem files_of_proceed (h : Holds env d.fs r pc)
    (hprimary : d.fs.files (env.path r (env.primaryName r)) = some r.bytes)
    (hstep : proceed env r pick d pc = some (d', pc')) {l : Location} (hl : ¬ IsTemp l) :
    d'.fs.files l = d.fs.files l := by
  have hne : ∀ t, IsTempName t → l ≠ env.path r t := fun t ht heq => hl (heq ▸ isTemp_path ht)
  cases pc with
  | mkdir made =>
    rw [proceed] at hstep
    split at hstep
    · rename_i hmake
      cases hstep
      rw [FileSystem.files_createDir hmake]
    · cases hstep
      rfl
  | stage =>
    rw [proceed] at hstep
    split at hstep
    · rename_i hpick
      obtain ⟨fs, hwrite, heq⟩ := map_eq_some_iff.mp hstep
      cases heq
      rw [FileSystem.files_writeFile hwrite, update_of_ne (hne pick hpick.1)]
    · cases hstep
  | write tmp =>
    obtain ⟨content, -, -, htmp, -⟩ := h
    rw [proceed] at hstep
    obtain ⟨fs, hwrite, heq⟩ := map_eq_some_iff.mp hstep
    cases heq
    rw [FileSystem.files_writeFile hwrite, update_of_ne (hne tmp htmp)]
  | primary tmp =>
    have htaken : d.fs.taken (env.path r (env.primaryName r)) = true := by
      unfold FileSystem.taken
      rw [hprimary, isSome_some, Bool.or_true]
    rw [proceed, (FileSystem.renameNoReplace_eq_none h.2.2.2).mpr htaken] at hstep
    cases hstep
    rfl
  | compare tmp =>
    rw [proceed] at hstep
    split at hstep
    · cases hstep
      exact update_of_ne (hne tmp h.1.2.2.1) _ _
    · cases hstep
      rfl
  | next tmp left | fallback tmp n left =>
    exact absurd hprimary h.2.2
  | compareFallback tmp n left =>
    exact absurd hprimary h.2.2.2
  | done result => cases hstep

/-- A save that has not ended goes on, whatever free name is picked for its temporary file. -/
theorem exists_proceed (h : Holds env d.fs r pc) (hpc : pc.ended = false)
    (hpick : IsTempName pick) (hfree : d.fs.taken (env.path r pick) = false) :
    ∃ d' pc', proceed env r pick d pc = some (d', pc') ∧ rank env r pc' < rank env r pc := by
  cases pc with
  | mkdir made =>
    rw [proceed]
    split
    · refine ⟨_, _, rfl, ?_⟩
      by_cases hlt : made < (env.metricDir r).length
      · rw [if_pos hlt]
        show 774 + _ < 774 + _
        omega
      · rw [if_neg hlt]
        show 773 < 774 + _
        omega
    · refine ⟨_, _, rfl, ?_⟩
      show 0 < 774 + _
      omega
  | stage =>
    rw [proceed, if_pos ⟨hpick, hfree⟩]
    have hdir := (FileSystem.taken_eq_false.mp hfree).1
    cases hwrite : d.fs.writeFile (env.path r pick) [] with
    | none =>
      rw [FileSystem.writeFile_eq_none, hdir] at hwrite
      cases hwrite
    | some fs => exact ⟨_, _, rfl, Nat.lt_succ_self 772⟩
  | write tmp =>
    obtain ⟨content, -, -, -, hfile⟩ := h
    rw [proceed]
    cases hwrite : d.fs.writeFile (env.path r tmp) r.bytes with
    | none =>
      rw [FileSystem.writeFile_eq_none] at hwrite
      rw [d.fs.disjoint _ hwrite] at hfile
      cases hfile
    | some fs => exact ⟨_, _, rfl, Nat.lt_succ_self 771⟩
  | primary tmp =>
    rw [proceed]
    split
    · exact ⟨_, _, rfl, Nat.succ_pos 770⟩
    · exact ⟨_, _, rfl, Nat.lt_succ_self 770⟩
  | compare tmp =>
    rw [proceed]
    split
    · exact ⟨_, _, rfl, Nat.succ_pos 769⟩
    · exact ⟨_, _, rfl, Nat.lt_succ_self 769⟩
  | next tmp left =>
    cases left with
    | zero => exact ⟨_, _, rfl, Nat.succ_pos 0⟩
    | succ left => exact ⟨_, _, rfl, Nat.lt_succ_self (3 * left + 3)⟩
  | fallback tmp n left =>
    rw [proceed]
    split
    · exact ⟨_, _, rfl, Nat.succ_pos _⟩
    · exact ⟨_, _, rfl, Nat.lt_succ_self (3 * left + 2)⟩
  | compareFallback tmp n left =>
    rw [proceed]
    split
    · exact ⟨_, _, rfl, Nat.succ_pos _⟩
    · exact ⟨_, _, rfl, Nat.lt_succ_self (3 * left + 1)⟩
  | done result => cases hpc

/-- A save that ends leaves no temporary file. -/
theorem dropped_of_proceed {t : List Char} {result : Except ImageStorageError String}
    (h : Holds env d.fs r pc) (ht : pc.tmpName = some t)
    (hstep : proceed env r pick d pc = some (d', .done result)) :
    d'.fs.files (env.path r t) = none := by
  have hrename : ∀ {tmp name fs'}, Staged env d.fs r tmp r.bytes → FinalName env r name →
      d.fs.renameNoReplace (env.path r tmp) (env.path r name) = some fs' →
        fs'.files (env.path r tmp) = none := by
    intro tmp name fs' hstaged hname hrename
    obtain ⟨bytes, -, -, -, hfiles⟩ := FileSystem.of_renameNoReplace hrename
    have hne : env.path r tmp ≠ env.path r name := fun heq =>
      not_isTemp_path hname (heq ▸ isTemp_path hstaged.2.2.1)
    rw [hfiles, update_of_ne hne, update_self]
  cases pc with
  | mkdir made | stage => cases ht
  | write tmp =>
    rw [proceed] at hstep
    obtain ⟨fs, -, heq⟩ := map_eq_some_iff.mp hstep
    cases heq
  | primary tmp =>
    cases ht
    rw [proceed] at hstep
    split at hstep
    · rename_i hsome
      cases hstep
      exact hrename h finalName_primary hsome
    · cases hstep
  | compare tmp =>
    cases ht
    rw [proceed] at hstep
    split at hstep
    · cases hstep
      exact update_self ..
    · cases hstep
  | next tmp left =>
    cases ht
    cases left with
    | zero =>
      cases hstep
      exact update_self ..
    | succ left => cases hstep
  | fallback tmp n left =>
    cases ht
    rw [proceed] at hstep
    split at hstep
    · rename_i hsome
      cases hstep
      exact hrename h.1 (finalName_fallback n) hsome
    · cases hstep
  | compareFallback tmp n left =>
    cases ht
    rw [proceed] at hstep
    split at hstep
    · cases hstep
      exact update_self ..
    · cases hstep
  | done result => cases ht

/-! ## Runs -/

/-- What a save of a request does in a run after the same request was saved before. -/
structure Repeats (env : Env) (tr : List (State × Action)) (s : State) (r : SaveRequest)
    (url : String) (j : ℕ) (pc : Pc) : Prop where
  /-- It comes to an end. -/
  goesOn : pc.ended = false → ∀ pick, IsTempName pick →
    s.disk.fs.taken (env.path r pick) = false → ∃ s' pc', step env s (.proceed j pick) = some s' ∧
      s'.saves[j]? = some ⟨r, pc'⟩ ∧ rank env r pc' < rank env r pc
  /-- Its URL serves the same bytes. -/
  serves : ∀ url', pc = .done (.ok url') → Serves env s.disk.fs r url'
  /-- It fails only if all names it tries are taken by something else. -/
  fails : ∀ e, pc = .done (.error e) → Exhausted env s.disk.fs r (drawn j tr)
  /-- The numbers of these names are different, unless the counter has gone round meanwhile. -/
  distinct : tr.length ≤ 2 ^ 64 → (drawn j tr).Nodup
  /-- It leaves no temporary file. -/
  dropped : ∀ pick s' t result, step env s (.proceed j pick) = some s' → pc.tmpName = some t →
    s'.saves[j]? = some ⟨r, .done result⟩ → s'.disk.fs.files (env.path r t) = none
  /-- Where the first took the primary name, it gives the same URL, and no other files change. -/
  primary : url = r.url (env.primaryName r) →
    (∀ result, pc = .done result → result = .ok url) ∧
      ∀ pick s', step env s (.proceed j pick) = some s' → ∀ l, ¬ IsTemp l →
        s'.disk.fs.files l = s.disk.fs.files l

theorem done_stays {s s' : State} {tr : List (State × Action)} {i : ℕ} {c : Save}
    (hc : c.pc.ended = true) (hi : s.saves[i]? = some c) (hrun : Run (step env) s tr s') :
    s'.saves[i]? = some c := by
  refine hrun.invariant' (I := fun s => s.saves[i]? = some c) hi fun s a s' hi hstep => ?_
  rcases step_cases hstep with ⟨r, -, rfl⟩ | ⟨j, pick, r, pc, d', pc', -, hj, hproceed, rfl⟩
  · exact Calls.getElem?_append_of_some hi _
  · refine Calls.getElem?_set_of_ne hi ?_ _
    rintro rfl
    rw [hi] at hj
    cases hj
    cases pc with
    | done result => cases hproceed
    | mkdir made | stage | write tmp | primary tmp | compare tmp | next tmp left
    | fallback tmp n left | compareFallback tmp n left => cases hc

theorem drawn_proceed {s : State} {tr : List (State × Action)} {i : ℕ}
    (hi : s.saves[i]? = some ⟨r, pc⟩) (j : ℕ) :
    drawn j ((s, .proceed i pick) :: tr) =
      (if i = j then pc.draws s.disk else []) ++ drawn j tr := by
  show (if i = j then s.saves[j]?.elim [] _ else []) ++ drawn j tr = _
  by_cases hij : i = j
  · subst hij
    rw [if_pos rfl, if_pos rfl, hi]
    rfl
  · rw [if_neg hij, if_neg hij]

/-- What holds in a run after a request was saved: its directories stay, and the numbers that the
later saves of it have drawn are known. -/
structure Repeating (env : Env) (r : SaveRequest) (s : State) (tr : List (State × Action))
    (s' : State) : Prop where
  inv : Inv env s'
  dirs : HasDirs env s'.disk.fs r
  fresh : ∀ j, s'.saves[j]? = none → drawn j tr = []
  progress : ∀ j pc, s.saves.length ≤ j → s'.saves[j]? = some ⟨r, pc⟩ →
    Progress env s'.disk.fs r (drawn j tr) pc

theorem repeating_of_run {s s' : State} {tr : List (State × Action)} {i : ℕ} (hinv : Inv env s)
    (hi : s.saves[i]? = some ⟨r, .done (.ok url)⟩) (hrun : Run (step env) s tr s') :
    Repeating env r s tr s' := by
  have hvalid : Valid r := (hinv.holds i _ hi).1
  refine hrun.traceInvariant (G := fun _ _ => True) (fun _ _ => trivial)
    ⟨hinv, (hinv.holds i _ hi).2.1, fun _ _ => rfl, fun j pc hj hpc => ?_⟩ ?_
  · rw [getElem?_eq_none hj] at hpc
    cases hpc
  intro tr s₁ a s₂ _ h _ hstep
  have hinv₂ := h.inv.step hstep
  rcases step_cases hstep with ⟨r', rfl, rfl⟩ | ⟨k, pick, r', pc, d', pc', rfl, hk, hproceed, rfl⟩
  · have hfresh : ∀ j, s₁.saves[j]? = none → drawn j ((s₁, .save r') :: tr) = [] := h.fresh
    refine ⟨hinv₂, h.dirs, fun j hj => hfresh j ?_, fun j pc hj hsome => ?_⟩
    · rw [List.getElem?_eq_none_iff] at hj ⊢
      rw [length_append] at hj
      omega
    · rcases Calls.getElem?_append_cases hsome with ⟨rfl, heq⟩ | hsome
      · obtain ⟨rfl, rfl⟩ := Save.mk.inj heq
        rw [hvalid.starts]
        exact hfresh _ (getElem?_eq_none (le_refl _))
      · exact h.progress j pc hj hsome
  · have hspec := proceed_spec (h.inv.holds k _ hk) hproceed
    have hother : ∀ j, j ≠ k → drawn j ((s₁, .proceed k pick) :: tr) = drawn j tr := by
      intro j hjk
      rw [drawn_proceed hk, if_neg (Ne.symm hjk), nil_append]
    have hself : drawn k ((s₁, .proceed k pick) :: tr) = pc.draws s₁.disk ++ drawn k tr := by
      rw [drawn_proceed hk, if_pos rfl]
    refine ⟨hinv₂, hspec.frame.hasDirs h.dirs, fun j hj => ?_, fun j pc'' hj hsome => ?_⟩
    · rw [List.getElem?_eq_none_iff, length_set, ← List.getElem?_eq_none_iff] at hj
      rw [hother j (by rintro rfl; rw [hk] at hj; cases hj)]
      exact h.fresh j hj
    · rcases Calls.getElem?_set_cases hsome with ⟨rfl, heq⟩ | ⟨hjk, hsome⟩
      · obtain ⟨rfl, rfl⟩ := Save.mk.inj heq
        rw [hself]
        exact progress_of_proceed (h.inv.holds _ _ hk) h.dirs (h.progress _ _ hj hk) hproceed
      · rw [hother j hjk]
        exact hspec.frame.progress (h.progress j pc'' hj hsome)

/-- A step that draws a number draws the counter, which then goes on. -/
theorem uniquifier_of_proceed (h : proceed env r pick d pc = some (d', pc')) :
    pc.draws d = [] ∧ d'.uniquifier = d.uniquifier ∨
      pc.draws d = [d.uniquifier] ∧ d'.uniquifier = d.uniquifier + 1 := by
  cases pc with
  | next tmp left =>
    cases left with
    | zero =>
      cases h
      exact Or.inl ⟨rfl, rfl⟩
    | succ left =>
      cases h
      exact Or.inr ⟨rfl, rfl⟩
  | mkdir made | primary tmp | compare tmp | fallback tmp n left | compareFallback tmp n left =>
    rw [proceed] at h
    split at h <;> cases h <;> exact Or.inl ⟨rfl, rfl⟩
  | stage =>
    rw [proceed] at h
    split at h
    · obtain ⟨fs, -, heq⟩ := map_eq_some_iff.mp h
      cases heq
      exact Or.inl ⟨rfl, rfl⟩
    · cases h
  | write tmp =>
    obtain ⟨fs, -, heq⟩ := map_eq_some_iff.mp h
    cases heq
    exact Or.inl ⟨rfl, rfl⟩
  | done result => cases h

/-- A save draws no number twice, unless the counter has gone round. -/
theorem nodup_drawn {s s' : State} {tr : List (State × Action)} (hrun : Run (step env) s tr s')
    (j : ℕ) (hlen : tr.length ≤ 2 ^ 64) : (drawn j tr).Nodup := by
  -- the counter has gone on by `m`, and the numbers are some of those before
  obtain ⟨m, hm, -, ks, hdrawn, hnodup, hlt⟩ : ∃ m ≤ tr.length,
      s'.disk.uniquifier = s.disk.uniquifier + UInt64.ofNat m ∧ ∃ ks : List ℕ,
        drawn j tr = ks.map (fun k => s.disk.uniquifier + UInt64.ofNat k) ∧ ks.Nodup ∧
          ∀ k ∈ ks, k < m := by
    refine hrun.traceInvariant (G := fun _ _ => True) (I := fun tr s' => ∃ m ≤ tr.length,
      s'.disk.uniquifier = s.disk.uniquifier + UInt64.ofNat m ∧ ∃ ks : List ℕ,
        drawn j tr = ks.map (fun k => s.disk.uniquifier + UInt64.ofNat k) ∧ ks.Nodup ∧
          ∀ k ∈ ks, k < m) (fun _ _ => trivial)
      ⟨0, le_refl _, (UInt64.add_zero _).symm, [], rfl, nodup_nil, nofun⟩ ?_
    rintro tr s₁ a s₂ _ ⟨m, hm, hcounter, ks, hdrawn, hnodup, hlt⟩ _ hstep
    rcases step_cases hstep with ⟨r, rfl, rfl⟩ | ⟨i, pick, r, pc, d', pc', rfl, hi, hproceed, rfl⟩
    · exact ⟨m, Nat.le_succ_of_le hm, hcounter, ks, hdrawn, hnodup, hlt⟩
    rw [drawn_proceed hi]
    rcases uniquifier_of_proceed hproceed with ⟨hnone, hsame⟩ | ⟨hone, hnext⟩
    · rw [hnone, ite_self]
      exact ⟨m, Nat.le_succ_of_le hm, hsame.trans hcounter, ks, hdrawn, hnodup, hlt⟩
    have hnext' : d'.uniquifier = s.disk.uniquifier + UInt64.ofNat (m + 1) := by
      rw [hnext, hcounter, UInt64.add_assoc, UInt64.ofNat_add]
      rfl
    have hlt' : ∀ k ∈ ks, k < m + 1 := fun k hk => Nat.lt_succ_of_lt (hlt k hk)
    by_cases hij : i = j
    · rw [if_pos hij, hone, hcounter, hdrawn]
      exact ⟨m + 1, Nat.succ_le_succ hm, hnext', m :: ks, rfl,
        nodup_cons.mpr ⟨fun hmem => lt_irrefl m (hlt m hmem), hnodup⟩,
        forall_mem_cons.mpr ⟨Nat.lt_succ_self m, hlt'⟩⟩
    · rw [if_neg hij]
      exact ⟨m + 1, Nat.succ_le_succ hm, hnext', ks, hdrawn, hnodup, hlt'⟩
  rw [hdrawn]
  refine hnodup.map_on fun k hk k' hk' heq => ?_
  have hcancel := congrArg UInt64.toNat ((UInt64.add_right_inj _).mp heq)
  have hk := hlt k hk
  have hk' := hlt k' hk'
  rwa [UInt64.toNat_ofNat_of_lt' (by show k < 2 ^ 64; omega),
    UInt64.toNat_ofNat_of_lt' (by show k' < 2 ^ 64; omega)] at hcancel

/-- Where the first save took the primary name, its image is there. -/
theorem primary_of_holds (h : Holds env fs r (.done (.ok url)))
    (hurl : url = r.url (env.primaryName r)) :
    fs.files (env.path r (env.primaryName r)) = some r.bytes := by
  obtain ⟨-, -, name, -, rfl, hfile, -⟩ := h
  rwa [url_injective hurl] at hfile

/-- A stored image is what its URL serves, and a save of the same request serves the same bytes,
unless all names it tries are taken by something else. -/
theorem stored_forever {s s' : State} {tr tr' : List (State × Action)} {i : ℕ}
    (hrun : Run (step env) (init fs) tr s) (hi : s.saves[i]? = some ⟨r, .done (.ok url)⟩)
    (hrun' : Run (step env) s tr' s') :
    Serves env s'.disk.fs r url ∧
      ∀ j pc, s.saves.length ≤ j → s'.saves[j]? = some ⟨r, pc⟩ → Repeats env tr' s' r url j pc := by
  have hinv := inv_of_run hrun
  have hinv' := inv_of_run (hrun.append hrun')
  have hfirst : Holds env s'.disk.fs r (.done (.ok url)) :=
    hinv'.holds i _ (done_stays rfl hi hrun')
  refine ⟨hfirst.serves, fun j pc hj hpc => ?_⟩
  have hholds : Holds env s'.disk.fs r pc := hinv'.holds j _ hpc
  have hfails : ∀ e, pc = .done (.error e) → Exhausted env s'.disk.fs r (drawn j tr') := by
    rintro e rfl
    exact (repeating_of_run hinv hi hrun').progress j _ hj hpc
  have hproceed : ∀ {pick s''}, step env s' (.proceed j pick) = some s'' →
      ∃ d' pc', proceed env r pick s'.disk pc = some (d', pc') ∧
        s'' = ⟨d', s'.saves.set j ⟨r, pc'⟩⟩ := by
    intro pick s'' hstep
    rw [step, hpc] at hstep
    obtain ⟨⟨d', pc'⟩, hproceed, rfl⟩ := map_eq_some_iff.mp hstep
    exact ⟨d', pc', hproceed, rfl⟩
  constructor
  · intro hended pick hpick hfree
    obtain ⟨d', pc', hproceed, hrank⟩ := exists_proceed hholds hended hpick hfree
    refine ⟨⟨d', s'.saves.set j ⟨r, pc'⟩⟩, pc', ?_, Calls.getElem?_set_self hpc _, hrank⟩
    rw [step, hpc]
    dsimp only
    rw [hproceed]
    rfl
  · rintro url' rfl
    exact hholds.serves
  · exact hfails
  · exact nodup_drawn hrun' j
  · intro pick s'' t result hstep ht hdone
    obtain ⟨d', pc', hproceed, rfl⟩ := hproceed hstep
    have hpc' : pc' = .done result := by
      rw [Calls.getElem?_set_self hpc] at hdone
      cases hdone
      rfl
    rw [hpc'] at hproceed
    exact dropped_of_proceed hholds ht hproceed
  · intro hurl
    have hprimary := primary_of_holds hfirst hurl
    constructor
    · rintro (e | url') rfl
      · exact absurd hprimary (hfails e rfl).1.1.2
      · obtain ⟨-, -, name, -, rfl, -, rfl | hrefused⟩ := hholds
        · rw [hurl]
        · exact absurd hprimary hrefused.2
    · intro pick s'' hstep l hl
      obtain ⟨d', pc', hproceed, rfl⟩ := hproceed hstep
      exact files_of_proceed hholds hprimary hproceed hl

/-! ## An image saved twice -/

/-- An environment in which all images have one content id. -/
def colliding : Env := ⟨fun _ => 0, []⟩

theorem disjoint_empty : ∀ _ : Location, false = true → (none : Option (List UInt8)) = none :=
  fun _ _ => rfl

/-- A file system without files and directories. -/
def empty : FileSystem := ⟨fun _ => none, fun _ => false, disjoint_empty⟩

/-- An image of a device whose name is a dot. -/
def frameA : SaveRequest := ⟨".", "x", 100, [0xFF, 0xD8, 0xFF, 0xE0, 0xAA]⟩

/-- The URL that a save has given, if it is one of the request. -/
def State.saved (s : State) (i : ℕ) (r : SaveRequest) : Option String :=
  match s.saves[i]? with
  | some ⟨r', .done (.ok url)⟩ => if r' = r then some url else none
  | _ => none

theorem saved_eq_some {s : State} {i : ℕ} {r : SaveRequest} {url : String}
    (h : s.saved i r = some url) : s.saves[i]? = some ⟨r, .done (.ok url)⟩ := by
  unfold State.saved at h
  split at h
  · rename_i r' url' hi
    split at h
    · rename_i hr
      cases h
      rw [hi, hr]
    · cases h
  · cases h

theorem stored_frame :
    ∃ tr s tr' s' url, Run (step colliding) (init empty) tr s ∧ s.saved 0 frameA = some url ∧
      Run (step colliding) s tr' s' ∧ s'.saved 1 frameA = some url ∧
        readInternalImageUrl colliding s'.disk.fs url = .ok (frameA.bytes, "image/jpeg") := by
  obtain ⟨tr, s, hrun, hsaved, hsecond⟩ := exists_run (step colliding) (init empty)
    ([.save frameA] ++ List.replicate 6 (.proceed 0 ".tmp0".toList))
    (fun _ s => s.saved 0 frameA = some (frameA.url (colliding.primaryName frameA)) ∧
      (replay (step colliding) s
        ([.save frameA] ++ List.replicate 7 (.proceed 1 ".tmp1".toList))).any (fun run' =>
          decide (run'.2.saved 1 frameA = some (frameA.url (colliding.primaryName frameA)))) = true)
    (by decide +kernel)
  obtain ⟨tr', s', hrun', hsaved'⟩ := exists_run (step colliding) s _
    (fun _ s' => s'.saved 1 frameA = some (frameA.url (colliding.primaryName frameA))) hsecond
  obtain ⟨hserves, -⟩ := stored_forever hrun (saved_eq_some hsaved) hrun'
  exact ⟨tr, s, tr', s', _, hrun, hsaved, hrun', hsaved', hserves (by decide) (by decide)⟩

end HeraMind.Devices.ImageStorage
