/-
# How a chain is read

A chain of calls is cut at its `&&`s and nowhere else, and each part is read as its call, exactly
when the parts are kept and no escaped `&` touches a separator.
-/
import HeraMind.Agent.ShellParts

namespace HeraMind.Agent.Shell

open List
open HeraMind.Rules (isWhitespace)

variable {c : Char} {t u a b : Text} {argv : Argv} {argvs : List Argv} {i : Invocation}
  {p : Part} {ps : List Part} {w : Word}

/-! ## Texts without pipes -/

/-- A text without a pipe and a redirection is read as it is. -/
theorem read_eq (hpipe : '|' ∉ t) (hmerge : ¬ "2>&1".toList <:+ trim t) :
    read t = if trim t = [] then .rejected else readBase (trim t) := by
  have htrim : '|' ∉ trim t := fun hmem => hpipe ((trim_isInfix t).subset hmem)
  have hnone : Pieces.splitOnce ['|'] (trim t) = none :=
    Pieces.splitOnce_eq_none.mpr fun hocc => htrim ((singleton_infix_iff _ _).mp hocc)
  have hkept : splitMerge (trim t) = (trim t, false) := by
    unfold splitMerge stripSuffix
    rw [if_neg hmerge]
  have hidem : trim (trim t) = trim t := ByteText.trim_trim isWhitespace t
  unfold read splitTruncationPipeline splitPipe
  rw [hnone]
  simp only [hkept]
  by_cases hnil : trim t = []
  · rw [if_pos hnil, if_pos hnil]
  · rw [if_neg hnil, if_neg hnil]
    simp only [truncationStages, Option.map_some, hidem]

theorem callOf_trim (t : Text) : callOf (trim t) = callOf t := by
  unfold callOf read
  rw [show trim (trim t) = trim t from ByteText.trim_trim isWhitespace t]

/-- A text that is not cut is read as a call when it is one. -/
theorem callOf_eq_some (hpipe : '|' ∉ t) (hsemi : ';' ∉ t) (hand : ¬ "&&".toList <:+: t)
    (hmerge : ¬ "2>&1".toList <:+ trim t) :
    callOf t = some argv ↔ argvOf (trim t) = some argv := by
  have hnone : separator (trim t) = none :=
    separator_of_noSeparator (fun hmem => hsemi ((trim_isInfix t).subset hmem))
      fun hocc => hand (hocc.trans (trim_isInfix t))
  unfold callOf
  rw [read_eq hpipe hmerge]
  by_cases hnil : trim t = []
  · rw [if_pos hnil, hnil]
    simp [argvOf, isHeramind]
  · rw [if_neg hnil, readBase, hnone]
    cases argvOf (trim t) <;> simp

/-! ## Variables -/

theorem Quoted.length_le (q : Quoted) :
    (q.value fun _ => []).length ≤ (q.value fun _ => ['x']).length := by
  cases q with
  | param y braced => exact Nat.zero_le _
  | _ => exact le_rfl

theorem Segment.length_le (x : Segment) :
    (x.value fun _ => []).length ≤ (x.value fun _ => ['x']).length := by
  cases x with
  | double parts =>
    rw [value, value, length_flatMap, length_flatMap]
    exact sum_le_sum fun q _ => q.length_le
  | param y braced => exact Nat.zero_le _
  | _ => exact le_rfl

/-- A word has no variable when it has the same value in two shells. -/
theorem Word.fixed_of_value_eq (h : (w.value fun _ => []) = w.value fun _ => ['x']) :
    w.segments.all Segment.fixed = true := by
  have hlen := congrArg List.length h
  unfold value at hlen
  rw [length_flatMap, length_flatMap] at hlen
  refine all_eq_true.mpr fun x hx => ?_
  have heq := eq_of_sum_le (fun x _ => x.length_le) hlen.ge x hx
  cases x with
  | double parts =>
    rw [Segment.value, Segment.value, length_flatMap, length_flatMap] at heq
    refine all_eq_true.mpr fun q hq => ?_
    have hpart := eq_of_sum_le (fun q _ => q.length_le) heq.ge q hq
    cases q with
    | param y braced => cases hpart
    | _ => rfl
  | param y braced => cases heq
  | _ => rfl

theorem Invocation.name_fixed (i : Invocation) : i.name.segments.all Segment.fixed = true :=
  Word.fixed_of_value_eq ((i.name_value _).trans (i.name_value _).symm)

/-! ## Characters of a text -/

/-- A character with no meaning in a word. -/
def isOrdinary (c : Char) : Bool := c ∉ "\\'\" \t\n".toList

theorem Quoted.count_text {q : Quoted} (hc : isOrdinary c = true) (hfixed : q.fixed = true) :
    q.text.count c = (q.value fun _ => []).count c := by
  have hne : '\\' ≠ c ∧ '\n' ≠ c := by
    constructor <;> rintro rfl <;> revert hc <;> decide
  cases q with
  | literal d => rfl
  | escaped d =>
    rw [text, value, count_cons_of_ne hne.1]
    split_ifs with hd
    · rw [hd, count_cons_of_ne hne.2]
    · rfl
    · rw [count_cons_of_ne hne.1]
  | param y braced => cases hfixed

theorem Segment.count_text {x : Segment} (hc : isOrdinary c = true) (hfixed : x.fixed = true) :
    x.text.count c = (x.value fun _ => []).count c := by
  have hne : '\\' ≠ c ∧ '\n' ≠ c ∧ '\'' ≠ c ∧ '"' ≠ c := by
    refine ⟨?_, ?_, ?_, ?_⟩ <;> rintro rfl <;> revert hc <;> decide
  obtain ⟨hback, hline, hsingle, hdouble⟩ := hne
  cases x with
  | plain d => rfl
  | escaped d =>
    rw [text, value, count_cons_of_ne hback]
    split
    · rename_i hd
      rw [hd, count_cons_of_ne hline]
    · rfl
  | single t =>
    rw [text, value, count_cons_of_ne hsingle, count_append, count_cons_of_ne hsingle,
      count_nil, Nat.add_zero]
  | double parts =>
    rw [text, value, count_cons_of_ne hdouble, count_append, count_cons_of_ne hdouble,
      count_nil, Nat.add_zero, count_flatMap, count_flatMap]
    congr 1
    exact map_congr_left fun q hq => Quoted.count_text hc (all_eq_true.mp hfixed q hq)
  | param y braced => cases hfixed

theorem Word.count_text (hc : isOrdinary c = true) (h : w.segments.all Segment.fixed = true) :
    w.text.count c = w.literal.count c := by
  unfold text literal value
  rw [count_flatMap, count_flatMap]
  congr 1
  exact map_congr_left fun x hx => Segment.count_text hc (all_eq_true.mp h x hx)

theorem count_spaces (hc : isOrdinary c = true) (spaces : List Space) :
    (spaces.flatMap Space.text).count c = 0 := by
  refine count_eq_zero.mpr fun hmem => ?_
  obtain ⟨gap, -, hgap⟩ := mem_flatMap.mp hmem
  have hall : ∀ gap : Space, ∀ d ∈ gap.text, isOrdinary d = false := by
    intro gap
    cases gap <;> exact ByteText.forall_mem_of_all (by decide)
  rw [hall gap c hgap] at hc
  cases hc

theorem Word.fixed_segments (h : w.fixed = true) : w.segments.all Segment.fixed = true := by
  unfold Word.fixed at h
  rw [Bool.and_eq_true] at h
  exact h.2

/-- The ordinary characters of a call are those of its arguments. -/
theorem Invocation.count_text (hc : isOrdinary c = true)
    (hfixed : ∀ arg ∈ i.args, arg.2.fixed = true) :
    i.text.count c = i.literal.flatten.count c := by
  have hname : i.name.text.count c = "heramind".toList.count c := by
    rw [Word.count_text hc i.name_fixed, Word.literal, i.name_value]
  unfold text
  rw [i.flatten_literal, count_append, count_append, hname, count_flatMap, count_flatMap]
  congr 2
  refine map_congr_left fun arg harg => ?_
  simp only [Function.comp_apply, count_append, count_spaces hc, Nat.zero_add]
  exact Word.count_text hc (Word.fixed_segments (hfixed arg harg))

theorem Part.count_text (hc : isOrdinary c = true)
    (hfixed : ∀ arg ∈ p.call.args, arg.2.fixed = true) :
    p.text.count c = p.call.literal.flatten.count c := by
  rw [Part.text, count_append, count_append, count_spaces hc, count_spaces hc,
    Invocation.count_text hc hfixed, Nat.zero_add, Nat.add_zero]

theorem exists_base_of_callOf (h : callOf t = some argv) : ∃ base, argv.flatten <+ base ∧
    base <+ t ∧ ('|' ∉ t → "2>&1".toList <:+ trim t → base.count '>' < t.count '>') := by
  unfold callOf at h
  split at h
  · rename_i a hread
    cases h
    rcases exists_base t with hrejected | ⟨base, hwithin, -, -, hbase, hmerge⟩
    · rw [hrejected] at hread
      cases hread
    · have hof := of_readBase base
      rw [← hbase, hread] at hof
      exact ⟨base, flatten_sublist_of_argvOf hof.2, hwithin.sublist, hmerge⟩
  · cases h

/-- A part with no separator is read as its call exactly when it is kept. -/
theorem Part.callOf_eq_literal (hpipe : '|' ∉ p.text) (hsemi : ';' ∉ p.text)
    (hand : ¬ "&&".toList <:+: p.text) (hfixed : ∀ arg ∈ p.call.args, arg.2.fixed = true) :
    callOf p.text = some p.call.literal ↔ p.Kept := by
  constructor
  · intro h
    -- without the redirection a character would be missing
    have hmerge : ¬ "2>&1".toList <:+ trim p.text := by
      intro hmerge
      obtain ⟨base, hsub, -, hlt⟩ := exists_base_of_callOf h
      have hle := hsub.count_le '>'
      have hall := p.count_text (c := '>') (by decide) hfixed
      have hlt := hlt hpipe hmerge
      omega
    rw [callOf_eq_some hpipe hsemi hand hmerge, argvOf_eq_some] at h
    obtain ⟨hname, hconstruct, htokens, -⟩ := h
    exact p.kept_of_tokens hname hconstruct hfixed hmerge hand htokens
  · intro h
    rw [callOf_eq_some hpipe hsemi hand h.merge, argvOf_eq_some]
    exact ⟨h.name, h.construct, h.tokens_eq, rfl⟩

/-! ## Parts of a text -/

theorem trim_cons (hc : isWhitespace c = true) (t : Text) : trim (c :: t) = trim t := by
  show ByteText.trimEnd isWhitespace ((c :: t).dropWhile isWhitespace) = _
  rw [dropWhile_cons_of_pos hc]
  rfl

theorem trim_concat (hc : isWhitespace c = true) (t : Text) : trim (t ++ [c]) = trim t := by
  show ((t ++ [c]).dropWhile isWhitespace).rdropWhile isWhitespace =
    (t.dropWhile isWhitespace).rdropWhile isWhitespace
  rw [dropWhile_append]
  split
  · rename_i hnil
    rw [List.isEmpty_iff.mp hnil, dropWhile_cons_of_pos hc]
    rfl
  · rw [rdropWhile_concat_pos _ _ _ hc]

theorem partsOf_cons (hc : isWhitespace c = true) (t : Text) :
    partsOf "&&".toList (c :: t) = partsOf "&&".toList t := by
  have hpre : ¬ "&&".toList <+: c :: t := fun hpre => by
    rw [← (cons_prefix_cons.mp hpre).1] at hc
    revert hc
    decide
  have hcut : Pieces.splitOnce "&&".toList (c :: t) =
      (Pieces.splitOnce "&&".toList t).map fun cut => (c :: cut.1, cut.2) := by
    rw [Pieces.splitOnce, if_neg hpre]
  cases honce : Pieces.splitOnce "&&".toList t with
  | none =>
    rw [honce] at hcut
    rw [partsOf_of_none hcut, partsOf_of_none honce, trim_cons hc]
  | some cut =>
    rw [honce] at hcut
    rw [partsOf_of_some (by decide) hcut, partsOf_of_some (by decide) honce, trim_cons hc]

theorem partsOf_concat (hc : isWhitespace c = true) (t : Text) :
    partsOf "&&".toList (t ++ [c]) = partsOf "&&".toList t := by
  induction hn : t.length using Nat.strongRecOn generalizing t with
  | ind n ih =>
    cases honce : Pieces.splitOnce "&&".toList t with
    | none =>
      have hnone : Pieces.splitOnce "&&".toList (t ++ [c]) = none := by
        refine Pieces.splitOnce_eq_none.mpr fun hocc => ?_
        rcases infix_concat_iff.mp hocc with ⟨r, hr⟩ | hocc
        · have hlast := (append_inj' ((append_assoc r ['&'] ['&']).trans hr) rfl).2
          rw [← (cons.inj hlast).1] at hc
          revert hc
          decide
        · exact Pieces.splitOnce_eq_none.mp honce hocc
      rw [partsOf_of_none hnone, partsOf_of_none honce, trim_concat hc]
    | some cut =>
      have hlen := congrArg List.length (Pieces.of_splitOnce honce).1
      rw [length_append, length_append] at hlen
      have hpos : 0 < "&&".toList.length := by decide
      rw [partsOf_of_some (by decide) (Pieces.splitOnce_append [c] honce),
        partsOf_of_some (by decide) honce, ih cut.2.length (by omega) cut.2 rfl]

/-- Trimming a text changes none of its parts. -/
theorem partsOf_trim (t : Text) : partsOf "&&".toList (trim t) = partsOf "&&".toList t := by
  have hfront : partsOf "&&".toList (front t) = partsOf "&&".toList t := by
    induction t with
    | nil => rfl
    | cons c t ih =>
      unfold front at ih ⊢
      rw [dropWhile_cons]
      split
      · rename_i hc
        rw [ih, partsOf_cons hc]
      · rfl
  have hback : ∀ u : Text, partsOf "&&".toList (u.rdropWhile isWhitespace) =
      partsOf "&&".toList u := by
    intro u
    induction u using List.reverseRecOn with
    | nil => rfl
    | append_singleton u c ih =>
      rw [rdropWhile_concat]
      split
      · rename_i hc
        rw [ih, partsOf_concat hc]
      · rfl
  exact (hback _).trans hfront

/-! ## Chains -/

/-- The text of parts that are joined by `&&`. -/
def chainText : List Part → Text
  | [] => []
  | [p] => p.text
  | p :: ps => p.text ++ ("&&".toList ++ chainText ps)

/-- A part begins with a letter or a sign of quoting. -/
theorem Part.exists_front (p : Part) (t : Text) :
    ∃ d r, front (p.text ++ t) = d :: r ∧ d ∈ ['h', '\\', '\'', '"', '$'] := by
  unfold Part.text Invocation.text
  simp only [append_assoc]
  rcases p.call.front_name p.before _ with ⟨r, hr⟩ | hr
  · exact ⟨'\\', r, hr, by decide⟩
  · obtain ⟨d, r, htext, hd⟩ := p.call.exists_name_eq_cons
    exact ⟨d, _, hr.trans (by rw [htext, cons_append]), hd⟩

/-- A text in front of a part, or of a piece of it, is not blank. -/
theorem Part.trim_ne_nil_of_eq (p : Part) {q : Text} (htext : p.text = a ++ q)
    (hq : ∀ d r, q = d :: r → d = '&') : trim a ≠ [] := by
  intro hnil
  obtain ⟨d, r, hfront, hd⟩ := p.exists_front []
  have hskip : front (a ++ q) = front q :=
    dropWhile_append_of_pos (isWhitespace_of_trim_eq_nil hnil)
  rw [append_nil, htext, hskip] at hfront
  cases q with
  | nil => cases hfront
  | cons e q =>
    obtain rfl : e = '&' := hq e q rfl
    unfold front at hfront
    rw [dropWhile_cons_of_neg (by decide)] at hfront
    rw [← (cons.inj hfront).1] at hd
    revert hd
    decide

theorem Part.trim_ne_nil (p : Part) : trim p.text ≠ [] :=
  p.trim_ne_nil_of_eq (append_nil _).symm fun _ _ h => nomatch h

/-- Where a part has no separator and does not end with a sign of one, the first is behind it. -/
theorem length_le_of_occurrence {a' b' : Text} (hno : ¬ "&&".toList <:+: a)
    (hlast : a.getLast? ≠ some '&') (h : a ++ ("&&".toList ++ b) = a' ++ ("&&".toList ++ b')) :
    a.length ≤ a'.length := by
  by_contra hlt
  obtain ⟨d, rfl⟩ : a' <+: a :=
    prefix_of_prefix_length_le ⟨_, h.symm⟩ (prefix_append _ _) (by omega)
  rw [append_assoc, append_cancel_left_eq] at h
  match d, h with
  | [], _ => simp at hlt
  | [x], h =>
    have hx : x = '&' := (cons.inj h).1
    simp [hx] at hlast
  | x :: y :: d, h =>
    have hx : x = '&' := (cons.inj h).1
    have hy : y = '&' := (cons.inj (cons.inj h).2).1
    exact hno ⟨a', d, by simp [hx, hy]⟩

/-- The parts of a chain are its trimmed parts. -/
theorem partsOf_chainText (hwhole : ∀ p ∈ ps, ¬ "&&".toList <:+: p.text)
    (hapart : ∀ p ∈ ps.dropLast, p.text.getLast? ≠ some '&') :
    partsOf "&&".toList (chainText ps) = ps.map fun p => trim p.text := by
  induction ps with
  | nil => rfl
  | cons p ps ih =>
    have hp := hwhole p mem_cons_self
    cases ps with
    | nil =>
      rw [chainText, partsOf_of_none (Pieces.splitOnce_eq_none.mpr hp), if_neg p.trim_ne_nil]
      rfl
    | cons q ps =>
      have hcut : Pieces.splitOnce "&&".toList (chainText (p :: q :: ps)) =
          some (p.text, chainText (q :: ps)) :=
        Pieces.splitOnce_eq_some fun a' b' =>
          length_le_of_occurrence hp (hapart p mem_cons_self)
      rw [partsOf_of_some (by decide) hcut, if_neg p.trim_ne_nil,
        ih (fun x hx => hwhole x (mem_cons_of_mem _ hx))
          (fun x hx => hapart x (mem_cons_of_mem _ hx))]
      rfl

/-- A part that is cut at a `&` is not read as its call. -/
theorem Part.not_cut {q : Text} (hfixed : ∀ arg ∈ p.call.args, arg.2.fixed = true)
    (htext : p.text = a ++ '&' :: q) (h : callOf (trim a) = some p.call.literal) : False := by
  obtain ⟨base, hsub, hwithin, -⟩ := exists_base_of_callOf h
  have hle := ((hsub.trans hwithin).trans (trim_isInfix a).sublist).count_le '&'
  rw [← p.count_text (by decide) hfixed, htext, count_append, count_cons_self] at hle
  omega

theorem mapM_callOf_cons {parts : List Text}
    (h : (t :: parts).mapM callOf = some (argv :: argvs)) :
    callOf t = some argv ∧ parts.mapM callOf = some argvs := by
  rw [mapM_cons] at h
  cases hcall : callOf t with
  | none => rw [hcall] at h; cases h
  | some x =>
    cases hrest : parts.mapM callOf with
    | none => rw [hcall, hrest] at h; cases h
    | some xs =>
      rw [hcall, hrest] at h
      cases h
      exact ⟨rfl, rfl⟩

/-- A chain whose parts are read as its calls is cut between them, and they are kept. -/
theorem kept_of_mapM (hfixed : ∀ p ∈ ps, ∀ arg ∈ p.call.args, arg.2.fixed = true)
    (hpipe : ∀ p ∈ ps, '|' ∉ p.text ∧ ';' ∉ p.text)
    (h : (partsOf "&&".toList (chainText ps)).mapM callOf = some (ps.map fun p => p.call.literal)) :
    (∀ p ∈ ps, p.Kept) ∧ ∀ p ∈ ps.dropLast, p.text.getLast? ≠ some '&' := by
  induction ps with
  | nil => simp
  | cons p ps ih =>
    have hp := hfixed p mem_cons_self
    obtain ⟨hbar, hsemi⟩ := hpipe p mem_cons_self
    have hkept : ¬ "&&".toList <:+: p.text → callOf (trim p.text) = some p.call.literal → p.Kept :=
      fun hand hcall => (p.callOf_eq_literal hbar hsemi hand hp).mp (callOf_trim p.text ▸ hcall)
    cases honce : Pieces.splitOnce "&&".toList (chainText (p :: ps)) with
    | none =>
      have hno := Pieces.splitOnce_eq_none.mp honce
      rw [partsOf_of_none honce] at h
      cases ps with
      | nil =>
        rw [chainText] at h hno
        rw [if_neg p.trim_ne_nil] at h
        refine ⟨fun x hx => ?_, fun x hx => nomatch hx⟩
        rw [mem_singleton.mp hx]
        exact hkept hno (mapM_callOf_cons h).1
      | cons q ps => exact absurd ⟨p.text, chainText (q :: ps), by simp [chainText]⟩ hno
    | some cut =>
      obtain ⟨a, b⟩ := cut
      obtain ⟨heq, hmin⟩ := Pieces.of_splitOnce honce
      rw [partsOf_of_some (by decide) honce] at h
      -- the part is not cut in front of its end
      have hnot : ∀ q, p.text ≠ a ++ '&' :: q := by
        intro q htext
        rw [if_neg (p.trim_ne_nil_of_eq htext fun d r hd => (cons.inj hd).1.symm)] at h
        exact Part.not_cut hp htext (mapM_callOf_cons h).1
      cases ps with
      | nil => exact absurd heq (hnot _)
      | cons q ps =>
        have hle : a.length ≤ p.text.length := hmin _ _ rfl
        have htext : a = p.text := by
          by_contra hne
          have hlt : a.length < p.text.length := by
            refine lt_of_le_of_ne hle fun hlen => hne ?_
            exact (append_inj heq hlen.symm).1.symm
          have hwithin : a ++ ['&'] <+: p.text ++ ("&&".toList ++ chainText (q :: ps)) :=
            ⟨'&' :: b, (append_assoc a ['&'] _).trans heq.symm⟩
          obtain ⟨r, hr⟩ : a ++ ['&'] <+: p.text :=
            prefix_of_prefix_length_le hwithin (prefix_append _ _)
              (by rw [length_append, length_singleton]; omega)
          exact hnot r (by rw [← hr]; simp)
        subst htext
        obtain rfl : chainText (q :: ps) = b :=
          append_cancel_left (append_cancel_left heq)
        rw [if_neg p.trim_ne_nil] at h
        obtain ⟨hcall, hrest⟩ := mapM_callOf_cons h
        obtain ⟨hall, hapart⟩ := ih (fun x hx => hfixed x (mem_cons_of_mem _ hx))
          (fun x hx => hpipe x (mem_cons_of_mem _ hx)) hrest
        refine ⟨fun x hx => ?_, fun x hx => ?_⟩
        · rcases mem_cons.mp hx with rfl | hx
          · exact hkept (Pieces.not_isInfix_of_splitOnce (by decide) honce) hcall
          · exact hall x hx
        · rcases mem_cons.mp hx with rfl | hx
          · -- a `&` at its end would be the first sign of an earlier separator
            intro hlast
            obtain ⟨r, hr⟩ := getLast?_eq_some_iff.mp hlast
            have hshort := hmin r ('&' :: chainText (q :: ps)) (by
              show x.text ++ _ = _
              rw [hr]
              simp)
            rw [hr, length_append, length_singleton] at hshort
            omega
          · exact hapart x hx

/-! ## Readings of a chain -/

theorem not_isInfix_of_separator (h : separator t = none) : ¬ "&&".toList <:+: t := by
  intro hocc
  unfold separator at h
  split at h
  · split at h <;> cases h
  · cases h
  · cases h
  · rename_i hand _
    exact ByteText.find_eq_none.mp hand hocc

theorem separator_eq_and {sep : Text} (hsemi : ';' ∉ t) (h : separator t = some sep) :
    sep = "&&".toList := by
  refine (separator_eq h).resolve_right ?_
  rintro rfl
  exact hsemi ((singleton_infix_iff _ _).mp (isInfix_of_separator h))

theorem mapM_map {α β γ : Type} {f : β → Option γ} {g : α → β} {k : α → γ} {xs : List α}
    (h : ∀ x ∈ xs, f (g x) = some (k x)) : (xs.map g).mapM f = some (xs.map k) := by
  induction xs with
  | nil => rfl
  | cons x xs ih =>
    rw [map_cons, mapM_cons, h x mem_cons_self, ih fun y hy => h y (mem_cons_of_mem _ hy)]
    rfl

/-- The calls of a chain are those that its parts are read as. -/
theorem mapM_of_chainOf (hpipe : '|' ∉ t) (hsemi : ';' ∉ t)
    (hmerge : ¬ "2>&1".toList <:+ trim t)
    (h : chainOf t = some argvs) : (partsOf "&&".toList t).mapM callOf = some argvs := by
  have hread := read_eq hpipe hmerge
  have hsemi' : ';' ∉ trim t := fun hmem => hsemi ((trim_isInfix t).subset hmem)
  unfold chainOf at h
  rw [← partsOf_trim]
  by_cases hnil : trim t = []
  · rw [hread, if_pos hnil] at h
    cases h
  · rw [if_neg hnil] at hread
    have hof := of_readBase (trim t)
    rw [← hread] at hof
    cases hkind : read t with
    | rejected => rw [hkind] at h; cases h
    | call argv =>
      rw [hkind] at h hof
      cases h
      have hone := Pieces.splitOnce_eq_none.mpr (not_isInfix_of_separator hof.1)
      have hcall : callOf t = some argv := by
        unfold callOf
        rw [hkind]
      have hidem : trim (trim t) = trim t := ByteText.trim_trim isWhitespace t
      rw [partsOf_of_none hone, hidem, if_neg hnil, mapM_cons, callOf_trim, hcall]
      rfl
    | sequence sep parts =>
      rw [hkind] at h hof
      obtain ⟨hsep, rfl⟩ := hof
      obtain rfl := separator_eq_and hsemi' hsep
      simpa using h

theorem isInfix_chainText (hp : p ∈ ps) : p.text <:+: chainText ps := by
  induction ps with
  | nil => cases hp
  | cons q ps ih =>
    cases ps with
    | nil =>
      rw [mem_singleton.mp hp]
      exact infix_rfl
    | cons r ps =>
      rcases mem_cons.mp hp with rfl | hp
      · exact ⟨[], _, rfl⟩
      · exact (ih hp).trans ⟨q.text ++ "&&".toList, [], by simp [chainText]⟩

theorem exists_of_mem_chainText (h : c ∈ chainText ps) (hc : c ≠ '&') : ∃ p ∈ ps, c ∈ p.text := by
  induction ps with
  | nil => cases h
  | cons q ps ih =>
    cases ps with
    | nil => exact ⟨q, mem_cons_self, h⟩
    | cons r ps =>
      have hmem : c ∈ q.text ++ ("&&".toList ++ chainText (r :: ps)) := h
      rw [mem_append, mem_append] at hmem
      rcases hmem with h | h | h
      · exact ⟨q, mem_cons_self, h⟩
      · simp [hc] at h
      · obtain ⟨p, hp, hmem⟩ := ih h
        exact ⟨p, mem_cons_of_mem _ hp, hmem⟩

/-- A chain of kept parts is read as its calls. -/
theorem chainOf_chainText (hne : ps ≠ []) (hkept : ∀ p ∈ ps, p.Kept)
    (hapart : ∀ p ∈ ps.dropLast, p.text.getLast? ≠ some '&')
    (hpipe : '|' ∉ chainText ps) (hsemi : ';' ∉ chainText ps)
    (hmerge : ¬ "2>&1".toList <:+ trim (chainText ps)) :
    chainOf (chainText ps) = some (ps.map fun p => p.call.literal) := by
  have hfixed : ∀ p ∈ ps, ∀ arg ∈ p.call.args, arg.2.fixed = true := fun p hp arg harg =>
    ((hkept p hp).word arg harg).fixed
  have hcall : ∀ p ∈ ps, callOf p.text = some p.call.literal := fun p hp =>
    (p.callOf_eq_literal (fun hmem => hpipe ((isInfix_chainText hp).subset hmem))
      (fun hmem => hsemi ((isInfix_chainText hp).subset hmem)) (hkept p hp).whole (hfixed p hp)).mpr
      (hkept p hp)
  have hcut : partsOf "&&".toList (trim (chainText ps)) = ps.map fun p => trim p.text := by
    rw [partsOf_trim, partsOf_chainText (fun p hp => (hkept p hp).whole) hapart]
  obtain _ | ⟨p, _ | ⟨q, ps⟩⟩ := ps
  · exact absurd rfl hne
  · have h := hcall p mem_cons_self
    unfold callOf at h
    unfold chainOf
    rw [chainText]
    split at h
    · rename_i argv hread
      cases h
      rw [hread]
      rfl
    · cases h
  · have hparts : 1 < (partsOf "&&".toList (trim (chainText (p :: q :: ps)))).length := by
      rw [hcut]
      simp
    have hnil : trim (chainText (p :: q :: ps)) ≠ [] := by
      intro hnil
      rw [hnil] at hparts
      exact absurd hparts (by decide)
    have hsep : separator (trim (chainText (p :: q :: ps))) = some "&&".toList := by
      cases hsep : separator (trim (chainText (p :: q :: ps))) with
      | none =>
        have hone := Pieces.splitOnce_eq_none.mpr (not_isInfix_of_separator hsep)
        rw [partsOf_of_none hone] at hparts
        split at hparts <;> simp at hparts
      | some sep =>
        rw [separator_eq_and (fun hmem => hsemi ((trim_isInfix _).subset hmem)) hsep]
    have hnames : (partsOf "&&".toList (trim (chainText (p :: q :: ps)))).all isHeramind = true := by
      rw [hcut]
      refine all_eq_true.mpr fun t ht => ?_
      obtain ⟨x, hx, rfl⟩ := mem_map.mp ht
      exact (hkept x hx).name
    unfold chainOf
    rw [read_eq hpipe hmerge, if_neg hnil, readBase, hsep]
    simp only
    rw [if_pos ⟨hparts, hnames⟩, hcut]
    simp only [if_true]
    exact mapM_map fun x hx => by rw [callOf_trim, hcall x hx]

end HeraMind.Agent.Shell
