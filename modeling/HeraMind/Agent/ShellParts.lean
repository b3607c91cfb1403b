/-
# The parts of a chain

A part is a call with the spaces around it.  The tool trims it, and reads the call with the
arguments that its words stand for exactly when the words are kept, no line is continued before the
end, and no escaped blank is trimmed.
-/
import HeraMind.Agent.ShellWords

namespace HeraMind.Agent.Shell

open List
open HeraMind.Rules (isWhitespace)

/-- A call between two operators. -/
structure Part where
  before : List Space
  call : Invocation
  after : List Space

namespace Part

def text (p : Part) : Text :=
  p.before.flatMap Space.text ++ (p.call.text ++ p.after.flatMap Space.text)

/-- The part is read as its call: it begins with the name and a space, the scan for shell constructs
finds none, its words are kept, and neither a continued line nor an escaped blank nor a redirection
is cut. -/
structure Kept (p : Part) : Prop where
  name : isHeramind (trim p.text) = true
  construct : hasShellConstruct false false '\x00' (trim p.text) = false
  word : ∀ arg ∈ p.call.args, arg.2.Kept
  gap : ∀ arg ∈ p.call.args, .continuation ∉ arg.1.spaces
  after : p.after.count .continuation ≤ 1
  last : .continuation ∉ p.after → ∀ c, p.call.text.getLast? = some c → isWhitespace c = false
  merge : ¬ "2>&1".toList <:+ trim p.text
  whole : ¬ "&&".toList <:+: p.text

end Part

variable {c : Char} {t u : Text} {ms ns : List (Option Char)} {i : Invocation} {p : Part}

/-! ## Trimmed parts -/

theorem rdropWhile_append_of_all {q : Char → Bool} (h : ∀ c ∈ u, q c = true) :
    (t ++ u).rdropWhile q = t.rdropWhile q := by
  unfold List.rdropWhile
  rw [reverse_append, dropWhile_append_of_pos]
  exact fun c hc => h c (mem_reverse.mp hc)

theorem isWhitespace_of_mem_spaces {spaces : List Space} (h : .continuation ∉ spaces) :
    ∀ c ∈ spaces.flatMap Space.text, isWhitespace c = true := by
  intro c hc
  obtain ⟨gap, hgap, hmem⟩ := mem_flatMap.mp hc
  cases gap with
  | continuation => exact absurd hgap h
  | _ =>
    rw [mem_singleton.mp hmem]
    decide

theorem heramind_prefix (h : isHeramind t = true) : "heramind".toList <+: t := by
  unfold isHeramind at h
  rw [Bool.or_eq_true] at h
  rcases h with h | h
  · exact (show "heramind".toList <+: "heramind ".toList by decide).trans
      ( isPrefixOf_iff_prefix.mp h)
  · rw [of_decide_eq_true h]

/-- A part that begins with the name has no continued line before it. -/
theorem Part.front_text (h : isHeramind (trim p.text) = true) :
    front p.text = p.call.text ++ p.after.flatMap Space.text := by
  have hpre : "heramind".toList <+: front p.text := ( heramind_prefix h).trans (trim_prefix_front _)
  unfold Part.text Invocation.text at hpre ⊢
  rw [append_assoc] at hpre ⊢
  rcases p.call.front_name p.before _ with ⟨r, hr⟩ | hr
  · rw [hr] at hpre
    exact absurd (cons_prefix_cons.mp hpre).1 (by decide)
  · exact hr

/-- The name of such a part is not quoted. -/
theorem Part.name_text (h : isHeramind (trim p.text) = true) :
    p.call.name.text = "heramind".toList := by
  obtain ⟨r, hr⟩ : ∃ r, front p.text = p.call.name.text ++ r :=
    ⟨_, (p.front_text h).trans (append_assoc _ _ _)⟩
  have hwithin : trim p.text <+: p.call.name.text ++ r := hr ▸ trim_prefix_front p.text
  obtain ⟨extra, hextra⟩ : "heramind".toList <+: p.call.name.text :=
    prefix_of_prefix_length_le (( heramind_prefix h).trans hwithin) (prefix_append _ _)
      p.call.length_name
  cases extra with
  | nil => rw [← hextra, append_nil]
  | cons d extra =>
    exfalso
    -- what follows the name is a blank, but a blank does not follow in a word
    have hfront : front p.text = "heramind".toList ++ (d :: (extra ++ r)) := by
      rw [hr, ← hextra, append_assoc, cons_append]
    have hblank : isWhitespace d = true := by
      unfold isHeramind at h
      rw [Bool.or_eq_true] at h
      rcases h with h | h
      · have hspace := ( isPrefixOf_iff_prefix.mp h).trans (trim_prefix_front p.text)
        rw [hfront, show "heramind ".toList = "heramind".toList ++ [' '] from rfl,
          prefix_append_right_inj] at hspace
        rw [← (cons_prefix_cons.mp hspace).1]
        decide
      · have hcut : trim p.text ++ (front p.text).rtakeWhile isWhitespace = front p.text :=
          rdropWhile_append_rtakeWhile
        rw [of_decide_eq_true h] at hcut
        nth_rewrite 2 [hfront] at hcut
        have hmem : d ∈ (front p.text).rtakeWhile isWhitespace := by
          rw [append_cancel_left hcut]
          exact mem_cons_self
        exact mem_rtakeWhile_imp hmem
    have hquoting : d ∉ ['\\', '\'', '"', '$'] := by
      intro hmem
      simp only [mem_cons, not_mem_nil, or_false] at hmem
      rcases hmem with rfl | rfl | rfl | rfl <;> revert hblank <;> decide
    have hvalue : "heramind".toList ++ [d] <+: p.call.name.value fun _ => [] := by
      refine prefix_value _ p.call.name.legal ⟨extra, ?_⟩ ?_
      · rw [append_assoc, singleton_append, hextra]
        rfl
      · have hplain : ∀ e ∈ "heramind".toList, e ∉ ['\\', '\'', '"', '$'] :=
          ByteText.forall_mem_of_all (by decide)
        intro e he
        rcases mem_append.mp he with he | he
        · exact hplain e he
        · rw [mem_singleton.mp he]
          exact hquoting
    have hle := hvalue.length_le
    rw [p.call.name_value, length_append, length_singleton] at hle
    omega

theorem Part.trim_text (h : isHeramind (trim p.text) = true) :
    trim p.text = (p.call.text ++ p.after.flatMap Space.text).rdropWhile isWhitespace := by
  rw [← p.front_text h]
  rfl

/-- The last continued line among spaces. -/
theorem exists_last_continuation {spaces : List Space} (h : .continuation ∈ spaces) :
    ∃ a b, spaces = a ++ .continuation :: b ∧ .continuation ∉ b := by
  obtain ⟨b, a, heq, hb⟩ := eq_append_cons_of_mem (mem_reverse.mpr h)
  refine ⟨a.reverse, b.reverse, ?_, fun hmem => hb (mem_reverse.mp hmem)⟩
  rw [← reverse_reverse spaces, heq]
  simp

/-- A trimmed part: one continued line at its end is cut after the backslash. -/
theorem Part.exists_marks_trim (h : isHeramind (trim p.text) = true)
    (hfixed : ∀ arg ∈ p.call.args, arg.2.fixed = true)
    (hlast : .continuation ∉ p.after → ∀ c, p.call.text.getLast? = some c → isWhitespace c = false) :
    ∃ a : List Space, Mode.bare.marks (trim p.text) = p.call.marks ++ a.flatMap Space.marks ∧
      ((Mode.bare.behind (trim p.text)).inSingle = false ∧
        (Mode.bare.behind (trim p.text)).inDouble = false) ∧
      a.count .continuation = p.after.count .continuation - 1 := by
  have hcall : Marked p.call.text p.call.marks := p.call.marked (p.name_text h) hfixed
  rw [p.trim_text h]
  by_cases hmem : .continuation ∈ p.after
  · obtain ⟨a, b, heq, hb⟩ := exists_last_continuation hmem
    have hcut : (p.call.text ++ p.after.flatMap Space.text).rdropWhile isWhitespace =
        (p.call.text ++ a.flatMap Space.text) ++ ['\\'] := by
      have htext : p.call.text ++ p.after.flatMap Space.text =
          (p.call.text ++ a.flatMap Space.text) ++ ['\\'] ++ ('\n' :: b.flatMap Space.text) := by
        rw [heq]
        simp [Space.text]
      rw [htext, rdropWhile_append_of_all, rdropWhile_concat_neg _ _ _ (by decide)]
      intro c hc
      rcases mem_cons.mp hc with rfl | hc
      · decide
      · exact isWhitespace_of_mem_spaces hb c hc
    have ha := hcall.append (Marked.flatMap fun gap (_ : gap ∈ a) => gap.marked)
    rw [hcut, Mode.marks_append, ha.marks, ha.behind, Mode.behind_append _ (_ ++ _), ha.behind, heq,
      count_append, count_cons_self, count_eq_zero_of_not_mem hb]
    exact ⟨a, append_nil _, ⟨rfl, rfl⟩, rfl⟩
  · have hself : p.call.text.rdropWhile isWhitespace = p.call.text := by
      rw [rdropWhile_eq_self_iff]
      intro hne
      rw [hlast hmem _ (getLast?_eq_some_getLast hne)]
      decide
    rw [rdropWhile_append_of_all (isWhitespace_of_mem_spaces hmem), hself, hcall.marks, hcall.behind,
      count_eq_zero_of_not_mem hmem]
    exact ⟨[], (append_nil _).symm, ⟨rfl, rfl⟩, rfl⟩

/-! ## Kept words -/

theorem Quoted.reached_of_kept {q : Quoted} (hfixed : q.fixed = true) (h : q.kept = true) :
    q.reached = q.value fun _ => [] := by
  cases q with
  | literal d => rfl
  | escaped d =>
    have hspecial : d ∈ "$\x60\"\\".toList := of_decide_eq_true h
    have hline : d ≠ '\n' := by
      rintro rfl
      revert hspecial
      decide
    rw [reached, value, if_neg hline, if_pos hspecial]
  | param y braced => cases hfixed

theorem Segment.marks_of_kept {x : Segment} (hfixed : x.fixed = true) (h : x.kept = true) :
    x.marks = (x.value fun _ => []).map some := by
  cases x with
  | plain d =>
    have hd : isWhitespace d = false := by simpa [kept] using h
    rw [marks, hd, if_neg (by decide)]
    rfl
  | escaped d =>
    have hd : d ≠ '\n' := of_decide_eq_true h
    rw [marks, value, if_neg hd]
    rfl
  | single t => rfl
  | double parts =>
    rw [marks, value]
    congr 1
    exact flatMap_congr fun q hq => Quoted.reached_of_kept
      (all_eq_true.mp hfixed q hq) (all_eq_true.mp h q hq)
  | param y braced => cases hfixed

theorem Word.Kept.marks_eq {w : Word} (h : w.Kept) : w.marks = w.literal.map some := by
  have hfixed := h.fixed
  unfold Word.fixed at hfixed
  rw [Bool.and_eq_true] at hfixed
  unfold Word.marks Word.literal Word.value
  rw [map_flatMap]
  exact flatMap_congr fun x hx =>
    Segment.marks_of_kept (all_eq_true.mp hfixed.2 x hx) (h.kept x hx)

/-- Spaces in which no line is continued end a token. -/
theorem spaces_marks {spaces : List Space} (h : .continuation ∉ spaces) :
    spaces.flatMap Space.marks = List.replicate spaces.length none := by
  induction spaces with
  | nil => rfl
  | cons gap spaces ih =>
    rw [mem_cons, not_or] at h
    rw [flatMap_cons, ih h.2, length_cons, replicate_succ]
    cases gap with
    | continuation => exact absurd rfl h.1
    | _ => rfl

theorem grouped_append (current t : Text) (ms : List (Option Char)) :
    grouped current (t.map some ++ ms) = grouped (t.reverse ++ current) ms := by
  induction t generalizing current with
  | nil => rfl
  | cons d t ih => rw [map_cons, cons_append, grouped, ih]; simp

theorem grouped_spaces (n : ℕ) (ms : List (Option Char)) :
    grouped [] (List.replicate n none ++ ms) = grouped [] ms := by
  induction n with
  | zero => rfl
  | succ n ih => rw [replicate_succ, cons_append, grouped, if_pos rfl, ih]

/-- A token ends at spaces. -/
theorem grouped_succ {current : Text} (h : current ≠ []) (n : ℕ) (ms : List (Option Char)) :
    grouped current (List.replicate (n + 1) none ++ ms) = current.reverse :: grouped [] ms := by
  rw [replicate_succ, cons_append, grouped, if_neg h, grouped_spaces]

/-- The tokens of kept words are the arguments. -/
theorem grouped_args {args : List (Gap × Word)} {current : Text} (hcurrent : current ≠ [])
    (hword : ∀ arg ∈ args, arg.2.Kept) (hgap : ∀ arg ∈ args, .continuation ∉ arg.1.spaces)
    (n : ℕ) :
    grouped current ((args.flatMap fun arg => arg.1.spaces.flatMap Space.marks ++ arg.2.marks) ++
      List.replicate n none) = current.reverse :: args.map fun arg => arg.2.literal := by
  induction args generalizing current with
  | nil =>
    cases n with
    | zero => rw [flatMap_nil, nil_append, replicate_zero, grouped, if_neg hcurrent]; rfl
    | succ n =>
      have hnil := grouped_succ hcurrent n []
      rw [append_nil] at hnil
      rw [flatMap_nil, nil_append, hnil]
      rfl
  | cons arg args ih =>
    have hkept : arg.2.Kept := hword arg mem_cons_self
    have hspaces : arg.1.spaces.length = arg.1.spaces.length - 1 + 1 := by
      have hne : arg.1.spaces ≠ [] := by
        rcases arg.1.separates with h | h <;> exact ne_nil_of_mem h
      have hpos := length_pos_of_ne_nil hne
      omega
    rw [flatMap_cons, spaces_marks (hgap arg mem_cons_self), hspaces, hkept.marks_eq,
      append_assoc, append_assoc, grouped_succ hcurrent, grouped_append, append_nil,
      ih (reverse_ne_nil_iff.mpr hkept.nonempty)
        (fun a ha => hword a (mem_cons_of_mem _ ha))
        (fun a ha => hgap a (mem_cons_of_mem _ ha)),
      reverse_reverse, map_cons]

/-- The tokens of a kept part are the arguments of its call. -/
theorem Part.Kept.tokens_eq (h : p.Kept) :
    tokens false false [] (trim p.text) = .ok p.call.literal := by
  obtain ⟨a, hmarks, hquotes, hcount⟩ :=
    p.exists_marks_trim h.name (fun arg harg => (h.word arg harg).fixed) h.last
  have ha : .continuation ∉ a := by
    rw [← count_eq_zero, hcount]
    have := h.after
    omega
  refine tokens_eq_ok.mpr ⟨hquotes, ?_⟩
  rw [hmarks]
  unfold Invocation.marks Invocation.literal
  rw [spaces_marks ha, append_assoc, grouped_append, append_nil,
    grouped_args (by decide) h.word h.gap]
  rfl

/-! ## Tokens that are the arguments -/

/-- The last segment of a call with arguments, and the text and the marks before it. -/
theorem Invocation.exists_last (hname : i.name.text = "heramind".toList)
    (hfixed : ∀ arg ∈ i.args, arg.2.fixed = true) (hargs : i.args ≠ []) :
    ∃ arg ∈ i.args, ∃ x ∈ arg.2.segments, ∃ t ms, x ≠ .escaped '\n' ∧
      i.text = t ++ x.text ∧ Marked t ms ∧ i.marks = ms ++ x.marks := by
  obtain ⟨args, arg, heq⟩ := eq_nil_or_concat' i.args |>.resolve_left hargs
  obtain ⟨xs, x, hx⟩ := eq_nil_or_concat' arg.2.segments |>.resolve_left arg.2.nonempty
  have harg : arg ∈ i.args := by rw [heq]; simp
  have hxmem : x ∈ arg.2.segments := by rw [hx]; simp
  have hends := arg.2.ends.2
  rw [hx, getLast?_concat] at hends
  have hfix := hfixed arg harg
  unfold Word.fixed at hfix
  rw [Bool.and_eq_true] at hfix
  have hmarked : Marked (xs.flatMap Segment.text) (xs.flatMap Segment.marks) :=
    Marked.flatMap fun y hy => by
      have hy' : y ∈ arg.2.segments := by rw [hx]; exact mem_append_left _ hy
      exact y.marked (all_eq_true.mp arg.2.legal y hy') (all_eq_true.mp hfix.2 y hy')
  have hbefore : Marked (i.name.text ++ args.flatMap fun arg =>
      arg.1.spaces.flatMap Space.text ++ arg.2.text) ("heramind".toList.map some ++
      args.flatMap fun arg => arg.1.spaces.flatMap Space.marks ++ arg.2.marks) := by
    refine Marked.append ?_ (Marked.flatMap fun a ha => ?_)
    · rw [hname]
      exact marked_of_all (ByteText.forall_mem_of_all (by decide))
    · have ha' : a ∈ i.args := by rw [heq]; exact mem_append_left _ ha
      exact (Marked.flatMap fun gap _ => gap.marked).append (a.2.marked (hfixed a ha'))
  have hgap : Marked (arg.1.spaces.flatMap Space.text) (arg.1.spaces.flatMap Space.marks) :=
    Marked.flatMap fun gap _ => gap.marked
  refine ⟨arg, harg, x, hxmem, _, _, fun h => hends (congrArg some h), ?_,
    hbefore.append (hgap.append hmarked), ?_⟩
  · have hword : arg.2.text = xs.flatMap Segment.text ++ x.text := by
      unfold Word.text
      rw [hx, flatMap_append, flatMap_singleton]
    unfold Invocation.text
    rw [heq, flatMap_append, flatMap_singleton, hword]
    simp only [append_assoc]
  · have hword : arg.2.marks = xs.flatMap Segment.marks ++ x.marks := by
      unfold Word.marks
      rw [hx, flatMap_append, flatMap_singleton]
    unfold Invocation.marks
    rw [heq, flatMap_append, flatMap_singleton, hword]
    simp only [append_assoc]

/-- A part whose tokens are the arguments of its call is kept. -/
theorem Part.kept_of_tokens (hname : isHeramind (trim p.text) = true)
    (hconstruct : hasShellConstruct false false '\x00' (trim p.text) = false)
    (hfixed : ∀ arg ∈ p.call.args, arg.2.fixed = true)
    (hmerge : ¬ "2>&1".toList <:+ trim p.text) (hwhole : ¬ "&&".toList <:+: p.text)
    (h : tokens false false [] (trim p.text) = .ok p.call.literal) : p.Kept := by
  have hliteral := (tokens_eq_ok.mp h).2
  have hflatten : p.call.literal.flatten = (Mode.bare.marks (trim p.text)).reduceOption := by
    rw [hliteral, flatten_grouped]
    rfl
  have hmarked : Marked p.call.text p.call.marks := p.call.marked (p.name_text hname) hfixed
  -- no character but a line break is dropped
  have hdropped : ∀ c, c ≠ '\n' →
      p.call.marks.reduceOption.count c = p.call.literal.flatten.count c := by
    intro c hc
    have hspaces : Marked (p.after.flatMap Space.text) (p.after.flatMap Space.marks) :=
      Marked.flatMap fun gap _ => gap.marked
    have hcut := rdropWhile_append_rtakeWhile
      (l := p.call.text ++ p.after.flatMap Space.text) (p := isWhitespace)
    rw [← p.trim_text hname] at hcut
    have hcount := congrArg (fun ms => ms.reduceOption.count c)
      ((congrArg Mode.bare.marks hcut).trans (hmarked.append hspaces).marks)
    simp only [Mode.marks_append, reduceOption_append, count_append, reduceOption_spaces,
      count_replicate] at hcount
    rw [if_neg (by simpa using Ne.symm hc), ← hflatten] at hcount
    have hle := p.call.reach.1 c hc
    omega
  have hlast : .continuation ∉ p.after → ∀ c, p.call.text.getLast? = some c →
      isWhitespace c = false := by
    intro hafter c hc
    by_contra hblank
    rw [Bool.not_eq_false] at hblank
    by_cases hargs : p.call.args = []
    · rw [Invocation.text, hargs, p.name_text hname] at hc
      cases hc
      revert hblank
      decide
    · obtain ⟨arg, harg, x, hx, t, ns, hline, htext, ht, hns⟩ :=
        p.call.exists_last (p.name_text hname) hfixed hargs
      rw [htext] at hc
      cases x with
      | plain d =>
        obtain rfl : d = c := by simpa [Segment.text] using hc
        have hlegal : isPlain d = true := all_eq_true.mp arg.2.legal _ hx
        have hd : d ≠ '\n' := by
          rintro rfl
          revert hlegal
          decide
        have hword := (Invocation.count_word (hdropped d hd) arg harg).1
        have hcount := arg.2.count_segment hword _ hx
        rw [Segment.marks, hblank, if_pos rfl] at hcount
        simp [Segment.value, reduceOption_cons_of_none] at hcount
      | escaped d =>
        obtain rfl : d = c := by simpa [Segment.text] using hc
        have hd : d ≠ '\n' := fun hd => hline (congrArg Segment.escaped hd)
        -- the blank is cut, and a backslash is left
        have hcut : trim p.text = t ++ ['\\'] := by
          rw [p.trim_text hname, rdropWhile_append_of_all (isWhitespace_of_mem_spaces hafter), htext,
            Segment.text, show ['\\', d] = ['\\'] ++ [d] from rfl, ← append_assoc,
            rdropWhile_concat_pos _ _ _ hblank, rdropWhile_concat_neg _ _ _ (by decide)]
        have hle := hdropped d hd
        rw [hflatten, hcut, Mode.marks_append, ht.marks, ht.behind, hns, reduceOption_append,
          reduceOption_append, count_append, count_append, Segment.marks,
          reduceOption_cons_of_some, count_cons_self] at hle
        have hnil : (Mode.bare.marks ['\\']).reduceOption = [] := rfl
        rw [hnil] at hle
        simp at hle
      | single y | double parts =>
        rw [Segment.text, ← cons_append, ← append_assoc, getLast?_concat] at hc
        cases hc
        revert hblank
        decide
      | param y braced =>
        have hfix := hfixed arg harg
        unfold Word.fixed at hfix
        rw [Bool.and_eq_true] at hfix
        cases all_eq_true.mp hfix.2 _ hx
  obtain ⟨a, ha, -, hcount⟩ := p.exists_marks_trim hname hfixed hlast
  have hnewlines : p.call.literal.flatten.count '\n' =
      p.call.marks.reduceOption.count '\n' + a.count .continuation := by
    rw [hflatten, ha, reduceOption_append, count_append, reduceOption_spaces, count_replicate_self]
  have hle := p.call.reach.2
  have hword : ∀ c, ∀ arg ∈ p.call.args, arg.2.marks.reduceOption.count c = arg.2.literal.count c ∧
      (c = '\n' → .continuation ∉ arg.1.spaces) := by
    intro c
    refine Invocation.count_word ?_
    by_cases hc : c = '\n'
    · subst hc
      omega
    · exact hdropped c hc
  refine ⟨hname, hconstruct, fun arg harg => ⟨hfixed arg harg, fun hempty => ?_, fun x hx => ?_⟩,
    fun arg harg => (hword '\n' arg harg).2 rfl, by omega, hlast, hmerge, hwhole⟩
  · have hnil : [] ∉ p.call.literal := by
      rw [hliteral]
      exact nil_not_mem_grouped _ _
    exact hnil (mem_cons_of_mem _ (mem_map.mpr ⟨arg, harg, hempty⟩))
  · exact Segment.kept_of_count fun c => arg.2.count_segment (hword c arg harg).1 x hx

end HeraMind.Agent.Shell
