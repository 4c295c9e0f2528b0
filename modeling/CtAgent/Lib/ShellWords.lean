import CtAgent.Lib.Run

/-! A command line of literal words: percent tokens, and the words a POSIX shell makes of it. -/
namespace CtAgent.Lib

section
variable {α : Type} [DecidableEq α]

/-- `str::replace` of one character by a text. -/
def replaceChar (c : α) (w s : List α) : List α := s.flatMap fun d => if d = c then w else [d]

theorem replaceChar_append (c : α) (w s t : List α) :
    replaceChar c w (s ++ t) = replaceChar c w s ++ replaceChar c w t := List.flatMap_append

theorem of_mem_replaceChar {P : α → Prop} {c d : α} {w s : List α} (hw : ∀ x ∈ w, P x) (hs : ∀ x ∈ s, P x)
    (h : d ∈ replaceChar c w s) : P d := by
  obtain ⟨x, hx, hd⟩ := List.mem_flatMap.mp h
  split at hd
  · exact hw d hd
  · rw [List.mem_singleton.mp hd]
    exact hs x hx

theorem replaceChar_of_notMem {c : α} {s : List α} (w : List α) (h : c ∉ s) : replaceChar c w s = s := by
  induction s with
  | nil => rfl
  | cons d s ih =>
    obtain ⟨hd, hs⟩ := not_or.mp (fun hor => h (List.mem_cons.mpr hor))
    have hrest : replaceChar c w s = s := ih hs
    have hfirst : (if d = c then w else [d]) = [d] := if_neg (Ne.symm hd)
    rw [replaceChar] at hrest ⊢
    rw [List.flatMap_cons, hfirst, hrest, List.singleton_append]

end

/-- `%%` is a percent sign; another token is not literal text. -/
def percentExpand : List Char → Option (List Char)
  | [] => some []
  | '%' :: '%' :: cs => (percentExpand cs).map ('%' :: ·)
  | '%' :: _ => none
  | c :: cs => (percentExpand cs).map (c :: ·)

/-- Doubled percent signs are read as they were. -/
theorem percentExpand_doubled (s : List Char) : percentExpand (replaceChar '%' ['%', '%'] s) = some s := by
  induction s with
  | nil => rfl
  | cons c s ih =>
    have hcons : replaceChar '%' ['%', '%'] (c :: s) =
        (if c = '%' then ['%', '%'] else [c]) ++ replaceChar '%' ['%', '%'] s := rfl
    by_cases hc : c = '%'
    · rw [hcons, if_pos hc, hc]
      simp [percentExpand, ih]
    · rw [hcons, if_neg hc, List.singleton_append, percentExpand.eq_4, ih]
      · rfl
      · exact fun cs h _ => hc h
      · exact hc

theorem mem_of_mem_percentExpand {s t : List Char} (h : percentExpand s = some t) {c : Char} (hc : c ∈ t) :
    c ∈ s := by
  induction s using percentExpand.induct generalizing t with
  | case1 =>
    cases h
    exact hc
  | case2 cs ih =>
    obtain ⟨u, hu, rfl⟩ := Option.map_eq_some_iff.mp h
    rcases List.mem_cons.mp hc with rfl | hc
    · exact List.mem_cons_self ..
    · exact List.mem_cons_of_mem _ (List.mem_cons_of_mem _ (ih hu hc))
  | case3 cs hcs => simp [percentExpand] at h
  | case4 d cs hd hdd ih =>
    rw [percentExpand.eq_4 d cs hd hdd] at h
    obtain ⟨u, hu, rfl⟩ := Option.map_eq_some_iff.mp h
    rcases List.mem_cons.mp hc with rfl | hc
    · exact List.mem_cons_self ..
    · exact List.mem_cons_of_mem _ (ih hu hc)

inductive Quoting where
  | plain
  | escaped
  | single
  | double
  | doubleEscaped
  deriving DecidableEq, Repr

/-- The words that are complete, the one under way if one is, and how the next character is quoted. -/
structure ShellState where
  words : List (List Char)
  word : Option (List Char)
  quoting : Quoting
  deriving DecidableEq, Repr

def ShellState.push (s : ShellState) (c : Char) : ShellState := { s with word := some (s.word.getD [] ++ [c]) }

/-- Unquoted these are an operator, an expansion, a pattern or the end of the command. -/
def shellActive (c : Char) : Bool := ['|', '&', ';', '<', '>', '(', ')', '$', '`', '*', '?', '[', '\n'].elem c

/-- One character of a command line; `none` where the shell would do anything but split. -/
def shellStep (s : ShellState) (c : Char) : Option ShellState :=
  match s.quoting with
  | .plain =>
    if c = ' ' ∨ c = '\t' then some ⟨s.words ++ s.word.toList, none, .plain⟩
    else if c = '\\' then some { s with quoting := .escaped }
    else if c = '\'' then some { s with word := some (s.word.getD []), quoting := .single }
    else if c = '"' then some { s with word := some (s.word.getD []), quoting := .double }
    -- a home directory or a comment begins a word
    else if shellActive c ∨ (s.word = none ∧ (c = '~' ∨ c = '#')) then none
    else some (s.push c)
  | .escaped =>
    -- an escaped newline is dropped with its backslash
    if c = '\n' then some { s with quoting := .plain } else some { s.push c with quoting := .plain }
  | .single => if c = '\'' then some { s with quoting := .plain } else some (s.push c)
  | .double =>
    if c = '"' then some { s with quoting := .plain }
    else if c = '\\' then some { s with quoting := .doubleEscaped }
    else if c = '$' ∨ c = '`' then none
    else some (s.push c)
  | .doubleEscaped =>
    if c = '\n' then some { s with quoting := .double }
    else if c = '$' ∨ c = '`' ∨ c = '"' ∨ c = '\\' then some { s.push c with quoting := .double }
    else some { (s.push '\\').push c with quoting := .double }

def ShellState.finish (s : ShellState) : Option (List (List Char)) :=
  if s.quoting = .plain then some (s.words ++ s.word.toList) else none

/-- The words of a simple command of literal words. -/
def shellWords (cs : List Char) : Option (List (List Char)) :=
  (run shellStep ⟨[], none, .plain⟩ cs).bind ShellState.finish

/-- Characters that stand for themselves, also at the front of a word. -/
def shellLiteral (c : Char) : Bool :=
  !(shellActive c || [' ', '\t', '\\', '\'', '"', '~', '#'].elem c)

/-- Text in single quotes, a quote in it closed around an escaped one. -/
def singleQuoted (s : List Char) : List Char := '\'' :: replaceChar '\'' ['\'', '\\', '\'', '\''] s ++ ['\'']

section
variable {words : List (List Char)} {word : Option (List Char)}

theorem shellStep_blank : shellStep ⟨words, word, .plain⟩ ' ' = some ⟨words ++ word.toList, none, .plain⟩ :=
  rfl

/-- A character the split has no rule for. -/
theorem shellStep_push {c : Char} (hblank : ¬ (c = ' ' ∨ c = '\t')) (hback : c ≠ '\\') (hquote : c ≠ '\'')
    (hdouble : c ≠ '"') (hactive : ¬ (shellActive c = true ∨ (word = none ∧ (c = '~' ∨ c = '#')))) :
    shellStep ⟨words, word, .plain⟩ c = some ⟨words, some (word.getD [] ++ [c]), .plain⟩ := by
  simp only [shellStep, if_neg hblank, if_neg hback, if_neg hquote, if_neg hdouble, if_neg hactive,
    ShellState.push]

theorem shellStep_literal {c : Char} (hc : shellLiteral c = true) :
    shellStep ⟨words, word, .plain⟩ c = some ⟨words, some (word.getD [] ++ [c]), .plain⟩ := by
  have hplain : ¬ (shellActive c || [' ', '\t', '\\', '\'', '"', '~', '#'].elem c) = true := by
    rw [shellLiteral, Bool.not_eq_true'] at hc
    rw [hc]
    exact Bool.false_ne_true
  have hnot (d : Char) (hd : [' ', '\t', '\\', '\'', '"', '~', '#'].elem d = true) : c ≠ d := by
    rintro rfl
    exact hplain (by rw [hd, Bool.or_true])
  apply shellStep_push
  · exact not_or.mpr ⟨hnot ' ' rfl, hnot '\t' rfl⟩
  · exact hnot '\\' rfl
  · exact hnot '\'' rfl
  · exact hnot '"' rfl
  · rintro (hactive | ⟨-, hstart⟩)
    · exact hplain (by rw [hactive, Bool.true_or])
    · exact not_or.mpr ⟨hnot '~' rfl, hnot '#' rfl⟩ hstart

/-- Inside a word a tilde stands for itself. -/
theorem run_inWord {w l : List Char} (hl : ∀ c ∈ l, shellLiteral c = true ∨ c = '~') :
    run shellStep ⟨words, some w, .plain⟩ l = some ⟨words, some (w ++ l), .plain⟩ := by
  induction l generalizing w with
  | nil => rw [List.append_nil, run]
  | cons c l ih =>
    have hrest := ih (w := w ++ [c]) (fun d hd => hl d (List.mem_cons_of_mem c hd))
    rw [List.append_assoc, List.singleton_append] at hrest
    have hstep : shellStep ⟨words, some w, .plain⟩ c = some ⟨words, some (w ++ [c]), .plain⟩ := by
      rcases hl c (List.mem_cons_self ..) with hliteral | rfl
      · exact shellStep_literal hliteral
      · exact shellStep_push (by decide) (by decide) (by decide) (by decide) (by simp [shellActive])
    rw [run, hstep, Option.bind_some, hrest]

/-- The shell takes this text for that one word. -/
def Spells (text w : List Char) : Prop :=
  ∀ words, run shellStep ⟨words, none, .plain⟩ text = some ⟨words, some w, .plain⟩

theorem spells_literal {c : Char} {l : List Char} (hc : shellLiteral c = true)
    (hl : ∀ d ∈ l, shellLiteral d = true ∨ d = '~') : Spells (c :: l) (c :: l) := by
  intro words
  rw [run, shellStep_literal hc, Option.bind_some]
  exact run_inWord hl

theorem run_escapedQuotes (w s : List Char) :
    run shellStep ⟨words, some w, .single⟩ (replaceChar '\'' ['\'', '\\', '\'', '\''] s) =
      some ⟨words, some (w ++ s), .single⟩ := by
  induction s generalizing w with
  | nil => rw [List.append_nil, replaceChar, List.flatMap_nil, run]
  | cons c s ih =>
    have hcons : replaceChar '\'' ['\'', '\\', '\'', '\''] (c :: s) =
        (if c = '\'' then ['\'', '\\', '\'', '\''] else [c]) ++ replaceChar '\'' ['\'', '\\', '\'', '\''] s :=
          rfl
    have hrest := ih (w ++ [c])
    rw [List.append_assoc, List.singleton_append] at hrest
    rw [hcons, run_append, ← hrest]
    by_cases hc : c = '\''
    · rw [if_pos hc, hc]
      rfl
    · rw [if_neg hc]
      simp [run, shellStep, hc, ShellState.push]

/-- A quoted text is a word of its own characters. -/
theorem spells_singleQuoted (s : List Char) : Spells (singleQuoted s) s := by
  intro words
  have hopen : run shellStep ⟨words, none, .plain⟩ (singleQuoted s) =
      run shellStep ⟨words, some [], .single⟩ (replaceChar '\'' ['\'', '\\', '\'', '\''] s ++ ['\'']) := rfl
  rw [hopen, run_append, run_escapedQuotes]
  rfl

/-- Words spelled one behind the other, a blank in front of each. -/
theorem run_spelled {texts ws : List (List Char)} (h : List.Forall₂ Spells texts ws) (words : List (List Char))
    (w : List Char) :
    (run shellStep ⟨words, some w, .plain⟩ (texts.flatMap (' ' :: ·))).bind ShellState.finish =
      some (words ++ w :: ws) := by
  induction h generalizing words w with
  | nil => rfl
  | cons hfirst _ ih =>
    rw [List.flatMap_cons, List.cons_append, run, shellStep_blank, Option.bind_some, run_append, hfirst,
      Option.bind_some, ih, Option.toList_some, List.append_assoc, List.singleton_append]

theorem shellWords_spelled {text w : List Char} {texts ws : List (List Char)} (hfirst : Spells text w)
    (h : List.Forall₂ Spells texts ws) : shellWords (text ++ texts.flatMap (' ' :: ·)) = some (w :: ws) := by
  rw [shellWords, run_append, hfirst, Option.bind_some, run_spelled h, List.nil_append]

end

/-- Every character of a word stands in the command line. -/
structure ShellState.Within (cs : List Char) (s : ShellState) : Prop where
  words : ∀ w ∈ s.words, ∀ c ∈ w, c ∈ cs
  word : ∀ c ∈ s.word.getD [], c ∈ cs
  escape : s.quoting = .doubleEscaped → '\\' ∈ cs

section
variable {cs : List Char} {s s' : ShellState} {c : Char} {q : Quoting}

theorem ShellState.Within.push (h : s.Within cs) (hc : c ∈ cs) : (s.push c).Within cs := by
  refine ⟨h.words, ?_, h.escape⟩
  intro d hd
  rcases List.mem_append.mp hd with hd | hd
  · exact h.word d hd
  · rw [List.mem_singleton.mp hd]
    exact hc

theorem ShellState.Within.quote (h : s.Within cs) (hq : q = .doubleEscaped → '\\' ∈ cs) :
    ({ s with quoting := q } : ShellState).Within cs := ⟨h.words, h.word, hq⟩

theorem ShellState.Within.opened (h : s.Within cs) (hq : q ≠ .doubleEscaped) :
    (⟨s.words, some (s.word.getD []), q⟩ : ShellState).Within cs :=
  ⟨h.words, h.word, fun he => absurd he hq⟩

theorem ShellState.Within.done (h : s.Within cs) : ∀ w ∈ s.words ++ s.word.toList, ∀ c ∈ w, c ∈ cs := by
  intro w hw
  rcases List.mem_append.mp hw with hw | hw
  · exact h.words w hw
  · have hsome : s.word = some w := Option.mem_toList.mp hw
    intro c hc
    apply h.word c
    rw [hsome]
    exact hc

theorem ShellState.Within.step (h : s.Within cs) (hc : c ∈ cs) (hstep : shellStep s c = some s') :
    s'.Within cs := by
  unfold shellStep at hstep
  split at hstep
  · split_ifs at hstep with hblank hback hquote hdouble hactive <;> cases hstep
    · exact ⟨h.done, nofun, nofun⟩
    · exact h.quote nofun
    · exact h.opened nofun
    · exact h.opened nofun
    · exact h.push hc
  · split_ifs at hstep with hnewline <;> cases hstep
    · exact h.quote nofun
    · exact (h.push hc).quote nofun
  · split_ifs at hstep with hclose <;> cases hstep
    · exact h.quote nofun
    · exact h.push hc
  · split_ifs at hstep with hclose hback hactive <;> cases hstep
    · exact h.quote nofun
    · exact h.quote (fun _ => hback ▸ hc)
    · exact h.push hc
  · next hquoting =>
    split_ifs at hstep with hnewline hactive <;> cases hstep
    · exact h.quote nofun
    · exact (h.push hc).quote nofun
    · exact ((h.push (h.escape hquoting)).push hc).quote nofun

theorem mem_of_mem_shellWords {ws : List (List Char)} (h : shellWords cs = some ws)
    {w : List Char} (hw : w ∈ ws)
    (hc : c ∈ w) : c ∈ cs := by
  obtain ⟨t, hr, hfinish⟩ := Option.bind_eq_some_iff.mp h
  have hstart : (⟨[], none, .plain⟩ : ShellState).Within cs := ⟨nofun, nofun, nofun⟩
  have hend : t.Within cs := by
    apply run_invariant_of_mem (Q := fun d => d ∈ cs) _ (fun d hd => hd) hstart hr
    intro t d u hd ht hstep
    exact ht.step hd hstep
  obtain ⟨-, hwords⟩ := Option.ite_none_right_eq_some.mp hfinish
  rw [← Option.some.inj hwords] at hw
  exact hend.done w hw c hc

end

end CtAgent.Lib
