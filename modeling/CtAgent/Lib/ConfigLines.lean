import CtAgent.Lib.ArgvSplit
import CtAgent.Lib.Lines
import Mathlib.Data.List.TakeWhile

/-! The lines of an ssh_config file: comments, and keywords with the argument behind them. One line that
cannot be read refuses the file. -/
namespace CtAgent.Lib

/-- ssh's white space. -/
def sshBlank (c : Char) : Bool := c == ' ' || c == '\t' || c == '\r' || c == '\n'

/-- What a C string holds of a line. -/
def cString (line : List Char) : List Char := line.takeWhile (· ≠ '\x00')

def endsLine (c : Char) : Bool := sshBlank c || c == '\x0c'

/-- White space and form feeds at the end of a line are dropped. -/
def stripEnd (line : List Char) : List Char := (line.reverse.dropWhile endsLine).reverse

inductive ConfigLine where
  /-- an empty line or a comment -/
  | comment
  | option (keyword argument : List Char)
  deriving DecidableEq, Repr

def ConfigLine.keyword : ConfigLine → Option (List Char)
  | .comment => none
  | .option keyword _ => some keyword

def endsKeyword (c : Char) : Bool := sshBlank c || c == '='

/-- Behind a keyword one `=` is skipped, with the blanks around it. -/
def behindKeyword (text : List Char) : List Char :=
  match text.dropWhile sshBlank with
  | '=' :: rest => rest.dropWhile sshBlank
  | rest => rest

/-- The keywords whose line is a command, taken as it stands. -/
def commandKeywords : List (List Char) :=
  ["proxycommand".toList, "localcommand".toList, "remotecommand".toList, "knownhostscommand".toList]

/-- Those that ask for no word: a command is never split, and `Host` may name nobody. -/
def asksNoWord (keyword : List Char) : Bool := keyword == "host".toList || commandKeywords.elem keyword

/-- A keyword, in any case, with the rest of its line. -/
def readOption (keyword argument : List Char) : Option ConfigLine :=
  -- "no argument after keyword"
  if argument = [] then none
  else
    match argvSplit argument with
    -- "invalid quotes"
    | none => none
    | some words =>
      -- "missing argument"
      if !asksNoWord keyword && (words.head?.getD []).isEmpty then none
      else some (.option keyword
        (if commandKeywords.elem keyword then argument.dropWhile endsKeyword else argument))

/-- A line of ssh_config; `none` where ssh refuses it. -/
def readConfigLine (line : List Char) : Option ConfigLine :=
  let text := (stripEnd (cString line)).dropWhile sshBlank
  if text = [] ∨ text.head? = some '#' then some .comment
  else
    let keyword := text.takeWhile (!endsKeyword ·)
    readOption (keyword.map Char.toLower) (behindKeyword (text.drop keyword.length))

def configLines (text : List Char) : Option (List ConfigLine) :=
  let (lines, rest) := splitLines '\n' text
  (if rest = [] then lines else lines ++ [rest]).mapM readConfigLine

section
variable {x : List Char}

theorem cString_append (hx : ∀ c ∈ x, c ≠ '\x00') (y : List Char) : cString (x ++ y) = x ++ cString y := by
  apply List.takeWhile_append_of_pos
  intro c hc
  exact decide_eq_true (hx c hc)

theorem cString_eq (hx : ∀ c ∈ x, c ≠ '\x00') : cString x = x := by
  have h := cString_append hx []
  rw [List.append_nil] at h
  exact h.trans (List.append_nil x)

theorem stripEnd_append (hx : ∀ c ∈ x.getLast?, endsLine c = false) (y : List Char) :
    stripEnd (x ++ y) = x ++ stripEnd y := by
  have hkept : x.reverse.dropWhile endsLine = x.reverse := by
    cases hrev : x.reverse with
    | nil => rfl
    | cons c l =>
      have hc : endsLine c = false := hx c (by rw [List.getLast?_eq_head?_reverse, hrev]; rfl)
      rw [List.dropWhile_cons_of_neg (by rw [hc]; exact Bool.false_ne_true)]
  rw [stripEnd, stripEnd, List.reverse_append, List.dropWhile_append]
  split
  · next hempty =>
    rw [hkept, List.reverse_reverse, List.isEmpty_iff.mp hempty, List.reverse_nil, List.append_nil]
  · rw [List.reverse_append, List.reverse_reverse]

theorem stripEnd_eq (hx : ∀ c ∈ x.getLast?, endsLine c = false) : stripEnd x = x := by
  have h := stripEnd_append hx []
  rw [List.append_nil] at h
  exact h.trans (List.append_nil x)

theorem stripEnd_run (x : List Char) : stripEnd x <+: x := by
  have h := List.dropWhile_suffix (l := x.reverse) endsLine
  rw [← List.reverse_prefix, List.reverse_reverse] at h
  exact h

/-- The characters of a keyword. -/
def keywordChar (c : Char) : Bool := !(endsKeyword c || c == '\x00' || c == '\x0c' || c == '#')

theorem keywordChar_inLine {c : Char} (h : keywordChar c = true) :
    endsKeyword c = false ∧ sshBlank c = false ∧ endsLine c = false ∧ c ≠ '\x00' ∧ c ≠ '#' := by
  rw [keywordChar, Bool.not_eq_true'] at h
  simp only [Bool.or_eq_false_iff, beq_eq_false_iff_ne] at h
  obtain ⟨⟨⟨hkeyword, hnul⟩, hfeed⟩, hhash⟩ := h
  have hblank : sshBlank c = false := (Bool.or_eq_false_iff.mp hkeyword).1
  refine ⟨hkeyword, hblank, ?_, hnul, hhash⟩
  rw [endsLine, hblank, Bool.false_or]
  exact beq_eq_false_iff_ne.mpr hfeed

/-- A keyword and a blank behind it, however the line goes on. -/
theorem readConfigLine_option {blanks keyword : List Char} (hblanks : blanks.all (· == ' ') = true)
    (hkeyword : keyword.all keywordChar = true) (hne : keyword ≠ []) (rest : List Char) :
    readConfigLine (blanks ++ keyword ++ ' ' :: rest) =
      readOption (keyword.map Char.toLower) (behindKeyword (stripEnd (cString (' ' :: rest)))) := by
  obtain ⟨c, k, rfl⟩ := List.exists_cons_of_ne_nil hne
  have hchar (d : Char) (hd : d ∈ c :: k) := keywordChar_inLine (List.all_eq_true.mp hkeyword d hd)
  have hblank (d : Char) (hd : d ∈ blanks) : d = ' ' := beq_iff_eq.mp (List.all_eq_true.mp hblanks d hd)
  obtain ⟨-, hfirstBlank, -, -, hfirstHash⟩ := hchar c (List.mem_cons_self ..)
  have hcut : cString (blanks ++ c :: k ++ ' ' :: rest) = blanks ++ c :: k ++ cString (' ' :: rest) := by
    apply cString_append
    intro d hd
    rcases List.mem_append.mp hd with hd | hd
    · rw [hblank d hd]
      decide
    · exact (hchar d hd).2.2.2.1
  have hlast : ∀ d ∈ (blanks ++ c :: k).getLast?, endsLine d = false := by
    intro d hd
    rw [List.getLast?_append_of_ne_nil _ hne] at hd
    exact (hchar d (List.mem_of_mem_getLast? hd)).2.2.1
  have hdrop (y : List Char) : (blanks ++ c :: k ++ y).dropWhile sshBlank = c :: k ++ y := by
    rw [List.append_assoc, List.dropWhile_append_of_pos (fun d hd => by rw [hblank d hd]; rfl),
      List.cons_append,
      List.dropWhile_cons_of_neg (by rw [hfirstBlank]; exact Bool.false_ne_true)]
  have htake (y : List Char) (hy : y <+: ' ' :: rest) : (c :: k ++ y).takeWhile (!endsKeyword ·) = c :: k := by
    rw [List.takeWhile_append_of_pos]
    · cases y with
      | nil => rw [List.takeWhile_nil, List.append_nil]
      | cons d y =>
        obtain ⟨z, hz⟩ := hy
        obtain ⟨rfl, -⟩ := List.cons.inj hz
        rw [List.takeWhile_cons_of_neg (by decide), List.append_nil]
    · intro d hd
      rw [(hchar d hd).1]
      rfl
  have hrun : stripEnd (cString (' ' :: rest)) <+: ' ' :: rest :=
    (stripEnd_run _).trans (List.takeWhile_prefix _)
  have hoption : ¬ (c :: k ++ stripEnd (cString (' ' :: rest)) = [] ∨
      (c :: k ++ stripEnd (cString (' ' :: rest))).head? = some '#') := by
    rw [List.cons_append, List.head?_cons, Option.some.injEq]
    exact not_or.mpr ⟨List.cons_ne_nil _ _, hfirstHash⟩
  unfold readConfigLine
  dsimp only
  rw [hcut, stripEnd_append hlast, hdrop, if_neg hoption, htake _ hrun,
    List.drop_left]

/-- A text that stays whole as the end of a line. -/
structure LineText (l : List Char) : Prop where
  clear : ∀ c ∈ l, c ≠ '\n' ∧ c ≠ '\x00'
  nonempty : l ≠ []
  last : ∀ c ∈ l.getLast?, endsLine c = false

theorem lineText_char {c : Char} (hclear : c ≠ '\n' ∧ c ≠ '\x00') (hlast : endsLine c = false) :
    LineText [c] := by
  refine ⟨?_, List.cons_ne_nil _ _, ?_⟩
  · intro d hd
    rw [List.mem_singleton.mp hd]
    exact hclear
  · rintro d ⟨⟩
    exact hlast

theorem LineText.append {l : List Char} (h : LineText l) (hx : ∀ c ∈ x, c ≠ '\n' ∧ c ≠ '\x00') :
    LineText (x ++ l) := by
  refine ⟨?_, ?_, ?_⟩
  · intro c hc
    rcases List.mem_append.mp hc with hc | hc
    · exact hx c hc
    · exact h.clear c hc
  · exact List.append_ne_nil_of_right_ne_nil _ h.nonempty
  · intro c hc
    rw [List.getLast?_append_of_ne_nil _ h.nonempty] at hc
    exact h.last c hc

/-- A keyword with a text behind it that stays whole. -/
theorem readConfigLine_text {blanks keyword l : List Char} (hblanks : blanks.all (· == ' ') = true)
    (hkeyword : keyword.all keywordChar = true) (hne : keyword ≠ []) (hl : LineText l)
    (hfirst : ∀ c ∈ l.head?, endsKeyword c = false) :
    readConfigLine (blanks ++ keyword ++ ' ' :: l) = readOption (keyword.map Char.toLower) l := by
  have hblank : LineText (' ' :: l) := by
    apply hl.append (x := [' '])
    intro c hc
    rw [List.mem_singleton.mp hc]
    decide
  have hargument : behindKeyword (' ' :: l) = l := by
    obtain ⟨c, k, rfl⟩ := List.exists_cons_of_ne_nil hl.nonempty
    have hc : endsKeyword c = false := hfirst c rfl
    obtain ⟨hspace, hequals⟩ := Bool.or_eq_false_iff.mp hc
    unfold behindKeyword
    rw [List.dropWhile_cons_of_pos (by decide),
      List.dropWhile_cons_of_neg (by rw [hspace]; exact Bool.false_ne_true)]
    split
    · next h =>
      rw [(List.cons.inj h).1] at hequals
      exact absurd hequals (by decide)
    · rfl
  rw [readConfigLine_option hblanks hkeyword hne, cString_eq (fun c hc => (hblank.clear c hc).2),
    stripEnd_eq hblank.last, hargument]

/-- Where the split is done and gives the words asked for, the line is an option. -/
theorem readOption_of_split {keyword argument : List Char} {words : List (List Char)} (hne : argument ≠ [])
    (hwords : argvSplit argument = some words)
    (hfirst : asksNoWord keyword = true ∨ words.head?.getD [] ≠ []) :
    readOption keyword argument = some (.option keyword
      (if commandKeywords.elem keyword then argument.dropWhile endsKeyword else argument)) := by
  unfold readOption
  rw [if_neg hne]
  simp only [hwords]
  rw [if_neg]
  rcases hfirst with h | h
  · simp [h]
  · simp [h]

theorem readOption_split {keyword argument : List Char} {line : ConfigLine}
    (h : readOption keyword argument = some line) :
    ∃ words, argvSplit argument = some words ∧ (asksNoWord keyword = true ∨ words.head?.getD [] ≠ []) ∧
      line = .option keyword (if commandKeywords.elem keyword then argument.dropWhile endsKeyword
        else argument) := by
  unfold readOption at h
  split at h
  · cases h
  · split at h
    · cases h
    · next words hwords =>
      split at h
      · cases h
      · next hgood =>
        cases h
        refine ⟨words, hwords, ?_, rfl⟩
        by_cases hasks : asksNoWord keyword = true
        · exact .inl hasks
        · right
          simpa [hasks] using hgood

theorem mem_of_mem_readOption {keyword argument keyword' argument' : List Char}
    (h : readOption keyword argument = some (.option keyword' argument')) {c : Char} (hc : c ∈ argument') :
    c ∈ argument := by
  obtain ⟨words, -, -, hline⟩ := readOption_split h
  obtain ⟨-, rfl⟩ := ConfigLine.option.inj hline
  split at hc
  · exact (List.dropWhile_suffix _).subset hc
  · exact hc

theorem behindKeyword_suffix (text : List Char) : behindKeyword text <:+ text := by
  have hblanks : text.dropWhile sshBlank <:+ text := List.dropWhile_suffix _
  unfold behindKeyword
  split
  · next rest h =>
    rw [h] at hblanks
    exact (List.dropWhile_suffix _).trans ((List.suffix_cons _ _).trans hblanks)
  · exact hblanks

theorem mem_of_mem_argument {line keyword argument : List Char}
    (h : readConfigLine line = some (.option keyword argument)) {c : Char} (hc : c ∈ argument) :
    c ∈ cString line := by
  unfold readConfigLine at h
  dsimp only at h
  split at h
  · cases h
  have hbehind := (List.drop_suffix _ _).subset
    ((behindKeyword_suffix _).subset (mem_of_mem_readOption h hc))
  exact (stripEnd_run _).subset ((List.dropWhile_suffix _).subset hbehind)

theorem mapM_cons_some {α β : Type*} {f : α → Option β} {a : α} {b : β} {l : List α} {r : List β}
    (hb : f a = some b) (hr : l.mapM f = some r) : (a :: l).mapM f = some (b :: r) := by
  rw [List.mapM_cons, hb, hr]
  rfl

/-- What was read came out of one line each. -/
theorem mapM_mem {α β : Type*} {f : α → Option β} {l : List α} {r : List β} (h : l.mapM f = some r) :
    (∀ x ∈ l, ∃ y ∈ r, f x = some y) ∧ ∀ y ∈ r, ∃ x ∈ l, f x = some y := by
  induction l generalizing r with
  | nil =>
    cases h
    exact ⟨nofun, nofun⟩
  | cons a l ih =>
    rw [List.mapM_cons] at h
    obtain ⟨b, hb, h⟩ := Option.bind_eq_some_iff.mp h
    obtain ⟨r', hr', h⟩ := Option.bind_eq_some_iff.mp h
    cases h
    obtain ⟨hto, hfrom⟩ := ih hr'
    constructor
    · intro x hx
      rcases List.mem_cons.mp hx with rfl | hx
      · exact ⟨b, List.mem_cons_self, hb⟩
      · obtain ⟨y, hy, hxy⟩ := hto x hx
        exact ⟨y, List.mem_cons_of_mem b hy, hxy⟩
    · intro y hy
      rcases List.mem_cons.mp hy with rfl | hy
      · exact ⟨a, List.mem_cons_self, hb⟩
      · obtain ⟨x, hx, hxy⟩ := hfrom y hy
        exact ⟨x, List.mem_cons_of_mem a hx, hxy⟩

/-- An argument is cut out of one line, and no line holds a newline or more than a C string does. -/
theorem clear_of_mem_argument {text keyword argument : List Char} {read : List ConfigLine}
    (hread : configLines text = some read) (h : .option keyword argument ∈ read)
    {c : Char} (hc : c ∈ argument) : c ≠ '\n' ∧ c ≠ '\x00' := by
  obtain ⟨line, hline, hoption⟩ := (mapM_mem hread).2 _ h
  have hmem : c ∈ cString line := mem_of_mem_argument hoption hc
  have hnul : decide (c ≠ '\x00') = true := List.mem_takeWhile_imp (p := (· ≠ '\x00')) hmem
  refine ⟨?_, of_decide_eq_true hnul⟩
  have hin : c ∈ line := (List.takeWhile_prefix _).subset hmem
  have hlines := notMem_splitLines '\n' text
  rintro rfl
  split at hline
  · exact hlines line hline hin
  · rcases List.mem_append.mp hline with hline | hline
    · exact hlines line hline hin
    · rw [List.mem_singleton.mp hline] at hin
      exact notMem_splitLines_rest '\n' text hin

/-- A file of whole lines. -/
theorem configLines_of_lines {lines : List (List Char)} (h : ∀ l ∈ lines, '\n' ∉ l) :
    configLines (lines.flatMap (fun l => l ++ ['\n'])) = lines.mapM readConfigLine := by
  have hsplit := splitLines_flatMap h (List.not_mem_nil (a := '\n'))
  rw [List.append_nil] at hsplit
  unfold configLines
  rw [hsplit]
  rfl

end

end CtAgent.Lib
