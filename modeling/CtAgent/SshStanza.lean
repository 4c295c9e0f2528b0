import CtAgent.SshAccess

/-! What ssh and the user's shell read out of the stanza of `ct-agent ssh-config`: ssh the lines of the file,
with its own idea of quotes, and the shell the words of the command. -/
namespace CtAgent.SshAccess

open CtAgent.Lib

/-- The words the shell is to run. -/
def proxyWords (args : SshConfigArgs) : List (List Char) :=
  ["ct-agent".toList, "ssh".toList, args.hostname.toList] ++
    (match args.port with | some p => ["--port".toList, p.repr.toList] | none => []) ++
    (match args.ca with | some ca => ["--ca".toList, ca.toList] | none => []) ++
    (match args.ownerKeyFile with | some f => ["--owner-key-file".toList, f.toList] | none => [])

/-- The stanza's lines, and the words of its command as ssh and the shell read them. -/
structure LinesMean (args : SshConfigArgs) (lines : List ConfigLine) : Prop where
  keywords : lines.map ConfigLine.keyword =
    [none, some "host".toList, some "proxycommand".toList] ++ args.user.toList.map fun _ => some "user".toList
  host : .option "host".toList args.hostname.toList ∈ lines
  command : ∃ command, .option "proxycommand".toList command ∈ lines ∧
    (percentExpand command).bind shellWords = some (proxyWords args)

/-- ssh takes the file, and it means what was asked. -/
def StanzaMeans (args : SshConfigArgs) (text : List Char) : Prop :=
  ∃ lines, configLines text = some lines ∧ LinesMean args lines

/-- A path whose characters all fit on a line of a C string. -/
def FitsLine (path : String) : Prop := '\n' ∉ path.toList ∧ '\x00' ∉ path.toList

instance : DecidablePred FitsLine := fun path =>
  inferInstanceAs (Decidable ('\n' ∉ path.toList ∧ '\x00' ∉ path.toList))

/-- The two paths of a stanza. -/
def SshConfigArgs.paths (args : SshConfigArgs) : List String := args.ca.toList ++ args.ownerKeyFile.toList

/-- ssh at one character of a path between single quotes, where the shell asks for a quote to be written
outside of them. -/
def quotedStep (m : ArgvMode) (c : Char) : ArgvMode :=
  if c = '\'' then m.steps ['\'', '\\', '\'', '\''] else m.step c

/-- ssh's walk over a path: as it is if it is plain, and between single quotes if not. -/
def pathSteps (m : ArgvMode) (path : String) : ArgvMode :=
  if path ≠ "" ∧ path.toList.all plainPath then m.steps path.toList
  else (path.toList.foldl quotedStep (m.step '\'')).step '\''

/-- No quote is left open behind the paths. -/
def ClosesQuotes (paths : List String) : Prop :=
  (paths.foldl (fun m path => pathSteps (m.step ' ') path) ArgvMode.gap).isOpen = false

instance : DecidablePred ClosesQuotes := fun paths =>
  inferInstanceAs (Decidable ((paths.foldl (fun m path => pathSteps (m.step ' ') path) ArgvMode.gap).isOpen =
    false))

/-- ssh splits the user name, behind one `=`, and its first word is not empty. -/
def UserRead (user : String) : Prop :=
  ∃ words, argvSplit (behindKeyword (cString user.toList)) = some words ∧ words.head?.getD [] ≠ []

/-- What ssh can read. -/
structure Readable (args : SshConfigArgs) : Prop where
  fits : ∀ path ∈ args.paths, FitsLine path
  quotes : ClosesQuotes args.paths
  user : ∀ user ∈ args.user, UserRead user

section
variable {l : List Char} {ls : List (List Char)} {path : String}

theorem PlainWord.lineText (h : PlainWord l) : LineText l := by
  refine ⟨?_, h.nonempty, ?_⟩
  · intro c hc
    have hplain := plainPath_inLine (h.plain c hc)
    exact ⟨hplain.2.1, hplain.2.2.1⟩
  · intro c hc
    exact (plainPath_inLine (h.plain c (List.mem_of_mem_getLast? hc))).2.2.2

theorem lineText_singleQuoted (h : FitsLine path) : LineText (singleQuoted path.toList) := by
  have hquote : LineText ['\''] := lineText_char (by decide) (by decide)
  apply hquote.append
  intro c hc
  rcases List.mem_cons.mp hc with rfl | hc
  · decide
  · apply of_mem_replaceChar (P := fun c => c ≠ '\n' ∧ c ≠ '\x00') (by simp) _ hc
    intro d hd
    exact ⟨fun hn => h.1 (hn ▸ hd), fun hn => h.2 (hn ▸ hd)⟩

theorem lineText_shellSpelling (h : FitsLine path) : LineText (shellSpelling path) := by
  unfold shellSpelling
  split
  · next hplain => exact (plainWord_of_path hplain).lineText
  · exact lineText_singleQuoted h

theorem lineText_percent (h : LineText l) : LineText (replaceChar '%' ['%', '%'] l) := by
  have hclear : ∀ c ∈ replaceChar '%' ['%', '%'] l, c ≠ '\n' ∧ c ≠ '\x00' := fun c hc =>
    of_mem_replaceChar (P := fun c => c ≠ '\n' ∧ c ≠ '\x00') (by simp) h.clear hc
  obtain ⟨x, c, rfl⟩ := (List.eq_nil_or_concat l).resolve_left h.nonempty
  rw [List.concat_eq_append, replaceChar_append] at hclear ⊢
  have hlast : LineText (replaceChar '%' ['%', '%'] [c]) := by
    by_cases hc : c = '%'
    · rw [hc]
      have hpercent : LineText ['%'] := lineText_char (by decide) (by decide)
      exact hpercent.append hpercent.clear
    · rw [replaceChar_of_notMem _ (by simpa using Ne.symm hc)]
      exact lineText_char (h.clear c (by simp)) (h.last c (by simp))
  exact hlast.append fun d hd => hclear d (List.mem_append_left _ hd)

theorem lineText_typed (h : ∀ l ∈ ls, LineText l) (hne : ls ≠ []) : LineText (typed ls) := by
  induction ls with
  | nil => exact absurd rfl hne
  | cons l ls ih =>
    have hfirst := lineText_percent (h l (List.mem_cons_self ..))
    have hblank : LineText (' ' :: replaceChar '%' ['%', '%'] l) := by
      apply hfirst.append (x := [' '])
      intro c hc
      rw [List.mem_singleton.mp hc]
      decide
    rw [typed_cons]
    by_cases hls : ls = []
    · rw [hls, typed_nil, List.append_nil]
      exact hblank
    · have hrest := ih (fun l' hl' => h l' (List.mem_cons_of_mem _ hl')) hls
      exact hrest.append hblank.clear

end

/-- The letters, digits and signs of a DNS name. -/
def dnsChar (c : Char) : Bool := c.isAlphanum || c == '-' || c == '_' || c == '.'

def DnsText (hostname : String) : Prop := hostname ≠ "" ∧ hostname.toList.all dnsChar = true

instance : DecidablePred DnsText := fun hostname =>
  inferInstanceAs (Decidable (hostname ≠ "" ∧ hostname.toList.all dnsChar = true))

section
variable {args : SshConfigArgs}

theorem DnsText.char (h : DnsText args.hostname) {c : Char} (hc : c ∈ args.hostname.toList) :
    dnsChar c = true :=
  List.all_eq_true.mp h.2 c hc

theorem dnsChar_plain {c : Char} (h : dnsChar c = true) : plainPath c = true := by
  simp only [dnsChar, Bool.or_eq_true, beq_iff_eq] at h
  rcases h with ((halnum | rfl) | rfl) | rfl
  · rw [plainPath, halnum, Bool.true_or]
  · decide
  · decide
  · decide

theorem DnsText.plainWord (h : DnsText args.hostname) : PlainWord args.hostname.toList := by
  refine ⟨?_, fun c hc => dnsChar_plain (h.char hc)⟩
  intro hnil
  exact h.1 (String.toList_eq_nil_iff.mp hnil)

theorem DnsText.noTilde (h : DnsText args.hostname) : args.hostname.toList.head? ≠ some '~' := by
  intro htilde
  have htildeChar := h.char (List.mem_of_mem_head? htilde)
  exact absurd htildeChar (by decide)

theorem repr_noTilde (n : ℕ) : n.repr.toList.head? ≠ some '~' := by
  intro htilde
  have hdigits : n.repr.toList = Nat.toDigits 10 n := by simp
  have hdigit := Nat.isDigit_of_mem_toDigits (by decide) (by decide) (hdigits ▸ List.mem_of_mem_head? htilde)
  exact absurd hdigit (by decide)

theorem proxySpellings_spell (hname : DnsText args.hostname)
    (htilde : ∀ path ∈ args.paths, path.toList.head? ≠ some '~') :
    List.Forall₂ Spells ("ct-agent".toList :: proxySpellings args) (proxyWords args) := by
  have hagent : Spells "ct-agent".toList "ct-agent".toList := plainWord_ctAgent.spells (by decide)
  have hhost : Spells args.hostname.toList args.hostname.toList := hname.plainWord.spells hname.noTilde
  have hpath (path : String) (hp : path ∈ args.paths) := spells_shellSpelling (htilde path hp)
  have hhead : List.Forall₂ Spells ("ct-agent".toList :: ["ssh".toList, args.hostname.toList])
      ["ct-agent".toList, "ssh".toList, args.hostname.toList] :=
    .cons hagent (.cons (plainWord_ssh.spells (by decide)) (.cons hhost .nil))
  refine List.rel_append (List.rel_append (List.rel_append hhead ?_) ?_) ?_
  · cases args.port with
    | none => exact .nil
    | some p =>
      exact .cons (plainWord_port.spells (by decide)) (.cons ((plainWord_repr p).spells (repr_noTilde p)) .nil)
  · cases hca : args.ca with
    | none => exact .nil
    | some ca =>
      have hmem : ca ∈ args.paths := by simp [SshConfigArgs.paths, hca]
      exact .cons (plainWord_ca.spells (by decide)) (.cons (hpath ca hmem) .nil)
  · cases hfile : args.ownerKeyFile with
    | none => exact .nil
    | some f =>
      have hmem : f ∈ args.paths := by simp [SshConfigArgs.paths, hfile]
      exact .cons (plainWord_ownerKeyFile.spells (by decide)) (.cons (hpath f hmem) .nil)

theorem lineText_renderProxy (hname : DnsText args.hostname) (hfits : ∀ path ∈ args.paths, FitsLine path) :
    LineText (renderProxy args).toList := by
  have hspelled : ∀ l ∈ proxySpellings args, LineText l := by
    intro l hl
    rcases List.mem_append.mp hl with hl | hfile
    · rcases List.mem_append.mp hl with hl | hca
      · exact (headSpellings_plain hname.plainWord l hl).lineText
      · cases hc : args.ca with
        | none =>
          rw [hc] at hca
          cases hca
        | some ca =>
          rw [hc] at hca
          rcases List.mem_pair.mp hca with rfl | rfl
          · exact plainWord_ca.lineText
          · exact lineText_shellSpelling (hfits ca (by simp [SshConfigArgs.paths, hc]))
    · cases hf : args.ownerKeyFile with
      | none =>
        rw [hf] at hfile
        cases hfile
      | some f =>
        rw [hf] at hfile
        rcases List.mem_pair.mp hfile with rfl | rfl
        · exact plainWord_ownerKeyFile.lineText
        · exact lineText_shellSpelling (hfits f (by simp [SshConfigArgs.paths, hf]))
  rw [renderProxy_toList hname.plainWord]
  exact (lineText_typed hspelled (List.cons_ne_nil _ _)).append plainWord_ctAgent.lineText.clear

section
variable {m : ArgvMode} {l : List Char} {ls : List (List Char)}

theorem PlainWord.steps (h : PlainWord l) (m : ArgvMode) : m.steps l = match m with
    | .comment => .comment
    | .gap => .word none false
    | .word quote _ => .word quote false :=
  ArgvMode.steps_literals (fun c hc => plainPath_argv (h.plain c hc)) h.nonempty m

/-- Plain words behind one another leave no more than a word. -/
theorem steps_plain (h : ∀ l ∈ ls, PlainWord l) :
    (ArgvMode.word none false).steps (ls.flatMap (' ' :: ·)) = .word none false := by
  induction ls with
  | nil => rfl
  | cons l ls ih =>
    have hone : ((ArgvMode.word none false).step ' ').steps l = .word none false :=
      (h l List.mem_cons_self).steps _
    rw [List.flatMap_cons, ArgvMode.steps_append, ArgvMode.steps_cons, hone]
    exact ih (fun l' hl' => h l' (List.mem_cons_of_mem _ hl'))

theorem quotedStep_foldl (m : ArgvMode) (text : List Char) :
    m.steps (replaceChar '\'' ['\'', '\\', '\'', '\''] text) = text.foldl quotedStep m := by
  induction text generalizing m with
  | nil => rfl
  | cons c text ih =>
    have hcons : replaceChar '\'' ['\'', '\\', '\'', '\''] (c :: text) =
        (if c = '\'' then ['\'', '\\', '\'', '\''] else [c]) ++
          replaceChar '\'' ['\'', '\\', '\'', '\''] text := List.flatMap_cons
    have hstep : m.steps (if c = '\'' then ['\'', '\\', '\'', '\''] else [c]) = quotedStep m c := by
      unfold quotedStep
      split <;> rfl
    rw [hcons, ArgvMode.steps_append, hstep, ih, List.foldl_cons]

theorem steps_shellSpelling (m : ArgvMode) (path : String) :
    m.steps (shellSpelling path) = pathSteps m path := by
  unfold shellSpelling pathSteps
  split
  · rfl
  · rw [singleQuoted, List.cons_append, ArgvMode.steps_cons, ArgvMode.steps_append, quotedStep_foldl]
    rfl

/-- No backslash is waiting behind a path. -/
theorem pathSteps_settled (m : ArgvMode) (path : String) : (pathSteps m path).settled = true := by
  unfold pathSteps
  split
  · next hplain =>
    rw [(plainWord_of_path hplain).steps]
    cases m <;> rfl
  · exact ArgvMode.step_settled (by decide) _

/-- A flag in front of a path is no more to ssh than the space in front of it. -/
theorem steps_flagged (hm : m.settled = true) (hl : PlainWord l) (path : String) :
    m.steps ([l, shellSpelling path].flatMap (' ' :: ·)) = pathSteps (m.step ' ') path := by
  have hflag : ((m.step ' ').steps l).step ' ' = m.step ' ' :=
    ArgvMode.steps_between (fun c hc => plainPath_argv (hl.plain c hc)) hl.nonempty hm
  rw [List.flatMap_cons, ArgvMode.steps_append, ArgvMode.steps_cons, List.flatMap_cons, List.flatMap_nil,
    List.append_nil, ArgvMode.steps_cons, hflag, steps_shellSpelling]

end

/-- Backslashes come in pairs in front of a single quote and at the end; `odd` behind an odd number. -/
def pairedBackslashes : Bool → List Char → Bool
  | odd, [] => !odd
  | odd, c :: rest =>
    if c = '\'' then !odd && pairedBackslashes false rest
    else pairedBackslashes (c == '\\' && !odd) rest

/-- Over such a path ssh stays in the single quotes. -/
theorem quoted_paired {odd : Bool} {path : List Char} (h : pairedBackslashes odd path = true) :
    (path.foldl quotedStep (.word (some .single) odd)).step '\'' = .word none false := by
  induction path generalizing odd with
  | nil =>
    obtain rfl : odd = false := by simpa [pairedBackslashes] using h
    rfl
  | cons c rest ih =>
    rw [pairedBackslashes] at h
    rw [List.foldl_cons]
    split at h
    · next hc =>
      obtain ⟨hodd, hrest⟩ := Bool.and_eq_true_iff.mp h
      obtain rfl : odd = false := by simpa using hodd
      subst hc
      exact ih hrest
    · next hc =>
      have hstep : quotedStep (.word (some .single) odd) c = .word (some .single) (c == '\\' && !odd) := by
        rw [quotedStep, if_neg hc]
        by_cases hback : c = '\\'
        · subst hback
          cases odd <;> rfl
        · have hfalse : (c == '\\') = false := beq_eq_false_iff_ne.mpr hback
          have hword : ArgvMode.inWord (some .single) c = .word (some .single) false := by
            simp [ArgvMode.inWord, hback, ArgvQuote.char, hc]
          rw [hfalse, Bool.false_and, ArgvMode.step, hword, ite_self]
      rw [hstep]
      exact ih h

/-- So every path whose backslashes are paired is closed again. -/
theorem closesQuotes_of_paired {paths : List String}
    (h : ∀ path ∈ paths, pairedBackslashes false path.toList = true) :
    ClosesQuotes paths := by
  have hpath (path : String) (hp : pairedBackslashes false path.toList = true) :
      pathSteps .gap path = .word none false := by
    unfold pathSteps
    split
    · next hplain => exact (plainWord_of_path hplain).steps .gap
    · exact quoted_paired hp
  have hall (m : ArgvMode) (hm : m = .gap ∨ m = .word none false) :
      (paths.foldl (fun m path => pathSteps (m.step ' ') path) m).isOpen = false := by
    induction paths generalizing m with
    | nil => rcases hm with rfl | rfl <;> rfl
    | cons path paths ih =>
      have hspace : m.step ' ' = .gap := by rcases hm with rfl | rfl <;> rfl
      rw [List.foldl_cons, hspace, hpath path (h path List.mem_cons_self)]
      exact ih (fun p hp => h p (List.mem_cons_of_mem _ hp)) _ (.inr rfl)
  exact hall .gap (.inl rfl)

/-- ssh splits the command where it closes its quotes over the paths. -/
theorem renderProxy_split (hname : DnsText args.hostname) :
    (argvSplit (renderProxy args).toList).isSome = true ↔ ClosesQuotes args.paths := by
  have hpaths : (ArgvMode.gap.steps (renderProxy args).toList).isOpen =
      (args.paths.foldl (fun m path => pathSteps (m.step ' ') path) ArgvMode.gap).isOpen := by
    rw [renderProxy_toList hname.plainWord, typed, ArgvMode.steps_append,
      ArgvMode.steps_replaceChar (by decide),
      plainWord_ctAgent.steps, proxySpellings, List.flatMap_append, List.flatMap_append, ArgvMode.steps_append,
      ArgvMode.steps_append, steps_plain (headSpellings_plain hname.plainWord)]
    unfold SshConfigArgs.paths
    cases hca : args.ca with
    | none =>
      cases hfile : args.ownerKeyFile with
      | none => rfl
      | some f =>
        dsimp only
        rw [List.flatMap_nil, ArgvMode.steps_nil, steps_flagged rfl plainWord_ownerKeyFile]
        rfl
    | some ca =>
      dsimp only
      rw [steps_flagged rfl plainWord_ca]
      cases hfile : args.ownerKeyFile with
      | none => rfl
      | some f =>
        dsimp only
        rw [steps_flagged (pathSteps_settled _ _) plainWord_ownerKeyFile]
        rfl
  rw [argvSplit_isSome, hpaths, ClosesQuotes, Bool.not_eq_true']

/-- The stanza as lines of text. -/
def stanzaLines (args : SshConfigArgs) : List (List Char) :=
  ["# ct-agent ssh: SSH over TLS through the CADS tunnel (scimbe/ct-agent#204)".toList,
    "Host".toList ++ ' ' :: args.hostname.toList, "  ProxyCommand".toList ++
      ' ' :: (renderProxy args).toList] ++
    args.user.toList.map fun user => "  User".toList ++ ' ' :: user.toList

theorem renderSshConfig_toList (args : SshConfigArgs) :
    (renderSshConfig args).toList = (stanzaLines args).flatMap fun l => l ++ ['\n'] := by
  unfold renderSshConfig stanzaLines
  cases args.user with
  | none => simp [toString]
  | some user => simp [toString]

/-- What the parser leaves of a user name stays on its line. -/
theorem newline_notMem_user {user : String} (h : user.toList.any isWhiteSpace = false) :
    '\n' ∉ user.toList := by
  intro hmem
  have hspace : user.toList.any isWhiteSpace = true := List.any_eq_true.mpr ⟨'\n', hmem, by decide⟩
  rw [h] at hspace
  cases hspace

theorem newline_notMem_stanza (hname : DnsText args.hostname) (hfits : ∀ path ∈ args.paths, FitsLine path)
    (huser : ∀ u ∈ args.user, u.toList.any isWhiteSpace = false) : ∀ l ∈ stanzaLines args, '\n' ∉ l := by
  have hword {x l : List Char} (hx : '\n' ∉ x) (hl : '\n' ∉ l) : '\n' ∉ x ++ ' ' :: l := by
    rw [List.mem_append, List.mem_cons]
    rintro (h | h | h)
    · exact hx h
    · exact absurd h (by decide)
    · exact hl h
  intro l hl
  rcases List.mem_append.mp hl with hl | hl
  · simp only [List.mem_cons, List.not_mem_nil, or_false] at hl
    rcases hl with rfl | rfl | rfl
    · decide
    · exact hword (by decide) fun h => (hname.plainWord.lineText.clear _ h).1 rfl
    · exact hword (by decide) fun h => ((lineText_renderProxy hname hfits).clear _ h).1 rfl
  · obtain ⟨user, hu, rfl⟩ := List.mem_map.mp hl
    exact hword (by decide) (newline_notMem_user (huser user (Option.mem_toList.mp hu)))

theorem stanza_comment :
    readConfigLine "# ct-agent ssh: SSH over TLS through the CADS tunnel (scimbe/ct-agent#204)".toList =
      some .comment := by
  decide

theorem stanza_host (hname : DnsText args.hostname) :
    readConfigLine ("Host".toList ++ ' ' :: args.hostname.toList) =
      some (.option "host".toList args.hostname.toList) := by
  have hfirst : ∀ c ∈ args.hostname.toList.head?, endsKeyword c = false := by
    intro c hc
    have hmem := List.mem_of_mem_head? hc
    have hblank : endsLine c = false := (plainPath_inLine (hname.plainWord.plain c hmem)).2.2.2
    have hequals : c ≠ '=' := by
      rintro rfl
      exact absurd (hname.char hmem) (by decide)
    rw [endsKeyword, (Bool.or_eq_false_iff.mp hblank).1, Bool.false_or]
    exact beq_eq_false_iff_ne.mpr hequals
  have hread : readConfigLine ([] ++ "Host".toList ++ ' ' :: args.hostname.toList) = _ :=
    readConfigLine_text rfl (by decide) (by decide) hname.plainWord.lineText hfirst
  have hsplit : (argvSplit args.hostname.toList).isSome = true := by
    rw [argvSplit_isSome, hname.plainWord.steps]
    rfl
  obtain ⟨words, hwords⟩ := Option.isSome_iff_exists.mp hsplit
  exact hread.trans (readOption_of_split hname.plainWord.nonempty hwords (.inl (by decide)))

theorem stanza_proxyCommand (hname : DnsText args.hostname) (hfits : ∀ path ∈ args.paths, FitsLine path) :
    readConfigLine ("  ProxyCommand".toList ++ ' ' :: (renderProxy args).toList) =
      readOption "proxycommand".toList (renderProxy args).toList := by
  have hfirst : ∀ c ∈ (renderProxy args).toList.head?, endsKeyword c = false := by
    rw [renderProxy_toList hname.plainWord]
    rintro c ⟨⟩
    decide
  have hread : readConfigLine ([' ', ' '] ++ "ProxyCommand".toList ++ ' ' :: (renderProxy args).toList) = _ :=
    readConfigLine_text (by decide) (by decide) (by decide) (lineText_renderProxy hname hfits) hfirst
  exact hread

/-- A command that is split stands in the file as it was written. -/
theorem readOption_proxyCommand (hname : DnsText args.hostname) {words : List (List Char)}
    (hwords : argvSplit (renderProxy args).toList = some words) :
    readOption "proxycommand".toList (renderProxy args).toList =
      some (.option "proxycommand".toList (renderProxy args).toList) := by
  have hne : (renderProxy args).toList ≠ [] := by
    rw [renderProxy_toList hname.plainWord]
    exact List.cons_ne_nil _ _
  have hkeep : (renderProxy args).toList.dropWhile endsKeyword = (renderProxy args).toList := by
    rw [renderProxy_toList hname.plainWord]
    rfl
  have hcommand : commandKeywords.elem "proxycommand".toList = true := by decide
  rw [readOption_of_split hne hwords (.inl (by decide)), if_pos hcommand, hkeep]

theorem stanza_user {user : String} (h : user.toList.any isWhiteSpace = false) :
    readConfigLine ("  User".toList ++ ' ' :: user.toList) =
      readOption "user".toList (behindKeyword (cString user.toList)) := by
  have hread : readConfigLine ([' ', ' '] ++ "User".toList ++ ' ' :: user.toList) = _ :=
    readConfigLine_option (by decide) (by decide) (by decide) user.toList
  have hclear : ∀ c ∈ cString user.toList, isWhiteSpace c = false := by
    intro c hc
    have hmem : c ∈ user.toList := (List.takeWhile_prefix _).subset hc
    by_contra hspace
    have hany := List.any_eq_true.mpr ⟨c, hmem, Bool.eq_true_of_not_eq_false hspace⟩
    rw [h] at hany
    cases hany
  have hends (c : Char) (hc : isWhiteSpace c = false) : endsLine c = false := by
    by_contra hbad
    have hspace : [' ', '\t', '\r', '\n', '\x0c'].all isWhiteSpace = true := by decide
    have hmem : c ∈ [' ', '\t', '\r', '\n', '\x0c'] := by
      simpa [endsLine, sshBlank, or_assoc] using Bool.eq_true_of_not_eq_false hbad
    rw [List.all_eq_true.mp hspace c hmem] at hc
    cases hc
  have hcut : cString (' ' :: user.toList) = ' ' :: cString user.toList :=
    List.takeWhile_cons_of_pos (by decide)
  by_cases hnil : cString user.toList = []
  · have hempty : behindKeyword (stripEnd [' ']) = behindKeyword [] := by decide
    rw [hcut, hnil, hempty] at hread
    rw [hnil]
    exact hread
  · have hlast : ∀ c ∈ (' ' :: cString user.toList).getLast?, endsLine c = false := by
      intro c hc
      have happend : (' ' :: cString user.toList) = [' '] ++ cString user.toList := rfl
      rw [happend, List.getLast?_append_of_ne_nil _ hnil] at hc
      exact hends c (hclear c (List.mem_of_mem_getLast? hc))
    have hblank : behindKeyword (' ' :: cString user.toList) = behindKeyword (cString user.toList) := by
      unfold behindKeyword
      rw [List.dropWhile_cons_of_pos (by decide)]
    rw [hcut, stripEnd_eq hlast, hblank] at hread
    exact hread

theorem readOption_user (user : String) :
    (∃ line, readOption "user".toList (behindKeyword (cString user.toList)) = some line ∧
      line.keyword = some "user".toList) ↔ UserRead user := by
  constructor
  · rintro ⟨line, hline, -⟩
    obtain ⟨words, hwords, hfirst, -⟩ := readOption_split hline
    exact ⟨words, hwords, hfirst.resolve_left (by decide)⟩
  · rintro ⟨words, hwords, hfirst⟩
    have hne : behindKeyword (cString user.toList) ≠ [] := by
      intro hnil
      rw [hnil] at hwords
      cases hwords
      exact hfirst rfl
    exact ⟨_, readOption_of_split hne hwords (.inr hfirst), rfl⟩

theorem configLines_render (hname : DnsText args.hostname) (hfits : ∀ path ∈ args.paths, FitsLine path)
    (huser : ∀ u ∈ args.user, u.toList.any isWhiteSpace = false) :
    configLines (renderSshConfig args).toList = (stanzaLines args).mapM readConfigLine := by
  rw [renderSshConfig_toList, configLines_of_lines (newline_notMem_stanza hname hfits huser)]

/-- A stanza that fits and is split means what was asked. -/
theorem stanzaMeans_of_readable (hname : DnsText args.hostname) (h : Readable args)
    (htilde : ∀ path ∈ args.paths, path.toList.head? ≠ some '~')
    (huser : ∀ u ∈ args.user, u.toList.any isWhiteSpace = false) :
    StanzaMeans args (renderSshConfig args).toList := by
  obtain ⟨words, hwords⟩ := Option.isSome_iff_exists.mp ((renderProxy_split hname).mpr h.quotes)
  have hproxy := (stanza_proxyCommand hname h.fits).trans (readOption_proxyCommand hname hwords)
  have hspelled : (renderProxy args).toList =
      replaceChar '%' ['%', '%'] ("ct-agent".toList ++ (proxySpellings args).flatMap (' ' :: ·)) := by
    rw [renderProxy_toList hname.plainWord, replaceChar_append, replaceChar_of_notMem _ (by decide), typed]
  have hcommand : (percentExpand (renderProxy args).toList).bind shellWords = some (proxyWords args) := by
    rw [hspelled, percentExpand_doubled, Option.bind_some]
    cases proxySpellings_spell hname htilde with
    | cons hfirst hrest => exact shellWords_spelled hfirst hrest
  rw [StanzaMeans, configLines_render hname h.fits huser, stanzaLines]
  cases hu : args.user with
  | none =>
    refine ⟨[.comment, .option "host".toList args.hostname.toList,
      .option "proxycommand".toList (renderProxy args).toList], ?_, ?_, ?_,
        (renderProxy args).toList, ?_, hcommand⟩
    · exact mapM_cons_some stanza_comment (mapM_cons_some (stanza_host hname) (mapM_cons_some hproxy rfl))
    · simp [hu, ConfigLine.keyword]
    · simp
    · simp
  | some user =>
    obtain ⟨line, hline, hkeyword⟩ := (readOption_user user).mpr (h.user user hu)
    have hlast := (stanza_user (huser user hu)).trans hline
    refine ⟨[.comment, .option "host".toList args.hostname.toList,
      .option "proxycommand".toList (renderProxy args).toList, line], ?_, ?_, ?_,
        (renderProxy args).toList, ?_,
      hcommand⟩
    · exact mapM_cons_some stanza_comment (mapM_cons_some (stanza_host hname)
        (mapM_cons_some hproxy (mapM_cons_some hlast rfl)))
    · rw [hu, List.map_cons, List.map_cons, List.map_cons, List.map_cons, hkeyword]
      rfl
    · simp
    · simp

/-- Whatever stands in a word was read from one line. -/
theorem StanzaMeans.fits {text : List Char} (h : StanzaMeans args text) : ∀ path ∈ args.paths,
    FitsLine path := by
  obtain ⟨lines, hlines, -, -, command, hcommand, hread⟩ := h
  obtain ⟨expanded, hexpanded, hwords⟩ := Option.bind_eq_some_iff.mp hread
  intro path hpath
  have hword : path.toList ∈ proxyWords args := by
    rcases List.mem_append.mp hpath with hca | hfile
    · have hsome : args.ca = some path := Option.mem_toList.mp hca
      simp [proxyWords, hsome]
    · have hsome : args.ownerKeyFile = some path := Option.mem_toList.mp hfile
      simp [proxyWords, hsome]
  have hclear (c : Char) (hc : c ∈ path.toList) : c ≠ '\n' ∧ c ≠ '\x00' :=
    clear_of_mem_argument hlines hcommand
      (mem_of_mem_percentExpand hexpanded (mem_of_mem_shellWords hwords hword hc))
  exact ⟨fun hmem => (hclear _ hmem).1 rfl, fun hmem => (hclear _ hmem).2 rfl⟩

/-- A file that ssh takes was readable. -/
theorem StanzaMeans.readable (h : StanzaMeans args (renderSshConfig args).toList)
    (hname : DnsText args.hostname)
    (huser : ∀ u ∈ args.user, u.toList.any isWhiteSpace = false) : Readable args := by
  have hfits := h.fits
  obtain ⟨lines, hlines, -⟩ := h
  rw [configLines_render hname hfits huser] at hlines
  obtain ⟨hread, -⟩ := mapM_mem hlines
  refine ⟨hfits, ?_, ?_⟩
  · obtain ⟨line, -, hline⟩ := hread ("  ProxyCommand".toList ++ ' ' :: (renderProxy args).toList)
      (by simp [stanzaLines])
    rw [stanza_proxyCommand hname hfits] at hline
    obtain ⟨words, hwords, -⟩ := readOption_split hline
    exact (renderProxy_split hname).mp (by rw [hwords]; rfl)
  · intro user hu
    obtain ⟨line, -, hline⟩ := hread ("  User".toList ++ ' ' :: user.toList)
      (List.mem_append_right _ (List.mem_map.mpr ⟨user, Option.mem_toList.mpr hu, rfl⟩))
    rw [stanza_user (huser user hu)] at hline
    obtain ⟨words, hwords, hfirst, -⟩ := readOption_split hline
    exact ⟨words, hwords, hfirst.resolve_left (by decide)⟩

end

/-- The arguments with other paths: for `--owner-key` the file is only known to `main`. -/
def SshConfigArgs.withPaths (a : SshConfigArgs) (ca ownerKeyFile : Option String) : SshConfigArgs :=
  { a with ca := ca, ownerKeyFile := ownerKeyFile }

/-- For all arguments the parser takes and any two paths: the stanza means them exactly where ssh can read
them. -/
theorem ssh_config_means_iff (isDnsName : String → Bool) (hname : ∀ s, isDnsName s = true → DnsText s)
    (args : List String) (a : SshConfigArgs) (hargs : parseSshConfigArgs isDnsName args = .ok a)
    (ca ownerKeyFile : Option String)
    (htilde : ∀ path ∈ (a.withPaths ca ownerKeyFile).paths, path.toList.head? ≠ some '~') :
    StanzaMeans (a.withPaths ca ownerKeyFile) (renderSshConfig (a.withPaths ca ownerKeyFile)).toList ↔
      Readable (a.withPaths ca ownerKeyFile) := by
  obtain ⟨hdns, huser⟩ := parsed hargs
  have hhost : DnsText (a.withPaths ca ownerKeyFile).hostname := hname a.hostname hdns
  constructor
  · intro hmeans
    exact hmeans.readable hhost huser
  · intro hreadable
    exact stanzaMeans_of_readable hhost hreadable htilde huser

/-- The arguments of the sample. -/
def sampleArgs : SshConfigArgs :=
  ⟨"ssh.example.org", some "bob", some 8443, some "/x/it's 100%h;$(id)\\\"", none, none⟩

theorem ssh_config_means_iff_sample : StanzaMeans sampleArgs (renderSshConfig sampleArgs).toList := by
  have hargs : parseSshConfigArgs (fun s => decide (DnsText s))
      ["ssh.example.org", "--user", "bob", "--port", "8443", "--ca", "/x/it's 100%h;$(id)\\\""] =
      .ok sampleArgs := rfl
  have hreadable : Readable sampleArgs :=
    ⟨by decide, by decide, fun user hu => by cases hu; exact ⟨["bob".toList], rfl, by decide⟩⟩
  exact (ssh_config_means_iff (fun s => decide (DnsText s)) (fun s h => of_decide_eq_true h) _ sampleArgs hargs
    sampleArgs.ca none (by decide)).mpr hreadable

/-- A newline in a path: what stands behind it is a line of its own in the user's `~/.ssh/config`. A backslash
at its end, or a quote in a user name: ssh refuses the file. -/
theorem path_misread :
    (∃ a, parseSshConfigArgs (fun s => decide (DnsText s))
        ["ssh.example.org", "--ca", "/x/a\nLocalCommand id"] = .ok a ∧
      ¬ StanzaMeans a (renderSshConfig a).toList) ∧
    (∃ a, parseSshConfigArgs (fun s => decide (DnsText s)) ["ssh.example.org", "--ca", "/x/a\\"] = .ok a ∧
      configLines (renderSshConfig a).toList = none) ∧
    ∃ a, parseSshConfigArgs (fun s => decide (DnsText s)) ["ssh.example.org", "--user", "o'brien"] = .ok a ∧
      configLines (renderSshConfig a).toList = none := by
  refine ⟨⟨⟨"ssh.example.org", none, none, some "/x/a\nLocalCommand id", none, none⟩, rfl, ?_⟩,
    ⟨⟨"ssh.example.org", none, none, some "/x/a\\", none, none⟩, rfl, by decide +kernel⟩,
    ⟨⟨"ssh.example.org", some "o'brien", none, none, none, none⟩, rfl, by decide +kernel⟩⟩
  intro hmeans
  have hfits := hmeans.fits "/x/a\nLocalCommand id" (by decide)
  exact absurd hfits.1 (by decide)

end CtAgent.SshAccess
