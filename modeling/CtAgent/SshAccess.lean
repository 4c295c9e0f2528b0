import CtAgent.Lib.ConfigLines
import CtAgent.Lib.Numeral
import CtAgent.Lib.ShellWords
import CtAgent.Serve.OwnerAuth

/-! The arguments of `ct-agent ssh-config`, the `~/.ssh/config` stanza it renders (ssh_access.rs), and how the
texts of its command are spelled. -/
namespace CtAgent.SshAccess

open CtAgent.Lib

structure SshConfigArgs where
  hostname : String
  user : Option String
  port : Option ℕ
  ca : Option String
  ownerKeyFile : Option String
  ownerKey : Option String
  deriving DecidableEq, Repr

/-- `validate_sni_hostname`: what `ServerName` takes for a DNS name is a parameter. -/
def validateSniHostname (isDnsName : String → Bool) (hostname : String) : Except String Unit :=
  if isDnsName hostname then .ok ()
  else .error s!"'{hostname}' is not a valid DNS hostname (it is used as the TLS server name)"

def parsePort (raw : String) : Except String ℕ :=
  match parseUint (2^16) (trim raw) with
  | none | some 0 => .error s!"invalid --port '{raw}' (expected 1..=65535)"
  | some p => .ok p

def hexByte (hi lo : Char) : UInt8 := UInt8.ofNat ((toDigit 16 hi).getD 0 * 16 + (toDigit 16 lo).getD 0)

/-- `OwnerKey::from_hex`. -/
def ownerKeyFromHex (s : String) : Except String Serve.OwnerKey :=
  let t := trim s
  if strLen t ≠ 64 ∨ t.toList.any (fun c => (toDigit 16 c).isNone)
    then .error "owner key must be 64 hex digits"
  else .ok ⟨.ofFn fun i => hexByte (t.toList.getD (2 * i) '0') (t.toList.getD (2 * i + 1) '0')⟩

/-- The variables of the argument loop. -/
structure SshConfigDraft where
  hostname : Option String
  user : Option String
  port : Option ℕ
  ca : Option String
  ownerKeyFile : Option String
  ownerKey : Option String

/-- The arguments that take the next one as their value. -/
inductive ConfigFlag where
  | ownerKeyFile
  | ownerKey
  | user
  | port
  | ca
  deriving DecidableEq, Repr

def ConfigFlag.ofArg : String → Option ConfigFlag
  | "--owner-key-file" => some .ownerKeyFile
  | "--owner-key" => some .ownerKey
  | "--user" => some .user
  | "--port" => some .port
  | "--ca" => some .ca
  | _ => none

def SshConfigDraft.take (d : SshConfigDraft) (raw : String) : ConfigFlag → Except String SshConfigDraft
  | .ownerKeyFile => .ok { d with ownerKeyFile := some raw }
  | .ownerKey =>
    match ownerKeyFromHex raw with
    | .error e => .error s!"invalid --owner-key: {e}"
    | .ok _ => .ok { d with ownerKey := some (trim raw) }
  | .user =>
    if trim raw = "" ∨ raw.toList.any isWhiteSpace
      then .error s!"invalid --user '{raw}' (one word, no whitespace)"
    else .ok { d with user := some raw }
  | .port =>
    match parsePort raw with
    | .error e => .error e
    | .ok p => .ok { d with port := some p }
  | .ca => .ok { d with ca := some raw }

def parseConfigLoop (d : SshConfigDraft) : List String → Except String SshConfigDraft
  | [] => .ok d
  | arg :: rest =>
    match ConfigFlag.ofArg arg with
    | some flag =>
      match rest with
      | [] => .error s!"{arg} requires a value"
      | raw :: rest =>
        match d.take raw flag with
        | .error e => .error e
        | .ok d => parseConfigLoop d rest
    | none =>
      if arg.toList.head? = some '-' then .error s!"unrecognized argument '{arg}'"
      else
        match d.hostname with
        | some _ => .error s!"unexpected extra argument '{arg}' (only one hostname)"
        | none => parseConfigLoop { d with hostname := some arg } rest

def parseSshConfigArgs (isDnsName : String → Bool) (args : List String) : Except String SshConfigArgs :=
  match parseConfigLoop ⟨none, none, none, none, none, none⟩ args with
  | .error e => .error e
  | .ok d =>
    match d.hostname with
    | none => .error "missing <hostname>"
    | some hostname =>
      match validateSniHostname isDnsName hostname with
      | .error e => .error e
      | .ok _ =>
        if d.ownerKey.isSome ∧ d.ownerKeyFile.isSome then
          .error "--owner-key and --owner-key-file are alternatives; give one"
        else .ok ⟨hostname, d.user, d.port, d.ca, d.ownerKeyFile, d.ownerKey⟩

/-- The characters of a path that stays as the user typed it. -/
def plainPath (c : Char) : Bool := c.isAlphanum || "/._-+,:@=~".toList.elem c

def shellWord (path : String) : String :=
  if path ≠ "" ∧ path.toList.all plainPath then path
  else
    let quoted := replaceChar '\'' ['\'', '\\', '\'', '\''] path.toList
    "'" ++ String.ofList (replaceChar '%' ['%', '%'] quoted) ++ "'"

def renderProxy (args : SshConfigArgs) : String :=
  s!"ct-agent ssh {args.hostname}" ++
    (match args.port with | some p => s!" --port {p}" | none => "") ++
    (match args.ca with | some ca => s!" --ca {shellWord ca}" | none => "") ++
    (match args.ownerKeyFile with | some f => s!" --owner-key-file {shellWord f}" | none => "")

def renderSshConfig (args : SshConfigArgs) : String :=
  "# ct-agent ssh: SSH over TLS through the CADS tunnel (scimbe/ct-agent#204)\n" ++
    s!"Host {args.hostname}\n" ++
    s!"  ProxyCommand {renderProxy args}\n" ++
    (match args.user with | some user => s!"  User {user}\n" | none => "")

section
variable {isDnsName : String → Bool} {args : List String} {a : SshConfigArgs}

def SshConfigDraft.UserIsWord (d : SshConfigDraft) : Prop := ∀ u ∈ d.user, u.toList.any isWhiteSpace = false

theorem SshConfigDraft.UserIsWord.take {d d' : SshConfigDraft} {raw : String} {flag : ConfigFlag}
    (hd : d.UserIsWord)
    (h : d.take raw flag = .ok d') : d'.UserIsWord := by
  cases flag with
  | user =>
    simp only [SshConfigDraft.take] at h
    split_ifs at h with hbad
    cases h
    rintro u ⟨⟩
    exact Bool.eq_false_iff.mpr (not_or.mp hbad).2
  | ownerKeyFile =>
    cases h
    exact hd
  | ca =>
    cases h
    exact hd
  | ownerKey =>
    simp only [SshConfigDraft.take] at h
    split at h
    · cases h
    · cases h
      exact hd
  | port =>
    simp only [SshConfigDraft.take] at h
    split at h
    · cases h
    · cases h
      exact hd

theorem SshConfigDraft.UserIsWord.loop {d d' : SshConfigDraft} (hd : d.UserIsWord)
    (h : parseConfigLoop d args = .ok d') : d'.UserIsWord := by
  fun_induction parseConfigLoop d args with
  | case1 d =>
    cases h
    exact hd
  | case2 => cases h
  | case3 => cases h
  | case4 d arg flag hflag raw rest t htake ih => exact ih (hd.take htake) h
  | case5 => cases h
  | case6 => cases h
  | case7 d arg rest hflag hdash hfirst ih => exact ih hd h

/-- What the parser has checked of the texts in the stanza. -/
theorem parsed (h : parseSshConfigArgs isDnsName args = .ok a) :
    isDnsName a.hostname = true ∧ ∀ u ∈ a.user, u.toList.any isWhiteSpace = false := by
  unfold parseSshConfigArgs at h
  split at h
  · cases h
  · next d hloop =>
    have hstart : (⟨none, none, none, none, none, none⟩ : SshConfigDraft).UserIsWord := nofun
    have huser : d.UserIsWord := hstart.loop hloop
    split at h
    · cases h
    · next hostname hhost =>
      split at h
      · cases h
      · next hname =>
        split_ifs at h with hkeys
        cases h
        refine ⟨?_, huser⟩
        by_contra hdns
        simp only [validateSniHostname, hdns] at hname
        cases hname

end

section
variable {c : Char} {l : List Char}

theorem plainPath_literal (h : plainPath c = true) : shellLiteral c = true ∨ c = '~' := by
  by_contra hnot
  obtain ⟨hactive, htilde⟩ := not_or.mp hnot
  rw [shellLiteral, Bool.not_eq_true', Bool.not_eq_false, Bool.or_eq_true, shellActive, List.elem_iff,
    List.elem_iff] at hactive
  rcases hactive with hc | hc
  · have hspecial : ['|', '&', ';', '<', '>', '(', ')', '$', '`', '*', '?', '[', '\n'].all
      (!plainPath ·) = true := by
      decide
    have hnot := List.all_eq_true.mp hspecial c hc
    rw [h] at hnot
    cases hnot
  · have hspecial : [' ', '\t', '\\', '\'', '"', '~', '#'].all (fun d => !plainPath d || d == '~') =
      true := by decide
    have hnot := List.all_eq_true.mp hspecial c hc
    rw [h, Bool.not_true, Bool.false_or, beq_iff_eq] at hnot
    exact htilde hnot

theorem plainPath_inLine (h : plainPath c = true) : c ≠ '%' ∧ c ≠ '\n' ∧ c ≠ '\x00' ∧ endsLine c = false := by
  have hnot (d : Char) (hd : plainPath d = false) : c ≠ d := by
    rintro rfl
    rw [h] at hd
    cases hd
  refine ⟨hnot _ (by decide), hnot _ (by decide), hnot _ (by decide), ?_⟩
  have hspace := hnot ' ' (by decide)
  have htab := hnot '\t' (by decide)
  have hreturn := hnot '\r' (by decide)
  have hnewline := hnot '\n' (by decide)
  have hfeed := hnot '\x0c' (by decide)
  simp [endsLine, sshBlank, hspace, htab, hreturn, hnewline, hfeed]

theorem plainPath_argv (h : plainPath c = true) : argvLiteral c = true := by
  have hspecial : [' ', '\t', '\\', '\'', '"', '#'].all (!plainPath ·) = true := by decide
  rw [argvLiteral, Bool.not_eq_true']
  by_contra hnot
  rw [Bool.not_eq_false, Bool.or_eq_true, argvBlank, Bool.or_eq_true, beq_iff_eq, beq_iff_eq,
    List.elem_iff] at hnot
  have hmem : c ∈ [' ', '\t', '\\', '\'', '"', '#'] := by
    rcases hnot with (rfl | rfl) | hc
    · exact List.mem_cons_self
    · exact List.mem_cons_of_mem _ List.mem_cons_self
    · exact List.mem_cons_of_mem _ (List.mem_cons_of_mem _ hc)
  have hfalse := List.all_eq_true.mp hspecial c hmem
  rw [h] at hfalse
  cases hfalse

/-- A word of plain characters, typed as it is. -/
structure PlainWord (l : List Char) : Prop where
  nonempty : l ≠ []
  plain : ∀ c ∈ l, plainPath c = true

theorem PlainWord.spells (h : PlainWord l) (htilde : l.head? ≠ some '~') : Spells l l := by
  obtain ⟨c, l, rfl⟩ := List.exists_cons_of_ne_nil h.nonempty
  have hfirst : c ≠ '~' := fun hc => htilde (hc ▸ rfl)
  apply spells_literal
  · exact (plainPath_literal (h.plain c (List.mem_cons_self ..))).resolve_right hfirst
  · intro d hd
    exact plainPath_literal (h.plain d (List.mem_cons_of_mem c hd))

theorem PlainWord.doubled (h : PlainWord l) : replaceChar '%' ['%', '%'] l = l :=
  replaceChar_of_notMem _ (fun hmem => (plainPath_inLine (h.plain _ hmem)).1 rfl)

end

/-- How a path is spelled for the shell, in front of the percent signs' doubling. -/
def shellSpelling (path : String) : List Char :=
  if path ≠ "" ∧ path.toList.all plainPath then path.toList else singleQuoted path.toList

section
variable {path : String}

theorem plainWord_of_path (h : path ≠ "" ∧ path.toList.all plainPath = true) : PlainWord path.toList := by
  refine ⟨?_, List.all_eq_true.mp h.2⟩
  intro hnil
  exact h.1 (String.toList_eq_nil_iff.mp hnil)

theorem shellWord_toList (path : String) :
    (shellWord path).toList = replaceChar '%' ['%', '%'] (shellSpelling path) := by
  unfold shellWord shellSpelling
  split
  · next hplain => rw [(plainWord_of_path hplain).doubled]
  · have hquoted (q : List Char) : ("'" ++ String.ofList (replaceChar '%' ['%', '%'] q) ++ "'").toList =
        replaceChar '%' ['%', '%'] ('\'' :: q ++ ['\'']) := by
      simp [replaceChar]
    exact hquoted _

theorem spells_shellSpelling (htilde : path.toList.head? ≠ some '~') :
    Spells (shellSpelling path) path.toList := by
  unfold shellSpelling
  split
  · next hplain => exact (plainWord_of_path hplain).spells htilde
  · exact spells_singleQuoted _

end

/-- The spellings behind `ct-agent`, up to the paths. -/
def headSpellings (args : SshConfigArgs) : List (List Char) :=
  ["ssh".toList, args.hostname.toList] ++
    (match args.port with | some p => ["--port".toList, p.repr.toList] | none => [])

def proxySpellings (args : SshConfigArgs) : List (List Char) :=
  headSpellings args ++
    (match args.ca with | some ca => ["--ca".toList, shellSpelling ca] | none => []) ++
    (match args.ownerKeyFile with | some f => ["--owner-key-file".toList, shellSpelling f] | none => [])

/-- Spellings behind one another, as they stand on the line. -/
def typed (texts : List (List Char)) : List Char := replaceChar '%' ['%', '%'] (texts.flatMap (' ' :: ·))

theorem typed_append (s t : List (List Char)) : typed (s ++ t) = typed s ++ typed t := by
  rw [typed, List.flatMap_append, replaceChar_append]
  rfl

theorem typed_cons (l : List Char) (ls : List (List Char)) :
    typed (l :: ls) = ' ' :: replaceChar '%' ['%', '%'] l ++ typed ls := by
  rw [typed, List.flatMap_cons, replaceChar_append]
  rfl

theorem typed_nil : typed [] = [] := rfl

theorem plainWord_ctAgent : PlainWord "ct-agent".toList := ⟨by decide, List.all_eq_true.mp (by decide)⟩

theorem plainWord_ssh : PlainWord "ssh".toList := ⟨by decide, List.all_eq_true.mp (by decide)⟩

theorem plainWord_port : PlainWord "--port".toList := ⟨by decide, List.all_eq_true.mp (by decide)⟩

theorem plainWord_ca : PlainWord "--ca".toList := ⟨by decide, List.all_eq_true.mp (by decide)⟩

theorem plainWord_ownerKeyFile : PlainWord "--owner-key-file".toList :=
  ⟨by decide, List.all_eq_true.mp (by decide)⟩

theorem plainWord_repr (n : ℕ) : PlainWord n.repr.toList := by
  have hdigits : n.repr.toList = Nat.toDigits 10 n := by simp
  rw [hdigits]
  refine ⟨Nat.toDigits_ne_nil, ?_⟩
  intro c hc
  rw [plainPath, Char.isAlphanum, Nat.isDigit_of_mem_toDigits (by decide) (by decide) hc]
  simp

theorem headSpellings_plain {args : SshConfigArgs} (hname : PlainWord args.hostname.toList) :
    ∀ l ∈ headSpellings args, PlainWord l := by
  intro l hl
  rcases List.mem_append.mp hl with hl | hport
  · rcases List.mem_pair.mp hl with rfl | rfl
    · exact plainWord_ssh
    · exact hname
  · cases hp : args.port with
    | none =>
      rw [hp] at hport
      cases hport
    | some p =>
      rw [hp] at hport
      rcases List.mem_pair.mp hport with rfl | rfl
      · exact plainWord_port
      · exact plainWord_repr p

theorem renderProxy_toList {args : SshConfigArgs} (hname : PlainWord args.hostname.toList) :
    (renderProxy args).toList = "ct-agent".toList ++ typed (proxySpellings args) := by
  unfold renderProxy proxySpellings headSpellings
  rw [typed_append, typed_append, typed_append, String.toList_append, String.toList_append,
    String.toList_append,
    ← List.append_assoc, ← List.append_assoc, ← List.append_assoc]
  congr 1
  · congr 1
    · congr 1
      · rw [typed_cons, typed_cons, typed_nil, plainWord_ssh.doubled, hname.doubled]
        simp [toString]
      · cases args.port with
        | none => rfl
        | some p =>
          rw [typed_cons, typed_cons, typed_nil, plainWord_port.doubled, (plainWord_repr p).doubled]
          simp [toString]
    · cases args.ca with
      | none => rfl
      | some ca =>
        rw [typed_cons, typed_cons, typed_nil, plainWord_ca.doubled, ← shellWord_toList]
        simp [toString]
  · cases args.ownerKeyFile with
    | none => rfl
    | some f =>
      rw [typed_cons, typed_cons, typed_nil, plainWord_ownerKeyFile.doubled, ← shellWord_toList]
      simp [toString]

end CtAgent.SshAccess
