import CtAgent.SelfUpdateSafety
import CtAgent.Lib.Run

/-! Which release is newer, and the unattended loop that installs it. Versions are compared as the
lists of their numbers; the order of the numbers they stand for, with missing ones read as zero, is
coarser. -/
namespace CtAgent.SelfUpdate
open CtAgent.Lib

def isAsciiDigit (c : Char) : Bool := '0' ≤ c && c ≤ '9'

def digitsValue (digits : List Char) : ℕ := digits.foldl (fun acc c => acc * 10 + (c.toNat - 48)) 0

/-- `strip_prefix('v')`, or the text itself. -/
def stripV : List Char → List Char
  | 'v' :: rest => rest
  | cs => cs

/-- One component: ASCII digits that fit a `u64`. -/
def parseComponent (p : List Char) : Option ℕ :=
  if p ≠ [] ∧ p.all isAsciiDigit then
    if digitsValue p < 2^64 then some (digitsValue p) else none
  else none

def parseVersion (v : String) : Option (List ℕ) := ((stripV v.toList).splitOn '.').mapM parseComponent

def versionIsNewer (current candidate : String) : Bool :=
  match parseVersion current, parseVersion candidate with
  | some current, some candidate => decide (current < candidate)
  | _, _ => false

/-- The kinds of refusal of a check, each with the values its message shows. -/
inductive CheckError where
  | client (why : String)
  | get (why : String)
  | status (code : ℕ)
  | body (why : String)
  | noTagName
  | unsupportedOs (os : String)
  | unsupportedArch (arch : String)
  | currentExe (why : String)
  | provenance (why : String)
  | notPlainTag (tag : String)
  | into (why : String)
  deriving DecidableEq, Repr

def releaseDownloadRoot : String := "https://github.com/scimbe/ct-agent/releases/download"

/-- A tag becomes a part of a URL: only a plain one with its `v` does. -/
def releaseDownloadBase (tag : String) : Except CheckError String :=
  if parseVersion tag = none ∨ tag.toList.head? ≠ some 'v' then .error (.notPlainTag tag)
  else .ok (releaseDownloadRoot ++ "/" ++ tag)

/-- What follows the first occurrence of `needle`. -/
def afterFirst (needle : List Char) : List Char → Option (List Char)
  | [] => if needle = [] then some [] else none
  | c :: cs =>
    if needle.isPrefixOf (c :: cs) then some ((c :: cs).drop needle.length) else afterFirst needle cs

def extractTagName (body : String) : Option String := do
  let afterKey ← afterFirst "\"tag_name\"".toList body.toList
  let afterColon ← afterFirst [':'] afterKey
  match afterColon.dropWhile isWhiteSpace with
  | '"' :: value =>
    if value.contains '"' then some (String.ofList (value.takeWhile (· != '"'))) else none
  | _ => none

def assetNameForPlatform (os arch : String) : Except CheckError String := do
  let osName ← match os with
    | "linux" => .ok "linux"
    | "macos" => .ok "darwin"
    | "windows" => .ok "windows"
    | other => .error (.unsupportedOs other)
  let archName ← match arch with
    | "x86_64" => .ok "x86_64"
    | "aarch64" => .ok "aarch64"
    | "x86" => .ok "i686"
    | other => .error (.unsupportedArch other)
  let ext := if osName = "windows" then ".exe" else ""
  return "ct-agent-" ++ osName ++ "-" ++ archName ++ ext

/-- One round of the loop: what the release server says and what becomes of the swap. -/
structure RoundAnswers where
  client : Except String Unit
  api : Except String ℕ
  body : Except String String
  currentExe : Except String Unit
  provenance : Except String Unit
  into : Except String ProvenanceOutcome
  deriving DecidableEq, Repr

/-- `ok_or_else`. -/
def okOr {ε α : Type} (e : ε) : Option α → Except ε α
  | some a => .ok a
  | none => .error e

def checkLatest (os arch current : String) (r : RoundAnswers) : Except CheckError UpdateCheck := do
  r.client.mapError .client
  let status ← r.api.mapError .get
  if 200 ≤ status ∧ status < 300 then
    let body ← r.body.mapError .body
    let latest ← okOr .noTagName (extractTagName body)
    let assetName ← assetNameForPlatform os arch
    return ⟨current, latest, versionIsNewer current latest, assetName⟩
  else throw (.status status)

/-- `perform_update`; `r.into` is what `perform_update_into` comes to. -/
def performUpdate (check : UpdateCheck) (r : RoundAnswers) : Except CheckError ProvenanceOutcome := do
  r.currentExe.mapError .currentExe
  r.provenance.mapError .provenance
  let _ ← releaseDownloadBase check.latestVersion
  r.into.mapError .into

/-- A round of `run_auto_update_loop`: the version it exits for, if it installs one. -/
def autoUpdateRound (os arch current : String) (r : RoundAnswers) : Option String :=
  match checkLatest os arch current r with
  | .error _ => none
  | .ok check =>
    if check.updateAvailable then
      match performUpdate check r with
      | .ok _ => some check.latestVersion
      | .error _ => none
    else none

/-- An agent under its supervisor: the version it runs and what has been installed so far. -/
structure Fleet where
  running : String
  installed : List String
  deriving DecidableEq, Repr

/-- The build of release `v1.2.3` starts as `1.2.3`. -/
def fleetStep (os arch : String) (s : Fleet) (r : RoundAnswers) : Option Fleet :=
  match autoUpdateRound os arch s.running r with
  | none => some s
  | some tag => some ⟨String.ofList (stripV tag.toList), s.installed ++ [tag]⟩

/-! What versions are for: dotted numbers. -/

/-- `s` spells the numbers `x`: with or without a `v`, leading zeros allowed. -/
def Spells (s : String) (x : List ℕ) : Prop :=
  ∃ parts : List (List Char), parts ≠ [] ∧
    (s.toList = ['.'].intercalate parts ∨ s.toList = 'v' :: ['.'].intercalate parts) ∧
    (∀ p ∈ parts, p ≠ [] ∧ p.all isAsciiDigit) ∧ parts.map digitsValue = x ∧ ∀ n ∈ x, n < 2^64

/-- The components, the missing ones read as zero, ordered by the first that differs. -/
def padded (x : List ℕ) : Lex (ℕ → ℕ) := toLex (fun i => x.getD i 0)

theorem lt_of_padded_lt {x y : List ℕ} (h : padded x < padded y) : x < y := by
  obtain ⟨i, hsame, hlt⟩ := h
  induction x generalizing y i with
  | nil =>
    cases y with
    | nil => exact absurd hlt (lt_irrefl _)
    | cons b y => exact List.nil_lt_cons b y
  | cons a x ih =>
    cases y with
    | nil => exact absurd hlt (Nat.not_lt_zero _)
    | cons b y =>
      cases i with
      | zero => exact List.Lex.rel hlt
      | succ i =>
        have hab : a = b := hsame 0 (Nat.succ_pos i)
        subst hab
        apply List.Lex.cons
        apply ih i
        · intro j hj
          exact hsame (j + 1) (Nat.succ_lt_succ hj)
        · exact hlt

theorem parseComponent_eq_some {p : List Char} {n : ℕ} :
    parseComponent p = some n ↔ (p ≠ [] ∧ p.all isAsciiDigit) ∧ digitsValue p = n ∧ n < 2^64 := by
  unfold parseComponent
  split_ifs with hp hn
  · constructor
    · intro h
      have hv := Option.some.inj h
      exact ⟨hp, hv, hv ▸ hn⟩
    · intro h
      rw [h.2.1]
  · constructor
    · nofun
    · intro h
      exact absurd h.2.2 (h.2.1 ▸ hn)
  · constructor
    · nofun
    · intro h
      exact absurd h.1 hp

theorem mapM_parseComponent {parts : List (List Char)} {x : List ℕ} :
    parts.mapM parseComponent = some x ↔
      (∀ p ∈ parts, p ≠ [] ∧ p.all isAsciiDigit) ∧ parts.map digitsValue = x ∧ ∀ n ∈ x, n < 2^64 := by
  induction parts generalizing x with
  | nil =>
    rw [List.mapM_nil, List.map_nil]
    constructor
    · intro h
      have hx : [] = x := Option.some.inj h
      subst hx
      simp
    · intro h
      rw [← h.2.1]
      rfl
  | cons p parts ih =>
    rw [List.mapM_cons]
    constructor
    · intro h
      obtain ⟨n, hn, h⟩ := Option.bind_eq_some_iff.mp h
      obtain ⟨ns, hns, h⟩ := Option.bind_eq_some_iff.mp h
      have hx : n :: ns = x := Option.some.inj h
      obtain ⟨hp, hv, hlt⟩ := parseComponent_eq_some.mp hn
      obtain ⟨hps, hvs, hlts⟩ := ih.mp hns
      subst hx
      refine ⟨List.forall_mem_cons.mpr ⟨hp, hps⟩, ?_, List.forall_mem_cons.mpr ⟨hlt, hlts⟩⟩
      rw [List.map_cons, hv, hvs]
    · intro h
      obtain ⟨hps, hx, hlts⟩ := h
      subst hx
      obtain ⟨hp, hps⟩ := List.forall_mem_cons.mp hps
      obtain ⟨hlt, hlts⟩ := List.forall_mem_cons.mp hlts
      have hn := parseComponent_eq_some.mpr ⟨hp, rfl, hlt⟩
      have hns := ih.mpr ⟨hps, rfl, hlts⟩
      rw [hn, hns]
      rfl

/-- A component starts with a digit: there is no second `v` to strip and no dot inside. -/
theorem stripV_of_digits {parts : List (List Char)} (h : ∀ p ∈ parts, p ≠ [] ∧ p.all isAsciiDigit) :
    stripV (['.'].intercalate parts) = ['.'].intercalate parts := by
  match parts, h with
  | [], _ => rfl
  | [] :: parts, h => exact absurd rfl (h [] List.mem_cons_self).1
  | (c :: p) :: parts, h =>
    have hdigit : isAsciiDigit c = true := by
      have hall := (h (c :: p) List.mem_cons_self).2
      rw [List.all_cons, Bool.and_eq_true] at hall
      exact hall.1
    have hc : c ≠ 'v' := by
      rintro rfl
      exact absurd hdigit (by decide)
    have hfirst : ∃ rest, ['.'].intercalate ((c :: p) :: parts) = c :: rest := by
      cases parts with
      | nil => exact ⟨p, by simp⟩
      | cons q parts => exact ⟨p ++ '.' :: ['.'].intercalate (q :: parts), by
          simp [List.intercalate_cons_cons]⟩
    obtain ⟨rest, hrest⟩ := hfirst
    rw [hrest]
    unfold stripV
    split
    · rename_i he
      exact absurd (List.cons.inj he).1 hc
    · rfl

theorem parseVersion_eq_some {s : String} {x : List ℕ} : parseVersion s = some x ↔ Spells s x := by
  unfold parseVersion
  rw [mapM_parseComponent]
  constructor
  · intro h
    refine ⟨(stripV s.toList).splitOn '.', List.splitOn_ne_nil _ _, ?_, h.1, h.2.1, h.2.2⟩
    rw [List.intercalate_splitOn]
    unfold stripV
    split
    · rename_i rest he
      exact Or.inr he
    · exact Or.inl rfl
  · intro h
    obtain ⟨parts, hne, hs, hparts, hx, hlt⟩ := h
    have hstrip : stripV s.toList = ['.'].intercalate parts := by
      rcases hs with hs | hs
      · rw [hs]
        exact stripV_of_digits hparts
      · rw [hs]
        rfl
    have hdot : ∀ p ∈ parts, '.' ∉ p := by
      intro p hp hmem
      have hall := List.all_eq_true.mp (hparts p hp).2 '.' hmem
      exact absurd hall (by decide)
    rw [hstrip, List.splitOn_intercalate '.' hdot hne]
    exact ⟨hparts, hx, hlt⟩

theorem versionIsNewer_eq_true {a b : String} :
    versionIsNewer a b = true ↔ ∃ x y, parseVersion a = some x ∧ parseVersion b = some y ∧ x < y := by
  unfold versionIsNewer
  cases parseVersion a with
  | none => simp
  | some x =>
    cases parseVersion b with
    | none => simp
    | some y => simp

theorem versionIsNewer_spelled {a b : String} {x y : List ℕ} (ha : Spells a x) (hb : Spells b y) :
    versionIsNewer a b = true ↔ x < y := by
  have ha := parseVersion_eq_some.mpr ha
  have hb := parseVersion_eq_some.mpr hb
  unfold versionIsNewer
  rw [ha, hb]
  exact decide_eq_true_iff

theorem versionIsNewer_trans {a b c : String} (h : versionIsNewer a b = true)
    (h' : versionIsNewer b c = true) : versionIsNewer a c = true := by
  obtain ⟨x, y, ha, hb, hxy⟩ := versionIsNewer_eq_true.mp h
  obtain ⟨y', z, hb', hc, hyz⟩ := versionIsNewer_eq_true.mp h'
  have hy : y = y' := Option.some.inj (hb.symm.trans hb')
  subst hy
  exact versionIsNewer_eq_true.mpr ⟨x, z, ha, hc, lt_trans hxy hyz⟩

theorem versionIsNewer_irrefl (v : String) : versionIsNewer v v = false := by
  rw [Bool.eq_false_iff]
  intro h
  obtain ⟨x, y, hx, hy, hlt⟩ := versionIsNewer_eq_true.mp h
  have hxy : x = y := Option.some.inj (hx.symm.trans hy)
  exact absurd hlt (hxy ▸ lt_irrefl x)

/-- The version a new build starts as spells the numbers of its tag. -/
theorem parseVersion_stripV {tag : String} {x : List ℕ} (h : parseVersion tag = some x) :
    parseVersion (String.ofList (stripV tag.toList)) = some x := by
  obtain ⟨parts, hne, hs, hparts, hx, hlt⟩ := parseVersion_eq_some.mp h
  apply parseVersion_eq_some.mpr
  refine ⟨parts, hne, Or.inl ?_, hparts, hx, hlt⟩
  rw [String.toList_ofList]
  rcases hs with hs | hs
  · rw [hs]
    exact stripV_of_digits hparts
  · rw [hs]
    rfl

theorem checkLatest_ok {os arch current : String} {r : RoundAnswers} {check : UpdateCheck}
    (h : checkLatest os arch current r = .ok check) :
    check.updateAvailable = versionIsNewer current check.latestVersion := by
  obtain ⟨_, -, h⟩ := of_bind_ok h
  obtain ⟨status, -, h⟩ := of_bind_ok h
  split at h
  · obtain ⟨body, -, h⟩ := of_bind_ok h
    obtain ⟨latest, -, h⟩ := of_bind_ok h
    obtain ⟨assetName, -, h⟩ := of_bind_ok h
    have hcheck := Except.ok.inj h
    rw [← hcheck]
  · exact absurd h nofun

theorem autoUpdateRound_newer {os arch current tag : String} {r : RoundAnswers}
    (h : autoUpdateRound os arch current r = some tag) : versionIsNewer current tag = true := by
  unfold autoUpdateRound at h
  split at h
  · exact absurd h nofun
  · rename_i check hcheck
    split at h
    · rename_i havailable
      split at h
      · have htag := Option.some.inj h
        rw [← htag, ← checkLatest_ok hcheck]
        exact havailable
      · exact absurd h nofun
    · exact absurd h nofun

/-- Where `s.running` is read as the last version of the list, every version of it is newer than all
before it. -/
structure Fleet.Rising (start : String) (s : Fleet) : Prop where
  rising : (start :: s.installed).Pairwise (fun a b => versionIsNewer a b = true)
  running : ∀ v ∈ start :: s.installed, ∀ w, versionIsNewer s.running w = true → versionIsNewer v w = true

theorem Fleet.Rising.step {os arch start : String} {s t : Fleet} {r : RoundAnswers}
    (h : s.Rising start) (hstep : fleetStep os arch s r = some t) : t.Rising start := by
  unfold fleetStep at hstep
  cases hround : autoUpdateRound os arch s.running r with
  | none =>
    rw [hround] at hstep
    exact Option.some.inj hstep ▸ h
  | some tag =>
    rw [hround] at hstep
    have ht := Option.some.inj hstep
    subst ht
    have hnewer := autoUpdateRound_newer hround
    obtain ⟨x, y, hx, hy, hxy⟩ := versionIsNewer_eq_true.mp hnewer
    have hsame (w : String) : versionIsNewer (String.ofList (stripV tag.toList)) w = versionIsNewer tag w := by
      unfold versionIsNewer
      rw [hy, parseVersion_stripV hy]
    have hall : ∀ v ∈ start :: s.installed, versionIsNewer v tag = true :=
      fun v hv => h.running v hv tag hnewer
    constructor
    · change (start :: (s.installed ++ [tag])).Pairwise _
      rw [← List.cons_append, List.pairwise_append]
      refine ⟨h.rising, List.pairwise_singleton _ _, ?_⟩
      intro v hv w hw
      rw [List.mem_singleton.mp hw]
      exact hall v hv
    · change ∀ v ∈ start :: (s.installed ++ [tag]), _
      intro v hv w hw
      rw [hsame w] at hw
      rw [← List.cons_append, List.mem_append, List.mem_singleton] at hv
      rcases hv with hv | rfl
      · exact versionIsNewer_trans (hall v hv) hw
      · exact hw

theorem Fleet.rising_run {os arch start : String} {rounds : List RoundAnswers} {s : Fleet}
    (h : run (fleetStep os arch) ⟨start, []⟩ rounds = some s) : s.Rising start := by
  apply run_invariant (fleetStep os arch) (Fleet.Rising start) ?_ rounds ⟨start, []⟩ s ?_ h
  · intro s r t hs hstep
    exact hs.step hstep
  · constructor
    · exact List.pairwise_singleton _ _
    · intro v hv w hw
      rw [List.mem_singleton.mp hv]
      exact hw

/-- The order of versions: by their lists of numbers, where a missing component is less than any. It
refines the order of the padded numbers, and no unattended agent climbs down or around in it. -/
theorem version_order :
    (∀ v, versionIsNewer v v = false) ∧
    (∀ a b, versionIsNewer a b = true → versionIsNewer b a = false) ∧
    (∀ a b c, versionIsNewer a b = true → versionIsNewer b c = true → versionIsNewer a c = true) ∧
    (∀ a b x y, Spells a x → Spells b y →
      (versionIsNewer a b = true ↔ x < y) ∧
      (x = y → versionIsNewer a b = false ∧ versionIsNewer b a = false) ∧
      (x ≠ y → Xor (versionIsNewer a b = true) (versionIsNewer b a = true)) ∧
      (padded x < padded y → versionIsNewer a b = true)) ∧
    (∀ a b, ¬ ((∃ x, Spells a x) ∧ ∃ y, Spells b y) → versionIsNewer a b = false) ∧
    ∀ os arch start rounds s, run (fleetStep os arch) ⟨start, []⟩ rounds = some s →
      (start :: s.installed).Pairwise (fun a b => versionIsNewer a b = true) := by
  have hasymm : ∀ a b, versionIsNewer a b = true → versionIsNewer b a = false := by
    intro a b hab
    rw [Bool.eq_false_iff]
    intro hba
    have hloop := versionIsNewer_trans hab hba
    rw [versionIsNewer_irrefl a] at hloop
    exact absurd hloop (by decide)
  refine ⟨versionIsNewer_irrefl, hasymm, fun a b c => versionIsNewer_trans, ?_, ?_, ?_⟩
  · intro a b x y ha hb
    have hab := versionIsNewer_spelled ha hb
    have hba := versionIsNewer_spelled hb ha
    refine ⟨hab, ?_, ?_, ?_⟩
    · intro hxy
      subst hxy
      rw [Bool.eq_false_iff, Bool.eq_false_iff, Ne, Ne, hab, hba]
      exact ⟨lt_irrefl x, lt_irrefl x⟩
    · intro hne
      rw [hab, hba]
      rcases lt_or_gt_of_ne hne with hlt | hlt
      · exact Or.inl ⟨hlt, lt_asymm hlt⟩
      · exact Or.inr ⟨hlt, lt_asymm hlt⟩
    · intro hlt
      exact hab.mpr (lt_of_padded_lt hlt)
  · intro a b h
    rw [Bool.eq_false_iff]
    intro hab
    obtain ⟨x, y, ha, hb, -⟩ := versionIsNewer_eq_true.mp hab
    exact h ⟨⟨x, parseVersion_eq_some.mp ha⟩, ⟨y, parseVersion_eq_some.mp hb⟩⟩
  · intro os arch start rounds s h
    exact (Fleet.rising_run h).rising

/-- Two spellings of one number, the longer of which is newer. -/
theorem trailing_zero_is_newer :
    ¬ ∀ a b x y, Spells a x → Spells b y → padded x = padded y → versionIsNewer a b = false := by
  intro h
  have ha : Spells "1.0" [1, 0] :=
    ⟨[['1'], ['0']], by decide, Or.inl (by decide), by decide, by decide, by decide⟩
  have hb : Spells "1.0.0" [1, 0, 0] :=
    ⟨[['1'], ['0'], ['0']], by decide, Or.inl (by decide), by decide, by decide, by decide⟩
  have hpadded : padded [1, 0] = padded [1, 0, 0] := by
    funext i
    match i with
    | 0 | 1 | 2 => rfl
    | i + 3 => rfl
  have hold := h "1.0" "1.0.0" [1, 0] [1, 0, 0] ha hb hpadded
  have hnew := (versionIsNewer_spelled ha hb).mpr (by decide)
  rw [hold] at hnew
  exact absurd hnew (by decide)

/-- A component from 2^64 on is no number of a version, and neither side of it is newer. -/
theorem large_component_unordered : versionIsNewer "1.0" "1.18446744073709551616" = false ∧
    versionIsNewer "1.18446744073709551616" "1.0" = false ∧
    versionIsNewer "1.0" "1.18446744073709551615" = true := by
  decide +kernel

/-- Versions of one value of which one is newer, and versions of two values of which neither is. -/
theorem order_off_the_values :
    (¬ ∀ a b x y, Spells a x → Spells b y → padded x = padded y → versionIsNewer a b = false) ∧
      versionIsNewer "1.0" "1.18446744073709551616" = false ∧
      versionIsNewer "1.18446744073709551616" "1.0" = false :=
  ⟨trailing_zero_is_newer, large_component_unordered.1, large_component_unordered.2.1⟩

end CtAgent.SelfUpdate
