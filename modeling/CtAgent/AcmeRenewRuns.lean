import CtAgent.Lib.Run
import CtAgent.AcmeRenew

/-! Calls of `obtain_or_renew` one after the other over one directory, each stopped by a fault or by a
crash anywhere, with a clock that does not go back. -/
namespace CtAgent.AcmeRenew
open CtAgent.Lib CtAgent.SecretFile

/-- `keyFrom` and `certFrom` tell which issuance the file at each path came from. -/
structure World where
  files : Files CertPath
  certModified : Option ℕ
  clock : ℕ
  issuances : List IssuedCert
  keyFrom : Option ℕ
  certFrom : Option ℕ

def World.init : World := ⟨fun _ => none, none, 0, [], none, none⟩

/-- What an admitted call is issued. -/
def Run.issues (r : Run) : Option IssuedCert :=
  match r.admission with
  | some ⟨true, some _⟩ => if r.faults.createDir = .fine then r.issued else none
  | _ => none

section
variable (leafTimes : Bytes → Option (ℤ × ℤ))

def World.isDue (w : World) (now : ℕ) : Bool :=
  needsRenewal leafTimes (w.files (.file .cert)) w.certModified now

def World.issues (w : World) (r : Run) : Option IssuedCert :=
  if w.isDue leafTimes r.now then r.issues else none

def World.after (w : World) (r : Run) : World :=
  match w.issues leafTimes r with
  | none => { w with clock := r.done }
  | some i =>
    let n := w.issuances.length
    let w := { w with clock := r.done, issuances := w.issuances ++ [i] }
    match promoteKey r.faults i w.files with
    | (.error _, F) => { w with files := F }
    | (.ok _, F) =>
      match promoteCert r.faults F with
      | (.error _, F) => { w with files := F, keyFrom := some n }
      -- the rename keeps the modification time of the staged chain
      | (.ok _, F) =>
        { w with files := F, keyFrom := some n, certFrom := some n, certModified := some r.wrote }

def World.step (w : World) (r : Run) : Option World :=
  if w.clock ≤ r.now ∧ r.now ≤ r.wrote ∧ r.wrote ≤ r.done then some (w.after leafTimes r) else none

/-- The call has renamed the key and the certificate. -/
def renamesBoth (w : World) (r : Run) : Bool :=
  (w.after leafTimes r).certFrom == some w.issuances.length

end

/-- Both files are there and come from one issuance, or neither is. -/
def World.SameIssuance (w : World) : Prop :=
  (w.files (.file .key) = none ∧ w.files (.file .cert) = none) ∨
    ∃ n i, w.keyFrom = some n ∧ w.certFrom = some n ∧ w.issuances[n]? = some i ∧
      w.files (.file .key) = some i.keyPem ∧ w.files (.file .cert) = some i.certChainPem

/-- The contents are those of the issuance they came from. -/
def From (issuances : List IssuedCert) (part : IssuedCert → Bytes) (origin : Option ℕ)
    (contents : Option Bytes) :
    Prop :=
  match origin with
  | none => contents = none
  | some n => ∃ i, issuances[n]? = some i ∧ contents = some (part i)

/-- Later issuances change nothing about a file that stays. -/
theorem From.kept {issuances : List IssuedCert} {part : IssuedCert → Bytes} {origin : Option ℕ}
    {contents contents' : Option Bytes} (h : From issuances part origin contents)
    (hsame : contents' = contents)
    (more : List IssuedCert) : From (issuances ++ more) part origin contents' := by
  rw [hsame]
  cases origin with
  | none => exact h
  | some n =>
    obtain ⟨i, hi, hcontents⟩ := h
    have hlt : n < issuances.length := (List.getElem?_eq_some_iff.mp hi).1
    exact ⟨i, by rw [List.getElem?_append_left hlt, hi], hcontents⟩

theorem From.new {issuances : List IssuedCert} {part : IssuedCert → Bytes} {i : IssuedCert}
    {contents : Option Bytes} (h : contents = some (part i)) :
    From (issuances ++ [i]) part (some issuances.length) contents :=
  ⟨i, by simp, h⟩

section
variable {leafTimes : Bytes → Option (ℤ × ℤ)}

theorem issues_eq_some {r : Run} {i : IssuedCert} :
    r.issues = some i ↔ (∃ ca, r.admission = some ⟨true, some ca⟩) ∧ r.faults.createDir = .fine ∧
      r.issued = some i := by
  unfold Run.issues
  constructor
  · intro h
    split at h
    · rename_i ca hadmission
      split at h
      · rename_i hdir
        exact ⟨⟨ca, hadmission⟩, hdir, h⟩
      · exact absurd h (by simp)
    · exact absurd h (by simp)
  · intro h
    obtain ⟨⟨ca, hadmission⟩, hdir, hissued⟩ := h
    rw [hadmission, hdir, hissued]
    rfl

theorem World.issues_eq_some {w : World} {r : Run} {i : IssuedCert} :
    w.issues leafTimes r = some i ↔ w.isDue leafTimes r.now = true ∧ r.issues = some i := by
  unfold World.issues
  split <;> simp_all

theorem attempt_read (F : Files CertPath) (p : CertPath) :
    ∃ c, Disk.attempt (Disk.read p) F = (.ok c, F) ∧ c.toOption = F p := by
  unfold Disk.attempt Disk.read
  cases F p with
  | none => exact ⟨_, rfl, rfl⟩
  | some bytes => exact ⟨_, rfl, rfl⟩

theorem obtainOrRenew_of_issues {w : World} {r : Run} {i : IssuedCert} (h : w.issues leafTimes r = some i) :
    obtainOrRenew leafTimes w.certModified r w.files = (do
      promoteKey r.faults i
      promoteCert r.faults
      Disk.touch r.faults.syncDir
      pure true : Disk CertPath Bool) w.files := by
  obtain ⟨hdue, hissues⟩ := World.issues_eq_some.mp h
  obtain ⟨⟨ca, hadmission⟩, hdir, hissued⟩ := issues_eq_some.mp hissues
  obtain ⟨c, hread, hc⟩ := attempt_read w.files (.file .cert)
  have hdue' : needsRenewal leafTimes c.toOption w.certModified r.now = true := by
    rw [hc]
    exact hdue
  have htouch : Disk.touch r.faults.createDir w.files = (.ok (), w.files) := by
    rw [hdir]
    rfl
  unfold obtainOrRenew
  rw [Disk.bind_of_ok hread, hdue', hadmission, hissued]
  exact Disk.bind_of_ok htouch

/-- A call that is issued nothing changes no file. -/
theorem obtainOrRenew_of_not_issues {w : World} {r : Run} (h : w.issues leafTimes r = none) :
    (obtainOrRenew leafTimes w.certModified r w.files).2 = w.files := by
  obtain ⟨c, hread, hc⟩ := attempt_read w.files (.file .cert)
  have hdue : needsRenewal leafTimes c.toOption w.certModified r.now = w.isDue leafTimes r.now := by
    rw [hc]
    rfl
  unfold obtainOrRenew
  rw [Disk.bind_of_ok hread, hdue]
  cases hd : w.isDue leafTimes r.now with
  | false => rfl
  | true =>
    have hnone : r.issues = none := by
      simpa [World.issues, hd] using h
    cases hadmission : r.admission with
    | none => rfl
    | some admission =>
      obtain ⟨mayIssueNow, assignedCa⟩ := admission
      cases mayIssueNow with
      | false => rfl
      | true =>
        cases assignedCa with
        | none => rfl
        | some ca =>
          -- the directory cannot be created, or the issuance fails
          by_cases hdir : r.faults.createDir = .fine
          · have hissued : r.issued = none := by
              simpa [Run.issues, hadmission, hdir] using hnone
            have htouch : Disk.touch r.faults.createDir w.files = (.ok (), w.files) := by
              rw [hdir]
              rfl
            rw [hissued]
            exact congrArg Prod.snd (Disk.bind_of_ok htouch)
          · have htouch : ∃ e, Disk.touch r.faults.createDir w.files = (.error e, w.files) := by
              cases hf : r.faults.createDir with
              | fine => exact absurd hf hdir
              | fails n => exact ⟨_, rfl⟩
              | dies n => exact ⟨_, rfl⟩
            obtain ⟨e, htouch⟩ := htouch
            exact congrArg Prod.snd (Disk.bind_of_error htouch)

theorem touch_readOnly (f : Fault) : Disk.ReadOnly (Disk.touch f : Disk CertPath Unit) := by
  intro F
  cases f <;> rfl

/-- The world that follows is the one the program leaves. -/
theorem after_files (w : World) (r : Run) :
    (w.after leafTimes r).files = (obtainOrRenew leafTimes w.certModified r w.files).2 := by
  cases h : w.issues leafTimes r with
  | none =>
    rw [obtainOrRenew_of_not_issues h, World.after, h]
  | some i =>
    rw [obtainOrRenew_of_issues h, World.after, h]
    rcases hk : promoteKey r.faults i w.files with ⟨rk, F⟩
    cases rk with
    | error e =>
      rw [Disk.bind_of_error hk]
      simp [hk]
    | ok u =>
      rw [Disk.bind_of_ok hk]
      rcases hc : promoteCert r.faults F with ⟨rc, F'⟩
      cases rc with
      | error e =>
        rw [Disk.bind_of_error hc]
        simp [hk, hc]
      | ok u' =>
        rw [Disk.bind_of_ok hc]
        have hrest : Disk.ReadOnly (do
            Disk.touch r.faults.syncDir
            pure true : Disk CertPath Bool) :=
          (touch_readOnly _).bind (fun _ => Disk.ReadOnly.pure)
        rw [hrest F']
        simp [hk, hc]

structure World.Inv (leafTimes : Bytes → Option (ℤ × ℤ)) (w : World) : Prop where
  past : ∀ t ∈ w.certModified, t ≤ w.clock
  key : From w.issuances IssuedCert.keyPem w.keyFrom (w.files (.file .key))
  cert : From w.issuances IssuedCert.certChainPem w.certFrom (w.files (.file .cert))
  due : w.keyFrom ≠ w.certFrom → w.isDue leafTimes w.clock = true

theorem inv_init : World.init.Inv leafTimes :=
  ⟨nofun, rfl, rfl, fun h => absurd rfl h⟩

/-- What a call does to the two files: nothing, the key of its issuance alone, or both. -/
theorem after_cases (w : World) (r : Run) :
    (∃ F is, F (.file .key) = w.files (.file .key) ∧ F (.file .cert) = w.files (.file .cert) ∧
      w.after leafTimes r =
        { w with files := F, clock := r.done, issuances := w.issuances ++ Option.toList is }) ∨
    (∃ F i, w.isDue leafTimes r.now = true ∧ F (.file .key) = some i.keyPem ∧
      F (.file .cert) = w.files (.file .cert) ∧
      w.after leafTimes r =
        { w with files := F, clock := r.done, issuances := w.issuances ++ [i],
                 keyFrom := some w.issuances.length }) ∨
    ∃ F i, w.issues leafTimes r = some i ∧ F (.file .key) = some i.keyPem ∧
      F (.file .cert) = some i.certChainPem ∧
      w.after leafTimes r =
        ⟨F, some r.wrote, r.done, w.issuances ++ [i], some w.issuances.length, some w.issuances.length⟩ := by
  unfold World.after
  cases hissues : w.issues leafTimes r with
  | none => exact .inl ⟨w.files, none, rfl, rfl, by simp⟩
  | some i =>
    have hkey := @promoteKey_triple w.files i r.faults w.files rfl
    rcases hk : promoteKey r.faults i w.files with ⟨rk, F⟩
    rw [hk] at hkey
    cases rk with
    | error e =>
      refine .inl ⟨F, some i, ?_, ?_, ?_⟩
      · exact hkey (.file .key) (by decide)
      · exact hkey (.file .cert) (by decide)
      · simp [hk]
    | ok u =>
      have hcert := promoteCert_triple r.faults hkey.certNew F rfl
      rcases hc : promoteCert r.faults F with ⟨rc, F'⟩
      rw [hc] at hcert
      cases rc with
      | error e =>
        have hdue := (World.issues_eq_some.mp hissues).1
        refine .inr (.inl ⟨F', i, hdue, ?_, ?_, ?_⟩)
        · exact (congrFun hcert _).trans hkey.key
        · exact (congrFun hcert _).trans hkey.cert
        · simp [hk, hc]
      | ok u' =>
        refine .inr (.inr ⟨F', i, rfl, hcert.1.trans hkey.key, hcert.2, ?_⟩)
        simp [hk, hc]

theorem isDue_mono {w : World} {now later : ℕ} (hpast : ∀ t ∈ w.certModified, t ≤ now) (hle : now ≤ later)
    (h : w.isDue leafTimes now = true) : w.isDue leafTimes later = true :=
  needsRenewal_mono hpast hle h

theorem isDue_congr {u w : World} {now : ℕ} (hcert : u.files (.file .cert) = w.files (.file .cert))
    (hmodified : u.certModified = w.certModified) (h : w.isDue leafTimes now = true) :
    u.isDue leafTimes now = true := by
  unfold World.isDue at h ⊢
  rw [hcert, hmodified]
  exact h

theorem inv_step (w : World) (r : Run) (w' : World) (hw : w.Inv leafTimes)
    (h : w.step leafTimes r = some w') : w'.Inv leafTimes := by
  unfold World.step at h
  split at h
  · rename_i hclock
    obtain ⟨hnow, hwrote, hdone⟩ := hclock
    have hpast : ∀ t ∈ w.certModified, t ≤ r.done := by
      intro t ht
      have hle := hw.past t ht
      omega
    have hw' : w.after leafTimes r = w' := Option.some.inj h
    rw [← hw']
    have hlate : r.now ≤ r.done := hwrote.trans hdone
    rcases @after_cases leafTimes w r with ⟨F, is, hkey, hcert, hafter⟩ |
      ⟨F, i, hdue, hkey, hcert, hafter⟩ | ⟨F, i, -, hkey, hcert, hafter⟩
    · rw [hafter]
      refine ⟨hpast, hw.key.kept hkey _, hw.cert.kept hcert _, fun hne => ?_⟩
      have hold := isDue_mono hw.past (hnow.trans hlate) (hw.due hne)
      exact isDue_congr hcert rfl hold
    · rw [hafter]
      refine ⟨hpast, From.new hkey, hw.cert.kept hcert _, fun _ => ?_⟩
      -- the certificate was found due before the key was replaced
      have hold : w.isDue leafTimes r.done = true := by
        apply isDue_mono ?_ hlate hdue
        intro t ht
        exact (hw.past t ht).trans hnow
      exact isDue_congr hcert rfl hold
    · rw [hafter]
      refine ⟨?_, From.new hkey, From.new hcert, fun hne => absurd rfl hne⟩
      intro t ht
      have hwritten : r.wrote = t := Option.some.inj ht
      exact hwritten ▸ hdone
  · exact absurd h (by simp)

theorem World.Inv.sameIssuance {w : World} (hw : w.Inv leafTimes) (h : w.keyFrom = w.certFrom) :
    w.SameIssuance := by
  have hkey := hw.key
  have hcert := hw.cert
  rw [← h] at hcert
  cases hfrom : w.keyFrom with
  | none =>
    rw [hfrom] at hkey hcert
    exact .inl ⟨hkey, hcert⟩
  | some n =>
    rw [hfrom] at hkey hcert
    obtain ⟨i, hi, hkey⟩ := hkey
    obtain ⟨j, hj, hcert⟩ := hcert
    have hij : i = j := Option.some.inj (hi.symm.trans hj)
    exact .inr ⟨n, i, hfrom, h ▸ hfrom, hi, hkey, hij ▸ hcert⟩

theorem after_of_step {w w' : World} {r : Run} (h : w.step leafTimes r = some w') :
    w.clock ≤ r.now ∧ r.now ≤ r.done ∧ w.after leafTimes r = w' := by
  unfold World.step at h
  split at h
  · rename_i hclock
    exact ⟨hclock.1, hclock.2.1.trans hclock.2.2, Option.some.inj h⟩
  · exact absurd h (by simp)

/-- A certificate that is due stays due until both files are renamed. -/
theorem due_step {w w' : World} {r : Run} (hw : w.Inv leafTimes) (hdue : w.isDue leafTimes w.clock = true)
    (h : w.step leafTimes r = some w') (hnot : renamesBoth leafTimes w r = false) :
    w'.isDue leafTimes w'.clock = true := by
  obtain ⟨hnow, hlate, hw'⟩ := after_of_step h
  have hold : w.isDue leafTimes r.done = true := isDue_mono hw.past (hnow.trans hlate) hdue
  rw [← hw']
  rcases @after_cases leafTimes w r with ⟨F, is, -, hcert, hafter⟩ | ⟨F, i, -, -, hcert, hafter⟩ |
    ⟨F, i, -, -, -, hafter⟩
  · rw [hafter]
    exact isDue_congr hcert rfl hold
  · rw [hafter]
    exact isDue_congr hcert rfl hold
  · simp [renamesBoth, hafter] at hnot

/-- An admitted call at which nothing goes wrong puts both its files in place. -/
theorem replaced_of_fine {w w' : World} {r : Run} {i : IssuedCert} (hw : w.Inv leafTimes)
    (hdue : w.isDue leafTimes w.clock = true) (h : w.step leafTimes r = some w') (hi : r.issues = some i)
    (hf : r.faults.AllFine) :
    w'.SameIssuance ∧ w'.files (.file .key) = some i.keyPem ∧
      w'.files (.file .cert) = some i.certChainPem := by
  obtain ⟨hnow, hlate, hw'⟩ := after_of_step h
  have hissues : w.issues leafTimes r = some i :=
    World.issues_eq_some.mpr ⟨isDue_mono hw.past hnow hdue, hi⟩
  have hinv : w'.Inv leafTimes := inv_step w r w' hw h
  have hkey := @promoteKey_triple w.files i r.faults w.files rfl
  have hfine := @promoteKey_fine w.files i r.faults hf w.files rfl
  rcases hk : promoteKey r.faults i w.files with ⟨rk, F⟩
  rw [hk] at hkey hfine
  cases rk with
  | error e => exact hfine.elim
  | ok u =>
    have hrename : promoteCert r.faults F =
        (.ok (), Function.update (Function.update F (.file .certNew) none) (.file .cert)
          (some i.certChainPem)) := by
      unfold promoteCert
      rw [hf.2.2.2.2.1]
      exact Disk.rename_fine hkey.certNew
    have hafter : w' = ⟨Function.update (Function.update F (.file .certNew) none) (.file .cert)
        (some i.certChainPem), some r.wrote, r.done, w.issuances ++ [i], some w.issuances.length,
        some w.issuances.length⟩ := by
      rw [← hw', World.after, hissues]
      simp [hk, hrename]
    refine ⟨hinv.sameIssuance (by rw [hafter]), ?_, ?_⟩
    · rw [hafter]
      simpa using hkey.key
    · rw [hafter]
      simp

/-- In every reachable world the two files are of one issuance, or the certificate is due, stays so until
a call renames both files, and the next admitted call that meets no fault replaces the pair. -/
theorem mismatched_pair_is_due (leafTimes : Bytes → Option (ℤ × ℤ)) {w : World}
    (hreach : Reachable (World.step leafTimes) World.init w) :
    w.SameIssuance ∨
      ∀ w', Reachable (guarded (World.step leafTimes) (fun u r => !renamesBoth leafTimes u r)) w w' →
        (∀ now, w'.clock ≤ now → w'.isDue leafTimes now = true) ∧
        ∀ r i w'', w'.step leafTimes r = some w'' → r.issues = some i → r.faults.AllFine →
          w''.SameIssuance ∧ w''.files (.file .key) = some i.keyPem ∧
            w''.files (.file .cert) = some i.certChainPem := by
  have hw : w.Inv leafTimes := reachable_invariant inv_step inv_init hreach
  by_cases hfrom : w.keyFrom = w.certFrom
  · exact .inl (hw.sameIssuance hfrom)
  · apply Or.inr
    intro w' hrun
    have hw' : w'.Inv leafTimes ∧ w'.isDue leafTimes w'.clock = true := by
      apply reachable_invariant (P := fun u : World => u.Inv leafTimes ∧ u.isDue leafTimes u.clock = true)
        ?_ ⟨hw, hw.due hfrom⟩ hrun
      intro u r v hu h
      obtain ⟨hnot, hstep⟩ := guarded_eq_some.mp h
      exact ⟨inv_step u r v hu.1 hstep, due_step hu.1 hu.2 hstep (by simpa using hnot)⟩
    constructor
    · intro now hle
      exact isDue_mono hw'.1.past hle hw'.2
    · intro r i w'' hstep hi hf
      exact replaced_of_fine hw'.1 hw'.2 hstep hi hf

end

def RenewFaults.none : RenewFaults := ⟨.fine, .none, .none, .fine, .fine, .fine, .fine⟩

def dueAgain : ℕ := renewAfterDays * 24 * 60 * 60 * nanosPerSec

/-- A first issuance, and sixty days later one that dies between its renames. -/
def interruptedRenewal : List Run :=
  [⟨0, 0, 0, some ⟨true, some "ca"⟩, some ⟨[1], [2]⟩, .none⟩,
    ⟨dueAgain, dueAgain, dueAgain, some ⟨true, some "ca"⟩, some ⟨[3], [4]⟩,
      { RenewFaults.none with renameCert := .dies 0 }⟩]

theorem mismatched_pair_is_due_sample :
    ∃ w, run (World.step (fun _ => none)) World.init interruptedRenewal = some w ∧
      w.files (.file .key) = some [3] ∧ w.files (.file .cert) = some [2] ∧
      (w.SameIssuance ∨
        ∀ w', Reachable (guarded (World.step (fun _ => none))
          (fun u r => !renamesBoth (fun _ => none) u r)) w w' →
          (∀ now, w'.clock ≤ now → w'.isDue (fun _ => none) now = true) ∧
          ∀ r i w'', w'.step (fun _ => none) r = some w'' → r.issues = some i → r.faults.AllFine →
            w''.SameIssuance ∧ w''.files (.file .key) = some i.keyPem ∧
              w''.files (.file .cert) = some i.certChainPem) :=
  ⟨_, rfl, by decide +kernel, by decide +kernel, mismatched_pair_is_due _ ⟨interruptedRenewal, rfl⟩⟩

end CtAgent.AcmeRenew
