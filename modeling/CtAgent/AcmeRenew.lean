import CtAgent.SecretFile

/-! `obtain_or_renew`: when the certificate on disk is due, and how a new key and chain are put in place.
Times are nanoseconds since the epoch. -/
namespace CtAgent.AcmeRenew
open CtAgent.Lib CtAgent.SecretFile

def renewAfterDays : ℕ := 60

def nanosPerSec : ℕ := 1000000000

def renewalDueByValidity (notBefore notAfter now : ℕ) : Bool :=
  -- a window that ends before it begins
  if notAfter < notBefore then true
  else decide (notBefore + (notAfter - notBefore) * 2 / 3 ≤ now)

def renewalDue (issuedAt now : ℕ) : Bool :=
  -- the clock stepped back: the age is taken for `Duration::MAX`
  if now < issuedAt then true
  else decide (renewAfterDays * 24 * 60 * 60 * nanosPerSec ≤ now - issuedAt)

def toSystem (timestamp : ℤ) : Option ℕ :=
  if 0 ≤ timestamp then some (timestamp.toNat * nanosPerSec) else none

structure Admission where
  mayIssueNow : Bool
  assignedCa : Option String
  deriving DecidableEq, Repr

structure IssuedCert where
  keyPem : Bytes
  certChainPem : Bytes
  deriving DecidableEq, Repr

inductive CertFile where
  | key | cert | keyNew | certNew
  deriving DecidableEq, Repr

/-- A file and its temp sibling. -/
inductive CertPath where
  | file (n : CertFile)
  | temp (n : CertFile)
  deriving DecidableEq, Repr

structure RenewFaults where
  createDir : Fault
  stageKey : ReplaceFaults
  stageCert : ReplaceFaults
  cleanup : Fault
  renameKey : Fault
  renameCert : Fault
  syncDir : Fault
  deriving DecidableEq, Repr

/-- One call: the clock when the freshness is checked, when the chain is written and at the end; what
the broker answers; what the issuance returns (none where it fails). -/
structure Run where
  now : ℕ
  wrote : ℕ
  done : ℕ
  admission : Option Admission
  issued : Option IssuedCert
  faults : RenewFaults
  deriving DecidableEq, Repr

def stagePair (f : RenewFaults) (i : IssuedCert) : Disk CertPath Unit := do
  replaceAtomically f.stageKey (.file .keyNew) (.temp .keyNew) i.keyPem
  Disk.onFailure (replaceAtomically f.stageCert (.file .certNew) (.temp .certNew) i.certChainPem)
    (Disk.removeIfThere f.cleanup (.file .keyNew))

def promoteKey (f : RenewFaults) (i : IssuedCert) : Disk CertPath Unit := do
  stagePair f i
  Disk.rename f.renameKey (.file .keyNew) (.file .key)

def promoteCert (f : RenewFaults) : Disk CertPath Unit :=
  Disk.rename f.renameCert (.file .certNew) (.file .cert)

section
-- the parsed `notBefore` and `notAfter` of the first certificate of a PEM chain, in seconds
variable (leafTimes : Bytes → Option (ℤ × ℤ))

def leafValidity (pem : Bytes) : Option (ℕ × ℕ) :=
  (leafTimes pem).bind (fun times =>
    (toSystem times.1).bind (fun notBefore => (toSystem times.2).map (fun notAfter => (notBefore, notAfter))))

/-- `needs_renewal` of the file with these contents and this modification time. -/
def needsRenewal (cert : Option Bytes) (modified : Option ℕ) (now : ℕ) : Bool :=
  match cert with
  | none => true
  | some pem =>
    match leafValidity leafTimes pem with
    | some (notBefore, notAfter) => renewalDueByValidity notBefore notAfter now
    | none =>
      match modified with
      | none => true
      | some modified => renewalDue modified now

def obtainOrRenew (modified : Option ℕ) (r : Run) : Disk CertPath Bool := do
  let cert ← Disk.attempt (Disk.read (.file .cert))
  if !needsRenewal leafTimes cert.toOption modified r.now then pure false
  else
    match r.admission with
    | none =>
      Disk.fail "admission broker did not respond -- cannot determine whether this hostname may issue yet"
    | some admission =>
      if !admission.mayIssueNow then pure false
      else
        match admission.assignedCa with
        | none => Disk.fail "admission broker says this hostname may issue now, but assigned it no CA"
        | some _ => do
          Disk.touch r.faults.createDir
          match r.issued with
          | none => Disk.fail "issuance failed"
          | some issued => do
            promoteKey r.faults issued
            promoteCert r.faults
            Disk.touch r.faults.syncDir
            pure true

end

/-! The freshness check: a certificate that is due stays due. -/

theorem renewalDueByValidity_mono {notBefore notAfter now later : ℕ} (hle : now ≤ later)
    (h : renewalDueByValidity notBefore notAfter now = true) :
    renewalDueByValidity notBefore notAfter later = true := by
  unfold renewalDueByValidity at h ⊢
  split at h
  · rename_i hback
    rw [if_pos hback]
  · rename_i hback
    rw [if_neg hback]
    have hdue := of_decide_eq_true h
    exact decide_eq_true (hdue.trans hle)

/-- The age only grows where the file was not written after `now`. -/
theorem renewalDue_mono {issuedAt now later : ℕ} (hpast : issuedAt ≤ now) (hle : now ≤ later)
    (h : renewalDue issuedAt now = true) : renewalDue issuedAt later = true := by
  unfold renewalDue at h ⊢
  rw [if_neg (Nat.not_lt.mpr hpast)] at h
  rw [if_neg (Nat.not_lt.mpr (hpast.trans hle))]
  have hage := of_decide_eq_true h
  exact decide_eq_true (hage.trans (Nat.sub_le_sub_right hle issuedAt))

theorem needsRenewal_mono {leafTimes : Bytes → Option (ℤ × ℤ)} {cert : Option Bytes} {modified : Option ℕ}
    {now later : ℕ} (hpast : ∀ t ∈ modified, t ≤ now) (hle : now ≤ later)
    (h : needsRenewal leafTimes cert modified now = true) :
    needsRenewal leafTimes cert modified later = true := by
  unfold needsRenewal at h ⊢
  cases cert with
  | none => rfl
  | some pem =>
    cases hv : leafValidity leafTimes pem with
    | some window =>
      simp only [hv] at h ⊢
      exact renewalDueByValidity_mono hle h
    | none =>
      cases modified with
      | none => simp only [hv]
      | some t =>
        simp only [hv] at h ⊢
        exact renewalDue_mono (hpast t rfl) hle h

/-! What a renewal leaves behind, wherever it stops. -/

def stagingPaths : List CertPath := [.file .keyNew, .temp .keyNew, .file .certNew, .temp .certNew]

/-- Only staging files changed. -/
def Staged (F₀ F : Files CertPath) : Prop := Disk.AgreeOff stagingPaths F₀ F

section
variable {F₀ : Files CertPath} {i : IssuedCert}

theorem staged_refl : Staged F₀ F₀ := Disk.AgreeOff.refl _ F₀

theorem stagePair_triple (f : RenewFaults) :
    Disk.Triple (· = F₀) (stagePair f i)
      (fun _ F => Staged F₀ F ∧ F (.file .keyNew) = some i.keyPem ∧
        F (.file .certNew) = some i.certChainPem)
      (fun _ F => Staged F₀ F) := by
  refine Disk.Triple.bind (R := fun _ F => Staged F₀ F ∧ F (.file .keyNew) = some i.keyPem) ?_ ?_
  · refine (replaceAtomically_within (S := stagingPaths) (Q := fun _ => True) f.stageKey (by decide)
      (by decide) (fun _ _ _ h => h)).consequence ?_ ?_ (fun _ _ h => h)
    · intro F hF
      subst hF
      exact ⟨staged_refl, trivial⟩
    · intro _ F hF
      exact ⟨hF.1, hF.2.2⟩
  intro _
  apply Disk.Triple.onFailure
  · apply replaceAtomically_within f.stageCert (by decide) (by decide)
    intro F F' hagree h
    exact (hagree _ (by decide)).trans h
  · apply Disk.Triple.removeIfThere
    · intro F hF
      exact Disk.AgreeOff.update hF (by decide) none
    · intro _ F hF
      exact hF

/-- The key is the new one, the certificate the old one; the new one stands ready. -/
structure KeyPromoted (i : IssuedCert) (F₀ F : Files CertPath) : Prop where
  key : F (.file .key) = some i.keyPem
  cert : F (.file .cert) = F₀ (.file .cert)
  certNew : F (.file .certNew) = some i.certChainPem

theorem promoteKey_triple (f : RenewFaults) :
    Disk.Triple (· = F₀) (promoteKey f i) (fun _ F => KeyPromoted i F₀ F) (fun _ F => Staged F₀ F) := by
  refine Disk.Triple.bind (stagePair_triple f) (fun _ => ?_)
  apply Disk.Triple.rename
  · intro F bytes hF hnew
    obtain ⟨hstaged, hkey, hcert⟩ := hF
    refine ⟨?_, ?_, by simpa using hcert⟩
    · rw [Function.update_self, ← hnew, hkey]
    · simpa using hstaged (.file .cert) (by decide)
  · intro _ F hF
    exact hF.1

/-- The rename of the certificate: all of it, or nothing. -/
theorem promoteCert_triple (f : RenewFaults) (h₀ : F₀ (.file .certNew) = some i.certChainPem) :
    Disk.Triple (· = F₀) (promoteCert f)
      (fun _ F => F (.file .key) = F₀ (.file .key) ∧ F (.file .cert) = some i.certChainPem)
      (fun _ F => F = F₀) := by
  apply Disk.Triple.rename
  · intro F bytes hF hnew
    subst hF
    refine ⟨by simp, ?_⟩
    rw [Function.update_self, ← hnew, h₀]
  · intro _ F hF
    exact hF

def RenewFaults.AllFine (f : RenewFaults) : Prop :=
  f.createDir = .fine ∧ f.stageKey.AllFine ∧ f.stageCert.AllFine ∧ f.renameKey = .fine ∧
    f.renameCert = .fine ∧ f.syncDir = .fine

/-- A renewal at which nothing goes wrong comes past both renames. -/
theorem promoteKey_fine {f : RenewFaults} (hf : f.AllFine) :
    Disk.Triple (· = F₀) (promoteKey f i) (fun _ _ => True) (fun _ _ => False) := by
  obtain ⟨-, hkey, hcert, hrename, -⟩ := hf
  refine Disk.Triple.bind (R := fun _ F => F (.file .keyNew) = some i.keyPem) ?_ (fun _ => ?_)
  · refine Disk.Triple.bind (R := fun _ F => F (.file .keyNew) = some i.keyPem)
      ((replaceAtomically_fine hkey).consequence (fun _ h => h) ?_ (fun _ _ h => h)) (fun _ => ?_)
    · intro _ F hF
      exact hF.2
    · apply Disk.Triple.onFailure (S := fun _ => False) ?_ Disk.Triple.of_false
      apply Disk.Triple.of_forall
      intro F₁ h₁
      refine (replaceAtomically_fine hcert).consequence (fun _ h => h) ?_ (fun _ _ h => h)
      intro _ F hF
      exact (hF.1 _ (by decide)).trans h₁
  · apply Disk.Triple.rename_there
    · intro F hF
      exact ⟨hF, trivial⟩
    · intro _ F _ hfault
      exact hfault hrename

end

end CtAgent.AcmeRenew
