import CtAgent.Lib.Text
import CtAgent.SecretFile

/-! Restart-safe onboarding: the three files an enrollment leaves in the state directory. -/
namespace CtAgent.Onboard
open CtAgent.Lib CtAgent.SecretFile

/-- The 32 secret bytes of an identity. -/
abbrev Identity := Vector UInt8 32

structure Enrollment where
  agentId : String
  identity : Identity
  tenant : String
  deriving DecidableEq, Repr

inductive StateFile where
  | identity | agent | tenant | identityNew | agentNew | tenantNew
  deriving DecidableEq, Repr

/-- A file and its temp sibling. -/
inductive StatePath where
  | file (n : StateFile)
  | temp (n : StateFile)
  deriving DecidableEq, Repr

structure PersistFaults where
  createDir : Fault
  setMode : Fault
  stageIdentity : ReplaceFaults
  stageAgent : ReplaceFaults
  stageTenant : ReplaceFaults
  cleanIdentity : Fault
  cleanAgent : Fault
  cleanTenant : Fault
  renameIdentity : Fault
  renameAgent : Fault
  renameTenant : Fault
  syncDir : Fault
  deriving DecidableEq, Repr

def stage (f : PersistFaults) (e : Enrollment) : Disk StatePath Unit := do
  replaceAtomically f.stageIdentity (.file .identityNew) (.temp .identityNew) e.identity.toList
  replaceAtomically f.stageAgent (.file .agentNew) (.temp .agentNew) (utf8 e.agentId)
  replaceAtomically f.stageTenant (.file .tenantNew) (.temp .tenantNew) (utf8 e.tenant)

/-- Each removal is tried, whatever became of the one before. -/
def cleanup (f : PersistFaults) : Disk StatePath Unit := do
  let _ ← Disk.attempt (Disk.removeIfThere f.cleanIdentity (.file .identityNew))
  let _ ← Disk.attempt (Disk.removeIfThere f.cleanAgent (.file .agentNew))
  let _ ← Disk.attempt (Disk.removeIfThere f.cleanTenant (.file .tenantNew))

/-- `persist` up to the renames. -/
def prepare (f : PersistFaults) (e : Enrollment) : Disk StatePath Unit := do
  Disk.touch f.createDir
  Disk.touch f.setMode
  Disk.onFailure (stage f e) (cleanup f)

def persist (f : PersistFaults) (e : Enrollment) : Disk StatePath Unit := do
  prepare f e
  Disk.rename f.renameIdentity (.file .identityNew) (.file .identity)
  Disk.rename f.renameAgent (.file .agentNew) (.file .agent)
  Disk.rename f.renameTenant (.file .tenantNew) (.file .tenant)
  Disk.touch f.syncDir

def readToString (p : StatePath) : Disk StatePath String := do
  let bytes ← Disk.read p
  Disk.ofOption "stream did not contain valid UTF-8" (ofUtf8 bytes)

def identityOf (bytes : Bytes) : Option Identity :=
  if h : bytes.length = 32 then some ⟨bytes.toArray, by simpa using h⟩ else none

def loadSecretFrom (p : StatePath) : Disk StatePath Identity := do
  let bytes ← Disk.read p
  Disk.ofOption "identity key must be exactly 32 bytes" (identityOf bytes)

def restore (agentId : String) : Disk StatePath (Option (Identity × String)) := do
  if ← Disk.isThere (.file .identity) then
    let persistedAgent ← readToString (.file .agent)
    -- the identity beside it is not compared with anything
    if persistedAgent ≠ agentId then pure none
    else
      let identity ← loadSecretFrom (.file .identity)
      let tenant ← readToString (.file .tenant)
      pure (some (identity, tenant))
  else pure none

/-- One start of the agent: its id, the fresh identity and the tenant an enrollment would bind it to
(none where the control plane refuses), and the faults of the persist. -/
structure Boot where
  agentId : String
  onboards : Option (Identity × String)
  faults : PersistFaults
  deriving DecidableEq, Repr

inductive Booted where
  | restored (identity : Identity) (tenant : String)
  | enrolled (identity : Identity) (tenant : String)
  deriving DecidableEq, Repr

def onboardOrRestore (b : Boot) : Disk StatePath Booted := do
  match ← restore b.agentId with
  | some (identity, tenant) => pure (.restored identity tenant)
  | none =>
    match b.onboards with
    | none => Disk.fail "control-plane onboarding failed"
    | some (identity, tenant) =>
      persist b.faults ⟨b.agentId, identity, tenant⟩
      pure (.enrolled identity tenant)

def PersistFaults.StagesFine (f : PersistFaults) : Prop :=
  f.stageIdentity.AllFine ∧ f.stageAgent.AllFine ∧ f.stageTenant.AllFine

/-- The first rename goes through. -/
def PersistFaults.Reaches (f : PersistFaults) : Prop :=
  f.createDir = .fine ∧ f.setMode = .fine ∧ f.StagesFine ∧ f.renameIdentity = .fine

instance (f : PersistFaults) : Decidable f.StagesFine := by
  unfold PersistFaults.StagesFine ReplaceFaults.AllFine
  infer_instance

instance (f : PersistFaults) : Decidable f.Reaches := by
  unfold PersistFaults.Reaches
  infer_instance

/-! What a persist leaves behind, wherever it stops. -/

/-- The three files are those of the enrollment. -/
structure Holds (e : Enrollment) (F : Files StatePath) : Prop where
  identity : F (.file .identity) = some e.identity.toList
  agent : F (.file .agent) = some (utf8 e.agentId)
  tenant : F (.file .tenant) = some (utf8 e.tenant)

def stagingPaths : List StatePath :=
  [.file .identityNew, .temp .identityNew, .file .agentNew, .temp .agentNew, .file .tenantNew,
    .temp .tenantNew]

/-- Only staging files changed. -/
def Staged (F₀ F : Files StatePath) : Prop := Disk.AgreeOff stagingPaths F₀ F

def StagedAll (e : Enrollment) (F₀ F : Files StatePath) : Prop :=
  Staged F₀ F ∧ (F (.file .identityNew) = some e.identity.toList ∧
    F (.file .agentNew) = some (utf8 e.agentId)) ∧
    F (.file .tenantNew) = some (utf8 e.tenant)

/-- The identity is the new one, the agent id and the tenant are the old ones. -/
structure IdentityRenamed (e : Enrollment) (F₀ F : Files StatePath) : Prop where
  identity : F (.file .identity) = some e.identity.toList
  agent : F (.file .agent) = F₀ (.file .agent)
  tenant : F (.file .tenant) = F₀ (.file .tenant)

/-- Only the tenant is the old one. -/
structure AgentRenamed (e : Enrollment) (F₀ F : Files StatePath) : Prop where
  identity : F (.file .identity) = some e.identity.toList
  agent : F (.file .agent) = some (utf8 e.agentId)
  tenant : F (.file .tenant) = F₀ (.file .tenant)

section
variable {e : Enrollment} {F₀ : Files StatePath}

theorem staged_refl : Staged F₀ F₀ := Disk.AgreeOff.refl _ F₀

/-- The three staged writes, from what each of them keeps and adds. -/
theorem stage_seq {f : PersistFaults} {stop : Halt → Files StatePath → Prop}
    (hwrite : ∀ g ∈ [f.stageIdentity, f.stageAgent, f.stageTenant], ∀ n bytes (Q : Files StatePath → Prop),
      [StatePath.file n, .temp n] ⊆ stagingPaths →
      (∀ F F', Disk.AgreeOff [.file n, .temp n] F F' → Q F → Q F') →
      Disk.Triple (fun F => Staged F₀ F ∧ Q F) (replaceAtomically g (.file n) (.temp n) bytes)
        (fun _ F => Staged F₀ F ∧ Q F ∧ F (.file n) = some bytes) stop) :
    Disk.Triple (· = F₀) (stage f e) (fun _ F => StagedAll e F₀ F) stop := by
  refine Disk.Triple.bind (R := fun _ F => Staged F₀ F ∧ F (.file .identityNew) = some e.identity.toList) ?_ ?_
  · refine (hwrite f.stageIdentity (by simp) .identityNew e.identity.toList (fun _ => True) (by decide)
      (fun _ _ _ h => h)).consequence ?_ ?_ (fun _ _ h => h)
    · intro F hF
      subst hF
      exact ⟨staged_refl, trivial⟩
    · intro _ F hF
      exact ⟨hF.1, hF.2.2⟩
  intro _
  refine Disk.Triple.bind (R := fun _ F => Staged F₀ F ∧ F (.file .identityNew) = some e.identity.toList ∧
    F (.file .agentNew) = some (utf8 e.agentId)) ?_ ?_
  · apply hwrite f.stageAgent (by simp) .agentNew _ _ (by decide)
    intro F F' hagree h
    exact (hagree _ (by decide)).trans h
  intro _
  apply hwrite f.stageTenant (by simp) .tenantNew _ _ (by decide)
  intro F F' hagree h
  exact ⟨(hagree _ (by decide)).trans h.1, (hagree _ (by decide)).trans h.2⟩

theorem stage_triple (f : PersistFaults) :
    Disk.Triple (· = F₀) (stage f e) (fun _ F => StagedAll e F₀ F) (fun _ F => Staged F₀ F) := by
  apply stage_seq
  intro g _ n bytes Q hsub hQ
  exact replaceAtomically_within g (by simp) hsub hQ

theorem stage_fine {f : PersistFaults} (hf : f.StagesFine) {stop : Halt → Files StatePath → Prop} :
    Disk.Triple (· = F₀) (stage f e) (fun _ F => StagedAll e F₀ F) stop := by
  obtain ⟨hidentity, hagent, htenant⟩ := hf
  apply stage_seq
  intro g hg n bytes Q hsub hQ
  have hfine : g.AllFine := by
    simp only [List.mem_cons, List.not_mem_nil, or_false] at hg
    rcases hg with h | h | h <;> rwa [h]
  exact replaceAtomically_fine_within hfine hsub hQ

theorem stage_went_well (f : PersistFaults) :
    Disk.Triple (fun _ => True) (stage f e) (fun _ _ => f.StagesFine) (fun _ _ => True) := by
  refine Disk.Triple.bind (replaceAtomically_went_well f.stageIdentity) (fun _ => ?_)
  refine Disk.Triple.of_forall (fun _ hidentity => ?_)
  refine (Disk.Triple.bind (replaceAtomically_went_well f.stageAgent) (fun _ => ?_)).consequence
    (fun _ _ => trivial) (fun _ _ h => h) (fun _ _ h => h)
  refine Disk.Triple.of_forall (fun _ hagent => ?_)
  refine (replaceAtomically_went_well f.stageTenant).consequence (fun _ _ => trivial) ?_ (fun _ _ h => h)
  intro _ _ htenant
  exact ⟨hidentity, hagent, htenant⟩

theorem removeStaged_triple (f : Fault) {n : StateFile} (hn : StatePath.file n ∈ stagingPaths) :
    Disk.Triple (Staged F₀) (Disk.attempt (Disk.removeIfThere f (.file n))) (fun _ => Staged F₀)
      (fun _ => Staged F₀) := by
  refine Disk.Triple.attempt (Disk.Triple.removeIfThere ?_ ?_)
  · intro F hF
    exact Disk.AgreeOff.update hF hn none
  · intro h F hF
    cases h <;> exact hF

theorem cleanup_triple (f : PersistFaults) :
    Disk.Triple (Staged F₀) (cleanup f) (fun _ => Staged F₀) (fun _ => Staged F₀) := by
  refine Disk.Triple.bind (removeStaged_triple f.cleanIdentity (by decide)) (fun _ => ?_)
  refine Disk.Triple.bind (removeStaged_triple f.cleanAgent (by decide)) (fun _ => ?_)
  refine Disk.Triple.bind (removeStaged_triple f.cleanTenant (by decide)) (fun _ => ?_)
  intro F hF
  exact hF

theorem prepare_triple (f : PersistFaults) :
    Disk.Triple (· = F₀) (prepare f e)
      (fun _ F => StagedAll e F₀ F ∧ f.createDir = .fine ∧ f.setMode = .fine ∧ f.StagesFine)
      (fun _ F => Staged F₀ F) := by
  have htouch (g : Fault) : Disk.Triple (· = F₀) (Disk.touch g) (fun _ F => F = F₀ ∧ g = .fine)
      (fun _ F => Staged F₀ F) := by
    have hstaged : Disk.Triple (· = F₀) (Disk.touch g) (fun _ F => F = F₀) (fun _ F => Staged F₀ F) := by
      apply Disk.Triple.touch
      · intro _ F why hF _
        exact hF ▸ staged_refl
      · intro F hF
        exact hF ▸ staged_refl
    exact (hstaged.and Disk.Triple.act_went_well).consequence (fun _ h => h) (fun _ _ h => h)
      (fun _ _ h => h.1)
  refine Disk.Triple.bind (htouch f.createDir) (fun _ => ?_)
  apply Disk.Triple.of_forall
  intro F hF
  obtain ⟨hF, hdir⟩ := hF
  subst hF
  refine Disk.Triple.bind (htouch f.setMode) (fun _ => ?_)
  apply Disk.Triple.of_forall
  intro F' hF'
  obtain ⟨hF', hmode⟩ := hF'
  subst hF'
  have hstage : Disk.Triple (· = F') (stage f e) (fun _ F => StagedAll e F' F ∧ f.StagesFine)
      (fun _ F => Staged F' F) :=
    ((stage_triple f).and ((stage_went_well f).consequence (fun _ _ => trivial) (fun _ _ h => h)
      (fun _ _ h => h))).consequence (fun _ h => h) (fun _ _ h => h) (fun _ _ h => h.1)
  refine (Disk.Triple.onFailure hstage (cleanup_triple f)).consequence (fun _ h => h) ?_ (fun _ _ h => h)
  intro _ F h
  exact ⟨h.1, hdir, hmode, h.2⟩

theorem prepare_fine {f : PersistFaults} (hf : f.Reaches) :
    Disk.Triple (· = F₀) (prepare f e) (fun _ F => StagedAll e F₀ F) (fun _ _ => False) := by
  obtain ⟨hdir, hmode, hstages, -⟩ := hf
  refine Disk.Triple.bind (R := fun _ F => F = F₀) (Disk.Triple.act_fine hdir ?_) (fun _ => ?_)
  · intro F hF
    exact ⟨F, rfl, hF⟩
  refine Disk.Triple.bind (R := fun _ F => F = F₀) (Disk.Triple.act_fine hmode ?_) (fun _ => ?_)
  · intro F hF
    exact ⟨F, rfl, hF⟩
  exact Disk.Triple.onFailure (stage_fine hstages) Disk.Triple.of_false

/-- A persist that does not come past its first rename changes staging files only. -/
theorem persist_not_reached {f : PersistFaults} (hf : ¬f.Reaches) :
    Disk.Triple (· = F₀) (persist f e) (fun _ _ => False) (fun _ F => Staged F₀ F) := by
  refine Disk.Triple.bind (prepare_triple f) (fun _ => ?_)
  apply Disk.Triple.of_forall
  intro F hF
  obtain ⟨hstaged, hdir, hmode, hstages⟩ := hF
  have hfault : f.renameIdentity ≠ .fine := fun hfine => hf ⟨hdir, hmode, hstages, hfine⟩
  refine Disk.Triple.bind (R := fun _ _ => False) (Disk.Triple.act_faulty hfault ?_)
    (fun _ => Disk.Triple.of_false)
  intro h n F' hF'
  exact hF' ▸ hstaged.1

/-- One that does leaves the files at the rename that stops it, or all three in place. -/
theorem persist_reached {f : PersistFaults} (hf : f.Reaches) :
    Disk.Triple (· = F₀) (persist f e)
      (fun _ F => f.renameAgent = .fine ∧ f.renameTenant = .fine ∧ Holds e F)
      (fun _ F => (f.renameAgent ≠ .fine ∧ IdentityRenamed e F₀ F) ∨
        (f.renameAgent = .fine ∧ f.renameTenant ≠ .fine ∧ AgentRenamed e F₀ F) ∨
        (f.renameAgent = .fine ∧ f.renameTenant = .fine ∧ Holds e F)) := by
  refine Disk.Triple.bind ((prepare_fine hf).consequence (fun _ h => h) (fun _ _ h => h)
    (fun _ _ h => h.elim)) (fun _ => ?_)
  refine Disk.Triple.bind (R := fun _ F => IdentityRenamed e F₀ F ∧
    F (.file .agentNew) = some (utf8 e.agentId) ∧ F (.file .tenantNew) = some (utf8 e.tenant)) ?_ ?_
  · apply Disk.Triple.rename_there
    · intro F hF
      obtain ⟨hstaged, ⟨hidentity, hagent⟩, htenant⟩ := hF
      refine ⟨hidentity, ⟨by simp, ?_, ?_⟩, by simpa using hagent, by simpa using htenant⟩
      · simpa using hstaged (.file .agent) (by decide)
      · simpa using hstaged (.file .tenant) (by decide)
    · intro h F hF hfault
      exact absurd hf.2.2.2 hfault
  intro _
  have hagent : Disk.Triple (fun F => IdentityRenamed e F₀ F ∧
      F (.file .agentNew) = some (utf8 e.agentId) ∧ F (.file .tenantNew) = some (utf8 e.tenant))
      (Disk.rename f.renameAgent (.file .agentNew) (.file .agent))
      (fun _ F => AgentRenamed e F₀ F ∧ F (.file .tenantNew) = some (utf8 e.tenant))
      (fun _ F => f.renameAgent ≠ .fine ∧ IdentityRenamed e F₀ F) := by
    apply Disk.Triple.rename_there
    · intro F hF
      obtain ⟨hrenamed, hagent, htenant⟩ := hF
      refine ⟨hagent, ⟨by simpa using hrenamed.identity, by simp, ?_⟩, by simpa using htenant⟩
      simpa using hrenamed.tenant
    · intro h F hF hfault
      exact ⟨hfault, hF.1⟩
  refine Disk.Triple.bind ((hagent.and Disk.Triple.act_went_well).consequence (fun _ h => h)
    (fun _ _ h => h) (fun _ _ h => .inl h.1)) (fun _ => ?_)
  apply Disk.Triple.of_forall
  intro F₁ hF₁
  obtain ⟨hrenamed, hagentFine⟩ := hF₁
  have htenant : Disk.Triple (· = F₁) (Disk.rename f.renameTenant (.file .tenantNew) (.file .tenant))
      (fun _ F => Holds e F) (fun _ F => f.renameTenant ≠ .fine ∧ F = F₁) := by
    apply Disk.Triple.rename_there
    · intro F hF
      subst hF
      exact ⟨hrenamed.2, by simpa using hrenamed.1.identity, by simpa using hrenamed.1.agent, by simp⟩
    · intro h F hF hfault
      exact ⟨hfault, hF⟩
  refine Disk.Triple.bind ((htenant.and Disk.Triple.act_went_well).consequence (fun _ h => h)
    (fun _ _ h => h) ?_) (fun _ => ?_)
  · intro _ F h
    exact .inr (.inl ⟨hagentFine, h.1.1, h.1.2 ▸ hrenamed.1⟩)
  refine (Disk.Triple.touch ?_ ?_).consequence (fun _ h => h) ?_ (fun _ _ h => h)
  · intro _ F why hF _
    exact .inr (.inr ⟨hagentFine, hF.2, hF.1⟩)
  · intro F hF
    exact .inr (.inr ⟨hagentFine, hF.2, hF.1⟩)
  · intro _ F hF
    exact ⟨hagentFine, hF.2, hF.1⟩

end

end CtAgent.Onboard
