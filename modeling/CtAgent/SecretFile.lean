import CtAgent.Lib.FileSys

/-! `write_private`: a temp sibling is written and synced, renamed over the path, and the
directory is synced last. A reader of the path sees the old contents or the new ones. -/
namespace CtAgent.SecretFile
open CtAgent.Lib

/-- The steps of `write_private` that can fail, in order. -/
inductive WriteStep where
  | symlinkCheck | removeTemp | openTemp | writeTemp | syncTemp | rename | syncDir
  deriving DecidableEq, Repr

/-- The result and the contents of the path after `write_private`, with the step that fails. Only
the sync of the directory comes after the rename. -/
def writePrivate {α : Type*} (fault : Option WriteStep) (old new : α) : Except WriteStep Unit × α :=
  match fault with
  | none => (.ok (), new)
  -- the rename has happened, whatever the caller is told
  | some .syncDir => (.error .syncDir, new)
  | some step => (.error step, old)

/-- What happens to each operation of one atomic replacement. -/
structure ReplaceFaults where
  stale : Fault
  create : Fault
  write : Fault
  sync : Fault
  rename : Fault
  syncDir : Fault
  cleanup : Fault
  deriving DecidableEq, Repr

def ReplaceFaults.none : ReplaceFaults := ⟨.fine, .fine, .fine, .fine, .fine, .fine, .fine⟩

/-- Everything up to the sync of the directory goes through. -/
def ReplaceFaults.AllFine (f : ReplaceFaults) : Prop :=
  f.stale = .fine ∧ f.create = .fine ∧ f.write = .fine ∧ f.sync = .fine ∧ f.rename = .fine ∧
    f.syncDir = .fine

section
variable {P : Type} [DecidableEq P]

/-- `replace_atomically`, with the temp sibling of `path` as `tmp`. -/
def replaceAtomically (f : ReplaceFaults) (path tmp : P) (bytes : Bytes) : Disk P Unit := do
  -- a sibling that an earlier run left behind
  Disk.removeIfThere f.stale tmp
  Disk.onFailure
    (do
      Disk.createNew f.create tmp
      Disk.writeAll f.write tmp bytes
      Disk.touch f.sync
      Disk.rename f.rename tmp path
      Disk.touch f.syncDir)
    (Disk.removeIfThere f.cleanup tmp)

variable {path tmp : P} {bytes : Bytes} {F₀ : Files P}

/-- Wherever the replacement stops: nothing else changed, and the path has its old contents or all of
the new ones. -/
def OldOrNew (path tmp : P) (bytes : Bytes) (F₀ F : Files P) : Prop :=
  Disk.AgreeOff [path, tmp] F₀ F ∧ (F path = F₀ path ∨ F path = some bytes)

omit [DecidableEq P] in
theorem oldOrNew_of_agreeOff (hne : tmp ≠ path) {F : Files P} (h : Disk.AgreeOff [tmp] F₀ F) :
    OldOrNew path tmp bytes F₀ F := by
  refine ⟨h.mono (by simp), .inl (h path ?_)⟩
  simpa using hne.symm

theorem OldOrNew.remove_tmp (hne : tmp ≠ path) {F : Files P} (h : OldOrNew path tmp bytes F₀ F) :
    OldOrNew path tmp bytes F₀ (Function.update F tmp none) := by
  refine ⟨h.1.update (by simp) none, ?_⟩
  rw [Function.update_of_ne hne.symm]
  exact h.2

theorem replaceAtomically_triple (f : ReplaceFaults) (hne : tmp ≠ path) :
    Disk.Triple (· = F₀) (replaceAtomically f path tmp bytes)
      (fun _ F => Disk.AgreeOff [path, tmp] F₀ F ∧ F path = some bytes)
      (fun _ F => OldOrNew path tmp bytes F₀ F) := by
  have hstop (h : Halt) (F : Files P) (hF : Disk.AgreeOff [tmp] F₀ F) :
      OldOrNew path tmp bytes F₀ F := oldOrNew_of_agreeOff hne hF
  have htmp {F : Files P} (hF : Disk.AgreeOff [tmp] F₀ F) (c : Option Bytes) :
      Disk.AgreeOff [tmp] F₀ (Function.update F tmp c) := hF.update (by simp) c
  refine Disk.Triple.bind (R := fun _ F => Disk.AgreeOff [tmp] F₀ F) ?_ ?_
  · apply Disk.Triple.removeIfThere
    · rintro F rfl
      exact (Disk.AgreeOff.refl _ F).update (by simp) none
    · rintro h F rfl
      exact hstop h F (Disk.AgreeOff.refl _ F)
  intro _
  apply Disk.Triple.onFailure
  · -- up to the rename only the temp sibling changes
    refine Disk.Triple.bind (R := fun _ F => Disk.AgreeOff [tmp] F₀ F) ?_ ?_
    · apply Disk.Triple.createNew
      · intro F hF
        exact htmp hF _
      · intro h F hF
        exact ⟨hstop h F hF, hstop h _ (htmp hF _)⟩
    intro _
    refine Disk.Triple.bind (R := fun _ F => Disk.AgreeOff [tmp] F₀ F ∧ F tmp = some bytes) ?_ ?_
    · apply Disk.Triple.writeAll
      · intro F hF
        exact ⟨htmp hF _, Function.update_self ..⟩
      · intro h n F hF
        exact hstop h _ (htmp hF _)
    intro _
    refine Disk.Triple.bind (Disk.Triple.touch ?_ ?_) ?_
    · intro _ F why hF _
      exact hstop (.failed why) F hF.1
    · intro F hF
      exact hstop .died F hF.1
    intro _
    refine Disk.Triple.bind
      (R := fun _ F => Disk.AgreeOff [path, tmp] F₀ F ∧ F path = some bytes) ?_ ?_
    · apply Disk.Triple.rename
      · intro F c hF hc
        obtain rfl : c = bytes := Option.some.inj (hc.symm.trans hF.2)
        have hboth : Disk.AgreeOff [path, tmp] F₀ F := hF.1.mono (by simp)
        exact ⟨(hboth.update (by simp) none).update (by simp) _, Function.update_self ..⟩
      · intro h F hF
        exact hstop h F hF.1
    intro _
    apply Disk.Triple.touch
    · intro _ F _ hF _
      exact ⟨hF.1, .inr hF.2⟩
    · intro F hF
      exact ⟨hF.1, .inr hF.2⟩
  · apply Disk.Triple.removeIfThere
    · intro F hF
      exact hF.remove_tmp hne
    · intro _ F hF
      exact hF

/-- A replacement that leads on met no fault. -/
theorem replaceAtomically_went_well (f : ReplaceFaults) :
    Disk.Triple (fun _ => True) (replaceAtomically f path tmp bytes) (fun _ _ => f.AllFine)
      (fun _ _ => True) := by
  refine Disk.Triple.bind Disk.Triple.act_went_well (fun _ => ?_)
  refine Disk.Triple.of_forall (fun F hstale => ?_)
  have hinner : Disk.Triple (fun _ => True)
      (do
        Disk.createNew f.create tmp
        Disk.writeAll f.write tmp bytes
        Disk.touch f.sync
        Disk.rename f.rename tmp path
        Disk.touch f.syncDir)
      (fun _ _ => f.AllFine) (fun _ _ => True) := by
    refine Disk.Triple.bind Disk.Triple.act_went_well (fun _ => ?_)
    refine Disk.Triple.of_forall (fun _ hcreate => ?_)
    refine Disk.Triple.bind Disk.Triple.act_went_well (fun _ => ?_)
    refine Disk.Triple.of_forall (fun _ hwrite => ?_)
    refine Disk.Triple.bind Disk.Triple.act_went_well (fun _ => ?_)
    refine Disk.Triple.of_forall (fun _ hsync => ?_)
    refine Disk.Triple.bind Disk.Triple.act_went_well (fun _ => ?_)
    refine Disk.Triple.of_forall (fun _ hrename => ?_)
    refine Disk.Triple.consequence Disk.Triple.act_went_well (fun _ h => h) ?_ (fun _ _ h => h)
    intro _ _ hsyncDir
    exact ⟨hstale, hcreate, hwrite, hsync, hrename, hsyncDir⟩
  refine Disk.Triple.onFailure (hinner.consequence (fun _ _ => trivial) (fun _ _ h => h) (fun _ _ h => h)) ?_
  exact Disk.Triple.consequence Disk.Triple.act_went_well (fun _ h => h) (fun _ _ _ => trivial)
    (fun _ _ h => h)

/-- A replacement that meets no fault puts the new contents at the path. -/
theorem replaceAtomically_fine {f : ReplaceFaults} (hf : f.AllFine)
    {stop : Halt → Files P → Prop} :
    Disk.Triple (· = F₀) (replaceAtomically f path tmp bytes)
      (fun _ F => Disk.AgreeOff [path, tmp] F₀ F ∧ F path = some bytes) stop := by
  obtain ⟨hstale, hcreate, hwrite, hsync, hrename, hsyncDir⟩ := hf
  intro F hF
  subst hF
  have hrun : replaceAtomically f path tmp bytes F =
      (.ok (), Function.update (Function.update (Function.update (Function.update
        (Function.update F tmp none) tmp (some [])) tmp (some bytes)) tmp none) path (some bytes)) := by
    simp [replaceAtomically, Disk.onFailure, Disk.removeIfThere, Disk.createNew, Disk.writeAll,
      Disk.rename, Disk.touch, Disk.act, Bind.bind, Disk.bind, hstale, hcreate, hwrite, hsync, hrename,
      hsyncDir]
  rw [hrun]
  refine ⟨?_, Function.update_self ..⟩
  have h := Disk.AgreeOff.refl [path, tmp] F
  exact ((((h.update (by simp) _).update (by simp) _).update (by simp) _).update (by simp) _).update
    (by simp) _

/-- A replacement within files that may change, in front of which `Q` holds of the others. -/
theorem replaceAtomically_within {S : List P} {Q : Files P → Prop} (f : ReplaceFaults) (hne : tmp ≠ path)
    (hsub : [path, tmp] ⊆ S) (hQ : ∀ F F', Disk.AgreeOff [path, tmp] F F' → Q F → Q F') :
    Disk.Triple (fun F => Disk.AgreeOff S F₀ F ∧ Q F) (replaceAtomically f path tmp bytes)
      (fun _ F => Disk.AgreeOff S F₀ F ∧ Q F ∧ F path = some bytes)
      (fun _ F => Disk.AgreeOff S F₀ F) := by
  apply Disk.Triple.of_forall
  intro F₁ h₁
  refine (replaceAtomically_triple f hne).consequence (fun _ h => h) ?_ ?_
  · intro _ F h
    exact ⟨h₁.1.trans (h.1.mono hsub), hQ F₁ F h.1 h₁.2, h.2⟩
  · intro _ F h
    exact h₁.1.trans (h.1.mono hsub)

/-- The same where nothing goes wrong. -/
theorem replaceAtomically_fine_within {S : List P} {Q : Files P → Prop} {f : ReplaceFaults}
    (hf : f.AllFine) (hsub : [path, tmp] ⊆ S)
    (hQ : ∀ F F', Disk.AgreeOff [path, tmp] F F' → Q F → Q F') {stop : Halt → Files P → Prop} :
    Disk.Triple (fun F => Disk.AgreeOff S F₀ F ∧ Q F) (replaceAtomically f path tmp bytes)
      (fun _ F => Disk.AgreeOff S F₀ F ∧ Q F ∧ F path = some bytes) stop := by
  apply Disk.Triple.of_forall
  intro F₁ h₁
  refine (replaceAtomically_fine hf).consequence (fun _ h => h) ?_ (fun _ _ h => h)
  intro _ F h
  exact ⟨h₁.1.trans (h.1.mono hsub), hQ F₁ F h.1 h₁.2, h.2⟩

end

end CtAgent.SecretFile
