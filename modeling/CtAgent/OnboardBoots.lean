import CtAgent.Lib.Run
import CtAgent.Onboard

/-! Boots of an agent under any ids, one after the other over one state directory, each stopped by a
fault or by a crash anywhere. -/
namespace CtAgent.Onboard
open CtAgent.Lib CtAgent.SecretFile

theorem utf8_inj {s t : String} (h : utf8 s = utf8 t) : s = t := by
  have hread := congrArg ofUtf8 h
  rw [ofUtf8_utf8, ofUtf8_utf8] at hread
  exact Option.some.inj hread

theorem identityOf_toList (k : Identity) : identityOf k.toList = some k := by
  unfold identityOf
  rw [dif_pos (by simp)]
  rfl

theorem toList_of_identityOf {bytes : Bytes} {k : Identity} (h : identityOf bytes = some k) :
    bytes = k.toList := by
  unfold identityOf at h
  split at h
  · have hk := Option.some.inj h
    rw [← hk]
    rfl
  · exact absurd h (by simp)

section
variable {F : Files StatePath}

theorem readToString_readOnly (p : StatePath) : Disk.ReadOnly (readToString p) :=
  Disk.ReadOnly.read.bind (fun _ => Disk.ReadOnly.ofOption)

theorem loadSecretFrom_readOnly (p : StatePath) : Disk.ReadOnly (loadSecretFrom p) :=
  Disk.ReadOnly.read.bind (fun _ => Disk.ReadOnly.ofOption)

theorem restore_readOnly (a : String) : Disk.ReadOnly (restore a) := by
  apply Disk.ReadOnly.isThere.bind
  intro there
  split
  · apply (readToString_readOnly _).bind
    intro persistedAgent
    split
    · exact Disk.ReadOnly.pure
    · apply (loadSecretFrom_readOnly _).bind
      intro identity
      apply (readToString_readOnly _).bind
      intro tenant
      exact Disk.ReadOnly.pure
  · exact Disk.ReadOnly.pure

theorem readToString_eq_ok {p : StatePath} {s : String} {F' : Files StatePath} :
    readToString p F = (.ok s, F') ↔ F p = some (utf8 s) ∧ F' = F := by
  simp only [readToString, Disk.bind_eq_ok, Disk.read_eq_ok, Disk.ofOption_eq_ok]
  constructor
  · intro h
    obtain ⟨bytes, F₁, ⟨hp, hF₁⟩, hs, hF'⟩ := h
    exact ⟨by rw [hp, utf8_of_ofUtf8 hs], hF'.trans hF₁⟩
  · intro h
    exact ⟨utf8 s, F, ⟨h.1, rfl⟩, ofUtf8_utf8 s, h.2⟩

theorem loadSecretFrom_eq_ok {p : StatePath} {k : Identity} {F' : Files StatePath} :
    loadSecretFrom p F = (.ok k, F') ↔ F p = some k.toList ∧ F' = F := by
  simp only [loadSecretFrom, Disk.bind_eq_ok, Disk.read_eq_ok, Disk.ofOption_eq_ok]
  constructor
  · intro h
    obtain ⟨bytes, F₁, ⟨hp, hF₁⟩, hk, hF'⟩ := h
    exact ⟨by rw [hp, toList_of_identityOf hk], hF'.trans hF₁⟩
  · intro h
    exact ⟨k.toList, F, ⟨h.1, rfl⟩, identityOf_toList k, h.2⟩

/-- What a restore returns is what the three files hold, under the id it was asked for. -/
theorem restore_eq_some {a : String} {k : Identity} {t : String} :
    (restore a F).1 = .ok (some (k, t)) ↔ Holds ⟨a, k, t⟩ F := by
  have hpair : (restore a F).1 = .ok (some (k, t)) ↔ restore a F = (.ok (some (k, t)), F) := by
    rw [Prod.ext_iff]
    simp [restore_readOnly a F]
  rw [hpair]
  unfold restore
  rw [Disk.bind_eq_ok]
  constructor
  · intro h
    obtain ⟨there, F₁, hthere, h⟩ := h
    obtain ⟨-, hF₁⟩ := Disk.isThere_eq_ok.mp hthere
    subst hF₁
    split at h
    · obtain ⟨agent, F₂, hagent, h⟩ := Disk.bind_eq_ok.mp h
      obtain ⟨hagent, hF₂⟩ := readToString_eq_ok.mp hagent
      subst hF₂
      split at h
      · exact absurd (Disk.pure_eq_ok.mp h).1 (by simp)
      · rename_i hsame
        have hid : agent = a := not_not.mp hsame
        obtain ⟨k', F₃, hk, h⟩ := Disk.bind_eq_ok.mp h
        obtain ⟨hk, hF₃⟩ := loadSecretFrom_eq_ok.mp hk
        subst hF₃
        obtain ⟨t', F₄, ht, h⟩ := Disk.bind_eq_ok.mp h
        obtain ⟨ht, -⟩ := readToString_eq_ok.mp ht
        have hpair := Option.some.inj (Disk.pure_eq_ok.mp h).1
        obtain ⟨hk', ht'⟩ := Prod.mk.inj hpair
        exact ⟨hk' ▸ hk, hid ▸ hagent, ht' ▸ ht⟩
    · exact absurd (Disk.pure_eq_ok.mp h).1 (by simp)
  · intro h
    refine ⟨true, F, Disk.isThere_eq_ok.mpr ⟨by rw [h.identity]; rfl, rfl⟩, ?_⟩
    rw [if_pos rfl]
    apply Disk.bind_eq_ok.mpr
    refine ⟨a, F, readToString_eq_ok.mpr ⟨h.agent, rfl⟩, ?_⟩
    rw [if_neg (by simp)]
    apply Disk.bind_eq_ok.mpr
    refine ⟨k, F, loadSecretFrom_eq_ok.mpr ⟨h.identity, rfl⟩, ?_⟩
    apply Disk.bind_eq_ok.mpr
    exact ⟨t, F, readToString_eq_ok.mpr ⟨h.tenant, rfl⟩, Disk.pure_eq_ok.mpr ⟨rfl, rfl⟩⟩

/-- A restore that finds nothing to restore met no files of its own id. -/
theorem Holds.agent_ne {a : String} {e : Enrollment} (h : Holds e F) (hnone : (restore a F).1 = .ok none) :
    e.agentId ≠ a := by
  intro hid
  have hsome : (restore a F).1 = .ok (some (e.identity, e.tenant)) := by
    apply restore_eq_some.mpr
    exact hid ▸ h
  rw [hnone] at hsome
  exact absurd hsome (by simp)

end

structure World where
  files : Files StatePath
  enrollments : List Enrollment

def World.init : World := ⟨fun _ => none, []⟩

def callsControlPlane (F : Files StatePath) (b : Boot) : Bool :=
  match (restore b.agentId F).1 with
  | .ok none => true
  | _ => false

def Boot.enrollment (b : Boot) : Option Enrollment :=
  b.onboards.map (fun bound => ⟨b.agentId, bound.1, bound.2⟩)

def World.after (w : World) (b : Boot) : World :=
  ⟨(onboardOrRestore b w.files).2,
    w.enrollments ++ if callsControlPlane w.files b then b.enrollment.toList else []⟩

def World.step (w : World) (b : Boot) : Option World := some (w.after b)

/-- Whatever a restore returns for an id was enrolled under that id, as one pair. -/
def World.OneEnrollment (w : World) : Prop :=
  ∀ a k t, (restore a w.files).1 = .ok (some (k, t)) → ⟨a, k, t⟩ ∈ w.enrollments

/-- A directory with a tenant file: its persist is not stopped between the first and the third rename,
unless only the tenant is missing and is the one on disk. -/
def whole (w : World) (b : Boot) : Bool :=
  match callsControlPlane w.files b, b.enrollment, w.files (.file .tenant) with
  | true, some e, some tenant =>
    !decide b.faults.Reaches || (b.faults.renameAgent == .fine &&
      (b.faults.renameTenant == .fine || tenant == utf8 e.tenant))
  | _, _, _ => true

/-- No enrollment is begun under another id. -/
def keepsTo (a : String) (w : World) (b : Boot) : Bool :=
  b.agentId == a || !callsControlPlane w.files b

theorem restore_eq (a : String) (F : Files StatePath) : restore a F = ((restore a F).1, F) :=
  Prod.ext rfl (restore_readOnly a F)

theorem callsControlPlane_iff {F : Files StatePath} {b : Boot} :
    callsControlPlane F b = true ↔ (restore b.agentId F).1 = .ok none := by
  unfold callsControlPlane
  split
  · rename_i h
    simp [h]
  · rename_i h
    simpa using h

theorem boot_files_of_not_calls {F : Files StatePath} {b : Boot} (h : callsControlPlane F b = false) :
    (onboardOrRestore b F).2 = F := by
  unfold onboardOrRestore
  show (Disk.bind (restore b.agentId) _ F).2 = F
  unfold Disk.bind
  rw [restore_eq]
  cases hr : (restore b.agentId F).1 with
  | error e => rfl
  | ok found =>
    cases found with
    | some pair => rfl
    | none => exact absurd (callsControlPlane_iff.mpr hr) (by simp [h])

theorem boot_of_calls {F : Files StatePath} {b : Boot} (h : callsControlPlane F b = true) :
    onboardOrRestore b F = (match b.enrollment with
      | none => Disk.fail "control-plane onboarding failed"
      | some e => (do
          persist b.faults e
          pure (Booted.enrolled e.identity e.tenant))) F := by
  have hr := callsControlPlane_iff.mp h
  unfold onboardOrRestore Boot.enrollment
  show Disk.bind (restore b.agentId) _ F = _
  unfold Disk.bind
  rw [restore_eq, hr]
  cases b.onboards <;> rfl

theorem after_of_not_calls {w : World} {b : Boot} (h : callsControlPlane w.files b = false) :
    w.after b = w := by
  unfold World.after
  rw [boot_files_of_not_calls h, h]
  simp

theorem after_of_refused {w : World} {b : Boot} (h : callsControlPlane w.files b = true)
    (he : b.enrollment = none) : w.after b = w := by
  unfold World.after
  rw [boot_of_calls h, h, he]
  simp [Disk.fail]

theorem after_of_enrolls {w : World} {b : Boot} {e : Enrollment} (h : callsControlPlane w.files b = true)
    (he : b.enrollment = some e) :
    w.after b = ⟨(persist b.faults e w.files).2, w.enrollments ++ [e]⟩ := by
  have hfiles : (onboardOrRestore b w.files).2 = (persist b.faults e w.files).2 := by
    rw [boot_of_calls h, he]
    show (Disk.bind (persist b.faults e) _ w.files).2 = _
    unfold Disk.bind
    split
    · rename_i hp
      rw [hp]
      rfl
    · rename_i hp
      rw [hp]
  unfold World.after
  rw [hfiles, h, he]
  rfl

theorem Boot.agentId_of_enrollment {b : Boot} {e : Enrollment} (he : b.enrollment = some e) :
    e.agentId = b.agentId := by
  obtain ⟨bound, -, hbound⟩ := Option.map_eq_some_iff.mp he
  rw [← hbound]

/-- The three files are of one enrollment, or there is no tenant file yet. -/
def World.Inv (w : World) : Prop :=
  w.files (.file .tenant) = none ∨ ∃ e ∈ w.enrollments, Holds e w.files

theorem inv_init : World.init.Inv := .inl rfl

theorem World.Inv.oneEnrollment {w : World} (h : w.Inv) : w.OneEnrollment := by
  intro a k t hsome
  have hheld := restore_eq_some.mp hsome
  rcases h with hnone | ⟨e, he, hholds⟩
  · exact absurd (hnone.symm.trans hheld.tenant) (by simp)
  · have hk : e.identity = k := by
      apply Vector.toList_inj.mp
      exact Option.some.inj (hholds.identity.symm.trans hheld.identity)
    have ha : e.agentId = a := utf8_inj (Option.some.inj (hholds.agent.symm.trans hheld.agent))
    have ht : e.tenant = t := utf8_inj (Option.some.inj (hholds.tenant.symm.trans hheld.tenant))
    rw [← ha, ← hk, ← ht]
    exact he

/-- A persist that changed staging files only. -/
theorem World.Inv.staged {w : World} (h : w.Inv) {F : Files StatePath} {es : List Enrollment}
    (hF : Staged w.files F) : World.Inv ⟨F, w.enrollments ++ es⟩ := by
  rcases h with hnone | ⟨e, he, hholds⟩
  · exact .inl ((hF _ (by decide)).trans hnone)
  · refine .inr ⟨e, List.mem_append_left es he, ?_, ?_, ?_⟩
    · exact (hF _ (by decide)).trans hholds.identity
    · exact (hF _ (by decide)).trans hholds.agent
    · exact (hF _ (by decide)).trans hholds.tenant

/-- The files after a persist, by the rename that stops it. -/
theorem persist_final (f : PersistFaults) (e : Enrollment) (F : Files StatePath) :
    (¬f.Reaches ∧ Staged F (persist f e F).2) ∨
      (f.Reaches ∧ f.renameAgent ≠ .fine ∧ IdentityRenamed e F (persist f e F).2) ∨
      (f.Reaches ∧ f.renameAgent = .fine ∧ f.renameTenant ≠ .fine ∧ AgentRenamed e F (persist f e F).2) ∨
      (f.Reaches ∧ f.renameAgent = .fine ∧ f.renameTenant = .fine ∧ Holds e (persist f e F).2) := by
  by_cases hf : f.Reaches
  · have hrun := Disk.Triple.final ((@persist_reached e F f hf).consequence (fun _ h => h)
      (fun _ _ h => .inr (.inr h)) (fun _ _ h => h)) (rfl : F = F)
    rcases hrun with h | h | h
    · exact .inr (.inl ⟨hf, h⟩)
    · exact .inr (.inr (.inl ⟨hf, h⟩))
    · exact .inr (.inr (.inr ⟨hf, h⟩))
  · have hrun := Disk.Triple.final ((@persist_not_reached e F f hf).consequence (fun _ h => h)
      (fun _ _ h => h.elim) (fun _ _ h => h)) (rfl : F = F)
    exact .inl ⟨hf, hrun⟩

theorem inv_step (w : World) (b : Boot) (w' : World) (hw : w.Inv)
    (h : guarded World.step whole w b = some w') : w'.Inv := by
  obtain ⟨hwhole, hstep⟩ := guarded_eq_some.mp h
  have hw' : w.after b = w' := Option.some.inj hstep
  rw [← hw']
  cases hcalls : callsControlPlane w.files b with
  | false => rwa [after_of_not_calls hcalls]
  | true =>
    cases he : b.enrollment with
    | none => rwa [after_of_refused hcalls he]
    | some e =>
      rw [after_of_enrolls hcalls he]
      have hnew : e ∈ w.enrollments ++ [e] := by simp
      rcases persist_final b.faults e w.files with ⟨-, hF⟩ | ⟨hreach, hagent, hF⟩ |
        ⟨hreach, hagent, htenant, hF⟩ | ⟨-, -, -, hF⟩
      · exact hw.staged hF
      · -- the tenant is missing still, or the guard excludes this stop
        rcases hw with hnone | ⟨e₀, -, hholds⟩
        · exact .inl (hF.tenant.trans hnone)
        · simp [whole, hcalls, he, hholds.tenant, hreach, hagent] at hwhole
      · rcases hw with hnone | ⟨e₀, -, hholds⟩
        · exact .inl (hF.tenant.trans hnone)
        · have hsame : utf8 e₀.tenant = utf8 e.tenant := by
            simpa [whole, hcalls, he, hholds.tenant, hreach, hagent, htenant] using hwhole
          exact .inr ⟨e, hnew, hF.identity, hF.agent, hF.tenant.trans (hsame ▸ hholds.tenant)⟩
      · exact .inr ⟨e, hnew, hF⟩

/-- A boot that is not whole, with an identity no enrollment had, leaves a pair of no enrollment. -/
theorem not_oneEnrollment_of_not_whole {w : World} {b : Boot} (hw : w.Inv) (hwhole : whole w b = false)
    (hfresh : ∀ e ∈ w.enrollments, ∀ e' ∈ b.enrollment, e.identity ≠ e'.identity) :
    ¬(w.after b).OneEnrollment := by
  intro hone
  unfold whole at hwhole
  split at hwhole
  · rename_i e tenant hcalls he htenant
    simp only [Bool.or_eq_false_iff, Bool.not_eq_false', decide_eq_true_eq, Bool.and_eq_false_iff] at hwhole
    obtain ⟨hreach, hstopped⟩ := hwhole
    obtain ⟨e₀, he₀, hholds⟩ := hw.resolve_left (by simp [htenant])
    have hother : e₀.agentId ≠ b.agentId := hholds.agent_ne (callsControlPlane_iff.mp hcalls)
    have hold : ∀ a t, ⟨a, e.identity, t⟩ ∉ w.enrollments := by
      intro a t hmem
      exact hfresh _ hmem e he rfl
    rw [after_of_enrolls hcalls he] at hone
    -- what the restore of `a` returns is the new enrollment itself
    have hmixed {a t : String} (hh : Holds ⟨a, e.identity, t⟩ (persist b.faults e w.files).2) :
        e = ⟨a, e.identity, t⟩ := by
      have hmem := hone a e.identity t (restore_eq_some.mpr hh)
      rcases List.mem_append.mp hmem with hmem | hmem
      · exact absurd hmem (hold a t)
      · exact (List.mem_singleton.mp hmem).symm
    rcases persist_final b.faults e w.files with ⟨hnot, -⟩ | ⟨-, hagent, hF⟩ |
      ⟨-, hagent, htenantFault, hF⟩ | ⟨-, hagent, htenantFine, -⟩
    · exact hnot hreach
    · have hheld : Holds ⟨e₀.agentId, e.identity, e₀.tenant⟩ (persist b.faults e w.files).2 :=
        ⟨hF.identity, hF.agent.trans hholds.agent, hF.tenant.trans hholds.tenant⟩
      have hid : e.agentId = e₀.agentId := (congrArg Enrollment.agentId (hmixed hheld) :)
      exact hother (hid.symm.trans (Boot.agentId_of_enrollment he))
    · have hheld : Holds ⟨e.agentId, e.identity, e₀.tenant⟩ (persist b.faults e w.files).2 :=
        ⟨hF.identity, hF.agent, hF.tenant.trans hholds.tenant⟩
      have ht : e.tenant = e₀.tenant := (congrArg Enrollment.tenant (hmixed hheld) :)
      have hdiffer : tenant ≠ utf8 e.tenant := by
        simpa [hagent, htenantFault] using hstopped
      rw [ht] at hdiffer
      exact hdiffer (Option.some.inj (htenant.symm.trans hholds.tenant))
    · simp [hagent, htenantFine] at hstopped
  · exact absurd hwhole (by simp)

theorem holds_of_persist_ok {f : PersistFaults} {e : Enrollment} {F F' : Files StatePath}
    (h : persist f e F = (.ok (), F')) : Holds e F' := by
  by_cases hf : f.Reaches
  · have hrun := @persist_reached e F f hf F rfl
    rw [h] at hrun
    exact hrun.2.2
  · have hrun := @persist_not_reached e F f hf F rfl
    rw [h] at hrun
    exact hrun.elim

theorem holds_of_enrolled {w : World} {b : Boot} {k : Identity} {t : String}
    (h : (onboardOrRestore b w.files).1 = .ok (.enrolled k t)) :
    Holds ⟨b.agentId, k, t⟩ (w.after b).files := by
  cases hcalls : callsControlPlane w.files b with
  | false =>
    unfold onboardOrRestore at h
    change (Disk.bind (restore b.agentId) _ w.files).1 = _ at h
    unfold Disk.bind at h
    rw [restore_eq] at h
    cases hr : (restore b.agentId w.files).1 with
    | error e =>
      rw [hr] at h
      exact absurd h (by simp)
    | ok found =>
      cases found with
      | none => exact absurd (callsControlPlane_iff.mpr hr) (by simp [hcalls])
      | some pair =>
        rw [hr] at h
        exact absurd (Except.ok.inj h) (by nofun)
  | true =>
    rw [boot_of_calls hcalls] at h
    cases he : b.enrollment with
    | none =>
      rw [he] at h
      exact absurd h (by nofun)
    | some e =>
      rw [he] at h
      rw [after_of_enrolls hcalls he]
      rcases hp : persist b.faults e w.files with ⟨r, F⟩
      change (Disk.bind (persist b.faults e) _ w.files).1 = _ at h
      unfold Disk.bind at h
      rw [hp] at h
      cases r with
      | error halt => exact absurd h (by nofun)
      | ok u =>
        have hheld := holds_of_persist_ok hp
        obtain ⟨hk, ht⟩ := Booted.enrolled.inj (Except.ok.inj h)
        have hid := Boot.agentId_of_enrollment he
        rw [← hk, ← ht, ← hid]
        exact hheld

/-- While no other id is enrolled, the files of an enrollment stay as they are. -/
theorem after_of_keepsTo {w : World} {b : Boot} {e : Enrollment} (hw : Holds e w.files)
    (h : keepsTo e.agentId w b = true) : w.after b = w := by
  apply after_of_not_calls
  by_contra hcalls
  have hcalls : callsControlPlane w.files b = true := by simpa using hcalls
  have hother := hw.agent_ne (callsControlPlane_iff.mp hcalls)
  simp [keepsTo, hcalls, hother.symm] at h

theorem restored_of_holds {w : World} {b : Boot} {e : Enrollment} (hw : Holds e w.files)
    (hb : b.agentId = e.agentId) :
    (onboardOrRestore b w.files).1 = .ok (.restored e.identity e.tenant) ∧
      callsControlPlane w.files b = false := by
  have hr : (restore b.agentId w.files).1 = .ok (some (e.identity, e.tenant)) := by
    apply restore_eq_some.mpr
    rw [hb]
    exact hw
  constructor
  · unfold onboardOrRestore
    show (Disk.bind (restore b.agentId) _ w.files).1 = _
    unfold Disk.bind
    rw [restore_eq, hr]
    rfl
  · unfold callsControlPlane
    rw [hr]

/-- Over boots that are whole every restored pair is one enrollment under its id, and the first boot that
is not breaks that; an enrollment that was persisted is restored until another id is enrolled. -/
theorem one_enrollment_iff_whole (w : World) (b : Boot) :
    (Reachable (guarded World.step whole) World.init w → w.OneEnrollment ∧
      ((∀ e ∈ w.enrollments, ∀ e' ∈ b.enrollment, e.identity ≠ e'.identity) →
        ((w.after b).OneEnrollment ↔ whole w b = true))) ∧
    ∀ k t, (onboardOrRestore b w.files).1 = .ok (.enrolled k t) →
      ∀ w', Reachable (guarded World.step (keepsTo b.agentId)) (w.after b) w' →
        ∀ b' : Boot, b'.agentId = b.agentId →
          (onboardOrRestore b' w'.files).1 = .ok (.restored k t) ∧ callsControlPlane w'.files b' = false := by
  constructor
  · intro hreach
    have hw : w.Inv := reachable_invariant inv_step inv_init hreach
    refine ⟨hw.oneEnrollment, fun hfresh => ?_⟩
    constructor
    · intro hone
      by_contra hnot
      exact not_oneEnrollment_of_not_whole hw (by simpa using hnot) hfresh hone
    · intro hwhole
      have hstep : guarded World.step whole w b = some (w.after b) := guarded_eq_some.mpr ⟨hwhole, rfl⟩
      exact (inv_step w b _ hw hstep).oneEnrollment
  · intro k t henrolled w' hreach b' hid
    have hholds : Holds ⟨b.agentId, k, t⟩ w'.files := by
      apply reachable_invariant (P := fun u : World => Holds ⟨b.agentId, k, t⟩ u.files) ?_
        (holds_of_enrolled henrolled) hreach
      intro u c v hu h
      obtain ⟨hkeeps, hstep⟩ := guarded_eq_some.mp h
      have hv : u.after c = v := Option.some.inj hstep
      rw [← hv, after_of_keepsTo hu hkeeps]
      exact hu
    exact restored_of_holds hholds hid

def PersistFaults.none : PersistFaults :=
  ⟨.fine, .fine, .none, .none, .none, .fine, .fine, .fine, .fine, .fine, .fine, .fine⟩

/-- The agent is enrolled as `a`; a boot as `b` dies between its first two renames: `a` now restores the
identity of `b` with its own tenant. -/
theorem interrupted_reenrollment_mixes :
    ∃ w, run World.step World.init
        [⟨"a", some (Vector.replicate 32 1, "t"), PersistFaults.none⟩,
          ⟨"b", some (Vector.replicate 32 2, "u"), { PersistFaults.none with renameAgent := .dies 0 }⟩] =
            some w ∧
      (restore "a" w.files).1 = .ok (some (Vector.replicate 32 2, "t")) ∧
      ⟨"a", Vector.replicate 32 2, "t"⟩ ∉ w.enrollments :=
  ⟨_, rfl, by decide +kernel, by decide +kernel⟩

end CtAgent.Onboard
