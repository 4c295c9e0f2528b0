import CtAgent.SelfUpdate

/-! What one update can leave at the path of the running binary, whatever the server answers and
wherever a file operation fails or the process ends. -/
namespace CtAgent.SelfUpdate
open CtAgent.Lib CtAgent.SecretFile

section
variable {crypto : UpdateCrypto} {answers : ServerAnswers} {keys : List VerifyingKey}
  {assetName expectedTag : String} {policy : ChecksumPolicy} {maxBytes : ℕ}

/-- The signature file holds a signature of `key` over exactly these bytes. -/
def SignedBy (crypto : UpdateCrypto) (key : VerifyingKey) (manifest sigFile : Bytes) : Prop :=
  ∃ (text : String) (sig : Signature), ofUtf8 sigFile = some text ∧
    crypto.base64Decode (trim text) = some sig.toList ∧ crypto.verifyStrict key manifest sig = true

/-- What has to stand behind an installed binary: a manifest signed by a pinned key, for the checked
release, whose digest of the asset is that of the checksum file and of the binary. -/
def Authorised (crypto : UpdateCrypto) (answers : ServerAnswers) (assetName expectedTag : String)
    (keys : List VerifyingKey) (new : Bytes) : Prop :=
  ∃ (manifestBytes sigFile : Bytes) (key : VerifyingKey) (manifest : ReleaseManifest) (digest : Digest),
    fetchReleaseManifest answers = .ok (some (manifestBytes, some sigFile)) ∧
    key ∈ keys ∧ SignedBy crypto key manifestBytes sigFile ∧
    ReleaseManifest.parse crypto manifestBytes = .ok manifest ∧
    manifest.isForTag expectedTag = true ∧ manifest.digestFor assetName = .ok digest ∧
    fetchExpectedSha256 answers assetName = .ok digest ∧ crypto.sha256 new = digest

theorem of_bind_ok {ε α β : Type} {m : Except ε α} {k : α → Except ε β} {b : β}
    (h : (m >>= k) = .ok b) : ∃ a, m = .ok a ∧ k a = .ok b := by
  cases m with
  | error e => cases h
  | ok a => exact ⟨a, rfl, h⟩

theorem verifyManifestSignature_ok {manifest sigFile : Bytes}
    (h : verifyManifestSignature crypto manifest sigFile keys = .ok ()) :
    ∃ key ∈ keys, SignedBy crypto key manifest sigFile := by
  unfold verifyManifestSignature at h
  split at h
  · cases h
  next text htext =>
    split at h
    · cases h
    next raw hraw =>
      split at h
      next hlen =>
        split at h
        next hany =>
          obtain ⟨key, hmem, hsig⟩ := List.any_eq_true.mp hany
          exact ⟨key, hmem, text, _, htext, by simpa using hraw, hsig⟩
        · cases h
      · cases h

/-- With a pinned key, a digest is settled on only where a signed manifest for the release and the
checksum file agree on it. -/
theorem evaluateProvenance_ok {fetched : Option (Bytes × Option Bytes)} {perAsset digest : Digest}
    {outcome : ProvenanceOutcome} (hkeys : keys ≠ [])
    (h : evaluateProvenance crypto keys fetched expectedTag assetName perAsset = .ok (outcome, digest)) :
    digest = perAsset ∧ ∃ (manifestBytes sigFile : Bytes) (key : VerifyingKey) (manifest : ReleaseManifest),
      fetched = some (manifestBytes, some sigFile) ∧ key ∈ keys ∧
      SignedBy crypto key manifestBytes sigFile ∧
      ReleaseManifest.parse crypto manifestBytes = .ok manifest ∧
      manifest.isForTag expectedTag = true ∧ manifest.digestFor assetName = .ok digest := by
  have hempty : keys.isEmpty = false := by simpa using hkeys
  rcases fetched with _ | ⟨manifestBytes, _ | sigFile⟩
  · simp [evaluateProvenance, hempty] at h
  · simp [evaluateProvenance, hempty] at h
  · simp only [evaluateProvenance, hempty, Bool.false_eq_true, if_false] at h
    obtain ⟨⟨⟩, hsig, h⟩ := of_bind_ok h
    obtain ⟨manifest, hparse, h⟩ := of_bind_ok h
    obtain ⟨key, hmem, hsigned⟩ := verifyManifestSignature_ok hsig
    split at h
    next htag =>
      obtain ⟨d, hdigest, h⟩ := of_bind_ok h
      split at h
      next heq =>
        obtain ⟨rfl, rfl⟩ : ProvenanceOutcome.verified = outcome ∧ d = digest := by
          simpa using Except.ok.inj h
        exact ⟨heq, manifestBytes, sigFile, key, manifest, rfl, hmem, hsigned, hparse, htag, hdigest⟩
      · cases h
    · cases h

/-- The bytes of a download that is not refused are the whole body the server sent. -/
def Downloaded (answers : ServerAnswers) (assetName : String) (maxBytes : ℕ) (new : Bytes) : Prop :=
  ∃ resp, answers.binary = .ok resp ∧ readBodyCapped assetName resp maxBytes = .ok new

theorem sent_ok {name : String} {answer : Except String Response} {resp : Response}
    (h : sent name answer = .ok resp) : answer = .ok resp := by
  cases answer with
  | error why => cases h
  | ok r => simpa [sent] using h

theorem verifySha256_ok {body : Bytes} {expected : Digest}
    (h : verifySha256 crypto body expected = .ok ()) : crypto.sha256 body = expected := by
  unfold verifySha256 at h
  split at h
  next heq => exact heq
  · cases h

theorem expectedDigest_ok {expected : Option Digest} {outcome : ProvenanceOutcome}
    (hkeys : keys ≠ [])
    (h : expectedDigest crypto answers assetName expectedTag .require keys = .ok (expected, outcome)) :
    ∃ digest, expected = some digest ∧ ∀ new, crypto.sha256 new = digest →
      Authorised crypto answers assetName expectedTag keys new := by
  obtain ⟨perAsset, hper, h⟩ := of_bind_ok h
  obtain ⟨fetched, hfetched, h⟩ := of_bind_ok h
  obtain ⟨⟨verdict, digest⟩, hprov, h⟩ := of_bind_ok h
  obtain ⟨rfl, -⟩ : some digest = expected ∧ verdict = outcome := by simpa using Except.ok.inj h
  obtain ⟨rfl, manifestBytes, sigFile, key, manifest, rfl, hmem, hsigned, hparse, htag, hdigest⟩ :=
    evaluateProvenance_ok hkeys hprov
  refine ⟨digest, rfl, fun new hnew => ?_⟩
  exact ⟨manifestBytes, sigFile, key, manifest, digest, hfetched, hmem, hsigned, hparse, htag,
    hdigest, hper, hnew⟩

/-- What a download that is not refused returns: the body the server sent, with the digest that was
settled on. -/
theorem downloadVerified_ok {new : Bytes} {outcome : ProvenanceOutcome}
    (h : downloadVerified crypto answers assetName expectedTag policy keys maxBytes = .ok (new, outcome)) :
    Downloaded answers assetName maxBytes new ∧
      (policy = .require → keys ≠ [] → Authorised crypto answers assetName expectedTag keys new) := by
  obtain ⟨⟨expected, settled⟩, hexpected, h⟩ := of_bind_ok h
  obtain ⟨resp, hsent, h⟩ := of_bind_ok h
  split at h
  next hsuccess =>
    obtain ⟨body, hbody, h⟩ := of_bind_ok h
    have hdone : Downloaded answers assetName maxBytes body := ⟨resp, sent_ok hsent, hbody⟩
    cases expected with
    | none =>
      obtain ⟨rfl, -⟩ : body = new ∧ settled = outcome := by simpa using Except.ok.inj h
      refine ⟨hdone, fun hpolicy hkeys => ?_⟩
      subst hpolicy
      obtain ⟨digest, hdigest, -⟩ := expectedDigest_ok hkeys hexpected
      cases hdigest
    | some digest =>
      obtain ⟨⟨⟩, hsha, h⟩ := of_bind_ok h
      obtain ⟨rfl, -⟩ : body = new ∧ settled = outcome := by simpa using Except.ok.inj h
      refine ⟨hdone, fun hpolicy hkeys => ?_⟩
      subst hpolicy
      obtain ⟨d, hd, hauth⟩ := expectedDigest_ok hkeys hexpected
      obtain rfl : digest = d := Option.some.inj hd
      exact hauth body (verifySha256_ok hsha)
  · cases h

end

section
variable {platform : Platform} {f : SwapFaults} {exe assetName : String} {bytes : Bytes}
  {F₀ : Files String}

/-- The files the swap itself makes and removes. -/
def workNames (assetName : String) : List String :=
  [newName assetName, tempSibling (newName assetName), oldName assetName]

theorem workNames_nodup (assetName : String) : (workNames assetName).Nodup := by
  have hlen : ((workNames assetName).map String.length).Nodup := by
    have hdot : ".".length = 1 := by decide
    have hnew : ".new".length = 4 := by decide
    have htmp : ".tmp".length = 4 := by decide
    have hold : ".old".length = 4 := by decide
    simp [workNames, newName, tempSibling, oldName, hdot, hnew, htmp, hold]
    omega
  exact List.Nodup.of_map _ hlen

/-- The new binary is complete beside the old one, which nothing has touched. -/
def Beside (exe assetName : String) (bytes : Bytes) (F₀ F : Files String) : Prop :=
  F (newName assetName) = some bytes ∧ F exe = F₀ exe

/-- Everything on the way to the second rename of the Windows swap goes through. -/
structure SwapFaults.SetAside (f : SwapFaults) : Prop where
  stale : f.stale = .fine
  write : f.write.AllFine
  removeOld : ∀ n, f.removeOld ≠ .dies n
  aside : f.aside = .fine

theorem beside_of_agreeOff (hexe : exe ∉ workNames assetName) {F F₁ : Files String}
    (hF : F exe = F₀ exe)
    (h : Disk.AgreeOff [newName assetName, tempSibling (newName assetName)] F F₁ ∧
      F₁ (newName assetName) = some bytes) : Beside exe assetName bytes F₀ F₁ := by
  refine ⟨h.2, ?_⟩
  rw [h.1 exe (fun hmem => hexe (by simp_all [workNames])), hF]

theorem tempSibling_ne_newName (assetName : String) :
    tempSibling (newName assetName) ≠ newName assetName := by
  have h := workNames_nodup assetName
  simp only [workNames, List.nodup_cons, List.mem_cons, not_or] at h
  exact fun he => h.1.1 he.symm

theorem newName_ne_oldName (assetName : String) : newName assetName ≠ oldName assetName := by
  have h := workNames_nodup assetName
  simp only [workNames, List.nodup_cons, List.mem_cons, not_or] at h
  exact h.1.2.1

/-- Up to the complete new binary beside it, the running one is not touched. -/
theorem staging_triple (hexe : exe ∉ workNames assetName) {rest : Disk String Unit}
    {post : Unit → Files String → Prop} {stop : Halt → Files String → Prop}
    (hrest : Disk.Triple
      (fun F => Beside exe assetName bytes F₀ F ∧ f.stale = .fine ∧ f.write.AllFine) rest post stop)
    (hstop : ∀ h F, F exe = F₀ exe → stop h F) :
    Disk.Triple (· = F₀)
      (do
        Disk.removeIfThere f.stale (newName assetName)
        replaceAtomically f.write (newName assetName) (tempSibling (newName assetName)) bytes
        rest)
      post stop := by
  have hne : exe ≠ newName assetName := fun he => hexe (by simp [workNames, he])
  refine Disk.Triple.bind (R := fun _ F => F exe = F₀ exe ∧ f.stale = .fine) ?_ ?_
  · have hremove : Disk.Triple (· = F₀) (Disk.removeIfThere f.stale (newName assetName))
        (fun _ F => F exe = F₀ exe) stop := by
      apply Disk.Triple.removeIfThere
      · rintro F rfl
        exact Function.update_of_ne hne ..
      · rintro h F rfl
        exact hstop h F rfl
    exact (hremove.and Disk.Triple.act_went_well).consequence (fun _ h => h) (fun _ _ h => h)
      (fun _ _ h => h.1)
  intro _
  refine Disk.Triple.bind ?_ (fun _ => hrest)
  refine Disk.Triple.of_forall (fun F hF => ?_)
  have hwell : Disk.Triple (· = F)
      (replaceAtomically f.write (newName assetName) (tempSibling (newName assetName)) bytes)
      (fun _ _ => f.write.AllFine) (fun _ _ => True) :=
    (replaceAtomically_went_well f.write).consequence (fun _ _ => trivial) (fun _ _ h => h)
      (fun _ _ h => h)
  refine ((replaceAtomically_triple f.write (tempSibling_ne_newName assetName)).and hwell).consequence
    (fun _ h => h) ?_ ?_
  · intro _ F₁ h
    exact ⟨beside_of_agreeOff hexe hF.1 h.1, hF.2, h.2⟩
  · intro h F₁ hF₁
    refine hstop h F₁ ?_
    rw [hF₁.1.1 exe (fun hmem => hexe (by simp_all [workNames])), hF.1]

/-- On Unix one rename swaps the binaries. -/
theorem swapBinary_unix (hexe : exe ∉ workNames assetName) :
    Disk.Triple (· = F₀) (swapBinary .unix f exe assetName bytes)
      (fun _ F => F exe = some bytes) (fun _ F => F exe = F₀ exe ∨ F exe = some bytes) := by
  apply staging_triple hexe
  · refine Disk.Triple.bind (Disk.Triple.touch ?_ ?_) ?_
    · intro _ F _ hF _
      exact .inl hF.1.2
    · intro F hF
      exact .inl hF.1.2
    intro _
    refine Disk.Triple.bind (R := fun _ F => F exe = some bytes) ?_ ?_
    · apply Disk.Triple.rename
      · intro F c hF hc
        obtain rfl : c = bytes := Option.some.inj (hc.symm.trans hF.1.1)
        exact Function.update_self ..
      · intro _ F hF
        exact .inl hF.1.2
    intro _
    apply Disk.Triple.touch
    · intro _ F _ hF _
      exact .inr hF
    · intro F hF
      exact .inr hF
  · intro _ F hF
    exact .inl hF

section
variable (hexe : exe ∉ workNames assetName)
include hexe

theorem exe_ne_oldName : exe ≠ oldName assetName := fun he => hexe (by simp [workNames, he])

theorem newName_ne_exe : newName assetName ≠ exe := fun he => hexe (by simp [workNames, ← he])

variable (bytes F₀) in
/-- The clean-up of an earlier update's leftover only stops with the process. -/
theorem cleanUp_triple (g : Fault) :
    Disk.Triple (Beside exe assetName bytes F₀)
      (Disk.attempt (Disk.removeIfThere g (oldName assetName)))
      (fun _ F => Beside exe assetName bytes F₀ F ∧ ∀ n, g ≠ .dies n)
      (fun _ F => Beside exe assetName bytes F₀ F ∧ ∃ n, g = .dies n) := by
  intro F hF
  cases g with
  | fine =>
    refine ⟨⟨?_, ?_⟩, by simp⟩
    · exact (Function.update_of_ne (newName_ne_oldName assetName) ..).trans hF.1
    · exact (Function.update_of_ne (exe_ne_oldName hexe) ..).trans hF.2
  | fails n => exact ⟨hF, by simp⟩
  | dies n => exact ⟨hF, n, rfl⟩

/-- The Windows swap stops between its two renames or leaves one of the binaries at the path. -/
theorem swapBinary_windows :
    Disk.Triple (· = F₀) (swapBinary .windows f exe assetName bytes)
      (fun _ F => F exe = some bytes)
      (fun _ F => F exe = F₀ exe ∨ f.SetAside ∧ (F₀ exe).isSome ∧ f.install ≠ .fine) := by
  apply staging_triple hexe
  · refine Disk.Triple.of_forall (fun F₁ hF₁ => ?_)
    obtain ⟨hbeside, hstale, hwrite⟩ := hF₁
    refine Disk.Triple.bind ((cleanUp_triple bytes F₀ hexe f.removeOld).consequence ?_ (fun _ _ h => h) ?_) ?_
    · rintro F rfl
      exact hbeside
    · intro _ F hF
      exact .inl hF.1.2
    intro _
    refine Disk.Triple.of_forall (fun F₂ hF₂ => ?_)
    refine Disk.Triple.bind (R := fun _ F => F (newName assetName) = some bytes ∧ f.SetAside ∧
      (F₀ exe).isSome) ?_ ?_
    · have haside : Disk.Triple (· = F₂) (Disk.rename f.aside exe (oldName assetName))
          (fun _ F => F (newName assetName) = some bytes ∧ (F₀ exe).isSome)
          (fun _ F => F exe = F₀ exe) := by
        apply Disk.Triple.rename
        · rintro F c rfl hc
          refine ⟨?_, ?_⟩
          · rw [Function.update_of_ne (newName_ne_oldName assetName),
              Function.update_of_ne (newName_ne_exe hexe)]
            exact hF₂.1.1
          · rw [← hF₂.1.2, hc]
            rfl
        · rintro _ F rfl
          exact hF₂.1.2
      refine (haside.and Disk.Triple.act_went_well).consequence (fun _ h => h) ?_ ?_
      · intro _ F hF
        exact ⟨hF.1.1, ⟨hstale, hwrite, hF₂.2, hF.2⟩, hF.1.2⟩
      · intro _ F hF
        exact .inl hF.1
    intro _
    apply Disk.Triple.rename_there
    · intro F hF
      exact ⟨hF.1, Function.update_self ..⟩
    · intro _ F hF hfault
      exact .inr ⟨hF.2.1, hF.2.2, hfault⟩
  · intro _ F hF
    exact .inl hF

/-- Stopped between the two renames, nothing is at the path. -/
theorem swapBinary_windows_between (haside : f.SetAside) (hthere : (F₀ exe).isSome)
    (hinstall : f.install ≠ .fine) :
    Disk.Triple (· = F₀) (swapBinary .windows f exe assetName bytes)
      (fun _ F => F exe = none) (fun _ F => F exe = none) := by
  refine Disk.Triple.bind (R := fun _ F => F exe = F₀ exe) ?_ ?_
  · apply Disk.Triple.act_fine haside.stale
    rintro F rfl
    exact ⟨_, rfl, Function.update_of_ne (newName_ne_exe hexe).symm ..⟩
  intro _
  refine Disk.Triple.bind (R := fun _ F => Beside exe assetName bytes F₀ F) ?_ ?_
  · refine Disk.Triple.of_forall (fun F hF => ?_)
    refine (replaceAtomically_fine haside.write).consequence (fun _ h => h) ?_ (fun _ _ h => h)
    intro _ F₁ h
    exact beside_of_agreeOff hexe hF h
  intro _
  refine Disk.Triple.bind ((cleanUp_triple bytes F₀ hexe f.removeOld).consequence (fun _ h => h)
    (fun _ _ h => h.1) ?_) ?_
  · rintro _ F ⟨-, n, hdies⟩
    exact absurd hdies (haside.removeOld n)
  intro _
  refine Disk.Triple.bind (R := fun _ F => F exe = none) ?_ ?_
  · apply Disk.Triple.act_fine haside.aside
    intro F hF
    obtain ⟨old, hold⟩ := Option.isSome_iff_exists.mp hthere
    refine ⟨Function.update (Function.update F exe none) (oldName assetName) (some old), ?_, ?_⟩
    · rw [hF.2, hold, Option.map_some]
    · rw [Function.update_of_ne (exe_ne_oldName hexe), Function.update_self]
  intro _
  have hstops : Disk.Triple (fun F => F exe = none) (Disk.rename f.install (newName assetName) exe)
      (fun _ _ => True) (fun _ F => F exe = none) := by
    apply Disk.Triple.rename
    · intros
      trivial
    · intro _ F hF
      exact hF
  refine (hstops.and Disk.Triple.act_went_well).consequence (fun _ h => h) ?_ (fun _ _ h => h.1)
  intro _ F hF
  exact absurd hF.2 hinstall

end

end

section
variable (crypto : UpdateCrypto) (platform : Platform) (answers : ServerAnswers) (f : SwapFaults)
  (check : UpdateCheck) (exe : String) (policy : ChecksumPolicy) (keys : List VerifyingKey)
  (maxBytes : ℕ) (F₀ : Files String)

/-- What an update may leave at the path of the running binary: with a required checksum and a pinned
key nothing else than an authorised binary, and always the old one or all of the new one. -/
structure UpdateSafe (F : Files String) : Prop where
  authorised : policy = .require → keys ≠ [] → ∀ new, F exe ≠ F₀ exe → F exe = some new →
    Authorised crypto answers check.assetName check.latestVersion keys new
  whole : F exe = F₀ exe ∨ ∃ new, Downloaded answers check.assetName maxBytes new ∧ F exe = some new

/-- The update gets as far as moving the running binary aside, which is what Windows needs. -/
structure MovesAside : Prop where
  client : answers.client = .ok ()
  verified : ∃ new, downloadVerified crypto answers check.assetName check.latestVersion policy keys
    maxBytes = .ok new
  setAside : f.SetAside
  there : (F₀ exe).isSome

variable {crypto answers check exe policy keys maxBytes F₀}

theorem updateSafe_unchanged {F : Files String} (h : F exe = F₀ exe) :
    UpdateSafe crypto answers check exe policy keys maxBytes F₀ F :=
  ⟨fun _ _ _ hne => absurd h hne, .inl h⟩

theorem updateSafe_installed {F : Files String} {new : Bytes} {outcome : ProvenanceOutcome}
    (hdown : downloadVerified crypto answers check.assetName check.latestVersion policy keys maxBytes =
      .ok (new, outcome))
    (h : F exe = some new) : UpdateSafe crypto answers check exe policy keys maxBytes F₀ F := by
  obtain ⟨hbody, hauth⟩ := downloadVerified_ok hdown
  refine ⟨fun hpolicy hkeys new' _ hnew' => ?_, .inr ⟨new, hbody, h⟩⟩
  obtain rfl : new' = new := Option.some.inj (hnew'.symm.trans h)
  exact hauth hpolicy hkeys

theorem not_updateSafe_missing {F : Files String} (hthere : (F₀ exe).isSome) (h : F exe = none) :
    ¬ UpdateSafe crypto answers check exe policy keys maxBytes F₀ F := by
  intro hsafe
  rcases hsafe.whole with hold | ⟨new, -, hnew⟩
  · rw [← hold, h] at hthere
    cases hthere
  · cases h.symm.trans hnew

variable (crypto answers check exe policy keys maxBytes F₀)

/-- Whatever the server answers and wherever the update stops, the path of the running binary is safe,
unless the update stops between the two renames of the Windows swap. -/
theorem update_safe_iff (hexe : exe ∉ workNames check.assetName) :
    UpdateSafe crypto answers check exe policy keys maxBytes F₀
        (performUpdateInto crypto platform answers f check exe policy keys maxBytes F₀).2 ↔
      ¬ (platform = .windows ∧ MovesAside crypto answers f check exe policy keys maxBytes F₀ ∧
        f.install ≠ .fine) := by
  cases hclient : answers.client with
  | error why =>
    have hrun : (performUpdateInto crypto platform answers f check exe policy keys maxBytes F₀).2 = F₀ := by
      simp [performUpdateInto, hclient, Disk.fail]
    rw [hrun]
    refine iff_of_true (updateSafe_unchanged rfl) (fun h => ?_)
    cases hclient.symm.trans h.2.1.client
  | ok =>
    cases hdown : downloadVerified crypto answers check.assetName check.latestVersion policy keys
      maxBytes with
    | error e =>
      have hrun : (performUpdateInto crypto platform answers f check exe policy keys maxBytes F₀).2 =
          F₀ := by
        simp [performUpdateInto, hclient, hdown, Disk.fail]
      rw [hrun]
      refine iff_of_true (updateSafe_unchanged rfl) (fun h => ?_)
      obtain ⟨new, hnew⟩ := h.2.1.verified
      cases hdown.symm.trans hnew
    | ok r =>
      obtain ⟨new, outcome⟩ := r
      have hrun : (performUpdateInto crypto platform answers f check exe policy keys maxBytes F₀).2 =
          (swapBinary platform f exe check.assetName new F₀).2 := by
        simp only [performUpdateInto, hclient, hdown]
        rcases hswap : swapBinary platform f exe check.assetName new F₀ with ⟨r, F⟩
        cases r <;> simp [Bind.bind, Disk.bind, hswap, Pure.pure, Disk.pure]
      rw [hrun]
      cases platform with
      | unix =>
        refine iff_of_true ?_ (by simp)
        refine Disk.Triple.final ((swapBinary_unix hexe).consequence (fun _ h => h) ?_ ?_) rfl
        · intro _ F hF
          exact updateSafe_installed hdown hF
        · intro _ F hF
          rcases hF with hF | hF
          · exact updateSafe_unchanged hF
          · exact updateSafe_installed hdown hF
      | windows =>
        refine ⟨fun hsafe h => ?_, fun h => ?_⟩
        · -- between the renames nothing is at the path
          obtain ⟨-, haside, hinstall⟩ := h
          refine not_updateSafe_missing haside.there ?_ hsafe
          exact Disk.Triple.final
            (swapBinary_windows_between hexe haside.setAside haside.there hinstall) rfl
        · refine Disk.Triple.final ((swapBinary_windows hexe).consequence (fun _ h => h) ?_ ?_) rfl
          · intro _ F hF
            exact updateSafe_installed hdown hF
          · intro _ F hF
            rcases hF with hF | ⟨hset, hthere, hinstall⟩
            · exact updateSafe_unchanged hF
            · exact absurd ⟨rfl, ⟨hclient, ⟨_, hdown⟩, hset, hthere⟩, hinstall⟩ h

end

/-! A release of one asset, as a server of it answers. -/

def sampleDigestHex : String := "ba7816bf8f01cfea414140de5dae2223b00361a396177a9cb410ff61f20015ad"

def sampleDigest : Digest :=
  #v[0xba, 0x78, 0x16, 0xbf, 0x8f, 0x01, 0xcf, 0xea, 0x41, 0x41, 0x40, 0xde, 0x5d, 0xae, 0x22, 0x23,
    0xb0, 0x03, 0x61, 0xa3, 0x96, 0x17, 0x7a, 0x9c, 0xb4, 0x10, 0xff, 0x61, 0xf2, 0x00, 0x15, 0xad]

def sampleManifestText : String :=
  "\x7b\"schema\":1,\"tag\":\"v1.2.0\",\"created_at\":7,\"assets\":\x7b\"agent.exe\":\"" ++ sampleDigestHex ++
    "\"\x7d\x7d"

def sampleManifest : ReleaseManifest := ⟨1, "v1.2.0", 7, [("agent.exe", sampleDigestHex)]⟩

def sampleKey : VerifyingKey := Vector.replicate 32 5

def sampleSigText : String := String.ofList (List.replicate 86 'A') ++ "=="

/-- The outside functions on what the sample server sends. -/
def sampleCrypto : UpdateCrypto where
  sha256 bytes := if bytes = utf8 "abc" then sampleDigest else Vector.replicate 32 0
  verifyStrict key manifest sig :=
    key = sampleKey && manifest = utf8 sampleManifestText && sig = Vector.replicate 64 0
  base64Decode text := if text = sampleSigText then some (List.replicate 64 0) else none
  manifestFromSlice bytes := if bytes = utf8 sampleManifestText then some sampleManifest else none

def sampleResponse (body : String) : Response := ⟨200, none, [utf8 body], none⟩

def sampleAnswers : ServerAnswers where
  client := .ok ()
  checksum := .ok (sampleResponse (sampleDigestHex ++ "  agent.exe"))
  manifest := .ok (sampleResponse sampleManifestText)
  signature := .ok (sampleResponse sampleSigText)
  binary := .ok (sampleResponse "abc")

def sampleCheck : UpdateCheck := ⟨"1.1.0", "1.2.0", true, "agent.exe"⟩

def fineReplace : ReplaceFaults := ⟨.fine, .fine, .fine, .fine, .fine, .fine, .fine⟩

/-- The process ends before the second rename of the Windows swap. -/
def endsBetween : SwapFaults := ⟨.fine, fineReplace, .fine, .fine, .fine, .dies 0, .fine⟩

def sampleFiles : Files String := Function.update (fun _ => none) "ct-agent.exe" (some [1])

theorem update_safe_on_unix :
    UpdateSafe sampleCrypto sampleAnswers sampleCheck "ct-agent.exe" .require [sampleKey] 1000 sampleFiles
      (performUpdateInto sampleCrypto .unix sampleAnswers endsBetween sampleCheck "ct-agent.exe" .require
        [sampleKey] 1000 sampleFiles).2 := by
  refine (update_safe_iff sampleCrypto .unix sampleAnswers endsBetween sampleCheck "ct-agent.exe" .require
    [sampleKey] 1000 sampleFiles ?_).mpr ?_
  · decide
  · rintro ⟨h, -, -⟩
    cases h

/-- A verified update of a Windows agent whose process ends before the second rename: nothing is at
the path of the binary. -/
theorem windows_update_loses_binary :
    ¬ UpdateSafe sampleCrypto sampleAnswers sampleCheck "ct-agent.exe" .require [sampleKey] 1000
      sampleFiles
      (performUpdateInto sampleCrypto .windows sampleAnswers endsBetween sampleCheck "ct-agent.exe"
        .require [sampleKey] 1000 sampleFiles).2 := by
  apply not_updateSafe_missing
  · decide
  · decide +kernel

end CtAgent.SelfUpdate
