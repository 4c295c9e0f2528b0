import CtAgent.Codec
import CtAgent.SecretFile
import CtAgent.Lib.Run

/-! The agent's origin key and capability on disk: the first boot that mints them and the rotation
that replaces them. The configured paths, and the staging and temp names made from them, are taken to
be different files. -/
namespace CtAgent.OriginKey
open CtAgent.Lib CtAgent.SecretFile

abbrev Key := Vector UInt8 32

/-- `origin` is the public identity of the origin key clients pin. -/
structure Capability where
  token : Key
  origin : Key
  edgeAddr : String
  deriving DecidableEq, Repr

/-- ct-common's capability codec and the identity of an origin key. -/
structure CapabilityCommon where
  encode : Capability → Bytes
  decode : Bytes → Option Capability
  originIdentity : Bytes → Key

inductive OriginFile where
  | key | cap | keyNew | capNew
  | retired (name : String)
  deriving DecidableEq, Repr

/-- A file and its temp sibling. -/
inductive OriginPath where
  | file (n : OriginFile)
  | temp (n : OriginFile)
  deriving DecidableEq, Repr

def hex8 (bytes : Bytes) : String := Codec.hexEncode (bytes.take 4)

/-- The file of `extra_keys_dir` a previous key is kept in. -/
def retiredName (origin : Key) : String := "retired-" ++ hex8 origin.toList ++ ".key"

structure OwnerOnlyFaults where
  parent : Fault
  replace : ReplaceFaults
  deriving DecidableEq, Repr

def writeOwnerOnly (f : OwnerOnlyFaults) (n : OriginFile) (bytes : Bytes) :
    Disk OriginPath Unit := do
  Disk.touch f.parent
  replaceAtomically f.replace (.file n) (.temp n) bytes

/-- What happens to each operation of one promotion of a new pair. -/
structure PromoteFaults where
  stageKey : OwnerOnlyFaults
  stageCap : OwnerOnlyFaults
  cleanup : Fault
  renameKey : Fault
  renameCap : Fault
  syncDir : Fault
  deriving DecidableEq, Repr

structure RotateFaults where
  createDir : Fault
  retire : OwnerOnlyFaults
  promote : PromoteFaults
  deriving DecidableEq, Repr

section
variable (common : CapabilityCommon)

/-- The staged writes and the two renames that the first boot and the rotation share. -/
def promotePair (f : PromoteFaults) (key : Key) (cap : Capability) : Disk OriginPath Unit := do
  writeOwnerOnly f.stageKey .keyNew key.toList
  Disk.onFailure (writeOwnerOnly f.stageCap .capNew (common.encode cap))
    (Disk.removeIfThere f.cleanup (.file .keyNew))
  Disk.rename f.renameKey (.file .keyNew) (.file .key)
  Disk.rename f.renameCap (.file .capNew) (.file .cap)
  Disk.touch f.syncDir

/-- `resolve_primary_identity` with a key path, the fresh key and the token a first boot draws. -/
def resolvePrimaryIdentity (f : PromoteFaults) (fresh token : Key) (edge : String) :
    Disk OriginPath (Capability × Bytes) := do
  let key ← Disk.attempt (Disk.read (.file .key))
  let capb ← Disk.attempt (Disk.read (.file .cap))
  match key, capb with
  | .ok key, .ok capb =>
    -- both files are there, so that a capability that does not decode is an error and no first boot
    if key.length = 32 then
      let cap ← Disk.ofOption "capability does not decode" (common.decode capb)
      return (cap, key)
    else firstBoot
  | _, _ => firstBoot
where
  firstBoot : Disk OriginPath (Capability × Bytes) := do
    let cap : Capability := ⟨token, common.originIdentity fresh.toList, edge⟩
    promotePair common f fresh cap
    return (cap, fresh.toList)

def rotateOriginKey (f : RotateFaults) (fresh : Key) : Disk OriginPath Capability := do
  let capb ← Disk.read (.file .cap)
  let oldCap ← Disk.ofOption "capability does not decode" (common.decode capb)
  let oldKey ← Disk.read (.file .key)
  if oldKey.length ≠ 32 then Disk.fail "current origin key is not 32 bytes"
  else
    let newCap : Capability := ⟨oldCap.token, common.originIdentity fresh.toList, oldCap.edgeAddr⟩
    Disk.touch f.createDir
    -- the promotion overwrites the key: this copy is the only one left of it
    writeOwnerOnly f.retire (.retired (retiredName oldCap.origin)) oldKey
    promotePair common f.promote fresh newCap
    return newCap

end

/-! What each program leaves behind, wherever it stops. -/

def stagingPaths : List OriginPath :=
  [.file .keyNew, .temp .keyNew, .file .capNew, .temp .capNew]

/-- Only staging files changed. -/
def Staged (F₀ F : Files OriginPath) : Prop := Disk.AgreeOff stagingPaths F₀ F

def promotedPaths : List OriginPath := .file .key :: .file .cap :: stagingPaths

/-- The new key is in place, the capability is still the old one. -/
def HalfPromoted (key : Key) (F₀ F : Files OriginPath) : Prop :=
  Disk.AgreeOff promotedPaths F₀ F ∧ F (.file .key) = some key.toList ∧
    F (.file .cap) = F₀ (.file .cap)

def Promoted (key : Key) (capBytes : Bytes) (F₀ F : Files OriginPath) : Prop :=
  Disk.AgreeOff promotedPaths F₀ F ∧ F (.file .key) = some key.toList ∧
    F (.file .cap) = some capBytes

theorem writeOwnerOnly_triple (f : OwnerOnlyFaults) (n : OriginFile) (bytes : Bytes)
    (F₀ : Files OriginPath) :
    Disk.Triple (· = F₀) (writeOwnerOnly f n bytes)
      (fun _ F => Disk.AgreeOff [.file n, .temp n] F₀ F ∧ F (.file n) = some bytes)
      (fun _ F => OldOrNew (.file n) (.temp n) bytes F₀ F) := by
  have hsame : OldOrNew (.file n) (.temp n) bytes F₀ F₀ := ⟨Disk.AgreeOff.refl _ F₀, .inl rfl⟩
  refine Disk.Triple.bind (Disk.Triple.touch ?_ ?_) ?_
  · rintro _ F why rfl _
    exact hsame
  · rintro F rfl
    exact hsame
  · intro _
    exact replaceAtomically_triple f.replace (by simp)

/-- A staged write: the pair and the retired keys stay as they are. -/
theorem stage_triple (f : OwnerOnlyFaults) (n : OriginFile) (bytes : Bytes)
    {pre : Files OriginPath → Prop} {F₀ : Files OriginPath} (hn : n = .keyNew ∨ n = .capNew)
    (hpre : ∀ F, pre F → Staged F₀ F) :
    Disk.Triple pre (writeOwnerOnly f n bytes)
      (fun _ F => Staged F₀ F ∧ F (.file n) = some bytes ∧
        ∃ F₁, pre F₁ ∧ Disk.AgreeOff [.file n, .temp n] F₁ F)
      (fun _ F => Staged F₀ F) := by
  have hsub : [OriginPath.file n, .temp n] ⊆ stagingPaths := by
    rcases hn with rfl | rfl <;> decide
  have hstaged {F₁ F : Files OriginPath} (h₁ : pre F₁)
      (h : Disk.AgreeOff [.file n, .temp n] F₁ F) : Staged F₀ F := by
    intro p hp
    rw [h.mono hsub p hp]
    exact hpre F₁ h₁ p hp
  apply Disk.Triple.of_forall
  intro F₁ h₁
  refine (writeOwnerOnly_triple f n bytes F₁).consequence (fun _ h => h) ?_ ?_
  · intro _ F h
    exact ⟨hstaged h₁ h.1, h.2, F₁, h₁, h.1⟩
  · intro _ F h
    exact hstaged h₁ h.1

section
variable (common : CapabilityCommon)

theorem promotePair_triple (f : PromoteFaults) (key : Key) (cap : Capability)
    {pre : Files OriginPath → Prop} {F₀ : Files OriginPath} (hpre : ∀ F, pre F → Staged F₀ F) :
    Disk.Triple pre (promotePair common f key cap)
      (fun _ F => Promoted key (common.encode cap) F₀ F)
      (fun h F => Staged F₀ F ∨ (f.renameCap ≠ .fine ∧ HalfPromoted key F₀ F) ∨
        ((h = .died ∨ ∃ n, f.syncDir = .fails n) ∧ Promoted key (common.encode cap) F₀ F)) := by
  have hstaged : ∀ q ∈ stagingPaths, q ∈ promotedPaths := by decide
  refine Disk.Triple.bind
    (R := fun _ F => Staged F₀ F ∧ F (.file .keyNew) = some key.toList) ?_ ?_
  · refine (stage_triple f.stageKey .keyNew key.toList (.inl rfl) hpre).consequence
      (fun _ h => h) ?_ ?_
    · intro _ F h
      exact ⟨h.1, h.2.1⟩
    · intro _ F h
      exact .inl h
  intro _
  refine Disk.Triple.bind
    (R := fun _ F => Staged F₀ F ∧ F (.file .keyNew) = some key.toList ∧
      F (.file .capNew) = some (common.encode cap)) ?_ ?_
  · have hbody : Disk.Triple (fun F => Staged F₀ F ∧ F (.file .keyNew) = some key.toList)
        (Disk.onFailure (writeOwnerOnly f.stageCap .capNew (common.encode cap))
          (Disk.removeIfThere f.cleanup (.file .keyNew)))
        (fun _ F => Staged F₀ F ∧ F (.file .capNew) = some (common.encode cap) ∧
          ∃ F₁, (Staged F₀ F₁ ∧ F₁ (.file .keyNew) = some key.toList) ∧
            Disk.AgreeOff [.file .capNew, .temp .capNew] F₁ F)
        (fun _ F => Staged F₀ F) := by
      apply Disk.Triple.onFailure
      · exact stage_triple f.stageCap .capNew _ (.inr rfl) (fun F h => h.1)
      · apply Disk.Triple.removeIfThere
        · intro F hF
          exact Disk.AgreeOff.update hF (by decide) none
        · intro _ F hF
          exact hF
    refine hbody.consequence (fun _ h => h) ?_ ?_
    · rintro _ F ⟨hF, hcap, F₁, h₁, hagree⟩
      exact ⟨hF, (hagree _ (by decide)).trans h₁.2, hcap⟩
    · intro _ F h
      exact .inl h
  intro _
  refine Disk.Triple.bind
    (R := fun _ F => HalfPromoted key F₀ F ∧ F (.file .capNew) = some (common.encode cap)) ?_ ?_
  · apply Disk.Triple.rename
    · rintro F c ⟨hF, hkey, hcap⟩ hc
      obtain rfl : c = key.toList := Option.some.inj (hc.symm.trans hkey)
      have hoff : Disk.AgreeOff promotedPaths F₀ F := Disk.AgreeOff.mono hF hstaged
      refine ⟨⟨(hoff.update (by decide) none).update (by decide) _, by simp, ?_⟩, by simpa using hcap⟩
      simpa using hF (.file .cap) (by decide)
    · rintro h F ⟨hF, -⟩
      exact .inl hF
  intro _
  -- from here on the new key is in place
  refine Disk.Triple.bind (R := fun _ F => Promoted key (common.encode cap) F₀ F) ?_ ?_
  · apply Disk.Triple.rename_there
    · rintro F ⟨hF, hcap⟩
      refine ⟨hcap, (hF.1.update (by decide) none).update (by decide) _, ?_, by simp⟩
      simpa using hF.2.1
    · rintro h F ⟨hF, -⟩ hfault
      exact .inr (.inl ⟨hfault, hF⟩)
  intro _
  apply Disk.Triple.touch
  · intro n F why hF hf
    exact .inr (.inr ⟨.inr ⟨n, hf⟩, hF⟩)
  · intro F hF
    exact .inr (.inr ⟨.inl rfl, hF⟩)

/-- The pair stands as before; the old key may already have its retired copy. -/
structure PairKept (name : String) (oldKey : Bytes) (F₀ F : Files OriginPath) : Prop where
  key : F (.file .key) = F₀ (.file .key)
  cap : F (.file .cap) = F₀ (.file .cap)
  others : ∀ m ≠ name, F (.file (.retired m)) = F₀ (.file (.retired m))
  retired : F (.file (.retired name)) = F₀ (.file (.retired name)) ∨
    F (.file (.retired name)) = some oldKey

/-- The new pair is in place and the old key retired. -/
structure PairRotated (name : String) (oldKey newKey newCap : Bytes) (F₀ F : Files OriginPath) :
    Prop where
  key : F (.file .key) = some newKey
  cap : F (.file .cap) = some newCap
  others : ∀ m ≠ name, F (.file (.retired m)) = F₀ (.file (.retired m))
  retired : F (.file (.retired name)) = some oldKey

/-- The new key is in place and the old one retired, the capability is still the old one. -/
structure PairHalf (name : String) (oldKey newKey : Bytes) (F₀ F : Files OriginPath) : Prop where
  key : F (.file .key) = some newKey
  cap : F (.file .cap) = F₀ (.file .cap)
  others : ∀ m ≠ name, F (.file (.retired m)) = F₀ (.file (.retired m))
  retired : F (.file (.retired name)) = some oldKey

/-- A rotation of a pair on disk leaves the pair alone or replaces all of it, unless it stops at the
second rename; behind that rename only the last sync returns an error. -/
theorem rotateOriginKey_triple (f : RotateFaults) (fresh : Key) {F₀ : Files OriginPath}
    {oldKey capBytes : Bytes} {oldCap : Capability} (hkey : F₀ (.file .key) = some oldKey)
    (hlen : oldKey.length = 32) (hcap : F₀ (.file .cap) = some capBytes)
    (hdecode : common.decode capBytes = some oldCap) :
    let name := retiredName oldCap.origin
    let newCap := common.encode
      ⟨oldCap.token, common.originIdentity fresh.toList, oldCap.edgeAddr⟩
    Disk.Triple (· = F₀) (rotateOriginKey common f fresh)
      (fun _ F => PairRotated name oldKey fresh.toList newCap F₀ F)
      (fun h F => PairKept name oldKey F₀ F ∨
        (f.promote.renameCap ≠ .fine ∧ PairHalf name oldKey fresh.toList F₀ F) ∨
        ((h = .died ∨ ∃ n, f.promote.syncDir = .fails n) ∧
          PairRotated name oldKey fresh.toList newCap F₀ F)) := by
  intro name newCap
  have hkept : PairKept name oldKey F₀ F₀ := ⟨rfl, rfl, fun _ _ => rfl, .inl rfl⟩
  refine Disk.Triple.bind (Disk.Triple.read ?_) ?_
  · rintro F why rfl hnone
    exact .inl hkept
  intro capb
  refine Disk.Triple.bind (Disk.Triple.ofOption ?_) ?_
  · rintro F ⟨rfl, -⟩ _
    exact .inl hkept
  intro cap
  refine Disk.Triple.bind (Disk.Triple.read ?_) ?_
  · rintro F why ⟨⟨rfl, -⟩, -⟩ _
    exact .inl hkept
  intro key
  apply Disk.Triple.of_forall
  rintro F ⟨⟨⟨rfl, hcapb⟩, hdec⟩, hk⟩
  obtain rfl : capb = capBytes := Option.some.inj (hcapb.symm.trans hcap)
  obtain rfl : cap = oldCap := Option.some.inj (hdec.symm.trans hdecode)
  obtain rfl : key = oldKey := Option.some.inj (hk.symm.trans hkey)
  rw [if_neg (by simp [hlen])]
  refine Disk.Triple.bind (Disk.Triple.touch ?_ ?_) ?_
  · rintro _ F' why rfl _
    exact .inl hkept
  · rintro F' rfl
    exact .inl hkept
  intro _
  refine Disk.Triple.bind (R := fun _ F₁ =>
    Disk.AgreeOff [.file (.retired name), .temp (.retired name)] F F₁ ∧
      F₁ (.file (.retired name)) = some key) ?_ ?_
  · refine (writeOwnerOnly_triple f.retire _ key F).consequence (fun _ h => h) (fun _ _ h => h) ?_
    intro _ F' h
    refine .inl ⟨h.1 _ (by simp), h.1 _ (by simp), ?_, h.2⟩
    intro m (hm : m ≠ retiredName cap.origin)
    exact h.1 _ (by simpa using hm)
  intro _
  apply Disk.Triple.of_forall
  rintro F₁ ⟨hoff, hretired⟩
  -- the old key has its copy; what the promotion leaves alone is as it was before the rotation
  have hothers {m : String} (hm : m ≠ name) :
      F₁ (.file (.retired m)) = F (.file (.retired m)) := hoff _ (by simp [hm])
  have hstaged {F' : Files OriginPath} (h : Staged F₁ F') : PairKept name key F F' := by
    refine ⟨?_, ?_, ?_, .inr ?_⟩
    · exact (h _ (by decide)).trans (hoff _ (by simp))
    · exact (h _ (by decide)).trans (hoff _ (by simp))
    · intro m hm
      exact (h _ (by simp [stagingPaths])).trans (hothers hm)
    · exact (h _ (by simp [stagingPaths])).trans hretired
  have hpromoted {F' : Files OriginPath} (h : Promoted fresh newCap F₁ F') :
      PairRotated name key fresh.toList newCap F F' := by
    refine ⟨h.2.1, h.2.2, ?_, ?_⟩
    · intro m hm
      exact (h.1 _ (by simp [promotedPaths, stagingPaths])).trans (hothers hm)
    · exact (h.1 _ (by simp [promotedPaths, stagingPaths])).trans hretired
  refine Disk.Triple.bind (R := fun _ F' => PairRotated name key fresh.toList newCap F F') ?_ ?_
  · refine (@promotePair_triple common f.promote fresh _ (· = F₁) F₁ ?_).consequence
      (fun _ h => h) ?_ ?_
    · rintro F' rfl
      exact Disk.AgreeOff.refl _ F'
    · intro _ F' h
      exact hpromoted h
    · rintro h F' (hs | ⟨hfault, hh⟩ | ⟨hend, hp⟩)
      · exact .inl (hstaged hs)
      · refine .inr (.inl ⟨hfault, hh.2.1, hh.2.2.trans (hoff _ (by simp)), ?_, ?_⟩)
        · intro m hm
          exact (hh.1 _ (by simp [promotedPaths, stagingPaths])).trans (hothers hm)
        · exact (hh.1 _ (by simp [promotedPaths, stagingPaths])).trans hretired
      · exact .inr (.inr ⟨hend, hpromoted hp⟩)
  · intro _ F' h
    exact h

/-- A rotation writes no retired key but the one the old capability names. -/
theorem rotateOriginKey_others (f : RotateFaults) (fresh : Key) {F₀ : Files OriginPath}
    {oldKey capBytes : Bytes} {oldCap : Capability} (hkey : F₀ (.file .key) = some oldKey)
    (hlen : oldKey.length = 32) (hcap : F₀ (.file .cap) = some capBytes)
    (hdecode : common.decode capBytes = some oldCap) {m : String}
    (hm : m ≠ retiredName oldCap.origin) :
    (rotateOriginKey common f fresh F₀).2 (.file (.retired m)) = F₀ (.file (.retired m)) := by
  have ht := rotateOriginKey_triple common f fresh hkey hlen hcap hdecode F₀ rfl
  rcases hr : rotateOriginKey common f fresh F₀ with ⟨r, F⟩
  rw [hr] at ht
  cases r with
  | ok _ => exact ht.others m hm
  | error _ =>
    rcases ht with h | ⟨-, h⟩ | ⟨-, h⟩
    all_goals exact h.others m hm

/-- A rotation without a capability on disk changes nothing. -/
theorem rotateOriginKey_no_cap (f : RotateFaults) (fresh : Key) {F₀ : Files OriginPath}
    (hcap : F₀ (.file .cap) = none) :
    rotateOriginKey common f fresh F₀ = (.error (.failed "not found"), F₀) := by
  show Disk.bind (Disk.read (.file .cap)) _ F₀ = _
  simp [Disk.bind, Disk.read, hcap]

/-- A boot with a pair on disk loads it. -/
theorem resolvePrimaryIdentity_loads (f : PromoteFaults) (fresh token : Key) (edge : String)
    {F₀ : Files OriginPath} {key capBytes : Bytes} (hkey : F₀ (.file .key) = some key)
    (hlen : key.length = 32) (hcap : F₀ (.file .cap) = some capBytes) :
    (resolvePrimaryIdentity common f fresh token edge F₀).2 = F₀ := by
  have hr (p : OriginPath) (bytes : Bytes) (h : F₀ p = some bytes) :
      Disk.attempt (Disk.read p) F₀ = (.ok (.ok bytes), F₀) := by
    simp [Disk.attempt, Disk.read, h]
  show (Disk.bind (Disk.attempt (Disk.read (.file .key))) _ F₀).2 = F₀
  simp only [Disk.bind, hr _ _ hkey]
  show (Disk.bind (Disk.attempt (Disk.read (.file .cap))) _ F₀).2 = F₀
  simp only [Disk.bind, hr _ _ hcap, hlen, if_true]
  cases hd : common.decode capBytes <;> rfl

/-- A boot without a capability is a first boot. -/
theorem resolvePrimaryIdentity_first (f : PromoteFaults) (fresh token : Key) (edge : String)
    {F₀ : Files OriginPath} (hcap : F₀ (.file .cap) = none) :
    resolvePrimaryIdentity common f fresh token edge F₀ =
      resolvePrimaryIdentity.firstBoot common f fresh token edge F₀ := by
  show Disk.bind (Disk.attempt (Disk.read (.file .key))) _ F₀ = _
  have hc : Disk.attempt (Disk.read (.file .cap)) F₀ = (.ok (.error "not found"), F₀) := by
    simp [Disk.attempt, Disk.read, hcap]
  cases hkey : F₀ (.file .key) with
  | none =>
    simp only [Disk.bind, Disk.attempt, Disk.read, hkey]
    show Disk.bind (Disk.attempt (Disk.read (.file .cap))) _ F₀ = _
    simp only [Disk.bind, hc]
  | some key =>
    simp only [Disk.bind, Disk.attempt, Disk.read, hkey]
    show Disk.bind (Disk.attempt (Disk.read (.file .cap))) _ F₀ = _
    simp only [Disk.bind, hc]

end

end CtAgent.OriginKey
