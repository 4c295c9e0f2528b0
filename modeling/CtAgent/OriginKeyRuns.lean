import CtAgent.OriginKey

/-! Boots and rotations of an agent, one after the other, each stopped by a fault or by a crash
anywhere, over the one directory they share. -/
namespace CtAgent.OriginKey
open CtAgent.Lib CtAgent.SecretFile

inductive OriginEvent where
  | boot (fresh token : Key) (edge : String) (f : PromoteFaults)
  | rotate (fresh : Key) (f : RotateFaults)
  deriving DecidableEq, Repr

/-- The files, and every key that ever stood at the key path beside its own capability. -/
structure OriginState where
  files : Files OriginPath
  promoted : List Bytes

def OriginState.init : OriginState := ⟨fun _ => none, []⟩

section
variable (common : CapabilityCommon)

/-- The key at the key path, if the capability on disk is the one of its identity. -/
def matchedKey (F : Files OriginPath) : Option Bytes :=
  match F (.file .key), F (.file .cap) with
  | some key, some capb =>
    match common.decode capb with
    | some cap => if cap.origin = common.originIdentity key then some key else none
    | none => none
  | _, _ => none

def observe (promoted : List Bytes) (F : Files OriginPath) : List Bytes :=
  match matchedKey common F with
  | some key => if key ∈ promoted then promoted else promoted ++ [key]
  | none => promoted

def OriginEvent.files (F : Files OriginPath) : OriginEvent → Files OriginPath
  | .boot fresh token edge f => (resolvePrimaryIdentity common f fresh token edge F).2
  | .rotate fresh f => (rotateOriginKey common f fresh F).2

def originStep (s : OriginState) (e : OriginEvent) : Option OriginState :=
  let F := e.files common s.files
  some ⟨F, observe common s.promoted F⟩

/-- Every promoted key can still be served. -/
def KeysServed (s : OriginState) : Prop :=
  ∀ key ∈ s.promoted, s.files (.file .key) = some key ∨
    ∃ name, s.files (.file (.retired name)) = some key

/-- A rotation that returns an error leaves the pair as it was. -/
def ErrKeepsPair (s : OriginState) (fresh : Key) (f : RotateFaults) : Prop :=
  ∀ why F, rotateOriginKey common f fresh s.files = (.error (.failed why), F) →
    F (.file .key) = s.files (.file .key) ∧ F (.file .cap) = s.files (.file .cap)

def retiredNameOf (key : Bytes) : String := retiredName (common.originIdentity key)

/-- A rotation that, once the key is renamed, also renames the capability and does not fail to sync,
with a new identity whose first four bytes no promoted one has. A boot meets every fault. -/
def soundStep (s : OriginState) : OriginEvent → Bool
  | .boot _ _ _ _ => true
  | .rotate fresh f =>
    f.promote.renameCap == .fine &&
      (match f.promote.syncDir with
      | .fails _ => false
      | _ => true) &&
      (s.promoted.map (retiredNameOf common)).all (· ≠ retiredNameOf common fresh.toList)

/-- The pair on disk is a promoted key with its capability, and every other promoted key is in the
file its identity names. -/
structure PairInPlace (s : OriginState) (key capb : Bytes) (cap : Capability) : Prop where
  keyAt : s.files (.file .key) = some key
  length : key.length = 32
  capAt : s.files (.file .cap) = some capb
  decode : common.decode capb = some cap
  origin : cap.origin = common.originIdentity key
  mem : key ∈ s.promoted
  retired : ∀ k ∈ s.promoted, k ≠ key → s.files (.file (.retired (retiredNameOf common k))) = some k
  names : ∀ k ∈ s.promoted, ∀ k' ∈ s.promoted,
    retiredNameOf common k = retiredNameOf common k' → k = k'

def OriginInv (s : OriginState) : Prop :=
  (s.promoted = [] ∧ s.files (.file .cap) = none) ∨ ∃ key capb cap, PairInPlace common s key capb cap

variable {common}

theorem matchedKey_of_pair {F : Files OriginPath} {key capb : Bytes} {cap : Capability}
    (hkey : F (.file .key) = some key) (hcap : F (.file .cap) = some capb)
    (hdecode : common.decode capb = some cap) (horigin : cap.origin = common.originIdentity key) :
    matchedKey common F = some key := by
  simp [matchedKey, hkey, hcap, hdecode, horigin]

theorem matchedKey_of_no_cap {F : Files OriginPath} (hcap : F (.file .cap) = none) :
    matchedKey common F = none := by
  unfold matchedKey
  cases F (.file .key) <;> simp [hcap]

theorem OriginInv.keysServed {s : OriginState} (h : OriginInv common s) : KeysServed s := by
  intro k hk
  obtain ⟨hempty, -⟩ | ⟨key, capb, cap, hp⟩ := h
  · simp [hempty] at hk
  · by_cases he : k = key
    · exact .inl (he ▸ hp.keyAt)
    · exact .inr ⟨_, hp.retired k hk he⟩

theorem soundStep_rotate {s : OriginState} {fresh : Key} {f : RotateFaults}
    (h : soundStep common s (.rotate fresh f) = true) :
    f.promote.renameCap = .fine ∧ (∀ n, f.promote.syncDir ≠ .fails n) ∧
      ∀ k ∈ s.promoted, retiredNameOf common k ≠ retiredNameOf common fresh.toList := by
  simp only [soundStep, Bool.and_eq_true, beq_iff_eq, List.all_map, List.all_eq_true] at h
  obtain ⟨⟨hrename, hsync⟩, hnames⟩ := h
  refine ⟨hrename, ?_, ?_⟩
  · intro n hn
    simp [hn] at hsync
  · intro k hk
    simpa using hnames k hk

/-- The pair is as before, so the same keys are promoted. -/
theorem PairInPlace.kept {s : OriginState} {key capb : Bytes} {cap : Capability}
    (h : PairInPlace common s key capb cap) {F : Files OriginPath}
    (hkept : PairKept (retiredName cap.origin) key s.files F) :
    PairInPlace common ⟨F, observe common s.promoted F⟩ key capb cap := by
  have hkey : F (.file .key) = some key := hkept.key.trans h.keyAt
  have hcap : F (.file .cap) = some capb := hkept.cap.trans h.capAt
  have hsame : observe common s.promoted F = s.promoted := by
    simp [observe, matchedKey_of_pair hkey hcap h.decode h.origin, h.mem]
  rw [hsame]
  refine ⟨hkey, h.length, hcap, h.decode, h.origin, h.mem, ?_, h.names⟩
  intro k hk hne
  have hname : retiredNameOf common k ≠ retiredName cap.origin := by
    rw [h.origin]
    exact fun he => hne (h.names k hk key h.mem he)
  exact (hkept.others _ hname).trans (h.retired k hk hne)

/-- The new pair is in place: its key joins the promoted ones, the old key is retired. -/
theorem PairInPlace.rotated {s : OriginState} {key capb : Bytes} {cap newCap : Capability}
    (h : PairInPlace common s key capb cap) {fresh : Key} {F : Files OriginPath}
    (hrot : PairRotated (retiredName cap.origin) key fresh.toList (common.encode newCap) s.files F)
    (hdecode : common.decode (common.encode newCap) = some newCap)
    (horigin : newCap.origin = common.originIdentity fresh.toList)
    (hnew : ∀ k ∈ s.promoted, retiredNameOf common k ≠ retiredNameOf common fresh.toList) :
    PairInPlace common ⟨F, observe common s.promoted F⟩ fresh.toList (common.encode newCap) newCap := by
  have hfresh : fresh.toList ∉ s.promoted := fun hmem => hnew _ hmem rfl
  have hsame : observe common s.promoted F = s.promoted ++ [fresh.toList] := by
    simp [observe, matchedKey_of_pair hrot.key hrot.cap hdecode horigin, hfresh]
  rw [hsame]
  refine ⟨hrot.key, by simp, hrot.cap, hdecode, horigin, by simp, ?_, ?_⟩
  · intro k hk hne
    have hk : k ∈ s.promoted := by simpa [hne] using hk
    by_cases hold : k = key
    · subst hold
      simpa [retiredNameOf, ← h.origin] using hrot.retired
    · have hname : retiredNameOf common k ≠ retiredName cap.origin := by
        rw [h.origin]
        exact fun he => hold (h.names k hk key h.mem he)
      exact (hrot.others _ hname).trans (h.retired k hk hold)
  · intro k hk k' hk' he
    rcases List.mem_append.mp hk with hk | hk <;> rcases List.mem_append.mp hk' with hk' | hk'
    · exact h.names k hk k' hk' he
    · obtain rfl : k' = fresh.toList := by simpa using hk'
      exact absurd he (hnew k hk)
    · obtain rfl : k = fresh.toList := by simpa using hk
      exact absurd he.symm (hnew k' hk')
    · obtain rfl : k = fresh.toList := by simpa using hk
      obtain rfl : k' = fresh.toList := by simpa using hk'
      rfl

/-- What a sound rotation does with a pair in place. -/
theorem PairInPlace.rotate {s : OriginState} {key capb : Bytes} {cap : Capability}
    (h : PairInPlace common s key capb cap) {fresh : Key} {f : RotateFaults}
    (hok : soundStep common s (.rotate fresh f) = true) :
    let newCap : Capability := ⟨cap.token, common.originIdentity fresh.toList, cap.edgeAddr⟩
    PairKept (retiredName cap.origin) key s.files (rotateOriginKey common f fresh s.files).2 ∨
      ((∀ why, (rotateOriginKey common f fresh s.files).1 ≠ .error (.failed why)) ∧
        PairRotated (retiredName cap.origin) key fresh.toList (common.encode newCap) s.files
          (rotateOriginKey common f fresh s.files).2) := by
  intro newCap
  obtain ⟨hrename, hsync, -⟩ := soundStep_rotate hok
  have ht := rotateOriginKey_triple common f fresh h.keyAt h.length h.capAt h.decode s.files rfl
  rcases hr : rotateOriginKey common f fresh s.files with ⟨r, F⟩
  rw [hr] at ht
  cases r with
  | ok cap' => exact .inr ⟨by simp, ht⟩
  | error e =>
    rcases ht with hk | ⟨hfault, -⟩ | ⟨rfl | ⟨n, hn⟩, hrot⟩
    · exact .inl hk
    · exact absurd hrename hfault
    · exact .inr ⟨by simp, hrot⟩
    · exact absurd hn (hsync n)

/-- A first boot either promotes nothing or a whole pair. -/
theorem firstBoot_inv (hcodec : ∀ c, common.decode (common.encode c) = some c) {s : OriginState}
    (hempty : s.promoted = []) (hcap : s.files (.file .cap) = none) (f : PromoteFaults)
    (fresh token : Key) (edge : String) :
    OriginInv common ⟨(resolvePrimaryIdentity common f fresh token edge s.files).2, observe common s.promoted
      (resolvePrimaryIdentity common f fresh token edge s.files).2⟩ := by
  have hnone {F : Files OriginPath} (h : F (.file .cap) = none) :
      OriginInv common ⟨F, observe common s.promoted F⟩ := by
    simp [OriginInv, observe, matchedKey_of_no_cap h, hempty, h]
  have hwhole {F : Files OriginPath} (h : Promoted fresh (common.encode
      ⟨token, common.originIdentity fresh.toList, edge⟩) s.files F) :
      OriginInv common ⟨F, observe common s.promoted F⟩ := by
    have hmatch := matchedKey_of_pair h.2.1 h.2.2 (hcodec _) rfl
    have hobs : observe common s.promoted F = [fresh.toList] := by simp [observe, hmatch, hempty]
    rw [hobs]
    refine .inr ⟨_, _, _, h.2.1, by simp, h.2.2, hcodec _, rfl, by simp, ?_, ?_⟩
    · intro k hk hne
      exact absurd (by simpa using hk) hne
    · intro k hk k' hk' _
      simp only [List.mem_singleton] at hk hk'
      rw [hk, hk']
  rw [resolvePrimaryIdentity_first common f fresh token edge hcap]
  have ht := @promotePair_triple common f fresh ⟨token, common.originIdentity fresh.toList, edge⟩
    (· = s.files) s.files (fun F h => h ▸ Disk.AgreeOff.refl _ _) s.files rfl
  have hcut {F : Files OriginPath} (h : Staged s.files F) : F (.file .cap) = none :=
    (h _ (by decide)).trans hcap
  show OriginInv common ⟨(Disk.bind (promotePair common f fresh _) _ s.files).2,
    observe common s.promoted (Disk.bind (promotePair common f fresh _) _ s.files).2⟩
  unfold Disk.bind
  rcases hr : promotePair common f fresh ⟨token, common.originIdentity fresh.toList, edge⟩ s.files
    with ⟨r, F⟩
  rw [hr] at ht
  cases r with
  | ok _ => exact hwhole ht
  | error e =>
    rcases ht with hs | ⟨-, hhalf⟩ | ⟨-, hp⟩
    · exact hnone (hcut hs)
    · exact hnone (hhalf.2.2.trans hcap)
    · exact hwhole hp

theorem OriginInv.step (hcodec : ∀ c, common.decode (common.encode c) = some c)
    {s t : OriginState} {e : OriginEvent} (h : OriginInv common s)
    (hstep : guarded (originStep common) (soundStep common) s e = some t) : OriginInv common t := by
  obtain ⟨hok, hstep⟩ := guarded_eq_some.mp hstep
  obtain rfl := Option.some.inj hstep
  cases e with
  | boot fresh token edge f =>
    obtain ⟨hempty, hcap⟩ | ⟨key, capb, cap, hp⟩ := h
    · exact firstBoot_inv hcodec hempty hcap f fresh token edge
    · right
      have hload := resolvePrimaryIdentity_loads common f fresh token edge hp.keyAt hp.length hp.capAt
      have hkept : PairKept (retiredName cap.origin) key s.files
          (OriginEvent.files common s.files (.boot fresh token edge f)) := by
        rw [OriginEvent.files, hload]
        exact ⟨rfl, rfl, fun _ _ => rfl, .inl rfl⟩
      exact ⟨key, capb, cap, hp.kept hkept⟩
  | rotate fresh f =>
    obtain ⟨hempty, hcap⟩ | ⟨key, capb, cap, hp⟩ := h
    · left
      have hF : OriginEvent.files common s.files (.rotate fresh f) = s.files := by
        rw [OriginEvent.files, rotateOriginKey_no_cap common f fresh hcap]
      simp [hF, observe, matchedKey_of_no_cap hcap, hempty, hcap]
    · right
      obtain hkept | ⟨-, hrot⟩ := hp.rotate hok
      · exact ⟨key, capb, cap, hp.kept hkept⟩
      · exact ⟨_, _, _, hp.rotated hrot (hcodec _) rfl (soundStep_rotate hok).2.2⟩

/-- In every run of sound steps, whatever else fails and wherever the process ends, every promoted
key can still be served, and a rotation that returns an error left the pair as it was. -/
theorem origin_keys_survive (common : CapabilityCommon)
    (hcodec : ∀ c, common.decode (common.encode c) = some c) (events : List OriginEvent)
    (s : OriginState)
    (hrun : run (guarded (originStep common) (soundStep common)) .init events = some s) :
    KeysServed s ∧ ∀ fresh f, soundStep common s (.rotate fresh f) = true →
      ErrKeepsPair common s fresh f := by
  have hinv : OriginInv common s :=
    run_invariant _ (OriginInv common) (fun _ _ _ h hs => h.step hcodec hs) events .init s
      (.inl ⟨rfl, rfl⟩) hrun
  refine ⟨hinv.keysServed, ?_⟩
  intro fresh f hok why F hr
  obtain ⟨-, hcap⟩ | ⟨key, capb, cap, hp⟩ := hinv
  · rw [rotateOriginKey_no_cap common f fresh hcap] at hr
    cases hr
    exact ⟨rfl, rfl⟩
  · obtain hkept | ⟨hne, -⟩ := hp.rotate hok
    · rw [hr] at hkept
      exact ⟨hkept.key, hkept.cap⟩
    · exact absurd (by rw [hr]) (hne why)

end

/-- A codec of fixed fields, and the key itself as the identity. -/
def sampleCommon : CapabilityCommon where
  encode c := c.token.toList ++ c.origin.toList ++ utf8 c.edgeAddr
  decode bytes :=
    if h : 64 ≤ bytes.length then
      (ofUtf8 (bytes.drop 64)).map (fun edge =>
        ⟨⟨(bytes.take 32).toArray, by simp; omega⟩,
          ⟨((bytes.drop 32).take 32).toArray, by simp; omega⟩, edge⟩)
    else none
  originIdentity key := Vector.ofFn (fun i => key.getD i 0)

theorem sampleCommon_codec (c : Capability) :
    sampleCommon.decode (sampleCommon.encode c) = some c := by
  obtain ⟨token, origin, edge⟩ := c
  have ht : token.toList.length = 32 := by simp
  have ho : origin.toList.length = 32 := by simp
  have hedge : (token.toList ++ origin.toList ++ utf8 edge).drop 64 = utf8 edge := by
    rw [List.drop_left']
    simp
  have htoken : (token.toList ++ origin.toList ++ utf8 edge).take 32 = token.toList := by
    rw [List.append_assoc, List.take_left' ht]
  have horigin : ((token.toList ++ origin.toList ++ utf8 edge).drop 32).take 32 = origin.toList := by
    rw [List.append_assoc, List.drop_left' ht, List.take_left' ho]
  have hlen : 64 ≤ (token.toList ++ origin.toList ++ utf8 edge).length := by
    simp only [List.length_append, ht, ho]
    omega
  simp only [sampleCommon, dif_pos hlen, hedge, htoken, horigin, ofUtf8_utf8, Option.map_some]
  rfl

def noReplaceFaults : ReplaceFaults := ⟨.fine, .fine, .fine, .fine, .fine, .fine, .fine⟩

def noOwnerOnlyFaults : OwnerOnlyFaults := ⟨.fine, noReplaceFaults⟩

def noPromoteFaults : PromoteFaults :=
  ⟨noOwnerOnlyFaults, noOwnerOnlyFaults, .fine, .fine, .fine, .fine⟩

def noRotateFaults : RotateFaults := ⟨.fine, noOwnerOnlyFaults, noPromoteFaults⟩

def sampleKey (n : UInt8) : Key := Vector.replicate 32 n

def sampleBoot : OriginEvent := .boot (sampleKey 1) (sampleKey 9) "edge.example:4433" noPromoteFaults

/-- The second rename of this rotation fails. -/
def halfRotate : OriginEvent :=
  .rotate (sampleKey 2) { noRotateFaults with
    promote := { noPromoteFaults with renameCap := .fails 0 } }

/-- A rotation that ends with its process behind both renames. -/
def lateCrashRotate : OriginEvent :=
  .rotate (sampleKey 2) { noRotateFaults with
    promote := { noPromoteFaults with syncDir := .dies 0 } }

theorem origin_keys_survive_sample :
    ∃ s, run (guarded (originStep sampleCommon) (soundStep sampleCommon)) .init
      [sampleBoot, lateCrashRotate, .rotate (sampleKey 3) noRotateFaults] = some s ∧ KeysServed s := by
  have hsome : (run (guarded (originStep sampleCommon) (soundStep sampleCommon)) .init
      [sampleBoot, lateCrashRotate, .rotate (sampleKey 3) noRotateFaults]).isSome = true := by
    decide +kernel
  obtain ⟨s, hs⟩ := Option.isSome_iff_exists.mp hsome
  exact ⟨s, hs, (origin_keys_survive sampleCommon sampleCommon_codec _ s hs).1⟩

def sampleCap : Capability :=
  ⟨sampleKey 9, sampleCommon.originIdentity (sampleKey 1).toList, "edge.example:4433"⟩

/-- A rotation that stops between its renames, and one more: the retired copy of the first key is
overwritten with the second, and no file holds the first key any more. -/
theorem origin_key_lost :
    ¬ ∀ events s, run (originStep sampleCommon) .init events = some s →
      KeysServed s ∧ ∀ fresh f, ErrKeepsPair sampleCommon s fresh f := by
  intro h
  let F₁ := sampleBoot.files sampleCommon (fun _ => none)
  let F₂ := halfRotate.files sampleCommon F₁
  let F₃ := (OriginEvent.rotate (sampleKey 3) noRotateFaults).files sampleCommon F₂
  have hserved : KeysServed
      ⟨F₃, observe sampleCommon (observe sampleCommon (observe sampleCommon [] F₁) F₂) F₃⟩ :=
    (h [sampleBoot, halfRotate, .rotate (sampleKey 3) noRotateFaults] _ rfl).1
  have hcap₁ : F₁ (.file .cap) = some (sampleCommon.encode sampleCap) := by decide +kernel
  have hcap₂ : F₂ (.file .cap) = some (sampleCommon.encode sampleCap) := by decide +kernel
  have hkey₁ : F₁ (.file .key) = some (sampleKey 1).toList := by decide +kernel
  have hkey₂ : F₂ (.file .key) = some (sampleKey 2).toList := by decide +kernel
  have hdecode := sampleCommon_codec sampleCap
  rcases hserved (sampleKey 1).toList (by decide +kernel) with hkey | ⟨name, hretired⟩
  · exact absurd hkey (by decide +kernel)
  by_cases hn : name = retiredName sampleCap.origin
  · subst hn
    exact absurd hretired (by decide +kernel)
  · have h₃ : F₃ (.file (.retired name)) = F₂ (.file (.retired name)) :=
      rotateOriginKey_others sampleCommon _ _ hkey₂ (by simp) hcap₂ hdecode hn
    have h₂ : F₂ (.file (.retired name)) = F₁ (.file (.retired name)) :=
      rotateOriginKey_others sampleCommon _ _ hkey₁ (by simp) hcap₁ hdecode hn
    have h₁ : F₁ (.file (.retired name)) = none := rfl
    have hnone : F₃ (.file (.retired name)) = none := h₃.trans (h₂.trans h₁)
    exact absurd (hnone.symm.trans hretired) (by simp)

end CtAgent.OriginKey
