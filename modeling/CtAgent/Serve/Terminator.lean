import CtAgent.Lib.Run
import CtAgent.Lib.Bytes

/-! The terminator of a raw TCP Origin (`OriginTerminator`, serve.rs) and the pair of files it serves:
its load and its acceptor calls as their single steps, the writes of a renewal anywhere between them. -/
namespace CtAgent.Serve

open CtAgent.Lib

/-- `ORIGIN_TLS_RELOAD_CHECK_INTERVAL`, in seconds. -/
def originTlsReloadCheckInterval : ℕ := 30

/-- The readers of a PEM chain and of a PEM key, and rustls' check of the pair. -/
structure PairParser (κ : Type) where
  parseChain : Bytes → Except String (List Bytes)
  parseKey : Bytes → Except String Bytes
  withSingleCert : List Bytes → Bytes → Except String κ

/-- A file as a stat and as a read find it. -/
structure FileState where
  mtime : Option ℕ
  bytes : Except String Bytes

structure Disk where
  cert : FileState
  key : FileState
  /-- the modification time the next write gives -/
  stamp : ℕ

inductive PairFile where
  | cert
  | key
  deriving DecidableEq, Repr

inductive Written where
  | content (bytes : Bytes)
  | unreadable (error : String)
  | gone (error : String)

def Written.file (stamp : ℕ) : Written → FileState
  | .content bytes => ⟨some stamp, .ok bytes⟩
  | .unreadable e => ⟨some stamp, .error e⟩
  | .gone e => ⟨none, .error e⟩

/-- A write; no modification time comes twice. -/
def Disk.write (d : Disk) (w : Written) : PairFile → Disk
  | .cert => { d with cert := w.file d.stamp, stamp := d.stamp + 1 }
  | .key => { d with key := w.file d.stamp, stamp := d.stamp + 1 }

structure TerminatorState (κ : Type) where
  config : κ
  certMtime : Option ℕ
  keyMtime : Option ℕ
  lastCheck : ℕ
  reloadFailureLogged : Bool

/-- What `load` has behind it. -/
inductive Loading (κ : Type) where
  | start
  | chainRead (chain : List Bytes)
  | built (config : κ)
  | certStated (config : κ) (certMtime : Option ℕ)

/-- What the acceptor call under way has behind it. -/
inductive Checking where
  | idle
  | due
  | certStated (certMtime : Option ℕ)
  | changed (certMtime keyMtime : Option ℕ)
  | chainRead (certMtime keyMtime : Option ℕ) (chain : List Bytes)

inductive Activity (κ : Type) where
  | loading (stage : Loading κ)
  | loadFailed (error : String)
  | running (st : TerminatorState κ) (stage : Checking)

structure Server (κ : Type) where
  disk : Disk
  activity : Activity κ

inductive TerminatorEvent where
  | write (which : PairFile) (w : Written)
  /-- the next step of the load, or of the acceptor call under way -/
  | proceed (now : ℕ)
  /-- an acceptor call starts; the clock is read for the check, and for `last_check` if it is due -/
  | acceptor (now checkedAt : ℕ)

section
variable {κ : Type} (P : PairParser κ) (certPath keyPath : String)

def readChain (cert : Except String Bytes) : Except String (List Bytes) :=
  match cert with
  | .error e => .error s!"cannot read certificate {certPath}: {e}"
  | .ok bytes =>
    match P.parseChain bytes with
    | .error e => .error s!"cannot parse certificate {certPath}: {e}"
    | .ok [] => .error s!"no certificate found in {certPath}"
    | .ok chain => .ok chain

def readKey (key : Except String Bytes) : Except String Bytes :=
  match key.bind P.parseKey with
  | .error e => .error s!"cannot read private key {keyPath}: {e}"
  | .ok der => .ok der

/-- The second half of a build: the key is read and the pair checked. -/
def finishBuild (chain : List Bytes) (key : Except String Bytes) : Except String κ :=
  match readKey P keyPath key with
  | .error e => .error e
  | .ok der =>
    match P.withSingleCert chain der with
    | .error e => .error s!"certificate {certPath} and key {keyPath} rejected: {e}"
    | .ok config => .ok config

def buildOriginServerConfig (cert key : Except String Bytes) : Except String κ :=
  match readChain P certPath cert with
  | .error e => .error e
  | .ok chain => finishBuild P certPath keyPath chain key

def loadStep (d : Disk) (now : ℕ) : Loading κ → Activity κ
  | .start =>
    match readChain P certPath d.cert.bytes with
    | .error e => .loadFailed e
    | .ok chain => .loading (.chainRead chain)
  | .chainRead chain =>
    match finishBuild P certPath keyPath chain d.key.bytes with
    | .error e => .loadFailed e
    | .ok config => .loading (.built config)
  | .built config => .loading (.certStated config d.cert.mtime)
  | .certStated config certMtime => .running ⟨config, certMtime, d.key.mtime, now, false⟩ .idle

/-- A failed build: the served config stays. -/
def TerminatorState.failed (st : TerminatorState κ) : TerminatorState κ :=
  { st with reloadFailureLogged := true }

def checkStep (d : Disk) (st : TerminatorState κ) : Checking → Option (Activity κ)
  | .idle => none
  | .due => some (.running st (.certStated d.cert.mtime))
  | .certStated certMtime =>
    if certMtime ≠ st.certMtime ∨ d.key.mtime ≠ st.keyMtime
      then some (.running st (.changed certMtime d.key.mtime))
    else some (.running st .idle)
  | .changed certMtime keyMtime =>
    match readChain P certPath d.cert.bytes with
    | .error _ => some (.running st.failed .idle)
    | .ok chain => some (.running st (.chainRead certMtime keyMtime chain))
  | .chainRead certMtime keyMtime chain =>
    match finishBuild P certPath keyPath chain d.key.bytes with
    | .error _ => some (.running st.failed .idle)
    | .ok config =>
      -- the times are those of the stats in front of the build
      some (.running ⟨config, certMtime, keyMtime, st.lastCheck, false⟩ .idle)

def Server.step (s : Server κ) : TerminatorEvent → Option (Server κ)
  | .write which w => some { s with disk := s.disk.write w which }
  | .proceed now =>
    match s.activity with
    | .loading stage => some { s with activity := loadStep P certPath keyPath s.disk now stage }
    | .loadFailed _ => none
    | .running st stage => (checkStep P certPath keyPath s.disk st stage).map fun a => { s with activity := a }
  | .acceptor now checkedAt =>
    match s.activity with
    | .running st .idle =>
      if originTlsReloadCheckInterval ≤ now - st.lastCheck then
        some { s with activity := .running { st with lastCheck := checkedAt } .due }
      else some s
    -- one call at a time holds the lock
    | _ => none

end

/-- A modification time from before the next write. -/
def Old (stamp : ℕ) (mtime : Option ℕ) : Prop := ∀ t ∈ mtime, t < stamp

/-- If the file still has this modification time and can be read, it holds these bytes. -/
def Unwritten (f : FileState) (mtime : Option ℕ) (bytes : Bytes) : Prop :=
  f.mtime = mtime → ∀ b, f.bytes = .ok b → b = bytes

/-- The recorded time is not the file's and never will be, unless it is that of a missing file. -/
def Stale (f : FileState) (recorded : Option ℕ) : Prop := ∀ t ∈ recorded, f.mtime ≠ some t

def Disk.file (d : Disk) : PairFile → FileState
  | .cert => d.cert
  | .key => d.key

section
variable {d : Disk} {w : Written} {which : PairFile} {mtime : Option ℕ} {bytes : Bytes}

theorem Disk.write_file (d : Disk) (w : Written) (which other : PairFile) :
    (d.write w which).file other = if which = other then w.file d.stamp else d.file other := by
  cases which <;> cases other <;> rfl

theorem Disk.write_stamp (d : Disk) (w : Written) (which : PairFile) :
    (d.write w which).stamp = d.stamp + 1 := by
  cases which <;> rfl

theorem Old.write (h : Old d.stamp mtime) : Old (d.write w which).stamp mtime := by
  intro t ht
  have hlt := h t ht
  rw [Disk.write_stamp]
  omega

/-- A written file has a new time, or none and nothing to read. -/
theorem Written.file_mtime (w : Written) (stamp : ℕ) :
    (w.file stamp).mtime = some stamp ∨
    ((w.file stamp).mtime = none ∧ ∃ e, (w.file stamp).bytes = .error e) := by
  cases w with
  | content b => exact .inl rfl
  | unreadable e => exact .inl rfl
  | gone e => exact .inr ⟨rfl, e, rfl⟩

theorem Unwritten.write (other : PairFile) (h : Unwritten (d.file other) mtime bytes)
    (hold : Old d.stamp mtime) :
    Unwritten ((d.write w which).file other) mtime bytes := by
  rw [Disk.write_file]
  split
  · intro hm b hb
    rcases w.file_mtime d.stamp with hnew | ⟨-, e, hgone⟩
    · rw [hnew] at hm
      exact absurd (hold d.stamp hm.symm) (Nat.lt_irrefl _)
    · rw [hgone] at hb
      cases hb
  · exact h

theorem Stale.write (other : PairFile) (h : Stale (d.file other) mtime) (hold : Old d.stamp mtime) :
    Stale ((d.write w which).file other) mtime := by
  rw [Disk.write_file]
  split
  · intro t ht hnew
    rcases w.file_mtime d.stamp with hstamp | ⟨hnone, -⟩
    · rw [hstamp] at hnew
      cases hnew
      exact absurd (hold _ ht) (Nat.lt_irrefl _)
    · rw [hnone] at hnew
      cases hnew
  · exact h

/-- The times a stat can find. -/
structure Disk.Stamped (d : Disk) : Prop where
  old : ∀ f, Old d.stamp (d.file f).mtime

theorem Disk.Stamped.write (h : d.Stamped) : (d.write w which).Stamped := by
  constructor
  intro f
  rw [Disk.write_file]
  split
  · intro t ht
    rw [Disk.write_stamp]
    rcases w.file_mtime d.stamp with hstamp | ⟨hnone, -⟩
    · rw [hstamp] at ht
      cases ht
      exact Nat.lt_succ_self _
    · rw [hnone] at ht
      cases ht
  · exact (h.old f).write

end

section
variable {κ : Type} (P : PairParser κ) (certPath keyPath : String)

/-- The served config was built from a pair that each file still holds, if its recorded time is its own. -/
structure ServedInv (d : Disk) (st : TerminatorState κ) : Prop where
  built : ∃ cert key, buildOriginServerConfig P certPath keyPath (.ok cert) (.ok key) = .ok st.config ∧
    Unwritten d.cert st.certMtime cert ∧ Unwritten d.key st.keyMtime key
  oldCert : Old d.stamp st.certMtime
  oldKey : Old d.stamp st.keyMtime

/-- What a load or an acceptor call under way knows of the files it has looked at. -/
def ActivityInv (d : Disk) : Activity κ → Prop
  | .loading .start | .loadFailed _ => True
  | .loading (.chainRead chain) => ∃ cert, readChain P certPath (.ok cert) = .ok chain ∧
      d.cert.bytes = .ok cert
  | .loading (.built config) => ∃ cert key,
      buildOriginServerConfig P certPath keyPath (.ok cert) (.ok key) = .ok config ∧
        d.cert.bytes = .ok cert ∧ d.key.bytes = .ok key
  | .loading (.certStated config certMtime) => ∃ cert key,
      buildOriginServerConfig P certPath keyPath (.ok cert) (.ok key) = .ok config ∧
        Unwritten d.cert certMtime cert ∧ Old d.stamp certMtime ∧ d.key.bytes = .ok key
  | .running st stage => ServedInv P certPath keyPath d st ∧
      -- behind a failed build one of the recorded times is out of date
      (st.reloadFailureLogged = true → Stale d.cert st.certMtime ∨ Stale d.key st.keyMtime) ∧
      match stage with
      | .idle | .due => True
      | .certStated certMtime => Old d.stamp certMtime ∧
          (certMtime ≠ st.certMtime → Stale d.cert st.certMtime) ∧
          (st.reloadFailureLogged = true → (∀ t ∈ st.certMtime, certMtime ≠ some t) ∨ Stale d.key st.keyMtime)
      | .changed certMtime keyMtime => Old d.stamp certMtime ∧ Old d.stamp keyMtime ∧
          (Stale d.cert st.certMtime ∨ Stale d.key st.keyMtime)
      | .chainRead certMtime keyMtime chain => Old d.stamp certMtime ∧ Old d.stamp keyMtime ∧
          (Stale d.cert st.certMtime ∨ Stale d.key st.keyMtime) ∧
          ∃ cert, readChain P certPath (.ok cert) = .ok chain ∧ Unwritten d.cert certMtime cert

/-- No write falls between a read of the load and the stat of the same file; and where a due check behind a
failed build finds both times as they are recorded, neither is that of a missing file. -/
def undisturbed (s : Server κ) (e : TerminatorEvent) : Bool :=
  match s.activity, e with
  | .loading (.chainRead _), .write .cert _ => false
  | .loading (.built _), .write _ _ => false
  | .loading (.certStated ..), .write .key _ => false
  | .running st (.certStated certMtime), .proceed _ =>
    !(st.reloadFailureLogged && certMtime == st.certMtime && s.disk.key.mtime == st.keyMtime &&
      (certMtime.isNone || s.disk.key.mtime.isNone))
  | _, _ => true

variable {P certPath keyPath} {d : Disk} {st : TerminatorState κ} {w : Written} {which : PairFile}

theorem ServedInv.write (h : ServedInv P certPath keyPath d st) :
    ServedInv P certPath keyPath (d.write w which) st := by
  obtain ⟨cert, key, hbuilt, hcert, hkey⟩ := h.built
  exact ⟨⟨cert, key, hbuilt, Unwritten.write .cert hcert h.oldCert,
    Unwritten.write .key hkey h.oldKey⟩, h.oldCert.write, h.oldKey.write⟩

theorem activityInv_write {a : Activity κ} (hi : ActivityInv P certPath keyPath d a)
    (hok : undisturbed ⟨d, a⟩ (.write which w) = true) :
    ActivityInv P certPath keyPath (d.write w which) a := by
  cases a with
  | loadFailed e => trivial
  | loading stage =>
    cases stage with
    | start => trivial
    | chainRead chain =>
      cases which with
      | cert => cases hok
      | key => exact hi
    | built config => cases which <;> cases hok
    | certStated config certMtime =>
      cases which with
      | cert =>
        obtain ⟨cert, key, hbuilt, hcert, hold, hkey⟩ := hi
        exact ⟨cert, key, hbuilt, Unwritten.write .cert hcert hold, hold.write, hkey⟩
      | key => cases hok
  | running st stage =>
    obtain ⟨hserved, hfailed, hstage⟩ := hi
    have hcertStale (h : Stale d.cert st.certMtime) : Stale (d.write w which).cert st.certMtime :=
      Stale.write .cert h hserved.oldCert
    have hkeyStale (h : Stale d.key st.keyMtime) : Stale (d.write w which).key st.keyMtime :=
      Stale.write .key h hserved.oldKey
    refine ⟨hserved.write, fun hlogged => (hfailed hlogged).imp hcertStale hkeyStale, ?_⟩
    cases stage with
    | idle => trivial
    | due => trivial
    | certStated certMtime =>
      obtain ⟨hold, hdiffers, hretry⟩ := hstage
      exact ⟨hold.write, fun hne => hcertStale (hdiffers hne),
        fun hlogged => (hretry hlogged).imp id hkeyStale⟩
    | changed certMtime keyMtime =>
      obtain ⟨holdCert, holdKey, hstale⟩ := hstage
      exact ⟨holdCert.write, holdKey.write, hstale.imp hcertStale hkeyStale⟩
    | chainRead certMtime keyMtime chain =>
      obtain ⟨holdCert, holdKey, hstale, cert, hchain, hcert⟩ := hstage
      exact ⟨holdCert.write, holdKey.write, hstale.imp hcertStale hkeyStale, cert, hchain,
        Unwritten.write .cert hcert holdCert⟩

theorem readChain_ok {cert : Except String Bytes} {chain : List Bytes}
    (h : readChain P certPath cert = .ok chain) :
    ∃ bytes, cert = .ok bytes := by
  cases cert with
  | ok bytes => exact ⟨bytes, rfl⟩
  | error e => cases h

theorem finishBuild_ok {chain : List Bytes} {key : Except String Bytes} {config : κ}
    (h : finishBuild P certPath keyPath chain key = .ok config) : ∃ bytes, key = .ok bytes := by
  cases key with
  | ok bytes => exact ⟨bytes, rfl⟩
  | error e => cases h

/-- A build is a read of the chain and what comes behind it. -/
theorem build_of_parts {cert key : Except String Bytes} {chain : List Bytes} {config : κ}
    (hchain : readChain P certPath cert = .ok chain)
    (hbuilt : finishBuild P certPath keyPath chain key = .ok config) :
    buildOriginServerConfig P certPath keyPath cert key = .ok config := by
  unfold buildOriginServerConfig
  rw [hchain]
  exact hbuilt

theorem build_parts {cert key : Except String Bytes} {config : κ}
    (h : buildOriginServerConfig P certPath keyPath cert key = .ok config) :
    ∃ chain, readChain P certPath cert = .ok chain ∧ finishBuild P certPath keyPath chain key =
      .ok config := by
  unfold buildOriginServerConfig at h
  cases hchain : readChain P certPath cert with
  | error e =>
    rw [hchain] at h
    cases h
  | ok chain =>
    rw [hchain] at h
    exact ⟨chain, rfl, h⟩

theorem unwritten_now {f : FileState} {bytes : Bytes} (h : f.bytes = .ok bytes) (mtime : Option ℕ) :
    Unwritten f mtime bytes := by
  intro _ b hb
  rw [h] at hb
  exact (Except.ok.inj hb).symm

theorem activityInv_load (hd : d.Stamped) {stage : Loading κ} (now : ℕ)
    (hi : ActivityInv P certPath keyPath d (.loading stage)) :
    ActivityInv P certPath keyPath d (loadStep P certPath keyPath d now stage) := by
  cases stage with
  | start =>
    cases hchain : readChain P certPath d.cert.bytes with
    | error e =>
      simp only [loadStep, hchain]
      trivial
    | ok chain =>
      obtain ⟨cert, hcert⟩ := readChain_ok hchain
      simp only [loadStep, hchain]
      exact ⟨cert, by rw [← hcert, hchain], hcert⟩
  | chainRead chain =>
    obtain ⟨cert, hchain, hcert⟩ := hi
    cases hbuilt : finishBuild P certPath keyPath chain d.key.bytes with
    | error e =>
      simp only [loadStep, hbuilt]
      trivial
    | ok config =>
      obtain ⟨key, hkey⟩ := finishBuild_ok hbuilt
      simp only [loadStep, hbuilt]
      rw [hkey] at hbuilt
      exact ⟨cert, key, build_of_parts hchain hbuilt, hcert, hkey⟩
  | built config =>
    obtain ⟨cert, key, hbuilt, hcert, hkey⟩ := hi
    exact ⟨cert, key, hbuilt, unwritten_now hcert _, hd.old .cert, hkey⟩
  | certStated config certMtime =>
    obtain ⟨cert, key, hbuilt, hcert, hold, hkey⟩ := hi
    exact ⟨⟨⟨cert, key, hbuilt, hcert, unwritten_now hkey _⟩, hold, hd.old .key⟩, nofun, trivial⟩

/-- A stat that finds another time than the recorded one. -/
theorem stale_of_ne {f : FileState} {mtime recorded : Option ℕ} (hm : f.mtime = mtime)
    (hne : mtime ≠ recorded) :
    Stale f recorded := by
  intro t ht hf
  exact hne (hm.symm.trans (hf.trans ht.symm))

theorem activityInv_check (hd : d.Stamped) {stage : Checking} {a : Activity κ}
    (hi : ActivityInv P certPath keyPath d (.running st stage))
    (h : checkStep P certPath keyPath d st stage = some a) : ActivityInv P certPath keyPath d a := by
  obtain ⟨hserved, hfailed, hstage⟩ := hi
  cases stage with
  | idle => cases h
  | due =>
    cases h
    refine ⟨hserved, hfailed, hd.old .cert, fun hne => stale_of_ne rfl hne, fun hlogged => ?_⟩
    exact (hfailed hlogged).imp id id
  | certStated certMtime =>
    obtain ⟨hold, hdiffers, -⟩ := hstage
    rw [checkStep] at h
    split at h
    · next hne =>
      cases h
      exact ⟨hserved, hfailed, hold, hd.old .key, hne.imp hdiffers (stale_of_ne rfl)⟩
    · cases h
      exact ⟨hserved, hfailed, trivial⟩
  | changed certMtime keyMtime =>
    obtain ⟨holdCert, holdKey, hstale⟩ := hstage
    rw [checkStep] at h
    split at h
    · cases h
      exact ⟨⟨hserved.built, hserved.oldCert, hserved.oldKey⟩, fun _ => hstale, trivial⟩
    · next chain hchain =>
      cases h
      obtain ⟨cert, hcert⟩ := readChain_ok hchain
      exact ⟨hserved, hfailed, holdCert, holdKey, hstale, cert, by rw [← hcert, hchain], unwritten_now hcert _⟩
  | chainRead certMtime keyMtime chain =>
    obtain ⟨holdCert, holdKey, hstale, cert, hchain, hcert⟩ := hstage
    rw [checkStep] at h
    split at h
    · cases h
      exact ⟨⟨hserved.built, hserved.oldCert, hserved.oldKey⟩, fun _ => hstale, trivial⟩
    · next config hbuilt =>
      cases h
      obtain ⟨key, hkey⟩ := finishBuild_ok hbuilt
      rw [hkey] at hbuilt
      exact ⟨⟨⟨cert, key, build_of_parts hchain hbuilt, hcert, unwritten_now hkey _⟩, holdCert, holdKey⟩,
        nofun,
        trivial⟩

end

def TerminatorEvent.isWrite : TerminatorEvent → Bool
  | .write _ _ => true
  | _ => false

section
variable {κ : Type} (P : PairParser κ) (certPath keyPath : String)

/-- A load in front of files that are still to be written. -/
def Server.start : Server κ := ⟨⟨⟨none, .error "missing"⟩, ⟨none, .error "missing"⟩, 0⟩, .loading .start⟩

structure Server.Inv (s : Server κ) : Prop where
  stamped : s.disk.Stamped
  activity : ActivityInv P certPath keyPath s.disk s.activity

/-- On files that stay, which are the pair of `config`: what a check that began on them has found. -/
def Settled (files : Disk) (chain : List Bytes) (config : κ) (s : Server κ) : Prop :=
  s.disk = files ∧
    match s.activity with
    | .running st .idle => st.config = config
    | .running _ .due | .running _ (.changed _ _) => True
    | .running _ (.certStated certMtime) => certMtime = files.cert.mtime
    | .running _ (.chainRead _ _ c) => c = chain
    | _ => False

variable {P certPath keyPath} {s s' : Server κ} {e : TerminatorEvent}

theorem inv_start : (Server.start (κ := κ)).Inv P certPath keyPath := by
  refine ⟨⟨fun f => ?_⟩, trivial⟩
  cases f <;> exact nofun

/-- The same times and the same config, at another reading of the clock. -/
theorem activityInv_acceptor {d : Disk} {st : TerminatorState κ} (checkedAt : ℕ)
    (hi : ActivityInv P certPath keyPath d (.running st .idle)) :
    ActivityInv P certPath keyPath d (.running { st with lastCheck := checkedAt } .due) :=
  ⟨⟨hi.1.built, hi.1.oldCert, hi.1.oldKey⟩, hi.2.1, trivial⟩

theorem Server.Inv.step (hi : s.Inv P certPath keyPath) (hok : e.isWrite = true → undisturbed s e = true)
    (h : s.step P certPath keyPath e = some s') : s'.Inv P certPath keyPath := by
  obtain ⟨d, a⟩ := s
  cases e with
  | write which w =>
    cases h
    exact ⟨hi.stamped.write, activityInv_write hi.activity (hok rfl)⟩
  | proceed now =>
    cases a with
    | loading stage =>
      cases h
      exact ⟨hi.stamped, activityInv_load hi.stamped now hi.activity⟩
    | loadFailed error => cases h
    | running st stage =>
      obtain ⟨a, ha, rfl⟩ := Option.map_eq_some_iff.mp h
      exact ⟨hi.stamped, activityInv_check hi.stamped hi.activity ha⟩
  | acceptor now checkedAt =>
    cases a with
    | loading stage => cases h
    | loadFailed error => cases h
    | running st stage =>
      cases stage with
      | idle =>
        simp only [Server.step] at h
        split at h
        · cases h
          exact ⟨hi.stamped, activityInv_acceptor checkedAt hi.activity⟩
        · cases h
          exact hi
      | due => cases h
      | certStated certMtime => cases h
      | changed certMtime keyMtime => cases h
      | chainRead certMtime keyMtime chain => cases h

section
variable {chain : List Bytes} {config : κ}

/-- A check that finds the recorded times serves what these files hold already. -/
theorem served_of_same_times {d : Disk} {st : TerminatorState κ} (hi : ServedInv P certPath keyPath d st)
    (hbuilt : buildOriginServerConfig P certPath keyPath d.cert.bytes d.key.bytes = .ok config)
    (hcert : d.cert.mtime = st.certMtime) (hkey : d.key.mtime = st.keyMtime) : st.config = config := by
  obtain ⟨cert, key, hserved, hcertSame, hkeySame⟩ := hi.built
  obtain ⟨chain, hchain, hfinish⟩ := build_parts hbuilt
  obtain ⟨certNow, hcertNow⟩ := readChain_ok hchain
  obtain ⟨keyNow, hkeyNow⟩ := finishBuild_ok hfinish
  have h₁ : certNow = cert := hcertSame hcert certNow hcertNow
  have h₂ : keyNow = key := hkeySame hkey keyNow hkeyNow
  rw [hcertNow, hkeyNow, h₁, h₂, hserved] at hbuilt
  exact Except.ok.inj hbuilt

theorem Settled.step {files : Disk} (hs : Settled files chain config s) (hi : s.Inv P certPath keyPath)
    (hchain : readChain P certPath files.cert.bytes = .ok chain)
    (hfinish : finishBuild P certPath keyPath chain files.key.bytes = .ok config) (he : e.isWrite = false)
    (h : s.step P certPath keyPath e = some s') : Settled files chain config s' := by
  obtain ⟨d, a⟩ := s
  obtain ⟨rfl, hstage⟩ := hs
  cases a with
  | loading stage => cases hstage
  | loadFailed error => cases hstage
  | running st stage =>
    cases e with
    | write which w => cases he
    | acceptor now checkedAt =>
      cases stage with
      | idle =>
        simp only [Server.step] at h
        split at h
        · cases h
          exact ⟨rfl, trivial⟩
        · cases h
          exact ⟨rfl, hstage⟩
      | due => cases h
      | certStated certMtime => cases h
      | changed certMtime keyMtime => cases h
      | chainRead certMtime keyMtime c => cases h
    | proceed now =>
      obtain ⟨a, ha, rfl⟩ := Option.map_eq_some_iff.mp h
      cases stage with
      | idle => cases ha
      | due =>
        cases ha
        exact ⟨rfl, rfl⟩
      | certStated certMtime =>
        rw [checkStep] at ha
        split at ha
        · cases ha
          exact ⟨rfl, trivial⟩
        · next hsame =>
          cases ha
          obtain ⟨hcert, hkey⟩ := not_or.mp hsame
          have hnow : certMtime = d.cert.mtime := hstage
          exact ⟨rfl, served_of_same_times hi.activity.1 (build_of_parts hchain hfinish)
            (hnow.symm.trans (not_not.mp hcert)) (not_not.mp hkey)⟩
      | changed certMtime keyMtime =>
        dsimp only at hchain
        rw [checkStep, hchain] at ha
        cases ha
        exact ⟨rfl, rfl⟩
      | chainRead certMtime keyMtime c =>
        have hc : c = chain := hstage
        dsimp only at hfinish
        rw [checkStep, hc, hfinish] at ha
        cases ha
        exact ⟨rfl, rfl⟩

/-- A check that is due is over within four steps of its own. -/
theorem check_ends (now : ℕ) {d : Disk} {st : TerminatorState κ} : ∃ n ≤ 4, ∃ st',
    run (Server.step P certPath keyPath) ⟨d, .running st .due⟩ (List.replicate n (.proceed now)) =
      some ⟨d, .running st' .idle⟩ := by
  by_cases hsame : d.cert.mtime ≠ st.certMtime ∨ d.key.mtime ≠ st.keyMtime
  · cases hchain : readChain P certPath d.cert.bytes with
    | error error =>
      refine ⟨3, by decide, st.failed, ?_⟩
      simp [run, Server.step, checkStep, hsame, hchain]
    | ok chain =>
      cases hfinish : finishBuild P certPath keyPath chain d.key.bytes with
      | error error =>
        refine ⟨4, by decide, st.failed, ?_⟩
        simp [run, Server.step, checkStep, hsame, hchain, hfinish]
      | ok config =>
        refine ⟨4, by decide, ⟨config, d.cert.mtime, d.key.mtime, st.lastCheck, false⟩, ?_⟩
        simp [run, Server.step, checkStep, hsame, hchain, hfinish]
  · refine ⟨2, by decide, st, ?_⟩
    simp [run, Server.step, checkStep, hsame]

end

end

section
variable {κ : Type}

/-- A due check starts on these files and they stay: it ends, and wherever no check is under way from there on,
the config of these files is served. -/
def ServesPairOnDisk (P : PairParser κ) (certPath keyPath : String) (s : Server κ) : Prop :=
  ∀ config, buildOriginServerConfig P certPath keyPath s.disk.cert.bytes s.disk.key.bytes = .ok config →
  ∀ calls, (∀ e ∈ calls, e.isWrite = false) → ∀ u, run (Server.step P certPath keyPath) s calls = some u →
  ∀ st now checkedAt, u.activity = .running st .idle → originTlsReloadCheckInterval ≤ now - st.lastCheck →
    ∃ v, u.step P certPath keyPath (.acceptor now checkedAt) = some v ∧
      (∃ n ≤ 4, ∃ t st', run (Server.step P certPath keyPath) v (List.replicate n (.proceed now)) = some t ∧
        t.activity = .running st' .idle) ∧
      ∀ rest, (∀ e ∈ rest, e.isWrite = false) → ∀ t, run (Server.step P certPath keyPath) v rest = some t →
        ∀ st', t.activity = .running st' .idle → st'.config = config

/-- What a step does to the served config: a build that succeeds replaces it, one that fails leaves it. -/
def OnlyBuildsReplace (P : PairParser κ) (certPath keyPath : String) (s : Server κ) : Prop :=
  ∀ st stage e s', s.activity = .running st stage → s.step P certPath keyPath e = some s' →
    ∃ st' stage', s'.activity = .running st' stage' ∧
      ((st'.config = st.config ∧ (st.reloadFailureLogged = true → st'.reloadFailureLogged = true)) ∨
        ∃ certMtime keyMtime chain, stage = .chainRead certMtime keyMtime chain ∧
          finishBuild P certPath keyPath chain s.disk.key.bytes = .ok st'.config)

/-- Behind a failed build, the second step of a check that is due goes on to a build. -/
def RetriesAt (step : Server κ → TerminatorEvent → Option (Server κ)) (s : Server κ) : Prop :=
  ∀ st now checkedAt, s.activity = .running st .idle → st.reloadFailureLogged = true →
    originTlsReloadCheckInterval ≤ now - st.lastCheck →
    ∀ rest t st', run step s (.acceptor now checkedAt :: rest) = some t → t.activity = .running st' .idle →
      ∃ stats behind u, rest = stats ++ behind ∧ (stats.filter fun e => !e.isWrite).length = 2 ∧
        run step s (.acceptor now checkedAt :: stats) = some u ∧
        ∃ st'' certMtime keyMtime, u.activity = .running st'' (.changed certMtime keyMtime)

/-- Two stats of a check that has begun behind a failed build. -/
def Stating (n : ℕ) (s : Server κ) : Prop :=
  ∃ st, st.reloadFailureLogged = true ∧
    ((n = 2 ∧ s.activity = .running st .due) ∨
      (n = 1 ∧ ∃ certMtime, s.activity = .running st (.certStated certMtime)))

variable {P : PairParser κ} {certPath keyPath : String} {s s' : Server κ} {e : TerminatorEvent}

theorem inv_of_run {pre : List TerminatorEvent}
    (hr : run (guarded (Server.step P certPath keyPath) undisturbed) .start pre = some s) :
    s.Inv P certPath keyPath := by
  refine run_invariant _ (Server.Inv P certPath keyPath) ?_ pre .start s inv_start hr
  intro u e v hi hstep
  obtain ⟨hok, hstep⟩ := guarded_eq_some.mp hstep
  exact hi.step (fun _ => hok) hstep

theorem disk_step (he : e.isWrite = false) (h : s.step P certPath keyPath e = some s') : s'.disk = s.disk := by
  obtain ⟨d, a⟩ := s
  cases e with
  | write which w => cases he
  | proceed now =>
    cases a with
    | loading stage =>
      cases h
      rfl
    | loadFailed error => cases h
    | running st stage =>
      obtain ⟨a, -, rfl⟩ := Option.map_eq_some_iff.mp h
      rfl
  | acceptor now checkedAt =>
    simp only [Server.step] at h
    split at h
    · split at h
      · cases h
        rfl
      · cases h
        rfl
    · cases h

theorem Server.Inv.call (hi : s.Inv P certPath keyPath) (he : e.isWrite = false)
    (h : s.step P certPath keyPath e = some s') : s'.Inv P certPath keyPath := by
  apply hi.step _ h
  intro hwrite
  rw [he] at hwrite
  cases hwrite

/-- An acceptor call that finds its check due begins it. -/
theorem acceptor_due {st : TerminatorState κ} {now : ℕ} (checkedAt : ℕ) (ha : s.activity = .running st .idle)
    (hdue : originTlsReloadCheckInterval ≤ now - st.lastCheck) :
    s.step P certPath keyPath (.acceptor now checkedAt) =
      some ⟨s.disk, .running { st with lastCheck := checkedAt } .due⟩ := by
  simp only [Server.step, ha, if_pos hdue]

theorem Server.Inv.serves (hi : s.Inv P certPath keyPath) : ServesPairOnDisk P certPath keyPath s := by
  intro config hbuilt calls hcalls u hu st now checkedAt ha hdue
  have hkept : u.Inv P certPath keyPath ∧ u.disk = s.disk := by
    apply run_invariant_of_mem (P := fun a => a.Inv P certPath keyPath ∧ a.disk = s.disk) _ hcalls ⟨hi, rfl⟩ hu
    intro a e b he ⟨hia, hda⟩ hstep
    exact ⟨hia.call he hstep, (disk_step he hstep).trans hda⟩
  obtain ⟨hiu, hdu⟩ := hkept
  obtain ⟨chain, hchain, hfinish⟩ := build_parts hbuilt
  rw [← hdu] at hchain hfinish
  have hstep : u.step P certPath keyPath (.acceptor now checkedAt) = _ := acceptor_due checkedAt ha hdue
  refine ⟨_, hstep, ?_, ?_⟩
  · obtain ⟨n, hn, st', hends⟩ : ∃ n ≤ 4, ∃ st', run (Server.step P certPath keyPath)
        ⟨u.disk, .running { st with lastCheck := checkedAt } .due⟩ (List.replicate n (.proceed now)) =
          some ⟨u.disk, .running st' .idle⟩ := check_ends now
    exact ⟨n, hn, _, st', hends, rfl⟩
  · intro rest hrest t ht st' hidle
    have hiv := hiu.call rfl hstep
    have hbegun : Settled u.disk chain config ⟨u.disk, .running { st with lastCheck := checkedAt } .due⟩ :=
      ⟨rfl, trivial⟩
    have hsettled : t.Inv P certPath keyPath ∧ Settled u.disk chain config t := by
      apply run_invariant_of_mem (P := fun a => a.Inv P certPath keyPath ∧
        Settled u.disk chain config a) _ hrest
        ⟨hiv, hbegun⟩ ht
      intro a e b he ⟨hia, hsa⟩ hab
      exact ⟨hia.call he hab, hsa.step hia hchain hfinish he hab⟩
    have hstage := hsettled.2.2
    rw [hidle] at hstage
    exact hstage

theorem checkStep_replaces {d : Disk} {st : TerminatorState κ} {stage : Checking} {a : Activity κ}
    (h : checkStep P certPath keyPath d st stage = some a) :
    ∃ st' stage', a = .running st' stage' ∧
      ((st'.config = st.config ∧ (st.reloadFailureLogged = true → st'.reloadFailureLogged = true)) ∨
        ∃ certMtime keyMtime chain, stage = .chainRead certMtime keyMtime chain ∧
          finishBuild P certPath keyPath chain d.key.bytes = .ok st'.config) := by
  cases stage with
  | idle => cases h
  | due =>
    cases h
    exact ⟨st, _, rfl, .inl ⟨rfl, id⟩⟩
  | certStated certMtime =>
    rw [checkStep] at h
    split at h
    · cases h
      exact ⟨st, _, rfl, .inl ⟨rfl, id⟩⟩
    · cases h
      exact ⟨st, _, rfl, .inl ⟨rfl, id⟩⟩
  | changed certMtime keyMtime =>
    rw [checkStep] at h
    split at h
    · cases h
      exact ⟨st.failed, _, rfl, .inl ⟨rfl, fun _ => rfl⟩⟩
    · cases h
      exact ⟨st, _, rfl, .inl ⟨rfl, id⟩⟩
  | chainRead certMtime keyMtime chain =>
    rw [checkStep] at h
    split at h
    · cases h
      exact ⟨st.failed, _, rfl, .inl ⟨rfl, fun _ => rfl⟩⟩
    · next config hbuilt =>
      cases h
      exact ⟨_, _, rfl, .inr ⟨certMtime, keyMtime, chain, rfl, hbuilt⟩⟩

theorem only_builds_replace (s : Server κ) : OnlyBuildsReplace P certPath keyPath s := by
  intro st stage e s' ha h
  obtain ⟨d, a⟩ := s
  cases ha
  cases e with
  | write which w =>
    cases h
    exact ⟨st, stage, rfl, .inl ⟨rfl, id⟩⟩
  | proceed now =>
    obtain ⟨a, ha, rfl⟩ := Option.map_eq_some_iff.mp h
    exact checkStep_replaces ha
  | acceptor now checkedAt =>
    simp only [Server.step] at h
    split at h
    · next st₀ hidle =>
      cases hidle
      split at h
      · cases h
        exact ⟨_, _, rfl, .inl ⟨rfl, id⟩⟩
      · cases h
        exact ⟨_, _, rfl, .inl ⟨rfl, id⟩⟩
    · cases h

/-- What a step of an admitted run does to a check that still has stats in front of it. -/
theorem Stating.step {n : ℕ} (hs : Stating n s) (hi : s.Inv P certPath keyPath)
    (h : guarded (Server.step P certPath keyPath) undisturbed s e = some s') :
    (e.isWrite = true ∧ Stating n s') ∨ (e.isWrite = false ∧ n = 2 ∧ Stating 1 s') ∨
      (e.isWrite = false ∧ n = 1 ∧
        ∃ st certMtime keyMtime, s'.activity = .running st (.changed certMtime keyMtime)) := by
  obtain ⟨hok, h⟩ := guarded_eq_some.mp h
  obtain ⟨d, a⟩ := s
  obtain ⟨st, hlogged, hstage⟩ := hs
  cases e with
  | write which w =>
    cases h
    exact .inl ⟨rfl, st, hlogged, hstage⟩
  | acceptor now checkedAt =>
    rcases hstage with ⟨-, rfl⟩ | ⟨-, certMtime, rfl⟩
    · cases h
    · cases h
  | proceed now =>
    right
    rcases hstage with ⟨rfl, rfl⟩ | ⟨rfl, certMtime, rfl⟩
    · cases h
      exact .inl ⟨rfl, rfl, st, hlogged, .inr ⟨rfl, d.cert.mtime, rfl⟩⟩
    · right
      refine ⟨rfl, rfl, ?_⟩
      have hretry := hi.activity.2.2.2.2 hlogged
      have hdiffers : certMtime ≠ st.certMtime ∨ d.key.mtime ≠ st.keyMtime := by
        by_contra hsame
        obtain ⟨hcert, hkey⟩ := not_or.mp hsame
        rw [not_not] at hcert hkey
        -- both times are as recorded, and one of them is that of a missing file: the condition excludes it
        have hmissing : certMtime = none ∨ d.key.mtime = none := by
          rcases hretry with hgone | hstale
          · left
            apply Option.eq_none_iff_forall_not_mem.mpr
            intro t ht
            exact hgone t (hcert ▸ ht) ht
          · right
            apply Option.eq_none_iff_forall_not_mem.mpr
            intro t ht
            exact hstale t (hkey ▸ ht) ht
        have hnone : (certMtime.isNone || d.key.mtime.isNone) = true := by
          rw [Bool.or_eq_true, Option.isNone_iff_eq_none, Option.isNone_iff_eq_none]
          exact hmissing
        have hcond : undisturbed ⟨d, .running st (.certStated certMtime)⟩ (.proceed now) = false := by
          have hsameCert : (certMtime == st.certMtime) = true := beq_iff_eq.mpr hcert
          have hsameKey : (d.key.mtime == st.keyMtime) = true := beq_iff_eq.mpr hkey
          simp only [undisturbed, hlogged, hsameCert, hsameKey, hnone, Bool.and_self, Bool.not_true]
        rw [hcond] at hok
        cases hok
      simp only [Server.step, checkStep, if_pos hdiffers] at h
      cases h
      exact ⟨st, certMtime, d.key.mtime, rfl⟩

theorem stating_run {n : ℕ} {rest : List TerminatorEvent} {t : Server κ} {st' : TerminatorState κ}
    (hs : Stating n s) (hi : s.Inv P certPath keyPath)
    (hr : run (guarded (Server.step P certPath keyPath) undisturbed) s rest = some t)
    (ht : t.activity = .running st' .idle) :
    ∃ stats behind u, rest = stats ++ behind ∧ (stats.filter fun e => !e.isWrite).length = n ∧
      run (guarded (Server.step P certPath keyPath) undisturbed) s stats = some u ∧
      ∃ st'' certMtime keyMtime, u.activity = .running st'' (.changed certMtime keyMtime) := by
  induction rest generalizing s n with
  | nil =>
    cases hr
    obtain ⟨st, -, ⟨-, hdue⟩ | ⟨-, certMtime, hstated⟩⟩ := hs
    · rw [ht] at hdue
      cases hdue
    · rw [ht] at hstated
      cases hstated
  | cons e rest ih =>
    obtain ⟨v, hv, hr⟩ := (run_cons _ s t e rest).mp hr
    have hiv : v.Inv P certPath keyPath :=
      hi.step (fun _ => (guarded_eq_some.mp hv).1) (guarded_eq_some.mp hv).2
    rcases hs.step hi hv with ⟨hwrite, hs'⟩ | ⟨hcall, rfl, hs'⟩ | ⟨hcall, rfl, hchanged⟩
    · obtain ⟨stats, behind, u, rfl, hlen, hu, hchanged⟩ := ih hs' hiv hr
      refine ⟨e :: stats, behind, u, rfl, ?_, (run_cons _ s u e stats).mpr ⟨v, hv, hu⟩, hchanged⟩
      simpa [hwrite] using hlen
    · obtain ⟨stats, behind, u, rfl, hlen, hu, hchanged⟩ := ih hs' hiv hr
      refine ⟨e :: stats, behind, u, rfl, ?_, (run_cons _ s u e stats).mpr ⟨v, hv, hu⟩, hchanged⟩
      simpa [hcall] using hlen
    · refine ⟨[e], rest, v, rfl, ?_, (run_cons _ s v e []).mpr ⟨v, hv, rfl⟩, hchanged⟩
      simp [hcall]

theorem Server.Inv.retries (hi : s.Inv P certPath keyPath) :
    RetriesAt (guarded (Server.step P certPath keyPath) undisturbed) s := by
  intro st now checkedAt ha hlogged hdue rest t st' hr ht
  obtain ⟨v, hv, hr⟩ := (run_cons _ s t _ rest).mp hr
  have hstep := (guarded_eq_some.mp hv).2
  have hbegun : s.step P certPath keyPath (.acceptor now checkedAt) = _ := acceptor_due checkedAt ha hdue
  have hstating : Stating 2 v := by
    rw [hbegun] at hstep
    cases hstep
    exact ⟨{ st with lastCheck := checkedAt }, hlogged, .inl ⟨rfl, rfl⟩⟩
  obtain ⟨stats, behind, u, hrest, hlen, hu, hchanged⟩ := stating_run hstating (hi.call rfl hstep) hr ht
  exact ⟨stats, behind, u, hrest, hlen, (run_cons _ s u _ stats).mpr ⟨v, hv, hu⟩, hchanged⟩

/-- Over every run of writes, load steps and acceptor calls that keeps to the condition. -/
theorem terminator_serves_pair_on_disk (P : PairParser κ) (certPath keyPath : String)
    (pre : List TerminatorEvent)
    (s : Server κ) (hr : run (guarded (Server.step P certPath keyPath) undisturbed) .start pre = some s) :
    ServesPairOnDisk P certPath keyPath s ∧ OnlyBuildsReplace P certPath keyPath s ∧
      RetriesAt (guarded (Server.step P certPath keyPath) undisturbed) s := by
  have hi := inv_of_run hr
  exact ⟨hi.serves, only_builds_replace s, hi.retries⟩

end

/-- A chain of one block, taken with the key that is the same block. -/
def samplePairParser : PairParser Bytes where
  parseChain bytes := .ok [bytes]
  parseKey bytes := .ok bytes
  withSingleCert chain key := if chain = [key] then .ok key else .error "the key does not match"

def samplePair (bytes : Bytes) : List TerminatorEvent :=
  [.write .cert (.content bytes), .write .key (.content bytes)]

theorem terminator_serves_pair_on_disk_sample :
    ∃ s, run (guarded (Server.step samplePairParser "cert.pem" "key.pem") undisturbed) .start
        (samplePair [1] ++ List.replicate 4 (.proceed 0) ++ samplePair [2]) = some s ∧
      ServesPairOnDisk samplePairParser "cert.pem" "key.pem" s ∧
      OnlyBuildsReplace samplePairParser "cert.pem" "key.pem" s ∧
      RetriesAt (guarded (Server.step samplePairParser "cert.pem" "key.pem") undisturbed) s :=
  ⟨_, rfl, terminator_serves_pair_on_disk samplePairParser "cert.pem" "key.pem"
    (samplePair [1] ++ List.replicate 4 (.proceed 0) ++ samplePair [2]) _ rfl⟩

/-- A renewal between the build and the stats of a load: its times are recorded beside the old pair, and the
check that is due finds nothing changed. -/
theorem renewal_in_load_never_served :
    ∃ s, run (Server.step samplePairParser "cert.pem" "key.pem") .start
        (samplePair [1] ++ List.replicate 2 (.proceed 0) ++ samplePair [2] ++ List.replicate 2 (.proceed 0)) =
          some s ∧
      ¬ ServesPairOnDisk samplePairParser "cert.pem" "key.pem" s := by
  refine ⟨_, rfl, fun hserves => ?_⟩
  obtain ⟨v, hv, -, hrest⟩ := hserves [2] rfl [] (by simp) _ rfl _ 30 30 rfl (by decide)
  have hcheck : run (Server.step samplePairParser "cert.pem" "key.pem") v (List.replicate 2 (.proceed 30)) =
      some { v with activity := .running ⟨[1], some 2, some 3, 30, false⟩ .idle } := by
    cases hv
    rfl
  have hcalls : ∀ e ∈ List.replicate 2 (TerminatorEvent.proceed 30), e.isWrite = false := by decide
  have hold : ([1] : Bytes) = [2] := hrest (List.replicate 2 (.proceed 30)) hcalls _ hcheck _ rfl
  cases hold

end CtAgent.Serve
