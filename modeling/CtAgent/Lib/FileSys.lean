import CtAgent.Lib.Bytes

/-! Programs on a file system that is a map from paths to contents. Every operation may fail, or the
process may end at it; a triple says what holds when a program is through and what holds wherever it
stops. Since the process may end at every operation, a stop condition holds at every point. -/
namespace CtAgent.Lib

abbrev Files (P : Type) := P → Option Bytes

/-- Why a program stopped: with an error, or with the process. -/
inductive Halt where
  | failed (why : String)
  | died
  deriving DecidableEq, Repr

/-- What happens to one operation. `landed` is how much of its effect took place before. -/
inductive Fault where
  | fine
  | fails (landed : ℕ)
  | dies (landed : ℕ)
  deriving DecidableEq, Repr

def Disk (P α : Type) := Files P → Except Halt α × Files P

namespace Disk

variable {P α β : Type}

def pure (a : α) : Disk P α := fun F => (.ok a, F)

def bind (m : Disk P α) (k : α → Disk P β) : Disk P β := fun F =>
  match m F with
  | (.ok a, F') => k a F'
  | (.error h, F') => (.error h, F')

instance : Monad (Disk P) where
  pure := pure
  bind := bind

def fail (why : String) : Disk P α := fun F => (.error (.failed why), F)

def ofOption (why : String) : Option α → Disk P α
  | some a => pure a
  | none => fail why

/-- An operation from its full effect, which may be refused, and its effect cut short. -/
def act (f : Fault) (cut : ℕ → Files P → Files P) (full : Files P → Option (Files P)) :
    Disk P Unit := fun F =>
  match f with
  | .fine =>
    match full F with
    | some F' => (.ok (), F')
    | none => (.error (.failed "refused"), F)
  | .fails n => (.error (.failed "i/o error"), cut n F)
  | .dies n => (.error .died, cut n F)

/-- `m`, and `cleanup` behind an error of it. What `cleanup` reports is dropped. -/
def onFailure (m : Disk P α) (cleanup : Disk P Unit) : Disk P α := fun F =>
  match m F with
  | (.error (.failed why), F') =>
    match cleanup F' with
    -- the process may end in the cleanup as well
    | (.error .died, F'') => (.error .died, F'')
    | (_, F'') => (.error (.failed why), F'')
  | r => r

/-- The result of `m`, an error included. -/
def attempt (m : Disk P α) : Disk P (Except String α) := fun F =>
  match m F with
  | (.ok a, F') => (.ok (.ok a), F')
  | (.error (.failed why), F') => (.ok (.error why), F')
  | (.error .died, F') => (.error .died, F')

def read (p : P) : Disk P Bytes := fun F =>
  match F p with
  | some bytes => (.ok bytes, F)
  | none => (.error (.failed "not found"), F)

def isThere (p : P) : Disk P Bool := fun F => (.ok (F p).isSome, F)

/-- A step that changes no file: a sync, a directory created. -/
def touch (f : Fault) : Disk P Unit := act f (fun _ F => F) some

variable [DecidableEq P]

/-- `create_new`: refused where the file exists. -/
def createNew (f : Fault) (p : P) : Disk P Unit :=
  act f (fun n F => if n = 0 then F else Function.update F p (some []))
    (fun F => if F p = none then some (Function.update F p (some [])) else none)

/-- The whole contents into a file just created; a cut leaves a part of them. -/
def writeAll (f : Fault) (p : P) (bytes : Bytes) : Disk P Unit :=
  act f (fun n F => Function.update F p (some (bytes.take n)))
    (fun F => some (Function.update F p (some bytes)))

def rename (f : Fault) (src dst : P) : Disk P Unit :=
  act f (fun _ F => F)
    (fun F => (F src).map (fun bytes => Function.update (Function.update F src none) dst (some bytes)))

theorem rename_fine {src dst : P} {bytes : Bytes} {F : Files P} (h : F src = some bytes) :
    rename .fine src dst F = (.ok (), Function.update (Function.update F src none) dst (some bytes)) := by
  simp [rename, act, h]

/-- A file that is not there is no error. -/
def removeIfThere (f : Fault) (p : P) : Disk P Unit :=
  act f (fun _ F => F) (fun F => some (Function.update F p none))

/-- What holds when a program is through, and what holds where it stops. -/
def Triple (pre : Files P → Prop) (m : Disk P α) (post : α → Files P → Prop)
    (stop : Halt → Files P → Prop) : Prop :=
  ∀ F, pre F → match m F with
    | (.ok a, F') => post a F'
    | (.error h, F') => stop h F'

omit [DecidableEq P] in
theorem Triple.pure {a : α} {post : α → Files P → Prop} {stop : Halt → Files P → Prop} :
    Triple (post a) (Pure.pure a : Disk P α) post stop := by
  intro F h
  exact h

omit [DecidableEq P] in
theorem Triple.bind {pre : Files P → Prop} {m : Disk P α} {k : α → Disk P β}
    {R : α → Files P → Prop} {post : β → Files P → Prop} {stop : Halt → Files P → Prop}
    (hm : Triple pre m R stop) (hk : ∀ a, Triple (R a) (k a) post stop) :
    Triple pre (m >>= k) post stop := by
  intro F hF
  have h := hm F hF
  show match Disk.bind m k F with | (.ok a, F') => post a F' | (.error h, F') => stop h F'
  unfold Disk.bind
  rcases hmF : m F with ⟨r, F'⟩
  rw [hmF] at h
  cases r with
  | error e => exact h
  | ok a => exact hk a F' h

omit [DecidableEq P] in
theorem Triple.consequence {pre pre' : Files P → Prop} {m : Disk P α} {post post' : α → Files P → Prop}
    {stop stop' : Halt → Files P → Prop} (hm : Triple pre m post stop)
    (hpre : ∀ F, pre' F → pre F) (hpost : ∀ a F, post a F → post' a F)
    (hstop : ∀ h F, stop h F → stop' h F) : Triple pre' m post' stop' := by
  intro F hF
  have h := hm F (hpre F hF)
  rcases hmF : m F with ⟨r, F'⟩
  rw [hmF] at h
  cases r with
  | error e => exact hstop e F' h
  | ok a => exact hpost a F' h

omit [DecidableEq P] in
theorem bind_eq_ok {m : Disk P α} {k : α → Disk P β} {F F'' : Files P} {b : β} :
    (m >>= k) F = (.ok b, F'') ↔ ∃ a F', m F = (.ok a, F') ∧ k a F' = (.ok b, F'') := by
  show Disk.bind m k F = (.ok b, F'') ↔ _
  unfold Disk.bind
  rcases hm : m F with ⟨r, F'⟩
  cases r <;> simp

omit [DecidableEq P] in
theorem bind_of_ok {m : Disk P α} {k : α → Disk P β} {F F' : Files P} {a : α} (h : m F = (.ok a, F')) :
    (m >>= k) F = k a F' := by
  show Disk.bind m k F = k a F'
  unfold Disk.bind
  rw [h]

omit [DecidableEq P] in
theorem bind_of_error {m : Disk P α} {k : α → Disk P β} {F F' : Files P} {e : Halt}
    (h : m F = (.error e, F')) : (m >>= k) F = (.error e, F') := by
  show Disk.bind m k F = (.error e, F')
  unfold Disk.bind
  rw [h]

omit [DecidableEq P] in
theorem pure_eq_ok {a b : α} {F F' : Files P} :
    (Pure.pure a : Disk P α) F = (.ok b, F') ↔ a = b ∧ F' = F := by
  show (Except.ok a, F) = (.ok b, F') ↔ _
  simp [eq_comm]

omit [DecidableEq P] in
theorem read_eq_ok {p : P} {bytes : Bytes} {F F' : Files P} :
    read p F = (.ok bytes, F') ↔ F p = some bytes ∧ F' = F := by
  unfold read
  cases F p <;> simp [eq_comm]

omit [DecidableEq P] in
theorem ofOption_eq_ok {why : String} {o : Option α} {a : α} {F F' : Files P} :
    ofOption why o F = (.ok a, F') ↔ o = some a ∧ F' = F := by
  cases o <;> simp [ofOption, Disk.pure, Disk.fail, eq_comm]

omit [DecidableEq P] in
theorem isThere_eq_ok {p : P} {b : Bool} {F F' : Files P} :
    isThere p F = (.ok b, F') ↔ (F p).isSome = b ∧ F' = F := by
  unfold isThere
  simp [eq_comm]

/-- A program that changes no file, wherever it stops. -/
def ReadOnly (m : Disk P α) : Prop := ∀ F, (m F).2 = F

omit [DecidableEq P] in
theorem ReadOnly.bind {m : Disk P α} {k : α → Disk P β} (hm : ReadOnly m) (hk : ∀ a, ReadOnly (k a)) :
    ReadOnly (m >>= k) := by
  intro F
  show (Disk.bind m k F).2 = F
  have hF := hm F
  unfold Disk.bind
  rcases hmF : m F with ⟨r, F'⟩
  rw [hmF] at hF
  cases r with
  | error e => exact hF
  | ok a => exact (hk a F').trans hF

omit [DecidableEq P] in
theorem ReadOnly.pure {a : α} : ReadOnly (Pure.pure a : Disk P α) := fun _ => rfl

omit [DecidableEq P] in
theorem ReadOnly.isThere {p : P} : ReadOnly (Disk.isThere p) := fun _ => rfl

omit [DecidableEq P] in
theorem ReadOnly.read {p : P} : ReadOnly (Disk.read p) := by
  intro F
  unfold Disk.read
  cases F p <;> rfl

omit [DecidableEq P] in
theorem ReadOnly.ofOption {why : String} {o : Option α} : ReadOnly (Disk.ofOption why o : Disk P α) := by
  intro F
  cases o <;> rfl

omit [DecidableEq P] in
theorem Triple.of_false {m : Disk P α} {post : α → Files P → Prop} {stop : Halt → Files P → Prop} :
    Triple (fun _ => False) m post stop :=
  fun _ hF => hF.elim

omit [DecidableEq P] in
/-- What holds both at the end and wherever the program stops. -/
theorem Triple.final {pre R : Files P → Prop} {m : Disk P α} (hm : Triple pre m (fun _ => R) (fun _ => R))
    {F : Files P} (hF : pre F) : R (m F).2 := by
  have h := hm F hF
  rcases hmF : m F with ⟨r, F'⟩
  rw [hmF] at h
  cases r with
  | error e => exact h
  | ok a => exact h

section
omit [DecidableEq P]
variable {f : Fault} {cut : ℕ → Files P → Files P} {full : Files P → Option (Files P)}
  {pre post : Files P → Prop} {stop : Halt → Files P → Prop}

/-- An operation: its full effect leads on; refused or cut short, it stops. -/
theorem Triple.act (hfull : ∀ F F', pre F → full F = some F' → post F')
    (hrefused : ∀ F why, pre F → full F = none → stop (.failed why) F)
    (hfails : ∀ n F why, pre F → f = .fails n → stop (.failed why) (cut n F))
    (hdies : ∀ n F, pre F → f = .dies n → stop .died (cut n F)) :
    Triple pre (Disk.act f cut full) (fun _ => post) stop := by
  intro F hF
  unfold Disk.act
  cases hf : f with
  | fine =>
    cases hfu : full F with
    | some F' => exact hfull F F' hF hfu
    | none => exact hrefused F _ hF hfu
  | fails n => exact hfails n F _ hF hf
  | dies n => exact hdies n F hF hf

/-- An operation that is never refused: its whole effect, or the part it got to. -/
theorem Triple.act_whole {whole : Files P → Files P} (hdone : ∀ F, pre F → post (whole F))
    (hstop : ∀ h n F, pre F → stop h (cut n F)) :
    Triple pre (Disk.act f cut (fun F => some (whole F))) (fun _ => post) stop := by
  apply Triple.act
  · intro F F' hF h
    exact Option.some.inj h ▸ hdone F hF
  · intro F why _ h
    exact absurd h (by simp)
  · intro n F why hF _
    exact hstop _ n F hF
  · intro n F hF _
    exact hstop _ n F hF

/-- An operation that nothing goes wrong at and that is not refused. -/
theorem Triple.act_fine (hf : f = .fine) (hfull : ∀ F, pre F → ∃ F', full F = some F' ∧ post F') :
    Triple pre (Disk.act f cut full) (fun _ => post) stop := by
  apply Triple.act
  · intro F F' hF h
    obtain ⟨F'', hF'', hpost⟩ := hfull F hF
    obtain rfl : F'' = F' := Option.some.inj (hF''.symm.trans h)
    exact hpost
  · intro F why hF h
    obtain ⟨F'', hF'', -⟩ := hfull F hF
    exact absurd (hF''.symm.trans h) (by simp)
  · intro n F why _ h
    exact absurd (hf.symm.trans h) (by simp)
  · intro n F _ h
    exact absurd (hf.symm.trans h) (by simp)

/-- An operation at which something goes wrong. -/
theorem Triple.act_faulty (hf : f ≠ .fine) (hstop : ∀ h n F, pre F → stop h (cut n F)) :
    Triple pre (Disk.act f cut full) (fun _ _ => False) stop := by
  intro F hF
  unfold Disk.act
  cases f with
  | fine => exact absurd rfl hf
  | fails n => exact hstop _ n F hF
  | dies n => exact hstop _ n F hF

/-- An operation that leads on met no fault. -/
theorem Triple.act_went_well :
    Triple pre (Disk.act f cut full) (fun _ _ => f = .fine) (fun _ _ => True) := by
  intro F _
  unfold Disk.act
  cases f with
  | fine => cases full F <;> trivial
  | fails n => trivial
  | dies n => trivial

/-- A step that changes no file. -/
theorem Triple.touch (hfails : ∀ n F why, pre F → f = .fails n → stop (.failed why) F)
    (hdies : ∀ F, pre F → stop .died F) :
    Triple pre (Disk.touch f) (fun _ => pre) stop := by
  apply Triple.act
  · intro F F' hF h
    exact Option.some.inj h ▸ hF
  · intro F why _ h
    exact absurd h (by simp)
  · exact hfails
  · intro _ F hF _
    exact hdies F hF

end

section
variable {f : Fault} {pre post : Files P → Prop} {stop : Halt → Files P → Prop}

theorem Triple.createNew {p : P} (hdone : ∀ F, pre F → post (Function.update F p (some [])))
    (hstop : ∀ h F, pre F → stop h F ∧ stop h (Function.update F p (some []))) :
    Triple pre (Disk.createNew f p) (fun _ => post) stop := by
  apply Triple.act
  · intro F F' hF h
    split at h
    · exact Option.some.inj h ▸ hdone F hF
    · cases h
  · intro F why hF _
    exact (hstop _ F hF).1
  · intro n F why hF _
    split
    · exact (hstop _ F hF).1
    · exact (hstop _ F hF).2
  · intro n F hF _
    split
    · exact (hstop _ F hF).1
    · exact (hstop _ F hF).2

theorem Triple.writeAll {p : P} {bytes : Bytes}
    (hdone : ∀ F, pre F → post (Function.update F p (some bytes)))
    (hstop : ∀ h n F, pre F → stop h (Function.update F p (some (bytes.take n)))) :
    Triple pre (Disk.writeAll f p bytes) (fun _ => post) stop :=
  Triple.act_whole hdone hstop

theorem Triple.rename {src dst : P}
    (hdone : ∀ F bytes, pre F → F src = some bytes →
      post (Function.update (Function.update F src none) dst (some bytes)))
    (hstop : ∀ h F, pre F → stop h F) :
    Triple pre (Disk.rename f src dst) (fun _ => post) stop := by
  apply Triple.act
  · intro F F' hF h
    obtain ⟨bytes, hsrc, rfl⟩ := Option.map_eq_some_iff.mp h
    exact hdone F bytes hF hsrc
  · intro F why hF _
    exact hstop _ F hF
  · intro _ F why hF _
    exact hstop _ F hF
  · intro _ F hF _
    exact hstop _ F hF

/-- The rename of a file that is there stops at a fault only. -/
theorem Triple.rename_there {src dst : P} {bytes : Bytes}
    (hdone : ∀ F, pre F → F src = some bytes ∧
      post (Function.update (Function.update F src none) dst (some bytes)))
    (hstop : ∀ h F, pre F → f ≠ .fine → stop h F) :
    Triple pre (Disk.rename f src dst) (fun _ => post) stop := by
  apply Triple.act
  · intro F F' hF h
    obtain ⟨hsrc, hpost⟩ := hdone F hF
    rw [hsrc, Option.map_some, Option.some.injEq] at h
    exact h ▸ hpost
  · intro F why hF h
    rw [(hdone F hF).1] at h
    exact absurd h (by simp)
  · rintro n F why hF rfl
    exact hstop _ F hF (by simp)
  · rintro n F hF rfl
    exact hstop _ F hF (by simp)

theorem Triple.removeIfThere {p : P} (hdone : ∀ F, pre F → post (Function.update F p none))
    (hstop : ∀ h F, pre F → stop h F) :
    Triple pre (Disk.removeIfThere f p) (fun _ => post) stop := by
  apply Triple.act
  · intro F F' hF h
    exact Option.some.inj h ▸ hdone F hF
  · intro F why _ h
    exact absurd h (by simp)
  · intro _ F why hF _
    exact hstop _ F hF
  · intro _ F hF _
    exact hstop _ F hF

end

omit [DecidableEq P] in
theorem Triple.of_forall {pre : Files P → Prop} {m : Disk P α} {post : α → Files P → Prop}
    {stop : Halt → Files P → Prop} (h : ∀ F, pre F → Triple (· = F) m post stop) :
    Triple pre m post stop :=
  fun F hF => h F hF F rfl

omit [DecidableEq P] in
/-- A clean-up that keeps the stop condition leaves it in place. -/
theorem Triple.onFailure {pre S : Files P → Prop} {m : Disk P α} {cleanup : Disk P Unit}
    {post : α → Files P → Prop} (hm : Triple pre m post (fun _ => S))
    (hc : Triple S cleanup (fun _ => S) (fun _ => S)) :
    Triple pre (Disk.onFailure m cleanup) post (fun _ => S) := by
  intro F hF
  have h := hm F hF
  unfold Disk.onFailure
  rcases hmF : m F with ⟨r, F'⟩
  rw [hmF] at h
  rcases r with (why | _) | a
  · have h' := hc F' h
    rcases hcF : cleanup F' with ⟨r', F''⟩
    rw [hcF] at h'
    rcases r' with (why' | _) | ⟨⟩ <;> simpa [hcF] using h'
  · exact h
  · exact h

omit [DecidableEq P] in
theorem Triple.and {pre : Files P → Prop} {m : Disk P α} {post post' : α → Files P → Prop}
    {stop stop' : Halt → Files P → Prop} (h : Triple pre m post stop) (h' : Triple pre m post' stop') :
    Triple pre m (fun a F => post a F ∧ post' a F) (fun e F => stop e F ∧ stop' e F) := by
  intro F hF
  have hm := h F hF
  have hm' := h' F hF
  rcases hmF : m F with ⟨r, F'⟩
  rw [hmF] at hm hm'
  cases r with
  | error e => exact ⟨hm, hm'⟩
  | ok a => exact ⟨hm, hm'⟩

omit [DecidableEq P] in
/-- Where the result of a program is dropped, only the end of the process stops it. -/
theorem Triple.attempt {pre R : Files P → Prop} {m : Disk P α} {stop : Halt → Files P → Prop}
    (hm : Triple pre m (fun _ => R) (fun h F => match h with | .failed _ => R F | .died => stop .died F)) :
    Triple pre (Disk.attempt m) (fun _ => R) stop := by
  intro F hF
  have h := hm F hF
  unfold Disk.attempt
  rcases hmF : m F with ⟨r, F'⟩
  rw [hmF] at h
  rcases r with (why | _) | a
  · exact h
  · exact h
  · exact h

omit [DecidableEq P] in
theorem Triple.read {pre : Files P → Prop} {stop : Halt → Files P → Prop} {p : P}
    (hmissing : ∀ F why, pre F → F p = none → stop (.failed why) F) :
    Triple pre (Disk.read p) (fun bytes F => pre F ∧ F p = some bytes) stop := by
  intro F hF
  unfold Disk.read
  cases hp : F p with
  | some bytes => exact ⟨hF, hp⟩
  | none => exact hmissing F _ hF hp

omit [DecidableEq P] in
theorem Triple.ofOption {pre : Files P → Prop} {stop : Halt → Files P → Prop} {why : String}
    {o : Option α} (hnone : ∀ F, pre F → o = none → stop (.failed why) F) :
    Triple pre (Disk.ofOption why o) (fun a F => pre F ∧ o = some a) stop := by
  intro F hF
  cases o with
  | some a => exact ⟨hF, rfl⟩
  | none => exact hnone F hF rfl

/-! Files that grow. -/

/-- What a file holds, nothing where it is not there. -/
def bytesAt (F : Files P) (p : P) : Bytes := (F p).getD []

/-- `metadata(p).len()`, 0 for a file that is not there. -/
def lengthOf (p : P) : Disk P ℕ := fun F => (.ok (bytesAt F p).length, F)

/-- Opened for appending, created where it is not there. -/
def openAppend (f : Fault) (p : P) : Disk P Unit :=
  act f (fun n F => if n = 0 then F else Function.update F p (some (bytesAt F p)))
    (fun F => some (Function.update F p (some (bytesAt F p))))

/-- Bytes behind what the file holds; a cut leaves the first of them there. -/
def appendTo (f : Fault) (p : P) (bytes : Bytes) : Disk P Unit :=
  act f (fun n F => Function.update F p (some (bytesAt F p ++ bytes.take n)))
    (fun F => some (Function.update F p (some (bytesAt F p ++ bytes))))

theorem bytesAt_update (F : Files P) (p : P) (bytes : Bytes) :
    bytesAt (Function.update F p (some bytes)) p = bytes := by
  rw [bytesAt, Function.update_self, Option.getD_some]

theorem bytesAt_update_of_ne {F : Files P} {p q : P} (h : q ≠ p) (c : Option Bytes) :
    bytesAt (Function.update F p c) q = bytesAt F q := by
  rw [bytesAt, Function.update_of_ne h, bytesAt]

section
variable {f : Fault} {pre post : Files P → Prop} {stop : Halt → Files P → Prop}

omit [DecidableEq P] in
theorem Triple.lengthOf {p : P} :
    Triple pre (Disk.lengthOf p) (fun n F => pre F ∧ n = (bytesAt F p).length) stop := by
  intro F hF
  exact ⟨hF, rfl⟩

theorem Triple.openAppend {p : P}
    (hdone : ∀ F, pre F → post (Function.update F p (some (bytesAt F p))))
    (hstop : ∀ h F, pre F → stop h F ∧ stop h (Function.update F p (some (bytesAt F p)))) :
    Triple pre (Disk.openAppend f p) (fun _ => post) stop := by
  apply Triple.act_whole hdone
  intro h n F hF
  split
  · exact (hstop h F hF).1
  · exact (hstop h F hF).2

theorem Triple.appendTo {p : P} {bytes : Bytes}
    (hdone : ∀ F, pre F → post (Function.update F p (some (bytesAt F p ++ bytes))))
    (hstop : ∀ h n F, pre F → stop h (Function.update F p (some (bytesAt F p ++ bytes.take n)))) :
    Triple pre (Disk.appendTo f p bytes) (fun _ => post) stop :=
  Triple.act_whole hdone hstop

end

/-- Two file systems that differ at most at the listed paths. -/
def AgreeOff (ps : List P) (F F' : Files P) : Prop := ∀ p, p ∉ ps → F' p = F p

omit [DecidableEq P] in
theorem AgreeOff.refl (ps : List P) (F : Files P) : AgreeOff ps F F := fun _ _ => rfl

omit [DecidableEq P] in
theorem AgreeOff.mono {ps qs : List P} {F F' : Files P} (h : AgreeOff ps F F') (hsub : ps ⊆ qs) :
    AgreeOff qs F F' :=
  fun p hp => h p (fun hmem => hp (hsub hmem))

omit [DecidableEq P] in
theorem AgreeOff.trans {ps : List P} {F F' F'' : Files P} (h : AgreeOff ps F F') (h' : AgreeOff ps F' F'') :
    AgreeOff ps F F'' :=
  fun p hp => (h' p hp).trans (h p hp)

theorem AgreeOff.update {ps : List P} {F F' : Files P} {p : P} (h : AgreeOff ps F F')
    (hp : p ∈ ps) (c : Option Bytes) : AgreeOff ps F (Function.update F' p c) := by
  intro q hq
  have hne : q ≠ p := fun he => hq (he ▸ hp)
  rw [Function.update_of_ne hne]
  exact h q hq

end Disk

end CtAgent.Lib
