import CtAgent.Lib.History
import CtAgent.Lib.NetAddr

/-! `connect_origin` (serve.rs) over a `DialTarget` and the process-wide table of learned addresses
(config.rs), for concurrent calls. -/
namespace CtAgent.Serve

open CtAgent.Lib

/-- `LEARNED_ADDRS`. -/
abbrev LearnedAddrs := List (String × SocketAddr)

def learnedAddr (learned : LearnedAddrs) (host : String) : Option SocketAddr :=
  (learned.find? (fun p => p.1 = host)).map Prod.snd

def rememberAddr : LearnedAddrs → String → SocketAddr → LearnedAddrs
  | [], host, addr => [(host, addr)]
  | p :: rest, host, addr =>
    if p.1 = host then (p.1, addr) :: rest else p :: rememberAddr rest host addr

structure DialTarget where
  startup : SocketAddr
  /-- the configured `host:port`; none for an IP literal -/
  host : Option String
  deriving DecidableEq, Repr

/-- `DialTarget::current`. -/
def DialTarget.current (T : DialTarget) (learned : LearnedAddrs) : SocketAddr :=
  match T.host with
  | some host => (learnedAddr learned host).getD T.startup
  | none => T.startup

/-- Where one `connect_origin` stands. -/
inductive DialPhase
  | idle
  /-- dialing what `current` gave -/
  | dialing (addr : SocketAddr)
  /-- the dial failed -/
  | failed (addr : SocketAddr)
  /-- `resolve_again` has read `current` once more and waits for the resolver -/
  | lookingUp (addr known : SocketAddr)
  /-- the address moved; it is not in the table yet -/
  | moved (host : String) (addr : SocketAddr)
  | redialing (addr : SocketAddr)
  | returned (ok : Bool)
  deriving DecidableEq, Repr

/-- A call, with what it did so far: the addresses it dialed and the answer to its lookup. -/
structure Call where
  phase : DialPhase := .idle
  first : Option SocketAddr := none
  answer : Option (List SocketAddr) := none
  second : Option SocketAddr := none
  deriving DecidableEq, Repr

/-- Any number of calls over one table. -/
structure Dials where
  learned : LearnedAddrs
  call : ℕ → Call := fun _ => {}

inductive DialStep
  | current
  | dialed (ok : Bool)
  | known
  /-- none: the resolver failed or timed out -/
  | lookup (answer : Option (List SocketAddr))
  | remember
  | redialed (ok : Bool)
  deriving DecidableEq, Repr

/-- A step of one call: the call and the table behind it. -/
def Call.next (T : DialTarget) (learned : LearnedAddrs) (k : Call) : DialStep → Option (Call × LearnedAddrs)
  | .current =>
    match k.phase with
    | .idle =>
      let addr := T.current learned
      -- the lock is released before the dial: another call may learn in between
      some ({ k with phase := .dialing addr, first := some addr }, learned)
    | _ => none
  | .dialed ok =>
    match k.phase with
    | .dialing addr => some ({ k with phase := if ok then .returned true else .failed addr }, learned)
    | _ => none
  | .known =>
    match k.phase, T.host with
    -- an IP literal is never looked up
    | .failed _, none => some ({ k with phase := .returned false }, learned)
    | .failed addr, some _ => some ({ k with phase := .lookingUp addr (T.current learned) }, learned)
    | _, _ => none
  | .lookup answer =>
    match k.phase, T.host with
    | .lookingUp _ known, some host =>
      match answer with
      | some (a :: rest) =>
        -- the test is for the address re-read, not for the one dialed
        if known ∈ a :: rest then some ({ k with phase := .returned false, answer := answer }, learned)
        else some ({ k with phase := .moved host a, answer := answer }, learned)
      -- a lookup that fails or is empty leaves the error of the dial
      | _ => some ({ k with phase := .returned false, answer := answer }, learned)
    | _, _ => none
  | .remember =>
    match k.phase with
    | .moved host addr =>
      some ({ k with phase := .redialing addr, second := some addr }, rememberAddr learned host addr)
    | _ => none
  | .redialed ok =>
    match k.phase with
    | .redialing _ => some ({ k with phase := .returned ok }, learned)
    | _ => none

def Dials.step (T : DialTarget) (S : Dials) (e : ℕ × DialStep) : Option Dials :=
  ((S.call e.1).next T S.learned e.2).map (fun r =>
    { learned := r.2, call := Function.update S.call e.1 r.1 })

/-- The call follows a move: an answer without the address dialed is dialed before an error, and one
with it is not. -/
def Call.Follows (k : Call) : Prop :=
  ∀ a answer, k.first = some a → k.answer = some answer → answer ≠ [] →
    (a ∉ answer → k.phase = .returned false → ∃ x ∈ answer, k.second = some x) ∧
      (a ∈ answer → k.second = none)

/-- Between the two reads of `current` in one call no other call remembers the name. -/
def ReadsUndisturbed (es : List (ℕ × DialStep)) : Prop :=
  ∀ i j pre between post, es = pre ++ (i, .current) :: (between ++ (i, .known) :: post) → j ≠ i →
    (j, .remember) ∉ between

theorem ReadsUndisturbed.front {es : List (ℕ × DialStep)} {e : ℕ × DialStep}
    (h : ReadsUndisturbed (es ++ [e])) : ReadsUndisturbed es := by
  intro i j pre between post hes
  apply h i j pre between (post ++ [e])
  simp [hes]

/-- The phase of a call beside what it did. -/
def Call.Consistent (k : Call) : Prop :=
  match k.phase with
  | .idle => k = {}
  | .dialing addr => k.first = some addr ∧ k.answer = none ∧ k.second = none
  | .failed addr => k.first = some addr ∧ k.answer = none ∧ k.second = none
  | .lookingUp addr known => known = addr ∧ k.first = some addr ∧ k.answer = none ∧ k.second = none
  | .moved _ addr => k.second = none ∧ ∃ a answer, k.first = some a ∧ k.answer = some answer ∧
      addr ∈ answer ∧ a ∉ answer
  | .redialing addr => k.second = some addr ∧ ∃ a answer, k.first = some a ∧ k.answer = some answer ∧
      addr ∈ answer ∧ a ∉ answer
  | .returned _ => k.Follows

theorem Call.Consistent.follows {k : Call} (h : k.Consistent) : k.Follows := by
  intro a answer ha hans hne
  unfold Call.Consistent at h
  split at h
  · simp [h] at ha
  · simp [h.2.1] at hans
  · simp [h.2.1] at hans
  · simp [h.2.2.1] at hans
  · rename_i hp
    exact ⟨fun _ hr => by simp [hp] at hr, fun _ => h.1⟩
  · rename_i hp
    obtain ⟨-, b, answer', hb, hans', -, hnot⟩ := h
    cases ha.symm.trans hb
    cases hans.symm.trans hans'
    exact ⟨fun _ hr => by simp [hp] at hr, fun hin => absurd hin hnot⟩
  · exact h a answer ha hans hne

/-- What a step of one call can do. -/
inductive Call.Turn (T : DialTarget) (learned : LearnedAddrs) (k : Call) :
    DialStep → Call → LearnedAddrs → Prop
  | current (hp : k.phase = .idle) : k.Turn T learned .current
      { k with phase := .dialing (T.current learned), first := some (T.current learned) } learned
  | connected (addr : SocketAddr) (hp : k.phase = .dialing addr) :
      k.Turn T learned (.dialed true) { k with phase := .returned true } learned
  | failed (addr : SocketAddr) (hp : k.phase = .dialing addr) :
      k.Turn T learned (.dialed false) { k with phase := .failed addr } learned
  | literal (addr : SocketAddr) (hp : k.phase = .failed addr) :
      k.Turn T learned .known { k with phase := .returned false } learned
  | known (addr : SocketAddr) (hp : k.phase = .failed addr) :
      k.Turn T learned .known { k with phase := .lookingUp addr (T.current learned) } learned
  | unanswered (addr known : SocketAddr) (answer : Option (List SocketAddr))
      (hp : k.phase = .lookingUp addr known) (hempty : ∀ answers, answer = some answers → answers = []) :
      k.Turn T learned (.lookup answer) { k with phase := .returned false, answer := answer } learned
  | stayed (addr known : SocketAddr) (answers : List SocketAddr) (hp : k.phase = .lookingUp addr known)
      (hin : known ∈ answers) :
      k.Turn T learned (.lookup (some answers))
        { k with phase := .returned false, answer := some answers } learned
  | moved (addr known a : SocketAddr) (rest : List SocketAddr) (host : String)
      (hp : k.phase = .lookingUp addr known) (hout : known ∉ a :: rest) :
      k.Turn T learned (.lookup (some (a :: rest)))
        { k with phase := .moved host a, answer := some (a :: rest) } learned
  | remember (host : String) (addr : SocketAddr) (hp : k.phase = .moved host addr) :
      k.Turn T learned .remember { k with phase := .redialing addr, second := some addr }
        (rememberAddr learned host addr)
  | redialed (addr : SocketAddr) (ok : Bool) (hp : k.phase = .redialing addr) :
      k.Turn T learned (.redialed ok) { k with phase := .returned ok } learned

theorem Call.next_cases {T : DialTarget} {learned learned' : LearnedAddrs} {k k' : Call} {w : DialStep}
    (hs : k.next T learned w = some (k', learned')) : k.Turn T learned w k' learned' := by
  cases w with
  | current =>
    simp only [Call.next] at hs
    split at hs
    · rename_i hp
      cases hs
      exact .current hp
    · cases hs
  | dialed ok =>
    simp only [Call.next] at hs
    split at hs
    · rename_i addr hp
      cases hs
      cases ok with
      | true => exact .connected addr hp
      | false => exact .failed addr hp
    · cases hs
  | known =>
    simp only [Call.next] at hs
    split at hs
    · rename_i addr hp _
      cases hs
      exact .literal addr hp
    · rename_i addr _ hp _
      cases hs
      exact .known addr hp
    · cases hs
  | lookup answer =>
    simp only [Call.next] at hs
    split at hs
    · rename_i addr known host hp _
      split at hs
      · rename_i a rest
        split at hs
        · rename_i hin
          cases hs
          exact .stayed addr known (a :: rest) hp hin
        · rename_i hout
          cases hs
          exact .moved addr known a rest host hp hout
      · rename_i hnone
        cases hs
        refine .unanswered addr known answer hp ?_
        intro answers hans
        cases answers with
        | nil => rfl
        | cons a rest => exact absurd hans (hnone a rest)
    · cases hs
  | remember =>
    simp only [Call.next] at hs
    split at hs
    · rename_i host addr hp
      cases hs
      exact .remember host addr hp
    · cases hs
  | redialed ok =>
    simp only [Call.next] at hs
    split at hs
    · rename_i addr hp
      cases hs
      exact .redialed addr ok hp
    · cases hs

/-- A step of one call, where a second read gives what the first gave. -/
theorem Call.Consistent.next {T : DialTarget} {S : Dials} {i : ℕ} {w : DialStep} {k : Call}
    {learned : LearnedAddrs} (h : (S.call i).Consistent)
    (hknown : ∀ addr, w = .known → (S.call i).phase = .failed addr → T.current S.learned = addr)
    (hs : (S.call i).Turn T S.learned w k learned) : k.Consistent := by
  cases hs with
  | current hp =>
    simp only [Call.Consistent, hp] at h
    simp only [Call.Consistent, h, and_self]
  | connected addr hp =>
    simp only [Call.Consistent, hp] at h
    intro a answer _ hans
    simp [h.2.1] at hans
  | failed addr hp =>
    simp only [Call.Consistent, hp] at h
    exact h
  | literal addr hp =>
    simp only [Call.Consistent, hp] at h
    intro a answer _ hans
    simp [h.2.1] at hans
  | known addr hp =>
    simp only [Call.Consistent, hp] at h
    exact ⟨hknown addr rfl hp, h⟩
  | unanswered addr known answer hp hempty =>
    intro b answers _ hans hne
    exact absurd (hempty answers hans) hne
  | stayed addr known answers hp hin =>
    simp only [Call.Consistent, hp] at h
    obtain ⟨rfl, hfirst, -, hsecond⟩ := h
    -- the address dialed is in the answer: no second dial
    intro b answers' hb hans _
    cases hfirst.symm.trans hb
    cases hans
    exact ⟨fun hnot => absurd hin hnot, fun _ => hsecond⟩
  | moved addr known a rest host hp hout =>
    simp only [Call.Consistent, hp] at h
    obtain ⟨rfl, hfirst, -, hsecond⟩ := h
    exact ⟨hsecond, known, a :: rest, hfirst, rfl, List.mem_cons_self .., hout⟩
  | remember host addr hp =>
    simp only [Call.Consistent, hp] at h
    exact ⟨rfl, h.2⟩
  | redialed addr ok hp =>
    simp only [Call.Consistent, hp] at h
    obtain ⟨hsecond, a, answer, ha, hans, hin, hnot⟩ := h
    intro b answer' hb hans' _
    cases ha.symm.trans hb
    cases hans.symm.trans hans'
    exact ⟨fun _ _ => ⟨addr, hin, hsecond⟩, fun hin' => absurd hin' hnot⟩

/-- A call between its two reads. -/
def DialPhase.reading : DialPhase → Option SocketAddr
  | .dialing addr | .failed addr => some addr
  | _ => none

/-- The address of a call between its two reads came from the first of them, and the table still gives it
where no other call has remembered the name since. -/
def FirstRead (T : DialTarget) (i : ℕ) (es : List (ℕ × DialStep)) (S : Dials) : Prop :=
  ∀ addr, (S.call i).phase.reading = some addr → ∃ pre since, es = pre ++ (i, .current) :: since ∧
    ((∀ j, j ≠ i → (j, .remember) ∉ since) → T.current S.learned = addr)

/-- What a call that is behind its first read keeps over a step of its own, and where it comes from. -/
theorem Call.Turn.reading {T : DialTarget} {learned learned' : LearnedAddrs} {k k' : Call} {w : DialStep}
    {addr : SocketAddr} (hs : k.Turn T learned w k' learned') (hr : k'.phase.reading = some addr) :
    learned' = learned ∧ (w = .current ∧ T.current learned = addr ∨ k.phase.reading = some addr) := by
  cases hs with
  | current hp => exact ⟨rfl, .inl ⟨rfl, Option.some.inj hr⟩⟩
  | failed addr' hp => exact ⟨rfl, .inr (by rw [hp]; exact hr)⟩
  | _ => cases hr

/-- Only a `remember` changes the table. -/
theorem Call.Turn.learned_eq {T : DialTarget} {learned learned' : LearnedAddrs} {k k' : Call} {w : DialStep}
    (hs : k.Turn T learned w k' learned') (hw : w ≠ .remember) : learned' = learned := by
  cases hs with
  | remember => exact absurd rfl hw
  | _ => rfl

theorem FirstRead.step {T : DialTarget} {i : ℕ} {es : List (ℕ × DialStep)} {e : ℕ × DialStep} {S S' : Dials}
    (h : FirstRead T i es S) (hs : S.step T e = some S') : FirstRead T i (es ++ [e]) S' := by
  obtain ⟨⟨k, table⟩, hk, rfl⟩ := Option.map_eq_some_iff.mp hs
  intro addr hr
  by_cases hi : i = e.1
  · subst hi
    simp only [Function.update_self] at hr
    obtain ⟨rfl, hfrom⟩ := (Call.next_cases hk).reading hr
    rcases hfrom with ⟨hw, hcur⟩ | hold
    · exact ⟨es, [], by rw [← hw], fun _ => hcur⟩
    · obtain ⟨pre, since, rfl, hsame⟩ := h addr hold
      refine ⟨pre, since ++ [e], by simp, ?_⟩
      intro hquiet
      exact hsame (fun j hj hmem => hquiet j hj (List.mem_append_left _ hmem))
  · simp only [Function.update_of_ne hi] at hr
    obtain ⟨pre, since, rfl, hsame⟩ := h addr hr
    refine ⟨pre, since ++ [e], by simp, ?_⟩
    intro hquiet
    have hw : e.2 ≠ .remember := by
      intro hw
      exact hquiet e.1 (Ne.symm hi) (List.mem_append_right _ (List.mem_singleton.mpr (by rw [← hw])))
    have htable : table = S.learned := (Call.next_cases hk).learned_eq hw
    subst htable
    exact hsame (fun j hj hmem => hquiet j hj (List.mem_append_left _ hmem))

/-- In a run in which no other call remembers the name between a call's two reads, every call follows a
moved origin. -/
theorem moved_origin_followed {T : DialTarget} {learned : LearnedAddrs} {S : Dials}
    {es : List (ℕ × DialStep)} (hr : run (Dials.step T) { learned := learned } es = some S)
    (hquiet : ReadsUndisturbed es) (i : ℕ) : (S.call i).Follows := by
  have hidle : Call.Consistent {} := by simp [Call.Consistent]
  have hread (j : ℕ) : ∀ {es : List (ℕ × DialStep)} {S : Dials},
      run (Dials.step T) { learned := learned } es = some S → FirstRead T j es S := by
    intro es S hr
    refine run_history ?_ (fun es S e S' _ ih hs => ih.step hs) hr
    intro addr h
    cases h
  have hall : ReadsUndisturbed es → ∀ j, (S.call j).Consistent := by
    refine run_history (I := fun es S => ReadsUndisturbed es → ∀ j, (S.call j).Consistent)
      (fun _ _ => hidle) ?_ hr
    intro es S e S' hes ih hs hquiet j
    obtain ⟨⟨k, table⟩, hk, rfl⟩ := Option.map_eq_some_iff.mp hs
    by_cases hj : j = e.1
    · subst hj
      simp only [Function.update_self]
      apply (ih hquiet.front e.1).next _ (Call.next_cases hk)
      -- the second read: what stands between it and the first is quiet
      intro addr hw hp
      obtain ⟨pre, since, rfl, hsame⟩ := hread e.1 hes addr (by rw [hp]; rfl)
      apply hsame
      intro j hj
      exact hquiet e.1 j pre since [] (by simp [← hw]) hj
    · simp only [Function.update_of_ne hj]
      exact ih hquiet.front j
  exact (hall hquiet i).follows

/-- `10.0.0.host:80`. -/
def sampleAddr (host : UInt8) : SocketAddr := ⟨.v4 ⟨10, 0, 0, host⟩, 80, 0⟩

def sampleTarget : DialTarget := ⟨sampleAddr 1, some "origin:80"⟩

/-- Two calls, one behind the other: the first finds the new address, the second starts from it. -/
def twoCalls : List (ℕ × DialStep) :=
  [(0, .current), (0, .dialed false), (0, .known), (0, .lookup (some [sampleAddr 2])), (0, .remember),
    (0, .redialed false), (1, .current), (1, .dialed true)]

theorem moved_origin_followed_sample : ∃ S,
    run (Dials.step sampleTarget) { learned := [] } twoCalls = some S ∧
    (S.call 0).second = some (sampleAddr 2) ∧ (S.call 1).first = some (sampleAddr 2) ∧
      (S.call 0).Follows := by
  have hcalls : (run (Dials.step sampleTarget) { learned := [] } twoCalls).map
      (fun S => ((S.call 0).second, (S.call 1).first)) = some (some (sampleAddr 2), some (sampleAddr 2)) := by
    decide
  have hquiet : ReadsUndisturbed twoCalls := by
    -- one call alone reads twice, and it alone remembers
    have hone : twoCalls.all (fun e => (e.2 != .known && e.2 != .remember) || e.1 == 0) = true := by decide
    intro i j pre between post hes hj hmem
    have hi := List.all_eq_true.mp hone (i, .known) (by simp [hes])
    have hj' := List.all_eq_true.mp hone (j, .remember) (by simp [hes, hmem])
    simp only [bne_self_eq_false, Bool.false_and, Bool.and_false, Bool.false_or, beq_iff_eq] at hi hj'
    exact hj (hj'.trans hi.symm)
  obtain ⟨S, hS, hx⟩ := Option.map_eq_some_iff.mp hcalls
  obtain ⟨h0, h1⟩ := Prod.mk.inj hx
  exact ⟨S, hS, h0, h1, moved_origin_followed hS hquiet 0⟩

/-- Two calls dial the old address and fail. The second learns the new one before the first reads
`current` again, so that the first takes the new address for the one it dialed, and gives up. -/
theorem burst_gives_up :
    ¬ ∀ (T : DialTarget) (learned : LearnedAddrs) (S : Dials),
      Reachable (Dials.step T) { learned := learned } S → ∀ i, (S.call i).Follows := by
  intro h
  have hcall : (run (Dials.step sampleTarget) { learned := [] }
      [(0, .current), (1, .current), (0, .dialed false), (1, .dialed false), (1, .known),
        (1, .lookup (some [sampleAddr 2])), (1, .remember), (0, .known),
        (0, .lookup (some [sampleAddr 2]))]).map (fun S => S.call 0) =
      some ⟨.returned false, some (sampleAddr 1), some [sampleAddr 2], none⟩ := by decide
  obtain ⟨S, hS, hx⟩ := Option.map_eq_some_iff.mp hcall
  have hf := h sampleTarget [] S ⟨_, hS⟩ 0
  rw [hx] at hf
  obtain ⟨x, -, hx⟩ := (hf (sampleAddr 1) [sampleAddr 2] rfl rfl (by decide)).1 (by decide) rfl
  cases hx

end CtAgent.Serve
