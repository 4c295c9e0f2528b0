import CtAgent.Serve.FallbackWorker

/-! What a worker makes of an edge that refuses its token. -/
namespace CtAgent.Serve

open CtAgent.Lib

/-- Every dial goes through and the edge answers every registration frame with `NO`. -/
def AllRefused (r : Round) : Prop :=
  ∀ addr, (∀ role, (r.answers addr).dial role = none) ∧ ∀ msg, (r.answers addr).reply msg = .NO

/-- The edge answers no registration frame with `NO`. -/
def NeverRefused (r : Round) : Prop := ∀ addr msg, (r.answers addr).reply msg ≠ .NO

/-- A refused token is noticed. An outcome is noted where an attempt's registration is final, with the
flag as it then stands. -/
structure RefusalNoticed (ctx : FallbackCtx) : Prop where
  /-- a budget of three rounds brings at most three final attempts before the view is revoked -/
  revokes : ∀ base max attempts view (rounds : List Round),
    ambiguousRefusalsBeforeRevoked ≤ attempts + 1 →
    rounds.length = ambiguousRefusalsBeforeRevoked → (∀ r ∈ rounds, AllRefused r) →
    ∃ W, run (Worker.step ctx) (Worker.start base max attempts view) rounds = some W ∧
      ∃ k < ambiguousRefusalsBeforeRevoked, (W.feed.noted[k]?).map Prod.snd = some true
  /-- and it stays so, however long the run -/
  stays : ∀ base max attempts view (rounds : List Round) W, (∀ r ∈ rounds, AllRefused r) →
    run (Worker.step ctx) (Worker.start base max attempts view) rounds = some W →
    ∀ k x, W.feed.noted[k]? = some x → ambiguousRefusalsBeforeRevoked ≤ k+1 → x.2 = true
  /-- without a `NO` the worker never sets the view -/
  quiet : ∀ base max attempts view (rounds : List Round) W, (∀ r ∈ rounds, NeverRefused r) →
    run (Worker.step ctx) (Worker.start base max attempts view) rounds = some W →
    (W.feed.view.revoked = true → view.revoked = true) ∧
      ∀ x ∈ W.feed.noted, x.1 = .succeeded ∨ x.1 = .transient

/-- The browser registrations are in use: a browser agent with a hostname. -/
def FallbackCtx.browser (ctx : FallbackCtx) : Bool :=
  ctx.config.browserForward && ctx.config.hostname.isSome

theorem registerOrElse_refused {A : Answers} {register : Role → Except RegisterError Unit} {role : Role}
    {e : RegisterError} (next : RegisterError → Except RegisterEnd Role) (hd : A.dial role = none)
    (hr : register role = .error e) : registerOrElse A register role next = next e := by
  simp only [registerOrElse, hd, hr]

/-- The two tunnel roles type a `NO`. -/
theorem registerRole_plain {ctx : FallbackCtx} {A : Answers} (hb : ctx.browser = false)
    (hd : ∀ role, A.dial role = none) (hr : ∀ msg, A.reply msg = .NO) :
    registerRole ctx A = .error (.final .refused) := by
  have hreg (role : Role) := registerTunnelStreamWithRole_NO A.reply hr ctx.token role
  have hKA : registerOrElse A (registerTunnelStreamWithRole A.reply ctx.token) .K (fun _ =>
      registerOrElse A (registerTunnelStreamWithRole A.reply ctx.token) .A
        (fun e => .error (.final e))) = .error (.final .refused) := by
    rw [registerOrElse_refused _ (hd .K) (hreg .K), registerOrElse_refused _ (hd .A) (hreg .A)]
  unfold FallbackCtx.browser at hb
  unfold registerRole
  split
  · rename_i host hbf hh
    simp [hbf, hh] at hb
  · exact hKA

/-- The browser roles do not. -/
theorem registerRole_browser {ctx : FallbackCtx} {A : Answers} (hb : ctx.browser = true)
    (hd : ∀ role, A.dial role = none) (hr : ∀ msg, A.reply msg = .NO) :
    ∃ text, registerRole ctx A = .error (.final (.other text)) := by
  unfold FallbackCtx.browser at hb
  obtain ⟨hbf, hh⟩ := (Bool.and_eq_true _ _).mp hb
  obtain ⟨host, hh⟩ := Option.isSome_iff_exists.mp hh
  have hreg (role : Role) := registerTunnelStreamBrowserWithRole_NO A.reply hr ctx.token host role
  obtain ⟨tF, hF⟩ := hreg .F
  obtain ⟨tL, hL⟩ := hreg .L
  obtain ⟨tB, hB⟩ := hreg .B
  refine ⟨tB, ?_⟩
  simp only [registerRole, hbf, hh]
  rw [registerOrElse_refused _ (hd .F) hF, registerOrElse_refused _ (hd .L) hL,
    registerOrElse_refused _ (hd .B) hB, ite_self]

/-- A final verdict comes from the role registered last. -/
theorem registerOrElse_final {A : Answers} {register : Role → Except RegisterError Unit} {role : Role}
    {next : RegisterError → Except RegisterEnd Role} {e : RegisterError}
    (h : registerOrElse A register role next = .error (.final e)) :
    ∃ e', register role = .error e' ∧ next e' = .error (.final e) := by
  unfold registerOrElse at h
  split at h
  · simp at h
  · split at h
    · simp at h
    · exact ⟨_, by assumption, h⟩

/-- A typed refusal was a `NO`. -/
theorem registerRole_refused {ctx : FallbackCtx} {A : Answers}
    (h : registerRole ctx A = .error (.final .refused)) : ∃ msg, A.reply msg = .NO := by
  unfold registerRole at h
  split at h
  · rename_i host hbf hh
    -- the last role is B, and its error is never the typed one
    have hLB (h : registerOrElse A (registerTunnelStreamBrowserWithRole A.reply ctx.token host) .L
        (fun _ => registerOrElse A (registerTunnelStreamBrowserWithRole A.reply ctx.token host) .B
          (fun e => .error (.final e))) = .error (.final .refused)) : False := by
      obtain ⟨e, -, h⟩ := registerOrElse_final h
      obtain ⟨e', hB, h⟩ := registerOrElse_final h
      simp only [Except.error.injEq, RegisterEnd.final.injEq] at h
      apply registerTunnelStreamBrowserWithRole_ne_refused A.reply ctx.token host .B
      rw [hB, h]
    dsimp only at h
    split_ifs at h
    · obtain ⟨e, -, h⟩ := registerOrElse_final h
      exact (hLB h).elim
    · exact (hLB h).elim
  · obtain ⟨e, -, h⟩ := registerOrElse_final h
    obtain ⟨e', hA, h⟩ := registerOrElse_final h
    simp only [Except.error.injEq, RegisterEnd.final.injEq] at h
    rw [h] at hA
    exact ⟨_, registerTunnelStreamWithRole_refused hA⟩

theorem connect_plain {ctx : FallbackCtx} {A : Answers} (hb : ctx.browser = false)
    (hd : ∀ role, A.dial role = none) (hr : ∀ msg, A.reply msg = .NO) (F : Feed) :
    tcpConnectRegisterServe ctx A F = (F.note .refusedAmbiguous, .error (.notRegistered .refused)) := by
  simp only [tcpConnectRegisterServe, registerRole_plain hb hd hr]
  rfl

/-- A refused browser registration is taken for a transient failure. -/
theorem connect_browser {ctx : FallbackCtx} {A : Answers} (hb : ctx.browser = true)
    (hd : ∀ role, A.dial role = none) (hr : ∀ msg, A.reply msg = .NO) (F : Feed) :
    ∃ e, tcpConnectRegisterServe ctx A F = (F.note .transient, .error (.notRegistered e)) := by
  obtain ⟨text, h⟩ := registerRole_browser hb hd hr
  refine ⟨.other text, ?_⟩
  simp only [tcpConnectRegisterServe, h]
  rfl

/-- The outcomes of refused attempts, of one kind `o`. -/
theorem walkRungs_refused {ctx : FallbackCtx} {answers : SocketAddr → Answers} {o : RegistrationOutcome}
    (h : ∀ addr F, ∃ e, tcpConnectRegisterServe ctx (answers addr) F =
      (F.note o, .error (.notRegistered e))) (rungs : List SocketAddr) (F : Feed)
    (lastErr : Option RegisterError) :
    ∃ e, walkRungs ctx answers rungs F lastErr =
      ((fun G => Feed.note G o)^[rungs.length] F, .allFailed e) := by
  induction rungs generalizing F lastErr with
  | nil => exact ⟨lastErr, rfl⟩
  | cons addr rest ih =>
    obtain ⟨e, he⟩ := h addr F
    obtain ⟨e', he'⟩ := ih (F.note o) (some e)
    refine ⟨e', ?_⟩
    simp only [walkRungs, he, he', List.length_cons, Function.iterate_succ_apply]

/-- A round of refused attempts: `o` noted once for each rung, and one step of the budget. -/
theorem step_refused {ctx : FallbackCtx} {r : Round} {o : RegistrationOutcome}
    (h : ∀ addr F, ∃ e, tcpConnectRegisterServe ctx (r.answers addr) F =
      (F.note o, .error (.notRegistered e))) {W : Worker} (hW : W.returned = none) :
    ∃ n, 1 ≤ n ∧ W.step ctx r =
      some (Worker.backOff { W with feed := (fun G => Feed.note G o)^[n] W.feed }) := by
  obtain ⟨e, he⟩ := walkRungs_refused h (tcpRungs r.edge ctx.config.fallback443) W.feed none
  refine ⟨(tcpRungs r.edge ctx.config.fallback443).length, ?_, ?_⟩
  · exact List.length_pos_iff.mpr (tcpRungs_ne_nil _ _)
  · simp only [Worker.step, hW, he, Worker.settle]

/-- However a run of refused attempts ends, it noted `o` at least once a round. -/
theorem run_refused_feed {ctx : FallbackCtx} {o : RegistrationOutcome} {rounds : List Round}
    (h : ∀ r ∈ rounds, ∀ addr F, ∃ e, tcpConnectRegisterServe ctx (r.answers addr) F =
      (F.note o, .error (.notRegistered e))) {W W' : Worker}
    (hr : run (Worker.step ctx) W rounds = some W') :
    ∃ n, rounds.length ≤ n ∧ W'.feed = (fun G => Feed.note G o)^[n] W.feed := by
  induction rounds generalizing W with
  | nil =>
    cases hr
    exact ⟨0, le_rfl, rfl⟩
  | cons r rounds ih =>
    obtain ⟨V, hV, hr⟩ := (run_cons _ _ _ _ _).mp hr
    obtain ⟨n, hn, hs⟩ := step_refused (h r (List.mem_cons_self ..)) (Worker.step_returned hV)
    obtain ⟨m, hm, hW'⟩ := ih (fun r' hr' => h r' (List.mem_cons_of_mem r hr')) hr
    have hfeed : V.feed = (fun G => Feed.note G o)^[n] W.feed := by
      rw [← Option.some.inj (hs.symm.trans hV), Worker.backOff_feed]
    refine ⟨m+n, ?_, ?_⟩
    · simp only [List.length_cons]
      omega
    · rw [hW', hfeed, Function.iterate_add_apply]

/-- The budget lasts for one round more than its delays. -/
theorem run_refused_some {ctx : FallbackCtx} {o : RegistrationOutcome} {rounds : List Round}
    (h : ∀ r ∈ rounds, ∀ addr F, ∃ e, tcpConnectRegisterServe ctx (r.answers addr) F =
      (F.note o, .error (.notRegistered e))) {W : Worker} (hW : W.returned = none)
    (hb : rounds.length + W.backoff.attempt ≤ W.backoff.maxAttempts + 1) :
    ∃ W', run (Worker.step ctx) W rounds = some W' := by
  induction rounds generalizing W with
  | nil => exact ⟨W, rfl⟩
  | cons r rounds ih =>
    obtain ⟨n, -, hs⟩ := step_refused (h r (List.mem_cons_self ..)) hW
    set V := Worker.backOff { W with feed := (fun G => Feed.note G o)^[n] W.feed } with hV
    simp only [List.length_cons] at hb
    by_cases hlast : rounds = []
    · subst hlast
      exact ⟨V, by rw [run_cons]; exact ⟨V, hs, rfl⟩⟩
    · have hpos : 0 < rounds.length := List.length_pos_iff.mpr hlast
      have hnext : W.backoff.attempt < W.backoff.maxAttempts := by omega
      have hVb : V.returned = none ∧ V.backoff.attempt = W.backoff.attempt + 1 ∧
          V.backoff.maxAttempts = W.backoff.maxAttempts := by
        simp [hV, Worker.backOff, Backoff.nextDelay, Nat.not_le.mpr hnext, hW]
      obtain ⟨W', hW'⟩ := ih (fun r' hr' => h r' (List.mem_cons_of_mem r hr')) hVb.1
        (by rw [hVb.2.1, hVb.2.2]; omega)
      exact ⟨W', by rw [run_cons]; exact ⟨V, hs, hW'⟩⟩

/-- A feed that noted nothing but ambiguous refusals: from the third on the flag is set. -/
theorem noted_refused {F : Feed} (hF : F.noted = []) (hc : F.tracker.ambiguousRefusals = 0) (n : ℕ) :
    let G := (fun G => Feed.note G .refusedAmbiguous)^[n] F
    G.noted.length = n ∧ G.tracker.ambiguousRefusals = min n (2^32-1) ∧
      ∀ k x, G.noted[k]? = some x → ambiguousRefusalsBeforeRevoked ≤ k+1 → x.2 = true := by
  induction n with
  | zero => simp [hF, hc]
  | succ n ih =>
    obtain ⟨hlen, hcount, hset⟩ := ih
    simp only [Function.iterate_succ_apply']
    set G := (fun G => Feed.note G .refusedAmbiguous)^[n] F
    refine ⟨?_, ?_, ?_⟩
    · simp only [Feed.note, List.length_append, hlen, List.length_singleton]
    · have hsucc : (G.note .refusedAmbiguous).tracker.ambiguousRefusals =
          saturatingSucc G.tracker.ambiguousRefusals := by
        simp only [Feed.note, RevocationTracker.apply]
        split <;> rfl
      rw [hsucc, hcount, saturatingSucc]
      omega
    · intro k x hx hk
      by_cases hkn : k < n
      · apply hset k x _ hk
        rwa [Feed.note, List.getElem?_append_left (by omega)] at hx
      · -- the entry just noted
        have hkn' : k = n := by
          have hlt := (List.getElem?_eq_some_iff.mp hx).1
          simp only [Feed.note, List.length_append, List.length_singleton, hlen] at hlt
          omega
        have hthird : ambiguousRefusalsBeforeRevoked ≤
            saturatingSucc G.tracker.ambiguousRefusals := by
          rw [hcount, saturatingSucc]
          simp only [ambiguousRefusalsBeforeRevoked] at hk ⊢
          omega
        rw [Feed.note, hkn', ← hlen, List.getElem?_concat_length] at hx
        cases hx
        simp only [RevocationTracker.apply, if_pos hthird, RevocationView.set]

/-- What a transient notes leaves the flag. -/
theorem noted_transient (F : Feed) (hF : F.noted = []) (n : ℕ) :
    let G := (fun G => Feed.note G .transient)^[n] F
    G.view = F.view ∧ ∀ x ∈ G.noted, x.2 = F.view.revoked := by
  induction n with
  | zero => simp [hF]
  | succ n ih =>
    obtain ⟨hview, hset⟩ := ih
    simp only [Function.iterate_succ_apply']
    refine ⟨hview, ?_⟩
    intro x hx
    rcases List.mem_append.mp hx with hx | hx
    · exact hset x hx
    · rw [List.mem_singleton.mp hx]
      exact congrArg RevocationView.revoked hview

/-- A feed without a refusal, over a view that was `view`. -/
structure Quiet (view : RevocationView) (F : Feed) : Prop where
  flag : F.view.revoked = true → view.revoked = true
  outcomes : ∀ x ∈ F.noted, x.1 = .succeeded ∨ x.1 = .transient

theorem Quiet.note {view : RevocationView} {F : Feed} (h : Quiet view F) {o : RegistrationOutcome}
    (ho : o = .succeeded ∨ o = .transient) : Quiet view (F.note o) := by
  constructor
  · intro hr
    rcases ho with rfl | rfl
    · simp [Feed.note, RevocationTracker.apply, RevocationView.clear] at hr
    · exact h.flag hr
  · intro x hx
    rcases List.mem_append.mp hx with hx | hx
    · exact h.outcomes x hx
    · rw [List.mem_singleton.mp hx]
      exact ho

theorem Quiet.serveRole {view : RevocationView} {F : Feed} (h : Quiet view F) (ctx : FallbackCtx)
    (A : Answers) (role : Role) : Quiet view (serveRole ctx A F role).1 := by
  have hfire : Quiet view F.fire := ⟨h.flag, h.outcomes⟩
  have hfired : Quiet view (if role.pingCapable then F.fire else F) := by
    split
    · exact hfire
    · exact h
  unfold Serve.serveRole
  split
  · exact h
  · dsimp only
    split
    · exact hfired
    · exact hfired

theorem Quiet.connect {view : RevocationView} {F : Feed} (h : Quiet view F) (ctx : FallbackCtx)
    {A : Answers} (hA : ∀ msg, A.reply msg ≠ .NO) : Quiet view (tcpConnectRegisterServe ctx A F).1 := by
  unfold tcpConnectRegisterServe
  split
  · exact h
  · rename_i e he
    apply h.note
    cases e with
    | refused =>
      obtain ⟨msg, hmsg⟩ := registerRole_refused he
      exact (hA msg hmsg).elim
    | other text => exact .inr rfl
  · exact (h.note (.inl rfl)).serveRole ctx A _

theorem Quiet.walk {view : RevocationView} {ctx : FallbackCtx} {answers : SocketAddr → Answers}
    (hA : ∀ addr msg, (answers addr).reply msg ≠ .NO) (rungs : List SocketAddr) {F : Feed}
    (h : Quiet view F) (lastErr : Option RegisterError) :
    Quiet view (walkRungs ctx answers rungs F lastErr).1 := by
  induction rungs generalizing F lastErr with
  | nil => exact h
  | cons addr rest ih =>
    have hc := h.connect ctx (hA addr)
    unfold walkRungs
    split <;> rename_i heq <;> rw [heq] at hc
    · exact hc
    · exact hc
    · exact hc
    · exact hc
    · exact ih hc _

theorem Quiet.step {view : RevocationView} {ctx : FallbackCtx} {W W' : Worker} {r : Round}
    (hr : NeverRefused r) (h : Quiet view W.feed) (hs : W.step ctx r = some W') : Quiet view W'.feed := by
  have hw : Quiet view (walkRungs ctx r.answers (tcpRungs r.edge ctx.config.fallback443) W.feed none).1 :=
    Quiet.walk hr _ h none
  have hret := Worker.step_returned hs
  simp only [Worker.step, hret] at hs
  rw [← Option.some.inj hs, Worker.settle_feed]
  exact hw

/-- Three refused rounds over a clear view leave it clear. -/
theorem browser_unnoticed {ctx : FallbackCtx} (hb : ctx.browser = true) : ¬ RefusalNoticed ctx := by
  intro h
  let r : Round := ⟨⟨.v4 ⟨0, 0, 0, 0⟩, 443, 0⟩, fun _ => ⟨fun _ => none, fun _ => .NO, none, fun _ => none⟩⟩
  have hr : AllRefused r := fun _ => ⟨fun _ => rfl, fun _ => rfl⟩
  have hkind : ∀ r' ∈ [r, r, r], ∀ addr F, ∃ e, tcpConnectRegisterServe ctx (r'.answers addr) F =
      (F.note .transient, .error (.notRegistered e)) := by
    intro r' hr' addr F
    have hrr : r' = r := by simpa using hr'
    subst hrr
    exact connect_browser hb (hr addr).1 (hr addr).2 F
  obtain ⟨W, hW, k, -, hk⟩ := h.revokes 0 0 2 {} [r, r, r] le_rfl rfl (by simpa using hr)
  obtain ⟨n, -, hfeed⟩ := run_refused_feed hkind hW
  obtain ⟨x, hx, hx2⟩ := Option.map_eq_some_iff.mp hk
  have hflag := (noted_transient (Worker.start 0 0 2 {}).feed rfl n).2 x
    (hfeed ▸ List.mem_of_getElem? hx)
  rw [hx2] at hflag
  exact Bool.noConfusion hflag

/-- A refused token is noticed exactly by the agents that register without a hostname frame. -/
theorem refusal_noticed_iff (ctx : FallbackCtx) :
    RefusalNoticed ctx ↔ ¬ (ctx.config.browserForward = true ∧ ctx.config.hostname.isSome = true) := by
  rw [← Bool.and_eq_true]
  change RefusalNoticed ctx ↔ ¬ ctx.browser = true
  constructor
  · intro h hb
    exact browser_unnoticed hb h
  · intro hb
    rw [Bool.not_eq_true] at hb
    have hkind (rounds : List Round) (hall : ∀ r ∈ rounds, AllRefused r) :
        ∀ r ∈ rounds, ∀ addr F, ∃ e, tcpConnectRegisterServe ctx (r.answers addr) F =
          (F.note .refusedAmbiguous, .error (.notRegistered e)) := by
      intro r hr addr F
      exact ⟨_, connect_plain hb (hall r hr addr).1 (hall r hr addr).2 F⟩
    refine ⟨?_, ?_, ?_⟩
    · intro base max attempts view rounds hbudget hlen hall
      obtain ⟨W, hW⟩ := run_refused_some (hkind rounds hall)
        (W := Worker.start base max attempts view) rfl
        (by simp only [Worker.start]; omega)
      obtain ⟨n, hn, hfeed⟩ := run_refused_feed (hkind rounds hall) hW
      obtain ⟨hcount, -, hset⟩ := noted_refused (F := (Worker.start base max attempts view).feed) rfl rfl n
      refine ⟨W, hW, 2, by decide, ?_⟩
      rw [hfeed]
      have h2 : 2 < ((fun G => Feed.note G .refusedAmbiguous)^[n]
          (Worker.start base max attempts view).feed).noted.length := by
        rw [hcount]
        simp only [hlen, ambiguousRefusalsBeforeRevoked] at hn
        omega
      rw [List.getElem?_eq_getElem h2, Option.map_some]
      exact congrArg some (hset 2 _ (List.getElem?_eq_getElem h2) (by decide))
    · intro base max attempts view rounds W hall hW k x hx hk
      obtain ⟨n, -, hfeed⟩ := run_refused_feed (hkind rounds hall) hW
      rw [hfeed] at hx
      exact (noted_refused rfl rfl n).2.2 k x hx hk
    · intro base max attempts view rounds W hall hW
      have hq : Quiet view W.feed := run_invariant_of_mem (P := fun W => Quiet view W.feed)
        (fun _ _ _ hr h hs => Quiet.step hr h hs) hall ⟨id, by simp [Worker.start]⟩ hW
      exact ⟨hq.flag, hq.outcomes⟩

/-- A browser agent with the hostname `a`, refused in every round. -/
theorem refused_hostname_unnoticed :
    ¬ RefusalNoticed ⟨⟨true, some [0x61], false, false, .tcp, none, true⟩, List.replicate 32 0, false⟩ :=
  browser_unnoticed rfl

end CtAgent.Serve
