import CtAgent.LocalAuth.LinkHistory

/-! What a history of one process tells about its share links: how often a single-use link was
redeemed, which cookies pass, and what stays on file. -/
namespace CtAgent.LocalAuth
open CtAgent.Lib CtAgent.Codec CtAgent.SecretFile

/-- A redemption through the URL that returned `Ok`, with the token it was for. -/
def LinkEvent.returned? (e : LinkEvent) : Option (String × RedeemedLink) :=
  match e.op, e.result with
  | .redeem _ _ token .query _, .redeemed (.ok r) => some (token, r)
  | _, _ => none

def LinkRun.returned (s : LinkRun) : List (String × RedeemedLink) :=
  s.history.filterMap LinkEvent.returned?

section
variable {hash : String → Vector UInt8 32} {s s' : LinkRun}

theorem save_reported (fault : Option StoreFault) (now : ℕ) (links : List ShareLink)
    (file : LinksFile) (hr : reaches fault = true) :
    (save fault now links file).1 = true ∨ fault = some (.write .syncDir) := by
  rcases fault with _ | _ | _ | _ | step
  · exact Or.inl rfl
  · exact Or.inl rfl
  · simp [reaches] at hr
  · simp [reaches] at hr
  · cases step <;> simp [reaches] at hr ⊢

/-- A redemption through the URL that returns `Ok` put the session it returns on file. -/
theorem redeemAt_query_ok {fault now token secret} {file : LinksFile} {r : RedeemedLink}
    (h : (redeemAt hash fault now token .query secret file).1 = .ok r) :
    reachedBy hash (.redeem fault now token .query secret) file = true ∧
      r.session = some (secretToken secret) := by
  unfold redeemAt at h
  split at h
  · cases h
  · rename_i ht
    rw [Bool.not_eq_false] at ht
    cases hl : load fault file with
    | none =>
      rw [hl] at h
      cases h
    | some links =>
      cases hm : redeemOn hash now token .query secret links with
      | error e =>
        simp only [hl, hm] at h
        cases h
      | ok x =>
        obtain ⟨r', links'⟩ := x
        simp only [hl, hm] at h
        obtain ⟨l, -, -, -, -, hr', -⟩ := redeemOn_query_ok hm
        have hs := (save_eq fault now links' file).2
        cases hv : save fault now links' file with
        | mk ok f =>
          cases ok with
          | true =>
            rw [hv] at h hs
            cases h
            refine ⟨?_, by rw [hr']⟩
            simp [reachedBy, drawnBy, ht, hl, hm, hs rfl]
          | false =>
            rw [hv] at h
            cases h

/-- One that put a session on file returned it, unless the sync of the directory failed. -/
theorem redeemAt_query_reached {fault now token secret} {file : LinksFile}
    (h : reachedBy hash (.redeem fault now token .query secret) file = true) :
    (∃ r, (redeemAt hash fault now token .query secret file).1 = .ok r ∧
      r.session = some (secretToken secret)) ∨ fault = some (.write .syncDir) := by
  simp only [reachedBy, Bool.and_eq_true] at h
  obtain ⟨hd, hr⟩ := h
  simp only [drawnBy, beq_self_eq_true, Bool.and_true] at hd
  split at hd
  · rename_i ht
    cases hl : load fault file with
    | none => simp [hl] at hd
    | some links =>
      cases hm : redeemOn hash now token .query secret links with
      | error e => simp [hl, hm] at hd
      | ok x =>
        obtain ⟨r', links'⟩ := x
        obtain ⟨l, -, -, -, -, hr', -⟩ := redeemOn_query_ok hm
        rcases save_reported fault now links' file hr with hs | hs
        · refine Or.inl ⟨r', ?_, by rw [hr']⟩
          cases hv : save fault now links' file with
          | mk ok f =>
            rw [hv] at hs
            subst hs
            simp [redeemAt, ht, hl, hm, hv]
        · exact Or.inr hs
  · simp at hd

/-- Every event of a history is a call on some file. -/
theorem history_performed (hr : Reachable (LinkRun.step hash) LinkRun.init s) :
    ∀ e ∈ s.history, ∃ file, e.result = (perform hash e.op file).1 ∧
      e.reached = reachedBy hash e.op file := by
  refine reachable_invariant (P := fun s : LinkRun => ∀ e ∈ s.history, ∃ file,
    e.result = (perform hash e.op file).1 ∧ e.reached = reachedBy hash e.op file) ?_ ?_ hr
  · intro s op s' hi h e he
    unfold LinkRun.step at h
    split at h
    · cases h
      rcases List.mem_append.mp he with he | he
      · exact hi e he
      · rw [List.mem_singleton] at he
        subst he
        exact ⟨s.file, rfl, rfl⟩
    · cases h
  · intro e he
    simp [LinkRun.init] at he

theorem returned_issued (hr : Reachable (LinkRun.step hash) LinkRun.init s) {e : LinkEvent}
    (he : e ∈ s.history) {t : String} {r : RedeemedLink} (h : e.returned? = some (t, r)) :
    ∃ c, r.session = some c ∧ e.issued? = some (t, c) := by
  obtain ⟨file, hres, hrea⟩ := history_performed hr e he
  unfold LinkEvent.returned? at h
  split at h
  · rename_i fault now token secret r' hop hok
    cases h
    rw [hop] at hres hrea
    rw [hok] at hres
    simp only [perform, LinkResult.redeemed.injEq] at hres
    obtain ⟨h1, h2⟩ := redeemAt_query_ok hres.symm
    exact ⟨_, h2, by simp [LinkEvent.issued?, hop, hrea, h1]⟩
  · cases h

theorem issued_returned (hr : Reachable (LinkRun.step hash) LinkRun.init s) {e : LinkEvent}
    (he : e ∈ s.history) {t c : String} (h : e.issued? = some (t, c)) :
    (∃ r, e.returned? = some (t, r) ∧ r.session = some c) ∨ e.op.fault = some (.write .syncDir) := by
  obtain ⟨file, hres, hrea⟩ := history_performed hr e he
  unfold LinkEvent.issued? at h
  split at h
  · rename_i fault now token secret hop
    split at h
    · rename_i hreached
      cases h
      rw [hop] at hres hrea
      rcases redeemAt_query_reached (hrea.symm.trans hreached) with ⟨r, h1, h2⟩ | h1
      · refine Or.inl ⟨r, ?_, h2⟩
        simp only [perform] at hres
        rw [h1] at hres
        simp [LinkEvent.returned?, hop, hres]
      · exact Or.inr (by rw [hop]; exact h1)
    · cases h
  · cases h

theorem returned_length_le (hr : Reachable (LinkRun.step hash) LinkRun.init s) (t : String) :
    (s.returned.filter (fun tr => tr.1 == t)).length ≤ (s.issuedFor t).length := by
  have hsub : ∀ es : List LinkEvent, (∀ e ∈ es, e ∈ s.history) →
      ((es.filterMap LinkEvent.returned?).filter (fun tr => tr.1 == t)).length ≤
        ((es.filterMap LinkEvent.issued?).filter (fun ts => ts.1 == t)).length := by
    intro es
    induction es with
    | nil => simp
    | cons e es ih =>
      intro hes
      have hrest := ih (fun x hx => hes x (List.mem_cons_of_mem _ hx))
      cases hret : e.returned? with
      | none =>
        rw [List.filterMap_cons_none hret]
        refine Nat.le_trans hrest (List.Sublist.length_le (List.Sublist.filter _ ?_))
        exact (List.sublist_cons_self e es).filterMap _
      | some tr =>
        obtain ⟨c, -, hiss⟩ := returned_issued hr (hes e List.mem_cons_self) hret
        rw [List.filterMap_cons_some hret, List.filterMap_cons_some hiss, List.filter_cons,
          List.filter_cons]
        split
        · simpa using hrest
        · exact hrest
  have h := hsub s.history (fun e he => he)
  simpa only [LinkRun.returned, LinkRun.issuedFor, LinkRun.issued, List.length_map] using h

end

/-- The last `k` elements of a filtered list are those with fewer than `k` such elements behind
them. -/
theorem mem_drop_filter_iff {α : Type*} (p : α → Bool) (k : ℕ) (xs : List α) (y : α) :
    y ∈ (xs.filter p).drop ((xs.filter p).length - k) ↔
      ∃ pre post, xs = pre ++ y :: post ∧ p y = true ∧ (post.filter p).length < k := by
  induction xs with
  | nil => simp
  | cons x xs ih =>
    have hsplit : (∃ pre post, x :: xs = pre ++ y :: post ∧ p y = true ∧
          (post.filter p).length < k) ↔
        (x = y ∧ p y = true ∧ (xs.filter p).length < k) ∨
          ∃ pre post, xs = pre ++ y :: post ∧ p y = true ∧ (post.filter p).length < k := by
      constructor
      · rintro ⟨pre, post, he, hp, hl⟩
        cases pre with
        | nil =>
          rw [List.nil_append, List.cons.injEq] at he
          exact Or.inl ⟨he.1, hp, he.2 ▸ hl⟩
        | cons z pre =>
          rw [List.cons_append, List.cons.injEq] at he
          exact Or.inr ⟨pre, post, he.2, hp, hl⟩
      · rintro (⟨rfl, hp, hl⟩ | ⟨pre, post, rfl, hp, hl⟩)
        · exact ⟨[], xs, rfl, hp, hl⟩
        · exact ⟨x :: pre, post, rfl, hp, hl⟩
    rw [hsplit, ← ih]
    by_cases hx : p x = true
    · rw [List.filter_cons_of_pos hx, List.length_cons]
      by_cases hk : (xs.filter p).length < k
      · rw [show (xs.filter p).length + 1 - k = 0 by omega,
          show (xs.filter p).length - k = 0 by omega, List.drop_zero, List.drop_zero, List.mem_cons]
        constructor
        · rintro (rfl | h)
          · exact Or.inl ⟨rfl, hx, hk⟩
          · exact Or.inr h
        · rintro (⟨rfl, -, -⟩ | h)
          · exact Or.inl rfl
          · exact Or.inr h
      · rw [show (xs.filter p).length + 1 - k = ((xs.filter p).length - k) + 1 by omega,
          List.drop_succ_cons]
        simp [hk]
    · rw [List.filter_cons_of_neg hx]
      constructor
      · exact Or.inr
      · rintro (⟨rfl, hp, -⟩ | h)
        · exact absurd hp hx
        · exact h

section
variable {hash : String → Vector UInt8 32} {s s' : LinkRun}

/-- A session is in a record's list exactly when it is one of the last its token was given. -/
theorem mem_lastSessions_iff (s : LinkRun) (t c : String) :
    c ∈ lastSessions (s.issuedFor t) ↔ ∃ pre post, s.issued = pre ++ (t, c) :: post ∧
      (post.filter (fun ts => ts.1 == t)).length < maxSessionsPerLink := by
  have h := mem_drop_filter_iff (fun ts : String × String => ts.1 == t) maxSessionsPerLink s.issued
    (t, c)
  simp only [beq_self_eq_true, true_and] at h
  rw [← h, lastSessions, LinkRun.issuedFor, List.length_map, ← List.map_drop, List.mem_map]
  constructor
  · rintro ⟨ts, hts, rfl⟩
    have ht := (List.mem_filter.mp (List.mem_of_mem_drop hts)).2
    rw [beq_iff_eq] at ht
    have he : (t, ts.2) = ts := Prod.ext ht.symm rfl
    rwa [he]
  · intro hc
    exact ⟨_, hc, rfl⟩

theorem issued_secretToken {t c : String} (h : (t, c) ∈ s.issued) : ∃ secret, c = secretToken secret := by
  obtain ⟨e, -, he⟩ := List.mem_filterMap.mp h
  unfold LinkEvent.issued? at he
  split at he
  · split at he
    · cases he
      exact ⟨_, rfl⟩
    · cases he
  · cases he

theorem mem_issued_of_mem_issuedFor {t c : String} (h : c ∈ s.issuedFor t) : (t, c) ∈ s.issued := by
  obtain ⟨ts, hts, rfl⟩ := List.mem_map.mp h
  obtain ⟨hm, ht⟩ := List.mem_filter.mp hts
  rw [beq_iff_eq] at ht
  rwa [← ht]

/-- Which records a cookie selects: those whose token the cookie was issued for, among the last. -/
theorem selects_cookie_iff (hi : HistoryInv hash s) {c : String}
    (hc : CollisionFree hash (c :: (s.drawn ++ s.presented))) {l : ShareLink} {t : String}
    (hs : l.sessionHashes = lastSessions ((s.issuedFor t).map (storedHash hash))) :
    selects hash c .cookie l = true ↔ c ∈ lastSessions (s.issuedFor t) := by
  have hmap : l.sessionHashes = (lastSessions (s.issuedFor t)).map (storedHash hash) := by
    rw [hs, lastSessions, lastSessions, List.length_map, List.map_drop]
  have hdrawn : ∀ x ∈ lastSessions (s.issuedFor t), x ∈ s.drawn := by
    intro x hx
    have hx' := mem_issued_of_mem_issuedFor (List.mem_of_mem_drop hx)
    exact hi.secrets_drawn x (List.mem_append_right _ (List.mem_map.mpr ⟨_, hx', rfl⟩))
  simp only [selects, hmap, List.any_map, List.any_eq_true, Function.comp, hashMatches_iff]
  constructor
  · rintro ⟨x, hx, hxc⟩
    have he := hc x (List.mem_cons_of_mem _ (List.mem_append_left _ (hdrawn x hx))) c
      List.mem_cons_self hxc
    exact he ▸ hx
  · intro h
    exact ⟨c, h, rfl⟩

theorem issued_token_unique (hi : HistoryInv hash s) {t t' c : String} (h : (t, c) ∈ s.issued)
    (h' : (t', c) ∈ s.issued) : t = t' :=
  congrArg Prod.fst (List.inj_on_of_nodup_map (List.nodup_append.mp hi.secrets).2.1 h h' rfl)

theorem redeemAt_cookie_ok_iff {fault now c secret} {file : LinksFile} (hf : fault ≠ some .load) :
    (∃ r, (redeemAt hash fault now c .cookie secret file).1 = .ok r) ↔
      looksLikeLinkToken c = true ∧ ∃ l, (file.getD []).find? (selects hash c .cookie) = some l ∧
        l.revokedAt = none ∧ now < l.expiresAt := by
  have hload : load fault file = some (file.getD []) := by simp [load, hf]
  constructor
  · rintro ⟨r, h⟩
    unfold redeemAt at h
    split at h
    · cases h
    · rename_i ht
      rw [hload] at h
      dsimp only at h
      cases hm : redeemOn hash now c .cookie secret (file.getD []) with
      | error e =>
        rw [hm] at h
        cases h
      | ok x => exact ⟨by simpa using ht, redeemOn_ok hm⟩
  · rintro ⟨ht, l, hl, hrev, hexp⟩
    refine ⟨⟨l.id, l.label, l.singleUse, l.expiresAt - now, false, none⟩, ?_⟩
    simp only [redeemAt, ht, hload, redeemOn, hl, hrev, Option.isSome_none, Bool.false_eq_true,
      ↓reduceIte, Nat.not_le.mpr hexp, Bool.true_eq_false]

theorem cookie_passes_iff (hi : HistoryInv hash s) {fault now c secret} (hf : fault ≠ some .load)
    (hc : CollisionFree hash (c :: (s.drawn ++ s.presented))) :
    (∃ r, (redeemAt hash fault now c .cookie secret s.file).1 = .ok r) ↔
      ∃ t pre post, s.issued = pre ++ (t, c) :: post ∧
        (post.filter (fun ts => ts.1 == t)).length < maxSessionsPerLink ∧
        ∃ l ∈ s.links, l.tokenHash = storedHash hash t ∧ l.revokedAt = none ∧ now < l.expiresAt := by
  rw [redeemAt_cookie_ok_iff hf]
  have hcf : CollisionFree hash (s.drawn ++ s.presented) := by
    intro a ha b hb
    exact hc a (List.mem_cons_of_mem _ ha) b (List.mem_cons_of_mem _ hb)
  constructor
  · rintro ⟨-, l, hl, hrev, hexp⟩
    obtain ⟨t, -, hth, hsess, -⟩ := hi.record l (List.mem_of_find?_eq_some hl)
    have hmem := (selects_cookie_iff hi hc hsess).mp (List.find?_some hl)
    obtain ⟨pre, post, h1, h2⟩ := (mem_lastSessions_iff s t c).mp hmem
    exact ⟨t, pre, post, h1, h2, l, List.mem_of_find?_eq_some hl, hth, hrev, hexp⟩
  · rintro ⟨t, pre, post, h1, h2, l, hl, hth, hrev, hexp⟩
    have hmem := (mem_lastSessions_iff s t c).mpr ⟨pre, post, h1, h2⟩
    have hiss := mem_issued_of_mem_issuedFor (List.mem_of_mem_drop hmem)
    obtain ⟨secret, rfl⟩ := issued_secretToken hiss
    have hdrawn : ∀ x ∈ s.minted.map Prod.fst, x ∈ s.drawn ++ s.presented := fun x hx =>
      List.mem_append_left _ (hi.secrets_drawn x (List.mem_append_left _ hx))
    -- a record is known by its token, since tokens do not collide
    have hrec : ∀ x ∈ s.links, ∀ u, u ∈ s.minted.map Prod.fst → x.tokenHash = storedHash hash u →
        ∃ t', t' = u ∧ x.sessionHashes = lastSessions ((s.issuedFor t').map (storedHash hash)) := by
      intro x hx u hu hxu
      obtain ⟨t', hm, hth', hsess, -⟩ := hi.record x hx
      refine ⟨t', ?_, hsess⟩
      exact hcf t' (hdrawn t' (List.mem_map.mpr ⟨_, hm, rfl⟩)) u (hdrawn u hu)
        (storedHash_inj (hth'.symm.trans hxu))
    obtain ⟨t', rfl, hsess⟩ := hrec l hl t (hi.issued_minted _ hiss) hth
    have hsel := (selects_cookie_iff hi hc hsess).mpr hmem
    refine ⟨looksLikeLinkToken_secretToken secret, ?_⟩
    obtain ⟨l', hl'⟩ := Option.isSome_iff_exists.mp
      (List.find?_isSome.mpr ⟨l, hl, hsel⟩)
    -- the first record that selects the cookie is the one it was issued for
    obtain ⟨u, -, huh, husess, -⟩ := hi.record l' (List.mem_of_find?_eq_some hl')
    have humem := (selects_cookie_iff hi hc husess).mp (List.find?_some hl')
    have hut := issued_token_unique hi
      (mem_issued_of_mem_issuedFor (List.mem_of_mem_drop humem)) hiss
    have hll : l' = l := by
      refine List.inj_on_of_nodup_map hi.distinct (List.mem_of_find?_eq_some hl') hl ?_
      rw [huh, hth, hut]
    exact ⟨l', hl', hll ▸ hrev, hll ▸ hexp⟩

/-- The token of a link is never one of its sessions, nor of another link's. -/
theorem token_never_cookie (hi : HistoryInv hash s) (hs : Sound hash s) {t : String}
    (ht : t ∈ s.minted.map Prod.fst) (fault now secret r) :
    (redeemAt hash fault now t .cookie secret s.file).1 ≠ .ok r := by
  intro h
  by_cases hf : fault = some .load
  · subst hf
    unfold redeemAt at h
    split at h <;> cases h
  · have htd := hi.secrets_drawn t (List.mem_append_left _ ht)
    have hc : CollisionFree hash (t :: (s.drawn ++ s.presented)) := by
      intro a ha b hb
      apply hs.collision_free
      · rcases List.mem_cons.mp ha with rfl | ha
        · exact List.mem_append_left _ htd
        · exact ha
      · rcases List.mem_cons.mp hb with rfl | hb
        · exact List.mem_append_left _ htd
        · exact hb
    obtain ⟨u, pre, post, hiss, -⟩ := (cookie_passes_iff hi hf hc).mp ⟨r, h⟩
    have hmem : t ∈ s.issued.map Prod.snd := by
      rw [hiss]
      simp
    exact (List.nodup_append.mp hi.secrets).2.2 t ht t hmem rfl

/-- A redemption that returns an error has written only if the sync of the directory failed. -/
theorem redeemAt_error {fault now token via secret} {file : LinksFile} {e : LinkRejection}
    (h : (redeemAt hash fault now token via secret file).1 = .error e) :
    (redeemAt hash fault now token via secret file).2 = file ∨ fault = some (.write .syncDir) := by
  by_cases hq : (looksLikeLinkToken token && via == .query) = true
  · rw [Bool.and_eq_true, beq_iff_eq] at hq
    obtain ⟨ht, rfl⟩ := hq
    by_cases hr : reachedBy hash (.redeem fault now token .query secret) file = true
    · rcases redeemAt_query_reached hr with ⟨r, hok, -⟩ | hf
      · rw [hok] at h
        cases h
      · exact Or.inr hf
    · left
      rw [redeemAt_query_file hash fault now token secret file ht]
      cases hl : load fault file with
      | none => rfl
      | some links =>
        cases hm : redeemOn hash now token .query secret links with
        | error e' => simp [hm]
        | ok x =>
          have hnr : reaches fault = false := by simpa [reachedBy, drawnBy, ht, hl, hm] using hr
          simp [hm, hnr]
  · rw [Bool.not_eq_true] at hq
    exact Or.inl (redeemAt_file_eq file hq)

/-- A changed list still holds every record, up to the fields a change may touch. -/
theorem kept_modifyFirst {p : ShareLink → Bool} {f : ShareLink → ShareLink}
    {links : List ShareLink} {l y : ShareLink} (hy : links.find? p = some y)
    (hf : (f y).id = y.id ∧ (f y).tokenHash = y.tokenHash ∧ (f y).expiresAt = y.expiresAt)
    (hl : l ∈ links) : ∃ l' ∈ modifyFirst p f links,
      l'.id = l.id ∧ l'.tokenHash = l.tokenHash ∧ l'.expiresAt = l.expiresAt := by
  rcases mem_modifyFirst_of_mem (f := f) hy hl with rfl | hm
  · exact ⟨f l, apply_mem_modifyFirst hy, hf⟩
  · exact ⟨l, hm, rfl, rfl, rfl⟩

/-- No call takes a link off the file before it expires. -/
theorem unexpired_kept (hi : HistoryInv hash s) {op : LinkOp} (h : s.step hash op = some s')
    {l : ShareLink} (hl : l ∈ s.links) (hexp : op.now < l.expiresAt) :
    ∃ l' ∈ s'.links, l'.id = l.id ∧ l'.tokenHash = l.tokenHash ∧ l'.expiresAt = l.expiresAt := by
  obtain ⟨-, -, e, hop, -, hchange⟩ := step_change h
  obtain ⟨-, -, -, -, -, hb⟩ := hi.record l hl
  have hprune : ∀ now links, now = op.now → (∃ l' ∈ links,
      l'.id = l.id ∧ l'.tokenHash = l.tokenHash ∧ l'.expiresAt = l.expiresAt) →
      s'.links = prune now links →
      ∃ l' ∈ s'.links, l'.id = l.id ∧ l'.tokenHash = l.tokenHash ∧ l'.expiresAt = l.expiresAt := by
    rintro now links rfl ⟨l', hm, h1, h2, h3⟩ hs'
    rw [hs']
    exact ⟨l', mem_prune hm (by omega) (by omega), h1, h2, h3⟩
  cases hchange with
  | unchanged hr hf =>
    refine ⟨l, ?_, rfl, rfl, rfl⟩
    rwa [LinkRun.links, hf]
  | mint hop' hr hd hactive hf =>
    refine hprune _ _ ?_ ⟨l, List.mem_append_left _ hl, rfl, rfl, rfl⟩ hf
    rw [← hop, hop', LinkOp.now]
  | revoke hop' hr hd y hy hf =>
    refine hprune _ _ ?_ (kept_modifyFirst hy ⟨rfl, rfl, rfl⟩ hl) hf
    rw [← hop, hop', LinkOp.now]
  | redeem hop' hr hd y hy hrev hexp' huse hf =>
    refine hprune _ _ ?_ (kept_modifyFirst hy ⟨rfl, rfl, rfl⟩ hl) hf
    rw [← hop, hop', LinkOp.now]

theorem sessionHashes_length_le (hi : HistoryInv hash s) {l : ShareLink} (hl : l ∈ s.links) :
    l.sessionHashes.length ≤ maxSessionsPerLink := by
  obtain ⟨t, -, -, hs, -⟩ := hi.record l hl
  rw [hs, lastSessions, List.length_drop]
  omega

/-- Histories of one process. A session counts as issued once it is on file: its redemption
returned it, or failed only in the sync of the directory behind the rename. -/
theorem share_link_store (hr : Reachable (LinkRun.step hash) LinkRun.init s) (hs : Sound hash s) :
    (∀ t, (t, true) ∈ s.minted → (s.returned.filter (fun tr => tr.1 == t)).length ≤ 1) ∧
    ((∀ e ∈ s.history, ∀ t r, e.returned? = some (t, r) →
        ∃ c, r.session = some c ∧ e.issued? = some (t, c)) ∧
      (∀ e ∈ s.history, ∀ t c, e.issued? = some (t, c) →
        (∃ r, e.returned? = some (t, r) ∧ r.session = some c) ∨
          e.op.fault = some (.write .syncDir)) ∧
      (∀ fault now c secret, fault ≠ some .load →
        CollisionFree hash (c :: (s.drawn ++ s.presented)) →
        ((∃ r, (redeemAt hash fault now c .cookie secret s.file).1 = .ok r) ↔
          ∃ t pre post, s.issued = pre ++ (t, c) :: post ∧
            (post.filter (fun ts => ts.1 == t)).length < maxSessionsPerLink ∧
            ∃ l ∈ s.links, l.tokenHash = storedHash hash t ∧ l.revokedAt = none ∧
              now < l.expiresAt)) ∧
      ∀ t ∈ s.minted.map Prod.fst, ∀ fault now secret r,
        (redeemAt hash fault now t .cookie secret s.file).1 ≠ .ok r) ∧
    (∀ fault now token via secret e,
      (redeemAt hash fault now token via secret s.file).1 = .error e →
      (redeemAt hash fault now token via secret s.file).2 = s.file ∨
        fault = some (.write .syncDir)) ∧
    ((∀ now, s.clock ≤ now → s.links.countP (fun l => l.isActive now) ≤ maxActiveLinks) ∧
      (∀ l ∈ s.links, l.sessionHashes.length ≤ maxSessionsPerLink) ∧
      ∀ op s', s.step hash op = some s' → ∀ l ∈ s.links, op.now < l.expiresAt →
        ∃ l' ∈ s'.links, l'.id = l.id ∧ l'.tokenHash = l.tokenHash ∧ l'.expiresAt = l.expiresAt) := by
  have hi := reachable_historyInv hr hs
  refine ⟨?_, ⟨?_, ?_, ?_, ?_⟩, ?_, ?_, ?_, ?_⟩
  · intro t ht
    exact Nat.le_trans (returned_length_le hr t) (hi.once t ht)
  · intro e he t r h
    exact returned_issued hr he h
  · intro e he t c h
    exact issued_returned hr he h
  · intro fault now c secret hf hc
    exact cookie_passes_iff hi hf hc
  · intro t ht fault now secret r
    exact token_never_cookie hi hs ht fault now secret r
  · intro fault now token via secret e h
    exact redeemAt_error h
  · intro now hn
    exact Nat.le_trans (active_mono hn s.links) hi.active
  · intro l hl
    exact sessionHashes_length_le hi hl
  · intro op s' h l hl hexp
    exact unexpired_kept hi h hl hexp

end

/-- A single-use link is minted at 100 for 1000 seconds. -/
def sampleMint : LinkOp := .mint none 100 1000 true "guest" (sampleSecret 1) (Vector.replicate 6 7)

def sampleRun : List LinkOp :=
  [sampleMint, .redeem none 200 (secretToken (sampleSecret 1)) .query (sampleSecret 2)]

def sampleState (ops : List LinkOp) : LinkRun :=
  (run (LinkRun.step sampleHash) LinkRun.init ops).getD LinkRun.init

theorem share_link_store_sample :
    run (LinkRun.step sampleHash) LinkRun.init sampleRun = some (sampleState sampleRun) ∧
      Sound sampleHash (sampleState sampleRun) ∧ (sampleState sampleRun).returned.length = 1 ∧
      ((sampleState sampleRun).returned.filter
        (fun tr => tr.1 == secretToken (sampleSecret 1))).length ≤ 1 := by
  have hrun : run (LinkRun.step sampleHash) LinkRun.init sampleRun = some (sampleState sampleRun) := by
    decide
  have hs : Sound sampleHash (sampleState sampleRun) := ⟨by decide, by unfold CollisionFree; decide⟩
  exact ⟨hrun, hs, by decide, (share_link_store ⟨sampleRun, hrun⟩ hs).1 _ (by decide)⟩

/-- The sync of the directory fails behind the rename: the redemption returns an error, the link is
used up, and the session it never returned passes as a cookie. -/
theorem redemption_error_changed_records :
    run (LinkRun.step sampleHash) LinkRun.init [sampleMint] = some (sampleState [sampleMint]) ∧
      Sound sampleHash (sampleState [sampleMint]) ∧
      ∃ file, redeemAt sampleHash (some (.write .syncDir)) 200 (secretToken (sampleSecret 1)) .query
          (sampleSecret 2) (sampleState [sampleMint]).file = (.error .store, file) ∧
        file ≠ (sampleState [sampleMint]).file ∧
        (redeemAt sampleHash none 300 (secretToken (sampleSecret 2)) .cookie (sampleSecret 3) file).1 =
          .ok ⟨"070707070707", "guest", true, 800, false, none⟩ := by
  refine ⟨by decide, ⟨by decide, by unfold CollisionFree; decide⟩,
    (redeemAt sampleHash (some (.write .syncDir)) 200 (secretToken (sampleSecret 1)) .query
      (sampleSecret 2) (sampleState [sampleMint]).file).2, ?_, ?_, ?_⟩
  · decide
  · decide
  · decide

end CtAgent.LocalAuth
