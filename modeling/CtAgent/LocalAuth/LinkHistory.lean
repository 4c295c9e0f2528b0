import CtAgent.LocalAuth.LinkInv

/-! The invariant of share-link histories and its preservation, one lemma for each kind of change. -/
namespace CtAgent.LocalAuth
open CtAgent.Lib CtAgent.Codec CtAgent.SecretFile

/-- What a record keeps of the sessions it was given: the newest ones. -/
def lastSessions (sessions : List String) : List String :=
  sessions.drop (sessions.length - maxSessionsPerLink)

structure HistoryInv (hash : String → Vector UInt8 32) (s : LinkRun) : Prop where
  record : ∀ l ∈ s.links, ∃ t, (t, l.singleUse) ∈ s.minted ∧ l.tokenHash = storedHash hash t ∧
    l.sessionHashes = lastSessions ((s.issuedFor t).map (storedHash hash)) ∧
    (s.issuedFor t ≠ [] → l.usedAt.isSome = true) ∧ l.expiresAt < 2^64
  distinct : (s.links.map ShareLink.tokenHash).Nodup
  once : ∀ t, (t, true) ∈ s.minted → (s.issuedFor t).length ≤ 1
  secrets : (s.minted.map Prod.fst ++ s.issued.map Prod.snd).Nodup
  secrets_drawn : ∀ x ∈ s.minted.map Prod.fst ++ s.issued.map Prod.snd, x ∈ s.drawn
  issued_minted : ∀ ts ∈ s.issued, ts.1 ∈ s.minted.map Prod.fst
  active : s.links.countP (fun l => l.isActive s.clock) ≤ maxActiveLinks

section
variable {hash : String → Vector UInt8 32} {s s' : LinkRun} {e : LinkEvent}

theorem minted_append (h : s'.history = s.history ++ [e]) :
    s'.minted = s.minted ++ e.minted?.toList := by
  simp only [LinkRun.minted, h, List.filterMap_append, List.filterMap_cons, List.filterMap_nil]
  cases e.minted? <;> rfl

theorem issued_append (h : s'.history = s.history ++ [e]) :
    s'.issued = s.issued ++ e.issued?.toList := by
  simp only [LinkRun.issued, h, List.filterMap_append, List.filterMap_cons, List.filterMap_nil]
  cases e.issued? <;> rfl

theorem drawn_append (h : s'.history = s.history ++ [e]) : s'.drawn = s.drawn ++ e.drew.toList := by
  simp only [LinkRun.drawn, h, List.filterMap_append, List.filterMap_cons, List.filterMap_nil]
  cases e.drew <;> rfl

theorem presented_append (h : s'.history = s.history ++ [e]) :
    s'.presented = s.presented ++ e.presented?.toList := by
  simp only [LinkRun.presented, h, List.filterMap_append, List.filterMap_cons, List.filterMap_nil]
  cases e.presented? <;> rfl

theorem Sound.of_append (h : s'.history = s.history ++ [e]) (hs : Sound hash s') : Sound hash s := by
  have hd := hs.fresh
  have hc := hs.collision_free
  rw [drawn_append h] at hd hc
  rw [presented_append h] at hc
  refine ⟨(List.nodup_append.mp hd).1, ?_⟩
  intro a ha b hb
  apply hc
  · simp only [List.mem_append] at ha ⊢
    tauto
  · simp only [List.mem_append] at hb ⊢
    tauto

theorem unreached_none (hr : e.reached = false) : e.minted? = none ∧ e.issued? = none := by
  constructor
  · unfold LinkEvent.minted?
    split <;> simp [hr]
  · unfold LinkEvent.issued?
    split <;> simp [hr]

theorem issuedFor_congr (h : s'.issued = s.issued) (t : String) : s'.issuedFor t = s.issuedFor t := by
  simp only [LinkRun.issuedFor, h]

theorem active_mono {now now' : ℕ} (h : now ≤ now') (links : List ShareLink) :
    links.countP (fun l => l.isActive now') ≤ links.countP (fun l => l.isActive now) := by
  apply List.countP_mono_left
  intro l _ hl
  simp only [ShareLink.isActive, Bool.and_eq_true, decide_eq_true_eq] at hl ⊢
  exact ⟨hl.1, Nat.lt_of_le_of_lt h hl.2⟩

theorem inv_unchanged (hi : HistoryInv hash s) (hh : s'.history = s.history ++ [e])
    (hc : s.clock ≤ s'.clock) (hr : e.reached = false) (hf : s'.file = s.file) :
    HistoryInv hash s' := by
  obtain ⟨hm, hn⟩ := unreached_none hr
  have h1 : s'.minted = s.minted := by rw [minted_append hh, hm]; simp
  have h2 : s'.issued = s.issued := by rw [issued_append hh, hn]; simp
  have h3 : s'.links = s.links := by simp only [LinkRun.links, hf]
  have h4 : ∀ t, s'.issuedFor t = s.issuedFor t := issuedFor_congr h2
  constructor
  · simpa only [h1, h3, h4] using hi.record
  · simpa only [h3] using hi.distinct
  · simpa only [h1, h4] using hi.once
  · simpa only [h1, h2] using hi.secrets
  · intro x hx
    rw [drawn_append hh]
    exact List.mem_append_left _ (hi.secrets_drawn x (by simpa only [h1, h2] using hx))
  · simpa only [h1, h2] using hi.issued_minted
  · rw [h3]
    exact Nat.le_trans (active_mono hc s.links) hi.active

/-- A change that keeps everything the invariant reads of a record except `revokedAt`. -/
theorem inv_revoke (hi : HistoryInv hash s) (hh : s'.history = s.history ++ [e])
    (hc : s.clock ≤ s'.clock) {fault now id} (hop : e.op = .revoke fault now id) {l : ShareLink}
    (hl : s.links.find? (fun l => l.id == id) = some l)
    (hf : s'.links = prune now
      (modifyFirst (fun l => l.id == id) (fun _ => { l with revokedAt := some now }) s.links)) :
    HistoryInv hash s' := by
  have h1 : s'.minted = s.minted := by rw [minted_append hh]; simp [LinkEvent.minted?, hop]
  have h2 : s'.issued = s.issued := by rw [issued_append hh]; simp [LinkEvent.issued?, hop]
  have h4 : ∀ t, s'.issuedFor t = s.issuedFor t := issuedFor_congr h2
  have hsub := prune_sublist now
    (modifyFirst (fun l => l.id == id) (fun _ => { l with revokedAt := some now }) s.links)
  rw [← hf] at hsub
  constructor
  · intro x hx
    rw [h1]
    simp only [h4]
    rcases mem_modifyFirst hl (hsub.subset hx) with rfl | hx
    · exact hi.record l (List.mem_of_find?_eq_some hl)
    · exact hi.record x hx
  · refine List.Nodup.sublist (hsub.map _) ?_
    rw [map_modifyFirst ShareLink.tokenHash hl rfl]
    exact hi.distinct
  · simpa only [h1, h4] using hi.once
  · simpa only [h1, h2] using hi.secrets
  · intro x hx
    rw [drawn_append hh]
    exact List.mem_append_left _ (hi.secrets_drawn x (by simpa only [h1, h2] using hx))
  · simpa only [h1, h2] using hi.issued_minted
  · calc s'.links.countP (fun l => l.isActive s'.clock)
        ≤ (modifyFirst (fun l => l.id == id) (fun _ => { l with revokedAt := some now }) s.links).countP
            (fun l => l.isActive s'.clock) := hsub.countP_le
      _ ≤ s.links.countP (fun l => l.isActive s'.clock) :=
          countP_modifyFirst_le _ hl (by simp [ShareLink.isActive])
      _ ≤ s.links.countP (fun l => l.isActive s.clock) := active_mono hc s.links
      _ ≤ maxActiveLinks := hi.active

theorem fresh_of_append (hh : s'.history = s.history ++ [e]) (hs : Sound hash s') {x : String}
    (hd : e.drew = some x) : x ∉ s.drawn ∧ x ∈ s'.drawn := by
  have hn := hs.fresh
  rw [drawn_append hh, hd] at hn
  rw [drawn_append hh, hd]
  refine ⟨?_, by simp⟩
  intro hx
  exact (List.nodup_append.mp hn).2.2 x hx x (by simp) rfl

theorem inv_mint (hi : HistoryInv hash s) (hs : Sound hash s') (hh : s'.history = s.history ++ [e])
    {fault now ttl singleUse label secret idBytes}
    (hop : e.op = .mint fault now ttl singleUse label secret idBytes) (hclock : s'.clock = now)
    (hr : e.reached = true) (hd : e.drew = some (secretToken secret))
    (hactive : s.links.countP (fun l => l.isActive now) < maxActiveLinks)
    (hf : s'.links = prune now (s.links ++ [⟨hexEncode idBytes.toList,
      storedHash hash (secretToken secret), sanitizeLabel label, saturatingAdd now ttl, singleUse,
      none, [], none⟩])) : HistoryInv hash s' := by
  have h1 : s'.minted = s.minted ++ [(secretToken secret, singleUse)] := by
    rw [minted_append hh]; simp [LinkEvent.minted?, hop, hr]
  have h2 : s'.issued = s.issued := by rw [issued_append hh]; simp [LinkEvent.issued?, hop]
  have h4 : ∀ t, s'.issuedFor t = s.issuedFor t := issuedFor_congr h2
  obtain ⟨hnew, hin⟩ := fresh_of_append hh hs hd
  have hold : ∀ x ∈ s.drawn, x ∈ s'.drawn := by
    intro x hx
    rw [drawn_append hh]
    exact List.mem_append_left _ hx
  -- the new token was never drawn before, so no earlier session belongs to it
  have hnone : s.issuedFor (secretToken secret) = [] := by
    simp only [LinkRun.issuedFor, List.map_eq_nil_iff, List.filter_eq_nil_iff, beq_iff_eq]
    intro ts hts he
    exact hnew (hi.secrets_drawn _ (List.mem_append_left _ (he ▸ hi.issued_minted ts hts)))
  have hsub := prune_sublist now (s.links ++ [⟨hexEncode idBytes.toList,
    storedHash hash (secretToken secret), sanitizeLabel label, saturatingAdd now ttl, singleUse,
    none, [], none⟩])
  rw [← hf] at hsub
  have hsecrets : ∀ x ∈ s'.minted.map Prod.fst ++ s'.issued.map Prod.snd,
      x = secretToken secret ∨ x ∈ s.minted.map Prod.fst ++ s.issued.map Prod.snd := by
    intro x hx
    simp only [h1, h2, List.map_append, List.map_cons, List.map_nil, List.mem_append,
      List.mem_singleton] at hx ⊢
    tauto
  constructor
  · intro l hl
    rw [h1]
    simp only [h4]
    rcases List.mem_append.mp (hsub.subset hl) with hl | hl
    · obtain ⟨t, ht, hrest⟩ := hi.record l hl
      exact ⟨t, List.mem_append_left _ ht, hrest⟩
    · rw [List.mem_singleton] at hl
      subst hl
      refine ⟨secretToken secret, by simp, rfl, by simp [hnone, lastSessions], by simp [hnone], ?_⟩
      simp only [saturatingAdd]
      omega
  · refine List.Nodup.sublist (hsub.map _) ?_
    simp only [List.map_append, List.map_cons, List.map_nil]
    refine List.nodup_append.mpr ⟨hi.distinct, List.nodup_singleton _, ?_⟩
    intro a ha b hb hab
    rw [List.mem_singleton] at hb
    obtain ⟨l, hl, rfl⟩ := List.mem_map.mp ha
    obtain ⟨t, ht, hth, -⟩ := hi.record l hl
    have htd : t ∈ s.drawn :=
      hi.secrets_drawn t (List.mem_append_left _ (List.mem_map.mpr ⟨_, ht, rfl⟩))
    have he := hs.collision_free t (List.mem_append_left _ (hold t htd)) (secretToken secret)
      (List.mem_append_left _ hin) (storedHash_inj (by rw [← hth, hab, hb]))
    exact hnew (he ▸ htd)
  · intro t ht
    rw [h4]
    rw [h1, List.mem_append, List.mem_singleton] at ht
    rcases ht with ht | ht
    · exact hi.once t ht
    · rw [Prod.mk.injEq] at ht
      rw [ht.1, hnone]
      simp
  · rw [h1, h2]
    simp only [List.map_append, List.map_cons, List.map_nil, List.append_assoc]
    have hn := hi.secrets
    rw [List.nodup_append] at hn ⊢
    obtain ⟨ha, hb, hab⟩ := hn
    refine ⟨ha, ?_, ?_⟩
    · refine List.nodup_cons.mpr ⟨?_, hb⟩
      intro hx
      exact hnew (hi.secrets_drawn _ (List.mem_append_right _ hx))
    · intro a hx b hy
      rcases List.mem_cons.mp hy with rfl | hy
      · intro he
        exact hnew (he ▸ hi.secrets_drawn a (List.mem_append_left _ hx))
      · exact hab a hx b hy
  · intro x hx
    rcases hsecrets x hx with rfl | hx
    · exact hin
    · exact hold x (hi.secrets_drawn x hx)
  · intro ts hts
    rw [h2] at hts
    rw [h1, List.map_append]
    exact List.mem_append_left _ (hi.issued_minted ts hts)
  · have hle := hsub.countP_le (p := fun l => l.isActive s'.clock)
    rw [hclock] at hle ⊢
    rw [List.countP_append, List.countP_cons, List.countP_nil] at hle
    split at hle <;> omega

theorem lastSessions_append (xs : List String) (x : String) :
    lastSessions (lastSessions xs ++ [x]) = lastSessions (xs ++ [x]) := by
  simp only [lastSessions, List.length_append, List.length_drop, List.length_cons, List.length_nil,
    List.drop_append, maxSessionsPerLink, List.drop_drop]
  congr 2 <;> omega

theorem inv_redeem (hi : HistoryInv hash s) (hs : Sound hash s')
    (hh : s'.history = s.history ++ [e]) (hc : s.clock ≤ s'.clock) {fault now token secret}
    (hop : e.op = .redeem fault now token .query secret) (hr : e.reached = true)
    (hd : e.drew = some (secretToken secret)) {l : ShareLink}
    (hl : s.links.find? (selects hash token .query) = some l)
    (huse : l.singleUse = true → l.usedAt = none)
    (hf : s'.links = prune now (modifyFirst (selects hash token .query)
      (stampRedeemed hash now (secretToken secret)) s.links)) : HistoryInv hash s' := by
  have h1 : s'.minted = s.minted := by rw [minted_append hh]; simp [LinkEvent.minted?, hop]
  have h2 : s'.issued = s.issued ++ [(token, secretToken secret)] := by
    rw [issued_append hh]; simp [LinkEvent.issued?, hop, hr]
  obtain ⟨hnew, hin⟩ := fresh_of_append hh hs hd
  have hold : ∀ x ∈ s.drawn, x ∈ s'.drawn := by
    intro x hx
    rw [drawn_append hh]
    exact List.mem_append_left _ hx
  have hpres : token ∈ s'.presented := by
    rw [presented_append hh]
    simp [LinkEvent.presented?, hop]
  have hfor : ∀ t, s'.issuedFor t =
      s.issuedFor t ++ (if token = t then [secretToken secret] else []) := by
    intro t
    simp only [LinkRun.issuedFor, h2, List.filter_append, List.map_append, List.filter_cons,
      List.filter_nil, beq_iff_eq]
    split <;> rfl
  -- the record the presented token selects is the one minted with that token
  have hsel : ∀ x ∈ s.links, ∀ t, x.tokenHash = storedHash hash t → t ∈ s.minted.map Prod.fst →
      (selects hash token .query x = true ↔ t = token) := by
    intro x _ t hxt htm
    have htd : t ∈ s'.drawn := hold t (hi.secrets_drawn t (List.mem_append_left _ htm))
    rw [selects, hxt, hashMatches_iff]
    constructor
    · intro he
      exact hs.collision_free t (List.mem_append_left _ htd) token (List.mem_append_right _ hpres) he
    · rintro rfl
      rfl
  have hlmem := List.mem_of_find?_eq_some hl
  obtain ⟨tl, htl, hthl, hsess, hused, hexp⟩ := hi.record l hlmem
  have htok : tl = token := (hsel l hlmem tl hthl (List.mem_map.mpr ⟨_, htl, rfl⟩)).mp
    (List.find?_some hl)
  subst htok
  have hsub := prune_sublist now (modifyFirst (selects hash tl .query)
    (stampRedeemed hash now (secretToken secret)) s.links)
  rw [← hf] at hsub
  constructor
  · intro x hx
    rw [h1]
    simp only [hfor]
    have hrec : ∀ y ∈ s.links, y.tokenHash ≠ l.tokenHash → ∃ t, (t, y.singleUse) ∈ s.minted ∧
        y.tokenHash = storedHash hash t ∧
        y.sessionHashes = lastSessions
          ((s.issuedFor t ++ if tl = t then [secretToken secret] else []).map (storedHash hash)) ∧
        (s.issuedFor t ++ (if tl = t then [secretToken secret] else []) ≠ [] →
          y.usedAt.isSome = true) ∧ y.expiresAt < 2^64 := by
      intro y hy hne
      obtain ⟨t, ht, hth, hrest⟩ := hi.record y hy
      have htt : tl ≠ t := by
        rintro rfl
        exact hne (hth.trans hthl.symm)
      exact ⟨t, ht, hth, by simpa [htt] using hrest⟩
    by_cases hxl : x.tokenHash = l.tokenHash
    · have hx' := eq_of_mem_modifyFirst ShareLink.tokenHash hl rfl hi.distinct (hsub.subset hx) hxl
      subst hx'
      refine ⟨tl, htl, hthl, ?_, ?_, hexp⟩
      · simp only [↓reduceIte, List.map_append, List.map_cons, List.map_nil]
        rw [← lastSessions_append, ← hsess]
        rfl
      · intro _
        simp only [stampRedeemed]
        cases l.usedAt <;> rfl
    · rcases mem_modifyFirst hl (hsub.subset hx) with rfl | hx'
      · exact absurd rfl hxl
      · exact hrec x hx' hxl
  · refine List.Nodup.sublist (hsub.map _) ?_
    rw [map_modifyFirst ShareLink.tokenHash hl rfl]
    exact hi.distinct
  · intro t ht
    rw [h1] at ht
    rw [hfor]
    by_cases hte : tl = t
    · subst hte
      have hsingle : l.singleUse = true := by
        have he := List.inj_on_of_nodup_map (List.nodup_append.mp hi.secrets).1 htl ht rfl
        exact congrArg Prod.snd he
      have hempty : s.issuedFor tl = [] := by
        by_contra hne
        have h := hused hne
        rw [huse hsingle] at h
        simp at h
      simp [hempty]
    · simpa [hte] using hi.once t ht
  · rw [h1, h2]
    simp only [List.map_append, List.map_cons, List.map_nil, ← List.append_assoc]
    refine List.nodup_append.mpr ⟨hi.secrets, List.nodup_singleton _, ?_⟩
    intro a ha b hb hab
    rw [List.mem_singleton] at hb
    exact hnew (hb ▸ hab ▸ hi.secrets_drawn a ha)
  · intro x hx
    rw [h1, h2] at hx
    simp only [List.map_append, List.map_cons, List.map_nil, ← List.append_assoc] at hx
    rcases List.mem_append.mp hx with hx | hx
    · exact hold x (hi.secrets_drawn x hx)
    · rw [List.mem_singleton] at hx
      exact hx ▸ hin
  · intro ts hts
    rw [h1]
    rw [h2, List.mem_append, List.mem_singleton] at hts
    rcases hts with hts | rfl
    · exact hi.issued_minted ts hts
    · exact List.mem_map.mpr ⟨_, htl, rfl⟩
  · calc s'.links.countP (fun l => l.isActive s'.clock)
        ≤ (modifyFirst (selects hash tl .query) (stampRedeemed hash now (secretToken secret))
            s.links).countP (fun l => l.isActive s'.clock) := hsub.countP_le
      _ ≤ s.links.countP (fun l => l.isActive s'.clock) :=
          countP_modifyFirst_le _ hl (by simp [ShareLink.isActive, stampRedeemed])
      _ ≤ s.links.countP (fun l => l.isActive s.clock) := active_mono hc s.links
      _ ≤ maxActiveLinks := hi.active

theorem historyInv_init : HistoryInv hash LinkRun.init := by
  constructor <;> simp [LinkRun.init, LinkRun.links, LinkRun.minted, LinkRun.issued]

theorem historyInv_step (s : LinkRun) (op : LinkOp) (s' : LinkRun)
    (hi : Sound hash s → HistoryInv hash s) (h : s.step hash op = some s') (hs : Sound hash s') :
    HistoryInv hash s' := by
  obtain ⟨hc, hclock, e, hop, hh, hchange⟩ := step_change h
  have hi := hi (hs.of_append hh)
  have hle : s.clock ≤ s'.clock := hclock ▸ hc
  cases hchange with
  | unchanged hr hf => exact inv_unchanged hi hh hle hr hf
  | mint hop' hr hd hactive hf =>
    refine inv_mint hi hs hh hop' ?_ hr hd hactive hf
    rw [hclock, ← hop, hop']
    rfl
  | revoke hop' hr hd l hl hf => exact inv_revoke hi hh hle hop' hl hf
  | redeem hop' hr hd l hl hrev hexp huse hf =>
    exact inv_redeem hi hs hh hle hop' hr hd hl huse hf

theorem reachable_historyInv (hr : Reachable (LinkRun.step hash) LinkRun.init s)
    (hs : Sound hash s) : HistoryInv hash s :=
  reachable_invariant (P := fun s => Sound hash s → HistoryInv hash s) historyInv_step
    (fun _ => historyInv_init) hr hs

end

end CtAgent.LocalAuth
