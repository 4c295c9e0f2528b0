import CtAgent.LocalAuth.LinkRuns

/-! What every history of the share-link store keeps. The list of sessions a record holds is the
tail of the sessions its token was given, so a cookie is judged by the history alone. -/
namespace CtAgent.LocalAuth
open CtAgent.Lib CtAgent.Codec CtAgent.SecretFile

section ModifyFirst
variable {α β : Type*} {p : α → Bool} {f : α → α} {xs : List α} {x y : α}

theorem mem_modifyFirst (hf : xs.find? p = some y) (hx : x ∈ modifyFirst p f xs) :
    x = f y ∨ x ∈ xs := by
  induction xs with
  | nil => simp at hf
  | cons z xs ih =>
    by_cases hz : p z = true
    · rw [List.find?_cons_of_pos hz, Option.some.injEq] at hf
      simp only [modifyFirst, hz, ↓reduceIte, List.mem_cons] at hx
      rcases hx with hx | hx
      · exact Or.inl (hf ▸ hx)
      · exact Or.inr (List.mem_cons_of_mem _ hx)
    · rw [List.find?_cons_of_neg hz] at hf
      simp only [modifyFirst, hz, Bool.false_eq_true, ↓reduceIte, List.mem_cons] at hx
      rcases hx with hx | hx
      · exact Or.inr (hx ▸ List.mem_cons_self)
      · exact (ih hf hx).imp id (List.mem_cons_of_mem _)

theorem mem_modifyFirst_of_mem (hf : xs.find? p = some y) (hx : x ∈ xs) :
    x = y ∨ x ∈ modifyFirst p f xs := by
  induction xs with
  | nil => simp at hf
  | cons z xs ih =>
    by_cases hz : p z = true
    · rw [List.find?_cons_of_pos hz, Option.some.injEq] at hf
      simp only [modifyFirst, hz, ↓reduceIte, List.mem_cons] at hx ⊢
      subst hf
      tauto
    · rw [List.find?_cons_of_neg hz] at hf
      simp only [modifyFirst, hz, Bool.false_eq_true, ↓reduceIte, List.mem_cons] at hx ⊢
      rcases hx with hx | hx
      · tauto
      · have := ih hf hx
        tauto

theorem apply_mem_modifyFirst (hf : xs.find? p = some y) : f y ∈ modifyFirst p f xs := by
  induction xs with
  | nil => simp at hf
  | cons z xs ih =>
    by_cases hz : p z = true
    · rw [List.find?_cons_of_pos hz, Option.some.injEq] at hf
      subst hf
      simp [modifyFirst, hz]
    · rw [List.find?_cons_of_neg hz] at hf
      simp only [modifyFirst, hz, Bool.false_eq_true, ↓reduceIte]
      exact List.mem_cons_of_mem _ (ih hf)

theorem map_modifyFirst (g : α → β) (hf : xs.find? p = some y) (hg : g (f y) = g y) :
    (modifyFirst p f xs).map g = xs.map g := by
  induction xs with
  | nil => rfl
  | cons z xs ih =>
    by_cases hz : p z = true
    · rw [List.find?_cons_of_pos hz, Option.some.injEq] at hf
      subst hf
      simp [modifyFirst, hz, hg]
    · rw [List.find?_cons_of_neg hz] at hf
      simp [modifyFirst, hz, ih hf]

/-- With distinct keys, the element under the changed key is the changed one. -/
theorem eq_of_mem_modifyFirst (g : α → β) (hf : xs.find? p = some y) (hg : g (f y) = g y)
    (hn : (xs.map g).Nodup) (hx : x ∈ modifyFirst p f xs) (hxy : g x = g y) : x = f y := by
  rw [← map_modifyFirst g hf hg] at hn
  exact List.inj_on_of_nodup_map hn hx (apply_mem_modifyFirst hf) (hxy.trans hg.symm)

theorem countP_modifyFirst_le (q : α → Bool) (hf : xs.find? p = some y)
    (hq : q (f y) = true → q y = true) : (modifyFirst p f xs).countP q ≤ xs.countP q := by
  induction xs with
  | nil => simp at hf
  | cons z xs ih =>
    by_cases hz : p z = true
    · rw [List.find?_cons_of_pos hz, Option.some.injEq] at hf
      subst hf
      simp only [modifyFirst, hz, ↓reduceIte, List.countP_cons]
      by_cases h1 : q (f z) = true
      · simp [h1, hq h1]
      · simp [h1]
    · rw [List.find?_cons_of_neg hz] at hf
      simp only [modifyFirst, hz, Bool.false_eq_true, ↓reduceIte, List.countP_cons]
      have := ih hf
      omega

end ModifyFirst

theorem prune_sublist (now : ℕ) (links : List ShareLink) : (prune now links).Sublist links :=
  List.filter_sublist

/-- Pruning keeps every link that has not expired. -/
theorem mem_prune {now : ℕ} {links : List ShareLink} {l : ShareLink} (hl : l ∈ links)
    (hb : l.expiresAt < 2^64) (he : now < l.expiresAt) : l ∈ prune now links := by
  refine List.mem_filter.mpr ⟨hl, decide_eq_true ?_⟩
  unfold saturatingAdd
  omega

theorem looksLikeLinkToken_secretToken (secret : Secret) :
    looksLikeLinkToken (secretToken secret) = true := by
  have hall := base64Chars_all secret.toList
  have hlen := base64Chars_length_le secret.toList
  rw [Vector.length_toList] at hlen
  have hsum : (List.map Char.utf8Size (base64Chars secret.toList)).sum =
      (base64Chars secret.toList).length := by
    have : (base64Chars secret.toList).map Char.utf8Size =
        (base64Chars secret.toList).map (fun _ => 1) :=
      List.map_congr_left (fun c hc => (hall c hc).2)
    rw [this]
    simp
  have hne : base64Chars secret.toList ≠ [] := by
    intro h
    rw [h] at hlen
    simp at hlen
  simp only [looksLikeLinkToken, secretToken, base64url, strLen, String.toList_ofList, hsum,
    Bool.and_eq_true, decide_eq_true_eq, List.all_eq_true]
  refine ⟨⟨?_, by omega⟩, fun c hc => (hall c hc).1⟩
  simpa using hne

section Hash
variable {hash : String → Vector UInt8 32}

theorem storedHash_inj {a b : String} (h : storedHash hash a = storedHash hash b) :
    hash a = hash b := by
  have hl : (hash a).toList.length = (hash b).toList.length := by simp
  exact Vector.toList_inj.mp (hexEncode_injOn hl h)

theorem hashMatches_iff (a b : String) :
    hashMatches hash a (storedHash hash b) = true ↔ hash b = hash a := by
  have h := hexDecode_hexEncode 32 (hash b).toList (by simp)
  simp only [hashMatches, storedHash, h]
  rw [ctEq_iff, Vector.toList_inj]

end Hash

theorem load_eq {fault : Option StoreFault} {file : LinksFile} {links : List ShareLink}
    (h : load fault file = some links) : links = file.getD [] := by
  unfold load at h
  split at h
  · cases h
  · exact (Option.some.inj h).symm

/-- A save writes the pruned list exactly when it reaches the file, and reports `true` only then. -/
theorem save_eq (fault : Option StoreFault) (now : ℕ) (links : List ShareLink) (file : LinksFile) :
    (save fault now links file).2 = (if reaches fault then some (prune now links) else file) ∧
      ((save fault now links file).1 = true → reaches fault = true) := by
  rcases fault with _ | _ | _ | _ | step
  · simp [save, reaches]
  · simp [save, reaches]
  · simp [save, reaches]
  · simp [save, reaches]
  · cases step <;> simp [save, reaches, writePrivate]

/-- Everything one call can do to the store. -/
inductive Change (hash : String → Vector UInt8 32) (s s' : LinkRun) (e : LinkEvent) : Prop
  | unchanged (hr : e.reached = false) (hf : s'.file = s.file)
  | mint {fault now ttl singleUse label secret idBytes}
      (hop : e.op = .mint fault now ttl singleUse label secret idBytes) (hr : e.reached = true)
      (hd : e.drew = some (secretToken secret))
      (hactive : s.links.countP (fun l => l.isActive now) < maxActiveLinks)
      (hf : s'.links = prune now (s.links ++ [⟨hexEncode idBytes.toList,
        storedHash hash (secretToken secret), sanitizeLabel label, saturatingAdd now ttl, singleUse,
        none, [], none⟩]))
  | revoke {fault now id} (hop : e.op = .revoke fault now id) (hr : e.reached = true)
      (hd : e.drew = none) (l : ShareLink) (hl : s.links.find? (fun l => l.id == id) = some l)
      (hf : s'.links = prune now
        (modifyFirst (fun l => l.id == id) (fun _ => { l with revokedAt := some now }) s.links))
  | redeem {fault now token secret} (hop : e.op = .redeem fault now token .query secret)
      (hr : e.reached = true) (hd : e.drew = some (secretToken secret)) (l : ShareLink)
      (hl : s.links.find? (selects hash token .query) = some l) (hrev : l.revokedAt = none)
      (hexp : now < l.expiresAt) (huse : l.singleUse = true → l.usedAt = none)
      (hf : s'.links = prune now (modifyFirst (selects hash token .query)
        (stampRedeemed hash now (secretToken secret)) s.links))

section Step
variable {hash : String → Vector UInt8 32} {s s' : LinkRun} {op : LinkOp}

theorem mintOn_ok {now ttl : ℕ} {singleUse : Bool} {label : String} {secret : Secret}
    {idBytes : IdBytes} {links links' : List ShareLink} {m : MintedLink}
    (h : mintOn hash now ttl singleUse label secret idBytes links = .ok (m, links')) :
    links.countP (fun l => l.isActive now) < maxActiveLinks ∧
      links' = links ++ [⟨hexEncode idBytes.toList, storedHash hash (secretToken secret),
        sanitizeLabel label, saturatingAdd now ttl, singleUse, none, [], none⟩] := by
  unfold mintOn at h
  dsimp only at h
  split at h
  · cases h
  · rename_i hc
    cases h
    rw [List.countP_eq_length_filter]
    exact ⟨not_le.mp hc, rfl⟩

theorem revokeOn_ok {now : ℕ} {id : String} {links links' : List ShareLink} {r : ShareLink}
    (h : revokeOn now id links = .ok (r, links')) :
    ∃ l, links.find? (fun l => l.id == id) = some l ∧ l.revokedAt = none ∧
      r = { l with revokedAt := some now } ∧
      links' = modifyFirst (fun l => l.id == id) (fun _ => r) links := by
  unfold revokeOn at h
  split at h
  · cases h
  · rename_i l hl
    split at h
    · cases h
    · rename_i hr
      cases h
      exact ⟨l, hl, by simpa using hr, rfl, rfl⟩

/-- The checks that both presentations pass. -/
theorem redeemOn_ok {now : ℕ} {token : String} {via : LinkPresentation} {secret : Secret}
    {links links' : List ShareLink} {r : RedeemedLink}
    (h : redeemOn hash now token via secret links = .ok (r, links')) :
    ∃ l, links.find? (selects hash token via) = some l ∧ l.revokedAt = none ∧ now < l.expiresAt := by
  unfold redeemOn at h
  split at h
  · cases h
  · rename_i l hl
    split at h
    · cases h
    · rename_i hr
      split at h
      · cases h
      · exact ⟨l, hl, by simpa using hr, by omega⟩

theorem redeemOn_query_ok {now : ℕ} {token : String} {secret : Secret}
    {links links' : List ShareLink} {r : RedeemedLink}
    (h : redeemOn hash now token .query secret links = .ok (r, links')) :
    ∃ l, links.find? (selects hash token .query) = some l ∧ l.revokedAt = none ∧
      now < l.expiresAt ∧ (l.singleUse = true → l.usedAt = none) ∧
      r = ⟨l.id, l.label, l.singleUse, l.expiresAt - now, l.usedAt.isNone, some (secretToken secret)⟩ ∧
      links' = modifyFirst (selects hash token .query)
        (stampRedeemed hash now (secretToken secret)) links := by
  obtain ⟨l, hl, hr, hn⟩ := redeemOn_ok h
  -- behind the common checks a query is refused only for a use already made
  simp only [redeemOn, hl, hr, Option.isSome_none, Bool.false_eq_true, if_false, Nat.not_le.mpr hn] at h
  split at h
  · cases h
  · rename_i hu
    cases h
    refine ⟨l, hl, hr, hn, ?_, rfl, rfl⟩
    intro hs
    simpa [hs] using hu

theorem mintAt_file (hash : String → Vector UInt8 32) (fault now ttl singleUse label secret idBytes)
    (file : LinksFile) :
    (mintAt hash fault now ttl singleUse label secret idBytes file).2 =
      match (load fault file).map (mintOn hash now ttl singleUse label secret idBytes) with
      | some (.ok (_, links')) => if reaches fault then some (prune now links') else file
      | _ => file := by
  unfold mintAt
  cases hl : load fault file with
  | none => rfl
  | some links =>
    cases hm : mintOn hash now ttl singleUse label secret idBytes links with
    | error why => simp [hm]
    | ok r =>
      have hs := save_eq fault now r.2 file
      simp only [Option.map_some, hm]
      cases hv : save fault now r.2 file with
      | mk ok f => cases ok <;> simp_all

theorem revokeAt_file (fault now id) (file : LinksFile) :
    (revokeAt fault now id file).2 =
      match (load fault file).map (revokeOn now id) with
      | some (.ok (_, links')) => if reaches fault then some (prune now links') else file
      | _ => file := by
  unfold revokeAt
  cases hl : load fault file with
  | none => rfl
  | some links =>
    cases hm : revokeOn now id links with
    | error why => simp [hm]
    | ok r =>
      have hs := save_eq fault now r.2 file
      simp only [Option.map_some, hm]
      cases hv : save fault now r.2 file with
      | mk ok f => cases ok <;> simp_all

theorem redeemAt_query_file (hash : String → Vector UInt8 32) (fault now token secret)
    (file : LinksFile) (ht : looksLikeLinkToken token = true) :
    (redeemAt hash fault now token .query secret file).2 =
      match (load fault file).map (redeemOn hash now token .query secret) with
      | some (.ok (_, links')) => if reaches fault then some (prune now links') else file
      | _ => file := by
  unfold redeemAt
  cases hl : load fault file with
  | none => simp [ht]
  | some links =>
    cases hm : redeemOn hash now token .query secret links with
    | error e => simp [hm, ht]
    | ok r =>
      have hs := save_eq fault now r.2 file
      simp only [Option.map_some, hm, ht]
      cases hv : save fault now r.2 file with
      | mk ok f => cases ok <;> simp_all

/-- A call that is not a redemption through the URL of a well-formed token writes nothing. -/
theorem redeemAt_file_eq {fault now token via secret} (file : LinksFile)
    (h : (looksLikeLinkToken token && via == .query) = false) :
    (redeemAt hash fault now token via secret file).2 = file := by
  unfold redeemAt
  split
  · rfl
  · rename_i ht
    cases via with
    | query => simp_all
    | cookie =>
      cases load fault file with
      | none => rfl
      | some links => cases hm : redeemOn hash now token .cookie secret links <;> simp [hm]

theorem step_change (h : s.step hash op = some s') :
    s.clock ≤ op.now ∧ s'.clock = op.now ∧
      ∃ e, e.op = op ∧ s'.history = s.history ++ [e] ∧ Change hash s s' e := by
  unfold LinkRun.step at h
  split at h
  · rename_i hc
    have hs := Option.some.inj h
    subst hs
    refine ⟨hc, rfl, _, rfl, rfl, ?_⟩
    cases op with
    | mint fault now ttl singleUse label secret idBytes =>
      have hf := mintAt_file hash fault now ttl singleUse label secret idBytes s.file
      cases hl : load fault s.file with
      | none => exact .unchanged (by simp [reachedBy, drawnBy, hl]) (by simpa [perform, hl] using hf)
      | some links =>
        cases hm : mintOn hash now ttl singleUse label secret idBytes links with
        | error why =>
          exact .unchanged (by simp [reachedBy, drawnBy, hl, hm]) (by simpa [perform, hl, hm] using hf)
        | ok r =>
          have hlinks : links = s.links := load_eq hl
          by_cases hr : reaches fault = true
          · obtain ⟨ha, hn⟩ := mintOn_ok hm
            refine .mint rfl (by simp [reachedBy, drawnBy, hl, hm, hr]) (by simp [drawnBy, hl, hm])
              (hlinks ▸ ha) ?_
            simp only [LinkRun.links, perform, hf, hl, Option.map_some, hm, hr, ↓reduceIte,
              Option.getD_some, hn]
            rw [hlinks]
            rfl
          · exact .unchanged (by simp [reachedBy, drawnBy, hl, hm, hr])
              (by simpa [perform, hl, hm, hr] using hf)
    | revoke fault now id =>
      have hf := revokeAt_file fault now id s.file
      cases hl : load fault s.file with
      | none => exact .unchanged (by simp [reachedBy, hl]) (by simpa [perform, hl] using hf)
      | some links =>
        cases hm : revokeOn now id links with
        | error why =>
          exact .unchanged (by simp [reachedBy, hl, hm]) (by simpa [perform, hl, hm] using hf)
        | ok r =>
          have hlinks : links = s.links := load_eq hl
          by_cases hr : reaches fault = true
          · obtain ⟨l, h1, -, h3, h4⟩ := revokeOn_ok hm
            refine .revoke rfl (by simp [reachedBy, hl, hm, hr]) rfl l (hlinks ▸ h1) ?_
            simp only [LinkRun.links, perform, hf, hl, Option.map_some, hm, hr, ↓reduceIte,
              Option.getD_some, h4, h3]
            rw [hlinks]
            rfl
          · exact .unchanged (by simp [reachedBy, hl, hm, hr]) (by simpa [perform, hl, hm, hr] using hf)
    | redeem fault now token via secret =>
      by_cases hq : (looksLikeLinkToken token && via == .query) = true
      · rw [Bool.and_eq_true, beq_iff_eq] at hq
        obtain ⟨ht, rfl⟩ := hq
        have hf := redeemAt_query_file hash fault now token secret s.file ht
        cases hl : load fault s.file with
        | none => exact .unchanged (by simp [reachedBy, drawnBy, hl]) (by simpa [perform, hl] using hf)
        | some links =>
          cases hm : redeemOn hash now token .query secret links with
          | error e =>
            exact .unchanged (by simp [reachedBy, drawnBy, hl, hm]) (by simpa [perform, hl, hm] using hf)
          | ok r =>
            have hlinks : links = s.links := load_eq hl
            by_cases hr : reaches fault = true
            · obtain ⟨l, h1, h2, h3, h4, -, h6⟩ := redeemOn_query_ok hm
              refine .redeem rfl (by simp [reachedBy, drawnBy, hl, hm, hr, ht])
                (by simp [drawnBy, hl, hm, ht]) l (hlinks ▸ h1) h2 h3 h4 ?_
              simp only [LinkRun.links, perform, hf, hl, Option.map_some, hm, hr, ↓reduceIte,
                Option.getD_some, h6]
              rw [hlinks]
              rfl
            · exact .unchanged (by simp [reachedBy, drawnBy, hl, hm, hr])
                (by simpa [perform, hl, hm, hr] using hf)
      · rw [Bool.not_eq_true] at hq
        exact .unchanged (by simp [reachedBy, drawnBy, hq]) (redeemAt_file_eq s.file hq)
  · cases h

end Step

end CtAgent.LocalAuth
