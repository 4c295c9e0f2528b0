import CtAgent.LocalAuth.LinkInv

/-! Two processes on one links file: the agent redeems, the command line mints and revokes. A call
loads the list in one step and saves its changed copy in a later one; the store's mutex keeps each
process to one call at a time, and nothing orders the steps of the two. -/
namespace CtAgent.LocalAuth
open CtAgent.Lib CtAgent.Codec CtAgent.SecretFile

inductive Process where
  | agent | cli
  deriving DecidableEq, Repr

def LinkOp.process : LinkOp → Process
  | .mint .. | .revoke .. => .cli
  | .redeem .. => .agent

/-- A call that returned `Ok`; `redeemed` has the record that was redeemed. -/
inductive Returned where
  | minted (m : MintedLink)
  | revoked (l : ShareLink)
  | redeemed (l : ShareLink) (via : LinkPresentation)
  deriving DecidableEq, Repr

section
variable (hash : String → Vector UInt8 32)

/-- A call up to its save: what it will return and the list it will write, if it writes one.
`none` when it returns an error. -/
def judge (op : LinkOp) (file : LinksFile) : Option (Returned × Option (List ShareLink)) :=
  match op with
  | .mint fault now ttl singleUse label secret idBytes =>
    match (load fault file).map (mintOn hash now ttl singleUse label secret idBytes) with
    | some (.ok (m, links')) => some (.minted m, some links')
    | _ => none
  | .revoke fault now id =>
    match (load fault file).map (revokeOn now id) with
    | some (.ok (l, links')) => some (.revoked l, some links')
    | _ => none
  | .redeem fault now token via secret =>
    if looksLikeLinkToken token then
      match load fault file with
      | none => none
      | some links =>
        match links.find? (selects hash token via), redeemOn hash now token via secret links with
        | some l, .ok (_, links') =>
          some (.redeemed l via, if via = .query then some links' else none)
        | _, _ => none
    else none

/-- A call between its load and its save; `seen` calls had returned when it loaded. -/
structure Pending where
  op : LinkOp
  returns : Returned
  links : List ShareLink
  seen : ℕ
  deriving DecidableEq, Repr

/-- `drawn` are the stored hashes of the tokens that were ever generated. -/
structure SharedRun where
  file : LinksFile
  agent : Option Pending
  cli : Option Pending
  drawn : List String
  history : List Returned
  deriving DecidableEq, Repr

inductive SharedStep where
  | load (op : LinkOp)
  | save (p : Process)
  deriving DecidableEq, Repr

namespace SharedRun

def init : SharedRun := ⟨none, none, none, [], []⟩

def links (s : SharedRun) : List ShareLink := s.file.getD []

def pending (s : SharedRun) : Process → Option Pending
  | .agent => s.agent
  | .cli => s.cli

def setPending (s : SharedRun) (p : Process) (c : Option Pending) : SharedRun :=
  match p with
  | .agent => { s with agent := c }
  | .cli => { s with cli := c }

/-- The stored hash a call generates with its token. -/
def drawnBy (op : LinkOp) : List String :=
  match op with
  | .mint _ _ _ _ _ secret _ => [storedHash hash (secretToken secret)]
  | _ => []

def step (s : SharedRun) : SharedStep → Option SharedRun
  | .load op =>
    if (s.pending op.process).isSome then none
    else
      match judge hash op s.file with
      | none => some s
      -- nothing to save: the operation returns at once
      | some (r, none) => some { s with history := s.history ++ [r] }
      | some (r, some links) =>
        some { s.setPending op.process (some ⟨op, r, links, s.history.length⟩) with
          drawn := s.drawn ++ drawnBy hash op }
  | .save p =>
    match s.pending p with
    | none => none
    | some c =>
      -- the links are those of the load; the file may be another one by now
      let (ok, f) := save c.op.fault c.op.now c.links s.file
      some { s.setPending p none with
        file := f
        history := if ok then s.history ++ [c.returns] else s.history }

end SharedRun
end

/-- The stored token hashes of the links whose revocation returned `Ok`. -/
def revokedHashes (history : List Returned) : List String :=
  history.filterMap (fun r => match r with
    | .revoked l => some l.tokenHash
    | _ => none)

/-- A redemption that will replace the file finds no revocation that returned since its load. -/
def noRevocationSince (s : SharedRun) : SharedStep → Bool
  | .save .agent =>
    match s.agent with
    | some c => !reaches c.op.fault || (revokedHashes (s.history.drop c.seen)).isEmpty
    | none => true
  | _ => true

/-- What holds of the file's list and of the copies that may replace it: `drawn` has their hashes,
and what is in `gone` is revoked in them. -/
structure Listed (drawn gone : List String) (links : List ShareLink) : Prop where
  distinct : (links.map ShareLink.tokenHash).Nodup
  known : ∀ l ∈ links, l.tokenHash ∈ drawn
  revoked : ∀ l ∈ links, l.tokenHash ∈ gone → l.revokedAt.isSome = true

namespace Listed
variable {drawn drawn' gone : List String} {links : List ShareLink}

theorem mono (h : Listed drawn gone links) (hd : ∀ x ∈ drawn, x ∈ drawn') :
    Listed drawn' gone links :=
  ⟨h.distinct, fun l hl => hd _ (h.known l hl), h.revoked⟩

theorem prune (h : Listed drawn gone links) (now : ℕ) : Listed drawn gone (prune now links) := by
  have hsub := prune_sublist now links
  exact ⟨h.distinct.sublist (hsub.map _), fun l hl => h.known l (hsub.subset hl),
    fun l hl => h.revoked l (hsub.subset hl)⟩

/-- A record changed in place keeps its token, and stays revoked if it was. -/
theorem modifyFirst {p : ShareLink → Bool} {f : ShareLink → ShareLink} {y : ShareLink}
    (h : Listed drawn gone links) (hy : links.find? p = some y)
    (ht : (f y).tokenHash = y.tokenHash) (hr : y.revokedAt.isSome = true → (f y).revokedAt.isSome = true) :
    Listed drawn gone (modifyFirst p f links) := by
  have hmem := List.mem_of_find?_eq_some hy
  refine ⟨?_, ?_, ?_⟩
  · rw [map_modifyFirst ShareLink.tokenHash hy ht]
    exact h.distinct
  · intro l hl
    rcases mem_modifyFirst hy hl with rfl | hl
    · rw [ht]
      exact h.known y hmem
    · exact h.known l hl
  · intro l hl hg
    rcases mem_modifyFirst hy hl with rfl | hl
    · exact hr (h.revoked y hmem (ht ▸ hg))
    · exact h.revoked l hl hg

theorem append {l : ShareLink} (h : Listed drawn gone links) (hd : ∀ x ∈ drawn, x ∈ drawn')
    (hl : l.tokenHash ∈ drawn') (hnew : l.tokenHash ∉ drawn) (hg : ∀ x ∈ gone, x ∈ drawn) :
    Listed drawn' gone (links ++ [l]) := by
  refine ⟨?_, ?_, ?_⟩
  · rw [List.map_append, List.map_singleton]
    refine List.nodup_append.mpr ⟨h.distinct, List.nodup_singleton _, ?_⟩
    intro a ha b hb hab
    obtain ⟨x, hx, rfl⟩ := List.mem_map.mp ha
    rw [List.mem_singleton] at hb
    exact hnew (hb ▸ hab ▸ h.known x hx)
  · intro x hx
    rcases List.mem_append.mp hx with hx | hx
    · exact hd _ (h.known x hx)
    · rw [List.mem_singleton] at hx
      exact hx ▸ hl
  · intro x hx hxg
    rcases List.mem_append.mp hx with hx | hx
    · exact h.revoked x hx hxg
    · rw [List.mem_singleton] at hx
      exact absurd (hg _ (hx ▸ hxg)) hnew

/-- A list with a revoked record for a hash has no other record for it. -/
theorem revoke {l : ShareLink} (h : Listed drawn gone links) (hl : l ∈ links)
    (hr : l.revokedAt.isSome = true) : Listed drawn (gone ++ [l.tokenHash]) links := by
  refine ⟨h.distinct, h.known, ?_⟩
  intro x hx hg
  rcases List.mem_append.mp hg with hg | hg
  · exact h.revoked x hx hg
  · rw [List.mem_singleton] at hg
    have hxl := List.inj_on_of_nodup_map h.distinct hx hl hg
    exact hxl ▸ hr

end Listed

/-- No redemption behind a revocation is for the revoked link. -/
def Refused : Returned → Returned → Prop
  | .revoked l, .redeemed x _ => x.tokenHash ≠ l.tokenHash
  | _, _ => True

structure SharedInv (s : SharedRun) : Prop where
  file : Listed s.drawn (revokedHashes s.history) s.links
  agent : ∀ c, s.agent = some c → c.seen ≤ s.history.length ∧
    Listed s.drawn (revokedHashes (s.history.take c.seen)) c.links ∧
    ∃ l, c.returns = .redeemed l .query ∧ l.tokenHash ∉ revokedHashes (s.history.take c.seen)
  cli : ∀ c, s.cli = some c → Listed s.drawn (revokedHashes s.history) c.links ∧
    ((∃ m, c.returns = .minted m) ∨
      ∃ l, c.returns = .revoked l ∧ l ∈ c.links ∧ l.revokedAt.isSome = true)
  known : ∀ x ∈ revokedHashes s.history, x ∈ s.drawn
  refused : s.history.Pairwise Refused

section
variable {hash : String → Vector UInt8 32} {s s' : SharedRun} {op : LinkOp}

theorem revokedHashes_append (h : List Returned) (r : Returned) :
    revokedHashes (h ++ [r]) = revokedHashes h ++ revokedHashes [r] := by
  simp only [revokedHashes, List.filterMap_append]

theorem mem_revokedHashes {h : List Returned} {l : ShareLink} (hl : Returned.revoked l ∈ h) :
    l.tokenHash ∈ revokedHashes h :=
  List.mem_filterMap.mpr ⟨_, hl, rfl⟩

/-- A call is appended that is not a redemption of a revoked link. -/
theorem refused_append {h : List Returned} {r : Returned} (hp : h.Pairwise Refused)
    (hr : ∀ x via, r = .redeemed x via → x.tokenHash ∉ revokedHashes h) :
    (h ++ [r]).Pairwise Refused := by
  refine List.pairwise_append.mpr ⟨hp, List.pairwise_singleton _ _, ?_⟩
  intro a ha b hb
  rw [List.mem_singleton] at hb
  subst hb
  cases a with
  | minted m => trivial
  | redeemed x via => trivial
  | revoked l =>
    cases b with
    | minted m => trivial
    | revoked l' => trivial
    | redeemed x via =>
      intro he
      exact hr x via rfl (he ▸ mem_revokedHashes ha)

theorem judge_mint {fault now ttl singleUse label secret idBytes} {file : LinksFile} {r : Returned}
    {w : Option (List ShareLink)}
    (h : judge hash (.mint fault now ttl singleUse label secret idBytes) file = some (r, w)) :
    (∃ m, r = .minted m) ∧ ∃ l : ShareLink, l.tokenHash = storedHash hash (secretToken secret) ∧
      w = some (file.getD [] ++ [l]) := by
  simp only [judge] at h
  split at h
  · rename_i m links' hm
    cases h
    obtain ⟨links, hl, hmint⟩ := Option.map_eq_some_iff.mp hm
    obtain ⟨-, hn⟩ := mintOn_ok hmint
    exact ⟨⟨m, rfl⟩, _, rfl, by rw [hn, load_eq hl]⟩
  · cases h

theorem judge_revoke {fault now id} {file : LinksFile} {r : Returned} {w : Option (List ShareLink)}
    (h : judge hash (.revoke fault now id) file = some (r, w)) :
    ∃ l, (file.getD []).find? (fun l => l.id == id) = some l ∧
      r = .revoked { l with revokedAt := some now } ∧
      w = some (modifyFirst (fun l => l.id == id) (fun _ => { l with revokedAt := some now })
        (file.getD [])) := by
  simp only [judge] at h
  split at h
  · rename_i r' links' hm
    cases h
    obtain ⟨links, hl, hrev⟩ := Option.map_eq_some_iff.mp hm
    obtain ⟨l, hfind, -, rfl, hn⟩ := revokeOn_ok hrev
    rw [load_eq hl] at hfind hn
    exact ⟨l, hfind, rfl, by rw [hn]⟩
  · cases h

theorem judge_redeem {fault now token via secret} {file : LinksFile} {r : Returned}
    {w : Option (List ShareLink)}
    (h : judge hash (.redeem fault now token via secret) file = some (r, w)) :
    ∃ l, (file.getD []).find? (selects hash token via) = some l ∧ l.revokedAt = none ∧
      r = .redeemed l via ∧ ((via = .cookie ∧ w = none) ∨ (via = .query ∧
        w = some (modifyFirst (selects hash token .query)
          (stampRedeemed hash now (secretToken secret)) (file.getD [])))) := by
  simp only [judge] at h
  split at h
  · cases hl : load fault file with
    | none =>
      rw [hl] at h
      cases h
    | some links =>
      rw [hl] at h
      dsimp only at h
      split at h
      · rename_i l r' links' hfind hok
        cases h
        rw [load_eq hl] at hfind hok
        cases via with
        | cookie =>
          obtain ⟨l', hl', hrev, -⟩ := redeemOn_ok hok
          rw [hfind, Option.some.injEq] at hl'
          exact ⟨l, hfind, hl' ▸ hrev, rfl, Or.inl ⟨rfl, rfl⟩⟩
        | query =>
          obtain ⟨l', hl', hrev, -, -, -, hn⟩ := redeemOn_query_ok hok
          rw [hfind, Option.some.injEq] at hl'
          exact ⟨l, hfind, hl' ▸ hrev, rfl, Or.inr ⟨rfl, by rw [hn]; rfl⟩⟩
      · cases h
  · cases h

theorem inv_load_mint (hi : SharedInv s) {c : Pending} {new : String} {l : ShareLink}
    (hnew : new ∉ s.drawn) (hl : l.tokenHash = new) (hlinks : c.links = s.links ++ [l])
    (hret : ∃ m, c.returns = .minted m) :
    SharedInv { s with cli := some c, drawn := s.drawn ++ [new] } := by
  have hd : ∀ x ∈ s.drawn, x ∈ s.drawn ++ [new] := fun x hx => List.mem_append_left _ hx
  refine ⟨hi.file.mono hd, ?_, ?_, fun x hx => hd x (hi.known x hx), hi.refused⟩
  · intro a ha
    obtain ⟨h1, h2, h3⟩ := hi.agent a ha
    exact ⟨h1, h2.mono hd, h3⟩
  · intro c' hc'
    cases hc'
    refine ⟨?_, Or.inl hret⟩
    rw [hlinks]
    exact hi.file.append hd (by simp [hl]) (hl ▸ hnew) hi.known

theorem inv_load_revoke (hi : SharedInv s) {c : Pending} {id : String} {now : ℕ} {l : ShareLink}
    (hfind : s.links.find? (fun l => l.id == id) = some l)
    (hret : c.returns = .revoked { l with revokedAt := some now })
    (hlinks : c.links = modifyFirst (fun l => l.id == id)
      (fun _ => { l with revokedAt := some now }) s.links) :
    SharedInv { s with cli := some c } := by
  refine ⟨hi.file, hi.agent, ?_, hi.known, hi.refused⟩
  intro c' hc'
  cases hc'
  refine ⟨?_, Or.inr ⟨_, hret, ?_, rfl⟩⟩
  · rw [hlinks]
    exact hi.file.modifyFirst hfind rfl (fun _ => rfl)
  · rw [hlinks]
    exact apply_mem_modifyFirst hfind

theorem not_revoked_of_unrevoked (hi : SharedInv s) {l : ShareLink} (hl : l ∈ s.links)
    (hr : l.revokedAt = none) : l.tokenHash ∉ revokedHashes s.history := by
  intro hg
  have h := hi.file.revoked l hl hg
  rw [hr] at h
  cases h

theorem inv_load_query (hi : SharedInv s) (now : ℕ) (session : String) {c : Pending}
    {p : ShareLink → Bool} {l : ShareLink} (hfind : s.links.find? p = some l)
    (hrev : l.revokedAt = none) (hret : c.returns = .redeemed l .query)
    (hseen : c.seen = s.history.length)
    (hlinks : c.links = modifyFirst p (stampRedeemed hash now session) s.links) :
    SharedInv { s with agent := some c } := by
  refine ⟨hi.file, ?_, hi.cli, hi.known, hi.refused⟩
  intro c' hc'
  cases hc'
  dsimp only
  rw [hseen, List.take_length]
  refine ⟨Nat.le_refl _, ?_, l, hret, ?_⟩
  · rw [hlinks]
    exact hi.file.modifyFirst hfind rfl id
  · exact not_revoked_of_unrevoked hi (List.mem_of_find?_eq_some hfind) hrev

/-- A call that is no revocation returns, and no file changes. -/
theorem inv_returned (hi : SharedInv s) {r : Returned} (hr : revokedHashes [r] = [])
    (hx : ∀ x via, r = .redeemed x via → x.tokenHash ∉ revokedHashes s.history) :
    SharedInv { s with history := s.history ++ [r] } := by
  have hg : revokedHashes (s.history ++ [r]) = revokedHashes s.history := by
    rw [revokedHashes_append, hr, List.append_nil]
  refine ⟨?_, ?_, ?_, ?_, refused_append hi.refused hx⟩
  · rw [hg]
    exact hi.file
  · intro c hc
    obtain ⟨h1, h2, h3⟩ := hi.agent c hc
    dsimp only
    rw [List.take_append_of_le_length h1, List.length_append]
    exact ⟨Nat.le_add_right_of_le h1, h2, h3⟩
  · rw [hg]
    exact hi.cli
  · rw [hg]
    exact hi.known

/-- The list of a save replaces the file, if it gets that far. -/
theorem inv_saved (hi : SharedInv s) (fault : Option StoreFault) (now : ℕ) (links : List ShareLink)
    (hl : reaches fault = true → Listed s.drawn (revokedHashes s.history) links) :
    SharedInv { s with file := (save fault now links s.file).2 } := by
  refine ⟨?_, hi.agent, hi.cli, hi.known, hi.refused⟩
  rw [SharedRun.links, (save_eq fault now links s.file).1]
  split
  · rename_i hr
    exact (hl hr).prune now
  · exact hi.file

theorem inv_save_agent (hi : SharedInv s) {c : Pending} (hc : s.agent = some c)
    (hguard : reaches c.op.fault = true → revokedHashes (s.history.drop c.seen) = []) :
    SharedInv { s with
      agent := none
      file := (save c.op.fault c.op.now c.links s.file).2
      history := if (save c.op.fault c.op.now c.links s.file).1 then s.history ++ [c.returns]
        else s.history } := by
  obtain ⟨-, hlist, l, hret, hgone⟩ := hi.agent c hc
  -- no revocation since the load: the copy knows every revocation there is
  have hsame : reaches c.op.fault = true →
      revokedHashes s.history = revokedHashes (s.history.take c.seen) := by
    intro hr
    conv_lhs => rw [← List.take_append_drop c.seen s.history]
    rw [revokedHashes, List.filterMap_append]
    change revokedHashes _ ++ revokedHashes _ = _
    rw [hguard hr, List.append_nil]
  have hidle : SharedInv { s with agent := none } :=
    ⟨hi.file, fun _ hc' => absurd hc' (by simp), hi.cli, hi.known, hi.refused⟩
  have hsaved := inv_saved hidle c.op.fault c.op.now c.links
    (fun hr => by rw [hsame hr]; exact hlist)
  split
  · rename_i hok
    have hr := (save_eq c.op.fault c.op.now c.links s.file).2 hok
    refine inv_returned hsaved (by rw [hret]; rfl) ?_
    intro x via hx
    rw [hret, Returned.redeemed.injEq] at hx
    rw [hsame hr, ← hx.1]
    exact hgone
  · exact hsaved

theorem inv_save_cli (hi : SharedInv s) {c : Pending} (hc : s.cli = some c) :
    SharedInv { s with
      cli := none
      file := (save c.op.fault c.op.now c.links s.file).2
      history := if (save c.op.fault c.op.now c.links s.file).1 then s.history ++ [c.returns]
        else s.history } := by
  obtain ⟨hlist, hret⟩ := hi.cli c hc
  have hidle : SharedInv { s with cli := none } :=
    ⟨hi.file, hi.agent, fun _ hc' => absurd hc' (by simp), hi.known, hi.refused⟩
  have hsaved := inv_saved hidle c.op.fault c.op.now c.links
    (fun _ => hlist)
  split
  · rename_i hok
    have hr := (save_eq c.op.fault c.op.now c.links s.file).2 hok
    rcases hret with ⟨m, hm⟩ | ⟨l, hl, hmem, hrev⟩
    · refine inv_returned hsaved (by rw [hm]; rfl) ?_
      intro x via hx
      rw [hm] at hx
      cases hx
    · have hg : revokedHashes (s.history ++ [c.returns]) = revokedHashes s.history ++ [l.tokenHash] := by
        rw [revokedHashes_append, hl]
        rfl
      refine ⟨?_, ?_, fun _ hc' => absurd hc' (by simp), ?_, ?_⟩
      · rw [hg, SharedRun.links, (save_eq c.op.fault c.op.now c.links s.file).1, if_pos hr]
        exact (hlist.revoke hmem hrev).prune c.op.now
      · intro a ha
        obtain ⟨h1, h2, h3⟩ := hi.agent a ha
        dsimp only
        rw [List.take_append_of_le_length h1, List.length_append]
        exact ⟨Nat.le_add_right_of_le h1, h2, h3⟩
      · intro x hx
        rw [hg] at hx
        rcases List.mem_append.mp hx with hx | hx
        · exact hi.known x hx
        · rw [List.mem_singleton] at hx
          exact hx ▸ hlist.known l hmem
      · refine refused_append hi.refused ?_
        intro x via hx
        rw [hl] at hx
        cases hx
  · exact hsaved

theorem inv_load (hi : SharedInv s) (h : s.step hash (.load op) = some s')
    (hd : s'.drawn.Nodup) : SharedInv s' := by
  simp only [SharedRun.step] at h
  split at h
  · cases h
  · split at h
    · cases h
      exact hi
    · rename_i r hj
      cases h
      -- only a redemption by cookie returns without a save
      cases op with
      | mint fault now ttl singleUse label secret idBytes =>
        obtain ⟨-, l, -, hw⟩ := judge_mint hj
        cases hw
      | revoke fault now id =>
        obtain ⟨l, -, -, hw⟩ := judge_revoke hj
        cases hw
      | redeem fault now token via secret =>
        obtain ⟨l, hfind, hrev, rfl, -⟩ := judge_redeem hj
        refine inv_returned hi rfl ?_
        intro x via' hx
        cases hx
        exact not_revoked_of_unrevoked hi (List.mem_of_find?_eq_some hfind) hrev
    · rename_i r links hj
      cases h
      cases op with
      | mint fault now ttl singleUse label secret idBytes =>
        obtain ⟨hret, l, hl, hw⟩ := judge_mint hj
        cases hw
        have hnew : storedHash hash (secretToken secret) ∉ s.drawn := by
          intro hx
          exact (List.nodup_append.mp hd).2.2 _ hx _ (by simp [SharedRun.drawnBy]) rfl
        exact inv_load_mint hi hnew hl rfl hret
      | revoke fault now id =>
        obtain ⟨l, hfind, hret, hw⟩ := judge_revoke hj
        cases hw
        have h := inv_load_revoke hi (c := ⟨.revoke fault now id, r, _, s.history.length⟩)
          hfind hret rfl
        simpa only [SharedRun.setPending, LinkOp.process, SharedRun.drawnBy, List.append_nil,
          SharedRun.links] using h
      | redeem fault now token via secret =>
        obtain ⟨l, hfind, hrev, hret, ⟨-, hw⟩ | ⟨rfl, hw⟩⟩ := judge_redeem hj
        · cases hw
        · cases hw
          have h := inv_load_query hi now (secretToken secret)
            (c := ⟨.redeem fault now token .query secret, r, modifyFirst (selects hash token .query)
              (stampRedeemed hash now (secretToken secret)) s.links, s.history.length⟩)
            hfind hrev hret rfl rfl
          simpa only [SharedRun.setPending, LinkOp.process, SharedRun.drawnBy, List.append_nil,
            SharedRun.links] using h

theorem inv_save {p : Process} (hi : SharedInv s) (hg : noRevocationSince s (.save p) = true)
    (h : s.step hash (.save p) = some s') : SharedInv s' := by
  simp only [SharedRun.step] at h
  cases p with
  | agent =>
    cases hc : s.agent with
    | none =>
      simp only [SharedRun.pending, hc] at h
      cases h
    | some c =>
      simp only [SharedRun.pending, hc] at h
      cases h
      refine inv_save_agent hi hc ?_
      intro hr
      simpa [noRevocationSince, hc, hr] using hg
  | cli =>
    cases hc : s.cli with
    | none =>
      simp only [SharedRun.pending, hc] at h
      cases h
    | some c =>
      simp only [SharedRun.pending, hc] at h
      cases h
      exact inv_save_cli hi hc

theorem step_drawn {e : SharedStep} (h : s.step hash e = some s') : ∃ new, s'.drawn = s.drawn ++ new := by
  cases e with
  | load op =>
    simp only [SharedRun.step] at h
    split at h
    · cases h
    · split at h
      · cases h
        exact ⟨[], by simp⟩
      · cases h
        exact ⟨[], by simp⟩
      · cases h
        exact ⟨_, rfl⟩
  | save p =>
    simp only [SharedRun.step] at h
    split at h
    · cases h
    · cases h
      refine ⟨[], ?_⟩
      cases p <;> simp [SharedRun.setPending]

theorem reachable_sharedInv
    (hr : Reachable (guarded (SharedRun.step hash) noRevocationSince) SharedRun.init s)
    (hd : s.drawn.Nodup) : SharedInv s := by
  refine reachable_invariant (P := fun s : SharedRun => s.drawn.Nodup → SharedInv s) ?_ ?_ hr hd
  · intro s e s' hi h hd
    obtain ⟨hg, h⟩ := guarded_eq_some.mp h
    obtain ⟨new, hnew⟩ := step_drawn h
    have hi := hi (by rw [hnew] at hd; exact (List.nodup_append.mp hd).1)
    cases e with
    | load op => exact inv_load hi h hd
    | save p => exact inv_save hi hg h
  · intro _
    constructor <;> simp [SharedRun.init, SharedRun.links, revokedHashes]
    exact ⟨List.nodup_nil, by simp, by simp⟩

/-- Without a redemption that saves over a revocation it has not seen, a revoked link stays revoked
or off the file, and nothing behind the revocation redeems it. -/
theorem revoked_link_stays_revoked
    (hr : Reachable (guarded (SharedRun.step hash) noRevocationSince) SharedRun.init s)
    (hd : s.drawn.Nodup) :
    (∀ l, .revoked l ∈ s.history → ∀ x ∈ s.links, x.tokenHash = l.tokenHash →
      x.revokedAt.isSome = true) ∧
    (∀ pre l post, s.history = pre ++ .revoked l :: post →
      ∀ x via, .redeemed x via ∈ post → x.tokenHash ≠ l.tokenHash) ∧
    ∀ l, .revoked l ∈ s.history → ∀ fault now token via secret x w,
      judge hash (.redeem fault now token via secret) s.file = some (.redeemed x via, w) →
      x.tokenHash ≠ l.tokenHash := by
  have hi := reachable_sharedInv hr hd
  refine ⟨?_, ?_, ?_⟩
  · intro l hl x hx he
    exact hi.file.revoked x hx (he ▸ mem_revokedHashes hl)
  · intro pre l post hh x via hx
    have hp := hi.refused
    rw [hh, List.pairwise_append, List.pairwise_cons] at hp
    exact hp.2.1.1 _ hx
  · intro l hl fault now token via secret x w hj he
    obtain ⟨y, hfind, hrev, hy, -⟩ := judge_redeem hj
    cases hy
    exact not_revoked_of_unrevoked hi (List.mem_of_find?_eq_some hfind) hrev
      (he ▸ mem_revokedHashes hl)

end

def mintSteps : List SharedStep :=
  [.load (.mint none 100 1000 false "guest" (sampleSecret 1) (Vector.replicate 6 7)), .save .cli]

def redeemLoad : SharedStep :=
  .load (.redeem none 200 (secretToken (sampleSecret 1)) .query (sampleSecret 2))

def revokeSteps : List SharedStep := [.load (.revoke none 201 "070707070707"), .save .cli]

def sharedState (steps : List SharedStep) : SharedRun :=
  (run (SharedRun.step sampleHash) SharedRun.init steps).getD SharedRun.init

/-- One after the other: the link is redeemed, then revoked. -/
def orderlySteps : List SharedStep := mintSteps ++ [redeemLoad, .save .agent] ++ revokeSteps

/-- The revocation falls between the load and the save of the redemption. -/
def racingSteps : List SharedStep := mintSteps ++ [redeemLoad] ++ revokeSteps ++ [.save .agent]

theorem revoked_link_stays_revoked_sample :
    run (guarded (SharedRun.step sampleHash) noRevocationSince) SharedRun.init orderlySteps =
        some (sharedState orderlySteps) ∧
      (sharedState orderlySteps).drawn.Nodup ∧
      ∃ l, .revoked l ∈ (sharedState orderlySteps).history ∧
        ∀ x ∈ (sharedState orderlySteps).links, x.tokenHash = l.tokenHash →
          x.revokedAt.isSome = true := by
  have hrun : run (guarded (SharedRun.step sampleHash) noRevocationSince) SharedRun.init
      orderlySteps = some (sharedState orderlySteps) := by decide
  have hd : (sharedState orderlySteps).drawn.Nodup := by decide
  have hl : Returned.revoked ⟨"070707070707", storedHash sampleHash (secretToken (sampleSecret 1)),
      "guest", 1100, false, some 200, [storedHash sampleHash (secretToken (sampleSecret 2))],
      some 201⟩ ∈ (sharedState orderlySteps).history := by decide
  exact ⟨hrun, hd, _, hl, (revoked_link_stays_revoked ⟨orderlySteps, hrun⟩ hd).1 _ hl⟩

/-- The stale copy puts the link back: revoked by the command line, it is on file unrevoked, and the
session of the racing redemption passes as a cookie. -/
theorem revoked_link_came_back :
    run (SharedRun.step sampleHash) SharedRun.init racingSteps = some (sharedState racingSteps) ∧
      (sharedState racingSteps).drawn.Nodup ∧
      ∃ m l x y, (sharedState racingSteps).history = [.minted m, .revoked l, .redeemed x .query] ∧
        (sharedState racingSteps).links = [y] ∧ y.tokenHash = l.tokenHash ∧ y.revokedAt = none ∧
        judge sampleHash (.redeem none 300 (secretToken (sampleSecret 2)) .cookie (sampleSecret 3))
          (sharedState racingSteps).file = some (.redeemed y .cookie, none) := by
  let new : ShareLink := ⟨"070707070707", storedHash sampleHash (secretToken (sampleSecret 1)),
    "guest", 1100, false, none, [], none⟩
  refine ⟨by decide, by decide,
    ⟨"070707070707", secretToken (sampleSecret 1), "guest", 1100, false⟩,
    { new with revokedAt := some 201 }, new,
    { new with
      usedAt := some 200
      sessionHashes := [storedHash sampleHash (secretToken (sampleSecret 2))] },
    by decide, by decide, rfl, rfl, by decide⟩

end CtAgent.LocalAuth
