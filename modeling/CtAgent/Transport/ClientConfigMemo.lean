import CtAgent.Lib.Recency

/-! The memo of client configs: which keys it holds after any calls, and whose config it hands out. -/
namespace CtAgent.Transport
open CtAgent.Lib

def clientConfigMemoCap : ℕ := 64

section
variable {K V E : Type*} [DecidableEq K]

/-- One call: its key, and what its `build` gives where it runs. -/
structure MemoCall (K V E : Type*) where
  keep : Bool
  key : K
  build : Except E V

/-- What a call returns and leaves in the memo, and whether its `build` ran. -/
structure MemoAnswer (K V E : Type*) where
  result : Except E V
  entries : List (K × V)
  ran : Bool

def getOrBuild (entries : List (K × V)) (call : MemoCall K V E) : MemoAnswer K V E :=
  if !call.keep then ⟨call.build, entries, true⟩
  else
    match entries.find? (fun e => e.1 == call.key) with
    -- the most recently used entry goes last, so the front is always the one to evict
    | some hit => ⟨.ok hit.2, entries.eraseP (fun e => e.1 == call.key) ++ [hit], false⟩
    | none =>
      match call.build with
      | .error e => ⟨.error e, entries, true⟩
      | .ok config =>
        let entries := if clientConfigMemoCap ≤ entries.length then entries.tail else entries
        ⟨.ok config, entries ++ [(call.key, config)], true⟩

/-- A call with the memo before it and what it gave. -/
structure MemoEvent (K V E : Type*) where
  call : MemoCall K V E
  before : List (K × V)
  answer : MemoAnswer K V E

namespace MemoEvent

def keys (entries : List (K × V)) : List K := entries.map Prod.fst

/-- A call with `keep` that ran its build, with success. -/
def built (e : MemoEvent K V E) : Option (K × V) :=
  match e.call.keep && e.answer.ran, e.call.build with
  | true, .ok config => some (e.call.key, config)
  | _, _ => none

/-- A call with `keep` that returned a config. -/
def used (e : MemoEvent K V E) : Option K :=
  match e.call.keep, e.answer.result with
  | true, .ok _ => some e.call.key
  | _, _ => none

def evicts (e : MemoEvent K V E) (key : K) : Bool :=
  decide (key ∈ keys e.before) && !decide (key ∈ keys e.answer.entries)

end MemoEvent

/-- The calls of a history, each with the memo it met. -/
def memoTrace (entries : List (K × V)) : List (MemoCall K V E) → List (MemoEvent K V E)
  | [] => []
  | call :: calls =>
    let answer := getOrBuild entries call
    ⟨call, entries, answer⟩ :: memoTrace answer.entries calls

def memoAfter (entries : List (K × V)) (calls : List (MemoCall K V E)) : List (K × V) :=
  calls.foldl (fun entries call => (getOrBuild entries call).entries) entries

/-- The config of the latest successful build for the key since the key was last evicted. -/
def latestBuild (key : K) (log : List (MemoEvent K V E)) : Option V :=
  log.foldl (fun latest e =>
    if e.evicts key then none
    else match e.built with
      | some (k, config) => if k = key then some config else latest
      | none => latest) none

theorem memoTrace_concat (entries : List (K × V)) (calls : List (MemoCall K V E)) (call : MemoCall K V E) :
    memoTrace entries (calls ++ [call]) = memoTrace entries calls ++
      [⟨call, memoAfter entries calls, getOrBuild (memoAfter entries calls) call⟩] := by
  induction calls generalizing entries with
  | nil => rfl
  | cons c calls ih => exact congrArg _ (ih _)

theorem memoAfter_concat (entries : List (K × V)) (calls : List (MemoCall K V E)) (call : MemoCall K V E) :
    memoAfter entries (calls ++ [call]) = (getOrBuild (memoAfter entries calls) call).entries := by
  rw [memoAfter, List.foldl_append]
  rfl

/-- What one call can do: nothing to the memo, or a hit, or a build that is kept. -/
inductive MemoStep (entries : List (K × V)) (call : MemoCall K V E) : MemoAnswer K V E → Prop
  | fresh (h : call.keep = false) : MemoStep entries call ⟨call.build, entries, true⟩
  | hit (v : V) (h : call.keep = true) (hmem : (call.key, v) ∈ entries) :
    MemoStep entries call
      ⟨.ok v, entries.eraseP (fun e => e.1 == call.key) ++ [(call.key, v)], false⟩
  | failed (err : E) (h : call.keep = true) (hnew : call.key ∉ MemoEvent.keys entries)
      (hb : call.build = .error err) : MemoStep entries call ⟨.error err, entries, true⟩
  | kept (v : V) (h : call.keep = true) (hnew : call.key ∉ MemoEvent.keys entries)
      (hb : call.build = .ok v) : MemoStep entries call
        ⟨.ok v, (if clientConfigMemoCap ≤ entries.length then entries.tail else entries) ++
          [(call.key, v)], true⟩

theorem getOrBuild_step (entries : List (K × V)) (call : MemoCall K V E) :
    MemoStep entries call (getOrBuild entries call) := by
  unfold getOrBuild
  split
  · rename_i hkeep
    exact .fresh (by simpa using hkeep)
  · rename_i hkeep
    have hkeep : call.keep = true := by simpa using hkeep
    split
    · rename_i hit hfind
      have hmem := List.mem_of_find?_eq_some hfind
      have hkey : hit.1 = call.key := by simpa using List.find?_some hfind
      obtain ⟨key, v⟩ := hit
      dsimp only at hkey
      subst hkey
      exact .hit v hkeep hmem
    · rename_i hfind
      have hnew : call.key ∉ MemoEvent.keys entries := by
        intro hmem
        obtain ⟨e, he, hkey⟩ := List.mem_map.mp hmem
        have hno := List.find?_eq_none.mp hfind e he
        exact hno (by simpa using hkey)
      split
      · rename_i err hb
        exact .failed err hkeep hnew hb
      · rename_i config hb
        exact .kept config hkeep hnew hb

theorem keys_eraseP (entries : List (K × V)) (key : K) :
    MemoEvent.keys (entries.eraseP (fun e => e.1 == key)) = (MemoEvent.keys entries).erase key := by
  unfold MemoEvent.keys
  induction entries with
  | nil => rfl
  | cons e entries ih =>
    rw [List.eraseP_cons, List.map_cons, List.erase_cons]
    cases e.1 == key with
    | true => rfl
    | false => exact congrArg (e.1 :: ·) ih

/-- The keys used with `keep`, in the order of the calls. -/
def usedKeys (log : List (MemoEvent K V E)) : List K := log.filterMap MemoEvent.used

/-- The keys built successfully with `keep`. -/
def builtKeys (log : List (MemoEvent K V E)) : List K := log.filterMap (fun e => e.built.map Prod.fst)

/-- Invariant of a history: the keys held are those used last, each with its latest build. -/
structure MemoInv (log : List (MemoEvent K V E)) (entries : List (K × V)) : Prop where
  keys : MemoEvent.keys entries = lastUsed clientConfigMemoCap (usedKeys log)
  same : ∀ k, k ∈ usedKeys log ↔ k ∈ builtKeys log
  builds : ∀ e ∈ entries, latestBuild e.1 log = some e.2

theorem latestBuild_concat (key : K) (log : List (MemoEvent K V E)) (e : MemoEvent K V E) :
    latestBuild key (log ++ [e]) =
      if e.evicts key then none
      else match e.built with
        | some (k, config) => if k = key then some config else latestBuild key log
        | none => latestBuild key log := by
  rw [latestBuild, List.foldl_append]
  rfl

/-- A config that is the latest build of a key was built for it. -/
theorem built_of_latestBuild {key : K} {log : List (MemoEvent K V E)} {v : V}
    (h : latestBuild key log = some v) : ∃ e ∈ log, e.built = some (key, v) := by
  induction log using List.reverseRecOn with
  | nil => exact absurd h nofun
  | append_singleton log e ih =>
    have hearlier : latestBuild key log = some v → ∃ e' ∈ log ++ [e], e'.built = some (key, v) := by
      intro hl
      obtain ⟨e', he', hb⟩ := ih hl
      exact ⟨e', List.mem_append_left _ he', hb⟩
    rw [latestBuild_concat] at h
    split at h
    · exact absurd h nofun
    · split at h
      · rename_i k config hb
        split at h
        · rename_i hk
          subst hk
          refine ⟨e, by simp, ?_⟩
          rw [hb, Option.some.inj h]
        · exact hearlier h
      · exact hearlier h

theorem evicts_of_mem {e : MemoEvent K V E} {key : K} (h : key ∈ MemoEvent.keys e.answer.entries) :
    e.evicts key = false := by
  simp [MemoEvent.evicts, h]

omit [DecidableEq K] in
theorem mem_keys {entries : List (K × V)} {e : K × V} (h : e ∈ entries) : e.1 ∈ MemoEvent.keys entries :=
  List.mem_map_of_mem h

omit [DecidableEq K] in
theorem usedKeys_concat (log : List (MemoEvent K V E)) (e : MemoEvent K V E) :
    usedKeys (log ++ [e]) = usedKeys log ++ e.used.toList := by
  unfold usedKeys
  rw [List.filterMap_append]
  cases h : e.used with
  | none => simp [h]
  | some k => simp [h]

omit [DecidableEq K] in
theorem mem_builtKeys_concat {log : List (MemoEvent K V E)} {e : MemoEvent K V E} {k : K} :
    k ∈ builtKeys (log ++ [e]) ↔ k ∈ builtKeys log ∨ e.built.map Prod.fst = some k := by
  unfold builtKeys
  rw [List.filterMap_append, List.mem_append, List.mem_filterMap (l := [e])]
  simp

namespace MemoInv

variable {log : List (MemoEvent K V E)} {entries : List (K × V)} {call : MemoCall K V E}

/-- A call that leaves the memo as it is, and neither uses nor builds. -/
theorem idle {answer : MemoAnswer K V E} (h : MemoInv log entries) (hsame : answer.entries = entries)
    (hused : MemoEvent.used ⟨call, entries, answer⟩ = none)
    (hbuilt : MemoEvent.built ⟨call, entries, answer⟩ = none) :
    MemoInv (log ++ [⟨call, entries, answer⟩]) answer.entries := by
  refine ⟨?_, ?_, ?_⟩
  · rw [usedKeys_concat, hused, Option.toList_none, List.append_nil, hsame]
    exact h.keys
  · intro k
    rw [usedKeys_concat, hused, Option.toList_none, List.append_nil, mem_builtKeys_concat, hbuilt]
    simpa using h.same k
  · intro e he
    rw [latestBuild_concat, evicts_of_mem (mem_keys he), hbuilt]
    rw [hsame] at he
    exact h.builds e he

theorem hit {v : V} (h : MemoInv log entries) (hkeep : call.keep = true) (hmem : (call.key, v) ∈ entries) :
    MemoInv (log ++ [⟨call, entries,
      ⟨.ok v, entries.eraseP (fun e => e.1 == call.key) ++ [(call.key, v)], false⟩⟩])
      (entries.eraseP (fun e => e.1 == call.key) ++ [(call.key, v)]) := by
  have hheld : call.key ∈ lastUsed clientConfigMemoCap (usedKeys log) := by
    rw [← h.keys]
    exact mem_keys hmem
  have hold : call.key ∈ usedKeys log := by
    apply List.dedup_subset
    exact List.mem_of_mem_drop hheld
  refine ⟨?_, ?_, ?_⟩
  · have hlast := lastUsed_held (by decide) hheld
    rw [usedKeys_concat]
    simp only [MemoEvent.used, hkeep, Option.toList_some]
    rw [hlast, ← h.keys, ← keys_eraseP]
    exact List.map_append
  · intro k
    rw [usedKeys_concat, mem_builtKeys_concat, ← h.same k]
    simp only [MemoEvent.used, MemoEvent.built, hkeep, Bool.and_false, Option.toList_some, List.mem_append,
      List.mem_singleton, Option.map_none, reduceCtorEq, or_false]
    constructor
    · rintro (hk | rfl)
      · exact hk
      · exact hold
    · exact Or.inl
  · intro e he
    rw [latestBuild_concat, evicts_of_mem (mem_keys he)]
    simp only [MemoEvent.built, hkeep, Bool.and_false, Bool.false_eq_true, if_false]
    apply h.builds
    rcases List.mem_append.mp he with he | he
    · exact List.mem_of_mem_eraseP he
    · rw [List.mem_singleton.mp he]
      exact hmem

theorem kept {v : V} (h : MemoInv log entries) (hkeep : call.keep = true)
    (hnew : call.key ∉ MemoEvent.keys entries) (hb : call.build = .ok v) :
    MemoInv (log ++ [⟨call, entries, ⟨.ok v,
      (if clientConfigMemoCap ≤ entries.length then entries.tail else entries) ++ [(call.key, v)], true⟩⟩])
      ((if clientConfigMemoCap ≤ entries.length then entries.tail else entries) ++ [(call.key, v)]) := by
  have hlast : call.key ∉ lastUsed clientConfigMemoCap (usedKeys log) := by
    rw [← h.keys]
    exact hnew
  refine ⟨?_, ?_, ?_⟩
  · have hmove := lastUsed_new (by decide) hlast
    rw [usedKeys_concat]
    simp only [MemoEvent.used, hkeep, Option.toList_some]
    rw [hmove, ← h.keys]
    have hlen : (MemoEvent.keys entries).length = entries.length := List.length_map _
    rw [hlen]
    unfold MemoEvent.keys
    rw [List.map_append]
    split
    · rw [List.map_tail]
      rfl
    · rfl
  · intro k
    rw [usedKeys_concat, mem_builtKeys_concat, ← h.same k]
    simp only [MemoEvent.used, MemoEvent.built, hkeep, hb, Bool.and_true, Option.toList_some, List.mem_append,
      List.mem_singleton, Option.map_some, Option.some.injEq]
    exact or_congr_right eq_comm
  · intro e he
    rw [latestBuild_concat, evicts_of_mem (mem_keys he)]
    simp only [MemoEvent.built, hkeep, hb, Bool.and_true, Bool.false_eq_true, if_false]
    rcases List.mem_append.mp he with he | he
    · have hold : e ∈ entries := by
        split at he
        · exact List.mem_of_mem_tail he
        · exact he
      have hne : call.key ≠ e.1 := fun hk => hnew (hk ▸ mem_keys hold)
      rw [if_neg hne]
      exact h.builds e hold
    · rw [List.mem_singleton.mp he, if_pos rfl]

theorem step {answer : MemoAnswer K V E} (h : MemoInv log entries) (hs : MemoStep entries call answer) :
    MemoInv (log ++ [⟨call, entries, answer⟩]) answer.entries := by
  cases hs with
  | fresh hkeep =>
    apply h.idle rfl
    · simp [MemoEvent.used, hkeep]
    · simp [MemoEvent.built, hkeep]
  | hit v hkeep hmem => exact h.hit hkeep hmem
  | failed err hkeep hnew hb =>
    apply h.idle rfl
    · simp [MemoEvent.used, hkeep]
    · simp [MemoEvent.built, hkeep, hb]
  | kept v hkeep hnew hb => exact h.kept hkeep hnew hb

end MemoInv

/-- The invariant holds after every history. -/
theorem memoInv_trace (calls : List (MemoCall K V E)) :
    MemoInv (memoTrace ([] : List (K × V)) calls) (memoAfter [] calls) := by
  induction calls using List.reverseRecOn with
  | nil =>
    refine ⟨rfl, ?_, ?_⟩
    · intro k
      exact Iff.rfl
    · intro e he
      exact absurd he List.not_mem_nil
  | append_singleton calls call ih =>
    rw [memoTrace_concat, memoAfter_concat]
    exact ih.step (getOrBuild_step _ _)

/-- A config returned with `keep` is held for its key. -/
theorem returned_mem {entries : List (K × V)} {call : MemoCall K V E} {v : V} (hkeep : call.keep = true)
    (h : (getOrBuild entries call).result = .ok v) :
    (call.key, v) ∈ (getOrBuild entries call).entries := by
  have hs := getOrBuild_step entries call
  generalize getOrBuild entries call = answer at h hs
  cases hs with
  | fresh hoff => exact absurd hkeep (by simp [hoff])
  | hit w _ _ =>
    rw [← Except.ok.inj h]
    simp
  | failed err _ _ _ => exact absurd h nofun
  | kept w _ _ _ =>
    rw [← Except.ok.inj h]
    simp

theorem unchanged_of_failed {entries : List (K × V)} {call : MemoCall K V E}
    (h : call.keep = false ∨ ∃ err, (getOrBuild entries call).result = .error err) :
    (getOrBuild entries call).entries = entries := by
  have hs := getOrBuild_step entries call
  generalize getOrBuild entries call = answer at h hs
  cases hs with
  | fresh _ => rfl
  | failed _ _ _ _ => rfl
  | hit v hkeep _ =>
    rcases h with hoff | ⟨err, h⟩
    · exact absurd hkeep (by simp [hoff])
    · exact absurd h nofun
  | kept v hkeep _ _ =>
    rcases h with hoff | ⟨err, h⟩
    · exact absurd hkeep (by simp [hoff])
    · exact absurd h nofun

/-- After any calls the memo holds the keys used last, each once and in order, and hands out a kept
config only for the key it was built for. -/
theorem memo_keeps_anchors_apart (calls : List (MemoCall K V E)) (call : MemoCall K V E) :
    ((MemoEvent.keys (memoAfter ([] : List (K × V)) calls)).Nodup ∧
      MemoEvent.keys (memoAfter ([] : List (K × V)) calls) =
        lastUsed clientConfigMemoCap (usedKeys (memoTrace [] calls)) ∧
      (∀ k, k ∈ usedKeys (memoTrace ([] : List (K × V)) calls) ↔ k ∈ builtKeys (memoTrace [] calls)) ∧
      (memoAfter ([] : List (K × V)) calls).length =
        min clientConfigMemoCap (builtKeys (memoTrace ([] : List (K × V)) calls)).dedup.length) ∧
    (call.keep = true → ∀ v, (getOrBuild (memoAfter [] calls) call).result = .ok v →
      latestBuild call.key (memoTrace [] (calls ++ [call])) = some v ∧
      ∃ e ∈ memoTrace ([] : List (K × V)) (calls ++ [call]), e.built = some (call.key, v)) ∧
    ((call.keep = false ∨ ∃ err, (getOrBuild (memoAfter ([] : List (K × V)) calls) call).result = .error err) →
      (getOrBuild (memoAfter [] calls) call).entries = memoAfter [] calls) := by
  have hinv := memoInv_trace calls
  refine ⟨⟨?_, hinv.keys, hinv.same, ?_⟩, ?_, unchanged_of_failed⟩
  · rw [hinv.keys]
    exact lastUsed_nodup _ _
  · have hlen := congrArg List.length hinv.keys
    rw [length_lastUsed] at hlen
    have hkeys : (MemoEvent.keys (memoAfter [] calls)).length = (memoAfter ([] : List (K × V)) calls).length :=
      List.length_map _
    have hperm := (List.perm_ext_iff_of_nodup (usedKeys (memoTrace [] calls)).nodup_dedup
      (builtKeys (memoTrace ([] : List (K × V)) calls)).nodup_dedup).mpr (fun k => by
        rw [List.mem_dedup, List.mem_dedup]
        exact hinv.same k)
    rw [← hkeys, hlen, hperm.length_eq]
  · intro hkeep v hv
    have hnext := memoInv_trace (calls ++ [call])
    have hheld := returned_mem hkeep hv
    rw [← memoAfter_concat] at hheld
    have hlatest := hnext.builds _ hheld
    exact ⟨hlatest, built_of_latestBuild hlatest⟩

end

end CtAgent.Transport
