import CtAgent.AcmeClient
import CtAgent.Lib.History
import CtAgent.Lib.WindowLimit

/-! The operator events: what an event is as JSON and as a line, the counters of `/metrics`, and the budget
on the lines a peer can trigger (events.rs). -/
namespace CtAgent.Events
open CtAgent.Lib
open CtAgent.Acme (Json)

def kinds : List String :=
  ["registered", "registration_failed", "disconnected", "transport_switch", "fallback_exhausted",
    "direct_refused", "direct_legacy_served", "channel_session", "bridge_call", "manifest_install",
    "manifest_plan", "update_check", "update_applied", "credential_degraded", "doctor_sandbox",
    "origin_tls_terminated", "ssh_owner_auth_refused", "forward_refused", "forward_open", "forward_close"]

def limitPerWindow : ℕ := 30

def limitWindow : ℕ := 60 * 10^9

/-- `serde_json::Map`, sorted by key. -/
abbrev Map := List (String × Json)

def Map.insert (key : String) (v : Json) : Map → Map
  | [] => [(key, v)]
  | (k, w) :: rest =>
    if key = k then (key, v) :: rest
    else if key < k then (key, v) :: (k, w) :: rest
    else (k, w) :: Map.insert key v rest

def Map.remove (key : String) (m : Map) : Map := m.filter (fun kv => kv.1 ≠ key)

structure Event where
  ts : ℕ
  session : String
  conn : Option ℕ
  kind : String
  fields : Map

/-- What is no object is wrapped. -/
def Event.at_ (ts : ℕ) (session : String) (conn : Option ℕ) (kind : String) (fields : Json) : Event where
  ts := ts
  session := session
  conn := conn
  kind := kind
  fields :=
    match fields with
    | .obj m => m
    | other => [("value", other)]

def Event.toJson (ev : Event) : Map :=
  let m := Map.insert "session" (.str ev.session) (Map.insert "ts" (.num ev.ts) ev.fields)
  let m :=
    match ev.conn with
    | some c => Map.insert "conn" (.num c) m
    | none => Map.remove "conn" m
  Map.insert "kind" (.str ev.kind) m

/-- `char::escape_default` of a control character: three have a short form. -/
def escapeControl (c : Char) : List Char :=
  if c = '\t' then ['\\', 't']
  else if c = '\r' then ['\\', 'r']
  else if c = '\n' then ['\\', 'n']
  else ['\\', 'u', '\x7b'] ++ Nat.toDigits 16 c.toNat ++ ['\x7d']

def pushEscaped (s : String) : List Char :=
  s.toList.flatMap (fun c => if isControl c then escapeControl c else [c])

/-- `Value::to_string`; `render` is serde's of what is quoted or nested. -/
def displayJson (render : Json → String) : Json → String
  | .null => "null"
  | .bool b => if b then "true" else "false"
  | .num n => toString n
  | other => render other

def connText : Option ℕ → List Char
  | some c => " conn=".toList ++ (toString c).toList
  | none => []

/-- A string value is printed bare, but for its control characters. -/
def fieldText (render : Json → String) (key : String) (v : Json) : List Char :=
  ' ' :: key.toList ++ '=' ::
    match v with
    | .str s => pushEscaped s
    | other => (displayJson render other).toList

/-- The compact line. -/
def compactLine (render : Json → String) (ev : Event) : List Char :=
  "ct-agent event: ".toList ++ ev.kind.toList ++ connText ev.conn ++
    ev.fields.flatMap (fun kv => fieldText render kv.1 kv.2)

def formatLine (render : Json → String) (ev : Event) (json : Bool) : List Char :=
  if json then (displayJson render (.obj ev.toJson)).toList else compactLine render ev

/-- One counter for each kind. -/
abbrev EventCounters := List ℕ

namespace EventCounters

def new : EventCounters := kinds.map (fun _ => 0)

def slot (kind : String) : Option ℕ := kinds.findIdx? (· == kind)

def bump (counts : EventCounters) (kind : String) : EventCounters :=
  match slot kind with
  | some i => counts.modify i (· + 1)
  | none => counts

def get (counts : EventCounters) (kind : String) : ℕ :=
  match slot kind with
  | some i => counts.getD i 0
  | none => 0

end EventCounters

/-- The process: its session id, the connection counter, the budgets, the counters, and the events written
to stderr and the ring. -/
structure Process where
  session : String
  connId : ℕ := 0
  budgets : Budgets String := fun _ => none
  counts : EventCounters := .new
  written : List Event := []

/-- `now` is the monotone clock, `ts` the Unix time of a written event. -/
inductive Call
  | nextConnId
  | emit (ts : ℕ) (kind : String) (fields : Json)
  | emitLimited (now ts : ℕ) (kind : String) (fields : Json)

def Process.currentConnId (p : Process) : Option ℕ := if p.connId = 0 then none else some p.connId

def Process.emit (p : Process) (ts : ℕ) (kind : String) (fields : Json) : Process :=
  { p with
    counts := p.counts.bump kind
    written := p.written ++ [.at_ ts p.session p.currentConnId kind fields] }

/-- The fields with the number of suppressed lines, if there are any to tell of. -/
def withSuppressed (suppressed : ℕ) (fields : Json) : Json :=
  match fields with
  | .obj m => if 0 < suppressed then .obj (Map.insert "suppressed" (.num suppressed) m) else .obj m
  | other => other

def Process.call (p : Process) : Call → Process
  | .nextConnId => { p with connId := p.connId + 1 }
  | .emit ts kind fields => p.emit ts kind fields
  | .emitLimited now ts kind fields =>
    match p.budgets.allow limitPerWindow limitWindow kind now with
    | (budgets, none) => { p with budgets, counts := p.counts.bump kind }
    | (budgets, some suppressed) => { p with budgets }.emit ts kind (withSuppressed suppressed fields)

def Process.calls (p : Process) (cs : List Call) : Process := cs.foldl Process.call p

section Map

theorem lookup_cons_ite (k k' : String) (v : Json) (m : Map) :
    List.lookup k ((k', v) :: m) = if k = k' then some v else m.lookup k := by
  by_cases hk : k = k'
  · simp [hk]
  · have hb : (k == k') = false := by simpa using hk
    simp [List.lookup_cons, hb, hk]

theorem Map.lookup_insert (key : String) (v : Json) (m : Map) (k : String) :
    (Map.insert key v m).lookup k = if k = key then some v else m.lookup k := by
  induction m with
  | nil => exact lookup_cons_ite k key v []
  | cons kv rest ih =>
    obtain ⟨k', w⟩ := kv
    rw [Map.insert]
    split
    · rename_i heq
      subst heq
      simp only [lookup_cons_ite]
      split <;> rfl
    · rename_i hne
      split
      · exact lookup_cons_ite k key v _
      · rw [lookup_cons_ite, lookup_cons_ite, ih]
        by_cases hk : k = key
        · have hk' : ¬ k = k' := fun h => hne (hk.symm.trans h)
          rw [if_neg hk']
          simp [hk]
        · simp [hk]

theorem Map.lookup_remove (key : String) (m : Map) (k : String) :
    (Map.remove key m).lookup k = if k = key then none else m.lookup k := by
  induction m with
  | nil => simp [Map.remove]
  | cons kv rest ih =>
    obtain ⟨k', w⟩ := kv
    unfold Map.remove at ih ⊢
    by_cases hk' : k' = key
    · rw [List.filter_cons_of_neg (by simp [hk']), ih, lookup_cons_ite, hk']
      split <;> rfl
    · rw [List.filter_cons_of_pos (by simp [hk']), lookup_cons_ite, lookup_cons_ite, ih]
      by_cases hk : k = key
      · have hkk' : ¬ k = k' := fun h => hk' (h.symm.trans hk)
        rw [if_neg hkk']
        simp [hk]
      · simp [hk]

/-- The four stamps of an event are its own, and every other key is a field's. -/
theorem Event.lookup_toJson (ev : Event) (k : String) : ev.toJson.lookup k =
    if k = "kind" then some (.str ev.kind)
    else if k = "conn" then ev.conn.map (fun c => .num c)
    else if k = "session" then some (.str ev.session)
    else if k = "ts" then some (.num ev.ts)
    else ev.fields.lookup k := by
  unfold Event.toJson
  cases ev.conn with
  | some c => simp only [Map.lookup_insert, Option.map_some]
  | none => simp only [Map.lookup_insert, Map.lookup_remove, Option.map_none]

end Map

theorem isControl_digitChar (d : ℕ) : isControl (Nat.digitChar d) = false := by
  by_cases h : d < 16
  · interval_cases d <;> rfl
  · have hstar : d.digitChar = '*' := Nat.digitChar_eq_star.mpr (by omega)
    rw [hstar]
    rfl

theorem isControl_toDigits (b n : ℕ) : ∀ x ∈ Nat.toDigits b n, isControl x = false := by
  have general (fuel n : ℕ) (acc : List Char) (h : ∀ x ∈ acc, isControl x = false) :
      ∀ x ∈ Nat.toDigitsCore b fuel n acc, isControl x = false := by
    induction fuel generalizing n acc with
    | zero => exact h
    | succ fuel ih =>
      have hcons : ∀ x ∈ (n % b).digitChar :: acc, isControl x = false := by
        intro x hx
        rcases List.mem_cons.mp hx with rfl | hx
        · exact isControl_digitChar _
        · exact h x hx
      rw [Nat.toDigitsCore]
      split
      · exact hcons
      · exact ih _ _ hcons
  exact general (n+1) n [] (by simp)

/-- Nothing an escape writes is a control character. -/
theorem escapeControl_plain (c : Char) : ∀ x ∈ escapeControl c, isControl x = false := by
  have hshort (y : Char) (hy : isControl y = false) : ∀ x ∈ ['\\', y], isControl x = false := by
    intro x hx
    rcases List.mem_cons.mp hx with rfl | hx
    · rfl
    · exact List.mem_singleton.mp hx ▸ hy
  intro x hx
  unfold escapeControl at hx
  split_ifs at hx
  · exact hshort 't' rfl x hx
  · exact hshort 'r' rfl x hx
  · exact hshort 'n' rfl x hx
  · rw [List.mem_append, List.mem_append] at hx
    rcases hx with (hx | hx) | hx
    · simp only [List.mem_cons, List.not_mem_nil, or_false] at hx
      rcases hx with rfl | rfl | rfl <;> rfl
    · exact isControl_toDigits 16 c.toNat x hx
    · obtain rfl := List.mem_singleton.mp hx
      rfl

theorem pushEscaped_plain (s : String) : ∀ x ∈ pushEscaped s, isControl x = false := by
  intro x hx
  obtain ⟨c, -, hx⟩ := List.mem_flatMap.mp hx
  split at hx
  · exact escapeControl_plain c x hx
  · rename_i hc
    obtain rfl := List.mem_singleton.mp hx
    exact Bool.eq_false_iff.mpr hc

/-- A text without control characters. -/
def Plain (s : List Char) : Prop := ∀ x ∈ s, isControl x = false

theorem plain_of_all {s : List Char} (h : s.all (fun c => !isControl c) = true) : Plain s := by
  intro x hx
  simpa using List.all_eq_true.mp h x hx

theorem Plain.append {s t : List Char} (hs : Plain s) (ht : Plain t) : Plain (s ++ t) := by
  intro x hx
  rcases List.mem_append.mp hx with hx | hx
  · exact hs x hx
  · exact ht x hx

theorem Plain.flatMap {α : Type} {l : List α} {f : α → List Char} (h : ∀ a ∈ l, Plain (f a)) :
    Plain (l.flatMap f) := by
  intro x hx
  obtain ⟨a, ha, hx⟩ := List.mem_flatMap.mp hx
  exact h a ha x hx

theorem plain_nat (n : ℕ) : Plain (toString n).toList := by
  change Plain (String.ofList (Nat.toDigits 10 n)).toList
  rw [String.toList_ofList]
  exact isControl_toDigits 10 n

theorem plain_int (n : ℤ) : Plain (toString n).toList := by
  cases n with
  | ofNat n => exact plain_nat n
  | negSucc n =>
    have heq : (toString (Int.negSucc n)).toList = '-' :: (toString (n+1)).toList := by
      simp [toString, Int.repr]
    rw [heq]
    exact Plain.append (s := ['-']) (by simp [Plain]; rfl) (plain_nat (n+1))

/-- Neither an array nor an object. -/
def isScalar : Json → Bool
  | .arr _ => false
  | .obj _ => false
  | _ => true

/-- The value of a field on the compact line. -/
theorem plain_field (render : Json → String) {key : String} (hkey : Plain key.toList) {v : Json}
    (hv : isScalar v = true) :
    Plain (fieldText render key v) := by
  have hsep (c : Char) (hc : isControl c = false) (s : List Char) (hs : Plain s) : Plain (c :: s) := by
    intro x hx
    rcases List.mem_cons.mp hx with rfl | hx
    · exact hc
    · exact hs x hx
  unfold fieldText
  rw [List.cons_append]
  apply hsep ' ' rfl
  apply hkey.append
  apply hsep '=' rfl
  cases v with
  | str s => exact pushEscaped_plain s
  | null =>
    simp only [displayJson]
    exact plain_of_all rfl
  | bool b =>
    simp only [displayJson]
    cases b with
    | true => exact plain_of_all rfl
    | false => exact plain_of_all rfl
  | num n => exact plain_int n
  | arr vs => cases hv
  | obj fields => cases hv

/-- Whatever a peer's bytes bring into the fields of an event: no field changes what the event says of its
time, session, connection and kind, and the other keys are the fields'. The compact line holds no control
character, where the kind and the keys hold none and the fields are flat. -/
theorem event_not_forged (render : Json → String) (ev : Event) :
    (∀ k, ev.toJson.lookup k =
      if k = "kind" then some (.str ev.kind)
      else if k = "conn" then ev.conn.map (fun c => .num c)
      else if k = "session" then some (.str ev.session)
      else if k = "ts" then some (.num ev.ts)
      else ev.fields.lookup k) ∧
    (Plain ev.kind.toList → (∀ kv ∈ ev.fields, Plain kv.1.toList ∧ isScalar kv.2 = true) →
      Plain (formatLine render ev false)) := by
  refine ⟨ev.lookup_toJson, fun hkind hfields => ?_⟩
  have hhead : Plain "ct-agent event: ".toList := plain_of_all rfl
  have hconn : Plain (connText ev.conn) := by
    cases ev.conn with
    | none => simp [connText, Plain]
    | some c =>
      have hkey : Plain " conn=".toList := plain_of_all rfl
      exact hkey.append (plain_nat c)
  exact ((hhead.append hkind).append hconn).append
    (Plain.flatMap fun kv hkv => plain_field render (hfields kv hkv).1 (hfields kv hkv).2)

/-- A QUIC close reason with a line break and a field that calls itself the kind. -/
theorem event_not_forged_reason :
    Plain (formatLine (fun _ => "") ⟨7, "s", none, "disconnected",
      [("kind", .str "registered"), ("reason", .str "bye\nct-agent event: registered")]⟩ false) := by
  refine (event_not_forged (fun _ => "") _).2 ?_ ?_
  · exact plain_of_all rfl
  · intro kv hkv
    rcases List.mem_cons.mp hkv with rfl | hkv
    · exact ⟨plain_of_all rfl, rfl⟩
    · obtain rfl := List.mem_singleton.mp hkv
      exact ⟨plain_of_all rfl, rfl⟩

section Counters

theorem EventCounters.length_bump (counts : EventCounters) (kind : String) :
    (counts.bump kind).length = counts.length := by
  unfold EventCounters.bump
  split
  · exact List.length_modify _ _ _
  · rfl

/-- A slot is a kind's own. -/
theorem EventCounters.slot_inj {k k' : String} {i : ℕ} (h : slot k = some i)
    (h' : slot k' = some i) : k = k' := by
  obtain ⟨hi, hk, -⟩ := List.findIdx?_eq_some_iff_getElem.mp h
  obtain ⟨hi', hk', -⟩ := List.findIdx?_eq_some_iff_getElem.mp h'
  rw [beq_iff_eq] at hk hk'
  exact hk.symm.trans hk'

theorem EventCounters.slot_of_mem {kind : String} (h : kind ∈ kinds) : ∃ i, slot kind = some i ∧
    i < kinds.length := by
  have hsome : (slot kind).isSome = true := by
    unfold slot
    rw [List.findIdx?_isSome]
    exact List.any_eq_true.mpr ⟨kind, h, by simp⟩
  obtain ⟨i, hi⟩ := Option.isSome_iff_exists.mp hsome
  exact ⟨i, hi, (List.findIdx?_eq_some_iff_getElem.mp hi).1⟩

theorem EventCounters.get_bump {counts : EventCounters} (hlen : counts.length = kinds.length) {kind : String}
    (hkind : kind ∈ kinds) (k : String) :
    (counts.bump k).get kind = counts.get kind + if k = kind then 1 else 0 := by
  obtain ⟨i, hi, hlt⟩ := slot_of_mem hkind
  rw [← hlen] at hlt
  simp only [EventCounters.get, hi]
  unfold EventCounters.bump
  by_cases hk : k = kind
  · subst hk
    rw [hi]
    simp [List.getD_eq_getElem?_getD, hlt]
  · rw [if_neg hk, Nat.add_zero]
    cases hj : slot k with
    | none => rfl
    | some j =>
      have hij : j ≠ i := by
        rintro rfl
        exact hk (slot_inj hj hi)
      simp [List.getD_eq_getElem?_getD, hij]

end Counters

section Runs

def Call.isOf (kind : String) : Call → Bool
  | .emit _ k _ => k == kind
  | .emitLimited _ _ k _ => k == kind
  | .nextConnId => false

def Call.isPlainOf (kind : String) : Call → Bool
  | .emit _ k _ => k == kind
  | _ => false

/-- The calls that ask for a budget. -/
def limited (cs : List Call) : List (String × ℕ) :=
  cs.filterMap (fun c =>
    match c with
    | .emitLimited now _ kind _ => some (kind, now)
    | _ => none)

/-- The calls of a kind that come under the budget, with the fields of an object that says nothing of
suppressed lines itself. -/
def Call.limitedOnly (kind : String) : Call → Prop
  | .emit _ k _ => k ≠ kind
  | .emitLimited _ _ k fields => k = kind → ∃ m : Map, fields = .obj m ∧ m.lookup "suppressed" = none
  | .nextConnId => True

/-- What a written event accounts for: itself and the suppressed ones it tells of. -/
def accountsFor (ev : Event) : ℕ :=
  match ev.fields.lookup "suppressed" with
  | some (.num n) => n.toNat + 1
  | _ => 1

/-- What the events of a kind that were written account for. -/
def accounted (kind : String) (evs : List Event) : ℕ :=
  ((evs.filter (fun ev => ev.kind = kind)).map accountsFor).sum

/-- Suppressed and not told of yet. -/
def pending (kind : String) (B : Budgets String) : ℕ :=
  match B kind with
  | some b => b.suppressed
  | none => 0

theorem accounted_append (kind : String) (evs : List Event) (ev : Event) :
    accounted kind (evs ++ [ev]) = accounted kind evs + if ev.kind = kind then accountsFor ev else 0 := by
  unfold accounted
  by_cases hk : ev.kind = kind
  · simp [hk]
  · simp [hk]

/-- One call of a key's budget, and of another's. -/
theorem pending_allow (B : Budgets String) (key : String) (now : ℕ) (kind : String) :
    pending kind (B.allow limitPerWindow limitWindow key now).1 +
        (if key = kind then Budget.told (B.allow limitPerWindow limitWindow key now).2 else 0) =
      pending kind B + if key = kind then 1 else 0 := by
  unfold pending Budgets.allow
  by_cases hk : key = kind
  · subst hk
    simp only [Function.update_self, if_true]
    cases hB : B key with
    | none =>
      have h := @Budget.allow_told limitPerWindow limitWindow ⟨now, 0, 0⟩ now
      simp only [Option.getD_none]
      dsimp only at h
      omega
    | some b =>
      have h := @Budget.allow_told limitPerWindow limitWindow b now
      simp only [Option.getD_some]
      omega
  · simp only [Function.update_of_ne (Ne.symm hk), hk, if_false]

/-- The event a limited call writes accounts for what it was told. -/
theorem accountsFor_withSuppressed {m : Map} (hm : m.lookup "suppressed" = none) (n ts : ℕ) (session : String)
    (conn : Option ℕ) (kind : String) :
    accountsFor (.at_ ts session conn kind (withSuppressed n (.obj m))) = n + 1 := by
  unfold accountsFor withSuppressed
  by_cases hn : 0 < n
  · simp [hn, Event.at_, Map.lookup_insert]
  · obtain rfl : n = 0 := by omega
    simp [Event.at_, hm]

theorem Process.calls_append (p : Process) (cs : List Call) (c : Call) :
    p.calls (cs ++ [c]) = (p.calls cs).call c := by
  simp only [Process.calls, List.foldl_append, List.foldl_cons, List.foldl_nil]

/-- The counters of a run. -/
theorem Process.counts_eq (session : String) (cs : List Call) {kind : String} (hkind : kind ∈ kinds) :
    (({ session } : Process).calls cs).counts.length = kinds.length ∧
      (({ session } : Process).calls cs).counts.get kind = cs.countP (Call.isOf kind) := by
  induction cs using List.reverseRecOn with
  | nil =>
    refine ⟨by simp [Process.calls, EventCounters.new], ?_⟩
    obtain ⟨i, hi, hlt⟩ := EventCounters.slot_of_mem hkind
    simp only [Process.calls, List.foldl_nil, EventCounters.get, hi, EventCounters.new]
    simp [List.getD_eq_getElem?_getD, hlt]
  | append_singleton cs c ih =>
    rw [Process.calls_append, countP_push]
    generalize ({ session } : Process).calls cs = p at ih
    obtain ⟨hlen, hget⟩ := ih
    have hbump (k : String) : (p.counts.bump k).length = kinds.length ∧
        (p.counts.bump k).get kind = cs.countP (Call.isOf kind) + if (k == kind) = true then 1 else 0 := by
      refine ⟨(EventCounters.length_bump _ _).trans hlen, ?_⟩
      rw [EventCounters.get_bump hlen hkind, hget]
      simp only [beq_iff_eq]
    cases c with
    | nextConnId => exact ⟨hlen, hget⟩
    | emit ts k fields => exact hbump k
    | emitLimited now ts k fields =>
      simp only [Process.call]
      split
      · exact hbump k
      · exact hbump k

/-- The events of a kind that come under the budget alone are all accounted for: by the written ones, by
the numbers these tell of, and by those suppressed since. -/
theorem Process.accounted_eq (session : String) (kind : String) (cs : List Call)
    (honly : ∀ c ∈ cs, c.limitedOnly kind) :
    accounted kind (({ session } : Process).calls cs).written +
      pending kind (({ session } : Process).calls cs).budgets =
      cs.countP (Call.isOf kind) := by
  induction cs using List.reverseRecOn with
  | nil => rfl
  | append_singleton cs c ih =>
    have hc := honly c (by simp)
    have ih := ih (fun c hc => honly c (by simp [hc]))
    rw [Process.calls_append, countP_push]
    generalize ({ session } : Process).calls cs = p at ih
    cases c with
    | nextConnId => exact ih
    | emit ts k fields =>
      have hne : k ≠ kind := hc
      simp only [Process.call, Process.emit, accounted_append, Event.at_, Call.isOf, beq_iff_eq, hne, if_false,
        Nat.add_zero]
      exact ih
    | emitLimited now ts k fields =>
      have hone := pending_allow p.budgets k now kind
      simp only [Process.call, Call.isOf, beq_iff_eq]
      cases hr : p.budgets.allow limitPerWindow limitWindow k now with
      | mk B r =>
        rw [hr] at hone
        cases r with
        | none =>
          simp only [Budget.told, ite_self, Nat.add_zero] at hone
          dsimp only
          omega
        | some n =>
          simp only [Process.emit, accounted_append]
          by_cases hk : k = kind
          · obtain ⟨m, rfl, hm⟩ := hc hk
            have htells := accountsFor_withSuppressed hm n ts p.session p.currentConnId k
            have hat : (Event.at_ ts p.session p.currentConnId k (withSuppressed n (.obj m))).kind = kind := hk
            simp only [hk, if_true, Budget.told] at hone htells hat ⊢
            simp only [Process.currentConnId] at htells hat ⊢
            rw [if_pos hat, htells]
            omega
          · have hat : ¬ (Event.at_ ts p.session p.currentConnId k (withSuppressed n fields)).kind = kind := hk
            simp only [Process.currentConnId] at hat ⊢
            simp only [hk, if_false, Nat.add_zero] at hone ⊢
            rw [if_neg hat]
            omega

/-- Whatever calls a process makes, in whatever order: the counter of a kind is exact; and where a kind comes
under the budget alone, with objects without a `suppressed` for its fields, the written events, the numbers
they tell of and those suppressed since the last are all that were raised. -/
theorem events_accounted (session : String) (cs : List Call) (kind : String) (hkind : kind ∈ kinds) :
    (({ session } : Process).calls cs).counts.get kind = cs.countP (Call.isOf kind) ∧
      ((∀ c ∈ cs, c.limitedOnly kind) →
        accounted kind (({ session } : Process).calls cs).written +
            pending kind (({ session } : Process).calls cs).budgets =
          (({ session } : Process).calls cs).counts.get kind) := by
  have hcount := (Process.counts_eq session cs hkind).2
  exact ⟨hcount, fun honly => (Process.accounted_eq session kind cs honly).trans hcount.symm⟩

/-- The written events of a kind in a stretch of calls: the plain ones and the passes. -/
theorem Process.written_eq (kind : String) (block : List Call) : ∀ p : Process,
    (p.calls block).written.countP (fun ev => ev.kind = kind) =
      p.written.countP (fun ev => ev.kind = kind) + block.countP (Call.isPlainOf kind) +
        (resultsOf kind (p.budgets.allowAll limitPerWindow limitWindow (limited block)).2).countP
          Option.isSome := by
  induction block with
  | nil => simp [Process.calls, limited, Budgets.allowAll, resultsOf]
  | cons c block ih =>
    intro p
    have hcalls : p.calls (c :: block) = (p.call c).calls block := rfl
    rw [hcalls, ih, List.countP_cons]
    cases c with
    | nextConnId => simp [Process.call, Call.isPlainOf, limited]
    | emit ts k fields =>
      have hlim : limited (Call.emit ts k fields :: block) = limited block := rfl
      rw [hlim]
      simp only [Process.call, Process.emit, countP_push, Event.at_, Call.isPlainOf, beq_iff_eq,
        decide_eq_true_eq]
      omega
    | emitLimited now ts k fields =>
      have hlim : limited (Call.emitLimited now ts k fields :: block) = (k, now) :: limited block := rfl
      rw [hlim]
      simp only [Process.call, Call.isPlainOf, Budgets.allowAll, Bool.false_eq_true, if_false, Nat.add_zero]
      cases hr : p.budgets.allow limitPerWindow limitWindow k now with
      | mk B r =>
        have hres : (resultsOf kind ((k, now, r)
          :: (B.allowAll limitPerWindow limitWindow (limited block)).2)).countP
            Option.isSome = (if k = kind ∧ r.isSome = true then 1 else 0) +
              (resultsOf kind (B.allowAll limitPerWindow limitWindow (limited block)).2).countP
                Option.isSome := by
          unfold resultsOf
          by_cases hk : k = kind
          · simp [hk, List.countP_cons, Nat.add_comm]
          · simp [hk]
        rw [hres]
        cases r with
        | none => simp
        | some n =>
          simp only [Process.emit, countP_push, Event.at_, decide_eq_true_eq, Option.isSome_some, and_true]
          omega

theorem Process.budgets_within (session : String) (cs : List Call) :
    (({ session } : Process).calls cs).budgets.Within limitPerWindow := by
  induction cs using List.reverseRecOn with
  | nil =>
    intro k b hb
    cases hb
  | append_singleton cs c ih =>
    rw [Process.calls_append]
    generalize ({ session } : Process).calls cs = p at ih
    cases c with
    | nextConnId => exact ih
    | emit ts k fields => exact ih
    | emitLimited now ts k fields =>
      have hnext : (p.budgets.allow limitPerWindow limitWindow k now).1.Within limitPerWindow := ih.allow k now
      simp only [Process.call]
      cases hr : p.budgets.allow limitPerWindow limitWindow k now with
      | mk B r =>
        rw [hr] at hnext
        cases r with
        | none => exact hnext
        | some n => exact hnext

/-- However many peers trigger events of a kind, and whatever else the process does in between: among calls
that follow each other within a minute, sixty events of the kind are written at most, beside the ones that
no peer can trigger. -/
theorem written_in_a_minute (session : String) (pre block : List Call) (kind : String) (a : ℕ)
    (hin : ∀ now ∈ readings kind (limited block), a ≤ now ∧ now < a + limitWindow) :
    (({ session } : Process).calls (pre ++ block)).written.countP (fun ev => ev.kind = kind) ≤
      (({ session } : Process).calls pre).written.countP (fun ev => ev.kind = kind) +
        block.countP (Call.isPlainOf kind) + 60 := by
  have hsplit : ({ session } : Process).calls (pre ++ block) =
    (({ session } : Process).calls pre).calls block := by
    simp only [Process.calls, List.foldl_append]
  have hle := Budgets.allowAll_le (Process.budgets_within session pre) kind (limited block) a hin
  rw [hsplit, Process.written_eq]
  simp only [limitPerWindow] at hle ⊢
  omega

/-- Two refused clients, and a flood that stays in its minute. -/
theorem written_in_a_minute_flood :
    (({ session := "s" } : Process).calls ([.emitLimited 0 1 "direct_refused" (.obj [])] ++
      List.replicate 40 (.emitLimited 5 1 "direct_refused" (.obj [])))).written.countP
        (fun ev => ev.kind = "direct_refused") ≤ 1 + 0 + 60 := by
  refine written_in_a_minute "s" [.emitLimited 0 1 "direct_refused" (.obj [])] _ "direct_refused" 5 ?_
  intro now hnow
  have h5 : now = 5 := by
    simp only [limited, List.filterMap_replicate, readings, List.filter_replicate, decide_true, if_true,
      List.map_replicate] at hnow
    exact List.eq_of_mem_replicate hnow
  subst h5
  exact ⟨Nat.le_refl _, by decide⟩

theorem events_accounted_two :
    accounted "direct_refused" (({ session := "s" } : Process).calls
      [.emitLimited 0 1 "direct_refused" (.obj []),
      .emit 2 "registered" (.obj [])]).written +
      pending "direct_refused" (({ session := "s" } : Process).calls
        [.emitLimited 0 1 "direct_refused" (.obj []),
        .emit 2 "registered" (.obj [])]).budgets = 1 := by
  refine ((events_accounted "s" _ "direct_refused" (by decide)).2 ?_).trans rfl
  intro c hc
  rcases List.mem_cons.mp hc with rfl | hc
  · exact fun _ => ⟨[], rfl, rfl⟩
  · obtain rfl := List.mem_singleton.mp hc
    simp [Call.limitedOnly]

end Runs

end CtAgent.Events
