import CtAgent.Lib.NetAddr
import CtAgent.Lib.Substring

/-! The check of a DNS-01 record on the authoritative name servers of its zone. -/
namespace CtAgent.Dns01
open CtAgent.Lib

inductive RData where
  | ns (name : String)
  | other
  deriving DecidableEq, Repr

/-- What the system resolver says: whether a name has an NS RRset, that RRset when it is read, and
the addresses of a name server, if its lookup succeeds. -/
structure SystemResolver where
  hasNs : String → Bool
  nsLookup : String → Except String (List RData)
  lookupIp : String → Option (List IpAddr)

def displayIp : IpAddr → String
  | .v4 ip => ip.display
  | .v6 ip => ip.display

def unreachableMarker : String := "authoritative nameservers unreachable from this host"

inductive Probe where
  | present | absent | unreachable
  deriving DecidableEq, Repr

/-- One server in one round: its TXT values, if it gives an answer, and whether it serves the SOA. -/
structure ServerAnswer where
  txtAt : Option (List String)
  soaReachable : Bool
  deriving DecidableEq, Repr

def probe (expected : String) (a : ServerAnswer) : Probe :=
  match a.txtAt with
  | some values =>
    if values.any (· == expected) then .present
    else if a.soaReachable then .absent else .unreachable
  | none => if a.soaReachable then .absent else .unreachable

abbrev Probed := String × IpAddr × Probe

def isAnswer : Probe → Bool
  | .present | .absent => true
  | .unreachable => false

def answered (probes : List Probed) (host : String) : Bool :=
  probes.any (fun p => p.1 == host && isAnswer p.2.2)

def serverText (p : Probed) : String := p.1 ++ " (" ++ displayIp p.2.1 ++ ")"

/-- The servers that still hold issuance up: the missing and the unreachable ones. -/
def pendingServers (probes : List Probed) : List String × List String :=
  ((probes.filter (fun p => p.2.2 == .absent)).map serverText,
    -- an address counts as unreachable where no address of its name has answered
    (probes.filter (fun p => p.2.2 == .unreachable && !answered probes p.1)).map serverText)

inductive WaitError where
  | noZone (name : String)
  | nsLookup (zone why : String)
  | noAddresses (zone : String)
  | unreachable (zone : String) (unreachable : List String)
  | deadline (recordName zone timeout : String) (missing unreachable : List String)
  deriving DecidableEq, Repr

def commas (texts : List String) : String := ", ".intercalate texts

def detail (missing unreachable : List String) : String :=
  (if missing = [] then "" else "still missing from: " ++ commas missing) ++
    (if missing ≠ [] ∧ unreachable ≠ [] then "; " else "") ++
    (if unreachable = [] then "" else "unreachable from this host: " ++ commas unreachable)

def WaitError.toString : WaitError → String
  | .noZone name => "no zone with an NS RRset found for " ++ name
  | .nsLookup zone why => "NS lookup for " ++ zone ++ " failed: " ++ why
  | .noAddresses zone => "no authoritative nameserver addresses resolved for " ++ zone
  | .unreachable zone silent =>
    unreachableMarker ++ ": none of " ++ zone ++ "'s authoritative nameservers answered from this host (" ++
      commas silent ++ "). This is almost always outbound DNS (UDP/53) being blocked locally, not a " ++
      "propagation problem."
  | .deadline recordName zone timeout missing silent =>
    "TXT " ++ recordName ++ " is not yet served by every authoritative nameserver of " ++ zone ++ " after " ++
      timeout ++ " -- " ++ detail missing silent ++
      ". Let's Encrypt validates against these servers from multiple perspectives, so triggering " ++
      "validation now would fail secondary validation."

/-- `trim_end_matches('.')`, then `split('.')`. -/
def labels (name : String) : List (List Char) :=
  ((name.toList.reverse.dropWhile (· == '.')).reverse).splitOn '.'

/-- `labels[start..].join(".")` for every start before the last label. -/
def zoneCandidates (ls : List (List Char)) : List String :=
  (List.range (ls.length - 1)).map (fun start => String.ofList (['.'].intercalate (ls.drop start)))

def zoneOf (dns : SystemResolver) (name : String) : Except WaitError String :=
  match (zoneCandidates (labels name)).find? (fun c => dns.hasNs (c ++ ".")) with
  | some zone => .ok zone
  | none => .error (.noZone name)

/-- The NS names of an RRset. -/
def nsNames (answers : List RData) : List String :=
  answers.filterMap (fun
    | .ns name => some name
    | .other => none)

def lookedUp (dns : SystemResolver) (host : String) : List IpAddr := (dns.lookupIp host).getD []

def authoritativeAddrs (dns : SystemResolver) (zone : String) :
    Except WaitError (List (String × IpAddr)) :=
  match dns.nsLookup (zone ++ ".") with
  | .error why => .error (.nsLookup zone why)
  | .ok answers =>
    -- a name whose lookup fails is left out
    let out := (nsNames answers).flatMap (fun host => (lookedUp dns host).map (fun ip => (host, ip)))
    if out = [] then .error (.noAddresses zone) else .ok out

/-- One round: what the servers answer, by their place in the list, and whether the deadline has
passed when the round ends. -/
structure Round where
  answers : ℕ → ServerAnswer
  late : Bool

def probes (expected : String) (servers : List (String × IpAddr)) (r : Round) : List Probed :=
  servers.zipIdx.map (fun e => (e.1.1, e.1.2, probe expected (r.answers e.2)))

/-- What a round comes to; none: sleep, and the next one. -/
def roundVerdict (recordName expected zone timeout : String) (servers : List (String × IpAddr))
    (r : Round) : Option (Except WaitError Unit) :=
  let (missing, unreachable) := pendingServers (probes expected servers r)
  if unreachable.length = servers.length then some (.error (.unreachable zone unreachable))
  else if missing = [] ∧ unreachable = [] then some (.ok ())
  else if r.late then some (.error (.deadline recordName zone timeout missing unreachable))
  else none

/-- The loop over the rounds; none: it still waits. -/
def waitRounds (recordName expected zone timeout : String) (servers : List (String × IpAddr)) :
    List Round → Option (Except WaitError Unit)
  | [] => none
  | r :: rest =>
    match roundVerdict recordName expected zone timeout servers r with
    | some v => some v
    | none => waitRounds recordName expected zone timeout servers rest

def waitForAll (dns : SystemResolver) (recordName expected timeout : String) (rounds : List Round) :
    Option (Except WaitError Unit) :=
  match zoneOf dns recordName with
  | .error e => some (.error e)
  | .ok zone =>
    match authoritativeAddrs dns zone with
    | .error e => some (.error e)
    | .ok servers => waitRounds recordName expected zone timeout servers rounds

/-- The NS names the check is about. -/
def rrset (dns : SystemResolver) (recordName : String) : List String :=
  match zoneOf dns recordName with
  | .error _ => []
  | .ok zone =>
    match dns.nsLookup (zone ++ ".") with
    | .error _ => []
    | .ok answers => nsNames answers

/-- Every address of every name of the RRset. -/
def serverList (dns : SystemResolver) (recordName : String) : List (String × IpAddr) :=
  (rrset dns recordName).flatMap (fun host => (lookedUp dns host).map (fun ip => (host, ip)))

theorem mem_serverList {dns : SystemResolver} {recordName host : String} {ip : IpAddr} :
    (host, ip) ∈ serverList dns recordName ↔ host ∈ rrset dns recordName ∧ ip ∈ lookedUp dns host := by
  unfold serverList
  rw [List.mem_flatMap]
  constructor
  · intro h
    obtain ⟨host', hhost, hmem⟩ := h
    obtain ⟨ip', hip, he⟩ := List.mem_map.mp hmem
    obtain ⟨rfl, rfl⟩ := Prod.mk.inj he
    exact ⟨hhost, hip⟩
  · intro h
    exact ⟨host, h.1, List.mem_map.mpr ⟨ip, h.2, rfl⟩⟩

/-- No round is run without an address; with one, the rounds are run on the whole list. -/
theorem waitForAll_eq (dns : SystemResolver) (recordName expected timeout : String) :
    (∃ e, ∀ rounds, waitForAll dns recordName expected timeout rounds = some (.error e)) ∧
        serverList dns recordName = [] ∨
      ∃ zone, zoneOf dns recordName = .ok zone ∧ serverList dns recordName ≠ [] ∧
        ∀ rounds, waitForAll dns recordName expected timeout rounds
          = waitRounds recordName expected zone timeout (serverList dns recordName) rounds := by
  unfold waitForAll serverList rrset authoritativeAddrs
  cases hzone : zoneOf dns recordName with
  | error e => exact Or.inl ⟨⟨e, fun _ => rfl⟩, rfl⟩
  | ok zone =>
    cases hns : dns.nsLookup (zone ++ ".") with
    | error why =>
      simp only [hns]
      exact Or.inl ⟨⟨.nsLookup zone why, fun _ => rfl⟩, rfl⟩
    | ok answers =>
      simp only [hns]
      by_cases hempty : (nsNames answers).flatMap
        (fun host => (lookedUp dns host).map (fun ip => (host, ip))) = []
      · simp only [if_pos hempty]
        exact Or.inl ⟨⟨.noAddresses zone, fun _ => rfl⟩, hempty⟩
      · simp only [if_neg hempty]
        exact Or.inr ⟨zone, rfl, hempty, fun _ => rfl⟩

section round
variable {expected : String} {servers : List (String × IpAddr)} {r : Round}

theorem mem_probes {p : Probed} (h : p ∈ probes expected servers r) : (p.1, p.2.1) ∈ servers := by
  obtain ⟨e, he, rfl⟩ := List.mem_map.mp h
  exact List.fst_mem_of_mem_zipIdx he

theorem probed_of_mem {host : String} {ip : IpAddr} (expected : String) (r : Round)
    (h : (host, ip) ∈ servers) :
    ∃ q, (host, ip, q) ∈ probes expected servers r := by
  obtain ⟨i, hi, hget⟩ := List.mem_iff_getElem.mp h
  refine ⟨probe expected (r.answers i), List.mem_map.mpr ⟨((host, ip), i), ?_, rfl⟩⟩
  rw [List.mem_zipIdx_iff_getElem?]
  exact List.getElem?_eq_some_iff.mpr ⟨hi, hget⟩

theorem probes_length : (probes expected servers r).length = servers.length := by
  simp [probes]

theorem answered_iff {ps : List Probed} {host : String} :
    answered ps host = true ↔ ∃ ip q, (host, ip, q) ∈ ps ∧ isAnswer q = true := by
  unfold answered
  rw [List.any_eq_true]
  constructor
  · intro h
    obtain ⟨⟨host', ip, q⟩, hmem, hp⟩ := h
    obtain ⟨hhost, hq⟩ := Bool.and_eq_true_iff.mp hp
    exact ⟨ip, q, (beq_iff_eq.mp hhost) ▸ hmem, hq⟩
  · intro h
    obtain ⟨ip, q, hmem, hq⟩ := h
    exact ⟨(host, ip, q), hmem, by simp [hq]⟩

theorem missing_eq_nil {ps : List Probed} :
    (pendingServers ps).1 = [] ↔ ∀ p ∈ ps, p.2.2 ≠ .absent := by
  simp [pendingServers]

theorem unreachable_eq_nil {ps : List Probed} :
    (pendingServers ps).2 = [] ↔ ∀ p ∈ ps, p.2.2 = .unreachable → answered ps p.1 = true := by
  simp [pendingServers]

/-- The count of unreachable addresses is that of all addresses only where nothing answered at all. -/
theorem unreachable_length {ps : List Probed} :
    (pendingServers ps).2.length = ps.length ↔ ∀ p ∈ ps, p.2.2 = .unreachable := by
  change ((ps.filter _).map serverText).length = ps.length ↔ _
  rw [List.length_map, List.length_filter_eq_length_iff]
  constructor
  · intro h p hp
    have hboth := h p hp
    rw [Bool.and_eq_true, beq_iff_eq] at hboth
    exact hboth.1
  · intro h p hp
    have hsilent : answered ps p.1 = false := by
      rw [Bool.eq_false_iff]
      intro hanswered
      obtain ⟨ip, q, hmem, hq⟩ := answered_iff.mp hanswered
      have hun : q = .unreachable := h _ hmem
      rw [hun] at hq
      exact absurd hq (by decide)
    rw [h p hp, hsilent]
    rfl

end round

/-- In the round every name has an address that serves the value, and none says it is missing. -/
def Covered (dns : SystemResolver) (recordName expected : String) (r : Round) : Prop :=
  ∀ host ∈ rrset dns recordName,
    (∃ ip ∈ lookedUp dns host, (host, ip, .present) ∈ probes expected (serverList dns recordName) r) ∧
    ∀ ip ∈ lookedUp dns host, (∃ q, (host, ip, q) ∈ probes expected (serverList dns recordName) r) ∧
      (host, ip, .absent) ∉ probes expected (serverList dns recordName) r

theorem covered_of_none_pending {dns : SystemResolver} {recordName expected : String} {r : Round}
    (hresolved : ∀ host ∈ rrset dns recordName, lookedUp dns host ≠ [])
    (hmissing : (pendingServers (probes expected (serverList dns recordName) r)).1 = [])
    (hunreachable : (pendingServers (probes expected (serverList dns recordName) r)).2 = []) :
    Covered dns recordName expected r := by
  have habsent := missing_eq_nil.mp hmissing
  have hanswered := unreachable_eq_nil.mp hunreachable
  intro host hhost
  refine ⟨?_, ?_⟩
  · obtain ⟨ip, hip⟩ := List.exists_mem_of_ne_nil _ (hresolved host hhost)
    obtain ⟨q, hq⟩ := probed_of_mem expected r (mem_serverList.mpr ⟨hhost, hip⟩)
    cases q with
    | present => exact ⟨ip, hip, hq⟩
    | absent => exact absurd rfl (habsent _ hq)
    | unreachable =>
      -- another address of the name has answered, and not with a missing value
      obtain ⟨ip', q', hq', ha⟩ := answered_iff.mp (hanswered _ hq rfl)
      cases q' with
      | present => exact ⟨ip', (mem_serverList.mp (mem_probes hq')).2, hq'⟩
      | absent => exact absurd rfl (habsent _ hq')
      | unreachable => exact absurd ha (by decide)
  · intro ip hip
    refine ⟨probed_of_mem expected r (mem_serverList.mpr ⟨hhost, hip⟩), ?_⟩
    intro hmem
    exact habsent _ hmem rfl

/-- What each verdict of a round says about it. -/
theorem roundVerdict_cases (recordName expected zone timeout : String) (servers : List (String × IpAddr))
    (r : Round) :
    let v := roundVerdict recordName expected zone timeout servers r
    let ps := probes expected servers r
    let pending := pendingServers ps
    (v = some (.error (.unreachable zone pending.2)) ∧ ∀ p ∈ ps, p.2.2 = .unreachable) ∨
    (¬ ∀ p ∈ ps, p.2.2 = .unreachable) ∧
      ((v = some (.ok ()) ∧ pending.1 = [] ∧ pending.2 = []) ∨
        ¬ (pending.1 = [] ∧ pending.2 = []) ∧
          (v = some (.error (.deadline recordName zone timeout pending.1 pending.2)) ∨
            v = none ∧ r.late = false)) := by
  intro v ps pending
  have hv : v = if pending.2.length = servers.length then some (.error (.unreachable zone pending.2))
    else if pending.1 = [] ∧ pending.2 = [] then some (.ok ())
    else if r.late then some (.error (.deadline recordName zone timeout pending.1 pending.2))
    else none := rfl
  have hlength : ps.length = servers.length := probes_length
  rw [← hlength] at hv
  split_ifs at hv with hsilent hdone hlate
  · exact Or.inl ⟨hv, unreachable_length.mp hsilent⟩
  · exact Or.inr ⟨fun h => hsilent (unreachable_length.mpr h), Or.inl ⟨hv, hdone.1, hdone.2⟩⟩
  · exact Or.inr ⟨fun h => hsilent (unreachable_length.mpr h), Or.inr ⟨hdone, Or.inl hv⟩⟩
  · exact Or.inr ⟨fun h => hsilent (unreachable_length.mpr h),
      Or.inr ⟨hdone, Or.inr ⟨hv, by simpa using hlate⟩⟩⟩

section verdict
variable {recordName expected zone timeout : String} {servers : List (String × IpAddr)}

/-- A round passes exactly where nothing is pending and something has answered. -/
theorem roundVerdict_ok {r : Round} :
    roundVerdict recordName expected zone timeout servers r = some (.ok ()) ↔
      (¬ ∀ p ∈ probes expected servers r, p.2.2 = .unreachable) ∧
        (pendingServers (probes expected servers r)).1 = [] ∧
          (pendingServers (probes expected servers r)).2 = [] := by
  rcases roundVerdict_cases recordName expected zone timeout servers r with ⟨hv, hall⟩ | ⟨hnot, hc⟩
  · constructor
    · intro h
      exact absurd (hv.symm.trans h) nofun
    · intro h
      exact absurd hall h.1
  · rcases hc with hc | ⟨hpending, hv⟩
    · exact ⟨fun _ => ⟨hnot, hc.2⟩, fun _ => hc.1⟩
    · constructor
      · intro h
        rcases hv with hv | hv
        · exact absurd (hv.symm.trans h) nofun
        · exact absurd (hv.1.symm.trans h) nofun
      · intro h
        exact absurd h.2 hpending

theorem waitRounds_ok {rounds : List Round}
    (h : waitRounds recordName expected zone timeout servers rounds = some (.ok ())) :
    ∃ r ∈ rounds, roundVerdict recordName expected zone timeout servers r = some (.ok ()) := by
  induction rounds with
  | nil => exact absurd h nofun
  | cons r rest ih =>
    rw [waitRounds] at h
    cases hv : roundVerdict recordName expected zone timeout servers r with
    | some v =>
      rw [hv] at h
      exact ⟨r, List.mem_cons_self, hv.trans h⟩
    | none =>
      rw [hv] at h
      obtain ⟨r', hr', hv'⟩ := ih h
      exact ⟨r', List.mem_cons_of_mem r hr', hv'⟩

/-- The round that ends the wait gives its verdict. -/
theorem waitRounds_last {pre : List Round} {r : Round}
    (h : waitRounds recordName expected zone timeout servers pre = none) :
    waitRounds recordName expected zone timeout servers (pre ++ [r])
      = roundVerdict recordName expected zone timeout servers r := by
  induction pre with
  | nil =>
    change waitRounds recordName expected zone timeout servers [r] = _
    rw [waitRounds, waitRounds]
    cases roundVerdict recordName expected zone timeout servers r <;> rfl
  | cons r' pre ih =>
    rw [waitRounds] at h
    rw [List.cons_append, waitRounds]
    cases hv : roundVerdict recordName expected zone timeout servers r' with
    | some v =>
      rw [hv] at h
      exact absurd h nofun
    | none =>
      rw [hv] at h
      exact ih h

end verdict

end CtAgent.Dns01
