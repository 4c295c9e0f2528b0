import CtAgent.Dns01Authoritative

/-! What the verdict of the check means, and that its marker is in no other message. -/
namespace CtAgent.Dns01
open CtAgent.Lib

/-- The piece of a message does not hold the marker. -/
def NoMark (s : List Char) : Prop := ¬ unreachableMarker.toList <:+: s

/-- The marker is six words long. -/
theorem noMark_of_few {s : List Char} (h : s.count ' ' < 5) : NoMark s := by
  intro hmark
  have hcount := hmark.count_le ' '
  have hfive : unreachableMarker.toList.count ' ' = 5 := by decide
  omega

/-- No character outside the marker is inside an occurrence of it. -/
theorem noMark_cut {l r : List Char} (c : Char) (hc : c ∉ unreachableMarker.toList) (hl : NoMark l)
    (hr : NoMark r) : NoMark (l ++ c :: r) := by
  intro hmark
  rw [infix_append_cons_of_notMem hc] at hmark
  exact hmark.elim hl hr

theorem noMark_nil : NoMark [] := noMark_of_few (by decide)

theorem digitChar_ne_space : ∀ n : ℕ, ' ' ≠ n.digitChar
  | 0 | 1 | 2 | 3 | 4 | 5 | 6 | 7 | 8 | 9 | 10 | 11 | 12 | 13 | 14 | 15 => by decide
  | n + 16 => by
    have hstar : (n + 16).digitChar = '*' := Nat.digitChar_eq_star.mpr (by omega)
    rw [hstar]
    decide

theorem space_notMem_toDigits (b n : ℕ) : ' ' ∉ Nat.toDigits b n := by
  have general (fuel n : ℕ) (acc : List Char) (h : ' ' ∉ acc) : ' ' ∉ Nat.toDigitsCore b fuel n acc := by
    induction fuel generalizing n acc with
    | zero => exact h
    | succ fuel ih =>
      have hnext : ' ' ∉ Nat.digitChar (n % b) :: acc := by
        rw [List.mem_cons]
        rintro (he | hm)
        · exact digitChar_ne_space _ he
        · exact h hm
      rw [Nat.toDigitsCore]
      split
      · exact hnext
      · exact ih _ _ hnext
  exact general _ _ _ List.not_mem_nil

theorem space_notMem_toString (n : ℕ) : ' ' ∉ (toString n).toList := by
  change ' ' ∉ (String.ofList (Nat.toDigits 10 n)).toList
  rw [String.toList_ofList]
  exact space_notMem_toDigits 10 n

theorem space_notMem_displaySegments (segments : List UInt16) : ' ' ∉ (displaySegments segments).toList := by
  unfold displaySegments
  rw [String.toList_intercalate]
  induction segments with
  | nil => simp
  | cons s segments ih =>
    cases segments with
    | nil => simpa using space_notMem_toDigits 16 s.toNat
    | cons s' segments =>
      simp only [List.map_cons, List.intercalate_cons_cons, String.toList_ofList, List.mem_append] at ih ⊢
      rintro ((h | h) | h)
      · exact space_notMem_toDigits 16 s.toNat h
      · exact absurd h (by decide)
      · exact ih h

theorem space_notMem_displayIp (ip : IpAddr) : ' ' ∉ (displayIp ip).toList := by
  have hdots (a b c d : ℕ) (p : String) (hp : ' ' ∉ p.toList) :
      ' ' ∉ (p ++ toString a ++ "." ++ toString b ++ "." ++ toString c ++ "." ++ toString d).toList := by
    have ha := space_notMem_toString a
    have hb := space_notMem_toString b
    have hc := space_notMem_toString c
    have hd := space_notMem_toString d
    have hdot : ' ' ∉ ".".toList := by decide
    simp only [String.toList_append, List.mem_append, hp, ha, hb, hc, hd, hdot, or_self, not_false_eq_true]
  cases ip with
  | v4 ip =>
    have h := hdots ip.a.toNat ip.b.toNat ip.c.toNat ip.d.toNat "" (by decide)
    exact h
  | v6 ip =>
    change ' ' ∉ (Ipv6Addr.display ip).toList
    unfold Ipv6Addr.display
    dsimp only
    split_ifs
    · exact hdots _ _ _ _ "::ffff:" (by decide)
    · rw [String.toList_append, String.toList_append, List.mem_append, List.mem_append]
      rintro ((h | h) | h)
      · exact space_notMem_displaySegments _ h
      · exact absurd h (by decide)
      · exact space_notMem_displaySegments _ h
    · exact space_notMem_displaySegments _

/-- The texts of some servers, between two pieces a marker does not run into. -/
theorem noMark_servers {ps : List Probed} {c : Char} {rest : List Char}
    (hps : ∀ p ∈ ps, ' ' ∉ p.1.toList) (hne : ps ≠ []) (hc : c ∉ unreachableMarker.toList)
    (hrest : NoMark rest) :
    NoMark (' ' :: (commas (ps.map serverText)).toList ++ c :: rest) := by
  have hname (p : Probed) (hp : ' ' ∉ p.1.toList) : NoMark (' ' :: p.1.toList ++ [' ']) := by
    apply noMark_of_few
    have hzero := List.count_eq_zero_of_not_mem hp
    simp [hzero]
  have hip (p : Probed) : NoMark (displayIp p.2.1).toList := by
    apply noMark_of_few
    rw [List.count_eq_zero_of_not_mem (space_notMem_displayIp p.2.1)]
    decide
  have hentry (p : Probed) (tail : List Char) : ' ' :: (serverText p).toList ++ tail
      = (' ' :: p.1.toList ++ [' ']) ++ '(' :: ((displayIp p.2.1).toList ++ ')' :: tail) := by
    simp [serverText, show " (".toList = [' ', '('] by decide, show ")".toList = [')'] by decide]
  -- the name, the address, then what follows the address
  have hcut (p : Probed) (hp : ' ' ∉ p.1.toList) (tail : List Char) (htail : NoMark tail) :
      NoMark (' ' :: (serverText p).toList ++ tail) := by
    rw [hentry p tail]
    apply noMark_cut '(' (by decide) (hname p hp)
    exact noMark_cut ')' (by decide) (hip p) htail
  induction ps with
  | nil => exact absurd rfl hne
  | cons p ps ih =>
    have hp := hps p List.mem_cons_self
    cases ps with
    | nil =>
      have hone : commas ([p].map serverText) = serverText p := by simp [commas]
      rw [hone]
      exact hcut p hp _ (noMark_cut c hc noMark_nil hrest)
    | cons p' ps =>
      have hmore : (commas ((p :: p' :: ps).map serverText)).toList
          = (serverText p).toList ++ ',' :: ' ' :: (commas ((p' :: ps).map serverText)).toList := by
        simp [commas, String.intercalate_cons_cons, show ", ".toList = [',', ' '] by decide]
      have hih := ih (fun q hq => hps q (List.mem_cons_of_mem p hq)) (List.cons_ne_nil p' ps)
      have htail := noMark_cut ',' (by decide) noMark_nil hih
      have hall := hcut p hp _ htail
      rw [hmore]
      simpa using hall

theorem noMark_detail {ms us : List Probed} {rest : List Char} (hms : ∀ p ∈ ms, ' ' ∉ p.1.toList)
    (hus : ∀ p ∈ us, ' ' ∉ p.1.toList) (hrest : NoMark rest) :
    NoMark (' ' :: (detail (ms.map serverText) (us.map serverText)).toList ++ '.' :: rest) := by
  have hmissing : "still missing from: ".toList = "still missing from".toList ++ [':', ' '] := by decide
  have hsilent : "unreachable from this host: ".toList = "unreachable from this host".toList ++
    [':', ' '] := by
    decide
  have hunreachable (hne : us ≠ []) : NoMark (' ' :: ("unreachable from this host: ".toList ++
      (commas (us.map serverText)).toList) ++ '.' :: rest) := by
    have hhead : NoMark (' ' :: "unreachable from this host".toList) := noMark_of_few (by decide)
    have h := noMark_cut ':' (by decide) hhead (noMark_servers (c := '.') hus hne (by decide) hrest)
    rw [hsilent]
    simpa using h
  have hstill (c : Char) (hc : c ∉ unreachableMarker.toList) (hne : ms ≠ []) (tail : List Char)
      (htail : NoMark tail) :
      NoMark (' ' :: ("still missing from: ".toList ++ (commas (ms.map serverText)).toList) ++ c :: tail) := by
    have hhead : NoMark (' ' :: "still missing from".toList) := noMark_of_few (by decide)
    have h := noMark_cut ':' (by decide) hhead (noMark_servers hms hne hc htail)
    rw [hmissing]
    simpa using h
  by_cases hm : ms = []
  · by_cases hu : us = []
    · subst hm hu
      have hblank : NoMark [' '] := noMark_of_few (by decide)
      exact noMark_cut '.' (by decide) hblank hrest
    · have h := hunreachable hu
      simpa [detail, hm, hu] using h
  · by_cases hu : us = []
    · have h := hstill '.' (by decide) hm rest hrest
      simpa [detail, hm, hu] using h
    · have h := hstill ';' (by decide) hm _ (hunreachable hu)
      simpa [detail, hm, hu, show "; ".toList = [';', ' '] by decide] using h

theorem mem_intercalate {a c : Char} (hc : c ≠ a) {parts : List (List Char)} :
    c ∈ [a].intercalate parts ↔ ∃ l ∈ parts, c ∈ l := by
  induction parts with
  | nil => simp
  | cons l parts ih =>
    cases parts with
    | nil => simp
    | cons l' parts =>
      rw [List.intercalate_cons_cons, List.mem_append, List.mem_append, ih, List.mem_singleton]
      simp [hc]

/-- The zone of a name has at least two labels. -/
theorem zoneOf_dotted {dns : SystemResolver} {name zone : String} (h : zoneOf dns name = .ok zone)
    (hname : ' ' ∉ name.toList) : ∃ l r, zone.toList = l ++ '.' :: r ∧ ' ' ∉ l ∧ ' ' ∉ r := by
  unfold zoneOf at h
  split at h
  · rename_i z hfind
    have hz := Except.ok.inj h
    subst hz
    obtain ⟨start, hstart, rfl⟩ := List.mem_map.mp (List.mem_of_find?_eq_some hfind)
    have hlt := List.mem_range.mp hstart
    have hlabels : ∀ l ∈ labels name, ' ' ∉ l := by
      intro l hl hspace
      have hin : ' ' ∈ ['.'].intercalate (labels name) := (mem_intercalate (by decide)).mpr ⟨l, hl, hspace⟩
      unfold labels at hin
      rw [List.intercalate_splitOn] at hin
      have htrim := List.dropWhile_subset (· == '.') (List.mem_reverse.mp hin)
      exact hname (List.mem_reverse.mp htrim)
    have hdrop : ∀ l ∈ (labels name).drop start, ' ' ∉ l := fun l hl => hlabels l (List.mem_of_mem_drop hl)
    have hlen : 2 ≤ ((labels name).drop start).length := by
      rw [List.length_drop]
      omega
    rw [String.toList_ofList]
    match (labels name).drop start, hdrop, hlen with
    | l :: l' :: ls, hdrop, _ =>
      refine ⟨l, ['.'].intercalate (l' :: ls), ?_, hdrop l List.mem_cons_self, ?_⟩
      · rw [List.intercalate_cons_cons]
        simp
      · rw [mem_intercalate (by decide)]
        intro hspace
        obtain ⟨l'', hl'', hin⟩ := hspace
        exact hdrop l'' (List.mem_cons_of_mem l hl'') hin
  · exact absurd h nofun

/-- The message of the deadline does not hold the marker, if the names in it are single words. -/
theorem noMark_deadline {recordName zone timeout : String} {ms us : List Probed} {l r : List Char}
    (hzone : zone.toList = l ++ '.' :: r) (hl : ' ' ∉ l) (hr : ' ' ∉ r) (hname : ' ' ∉ recordName.toList)
    (htimeout : ' ' ∉ timeout.toList) (hms : ∀ p ∈ ms, ' ' ∉ p.1.toList) (hus : ∀ p ∈ us, ' ' ∉ p.1.toList) :
    NoMark (WaitError.deadline recordName zone timeout (ms.map serverText)
      (us.map serverText)).toString.toList := by
  have hcl := List.count_eq_zero_of_not_mem hl
  have hcr := List.count_eq_zero_of_not_mem hr
  have hcn := List.count_eq_zero_of_not_mem hname
  have hct := List.count_eq_zero_of_not_mem htimeout
  have hadvice : NoMark (
      " Let's Encrypt validates against these servers from multiple perspectives, so triggering " ++
      "validation now would fail secondary validation.").toList := by
    unfold NoMark
    decide +kernel
  have hdetail := noMark_detail hms hus hadvice
  have hdash := noMark_cut '-' (by decide) noMark_nil hdetail
  have hzoneEnd : NoMark (r ++ (" after ".toList ++ (timeout.toList ++ [' ']))) := by
    apply noMark_of_few
    simp [hcr, hct]
  have hafter := noMark_cut '-' (by decide) hzoneEnd hdash
  have hzoneStart : NoMark (" authoritative nameserver of ".toList ++ l) := by
    apply noMark_of_few
    rw [List.count_append, hcl]
    decide
  have hserver := noMark_cut '.' (by decide) hzoneStart hafter
  have hever : NoMark " ever".toList := noMark_of_few (by decide)
  have hb : NoMark " b".toList := noMark_of_few (by decide)
  have hserve : NoMark "et serve".toList := noMark_of_few (by decide)
  have hevery := noMark_cut 'y' (by decide) hever hserver
  have hby := noMark_cut 'y' (by decide) hb hevery
  have hserved := noMark_cut 'd' (by decide) hserve hby
  have hrecord : NoMark ("TXT ".toList ++ (recordName.toList ++ " is not ".toList)) := by
    apply noMark_of_few
    rw [List.count_append, List.count_append, hcn]
    decide
  have hall := noMark_cut 'y' (by decide) hrecord hserved
  have hsplit : " is not yet served by every authoritative nameserver of ".toList
      = " is not ".toList ++ 'y' :: ("et serve".toList ++ 'd' :: (" b".toList ++ 'y' :: (" ever".toList ++
        'y' :: " authoritative nameserver of ".toList))) := by decide +kernel
  have hadviceDot :
      ". Let's Encrypt validates against these servers from multiple perspectives, so triggering ".toList =
      '.' ::
       " Let's Encrypt validates against these servers from multiple perspectives, so triggering ".toList := by
    decide +kernel
  have hdashes : " -- ".toList = ' ' :: '-' :: '-' :: [' '] := by decide
  unfold WaitError.toString
  rw [String.toList_append] at hall
  iterate 9 rw [String.toList_append]
  rw [hzone, hsplit, hadviceDot, hdashes]
  -- the literals are as good as any texts from here on
  generalize "TXT ".toList = txt, " is not ".toList = is, "et serve".toList = et, " b".toList = b,
    " ever".toList = ever, " authoritative nameserver of ".toList = auth, " after ".toList = after,
    " Let's Encrypt validates against these servers from multiple perspectives, so triggering ".toList = lets,
    "validation now would fail secondary validation.".toList = now at hall ⊢
  simpa using hall

/-- The caller's `Err(e) if e.contains(UNREACHABLE_MARKER)`. -/
def carriesMarker : Except WaitError Unit → Bool
  | .error e => contains e.toString unreachableMarker
  | .ok _ => false

theorem carriesMarker_unreachable (zone : String) (silent : List String) :
    carriesMarker (.error (.unreachable zone silent)) = true := by
  unfold carriesMarker contains
  rw [decide_eq_true_iff]
  unfold WaitError.toString
  simp only [String.append_assoc]
  rw [String.toList_append]
  exact List.IsInfix.trans List.infix_rfl (List.prefix_append _ _).isInfix

theorem pendingServers_texts (ps : List Probed) :
    ∃ ms us : List Probed, (∀ p ∈ ms, p ∈ ps) ∧ (∀ p ∈ us, p ∈ ps) ∧
      pendingServers ps = (ms.map serverText, us.map serverText) :=
  ⟨ps.filter (fun p => p.2.2 == .absent), ps.filter (fun p => p.2.2 == .unreachable && !answered ps p.1),
    fun _ hp => (List.mem_filter.mp hp).1, fun _ hp => (List.mem_filter.mp hp).1, rfl⟩

/-- With an unresolved name beside a resolved one, a round of present values passes without it. -/
theorem unresolved_name_slips {dns : SystemResolver} {recordName lost found : String}
    (expected timeout : String)
    (hlost : lost ∈ rrset dns recordName) (hnone : lookedUp dns lost = [])
    (hfound : found ∈ rrset dns recordName) (hip : lookedUp dns found ≠ []) :
    ∃ r, waitForAll dns recordName expected timeout [r] = some (.ok ()) ∧
      ¬ Covered dns recordName expected r := by
  obtain ⟨ip, hip⟩ := List.exists_mem_of_ne_nil _ hip
  have hmem := mem_serverList.mpr ⟨hfound, hip⟩
  -- every server that is asked serves the value at once
  let r : Round := ⟨fun _ => ⟨some [expected], true⟩, false⟩
  have hpresent : ∀ p ∈ probes expected (serverList dns recordName) r, p.2.2 = .present := by
    intro p hp
    obtain ⟨e, -, rfl⟩ := List.mem_map.mp hp
    simp [r, probe]
  refine ⟨r, ?_, ?_⟩
  · rcases waitForAll_eq dns recordName expected timeout with ⟨-, hempty⟩ | ⟨zone, -, -, hrounds⟩
    · rw [hempty] at hmem
      exact absurd hmem List.not_mem_nil
    · have hok : roundVerdict recordName expected zone timeout (serverList dns recordName) r =
        some (.ok ()) := by
        apply roundVerdict_ok.mpr
        refine ⟨?_, missing_eq_nil.mpr ?_, unreachable_eq_nil.mpr ?_⟩
        · intro hall
          obtain ⟨q, hq⟩ := probed_of_mem expected r hmem
          exact absurd ((hpresent _ hq).symm.trans (hall _ hq)) (by decide)
        · intro p hp hcontra
          exact absurd ((hpresent p hp).symm.trans hcontra) (by decide)
        · intro p hp hcontra
          exact absurd ((hpresent p hp).symm.trans hcontra) (by decide)
      rw [hrounds, waitRounds, hok]
  · intro hcovered
    obtain ⟨ip', hip', -⟩ := (hcovered lost hlost).1
    rw [hnone] at hip'
    exact List.not_mem_nil hip'

theorem covered_of_ok {dns : SystemResolver} {recordName expected timeout : String} {rounds : List Round}
    (hresolved : ∀ host ∈ rrset dns recordName, lookedUp dns host ≠ [])
    (hok : waitForAll dns recordName expected timeout rounds = some (.ok ())) :
    ∃ r ∈ rounds, Covered dns recordName expected r := by
  rcases waitForAll_eq dns recordName expected timeout with ⟨⟨e, he⟩, -⟩ | ⟨zone, -, -, hrounds⟩
  · exact absurd ((he rounds).symm.trans hok) nofun
  · rw [hrounds] at hok
    obtain ⟨r, hr, hverdict⟩ := waitRounds_ok hok
    obtain ⟨-, hmissing, hunreachable⟩ := roundVerdict_ok.mp hverdict
    exact ⟨r, hr, covered_of_none_pending hresolved hmissing hunreachable⟩

/-- The marker in what a round of the wait returns. -/
theorem marker_of_verdict {dns : SystemResolver} {recordName expected timeout zone : String} {r : Round}
    {v : Except WaitError Unit} (hzone : zoneOf dns recordName = .ok zone)
    (hv : roundVerdict recordName expected zone timeout (serverList dns recordName) r = some v) :
    let silent := ∀ p ∈ probes expected (serverList dns recordName) r, p.2.2 = .unreachable
    ((∃ zone servers, v = .error (.unreachable zone servers)) ↔ silent) ∧
    (silent → carriesMarker v = true) ∧
    (' ' ∉ recordName.toList → ' ' ∉ timeout.toList → (∀ host ∈ rrset dns recordName, ' ' ∉ host.toList) →
      carriesMarker v = true → silent) := by
  intro silent
  rcases roundVerdict_cases recordName expected zone timeout (serverList dns recordName) r with hc | ⟨hnot, hc⟩
  · have hve := Option.some.inj (hv.symm.trans hc.1)
    subst hve
    exact ⟨⟨fun _ => hc.2, fun _ => ⟨_, _, rfl⟩⟩, fun _ => carriesMarker_unreachable _ _, fun _ _ _ _ => hc.2⟩
  · rcases hc with hc | ⟨-, hc | hc⟩
    · have hve := Option.some.inj (hv.symm.trans hc.1)
      subst hve
      refine ⟨⟨?_, fun h => absurd h hnot⟩, fun h => absurd h hnot, ?_⟩
      · intro h
        obtain ⟨_, _, h⟩ := h
        exact absurd h nofun
      · intro _ _ _ hmark
        exact absurd hmark (by decide)
    · have hve := Option.some.inj (hv.symm.trans hc)
      subst hve
      refine ⟨⟨?_, fun h => absurd h hnot⟩, fun h => absurd h hnot, ?_⟩
      · intro h
        obtain ⟨_, _, h⟩ := h
        exact absurd (Except.error.inj h) nofun
      · intro hname htimeout hhosts hmark
        have hhost : ∀ p ∈ probes expected (serverList dns recordName) r, ' ' ∉ p.1.toList :=
          fun p hp => hhosts p.1 (mem_serverList.mp (mem_probes hp)).1
        obtain ⟨l, r', hdotted, hl, hr⟩ := zoneOf_dotted hzone hname
        obtain ⟨ms, us, hms, hus, hpending⟩ :=
          pendingServers_texts (probes expected (serverList dns recordName) r)
        have hclean := noMark_deadline hdotted hl hr hname htimeout
          (fun p hp => hhost p (hms p hp)) (fun p hp => hhost p (hus p hp))
        rw [hpending] at hmark
        exact absurd (of_decide_eq_true hmark) hclean
    · exact absurd (hv.symm.trans hc.1) nofun

/-- A name that no lookup resolves is not waited for, where another one is resolved; and the marker
says that in the last round nothing at all has answered. -/
theorem issuance_check_iff (dns : SystemResolver) (recordName expected timeout : String) :
    ((∀ rounds, waitForAll dns recordName expected timeout rounds = some (.ok ()) →
        ∃ r ∈ rounds, Covered dns recordName expected r) ↔
      (∀ host ∈ rrset dns recordName, lookedUp dns host ≠ []) ∨
        ∀ host ∈ rrset dns recordName, lookedUp dns host = []) ∧
    ∀ pre r v, waitForAll dns recordName expected timeout pre = none →
      waitForAll dns recordName expected timeout (pre ++ [r]) = some v →
      let silent := ∀ p ∈ probes expected (serverList dns recordName) r, p.2.2 = .unreachable
      ((∃ zone servers, v = .error (.unreachable zone servers)) ↔ silent) ∧
      (silent → carriesMarker v = true) ∧
      -- the names as the resolver prints them, and the timeout, are single words
      (' ' ∉ recordName.toList → ' ' ∉ timeout.toList → (∀ host ∈ rrset dns recordName, ' ' ∉ host.toList) →
        carriesMarker v = true → silent) := by
  constructor
  · constructor
    · intro h
      by_contra hmixed
      rw [not_or] at hmixed
      obtain ⟨hsome, hnotAll⟩ := hmixed
      push Not at hsome hnotAll
      obtain ⟨lost, hlost, hnone⟩ := hsome
      obtain ⟨found, hfound, hip⟩ := hnotAll
      obtain ⟨r, hok, hnot⟩ := unresolved_name_slips expected timeout hlost hnone hfound hip
      obtain ⟨r', hr', hcovered⟩ := h [r] hok
      exact hnot (List.mem_singleton.mp hr' ▸ hcovered)
    · intro hresolved rounds hok
      rcases hresolved with hresolved | hresolved
      · exact covered_of_ok hresolved hok
      · rcases waitForAll_eq dns recordName expected timeout with ⟨⟨e, he⟩, -⟩ | ⟨zone, -, hne, -⟩
        · exact absurd ((he rounds).symm.trans hok) nofun
        · obtain ⟨⟨host, ip⟩, hmem⟩ := List.exists_mem_of_ne_nil _ hne
          obtain ⟨hhost, hip⟩ := mem_serverList.mp hmem
          rw [hresolved host hhost] at hip
          exact absurd hip List.not_mem_nil
  · intro pre r v hpre hv
    rcases waitForAll_eq dns recordName expected timeout with ⟨⟨e, he⟩, -⟩ | ⟨zone, hzone, -, hrounds⟩
    · exact absurd ((he pre).symm.trans hpre) nofun
    · rw [hrounds] at hpre hv
      rw [waitRounds_last hpre] at hv
      exact marker_of_verdict hzone hv

/-- Two name servers, one of which has no address the resolver finds. -/
def halfResolved : SystemResolver :=
  ⟨fun c => c == "example.org.", fun _ => .ok [.ns "ns1.example.org.", .ns "ns2.example.org."],
    fun host => if host = "ns1.example.org." then some [.v4 ⟨192, 0, 2, 10⟩] else none⟩

theorem unresolved_server_not_waited_for :
    ¬ ∀ rounds, waitForAll halfResolved "_acme-challenge.example.org" "token" "300s" rounds = some (.ok ()) →
      ∃ r ∈ rounds, Covered halfResolved "_acme-challenge.example.org" "token" r := by
  intro h
  have hzone : zoneOf halfResolved "_acme-challenge.example.org" = .ok "example.org" := by decide +kernel
  have hnames : rrset halfResolved "_acme-challenge.example.org" =
    ["ns1.example.org.", "ns2.example.org."] := by
    unfold rrset
    rw [hzone]
    rfl
  have hlost : "ns2.example.org." ∈ rrset halfResolved "_acme-challenge.example.org" := by rw [hnames]; decide
  have hfound : "ns1.example.org." ∈ rrset halfResolved "_acme-challenge.example.org" := by rw [hnames]; decide
  obtain ⟨r, hok, hnot⟩ := unresolved_name_slips "token" "300s" hlost rfl hfound (by decide)
  obtain ⟨r', hr', hcovered⟩ := h [r] hok
  exact hnot (List.mem_singleton.mp hr' ▸ hcovered)

end CtAgent.Dns01
