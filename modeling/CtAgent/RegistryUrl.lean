import Mathlib
import CtAgent.Forward.Target
import CtAgent.Lib.NetAddr
import CtAgent.Lib.Url

/-! The scheme of the registry's URL: the guard that reads the text itself, and the host that the URL
parser connects to. -/
namespace CtAgent.ManifestRun
open CtAgent.Lib CtAgent.Lib.Url CtAgent.Forward

/-- What stands in front of the first `/` or `?`. -/
def guardAuthority (rest : List Char) : List Char := rest.takeWhile (fun c => c ≠ '/' ∧ c ≠ '?')

/-- The host behind the last `@`: what is in the bracket, or up to a colon. -/
def guardHost (authority : List Char) : List Char :=
  match authority.rtakeWhile (· ≠ '@') with
  | '[' :: bracketed => bracketed.takeWhile (· ≠ ']')
  | host => host.takeWhile (· ≠ ':')

local instance lawfulChars : LawfulBEq (List Char) := inferInstance

def guardHosts : List (List Char) := ["localhost".toList, "127.0.0.1".toList, "::1".toList]

def requireRegistryUrlScheme (url : String) : Except String Unit :=
  let refused := s!"CT_MANIFEST_REGISTRY_URL must be https:// (got '{url}') -- it carries " ++
    "CT_MANIFEST_REGISTRY_WRITE_TOKEN plus the manifest/bundle bytes on every request, so a " ++
    "non-loopback http:// endpoint would leak all of it in cleartext to anyone on path; " ++
    "http://127.0.0.1, http://localhost or http://[::1] is allowed for local development"
  if url.startsWith "https://" then .ok ()
  else
    match stripStart "http://" url with
    | some rest => if guardHost (guardAuthority rest.toList) ∈ guardHosts then .ok () else .error refused
    | none => .error refused

/-- A host of a URL. -/
inductive UrlHost where
  | domain (name : List Char)
  | ip (addr : IpAddr)
  deriving DecidableEq

def loopbackHosts : List UrlHost :=
  [.domain "localhost".toList, .ip (.v4 ⟨127, 0, 0, 1⟩), .ip (.v6 .localhost)]

/-- How the host parser reads the three hosts, and a text that starts with a bracket. -/
structure HostRules (parseHost : List Char → Option UrlHost) : Prop where
  localhost : parseHost "localhost".toList = some (.domain "localhost".toList)
  ipv4 : parseHost "127.0.0.1".toList = some (.ip (.v4 ⟨127, 0, 0, 1⟩))
  ipv6 : parseHost "[::1]".toList = some (.ip (.v6 .localhost))
  bracketed : ∀ text host, parseHost ('[' :: text) = some host →
    ∃ inner, text = inner ++ [']'] ∧ ':' ∈ inner ∧ ']' ∉ inner

/-- What stands in front of the last `@` of the guard's authority, as the URL parser sees it. -/
def seenUserinfo (url : String) : List Char :=
  let userinfo := ((guardAuthority (url.toList.drop "http://".toList.length)).rdropWhile (· ≠ '@')).dropLast
  (userinfo.filter (fun c => !isTabOrNewline c)).dropWhile isSlash

/-- Nothing in front of the `@` ends the authority, or what is in front of it names no other host. -/
def UserinfoHarmless (parseHost : List Char → Option UrlHost) (url : String) : Prop :=
  (∀ c ∈ seenUserinfo url, endsAuthority c = false) ∨
    ∀ host, authorityHost parseHost ((seenUserinfo url).takeWhile (fun c => !endsAuthority c)) = some host →
      host ∈ loopbackHosts

/-- What the URL parser reads of an authority behind its slashes. -/
def seenAuthority (cs : List Char) : List Char := (cleanTail cs).takeWhile (fun c => !endsAuthority c)

theorem guardHosts_plain : ∀ name ∈ guardHosts, ∀ c ∈ name, isC0OrSpace c = false ∧
    endsAuthority c = false := by
  have hall : guardHosts.all (fun name => name.all fun c => !isC0OrSpace c && !endsAuthority c) = true := by
    decide
  intro name hname c hc
  have hplain := List.all_eq_true.mp (List.all_eq_true.mp hall name hname) c hc
  simpa using hplain

theorem guardHosts_closed : ∀ name ∈ guardHosts, ']' ∉ name := by decide

theorem guardHosts_unopened : ∀ name ∈ guardHosts, '[' ∉ name := by decide

theorem seenAuthority_append {front : List Char}
    (h : ∀ c ∈ front, isC0OrSpace c = false ∧ endsAuthority c = false) (back : List Char) :
    seenAuthority (front ++ back) = front ++ seenAuthority back := by
  unfold seenAuthority
  rw [cleanTail_append fun c hc => (h c hc).1, List.takeWhile_append_of_pos]
  intro c hc
  rw [(h c hc).2]
  rfl

/-- What is left of an authority begins with its first character, or is nothing. -/
theorem head_seenAuthority {x : Char} (hx : isC0OrSpace x = false) {back tail : List Char}
    (hback : ∀ c ∈ back.head?, c = x) (htail : ∀ c ∈ tail.head?, c = '/' ∨ c = '?') :
    ∀ c ∈ (seenAuthority (back ++ tail)).head?, c = x := by
  have hstep (y : Char) (rest : List Char) (hy : isC0OrSpace y = false) :
      seenAuthority (y :: rest) = if endsAuthority y then [] else y :: seenAuthority rest := by
    unfold seenAuthority
    rw [cleanTail_cons hy, List.takeWhile_cons]
    cases endsAuthority y <;> rfl
  cases back with
  | nil =>
    cases tail with
    | nil => exact fun c hc => absurd hc nofun
    | cons y tail =>
      have hends : isC0OrSpace y = false ∧ endsAuthority y = true := by
        rcases htail y rfl with rfl | rfl
        · decide
        · decide
      rw [List.nil_append, hstep y tail hends.1, if_pos hends.2]
      exact fun c hc => absurd hc nofun
  | cons y back =>
    obtain rfl := hback y rfl
    rw [List.cons_append, hstep y (back ++ tail) hx]
    split
    · exact fun c hc => absurd hc nofun
    · intro c hc
      exact (Option.some.inj hc).symm

section
variable {parseHost : List Char → Option UrlHost}

/-- In brackets the parser reads nothing but an IPv6 address. -/
theorem bracketed_host (rules : HostRules parseHost) {name rest : List Char} (hname : name ∈ guardHosts)
    (hrest : ∀ c ∈ rest.head?, c = ']') {found : UrlHost}
    (h : parseHost (splitPort false ('[' :: (name ++ rest))).1 = some found) : found ∈ loopbackHosts := by
  have hclosed : ']' ∉ name := guardHosts_closed name hname
  have hsplit : (splitPort false ('[' :: (name ++ rest))).1 = '[' :: (name ++ (splitPort true rest).1) := by
    have hopen : (splitPort false ('[' :: (name ++ rest))).1 = '[' :: (splitPort true (name ++ rest)).1 := rfl
    rw [hopen, splitPort_inside hclosed]
  rw [hsplit] at h
  obtain ⟨inner, htext, hcolon, hinner⟩ := rules.bracketed _ _ h
  cases rest with
  | nil =>
    have hnil : (splitPort true []).1 = [] := rfl
    rw [hnil, List.append_nil] at htext
    exact absurd (htext ▸ List.mem_append_right inner List.mem_cons_self) hclosed
  | cons c rest =>
    obtain rfl := hrest c rfl
    have hclose : (splitPort true (']' :: rest)).1 = ']' :: (splitPort false rest).1 := rfl
    rw [hclose] at htext h
    have hsame : name = inner := by
      calc name
        _ = (name ++ ']' :: (splitPort false rest).1).takeWhile (· ≠ ']') :=
            (takeWhile_ne_append hclosed _).symm
        _ = (inner ++ [']']).takeWhile (· ≠ ']') := by rw [htext]
        _ = inner := takeWhile_ne_append hinner _
    subst hsame
    rw [htext] at h
    -- only the address has a colon in it
    rcases List.mem_cons.mp hname with rfl | hname
    · exact absurd hcolon (by decide)
    rcases List.mem_cons.mp hname with rfl | hname
    · exact absurd hcolon (by decide)
    obtain rfl := List.mem_singleton.mp hname
    have hfound : some found = some (.ip (.v6 .localhost)) := h.symm.trans rules.ipv6
    rw [Option.some.inj hfound]
    decide

/-- A name without a colon is the host up to the port. -/
theorem named_host (rules : HostRules parseHost) {name rest : List Char} (hname : name ∈ guardHosts)
    (hcolon : ':' ∉ name) (hrest : ∀ c ∈ rest.head?, c = ':') {found : UrlHost}
    (h : parseHost (splitPort false (name ++ rest)).1 = some found) : found ∈ loopbackHosts := by
  have hplain : ∀ c ∈ name, c ≠ ':' ∧ c ≠ '[' := by
    intro c hc
    refine ⟨fun hsep => hcolon (hsep ▸ hc), fun hopen => ?_⟩
    exact absurd (hopen ▸ hc) (guardHosts_unopened name hname)
  rw [splitPort_name hplain hrest] at h
  rcases List.mem_cons.mp hname with rfl | hname
  · rw [← Option.some.inj (rules.localhost.symm.trans h)]
    decide
  rcases List.mem_cons.mp hname with rfl | hname
  · rw [← Option.some.inj (rules.ipv4.symm.trans h)]
    decide
  obtain rfl := List.mem_singleton.mp hname
  exact absurd List.mem_cons_self hcolon

/-- A host that passes the guard is one of the three to the URL parser, whatever stands behind it. -/
theorem guarded_host (rules : HostRules parseHost) {host tail : List Char} (hat : '@' ∉ host)
    (hguard : guardHost host ∈ guardHosts) (htail : ∀ c ∈ tail.head?, c = '/' ∨ c = '?') {found : UrlHost}
    (h : parseHost (splitPort false (seenAuthority (host ++ tail))).1 = some found) :
    found ∈ loopbackHosts := by
  have hself : host.rtakeWhile (· ≠ '@') = host :=
    List.rtakeWhile_eq_self_iff.mpr fun c hc => decide_eq_true fun hsep => hat (hsep ▸ hc)
  have hhead (sep : Char) (cs : List Char) : ∀ c ∈ (cs.dropWhile (· ≠ sep)).head?, c = sep := by
    intro c hc
    have hnot := List.head?_dropWhile_not (· ≠ sep) cs
    rw [Option.mem_def.mp hc] at hnot
    simpa using hnot
  unfold guardHost at hguard
  rw [hself] at hguard
  split at hguard
  · rename_i bracketed
    have hfront : ∀ c ∈ '[' :: bracketed.takeWhile (· ≠ ']'), isC0OrSpace c = false ∧
      endsAuthority c = false := by
      intro c hc
      rcases List.mem_cons.mp hc with rfl | hc
      · decide
      · exact guardHosts_plain _ hguard c hc
    have hseen : seenAuthority ('[' :: bracketed ++ tail) =
        '[' :: (bracketed.takeWhile (· ≠ ']') ++ seenAuthority (bracketed.dropWhile (· ≠ ']') ++ tail)) := by
      have hcut := seenAuthority_append hfront (bracketed.dropWhile (· ≠ ']') ++ tail)
      rw [List.cons_append, ← List.append_assoc, List.takeWhile_append_dropWhile] at hcut
      exact hcut
    rw [hseen] at h
    exact bracketed_host rules hguard (head_seenAuthority (by decide) (hhead ']' bracketed) htail) h
  · have hseen : seenAuthority (host ++ tail) =
        host.takeWhile (· ≠ ':') ++ seenAuthority (host.dropWhile (· ≠ ':') ++ tail) := by
      have hcut := seenAuthority_append (guardHosts_plain _ hguard) (host.dropWhile (· ≠ ':') ++ tail)
      rw [← List.append_assoc, List.takeWhile_append_dropWhile] at hcut
      exact hcut
    rw [hseen] at h
    exact named_host rules hguard (notMem_takeWhile_ne host)
      (head_seenAuthority (by decide) (hhead ':' host) htail) h

theorem guardHost_head {host : List Char} (hat : '@' ∉ host) (hguard : guardHost host ∈ guardHosts) :
    ∃ x rest, host = x :: rest ∧ isC0OrSpace x = false ∧ isSlash x = false := by
  have hself : host.rtakeWhile (· ≠ '@') = host :=
    List.rtakeWhile_eq_self_iff.mpr fun c hc => decide_eq_true fun hsep => hat (hsep ▸ hc)
  unfold guardHost at hguard
  rw [hself] at hguard
  split at hguard
  · rename_i bracketed
    exact ⟨'[', bracketed, rfl, by decide, by decide⟩
  · cases host with
    | nil => exact absurd hguard (by decide)
    | cons x rest =>
      by_cases hx : x = ':'
      · rw [List.takeWhile_cons_of_neg (by simp [hx])] at hguard
        exact absurd hguard (by decide)
      · rw [List.takeWhile_cons_of_pos (by simpa using hx)] at hguard
        obtain ⟨hplain, hends⟩ := guardHosts_plain _ hguard x List.mem_cons_self
        refine ⟨x, rest, rfl, hplain, ?_⟩
        unfold endsAuthority at hends
        simp only [Bool.or_eq_false_iff] at hends
        exact hends.1.1

theorem takeWhile_stop {p : Char → Bool} {stop : Char} (hstop : p stop = false) (front back : List Char) :
    (front ++ stop :: back).takeWhile p = front.takeWhile p := by
  rw [List.takeWhile_append]
  split
  · rename_i hall
    have hself : front.takeWhile p = front := (List.takeWhile_prefix p).eq_of_length hall
    rw [List.takeWhile_cons_of_neg (by rw [hstop]; exact Bool.false_ne_true), List.append_nil, hself]
  · rfl

/-- The URL parser sees no more of an authority than the guard. -/
theorem mem_of_mem_seenAuthority {authority tail : List Char} (htail : ∀ c ∈ tail.head?, c = '/' ∨
    c = '?') {c : Char}
    (h : c ∈ seenAuthority (authority ++ tail)) : c ∈ authority := by
  unfold seenAuthority at h
  cases tail with
  | nil =>
    rw [List.append_nil] at h
    exact mem_of_mem_cleanTail ((List.takeWhile_prefix _).mem h)
  | cons stop tail =>
    have hends : isC0OrSpace stop = false ∧ endsAuthority stop = true := by
      rcases htail stop rfl with rfl | rfl
      · decide
      · decide
    rw [cleanTail_append_cons hends.1, takeWhile_stop (by rw [hends.2]; rfl)] at h
    exact (List.mem_filter.mp ((List.takeWhile_prefix _).mem h)).1

/-- With something in front of an `@`, the authority ends in it or goes on behind it. -/
theorem behindSlashes_userinfo (userinfo rest : List Char) :
    let seen := (userinfo.filter (fun c => !isTabOrNewline c)).dropWhile isSlash
    behindSlashes parseHost (cleanTail (userinfo ++ '@' :: rest)) =
      authorityHost parseHost (if ∀ c ∈ seen, endsAuthority c = false then seen ++ '@' :: seenAuthority rest
        else seen.takeWhile (fun c => !endsAuthority c)) := by
  intro seen
  have hslashes : (cleanTail (userinfo ++ '@' :: rest)).dropWhile isSlash = seen ++ '@' :: cleanTail rest := by
    rw [cleanTail_append_cons (by decide), List.dropWhile_append]
    split
    · rename_i hnil
      have hseen : seen = [] := List.isEmpty_iff.mp hnil
      rw [hseen, List.dropWhile_cons_of_neg (by decide)]
      rfl
    · rfl
  unfold behindSlashes
  rw [hslashes]
  apply congrArg (authorityHost parseHost)
  split
  · rename_i hplain
    rw [List.takeWhile_append_of_pos (fun c hc => by rw [hplain c hc]; rfl),
      List.takeWhile_cons_of_pos (by decide)]
    rfl
  · rename_i hcut
    rw [List.takeWhile_append]
    split
    · rename_i hall
      have hself : seen.takeWhile (fun c => !endsAuthority c) = seen :=
        (List.takeWhile_prefix _).eq_of_length hall
      refine absurd (fun c hc => ?_) hcut
      have hkept := List.mem_takeWhile_imp (hself.symm ▸ hc)
      simpa using hkept
    · rfl

/-- Without an `@` both read the same host. -/
theorem plain_loopback (rules : HostRules parseHost) {host tail : List Char} (hat : '@' ∉ host)
    (hguard : guardHost host ∈ guardHosts) (htail : ∀ c ∈ tail.head?, c = '/' ∨ c = '?') {found : UrlHost}
    (h : behindSlashes parseHost (cleanTail (host ++ tail)) = some found) : found ∈ loopbackHosts := by
  have hseen : '@' ∉ seenAuthority (host ++ tail) := fun hm => hat (mem_of_mem_seenAuthority htail hm)
  have hfirst : (cleanTail (host ++ tail)).dropWhile isSlash = cleanTail (host ++ tail) := by
    obtain ⟨x, name, rfl, hplain, hslash⟩ := guardHost_head hat hguard
    rw [List.cons_append, cleanTail_cons hplain,
      List.dropWhile_cons_of_neg (by rw [hslash]; exact Bool.false_ne_true)]
  unfold behindSlashes at h
  rw [hfirst] at h
  change authorityHost parseHost (seenAuthority (host ++ tail)) = some found at h
  have hparse := parse_of_authorityHost h
  rw [afterAt_self hseen] at hparse
  exact guarded_host rules hat hguard htail hparse

/-- Behind an `@` they do, unless what is in front of it ends the authority. -/
theorem userinfo_loopback_iff (rules : HostRules parseHost) (userinfo : List Char) {host tail : List Char}
    (hat : '@' ∉ host) (hguard : guardHost host ∈ guardHosts) (htail : ∀ c ∈ tail.head?, c = '/' ∨ c = '?') :
    let seen := (userinfo.filter (fun c => !isTabOrNewline c)).dropWhile isSlash
    (∀ found, behindSlashes parseHost (cleanTail (userinfo ++ '@' :: (host ++ tail))) = some found →
        found ∈ loopbackHosts) ↔
      (∀ c ∈ seen, endsAuthority c = false) ∨
        ∀ found, authorityHost parseHost (seen.takeWhile (fun c => !endsAuthority c)) = some found →
          found ∈ loopbackHosts := by
  intro seen
  have hseen : '@' ∉ seenAuthority (host ++ tail) := fun hm => hat (mem_of_mem_seenAuthority htail hm)
  rw [behindSlashes_userinfo]
  by_cases hplain : ∀ c ∈ seen, endsAuthority c = false
  · rw [if_pos hplain]
    constructor
    · exact fun _ => Or.inl hplain
    · intro _ found hfound
      have hparse := parse_of_authorityHost hfound
      rw [afterAt_append hseen] at hparse
      exact guarded_host rules hat hguard htail hparse
  · rw [if_neg hplain]
    constructor
    · exact Or.inr
    · exact fun h => h.resolve_left hplain

theorem requireRegistryUrlScheme_http {url : String} (hok : requireRegistryUrlScheme url = .ok ())
    (hhttp : url.startsWith "https://" = false) :
    ∃ rest, url.toList = "http://".toList ++ rest ∧ guardHost (guardAuthority rest) ∈ guardHosts := by
  unfold requireRegistryUrlScheme at hok
  simp only [hhttp, Bool.false_eq_true, if_false] at hok
  split at hok
  · rename_i rest hrest
    obtain ⟨⟨rest', hsplit⟩, heq⟩ := Option.ite_none_right_eq_some.mp hrest
    rw [← hsplit, List.drop_left] at heq
    obtain rfl := Option.some.inj heq
    rw [String.toList_ofList] at hok
    split at hok
    · rename_i hin
      exact ⟨rest', hsplit.symm, hin⟩
    · exact absurd hok nofun
  · exact absurd hok nofun

/-- A URL of `http` that passes the guard connects to a loopback host exactly where nothing in front of
its `@` ends the authority behind another host. -/
theorem registry_url_loopback_iff (parseHost : List Char → Option UrlHost) (rules : HostRules parseHost)
    (url : String) (hok : requireRegistryUrlScheme url = .ok ()) (hhttp : url.startsWith "https://" = false) :
    (∀ host, hostOf parseHost none url.toList = some host → host ∈ loopbackHosts) ↔
      UserinfoHarmless parseHost url := by
  obtain ⟨rest, hurl, hguard⟩ := requireRegistryUrlScheme_http hok hhttp
  have hrest : url.toList.drop "http://".toList.length = rest := by rw [hurl, List.drop_left]
  let tail := rest.dropWhile (fun c => c ≠ '/' ∧ c ≠ '?')
  have htail : ∀ c ∈ tail.head?, c = '/' ∨ c = '?' := by
    intro c hc
    have hnot := List.head?_dropWhile_not (fun c : Char => c ≠ '/' ∧ c ≠ '?') rest
    rw [Option.mem_def.mp hc] at hnot
    by_cases hslash : c = '/'
    · exact Or.inl hslash
    · exact Or.inr (by simpa [hslash] using hnot)
  let userinfo := (guardAuthority rest).rdropWhile (· ≠ '@')
  let host := (guardAuthority rest).rtakeWhile (· ≠ '@')
  have hat : '@' ∉ host := fun hm => absurd (List.mem_rtakeWhile_imp hm) (by decide)
  have hparts : rest = userinfo ++ (host ++ tail) := by
    rw [← List.append_assoc, List.rdropWhile_append_rtakeWhile]
    exact List.takeWhile_append_dropWhile.symm
  have hhost : guardHost host ∈ guardHosts := by
    unfold guardHost at hguard ⊢
    rw [List.rtakeWhile_idempotent]
    exact hguard
  unfold UserinfoHarmless seenUserinfo
  rw [hrest, hurl, hostOf_http]
  by_cases hnone : userinfo = []
  · have hdrop : (guardAuthority rest).rdropWhile (· ≠ '@') = [] := hnone
    rw [hdrop]
    constructor
    · exact fun _ => Or.inl fun c hc => absurd hc List.not_mem_nil
    · intro _ found hfound
      rw [hparts, hnone, List.nil_append] at hfound
      exact plain_loopback rules hat hhost htail hfound
  · have hlast : userinfo = userinfo.dropLast ++ ['@'] := by
      have hend := List.rdropWhile_last_not (· ≠ '@') (guardAuthority rest) hnone
      have hchar : userinfo.getLast hnone = '@' := of_not_not fun hne => hend (decide_eq_true hne)
      rw [← hchar, List.dropLast_append_getLast hnone]
    have hjoined : rest = userinfo.dropLast ++ '@' :: (host ++ tail) := by
      calc rest
        _ = userinfo ++ (host ++ tail) := hparts
        _ = userinfo.dropLast ++ ['@'] ++ (host ++ tail) := by rw [← hlast]
        _ = userinfo.dropLast ++ '@' :: (host ++ tail) := by rw [List.append_assoc, List.singleton_append]
    have hiff := userinfo_loopback_iff rules userinfo.dropLast hat hhost htail
    rw [← hjoined] at hiff
    exact hiff

end

/-- A host parser for names, and the two addresses. -/
def sampleParseHost (text : List Char) : Option UrlHost :=
  if text = "[::1]".toList then some (.ip (.v6 .localhost))
  else if text.head? = some '[' then none
  else if text = "127.0.0.1".toList then some (.ip (.v4 ⟨127, 0, 0, 1⟩))
  else some (.domain text)

theorem sampleParseHost_rules : HostRules sampleParseHost where
  localhost := by decide
  ipv4 := by decide
  ipv6 := by decide
  bracketed := by
    intro text host h
    unfold sampleParseHost at h
    split at h
    · rename_i htext
      obtain ⟨-, rfl⟩ := List.cons.inj htext
      exact ⟨"::1".toList, by decide⟩
    · exact absurd h nofun

theorem registry_url_loopback_sample :
    requireRegistryUrlScheme "http://ci@[::1]:8787/registry" = .ok () ∧
    ((∀ host, hostOf sampleParseHost none "http://ci@[::1]:8787/registry".toList = some host →
      host ∈ loopbackHosts) ↔
      UserinfoHarmless sampleParseHost "http://ci@[::1]:8787/registry") := by
  have hok : requireRegistryUrlScheme "http://ci@[::1]:8787/registry" = .ok () := by decide +kernel
  exact ⟨hok, registry_url_loopback_iff sampleParseHost sampleParseHost_rules _ hok (by decide +kernel)⟩

/-- A backslash ends the authority, and the guard reads on to the `@`. -/
theorem backslash_leaves_loopback :
    ¬ ∀ url, requireRegistryUrlScheme url = .ok () → url.startsWith "https://" = false →
      ∀ host, hostOf sampleParseHost none url.toList = some host → host ∈ loopbackHosts := by
  intro h
  have hhost : hostOf sampleParseHost none "http://evil.com\\@localhost".toList =
    some (.domain "evil.com".toList) := by
    decide +kernel
  have hin := h "http://evil.com\\@localhost" (by decide +kernel) (by decide +kernel) _ hhost
  exact absurd hin (by decide)

end CtAgent.ManifestRun
