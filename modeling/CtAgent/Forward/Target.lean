import CtAgent.Lib.AddrCase
import CtAgent.Forward.Policy
import Mathlib.Data.List.DropRight

/-! The canonical spelling of a forward target: which spellings are canonical themselves, and which
lose their brackets on the way. -/
namespace CtAgent.Forward
open CtAgent.Lib

section
variable {sep : Char}

theorem takeWhile_ne_append {a : List Char} (ha : sep ∉ a) (b : List Char) :
    (a ++ sep :: b).takeWhile (· ≠ sep) = a := by
  have hall : ∀ c ∈ a, decide (c ≠ sep) = true := by
    intro c hc
    rw [decide_eq_true_iff]
    rintro rfl
    exact ha hc
  rw [List.takeWhile_append_of_pos hall]
  simp

theorem takeWhile_ne_split {l : List Char} (h : (l.takeWhile (· ≠ sep)).length < l.length) :
    l = l.takeWhile (· ≠ sep) ++ sep :: l.drop ((l.takeWhile (· ≠ sep)).length + 1) := by
  induction l with
  | nil => cases h
  | cons c l ih =>
    by_cases hc : c = sep
    · simp [hc]
    · rw [List.takeWhile_cons_of_pos (by simpa using hc)] at h ⊢
      rw [List.length_cons, List.length_cons] at h
      rw [List.length_cons, List.drop_succ_cons, List.cons_append, ← ih (Nat.lt_of_succ_lt_succ h)]

theorem notMem_takeWhile_ne (l : List Char) : sep ∉ l.takeWhile (· ≠ sep) := by
  intro hmem
  have hne := List.mem_takeWhile_imp (p := (· ≠ sep)) hmem
  simp at hne

end

section
variable {s a b : String} {sep : Char}

theorem splitOnce_eq_some :
    splitOnce sep s = some (a, b) ↔ sep ∉ a.toList ∧ s.toList = a.toList ++ sep :: b.toList := by
  unfold splitOnce
  dsimp only
  constructor
  · intro h
    obtain ⟨hlt, hab⟩ := Option.ite_none_right_eq_some.mp h
    obtain ⟨rfl, rfl⟩ := Prod.mk.inj (Option.some.inj hab)
    rw [String.toList_ofList, String.toList_ofList]
    exact ⟨notMem_takeWhile_ne _, takeWhile_ne_split hlt⟩
  · intro h
    obtain ⟨ha, hs⟩ := h
    have hfront : s.toList.takeWhile (· ≠ sep) = a.toList := by
      rw [hs]
      exact takeWhile_ne_append ha _
    have hlen : a.toList.length < s.toList.length := by
      rw [hs, List.length_append, List.length_cons]
      omega
    have hdrop : s.toList.drop (a.toList.length + 1) = b.toList := by
      rw [hs, ← List.drop_drop, List.drop_left]
      rfl
    rw [hfront, if_pos hlen, hdrop, String.ofList_toList, String.ofList_toList]

theorem rsplitOnce_eq_some :
    rsplitOnce sep s = some (a, b) ↔ sep ∉ b.toList ∧ s.toList = a.toList ++ sep :: b.toList := by
  unfold rsplitOnce
  dsimp only
  constructor
  · intro h
    obtain ⟨hlt, hab⟩ := Option.ite_none_right_eq_some.mp h
    obtain ⟨ha, hb⟩ := Prod.mk.inj (Option.some.inj hab)
    rw [← ha, ← hb, String.toList_ofList, String.toList_ofList, List.mem_reverse]
    refine ⟨notMem_takeWhile_ne _, ?_⟩
    rw [List.length_reverse] at hlt ⊢
    have hsplit := takeWhile_ne_split (l := s.toList.reverse) (by rw [List.length_reverse]; exact hlt)
    have hback := congrArg List.reverse hsplit
    rw [List.reverse_reverse, List.drop_reverse, List.reverse_append, List.reverse_cons, List.reverse_reverse,
      ← Nat.sub_sub, List.append_assoc, List.singleton_append] at hback
    exact hback
  · intro h
    obtain ⟨hb, hs⟩ := h
    have hback : (s.toList.reverse.takeWhile (· ≠ sep)).reverse = b.toList := by
      have hrev : s.toList.reverse = b.toList.reverse ++ sep :: a.toList.reverse := by simp [hs]
      rw [hrev, takeWhile_ne_append (by simpa using hb), List.reverse_reverse]
    have hlen : b.toList.length < s.toList.length := by
      rw [hs, List.length_append, List.length_cons]
      omega
    have htake : s.toList.take (s.toList.length - b.toList.length - 1) = a.toList := by
      have hcount : s.toList.length - b.toList.length - 1 = a.toList.length := by
        rw [hs, List.length_append, List.length_cons]
        omega
      rw [hcount, hs, List.take_left]
    rw [hback, if_pos hlen, htake, String.ofList_toList, String.ofList_toList]

theorem stripChar_eq_some : stripChar sep s = some a ↔ s.toList = sep :: a.toList := by
  unfold stripChar
  constructor
  · intro h
    split at h
    · next x rest hs =>
      obtain ⟨hx, ha⟩ := Option.ite_none_right_eq_some.mp h
      rw [hs, hx, ← Option.some.inj ha, String.toList_ofList]
    · cases h
  · intro h
    rw [h]
    simp

theorem stripChar_eq_none : stripChar sep s = none ↔ s.toList.head? ≠ some sep := by
  unfold stripChar
  cases s.toList with
  | nil => simp
  | cons c rest => simp

end

section
variable {target host port : String}

/-- Host and port of a trimmed target, as they are written. -/
def hostPort (target : String) : Option (String × String) :=
  match stripChar '[' target with
  | some rest => do
    let (host, tail) ← splitOnce ']' rest
    let port ← stripChar ':' tail
    some (host, port)
  | none => do
    let (host, port) ← rsplitOnce ':' target
    if ':' ∈ host.toList then none else some (host, port)

/-- The canonical text of a host and a port number. -/
def spell (host : String) (port : ℕ) : String :=
  match IpAddr.parse host with
  | some (.v4 ip) => s!"{ip.display}:{port}"
  | some (.v6 ip) => s!"[{ip.display}]:{port}"
  | none => s!"{toAsciiLowercase host}:{port}"

theorem canonicalTarget_eq (target : String) : canonicalTarget target =
    if trim target = "" ∨ maxTargetLen < strLen (trim target) then none
    else (hostPort (trim target)).bind fun hp =>
      (parseUint (2^16) hp.2).bind fun port =>
        if port = 0 ∨ hp.1 = "" then none else some (spell hp.1 port) := by
  -- what is done with the two parts, on every way to them
  have hspell (host port : String) : ((parseUint (2^16) port).bind fun port =>
      if port = 0 ∨ host = "" then none
      else match IpAddr.parse host with
        | some (.v4 ip) => some s!"{ip.display}:{port}"
        | some (.v6 ip) => some s!"[{ip.display}]:{port}"
        | none => some s!"{toAsciiLowercase host}:{port}") =
      (parseUint (2^16) port).bind fun port =>
        if port = 0 ∨ host = "" then none else some (spell host port) := by
    unfold spell
    congr 1
    funext port
    cases IpAddr.parse host with
    | none => rfl
    | some ip => cases ip <;> rfl
  unfold canonicalTarget hostPort
  dsimp only
  split
  · rfl
  · cases stripChar '[' (trim target) with
    | some rest =>
      dsimp only
      cases splitOnce ']' rest with
      | none => rfl
      | some ht =>
        obtain ⟨host, tail⟩ := ht
        simp only [Option.bind_eq_bind, Option.bind_some]
        cases stripChar ':' tail with
        | none => rfl
        | some port => exact hspell host port
    | none =>
      dsimp only
      cases rsplitOnce ':' (trim target) with
      | none => rfl
      | some hp =>
        obtain ⟨host, port⟩ := hp
        simp only [Option.bind_eq_bind, Option.bind_some]
        split
        · rfl
        · exact hspell host port

/-- The two forms of a target. -/
theorem hostPort_eq_some : hostPort target = some (host, port) ↔
    (target.toList = '[' :: (host.toList ++ ']' :: ':' :: port.toList) ∧ ']' ∉ host.toList) ∨
      (target.toList.head? ≠ some '[' ∧ target.toList = host.toList ++ ':' :: port.toList ∧
        ':' ∉ host.toList ∧ ':' ∉ port.toList) := by
  unfold hostPort
  cases hstrip : stripChar '[' target with
  | some rest =>
    have htarget := stripChar_eq_some.mp hstrip
    have hhead : target.toList.head? = some '[' := by rw [htarget]; rfl
    simp only [htarget, Option.bind_eq_bind, Option.bind_eq_some_iff, Prod.exists, List.head?_cons, ne_eq,
      not_true_eq_false, false_and, or_false, List.cons.injEq, true_and]
    constructor
    · intro h
      obtain ⟨host', tail, hsplit, port', hport, heq⟩ := h
      obtain ⟨rfl, rfl⟩ := Prod.mk.inj (Option.some.inj heq)
      obtain ⟨hhost, hrest⟩ := splitOnce_eq_some.mp hsplit
      rw [hrest, stripChar_eq_some.mp hport]
      exact ⟨rfl, hhost⟩
    · intro h
      refine ⟨host, String.ofList (':' :: port.toList), splitOnce_eq_some.mpr ⟨h.2, ?_⟩, port,
        stripChar_eq_some.mpr (String.toList_ofList), rfl⟩
      rw [h.1, String.toList_ofList]
  | none =>
    have hhead := stripChar_eq_none.mp hstrip
    simp only [Option.bind_eq_bind, Option.bind_eq_some_iff, Prod.exists]
    constructor
    · intro h
      obtain ⟨host', port', hsplit, heq⟩ := h
      obtain ⟨hcolon, heq⟩ := Option.ite_none_left_eq_some.mp heq
      obtain ⟨rfl, rfl⟩ := Prod.mk.inj (Option.some.inj heq)
      obtain ⟨hport, htarget⟩ := rsplitOnce_eq_some.mp hsplit
      exact .inr ⟨hhead, htarget, hcolon, hport⟩
    · intro h
      rcases h with ⟨htarget, -⟩ | ⟨-, htarget, hcolon, hport⟩
      · rw [htarget] at hhead
        exact absurd rfl hhead
      · exact ⟨host, port, rsplitOnce_eq_some.mpr ⟨hport, htarget⟩, if_neg hcolon⟩

theorem canonicalTarget_eq_some {c : String} : canonicalTarget target = some c ↔
    trim target ≠ "" ∧ strLen (trim target) ≤ maxTargetLen ∧
      ∃ host port n, hostPort (trim target) = some (host, port) ∧ parseUint (2^16) port = some n ∧
        n ≠ 0 ∧ host ≠ "" ∧ spell host n = c := by
  rw [canonicalTarget_eq, Option.ite_none_left_eq_some, not_or, Nat.not_lt, and_assoc]
  apply and_congr_right
  intro _
  apply and_congr_right
  intro _
  simp only [Option.bind_eq_some_iff, Prod.exists, Option.ite_none_left_eq_some, not_or, Option.some.injEq,
    and_assoc, exists_and_left]

end

section
variable {s : String}

theorem trim_eq_self (hfirst : ∀ c ∈ s.toList.head?, isWhiteSpace c = false)
    (hlast : ∀ c ∈ s.toList.getLast?, isWhiteSpace c = false) : trim s = s := by
  have hdrop (l : List Char) (h : ∀ c ∈ l.head?, isWhiteSpace c = false) : l.dropWhile isWhiteSpace = l := by
    cases l with
    | nil => rfl
    | cons c l => rw [List.dropWhile_cons_of_neg (by simp [h c rfl])]
  unfold trim
  rw [hdrop _ hfirst, hdrop _ (by rwa [List.head?_reverse]), List.reverse_reverse, String.ofList_toList]

theorem trim_toList_run (s : String) : (trim s).toList <+: s.toList.dropWhile isWhiteSpace := by
  unfold trim
  rw [String.toList_ofList]
  exact List.rdropWhile_prefix _ _

/-- A trimmed text does not start with white space. -/
theorem trim_head {c : Char} (h : c ∈ (trim s).toList.head?) : isWhiteSpace c = false := by
  obtain ⟨more, hmore⟩ := trim_toList_run s
  have hhead : (s.toList.dropWhile isWhiteSpace).head? = some c := by
    rw [← hmore, List.head?_append, h]
    rfl
  have hnot := List.head?_dropWhile_not isWhiteSpace s.toList
  rwa [hhead] at hnot

end

/-- The lower case of an ASCII letter, any other character itself. -/
def lowerChar (c : Char) : Char := if 'A' ≤ c ∧ c ≤ 'Z' then Char.ofNat (c.toNat + 32) else c

theorem toAsciiLowercase_toList (s : String) : (toAsciiLowercase s).toList = s.toList.map lowerChar := by
  unfold toAsciiLowercase
  rw [String.toList_ofList]
  rfl

/-- A property of every capital letter is checked letter by letter. -/
theorem lowerChar_cases {P : Char → Char → Prop} (hself : ∀ c, ¬('A' ≤ c ∧ c ≤ 'Z') → P c c)
    (hupper : ∀ n < 26, P (Char.ofNat (65 + n)) (Char.ofNat (97 + n))) (c : Char) : P c (lowerChar c) := by
  by_cases h : 'A' ≤ c ∧ c ≤ 'Z'
  · have hlow : 65 ≤ c.toNat := h.1
    have hhigh : c.toNat ≤ 90 := h.2
    have hc : c = Char.ofNat (65 + (c.toNat - 65)) := by
      rw [Nat.add_sub_cancel' hlow, Char.ofNat_toNat]
    have hlower : lowerChar c = Char.ofNat (97 + (c.toNat - 65)) := by
      unfold lowerChar
      rw [if_pos h]
      congr 1
      omega
    rw [hlower]
    conv => arg 1; rw [hc]
    exact hupper _ (by omega)
  · unfold lowerChar
    rw [if_neg h]
    exact hself c h

theorem isWhiteSpace_lowerChar (c : Char) : isWhiteSpace (lowerChar c) = isWhiteSpace c := by
  apply lowerChar_cases (P := fun c l => isWhiteSpace l = isWhiteSpace c) (fun c _ => rfl)
  decide

theorem utf8Size_lowerChar (c : Char) : (lowerChar c).utf8Size = c.utf8Size := by
  apply lowerChar_cases (P := fun c l => l.utf8Size = c.utf8Size) (fun c _ => rfl)
  decide

theorem lowerChar_lowerChar (c : Char) : lowerChar (lowerChar c) = lowerChar c := by
  apply lowerChar_cases (P := fun _ l => lowerChar l = l)
  · intro c h
    exact if_neg h
  decide

theorem lowerChar_eq_mark {m : Char} (hm : m ∈ ['.', ':', '0', '[', ']']) (c : Char) :
    lowerChar c = m ↔ c = m := by
  apply lowerChar_cases (P := fun c l => l = m ↔ c = m) (fun c _ => Iff.rfl)
  simp only [List.mem_cons, List.not_mem_nil, or_false] at hm
  rcases hm with rfl | rfl | rfl | rfl | rfl <;> decide

theorem toDigit_lowerChar (b : ℕ) (c : Char) : toDigit b (lowerChar c) = toDigit b c := by
  apply lowerChar_cases (P := fun c l => toDigit b l = toDigit b c) (fun c _ => rfl)
  intro n hn
  interval_cases n <;> rfl

/-- Case makes no difference to an address. -/
theorem parse_toAsciiLowercase (host : String) : IpAddr.parse (toAsciiLowercase host) = IpAddr.parse host := by
  have hrespells : AddrParser.Respells lowerChar :=
    ⟨toDigit_lowerChar, fun m hm => lowerChar_eq_mark (by
      simp only [List.mem_cons, List.not_mem_nil, or_false] at hm ⊢
      tauto)⟩
  have hparse := parse_respelled hrespells host.toList
  rwa [String.ofList_toList, ← toAsciiLowercase_toList, String.ofList_toList] at hparse

section
open AddrParser
variable {host port : String} {n : ℕ}

theorem spell_v4 {ip : Ipv4Addr} (h : IpAddr.parse host = some (.v4 ip)) :
    (spell host n).toList = ipv4Text ip ++ ':' :: Nat.toDigits 10 n := by
  have hcolon : (toString ":").toList = [':'] := rfl
  unfold spell
  rw [h]
  have htext : toString ip.display = ip.display := rfl
  simp [htext, Ipv4Addr.display_toList, hcolon]

theorem spell_v6 {ip : Ipv6Addr} (h : IpAddr.parse host = some (.v6 ip)) :
    (spell host n).toList = '[' :: (ip.display.toList ++ ']' :: ':' :: Nat.toDigits 10 n) := by
  have hopen : (toString "[").toList = ['['] := rfl
  have hclose : (toString "]:").toList = [']', ':'] := rfl
  unfold spell
  rw [h]
  have htext : toString ip.display = ip.display := rfl
  simp [htext, hopen, hclose]

theorem spell_name (h : IpAddr.parse host = none) :
    (spell host n).toList = host.toList.map lowerChar ++ ':' :: Nat.toDigits 10 n := by
  have hcolon : (toString ":").toList = [':'] := rfl
  unfold spell
  rw [h]
  have htext : toString (toAsciiLowercase host) = toAsciiLowercase host := rfl
  simp [htext, toAsciiLowercase_toList, hcolon]

theorem isWhiteSpace_of_digit {b : ℕ} {c : Char} (h : (toDigit b c).isSome = true) :
    isWhiteSpace c = false := by
  obtain ⟨d, hd⟩ := Option.isSome_iff_exists.mp h
  have hrange := toDigit_range hd
  simp only [isWhiteSpace, Bool.or_eq_false_iff, Bool.and_eq_false_imp, decide_eq_true_eq,
    decide_eq_false_iff_not,
    beq_eq_false_iff_ne]
  omega

/-- A text that ends in a number is not trimmed at its end. -/
theorem last_of_digits (front : List Char) :
    ∀ c ∈ (front ++ Nat.toDigits 10 n).getLast?, isWhiteSpace c = false := by
  intro c hc
  rw [List.getLast?_append_of_ne_nil _ Nat.toDigits_ne_nil] at hc
  exact isWhiteSpace_of_digit (isSome_of_mem_toDigits (by decide) (by decide) (List.mem_of_getLast? hc))

theorem strLen_le (s : String) : strLen s ≤ 4 * s.toList.length := by
  have hle : ∀ x ∈ s.toList.map Char.utf8Size, x ≤ 4 := by
    intro x hx
    obtain ⟨c, -, rfl⟩ := List.mem_map.mp hx
    exact c.utf8Size_le_four
  have hsum := List.sum_le_card_nsmul _ _ hle
  rw [List.length_map, smul_eq_mul] at hsum
  unfold strLen
  omega

theorem length_port (hn : n < 2^16) : (Nat.toDigits 10 n).length ≤ 5 :=
  (Nat.length_toDigits_le_iff (by decide) (by decide)).mpr (by omega)

/-- A text made of the parts it is cut into again is canonical. -/
theorem canonicalTarget_self {s : String} (front : List Char) (host : String) (hn : n < 2^16) (hzero : n ≠ 0)
    (htext : s.toList = front ++ Nat.toDigits 10 n) (hfirst : ∀ c ∈ s.toList.head?, isWhiteSpace c = false)
    (hlen : strLen s ≤ maxTargetLen) (hparts : hostPort s = some (host, n.repr)) (hne : host ≠ "")
    (hspell : spell host n = s) : canonicalTarget s = some s := by
  have htrim : trim s = s := by
    apply trim_eq_self hfirst
    rw [htext]
    exact last_of_digits front
  have hs : s ≠ "" := by
    rintro rfl
    have hnil := congrArg List.length htext
    have hpos := Nat.length_toDigits_pos (b := 10) (n := n)
    rw [List.length_append] at hnil
    simp only [String.toList_empty, List.length_nil] at hnil
    omega
  rw [canonicalTarget_eq_some, htrim]
  exact ⟨hs, hlen, host, n.repr, n, hparts, parseUint_repr hn, hzero, hne, hspell⟩

theorem colon_notMem_digits (n : ℕ) : ':' ∉ Nat.toDigits 10 n := by
  intro h
  have hdigit := isSome_of_mem_toDigits (by decide) (by decide) h
  rw [toDigit_colon] at hdigit
  cases hdigit

theorem canonicalTarget_v4 {ip : Ipv4Addr} (h : IpAddr.parse host = some (.v4 ip)) (hn : n < 2^16)
    (hzero : n ≠ 0) : canonicalTarget (spell host n) = some (spell host n) := by
  have htext := spell_v4 (n := n) h
  have hdisplay : spell ip.display n = spell host n := by
    apply String.toList_injective
    rw [htext, spell_v4 (parse_display_v4 ip)]
  obtain ⟨c, rest, hfour, hdigit⟩ := ipv4Text_head ip
  have hhead : (spell host n).toList.head? = some c := by
    rw [htext, hfour]
    rfl
  have hlength := length_ipv4Text ip
  have hport := length_port hn
  have hlen := strLen_le (spell host n)
  refine canonicalTarget_self (ipv4Text ip ++ [':']) ip.display hn hzero (by simp [htext]) ?_ ?_ ?_ ?_ hdisplay
  · intro c' hc'
    rw [hhead] at hc'
    cases hc'
    exact isWhiteSpace_of_digit hdigit
  · rw [htext, List.length_append, List.length_cons] at hlen
    unfold maxTargetLen
    omega
  · apply hostPort_eq_some.mpr
    refine .inr ⟨?_, ?_, ?_, ?_⟩
    · rw [hhead]
      rintro ⟨rfl⟩
      exact absurd hdigit (by decide)
    · rw [htext, Ipv4Addr.display_toList, Nat.toList_repr]
    · rw [Ipv4Addr.display_toList]
      intro hc
      rcases mem_ipv4Text hc with hdot | hcolon
      · exact absurd hdot (by decide)
      · exact absurd hcolon (by decide)
    · rw [Nat.toList_repr]
      exact colon_notMem_digits n
  · intro hempty
    have hnil := congrArg String.toList hempty
    rw [Ipv4Addr.display_toList, hfour] at hnil
    cases hnil

theorem canonicalTarget_v6 {ip : Ipv6Addr} (h : IpAddr.parse host = some (.v6 ip)) (hn : n < 2^16)
    (hzero : n ≠ 0) : canonicalTarget (spell host n) = some (spell host n) := by
  have htext := spell_v6 (n := n) h
  have hdisplay : spell ip.display n = spell host n := by
    apply String.toList_injective
    rw [htext, spell_v6 (parse_display_v6 ip)]
  obtain ⟨hchars, hlength⟩ := ip.display_text
  have hport := length_port hn
  have hlen := strLen_le (spell host n)
  refine canonicalTarget_self ('[' :: (ip.display.toList ++ [']', ':'])) ip.display hn hzero (by simp [htext])
    ?_ ?_ ?_ ?_ hdisplay
  · intro c hc
    rw [htext] at hc
    cases hc
    decide
  · rw [htext, List.length_cons, List.length_append, List.length_cons, List.length_cons] at hlen
    unfold maxTargetLen
    omega
  · apply hostPort_eq_some.mpr
    refine .inl ⟨by rw [htext, Nat.toList_repr], fun hc => ?_⟩
    rcases hchars _ hc with hdigit | hcolon | hdot
    · exact absurd hdigit (by decide)
    · exact absurd hcolon (by decide)
    · exact absurd hdot (by decide)
  · intro hempty
    have hparse := parse_display_v6 ip
    have hnone : IpAddr.parse "" = none := by decide
    rw [hempty, hnone] at hparse
    cases hparse

/-- A name that can stand in front of its port without brackets. -/
def PlainHost (host : String) : Prop :=
  ':' ∉ host.toList ∧ ∀ c ∈ host.toList.head?, c ≠ '[' ∧ isWhiteSpace c = false

theorem mem_map_lowerChar {m : Char} (hm : m ∈ ['.', ':', '0', '[', ']']) (cs : List Char) :
    m ∈ cs.map lowerChar ↔ m ∈ cs := by
  rw [List.mem_map]
  constructor
  · rintro ⟨c, hc, hlower⟩
    rwa [← (lowerChar_eq_mark hm c).mp hlower]
  · intro h
    exact ⟨m, h, (lowerChar_eq_mark hm m).mpr rfl⟩

theorem canonicalTarget_name (h : IpAddr.parse host = none) (hplain : PlainHost host) (hne : host ≠ "")
    (hn : n < 2^16) (hzero : n ≠ 0) (hlen : strLen (spell host n) ≤ maxTargetLen) :
    canonicalTarget (spell host n) = some (spell host n) := by
  have htext := spell_name (n := n) h
  have hlower : spell (toAsciiLowercase host) n = spell host n := by
    apply String.toList_injective
    rw [htext, spell_name (by rw [parse_toAsciiLowercase, h]), toAsciiLowercase_toList, List.map_map]
    congr 2
    funext c
    exact lowerChar_lowerChar c
  obtain ⟨c, rest, hhost⟩ : ∃ c rest, host.toList = c :: rest := by
    cases hhost : host.toList with
    | nil => exact absurd (String.toList_injective hhost) hne
    | cons c rest => exact ⟨c, rest, rfl⟩
  have hhead : (spell host n).toList.head? = some (lowerChar c) := by
    rw [htext, hhost]
    rfl
  obtain ⟨hbracket, hspace⟩ := hplain.2 c (by rw [hhost]; rfl)
  refine canonicalTarget_self (host.toList.map lowerChar ++ [':'])
    (toAsciiLowercase host) hn hzero (by simp [htext])
    ?_ hlen ?_ ?_ hlower
  · intro c' hc'
    rw [hhead] at hc'
    cases hc'
    rw [isWhiteSpace_lowerChar, hspace]
  · apply hostPort_eq_some.mpr
    refine .inr ⟨?_, ?_, ?_, ?_⟩
    · rw [hhead]
      intro hopen
      exact hbracket ((lowerChar_eq_mark (by simp) c).mp (Option.some.inj hopen))
    · rw [htext, toAsciiLowercase_toList, Nat.toList_repr]
    · rw [toAsciiLowercase_toList, mem_map_lowerChar (by simp)]
      exact hplain.1
    · rw [Nat.toList_repr]
      exact colon_notMem_digits n
  · intro hempty
    have hnil := congrArg String.toList hempty
    rw [toAsciiLowercase_toList, hhost] at hnil
    cases hnil

theorem mem_of_mem_trim {c : Char} {s : String} (h : c ∈ (trim s).toList) : c ∈ s.toList :=
  (List.dropWhile_sublist _).subset ((trim_toList_run s).subset h)

/-- The last colon is the one in front of the port. -/
theorem host_unique {s host' : String} {n' : ℕ} (h : s.toList = host.toList ++ ':' :: Nat.toDigits 10 n)
    (h' : s.toList = host'.toList ++ ':' :: Nat.toDigits 10 n') : host = host' := by
  rw [← Nat.toList_repr] at h h'
  have hcut := rsplitOnce_eq_some.mpr ⟨by rw [Nat.toList_repr]; exact colon_notMem_digits n, h⟩
  have hcut' := rsplitOnce_eq_some.mpr ⟨by rw [Nat.toList_repr]; exact colon_notMem_digits n', h'⟩
  rw [hcut] at hcut'
  exact congrArg Prod.fst (Option.some.inj hcut')

/-- A name that needs its brackets is not canonical without them. -/
theorem canonicalTarget_unplain (h : IpAddr.parse host = none) (hplain : ¬ PlainHost host)
    (hclose : ']' ∉ host.toList) : canonicalTarget (spell host n) ≠ some (spell host n) := by
  have htext := spell_name (n := n) h
  rw [← toAsciiLowercase_toList] at htext
  have hnone : ']' ∉ (spell host n).toList := by
    rw [htext, toAsciiLowercase_toList, List.mem_append, mem_map_lowerChar (by simp), List.mem_cons]
    rintro (hmem | hcolon | hdigit)
    · exact hclose hmem
    · exact absurd hcolon (by decide)
    · exact absurd (isSome_of_mem_toDigits (by decide) (by decide) hdigit) (by decide)
  intro hself
  obtain ⟨-, -, host', port', n', hparts, hread, -, hne, hspell⟩ := canonicalTarget_eq_some.mp hself
  rcases hostPort_eq_some.mp hparts with ⟨hbracketed, -⟩ | ⟨hopen, htrimmed, hcolon, -⟩
  · apply hnone
    apply mem_of_mem_trim
    rw [hbracketed]
    simp
  · -- the host of the text is the one it was made of
    obtain ⟨first, rest, hhost'⟩ : ∃ c rest, host'.toList = c :: rest := by
      cases hcs : host'.toList with
      | nil => exact absurd (String.toList_injective hcs) hne
      | cons c rest => exact ⟨c, rest, rfl⟩
    have hfirst : (trim (spell host n)).toList.head? = some first := by
      rw [htrimmed, hhost']
      rfl
    have hspace := trim_head (c := first) hfirst
    have hfirst' : first ≠ '[' := by
      rintro rfl
      exact hopen hfirst
    apply hplain
    cases hparse : IpAddr.parse host' with
    | none =>
      have htext' := spell_name (n := n') hparse
      rw [hspell, ← toAsciiLowercase_toList] at htext'
      have hsame := congrArg String.toList (host_unique htext htext')
      rw [toAsciiLowercase_toList, toAsciiLowercase_toList] at hsame
      constructor
      · rwa [← mem_map_lowerChar (by simp), hsame, mem_map_lowerChar (by simp)]
      · intro c hc
        have hlower : lowerChar c = lowerChar first := by
          have hheads := congrArg List.head? hsame
          rw [List.head?_map, List.head?_map, hc, hhost'] at hheads
          exact Option.some.inj hheads
        constructor
        · rintro rfl
          have hopen' : lowerChar first = '[' := by
            rw [← hlower]
            decide
          exact hfirst' ((lowerChar_eq_mark (by simp) first).mp hopen')
        · rw [← isWhiteSpace_lowerChar, hlower, isWhiteSpace_lowerChar, hspace]
    | some ip =>
      cases ip with
      | v6 ip =>
        have htext' := spell_v6 (n := n') hparse
        rw [hspell] at htext'
        exact absurd (by rw [htext']; simp) hnone
      | v4 ip =>
        have htext' := spell_v4 (n := n') hparse
        rw [hspell, ← Ipv4Addr.display_toList] at htext'
        have hsame := congrArg String.toList (host_unique htext htext')
        rw [toAsciiLowercase_toList, Ipv4Addr.display_toList] at hsame
        obtain ⟨c', rest', hfour, hdigit⟩ := ipv4Text_head ip
        constructor
        · rw [← mem_map_lowerChar (by simp), hsame]
          intro hmem
          rcases mem_ipv4Text hmem with hdot | hcolon'
          · exact absurd hdot (by decide)
          · exact absurd hcolon' (by decide)
        · intro c hc
          have hlower : lowerChar c = c' := by
            have hheads := congrArg List.head? hsame
            rw [List.head?_map, hc, hfour] at hheads
            exact Option.some.inj hheads
          constructor
          · rintro rfl
            rw [← hlower] at hdigit
            exact absurd hdigit (by decide)
          · rw [← isWhiteSpace_lowerChar, hlower]
            exact isWhiteSpace_of_digit hdigit

def charsLen (cs : List Char) : ℕ := (cs.map Char.utf8Size).sum

@[simp] theorem charsLen_append (a b : List Char) : charsLen (a ++ b) = charsLen a + charsLen b := by
  simp [charsLen]

@[simp] theorem charsLen_cons (c : Char) (cs : List Char) : charsLen (c :: cs) = c.utf8Size + charsLen cs := by
  simp [charsLen]

theorem length_le_charsLen (cs : List Char) : cs.length ≤ charsLen cs := by
  induction cs with
  | nil => exact Nat.le_refl 0
  | cons c cs ih =>
    have hpos := c.utf8Size_pos
    rw [List.length_cons, charsLen_cons]
    omega

theorem charsLen_map_lowerChar (cs : List Char) : charsLen (cs.map lowerChar) = charsLen cs := by
  unfold charsLen
  rw [List.map_map]
  congr 2
  funext c
  exact utf8Size_lowerChar c

theorem charsLen_digits (n : ℕ) : charsLen (Nat.toDigits 10 n) = (Nat.toDigits 10 n).length := by
  have hone : ∀ c ∈ Nat.toDigits 10 n, c.utf8Size = 1 := by
    intro c hc
    obtain ⟨d, hd⟩ := Option.isSome_iff_exists.mp (isSome_of_mem_toDigits (by decide) (by decide) hc)
    have hrange := toDigit_range hd
    have hval : c.val.toNat ≤ 127 := by
      change c.toNat ≤ 127
      omega
    exact Char.utf8Size_eq_one_iff.mpr (UInt32.le_iff_toNat_le.mpr hval)
  unfold charsLen
  rw [List.map_congr_left hone, List.map_const', List.sum_replicate, smul_eq_mul, Nat.mul_one]

/-- The canonical spelling is no longer than allowed. -/
theorem canonicalTarget_length {target c : String} (h : canonicalTarget target = some c) :
    strLen c ≤ maxTargetLen := by
  obtain ⟨-, hlen, host, port, n, hparts, hread, hzero, hne, rfl⟩ := canonicalTarget_eq_some.mp h
  have hn : n < 2^16 := parseUint_lt hread
  have hport := length_port hn
  have hcrude := strLen_le (spell host n)
  cases hparse : IpAddr.parse host with
  | some ip =>
    unfold maxTargetLen
    cases ip with
    | v4 ip =>
      have hfour := length_ipv4Text ip
      rw [spell_v4 hparse, List.length_append, List.length_cons] at hcrude
      omega
    | v6 ip =>
      have hsix := ip.display_text.2
      rw [spell_v6 hparse, List.length_cons, List.length_append, List.length_cons, List.length_cons] at hcrude
      omega
  | none =>
    have hshort := repr_length_le hread
    have hbytes := length_le_charsLen port.toList
    have htext : strLen (spell host n) = charsLen host.toList + (1 + (Nat.toDigits 10 n).length) := by
      change charsLen (spell host n).toList = _
      rw [spell_name hparse, charsLen_append, charsLen_cons, charsLen_map_lowerChar, charsLen_digits]
      rfl
    have hcolon : Char.utf8Size ':' = 1 := rfl
    rw [Nat.toList_repr] at hshort
    have hwhole : strLen (trim target) = charsLen (trim target).toList := rfl
    rw [hwhole] at hlen
    rcases hostPort_eq_some.mp hparts with ⟨hbracketed, -⟩ | ⟨-, htrimmed, -, -⟩
    · rw [hbracketed] at hlen
      simp only [charsLen_cons, charsLen_append, hcolon] at hlen
      omega
    · rw [htrimmed] at hlen
      simp only [charsLen_cons, charsLen_append, hcolon] at hlen
      omega

/-- What stands in the brackets of a target that starts with one. -/
def bracketedHost (target : String) : Option String :=
  (stripChar '[' (trim target)).bind fun rest => (splitOnce ']' rest).map Prod.fst

theorem bracketedHost_eq_some {target host : String} : bracketedHost target = some host ↔
    ∃ tail, (trim target).toList = '[' :: (host.toList ++ ']' :: tail) ∧ ']' ∉ host.toList := by
  unfold bracketedHost
  simp only [Option.bind_eq_some_iff, Option.map_eq_some_iff]
  constructor
  · rintro ⟨rest, hstrip, ⟨host', tail⟩, hsplit, rfl⟩
    obtain ⟨hclose, hrest⟩ := splitOnce_eq_some.mp hsplit
    exact ⟨tail.toList, by rw [stripChar_eq_some.mp hstrip, hrest], hclose⟩
  · rintro ⟨tail, htext, hclose⟩
    refine ⟨String.ofList (host.toList ++ ']' :: tail), stripChar_eq_some.mpr ?_, (host, String.ofList tail),
      splitOnce_eq_some.mpr ⟨hclose, ?_⟩, rfl⟩
    · rw [htext, String.toList_ofList]
    · rw [String.toList_ofList, String.toList_ofList]

/-- The host that stood in brackets is an address, or a name that does without them. -/
def KeepsBrackets (target : String) : Prop :=
  ∀ host ∈ bracketedHost target, IpAddr.parse host = none → PlainHost host

theorem canonicalTarget_spell (hn : n < 2^16) (hzero : n ≠ 0) (hne : host ≠ "")
    (hlen : strLen (spell host n) ≤ maxTargetLen) (hplain : IpAddr.parse host = none → PlainHost host) :
    canonicalTarget (spell host n) = some (spell host n) := by
  cases hparse : IpAddr.parse host with
  | none => exact canonicalTarget_name hparse (hplain hparse) hne hn hzero hlen
  | some ip =>
    cases ip with
    | v4 ip => exact canonicalTarget_v4 hparse hn hzero
    | v6 ip => exact canonicalTarget_v6 hparse hn hzero

/-- A canonical spelling is canonical where it kept the brackets it needs, and only there. -/
theorem canonicalTarget_again_iff {target c : String} (h : canonicalTarget target = some c) :
    canonicalTarget c = some c ↔ KeepsBrackets target := by
  have hlength := canonicalTarget_length h
  obtain ⟨-, -, host, port, n, hparts, hread, hzero, hne, rfl⟩ := canonicalTarget_eq_some.mp h
  have hn : n < 2^16 := parseUint_lt hread
  rcases hostPort_eq_some.mp hparts with ⟨hbracketed, hclose⟩ | ⟨hopen, htrimmed, hcolon, -⟩
  · have hhost : bracketedHost target = some host := bracketedHost_eq_some.mpr ⟨_, hbracketed, hclose⟩
    constructor
    · intro hself host' hhost' hparse
      rw [hhost] at hhost'
      cases hhost'
      by_contra hplain
      exact canonicalTarget_unplain hparse hplain hclose hself
    · intro hkeeps
      exact canonicalTarget_spell hn hzero hne hlength (hkeeps host hhost)
  · have hnone : ∀ host', bracketedHost target ≠ some host' := by
      intro host' hhost'
      obtain ⟨tail, htext, -⟩ := bracketedHost_eq_some.mp hhost'
      rw [htext] at hopen
      exact hopen rfl
    have hplain : PlainHost host := by
      refine ⟨hcolon, fun c hc => ?_⟩
      have hfirst : (trim target).toList.head? = some c := by
        rw [htrimmed, List.head?_append, hc]
        rfl
      refine ⟨?_, trim_head hfirst⟩
      rintro rfl
      exact hopen hfirst
    constructor
    · intro _ host' hhost'
      exact absurd hhost' (hnone host')
    · intro _
      exact canonicalTarget_spell hn hzero hne hlength (fun _ => hplain)

end

/-- One target and another are decided alike where they have one canonical spelling. -/
theorem decideForward_congr {t c : String} (h : canonicalTarget t = canonicalTarget c)
    (allowlist : List String)
    (nonLoopback : Bool) : decideForward t allowlist nonLoopback = decideForward c allowlist nonLoopback := by
  unfold decideForward
  rw [h]

/-- What is decided of a listed target. -/
theorem decideForward_listed {t c : String} {allowlist : List String} (h : canonicalTarget t = some c)
    (hlisted : c ∈ allowlist) (nonLoopback : Bool) : decideForward t allowlist nonLoopback =
      if isLoopbackTarget c || nonLoopback then .ok () else .error notLoopbackReason := by
  have hne : allowlist ≠ [] := List.ne_nil_of_mem hlisted
  unfold decideForward
  rw [if_neg hne, h]
  dsimp only
  rw [if_neg (not_not.mpr hlisted)]
  cases isLoopbackTarget c <;> cases nonLoopback <;> rfl

/-- The pieces of an allowlist as it is written. -/
def allowlistPieces (raw : Option String) : List String :=
  ((raw.getD "").toList.splitOn ',').map String.ofList

theorem mem_parseForwardAllowlist {raw : Option String} {c : String} :
    c ∈ parseForwardAllowlist raw ↔ ∃ t ∈ allowlistPieces raw, canonicalTarget t = some c :=
  List.mem_filterMap

/-- Canonicalising a target is done once and for all exactly where its brackets are not needed: the
canonical spelling is then its own, is decided as the target is, and is judged as listed where the
target was listed. -/
theorem canonical_target_iff (t c : String) (h : canonicalTarget t = some c) :
    (canonicalTarget c = some c ∧ strLen c ≤ maxTargetLen ∧
      (∀ allowlist nonLoopback, decideForward t allowlist nonLoopback =
        decideForward c allowlist nonLoopback) ∧
      ∀ raw nonLoopback, t ∈ allowlistPieces raw →
        c ∈ parseForwardAllowlist raw ∧ decideForward c (parseForwardAllowlist raw) nonLoopback =
          if isLoopbackTarget c || nonLoopback then .ok () else .error notLoopbackReason) ↔
      KeepsBrackets t := by
  rw [← canonicalTarget_again_iff h]
  constructor
  · intro hall
    exact hall.1
  · intro hself
    refine ⟨hself, canonicalTarget_length h, fun allowlist nonLoopback => ?_, fun raw nonLoopback hpiece => ?_⟩
    · exact decideForward_congr (h.trans hself.symm) allowlist nonLoopback
    · have hlisted : c ∈ parseForwardAllowlist raw := mem_parseForwardAllowlist.mpr ⟨t, hpiece, h⟩
      exact ⟨hlisted, decideForward_listed hself hlisted nonLoopback⟩

theorem canonical_target_iff_sample :
    canonicalTarget "LocalHost:022" = some "localhost:22" ∧
      canonicalTarget "localhost:22" = some "localhost:22" := by
  have h : canonicalTarget "LocalHost:022" = some "localhost:22" := by decide
  have hkeeps : KeepsBrackets "LocalHost:022" := by
    have hnone : bracketedHost "LocalHost:022" = none := by decide
    intro host hhost
    rw [hnone] at hhost
    cases hhost
  exact ⟨h, ((canonical_target_iff "LocalHost:022" "localhost:22" h).mpr hkeeps).1⟩

/-- A scoped address in brackets is listed without them and refused as it is listed. -/
theorem scoped_address_loses_brackets :
    canonicalTarget "[fe80::1%eth0]:22" = some "fe80::1%eth0:22" ∧ canonicalTarget "fe80::1%eth0:22" = none ∧
      decideForward "[fe80::1%eth0]:22" (parseForwardAllowlist (some "[fe80::1%eth0]:22")) true = .ok () ∧
      decideForward "fe80::1%eth0:22" (parseForwardAllowlist (some "[fe80::1%eth0]:22")) true =
        .error notATargetReason := by
  decide

end CtAgent.Forward
