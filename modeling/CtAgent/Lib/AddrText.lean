import CtAgent.Lib.Numeral
import Mathlib.Data.List.TakeWhile
import Mathlib.Data.List.Infix

/-! The text of an address: what is printed is read back as the same address, and letters are read
alike in either case. -/
namespace CtAgent.Lib

namespace AddrParser

section
variable {b : ℕ} {rest : List Char}

/-- No digit of the radix stands at the front. -/
def NoDigit (b : ℕ) (s : List Char) : Prop := ∀ c ∈ s.head?, toDigit b c = none

theorem takeWhile_digits {cs : List Char} (hcs : ∀ c ∈ cs, (toDigit b c).isSome = true)
    (hrest : NoDigit b rest) : (cs ++ rest).takeWhile (fun c => (toDigit b c).isSome) = cs := by
  rw [List.takeWhile_append_of_pos hcs]
  cases rest with
  | nil => simp
  | cons c rest =>
    have hc : toDigit b c = none := hrest c rfl
    simp [hc]

/-- A printed number in front of something else is read back. -/
theorem readNumber_toDigits {n bound : ℕ} {maxDigits : Option ℕ} {zeros : Bool} (hb : 1 < b) (h16 : b ≤ 16)
    (hn : n < bound) (hmax : ∀ m ∈ maxDigits, (Nat.toDigits b n).length ≤ m) (hrest : NoDigit b rest) :
    readNumber b maxDigits zeros bound (Nat.toDigits b n ++ rest) = some (n, rest) := by
  obtain ⟨ds, hread, hvalue⟩ := mapM_toDigit_toDigits hb h16 n
  obtain ⟨hlen, hmap, -⟩ := mapM_toDigit hread
  have hne : ds ≠ [] := by
    intro hnil
    rw [hnil, List.length_nil] at hlen
    exact absurd hlen.symm (Nat.ne_of_gt Nat.length_toDigits_pos)
  have hshort : (maxDigits.any fun m => m < ds.length) = false := by
    cases maxDigits with
    | none => rfl
    | some m =>
      have hm := hmax m rfl
      simpa [hlen] using hm
  have hzero : ¬ (!zeros && (Nat.toDigits b n ++ rest).head? = some '0' && 1 < ds.length) = true := by
    rcases Nat.eq_zero_or_pos n with rfl | hpos
    · rw [Nat.toDigits_zero, List.length_singleton] at hlen
      simp [hlen]
    · have hhead := head_toDigits hb h16 hpos
      simp [hhead]
  unfold readNumber
  simp only [takeWhile_digits (fun c hc => isSome_of_mem_toDigits hb h16 hc) hrest, hmap]
  rw [if_neg (by simp [hne, hshort]), if_neg hzero, hvalue, if_neg (Nat.not_le.mpr hn), hlen, List.drop_left]

theorem bind_of_some {α β : Type} {p : Parser α} {f : α → Parser β} {s s' : List Char} {a : α}
    (h : p s = some (a, s')) : (p >>= f) s = f a s' := by
  change (p s).bind (fun r => f r.1 r.2) = f a s'
  rw [h]
  rfl

theorem of_bind_some {α β : Type} {p : Parser α} {f : α → Parser β} {s : List Char} {r : β × List Char}
    (h : (p >>= f) s = some r) : ∃ a s', p s = some (a, s') ∧ f a s' = some r := by
  obtain ⟨⟨a, s'⟩, hp, hf⟩ := Option.bind_eq_some_iff.mp h
  exact ⟨a, s', hp, hf⟩

theorem readGivenChar_cons (c : Char) (s : List Char) : readGivenChar c (c :: s) = some ((), s) :=
  if_pos rfl

/-- The text of an octet behind the separator it has. -/
def octetText (first : Bool) (o : UInt8) : List Char :=
  (if first then [] else ['.']) ++ Nat.toDigits 10 o.toNat

theorem readOctet_text (first : Bool) (o : UInt8) (hrest : NoDigit 10 rest) :
    readOctet first (octetText first o ++ rest) = some (o, rest) := by
  have hlt : o.toNat < 2^8 := o.toNat_lt
  have hlen : ∀ m ∈ some 3, (Nat.toDigits 10 o.toNat).length ≤ m := by
    intro m hm
    cases hm
    exact (Nat.length_toDigits_le_iff (by decide) (by decide)).mpr (by omega)
  have hnumber : readNumber 10 (some 3) false (2^8) (Nat.toDigits 10 o.toNat ++ rest) = some (o.toNat, rest) :=
    readNumber_toDigits (by decide) (by decide) hlt hlen hrest
  have hsep : readSeparator '.' first (readNumber 10 (some 3) false (2^8)) (octetText first o ++ rest) =
      some (o.toNat, rest) := by
    cases first with
    | true => exact hnumber
    | false => exact (bind_of_some (readGivenChar_cons '.' _)).trans hnumber
  unfold readOctet
  rw [bind_of_some hsep]
  change some (UInt8.ofNat o.toNat, rest) = some (o, rest)
  rw [UInt8.ofNat_toNat]

/-- The text of an IPv4 address. -/
def ipv4Text (ip : Ipv4Addr) : List Char :=
  octetText true ip.a ++ (octetText false ip.b ++ (octetText false ip.c ++ octetText false ip.d))

theorem noDigit_octet (o : UInt8) (rest : List Char) : NoDigit 10 (octetText false o ++ rest) := by
  intro c hc
  have hdot : c = '.' := by simpa [octetText] using hc.symm
  rw [hdot]
  decide

theorem readIpv4Addr_text (ip : Ipv4Addr) (hrest : NoDigit 10 rest) :
    readIpv4Addr (ipv4Text ip ++ rest) = some (ip, rest) := by
  have ha := readOctet_text true ip.a
    (noDigit_octet ip.b (octetText false ip.c ++ (octetText false ip.d ++ rest)))
  have hb := readOctet_text false ip.b (noDigit_octet ip.c (octetText false ip.d ++ rest))
  have hc := readOctet_text false ip.c (noDigit_octet ip.d rest)
  have hd := readOctet_text false ip.d hrest
  unfold readIpv4Addr ipv4Text
  simp only [List.append_assoc]
  rw [bind_of_some ha, bind_of_some hb, bind_of_some hc, bind_of_some hd]
  rfl

theorem readGivenChar_some {c : Char} {s s' : List Char} {u : Unit} (h : readGivenChar c s = some (u, s')) :
    s = c :: s' := by
  cases s with
  | nil => cases h
  | cons x rest =>
    obtain ⟨hx, hrest⟩ := Option.ite_none_right_eq_some.mp h
    cases hrest
    rw [hx]

/-- A number takes the digits at the front and no more. -/
theorem readNumber_some {maxDigits : Option ℕ} {zeros : Bool} {bound n : ℕ} {s s' : List Char}
    (h : readNumber b maxDigits zeros bound s = some (n, s')) :
    s = s.takeWhile (fun c => (toDigit b c).isSome) ++ s' := by
  have hlen : ((s.takeWhile (fun c => (toDigit b c).isSome)).filterMap (toDigit b)).length =
      (s.takeWhile (fun c => (toDigit b c).isSome)).length := by
    rw [List.filterMap_length_eq_length]
    exact fun c hc => List.mem_takeWhile_imp (p := fun c => (toDigit b c).isSome) hc
  unfold readNumber at h
  dsimp only at h
  split at h
  · cases h
  split at h
  · cases h
  split at h
  · cases h
  · have hs' := congrArg Prod.snd (Option.some.inj h)
    dsimp only at hs'
    rw [← hs', hlen]
    exact List.prefix_append_drop (List.takeWhile_prefix _)

/-- An IPv4 address has a dot behind its first digits. -/
theorem readIpv4Addr_dot {s : List Char} {r : Ipv4Addr × List Char} (h : readIpv4Addr s = some r) :
    (s.dropWhile (fun c => (toDigit 16 c).isSome)).head? = some '.' := by
  obtain ⟨a, s₁, ha, h⟩ := of_bind_some h
  obtain ⟨b, s₂, hb, -⟩ := of_bind_some h
  obtain ⟨n, s₃, hn, ha⟩ := of_bind_some ha
  obtain ⟨m, s₄, hm, -⟩ := of_bind_some hb
  obtain ⟨u, s₅, hdot, -⟩ := of_bind_some hm
  have hs : s₃ = s₁ := congrArg Prod.snd (Option.some.inj ha)
  have hcut := readNumber_some hn
  rw [hs, readGivenChar_some hdot] at hcut
  have hhex : ∀ c ∈ s.takeWhile (fun c => (toDigit 10 c).isSome), (toDigit 16 c).isSome = true := by
    intro c hc
    have hten := List.mem_takeWhile_imp (p := fun c => (toDigit 10 c).isSome) hc
    obtain ⟨d, hd⟩ := Option.isSome_iff_exists.mp hten
    rw [toDigit_of_decimal hd (by decide)]
    rfl
  rw [hcut, List.dropWhile_append_of_pos hhex]
  rfl

/-- The text of segments, with a separator in front of each but a first one. -/
def groupsText : Bool → List UInt16 → List Char
  | _, [] => []
  | first, g :: gs => (if first then [] else [':']) ++ (Nat.toDigits 16 g.toNat ++ groupsText false gs)

/-- Where no more groups are read: at the end, and in front of a `::`. -/
def GroupsEnd (s : List Char) : Prop := s = [] ∨ ∃ r, s = ':' :: ':' :: r

theorem noDigit_of_head {c : Char} (hc : toDigit b c = none) (s : List Char) : NoDigit b (c :: s) := by
  intro c' hc'
  rwa [← Option.some.inj hc']

theorem toDigit_colon (b : ℕ) : toDigit b ':' = none := by simp [toDigit]

/-- Behind a group stands a separator or nothing. -/
theorem groups_head (gs : List UInt16) (h : GroupsEnd rest) :
    groupsText false gs ++ rest = [] ∨ ∃ s, groupsText false gs ++ rest = ':' :: s := by
  cases gs with
  | nil =>
    rcases h with rfl | ⟨r, rfl⟩
    · exact .inl rfl
    · exact .inr ⟨_, rfl⟩
  | cons g gs => exact .inr ⟨_, rfl⟩

theorem noDigit_groups (gs : List UInt16) (h : GroupsEnd rest) : NoDigit b (groupsText false gs ++ rest) := by
  rcases groups_head gs h with hnil | ⟨s, hs⟩
  · rw [hnil]
    intro c hc
    cases hc
  · rw [hs]
    exact noDigit_of_head (toDigit_colon b) s

theorem readNumber_none {maxDigits : Option ℕ} {zeros : Bool} {bound : ℕ} (h : NoDigit b rest) :
    readNumber b maxDigits zeros bound rest = none := by
  have hnone : ([] ++ rest).takeWhile (fun c => (toDigit b c).isSome) = [] := takeWhile_digits (by simp) h
  rw [List.nil_append] at hnone
  unfold readNumber
  simp [hnone]

theorem readIpv4Addr_none (h : (rest.dropWhile (fun c => (toDigit 16 c).isSome)).head? ≠ some '.') :
    readIpv4Addr rest = none := by
  rw [Option.eq_none_iff_forall_ne_some]
  intro r hr
  exact h (readIpv4Addr_dot hr)

/-- A group that was printed is not the start of an IPv4 address. -/
theorem readIpv4Addr_group (g : UInt16) (gs : List UInt16) (h : GroupsEnd rest) :
    readIpv4Addr (Nat.toDigits 16 g.toNat ++ (groupsText false gs ++ rest)) = none := by
  apply readIpv4Addr_none
  rw [List.dropWhile_append_of_pos (fun c hc => isSome_of_mem_toDigits (by decide) (by decide) hc)]
  rcases groups_head gs h with hnil | ⟨s, hs⟩
  · rw [hnil]
    nofun
  · rw [hs, List.dropWhile_cons_of_neg (by rw [toDigit_colon]; nofun)]
    exact fun hdot => absurd (Option.some.inj hdot) (by decide)

theorem readIpv4Addr_colon (s : List Char) : readIpv4Addr (':' :: s) = none := by
  apply readIpv4Addr_none
  rw [List.dropWhile_cons_of_neg (by rw [toDigit_colon]; nofun)]
  exact fun hdot => absurd (Option.some.inj hdot) (by decide)

/-- Where the groups end nothing is read, with or without its separator. -/
theorem readSeparator_none {α : Type} {inner : Parser α} (first : Bool) (h : GroupsEnd rest)
    (hnil : inner [] = none) (hcolon : ∀ s, inner (':' :: s) = none) :
    readSeparator ':' first inner rest = none := by
  cases first with
  | true =>
    rcases h with rfl | ⟨r, rfl⟩
    · exact hnil
    · exact hcolon _
  | false =>
    rcases h with rfl | ⟨r, rfl⟩
    · rfl
    · exact (bind_of_some (readGivenChar_cons ':' _)).trans (hcolon r)

theorem readSeparator_text {α : Type} {inner : Parser α} (first : Bool) (s : List Char) :
    readSeparator ':' first inner ((if first then [] else [':']) ++ s) = inner s := by
  cases first with
  | true => rfl
  | false => exact bind_of_some (readGivenChar_cons ':' _)

theorem readGroups_end (left : ℕ) (first : Bool) (h : GroupsEnd rest) :
    readGroups left first rest = (([], false), rest) := by
  have hipv4 : readSeparator ':' first readIpv4Addr rest = none :=
    readSeparator_none first h (readIpv4Addr_none (by nofun)) readIpv4Addr_colon
  have hnumber : readSeparator ':' first (readNumber 16 (some 4) true (2^16)) rest = none :=
    readSeparator_none first h (readNumber_none (by nofun))
      (fun s => readNumber_none (noDigit_of_head (toDigit_colon 16) s))
  cases left with
  | zero => rfl
  | succ left =>
    unfold readGroups
    rw [hipv4, hnumber]
    simp

theorem length_group (g : UInt16) : (Nat.toDigits 16 g.toNat).length ≤ 4 := by
  have hlt : g.toNat < 2^16 := g.toNat_lt
  exact (Nat.length_toDigits_le_iff (by decide) (by decide)).mpr (by omega)

/-- Printed groups are read back, as many as there is room for. -/
theorem readGroups_text (gs : List UInt16) (left : ℕ) (first : Bool) (hlen : gs.length ≤ left)
    (hend : GroupsEnd rest) : readGroups left first (groupsText first gs ++ rest) = ((gs, false), rest) := by
  induction gs generalizing left first with
  | nil => exact readGroups_end left first hend
  | cons g gs ih =>
    cases left with
    | zero => cases hlen
    | succ left =>
      have hipv4 : readSeparator ':' first readIpv4Addr (groupsText first (g :: gs) ++ rest) = none := by
        rw [groupsText, List.append_assoc, List.append_assoc, readSeparator_text]
        exact readIpv4Addr_group g gs hend
      have hnumber : readSeparator ':' first (readNumber 16 (some 4) true (2^16))
          (groupsText first (g :: gs) ++ rest) = some (g.toNat, groupsText false gs ++ rest) := by
        rw [groupsText, List.append_assoc, List.append_assoc, readSeparator_text]
        apply readNumber_toDigits (by decide) (by decide) g.toNat_lt _ (noDigit_groups gs hend)
        intro m hm
        cases hm
        exact length_group g
      have hrest := ih left false (Nat.le_of_succ_le_succ hlen)
      unfold readGroups
      rw [hipv4, hnumber]
      simp only [ite_self, hrest, UInt16.ofNat_toNat]

theorem readIpv6Addr_all (gs : List UInt16) (hlen : gs.length = 8) :
    readIpv6Addr (groupsText true gs) = some (ofGroups gs, []) := by
  have hread : readGroups 8 true (groupsText true gs ++ []) = _ :=
    readGroups_text gs 8 true (Nat.le_of_eq hlen) (.inl rfl)
  rw [List.append_nil] at hread
  unfold readIpv6Addr
  rw [hread]
  exact if_pos hlen

/-- Where zeros are left out, as many are put in as there is room for. -/
theorem readIpv6Addr_short (head tail : List UInt16) (hlen : head.length + tail.length < 8) :
    readIpv6Addr (groupsText true head ++ (':' :: ':' :: groupsText true tail)) =
      some (ofGroups (head ++ List.replicate (8 - head.length - tail.length) 0 ++ tail), []) := by
  have hhead : readGroups 8 true (groupsText true head ++ ':' :: ':' :: groupsText true tail) = _ :=
    readGroups_text head 8 true (by omega) (.inr ⟨_, rfl⟩)
  have htail : readGroups (8 - (head.length + 1)) true (groupsText true tail ++ []) = _ :=
    readGroups_text tail (8 - (head.length + 1)) true (by omega) (.inl rfl)
  rw [List.append_nil] at htail
  have hcolons : (do readGivenChar ':'; readGivenChar ':' : Parser Unit) (':' :: ':' :: groupsText true tail) =
      some ((), groupsText true tail) := rfl
  have hne : ¬ head.length = 8 := by omega
  unfold readIpv6Addr
  rw [hhead]
  dsimp only
  rw [if_neg hne, if_neg (by nofun), hcolons]
  dsimp only
  rw [htail]

/-- The segments an IPv4 address stands for. -/
def mappedGroups (ip : Ipv4Addr) : List UInt16 :=
  [0xffff, ip.a.toUInt16 * 256 + ip.b.toUInt16, ip.c.toUInt16 * 256 + ip.d.toUInt16]

theorem readGroups_mapped (ip : Ipv4Addr) :
    readGroups 7 true (Nat.toDigits 16 0xffff ++ (':' :: ipv4Text ip)) = ((mappedGroups ip, true), []) := by
  have hnot : readIpv4Addr (Nat.toDigits 16 0xffff ++ (':' :: ipv4Text ip)) = none := by
    apply readIpv4Addr_none
    rw [List.dropWhile_append_of_pos (fun c hc => isSome_of_mem_toDigits (by decide) (by decide) hc),
      List.dropWhile_cons_of_neg (by rw [toDigit_colon]; nofun)]
    exact fun hdot => absurd (Option.some.inj hdot) (by decide)
  have hffff : readNumber 16 (some 4) true (2^16) (Nat.toDigits 16 0xffff ++ (':' :: ipv4Text ip)) =
      some (0xffff, ':' :: ipv4Text ip) := by
    apply readNumber_toDigits (by decide) (by decide) (by decide) _ (noDigit_of_head (toDigit_colon 16) _)
    intro m hm
    cases hm
    decide
  have hip : readSeparator ':' false readIpv4Addr (':' :: ipv4Text ip) = some (ip, []) := by
    have hread : readIpv4Addr (ipv4Text ip ++ []) = _ := readIpv4Addr_text ip (by nofun)
    rw [List.append_nil] at hread
    exact (readSeparator_text false _).trans hread
  have hfirst (s : List Char) : readSeparator ':' true readIpv4Addr s = readIpv4Addr s := rfl
  have hnum (s : List Char) : readSeparator ':' true (readNumber 16 (some 4) true (2^16)) s =
    readNumber 16 (some 4) true (2^16) s := rfl
  have hrest : readGroups 6 false (':' :: ipv4Text ip) = (((mappedGroups ip).drop 1, true), []) := by
    unfold readGroups
    rw [hip]
    rfl
  unfold readGroups
  rw [hfirst, hnot, hnum, hffff]
  simp only [ite_self, hrest]
  rfl

theorem readIpv6Addr_mapped (ip : Ipv4Addr) :
    readIpv6Addr (':' :: ':' :: (Nat.toDigits 16 0xffff ++ (':' :: ipv4Text ip))) =
      some (ofGroups (List.replicate 5 0 ++ mappedGroups ip), []) := by
  have hhead : readGroups 8 true (':' :: ':' :: (Nat.toDigits 16 0xffff ++ (':' :: ipv4Text ip))) = _ :=
    readGroups_end 8 true (.inr ⟨_, rfl⟩)
  have hcolons (s : List Char) : (do readGivenChar ':'; readGivenChar ':' : Parser Unit) (':' :: ':' :: s) =
      some ((), s) := rfl
  unfold readIpv6Addr
  rw [hhead]
  dsimp only
  rw [if_neg (by nofun), if_neg (by nofun), hcolons]
  dsimp only
  have htail := readGroups_mapped ip
  have hroom : 8 - (([] : List UInt16).length + 1) = 7 := rfl
  rw [hroom, htail]
  rfl

theorem readIpv4Addr_groupsText (gs : List UInt16) (h : gs = [] → ∃ s, rest = ':' :: s)
    (hend : GroupsEnd rest) :
    readIpv4Addr (groupsText true gs ++ rest) = none := by
  cases gs with
  | nil =>
    obtain ⟨s, rfl⟩ := h rfl
    exact readIpv4Addr_colon s
  | cons g gs =>
    rw [groupsText, List.append_assoc, List.append_assoc]
    exact readIpv4Addr_group g gs hend

end

end AddrParser

section
open AddrParser

theorem Ipv4Addr.display_toList (ip : Ipv4Addr) : ip.display.toList = ipv4Text ip := by
  have hdot : (toString ".").toList = ['.'] := rfl
  simp [Ipv4Addr.display, ipv4Text, octetText, hdot]

theorem displaySegments_toList (gs : List UInt16) : (displaySegments gs).toList = groupsText true gs := by
  have hmore (gs : List UInt16) (text : String) :
      (":".intercalate (text :: gs.map (fun s => String.ofList (Nat.toDigits 16 s.toNat)))).toList =
        text.toList ++ groupsText false gs := by
    induction gs generalizing text with
    | nil => simp [groupsText]
    | cons g gs ih =>
      rw [List.map_cons, String.intercalate_cons_cons]
      simp only [String.toList_append, ih, groupsText]
      simp
  unfold displaySegments
  cases gs with
  | nil => simp [groupsText]
  | cons g gs =>
    rw [List.map_cons, hmore]
    simp [groupsText]

/-- A run of zero segments, as start and length. -/
def ZeroRun (segments : List UInt16) (run : ℕ × ℕ) : Prop :=
  run.1 + run.2 ≤ segments.length ∧ (segments.drop run.1).take run.2 = List.replicate run.2 0

theorem ZeroRun.append {segments : List UInt16} {run : ℕ × ℕ} (h : ZeroRun segments run) (g : UInt16) :
    ZeroRun (segments ++ [g]) run := by
  obtain ⟨hle, hzero⟩ := h
  refine ⟨by rw [List.length_append]; omega, ?_⟩
  have hcut : run.2 ≤ (segments.drop run.1).length := by
    rw [List.length_drop]
    omega
  rw [List.drop_append_of_le_length (by omega), List.take_append_of_le_length hcut, hzero]

/-- A run that reaches the end grows by a zero behind it. -/
theorem ZeroRun.grow {segments : List UInt16} {start len : ℕ} (h : ZeroRun segments (start, len))
    (hend : start + len = segments.length) : ZeroRun (segments ++ [0]) (start, len + 1) := by
  obtain ⟨-, hzero⟩ := h
  have hlen : (segments.drop start).length = len := by
    rw [List.length_drop]
    omega
  refine ⟨by rw [List.length_append, List.length_singleton]; omega, ?_⟩
  rw [List.take_of_length_le (Nat.le_of_eq hlen)] at hzero
  have hall : (segments ++ [0]).drop start = List.replicate (len + 1) 0 := by
    rw [List.drop_append_of_le_length (by omega), hzero, List.replicate_succ']
  rw [hall, List.take_of_length_le (by rw [List.length_replicate])]

theorem longestZeros_run (segments : List UInt16) : ZeroRun segments (longestZeros segments) := by
  unfold longestZeros
  dsimp only
  generalize hstep : (fun (acc : (ℕ × ℕ) × (ℕ × ℕ)) (e : UInt16 × ℕ) => _) = step
  -- the run so far that is longest, and the one at the end
  have hinv (segments : List UInt16) : ZeroRun segments (segments.zipIdx.foldl step ((0, 0), (0, 0))).1 ∧
      ZeroRun segments (segments.zipIdx.foldl step ((0, 0), (0, 0))).2 ∧
      ((segments.zipIdx.foldl step ((0, 0), (0, 0))).2.2 ≠ 0 →
        (segments.zipIdx.foldl step ((0, 0), (0, 0))).2.1 +
          (segments.zipIdx.foldl step ((0, 0), (0, 0))).2.2 = segments.length) := by
    induction segments using List.reverseRecOn with
    | nil => exact ⟨⟨Nat.le_refl 0, rfl⟩, ⟨Nat.le_refl 0, rfl⟩, fun h => absurd rfl h⟩
    | append_singleton segments g ih =>
      rw [List.zipIdx_append, List.foldl_append]
      generalize segments.zipIdx.foldl step ((0, 0), (0, 0)) = acc at ih
      obtain ⟨⟨s₁, l₁⟩, s₂, l₂⟩ := acc
      obtain ⟨h₁, h₂, hend⟩ := ih
      dsimp only at h₁ h₂ hend
      rw [← hstep]
      simp only [List.zipIdx_cons, List.zipIdx_nil, List.foldl_cons, List.foldl_nil, Nat.zero_add]
      by_cases hg : g = 0
      · subst hg
        have hcurrent : ZeroRun (segments ++ [0]) (if l₂ = 0 then segments.length else s₂, l₂ + 1) := by
          by_cases hl : l₂ = 0
          · subst hl
            refine ⟨by simp, ?_⟩
            simp
          · rw [if_neg hl]
            exact h₂.grow (hend hl)
        have hcurrentEnd : (if l₂ = 0 then segments.length else s₂) + (l₂ + 1) = (segments ++ [0]).length := by
          rw [List.length_append, List.length_singleton]
          split
          · omega
          · next hl =>
            have hat := hend hl
            omega
        rw [if_pos rfl]
        refine ⟨?_, hcurrent, fun _ => hcurrentEnd⟩
        dsimp only
        split
        · exact hcurrent
        · exact h₁.append 0
      · rw [if_neg hg]
        exact ⟨h₁.append g, ⟨Nat.zero_le _, rfl⟩, fun h => absurd rfl h⟩
  exact (hinv segments).1

/-- The groups in front of a run of zeros, the run, and those behind it. -/
theorem ZeroRun.split {segments : List UInt16} {run : ℕ × ℕ} (h : ZeroRun segments run) :
    segments.take run.1 ++ List.replicate run.2 0 ++ segments.drop (run.1 + run.2) = segments := by
  rw [← h.2, List.append_assoc, ← List.drop_drop, List.take_append_drop, List.take_append_drop]

theorem ofGroups_segments (ip : Ipv6Addr) : ofGroups ip.segments.toList = ip := by
  obtain ⟨segments⟩ := ip
  unfold ofGroups
  congr 1
  ext i hi
  simp [List.getD_eq_getElem?_getD]

theorem Ipv6Addr.length_segments (ip : Ipv6Addr) : ip.segments.toList.length = 8 := by simp

/-- The IPv4 address a mapped address carries. -/
def mappedIpv4 (high low : ℕ) : Ipv4Addr :=
  ⟨UInt8.ofNat (high / 256), UInt8.ofNat (high % 256), UInt8.ofNat (low / 256), UInt8.ofNat (low % 256)⟩

theorem mappedGroups_mappedIpv4 (high low : UInt16) :
    mappedGroups (mappedIpv4 high.toNat low.toNat) = [0xffff, high, low] := by
  have hhalves (g : UInt16) :
      (UInt8.ofNat (g.toNat / 256)).toUInt16 * 256 + (UInt8.ofNat (g.toNat % 256)).toUInt16 = g := by
    have hg : g.toNat < 2^16 := g.toNat_lt
    apply UInt16.toNat_inj.mp
    simp
    omega
  simp only [mappedGroups, mappedIpv4, hhalves]

theorem mapped_toList (high low : UInt16) :
    (s!"::ffff:{high.toNat / 256}.{high.toNat % 256}.{low.toNat / 256}.{low.toNat % 256}").toList =
      ':' :: ':' :: (Nat.toDigits 16 0xffff ++ (':' :: ipv4Text (mappedIpv4 high.toNat low.toNat))) := by
  have hhigh : high.toNat / 256 % 256 = high.toNat / 256 := by
    have hlt : high.toNat < 2^16 := high.toNat_lt
    omega
  have hlow : low.toNat / 256 % 256 = low.toNat / 256 := by
    have hlt : low.toNat < 2^16 := low.toNat_lt
    omega
  have hffff : (toString "::ffff:").toList = ':' :: ':' :: (Nat.toDigits 16 0xffff ++ [':']) := by decide
  have hdot : (toString ".").toList = ['.'] := rfl
  simp [ipv4Text, octetText, mappedIpv4, hffff, hdot, hhigh, hlow]

theorem segments_of_mapped {ip : Ipv6Addr} (h : ip.segments.toList.take 6 = [0, 0, 0, 0, 0, 0xffff]) :
    ip.segments.toList =
      List.replicate 5 0 ++ [0xffff, ip.segments.toList.getD 6 0, ip.segments.toList.getD 7 0] := by
  have hlen := ip.length_segments
  generalize ip.segments.toList = segments at h hlen
  match segments, hlen with
  | [a, b, c, d, e, f, g, k], _ => simpa using h

/-- An IPv6 address is read back from its text, which no IPv4 address starts. -/
theorem readIpv6Addr_display (ip : Ipv6Addr) :
    readIpv4Addr ip.display.toList = none ∧ readIpv6Addr ip.display.toList = some (ip, []) := by
  have hlen := ip.length_segments
  unfold Ipv6Addr.display
  dsimp only
  split
  · next hmapped =>
    rw [mapped_toList, readIpv6Addr_mapped, mappedGroups_mappedIpv4, ← segments_of_mapped hmapped,
      ofGroups_segments]
    exact ⟨readIpv4Addr_colon _, rfl⟩
  split
  · next hrun =>
    have hzeros := longestZeros_run ip.segments.toList
    have hsplit := hzeros.split
    have hle := hzeros.1
    generalize longestZeros ip.segments.toList = run at hrun hzeros hsplit hle
    have hhead : (ip.segments.toList.take run.1).length = run.1 := List.length_take_of_le (by omega)
    have htail : (ip.segments.toList.drop (run.1 + run.2)).length = 8 - (run.1 + run.2) := by
      rw [List.length_drop, hlen]
    have hroom : 8 - run.1 - (8 - (run.1 + run.2)) = run.2 := by omega
    have htext : (displaySegments (ip.segments.toList.take run.1) ++ "::" ++
        displaySegments (ip.segments.toList.drop (run.1 + run.2))).toList =
        groupsText true (ip.segments.toList.take run.1) ++
          (':' :: ':' :: groupsText true (ip.segments.toList.drop (run.1 + run.2))) := by
      simp [displaySegments_toList]
    rw [htext]
    constructor
    · exact readIpv4Addr_groupsText _ (fun _ => ⟨_, rfl⟩) (.inr ⟨_, rfl⟩)
    · rw [readIpv6Addr_short _ _ (by omega), hhead, htail, hroom, hsplit, ofGroups_segments]
  · rw [displaySegments_toList]
    constructor
    · have hne : ip.segments.toList ≠ [] := List.ne_nil_of_length_pos (by omega)
      have hread : readIpv4Addr (groupsText true ip.segments.toList ++ []) = none :=
        readIpv4Addr_groupsText ip.segments.toList (fun h => absurd h hne) (.inl rfl)
      rwa [List.append_nil] at hread
    · rw [readIpv6Addr_all _ hlen, ofGroups_segments]

theorem parse_display_v4 (ip : Ipv4Addr) : IpAddr.parse ip.display = some (.v4 ip) := by
  have hread : AddrParser.readIpv4Addr (ipv4Text ip ++ []) = _ := readIpv4Addr_text ip (by nofun)
  rw [List.append_nil] at hread
  unfold IpAddr.parse parseWith readIpAddr
  rw [Ipv4Addr.display_toList]
  have hmap : (IpAddr.v4 <$> readIpv4Addr : Parser IpAddr) (ipv4Text ip) = some (.v4 ip, []) := by
    change (readIpv4Addr (ipv4Text ip)).bind _ = _
    rw [hread]
    rfl
  rw [hmap]
  rfl

theorem parse_display_v6 (ip : Ipv6Addr) : IpAddr.parse ip.display = some (.v6 ip) := by
  obtain ⟨hnot, hread⟩ := readIpv6Addr_display ip
  unfold IpAddr.parse parseWith readIpAddr
  have hmap₄ : (IpAddr.v4 <$> readIpv4Addr : Parser IpAddr) ip.display.toList = none := by
    change (readIpv4Addr ip.display.toList).bind _ = _
    rw [hnot]
    rfl
  have hmap₆ : (IpAddr.v6 <$> readIpv6Addr : Parser IpAddr) ip.display.toList = some (.v6 ip, []) := by
    change (readIpv6Addr ip.display.toList).bind _ = _
    rw [hread]
    rfl
  rw [hmap₄, hmap₆]
  rfl

/-- The characters an address is printed with. -/
def AddrChar (c : Char) : Prop := (toDigit 16 c).isSome = true ∨ c = ':' ∨ c = '.'

theorem addrChar_octetText {first : Bool} {o : UInt8} {c : Char} (hc : c ∈ octetText first o) :
    c = '.' ∨ (toDigit 10 c).isSome = true := by
  have hdigits : c ∈ Nat.toDigits 10 o.toNat → (toDigit 10 c).isSome = true :=
    isSome_of_mem_toDigits (by decide) (by decide)
  rcases List.mem_append.mp hc with hsep | hdigit
  · cases first with
    | true => cases hsep
    | false => exact .inl (List.mem_singleton.mp hsep)
  · exact .inr (hdigits hdigit)

theorem mem_ipv4Text {ip : Ipv4Addr} {c : Char} (hc : c ∈ ipv4Text ip) : c = '.' ∨
    (toDigit 10 c).isSome = true := by
  simp only [ipv4Text, List.mem_append] at hc
  rcases hc with hc | hc | hc | hc <;> exact addrChar_octetText hc

theorem ipv4Text_head (ip : Ipv4Addr) : ∃ c rest, ipv4Text ip = c :: rest ∧ (toDigit 10 c).isSome = true := by
  have hdigits : ∀ c ∈ Nat.toDigits 10 ip.a.toNat, (toDigit 10 c).isSome = true := fun c =>
    isSome_of_mem_toDigits (by decide) (by decide)
  unfold ipv4Text octetText
  cases htext : Nat.toDigits 10 ip.a.toNat with
  | nil => exact absurd htext Nat.toDigits_ne_nil
  | cons c rest => exact ⟨c, _, rfl, hdigits c (by rw [htext]; exact List.mem_cons_self)⟩

theorem mem_groupsText {first : Bool} {gs : List UInt16} {c : Char} (hc : c ∈ groupsText first gs) :
    AddrChar c := by
  induction gs generalizing first with
  | nil => cases hc
  | cons g gs ih =>
    simp only [groupsText, List.mem_append] at hc
    rcases hc with hsep | hdigit | hmore
    · cases first with
      | true => cases hsep
      | false => exact .inr (.inl (List.mem_singleton.mp hsep))
    · exact .inl (isSome_of_mem_toDigits (by decide) (by decide) hdigit)
    · exact ih hmore

theorem length_ipv4Text (ip : Ipv4Addr) : (ipv4Text ip).length ≤ 16 := by
  have hoctet (first : Bool) (o : UInt8) : (octetText first o).length ≤ 4 := by
    have hlt : o.toNat < 2^8 := o.toNat_lt
    have hlen : (Nat.toDigits 10 o.toNat).length ≤ 3 :=
      (Nat.length_toDigits_le_iff (by decide) (by decide)).mpr (by omega)
    unfold octetText
    rw [List.length_append]
    cases first <;> simp <;> omega
  have ha := hoctet true ip.a
  have hb := hoctet false ip.b
  have hc := hoctet false ip.c
  have hd := hoctet false ip.d
  simp only [ipv4Text, List.length_append]
  omega

theorem length_groupsText (first : Bool) (gs : List UInt16) :
    (groupsText first gs).length ≤ 5 * gs.length := by
  induction gs generalizing first with
  | nil => exact Nat.le_refl 0
  | cons g gs ih =>
    have hgroup := length_group g
    have hmore := ih false
    have hsep : (if first then [] else [':'] : List Char).length ≤ 1 := by cases first <;> simp
    simp only [groupsText, List.length_append, List.length_cons]
    omega

/-- The text of an IPv6 address, by its characters and its length. -/
theorem Ipv6Addr.display_text (ip : Ipv6Addr) :
    (∀ c ∈ ip.display.toList, AddrChar c) ∧ ip.display.toList.length ≤ 42 := by
  have hlen := ip.length_segments
  unfold Ipv6Addr.display
  dsimp only
  split
  · rw [mapped_toList]
    constructor
    · intro c hc
      simp only [List.mem_cons, List.mem_append] at hc
      rcases hc with hc | hc | hc | hc | hc
      · exact .inr (.inl hc)
      · exact .inr (.inl hc)
      · exact .inl (isSome_of_mem_toDigits (by decide) (by decide) hc)
      · exact .inr (.inl hc)
      · rcases mem_ipv4Text hc with hdot | hdigit
        · exact .inr (.inr hdot)
        · obtain ⟨d, hd⟩ := Option.isSome_iff_exists.mp hdigit
          refine .inl ?_
          rw [toDigit_of_decimal hd (by decide)]
          rfl
    · have h := length_ipv4Text (mappedIpv4 (ip.segments.toList.getD 6 0).toNat
        (ip.segments.toList.getD 7 0).toNat)
      have hffff : (Nat.toDigits 16 0xffff).length = 4 := by decide
      simp only [List.length_cons, List.length_append, hffff]
      omega
  split
  · next hrun =>
    have hle := (longestZeros_run ip.segments.toList).1
    constructor
    · intro c hc
      simp only [String.toList_append, displaySegments_toList, List.mem_append] at hc
      rcases hc with (hc | hc) | hc
      · exact mem_groupsText hc
      · have hcolon : c = ':' := by simpa using hc
        exact .inr (.inl hcolon)
      · exact mem_groupsText hc
    · generalize longestZeros ip.segments.toList = run at hrun hle
      have hhead := length_groupsText true (ip.segments.toList.take run.1)
      have htail := length_groupsText true (ip.segments.toList.drop (run.1 + run.2))
      rw [List.length_take_of_le (by omega)] at hhead
      rw [List.length_drop] at htail
      have hcolons : ("::" : String).toList.length = 2 := rfl
      simp only [String.toList_append, displaySegments_toList, List.length_append, hcolons]
      omega
  · rw [displaySegments_toList]
    have hall := length_groupsText true ip.segments.toList
    exact ⟨fun c hc => mem_groupsText hc, by omega⟩

end

end CtAgent.Lib
