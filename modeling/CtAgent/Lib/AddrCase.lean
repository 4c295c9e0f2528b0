import CtAgent.Lib.AddrText

/-! An address is read alike with its letters in either case. -/
namespace CtAgent.Lib

namespace AddrParser

/-- Another spelling of characters that no address tells from the first: the other case of a letter. -/
structure Respells (f : Char → Char) : Prop where
  digit : ∀ b c, toDigit b (f c) = toDigit b c
  mark : ∀ m ∈ ['.', ':', '0'], ∀ c, f c = m ↔ c = m

/-- `p` reads both spellings alike. -/
def Blind (f : Char → Char) {α : Type} (p : Parser α) : Prop :=
  ∀ s, p (s.map f) = (p s).map (fun r => (r.1, r.2.map f))

section
variable {f : Char → Char} (hf : Respells f)

theorem Blind.bind {α β : Type} {p : Parser α} {q : α → Parser β} (hp : Blind f p) (hq : ∀ a, Blind f (q a)) :
    Blind f (p >>= q) := by
  intro s
  change (p (s.map f)).bind (fun r => q r.1 r.2) = ((p s).bind (fun r => q r.1 r.2)).map _
  rw [hp s]
  cases p s with
  | none => rfl
  | some r => exact hq r.1 r.2

theorem Blind.pure {α : Type} (a : α) : Blind f (Pure.pure a : Parser α) := fun _ => rfl

include hf in
theorem blind_readGivenChar {m : Char} (hm : m ∈ ['.', ':', '0']) : Blind f (readGivenChar m) := by
  intro s
  cases s with
  | nil => rfl
  | cons c rest =>
    have hc := hf.mark m hm c
    by_cases h : c = m
    · have hfc : f m = m := (hf.mark m hm m).mpr rfl
      simp [readGivenChar, h, hfc]
    · simp [readGivenChar, h, hc]

include hf in
theorem blind_readNumber (b : ℕ) (maxDigits : Option ℕ) (zeros : Bool) (bound : ℕ) :
    Blind f (readNumber b maxDigits zeros bound) := by
  intro s
  have hdigits : ((s.map f).takeWhile (fun c => (toDigit b c).isSome)).filterMap (toDigit b) =
      (s.takeWhile (fun c => (toDigit b c).isSome)).filterMap (toDigit b) := by
    have hpred : ((fun c => (toDigit b c).isSome) ∘ f) = fun c => (toDigit b c).isSome := by
      funext c
      exact congrArg Option.isSome (hf.digit b c)
    have hread : (toDigit b ∘ f) = toDigit b := by
      funext c
      exact hf.digit b c
    rw [List.takeWhile_map, hpred, List.filterMap_map, hread]
  have hhead : (s.map f).head? = some '0' ↔ s.head? = some '0' := by
    cases s with
    | nil => simp
    | cons c rest => simpa using hf.mark '0' (by simp) c
  unfold readNumber
  simp only [hdigits, hhead, ← List.map_drop]
  split_ifs <;> rfl

include hf in
theorem blind_readSeparator {α : Type} {sep : Char} (hsep : sep ∈ ['.', ':', '0']) (first : Bool)
    {inner : Parser α} (hinner : Blind f inner) : Blind f (readSeparator sep first inner) := by
  cases first with
  | true => exact hinner
  | false => exact (blind_readGivenChar hf hsep).bind (fun _ => hinner)

include hf in
theorem blind_readIpv4Addr : Blind f readIpv4Addr := by
  have hoctet (first : Bool) : Blind f (readOctet first) :=
    (blind_readSeparator hf (by simp) first (blind_readNumber hf 10 (some 3) false (2^8))).bind
    (fun _ => .pure _)
  exact (hoctet true).bind fun _ => (hoctet false).bind fun _ => (hoctet false).bind fun _ =>
    (hoctet false).bind fun _ => .pure _

include hf in
theorem readGroups_map (left : ℕ) (first : Bool) (s : List Char) :
    readGroups left first (s.map f) = ((readGroups left first s).1, (readGroups left first s).2.map f) := by
  induction left generalizing first s with
  | zero => rfl
  | succ left ih =>
    have hcolon : ':' ∈ ['.', ':', '0'] := by simp
    have hipv4 := blind_readSeparator hf hcolon first (blind_readIpv4Addr hf) s
    have hnumber := blind_readSeparator hf hcolon first
      (blind_readNumber hf 16 (some 4) true (2^16)) s
    unfold readGroups
    rw [hipv4, hnumber]
    have hfour : (if 1 ≤ left then (readSeparator ':' first readIpv4Addr s).map (fun r => (r.1, r.2.map f))
        else none) =
        (if 1 ≤ left then readSeparator ':' first readIpv4Addr s else none).map
          (fun r => (r.1, r.2.map f)) := by
      split <;> rfl
    rw [hfour]
    cases (if 1 ≤ left then readSeparator ':' first readIpv4Addr s else none) with
    | some r => rfl
    | none =>
      cases readSeparator ':' first (readNumber 16 (some 4) true (2^16)) s with
      | none => rfl
      | some r =>
        dsimp only [Option.map_some, Option.map_none]
        rw [ih]

include hf in
theorem blind_readIpv6Addr : Blind f readIpv6Addr := by
  intro s
  have hcolon := blind_readGivenChar hf (m := ':') (by simp)
  have hcolons : Blind f (do readGivenChar ':'; readGivenChar ':' : Parser Unit) :=
    hcolon.bind (fun _ => hcolon)
  unfold readIpv6Addr
  rw [readGroups_map hf]
  dsimp only
  split
  · rfl
  split
  · rfl
  · rw [hcolons]
    cases (do readGivenChar ':'; readGivenChar ':' : Parser Unit) (readGroups 8 true s).2 with
    | none => rfl
    | some r =>
      obtain ⟨⟨⟩, s'⟩ := r
      dsimp only [Option.map_some]
      rw [readGroups_map hf]

include hf in
theorem blind_readIpAddr : Blind f readIpAddr := by
  intro s
  have h₄ : Blind f (IpAddr.v4 <$> readIpv4Addr : Parser IpAddr) :=
    (blind_readIpv4Addr hf).bind (fun _ => .pure _)
  have h₆ : Blind f (IpAddr.v6 <$> readIpv6Addr : Parser IpAddr) :=
    (blind_readIpv6Addr hf).bind (fun _ => .pure _)
  unfold readIpAddr
  rw [h₄, h₆]
  cases (IpAddr.v4 <$> readIpv4Addr : Parser IpAddr) s <;> rfl

end

end AddrParser

theorem parse_respelled {f : Char → Char} (hf : AddrParser.Respells f) (cs : List Char) :
    IpAddr.parse (String.ofList (cs.map f)) = IpAddr.parse (String.ofList cs) := by
  unfold IpAddr.parse AddrParser.parseWith
  rw [String.toList_ofList, String.toList_ofList, AddrParser.blind_readIpAddr hf]
  cases AddrParser.readIpAddr cs with
  | none => rfl
  | some r =>
    obtain ⟨a, rest⟩ := r
    cases rest <;> rfl

end CtAgent.Lib
