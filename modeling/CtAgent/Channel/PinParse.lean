import CtAgent.Channel.JoinPin
import CtAgent.Forward.Target
import CtAgent.HexSpelling
import CtAgent.Lib.Trim

/-! The value of `CT_CHANNEL_PEER_PIN`: what it may spell, and that nothing else is read as a pin or
as none. -/
namespace CtAgent.Channel
open CtAgent.Lib CtAgent.Codec CtAgent.Forward

def peerPinEnv : String := "CT_CHANNEL_PEER_PIN"
def operatorPubkeyEnv : String := "CT_CHANNEL_OPERATOR_PUBKEY"

/-- The two slots of an entry. -/
inductive PinField where
  | holder
  | noise
  deriving DecidableEq, Repr

def PinField.keyword : PinField → String
  | .holder => "holder"
  | .noise => "noise"

def pinField (key : String) : Option PinField :=
  if key = PinField.holder.keyword then some .holder
  else if key = PinField.noise.keyword then some .noise
  else none

/-- The fields of one entry, with the slots filled so far. -/
def parseFields : Option Key → Option Key → List String → Except String (Option Key × Option Key)
  | holder, noise, [] => .ok (holder, noise)
  | holder, noise, field :: fields =>
    match splitOnce ':' field with
    | none => .error s!"`{field}` is neither `holder:<hex>` nor `noise:<hex>`"
    | some (key, value) =>
      let key := toAsciiLowercase (trim key)
      match pinField key with
      | none => .error s!"unknown field `{key}` (only `holder` and `noise`)"
      | some name =>
        let slot := match name with
          | .holder => holder
          | .noise => noise
        if slot.isSome then .error s!"`{key}` is given twice"
        else
          let value := trim value
          let len := strLen value
          let which := if len = 64 then " with a non-hex character in it" else ""
          match hexVector 32 value with
          | none => .error s!"`{key}:` needs a 64-hex public key, got {len} character(s){which}"
          | some k =>
            match name with
            | .holder => parseFields (some k) noise fields
            | .noise => parseFields holder (some k) fields

section
-- whether 32 bytes are an ed25519 public key
variable (isPoint : Key → Bool)

/-- One `holder:<hex>[,noise:<hex>]` entry. -/
def parseEntry (entry : String) : Except String PinnedPeer :=
  if entry = "" then .error "is empty (a stray `;`?)"
  else do
    let fields := (entry.toList.splitOn ',').map (fun field => trim (String.ofList field))
    let (holder, noise) ← parseFields none none fields
    match holder with
    | none => .error "names no `holder:` (a Noise key alone does not name a member)"
    | some holder =>
      if isPoint holder then .ok ⟨holder, noise⟩
      else
        let key := hex holder
        .error s!"`holder:{key}` is not an ed25519 public key (a typo?)"

/-- The entries from the `i`-th on. -/
def parseEntries : ℕ → List String → Except String (List PinnedPeer)
  | _, [] => .ok []
  | i, entry :: entries =>
    match parseEntry isPoint (trim entry) with
    | .error why => .error (s!"{peerPinEnv} entry {i + 1}: {why} (expected `link`, or `holder:<64 " ++
      "hex>[,noise:<64 hex>]` with several entries separated by `;`)")
    | .ok peer => do
      let peers ← parseEntries (i + 1) entries
      return peer :: peers

/-- `PeerPin::from_lookup`, over what the environment has under a name. -/
def PeerPin.fromLookup (env : String → Option String) : Except String (Option PeerPin) :=
  let raw := trim ((env peerPinEnv).getD "")
  if raw = "" then .ok none
  else if toAsciiLowercase raw = "link" then
    match hexVector 32 (trim ((env operatorPubkeyEnv).getD "")) with
    | none => .error (s!"{peerPinEnv}=link needs {operatorPubkeyEnv} (64 hex): the link channel id is " ++
      "derived from the operator key, and that key must not come from the edge")
    | some operator => .ok (some (.link operator))
  else do
    let peers ← parseEntries isPoint 0 ((raw.toList.splitOn ';').map String.ofList)
    return some (.peers peers)

end

/-- A field: keyword and digits in any case, white space around both. -/
def FieldText (field : PinField) (key : Key) (text : List Char) : Prop :=
  ∃ word digits front back, word.map lowerChar = field.keyword.toList ∧ HexSpells digits key.toList ∧
    Padded word front ∧ Padded digits back ∧ text = front ++ ':' :: back

/-- An entry: the holder, and the Noise key where the partner has one, in either order. -/
def EntryText (p : PinnedPeer) (text : List Char) : Prop :=
  match p.noise with
  | none => FieldText .holder p.holder text
  | some noise => ∃ a b, text = a ++ ',' :: b ∧
      ((FieldText .holder p.holder a ∧ FieldText .noise noise b) ∨
        (FieldText .noise noise a ∧ FieldText .holder p.holder b))

/-- A value that lists these partners. -/
def PinText (peers : List PinnedPeer) (text : List Char) : Prop :=
  peers ≠ [] ∧ ∃ entries, List.Forall₂ EntryText peers entries ∧ text = List.intercalate [';'] entries

/-- A value that asks for the other end of the link channel. -/
def LinkText (text : List Char) : Prop := ∃ word, word.map lowerChar = "link".toList ∧ Padded word text

section
variable {word kw digits : List Char} {sep : Char} {key : Key}

theorem word_solid (h : word.map lowerChar = kw) (hkw : kw.all (fun c => !isWhiteSpace c) = true) :
    ∀ c ∈ word, isWhiteSpace c = false := by
  intro c hc
  have hmem : lowerChar c ∈ kw := h ▸ List.mem_map_of_mem hc
  have hno := List.all_eq_true.mp hkw _ hmem
  rw [isWhiteSpace_lowerChar] at hno
  simpa using hno

theorem word_notMem (h : word.map lowerChar = kw) (hsep : lowerChar sep = sep) (hkw : sep ∉ kw) :
    sep ∉ word := by
  intro hm
  apply hkw
  rw [← h, ← hsep]
  exact List.mem_map_of_mem hm

theorem digits_solid (h : HexSpells digits key.toList) : ∀ c ∈ digits, isWhiteSpace c = false :=
  fun c hc => nibble_solid (nibble_of_spells h c hc)

theorem digits_notMem (h : HexSpells digits key.toList) (hsep : nibble sep = none) : sep ∉ digits := by
  intro hm
  have hsome := nibble_of_spells h sep hm
  rw [hsep] at hsome
  exact absurd hsome (by decide)

theorem padded_notMem {body text : List Char} (h : Padded body text) (hsep : isWhiteSpace sep = false)
    (hbody : sep ∉ body) : sep ∉ text := by
  obtain ⟨left, right, hl, hr, rfl⟩ := h
  simp [notMem_blank hsep hl, notMem_blank hsep hr, hbody]

end

theorem keyword_solid (field : PinField) : field.keyword.toList.all (fun c => !isWhiteSpace c) = true := by
  cases field with
  | holder => decide
  | noise => decide

theorem keyword_notMem {sep : Char} (hsep : sep = ':' ∨ sep = ',' ∨ sep = ';') (field : PinField) :
    sep ∉ field.keyword.toList := by
  rcases hsep with rfl | rfl | rfl
  · cases field with
    | holder => decide
    | noise => decide
  · cases field with
    | holder => decide
    | noise => decide
  · cases field with
    | holder => decide
    | noise => decide

theorem pinField_iff (key : String) (field : PinField) : pinField key = some field ↔ key = field.keyword := by
  unfold pinField
  constructor
  · intro h
    split_ifs at h with h1 h2
    · rw [h1, ← Option.some.inj h]
    · rw [h2, ← Option.some.inj h]
  · rintro rfl
    cases field with
    | holder => rfl
    | noise => rfl

/-- What one field names, where it names anything. -/
def readField (field : String) : Option (PinField × Key) := do
  let (key, value) ← splitOnce ':' field
  let name ← pinField (toAsciiLowercase (trim key))
  let k ← hexVector 32 (trim value)
  return (name, k)

/-- Trimming a text first makes no difference to the trimmed sides of its first separator. -/
theorem splitOnce_trim {sep : Char} (hsep : isWhiteSpace sep = false) {s a b : String}
    (h : splitOnce sep s = some (a, b)) :
    ∃ a' b', splitOnce sep (trim s) = some (a', b') ∧ trim a' = trim a ∧ trim b' = trim b := by
  obtain ⟨ha, hs⟩ := splitOnce_eq_some.mp h
  obtain ⟨left, right, hl, hr, hpad⟩ := padded_trimChars s.toList
  have hmem : sep ∈ trimChars s.toList := by
    rw [mem_trimChars hsep, hs]
    simp
  obtain ⟨front, back, hcut, hfront⟩ := List.eq_append_cons_of_mem hmem
  rw [hcut, hs] at hpad
  -- both cuts are at the first separator
  have hsame : a.toList = left ++ front ∧ b.toList = back ++ right := by
    have hnone : sep ∉ left ++ front := by simp [notMem_blank hsep hl, hfront]
    have htext : a.toList ++ sep :: b.toList = (left ++ front) ++ sep :: (back ++ right) := by
      rw [hpad]
      simp
    have hfirst := congrArg (List.takeWhile (· ≠ sep)) htext
    rw [takeWhile_ne_append ha, takeWhile_ne_append hnone] at hfirst
    rw [hfirst] at htext
    exact ⟨hfirst, List.cons_injective (List.append_cancel_left htext)⟩
  refine ⟨String.ofList front, String.ofList back, ?_, ?_, ?_⟩
  · rw [splitOnce_eq_some, String.toList_ofList, String.toList_ofList, trim_toList]
    exact ⟨hfront, hcut⟩
  · apply String.toList_inj.mp
    rw [trim_toList, trim_toList, String.toList_ofList, hsame.1, trimChars_blank_append hl]
  · apply String.toList_inj.mp
    rw [trim_toList, trim_toList, String.toList_ofList, hsame.2, trimChars_append_blank hr]

/-- A field names a key exactly where it spells one. -/
theorem readField_iff (s : String) (field : PinField) (key : Key) :
    readField s = some (field, key) ↔ FieldText field key s.toList := by
  unfold readField
  constructor
  · intro h
    obtain ⟨⟨a, b⟩, hsplit, h⟩ := Option.bind_eq_some_iff.mp h
    obtain ⟨name, hname, h⟩ := Option.bind_eq_some_iff.mp h
    obtain ⟨k, hk, h⟩ := Option.bind_eq_some_iff.mp h
    obtain ⟨rfl, rfl⟩ := Prod.mk.inj (Option.some.inj h)
    obtain ⟨-, hs⟩ := splitOnce_eq_some.mp hsplit
    refine ⟨trimChars a.toList, trimChars b.toList, a.toList, b.toList, ?_, ?_, padded_trimChars _,
      padded_trimChars _, hs⟩
    · have hkw := congrArg String.toList ((pinField_iff _ _).mp hname)
      rwa [toAsciiLowercase_toList, trim_toList] at hkw
    · have hspell := hexVector_iff.mp hk
      rwa [trim_toList] at hspell
  · rintro ⟨word, digits, front, back, hword, hdigits, hfront, hback, hs⟩
    have hcolon : ':' ∉ front :=
      padded_notMem hfront (by decide)
        (word_notMem hword (by decide) (keyword_notMem (Or.inl rfl) field))
    have hsplit : splitOnce ':' s = some (String.ofList front, String.ofList back) := by
      rw [splitOnce_eq_some, String.toList_ofList, String.toList_ofList]
      exact ⟨hcolon, hs⟩
    have hkey : trimChars front = word :=
      (trimChars_eq_iff (trimChars_solid (word_solid hword (keyword_solid field)))).mpr hfront
    have hvalue : trimChars back = digits :=
      (trimChars_eq_iff (trimChars_solid (digits_solid hdigits))).mpr hback
    have hname : pinField (toAsciiLowercase (trim (String.ofList front))) = some field := by
      rw [pinField_iff]
      apply String.toList_inj.mp
      rw [toAsciiLowercase_toList, trim_toList, String.toList_ofList, hkey, hword]
    have hk : hexVector 32 (trim (String.ofList back)) = some key := by
      rw [hexVector_iff, trim_toList, String.toList_ofList, hvalue]
      exact hdigits
    simp only [hsplit, hname, hk, Option.bind_eq_bind, Option.bind_some, Option.pure_def]

theorem readField_trim (s : String) : readField (trim s) = readField s := by
  unfold readField
  cases h : splitOnce ':' s with
  | some ab =>
    obtain ⟨a', b', htrim, ha, hb⟩ := splitOnce_trim (by decide) h
    simp only [htrim, ha, hb, Option.bind_eq_bind, Option.bind_some]
  | none =>
    cases ht : splitOnce ':' (trim s) with
    | none => rfl
    | some ab =>
      -- a separator of the trimmed text is one of the text
      obtain ⟨-, hs⟩ := splitOnce_eq_some.mp ht
      have hmem : ':' ∈ s.toList := by
        rw [← @mem_trimChars s.toList ':' (by decide), ← trim_toList, hs]
        simp
      obtain ⟨front, back, hcut, hfront⟩ := List.eq_append_cons_of_mem hmem
      have hsome : splitOnce ':' s = some (String.ofList front, String.ofList back) := by
        rw [splitOnce_eq_some, String.toList_ofList, String.toList_ofList]
        exact ⟨hfront, hcut⟩
      rw [h] at hsome
      exact absurd hsome nofun

/-- The next field, where it names an open slot and a key. -/
theorem parseFields_cons {holder noise : Option Key} {field : String} {fields : List String}
    {r : Option Key × Option Key} :
    parseFields holder noise (field :: fields) = .ok r ↔
      (∃ k, readField field = some (.holder, k) ∧ holder = none ∧ parseFields (some k) noise fields = .ok r) ∨
      (∃ k, readField field = some (.noise, k) ∧ noise = none ∧
        parseFields holder (some k) fields = .ok r) := by
  unfold readField
  rw [parseFields]
  cases splitOnce ':' field with
  | none => simp
  | some kv =>
    obtain ⟨key, value⟩ := kv
    simp only [Option.bind_eq_bind, Option.bind_some]
    cases pinField (toAsciiLowercase (trim key)) with
    | none => simp
    | some name =>
      simp only [Option.bind_some]
      cases name with
      | holder =>
        cases hexVector 32 (trim value) with
        | none => cases holder <;> simp
        | some k => cases holder <;> simp
      | noise =>
        cases hexVector 32 (trim value) with
        | none => cases noise <;> simp
        | some k => cases noise <;> simp

/-- The fields of an entry fill the holder's slot and perhaps the other one, each once. -/
theorem parseFields_iff {fields : List String} {holder : Key} {noise : Option Key} :
    parseFields none none fields = .ok (some holder, noise) ↔
      (noise = none ∧ ∃ f, fields = [f] ∧ readField f = some (.holder, holder)) ∨
      (∃ n f g, noise = some n ∧ fields = [f, g] ∧
        ((readField f = some (.holder, holder) ∧ readField g = some (.noise, n)) ∨
          (readField f = some (.noise, n) ∧ readField g = some (.holder, holder)))) := by
  -- with both slots filled there is no field left to read
  have hfull (a b : Key) (fs : List String) (r : Option Key × Option Key) :
      parseFields (some a) (some b) fs = .ok r ↔ fs = [] ∧ r = (some a, some b) := by
    cases fs with
    | nil =>
      simp only [parseFields, Except.ok.injEq, true_and]
      exact eq_comm
    | cons f fs =>
      rw [parseFields_cons]
      simp
  constructor
  · intro h
    cases fields with
    | nil => exact absurd h (by simp [parseFields])
    | cons f fs =>
      rcases parseFields_cons.mp h with ⟨k, hf, -, h⟩ | ⟨k, hf, -, h⟩
      · cases fs with
        | nil =>
          obtain ⟨hk, hn⟩ := Prod.mk.inj (Except.ok.inj h)
          rw [← Option.some.inj hk]
          exact Or.inl ⟨hn.symm, f, rfl, hf⟩
        | cons g gs =>
          rcases parseFields_cons.mp h with ⟨k', -, hopen, -⟩ | ⟨k', hg, -, h⟩
          · exact absurd hopen nofun
          · obtain ⟨rfl, hr⟩ := (hfull _ _ _ _).mp h
            obtain ⟨hk, hn⟩ := Prod.mk.inj hr
            rw [← Option.some.inj hk] at hf
            exact Or.inr ⟨k', f, g, hn, rfl, Or.inl ⟨hf, hg⟩⟩
      · cases fs with
        | nil => exact absurd (Except.ok.inj h) nofun
        | cons g gs =>
          rcases parseFields_cons.mp h with ⟨k', hg, -, h⟩ | ⟨k', -, hopen, -⟩
          · obtain ⟨rfl, hr⟩ := (hfull _ _ _ _).mp h
            obtain ⟨hk, hn⟩ := Prod.mk.inj hr
            rw [← Option.some.inj hk] at hg
            exact Or.inr ⟨k, f, g, hn, rfl, Or.inr ⟨hf, hg⟩⟩
          · exact absurd hopen nofun
  · rintro (⟨rfl, f, rfl, hf⟩ | ⟨n, f, g, rfl, rfl, ⟨hf, hg⟩ | ⟨hf, hg⟩⟩)
    · exact parseFields_cons.mpr (Or.inl ⟨holder, hf, rfl, rfl⟩)
    · apply parseFields_cons.mpr
      exact Or.inl ⟨holder, hf, rfl, parseFields_cons.mpr (Or.inr ⟨n, hg, rfl, rfl⟩)⟩
    · apply parseFields_cons.mpr
      exact Or.inr ⟨n, hf, rfl, parseFields_cons.mpr (Or.inl ⟨holder, hg, rfl, rfl⟩)⟩

theorem fieldText_notMem {field : PinField} {key : Key} {text : List Char} {sep : Char}
    (h : FieldText field key text) (hsep : sep = ',' ∨ sep = ';') : sep ∉ text := by
  obtain ⟨word, digits, front, back, hword, hdigits, hfront, hback, rfl⟩ := h
  have hkeyword := keyword_notMem (Or.inr hsep) field
  have hmarks : isWhiteSpace sep = false ∧ lowerChar sep = sep ∧ nibble sep = none ∧ sep ≠ ':' := by
    rcases hsep with rfl | rfl
    · decide
    · decide
  obtain ⟨hwhite, hlower, hnibble, hcolon⟩ := hmarks
  have h1 : sep ∉ front := padded_notMem hfront hwhite (word_notMem hword hlower hkeyword)
  have h2 : sep ∉ back := padded_notMem hback hwhite (digits_notMem hdigits hnibble)
  simp [h1, h2, hcolon]

theorem entryText_notMem {p : PinnedPeer} {text : List Char} (h : EntryText p text) : ';' ∉ text := by
  obtain ⟨holder, noise⟩ := p
  cases noise with
  | none => exact fieldText_notMem h (Or.inr rfl)
  | some n =>
    obtain ⟨a, b, rfl, ⟨ha, hb⟩ | ⟨ha, hb⟩⟩ := h
    · simp [fieldText_notMem ha (Or.inr rfl), fieldText_notMem hb (Or.inr rfl)]
    · simp [fieldText_notMem ha (Or.inr rfl), fieldText_notMem hb (Or.inr rfl)]

theorem fieldText_colon {field : PinField} {key : Key} {text : List Char} (h : FieldText field key text) :
    ':' ∈ text := by
  obtain ⟨word, digits, front, back, -, -, -, -, rfl⟩ := h
  simp

theorem entryText_colon {p : PinnedPeer} {text : List Char} (h : EntryText p text) : ':' ∈ text := by
  obtain ⟨holder, noise⟩ := p
  cases noise with
  | none => exact fieldText_colon h
  | some n =>
    obtain ⟨a, b, rfl, ⟨ha, -⟩ | ⟨ha, -⟩⟩ := h
    · exact List.mem_append_left _ (fieldText_colon ha)
    · exact List.mem_append_left _ (fieldText_colon ha)

/-- The trimmed fields of an entry are those of the trimmed entry. -/
theorem fields_trim (s : String) :
    ((trim s).toList.splitOn ',').map (fun field => trim (String.ofList field)) =
      (s.toList.splitOn ',').map (fun field => trim (String.ofList field)) := by
  have hsep : isWhiteSpace ',' = false := by decide
  have h := splitOn_trimChars hsep s.toList
  have hmap (parts : List (List Char)) :
      parts.map (fun field => trim (String.ofList field)) = (parts.map trimChars).map String.ofList := by
    rw [List.map_map]
    apply List.map_congr_left
    intro field _
    apply String.toList_inj.mp
    rw [trim_toList, String.toList_ofList, Function.comp_apply, String.toList_ofList]
  rw [hmap, hmap, trim_toList, h]

section
variable {isPoint : Key → Bool}

theorem parseEntry_iff_fields (s : String) (p : PinnedPeer) :
    parseEntry isPoint s = .ok p ↔ s ≠ "" ∧ isPoint p.holder = true ∧
      parseFields none none ((s.toList.splitOn ',').map (fun field => trim (String.ofList field)))
        = .ok (some p.holder, p.noise) := by
  unfold parseEntry
  by_cases hs : s = ""
  · simp [hs]
  · rw [if_neg hs]
    dsimp only
    generalize parseFields none none ((s.toList.splitOn ',').map (fun field => trim (String.ofList field))) = r
    cases r with
    | error why => simp [Except.bind, bind]
    | ok r =>
      obtain ⟨holder, noise⟩ := r
      cases holder with
      | none => simp [Except.bind, bind]
      | some k =>
        by_cases hk : isPoint k = true
        · simp only [Except.bind, bind, hk, if_true, Except.ok.injEq, Prod.mk.injEq, Option.some.injEq]
          constructor
          · rintro rfl
            exact ⟨hs, hk, rfl, rfl⟩
          · rintro ⟨-, -, rfl, rfl⟩
            rfl
        · simp only [Except.bind, bind, hk]
          simp only [Bool.false_eq_true, if_false, reduceCtorEq, false_iff, Except.ok.injEq, Prod.mk.injEq,
            Option.some.injEq]
          rintro ⟨-, hp, rfl, -⟩
          exact hk hp

/-- An entry is read exactly where it spells a partner whose holder is a point. -/
theorem parseEntry_iff (s : String) (p : PinnedPeer) :
    parseEntry isPoint (trim s) = .ok p ↔ isPoint p.holder = true ∧ EntryText p s.toList := by
  have hread (field : List Char) : readField (trim (String.ofList field)) = readField (String.ofList field) :=
    readField_trim _
  rw [parseEntry_iff_fields, fields_trim, parseFields_iff]
  obtain ⟨holder, noise⟩ := p
  constructor
  · rintro ⟨-, hpoint, ⟨rfl, f, hf, hr⟩ | ⟨n, f, g, rfl, hfg, hr⟩⟩
    · obtain ⟨field, hfields, rfl⟩ := List.map_eq_singleton_iff.mp hf
      have hs : [','].intercalate (s.toList.splitOn ',') = s.toList := List.intercalate_splitOn ','
      rw [hfields, List.intercalate_singleton] at hs
      rw [hread, readField_iff, String.toList_ofList] at hr
      exact ⟨hpoint, hs ▸ hr⟩
    · obtain ⟨a, rest, hfields, rfl, hrest⟩ := List.map_eq_cons_iff.mp hfg
      obtain ⟨b, rfl, rfl⟩ := List.map_eq_singleton_iff.mp hrest
      have hs : [','].intercalate (s.toList.splitOn ',') = s.toList := List.intercalate_splitOn ','
      rw [hfields] at hs
      simp only [hread, readField_iff, String.toList_ofList] at hr
      exact ⟨hpoint, a, b, by rw [← hs]; simp, hr⟩
  · rintro ⟨hpoint, h⟩
    have hne : trim s ≠ "" := by
      intro he
      have hcolon : ':' ∈ trimChars s.toList := (mem_trimChars (by decide)).mpr (entryText_colon h)
      rw [← trim_toList, he] at hcolon
      exact absurd hcolon List.not_mem_nil
    refine ⟨hne, hpoint, ?_⟩
    cases noise with
    | none =>
      have hcomma : ',' ∉ s.toList := fieldText_notMem h (Or.inl rfl)
      left
      refine ⟨rfl, _, by rw [List.splitOn_eq_singleton hcomma, List.map_singleton], ?_⟩
      rw [hread, readField_iff, String.toList_ofList]
      exact h
    | some n =>
      obtain ⟨a, b, hs, hab⟩ := h
      have hcommas : ',' ∉ a ∧ ',' ∉ b := by
        rcases hab with ⟨ha, hb⟩ | ⟨ha, hb⟩
        · exact ⟨fieldText_notMem ha (Or.inl rfl), fieldText_notMem hb (Or.inl rfl)⟩
        · exact ⟨fieldText_notMem ha (Or.inl rfl), fieldText_notMem hb (Or.inl rfl)⟩
      right
      refine ⟨n, trim (String.ofList a), trim (String.ofList b), rfl, ?_, ?_⟩
      · rw [hs, List.splitOn_append_cons_self_of_not_mem hcommas.1, List.splitOn_eq_singleton hcommas.2]
        rfl
      · simp only [hread, readField_iff, String.toList_ofList]
        exact hab

theorem parseEntries_iff (i : ℕ) (entries : List (List Char)) (peers : List PinnedPeer) :
    parseEntries isPoint i (entries.map String.ofList) = .ok peers ↔
      List.Forall₂ (fun p entry => isPoint p.holder = true ∧ EntryText p entry) peers entries := by
  induction entries generalizing i peers with
  | nil =>
    simp only [List.map_nil, parseEntries, Except.ok.injEq, List.forall₂_nil_right_iff]
    exact eq_comm
  | cons entry entries ih =>
    rw [List.map_cons, parseEntries]
    have hone := @parseEntry_iff isPoint (String.ofList entry)
    simp only [String.toList_ofList] at hone
    cases hp : parseEntry isPoint (trim (String.ofList entry)) with
    | error why =>
      simp only [reduceCtorEq, false_iff]
      intro h
      cases h with
      | cons h1 _ =>
        rw [← hone, hp] at h1
        exact absurd h1 nofun
    | ok p =>
      have hp' := (hone p).mp hp
      cases hrest : parseEntries isPoint (i + 1) (entries.map String.ofList) with
      | error why =>
        simp only [Except.bind, bind, reduceCtorEq, false_iff]
        intro h
        cases h with
        | cons _ h2 =>
          rw [← ih (i + 1), hrest] at h2
          exact absurd h2 nofun
      | ok ps =>
        have hps := (ih (i + 1) ps).mp hrest
        simp only [Except.bind, bind, pure, Except.pure, Except.ok.injEq]
        constructor
        · rintro rfl
          exact .cons hp' hps
        · intro h
          cases h with
          | cons h1 h2 =>
            rw [← hone, hp] at h1
            rw [← ih (i + 1), hrest] at h2
            rw [Except.ok.inj h1, Except.ok.inj h2]

theorem entryText_trim (p : PinnedPeer) (text : List Char) : EntryText p (trimChars text) ↔
    EntryText p text := by
  have h1 := @parseEntry_iff (fun _ => true) (String.ofList text) p
  have h2 := @parseEntry_iff (fun _ => true) (String.ofList (trimChars text)) p
  have htrim : trim (String.ofList (trimChars text)) = trim (String.ofList text) := by
    apply String.toList_inj.mp
    rw [trim_toList, trim_toList, String.toList_ofList, String.toList_ofList, trimChars_trimChars]
  rw [htrim, h1] at h2
  simpa only [true_and, String.toList_ofList] using h2.symm

/-- What lists partners is what its parts between the semicolons spell. -/
theorem pinText_iff (peers : List PinnedPeer) (text : List Char) :
    PinText peers text ↔ List.Forall₂ EntryText peers (text.splitOn ';') := by
  constructor
  · rintro ⟨hne, entries, hall, rfl⟩
    have hlen := hall.length_eq
    have hentries : entries ≠ [] := by
      rintro rfl
      exact hne (List.eq_nil_of_length_eq_zero hlen)
    have hnone : ∀ entry ∈ entries, ';' ∉ entry := by
      clear hne hlen hentries
      induction hall with
      | nil => exact fun entry hmem => absurd hmem List.not_mem_nil
      | cons hp _ ih =>
        intro entry hmem
        rcases List.mem_cons.mp hmem with rfl | hmem
        · exact entryText_notMem hp
        · exact ih entry hmem
    rw [List.splitOn_intercalate ';' hnone hentries]
    exact hall
  · intro hall
    refine ⟨?_, _, hall, (List.intercalate_splitOn ';').symm⟩
    rintro rfl
    exact List.splitOn_ne_nil ';' text (List.forall₂_nil_left_iff.mp hall)

theorem parseEntries_trim (s : String) (peers : List PinnedPeer) :
    parseEntries isPoint 0 (((trim s).toList.splitOn ';').map String.ofList) = .ok peers ↔
      PinText peers s.toList ∧ ∀ p ∈ peers, isPoint p.holder = true := by
  let Reads (p : PinnedPeer) (entry : List Char) : Prop := isPoint p.holder = true ∧ EntryText p entry
  have hpad (entries : List (List Char)) :
      List.Forall₂ Reads peers (entries.map trimChars) ↔ List.Forall₂ Reads peers entries := by
    rw [List.forall₂_map_right_iff]
    constructor
    · exact fun h => h.imp (fun p entry hp => ⟨hp.1, (entryText_trim p entry).mp hp.2⟩)
    · exact fun h => h.imp (fun p entry hp => ⟨hp.1, (entryText_trim p entry).mpr hp.2⟩)
  rw [parseEntries_iff, pinText_iff, trim_toList]
  change List.Forall₂ Reads _ _ ↔ _
  rw [← hpad, splitOn_trimChars (by decide), hpad]
  generalize s.toList.splitOn ';' = entries
  clear hpad
  constructor
  · intro h
    constructor
    · exact h.imp (fun _ _ hp => hp.2)
    · induction h with
      | nil => exact fun p hp => absurd hp List.not_mem_nil
      | cons hp _ ih =>
        intro q hq
        rcases List.mem_cons.mp hq with rfl | hq
        · exact hp.1
        · exact ih q hq
  · rintro ⟨h, hpoints⟩
    induction h with
    | nil => exact .nil
    | cons hp _ ih =>
      exact .cons ⟨hpoints _ List.mem_cons_self, hp⟩ (ih (fun q hq => hpoints q (List.mem_cons_of_mem _ hq)))

end

/-- What the environment has under the name of the pin. -/
def pinValue (env : String → Option String) : List Char := ((env peerPinEnv).getD "").toList

/-- The operator key it has beside it. -/
def operatorKey (env : String → Option String) : Option Key :=
  hexVector 32 (trim ((env operatorPubkeyEnv).getD ""))

theorem pinText_colon {peers : List PinnedPeer} {text : List Char} (h : PinText peers text) : ':' ∈ text := by
  obtain ⟨hne, entries, hall, rfl⟩ := h
  cases hall with
  | nil => exact absurd rfl hne
  | @cons p entry ps entries hp _ =>
    have hcolon := entryText_colon hp
    cases entries with
    | nil => simpa using hcolon
    | cons next entries =>
      rw [List.intercalate_cons_cons]
      simp [hcolon]

theorem linkText_iff (s : String) : toAsciiLowercase (trim s) = "link" ↔ LinkText s.toList := by
  constructor
  · intro h
    refine ⟨trimChars s.toList, ?_, padded_trimChars _⟩
    rw [← trim_toList, ← toAsciiLowercase_toList, h]
  · rintro ⟨word, hword, hpad⟩
    have hsolid := trimChars_solid (word_solid hword (by decide))
    apply String.toList_inj.mp
    rw [toAsciiLowercase_toList, trim_toList, (trimChars_eq_iff hsolid).mpr hpad, hword]

theorem linkText_colon {text : List Char} (h : LinkText text) : ':' ∉ text := by
  obtain ⟨word, hword, hpad⟩ := h
  exact padded_notMem hpad (by decide) (word_notMem hword (by decide) (by decide))

theorem blank_colon {text : List Char} (h : Blank text) : ':' ∉ text := notMem_blank (by decide) h

theorem trim_eq_empty_iff (s : String) : trim s = "" ↔ Blank s.toList := by
  rw [← trimChars_eq_nil_iff, ← trim_toList]
  exact String.toList_eq_nil_iff.symm

section
variable {isPoint : Key → Bool} {env : String → Option String}

theorem fromLookup_none_iff : PeerPin.fromLookup isPoint env = .ok none ↔ Blank (pinValue env) := by
  unfold PeerPin.fromLookup
  rw [pinValue, ← trim_eq_empty_iff]
  dsimp only
  split
  · rename_i h
    simp [h]
  · rename_i h
    simp only [h, iff_false]
    split
    · cases hexVector 32 (trim ((env operatorPubkeyEnv).getD "")) with
      | none => simp
      | some operator => simp
    · cases parseEntries isPoint 0 _ with
      | error why => simp [bind, Except.bind]
      | ok peers => simp [bind, Except.bind, pure, Except.pure]

theorem fromLookup_link_iff {operator : Key} :
    PeerPin.fromLookup isPoint env = .ok (some (.link operator)) ↔
      LinkText (pinValue env) ∧ operatorKey env = some operator := by
  unfold PeerPin.fromLookup
  rw [pinValue, ← linkText_iff, operatorKey]
  dsimp only
  split
  · rename_i h
    simp [h, toAsciiLowercase]
  · split
    · rename_i h
      cases hexVector 32 (trim ((env operatorPubkeyEnv).getD "")) with
      | none => simp
      | some operator => simp [h]
    · rename_i h
      simp only [h, false_and, iff_false]
      cases parseEntries isPoint 0 _ with
      | error why => simp [bind, Except.bind]
      | ok peers => simp [bind, Except.bind, pure, Except.pure]

theorem fromLookup_peers_iff {peers : List PinnedPeer} :
    PeerPin.fromLookup isPoint env = .ok (some (.peers peers)) ↔
      PinText peers (pinValue env) ∧ ∀ p ∈ peers, isPoint p.holder = true := by
  have hcolon : PinText peers (pinValue env) → ':' ∈ pinValue env := pinText_colon
  unfold PeerPin.fromLookup
  rw [pinValue] at hcolon ⊢
  dsimp only
  split
  · rename_i h
    have hblank := (trim_eq_empty_iff _).mp h
    refine iff_of_false (by simp) ?_
    intro hp
    exact blank_colon hblank (hcolon hp.1)
  · split
    · rename_i h
      have hlink := (linkText_iff _).mp h
      refine iff_of_false ?_ ?_
      · cases hexVector 32 (trim ((env operatorPubkeyEnv).getD "")) with
        | none => simp
        | some operator => simp
      · intro hp
        exact linkText_colon hlink (hcolon hp.1)
    · rw [← parseEntries_trim]
      cases parseEntries isPoint 0 _ with
      | error why => simp [bind, Except.bind]
      | ok ps => simp [bind, Except.bind, pure, Except.pure]

/-- Every other value stops the start. -/
theorem fromLookup_error_iff :
    (∃ why, PeerPin.fromLookup isPoint env = .error why) ↔
      ¬ Blank (pinValue env) ∧ (∀ operator, ¬ (LinkText (pinValue env) ∧ operatorKey env = some operator)) ∧
        ∀ peers, ¬ (PinText peers (pinValue env) ∧ ∀ p ∈ peers, isPoint p.holder = true) := by
  simp only [← @fromLookup_none_iff isPoint, ← @fromLookup_link_iff isPoint, ← fromLookup_peers_iff]
  cases PeerPin.fromLookup isPoint env with
  | error why => simp
  | ok pin =>
    cases pin with
    | none => simp
    | some pin =>
      cases pin with
      | link operator => simp
      | peers peers => simp

end

/-- Whether the pin refuses the peer an admission names, read as it came in. -/
def pinRefusesAdmission (common : ChannelCommon) (pin : Option PeerPin) (request : JoinRequest)
    (admission : ChannelJoinOutcome) : Bool :=
  match pin, admission with
  | some pin, .admitted _ (some noise) (some holder) _ =>
    match pin.check common request.channel request.holder holder noise with
    | .ok _ => false
    | .error _ => true
  | _, _ => false

section
variable {common : ChannelCommon} {request : JoinRequest}

theorem admittedPeer_eq {admission : ChannelJoinOutcome} {endpoint : String} {noise holder : Key}
    (h : admittedPeer common request admission = .ok (endpoint, noise, holder)) :
    ∃ attestation, admission = .admitted endpoint (some noise) (some holder) attestation := by
  unfold admittedPeer at h
  split at h
  · exact absurd h nofun
  · exact absurd h nofun
  · split at h
    · exact absurd h nofun
    · exact absurd h nofun
    · exact absurd h nofun
    · rename_i noise' holder' attestation
      split at h
      · obtain ⟨rfl, hkeys⟩ := Prod.mk.inj (Except.ok.inj h)
        obtain ⟨rfl, rfl⟩ := Prod.mk.inj hkeys
        exact ⟨some attestation, rfl⟩
      · exact absurd h nofun

/-- Before and after the attestation check, the pin gives the same verdict. -/
theorem pinRefusesAdmission_iff {pin : Option PeerPin} {admission : ChannelJoinOutcome} {endpoint : String}
    {noise holder : Key} (h : admittedPeer common request admission = .ok (endpoint, noise, holder)) :
    pinRefusesAdmission common pin request admission = true ↔
      ∃ e, checkPeerPin common request pin holder noise = .error e := by
  obtain ⟨attestation, rfl⟩ := admittedPeer_eq h
  cases pin with
  | none => simp [pinRefusesAdmission, checkPeerPin]
  | some pin =>
    simp only [pinRefusesAdmission, checkPeerPin]
    cases pin.check common request.channel request.holder holder noise with
    | ok _ => simp
    | error why => simp

end

/-- Which of the listed partners names the peer is all that counts: not their order or number. -/
theorem checkPeers_mono {holder noise : Key} {pinned pinned' : Option Key} {peers peers' : List PinnedPeer}
    (hsub : ∀ p ∈ peers, p ∈ peers') (h : checkPeers holder noise pinned peers = .ok ()) :
    checkPeers holder noise pinned' peers' = .ok () := by
  obtain ⟨p, hp, hnames⟩ := (checkPeers_ok_iff _ _ _ _).mp h
  exact (checkPeers_ok_iff _ _ _ _).mpr ⟨p, hsub p hp, hnames⟩

/-- The pin's value is read as the partners it lists and nothing else, and its verdict on a peer is
that of the entries for the peer, in any order and on either side of the attestation check. -/
theorem peer_pin_parsed_and_checked (isPoint : Key → Bool) (common : ChannelCommon) :
    (∀ env peers, PeerPin.fromLookup isPoint env = .ok (some (.peers peers)) ↔
      PinText peers (pinValue env) ∧ ∀ p ∈ peers, isPoint p.holder = true) ∧
    (∀ env, (PeerPin.fromLookup isPoint env = .ok none ↔ Blank (pinValue env)) ∧
      ∀ operator, PeerPin.fromLookup isPoint env = .ok (some (.link operator)) ↔
        LinkText (pinValue env) ∧ operatorKey env = some operator) ∧
    (∀ env, (∃ why, PeerPin.fromLookup isPoint env = .error why) ↔
      ¬ Blank (pinValue env) ∧ (∀ operator, ¬ (LinkText (pinValue env) ∧ operatorKey env = some operator)) ∧
        ∀ peers, ¬ (PinText peers (pinValue env) ∧ ∀ p ∈ peers, isPoint p.holder = true)) ∧
    (∀ channel ownHolder holder noise peers,
      PeerPin.check common channel ownHolder holder noise (.peers peers) = .ok () ↔
        ∃ p ∈ peers, p.holder = holder ∧ (p.noise = none ∨ p.noise = some noise)) ∧
    (∀ channel ownHolder holder noise peers peers', (∀ p, p ∈ peers ↔ p ∈ peers') →
      (PeerPin.check common channel ownHolder holder noise (.peers peers) = .ok () ↔
        PeerPin.check common channel ownHolder holder noise (.peers peers') = .ok ())) ∧
    (∀ channel ownHolder holder noise peers peers', (∀ p ∈ peers, p ∈ peers') →
      PeerPin.check common channel ownHolder holder noise (.peers peers) = .ok () →
      PeerPin.check common channel ownHolder holder noise (.peers peers') = .ok ()) ∧
    (∀ pin request admission endpoint noise holder,
      admittedPeer common request admission = .ok (endpoint, noise, holder) →
      (pinRefusesAdmission common pin request admission = true ↔
        ∃ e, checkPeerPin common request pin holder noise = .error e)) := by
  refine ⟨fun env peers => fromLookup_peers_iff,
    fun env => ⟨fromLookup_none_iff, fun operator => fromLookup_link_iff⟩, fun env =>
      fromLookup_error_iff, ?_, ?_, ?_, ?_⟩
  · intro channel ownHolder holder noise peers
    exact checkPeers_ok_iff holder noise none peers
  · intro channel ownHolder holder noise peers peers' hsame
    constructor
    · exact checkPeers_mono (fun p hp => (hsame p).mp hp)
    · exact checkPeers_mono (fun p hp => (hsame p).mpr hp)
  · intro channel ownHolder holder noise peers peers' hsub h
    exact checkPeers_mono hsub h
  · intro pin request admission endpoint noise holder h
    exact pinRefusesAdmission_iff h

/-- A partner that holder 3 attested, against a pin of holder 2. -/
theorem peer_pin_parsed_and_checked_sample :
    pinRefusesAdmission sampleCommon (some (.peers [⟨key 2, none⟩])) ⟨key 9, key 1, 0⟩
        (.admitted "peer" (some (key 4)) (some (key 3)) (some (sampleAttestation 3 4))) = true ↔
      ∃ e, checkPeerPin sampleCommon ⟨key 9, key 1, 0⟩ (some (.peers [⟨key 2, none⟩])) (key 3)
        (key 4) = .error e := by
  have hattested : admittedPeer sampleCommon ⟨key 9, key 1, 0⟩
      (.admitted "peer" (some (key 4)) (some (key 3)) (some (sampleAttestation 3 4))) =
        .ok ("peer", key 4, key 3) := by rfl
  exact (peer_pin_parsed_and_checked (fun _ => true) sampleCommon).2.2.2.2.2.2 _ _ _ _ _ _ hattested

end CtAgent.Channel
