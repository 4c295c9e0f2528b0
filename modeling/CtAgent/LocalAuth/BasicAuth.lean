import CtAgent.HexSpelling
import CtAgent.Lib.Base64
import CtAgent.Lib.Trim
import CtAgent.Forward.Target
import CtAgent.LocalAuth.HeadLines

/-! A credential on its way from `local-auth set` through the stored line and the Basic header back to
the comparison: which user names survive it. -/
namespace CtAgent.LocalAuth
open CtAgent.Lib CtAgent.Codec CtAgent.Forward

/-- `str::splitn` at one character. -/
def splitN (sep : Char) : ℕ → String → List String
  | 0, _ => []
  | 1, s => [s]
  | n + 2, s =>
    match splitOnce sep s with
    | some (part, rest) => part :: splitN sep (n + 1) rest
    | none => [s]

def hexDecodeFixed (n : ℕ) (s : String) : Except String (Vector UInt8 n) :=
  let digits := n * 2
  let len := strLen s
  match hexVector n s with
  | some v => .ok v
  | none => .error s!"expected {digits} hex chars, got {len}"

/-- `username:salt_hex:hash_hex`. -/
def StoredCredential.serialize (c : StoredCredential) : String :=
  let salt := hexEncode c.salt.toList
  let hash := hexEncode c.hash.toList
  s!"{c.username}:{salt}:{hash}"

def StoredCredential.parse (line : String) : Except String StoredCredential :=
  match splitN ':' 3 (trim line) with
  | [] => .error "missing username field"
  | [_] => .error "missing salt field"
  | [_, _] => .error "missing hash field"
  | username :: saltHex :: hashHex :: _ =>
    match hexDecodeFixed 16 saltHex with
    | .error e => .error s!"invalid salt: {e}"
    | .ok salt =>
      match hexDecodeFixed 32 hashHex with
      | .error e => .error s!"invalid hash: {e}"
      | .ok hash => .ok ⟨username, salt, hash⟩

/-- The gate `from_env` builds where the credential file exists. -/
def LocalAuthGate.fromFile (links : Option LinksFile) (contents : Bytes) : Except String LocalAuthGate :=
  match ofUtf8 contents with
  | none => .error "stream did not contain valid UTF-8"
  | some contents => do
    let credential ← StoredCredential.parse (trim contents)
    return ⟨some credential, .new, .new, links⟩

/-- The first `Authorization` header among the lines behind the request line. A line that is no header
in front of it ends the search. -/
def basicAuthOf : List String → Option (String × Bytes)
  | [] => none
  | line :: lines => do
    let (name, value) ← splitOnce ':' line
    if toAsciiLowercase (trim name) ≠ "authorization" then basicAuthOf lines
    else do
      let b64 ← stripStart "Basic " (trim value)
      let decoded ← Base64.decode b64
      let text ← ofUtf8 decoded
      let (user, pass) ← splitOnce ':' text
      return (user, utf8 pass)

def parseBasicAuth (buf : Bytes) : Option (String × Bytes) := do
  let scan := buf.take maxHeaderBytes
  let endAt ← findSubslice [13, 10, 13, 10] scan
  let head ← ofUtf8 (scan.take endAt)
  basicAuthOf (((splitCrlf head.toList).map String.ofList).drop 1)

section
variable (sha256 : Bytes → Vector UInt8 32)

def StoredCredential.new (salt : Vector UInt8 16) (username : String) (password : Bytes) : StoredCredential :=
  ⟨username, salt, hashCredential sha256 salt password⟩

/-- What `set_credential` writes to the file. -/
def setCredential (salt : Vector UInt8 16) (username password : String) : Bytes :=
  utf8 (StoredCredential.new sha256 salt username (utf8 password)).serialize

end

/-- A request head with the header `Authorization: Basic <base64 of user:password>`, and what follows
the head. -/
structure AuthHead (user password : String) where
  requestLine : Bytes
  front : List Bytes
  name : List Char
  left : List Char
  right : List Char
  back : List Bytes
  rest : Bytes
  named : name.map lowerChar = "authorization".toList
  spaced : ∀ c ∈ left ++ right, c = ' ' ∨ c = '\t'
  whole : ∀ line ∈ requestLine :: (front ++ back), IsLine line
  first : ∀ line n v, utf8 line ∈ front → splitOnce ':' line = some (n, v) →
    toAsciiLowercase (trim n) ≠ "authorization"

namespace AuthHead

variable {user password : String}

/-- `username:password`. -/
def pairText (user password : String) : String := String.ofList (user.toList ++ ':' :: password.toList)

def basic (user password : String) : List Char :=
  "Basic ".toList ++ (Base64.encode (utf8 (pairText user password))).toList

def authLine (h : AuthHead user password) : List Char :=
  h.name ++ ':' :: (h.left ++ basic user password ++ h.right)

def lines (h : AuthHead user password) : List Bytes :=
  h.requestLine :: (h.front ++ utf8 (String.ofList h.authLine) :: h.back)

def bytes (h : AuthHead user password) : Bytes := joinLines h.lines ++ ([13, 10, 13, 10] ++ h.rest)

/-- A head within the bound, of UTF-8, with a colon in every line up to the credentials. -/
structure Readable (h : AuthHead user password) : Prop where
  fits : (joinLines h.lines).length + 4 ≤ maxHeaderBytes
  text : ∀ line ∈ h.lines, (ofUtf8 line).isSome = true
  colons : ∀ line ∈ h.front, (58 : UInt8) ∈ line

end AuthHead

/-- A user name that the stored line gives back. -/
def Storable (username : String) : Prop :=
  ':' ∉ username.toList ∧ ∀ c ∈ username.toList.head?, isWhiteSpace c = false

theorem hex_solid {bytes : Bytes} : ∀ c ∈ (hexEncode bytes).toList, (nibble c).isSome = true :=
  nibble_of_spells (spells_hexEncode bytes)

theorem hex_colon (bytes : Bytes) : ':' ∉ (hexEncode bytes).toList := by
  intro h
  exact absurd (hex_solid ':' h) (by decide)

theorem splitOnce_append {sep : Char} {front back : List Char} (h : sep ∉ front) :
    splitOnce sep (String.ofList (front ++ sep :: back)) = some (String.ofList front, String.ofList back) := by
  rw [splitOnce_eq_some]
  simp only [String.toList_ofList]
  exact ⟨h, trivial⟩

theorem hexDecodeFixed_hexEncode {n : ℕ} (v : Vector UInt8 n) :
    hexDecodeFixed n (hexEncode v.toList) = .ok v := by
  have h : hexVector n (hexEncode v.toList) = some v := hexVector_iff.mpr (spells_hexEncode _)
  unfold hexDecodeFixed
  simp only [h]

theorem hexDecodeFixed_colon {n : ℕ} {s : String} (h : ':' ∈ s.toList) :
    ∃ e, hexDecodeFixed n s = .error e := by
  unfold hexDecodeFixed
  cases hv : hexVector n s with
  | none => exact ⟨_, rfl⟩
  | some v =>
    have hsome := nibble_of_spells (hexVector_iff.mp hv) ':' h
    exact absurd hsome (by decide)

section
variable {c : StoredCredential}

theorem serialize_toList (c : StoredCredential) : c.serialize.toList =
    c.username.toList ++ ':' :: ((hexEncode c.salt.toList).toList ++
      ':' :: (hexEncode c.hash.toList).toList) := by
  simp only [StoredCredential.serialize, String.toList_append, List.append_assoc]
  rfl

/-- Trimming the stored line takes the white space in front of the user name with it, and no more. -/
theorem trim_serialize (c : StoredCredential) : trim c.serialize =
    String.ofList (c.username.toList.dropWhile isWhiteSpace ++
      ':' :: ((hexEncode c.salt.toList).toList ++ ':' :: (hexEncode c.hash.toList).toList)) := by
  apply String.toList_inj.mp
  rw [trim_toList, serialize_toList, String.toList_ofList]
  have hblank := blank_takeWhile c.username.toList
  conv_lhs => rw [← List.takeWhile_append_dropWhile (p := isWhiteSpace) (l := c.username.toList),
    List.append_assoc]
  rw [trimChars_blank_append hblank]
  apply trimChars_tight
  · intro x hx
    have hnot := List.head?_dropWhile_not isWhiteSpace c.username.toList
    cases hd : c.username.toList.dropWhile isWhiteSpace with
    | nil =>
      rw [hd] at hx
      obtain rfl := Option.some.inj hx
      decide
    | cons y ys =>
      rw [hd] at hx hnot
      obtain rfl := Option.some.inj hx
      exact hnot
  · intro x hx
    have hlen : (hexEncode c.hash.toList).toList.length = 2 * 32 := by
      rw [length_of_spells (spells_hexEncode _)]
      simp
    have hmem : x ∈ (hexEncode c.hash.toList).toList := by
      cases hl : (hexEncode c.hash.toList).toList with
      | nil => rw [hl] at hlen; exact absurd hlen (by decide)
      | cons y ys =>
        rw [hl] at hx
        have hlast : (c.username.toList.dropWhile isWhiteSpace ++
            ':' :: ((hexEncode c.salt.toList).toList ++ ':' :: y :: ys)).getLast? = (y :: ys).getLast? := by
          simp [List.getLast?_append, List.getLast?_cons]
        rw [hlast] at hx
        exact List.mem_of_mem_getLast? hx
    exact nibble_solid (hex_solid x hmem)

/-- Where the user name has no colon, the line gives it back without the white space in front. -/
theorem parse_serialize {c : StoredCredential} (h : ':' ∉ c.username.toList) :
    StoredCredential.parse c.serialize =
      .ok { c with username := String.ofList (c.username.toList.dropWhile isWhiteSpace) } := by
  have hname : ':' ∉ c.username.toList.dropWhile isWhiteSpace :=
    fun hm => h ((List.dropWhile_sublist _).subset hm)
  have hsplit : splitN ':' 3 (trim c.serialize) = [String.ofList (c.username.toList.dropWhile isWhiteSpace),
      hexEncode c.salt.toList, hexEncode c.hash.toList] := by
    rw [trim_serialize]
    simp only [splitN, splitOnce_append hname, splitOnce_append (hex_colon _), String.ofList_toList]
  unfold StoredCredential.parse
  simp only [hsplit, hexDecodeFixed_hexEncode]

/-- Where it has one, the line does not parse: a colon is left for the last of the three parts. -/
theorem parse_serialize_colon {c : StoredCredential} (h : ':' ∈ c.username.toList) :
    ∃ e, StoredCredential.parse c.serialize = .error e := by
  have hname : ':' ∈ c.username.toList.dropWhile isWhiteSpace := by
    have hsplit := List.takeWhile_append_dropWhile (p := isWhiteSpace) (l := c.username.toList)
    rw [← hsplit] at h
    exact (List.mem_append.mp h).resolve_left (notMem_blank (by decide) (blank_takeWhile _))
  obtain ⟨first, more, hcut, hfirst⟩ := List.eq_append_cons_of_mem hname
  have hrest : ':' ∈ more ++ ':' :: (hexEncode c.salt.toList).toList := by simp
  obtain ⟨second, more', hcut', hsecond⟩ := List.eq_append_cons_of_mem hrest
  have hsplit : splitN ':' 3 (trim c.serialize) = [String.ofList first, String.ofList second,
      String.ofList (more' ++ ':' :: (hexEncode c.hash.toList).toList)] := by
    have htext : more ++ ':' :: ((hexEncode c.salt.toList).toList ++ ':' :: (hexEncode c.hash.toList).toList)
        = second ++ ':' :: (more' ++ ':' :: (hexEncode c.hash.toList).toList) := by
      rw [← List.cons_append, ← List.append_assoc, hcut', List.append_assoc, List.cons_append]
    rw [trim_serialize, hcut, List.append_assoc, List.cons_append, htext]
    simp only [splitN, splitOnce_append hfirst, splitOnce_append hsecond]
  unfold StoredCredential.parse
  simp only [hsplit]
  cases hexDecodeFixed 16 (String.ofList second) with
  | error e => exact ⟨_, rfl⟩
  | ok salt =>
    obtain ⟨e, he⟩ := hexDecodeFixed_colon (n := 32)
      (s := String.ofList (more' ++ ':' :: (hexEncode c.hash.toList).toList)) (by simp)
    simp only [he]
    exact ⟨_, rfl⟩

/-- The stored line gives the credential back exactly where the name is storable. -/
theorem parse_serialize_iff (c : StoredCredential) :
    StoredCredential.parse c.serialize = .ok c ↔ Storable c.username := by
  constructor
  · intro h
    have hcolon : ':' ∉ c.username.toList := by
      intro hm
      obtain ⟨e, he⟩ := parse_serialize_colon hm
      rw [he] at h
      exact absurd h nofun
    refine ⟨hcolon, ?_⟩
    rw [parse_serialize hcolon] at h
    have hname := congrArg StoredCredential.username (Except.ok.inj h)
    have hsame : c.username.toList.dropWhile isWhiteSpace = c.username.toList := by
      have hlist := congrArg String.toList hname
      rwa [String.toList_ofList] at hlist
    intro x hx
    have hnot := List.head?_dropWhile_not isWhiteSpace c.username.toList
    rw [hsame, hx] at hnot
    exact hnot
  · rintro ⟨hcolon, hfirst⟩
    rw [parse_serialize hcolon]
    have hsame : c.username.toList.dropWhile isWhiteSpace = c.username.toList := by
      cases hl : c.username.toList with
      | nil => rfl
      | cons x xs =>
        rw [hl] at hfirst
        rw [List.dropWhile_cons_of_neg (by simp [hfirst x rfl])]
    rw [hsame, String.ofList_toList]

theorem parse_trim (line : String) : StoredCredential.parse (trim line) = StoredCredential.parse line := by
  have htrim : trim (trim line) = trim line := by
    apply String.toList_inj.mp
    rw [trim_toList, trim_toList, trimChars_trimChars]
  unfold StoredCredential.parse
  rw [htrim]

/-- A gate loads from the file what the line parses to. -/
theorem fromFile_eq (links : Option LinksFile) (line : String) :
    LocalAuthGate.fromFile links (utf8 line) =
      (StoredCredential.parse line).map (fun c => ⟨some c, .new, .new, links⟩) := by
  unfold LocalAuthGate.fromFile
  rw [ofUtf8_utf8]
  simp only [parse_trim]
  cases StoredCredential.parse line with
  | error e => rfl
  | ok c => rfl

end

namespace AuthHead

variable {user password : String} (h : AuthHead user password)

theorem name_notMem {sep : Char} (hsep : lowerChar sep = sep) (hkw : sep ∉ "authorization".toList) :
    sep ∉ h.name := by
  intro hm
  apply hkw
  rw [← h.named, ← hsep]
  exact List.mem_map_of_mem hm

theorem basic_tight : trimChars (basic user password) = basic user password := by
  have hne : utf8 (pairText user password) ≠ [] := by
    intro hnil
    have hmem : ':' ∈ user.toList ++ ':' :: password.toList := by simp
    rw [eq_nil_of_utf8 hnil] at hmem
    exact absurd hmem List.not_mem_nil
  have hcode := Base64.encode_ne_empty hne
  apply trimChars_tight
  · intro c hc
    obtain rfl := Option.some.inj hc
    decide
  · intro c hc
    have hlast : (basic user password).getLast? =
      (Base64.encode (utf8 (pairText user password))).toList.getLast? := by
      unfold basic
      rw [List.getLast?_append]
      cases hl : (Base64.encode (utf8 (pairText user password))).toList.getLast? with
      | none => exact absurd (List.getLast?_eq_none_iff.mp hl) hcode
      | some x => rfl
    rw [hlast] at hc
    have hmem := Base64.mem_encode (List.mem_of_mem_getLast? hc)
    have hall : ('=' :: Base64.alphabet).all (fun c => !isWhiteSpace c) = true := by decide
    simpa using List.all_eq_true.mp hall c hmem

theorem blank_spaces : Blank h.left ∧ Blank h.right := by
  have hspace (c : Char) (hc : c ∈ h.left ++ h.right) : isWhiteSpace c = true := by
    rcases h.spaced c hc with rfl | rfl
    · decide
    · decide
  exact ⟨fun c hc => hspace c (List.mem_append_left _ hc), fun c hc => hspace c (List.mem_append_right _ hc)⟩

/-- The credentials are read off their line, where the first colon is behind the user name. -/
theorem basicAuthOf_authLine (hcolon : ':' ∉ user.toList) (lines : List String) :
    basicAuthOf (String.ofList h.authLine :: lines) = some (user, utf8 password) := by
  have hname : ':' ∉ h.name := h.name_notMem (by decide) (by decide)
  have hsplit : splitOnce ':' (String.ofList h.authLine) =
      some (String.ofList h.name, String.ofList (h.left ++ basic user password ++ h.right)) :=
    splitOnce_append hname
  have hkey : toAsciiLowercase (trim (String.ofList h.name)) = "authorization" := by
    have hsolid : trimChars h.name = h.name := by
      apply trimChars_solid
      intro c hc
      have hmem : lowerChar c ∈ "authorization".toList := h.named ▸ List.mem_map_of_mem hc
      have hall : "authorization".toList.all (fun c => !isWhiteSpace c) = true := by decide
      have hno := List.all_eq_true.mp hall _ hmem
      rw [isWhiteSpace_lowerChar] at hno
      simpa using hno
    apply String.toList_inj.mp
    rw [toAsciiLowercase_toList, trim_toList, String.toList_ofList, hsolid, h.named]
  have hvalue : trim (String.ofList (h.left ++ basic user password ++ h.right)) =
      String.ofList (basic user password) := by
    apply String.toList_inj.mp
    rw [trim_toList, String.toList_ofList, String.toList_ofList]
    exact (trimChars_eq_iff basic_tight).mpr ⟨h.left, h.right, h.blank_spaces.1, h.blank_spaces.2, rfl⟩
  have hstrip : stripStart "Basic " (String.ofList (basic user password)) =
      some (Base64.encode (utf8 (pairText user password))) := by
    have hbasic : (String.ofList (basic user password)).toList =
        "Basic ".toList ++ (Base64.encode (utf8 (pairText user password))).toList := String.toList_ofList
    unfold stripStart
    rw [hbasic, if_pos (List.prefix_append _ _), List.drop_left, String.ofList_toList]
  have hpair : splitOnce ':' (pairText user password) = some (user, password) := by
    unfold pairText
    rw [splitOnce_append hcolon, String.ofList_toList, String.ofList_toList]
  simp only [basicAuthOf, hsplit, hkey, hvalue, hstrip, Base64.decode_encode, ofUtf8_utf8, hpair,
    Option.bind_eq_bind, Option.bind_some, ne_eq, not_true_eq_false, if_false, Option.pure_def]

theorem isLine_authLine : IsLine (utf8 (String.ofList h.authLine)) := by
  have hchar (c : Char) (hc : c = '\r' ∨ c = '\n') : c ∉ h.authLine := by
    have hname : c ∉ h.name := by
      rcases hc with rfl | rfl
      · exact h.name_notMem (by decide) (by decide)
      · exact h.name_notMem (by decide) (by decide)
    have hspace : c ∉ h.left ++ h.right := by
      intro hm
      rcases hc with rfl | rfl
      · exact (h.spaced _ hm).elim nofun nofun
      · exact (h.spaced _ hm).elim nofun nofun
    have hcode : c ∉ (Base64.encode (utf8 (pairText user password))).toList := by
      intro hm
      have hmem := Base64.mem_encode hm
      rcases hc with rfl | rfl
      · exact absurd hmem (by decide)
      · exact absurd hmem (by decide)
    have hrest : c ≠ ':' ∧ c ∉ "Basic ".toList := by
      rcases hc with rfl | rfl
      · decide
      · decide
    simp only [List.mem_append, not_or] at hspace
    simp only [authLine, basic, List.mem_append, List.mem_cons, not_or]
    exact ⟨hname, hrest.1, ⟨hspace.1, hrest.2, hcode⟩, hspace.2⟩
  refine ⟨?_, ?_, ?_⟩
  · intro hnil
    have hmem : ':' ∈ h.authLine := by simp [authLine]
    rw [eq_nil_of_utf8 hnil] at hmem
    exact absurd hmem List.not_mem_nil
  · exact fun hm => hchar '\r' (Or.inl rfl) ((mem_utf8_ascii (c := '\r') (by decide)).mp hm)
  · exact fun hm => hchar '\n' (Or.inr rfl) ((mem_utf8_ascii (c := '\n') (by decide)).mp hm)

theorem isLine_lines : ∀ line ∈ h.lines, IsLine line := by
  intro line hm
  simp only [lines, List.mem_cons, List.mem_append] at hm
  rcases hm with rfl | hm | rfl | hm
  · exact h.whole _ List.mem_cons_self
  · exact h.whole _ (List.mem_cons_of_mem _ (List.mem_append_left _ hm))
  · exact h.isLine_authLine
  · exact h.whole _ (List.mem_cons_of_mem _ (List.mem_append_right _ hm))

theorem lines_ne_nil : h.lines ≠ [] := List.cons_ne_nil _ _

/-- A head that does not end within the bound offers nothing. -/
theorem parseBasicAuth_long (hlong : ¬ (joinLines h.lines).length + 4 ≤ maxHeaderBytes) :
    parseBasicAuth h.bytes = none := by
  have hend := findSubslice_head h.lines_ne_nil h.isLine_lines h.rest
  have hcut := findSubslice_take hend maxHeaderBytes
  have hfour : ([13, 10, 13, 10] : Bytes).length = 4 := rfl
  rw [hfour, if_neg hlong] at hcut
  unfold parseBasicAuth bytes
  simp only [hcut, Option.bind_eq_bind, Option.bind_none]

theorem parseBasicAuth_short (hfits : (joinLines h.lines).length + 4 ≤ maxHeaderBytes) :
    parseBasicAuth h.bytes = (ofUtf8 (joinLines h.lines)).bind
      (fun head => basicAuthOf (((splitCrlf head.toList).map String.ofList).drop 1)) := by
  have hend := findSubslice_head h.lines_ne_nil h.isLine_lines h.rest
  have hcut := findSubslice_take hend maxHeaderBytes
  have hfour : ([13, 10, 13, 10] : Bytes).length = 4 := rfl
  rw [hfour, if_pos hfits] at hcut
  have hhead : (List.take maxHeaderBytes h.bytes).take (joinLines h.lines).length = joinLines h.lines := by
    unfold bytes
    rw [List.take_take, Nat.min_eq_left (by omega), List.take_left]
  unfold parseBasicAuth
  unfold bytes at hhead ⊢
  simp only [hcut, hhead, Option.bind_eq_bind, Option.bind_some]

/-- A text of lines is read as these. -/
theorem parseBasicAuth_text (hfits : (joinLines h.lines).length + 4 ≤ maxHeaderBytes)
    {parts : List (List Char)} (hparts : h.lines = parts.map (fun line => utf8 (String.ofList line))) :
    parseBasicAuth h.bytes = basicAuthOf ((parts.map String.ofList).drop 1) := by
  have hne : parts ≠ [] := by
    rintro rfl
    exact List.cons_ne_nil _ _ hparts
  have hplain : ∀ line ∈ parts, '\r' ∉ line := by
    intro line hm hr
    have hline := h.isLine_lines (utf8 (String.ofList line)) (by rw [hparts]; exact List.mem_map_of_mem hm)
    exact hline.2.1 ((mem_utf8_ascii (c := '\r') (by decide)).mpr hr)
  rw [h.parseBasicAuth_short hfits, hparts, ← utf8_joinChars, ofUtf8_utf8, Option.bind_some,
    String.toList_ofList,
    splitCrlf_joinChars hne hplain]

/-- Lines in front of the credentials with a colon are passed over. -/
theorem basicAuthOf_front {front : List (List Char)} (hcolon : ':' ∉ user.toList)
    (hcolons : ∀ line ∈ front, ':' ∈ line)
    (hfirst : ∀ line ∈ front, ∀ n v, splitOnce ':' (String.ofList line) = some (n, v) →
      toAsciiLowercase (trim n) ≠ "authorization") (back : List String) :
    basicAuthOf (front.map String.ofList ++ String.ofList h.authLine :: back) =
      some (user, utf8 password) := by
  induction front with
  | nil => exact h.basicAuthOf_authLine hcolon back
  | cons line front ih =>
    obtain ⟨n, v, rfl, hn⟩ := List.eq_append_cons_of_mem (hcolons line List.mem_cons_self)
    have hsplit : splitOnce ':' (String.ofList (n ++ ':' :: v)) = some (String.ofList n, String.ofList v) :=
      splitOnce_append hn
    have hother := hfirst _ List.mem_cons_self _ _ hsplit
    have hrest := ih (fun l hl => hcolons l (List.mem_cons_of_mem _ hl))
      (fun l hl => hfirst l (List.mem_cons_of_mem _ hl))
    simp only [List.map_cons, List.cons_append, basicAuthOf, hsplit, Option.bind_eq_bind,
      Option.bind_some, ne_eq,
      hother, not_false_eq_true, if_true, hrest]

/-- One without a colon ends the search. -/
theorem basicAuthOf_stray {front : List (List Char)} {line : List Char} (hm : line ∈ front)
    (hline : ':' ∉ line)
    (hfirst : ∀ line ∈ front, ∀ n v, splitOnce ':' (String.ofList line) = some (n, v) →
      toAsciiLowercase (trim n) ≠ "authorization") (rest : List String) :
    basicAuthOf (front.map String.ofList ++ rest) = none := by
  induction front with
  | nil => exact absurd hm List.not_mem_nil
  | cons next front ih =>
    rw [List.map_cons, List.cons_append, basicAuthOf]
    cases hsplit : splitOnce ':' (String.ofList next) with
    | none => rfl
    | some nv =>
      obtain ⟨n, v⟩ := nv
      have hother := hfirst _ List.mem_cons_self _ _ hsplit
      have hne : line ≠ next := by
        rintro rfl
        obtain ⟨-, htext⟩ := splitOnce_eq_some.mp hsplit
        rw [String.toList_ofList] at htext
        exact hline (by rw [htext]; simp)
      have hmem := (List.mem_cons.mp hm).resolve_left hne
      simp only [Option.bind_eq_bind, Option.bind_some, ne_eq, hother, not_false_eq_true, if_true]
      exact ih hmem (fun l hl => hfirst l (List.mem_cons_of_mem _ hl))

theorem exists_parts {lines : List Bytes} (h : ∀ line ∈ lines, (ofUtf8 line).isSome = true) :
    ∃ parts : List (List Char), lines = parts.map (fun line => utf8 (String.ofList line)) := by
  induction lines with
  | nil => exact ⟨[], rfl⟩
  | cons line lines ih =>
    obtain ⟨parts, rfl⟩ := ih (fun l hl => h l (List.mem_cons_of_mem line hl))
    obtain ⟨text, htext⟩ := Option.isSome_iff_exists.mp (h line List.mem_cons_self)
    refine ⟨text.toList :: parts, ?_⟩
    rw [List.map_cons, String.ofList_toList, utf8_of_ofUtf8 htext]

/-- The lines of a text, with those in front of the credentials apart. -/
theorem lines_parts {parts : List (List Char)}
    (hparts : h.lines = parts.map (fun line => utf8 (String.ofList line))) :
    ∃ front : List (List Char), ∃ back, (parts.map String.ofList).drop 1 = front.map String.ofList ++
      String.ofList h.authLine :: back ∧
      h.front = front.map (fun line => utf8 (String.ofList line)) := by
  obtain ⟨request, rest, rfl, -, hrest⟩ := List.map_eq_cons_iff.mp hparts.symm
  obtain ⟨front, tail, rfl, hfront, htail⟩ := List.map_eq_append_iff.mp hrest
  obtain ⟨line, back, rfl, hline, -⟩ := List.map_eq_cons_iff.mp htail
  refine ⟨front, back.map String.ofList, ?_, hfront.symm⟩
  rw [List.map_cons, List.drop_succ_cons, List.drop_zero, List.map_append, List.map_cons, utf8_injective hline]

/-- With a user name that has no colon, a head offers its credentials exactly where it is readable. -/
theorem parseBasicAuth_iff (hcolon : ':' ∉ user.toList) :
    parseBasicAuth h.bytes = some (user, utf8 password) ↔ h.Readable := by
  by_cases hfits : (joinLines h.lines).length + 4 ≤ maxHeaderBytes
  · by_cases htext : ∀ line ∈ h.lines, (ofUtf8 line).isSome = true
    · obtain ⟨parts, hparts⟩ := exists_parts htext
      obtain ⟨front, back, hdrop, hfront⟩ := h.lines_parts hparts
      have hfirst : ∀ line ∈ front, ∀ n v, splitOnce ':' (String.ofList line) = some (n, v) →
          toAsciiLowercase (trim n) ≠ "authorization" := by
        intro line hm n v hsplit
        exact h.first _ n v (by rw [hfront]; exact List.mem_map_of_mem hm) hsplit
      rw [h.parseBasicAuth_text hfits hparts, hdrop]
      have hbyte (line : List Char) : (58 : UInt8) ∈ utf8 (String.ofList line) ↔ ':' ∈ line :=
        mem_utf8_ascii (c := ':') (by decide)
      by_cases hcolons : ∀ line ∈ front, ':' ∈ line
      · rw [h.basicAuthOf_front hcolon hcolons hfirst]
        refine iff_of_true rfl ⟨hfits, htext, ?_⟩
        intro line hm
        rw [hfront] at hm
        obtain ⟨chars, hchars, rfl⟩ := List.mem_map.mp hm
        exact (hbyte chars).mpr (hcolons chars hchars)
      · push Not at hcolons
        obtain ⟨line, hm, hline⟩ := hcolons
        rw [basicAuthOf_stray hm hline hfirst]
        refine iff_of_false nofun ?_
        intro hr
        apply hline
        rw [← hbyte]
        apply hr.colons
        rw [hfront]
        exact List.mem_map_of_mem hm
    · have hnone : ofUtf8 (joinLines h.lines) = none := by
        by_contra hsome
        obtain ⟨text, hs⟩ := Option.ne_none_iff_exists'.mp hsome
        obtain ⟨parts, hparts, -⟩ := ofUtf8_joinLines h.lines_ne_nil hs
        apply htext
        intro line hm
        rw [hparts] at hm
        obtain ⟨chars, -, rfl⟩ := List.mem_map.mp hm
        rw [ofUtf8_utf8]
        rfl
      rw [h.parseBasicAuth_short hfits, hnone]
      exact iff_of_false nofun (fun hr => htext hr.text)
  · rw [h.parseBasicAuth_long hfits]
    exact iff_of_false nofun (fun hr => hfits hr.fits)

end AuthHead

/-- What the operator who set the credential may expect of it. -/
structure LogsIn (sha256 : Bytes → Vector UInt8 32) (salt : Vector UInt8 16) (username password : String)
    (head : AuthHead username password) : Prop where
  parses : StoredCredential.parse (StoredCredential.new sha256 salt username (utf8 password)).serialize =
    .ok (.new sha256 salt username (utf8 password))
  loads : ∀ links, LocalAuthGate.fromFile links (setCredential sha256 salt username password) =
    .ok ⟨some (.new sha256 salt username (utf8 password)), .new, .new, links⟩
  offered : parseBasicAuth head.bytes = some (username, utf8 password)
  accepted : ∀ gate : LocalAuthGate, gate.credential = some (.new sha256 salt username (utf8 password)) →
    ∀ checkedAt recordedAt, gate.limiter.check checkedAt = .allowed →
      (gate.verify sha256 checkedAt recordedAt username (utf8 password)).1 = .ok ()

theorem verify_new (sha256 : Bytes → Vector UInt8 32) (salt : Vector UInt8 16) (username : String)
    (password : Bytes) :
    (StoredCredential.new sha256 salt username password).verify sha256 username password = true := by
  unfold StoredCredential.verify StoredCredential.verifyPassword StoredCredential.new
  rw [if_neg (by simp)]
  exact (ctEq_iff _ _).mpr rfl

/-- A credential that was set can log in exactly where its name has no colon and no white space in
front, and the head that offers it is readable. -/
theorem credential_logs_in_iff (sha256 : Bytes → Vector UInt8 32) (salt : Vector UInt8 16)
    (username password : String) (head : AuthHead username password) :
    LogsIn sha256 salt username password head ↔ Storable username ∧ head.Readable := by
  have hroundtrip := parse_serialize_iff (.new sha256 salt username (utf8 password))
  constructor
  · intro h
    have hname := hroundtrip.mp h.parses
    exact ⟨hname, (head.parseBasicAuth_iff hname.1).mp h.offered⟩
  · rintro ⟨hname, hhead⟩
    refine ⟨hroundtrip.mpr hname, ?_, (head.parseBasicAuth_iff hname.1).mpr hhead, ?_⟩
    · intro links
      rw [setCredential, fromFile_eq, hroundtrip.mpr hname]
      rfl
    · intro gate hgate checkedAt recordedAt hlimiter
      unfold LocalAuthGate.verify LocalAuthGate.attempt
      simp only [hlimiter, hgate, Option.map_some, Option.getD_some, verify_new, if_true]

/-- `GET / HTTP/1.1` with the credentials and nothing else. -/
def plainHead (user password : String) : AuthHead user password where
  requestLine := utf8 "GET / HTTP/1.1"
  front := []
  name := "Authorization".toList
  left := [' ']
  right := []
  back := []
  rest := []
  named := by rfl
  spaced := by
    intro c hc
    rw [List.append_nil, List.mem_singleton] at hc
    exact Or.inl hc
  whole := by
    intro line hm
    rw [List.append_nil, List.mem_singleton] at hm
    subst hm
    exact ⟨by decide, by decide, by decide⟩
  first := fun _ _ _ hm => absurd hm List.not_mem_nil

/-- A name with a colon in it is set without a complaint, and the file does not parse. -/
theorem colon_name_locked_out :
    (¬ ∀ sha256 salt username password, LogsIn sha256 salt username password (plainHead username password)) ∧
    (∀ sha256 salt links, ∃ e,
      LocalAuthGate.fromFile links (setCredential sha256 salt "ops:oncall" "secret") = .error e) := by
  have hlocked (sha256 : Bytes → Vector UInt8 32) (salt : Vector UInt8 16) (links : Option LinksFile) : ∃ e,
      LocalAuthGate.fromFile links (setCredential sha256 salt "ops:oncall" "secret") = .error e := by
    obtain ⟨e, he⟩ := parse_serialize_colon
      (c := .new sha256 salt "ops:oncall" (utf8 "secret")) (by change ':' ∈ "ops:oncall".toList; decide)
    refine ⟨e, ?_⟩
    rw [setCredential, fromFile_eq, he]
    rfl
  refine ⟨?_, hlocked⟩
  intro h
  have hloads := (h (fun _ => Vector.replicate 32 0) (Vector.replicate 16 0) "ops:oncall" "secret").loads none
  obtain ⟨e, he⟩ := hlocked (fun _ => Vector.replicate 32 0) (Vector.replicate 16 0) none
  rw [he] at hloads
  exact absurd hloads nofun

end CtAgent.LocalAuth
