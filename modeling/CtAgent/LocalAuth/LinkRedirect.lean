import CtAgent.Forward.Target
import CtAgent.Lib.Url
import CtAgent.LocalAuth.HeadLines
import CtAgent.LocalAuth.ShareLinks

/-! The redirect that answers a share link in the URL: what is left of the target behind it, the lines
it is made of, and where a browser goes with it. -/
namespace CtAgent.LocalAuth
open CtAgent.Lib CtAgent.Codec CtAgent.Forward CtAgent.Lib.Url

/-- The target up to its first `?`. -/
def targetPath (target : String) : String := ((splitOnce '?' target).map Prod.fst).getD target

/-- The parameters of the query that are not empty, as they are spelled. -/
def targetParams (target : String) : List String :=
  match splitOnce '?' target with
  | none => []
  | some (_, query) => ((query.toList.splitOn '&').map String.ofList).filter (· ≠ "")

def paramKey (pair : String) : String := ((splitOnce '=' pair).getD (pair, "")).1

/-- What the redirect keeps of the query. -/
def keptParams (target : String) : List String :=
  (targetParams target).filter (fun pair => paramKey pair ≠ linkQueryParam)

/-- A path with the parameters behind it. -/
def joinTarget (path : String) (params : List String) : String :=
  let query := "&".intercalate params
  if params = [] then path else s!"{path}?{query}"

/-- One slash, and no second one of either kind. -/
def sameOriginPath (location : String) : Bool :=
  location.startsWith "/" && !location.startsWith "//" && !location.startsWith "/\\"

def asciiControlOrSpace (c : Char) : Bool := c.toNat ≤ 0x20 || c.toNat == 0x7f

/-- The controls behind ASCII, U+0080 to U+009F. -/
def isLateControl (c : Char) : Bool := 0x80 ≤ c.toNat && c.toNat ≤ 0x9F

/-- The path the redirect names. -/
def safeLocation (location : String) : String :=
  if !sameOriginPath location || (utf8 location).any (fun b => b < 0x20 || b == 0x7f || b == 0x20) then "/"
  else location

def redirectLines (location session : String) (maxAgeSecs : ℕ) : List String :=
  ["HTTP/1.1 302 Found",
    s!"Location: {location}",
    s!"Set-Cookie: {linkCookieName}={session}; Path=/; HttpOnly; Secure; SameSite=Lax; Max-Age={maxAgeSecs}",
    "Cache-Control: no-store",
    "Content-Length: 0",
    "Connection: close"]

theorem http302LinkRedirect_eq (location session : String) (maxAgeSecs : ℕ) :
    http302LinkRedirect location session maxAgeSecs =
      utf8 ("\r\n".intercalate (redirectLines (safeLocation location)
        (if looksLikeLinkToken session then session else "") maxAgeSecs ++ ["", ""])) := rfl

/-- What is left of `target` has no token and all the rest, and `response` is six lines that send the
browser to the same host. -/
structure RedirectsHome {H : Type*} (parseHost : List Char → Option H) (target stripped : String)
    (response : Bytes) : Prop where
  token_gone : linkTokenInTarget stripped = none
  path_kept : targetPath stripped = targetPath target
  params_kept : targetParams stripped = keptParams target
  six_lines : ∃ session maxAgeSecs,
    response = utf8 ("\r\n".intercalate
      (redirectLines (safeLocation stripped) session maxAgeSecs ++ ["", ""])) ∧
    ∀ line ∈ redirectLines (safeLocation stripped) session maxAgeSecs, ∀ c ∈ line.toList, isControl c = false
  same_host : ∀ base : List Char × H, base.1 = "https".toList →
    hostOf parseHost (some base) (safeLocation stripped).toList = some base.2

/-- The parts of the target that the redirect is made of. -/
def keptParts (target : String) : List String := targetPath target :: keptParams target

/-- No control behind ASCII is kept, or the target is no path of this origin anyway. -/
def Redirectable (target : String) : Prop :=
  (∀ part ∈ keptParts target, ∀ c ∈ part.toList, isLateControl c = false) ∨
    sameOriginPath (targetPath target) = false ∨
    ∃ part ∈ keptParts target, ∃ c ∈ part.toList, asciiControlOrSpace c = true

theorem notMem_of_mem_splitOn {sep : Char} {cs : List Char} : ∀ l ∈ cs.splitOn sep, sep ∉ l := by
  induction cs with
  | nil =>
    intro l hl
    rw [List.splitOn_nil, List.mem_singleton] at hl
    rw [hl]
    exact List.not_mem_nil
  | cons c cs ih =>
    intro l hl
    rw [List.splitOn_cons_eq_if_modifyHead] at hl
    split at hl
    · rcases List.mem_cons.mp hl with rfl | hl
      · exact List.not_mem_nil
      · exact ih l hl
    · rename_i hc
      have hne : sep ≠ c := fun h => hc (by rw [h, beq_self_eq_true])
      cases hsplit : cs.splitOn sep with
      | nil => exact absurd hsplit (List.splitOn_ne_nil sep cs)
      | cons front rest =>
        rw [hsplit] at hl ih
        rcases List.mem_cons.mp hl with rfl | hl
        · intro hm
          rcases List.mem_cons.mp hm with h | h
          · exact hne h
          · exact ih front List.mem_cons_self h
        · exact ih l (List.mem_cons_of_mem front hl)

theorem splitOnce_eq_none {sep : Char} {s : String} : splitOnce sep s = none ↔ sep ∉ s.toList := by
  unfold splitOnce
  dsimp only
  rw [ite_eq_right_iff]
  constructor
  · intro h hm
    have hfront : ¬ (s.toList.takeWhile (· ≠ sep)).length < s.toList.length := fun hlt => absurd (h hlt) nofun
    have hall : s.toList.takeWhile (· ≠ sep) = s.toList :=
      (List.takeWhile_prefix _).eq_of_length_le (Nat.le_of_not_lt hfront)
    exact notMem_takeWhile_ne s.toList (by rw [hall]; exact hm)
  · intro h hlt
    have hall : s.toList.takeWhile (· ≠ sep) = s.toList :=
      List.takeWhile_eq_self_iff.mpr fun c hc => decide_eq_true (fun hsep => h (hsep ▸ hc))
    rw [hall] at hlt
    exact absurd hlt (Nat.lt_irrefl _)

section
variable {target path : String} {params : List String}

theorem targetPath_clean (target : String) : '?' ∉ (targetPath target).toList := by
  unfold targetPath
  cases h : splitOnce '?' target with
  | none => exact splitOnce_eq_none.mp h
  | some parts => exact (splitOnce_eq_some.mp h).1

theorem keptParams_clean : ∀ pair ∈ keptParams target,
    '&' ∉ pair.toList ∧ pair ≠ "" ∧ paramKey pair ≠ linkQueryParam := by
  intro pair hpair
  obtain ⟨hparam, hkey⟩ := List.mem_filter.mp hpair
  unfold targetParams at hparam
  split at hparam
  · exact absurd hparam List.not_mem_nil
  · obtain ⟨hsplit, hne⟩ := List.mem_filter.mp hparam
    obtain ⟨l, hl, rfl⟩ := List.mem_map.mp hsplit
    refine ⟨?_, of_decide_eq_true hne, of_decide_eq_true hkey⟩
    rw [String.toList_ofList]
    exact notMem_of_mem_splitOn l hl

/-- A path with nothing behind it is cut nowhere, and one with parameters in front of them. -/
theorem splitOnce_joinTarget (hpath : '?' ∉ path.toList) :
    splitOnce '?' (joinTarget path params) =
      if params = [] then none else some (path, "&".intercalate params) := by
  unfold joinTarget
  dsimp only
  split
  · exact splitOnce_eq_none.mpr hpath
  · rw [splitOnce_eq_some]
    refine ⟨hpath, ?_⟩
    simp [toString, String.toList_append]

/-- The query of a joined target is cut into the parameters again. -/
theorem splitOn_joined (hne : params ≠ []) (hclean : ∀ pair ∈ params, '&' ∉ pair.toList) :
    (("&".intercalate params).toList.splitOn '&').map String.ofList = params := by
  rw [String.toList_intercalate]
  have hsplit : (['&'].intercalate (params.map String.toList)).splitOn '&' = params.map String.toList := by
    apply List.splitOn_intercalate
    · intro l hl
      obtain ⟨pair, hpair, rfl⟩ := List.mem_map.mp hl
      exact hclean pair hpair
    · exact fun h => hne (List.map_eq_nil_iff.mp h)
  change ((['&'].intercalate (params.map String.toList)).splitOn '&').map String.ofList = params
  rw [hsplit, List.map_map]
  have hid : String.ofList ∘ String.toList = id := funext fun s => String.ofList_toList
  rw [hid, List.map_id]

theorem joinTarget_toList (hne : params ≠ []) :
    (joinTarget path params).toList = path.toList ++ '?' :: ("&".intercalate params).toList := by
  unfold joinTarget
  dsimp only
  rw [if_neg hne]
  simp [toString, String.toList_append]

theorem targetPath_joinTarget (hpath : '?' ∉ path.toList) : targetPath (joinTarget path params) = path := by
  unfold targetPath
  rw [splitOnce_joinTarget hpath]
  split
  · rename_i hnil
    rw [hnil]
    rfl
  · rfl

theorem targetParams_joinTarget (hpath : '?' ∉ path.toList)
    (hclean : ∀ pair ∈ params, '&' ∉ pair.toList ∧ pair ≠ "") :
    targetParams (joinTarget path params) = params := by
  unfold targetParams
  rw [splitOnce_joinTarget hpath]
  by_cases hne : params = []
  · rw [if_pos hne, hne]
  · rw [if_neg hne]
    dsimp only
    rw [splitOn_joined hne (fun pair hpair => (hclean pair hpair).1)]
    exact List.filter_eq_self.mpr fun pair hpair => decide_eq_true (hclean pair hpair).2

/-- A target gives a token away only in one of its parameters. -/
theorem linkTokenInTarget_joinTarget (hpath : '?' ∉ path.toList)
    (hclean : ∀ pair ∈ params, '&' ∉ pair.toList ∧ pair ≠ "" ∧ paramKey pair ≠ linkQueryParam) :
    linkTokenInTarget (joinTarget path params) = none := by
  unfold linkTokenInTarget
  rw [splitOnce_joinTarget hpath]
  by_cases hne : params = []
  · rw [if_pos hne]
    rfl
  · rw [if_neg hne]
    dsimp only [Option.bind_eq_bind, Option.bind_some]
    rw [splitOn_joined hne (fun pair hpair => (hclean pair hpair).1)]
    have hnone : (params.map fun pair => (pair, (splitOnce '=' pair).getD (pair, ""))).find?
        (fun p => p.2.1 == linkQueryParam) = none := by
      rw [List.find?_eq_none]
      intro p hp
      obtain ⟨pair, hpair, rfl⟩ := List.mem_map.mp hp
      have hkey := (hclean pair hpair).2.2
      simpa [paramKey] using hkey
    rw [hnone]
    rfl

/-- A parameter with its key and its value. -/
def keyed (pair : String) : String × String × String := (pair, (splitOnce '=' pair).getD (pair, ""))

theorem filter_keyed (pairs : List String) :
    ((pairs.map keyed).filter (fun p => p.2.1 ≠ linkQueryParam ∧ p.1 ≠ "")).map Prod.fst =
      (pairs.filter (· ≠ "")).filter (fun pair => paramKey pair ≠ linkQueryParam) := by
  have hid : Prod.fst ∘ keyed = id := rfl
  rw [List.filter_map, List.map_map, hid, List.map_id, List.filter_filter]
  apply List.filter_congr
  intro pair _
  rw [Bool.eq_iff_iff, Bool.and_eq_true]
  constructor
  · intro h
    obtain ⟨hkey, hne⟩ := of_decide_eq_true h
    exact ⟨decide_eq_true hkey, decide_eq_true hne⟩
  · intro h
    exact decide_eq_true ⟨of_decide_eq_true h.1, of_decide_eq_true h.2⟩

/-- The stripped target is the path with the kept parameters. -/
theorem linkTokenInTarget_stripped {token stripped : String}
    (h : linkTokenInTarget target = some (token, stripped)) :
    stripped = joinTarget (targetPath target) (keptParams target) := by
  unfold linkTokenInTarget at h
  cases hsplit : splitOnce '?' target with
  | none =>
    rw [hsplit] at h
    exact absurd h nofun
  | some parts =>
    obtain ⟨path, query⟩ := parts
    rw [hsplit] at h
    simp only [Option.bind_eq_bind, Option.bind_some] at h
    obtain ⟨t, ht, hrest⟩ := Option.bind_eq_some_iff.mp h
    obtain ⟨-, rfl⟩ := Prod.mk.inj (Option.some.inj hrest)
    have hkept : keptParams target = ((((query.toList.splitOn '&').map String.ofList).map keyed).filter
        (fun p => p.2.1 ≠ linkQueryParam ∧ p.1 ≠ "")).map Prod.fst := by
      rw [filter_keyed]
      unfold keptParams targetParams
      rw [hsplit]
    unfold joinTarget
    rw [hkept]
    unfold keyed
    have hp : targetPath target = path := by
      unfold targetPath
      rw [hsplit]
      rfl
    rw [hp]

theorem any_joined {p : Char → Bool} (ha : p '&' = false) :
    ("&".intercalate params).toList.any p = params.any (fun part => part.toList.any p) := by
  induction params with
  | nil => rfl
  | cons pair params ih =>
    cases params with
    | nil => simp
    | cons next params =>
      have hcons : ("&".intercalate (pair :: next :: params)).toList =
          pair.toList ++ '&' :: ("&".intercalate (next :: params)).toList := by
        rw [String.intercalate_cons_cons, String.toList_append, String.toList_append, List.append_assoc]
        rfl
      rw [hcons, List.any_append, List.any_cons, ha, Bool.false_or, ih, List.any_cons (a := pair)]

/-- The characters of a joined target are those of its parts, and what stands between them. -/
theorem any_joinTarget {p : Char → Bool} (hq : p '?' = false) (ha : p '&' = false) :
    (joinTarget path params).toList.any p = (path :: params).any (fun part => part.toList.any p) := by
  by_cases hne : params = []
  · subst hne
    simp [joinTarget]
  · rw [joinTarget_toList hne, List.any_append, List.any_cons, hq, Bool.false_or, any_joined ha, List.any_cons]

theorem sameOriginPath_iff (s : String) : sameOriginPath s = true ↔
    s.toList.head? = some '/' ∧ ∀ c ∈ s.toList[1]?, isSlash c = false := by
  have h1 : "/".toList = ['/'] := rfl
  have h2 : "//".toList = ['/', '/'] := rfl
  have h3 : "/\\".toList = ['/', '\\'] := rfl
  unfold sameOriginPath
  simp only [Bool.and_eq_true, Bool.not_eq_true', Bool.eq_false_iff, ne_eq,
    String.startsWith_string_iff, h1, h2, h3]
  cases s.toList with
  | nil => simp
  | cons c cs =>
    simp only [List.cons_prefix_cons, List.nil_prefix, and_true, List.head?_cons, Option.some.injEq,
      List.getElem?_cons_succ]
    cases cs with
    | nil => simp [eq_comm (a := c)]
    | cons d cs =>
      simp only [List.cons_prefix_cons, List.nil_prefix, and_true, List.getElem?_cons_zero,
        Option.mem_some_iff, forall_eq', isSlash, Bool.or_eq_true, beq_iff_eq]
      grind

/-- Whether a target is a path of the origin is read off its path. -/
theorem sameOriginPath_joinTarget : sameOriginPath (joinTarget path params) = sameOriginPath path := by
  by_cases hne : params = []
  · subst hne
    simp [joinTarget]
  · rw [Bool.eq_iff_iff, sameOriginPath_iff, sameOriginPath_iff, joinTarget_toList hne]
    cases path.toList with
    | nil => simp
    | cons c cs =>
      cases cs with
      | nil => simp [isSlash]
      | cons d cs => simp

end

theorem any_asciiControlOrSpace (s : String) :
    (utf8 s).any (fun b => b < 0x20 || b == 0x7f || b == 0x20) = s.toList.any asciiControlOrSpace := by
  have hutf8 : utf8 s = s.toList.flatMap String.utf8EncodeChar := by
    rw [← utf8_ofList, String.ofList_toList]
  rw [hutf8, List.any_flatMap]
  apply congrArg (s.toList.any ·)
  funext c
  by_cases hc : c.val.toNat ≤ 0x7f
  · rw [utf8EncodeChar_ascii hc, List.any_cons, List.any_nil, Bool.or_false]
    have hn : c.toNat ≤ 0x7f := hc
    have hb : (UInt8.ofNat c.toNat).toNat = c.toNat := by
      rw [UInt8.toNat_ofNat']
      omega
    unfold asciiControlOrSpace
    rw [Bool.eq_iff_iff]
    simp only [Bool.or_eq_true, decide_eq_true_iff, beq_iff_eq, UInt8.lt_iff_toNat_lt, ← UInt8.toNat_inj]
    change (((UInt8.ofNat c.toNat).toNat < 32 ∨ (UInt8.ofNat c.toNat).toNat = 127) ∨
      (UInt8.ofNat c.toNat).toNat = 32) ↔ _
    rw [hb]
    omega
  · have hhigh : 0x7f < c.toNat := Nat.lt_of_not_le hc
    have hright : asciiControlOrSpace c = false := by
      unfold asciiControlOrSpace
      rw [Bool.or_eq_false_iff, decide_eq_false_iff_not, beq_eq_false_iff_ne]
      omega
    rw [hright, List.any_eq_false]
    intro b hb
    have hge := high_of_mem_utf8EncodeChar (Nat.lt_of_not_le hc) hb
    simp only [Bool.or_eq_true, decide_eq_true_iff, beq_iff_eq, UInt8.lt_iff_toNat_lt, ← UInt8.toNat_inj]
    change ¬ ((b.toNat < 32 ∨ b.toNat = 127) ∨ b.toNat = 32)
    omega

/-- The redirect names the target, unless it is no path of this origin or has a control in it. -/
theorem safeLocation_eq (location : String) :
    safeLocation location =
      if sameOriginPath location = true ∧ location.toList.any asciiControlOrSpace = false
        then location else "/" := by
  unfold safeLocation
  rw [any_asciiControlOrSpace]
  cases sameOriginPath location <;> cases location.toList.any asciiControlOrSpace <;> rfl

theorem isControl_token {c : Char} (h : isTokenChar c = true) : isControl c = false := by
  have hrange : 45 ≤ c.toNat ∧ c.toNat ≤ 122 := by
    have halpha : c.isAlpha = (c.isUpper || c.isLower) := rfl
    have hupper : c.isUpper = decide (c.val ≥ 'A'.val ∧ c.val ≤ 'Z'.val) := rfl
    have hlower : c.isLower = (decide (c.val ≥ 'a'.val) && decide (c.val ≤ 'z'.val)) := rfl
    simp only [isTokenChar, Char.isAlphanum, halpha, hupper, hlower, Char.isDigit, Bool.or_eq_true,
      Bool.and_eq_true, decide_eq_true_eq, beq_iff_eq, ge_iff_le, UInt32.le_iff_toNat_le] at h
    change ((((65 ≤ c.toNat ∧ c.toNat ≤ 90) ∨ 97 ≤ c.toNat ∧ c.toNat ≤ 122) ∨ 48 ≤ c.toNat ∧ c.toNat ≤ 57) ∨
      c = '-') ∨ c = '_' at h
    rcases h with (h | rfl) | rfl
    · omega
    · decide
    · decide
  unfold isControl
  rw [Bool.or_eq_false_iff, Bool.and_eq_false_iff, decide_eq_false_iff_not, decide_eq_false_iff_not,
    decide_eq_false_iff_not]
  omega

theorem isControl_digits (n : ℕ) : (toString n).toList.any isControl = false := by
  rw [List.any_eq_false]
  intro c hc
  have hdigit : c.isDigit = true := by
    apply Nat.isDigit_of_mem_toDigits (b := 10) (n := n) (by decide) (by decide)
    simpa [toString, Nat.repr] using hc
  rw [isControl_token (by rw [isTokenChar, Char.isAlphanum, hdigit, Bool.or_true]; rfl)]
  exact Bool.false_ne_true

/-- A control in the lines is one of the location or of the session. -/
theorem redirectLines_control (location session : String) (maxAgeSecs : ℕ) :
    (redirectLines location session maxAgeSecs).any (fun line => line.toList.any isControl) =
      (location.toList.any isControl || session.toList.any isControl) := by
  have hlocation : ("Location: " ++ location).toList.any isControl = location.toList.any isControl := by
    rw [String.toList_append, List.any_append]
    rfl
  have hcookie : ("Set-Cookie: " ++ linkCookieName ++ "=" ++ session ++
      "; Path=/; HttpOnly; Secure; SameSite=Lax; Max-Age=" ++ toString maxAgeSecs).toList.any isControl =
        session.toList.any isControl := by
    simp only [String.toList_append, List.any_append, isControl_digits, Bool.or_false]
    exact Bool.or_false _
  calc (redirectLines location session maxAgeSecs).any (fun line => line.toList.any isControl)
    _ = (false || (("Location: " ++ location).toList.any isControl ||
          (("Set-Cookie: " ++ linkCookieName ++ "=" ++ session ++
            "; Path=/; HttpOnly; Secure; SameSite=Lax; Max-Age=" ++ toString maxAgeSecs).toList.any isControl
              ||
          false))) := rfl
    _ = (location.toList.any isControl || session.toList.any isControl) := by
      rw [hlocation, hcookie, Bool.or_false, Bool.false_or]

theorem redirectLines_clean (location session : String) (maxAgeSecs : ℕ) :
    (∀ line ∈ redirectLines location session maxAgeSecs, ∀ c ∈ line.toList, isControl c = false) ↔
      location.toList.any isControl = false ∧ session.toList.any isControl = false := by
  rw [← Bool.or_eq_false_iff, ← redirectLines_control location session maxAgeSecs]
  simp only [List.any_eq_false, List.any_eq_true, not_exists, not_and, Bool.not_eq_true]

/-- What the cookie is set to has no control in it. -/
theorem session_clean (session : String) :
    (if looksLikeLinkToken session then session else "").toList.any isControl = false := by
  split
  · rename_i h
    obtain ⟨-, htoken⟩ := Bool.and_eq_true_iff.mp h
    rw [List.any_eq_false]
    intro c hc
    rw [isControl_token (List.all_eq_true.mp htoken c hc)]
    exact Bool.false_ne_true
  · rfl

theorem redirect_same_host {H : Type*} (parseHost : List Char → Option H) (base : List Char × H)
    (location : String) : hostOf parseHost (some base) (safeLocation location).toList = some base.2 := by
  rw [safeLocation_eq]
  split
  · rename_i h
    obtain ⟨hfirst, hsecond⟩ := (sameOriginPath_iff location).mp h.1
    apply hostOf_path parseHost hfirst hsecond
    apply clean_eq_self
    intro c hc
    have hno := List.any_eq_false.mp h.2 c hc
    unfold isC0OrSpace
    unfold asciiControlOrSpace at hno
    simp only [Bool.or_eq_true, not_or, decide_eq_true_eq] at hno
    exact decide_eq_false hno.1
  · exact hostOf_path parseHost rfl nofun (by decide)

theorem isControl_eq {c : Char} (h : asciiControlOrSpace c = false) : isControl c = isLateControl c := by
  unfold asciiControlOrSpace at h
  rw [Bool.or_eq_false_iff, decide_eq_false_iff_not, beq_eq_false_iff_ne] at h
  unfold isControl isLateControl
  rw [Bool.eq_iff_iff]
  simp only [Bool.or_eq_true, Bool.and_eq_true, decide_eq_true_eq]
  omega

/-- The location has a control in it where the second block got into a path of this origin. -/
theorem safeLocation_control (location : String) :
    (safeLocation location).toList.any isControl = false ↔
      location.toList.any isLateControl = false ∨ sameOriginPath location = false ∨
        location.toList.any asciiControlOrSpace = true := by
  rw [safeLocation_eq]
  split
  · rename_i h
    obtain ⟨horigin, hascii⟩ := h
    have hsame : location.toList.any isControl = location.toList.any isLateControl := by
      rw [Bool.eq_iff_iff, List.any_eq_true, List.any_eq_true]
      apply exists_congr
      intro c
      apply and_congr_right
      intro hc
      rw [isControl_eq (Bool.eq_false_iff.mpr (List.any_eq_false.mp hascii c hc))]
    rw [hsame, horigin, hascii]
    simp
  · rename_i h
    constructor
    · intro _
      cases horigin : sameOriginPath location with
      | false => exact Or.inr (Or.inl rfl)
      | true => exact Or.inr (Or.inr (Bool.eq_true_of_not_eq_false fun hascii => h ⟨horigin, hascii⟩))
    · exact fun _ => rfl

theorem redirectable_iff (target : String) :
    Redirectable target ↔
      (safeLocation (joinTarget (targetPath target) (keptParams target))).toList.any isControl = false := by
  rw [safeLocation_control, sameOriginPath_joinTarget, any_joinTarget rfl rfl, any_joinTarget rfl rfl]
  unfold Redirectable keptParts
  simp only [List.any_eq_true, List.any_eq_false, not_exists, not_and, Bool.not_eq_true]

theorem redirectsHome_iff {H : Type*} (parseHost : List Char → Option H) (target session : String)
    (maxAgeSecs : ℕ) :
    let stripped := joinTarget (targetPath target) (keptParams target)
    RedirectsHome parseHost target stripped (http302LinkRedirect stripped session maxAgeSecs) ↔
      Redirectable target := by
  intro stripped
  have hpath := targetPath_clean target
  rw [redirectable_iff]
  constructor
  · intro h
    obtain ⟨_, _, -, hlines⟩ := h.six_lines
    exact ((redirectLines_clean _ _ _).mp hlines).1
  · intro hclean
    refine ⟨linkTokenInTarget_joinTarget hpath keptParams_clean, targetPath_joinTarget hpath,
      targetParams_joinTarget hpath ?_, ?_, fun base _ => redirect_same_host parseHost base stripped⟩
    · exact fun pair hpair => ⟨(keptParams_clean pair hpair).1, (keptParams_clean pair hpair).2.1⟩
    · refine ⟨if looksLikeLinkToken session then session else "", maxAgeSecs, http302LinkRedirect_eq _ _ _, ?_⟩
      exact (redirectLines_clean _ _ _).mpr ⟨hclean, session_clean session⟩

/-- A redirect answers a token in the target. -/
theorem checkShareLinkAt_redirect {sha256 : Bytes → Vector UInt8 32} {g : LocalAuthGate}
    {now checkedAt recordedAt : ℕ} {fault : Option StoreFault} {secret : Secret} {request response : Bytes}
    {id : String}
    (h : (g.checkShareLinkAt sha256 now checkedAt recordedAt fault secret request).1 = .redirect response id) :
    ∃ head token stripped, parseRequestHead request = some head ∧
      linkTokenInTarget head.target = some (token, stripped) ∧
      ∃ session maxAgeSecs, response = http302LinkRedirect stripped session maxAgeSecs := by
  unfold LocalAuthGate.checkShareLinkAt at h
  split at h
  · exact absurd h nofun
  · exact absurd h nofun
  rename_i file head hlinks hhead
  dsimp only at h
  cases htoken : linkTokenInTarget head.target with
  | none =>
    -- a token of a cookie leaves no target behind
    rw [htoken] at h
    dsimp only at h
    split at h
    · exact absurd h nofun
    · rename_i hcookie
      obtain ⟨_, -, hnone⟩ := Option.map_eq_some_iff.mp hcookie
      obtain ⟨-, rfl, rfl⟩ := hnone
      split at h
      · exact absurd h nofun
      · split at h
        · exact absurd h nofun
        · exact absurd h nofun
  | some found =>
    obtain ⟨token, stripped⟩ := found
    refine ⟨head, token, stripped, hhead, htoken, ?_⟩
    rw [htoken] at h
    dsimp only at h
    split at h
    · exact absurd h nofun
    split at h
    · exact absurd h nofun
    rename_i redeemed file' hredeem
    cases hsession : redeemed.session with
    | none =>
      rw [hsession] at h
      exact absurd h nofun
    | some session =>
      rw [hsession] at h
      exact ⟨session, redeemed.remainingSecs, (LinkGateVerdict.redirect.inj h).1.symm⟩

/-- The redirect keeps all but the token and stays on its host; a control of the second block is the
one that comes through it. -/
theorem share_link_redirect_iff {H : Type*} (parseHost : List Char → Option H)
    (sha256 : Bytes → Vector UInt8 32) (g : LocalAuthGate) (now checkedAt recordedAt : ℕ)
    (fault : Option StoreFault) (secret : Secret) (request response : Bytes) (id : String)
    (h : (g.checkShareLinkAt sha256 now checkedAt recordedAt fault secret request).1 = .redirect response id) :
    ∃ head token stripped, parseRequestHead request = some head ∧
      linkTokenInTarget head.target = some (token, stripped) ∧
      (RedirectsHome parseHost head.target stripped response ↔ Redirectable head.target) := by
  obtain ⟨head, token, stripped, hhead, htoken, session, maxAgeSecs, hresponse⟩ := checkShareLinkAt_redirect h
  refine ⟨head, token, stripped, hhead, htoken, ?_⟩
  rw [hresponse, linkTokenInTarget_stripped htoken]
  exact redirectsHome_iff parseHost head.target session maxAgeSecs

/-- The hash of the sample histories, on bytes. -/
def sampleSha256 (bytes : Bytes) : Vector UInt8 32 := sampleHash ((ofUtf8 bytes).getD "")

/-- A gate with the link that `sampleMint` makes. -/
def sampleGate : LocalAuthGate := ⟨none, .new, .new, (sampleState [sampleMint]).file⟩

/-- A request for `path` with the token of that link. -/
def sampleRequest (path : String) : Bytes :=
  utf8 (s!"GET {path}?x=1&ct_link=" ++ secretToken (sampleSecret 1) ++ " HTTP/1.1\r\n\r\n")

def sampleVerdict (path : String) : LinkGateVerdict :=
  (sampleGate.checkShareLinkAt sampleSha256 200 200 200 none (sampleSecret 2) (sampleRequest path)).1

theorem share_link_redirect_sample :
    sampleVerdict "/a" =
      .redirect (http302LinkRedirect "/a?x=1" (secretToken (sampleSecret 2)) 900) "070707070707" ∧
    ∃ head token stripped, parseRequestHead (sampleRequest "/a") = some head ∧
      linkTokenInTarget head.target = some (token, stripped) ∧
      (RedirectsHome some head.target stripped
        (http302LinkRedirect "/a?x=1" (secretToken (sampleSecret 2)) 900) ↔ Redirectable head.target) := by
  have hverdict : sampleVerdict "/a" =
      .redirect (http302LinkRedirect "/a?x=1" (secretToken (sampleSecret 2)) 900) "070707070707" := by
    decide +kernel
  exact ⟨hverdict, share_link_redirect_iff some sampleSha256 sampleGate 200 200 200 none (sampleSecret 2)
    (sampleRequest "/a") _ _ hverdict⟩

/-- U+0085 of the path stands in the location. -/
theorem redirect_sends_control_back :
    ∃ head token stripped response,
      sampleVerdict "/\u0085" = .redirect response "070707070707" ∧
      parseRequestHead (sampleRequest "/\u0085") = some head ∧
      linkTokenInTarget head.target = some (token, stripped) ∧
      ¬ RedirectsHome some head.target stripped response := by
  let token := secretToken (sampleSecret 1)
  let target := "/\u0085?x=1&ct_link=" ++ token
  let response := http302LinkRedirect "/\u0085?x=1" (secretToken (sampleSecret 2)) 900
  refine ⟨⟨"GET", target, []⟩, token, "/\u0085?x=1", response, by decide +kernel, by decide +kernel,
    by decide +kernel, ?_⟩
  intro h
  obtain ⟨_, _, -, hlines⟩ := h.six_lines
  have hclean := ((redirectLines_clean _ _ _).mp hlines).1
  exact absurd hclean (by decide +kernel)

end CtAgent.LocalAuth
