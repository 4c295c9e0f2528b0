import Mathlib.Data.List.DropRight

/-! How a URL of a special scheme is read: what is removed first, where the authority ends, and what
in it is the host. The parser of a host itself is a parameter. -/
namespace CtAgent.Lib.Url

def isC0OrSpace (c : Char) : Bool := c.toNat ≤ 0x20

def isTabOrNewline (c : Char) : Bool := c == '\t' || c == '\n' || c == '\r'

/-- Both slashes are one in a special URL. -/
def isSlash (c : Char) : Bool := c == '/' || c == '\\'

def endsAuthority (c : Char) : Bool := isSlash c || c == '?' || c == '#'

/-- What the parser sees of its input. -/
def clean (input : List Char) : List Char :=
  ((input.dropWhile isC0OrSpace).rdropWhile isC0OrSpace).filter (fun c => !isTabOrNewline c)

def isSchemeChar (c : Char) : Bool := c.isAlphanum || c == '+' || c == '-' || c == '.'

/-- The scheme in lower case, and what follows its colon. -/
def scheme (cs : List Char) : Option (List Char × List Char) :=
  let name := cs.takeWhile isSchemeChar
  match name, cs.drop name.length with
  | c :: _, ':' :: rest => if c.isAlpha then some (name.map Char.toLower, rest) else none
  | _, _ => none

/-- The schemes that are read in this way. -/
def specialSchemes : List (List Char) :=
  ["http".toList, "https".toList, "ws".toList, "wss".toList, "ftp".toList]

/-- What stands behind the last `@`. -/
def afterAt (authority : List Char) : List Char := authority.rtakeWhile (· ≠ '@')

/-- Host and port, at the first colon that is in no brackets. -/
def splitPort : Bool → List Char → List Char × Option (List Char)
  | _, [] => ([], none)
  | inside, c :: cs =>
    if c = ':' ∧ inside = false then ([], some cs)
    else
      let inside := if c = '[' then true else if c = ']' then false else inside
      (c :: (splitPort inside cs).1, (splitPort inside cs).2)

/-- A port is missing, empty or a number of 16 bits. -/
def portFits : Option (List Char) → Bool
  | none => true
  | some port =>
    port.all Char.isDigit && decide (port.foldl (fun n c => n * 10 + (c.toNat - 48)) 0 < 65536)

section
variable {H : Type*} (parseHost : List Char → Option H)

def authorityHost (authority : List Char) : Option H :=
  let hostPort := splitPort false (afterAt authority)
  if hostPort.1 = [] then none
  else if portFits hostPort.2 then parseHost hostPort.1
  else none

/-- The authority behind any number of slashes. -/
def behindSlashes (rest : List Char) : Option H :=
  authorityHost parseHost ((rest.dropWhile isSlash).takeWhile (fun c => !endsAuthority c))

/-- A reference without a scheme, against a special base of host `host`. -/
def relativeHost (host : H) : List Char → Option H
  | a :: b :: rest => if isSlash a && isSlash b then behindSlashes parseHost rest else some host
  | _ => some host

/-- The host of a URL; `base` is the scheme and the host it is resolved against. -/
def hostOf (base : Option (List Char × H)) (input : List Char) : Option H :=
  let cs := clean input
  match scheme cs with
  | some (name, rest) =>
    if name ∈ specialSchemes then
      match base with
      | some (baseName, host) =>
        if baseName = name ∧ ¬ "//".toList <+: rest then relativeHost parseHost host rest
        else behindSlashes parseHost rest
      | none => behindSlashes parseHost rest
    else none
  | none => base.bind (fun b => relativeHost parseHost b.2 cs)

/-- A path of the origin stays on it: one slash, then something that is no slash. -/
theorem hostOf_path {base : List Char × H} {path : List Char} (hpath : path.head? = some '/')
    (hsecond : ∀ c ∈ path[1]?, isSlash c = false) (hclean : clean path = path) :
    hostOf parseHost (some base) path = some base.2 := by
  cases path with
  | nil => exact absurd hpath nofun
  | cons a rest =>
    obtain rfl := Option.some.inj hpath
    have hscheme : scheme ('/' :: rest) = none := by
      have hname : ('/' :: rest).takeWhile isSchemeChar = [] := List.takeWhile_cons_of_neg (by decide)
      unfold scheme
      rw [hname]
    unfold hostOf
    rw [hclean]
    simp only [hscheme, Option.bind_some]
    cases rest with
    | nil => rfl
    | cons b rest =>
      have hb : isSlash b = false := hsecond b rfl
      simp only [relativeHost, hb, Bool.and_false, Bool.false_eq_true, if_false]

end

theorem not_tab {c : Char} (h : isC0OrSpace c = false) : isTabOrNewline c = false := by
  apply Bool.eq_false_iff.mpr
  intro ht
  simp only [isTabOrNewline, Bool.or_eq_true, beq_iff_eq] at ht
  rcases ht with (rfl | rfl) | rfl
  · exact absurd h (by decide)
  · exact absurd h (by decide)
  · exact absurd h (by decide)

theorem clean_eq_self {cs : List Char} (h : ∀ c ∈ cs, isC0OrSpace c = false) : clean cs = cs := by
  have hdrop : cs.dropWhile isC0OrSpace = cs := by
    cases cs with
    | nil => rfl
    | cons c cs => rw [List.dropWhile_cons_of_neg (by simp [h c List.mem_cons_self])]
  have hrdrop : cs.rdropWhile isC0OrSpace = cs := by
    rw [List.rdropWhile_eq_self_iff]
    intro hne
    simp [h _ (List.getLast_mem hne)]
  unfold clean
  rw [hdrop, hrdrop]
  apply List.filter_eq_self.mpr
  intro c hc
  rw [not_tab (h c hc)]
  rfl

/-- `clean` behind a front it leaves alone. -/
def cleanTail (cs : List Char) : List Char := (cs.rdropWhile isC0OrSpace).filter (fun c => !isTabOrNewline c)

theorem rdropWhile_append_cons {p : Char → Bool} {x : Char} (hx : p x = false) (front back : List Char) :
    (front ++ x :: back).rdropWhile p = front ++ x :: back.rdropWhile p := by
  unfold List.rdropWhile
  rw [List.reverse_append, List.reverse_cons, List.append_assoc, List.dropWhile_append]
  split
  · rename_i h
    rw [List.isEmpty_iff.mp h, List.singleton_append,
      List.dropWhile_cons_of_neg (by rw [hx]; exact Bool.false_ne_true)]
    simp
  · simp

/-- A character that stays cuts a text in two that are cleaned on their own. -/
theorem cleanTail_append_cons {x : Char} (hx : isC0OrSpace x = false) (front back : List Char) :
    cleanTail (front ++ x :: back) = front.filter (fun c => !isTabOrNewline c) ++ x :: cleanTail back := by
  unfold cleanTail
  rw [rdropWhile_append_cons hx, List.filter_append, List.filter_cons_of_pos (by rw [not_tab hx]; rfl)]

theorem cleanTail_cons {x : Char} (hx : isC0OrSpace x = false) (rest : List Char) :
    cleanTail (x :: rest) = x :: cleanTail rest := cleanTail_append_cons hx [] rest

theorem cleanTail_append {front : List Char} (h : ∀ c ∈ front, isC0OrSpace c = false) (back : List Char) :
    cleanTail (front ++ back) = front ++ cleanTail back := by
  induction front with
  | nil => rfl
  | cons x front ih =>
    rw [List.cons_append, cleanTail_cons (h x List.mem_cons_self),
      ih fun c hc => h c (List.mem_cons_of_mem x hc),
      List.cons_append]

theorem mem_of_mem_cleanTail {c : Char} {cs : List Char} (h : c ∈ cleanTail cs) : c ∈ cs :=
  (List.rdropWhile_prefix _ _).mem (List.mem_filter.mp h).1

/-- A URL of `http` names the host behind its slashes. -/
theorem hostOf_http {H : Type*} (parseHost : List Char → Option H) (rest : List Char) :
    hostOf parseHost none ("http://".toList ++ rest) = behindSlashes parseHost (cleanTail rest) := by
  have hclean : clean ("http://".toList ++ rest) = "http://".toList ++ cleanTail rest := by
    have hdrop : ("http://".toList ++ rest).dropWhile isC0OrSpace = "http://".toList ++ rest :=
      List.dropWhile_cons_of_neg (by decide)
    change cleanTail (("http://".toList ++ rest).dropWhile isC0OrSpace) = _
    have hplain : "http://".toList.all (fun c => !isC0OrSpace c) = true := by decide
    rw [hdrop]
    exact cleanTail_append (fun c hc => by simpa using List.all_eq_true.mp hplain c hc) rest
  have hscheme : scheme ("http://".toList ++ cleanTail rest) =
    some ("http".toList, "//".toList ++ cleanTail rest) := rfl
  unfold hostOf
  simp only [hclean, hscheme]
  rw [if_pos (by decide)]
  have hslashes : ("//".toList ++ cleanTail rest).dropWhile isSlash = (cleanTail rest).dropWhile isSlash := rfl
  unfold behindSlashes
  rw [hslashes]

section
variable {H : Type*} {parseHost : List Char → Option H} {name : List Char}

theorem splitPort_inside {front : List Char} (h : ']' ∉ front) (back : List Char) :
    (splitPort true (front ++ back)).1 = front ++ (splitPort true back).1 := by
  induction front with
  | nil => rfl
  | cons c front ih =>
    have hc : c ≠ ']' := fun hc => h (hc ▸ List.mem_cons_self)
    have hstep : (splitPort true (c :: (front ++ back))).1 = c :: (splitPort true (front ++ back)).1 := by
      simp [splitPort, hc]
    rw [List.cons_append, hstep, ih fun hm => h (List.mem_cons_of_mem c hm), List.cons_append]

/-- A name without a colon or a bracket ends at the first colon. -/
theorem splitPort_name {front : List Char} (h : ∀ c ∈ front, c ≠ ':' ∧ c ≠ '[') {back : List Char}
    (hback : ∀ c ∈ back.head?, c = ':') : (splitPort false (front ++ back)).1 = front := by
  induction front with
  | nil =>
    cases back with
    | nil => rfl
    | cons c back =>
      obtain rfl := hback c rfl
      rfl
  | cons c front ih =>
    obtain ⟨hcolon, hbracket⟩ := h c List.mem_cons_self
    have hstep : (splitPort false (c :: (front ++ back))).1 = c :: (splitPort false (front ++ back)).1 := by
      simp [splitPort, hcolon, hbracket]
    rw [List.cons_append, hstep, ih fun d hd => h d (List.mem_cons_of_mem c hd)]

theorem afterAt_self {authority : List Char} (h : '@' ∉ authority) : afterAt authority = authority :=
  List.rtakeWhile_eq_self_iff.mpr fun _ hc => decide_eq_true fun hsep => h (hsep ▸ hc)

theorem afterAt_append {authority : List Char} (h : '@' ∉ authority) (front : List Char) :
    afterAt (front ++ '@' :: authority) = authority := by
  have hself := afterAt_self h
  unfold afterAt List.rtakeWhile at hself ⊢
  rw [List.reverse_append, List.reverse_cons, List.append_assoc, List.takeWhile_append_of_pos]
  · rw [List.singleton_append, List.takeWhile_cons_of_neg (by simp), List.append_nil, List.reverse_reverse]
  · intro c hc
    exact decide_eq_true fun hsep => h (hsep ▸ List.mem_reverse.mp hc)

theorem parse_of_authorityHost {authority : List Char} {host : H}
    (h : authorityHost parseHost authority = some host) :
    parseHost (splitPort false (afterAt authority)).1 = some host := by
  unfold authorityHost at h
  dsimp only at h
  split at h
  · exact absurd h nofun
  · split at h
    · exact h
    · exact absurd h nofun

end

end CtAgent.Lib.Url
