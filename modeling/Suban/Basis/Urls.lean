import Mathlib.Data.List.TakeWhile

namespace Suban.Basis.Urls

def isBlank (c : Char) : Bool := c.toNat ≤ 32

def isSpecial (scheme : String) : Bool :=
  ["ftp", "file", "http", "https", "ws", "wss"].contains scheme

/-- What a URL is parsed with. Where the authority of a URL ends is fixed, but
not what host, with its port, it stands for. In a special URL neither of these ends
in a blank. -/
structure Rules (H : Type) where
  authority : String → List Char → Option H
  authority_blank : ∀ scheme text c, isSpecial scheme = true → isBlank c = true →
    authority scheme (text ++ [c]) = none
  encodePath : Char → List Char
  encodeOpaque : Char → List Char
  encodeQuery : Char → List Char

inductive Path where
  | opaquePath (text : List Char)
  | segments (names : List (List Char))

/-- A URL without its credentials and its fragment. -/
structure Url (H : Type) where
  scheme : String
  host : Option H
  path : Path
  query : Option (List Char)

/-- Blanks at both ends do not count, and tabs and newlines nowhere. -/
def clean (input : List Char) : List Char :=
  ((input.dropWhile isBlank).reverse.dropWhile isBlank).reverse.filter fun c =>
    c ≠ '\t' ∧ c ≠ '\n' ∧ c ≠ '\x0d'

def isSchemeChar (c : Char) : Bool := c.isAlphanum || c = '+' || c = '-' || c = '.'

def splitScheme (text : List Char) : Option (String × List Char) :=
  if (text.headD ':').isAlpha then
    match text.dropWhile isSchemeChar with
    | ':' :: rest => some (String.ofList ((text.takeWhile isSchemeChar).map Char.toLower), rest)
    | _ => none
  else none

def isSlash (special : Bool) (c : Char) : Bool := c = '/' || special && c = '\\'

def endsAuthority (special : Bool) (c : Char) : Bool := isSlash special c || c = '?' || c = '#'

def isDot (segment : List Char) : Bool :=
  [".", "%2e"].contains (String.ofList (segment.map Char.toLower))

def isDoubleDot (segment : List Char) : Bool :=
  ["..", ".%2e", "%2e.", "%2e%2e"].contains (String.ofList (segment.map Char.toLower))

def splitQuery (text : List Char) : List Char × Option (List Char) :=
  let body := text.takeWhile (· ≠ '#')
  (body.takeWhile (· ≠ '?'),
    match body.dropWhile (· ≠ '?') with
    | [] => none
    | _ :: query => some query)

section Parsing

variable {H : Type} (R : Rules H)

def addSegments (names : List (List Char)) : List (List Char) → List (List Char)
  | [] => names
  | segment :: segments =>
    let closing := if segments.isEmpty then [[]] else []
    if isDoubleDot segment then addSegments (names.dropLast ++ closing) segments
    else if isDot segment then addSegments (names ++ closing) segments
    else addSegments (names ++ [segment.flatMap R.encodePath]) segments

def readPath (special : Bool) (names : List (List Char)) (text : List Char) : List (List Char) :=
  match text with
  | [] => if special then addSegments R names [[]] else names
  | c :: cs =>
    if isSlash special c then addSegments R names (cs.splitOnP (isSlash special))
    else addSegments R names (text.splitOnP (isSlash special))

def finish (scheme : String) (host : Option H) (names : List (List Char)) (text : List Char) :
    Url H where
  scheme := scheme
  host := host
  path := .segments (readPath R (isSpecial scheme) names (splitQuery text).1)
  query := (splitQuery text).2.map fun query => query.flatMap R.encodeQuery

def withAuthority (scheme : String) (text : List Char) : Option (Url H) :=
  let inside := fun c => !endsAuthority (isSpecial scheme) c
  (R.authority scheme (text.takeWhile inside)).map fun host =>
    finish R scheme (some host) [] (text.dropWhile inside)

/-- Any number of slashes stands before the authority of a special URL. -/
def dropSlashes (special : Bool) (text : List Char) : List Char :=
  if special then text.dropWhile (isSlash special) else text

variable (base : Url H)

def Path.names : Path → List (List Char)
  | .opaquePath _ => []
  | .segments names => names

def relativePath (text : List Char) : Url H :=
  match text with
  | [] => base
  | c :: _ =>
    if isSlash (isSpecial base.scheme) c then finish R base.scheme base.host [] text
    else if c = '#' then base
    else if c = '?' then
      { base with query := (splitQuery text).2.map fun query => query.flatMap R.encodeQuery }
    else finish R base.scheme base.host base.path.names.dropLast text

def relative (text : List Char) : Option (Url H) :=
  match text with
  | a :: b :: rest =>
    if isSlash (isSpecial base.scheme) a ∧ isSlash (isSpecial base.scheme) b then
      withAuthority R base.scheme (dropSlashes (isSpecial base.scheme) rest)
    else some (relativePath R base text)
  | _ => some (relativePath R base text)

/-- A file URL. Drive letters are not told from other names. -/
def fileUrl (base : Option (Url H)) (text : List Char) : Option (Url H) :=
  match text, base.filter fun b => b.scheme = "file" with
  | a :: b :: rest, base =>
    if isSlash true a ∧ isSlash true b then withAuthority R "file" rest
    else
      match base with
      | some base => some (relativePath R base text)
      | none => (R.authority "file" []).map fun host => finish R "file" (some host) [] text
  | _, some base => some (relativePath R base text)
  | _, none => (R.authority "file" []).map fun host => finish R "file" (some host) [] text

def withScheme (base : Option (Url H)) (scheme : String) (rest : List Char) : Option (Url H) :=
  if scheme = "file" then fileUrl R base rest
  else if isSpecial scheme then
    match base.filter fun b => b.scheme = scheme with
    | some base => relative R base rest
    | none => withAuthority R scheme (dropSlashes true rest)
  else
    match rest with
    | '/' :: '/' :: rest => withAuthority R scheme rest
    | '/' :: _ => some (finish R scheme none [] rest)
    | _ => some {
        scheme := scheme
        host := none
        path := .opaquePath ((splitQuery rest).1.flatMap R.encodeOpaque)
        query := (splitQuery rest).2.map fun query => query.flatMap R.encodeQuery }

def withoutScheme (text : List Char) : Option (Url H) :=
  match base.path with
  | .opaquePath _ => if text.headD ' ' = '#' then some base else none
  | .segments _ => if base.scheme = "file" then fileUrl R (some base) text else relative R base text

def parse (base : Option (Url H)) (input : List Char) : Option (Url H) :=
  match splitScheme (clean input) with
  | some (scheme, rest) => withScheme R base scheme rest
  | none => base.bind fun base => withoutScheme R base (clean input)

namespace Url

variable (url : Url H)

def pathname : List Char :=
  match url.path with
  | .opaquePath text => text
  | .segments names => names.flatMap fun name => '/' :: name

def search : List Char :=
  match url.query with
  | none | some [] => []
  | some query => '?' :: query

end Url

end Parsing

section Sites

variable {H : Type} {R : Rules H} {base url : Url H} {text input : List Char}

def SameSite (url base : Url H) : Prop := url.scheme = base.scheme ∧ url.host = base.host

def ownAuthority (special : Bool) (text : List Char) : Option (List Char) :=
  match text with
  | a :: b :: rest =>
    if isSlash special a ∧ isSlash special b then
      some ((dropSlashes special rest).takeWhile fun c => !endsAuthority special c)
    else none
  | _ => none

/-- A reference behind its scheme that has no authority, or that of the base. -/
def KeepsHost (R : Rules H) (base : Url H) (text : List Char) : Prop :=
  ∀ name, ownAuthority (isSpecial base.scheme) text = some name →
    R.authority base.scheme name = base.host

/-- A reference without a scheme, or with that of the base, that keeps the host. -/
def KeepsSite (R : Rules H) (base : Url H) (input : List Char) : Prop :=
  match splitScheme (clean input) with
  | some (scheme, rest) => scheme = base.scheme ∧ KeepsHost R base rest
  | none => KeepsHost R base (clean input)

theorem withAuthority_eq_some {scheme : String} (h : withAuthority R scheme text = some url) :
    url.scheme = scheme ∧ url.host =
      R.authority scheme (text.takeWhile fun c => !endsAuthority (isSpecial scheme) c) := by
  obtain ⟨host, hhost, rfl⟩ := Option.map_eq_some_iff.mp h
  exact ⟨rfl, hhost.symm⟩

theorem withAuthority_path {scheme : String} (h : withAuthority R scheme text = some url) :
    ∃ names, url.path = .segments names := by
  obtain ⟨host, -, rfl⟩ := Option.map_eq_some_iff.mp h
  exact ⟨_, rfl⟩

theorem relativePath_site (R : Rules H) (base : Url H) (text : List Char) :
    SameSite (relativePath R base text) base := by
  unfold relativePath
  split
  · exact ⟨rfl, rfl⟩
  · split_ifs <;> exact ⟨rfl, rfl⟩

theorem relative_site (h : relative R base text = some url) :
    SameSite url base ↔ KeepsHost R base text := by
  unfold relative at h
  unfold KeepsHost ownAuthority
  split at h
  next a b rest =>
    split_ifs at h with hslashes
    · obtain ⟨hscheme, hhost⟩ := withAuthority_eq_some h
      simp [SameSite, hscheme, hhost, hslashes]
    · cases h
      simp [relativePath_site, hslashes]
  next hshort =>
    cases h
    refine iff_of_true (relativePath_site R base text) fun name hname => ?_
    cases hname

theorem fileUrl_scheme {other : Option (Url H)} (h : fileUrl R other text = some url) :
    url.scheme = "file" := by
  have hlocal : ∀ b, other.filter (fun b => b.scheme = "file") = some b →
      (relativePath R b text).scheme = "file" := by
    intro b hb
    rw [(relativePath_site R b text).1]
    exact of_decide_eq_true (Option.filter_eq_some_iff.mp hb).2
  have hempty : ∀ rest, (R.authority "file" []).map
      (fun host => finish R "file" (some host) [] rest) = some url → url.scheme = "file" := by
    intro rest h
    obtain ⟨host, -, rfl⟩ := Option.map_eq_some_iff.mp h
    rfl
  unfold fileUrl at h
  split at h
  · split_ifs at h
    · exact (withAuthority_eq_some h).1
    · split at h
      next heq =>
        cases h
        exact hlocal _ heq
      next => exact hempty _ h
  next _ heq =>
    cases h
    exact hlocal _ heq
  next => exact hempty _ h

theorem withScheme_scheme {other : Option (Url H)} {scheme : String}
    (h : withScheme R other scheme text = some url) : url.scheme = scheme := by
  unfold withScheme at h
  split_ifs at h with hfile hspecial
  · exact (fileUrl_scheme h).trans hfile.symm
  · split at h
    next b heq =>
      have hb : b.scheme = scheme := of_decide_eq_true (Option.filter_eq_some_iff.mp heq).2
      unfold relative at h
      split at h
      · split_ifs at h
        · exact (withAuthority_eq_some h).1.trans hb
        · cases h
          exact (relativePath_site R b _).1.trans hb
      · cases h
        exact (relativePath_site R b _).1.trans hb
    next => exact (withAuthority_eq_some h).1
  · split at h
    · exact (withAuthority_eq_some h).1
    · cases h
      rfl
    · cases h
      rfl

theorem parse_site (hspecial : isSpecial base.scheme = true) (hfile : base.scheme ≠ "file")
    {names : List (List Char)} (hpath : base.path = .segments names)
    (h : parse R (some base) input = some url) : SameSite url base ↔ KeepsSite R base input := by
  unfold parse at h
  unfold KeepsSite
  cases hsplit : splitScheme (clean input) with
  | some split =>
    obtain ⟨scheme, rest⟩ := split
    rw [hsplit] at h
    simp only at h ⊢
    by_cases hscheme : scheme = base.scheme
    · subst hscheme
      unfold withScheme at h
      rw [if_neg hfile, if_pos hspecial, Option.filter_some_pos (by simp)] at h
      rw [relative_site h]
      simp
    · have hother := withScheme_scheme h
      refine iff_of_false (fun hsite => hscheme ?_) fun hkeeps => hscheme hkeeps.1
      exact hother.symm.trans hsite.1
  | none =>
    rw [hsplit] at h
    simp only [Option.bind_some, withoutScheme, hpath, if_neg hfile] at h
    exact relative_site h

theorem clean_slash (h : clean input ≠ []) :
    ∃ blanks, (∀ c ∈ blanks, isBlank c = true) ∧
      clean (input ++ ['/']) = clean input ++ blanks ++ ['/'] := by
  set rest := input.dropWhile isBlank with hrest
  have hne : rest ≠ [] := by
    intro hempty
    apply h
    rw [clean, ← hrest, hempty]
    rfl
  have hslash : (input ++ ['/']).dropWhile isBlank = rest ++ ['/'] := by
    rw [List.dropWhile_append, ← hrest, if_neg (by simpa using hne)]
  have hsplit : rest = (rest.reverse.dropWhile isBlank).reverse ++
      (rest.reverse.takeWhile isBlank).reverse := by
    rw [← List.reverse_append, List.takeWhile_append_dropWhile, List.reverse_reverse]
  refine ⟨(rest.reverse.takeWhile isBlank).reverse.filter fun c =>
    c ≠ '\t' ∧ c ≠ '\n' ∧ c ≠ '\x0d', fun c hc => ?_, ?_⟩
  · exact List.mem_takeWhile_imp (List.mem_reverse.mp (List.mem_filter.mp hc).1)
  · have hkept : (rest ++ ['/']).reverse.dropWhile isBlank = (rest ++ ['/']).reverse := by
      rw [List.reverse_append]
      rfl
    rw [clean, hslash, hkept, List.reverse_reverse, clean, ← hrest, ← List.filter_append, ← hsplit,
      List.filter_append]
    rfl

theorem takeWhile_append_of_rest {p : Char → Bool} (more : List Char)
    (h : text.dropWhile p ≠ []) : (text ++ more).takeWhile p = text.takeWhile p := by
  rw [List.takeWhile_append, if_neg]
  intro hlength
  have hparts := congrArg List.length (List.takeWhile_append_dropWhile (p := p) (l := text))
  rw [List.length_append, hlength] at hparts
  exact h (List.length_eq_zero_iff.mp (by omega))

theorem blank_of_alpha {c : Char} (hc : c.isAlpha = true) : isBlank c = false := by
  have hcontrol : ∀ n ∈ List.range 33, (Char.ofNat n).isAlpha = false := by decide
  rw [isBlank, decide_eq_false_iff_not]
  intro hle
  have hnot := hcontrol c.toNat (List.mem_range.mpr (Nat.lt_succ_of_le hle))
  rw [Char.ofNat_toNat, hc] at hnot
  cases hnot

theorem clean_cons_cons {c : Char} {rest : List Char} (hc : c.isAlpha = true) :
    ∃ rest', clean ('/' :: c :: rest) = '/' :: c :: rest' := by
  have hblank := blank_of_alpha hc
  have hkept : ∀ d : Char, isBlank d = true → c ≠ d := by
    rintro d hd rfl
    rw [hd] at hblank
    cases hblank
  have htail : ∃ front, ('/' :: c :: rest).reverse.dropWhile isBlank = front ++ [c, '/'] := by
    have hend : [c, '/'].dropWhile isBlank = [c, '/'] :=
      List.dropWhile_cons_of_neg (by simp [hblank])
    rw [List.reverse_cons, List.reverse_cons, List.append_assoc, List.dropWhile_append]
    split
    · exact ⟨[], hend⟩
    · exact ⟨_, rfl⟩
  obtain ⟨front, hfront⟩ := htail
  have hstart : ('/' :: c :: rest).dropWhile isBlank = '/' :: c :: rest := rfl
  rw [clean, hstart, hfront]
  simp [hkept '\t' rfl, hkept '\n' rfl, hkept '\x0d' rfl]

theorem splitScheme_append {scheme : String} {rest : List Char} (more : List Char)
    (h : splitScheme text = some (scheme, rest)) :
    splitScheme (text ++ more) = some (scheme, rest ++ more) := by
  unfold splitScheme at h
  split_ifs at h with halpha
  split at h
  next rest' hdrop =>
    cases h
    have hne : text.dropWhile isSchemeChar ≠ [] := fun hempty => by
      rw [hempty] at hdrop
      cases hdrop
    have hhead : (text ++ more).headD ':' = text.headD ':' := by
      cases text with
      | nil => exact absurd rfl hne
      | cons c cs => rfl
    have hdrop' : (text ++ more).dropWhile isSchemeChar = ':' :: (rest ++ more) := by
      rw [List.dropWhile_append, hdrop]
      rfl
    rw [splitScheme, if_pos (hhead ▸ halpha), hdrop', takeWhile_append_of_rest more hne]
    rfl
  next => cases h

theorem blank_inside {c : Char} (special : Bool) (h : isBlank c = true) :
    endsAuthority special c = false := by
  have hle : c.toNat ≤ 32 := of_decide_eq_true h
  have hne (d : Char) (hd : 32 < d.toNat) : c ≠ d := by
    rintro rfl
    omega
  simp [endsAuthority, isSlash, hne '/' (by decide), hne '\\' (by decide), hne '?' (by decide),
    hne '#' (by decide)]

/-- With a slash behind it, an authority is the same, unless there are blanks
before the slash. -/
theorem authority_slash {scheme : String} {rest blanks : List Char}
    (hspecial : isSpecial scheme = true) (hblanks : ∀ c ∈ blanks, isBlank c = true) {host : H}
    (h : R.authority scheme (((rest ++ (blanks ++ ['/'])).dropWhile (isSlash true)).takeWhile
      fun c => !endsAuthority true c) = some host) :
    R.authority scheme ((rest.dropWhile (isSlash true)).takeWhile
      fun c => !endsAuthority true c) = some host := by
  have hinside : ∀ c ∈ blanks, (!endsAuthority true c) = true := fun c hc => by
    rw [blank_inside true (hblanks c hc), Bool.not_false]
  have hends : (blanks ++ ['/']).takeWhile (fun c => !endsAuthority true c) = blanks := by
    rw [List.takeWhile_append_of_pos hinside]
    exact List.append_nil blanks
  have hblank (text : List Char) (hne : blanks ≠ []) :
      R.authority scheme (text ++ blanks) = none := by
    rw [← List.dropLast_concat_getLast hne, ← List.append_assoc]
    exact R.authority_blank _ _ _ hspecial (hblanks _ (List.getLast_mem hne))
  rw [List.dropWhile_append] at h
  split_ifs at h with hempty
  · rw [List.isEmpty_iff.mp hempty]
    cases blanks with
    | nil => exact h
    | cons c cs =>
      have hslash : isSlash true c = false := by
        have hc := blank_inside true (hblanks c List.mem_cons_self)
        simp only [endsAuthority, Bool.or_eq_false_iff] at hc
        exact hc.1.1
      rw [List.cons_append, List.dropWhile_cons_of_neg (by simp [hslash]), ← List.cons_append,
        hends] at h
      have hnone := hblank [] (List.cons_ne_nil c cs)
      rw [List.nil_append, h] at hnone
      cases hnone
  · rw [List.takeWhile_append, hends] at h
    split_ifs at h with hall
    · have hwhole : (rest.dropWhile (isSlash true)).takeWhile (fun c => !endsAuthority true c) =
          rest.dropWhile (isSlash true) :=
        List.IsPrefix.eq_of_length ( List.takeWhile_prefix _) hall
      cases blanks with
      | nil => rwa [hwhole, ← List.append_nil (rest.dropWhile _)]
      | cons c cs =>
        rw [hblank _ (List.cons_ne_nil c cs)] at h
        cases h
    · exact h

theorem parse_special (h : parse R none input = some url) (hspecial : isSpecial url.scheme = true)
    (hfile : url.scheme ≠ "file") :
    ∃ rest, splitScheme (clean input) = some (url.scheme, rest) ∧
      withAuthority R url.scheme (dropSlashes true rest) = some url := by
  unfold parse at h
  split at h
  next scheme rest hsplit =>
    have hscheme := withScheme_scheme h
    subst hscheme
    unfold withScheme at h
    rw [if_neg hfile, if_pos hspecial] at h
    exact ⟨rest, hsplit, h⟩
  next => cases h

theorem parse_slash (hbase : parse R none input = some base)
    (hspecial : isSpecial base.scheme = true) (hfile : base.scheme ≠ "file")
    (h : parse R none (input ++ ['/']) = some url) :
    SameSite url base ∧ ∃ names, url.path = .segments names := by
  obtain ⟨rest, hsplit, hauthority⟩ := parse_special hbase hspecial hfile
  have hne : clean input ≠ [] := fun hempty => by
    rw [hempty] at hsplit
    cases hsplit
  obtain ⟨blanks, hblanks, hclean⟩ := clean_slash hne
  rw [List.append_assoc] at hclean
  unfold parse at h
  rw [hclean, splitScheme_append _ hsplit] at h
  simp only [withScheme, if_neg hfile, if_pos hspecial, Option.filter_none] at h
  obtain ⟨host, hhost, rfl⟩ := Option.map_eq_some_iff.mp h
  rw [hspecial] at hhost
  have hsame := authority_slash hspecial hblanks hhost
  obtain ⟨-, hbasehost⟩ := withAuthority_eq_some hauthority
  rw [hspecial, dropSlashes, if_pos rfl, hsame] at hbasehost
  exact ⟨⟨rfl, hbasehost.symm⟩, _, rfl⟩

theorem keepsSite_path {c : Char} {rest : List Char} (hc : c.isAlpha = true) :
    KeepsSite R base ('/' :: c :: rest) := by
  obtain ⟨rest', hclean⟩ : ∃ rest', clean ('/' :: c :: rest) = '/' :: c :: rest' :=
    clean_cons_cons hc
  have hne : ∀ d : Char, d.isAlpha = false → c ≠ d := by
    rintro d hd rfl
    rw [hc] at hd
    cases hd
  have hslash (special : Bool) : isSlash special c = false := by
    simp [isSlash, hne '/' rfl, hne '\\' rfl]
  have hletter : ¬ Char.isAlpha '/' = true := by decide
  have hsplit : splitScheme ('/' :: c :: rest') = none := if_neg hletter
  rw [KeepsSite, hclean, hsplit]
  intro name hname
  simp [ownAuthority, hslash] at hname

/-- Which references keep the site depends on the site alone. -/
theorem KeepsSite.congr {other : Url H} (h : SameSite other base) :
    KeepsSite R other input ↔ KeepsSite R base input := by
  simp only [KeepsSite, KeepsHost, h.1, h.2]

end Sites

end Suban.Basis.Urls
