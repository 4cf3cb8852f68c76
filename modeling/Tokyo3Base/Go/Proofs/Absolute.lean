/-
`url.Parse` and `URL.String` of URLs with a scheme, an authority and a path
that begins with a slash.

# Parsing

`urlParse_absolute`: if the authority, the path and the query hold no byte
that ends them too early, each of them is parsed on its own.

# Writing and parsing again

`String` escapes user, host and path, or takes the encoding of the path that
the URL came with, and what it writes is parsed to the same user and path
(`urlParse_string`). The host is the exception: a zone of an IPv6 address
can hold an escaped bracket, which is written without the escape. So of the
host it is assumed that it is read back (`HostReadBack`).
-/
import Tokyo3Base.Go.Proofs.Escape

namespace Tokyo3Base.Go.NetURL

-- ==== parts

/-- The text of a query, with its question mark. -/
def queryText : Option GoString → GoString
  | none => []
  | some query => question :: query

def absoluteText (scheme authority path : GoString)
    (query : Option GoString) : GoString :=
  scheme ++ 58 :: slash :: slash :: (authority ++ (path ++ queryText query))

def absoluteURL (scheme : GoString) (user : Option Userinfo)
    (host path rawPath : GoString) (query : Option GoString) : URL :=
  { URL.zero with
    scheme := scheme, user := user, host := host, path := path
    rawPath := rawPath, forceQuery := query == some []
    rawQuery := query.getD [] }

/-- What `getScheme` takes for a scheme. -/
def isScheme : GoString → Bool
  | [] => false
  | c :: s => isLetter c && s.all fun c => isAlnum c || c ∈ ascii "+-."

theorem schemeFrom_append {s : GoString}
    (h : ∀ c ∈ s, (isAlnum c || decide (c ∈ ascii "+-.")) = true)
    (rest : GoString) :
    schemeFrom (s ++ 58 :: rest) = some (s, rest) := by
  induction s with
  | nil => rfl
  | cons c s ih =>
      have hc := h c List.mem_cons_self
      have hne : c ≠ 58 := by
        rintro rfl
        exact absurd hc (by decide)
      rw [List.cons_append, schemeFrom, if_neg hne, if_pos hc,
        ih fun d hd => h d (List.mem_cons_of_mem c hd)]
      rfl

theorem getScheme_append {scheme : GoString} (h : isScheme scheme = true)
    (rest : GoString) :
    getScheme (scheme ++ 58 :: rest) = .ok (scheme, rest) := by
  cases scheme with
  | nil => cases h
  | cons c s =>
      obtain ⟨hc, hs⟩ := Bool.and_eq_true_iff.mp h
      have hne : c ≠ 58 := by
        rintro rfl
        exact absurd hc (by decide)
      rw [List.cons_append, getScheme, if_neg hne, if_pos hc,
        schemeFrom_append (List.all_eq_true.mp hs)]

theorem isPlain_of_isScheme {scheme : GoString} (h : isScheme scheme = true)
    {c : UInt8} (hc : c ∈ scheme) : isPlain c = true := by
  have hbyte := forall_byte (P := fun c => isLetter c = true
    ∨ (isAlnum c || decide (c ∈ ascii "+-.")) = true → isPlain c = true)
    (by decide +kernel) c
  cases scheme with
  | nil => cases h
  | cons d s =>
      obtain ⟨hd, hs⟩ := Bool.and_eq_true_iff.mp h
      rcases List.mem_cons.mp hc with rfl | hc
      · exact hbyte (.inl hd)
      · exact hbyte (.inr (List.all_eq_true.mp hs c hc))

theorem isScheme_lowerASCII {scheme : GoString} (h : isScheme scheme = true) :
    isScheme (lowerASCII scheme) = true := by
  have hletter := forall_byte (P := fun c => isLetter c = true →
    isLetter (if 65 ≤ c && c ≤ 90 then c + 32 else c) = true)
    (by decide +kernel)
  have hrest := forall_byte (P := fun c =>
    (isAlnum c || decide (c ∈ ascii "+-.")) = true →
      (fun c => isAlnum c || decide (c ∈ ascii "+-."))
        (if 65 ≤ c && c ≤ 90 then c + 32 else c) = true)
    (by decide +kernel)
  cases scheme with
  | nil => cases h
  | cons c s =>
      obtain ⟨hc, hs⟩ := Bool.and_eq_true_iff.mp h
      refine Bool.and_eq_true_iff.mpr ⟨hletter c hc, ?_⟩
      rw [List.all_map]
      exact List.all_eq_true.mpr fun d hd =>
        hrest d (List.all_eq_true.mp hs d hd)

theorem lowerASCII_idem (s : GoString) :
    lowerASCII (lowerASCII s) = lowerASCII s := by
  rw [lowerASCII, lowerASCII, List.map_map]
  exact List.map_congr_left fun c _ => forall_byte (P := fun c =>
    ((fun c : UInt8 => if 65 ≤ c && c ≤ 90 then c + 32 else c)
      ∘ fun c => if 65 ≤ c && c ≤ 90 then c + 32 else c) c
        = if 65 ≤ c && c ≤ 90 then c + 32 else c) (by decide +kernel) c

/-- The query is cut off where it was put. -/
theorem cutQuery_queryText {x : GoString} (h : question ∉ x)
    (query : Option GoString) :
    cutQuery (x ++ queryText query)
      = (x, query == some [], query.getD []) := by
  cases query with
  | none =>
      have hend : endsIn x question = false := by
        refine Bool.eq_false_iff.mpr fun hend => h ?_
        exact List.mem_of_getLast? (beq_iff_eq.mp hend)
      rw [queryText, List.append_nil, cutQuery, hend, after,
        before_eq_self h, fromFirst_eq_nil h]
      rfl
  | some query =>
      have hbefore : before question (x ++ question :: query) = x := by
        rw [before_append h]
        simp [before]
      have hafter : after question (x ++ question :: query) = query := by
        rw [after_append h]
        simp [after, fromFirst]
      rw [queryText, cutQuery, hbefore, hafter, List.count_append,
        List.count_eq_zero.mpr h, List.count_cons_self]
      cases query with
      | nil =>
          rw [if_pos (by simp [endsIn])]
          simp
      | cons c query =>
          rw [if_neg]
          · rfl
          · -- a question mark at the end is a second one
            intro hend
            obtain ⟨hend, hcount⟩ := Bool.and_eq_true_iff.mp hend
            have hlast : (c :: query).getLast? = some question := by
              simpa [endsIn, List.getLast?_append] using hend
            have hpos := List.count_pos_iff.mpr (List.mem_of_getLast? hlast)
            have := beq_iff_eq.mp hcount
            omega

-- ==== parsing

/-- The parts of the text of a URL, and what they are parsed to. -/
structure Absolute (parseAddr : ParseAddr) (scheme authority text : GoString)
    (query : Option GoString) (user : Option Userinfo) (host path : GoString) :
    Prop where
  scheme_ok : isScheme scheme = true
  authority_plain : ∀ c ∈ authority, isPlain c = true ∧ c ≠ slash
  authority_ok : parseAuthority parseAddr (lowerASCII scheme) authority
    = .ok (user, host)
  text_slash : text.head? = some slash
  text_plain : ∀ c ∈ text, isPlain c = true
  path_ok : unescape .path text = .ok path
  query_plain : ∀ c ∈ query.getD [], isCTL c = false ∧ c ≠ hash

theorem Mode.literal_path : Mode.path.Literal :=
  ⟨by decide, by decide, by decide⟩

theorem isPlain_iff {c : UInt8} :
    isPlain c = true ↔ isCTL c = false ∧ c ≠ hash ∧ c ≠ question := by
  simp [isPlain, and_assoc]

section Parse

variable {parseAddr : ParseAddr} {scheme authority text : GoString}
  {query : Option GoString} {user : Option Userinfo} {host path : GoString}

/-- What `setPath` keeps of the text of a path. -/
def rawPathOf (text path : GoString) : GoString :=
  if text = escape path .path then [] else text

theorem Absolute.mem_text
    (h : Absolute parseAddr scheme authority text query user host path)
    {c : UInt8} (hc : c ∈ absoluteText scheme authority text query) :
    isCTL c = false ∧ c ≠ hash := by
  have hplain : isPlain c = true → isCTL c = false ∧ c ≠ hash := fun hc =>
    ⟨(isPlain_iff.mp hc).1, (isPlain_iff.mp hc).2.1⟩
  simp only [absoluteText, List.mem_append, List.mem_cons] at hc
  rcases hc with hc | rfl | rfl | rfl | hc | hc | hc
  · exact hplain (isPlain_of_isScheme h.scheme_ok hc)
  · decide
  · decide
  · decide
  · exact hplain (h.authority_plain c hc).1
  · exact hplain (h.text_plain c hc)
  · cases query with
    | none => cases hc
    | some query =>
        rcases List.mem_cons.mp hc with rfl | hc
        · decide
        · exact h.query_plain c hc

/-- What stands between the scheme and the query. -/
theorem Absolute.hierarchy
    (h : Absolute parseAddr scheme authority text query user host path)
    {u : URL} (hscheme : u.scheme = lowerASCII scheme) (hu : u.scheme ≠ []) :
    parseHierarchy parseAddr u (slash :: slash :: (authority ++ text))
      = .ok { u with user := user, host := host, path := path
                     rawPath := rawPathOf text path } := by
  have hslash : slash ∉ authority := fun hmem =>
    (h.authority_plain _ hmem).2 rfl
  obtain ⟨rest, rfl⟩ : ∃ rest, text = slash :: rest :=
    List.head?_eq_some_iff.mp h.text_slash
  have hbefore : before slash (authority ++ slash :: rest) = authority := by
    rw [before_append hslash]
    simp [before]
  have hfrom : fromFirst slash (authority ++ slash :: rest)
      = slash :: rest := by
    rw [fromFirst_append hslash]
    simp [fromFirst]
  have htwo : hasPrefix (slash :: slash :: (authority ++ slash :: rest))
      (ascii "//") = true := rfl
  rw [parseHierarchy, if_pos (by simp [hu, htwo])]
  simp only [List.drop_succ_cons, List.drop_zero, hbefore, hfrom]
  rw [hscheme, h.authority_ok]
  show URL.setPath _ _ = _
  rw [URL.setPath, h.path_ok]
  rfl

theorem urlParse_absolute
    (h : Absolute parseAddr scheme authority text query user host path) :
    urlParse parseAddr (absoluteText scheme authority text query)
      = .ok (absoluteURL (lowerASCII scheme) user host path
          (rawPathOf text path) query) := by
  have hhash : hash ∉ absoluteText scheme authority text query :=
    fun hmem => (h.mem_text hmem).2 rfl
  have hctl : (absoluteText scheme authority text query).any isCTL = false :=
    List.any_eq_false.mpr fun c hc => by simp [(h.mem_text hc).1]
  have hscheme : scheme ≠ [] := by
    rintro rfl
    cases h.scheme_ok
  have hstar : absoluteText scheme authority text query ≠ ascii "*" := by
    intro hstar
    have hlen := congrArg List.length hstar
    simp [absoluteText, ascii] at hlen
    omega
  -- no part before the query holds a question mark
  have hquestion : question ∉ slash :: slash :: (authority ++ text) := by
    intro hmem
    simp only [List.mem_cons, List.mem_append] at hmem
    rcases hmem with heq | heq | hmem | hmem
    · exact absurd heq (by decide)
    · exact absurd heq (by decide)
    · exact (isPlain_iff.mp (h.authority_plain _ hmem).1).2.2 rfl
    · exact (isPlain_iff.mp (h.text_plain _ hmem)).2.2 rfl
  have hcut : cutQuery (slash :: slash
      :: (authority ++ (text ++ queryText query)))
      = (slash :: slash :: (authority ++ text), query == some [],
        query.getD []) := by
    have := cutQuery_queryText hquestion query
    simpa only [List.cons_append, List.append_assoc] using this
  have hparse : parse parseAddr (absoluteText scheme authority text query)
      = .ok (absoluteURL (lowerASCII scheme) user host path
          (rawPathOf text path) query) := by
    rw [parse_eq parseAddr hctl hstar (getScheme_append h.scheme_ok _), hcut,
      parseRest, if_neg (by simp [hasPrefix])]
    rw [h.hierarchy rfl (by simpa [schemeURL, lowerASCII] using hscheme)]
    simp only [schemeURL, hcut]
    rfl
  rw [urlParse, before_eq_self hhash, after, fromFirst_eq_nil hhash]
  simp only [hparse, List.drop_nil, if_true]

end Parse

-- ==== writing

/-- `EscapedPath`, of the two fields that it reads. -/
def pathText (path rawPath : GoString) : GoString :=
  { URL.zero with path := path, rawPath := rawPath }.escapedPath

/-- The text of a path: the encoding it came with, or its own. -/
theorem pathText_cases (path rawPath : GoString) :
    (pathText path rawPath = rawPath ∧ rawPath ≠ []
        ∧ validEncoded rawPath .path = true
        ∧ unescape .path rawPath = .ok path)
      ∨ (pathText path rawPath = ascii "*" ∧ path = ascii "*")
      ∨ pathText path rawPath = escape path .path := by
  simp only [pathText, URL.escapedPath, rawIfValid]
  split
  · next raw hraw =>
    split at hraw
    · next hok =>
      obtain ⟨hne, hvalid, hdecoded⟩ := hok
      cases hraw
      refine .inl ⟨rfl, hne, hvalid, ?_⟩
      cases hunescape : unescape .path rawPath with
      | error reason =>
          rw [hunescape] at hdecoded
          cases hdecoded
      | ok decoded =>
          rw [hunescape] at hdecoded
          cases hdecoded
          rfl
    · cases hraw
  · split
    · next hstar => exact .inr (.inl ⟨rfl, hstar⟩)
    · exact .inr (.inr rfl)

theorem unescape_pathText (path rawPath : GoString) :
    unescape .path (pathText path rawPath) = .ok path := by
  rcases pathText_cases path rawPath with ⟨htext, -, -, hraw⟩
    | ⟨htext, rfl⟩ | htext
  · rw [htext, hraw]
  · rw [htext]
    rfl
  · rw [htext]
    exact unescape_escape Mode.literal_path (by decide) path

theorem isPlain_pathText {path rawPath : GoString} {c : UInt8}
    (hc : c ∈ pathText path rawPath) : isPlain c = true := by
  rcases pathText_cases path rawPath with ⟨htext, -, hvalid, -⟩
    | ⟨htext, -⟩ | htext
  · rw [htext] at hc
    have hbyte := List.all_eq_true.mp hvalid c hc
    cases hplain : isPlain c with
    | true => rfl
    | false =>
        rw [shouldEscape_of_not_isPlain (by decide) hplain, Bool.not_true,
          Bool.or_false, decide_eq_true_iff] at hbyte
        have hall : (ascii "!$&'()*+,;=:@[]%").all isPlain = true := by
          decide +kernel
        rw [List.all_eq_true.mp hall c hbyte] at hplain
        cases hplain
  · rw [htext] at hc
    rw [List.mem_singleton.mp hc]
    decide
  · rw [htext] at hc
    exact isPlain_escape (by decide) hc

theorem pathText_slash {path rawPath : GoString}
    (hpath : path.head? = some slash)
    (hraw : rawPath ≠ [] → rawPath.head? = some slash) :
    (pathText path rawPath).head? = some slash := by
  obtain ⟨rest, rfl⟩ := List.head?_eq_some_iff.mp hpath
  rcases pathText_cases (slash :: rest) rawPath with ⟨htext, hne, -, -⟩
    | ⟨-, hstar⟩ | htext
  · rw [htext]
    exact hraw hne
  · exact absurd hpath (by rw [hstar]; decide)
  · rw [htext]
    rfl

theorem rawPathOf_slash {text path : GoString}
    (h : text.head? = some slash) (hne : rawPathOf text path ≠ []) :
    (rawPathOf text path).head? = some slash := by
  unfold rawPathOf at hne ⊢
  split
  · next heq =>
    rw [if_pos heq] at hne
    exact absurd rfl hne
  · exact h

/-- Without an encoding of its own the path is escaped, and that again is no
encoding of its own. -/
theorem rawPathOf_pathText_nil {path : GoString}
    (hpath : path.head? = some slash) :
    rawPathOf (pathText path []) path = [] := by
  rcases pathText_cases path [] with ⟨-, hne, -⟩ | ⟨-, rfl⟩ | htext
  · exact absurd rfl hne
  · exact absurd hpath (by decide)
  · exact if_pos htext

/-- What `String` writes for user and host. -/
def authorityText (user : Option Userinfo) (host : GoString) : GoString :=
  (match user with
    | none => []
    | some user => user.string ++ [64]) ++ escape host .host

theorem string_absoluteURL {scheme : GoString} {user : Option Userinfo}
    {host path rawPath : GoString} {query : Option GoString}
    (hscheme : scheme ≠ []) (hpath : path.head? = some slash)
    (hraw : rawPath ≠ [] → rawPath.head? = some slash) :
    (absoluteURL scheme user host path rawPath query).string
      = absoluteText scheme (authorityText user host)
          (pathText path rawPath) query := by
  have hne : path ≠ [] := by
    rintro rfl
    cases hpath
  have htext := pathText_slash hpath hraw
  have hescaped : (absoluteURL scheme user host path rawPath query).escapedPath
      = pathText path rawPath := rfl
  have hauthority : (absoluteURL scheme user host path rawPath query).authority
      = slash :: slash :: authorityText user host := by
    rw [URL.authority, if_neg fun h => hscheme h.1,
      if_neg fun h => Bool.noConfusion h.1, if_neg fun h => hne h.2.1,
      List.append_assoc]
    rfl
  have hhierarchy : (absoluteURL scheme user host path rawPath query).hierarchy
      = scheme ++ 58 :: slash :: slash
        :: (authorityText user host ++ pathText path rawPath) := by
    unfold URL.hierarchy
    rw [hauthority, hescaped]
    simp [absoluteURL, URL.zero, hscheme, htext]
  have hquery : (if (query == some []) = true ∨ query.getD [] ≠ [] then
      question :: query.getD [] else []) = queryText query := by
    cases query with
    | none => rfl
    | some query => cases query <;> rfl
  rw [URL.string, hhierarchy]
  show _ ++ (if (query == some []) = true ∨ query.getD [] ≠ [] then
    question :: query.getD [] else []) ++ [] = _
  rw [hquery, List.append_nil, absoluteText, List.append_assoc]
  simp only [List.cons_append, List.append_assoc]

-- ==== writing and parsing

/-- The host is read back from what `String` writes. -/
def HostReadBack (parseAddr : ParseAddr) (scheme host : GoString) : Prop :=
  parseHost parseAddr scheme (escape host .host) = .ok host

theorem Mode.literal_userPassword : Mode.userPassword.Literal :=
  ⟨by decide, by decide, by decide⟩

/-- The userinfo is read back from what `String` writes. -/
theorem parseUserinfo_string (user : Userinfo) :
    parseUserinfo user.string = .ok user := by
  obtain ⟨username, password⟩ := user
  have hcolon (s : GoString) : 58 ∉ escape s .userPassword :=
    not_mem_escape (by decide) (by decide)
  have hread (s : GoString) :
      unescape .userPassword (escape s .userPassword) = .ok s :=
    unescape_escape Mode.literal_userPassword (by decide) s
  cases password with
  | none =>
      simp only [Userinfo.string, List.append_nil]
      rw [parseUserinfo, if_neg (hcolon _), hread]
      rfl
  | some password =>
      have hbefore : before 58 (escape username .userPassword
          ++ 58 :: escape password .userPassword)
            = escape username .userPassword := by
        rw [before_append (hcolon _)]
        simp [before]
      have hafter : after 58 (escape username .userPassword
          ++ 58 :: escape password .userPassword)
            = escape password .userPassword := by
        rw [after_append (hcolon _)]
        simp [after, fromFirst]
      simp only [Userinfo.string]
      rw [parseUserinfo, if_pos (by simp), hbefore, hafter, hread, hread]
      rfl

theorem mem_userinfo_string {user : Userinfo} {c : UInt8}
    (hc : c ∈ user.string) :
    (shouldEscape c .userPassword = false ∨ c = percent ∨ c = 43)
      ∨ c = 58 := by
  obtain ⟨username, password⟩ := user
  rcases List.mem_append.mp hc with hc | hc
  · exact .inl (mem_escape hc)
  · cases password with
    | none => cases hc
    | some password =>
        rcases List.mem_cons.mp hc with h | hc
        · exact .inr h
        · exact .inl (mem_escape hc)

theorem userinfo_string_byte {user : Userinfo} {c : UInt8}
    (hc : c ∈ user.string) :
    (isAlnum c || decide (c ∈ ascii "-._:~!$&'()*+,;=%@")) = true
      ∧ isPlain c = true ∧ c ≠ slash :=
  forall_byte (P := fun c => (shouldEscape c .userPassword = false
    ∨ c = percent ∨ c = 43) ∨ c = 58 →
      (isAlnum c || decide (c ∈ ascii "-._:~!$&'()*+,;=%@")) = true
        ∧ isPlain c = true ∧ c ≠ slash)
    (by decide +kernel) c (mem_userinfo_string hc)

section ReadBack

variable {parseAddr : ParseAddr} {scheme : GoString} {user : Option Userinfo}
  {host path rawPath : GoString} {query : Option GoString}

theorem parseAuthority_authorityText
    (hhost : HostReadBack parseAddr scheme host) :
    parseAuthority parseAddr scheme (authorityText user host)
      = .ok (user, host) := by
  have hat : 64 ∉ escape host .host := not_mem_escape (by decide) (by decide)
  cases user with
  | none =>
      rw [authorityText, List.nil_append, parseAuthority, cutLast_none hat]
      dsimp only
      rw [hhost]
      rfl
  | some user =>
      have hvalid : validUserinfo user.string = true :=
        List.all_eq_true.mpr fun c hc => (userinfo_string_byte hc).1
      have htext : authorityText (some user) host
          = user.string ++ 64 :: escape host .host := by
        rw [authorityText, List.append_assoc]
        rfl
      rw [htext, parseAuthority, cutLast_append _ hat]
      dsimp only
      rw [hhost]
      show (if (!validUserinfo user.string) = true then _ else _) = _
      rw [hvalid, if_neg (by decide), parseUserinfo_string]
      rfl

theorem authorityText_plain {c : UInt8} (hc : c ∈ authorityText user host) :
    isPlain c = true ∧ c ≠ slash := by
  rcases List.mem_append.mp hc with hc | hc
  · cases user with
    | none => cases hc
    | some user =>
        rcases List.mem_append.mp hc with hc | hc
        · exact (userinfo_string_byte hc).2
        · rw [List.mem_singleton.mp hc]
          decide
  · refine ⟨isPlain_escape (by decide) hc, ?_⟩
    rintro rfl
    exact not_mem_escape (by decide) (by decide) hc

/-- What `String` writes is parsed to the same URL; only the encoding of the
path may be another. -/
theorem urlParse_string (hscheme : isScheme scheme = true)
    (hlower : lowerASCII scheme = scheme)
    (hhost : HostReadBack parseAddr scheme host)
    (hpath : path.head? = some slash)
    (hraw : rawPath ≠ [] → rawPath.head? = some slash)
    (hquery : ∀ c ∈ query.getD [], isCTL c = false ∧ c ≠ hash) :
    urlParse parseAddr (absoluteURL scheme user host path rawPath query).string
      = .ok (absoluteURL scheme user host path
          (rawPathOf (pathText path rawPath) path) query) := by
  have hne : scheme ≠ [] := by
    rintro rfl
    cases hscheme
  have habsolute : Absolute parseAddr scheme (authorityText user host)
      (pathText path rawPath) query user host path :=
    { scheme_ok := hscheme
      authority_plain := fun c hc => authorityText_plain hc
      authority_ok := by
        rw [hlower]
        exact parseAuthority_authorityText hhost
      text_slash := pathText_slash hpath hraw
      text_plain := fun c hc => isPlain_pathText hc
      path_ok := unescape_pathText path rawPath
      query_plain := hquery }
  rw [string_absoluteURL hne hpath hraw, urlParse_absolute habsolute, hlower]

end ReadBack

end Tokyo3Base.Go.NetURL
