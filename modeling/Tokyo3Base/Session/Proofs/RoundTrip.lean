/-
Which requests without a session are answered, after the login, with the
page that they asked for.

# The way there

`Gate` puts the decoded path and the raw query into `return_to`. Escaped
as a query they come through the redirect and the parsing of the query as
they were, whatever they are (`queryGet_queryEscape`).

# The way back

There the text is parsed as a URL, so what the path has of `%`, `?` and `#`
is read as an escape, a query or a fragment. Without them the text is
accepted and sent as it is (`roundTrip_plain`). With them the page is never
reached: each makes the path that the browser is sent to shorter than the
one that was asked for (`plain_of_lands`).
-/
import Tokyo3Base.Go.Proofs.Escape
import Tokyo3Base.Session.Proofs.Gate
import Tokyo3Base.Session.Proofs.ReturnTo

namespace Tokyo3Base.Session

open Go

-- ==== the queries

theorem unescape_query_cons {c : UInt8} (hc : c ≠ percent) (s : GoString) :
    NetURL.unescape .queryComponent (c :: s)
      = (NetURL.unescape .queryComponent s).map
          ((if c = 43 then 32 else c) :: ·) := by
  have hmode : ¬ ((NetURL.Mode.queryComponent = .host
      ∨ NetURL.Mode.queryComponent = .zone) ∧ c < 128
      ∧ NetURL.shouldEscape c .queryComponent = true) := fun h => by
    rcases h.1 with h | h <;> cases h
  conv => lhs; unfold NetURL.unescape
  rw [if_neg hc, if_neg hmode]
  simp

/-- What is escaped for a query is read back. -/
theorem unescape_queryEscape (s : GoString) :
    NetURL.unescape .queryComponent (queryEscape s) = .ok s := by
  induction s with
  | nil => rfl
  | cons c s ih =>
      have hcons : queryEscape (c :: s)
          = (if c = 0x20 then [0x2b] else if unreserved c then [c]
            else [percent, upperHex (c / 16), upperHex (c % 16)])
              ++ queryEscape s := List.flatMap_cons
      rw [hcons]
      split
      · rename_i hspace
        rw [hspace, List.singleton_append,
          unescape_query_cons (by decide), ih]
        rfl
      · split
        · rename_i hplain
          have hc : c ≠ percent ∧ c ≠ 43 :=
            forall_byte (P := fun c => unreserved c = true →
              c ≠ percent ∧ c ≠ 43) (by decide +kernel) c hplain
          rw [List.singleton_append, unescape_query_cons hc.1, ih,
            if_neg hc.2]
          rfl
        · show NetURL.unescape .queryComponent
            (percent :: upperHex (c / 16) :: upperHex (c % 16)
              :: queryEscape s) = _
          rw [NetURL.unescape, if_pos rfl, escape?_upperHex, ih]
          rfl

/-- The bytes of escaped queries: no separator is one of them. -/
def isQueryByte (c : UInt8) : Bool :=
  c < 0x80 && c != hash && c != 38 && c != 59

theorem isQueryByte_of_mem {s : GoString} {c : UInt8}
    (h : c ∈ queryEscape s) : isQueryByte c = true := by
  obtain ⟨d, -, hc⟩ := List.mem_flatMap.mp h
  have hall := forall_byte (P := fun d => (if d = 0x20 then [(0x2b : UInt8)]
    else if unreserved d then [d]
    else [percent, upperHex (d / 16), upperHex (d % 16)]).all isQueryByte
      = true) (by decide +kernel) d
  exact List.all_eq_true.mp hall c hc

theorem not_mem_queryEscape {c : UInt8} (hc : isQueryByte c = false)
    (s : GoString) : c ∉ queryEscape s := fun hmem => by
  rw [isQueryByte_of_mem hmem] at hc
  cases hc

theorem ascii_of_isQueryByte {c : UInt8} (h : isQueryByte c = true) :
    c < 0x80 := by
  simp only [isQueryByte, Bool.and_eq_true, decide_eq_true_eq] at h
  exact h.1.1.1

/-- A query of one setting has its value. -/
theorem queryGet_single {key query value : GoString} (h38 : 38 ∉ query)
    (h : NetURL.parseSetting query = .ok (some (key, value))) :
    NetURL.queryGet key query = value := by
  have hfew : ¬ NetURL.maxParams < query.count 38 + 1 := by
    rw [List.count_eq_zero.mpr h38]
    decide
  simp only [NetURL.queryGet, hfew, if_false, split_eq_singleton h38,
    List.filterMap_cons, List.filterMap_nil, h, List.find?_cons,
    beq_self_eq_true]

/-- The parameter of the login page. -/
def returnToKey : GoString := ascii "return_to"

theorem returnToKey_plain : 38 ∉ returnToKey ∧ 59 ∉ returnToKey
    ∧ 61 ∉ returnToKey ∧ hash ∉ returnToKey
    ∧ returnToKey.all isQueryByte = true
    ∧ NetURL.unescape .queryComponent returnToKey = .ok returnToKey := by
  decide +kernel

/-- The parameter is read back, whatever it is. -/
theorem queryGet_queryEscape (s : GoString) :
    NetURL.queryGet returnToKey (returnToKey ++ 61 :: queryEscape s) = s := by
  obtain ⟨h38, h59, h61, -, -, hkey⟩ := returnToKey_plain
  have hnot : ∀ {c : UInt8}, c ∉ returnToKey → c ≠ 61 →
      c ∉ queryEscape s → c ∉ returnToKey ++ 61 :: queryEscape s := by
    intro c hfront hc hs hmem
    rcases List.mem_append.mp hmem with hmem | hmem
    · exact hfront hmem
    · rcases List.mem_cons.mp hmem with heq | hmem
      · exact hc heq
      · exact hs hmem
  have hbefore : before 61 (returnToKey ++ 61 :: queryEscape s)
      = returnToKey := by
    rw [before_append h61]
    exact List.append_nil _
  have hafter : NetURL.after 61 (returnToKey ++ 61 :: queryEscape s)
      = queryEscape s := by
    rw [NetURL.after_append h61]
    rfl
  have hamp : 38 ∉ returnToKey ++ 61 :: queryEscape s :=
    hnot h38 (by decide) (not_mem_queryEscape (by decide) s)
  have hsemi : 59 ∉ returnToKey ++ 61 :: queryEscape s :=
    hnot h59 (by decide) (not_mem_queryEscape (by decide) s)
  refine queryGet_single hamp ?_
  rw [NetURL.parseSetting, if_neg hsemi, if_neg (by simp), hbefore, hafter,
    unescape_queryEscape, hkey]

-- ==== the way there

theorem not_mem_hexEscape {c : UInt8} (hc : c = question ∨ c = hash)
    {s : GoString} (h : c ∉ s) : c ∉ hexEscapeNonASCII s := by
  intro hmem
  obtain ⟨d, hd, hmem⟩ := List.mem_flatMap.mp hmem
  have hbyte : ∀ d : UInt8, ¬ d < 0x80 → ∀ c : UInt8,
      (c = question ∨ c = hash) →
      c ∉ [percent, lowerHex (d / 16), lowerHex (d % 16)] := by
    intro d _ c hc
    obtain ⟨hhigh, hlow⟩ := escape_plain d
    simp only [Bool.and_eq_true, bne_iff_ne] at hhigh hlow
    rcases hc with rfl | rfl
    · simp [hhigh.1.symm, hlow.1.symm, show question ≠ percent by decide]
    · simp [hhigh.2.symm, hlow.2.symm, show hash ≠ percent by decide]
  split at hmem
  · rw [List.mem_singleton.mp hmem] at h
    exact h hd
  · rename_i hhigh
    exact hbyte d hhigh c hc hmem

theorem hexEscape_ascii {s : GoString} (h : ∀ c ∈ s, c < 0x80) :
    hexEscapeNonASCII s = s := by
  induction s with
  | nil => rfl
  | cons c s ih =>
      rw [hexEscape_cons_ascii (h c List.mem_cons_self),
        ih fun d hd => h d (List.mem_cons_of_mem c hd)]

/-- The query behind a path. -/
theorem locationQuery_append {x q : GoString} (hx : question ∉ x)
    (hxh : hash ∉ x) (hq : hash ∉ q) :
    locationQuery (x ++ question :: q) = q := by
  have hhash : hash ∉ x ++ question :: q := fun hmem => by
    rcases List.mem_append.mp hmem with hmem | hmem
    · exact hxh hmem
    · rcases List.mem_cons.mp hmem with heq | hmem
      · cases heq
      · exact hq hmem
  rw [locationQuery, before_eq_self hhash, NetURL.after_append hx]
  rfl

/-- What `http.Redirect` leaves of a text with a query: the query, behind
a path. -/
theorem redirectTarget_query {u q : GoString} (hu : question ∉ u)
    (huh : hash ∉ u) :
    ∃ x : GoString, question ∉ x ∧ hash ∉ x
      ∧ redirectTarget (slash :: u ++ question :: q)
        = x ++ question :: q := by
  have hslash : ∀ {c : UInt8}, c ≠ slash → c ∉ u → c ∉ slash :: u :=
    fun hc hcu => List.not_mem_cons_of_ne_of_not_mem hc hcu
  have hquestion : question ∉ slash :: u := hslash (by decide) hu
  have hhash : hash ∉ slash :: u := hslash (by decide) huh
  have hcut : before question (slash :: u ++ question :: q) = slash :: u := by
    rw [before_append hquestion]
    exact List.append_nil _
  have hrest : fromFirst question (slash :: u ++ question :: q)
      = question :: q := by
    rw [fromFirst_append hquestion]
    rfl
  unfold redirectTarget
  split
  · exact ⟨slash :: u, hquestion, hhash, rfl⟩
  · rw [hcut, hrest]
    obtain ⟨tail, htail, hkeep, -⟩ := cleanKeepSlash_rooted u
    have hnot : ∀ {c : UInt8}, c ≠ slash → c ∉ u →
        c ∉ cleanKeepSlash (slash :: u) := fun {c} hc hcu hmem => by
      rw [hkeep] at hmem
      rcases List.mem_append.mp hmem with hmem | hmem
      · rcases mem_of_mem_clean hmem with h | h
        · exact hc h
        · exact hcu h
      · rcases htail with rfl | ⟨rfl, -⟩
        · cases hmem
        · exact hc (List.mem_singleton.mp hmem)
    exact ⟨_, hnot (by decide) hu, hnot (by decide) huh, rfl⟩

/-- The login page gets what `Gate` put into `return_to`. -/
theorem returnTo_arrives {u : GoString} (hu : question ∉ u)
    (huh : hash ∉ u) (returnTo : GoString) :
    NetURL.queryGet (ascii "return_to") (locationQuery (redirectLocation
      (slash :: u ++ ascii "?return_to=" ++ queryEscape returnTo)))
      = returnTo := by
  obtain ⟨-, -, -, hkeyHash, hkeyASCII, -⟩ := returnToKey_plain
  generalize hq : returnToKey ++ 61 :: queryEscape returnTo = q
  have hascii : ∀ c ∈ question :: q, c < 0x80 := by
    intro c hc
    rw [← hq] at hc
    rcases List.mem_cons.mp hc with rfl | hc
    · decide
    · rcases List.mem_append.mp hc with hc | hc
      · exact ascii_of_isQueryByte (List.all_eq_true.mp hkeyASCII c hc)
      · rcases List.mem_cons.mp hc with rfl | hc
        · decide
        · exact ascii_of_isQueryByte (isQueryByte_of_mem hc)
  have hhash : hash ∉ q := fun hmem => by
    rw [← hq] at hmem
    rcases List.mem_append.mp hmem with hmem | hmem
    · exact hkeyHash hmem
    · rcases List.mem_cons.mp hmem with heq | hmem
      · cases heq
      · exact not_mem_queryEscape (by decide) returnTo hmem
  have hurl : slash :: u ++ ascii "?return_to=" ++ queryEscape returnTo
      = slash :: u ++ question :: q := by
    rw [← hq, List.append_assoc]
    rfl
  obtain ⟨x, hx, hxh, htarget⟩ := @redirectTarget_query u q hu huh
  have hloc : redirectLocation (slash :: u ++ question :: q)
      = hexEscapeNonASCII x ++ question :: q := by
    rw [redirectLocation, htarget, hexEscapeNonASCII, List.flatMap_append]
    exact congrArg (hexEscapeNonASCII x ++ ·) (hexEscape_ascii hascii)
  rw [hurl, hloc, locationQuery_append (not_mem_hexEscape (.inl rfl) hx)
      (not_mem_hexEscape (.inr rfl) hxh) hhash, ← hq]
  exact queryGet_queryEscape returnTo

-- ==== the way back

/-- The elements of a clean path below the root are names. -/
theorem effect_of_clean {u : GoString} (h : clean (slash :: u) = slash :: u)
    (hne : u ≠ []) : ∀ e ∈ split slash u, elementEffect e = .push := by
  rw [clean_rooted] at h
  have hu := (List.cons.inj h).2
  have hnames : surviving u ≠ [] := fun hnil => by
    rw [hnil] at hu
    exact hne hu.symm
  have hsplit : split slash u = surviving u := by
    conv => lhs; rw [← hu]
    exact split_join hnames fun v hv hmem =>
      ((surviving_name hv).2 slash hmem).2 rfl
  intro e he
  rw [hsplit] at he
  exact Lib.effect_of_mem_survivors he

/-- Two clean paths in a row are one. -/
theorem clean_append {u v : GoString} (hu : clean (slash :: u) = slash :: u)
    (hune : u ≠ []) (hv : clean (slash :: v) = slash :: v) (hvne : v ≠ []) :
    clean (slash :: (u ++ slash :: v)) = slash :: (u ++ slash :: v) := by
  have hpush : ∀ e ∈ split slash (u ++ slash :: v),
      elementEffect e = .push := by
    intro e he
    rw [split_append] at he
    rcases List.mem_append.mp he with he | he
    · exact effect_of_clean hu hune e he
    · exact effect_of_clean hv hvne e he
  have hsurvive : surviving (u ++ slash :: v)
      = split slash (u ++ slash :: v) := Lib.survivors_of_push hpush
  rw [clean_rooted, hsurvive, join_split]

/-- The mount and a page of it, as one path. -/
structure PageOf (base path x : GoString) : Prop where
  eq : x = base ++ path
  /-- it starts with a single slash -/
  rooted : ∃ u, x = slash :: u ∧ u.head? ≠ some slash
  keep : cleanKeepSlash x = x
  under : base = [] ∨ base ≠ [dot] ∧ base ≠ [slash] ∧ clean base = base
    ∧ (clean x = base ∨ hasPrefix (clean x) (base ++ [slash]) = true)

theorem cleanKeepSlash_eq_self {s : GoString} (h : clean s = s) :
    cleanKeepSlash s = s := by
  simp [cleanKeepSlash, h]

theorem pageOf {base v : GoString} (hmount : Mounted base)
    (hv : clean (slash :: v) = slash :: v) :
    PageOf base (slash :: v) (base ++ slash :: v) := by
  rcases hmount with rfl | ⟨u, hne, rfl, hu⟩
  · exact ⟨rfl, ⟨v, rfl, head_base_ne_slash hv⟩, cleanKeepSlash_eq_self hv,
      .inl rfl⟩
  · have hhead : (u ++ slash :: v).head? ≠ some slash := by
      obtain ⟨c, cs, rfl⟩ := List.exists_cons_of_ne_nil hne
      exact fun h => head_base_ne_slash hu h
    have hdot : slash :: u ≠ [dot] := by simp [slash, dot]
    have hslash : slash :: u ≠ [slash] := by simp [hne]
    by_cases hvne : v = []
    · -- the page is the root of the mount
      subst hvne
      refine ⟨rfl, ⟨_, rfl, hhead⟩, cleanKeepSlash_of_clean hu hne,
        .inr ⟨hdot, hslash, hu, .inl ?_⟩⟩
      exact (clean_append_slash u).trans hu
    · have hclean := clean_append hu hne hv hvne
      refine ⟨rfl, ⟨_, rfl, hhead⟩, cleanKeepSlash_eq_self hclean,
        .inr ⟨hdot, hslash, hu, .inr ?_⟩⟩
      rw [List.cons_append, hclean]
      exact List.isPrefixOf_iff_prefix.mpr
        ⟨v, by rw [List.append_assoc]; rfl⟩

/-- A page whose text has no backslash is allowed. -/
theorem PageOf.pathAllowed {m : Manager} {path x : GoString}
    (h : PageOf m.cfg.basePath path x) (hback : backslash ∉ x) :
    m.pathAllowed x = true := by
  have hb : x.contains backslash = false := by simpa using hback
  unfold Manager.pathAllowed
  dsimp only
  rw [hb]
  rcases h.under with hroot | ⟨hdot, hslash, hclean, hunder⟩
  · rw [hroot]
    rfl
  · rw [hclean]
    rcases hunder with hx | hx <;> simp [hx]

/-- A query with its `?`, if there is one. -/
def queryTail (q : GoString) : GoString := if q ≠ [] then question :: q else []

theorem head_queryTail (q : GoString) :
    queryTail q = [] ∨ (queryTail q).head? = some question := by
  unfold queryTail
  split
  · exact .inr rfl
  · exact .inl rfl

theorem mem_queryTail {q : GoString} {c : UInt8} (h : c ∈ queryTail q) :
    c = question ∨ c ∈ q := by
  unfold queryTail at h
  split at h
  · exact List.mem_cons.mp h
  · cases h

/-- A text up to its query, and from there on. -/
theorem cut_queryTail {x : GoString} (hx : question ∉ x) (q : GoString) :
    before question (x ++ queryTail q) = x
      ∧ fromFirst question (x ++ queryTail q) = queryTail q := by
  rw [before_append hx, fromFirst_append hx]
  unfold queryTail
  split
  · exact ⟨List.append_nil x, rfl⟩
  · exact ⟨List.append_nil x, rfl⟩

theorem locationQuery_queryTail {x q : GoString} (hx : question ∉ x)
    (hxh : hash ∉ x) (hq : hash ∉ q) :
    locationQuery (x ++ queryTail q) = q := by
  unfold queryTail
  split
  · exact locationQuery_append hx hxh hq
  · rename_i hnil
    rw [Classical.not_not.mp hnil, List.append_nil, locationQuery,
      before_eq_self hxh, NetURL.after, fromFirst_eq_nil hx]
    rfl

def isPrintable (c : UInt8) : Bool := 0x20 ≤ c && c < 0x7f

theorem isPrintable_spec (c : UInt8) (h : isPrintable c = true) :
    c < 0x80 ∧ isCTL c = false :=
  forall_byte (P := fun c => isPrintable c = true →
    c < 0x80 ∧ isCTL c = false) (by decide +kernel) c h

/-- A byte that does not end the path of a URL, nor starts an escape. -/
def isURLByte (c : UInt8) : Bool :=
  c != percent && c != question && c != hash

theorem not_mem_of_isURLByte {s : GoString}
    (h : ∀ c ∈ s, isURLByte c = true) :
    percent ∉ s ∧ question ∉ s ∧ hash ∉ s := by
  have hnot : ∀ c, isURLByte c = false → c ∉ s := fun c hc hmem => by
    rw [h c hmem] at hc
    cases hc
  exact ⟨hnot _ (by decide), hnot _ (by decide), hnot _ (by decide)⟩

section Plain

variable {x q : GoString} (hx : ∀ c ∈ x, isURLByte c = true)
  (hprint : ∀ c ∈ x, isPrintable c = true)
  (hqprint : ∀ c ∈ q, isPrintable c = true) (hqhash : hash ∉ q)
include hx hprint hqprint hqhash

/-- Plain text is parsed as it is. -/
theorem parseLocal_plain :
    parseLocal (x ++ queryTail q) = some ⟨x, (queryTail q).drop 1, []⟩ := by
  obtain ⟨hpercent, hquestion, hhash⟩ := not_mem_of_isURLByte hx
  obtain ⟨hbefore, hfrom⟩ := cut_queryTail hquestion q
  have hnohash : hash ∉ x ++ queryTail q := fun hmem => by
    rcases List.mem_append.mp hmem with hmem | hmem
    · exact hhash hmem
    · rcases mem_queryTail hmem with heq | hmem
      · cases heq
      · exact hqhash hmem
  have hctl : (x ++ queryTail q).any isCTL = false := by
    rw [List.any_eq_false]
    intro c hc
    rw [Bool.not_eq_true]
    rcases List.mem_append.mp hc with hc | hc
    · exact (isPrintable_spec c (hprint c hc)).2
    · rcases mem_queryTail hc with rfl | hc
      · decide
      · exact (isPrintable_spec c (hqprint c hc)).2
  unfold parseLocal
  rw [before_eq_self hnohash, fromFirst_eq_nil hnohash]
  dsimp only
  rw [hctl, hbefore, hfrom, unescape_eq_self hpercent]
  rfl

/-- And it is redirected to as it is, if it is clean. -/
theorem redirectLocation_plain (hkeep : cleanKeepSlash x = x) :
    redirectLocation (toValidUTF8 (x ++ queryTail q)) = x ++ queryTail q := by
  obtain ⟨-, hquestion, -⟩ := not_mem_of_isURLByte hx
  obtain ⟨hbefore, hfrom⟩ := cut_queryTail hquestion q
  have hascii : ∀ c ∈ x ++ queryTail q, c < 0x80 := fun c hc => by
    rcases List.mem_append.mp hc with hc | hc
    · exact (isPrintable_spec c (hprint c hc)).1
    · rcases mem_queryTail hc with rfl | hc
      · decide
      · exact (isPrintable_spec c (hqprint c hc)).1
  have htarget : redirectTarget (x ++ queryTail q) = x ++ queryTail q := by
    unfold redirectTarget
    rw [parseLocal_plain hx hprint hqprint hqhash]
    dsimp only
    rw [hbefore, hfrom, hkeep]
  rw [toValidUTF8_ascii hascii, redirectLocation, htarget,
    hexEscape_ascii hascii]

omit hprint hqprint in
/-- Where it leads. -/
theorem lands_plain :
    percentDecode (locationPath (x ++ queryTail q)) = x
      ∧ locationQuery (x ++ queryTail q) = q := by
  obtain ⟨hpercent, hquestion, hhash⟩ := not_mem_of_isURLByte hx
  rw [locationPath_append hquestion (head_queryTail q), before_eq_self hhash,
    percentDecode_eq_self hpercent]
  exact ⟨rfl, locationQuery_queryTail hquestion hhash hqhash⟩

end Plain

/-- A page with plain text is accepted. -/
theorem PageOf.accepts {m : Manager} {path x q : GoString}
    (h : PageOf m.cfg.basePath path x)
    (hx : ∀ c ∈ x, isURLByte c = true)
    (hprint : ∀ c ∈ x, isPrintable c = true) (hback : backslash ∉ x)
    (hqprint : ∀ c ∈ q, isPrintable c = true) (hqhash : hash ∉ q) :
    m.accepts (x ++ queryTail q) = true := by
  obtain ⟨u, hu, hhead⟩ := h.rooted
  have hfront : hasPrefix (x ++ queryTail q) [slash] = true := by
    rw [hu]
    rfl
  have hsecond : hasPrefix (x ++ queryTail q) [slash, slash] = false := by
    rw [hu]
    cases u with
    | nil =>
        rcases head_queryTail q with hq | hq
        · rw [hq]
          rfl
        · cases hq' : queryTail q with
          | nil => rfl
          | cons c cs =>
              rw [hq'] at hq
              cases Option.some.inj hq
              rfl
    | cons c cs =>
        have hc : slash ≠ c := fun heq => hhead (by rw [heq]; rfl)
        simp [hasPrefix, List.isPrefixOf, hc]
  unfold Manager.accepts
  rw [hfront, hsecond, parseLocal_plain hx hprint hqprint hqhash]
  exact h.pathAllowed hback

-- ==== the condition

/-- The mount and the login page are written as URLs take them. -/
structure PlainMount (m : Manager) : Prop where
  mounted : Mounted m.cfg.basePath
  url : ∀ c ∈ m.cfg.basePath, isURLByte c = true
  backslash : backslash ∉ m.cfg.basePath
  login : ∃ u, m.cfg.basePath ++ m.cfg.loginPath = slash :: u
    ∧ question ∉ u ∧ hash ∉ u

/-- A `GET` request that `Gate` sends to the login page, for a clean
printable path and a printable query. -/
structure AsksForPage (m : Manager) (r : Request) (env : GateEnv) :
    Prop where
  get : r.method = methodGet
  /-- `CrossOriginProtection` lets every `GET` pass -/
  origin : (m.cfg.trustedOrigins.isSome && r.crossOrigin) = false
  gated : m.exempt.contains r.path = false
  dead : readSession r.cookie env.readAt = none
  rooted : r.path.head? = some slash
  clean : clean r.path = r.path
  print : ∀ c ∈ r.path, isPrintable c = true
  backslash : backslash ∉ r.path
  query : ∀ c ∈ r.rawQuery, isPrintable c = true
  hash : hash ∉ r.rawQuery

/-- A `Location` that leads to the page of a request. -/
def LandsOn (m : Manager) (r : Request) (loc : GoString) : Prop :=
  percentDecode (locationPath loc) = m.cfg.basePath ++ r.path
    ∧ locationQuery loc = r.rawQuery

/-- `New` checks the bytes of the mount, which is the cookie's path. -/
theorem isPrintable_base (m : Manager) :
    ∀ c ∈ m.cfg.basePath, isPrintable c = true := by
  intro c hc
  have hne : m.cfg.basePath ≠ [] := List.ne_nil_of_mem hc
  have hvalid := m.cookiePath_valid
  rw [Config.cookiePath, if_neg hne] at hvalid
  exact forall_byte (P := fun c => validCookiePathByte c = true →
    isPrintable c = true) (by decide +kernel) c
    (List.all_eq_true.mp hvalid c hc)

/-- The path that a text with a leading slash is redirected to. -/
theorem locationPath_redirectTarget {u : GoString} {parsed : URL}
    (h : parseLocal (slash :: u) = some parsed) :
    locationPath (redirectTarget (slash :: u))
      = before hash (cleanKeepSlash (before question (slash :: u))) := by
  have hcut : before question (slash :: u) = slash :: before question u :=
    before_cons_of_ne (by decide) u
  simp only [redirectTarget, h]
  rw [hcut]
  exact locationPath_cleaned (not_mem_before u) (head_fromFirst _)

theorem length_cleanKeepSlash_le (u : GoString) :
    (cleanKeepSlash (slash :: u)).length ≤ (slash :: u).length := by
  obtain ⟨tail, -, hkeep, hsub⟩ := cleanKeepSlash_rooted u
  rw [hkeep]
  exact hsub.length_le

/-- What a `?`, a `#` or an escape leaves of a text: less of it. -/
theorem length_decoded_lt {u q : GoString} {parsed : URL}
    (h : parseLocal (slash :: u ++ queryTail q) = some parsed)
    (hkeep : cleanKeepSlash (slash :: u) = slash :: u) (hq : hash ∉ q)
    (hbyte : ∃ c ∈ slash :: u, isURLByte c = false) :
    (percentDecode (locationPath
      (redirectTarget (slash :: u ++ queryTail q)))).length
      < (slash :: u).length := by
  have hpath := @locationPath_redirectTarget (u ++ queryTail q) parsed h
  rw [← List.cons_append] at hpath
  rw [hpath]
  by_cases hquestion : question ∈ slash :: u
  · obtain ⟨hbefore, hlt⟩ := before_append_of_mem hquestion (queryTail q)
    have hcut : before question (slash :: u) = slash :: before question u :=
      before_cons_of_ne (by decide) u
    rw [hbefore]
    rw [hcut] at hlt ⊢
    calc (percentDecode (before hash
          (cleanKeepSlash (slash :: before question u)))).length
        ≤ (before hash (cleanKeepSlash
            (slash :: before question u))).length :=
          length_percentDecode_le _
      _ ≤ (cleanKeepSlash (slash :: before question u)).length :=
          length_before_le _ _
      _ ≤ (slash :: before question u).length := length_cleanKeepSlash_le _
      _ < (slash :: u).length := hlt
  rw [(cut_queryTail hquestion q).1, hkeep]
  by_cases hhash : hash ∈ slash :: u
  · exact Nat.lt_of_le_of_lt (length_percentDecode_le _)
      (before_append_of_mem hhash []).2
  · -- what is left are escapes, and all of them were complete
    have hpercent : percent ∈ slash :: u := by
      obtain ⟨c, hc, hbyte⟩ := hbyte
      have hcases : c = percent ∨ c = question ∨ c = hash := by
        simpa [isURLByte, Classical.or_iff_not_imp_left] using hbyte
      rcases hcases with rfl | rfl | rfl
      · exact hc
      · exact absurd hc hquestion
      · exact absurd hc hhash
    have hnohash : hash ∉ slash :: u ++ queryTail q := fun hmem => by
      rcases List.mem_append.mp hmem with hmem | hmem
      · exact hhash hmem
      · rcases mem_queryTail hmem with heq | hmem
        · cases heq
        · exact hq hmem
    have hraw := path_of_parseLocal h
    rw [before_eq_self hnohash, (cut_queryTail hquestion q).1] at hraw
    obtain ⟨hdecode, hlt⟩ := unescape_shorter hraw
    rw [before_eq_self hhash, hdecode]
    exact hlt hpercent

section Condition

variable {m : Manager} {r : Request} {env : GateEnv} (hm : PlainMount m)
  (hr : AsksForPage m r env)
include hm hr

/-- The login ends with what `Gate` puts into `return_to`. -/
theorem roundTrip_eq :
    m.roundTrip r env = some (m.callbackLocation
      (m.cfg.basePath ++ r.path ++ queryTail r.rawQuery)) := by
  obtain ⟨u, hu, hquestion, hhash⟩ := hm.login
  have hreturn : (if r.rawQuery ≠ [] then
      m.cfg.basePath ++ r.path ++ question :: r.rawQuery
      else m.cfg.basePath ++ r.path)
        = m.cfg.basePath ++ r.path ++ queryTail r.rawQuery := by
    unfold queryTail
    split
    · rfl
    · exact (List.append_nil _).symm
  have hgate : (m.gate r env).1 = .redirect (slash :: u
      ++ ascii "?return_to=" ++ queryEscape
        (m.cfg.basePath ++ r.path ++ queryTail r.rawQuery)) := by
    rw [gate_dead hr.origin hr.gated hr.dead, Manager.login,
      if_pos hr.get]
    dsimp only
    rw [hreturn, hu]
  unfold Manager.roundTrip
  rw [hgate]
  dsimp only
  rw [returnTo_arrives hquestion hhash]

theorem page : PageOf m.cfg.basePath r.path (m.cfg.basePath ++ r.path) := by
  have hroot := hr.rooted
  have hclean := hr.clean
  cases hpath : r.path with
  | nil =>
      rw [hpath] at hroot
      cases hroot
  | cons c v =>
      rw [hpath] at hroot hclean
      cases Option.some.inj hroot
      exact pageOf hm.mounted hclean

omit hm in
/-- Every byte of the page's text is printable. -/
theorem isPrintable_page :
    ∀ c ∈ m.cfg.basePath ++ r.path, isPrintable c = true := by
  intro c hc
  rcases List.mem_append.mp hc with hc | hc
  · exact isPrintable_base m c hc
  · exact hr.print c hc

/-- A path that URLs take as it is comes back. -/
theorem landsOn_plain (hpath : ∀ c ∈ r.path, isURLByte c = true) :
    LandsOn m r (m.callbackLocation
      (m.cfg.basePath ++ r.path ++ queryTail r.rawQuery)) := by
  have hpage := page hm hr
  have hprint := isPrintable_page hr
  have hurl : ∀ c ∈ m.cfg.basePath ++ r.path, isURLByte c = true := by
    intro c hc
    rcases List.mem_append.mp hc with hc | hc
    · exact hm.url c hc
    · exact hpath c hc
  have hback : backslash ∉ m.cfg.basePath ++ r.path := fun hmem => by
    rcases List.mem_append.mp hmem with hmem | hmem
    · exact hm.backslash hmem
    · exact hr.backslash hmem
  have haccepts := hpage.accepts hurl hprint hback hr.query hr.hash
  rw [Manager.callbackLocation, m.safeReturnTo_eq, if_pos haccepts,
    redirectLocation_plain hurl hprint hr.query hr.hash hpage.keep]
  exact lands_plain hurl hr.hash

omit hr in
/-- The fallback is the root of the mount. -/
theorem path_of_fallback (h : percentDecode (locationPath
      (redirectLocation (toValidUTF8 (m.cfg.basePath ++ [slash]))))
        = m.cfg.basePath ++ r.path) : r.path = [slash] := by
  have hpage : PageOf m.cfg.basePath [slash] (m.cfg.basePath ++ [slash]) :=
    pageOf hm.mounted (by decide)
  have hurl : ∀ c ∈ m.cfg.basePath ++ [slash], isURLByte c = true := by
    intro c hc
    rcases List.mem_append.mp hc with hc | hc
    · exact hm.url c hc
    · rw [List.mem_singleton.mp hc]
      decide
  have hprint : ∀ c ∈ m.cfg.basePath ++ [slash], isPrintable c = true := by
    intro c hc
    rcases List.mem_append.mp hc with hc | hc
    · exact isPrintable_base m c hc
    · rw [List.mem_singleton.mp hc]
      decide
  have hloc := @redirectLocation_plain _ [] hurl hprint nofun nofun hpage.keep
  have hlands := (@lands_plain _ [] hurl nofun).1
  rw [show queryTail [] = [] from rfl, List.append_nil] at hloc hlands
  rw [hloc, hlands] at h
  exact (List.append_cancel_left h).symm

/-- The page is reached only if its path has no such bytes. -/
theorem plain_of_lands (h : LandsOn m r (m.callbackLocation
      (m.cfg.basePath ++ r.path ++ queryTail r.rawQuery))) :
    ∀ c ∈ r.path, isURLByte c = true := by
  intro c hc
  cases hbyte : isURLByte c with
  | true => rfl
  | false =>
      have hland := h.1
      rw [Manager.callbackLocation, m.safeReturnTo_eq] at hland
      split at hland
      · rename_i hacc
        obtain ⟨-, parsed, -, hparsed, -⟩ := Manager.accepts_spec hacc
        have hpage := page hm hr
        have hprint := isPrintable_page hr
        obtain ⟨u, hu, -⟩ := hpage.rooted
        have hmem : c ∈ m.cfg.basePath ++ r.path :=
          List.mem_append_right _ hc
        have hkeep := hpage.keep
        have hascii : ∀ d ∈ m.cfg.basePath ++ r.path ++ queryTail r.rawQuery,
            d < 0x80 := by
          intro d hd
          rcases List.mem_append.mp hd with hd | hd
          · exact (isPrintable_spec d (hprint d hd)).1
          · rcases mem_queryTail hd with rfl | hd
            · decide
            · exact (isPrintable_spec d (hr.query d hd)).1
        rw [toValidUTF8_ascii hascii, redirectLocation,
          locationPath_hexEscape, percentDecode_hexEscape] at hland
        rw [hu] at hland hparsed hkeep hmem
        have hlt := length_decoded_lt hparsed hkeep hr.hash ⟨c, hmem, hbyte⟩
        rw [hland] at hlt
        exact absurd hlt (Nat.lt_irrefl _)
      · have hroot := path_of_fallback hm hland
        rw [hroot, List.mem_singleton] at hc
        rw [hc] at hbyte
        exact absurd hbyte (by decide)

end Condition

/-- A request without a session comes back, after the login, to the page
that it asked for exactly if the decoded path has none of `%`, `?` and
`#`. -/
theorem roundTrip_lands_iff {m : Manager} {r : Request} {env : GateEnv}
    (hm : PlainMount m) (hr : AsksForPage m r env) :
    ∃ loc, m.roundTrip r env = some loc
      ∧ (LandsOn m r loc ↔ ∀ c ∈ r.path, isURLByte c = true) :=
  ⟨_, roundTrip_eq hm hr, plain_of_lands hm hr, landsOn_plain hm hr⟩

-- ==== samples

/-- A request for a page, with no cookie. -/
def pageRequest (path rawQuery : GoString) : Request where
  method := methodGet
  path := path
  rawQuery := rawQuery
  cookie := none
  crossOrigin := false

/-- Surroundings that are not asked for anything. -/
def anyTime : GateEnv where
  readAt := 0
  extendAt := 0
  isRevoked := none
  canSeal := fun _ => none

/-- A page of a mount, with a query, a space and a plus. -/
theorem roundTrip_lands_iff_query :
    ∃ m, new (fun _ => true) (.mountedAt (ascii "/portal")) = .ok m
      ∧ ∃ loc, m.roundTrip
          (pageRequest (ascii "/a b+c") (ascii "tab=%3F&x=a?b")) anyTime
            = some loc
        ∧ LandsOn m (pageRequest (ascii "/a b+c") (ascii "tab=%3F&x=a?b"))
          loc := by
  obtain ⟨m, hnew⟩ : ∃ m,
      new (fun _ => true) (.mountedAt (ascii "/portal")) = .ok m := ⟨_, rfl⟩
  have hcfg := cfg_of_new hnew
  have hm : PlainMount m := by
    refine ⟨?_, ?_, ?_, ⟨ascii "portal/auth/login", ?_, ?_, ?_⟩⟩
    · rw [hcfg]
      exact .inr ⟨ascii "portal", by decide, rfl, by decide⟩
    · rw [hcfg]
      decide +kernel
    · rw [hcfg]
      decide
    · rw [hcfg]
      rfl
    · decide
    · decide
  have hr : AsksForPage m
      (pageRequest (ascii "/a b+c") (ascii "tab=%3F&x=a?b")) anyTime := by
    refine ⟨rfl, Bool.and_false _, ?_, rfl, rfl, ?_, ?_, ?_, ?_, ?_⟩
    · rw [Manager.exempt, hcfg]
      decide
    all_goals decide +kernel
  obtain ⟨loc, htrip, hlands⟩ := roundTrip_lands_iff hm hr
  exact ⟨m, hnew, loc, htrip, hlands.mpr (by decide +kernel)⟩

/-- Bytes that came escaped in the path are read as delimiters, or lead to
the fallback: `/a%3Fb` ends at `/a` with the query `b`, `/a%23b` at `/a`,
`/a%2541` at `/aA` and `/a%25` at the root. -/
theorem roundTrip_lands_not :
    ∃ m, new (fun _ => true) (.mountedAt []) = .ok m
      ∧ ∀ p ∈ [("/a?b", "/a?b"), ("/a#b", "/a#b"), ("/a%41", "/a%41"),
          ("/a%", "/")],
        m.roundTrip (pageRequest (ascii p.1) []) anyTime = some (ascii p.2)
          ∧ ¬ LandsOn m (pageRequest (ascii p.1) []) (ascii p.2) := by
  refine ⟨_, rfl, ?_⟩
  unfold LandsOn
  decide +kernel

end Tokyo3Base.Session
