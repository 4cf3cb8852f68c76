/-
The path parameters with sensitive names in the URLs that are logged.

`sanitizeRequestURL` takes their values out of the decoded path, one after
the other in the order in which the map happens to be iterated, with
`strings.ReplaceAll`.

# What holds

`sanitizeRequestURL_redacts`: for parameters that fit the template
(`Redactable`) the result is the same for every order, and its path is the
template with the redaction marker for every sensitive placeholder. Values
that Resty escapes may hold any bytes, and a slash or an escape in them is
decoded before they are looked for. A value may even be a part of the
marker, unless it is looked for where one stands already.

# What does not

`sanitizeRequestURL_leaks`. A raw value with a complete escape in it is not
found in the decoded path. Of two sensitive values one of which is part of
the other, what the shorter one leaves of the longer one is logged, if it
comes first.

# The way through

1. the value of a placeholder is the one that the loop is given
2. the substituted path decodes to the pieces of the template
3. one round of the loop replaces the pieces with one value, so that after
   the loop all sensitive pieces are replaced (`Go.replaceAll_shown`)
4. the URL is written and parsed twice more (`NetURL.urlParse_string`)
-/
import Tokyo3Base.Api.PathParams
import Tokyo3Base.Go.Proofs.Absolute
import Tokyo3Base.Go.Proofs.Insert
import Tokyo3Base.Go.Proofs.Path

namespace Tokyo3Base.Api

open Go NetURL

-- ==== the four maps

theorem lookup_filter {keep : GoString → Bool} {name : GoString}
    (h : keep name = true) (src : List (GoString × GoString)) :
    (src.filter fun e => keep e.1).lookup name = src.lookup name := by
  induction src with
  | nil => rfl
  | cons e src ih =>
      obtain ⟨key, value⟩ := e
      by_cases hkey : name = key
      · subst hkey
        rw [List.filter_cons, if_pos h]
        simp
      · have hlookup (l : List (GoString × GoString)) :
            ((key, value) :: l).lookup name = l.lookup name := by
          simp [List.lookup_cons, beq_false_of_ne hkey]
        rw [List.filter_cons]
        split
        · rw [hlookup, hlookup, ih]
        · rw [hlookup, ih]

/-- A map that is added gives what the maps before it do not. -/
theorem lookup_addParams (params src : List (GoString × GoString))
    (name : GoString) :
    (addParams params src).lookup name
      = (params.lookup name).or (src.lookup name) := by
  rw [addParams, List.lookup_append]
  cases hparams : params.lookup name with
  | some value => rfl
  | none =>
      have hnew : (!params.any fun p => p.1 == name) = true := by
        rw [Bool.not_eq_true', List.any_eq_false]
        intro p hp heq
        have hne := List.lookup_eq_none_iff.mp hparams p hp
        exact absurd (beq_iff_eq.mp heq).symm (bne_iff_ne.mp hne)
      exact congrArg _ (@lookup_filter
        (fun key => !params.any fun p => p.1 == key) name hnew src)

theorem PathParams.lookup_all (params : PathParams) (name : GoString) :
    params.all.lookup name = (params.escaped name).or (params.raw name) := by
  simp only [PathParams.all, requestPathParams, List.foldl_cons,
    List.foldl_nil, lookup_addParams, PathParams.escaped, PathParams.raw,
    List.lookup_nil, Option.none_or, Option.or_assoc]

section Template

variable (toLower : ToLower) (params : PathParams)

/-- What a text of a path stands for. -/
def decodedText (text : GoString) : GoString :=
  (unescape .path text).toOption.getD []

/-- The pieces of the decoded path: what stands for the parameters with
sensitive names, and what else there is. -/
def Part.piece : Part → Piece
  | .literal text => .text (decodedText text)
  | .placeholder name =>
      if isSensitiveLogField toLower name then
        .value (decodedText (params.inserted name))
      else .text (decodedText (params.inserted name))

/-- The decoded path, in which some of the sensitive values are redacted. -/
def shownPath (done : GoString → Bool) (parts : List Part) : GoString :=
  shown redactedLogValue done (parts.map (Part.piece toLower params))

/-- The template with the redaction marker for every sensitive
placeholder. -/
def redactedPath (parts : List Part) : GoString :=
  parts.flatMap fun
    | .literal text => decodedText text
    | .placeholder name =>
        if isSensitiveLogField toLower name then redactedLogValue
        else decodedText (params.inserted name)

/-- A path template: it begins with a slash, its literal texts end neither
the path nor the URL, and their escapes are complete. -/
structure IsTemplate (parts : List Part) : Prop where
  begins : ∃ text rest, parts = .literal (slash :: text) :: rest
  literal : ∀ text, .literal text ∈ parts →
    (∀ c ∈ text, isPlain c = true) ∧ ∃ d, unescape .path text = .ok d

/-- A parameter that the loop looks for. -/
def looksFor (e : GoString × GoString) : Bool :=
  decide (e.2 ≠ []) && isSensitiveLogField toLower e.1

/-- The values that a loop over some parameters redacts. -/
def redacts (order : List (GoString × GoString)) (value : GoString) : Bool :=
  order.any fun e =>
    decide (e.2 ≠ []) && isSensitiveLogField toLower e.1 && value == e.2

/-- The parameters fit a template. Each placeholder has one, and what is
inserted as it is ends neither the path nor the URL and has complete
escapes. What stands in the decoded path for a sensitive parameter is the
value of one, or the marker. And when the turn of a sensitive value comes,
in whatever order, its matches begin in the path only where such a value
was inserted and is not redacted yet; of the marker itself nothing is
asked. -/
structure Redactable (parts : List Part) : Prop where
  assigned : ∀ name, .placeholder name ∈ parts →
    ∃ value, params.all.lookup name = some value
  raw : ∀ name value, .placeholder name ∈ parts →
    params.escaped name = none → params.raw name = some value →
      (∀ c ∈ value, isPlain c = true) ∧ ∃ d, unescape .path value = .ok d
  found : ∀ name, .placeholder name ∈ parts →
    isSensitiveLogField toLower name = true →
      decodedText (params.inserted name) = redactedLogValue
        ∨ redacts toLower params.all (decodedText (params.inserted name)) = true
  only : ∀ earlier e later, (earlier ++ e :: later).Perm params.all →
    isSensitiveLogField toLower e.1 = true → e.2 ≠ [] →
      e.2 ≠ redactedLogValue →
        OnlyInserted redactedLogValue (redacts toLower earlier) e.2
          (parts.map (Part.piece toLower params))

end Template

section Path

variable {toLower : ToLower} {params : PathParams} {parts : List Part}

theorem decodedText_eq {text d : GoString}
    (h : unescape .path text = .ok d) : decodedText text = d := by
  rw [decodedText, h]
  rfl

/-- What Resty inserts is decoded. -/
theorem Redactable.inserted (h : Redactable toLower params parts)
    {name : GoString} (hname : .placeholder name ∈ parts) :
    (∀ c ∈ params.inserted name, isPlain c = true)
      ∧ unescape .path (params.inserted name)
        = .ok (decodedText (params.inserted name)) := by
  obtain ⟨value, hvalue⟩ := h.assigned name hname
  rw [params.lookup_all] at hvalue
  cases hescaped : params.escaped name with
  | some v =>
      have hinserted : params.inserted name = pathEscape v := by
        rw [PathParams.inserted, hescaped]
      have hread : unescape .path (pathEscape v) = .ok v :=
        unescape_escape Mode.literal_path (by decide) v
      rw [hinserted, decodedText_eq hread]
      exact ⟨fun c hc => isPlain_escape (by decide) hc, hread⟩
  | none =>
      rw [hescaped, Option.none_or] at hvalue
      obtain ⟨hplain, d, hd⟩ := h.raw name value hname hescaped hvalue
      have hinserted : params.inserted name = value := by
        rw [PathParams.inserted, hescaped, hvalue]
      rw [hinserted, decodedText_eq hd]
      exact ⟨hplain, hd⟩

theorem Redactable.part (h : Redactable toLower params parts)
    (ht : IsTemplate parts) {part : Part} (hpart : part ∈ parts) :
    unescape .path (params.substitute [part])
      = .ok ((part.piece toLower params).shown redactedLogValue
          fun _ => false) := by
  cases part with
  | literal text =>
      obtain ⟨-, d, hd⟩ := ht.literal text hpart
      simp only [PathParams.substitute, List.flatMap_singleton, Part.piece,
        Piece.shown]
      rw [decodedText_eq hd, hd]
  | placeholder name =>
      obtain ⟨-, hread⟩ := h.inserted hpart
      simp only [PathParams.substitute, List.flatMap_singleton, Part.piece]
      split <;> exact hread

theorem unescape_substitute_of {done : GoString → Bool} {l : List Part}
    (h : ∀ part ∈ l, unescape .path (params.substitute [part])
      = .ok ((part.piece toLower params).shown redactedLogValue done)) :
    unescape .path (params.substitute l)
      = .ok (shownPath toLower params done l) := by
  induction l with
  | nil => rfl
  | cons part l ih =>
      have hfirst := h part List.mem_cons_self
      have hrest := ih fun q hq => h q (List.mem_cons_of_mem part hq)
      have hsub : params.substitute (part :: l)
          = params.substitute [part] ++ params.substitute l := by
        simp only [PathParams.substitute, List.flatMap_cons,
          List.flatMap_nil, List.append_nil]
      rw [hsub]
      exact unescape_append Mode.literal_path hfirst hrest

theorem Redactable.substitute_plain (h : Redactable toLower params parts)
    (ht : IsTemplate parts) {c : UInt8} (hc : c ∈ params.substitute parts) :
    isPlain c = true := by
  obtain ⟨part, hpart, hc⟩ := List.mem_flatMap.mp hc
  cases part with
  | literal text => exact (ht.literal text hpart).1 c hc
  | placeholder name => exact (h.inserted hpart).1 c hc

-- ==== the loop

theorem shownPath_marker (done : GoString → Bool) :
    shownPath toLower params (fun v => done v || v == redactedLogValue) parts
      = shownPath toLower params done parts := by
  unfold shownPath shown
  rw [List.flatMap_def, List.flatMap_def]
  refine congrArg List.flatten (List.map_congr_left fun piece _ => ?_)
  cases piece with
  | text t => rfl
  | value v =>
      by_cases hv : v = redactedLogValue
      · simp [Piece.shown, hv]
      · simp [Piece.shown, hv]

/-- One round of the loop: the path in which one more value is
redacted. -/
theorem replaceAll_shownPath {done : GoString → Bool} {value : GoString}
    (hne : value ≠ []) (h : value ≠ redactedLogValue →
      OnlyInserted redactedLogValue done value
        (parts.map (Part.piece toLower params))) :
    replaceAll (shownPath toLower params done parts) value redactedLogValue
      = shownPath toLower params (fun v => done v || v == value) parts := by
  by_cases hvalue : value = redactedLogValue
  · subst hvalue
    rw [replaceAll_self hne, shownPath_marker]
  · exact replaceAll_shown hne (h hvalue)

theorem looksFor_iff {e : GoString × GoString} : looksFor toLower e = true
    ↔ e.2 ≠ [] ∧ isSensitiveLogField toLower e.1 = true := by
  rw [looksFor, Bool.and_eq_true, decide_eq_true_eq]

theorem redacts_cons (e : GoString × GoString)
    (l : List (GoString × GoString)) : redacts toLower (e :: l)
      = fun v => looksFor toLower e && v == e.2 || redacts toLower l v := rfl

/-- The loop of `sanitizeRequestURL` changes only the path. -/
theorem redactParams_absoluteURL {scheme : GoString}
    {user : Option Userinfo} {host rawPath : GoString}
    {query : Option GoString} {order : List (GoString × GoString)}
    {done : GoString → Bool}
    (h : ∀ earlier e later, order = earlier ++ e :: later →
      isSensitiveLogField toLower e.1 = true → e.2 ≠ [] →
        e.2 ≠ redactedLogValue → OnlyInserted redactedLogValue
          (fun v => done v || redacts toLower earlier v) e.2
          (parts.map (Part.piece toLower params))) :
    redactParams toLower (absoluteURL scheme user host
        (shownPath toLower params done parts) rawPath query) order
      = absoluteURL scheme user host
          (shownPath toLower params
            (fun v => done v || redacts toLower order v) parts)
          (if order.any (looksFor toLower) then [] else rawPath) query := by
  induction order generalizing done rawPath with
  | nil => simp [redactParams, redacts]
  | cons e order ih =>
      rw [redactParams, List.foldl_cons, ← redactParams, List.any_cons]
      cases hlooked : looksFor toLower e with
      | true =>
          obtain ⟨hne, hsensitive⟩ := looksFor_iff.mp hlooked
          have hfirst : (fun v => done v || redacts toLower [] v) = done := by
            funext v
            simp [redacts]
          have honly := h [] e order rfl hsensitive hne
          rw [hfirst] at honly
          rw [if_pos ⟨hne, hsensitive⟩]
          have hstep : { absoluteURL scheme user host
                (shownPath toLower params done parts) rawPath query with
              path := replaceAll (shownPath toLower params done parts) e.2
                redactedLogValue
              rawPath := [] }
              = absoluteURL scheme user host (shownPath toLower params
                  (fun v => done v || v == e.2) parts) [] query := by
            rw [replaceAll_shownPath hne honly]
            rfl
          refine (congrArg (redactParams toLower · order) hstep).trans ?_
          rw [ih fun earlier e' later horder hs' hne' hmarker => ?_]
          · simp [redacts_cons, hlooked, Bool.or_assoc]
          · have := h (e :: earlier) e' later (by rw [horder]; rfl) hs' hne'
              hmarker
            simpa [redacts_cons, hlooked, Bool.or_assoc] using this
      | false =>
          have hredacts (l : List (GoString × GoString)) :
              redacts toLower (e :: l) = redacts toLower l := by
            rw [redacts_cons, hlooked]
            rfl
          have hno := fun hboth => Bool.false_ne_true
            (hlooked.symm.trans (looksFor_iff.mpr hboth))
          rw [if_neg hno, ih fun earlier e' later horder hs' hne' hm => ?_,
            Bool.false_or, hredacts]
          have := h (e :: earlier) e' later (by rw [horder]; rfl) hs' hne' hm
          rwa [hredacts] at this

/-- After the loop every sensitive placeholder is redacted, in whatever order
the parameters come. -/
theorem Redactable.shownPath_all (h : Redactable toLower params parts)
    {order : List (GoString × GoString)} (horder : order.Perm params.all) :
    shownPath toLower params (redacts toLower order) parts
      = redactedPath toLower params parts := by
  rw [shownPath, shown, List.flatMap_map, redactedPath, List.flatMap_def,
    List.flatMap_def]
  refine congrArg List.flatten (List.map_congr_left fun part hpart => ?_)
  cases part with
  | literal text => rfl
  | placeholder name =>
      simp only [Part.piece]
      split
      · next hsensitive =>
        obtain hmarker | hredacts := h.found name hpart hsensitive
        · simp only [Piece.shown, hmarker, ite_self]
        · rw [redacts, ← horder.any_eq, ← redacts] at hredacts
          simp only [Piece.shown, hredacts, if_true]
      · rfl

end Path

section Sanitised

variable {toLower : ToLower} {parseAddr : ParseAddr}

/-- What `sanitizeURL` makes of a query. -/
def sanitizedQuery (toLower : ToLower) (query : Option GoString) :
    Option GoString :=
  match parseQuery (query.getD []) with
  | .error _ => none
  | .ok values =>
      if (sanitizeQuery toLower values).encode = [] then none
      else some (sanitizeQuery toLower values).encode

theorem sanitizeURL_absoluteURL {raw scheme : GoString}
    {user : Option Userinfo} {host path rawPath : GoString}
    {query : Option GoString} (h : urlParse parseAddr raw
      = .ok (absoluteURL scheme user host path rawPath query)) :
    sanitizeURL toLower parseAddr raw
      = (absoluteURL scheme (user.map fun _ => ⟨redactedLogValue, none⟩) host
          path rawPath (sanitizedQuery toLower query)).string := by
  have hraw : (absoluteURL scheme user host path rawPath query).rawQuery
      = query.getD [] := rfl
  simp only [sanitizeURL, h, hraw, sanitizedQuery]
  cases hvalues : parseQuery (query.getD []) with
  | error err => rfl
  | ok values =>
      dsimp only
      split
      · next hempty =>
        rw [hempty]
        rfl
      · next hsome =>
        -- an empty query has no values
        have hforce : (query == some []) = false := by
          refine beq_false_of_ne ?_
          rintro rfl
          cases hvalues
          exact hsome rfl
        have hforce' : (some (sanitizeQuery toLower values).encode == some [])
            = false := beq_false_of_ne fun heq => hsome (Option.some.inj heq)
        unfold absoluteURL
        rw [hforce, hforce']
        rfl

theorem isPlain_encode {m : Values} {c : UInt8} (hc : c ∈ m.encode) :
    isPlain c = true := by
  rcases mem_join hc with rfl | ⟨setting, hsetting, hc⟩
  · decide
  · obtain ⟨e, -, hvalues⟩ := List.mem_flatMap.mp hsetting
    obtain ⟨value, -, rfl⟩ := List.mem_map.mp hvalues
    rcases List.mem_append.mp hc with hc | hc
    · exact isPlain_escape (by decide) hc
    · rcases List.mem_cons.mp hc with rfl | hc
      · decide
      · exact isPlain_escape (by decide) hc

theorem sanitizedQuery_plain {query : Option GoString} {c : UInt8}
    (hc : c ∈ (sanitizedQuery toLower query).getD []) :
    isCTL c = false ∧ c ≠ hash := by
  have hplain : isPlain c = true := by
    unfold sanitizedQuery at hc
    split at hc
    · cases hc
    · split at hc
      · cases hc
      · exact isPlain_encode hc
  exact ⟨(isPlain_iff.mp hplain).1, (isPlain_iff.mp hplain).2.1⟩

end Sanitised

-- ==== the whole call

/-- Where the requests of a client go: scheme and authority, and what they
are parsed to. -/
structure Site (parseAddr : ParseAddr) where
  scheme : GoString
  authority : GoString
  user : Option Userinfo
  host : GoString
  scheme_ok : isScheme scheme = true
  authority_plain : ∀ c ∈ authority, isPlain c = true ∧ c ≠ slash
  authority_ok : parseAuthority parseAddr (lowerASCII scheme) authority
    = .ok (user, host)
  host_ok : HostReadBack parseAddr (lowerASCII scheme) host

/-- The URL of a request. -/
def Site.url {parseAddr : ParseAddr} (site : Site parseAddr) (path : GoString)
    (query : Option GoString) : GoString :=
  absoluteText site.scheme site.authority path query

section Redacted

variable {toLower : ToLower} {parseAddr : ParseAddr} {params : PathParams}
  {parts : List Part}

/-- The template begins with a slash, whatever is redacted. -/
theorem IsTemplate.slash_shownPath (ht : IsTemplate parts)
    (done : GoString → Bool) :
    (shownPath toLower params done parts).head? = some slash := by
  obtain ⟨text, rest, rfl⟩ := ht.begins
  obtain ⟨-, d, hd⟩ := ht.literal _ List.mem_cons_self
  rw [unescape_cons Mode.literal_path (by decide)] at hd
  obtain ⟨d, hrest, rfl⟩ := map_ok hd
  have hdecoded : decodedText (slash :: text) = slash :: d :=
    decodedText_eq (by
      rw [unescape_cons Mode.literal_path (by decide), hrest]
      rfl)
  simp [shownPath, shown, Part.piece, Piece.shown, hdecoded]

/-- The URL is parsed, and its path is the decoded template. -/
theorem urlParse_site (site : Site parseAddr) {query : Option GoString}
    (hquery : ∀ c ∈ query.getD [], isCTL c = false ∧ c ≠ hash)
    (ht : IsTemplate parts) (h : Redactable toLower params parts) :
    ∃ rawPath, (rawPath ≠ [] → rawPath.head? = some slash)
      ∧ urlParse parseAddr (site.url (params.substitute parts) query)
        = .ok (absoluteURL (lowerASCII site.scheme) site.user site.host
          (shownPath toLower params (fun _ => false) parts) rawPath query) := by
  have hslash : (params.substitute parts).head? = some slash := by
    obtain ⟨text, rest, rfl⟩ := ht.begins
    rfl
  refine ⟨rawPathOf (params.substitute parts)
    (shownPath toLower params (fun _ => false) parts), ?_, ?_⟩
  · exact rawPathOf_slash hslash
  · exact urlParse_absolute
      { scheme_ok := site.scheme_ok
        authority_plain := site.authority_plain
        authority_ok := site.authority_ok
        text_slash := hslash
        text_plain := fun c hc => h.substitute_plain ht hc
        path_ok := unescape_substitute_of fun part hpart =>
          h.part ht hpart
        query_plain := hquery }

/-- Whatever the order of the parameters, the loop ends with the redacted
template for a path. -/
theorem Redactable.redactParams (h : Redactable toLower params parts)
    {order : List (GoString × GoString)} (horder : order.Perm params.all)
    (scheme : GoString) (user : Option Userinfo) (host rawPath : GoString)
    (query : Option GoString) :
    Api.redactParams toLower (absoluteURL scheme user host
        (shownPath toLower params (fun _ => false) parts) rawPath query) order
      = absoluteURL scheme user host (redactedPath toLower params parts)
          (if params.all.any (looksFor toLower) then [] else rawPath)
          query := by
  rw [redactParams_absoluteURL fun earlier e later heq hs hne hm => ?_,
    horder.any_eq]
  · simp only [Bool.false_or]
    rw [h.shownPath_all horder]
  · simp only [Bool.false_or]
    exact h.only earlier e later (heq ▸ horder) hs hne hm

/-- What is to be logged: a string that does not depend on the order in
which the map of the parameters is iterated, whose path is the template
with the redaction marker for every sensitive placeholder. -/
structure LogsTemplate (toLower : ToLower) (site : Site parseAddr)
    (params : PathParams) (parts : List Part) (query : Option GoString)
    (out : GoString) (u : NetURL.URL) : Prop where
  same : ∀ order, order.Perm params.all →
    sanitizeRequestURL toLower parseAddr
      (site.url (params.substitute parts) query) order = out
  parsed : urlParse parseAddr out = .ok u
  path : u.path = redactedPath toLower params parts

/-- That is logged of the URL of a request, with its scheme and host, the
marker for its userinfo and the sanitised query. -/
theorem sanitizeRequestURL_redacts (toLower : ToLower)
    {parseAddr : ParseAddr} (site : Site parseAddr) (params : PathParams)
    (parts : List Part) (query : Option GoString)
    (hquery : ∀ c ∈ query.getD [], isCTL c = false ∧ c ≠ hash)
    (ht : IsTemplate parts) (h : Redactable toLower params parts) :
    ∃ out u, LogsTemplate toLower site params parts query out u
      ∧ ((∃ e ∈ params.all, e.2 ≠ []
        ∧ isSensitiveLogField toLower e.1 = true) → u.rawPath = [])
      ∧ u.scheme = lowerASCII site.scheme ∧ u.host = site.host
      ∧ u.user = (site.user.map fun _ => ⟨redactedLogValue, none⟩)
      ∧ u.rawQuery = (sanitizedQuery toLower query).getD [] := by
  obtain ⟨rawPath, hraw, hparse⟩ := urlParse_site site hquery ht h
  have hslash : (redactedPath toLower params parts).head? = some slash := by
    rw [← h.shownPath_all (List.Perm.refl _)]
    exact ht.slash_shownPath _
  have hscheme := isScheme_lowerASCII site.scheme_ok
  have hlower := lowerASCII_idem site.scheme
  -- the encoding of the path after the loop, and as it is parsed again
  generalize hkept : (if params.all.any (looksFor toLower) then []
    else rawPath) = kept
  have hkept_slash : kept ≠ [] → kept.head? = some slash := by
    rw [← hkept]
    split
    · exact fun hne => absurd rfl hne
    · exact hraw
  have htext := pathText_slash hslash hkept_slash
  have hagain : rawPathOf (pathText (redactedPath toLower params parts) kept)
        (redactedPath toLower params parts) ≠ [] →
      (rawPathOf (pathText (redactedPath toLower params parts) kept)
        (redactedPath toLower params parts)).head? = some slash :=
    rawPathOf_slash htext
  refine ⟨_, _, ⟨fun order horder => ?_,
    urlParse_string hscheme hlower site.host_ok hslash hagain
      fun c hc => sanitizedQuery_plain hc, rfl⟩, ?_, rfl, rfl, rfl, rfl⟩
  · simp only [sanitizeRequestURL, hparse]
    rw [h.redactParams horder, hkept]
    exact sanitizeURL_absoluteURL
      (urlParse_string hscheme hlower site.host_ok hslash hkept_slash hquery)
  · rintro ⟨e, he, hlooked⟩
    have hnil : kept = [] := by
      rw [← hkept]
      exact if_pos (List.any_eq_true.mpr ⟨e, he, looksFor_iff.mpr hlooked⟩)
    show rawPathOf (pathText _ (rawPathOf (pathText _ kept) _)) _ = []
    rw [hnil, rawPathOf_pathText_nil hslash, rawPathOf_pathText_nil hslash]

end Redacted

/-- A host without a port, for a parser that refuses all addresses. -/
def hostSite : Site fun _ => .error [] where
  scheme := ascii "http"
  authority := ascii "h"
  user := none
  host := ascii "h"
  scheme_ok := by decide
  authority_plain := by decide +kernel
  authority_ok := rfl
  host_ok := rfl

/-- A token that is part of the marker, escaped, and a page, raw. -/
def pageParams : PathParams :=
  ⟨[(ascii "token", ascii "red")], [], [], [(ascii "page", ascii "7/8")]⟩

def pageParts : List Part :=
  [.literal (ascii "/reset/"), .placeholder (ascii "token"),
    .literal (ascii "/"), .placeholder (ascii "page")]

theorem pageParts_isTemplate : IsTemplate pageParts := by
  refine ⟨⟨_, _, rfl⟩, fun text htext => ?_⟩
  have hcases : text = ascii "/reset/" ∨ text = ascii "/" := by
    simpa [pageParts] using htext
  rcases hcases with rfl | rfl
  · exact ⟨by decide +kernel, _,
      unescape_eq_self Mode.literal_path (by decide)⟩
  · exact ⟨by decide +kernel, _,
      unescape_eq_self Mode.literal_path (by decide)⟩

theorem pageParts_redactable :
    Redactable .onlyASCII pageParams pageParts := by
  have hname {name : GoString} (h : .placeholder name ∈ pageParts) :
      name = ascii "token" ∨ name = ascii "page" := by
    simpa [pageParts] using h
  have hall : pageParams.all = [(ascii "token", ascii "red"),
      (ascii "page", ascii "7/8")] := by decide +kernel
  -- the page is not sensitive
  have hentry : ∀ e ∈ pageParams.all,
      isSensitiveLogField .onlyASCII e.1 = true →
        e = (ascii "token", ascii "red") := by
    rw [hall]
    decide +kernel
  refine ⟨?_, ?_, ?_, ?_⟩
  · intro name h
    rcases hname h with rfl | rfl
    · exact ⟨ascii "red", by decide +kernel⟩
    · exact ⟨ascii "7/8", by decide +kernel⟩
  · intro name value h hescaped hraw
    rcases hname h with rfl | rfl
    · exact absurd hescaped (by decide +kernel)
    · have hvalue : pageParams.raw (ascii "page") = some (ascii "7/8") := by
        decide +kernel
      cases hvalue.symm.trans hraw
      exact ⟨by decide +kernel, _,
        unescape_eq_self Mode.literal_path (by decide)⟩
  · intro name h hsensitive
    rcases hname h with rfl | rfl
    · exact .inr (by decide +kernel)
    · exact absurd hsensitive (by decide +kernel)
  · intro earlier e later hperm hsensitive _ _
    have hmem {e' : GoString × GoString} (h : e' ∈ earlier ++ e :: later) :=
      hperm.mem_iff.mp h
    obtain rfl := hentry e (hmem (by simp)) hsensitive
    -- there is one token only, so nothing is redacted before it
    have hcount := hperm.count_eq (ascii "token", ascii "red")
    rw [hall, List.count_append, List.count_cons_self] at hcount
    have hnone : redacts .onlyASCII earlier = fun _ => false := by
      funext v
      refine List.any_eq_false.mpr fun e' he' => ?_
      intro htrue
      simp only [Bool.and_eq_true] at htrue
      obtain rfl := hentry e' (hmem (by simp [he'])) htrue.1.2
      have hpos := List.count_pos_iff.mpr he'
      have hone : List.count (ascii "token", ascii "red")
          [(ascii "token", ascii "red"), (ascii "page", ascii "7/8")] = 1 := by
        decide +kernel
      omega
    rw [hnone]
    decide +kernel

theorem sanitizeRequestURL_redacts_page : ∃ out u,
    LogsTemplate .onlyASCII hostSite pageParams pageParts none out u
      ∧ u.path = ascii "/reset/***redacted***/7/8" := by
  obtain ⟨out, u, hlogs, -⟩ :=
    sanitizeRequestURL_redacts .onlyASCII hostSite pageParams pageParts none
      (fun c hc => absurd hc List.not_mem_nil) pageParts_isTemplate
      pageParts_redactable
  exact ⟨out, u, hlogs, hlogs.path.trans (by decide +kernel)⟩

-- ==== what the condition excludes

/-- A raw token with an escape. -/
def escapeParams : PathParams :=
  ⟨[], [], [(ascii "token", ascii "s%65cret")], []⟩

def escapeParts : List Part :=
  [.literal (ascii "/reset/"), .placeholder (ascii "token")]

/-- Two tokens, one of which begins with the other. -/
def nestedParams : PathParams :=
  ⟨[(ascii "token", ascii "abc"), (ascii "session", ascii "abcd")], [], [], []⟩

def nestedParts : List Part :=
  [.literal (ascii "/"), .placeholder (ascii "token"),
    .literal (ascii "/"), .placeholder (ascii "session")]

/-- No sensitive value occurs in the literal texts or in a value that is not
sensitive. -/
def ValuesApart (toLower : ToLower) (params : PathParams)
    (parts : List Part) : Bool :=
  params.all.all fun e => !isSensitiveLogField toLower e.1
    || parts.all fun part =>
      match part.piece toLower params with
      | .text t => !contains t e.2
      | .value _ => true

/-- A raw value is compared with the decoded path: with an escape in it, it is
not found, and the token is logged. Of two values one of which begins with
the other, the rest of the longer one is logged if the shorter one comes
first. -/
theorem sanitizeRequestURL_leaks :
    (ValuesApart .onlyASCII escapeParams escapeParts = true
      ∧ sanitizeRequestURL .onlyASCII (fun _ => .error [])
        (hostSite.url (escapeParams.substitute escapeParts) none)
        escapeParams.all
      = ascii "http://h/reset/secret"
      ∧ ¬ ∃ out u, LogsTemplate .onlyASCII hostSite escapeParams escapeParts
        none out u)
    ∧ ValuesApart .onlyASCII nestedParams nestedParts = true
    ∧ sanitizeRequestURL .onlyASCII (fun _ => .error [])
        (hostSite.url (nestedParams.substitute nestedParts) none)
        nestedParams.all
      = ascii "http://h/%2A%2A%2Aredacted%2A%2A%2A"
        ++ ascii "/%2A%2A%2Aredacted%2A%2A%2Ad"
    ∧ ¬ ∃ out u, LogsTemplate .onlyASCII hostSite nestedParams nestedParts
      none out u := by
  have hescape : sanitizeRequestURL .onlyASCII (fun _ => .error [])
      (hostSite.url (escapeParams.substitute escapeParts) none)
      escapeParams.all = ascii "http://h/reset/secret" := by decide +kernel
  have hnested : sanitizeRequestURL .onlyASCII (fun _ => .error [])
      (hostSite.url (nestedParams.substitute nestedParts) none)
      nestedParams.all = ascii "http://h/%2A%2A%2Aredacted%2A%2A%2A"
        ++ ascii "/%2A%2A%2Aredacted%2A%2A%2Ad" := by decide +kernel
  refine ⟨⟨by decide +kernel, hescape, ?_⟩, by decide +kernel, hnested, ?_⟩
  · rintro ⟨out, u, hlogs⟩
    have hout := hlogs.same _ (List.Perm.refl _)
    rw [hescape] at hout
    have hparse : urlParse (fun _ => .error []) (ascii "http://h/reset/secret")
        = .ok { NetURL.URL.zero with
            scheme := ascii "http", host := ascii "h"
            path := ascii "/reset/secret" } := by decide +kernel
    have hu := hlogs.parsed
    rw [← hout, hparse] at hu
    cases hu
    exact absurd hlogs.path (by decide +kernel)
  · -- in the other order nothing is left over
    rintro ⟨out, u, hlogs⟩
    have hout := hlogs.same _ (List.Perm.refl _)
    have hother := hlogs.same _ nestedParams.all.reverse_perm
    rw [hnested, ← hother] at hout
    exact absurd hout (by decide +kernel)

end Tokyo3Base.Api
