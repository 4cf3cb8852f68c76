/-
What `restyLogger` writes of an error with a URL in it: nothing of the
userinfo of the URL, nor of the values of its sensitive parameters.

What `sanitizeURL` shows is what a `View` of the URL holds, and a view has
no place for either. The logger puts it where the message shows the URL,
between quotes, provided that it is quoted as it is; the quotes then keep
every match inside of them or out. That is so for every `*url.Error` with
that URL, at any depth. A URL that `%q` writes in another way is mostly
not found in the message, which is then logged as it is.
-/
import Tokyo3Base.Api.RestyLogger
import Tokyo3Base.Go.Proofs.Quote
import Tokyo3Base.Go.Proofs.Replace

namespace Tokyo3Base.Api

open Go NetURL

-- ==== views

/-- What may be shown of a URL. -/
structure View where
  scheme : GoString
  opaquePart : GoString
  /-- there is userinfo -/
  hasUser : Bool
  host : GoString
  path : GoString
  rawPath : GoString
  omitHost : Bool
  /-- the parameters, with the values of those that are not sensitive;
  `none` if the query cannot be read -/
  query : Option (List (GoString × Option (List GoString)))
  fragment : GoString
  rawFragment : GoString
deriving DecidableEq

/-- The values that may be shown of a parameter. -/
def viewParam (toLower : ToLower) (e : GoString × List GoString) :
    GoString × Option (List GoString) :=
  (e.1, if isSensitiveLogField toLower e.1 then none else some e.2)

def view (toLower : ToLower) (u : NetURL.URL) : View :=
  { scheme := u.scheme, opaquePart := u.opaquePart
    hasUser := u.user.isSome, host := u.host, path := u.path
    rawPath := u.rawPath, omitHost := u.omitHost
    query := (parseQuery u.rawQuery).toOption.map fun q =>
      q.map (viewParam toLower)
    fragment := u.fragment, rawFragment := u.rawFragment }

/-- The query of a view, written with the marker for what is missing. -/
def View.rawQuery (v : View) : GoString :=
  v.query.elim [] fun q =>
    Values.encode (q.map fun e => (e.1, e.2.getD [redactedLogValue]))

def View.render (v : View) : GoString :=
  { scheme := v.scheme, opaquePart := v.opaquePart
    user := if v.hasUser then some ⟨redactedLogValue, none⟩ else none
    host := v.host, path := v.path, rawPath := v.rawPath
    omitHost := v.omitHost, forceQuery := false, rawQuery := v.rawQuery
    fragment := v.fragment, rawFragment := v.rawFragment : NetURL.URL }.string

/-- A query that is not empty is written with its question mark
anyway. -/
theorem string_forceQuery (u : NetURL.URL) (b : Bool)
    (h : u.rawQuery = [] → b = false) :
    { u with forceQuery := b }.string
      = { u with forceQuery := false }.string := by
  by_cases hq : u.rawQuery = []
  · rw [h hq]
  · have hwritten : ∀ b, (({ u with forceQuery := b } : NetURL.URL).string
        = u.hierarchy ++ (question :: u.rawQuery)
          ++ (if u.fragment ≠ [] then hash :: u.escapedFragment else [])) := by
      intro b
      have hif : b = true ∨ u.rawQuery ≠ [] := .inr hq
      exact congrArg (fun q => u.hierarchy ++ q ++ _) (if_pos hif)
    rw [hwritten b, hwritten false]

theorem view_query (toLower : ToLower) (q : Values) :
    (q.map (viewParam toLower)).map
        (fun e => (e.1, e.2.getD [redactedLogValue]))
      = sanitizeQuery toLower q := by
  rw [List.map_map]
  refine List.map_congr_left fun e _ => ?_
  simp only [Function.comp_apply, viewParam]
  split <;> rfl

/-- What `sanitizeURL` gives is what a view shows. -/
theorem sanitizeURL_eq_render (toLower : ToLower) {parseAddr : ParseAddr}
    {raw : GoString} {u : NetURL.URL}
    (h : urlParse parseAddr raw = .ok u) :
    sanitizeURL toLower parseAddr raw = (view toLower u).render := by
  have huser : (u.user.map fun _ => Userinfo.mk redactedLogValue none)
      = if u.user.isSome then some ⟨redactedLogValue, none⟩ else none := by
    cases u.user <;> rfl
  unfold sanitizeURL
  rw [h]
  dsimp only
  cases hquery : parseQuery u.rawQuery with
  | error e =>
      have hraw : (view toLower u).rawQuery = [] := by
        rw [View.rawQuery, view, hquery]
        rfl
      rw [View.render, hraw, huser]
      rfl
  | ok q =>
      have hraw : (view toLower u).rawQuery = (sanitizeQuery toLower q).encode := by
        rw [View.rawQuery, view, hquery]
        exact congrArg Values.encode (view_query toLower q)
      dsimp only
      rw [View.render, hraw, huser]
      exact string_forceQuery { u with
        user := if u.user.isSome then some ⟨redactedLogValue, none⟩ else none
        rawQuery := (sanitizeQuery toLower q).encode } _ fun hnil => if_pos hnil

-- ==== message

/-- Two texts that are cut at some places, one after the other. -/
def glue : List GoString → List GoString → List GoString
  | [], ys => ys
  | [x], [] => [x]
  | [x], y :: ys => (x ++ y) :: ys
  | x :: x' :: xs, ys => x :: glue (x' :: xs) ys

/-- The message of an error, cut where a `*url.Error` with this URL shows
it. -/
def Err.texts (isPrint : GoString → Bool) (url : GoString) :
    Err → List GoString
  | .plain msg => [msg]
  | .urlError op url' err =>
      glue (if url' = url then [op ++ ascii " ", ascii ": "]
        else [op ++ ascii " " ++ Strconv.quote isPrint url' ++ ascii ": "])
        (err.texts isPrint url)
  | .wrap front err back => glue [front] (glue (err.texts isPrint url) [back])

/-- The same error, with another URL wherever it has this one. -/
def Err.setURL (old new : GoString) : Err → Err
  | .plain msg => .plain msg
  | .urlError op url err =>
      .urlError op (if url = old then new else url) (err.setURL old new)
  | .wrap front err back => .wrap front (err.setURL old new) back

section Message

variable {isPrint : GoString → Bool} {err : Err} {url : GoString}

theorem glue_ne_nil {xs ys : List GoString} (h : ys ≠ []) :
    glue xs ys ≠ [] := by
  cases xs with
  | nil => exact h
  | cons x xs =>
      cases xs with
      | nil =>
          obtain ⟨y, ys, rfl⟩ := List.exists_cons_of_ne_nil h
          exact List.cons_ne_nil _ _
      | cons x' xs => exact List.cons_ne_nil _ _

theorem intercalate_cons {q x : GoString} {xs : List GoString}
    (h : xs ≠ []) : q.intercalate (x :: xs) = x ++ q ++ q.intercalate xs := by
  obtain ⟨y, ys, rfl⟩ := List.exists_cons_of_ne_nil h
  simp [List.intercalate]

theorem intercalate_glue (q : GoString) {xs ys : List GoString}
    (hx : xs ≠ []) (hy : ys ≠ []) :
    q.intercalate (glue xs ys) = q.intercalate xs ++ q.intercalate ys := by
  induction xs with
  | nil => exact absurd rfl hx
  | cons x xs ih =>
      cases xs with
      | nil =>
          obtain ⟨y, ys, rfl⟩ := List.exists_cons_of_ne_nil hy
          cases ys with
          | nil => simp [glue, List.intercalate]
          | cons y' ys =>
              rw [glue, intercalate_cons (List.cons_ne_nil _ _),
                intercalate_cons (List.cons_ne_nil _ _)]
              simp [List.intercalate]
      | cons x' xs =>
          rw [glue, intercalate_cons (glue_ne_nil hy),
            ih (List.cons_ne_nil _ _), intercalate_cons (List.cons_ne_nil _ _)]
          simp

theorem Err.texts_ne_nil (isPrint : GoString → Bool) (url : GoString)
    (err : Err) : err.texts isPrint url ≠ [] := by
  induction err with
  | plain msg => exact List.cons_ne_nil _ _
  | urlError op url' err ih => exact glue_ne_nil ih
  | wrap front err back ih =>
      exact glue_ne_nil (glue_ne_nil (List.cons_ne_nil _ _))

/-- The message with another URL, or with the same. -/
theorem Err.message_setURL (isPrint : GoString → Bool) (url url' : GoString)
    (err : Err) : (err.setURL url url').message isPrint
      = (Strconv.quote isPrint url').intercalate (err.texts isPrint url) := by
  induction err with
  | plain msg => simp [Err.setURL, Err.message, Err.texts, List.intercalate]
  | urlError op u err ih =>
      have hne := err.texts_ne_nil isPrint url
      rw [Err.setURL, Err.message, ih, Err.texts,
        intercalate_glue _ (by split <;> exact List.cons_ne_nil _ _) hne]
      by_cases hu : u = url
      · simp [hu, errorText, List.intercalate]
      · simp [hu, errorText, List.intercalate]
  | wrap front err back ih =>
      have hne := err.texts_ne_nil isPrint url
      rw [Err.setURL, Err.message, ih, Err.texts,
        intercalate_glue _ (List.cons_ne_nil _ _)
          (glue_ne_nil (List.cons_ne_nil _ _)),
        intercalate_glue _ hne (List.cons_ne_nil _ _)]
      simp [List.intercalate]

theorem Err.setURL_self (url : GoString) (err : Err) :
    err.setURL url url = err := by
  induction err with
  | plain msg => rfl
  | urlError op u err ih =>
      rw [Err.setURL, ih]
      split
      · next hu => rw [hu]
      · rfl
  | wrap front err back ih => rw [Err.setURL, ih]

theorem Err.url_setURL (h : err.url = some url) (url' : GoString) :
    (err.setURL url url').url = some url' := by
  induction err with
  | plain msg => cases h
  | urlError op u err _ =>
      obtain rfl := Option.some.inj h
      simp [Err.setURL, Err.url]
  | wrap front err back ih => exact ih h

end Message

-- ==== logged

/-- A URL that `%q` writes as it is, between quotes. -/
def PlainlyQuoted (isPrint : GoString → Bool) (url : GoString) : Prop :=
  Strconv.quote isPrint url = 34 :: url ++ [34]

instance (isPrint : GoString → Bool) (url : GoString) :
    Decidable (PlainlyQuoted isPrint url) :=
  inferInstanceAs (Decidable (_ = _))

/-- Texts with a URL between them, in quotes: it is replaced there, and
wherever else it stands. -/
theorem replaceAll_intercalate {url : GoString} (hne : url ≠ [])
    (hquote : 34 ∉ url) (new : GoString) {ts : List GoString} (hts : ts ≠ []) :
    replaceAll ((34 :: url ++ [34]).intercalate ts) url new
      = (34 :: new ++ [34]).intercalate
        (ts.map fun t => replaceAll t url new) := by
  induction ts with
  | nil => exact absurd rfl hts
  | cons t ts ih =>
      cases ts with
      | nil => simp [List.intercalate]
      | cons t' ts =>
          have hcut : (34 :: url ++ [34]).intercalate (t :: t' :: ts)
              = t ++ 34 :: (url ++ 34
                :: (34 :: url ++ [34]).intercalate (t' :: ts)) := by
            rw [intercalate_cons (List.cons_ne_nil _ _)]
            simp
          have hmap : (t' :: ts).map (fun t => replaceAll t url new) ≠ [] :=
            List.cons_ne_nil _ _
          rw [hcut, replaceAll_between hne hquote, ih (List.cons_ne_nil _ _)]
          refine .trans ?_ (intercalate_cons hmap).symm
          simp

section Logged

variable {isPrint : GoString → Bool} {toLower : ToLower}
  {parseAddr : ParseAddr} {err : Err} {url : GoString} {u : NetURL.URL}

/-- What is logged of an error. -/
def loggedText (isPrint : GoString → Bool) (toLower : ToLower)
    (url : GoString) (u : NetURL.URL) (err : Err) : GoString :=
  (34 :: (view toLower u).render ++ [34]).intercalate
    ((err.texts isPrint url).map fun t =>
      replaceAll t url (view toLower u).render)

/-- The error may come with the URL, or have it in place of another. -/
theorem redactArg_setURL {α : Type} (hurl : err.url = some url)
    {url' : GoString} {u' : NetURL.URL}
    (hparse : urlParse parseAddr url' = .ok u')
    (hplain : PlainlyQuoted isPrint url') :
    redactArg isPrint (sanitizeURL toLower parseAddr)
        (.error (err.setURL url url') : Arg α)
      = .text ((34 :: (view toLower u').render ++ [34]).intercalate
        ((err.texts isPrint url).map fun t =>
          replaceAll t url' (view toLower u').render)) := by
  unfold redactArg
  dsimp only
  rw [Err.url_setURL hurl]
  dsimp only
  rw [sanitizeURL_eq_render toLower hparse, Err.message_setURL, hplain]
  refine congrArg Arg.text ?_
  by_cases hne : url' = []
  · -- nothing is shown of the empty URL
    subst hne
    have hzero : urlParse parseAddr [] = .ok NetURL.URL.zero := rfl
    rw [hzero] at hparse
    obtain rfl := Except.ok.inj hparse
    have hrender : (view toLower NetURL.URL.zero).render = [] := rfl
    simp only [hrender, replaceAll, if_true, interleave_nil, List.map_id']
  · exact replaceAll_intercalate hne
      (Strconv.not_mem_of_quote_eq isPrint hplain) _
      (err.texts_ne_nil isPrint url)

end Logged

/-- Of an error with a URL that is quoted as it is, the logger shows a view
of the URL: wherever a `*url.Error` with that URL shows it, and wherever
else it stands in the message. So two URLs with the same view, in an error
that does not repeat them, are logged alike. An error whose message does
not hold the URL is logged as it is. -/
theorem restyLogger_shows_view {α : Type} (isPrint : GoString → Bool)
    (toLower : ToLower) (parseAddr : ParseAddr) {err : Err}
    {url : GoString} {u : NetURL.URL} (hurl : err.url = some url)
    (hparse : urlParse parseAddr url = .ok u) :
    (PlainlyQuoted isPrint url →
      redactArg isPrint (sanitizeURL toLower parseAddr) (.error err : Arg α)
        = .text (loggedText isPrint toLower url u err)
      ∧ ∀ (url' : GoString) (u' : NetURL.URL),
        urlParse parseAddr url' = .ok u' → PlainlyQuoted isPrint url' →
        view toLower u' = view toLower u →
        (∀ t ∈ err.texts isPrint url,
          contains t url = false ∧ contains t url' = false) →
        ∀ (print : GoString → GoString)
          (printf : GoString → List (Arg α) → GoString) (level : Level)
          (format : GoString) (v w : List (Arg α)),
          output isPrint (sanitizeURL toLower parseAddr) print printf
              (level.label ++ format)
              (v ++ .error (err.setURL url url') :: w)
            = output isPrint (sanitizeURL toLower parseAddr) print printf
              (level.label ++ format) (v ++ .error err :: w))
    ∧ (contains (err.message isPrint) url = false →
      redactArg isPrint (sanitizeURL toLower parseAddr) (.error err : Arg α)
        = .text (err.message isPrint)) := by
  refine ⟨fun hplain => ?_, fun hno => ?_⟩
  · have hlogged : redactArg isPrint (sanitizeURL toLower parseAddr)
        (.error err : Arg α) = .text (loggedText isPrint toLower url u err) := by
      have h : redactArg isPrint (sanitizeURL toLower parseAddr)
          (.error (err.setURL url url) : Arg α) = _ :=
        redactArg_setURL hurl hparse hplain
      rwa [err.setURL_self url] at h
    refine ⟨hlogged, ?_⟩
    intro url' u' hparse' hplain' hview hno print printf level format v w
    have hsame : redactArg isPrint (sanitizeURL toLower parseAddr)
          (.error (err.setURL url url') : Arg α)
        = redactArg isPrint (sanitizeURL toLower parseAddr) (.error err) := by
      rw [hlogged, redactArg_setURL hurl hparse' hplain', hview, loggedText]
      refine congrArg (fun ts => Arg.text (List.intercalate _ ts))
        (List.map_congr_left fun t ht => ?_)
      rw [replaceAll_eq_self (hno t ht).1, replaceAll_eq_self (hno t ht).2]
    unfold output
    rw [if_neg (by simp), if_neg (by simp), List.map_append, List.map_append,
      List.map_cons, List.map_cons, hsame]
  · unfold redactArg
    dsimp only
    rw [hurl]
    dsimp only
    rw [replaceAll_eq_self hno]

/-- Two passwords and two keys, in an error that is wrapped and holds
another one with the same URL. -/
theorem restyLogger_shows_view_wrapped :
    let url := ascii "http://svc:hunter2@h/x?api_key=SECRET&page=2"
    let url' := ascii "http://svc:swordfish@h/x?api_key=KEY&page=2"
    let err : Err := .wrap (ascii "retry failed: ")
      (.urlError (ascii "Get") url
        (.urlError (ascii "dial") url (.plain (ascii "refused")))) []
    let redacted := ascii "http://%2A%2A%2Aredacted%2A%2A%2A@h"
      ++ ascii "/x?api_key=%2A%2A%2Aredacted%2A%2A%2A&page=2"
    let shown := ascii "retry failed: Get \"" ++ redacted
      ++ ascii "\": dial \"" ++ redacted ++ ascii "\": refused"
    let log := fun err : Err => output (fun _ => true)
      (sanitizeURL .onlyASCII fun _ => .error []) id
      (fun format v => if .text shown ∈ v then format ++ shown else [])
      (Level.warn.label ++ ascii "%v, Attempt %v: ") ([] ++ .error err :: [.other 1])
    log err = ascii "WARN RESTY %v, Attempt %v: " ++ shown
      ∧ log (err.setURL url url') = log err := by
  intro url url' err redacted shown log
  refine ⟨by decide +kernel, ?_⟩
  let u : NetURL.URL := { NetURL.URL.zero with
    scheme := ascii "http", user := some ⟨ascii "svc", some (ascii "hunter2")⟩
    host := ascii "h", path := ascii "/x"
    rawQuery := ascii "api_key=SECRET&page=2" }
  let u' : NetURL.URL := { u with
    user := some ⟨ascii "svc", some (ascii "swordfish")⟩
    rawQuery := ascii "api_key=KEY&page=2" }
  have hurl : err.url = some url := rfl
  have hparse : urlParse (fun _ => .error []) url = .ok u := by decide +kernel
  have hparse' : urlParse (fun _ => .error []) url' = .ok u' := by
    decide +kernel
  exact ((restyLogger_shows_view (fun _ => true) .onlyASCII (fun _ => .error [])
    hurl hparse).1 (by decide +kernel)).2 url' u' hparse' (by decide +kernel)
    (by decide +kernel) (by decide +kernel) _ _ .warn _ [] [.other 1]

/-- The message of an error is logged as it is, and a secret is in it. -/
def LogsSecret (err : Err) : Prop :=
  ascii "SECRET" <:+: err.message (fun _ => true)
    ∧ redactArg (fun _ => true) (sanitizeURL .onlyASCII fun _ => .error [])
      (.error err : Arg Nat) = .text (err.message fun _ => true)

/-- So it is elsewhere: of a URL with a quote, a backslash or a byte that
is no character, which `%q` writes in another way, and of a `*url.Error`
that is inside of another one. -/
theorem restyLogger_shows_secret :
    LogsSecret (.urlError (ascii "Get")
        (ascii "http://h/?q=\"&api_key=SECRET") (.plain []))
      ∧ LogsSecret (.urlError (ascii "Get")
        (ascii "http://u:SECRET@h/?q=\\&page=2") (.plain []))
      ∧ LogsSecret (.urlError (ascii "Get")
        (ascii "http://h/?api_key=SECRET&q=" ++ [0xff]) (.plain []))
      ∧ LogsSecret (.urlError (ascii "Get") (ascii "http://a/")
        (.urlError (ascii "Get") (ascii "http://u:SECRET@b/")
          (.plain []))) := by
  unfold LogsSecret
  refine ⟨⟨?_, ?_⟩, ⟨?_, ?_⟩, ⟨?_, ?_⟩, ?_, ?_⟩ <;> decide +kernel

end Tokyo3Base.Api
