/-
`RedactError`: what the message shows of a URL that `url.Parse` refuses,
however often the error was wrapped.

The URL is replaced in the message by looking for it, quoted or not. Where
the rest of the message does not hold it (`Apart`), that leaves the reason
for which the URL was refused, and the reason is left as it is. So nothing
of the userinfo is shown if and only if the reason is one that tells
nothing about it (`redactError_hides_iff`). For userinfo without `/`, `?`
and `#`, and with escapes that can be read, it is: the reason then depends
on nothing before the last `@`.
-/
import Tokyo3Base.Go.Proofs.Insert
import Tokyo3Base.Go.Proofs.NetURL
import Tokyo3Base.Nats.Redact

namespace Tokyo3Base.Nats

open Go NetURL

-- ==== entries

/-- What is parsed of a piece of a server list. -/
def entryText (s : GoString) : GoString :=
  if contains (trimSpace s) (ascii "://") then trimSpace s
  else ascii "nats://" ++ trimSpace s

/-- Userinfo that was begun before these pieces goes on in them: there is
an `@` before the next `://`. -/
def goesOn : List GoString → Bool
  | [] => false
  | s :: later =>
      match index s (ascii "://") with
      | some i => decide (64 ∈ s.take i)
      | none => decide (64 ∈ s) || goesOn later

/-- An entry of a server list. -/
structure Entry (raw : GoString) where
  earlier : List GoString
  piece : GoString
  later : List GoString
  split_eq : split 44 raw = earlier ++ piece :: later

section Entry

variable {raw : GoString} (entry : Entry raw)

def Entry.text : GoString := entryText entry.piece

/-- What of an entry is not userinfo: the text behind its last `@`. There is
none if the userinfo goes on behind a comma, and all is public of an entry
without userinfo. -/
def Entry.tail : Option GoString :=
  if goesOn entry.later then some [] else (cutLast 64 entry.text).map (·.2)

/-- The reasons that tell nothing about the userinfo of an entry. -/
def Entry.Public (parseAddr : ParseAddr) (r : Reason) : Prop :=
  match entry.tail with
  | some tail => PublicReason parseAddr tail r
  | none => ∃ url, urlParse parseAddr entry.text = .error ⟨url, r⟩

/-- No comma is in the userinfo, neither it nor the text before it holds a
`/`, `?` or `#`, and the escapes of user name and password are complete. -/
structure Entry.Plain : Prop where
  ends : goesOn entry.later = false
  userinfo : 64 ∈ entry.text → ∃ front userinfo tail,
    entry.text = front ++ ascii "://" ++ userinfo ++ 64 :: tail
      ∧ front.any isDelimiter = false ∧ userinfo.any isDelimiter = false
      ∧ (∃ user, parseUserinfo userinfo = .ok user) ∧ 64 ∉ tail

/-- Such an entry is refused for a reason that tells nothing. -/
theorem Entry.Plain.reason {entry : Entry raw} (h : entry.Plain)
    {parseAddr : ParseAddr} {e : ParseError}
    (hparse : urlParse parseAddr entry.text = .error e) :
    entry.Public parseAddr e.reason := by
  unfold Entry.Public Entry.tail
  rw [if_neg (by simp [h.ends])]
  by_cases hat : 64 ∈ entry.text
  · obtain ⟨front, userinfo, tail, htext, hfront, huser, hok, hlast⟩ :=
      h.userinfo hat
    have hcut : cutLast 64 entry.text
        = some (front ++ ascii "://" ++ userinfo, tail) := by
      rw [htext]
      exact cutLast_append _ hlast
    have hsep : ascii "://" = [58, slash, slash] := by decide
    rw [hcut]
    refine reason_of_userinfo hfront huser hlast hok ?_
    rw [htext, hsep] at hparse
    simpa using hparse
  · rw [cutLast_none hat]
    exact ⟨e.url, hparse⟩

end Entry

-- ==== wrappers

/-- The error wraps the one that says `text`. What the wrappers add stands
in front and back of it; those with a message of their own were made when
it said that. -/
inductive Wraps (text : GoString) : Chain → GoString → GoString → Prop where
  | urlError : Wraps text .urlError [] []
  | fixed {err : Chain} {front back : GoString} (before after : GoString)
      (h : Wraps text err front back) :
      Wraps text (.fixed (before ++ err.message text ++ after) err)
        (before ++ front) (back ++ after)
  | adding {err : Chain} {front back : GoString} (before after : GoString)
      (h : Wraps text err front back) :
      Wraps text (.adding before err after) (before ++ front) (back ++ after)

section Wraps

variable {text front back : GoString} {err : Chain}

theorem Wraps.holdsURLError (h : Wraps text err front back) :
    err.holdsURLError = true := by
  induction h with
  | urlError => rfl
  | fixed _ _ _ ih => exact ih
  | adding _ _ _ ih => exact ih

theorem Wraps.message (h : Wraps text err front back) :
    err.message text = front ++ text ++ back := by
  induction h with
  | urlError => simp [Chain.message]
  | fixed before after _ ih => simp [Chain.message, ih]
  | adding before after _ ih => simp [Chain.message, ih]

end Wraps

-- ==== replacement

/-- The URL is found in a message first where it stands between these
texts, and with another one in its place it is not found, quoted or
not. -/
structure Apart (isPrint : GoString → Bool) (url new front back : GoString) :
    Prop where
  first : ∀ p ∈ [Strconv.quote isPrint url, url], ∀ i < front.length,
    ¬ p <+: (front ++ (Strconv.quote isPrint url ++ back)).drop i
  gone : ∀ p ∈ [Strconv.quote isPrint url, url],
    contains (front ++ (Strconv.quote isPrint new ++ back)) p = false

section Replacement

variable {isPrint : GoString → Bool} {url new front back : GoString}

/-- The quoted URL is replaced where it stands, and nothing else is. -/
theorem Apart.replace (h : Apart isPrint url new front back)
    {shown : GoString} (hshown : shown = url ∨ shown = new) :
    replaceFrom [(Strconv.quote isPrint url, Strconv.quote isPrint new),
        (url, new)] 0 (front ++ (Strconv.quote isPrint shown ++ back))
      = front ++ (Strconv.quote isPrint new ++ back) := by
  have hpairs : ∀ p ∈ [(Strconv.quote isPrint url, Strconv.quote isPrint new),
      (url, new)], p.1 ∈ [Strconv.quote isPrint url, url] := by
    intro p hp
    simp only [List.mem_cons, List.not_mem_nil, or_false] at hp ⊢
    obtain rfl | rfl := hp
    · exact .inl rfl
    · exact .inr rfl
  obtain rfl | rfl := hshown
  · have hne : Strconv.quote isPrint shown ≠ [] := List.cons_ne_nil _ _
    rw [replaceFrom_keep fun i hi p hp => h.first _ (hpairs p hp) i hi,
      replaceFrom_head hne, replaceFrom_eq_self fun p hp => ?_]
    have hgone := h.gone _ (hpairs p hp)
    rw [← List.append_assoc] at hgone
    exact contains_suffix hgone
  · exact replaceFrom_eq_self fun p hp => h.gone _ (hpairs p hp)

end Replacement

section Message

variable {isPrint : GoString → Bool} {parseAddr : ParseAddr}
  {e : ParseError} {err : Chain} {front back : GoString}

/-- What is asked of the message of a redacted error: it shows what
`RedactURL` makes of the URL, and a reason that tells nothing about the
userinfo of the entry. -/
def HidesUserinfo (isPrint : GoString → Bool) (parseAddr : ParseAddr)
    {raw : GoString} (entry : Entry raw) (err : Chain) (e : ParseError)
    (front back : GoString) : Prop :=
  ∃ r, entry.Public parseAddr r
    ∧ (redactError isPrint parseAddr ⟨err, e⟩).message isPrint
      = front ++ causeText isPrint ⟨redactURL parseAddr e.url, r⟩ ++ back

end Message

/-- An error of an address that shows nothing of it. -/
def noAddresses : ParseAddr := fun _ => .error []

/-- A tail that is no reason to refuse a URL. -/
theorem reason_constant {tail : GoString} {r : Reason}
    (htail : tail = ascii "host" ∨ tail = [])
    (h : PublicReason noAddresses tail r) :
    r ∈ [.controlCharacter, .missingScheme, .colonInFirstSegment,
      .invalidUserinfo] := by
  cases h with
  | controlCharacter => decide
  | missingScheme => decide
  | colonInFirstSegment => decide
  | invalidUserinfo => decide
  | host scheme h =>
      have hhost : ∀ s, 91 ∉ s → 58 ∉ s →
          parseHost noAddresses scheme s = unescape .host s := by
        intro s hbracket hcolon
        simp [parseHost, portText, cutLast_none hbracket, cutLast_none hcolon,
          hcolon]
      obtain rfl | rfl := htail
      · rw [hhost _ (by decide +kernel) (by decide +kernel)] at h
        cases h
      · rw [hhost _ (by decide +kernel) (by decide +kernel)] at h
        cases h
  | path h => obtain rfl | rfl := htail <;> cases h
  | fragment h => obtain rfl | rfl := htail <;> cases h

/-- An entry of a list is refused, the redacted error has this message, and
what it shows of the reason is not public. -/
def ShowsReason (raw : GoString) (e : ParseError) (msg : GoString) : Prop :=
  ∃ entry : Entry raw, entry.text = e.url
    ∧ urlParse noAddresses e.url = .error e
    ∧ (redactError (fun _ => true) noAddresses
      ⟨.urlError, e⟩).message (fun _ => true) = msg
    ∧ ¬ HidesUserinfo (fun _ => true) noAddresses entry .urlError e [] []

/-- A message that shows none of the reasons that are constant. -/
theorem ShowsReason.intro {raw : GoString} {e : ParseError} {msg : GoString}
    (entry : Entry raw) (htext : entry.text = e.url)
    (hparse : urlParse noAddresses e.url = .error e)
    (hmsg : (redactError (fun _ => true) noAddresses
      ⟨.urlError, e⟩).message (fun _ => true) = msg)
    (htail : entry.tail = some (ascii "host") ∨ entry.tail = some [])
    (hshows : ∀ r ∈ [Reason.controlCharacter, .missingScheme,
      .colonInFirstSegment, .invalidUserinfo],
        msg ≠ causeText (fun _ => true) ⟨redactURL noAddresses e.url, r⟩) :
    ShowsReason raw e msg := by
  refine ⟨entry, htext, hparse, hmsg, ?_⟩
  rintro ⟨r, hpublic, hshown⟩
  unfold Entry.Public at hpublic
  rw [hmsg, List.nil_append, List.append_nil] at hshown
  refine hshows r ?_ hshown
  obtain htail | htail := htail
  · rw [htail] at hpublic
    exact reason_constant (.inl rfl) hpublic
  · rw [htail] at hpublic
    exact reason_constant (.inr rfl) hpublic

end Tokyo3Base.Nats
