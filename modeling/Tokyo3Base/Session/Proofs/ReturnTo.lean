/-
Exactly when a login ends inside the mount.

# What goes wrong

`SafeReturnTo` checks the decoded path of the parsed value, while
`http.Redirect` cleans the raw text up to the first `?`. A `..` in the
fragment is no part of the checked path and still removes a name of it
when the text is cleaned (`callback_location_escapes`). An escaped slash
or dot is one name for the cleaning and several for the check. And the
fallback is sent as a URL too, so a mount whose name is not plain text
is not where it seems to be.

# The condition

The cleaned text is the slash and the names that no later `..` removes
(`surviving`, read from the right). For an accepted value the condition
is on these: the first does not begin with a backslash, and together,
cut at `#` and decoded, they resolve under the mount
(`StaysInside`). For a refused value it is on the mount alone
(`PlainBase`).

The value has been through JSON by then, so the condition is on the text
as it comes back. That still parses. A mount whose name JSON changes is
never found again: the fallback has as much ASCII as the name and one
slash, and a decoded escape would cost two bytes of it
(`toValidUTF8_of_inMount`).
-/
import Tokyo3Base.Go.Proofs.JSON
import Tokyo3Base.Go.Proofs.Path
import Tokyo3Base.Go.Proofs.URL
import Tokyo3Base.Session.ReturnTo

namespace Tokyo3Base.Session

open Go

-- ==== the condition

/-- A `return_to` that `SafeReturnTo` passes on. -/
def Manager.accepts (m : Manager) (p : GoString) : Bool :=
  hasPrefix p [slash] && !hasPrefix p [slash, slash]
    && (match parseLocal p with
      | none => false
      | some u => m.pathAllowed u.path)

/-- The names of the text before the first `?` that no later `..`
removes lead into the mount. -/
def StaysInside (base p : GoString) : Prop :=
  (∀ w ∈ (surviving (before question p)).head?,
    w.head? ≠ some backslash)
  ∧ Under base (clean (percentDecode (before hash
      (slash :: join slash (surviving (before question p))))))

instance (base p : GoString) : Decidable (StaysInside base p) :=
  inferInstanceAs (Decidable (_ ∧ _))

/-- A mount whose name JSON and a URL leave alone. -/
def PlainBase (base : GoString) : Prop :=
  toValidUTF8 base = base ∧ question ∉ base ∧ hash ∉ base
    ∧ percentDecode base = base ∧ base.tail.head? ≠ some backslash

instance (base : GoString) : Decidable (PlainBase base) :=
  inferInstanceAs (Decidable (_ ∧ _ ∧ _ ∧ _ ∧ _))

def LandsInside (m : Manager) (p : GoString) : Prop :=
  if m.accepts p then StaysInside m.cfg.basePath (toValidUTF8 p)
  else PlainBase m.cfg.basePath

instance (m : Manager) (p : GoString) : Decidable (LandsInside m p) :=
  inferInstanceAs (Decidable (if m.accepts p then StaysInside _ _
    else PlainBase _))

/-- A mount as `New` leaves it: none, or a clean path below the root. -/
def Mounted (base : GoString) : Prop :=
  base = [] ∨ ∃ u, u ≠ [] ∧ base = slash :: u ∧ clean base = base

-- ==== the location's path

/-- The path of a `Location` without a `?` before its query. -/
theorem locationPath_append {t q : GoString} (ht : question ∉ t)
    (hq : q = [] ∨ q.head? = some question) :
    locationPath (t ++ q) = before hash t := by
  induction t with
  | nil =>
      rcases hq with rfl | hq
      · rfl
      · cases q with
        | nil => cases hq
        | cons c cs =>
            cases Option.some.inj hq
            rfl
  | cons c cs ih =>
      have hc : c ≠ question := fun h => ht (h ▸ List.mem_cons_self)
      have ih' := ih fun h => ht (List.mem_cons_of_mem _ h)
      by_cases hh : c = hash
      · subst hh
        rfl
      · rw [before_cons_of_ne hh, ← ih']
        simp [locationPath, hc, hh]

-- ==== what Redirect sends

theorem locationPath_cons {c : UInt8}
    (h : (c != question && c != hash) = true) (cs : GoString) :
    locationPath (c :: cs) = c :: locationPath cs := by
  simp only [locationPath, List.takeWhile_cons, h, if_true]

/-- The bytes of an escape neither start a query nor a fragment. -/
theorem escape_plain (c : UInt8) :
    (lowerHex (c / 16) != question && lowerHex (c / 16) != hash) = true
    ∧ (lowerHex (c % 16) != question && lowerHex (c % 16) != hash) = true :=
  forall_byte (P := fun c =>
      (lowerHex (c / 16) != question && lowerHex (c / 16) != hash) = true
      ∧ (lowerHex (c % 16) != question && lowerHex (c % 16) != hash) = true)
    (by decide +kernel) c

/-- Escaping does not move the end of the path. -/
theorem locationPath_hexEscape (x : GoString) :
    locationPath (hexEscapeNonASCII x)
      = hexEscapeNonASCII (locationPath x) := by
  induction x with
  | nil => rfl
  | cons c cs ih =>
      by_cases hstop : (c != question && c != hash) = true
      · rw [locationPath_cons hstop]
        by_cases hascii : c < 0x80
        · rw [hexEscape_cons_ascii hascii, hexEscape_cons_ascii hascii,
            locationPath_cons hstop, ih]
        · obtain ⟨hhigh, hlow⟩ := escape_plain c
          rw [hexEscape_cons_high hascii, hexEscape_cons_high hascii,
            locationPath_cons (by decide), locationPath_cons hhigh,
            locationPath_cons hlow, ih]
      · -- a query or a fragment begins here, with an ASCII byte
        have hascii : c < 0x80 := by
          rw [Bool.and_eq_true, bne_iff_ne, bne_iff_ne, not_and,
            Classical.not_not] at hstop
          by_cases hq : c = question
          · subst hq
            decide
          · rw [hstop hq]
            decide
        rw [hexEscape_cons_ascii hascii]
        simp only [locationPath, List.takeWhile_cons, hstop]
        rfl

/-- Escaping does not change where a browser goes. -/
theorem inMount_hexEscape {base u : GoString} :
    InMount base (hexEscapeNonASCII (slash :: u))
      ↔ InMount base (slash :: u) := by
  have hpath : clean (percentDecode (locationPath
        (hexEscapeNonASCII (slash :: u))))
      = clean (percentDecode (locationPath (slash :: u))) := by
    rw [locationPath_hexEscape, percentDecode_hexEscape]
  have hcons : hexEscapeNonASCII (slash :: u)
      = slash :: hexEscapeNonASCII u := hexEscape_cons_ascii (by decide) u
  unfold InMount
  rw [hpath, hcons]
  cases u with
  | nil => rfl
  | cons c cs =>
      obtain ⟨d, ds, hd, ⟨rfl, -⟩ | ⟨rfl, hhigh⟩⟩ := hexEscape_head c cs
      · rw [hd]
        simp
      · rw [hd]
        have hslash : c ≠ slash := by
          rintro rfl
          exact hhigh (by decide)
        have hback : c ≠ backslash := by
          rintro rfl
          exact hhigh (by decide)
        have hpslash : percent ≠ slash := by decide
        have hpback : percent ≠ backslash := by decide
        simp [hslash, hback, hpslash, hpback]

-- ==== an accepted return_to

/-- A trailing slash is no name of the path. -/
theorem clean_decode_append_slash (v : GoString) :
    clean (percentDecode (before hash (slash :: (v ++ [slash]))))
      = clean (percentDecode (before hash (slash :: v))) := by
  have hs : slash ≠ hash := by decide
  have hp : slash ≠ percent := by decide
  rw [before_cons_of_ne hs, before_cons_of_ne hs]
  by_cases hv : hash ∈ v
  · rw [(before_append_of_mem hv [slash]).1]
  · have hv' : hash ∉ v ++ [slash] := by
      simp [hv, Ne.symm hs]
    rw [before_eq_self hv, before_eq_self hv',
      percentDecode_cons_of_ne hp, percentDecode_cons_of_ne hp,
      percentDecode_append_slash, clean_append_slash]

/-- What follows the leading slash of a cleaned text: the first
surviving name, and without one nothing or the query. -/
theorem head_after_slash {u tail q : GoString}
    (htail : tail = []
      ∨ tail = [slash] ∧ endsIn (clean (slash :: u)) slash = false) :
    (join slash (surviving u) ++ (tail ++ q)).head?
      = match surviving u with
        | [] => q.head?
        | w :: _ => w.head? := by
  cases hk : surviving u with
  | nil =>
      rcases htail with rfl | ⟨-, hends⟩
      · rfl
      · -- the bare root already ends in a slash
        rw [clean_rooted, hk] at hends
        exact absurd hends (by decide)
  | cons w ws =>
      have hw : w ≠ [] :=
        (surviving_name (u := u) (hk ▸ List.mem_cons_self)).1
      obtain ⟨c, cs, rfl⟩ := List.exists_cons_of_ne_nil hw
      rw [List.head?_append, head_join hw]
      rfl

/-- So the byte there is no slash, and it is a backslash only where a
surviving name begins with one. -/
theorem second_byte {u tail q : GoString}
    (htail : tail = []
      ∨ tail = [slash] ∧ endsIn (clean (slash :: u)) slash = false)
    (hq : q = [] ∨ q.head? = some question) :
    (join slash (surviving u) ++ (tail ++ q)).head? ≠ some slash
    ∧ ((join slash (surviving u) ++ (tail ++ q)).head? ≠ some backslash
      ↔ ∀ w ∈ (surviving u).head?, w.head? ≠ some backslash) := by
  have hquery : ∀ c, c ≠ question → q.head? ≠ some c := by
    intro c hc hhead
    rcases hq with rfl | hq
    · cases hhead
    · rw [hq] at hhead
      exact hc (Option.some.inj hhead).symm
  rw [head_after_slash htail]
  cases hk : surviving u with
  | nil =>
      refine ⟨hquery slash (by decide), fun _ w hw => ?_,
        fun _ => hquery backslash (by decide)⟩
      cases hw
  | cons w ws =>
      have hname := surviving_name (u := u) (hk ▸ List.mem_cons_self)
      refine ⟨fun hs => ?_, fun hb v hv => ?_, fun h => h w rfl⟩
      · exact (hname.2 slash (List.mem_of_mem_head? hs)).2 rfl
      · cases hv
        exact hb

/-- The path of a cleaned text with a query. -/
theorem locationPath_cleaned {u q : GoString} (hu : question ∉ u)
    (hq : q = [] ∨ q.head? = some question) :
    locationPath (cleanKeepSlash (slash :: u) ++ q)
      = before hash (cleanKeepSlash (slash :: u)) := by
  refine locationPath_append (fun hmem => ?_) hq
  obtain ⟨tail, htail, hkeep, -⟩ := cleanKeepSlash_rooted u
  rw [hkeep] at hmem
  rcases List.mem_append.mp hmem with hmem | hmem
  · rcases mem_of_mem_clean hmem with h | h
    · exact absurd h (by decide)
    · exact hu h
  · rcases htail with rfl | ⟨rfl, -⟩
    · cases hmem
    · exact absurd hmem (by decide)

/-- Where a cleaned text with a query sends the browser. -/
theorem inMount_cleaned {base u q : GoString} (hu : question ∉ u)
    (hq : q = [] ∨ q.head? = some question) :
    InMount base (cleanKeepSlash (slash :: u) ++ q)
      ↔ (∀ w ∈ (surviving u).head?, w.head? ≠ some backslash)
        ∧ Under base (clean (percentDecode (before hash
            (slash :: join slash (surviving u))))) := by
  obtain ⟨tail, htail, hkeep, -⟩ := cleanKeepSlash_rooted u
  obtain ⟨hslash, hback⟩ := second_byte htail hq
  have hpath : clean (percentDecode (locationPath
        (cleanKeepSlash (slash :: u) ++ q)))
      = clean (percentDecode (before hash
          (slash :: join slash (surviving u)))) := by
    rw [locationPath_cleaned hu hq, hkeep, clean_rooted]
    rcases htail with rfl | ⟨rfl, -⟩
    · rw [List.append_nil]
    · exact clean_decode_append_slash _
  have hcons : cleanKeepSlash (slash :: u) ++ q
      = slash :: (join slash (surviving u) ++ (tail ++ q)) := by
    rw [hkeep, clean_rooted, List.append_assoc, List.cons_append]
  unfold InMount
  rw [hpath, hcons, ← hback]
  exact ⟨fun h => h.2.2, fun h => ⟨rfl, hslash, h⟩⟩

/-- The path that is sent, up to the first `#` in it: the text before the
`?` with something left out, and valid if that was. -/
theorem locationPath_redirected (v : GoString) :
    ∃ x, locationPath (redirectTarget (slash :: v)) = slash :: before hash x
      ∧ (slash :: x).Sublist (slash :: before question v)
      ∧ (isValidUTF8 v = true → isValidUTF8 x = true) := by
  have hcut : question ∉ before question v := not_mem_before v
  unfold redirectTarget
  split
  · refine ⟨before question v, ?_, .refl _, isValidUTF8_before (by decide)⟩
    have := locationPath_append hcut (head_fromFirst v)
    rw [before, fromFirst, List.takeWhile_append_dropWhile] at this
    rw [locationPath_cons (by decide), this]
    rfl
  · obtain ⟨tail, htail, hkeep, hclean⟩ :=
      cleanKeepSlash_rooted (before question v)
    rw [before_cons_of_ne (by decide),
      locationPath_cleaned hcut (head_fromFirst _), hkeep]
    rw [clean_rooted, List.cons_append] at hclean ⊢
    refine ⟨_, before_cons_of_ne (by decide) _, hclean, fun hv => ?_⟩
    have hvalid := isValidUTF8_clean
      (isValidUTF8_before (show question < 0x80 by decide) hv)
    rw [clean_rooted, isValidUTF8_cons (by decide)] at hvalid
    rcases htail with rfl | ⟨rfl, -⟩
    · rwa [List.append_nil]
    · exact (isValidUTF8_append (by decide) _ []).mpr ⟨hvalid, rfl⟩

/-- `http.Redirect` keeps the leading slash. -/
theorem redirectTarget_rooted (u : GoString) :
    ∃ v, redirectTarget (slash :: u) = slash :: v := by
  unfold redirectTarget
  split
  · exact ⟨u, rfl⟩
  · obtain ⟨tail, -, hkeep, -⟩ := cleanKeepSlash_rooted (before question u)
    rw [before_cons_of_ne (by decide), hkeep, clean_rooted]
    exact ⟨_, rfl⟩

/-- Where `http.Redirect` sends the browser, before escaping. -/
theorem inMount_redirectLocation {base u : GoString} :
    InMount base (redirectLocation (slash :: u))
      ↔ InMount base (redirectTarget (slash :: u)) := by
  obtain ⟨v, hv⟩ := redirectTarget_rooted u
  rw [redirectLocation, hv]
  exact inMount_hexEscape

/-- A value that parses. -/
theorem inMount_accepted {base u : GoString}
    (hparsed : (parseLocal (slash :: u)).isSome = true) :
    InMount base (redirectLocation (slash :: u))
      ↔ StaysInside base (slash :: u) := by
  have hcut : before question (slash :: u) = slash :: before question u :=
    before_cons_of_ne (by decide) u
  have htarget : redirectTarget (slash :: u)
      = cleanKeepSlash (slash :: before question u)
        ++ fromFirst question (slash :: u) := by
    obtain ⟨parsed, hparsed⟩ := Option.isSome_iff_exists.mp hparsed
    simp only [redirectTarget, hparsed, hcut]
  rw [inMount_redirectLocation, htarget,
    inMount_cleaned (not_mem_before u) (head_fromFirst _)]
  unfold StaysInside
  rw [hcut, surviving_cons_slash]

-- ==== the fallback

/-- What is under the mount begins with its name. -/
theorem Under.begins {base p : GoString} (h : Under base p) :
    base <+: p := by
  rcases h with rfl | hpre
  · exact List.prefix_refl _
  · exact (List.prefix_append _ _).trans (List.isPrefixOf_iff_prefix.mp hpre)

/-- The undecoded path of a `Location` that leads there is not shorter. -/
theorem InMount.length_le {base loc : GoString} (h : InMount base loc) :
    base.length ≤ (locationPath loc).length := by
  obtain ⟨hhead, -, -, hunder⟩ := h
  cases loc with
  | nil => cases hhead
  | cons c v =>
      cases Option.some.inj hhead
      have hpath : locationPath (slash :: v) = slash :: locationPath v :=
        locationPath_cons (by decide) v
      rw [hpath, percentDecode_cons_of_ne (by decide)] at hunder
      rw [hpath]
      calc base.length
          ≤ (clean (slash :: percentDecode (locationPath v))).length :=
            hunder.begins.length_le
        _ ≤ (percentDecode (locationPath v)).length + 1 :=
            length_clean_le _
        _ ≤ (locationPath v).length + 1 :=
            Nat.succ_le_succ (length_percentDecode_le _)

/-- A `?` in the mount's name cuts the fallback short. -/
theorem length_fallback_query {u : GoString} (hq : question ∈ u) :
    (locationPath (redirectTarget (slash :: (u ++ [slash])))).length
      < u.length + 1 := by
  obtain ⟨hbefore, hlt⟩ := before_append_of_mem hq [slash]
  obtain ⟨x, hpath, hsub, -⟩ := locationPath_redirected (u ++ [slash])
  have hlen := hsub.length_le
  have hle := length_before_le hash x
  rw [hbefore] at hlen
  rw [hpath]
  simp only [List.length_cons] at hlen ⊢
  omega

theorem not_mem_append_slash {c : UInt8} {u : GoString} (hc : c ≠ slash)
    (hu : c ∉ u) : c ∉ u ++ [slash] := by
  simp [hu, hc]

section Fallback

variable {u : GoString} (hclean : clean (slash :: u) = slash :: u)
  (hne : u ≠ [])
include hclean hne

/-- Without a `?` the fallback is sent as it is. -/
theorem redirectTarget_fallback (hq : question ∉ u) :
    redirectTarget (slash :: (u ++ [slash])) = slash :: (u ++ [slash]) := by
  have hq' : question ∉ slash :: (u ++ [slash]) :=
    List.not_mem_cons_of_ne_of_not_mem (by decide)
      (not_mem_append_slash (by decide) hq)
  unfold redirectTarget
  split
  · rfl
  · rw [before_eq_self hq', fromFirst_eq_nil hq', List.append_nil,
      cleanKeepSlash_of_clean hclean hne]

omit hclean hne in
/-- The path of what is then sent. -/
theorem locationPath_fallback (hq : question ∉ u) :
    locationPath (slash :: (u ++ [slash]))
      = slash :: before hash (u ++ [slash]) := by
  have hq' := not_mem_append_slash (by decide) hq
  rw [locationPath_cons (by decide)]
  have happ := locationPath_append hq' (.inl rfl : ([] : GoString) = [] ∨ _)
  rw [List.append_nil] at happ
  rw [happ]

omit hne in
/-- The byte after the mount's slash is not another slash. -/
theorem head_base_ne_slash : u.head? ≠ some slash := by
  rw [clean_rooted] at hclean
  have hsecond : (join slash (surviving u) ++ ([] ++ [])).head?
      ≠ some slash := (second_byte (.inl rfl) (.inl rfl)).1
  rw [List.append_nil, List.append_nil, (List.cons.inj hclean).2] at hsecond
  exact hsecond

/-- A `#` in the mount's name cuts the fallback short as well. -/
theorem not_inMount_fragment (hq : question ∉ u) (hh : hash ∈ u) :
    ¬ InMount (slash :: u) (redirectTarget (slash :: (u ++ [slash]))) := by
  intro hin
  have hle := hin.length_le
  obtain ⟨hbefore, hlt⟩ := before_append_of_mem hh [slash]
  rw [redirectTarget_fallback hclean hne hq, locationPath_fallback hq,
    hbefore, List.length_cons, List.length_cons] at hle
  omega

/-- Without either the fallback is read as the mount, decoded. -/
theorem inMount_text (hq : question ∉ u) (hh : hash ∉ u) :
    InMount (slash :: u) (redirectTarget (slash :: (u ++ [slash])))
      ↔ percentDecode u = u ∧ u.head? ≠ some backslash := by
  have hpath : clean (percentDecode (locationPath
        (slash :: (u ++ [slash]))))
      = clean (slash :: percentDecode u) := by
    rw [locationPath_fallback hq,
      before_eq_self (not_mem_append_slash (by decide) hh),
      percentDecode_cons_of_ne (by decide), percentDecode_append_slash,
      clean_append_slash]
  have hsecond : (u ++ [slash]).head? = u.head? := by
    obtain ⟨c, cs, rfl⟩ := List.exists_cons_of_ne_nil hne
    rfl
  rw [redirectTarget_fallback hclean hne hq]
  unfold InMount
  rw [hpath, List.tail_cons, hsecond]
  constructor
  · rintro ⟨-, -, hback, hunder⟩
    refine ⟨?_, hback⟩
    -- a name with an escape is longer than what it stands for
    have hle := hunder.begins.length_le
    have hlen := length_clean_le (percentDecode u)
    rw [List.length_cons] at hle
    rcases percentDecode_shorter u with h | ⟨h, -⟩
    · exact h
    · omega
  · rintro ⟨hplain, hback⟩
    refine ⟨rfl, head_base_ne_slash hclean, hback, .inl ?_⟩
    rw [hplain, hclean]

/-- The fallback of a mount that is text leads into it exactly if a URL
leaves the name alone. -/
theorem inMount_fallback (hvalid : toValidUTF8 (slash :: u) = slash :: u) :
    InMount (slash :: u) (redirectTarget (slash :: (u ++ [slash])))
      ↔ PlainBase (slash :: u) := by
  have hmem : ∀ c, c ≠ slash → (c ∉ slash :: u ↔ c ∉ u) := by
    intro c hc
    simp [hc]
  have hdecode : percentDecode (slash :: u) = slash :: u
      ↔ percentDecode u = u := by
    rw [percentDecode_cons_of_ne (by decide), List.cons_inj_right]
  unfold PlainBase
  rw [hmem question (by decide), hmem hash (by decide), hdecode,
    List.tail_cons]
  by_cases hq : question ∈ u
  · refine ⟨fun hin => ?_, fun h => absurd hq h.2.1⟩
    have hle := hin.length_le
    have hlt := length_fallback_query hq
    rw [List.length_cons] at hle
    omega
  by_cases hh : hash ∈ u
  · exact ⟨fun hin => absurd hin (not_inMount_fragment hclean hne hq hh),
      fun h => absurd hh h.2.2.1⟩
  · rw [inMount_text hclean hne hq hh]
    exact ⟨fun h => ⟨hvalid, hq, hh, h⟩, fun h => h.2.2.2⟩

end Fallback

/-- A mount that JSON changes is not found again. -/
theorem toValidUTF8_of_inMount {u : GoString}
    (h : InMount (slash :: u)
      (redirectTarget (slash :: (toValidUTF8 u ++ [slash])))) :
    toValidUTF8 u = u := by
  obtain ⟨-, -, -, hunder⟩ := h
  obtain ⟨x, hpath, hsub, hvalid⟩ :=
    locationPath_redirected (toValidUTF8 u ++ [slash])
  rw [hpath, percentDecode_cons_of_ne (by decide)] at hunder
  rcases percentDecode_shorter (before hash x) with heq | ⟨-, hless⟩
  · -- without escapes the path is text, and so is what it begins with
    have htext := isValidUTF8_clean (isValidUTF8_before
      (show hash < 0x80 by decide) (hvalid ((isValidUTF8_append (by decide) _ []).mpr
        ⟨isValidUTF8_toValidUTF8 u, rfl⟩)))
    rw [heq] at hunder
    rw [toValidUTF8_eq_self_iff, ← isValidUTF8_cons (b := slash) (by decide)]
    rcases hunder with h | h
    · rwa [h] at htext
    · obtain ⟨r, hr⟩ := List.isPrefixOf_iff_prefix.mp h
      rw [← hr, List.append_assoc] at htext
      exact ((isValidUTF8_append (by decide) _ r).mp htext).1
  · exfalso
    have hbase := hunder.begins.sublist.countP_le (p := (· < 0x80))
    have hclean := (clean_sublist (percentDecode (before hash x))).countP_le
      (p := (· < 0x80))
    have hbefore := (List.takeWhile_sublist (l := x) (· != hash)).countP_le
      (p := (· < 0x80))
    have hsent := hsub.countP_le (p := (· < 0x80))
    have hcut := (List.takeWhile_sublist (l := toValidUTF8 u ++ [slash])
      (· != question)).countP_le (p := (· < 0x80))
    have hsame := asciiCount_toValidUTF8 u
    have hslash : slash < 0x80 := by decide
    simp only [asciiCount, before, List.countP_append, List.countP_cons,
      List.countP_nil, hslash, decide_true, if_true] at *
    omega

-- ==== where a login ends

theorem Manager.safeReturnTo_eq (m : Manager) (p : GoString) :
    m.safeReturnTo p
      = if m.accepts p then p else m.cfg.basePath ++ [slash] := by
  unfold Manager.safeReturnTo Manager.accepts
  cases hasPrefix p [slash] with
  | false => rfl
  | true =>
      cases hasPrefix p [slash, slash] with
      | true => rfl
      | false =>
          cases parseLocal p with
          | none => rfl
          | some u => rfl

/-- What is accepted starts with a slash, parses, and has an acceptable
path. -/
theorem Manager.accepts_spec {m : Manager} {p : GoString}
    (h : m.accepts p = true) :
    ∃ u parsed, p = slash :: u ∧ parseLocal p = some parsed
      ∧ m.pathAllowed parsed.path = true := by
  unfold Manager.accepts at h
  rw [Bool.and_eq_true, Bool.and_eq_true] at h
  obtain ⟨⟨hslash, -⟩, hparse⟩ := h
  obtain ⟨u, hu⟩ := List.isPrefixOf_iff_prefix.mp hslash
  cases hp : parseLocal p with
  | none =>
      rw [hp] at hparse
      cases hparse
  | some parsed =>
      rw [hp] at hparse
      exact ⟨u, parsed, hu.symm, rfl, hparse⟩

theorem cfg_of_new {originOk : GoString → Bool} {cfg : Config}
    {m : Manager} (hnew : new originOk cfg = .ok m) :
    m.cfg = cfg.normalise := by
  unfold new at hnew
  repeat' split at hnew
  all_goals cases hnew
  rfl

/-- `New` leaves a clean mount as it is and takes the root for none. -/
theorem mounted_of_new {originOk : GoString → Bool} {cfg : Config}
    {m : Manager} (hnew : new originOk cfg = .ok m)
    (hbase : cfg.basePath = []
      ∨ cfg.basePath.head? = some slash
        ∧ clean cfg.basePath = cfg.basePath) :
    Mounted m.cfg.basePath := by
  rw [cfg_of_new hnew]
  show Mounted (trimByte cfg.basePath slash)
  rcases hbase with hnil | ⟨hhead, hclean⟩
  · rw [hnil]
    exact .inl rfl
  · cases hb : cfg.basePath with
    | nil => exact .inl rfl
    | cons c u =>
        rw [hb] at hhead hclean
        cases Option.some.inj hhead
        by_cases hne : u = []
        · subst hne
          exact .inl rfl
        · rw [trimByte, endsIn_of_clean hclean hne]
          exact .inr ⟨u, hne, rfl, hclean⟩

/-- The check, at a mount as `New` leaves it. -/
theorem Manager.pathAllowed_spec {m : Manager} {u : GoString}
    (hmount : Mounted m.cfg.basePath)
    (h : m.pathAllowed (slash :: u) = true) :
    backslash ∉ slash :: u
      ∧ Under m.cfg.basePath (clean (slash :: u)) := by
  unfold Manager.pathAllowed at h
  dsimp only at h
  rw [Bool.and_eq_true, Bool.not_eq_true', Bool.not_eq_true'] at h
  obtain ⟨hback, hunder⟩ := h
  refine ⟨by simpa using hback, ?_⟩
  rcases hmount with hroot | ⟨v, hne, hv, hclean⟩
  · rw [hroot, clean_rooted]
    exact .inr rfl
  · have hdot : m.cfg.basePath ≠ [dot] := by
      rw [hv]
      simp [slash, dot]
    have hslash : m.cfg.basePath ≠ [slash] := by
      rw [hv]
      simp [hne]
    rw [hclean] at hunder
    by_cases heq : clean (slash :: u) = m.cfg.basePath
    · exact .inl heq
    · refine .inr ?_
      simpa [hdot, hslash, heq] using hunder

/-- What the check protects: an accepted value whose text before the `?`
has neither a fragment nor an escape. -/
theorem Manager.staysInside_of_plain {m : Manager} {p : GoString}
    (hmount : Mounted m.cfg.basePath) (hacc : m.accepts p = true)
    (hhash : hash ∉ before question p)
    (hpercent : percent ∉ before question p) :
    StaysInside m.cfg.basePath p := by
  obtain ⟨u, parsed, rfl, hparsed, hallowed⟩ := Manager.accepts_spec hacc
  have hcut : before question (slash :: u) = slash :: before question u :=
    before_cons_of_ne (by decide) u
  have hpath : parsed.path = slash :: before question u := by
    have hraw := path_of_parseLocal hparsed
    rw [before_before hhash, unescape_eq_self hpercent, hcut] at hraw
    exact (Option.some.inj hraw).symm
  rw [hcut] at hhash hpercent
  rw [hpath] at hallowed
  generalize before question u = text at hcut hhash hpercent hallowed
  obtain ⟨hback, hunder⟩ := Manager.pathAllowed_spec hmount hallowed
  have hkept : ∀ c, c ≠ slash → c ∉ slash :: text →
      c ∉ clean (slash :: text) := by
    intro c hc hc' hmem
    rcases mem_of_mem_clean hmem with h | h
    · exact hc h
    · exact hc' (List.mem_cons_of_mem _ h)
  unfold StaysInside
  rw [hcut, surviving_cons_slash, ← clean_rooted]
  constructor
  · intro w hw hhead
    have hname := surviving_name (List.mem_of_mem_head? hw)
    exact hback (List.mem_cons_of_mem _
      (hname.2 backslash (List.mem_of_mem_head? hhead)).1)
  · rw [before_eq_self (hkept _ (by decide) hhash),
      percentDecode_eq_self (hkept _ (by decide) hpercent), clean_clean]
    exact hunder

/-- A login ends inside the mount exactly under the condition. -/
theorem Manager.inMount_callbackLocation {m : Manager}
    (hmount : Mounted m.cfg.basePath) (returnTo : GoString) :
    InMount m.cfg.basePath (m.callbackLocation returnTo)
      ↔ LandsInside m returnTo := by
  have hslash : slash < 0x80 := by decide
  unfold LandsInside Manager.callbackLocation
  rw [m.safeReturnTo_eq]
  split
  · rename_i hacc
    obtain ⟨u, parsed, rfl, hparsed, -⟩ := Manager.accepts_spec hacc
    have hsome : (parseLocal (toValidUTF8 (slash :: u))).isSome = true :=
      isSome_parseLocal_toValidUTF8 (by rw [hparsed]; rfl)
    rw [toValidUTF8_cons hslash] at hsome ⊢
    exact inMount_accepted hsome
  · rcases hmount with hroot | ⟨u, hne, hu, hclean⟩
    · rw [hroot]
      exact ⟨fun _ => by decide, fun _ => by decide⟩
    · rw [hu] at hclean ⊢
      rw [List.cons_append, toValidUTF8_cons hslash, toValidUTF8_snoc hslash,
        inMount_redirectLocation]
      by_cases hvalid : toValidUTF8 u = u
      · rw [hvalid]
        exact inMount_fallback hclean hne
          (by rw [toValidUTF8_cons hslash, hvalid])
      · refine ⟨fun h => absurd (toValidUTF8_of_inMount h) hvalid,
          fun h => absurd ?_ hvalid⟩
        have hbase := h.1
        rw [toValidUTF8_cons hslash] at hbase
        exact (List.cons.inj hbase).2

/-- At a plain mount every login ends inside whose `return_to` is text
with neither a fragment nor an escape before its `?`. -/
theorem Manager.landsInside_of_plain {m : Manager}
    (hmount : Mounted m.cfg.basePath) (hplain : PlainBase m.cfg.basePath)
    {returnTo : GoString} (htext : toValidUTF8 returnTo = returnTo)
    (hhash : hash ∉ before question returnTo)
    (hpercent : percent ∉ before question returnTo) :
    LandsInside m returnTo := by
  unfold LandsInside
  rw [htext]
  split
  · rename_i hacc
    exact Manager.staysInside_of_plain hmount hacc hhash hpercent
  · exact hplain

/-- For every mount that is empty or a clean absolute path, and every
`return_to`: the login ends inside the mount exactly if `LandsInside`
holds of the two. In particular it does at a plain mount, for text with
neither a fragment nor an escape before its `?`. -/
theorem callback_location_iff {originOk : GoString → Bool} {cfg : Config}
    {m : Manager} (hnew : new originOk cfg = .ok m)
    (hbase : cfg.basePath = []
      ∨ cfg.basePath.head? = some slash
        ∧ clean cfg.basePath = cfg.basePath) (returnTo : GoString) :
    (InMount m.cfg.basePath (m.callbackLocation returnTo)
      ↔ LandsInside m returnTo)
    ∧ (PlainBase m.cfg.basePath → toValidUTF8 returnTo = returnTo →
      hash ∉ before question returnTo →
      percent ∉ before question returnTo →
      InMount m.cfg.basePath (m.callbackLocation returnTo)) := by
  have hmount := mounted_of_new hnew hbase
  have hiff := Manager.inMount_callbackLocation hmount returnTo
  refine ⟨hiff, fun hplain htext hhash hpercent => hiff.mpr ?_⟩
  exact Manager.landsInside_of_plain hmount hplain htext hhash hpercent

/-- A configuration with this mount and the defaults. -/
def Config.mountedAt (base : GoString) : Config where
  requiredGroup := []
  sessionKey := List.replicate 32 0
  sessionTTL := defaultSessionTTL
  cookiePrefix := ascii "app"
  loginPath := []
  logoutPath := []
  exemptPaths := []
  basePath := base
  idleTimeout := ⟨0, by decide⟩
  trustedOrigins := none

/-- A page of the mount with a query: the login ends there. -/
theorem callback_location_query :
    ∃ m, new (fun _ => true) (.mountedAt (ascii "/portal")) = .ok m
      ∧ m.callbackLocation (ascii "/portal/roles?tab=active")
        = ascii "/portal/roles?tab=active"
      ∧ InMount m.cfg.basePath
        (m.callbackLocation (ascii "/portal/roles?tab=active")) := by
  refine ⟨_, rfl, by decide +kernel, ?_⟩
  exact (callback_location_iff
    (show new (fun _ => true) (.mountedAt (ascii "/portal")) = _ from rfl)
    (.inr ⟨by decide, by decide⟩) _).1.mpr (by decide +kernel)

/-- A fragment leads out of the mount, and from the root mount to another
host: `SafeReturnTo` accepts both values. -/
theorem callback_location_escapes :
    (∃ m, new (fun _ => true) (.mountedAt (ascii "/portal")) = .ok m
      ∧ m.callbackLocation (ascii "/portal#/../../evil")
        = ascii "/evil"
      ∧ ¬ InMount m.cfg.basePath
        (m.callbackLocation (ascii "/portal#/../../evil")))
    ∧ ∃ m, new (fun _ => true) (.mountedAt []) = .ok m
      ∧ m.callbackLocation (ascii "/#/../\\evil.example")
        = ascii "/\\evil.example"
      ∧ ¬ InMount m.cfg.basePath
        (m.callbackLocation (ascii "/#/../\\evil.example")) := by
  refine ⟨⟨_, rfl, by decide +kernel, by decide +kernel⟩,
    ⟨_, rfl, by decide +kernel, by decide +kernel⟩⟩

end Tokyo3Base.Session
