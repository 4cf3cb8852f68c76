/-
Facts about `url.Parse`: where the parts of its result come from, and the
reasons for which it refuses a URL.

Of a URL with userinfo the reason tells nothing about the userinfo but
that it is not valid (`reason_of_userinfo`): the scheme is read before it,
the host, the path and the fragment from what stands behind the last `@`.
-/
import Tokyo3Base.Go.NetURL
import Tokyo3Base.Go.Proofs.URL

namespace Tokyo3Base.Go.NetURL

-- ==== binds

theorem bind_ok {ε α β : Type} {x : Except ε α} {f : α → Except ε β} {b : β}
    (h : (x >>= f) = .ok b) : ∃ a, x = .ok a ∧ f a = .ok b := by
  cases x with
  | error e => cases h
  | ok a => exact ⟨a, rfl, h⟩

theorem bind_error {ε α β : Type} {x : Except ε α} {f : α → Except ε β}
    {e : ε} (h : (x >>= f) = .error e) :
    x = .error e ∨ ∃ a, x = .ok a ∧ f a = .error e := by
  cases x with
  | error e' => exact .inl (congrArg Except.error (Except.error.inj h))
  | ok a => exact .inr ⟨a, rfl, h⟩

theorem map_ok {ε α β : Type} {x : Except ε α} {f : α → β} {b : β}
    (h : x.map f = .ok b) : ∃ a, x = .ok a ∧ f a = b := by
  cases x with
  | error e => cases h
  | ok a => exact ⟨a, rfl, Except.ok.inj h⟩

-- ==== steps

/-- The URL as it is once its scheme and its query are read. -/
def schemeURL (scheme text : GoString) : URL :=
  { URL.zero with
    scheme := lowerASCII scheme, forceQuery := (cutQuery text).2.1
    rawQuery := (cutQuery text).2.2 }

/-- What `parse` does with the rest. -/
def parseRest (parseAddr : ParseAddr) (u : URL) (rest : GoString) :
    Except Reason URL :=
  if !hasPrefix rest [slash] then
    if u.scheme != [] then .ok { u with opaquePart := rest }
    else if 58 ∈ before slash rest then .error .colonInFirstSegment
    else parseHierarchy parseAddr u rest
  else parseHierarchy parseAddr u rest

theorem parse_eq (parseAddr : ParseAddr) {s scheme text : GoString}
    (hctl : s.any isCTL = false) (hstar : s ≠ ascii "*")
    (h : getScheme s = .ok (scheme, text)) :
    parse parseAddr s
      = parseRest parseAddr (schemeURL scheme text) (cutQuery text).1 := by
  unfold parse
  rw [if_neg (by simp [hctl]), if_neg hstar, h]
  rfl

theorem parse_cases (parseAddr : ParseAddr) (s : GoString) :
    parse parseAddr s = .error .controlCharacter
      ∨ parse parseAddr s = .ok { URL.zero with path := ascii "*" }
      ∨ (∃ r, getScheme s = .error r ∧ parse parseAddr s = .error r)
      ∨ ∃ scheme text, getScheme s = .ok (scheme, text)
        ∧ parse parseAddr s
          = parseRest parseAddr (schemeURL scheme text) (cutQuery text).1 := by
  by_cases hctl : s.any isCTL = true
  · exact .inl (if_pos hctl)
  · by_cases hstar : s = ascii "*"
    · refine .inr (.inl ?_)
      rw [parse, if_neg hctl, if_pos hstar]
    · cases h : getScheme s with
      | error r =>
          refine .inr (.inr (.inl ⟨r, rfl, ?_⟩))
          rw [parse, if_neg hctl, if_neg hstar, h]
          rfl
      | ok p =>
          exact .inr (.inr (.inr ⟨p.1, p.2, rfl,
            parse_eq parseAddr ((Bool.not_eq_true _).mp hctl) hstar h⟩))

-- ==== scheme

theorem schemeFrom_text {s scheme rest : GoString}
    (h : schemeFrom s = some (scheme, rest)) :
    s = scheme ++ 58 :: rest ∧ 58 ∉ scheme := by
  induction s generalizing scheme with
  | nil => cases h
  | cons c s ih =>
      rw [schemeFrom] at h
      split at h
      · rename_i hc
        obtain ⟨rfl, rfl⟩ := Prod.mk.inj (Option.some.inj h)
        exact ⟨by rw [hc, List.nil_append], List.not_mem_nil⟩
      · rename_i hc
        split at h
        · obtain ⟨r, hr, heq⟩ := Option.map_eq_some_iff.mp h
          obtain ⟨rfl, rfl⟩ := Prod.mk.inj heq
          obtain ⟨htext, hno⟩ := ih hr
          refine ⟨by rw [List.cons_append, ← htext], fun hmem => ?_⟩
          exact (List.mem_cons.mp hmem).elim (fun heq => hc heq.symm) hno
        · cases h

/-- A scheme is what stands before the first colon. -/
theorem getScheme_text {s scheme rest : GoString}
    (h : getScheme s = .ok (scheme, rest)) :
    (scheme = [] ∧ rest = s)
      ∨ (scheme ≠ [] ∧ 58 ∉ scheme ∧ s = scheme ++ 58 :: rest) := by
  cases s with
  | nil =>
      obtain ⟨rfl, rfl⟩ := Prod.mk.inj (Except.ok.inj h)
      exact .inl ⟨rfl, rfl⟩
  | cons c s =>
      rw [getScheme] at h
      split at h
      · cases h
      · rename_i hc
        split at h
        · cases hscheme : schemeFrom s with
          | none =>
              rw [hscheme] at h
              obtain ⟨rfl, rfl⟩ := Prod.mk.inj (Except.ok.inj h)
              exact .inl ⟨rfl, rfl⟩
          | some r =>
              rw [hscheme] at h
              obtain ⟨rfl, rfl⟩ := Prod.mk.inj (Except.ok.inj h)
              obtain ⟨htext, hno⟩ := schemeFrom_text hscheme
              refine .inr ⟨List.cons_ne_nil c _, fun hmem => ?_, ?_⟩
              · exact (List.mem_cons.mp hmem).elim (fun heq => hc heq.symm) hno
              · rw [List.cons_append, ← htext]
        · obtain ⟨rfl, rfl⟩ := Prod.mk.inj (Except.ok.inj h)
          exact .inl ⟨rfl, rfl⟩

theorem setPath_scheme {u v : URL} {p : GoString} (h : u.setPath p = .ok v) :
    v.scheme = u.scheme := by
  obtain ⟨path, -, hv⟩ := bind_ok h
  cases hv
  rfl

theorem setFragment_scheme {u v : URL} {f : GoString}
    (h : u.setFragment f = .ok v) : v.scheme = u.scheme := by
  obtain ⟨fragment, -, hv⟩ := bind_ok h
  cases hv
  rfl

theorem parseHierarchy_scheme {parseAddr : ParseAddr} {u v : URL}
    {rest : GoString} (h : parseHierarchy parseAddr u rest = .ok v) :
    v.scheme = u.scheme := by
  unfold parseHierarchy at h
  split at h
  · obtain ⟨⟨user, host⟩, -, hv⟩ := bind_ok h
    have := setPath_scheme hv
    exact this
  · have := setPath_scheme h
    exact this

theorem parseRest_scheme {parseAddr : ParseAddr} {u v : URL}
    {rest : GoString} (h : parseRest parseAddr u rest = .ok v) :
    v.scheme = u.scheme := by
  unfold parseRest at h
  split at h
  · split at h
    · cases h
      rfl
    · split at h
      · cases h
      · exact parseHierarchy_scheme h
  · exact parseHierarchy_scheme h

/-- The scheme of a URL is the one it starts with, in lower case. -/
theorem parse_scheme {parseAddr : ParseAddr} {s : GoString} {u : URL}
    (h : parse parseAddr s = .ok u) (hne : u.scheme ≠ []) :
    ∃ scheme rest, s = scheme ++ 58 :: rest ∧ u.scheme = lowerASCII scheme := by
  obtain hpar | hpar | ⟨r, -, hpar⟩ | ⟨scheme, text, hscheme, hpar⟩ :=
    parse_cases parseAddr s
  · rw [hpar] at h
    cases h
  · rw [hpar] at h
    cases h
    exact absurd rfl hne
  · rw [hpar] at h
    cases h
  · rw [hpar] at h
    have hu : u.scheme = lowerASCII scheme := parseRest_scheme h
    obtain ⟨rfl, -⟩ | ⟨-, -, htext⟩ := getScheme_text hscheme
    · rw [hu] at hne
      exact absurd rfl hne
    · exact ⟨scheme, text, htext, hu⟩

theorem urlParse_scheme {parseAddr : ParseAddr} {s : GoString} {u : URL}
    (h : urlParse parseAddr s = .ok u) (hne : u.scheme ≠ []) :
    u.scheme ++ [58] <+: lowerASCII s := by
  obtain ⟨v, hv, hscheme⟩ : ∃ v, parse parseAddr (before hash s) = .ok v
      ∧ u.scheme = v.scheme := by
    unfold urlParse at h
    dsimp only at h
    cases hparse : parse parseAddr (before hash s) with
    | error e =>
        rw [hparse] at h
        cases h
    | ok v =>
        rw [hparse] at h
        dsimp only at h
        refine ⟨v, rfl, ?_⟩
        split at h
        · cases h
          rfl
        · cases hfrag : v.setFragment (after hash s) with
          | error e =>
              rw [hfrag] at h
              cases h
          | ok w =>
              rw [hfrag] at h
              cases h
              exact setFragment_scheme hfrag
  obtain ⟨scheme, rest, htext, hlower⟩ := parse_scheme hv (hscheme ▸ hne)
  have hpre : scheme ++ [58] <+: s := by
    have : before hash s <+: s := List.takeWhile_prefix _
    rw [htext] at this
    exact .trans ⟨rest, by simp⟩ this
  have hmap := hpre.map fun c : UInt8 => if 65 ≤ c && c ≤ 90 then c + 32 else c
  rw [List.map_append] at hmap
  rw [hscheme, hlower]
  exact hmap

section Cut

variable {sep : UInt8}

theorem after_append {x : GoString} (h : sep ∉ x) (y : GoString) :
    after sep (x ++ y) = after sep y := by
  rw [after, fromFirst_append h, after]

theorem cutLast_none {s : GoString} (h : sep ∉ s) : cutLast sep s = none := by
  induction s with
  | nil => rfl
  | cons c s ih =>
      rw [cutLast, ih fun hmem => h (List.mem_cons_of_mem c hmem)]
      exact if_neg fun heq : c = sep => h (heq ▸ List.mem_cons_self)

theorem cutLast_append (x : GoString) {y : GoString} (h : sep ∉ y) :
    cutLast sep (x ++ sep :: y) = some (x, y) := by
  induction x with
  | nil =>
      rw [List.nil_append, cutLast, cutLast_none h]
      exact if_pos rfl
  | cons c x ih => rw [List.cons_append, cutLast, ih]

end Cut

theorem cutLast_text {sep : UInt8} {s x y : GoString}
    (h : cutLast sep s = some (x, y)) : s = x ++ sep :: y := by
  induction s generalizing x with
  | nil => cases h
  | cons c s ih =>
      rw [cutLast] at h
      cases hs : cutLast sep s with
      | some p =>
          rw [hs] at h
          cases h
          rw [List.cons_append, ← ih hs]
      | none =>
          rw [hs] at h
          dsimp only at h
          split at h
          · rename_i hc
            cases h
            rw [hc, List.nil_append]
          · cases h

theorem not_mem_of_cutLast {sep : UInt8} {s : GoString} :
    (cutLast sep s = none → sep ∉ s)
      ∧ ∀ {x y}, cutLast sep s = some (x, y) → sep ∉ y := by
  induction s with
  | nil => exact ⟨fun _ => List.not_mem_nil, nofun⟩
  | cons c s ih =>
      rw [cutLast]
      cases hs : cutLast sep s with
      | some p =>
          refine ⟨nofun, fun h => ?_⟩
          cases h
          exact ih.2 hs
      | none =>
          dsimp only
          split
          · refine ⟨nofun, fun h => ?_⟩
            cases h
            exact ih.1 hs
          · rename_i hc
            refine ⟨fun _ hmem => ?_, nofun⟩
            rcases List.mem_cons.mp hmem with heq | hmem
            · exact hc heq.symm
            · exact ih.1 hs hmem

/-- A query is not cut off before an `@` that stands before it. -/
theorem cutQuery_append {x : GoString} (h : question ∉ x) (y : GoString) :
    (cutQuery (x ++ 64 :: y)).1 = x ++ 64 :: (cutQuery y).1 := by
  have hend : endsIn (x ++ 64 :: y) question = endsIn y question := by
    unfold endsIn
    rw [List.getLast?_append]
    cases y with
    | nil => rfl
    | cons c y => simp
  have hcount : (x ++ 64 :: y).count question = y.count question := by
    rw [List.count_append, List.count_eq_zero.mpr h, Nat.zero_add,
      List.count_cons_of_ne (by decide)]
  unfold cutQuery
  rw [hend, hcount]
  split
  · rename_i hquery
    have hne : y ≠ [] := by
      rintro rfl
      cases hquery
    dsimp only
    rw [List.dropLast_append_cons, List.dropLast_cons_of_ne_nil hne]
  · dsimp only
    rw [before_append h, before_cons_of_ne (by decide)]

theorem not_mem_cutQuery {c : UInt8} {s : GoString} (h : c ∉ s) :
    c ∉ (cutQuery s).1 := by
  unfold cutQuery
  split
  · exact fun hmem => h ((List.dropLast_sublist s).subset hmem)
  · exact fun hmem => h (List.takeWhile_subset _ hmem)

-- ==== reason

/-- The reasons that tell nothing about the userinfo of a URL, by the text
behind its last `@`. -/
inductive PublicReason (parseAddr : ParseAddr) (tail : GoString) :
    Reason → Prop where
  | controlCharacter : PublicReason parseAddr tail .controlCharacter
  | missingScheme : PublicReason parseAddr tail .missingScheme
  | colonInFirstSegment : PublicReason parseAddr tail .colonInFirstSegment
  | invalidUserinfo : PublicReason parseAddr tail .invalidUserinfo
  | host {r : Reason} (scheme : GoString) (h : parseHost parseAddr scheme
      (before slash (cutQuery (before hash tail)).1) = .error r) :
      PublicReason parseAddr tail r
  | path {r : Reason} (h : unescape .path
      (fromFirst slash (cutQuery (before hash tail)).1) = .error r) :
      PublicReason parseAddr tail r
  | fragment {r : Reason} (h : unescape .fragment (after hash tail)
      = .error r) : PublicReason parseAddr tail r

/-- A byte that ends the authority of a URL. -/
def isDelimiter (c : UInt8) : Bool :=
  c == slash || c == question || c == hash

/-- A text in the authority of a URL. -/
theorem not_mem_of_all {x : GoString} (h : x.any isDelimiter = false) :
    slash ∉ x ∧ question ∉ x ∧ hash ∉ x := by
  have hno : ∀ c, isDelimiter c = true → c ∉ x := fun c hc hmem => by
    rw [List.any_eq_false] at h
    exact h c hmem hc
  exact ⟨hno _ rfl, hno _ rfl, hno _ rfl⟩

theorem setPath_error {u : URL} {p : GoString} {r : Reason}
    (h : u.setPath p = .error r) : unescape .path p = .error r := by
  obtain h | ⟨path, -, h⟩ := bind_error h
  · exact h
  · cases h

theorem setFragment_error {u : URL} {f : GoString} {r : Reason}
    (h : u.setFragment f = .error r) : unescape .fragment f = .error r := by
  obtain h | ⟨fragment, -, h⟩ := bind_error h
  · exact h
  · cases h

/-- The userinfo of an authority. -/
theorem parseAuthority_error {parseAddr : ParseAddr}
    {scheme userinfo host : GoString} {r : Reason} (hat : 64 ∉ host)
    (hok : ∃ user, parseUserinfo userinfo = .ok user)
    (h : parseAuthority parseAddr scheme (userinfo ++ 64 :: host)
      = .error r) :
    parseHost parseAddr scheme host = .error r ∨ r = .invalidUserinfo := by
  unfold parseAuthority at h
  rw [cutLast_append userinfo hat] at h
  obtain h | ⟨x, -, h⟩ := bind_error h
  · exact .inl h
  · split at h
    · exact .inr (Except.error.inj h).symm
    · obtain ⟨user, huser⟩ := hok
      rw [huser] at h
      cases h

/-- The authority and the path, the userinfo being in the first. -/
theorem parseHierarchy_error {parseAddr : ParseAddr} {u : URL}
    {userinfo rest : GoString} {r : Reason} (hscheme : u.scheme ≠ [])
    (hslash : slash ∉ userinfo) (hat : 64 ∉ rest)
    (hok : ∃ user, parseUserinfo userinfo = .ok user)
    (h : parseHierarchy parseAddr u
      (slash :: slash :: (userinfo ++ 64 :: rest)) = .error r) :
    parseHost parseAddr u.scheme (before slash rest) = .error r
      ∨ r = .invalidUserinfo
      ∨ unescape .path (fromFirst slash rest) = .error r := by
  have hbefore : before slash (userinfo ++ 64 :: rest)
      = userinfo ++ 64 :: before slash rest := by
    rw [before_append hslash, before_cons_of_ne (by decide)]
  have hfrom : fromFirst slash (userinfo ++ 64 :: rest)
      = fromFirst slash rest := by
    rw [fromFirst_append hslash]
    rfl
  unfold parseHierarchy at h
  rw [if_pos (by simp [hscheme, hasPrefix, ascii]; rfl)] at h
  obtain h | ⟨⟨user, host⟩, -, h⟩ := bind_error h
  · have hauth := parseAuthority_error (fun hmem => hat
      ((List.takeWhile_subset _) hmem)) hok (hbefore ▸ h)
    exact hauth.imp_right .inl
  · have hpath := setPath_error h
    exact .inr (.inr (hfrom ▸ hpath))

theorem getScheme_error {s : GoString} {r : Reason}
    (h : getScheme s = .error r) : r = .missingScheme := by
  cases s with
  | nil => cases h
  | cons c s =>
      rw [getScheme] at h
      split at h
      · exact (Except.error.inj h).symm
      · split at h
        · split at h <;> cases h
        · cases h

/-- A colon that is the first to stand behind a scheme, or is part of
what stands before the `//`. -/
theorem scheme_cases {front rest scheme text : GoString}
    (hno : 58 ∉ scheme) (h : front ++ 58 :: rest = scheme ++ 58 :: text) :
    text = rest ∨ ∃ x, front = scheme ++ 58 :: x ∧ text = x ++ 58 :: rest := by
  obtain ⟨x, hx, hrest⟩ | ⟨x, hx, hrest⟩ := List.append_eq_append_iff.mp h
  · cases x with
    | nil => exact .inl (List.cons.inj hrest).2.symm
    | cons c x =>
        obtain ⟨rfl, -⟩ := List.cons.inj hrest
        exact absurd (hx ▸ List.mem_append_right front List.mem_cons_self) hno
  · cases x with
    | nil => exact .inl (List.cons.inj hrest).2
    | cons c x =>
        obtain ⟨rfl, htext⟩ := List.cons.inj hrest
        exact .inr ⟨x, hx, htext⟩

theorem hasPrefix_slash {x : GoString} (h : slash ∉ x) (y : GoString) :
    hasPrefix (x ++ 58 :: y) [slash] = false := by
  cases x with
  | nil => rfl
  | cons c x =>
      have hc : slash ≠ c := fun heq => h (heq ▸ List.mem_cons_self)
      rw [List.cons_append, hasPrefix, List.isPrefixOf_cons_cons,
        beq_false_of_ne hc, Bool.false_and]

/-- What is cut off at the query and the fragment is not missed before
them. -/
theorem parse_error_of_userinfo {parseAddr : ParseAddr}
    {front userinfo tail : GoString} {r : Reason}
    (hfront : front.any isDelimiter = false)
    (huser : userinfo.any isDelimiter = false) (hat : 64 ∉ tail)
    (hok : ∃ user, parseUserinfo userinfo = .ok user)
    (h : parse parseAddr (front ++ 58 :: slash :: slash
      :: (userinfo ++ 64 :: tail)) = .error r) :
    r = .controlCharacter ∨ r = .missingScheme ∨ r = .colonInFirstSegment
      ∨ r = .invalidUserinfo
      ∨ (∃ scheme, parseHost parseAddr scheme
        (before slash (cutQuery tail).1) = .error r)
      ∨ unescape .path (fromFirst slash (cutQuery tail).1) = .error r := by
  obtain ⟨hslash, hquestion, -⟩ := not_mem_of_all hfront
  obtain ⟨hslash', hquestion', -⟩ := not_mem_of_all huser
  -- the text from the end of the scheme on, without its query
  have hquery : ∀ x, question ∉ x → (cutQuery (x ++ 58 :: slash :: slash
      :: (userinfo ++ 64 :: tail))).1 = x ++ 58 :: slash :: slash
        :: (userinfo ++ 64 :: (cutQuery tail).1) := by
    intro x hx
    have := cutQuery_append (x := x ++ 58 :: slash :: slash :: userinfo)
      (by simpa [question, slash] using ⟨hx, hquestion'⟩) tail
    simpa using this
  obtain hpar | hpar | ⟨r', hscheme, hpar⟩ | ⟨scheme, text, hscheme, hpar⟩ :=
    parse_cases parseAddr (front ++ 58 :: slash :: slash
      :: (userinfo ++ 64 :: tail))
  · rw [hpar] at h
    exact .inl (Except.error.inj h).symm
  · rw [hpar] at h
    cases h
  · rw [hpar] at h
    obtain rfl := Except.error.inj h
    exact .inr (.inl (getScheme_error hscheme))
  · rw [hpar] at h
    unfold parseRest at h
    obtain ⟨rfl, rfl⟩ | ⟨hne, hno, htext⟩ := getScheme_text hscheme
    · -- a colon stands before the first slash
      rw [hquery front hquestion, hasPrefix_slash hslash, before_append hslash,
        if_pos (by rfl), if_neg (by simp [schemeURL, lowerASCII]),
        if_pos (by simp [before, slash])] at h
      exact .inr (.inr (.inl (Except.error.inj h).symm))
    · have hlower : (schemeURL scheme text).scheme ≠ [] := by
        simpa [schemeURL, lowerASCII] using hne
      obtain rfl | ⟨x, rfl, rfl⟩ := scheme_cases hno htext
      · have hrest := cutQuery_append (x := slash :: slash :: userinfo)
          (by simpa [question, slash] using hquestion') tail
        rw [List.cons_append, List.cons_append] at hrest
        rw [hrest, if_neg (by simp [hasPrefix])] at h
        obtain h | h | h := parseHierarchy_error hlower hslash'
          (not_mem_cutQuery hat) hok h
        · exact .inr (.inr (.inr (.inr (.inl ⟨_, h⟩))))
        · exact .inr (.inr (.inr (.inl h)))
        · exact .inr (.inr (.inr (.inr (.inr h))))
      · -- the rest is opaque, and not refused
        rw [List.mem_append, not_or] at hslash hquestion
        have hslash := fun hmem => hslash.2 (List.mem_cons_of_mem 58 hmem)
        have hquestion := fun hmem => hquestion.2 (List.mem_cons_of_mem 58 hmem)
        rw [hquery x hquestion, hasPrefix_slash hslash, if_pos (by rfl),
          if_pos (by simp [hlower])] at h
        cases h


/-- The errors of `url.Parse`: of the text before the fragment, or of the
fragment. -/
theorem urlParse_error {parseAddr : ParseAddr} {s : GoString}
    {e : ParseError} (h : urlParse parseAddr s = .error e) :
    (e.url = before hash s ∧ parse parseAddr (before hash s) = .error e.reason)
      ∨ (e.url = s ∧ unescape .fragment (after hash s) = .error e.reason) := by
  unfold urlParse at h
  dsimp only at h
  cases hparse : parse parseAddr (before hash s) with
  | error r =>
      rw [hparse] at h
      cases h
      exact .inl ⟨rfl, rfl⟩
  | ok u =>
      rw [hparse] at h
      dsimp only at h
      split at h
      · cases h
      · cases hfrag : u.setFragment (after hash s) with
        | error r =>
            rw [hfrag] at h
            cases h
            exact .inr ⟨rfl, setFragment_error hfrag⟩
        | ok v =>
            rw [hfrag] at h
            cases h

theorem cutFragment_of_userinfo {front userinfo : GoString}
    (hfront : front.any isDelimiter = false)
    (huser : userinfo.any isDelimiter = false) (tail : GoString) :
    before hash (front ++ 58 :: slash :: slash :: (userinfo ++ 64 :: tail))
        = front ++ 58 :: slash :: slash
          :: (userinfo ++ 64 :: before hash tail)
      ∧ after hash (front ++ 58 :: slash :: slash
          :: (userinfo ++ 64 :: tail)) = after hash tail := by
  have hhash : hash ∉ front ++ 58 :: slash :: slash :: userinfo := by
    have hfront := (not_mem_of_all hfront).2.2
    have huser := (not_mem_of_all huser).2.2
    simp only [List.mem_append, List.mem_cons, not_or]
    exact ⟨hfront, by decide, by decide, by decide, huser⟩
  have htext : front ++ 58 :: slash :: slash :: (userinfo ++ 64 :: tail)
      = front ++ 58 :: slash :: slash :: userinfo ++ 64 :: tail := by simp
  rw [htext, before_append hhash, after_append hhash,
    before_cons_of_ne (by decide)]
  exact ⟨by simp, rfl⟩

/-- The reason for which a URL with userinfo is refused tells nothing
about it but that it is not valid. -/
theorem reason_of_userinfo {parseAddr : ParseAddr}
    {front userinfo tail : GoString} {e : ParseError}
    (hfront : front.any isDelimiter = false)
    (huser : userinfo.any isDelimiter = false) (hat : 64 ∉ tail)
    (hok : ∃ user, parseUserinfo userinfo = .ok user)
    (h : urlParse parseAddr (front ++ 58 :: slash :: slash
      :: (userinfo ++ 64 :: tail)) = .error e) :
    PublicReason parseAddr tail e.reason := by
  obtain ⟨hbefore, hafter⟩ := cutFragment_of_userinfo hfront huser tail
  obtain ⟨-, hparse⟩ | ⟨-, hfrag⟩ := urlParse_error h
  · rw [hbefore] at hparse
    have hat' : 64 ∉ before hash tail := fun hmem =>
      hat (List.takeWhile_subset _ hmem)
    obtain h | h | h | h | ⟨scheme, h⟩ | h :=
      parse_error_of_userinfo hfront huser hat' hok hparse
    · exact h ▸ .controlCharacter
    · exact h ▸ .missingScheme
    · exact h ▸ .colonInFirstSegment
    · exact h ▸ .invalidUserinfo
    · exact .host scheme h
    · exact .path h
  · rw [hafter] at hfrag
    exact .fragment hfrag

end Tokyo3Base.Go.NetURL
