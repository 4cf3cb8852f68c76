/-
PostgreSQL's lexer, as far as it decides where a parameter `$n` stands:
the text is cut from left to right into tokens, each the longest that
starts where the one before it ends. `standard_conforming_strings` is on,
so that a backslash escapes only in the strings that say so.

A quoted string goes on after white space that holds a newline, in the
mode in which it began. The parts are tokens of their own here, and what
a part inherits is carried along from token to token.
-/
import Mathlib.Data.List.Basic
import Mathlib.Data.List.TakeWhile

namespace Tokyo3Base.Lib.PgLexer

-- ==== bytes

def dollar : UInt8 := 36

def quote : UInt8 := 39

def doubleQuote : UInt8 := 34

def backslash : UInt8 := 92

def minus : UInt8 := 45

def star : UInt8 := 42

def solidus : UInt8 := 47

def period : UInt8 := 46

def lf : UInt8 := 10

def cr : UInt8 := 13

def isDigit (c : UInt8) : Bool := 48 ≤ c && c ≤ 57

def isLetter (c : UInt8) : Bool := (65 ≤ c && c ≤ 90) || (97 ≤ c && c ≤ 122)

/-- The first byte of an identifier: `[A-Za-z_\x80-\xff]`. -/
def identStart (c : UInt8) : Bool := isLetter c || c == 95 || 128 ≤ c

/-- A later byte of the tag of a dollar quote. -/
def tagCont (c : UInt8) : Bool := identStart c || isDigit c

/-- A later byte of an identifier: `[A-Za-z0-9_$\x80-\xff]`. -/
def identCont (c : UInt8) : Bool := tagCont c || c == dollar

/-- The letter before the quote of a string in which a backslash
escapes. -/
def isE (c : UInt8) : Bool := c == 69 || c == 101

def isNewline (c : UInt8) : Bool := c == lf || c == cr

def isSpace (c : UInt8) : Bool := c == 32 || (9 ≤ c && c ≤ 13)

-- ==== lengths

/-- The length of the longest text of such bytes. -/
def spanLen (p : UInt8 → Bool) (s : List UInt8) : Nat :=
  (s.takeWhile p).length

/-- What is left of a string or quoted identifier after its opening
quote: a doubled quote stands for itself, as does any byte after a
backslash that escapes. -/
def quotedLen (q : UInt8) (escapes : Bool) : List UInt8 → Nat
  | [] => 0
  | [_] => 1
  | c :: d :: s =>
      if (escapes && c == backslash) || (c == q && d == q) then
        2 + quotedLen q escapes s
      else if c == q then 1
      else 1 + quotedLen q escapes (d :: s)

/-- What is left of a comment in which so many are open. -/
def commentLen : Nat → List UInt8 → Nat
  | _, [] => 0
  | _, [_] => 1
  | depth, c :: d :: s =>
      if c == solidus && d == star then 2 + commentLen (depth + 1) s
      else if c == star && d == solidus then
        if depth ≤ 1 then 2 else 2 + commentLen (depth - 1) s
      else 1 + commentLen depth (d :: s)

/-- A comment up to the end of its line. -/
def lineLen : List UInt8 → Nat
  | [] => 0
  | c :: s => if isNewline c then 1 else 1 + lineLen s

/-- The tag of a dollar quote, read after its first dollar. -/
def tag? (s : List UInt8) : Option (List UInt8) :=
  let tag := if s.head?.any identStart then s.takeWhile tagCont else []
  if (s.drop tag.length).head? = some dollar then some tag else none

/-- What stands around the body of a dollar quote. -/
def delimiter (tag : List UInt8) : List UInt8 := dollar :: tag ++ [dollar]

/-- What is left of a dollar quote after its opening delimiter. -/
def bodyLen (delim : List UInt8) : List UInt8 → Nat
  | [] => 0
  | c :: s =>
      if delim.isPrefixOf (c :: s) then delim.length
      else 1 + bodyLen delim s

/-- The length of an exponent; without a digit there is none. -/
def exponentLen : List UInt8 → Nat
  | [] => 0
  | e :: s =>
      if isE e then
        let sign := if s.head? = some 43 ∨ s.head? = some minus then 1 else 0
        let digits := spanLen isDigit (s.drop sign)
        if digits = 0 then 0 else 1 + sign + digits
      else 0

/-- The length of a fraction, its point included. -/
def fractionLen (s : List UInt8) : Nat :=
  if s.head? = some period then 1 + spanLen isDigit (s.drop 1) else 0

/-- The length of a number without its exponent. -/
def mantissaLen (s : List UInt8) : Nat :=
  spanLen isDigit s + fractionLen (s.drop (spanLen isDigit s))

/-- The length of a number: digits, a fraction, an exponent. -/
def numberLen (s : List UInt8) : Nat :=
  mantissaLen s + exponentLen (s.drop (mantissaLen s))

-- ==== tokens

inductive Kind where
  | identifier
  | number
  | parameter
  /-- a string, or the part of one that continues it -/
  | string (escapes continues : Bool)
  | quotedIdentifier
  | lineComment
  | blockComment
  | dollarQuote
  /-- a single byte of an operator, of white space, or of neither -/
  | other
deriving DecidableEq

structure Token where
  kind : Kind
  text : List UInt8
deriving DecidableEq

/-- Whether a string may go on: after a part of one, with the mode it is
in and whether a newline has been seen since. -/
inductive Context where
  | clear
  | afterString (escapes newline : Bool)
deriving DecidableEq

/-- The mode of the string that the next quote would continue. -/
def Context.resumes : Context → Option Bool
  | .afterString escapes true => some escapes
  | _ => none

/-- The context after a token, of which the first byte is given. -/
def Context.next (k : Context) (kind : Kind) (c : UInt8) : Context :=
  match kind, k with
  | .string escapes _, _ => .afterString escapes false
  | .other, .afterString escapes newline =>
      if isSpace c then .afterString escapes (newline || isNewline c)
      else .clear
  | _, _ => .clear

/-- The kind and the length of the token with which a text starts. -/
def scan (k : Context) (c : UInt8) (s : List UInt8) : Kind × Nat :=
  if identStart c then
    if isE c && s.head? == some quote then
      (.string true false, 2 + quotedLen quote true (s.drop 1))
    else (.identifier, 1 + spanLen identCont s)
  else if isDigit c || (c == period && s.head?.any isDigit) then
    (.number, numberLen (c :: s))
  else if c == dollar then
    if s.head?.any isDigit then (.parameter, 1 + spanLen isDigit s)
    else
      match tag? s with
      | some tag =>
          (.dollarQuote, tag.length + 2
            + bodyLen (delimiter tag) (s.drop (tag.length + 1)))
      | none => (.other, 1)
  else if c == quote then
    match k.resumes with
    | some escapes =>
        (.string escapes true, 1 + quotedLen quote escapes s)
    | none => (.string false false, 1 + quotedLen quote false s)
  else if c == doubleQuote then
    (.quotedIdentifier, 1 + quotedLen doubleQuote false s)
  else if c == minus && s.head? == some minus then
    (.lineComment, 2 + lineLen (s.drop 1))
  else if c == solidus && s.head? == some star then
    (.blockComment, 2 + commentLen 1 (s.drop 1))
  else (.other, 1)

/-- The tokens of a text, at most so many. -/
def lexFrom : Nat → Context → List UInt8 → List Token
  | 0, _, _ => []
  | _ + 1, _, [] => []
  | n + 1, k, c :: s =>
      let (kind, len) := scan k c s
      ⟨kind, (c :: s).take len⟩
        :: lexFrom n (k.next kind c) ((c :: s).drop len)

/-- The tokens of a text: no token is empty, so there are no more of them
than bytes. -/
def lex (s : List UInt8) : List Token := lexFrom s.length .clear s

-- ==== lengths

theorem take_spanLen (p : UInt8 → Bool) (s : List UInt8) :
    s.take (spanLen p s) = s.takeWhile p :=
  (List.prefix_iff_eq_take.mp (s.takeWhile_prefix p)).symm

theorem getLast?_cons_of_some {a b : UInt8} {s : List UInt8}
    (h : s.getLast? = some b) : (a :: s).getLast? = some b := by
  rw [List.getLast?_cons, h]
  rfl

theorem getLast?_take_two_add {a b c : UInt8} {s : List UInt8} {n : Nat}
    (h : (s.take n).getLast? = some c) :
    ((a :: b :: s).take (2 + n)).getLast? = some c := by
  rw [Nat.add_comm, List.take_succ_cons, List.take_succ_cons]
  exact getLast?_cons_of_some (getLast?_cons_of_some h)

/-- Only the closing quote ends a string before the text. -/
theorem quotedLen_last {q : UInt8} {e : Bool} {s : List UInt8}
    (h : quotedLen q e s < s.length) :
    (s.take (quotedLen q e s)).getLast? = some q := by
  fun_induction quotedLen q e s with
  | case1 => simp at h
  | case2 => simp at h
  | case3 c d s _ ih =>
      exact getLast?_take_two_add (ih (by simp at h; omega))
  | case4 c d s _ hc => simp [beq_iff_eq.mp hc]
  | case5 c d s _ _ ih =>
      have ih := ih (by simp at h ⊢; omega)
      rw [Nat.add_comm, List.take_succ_cons]
      exact getLast?_cons_of_some ih

/-- Without a backslash the mode of a string makes no difference. -/
theorem quotedLen_mode {q : UInt8} {s : List UInt8}
    (h : backslash ∉ s.take (quotedLen q true s)) (e : Bool) :
    quotedLen q e s = quotedLen q true s := by
  cases e with
  | true => rfl
  | false =>
      fun_induction quotedLen q true s with
      | case1 => rfl
      | case2 => rfl
      | case3 c d s hc ih =>
          rw [Nat.add_comm, List.take_succ_cons, List.take_succ_cons] at h
          simp only [List.mem_cons, not_or] at h
          have hne : (c == backslash) = false := by
            simpa using Ne.symm h.1
          rw [quotedLen, if_pos (by simpa [hne] using hc), ih h.2.2]
      | case4 c d s hc hq =>
          rw [quotedLen, if_neg (by simp at hc ⊢; exact hc.2), if_pos hq]
      | case5 c d s hc hq ih =>
          rw [Nat.add_comm, List.take_succ_cons, List.mem_cons,
            not_or] at h
          rw [quotedLen, if_neg (by simp at hc ⊢; exact hc.2), if_neg hq,
            ih h.2]

theorem commentLen_last {depth : Nat} {s : List UInt8}
    (h : commentLen depth s < s.length) :
    (s.take (commentLen depth s)).getLast? = some solidus := by
  fun_induction commentLen depth s with
  | case1 => simp at h
  | case2 => simp at h
  | case3 depth c d s _ ih =>
      exact getLast?_take_two_add (ih (by simp at h; omega))
  | case4 depth c d s _ hc => simp_all
  | case5 depth c d s _ _ _ ih =>
      exact getLast?_take_two_add (ih (by simp at h; omega))
  | case6 depth c d s _ _ ih =>
      have ih := ih (by simp at h ⊢; omega)
      rw [Nat.add_comm, List.take_succ_cons]
      exact getLast?_cons_of_some ih

/-- A comment ends with its line. -/
theorem lineLen_last {s : List UInt8} (h : lineLen s < s.length) :
    ∃ b, (s.take (lineLen s)).getLast? = some b ∧ isNewline b = true := by
  fun_induction lineLen s with
  | case1 => simp at h
  | case2 c s hc => exact ⟨c, rfl, hc⟩
  | case3 c s _ ih =>
      obtain ⟨b, hb, hnl⟩ := ih (by simp at h; omega)
      rw [Nat.add_comm, List.take_succ_cons]
      exact ⟨b, getLast?_cons_of_some hb, hnl⟩

theorem bodyLen_last {tag s : List UInt8}
    (h : bodyLen (delimiter tag) s < s.length) :
    (s.take (bodyLen (delimiter tag) s)).getLast? = some dollar := by
  fun_induction bodyLen (delimiter tag) s with
  | case1 => simp at h
  | case2 c s hp =>
      rw [← List.prefix_iff_eq_take.mp (List.isPrefixOf_iff_prefix.mp hp)]
      exact getLast?_cons_of_some List.getLast?_concat
  | case3 c s _ ih =>
      rw [Nat.add_comm, List.take_succ_cons]
      exact getLast?_cons_of_some (ih (by simp at h; omega))

-- ==== numbers

theorem take_fractionLen (s : List UInt8) :
    ∀ b ∈ s.take (fractionLen s), isDigit b = true ∨ b = period := by
  intro b hb
  unfold fractionLen at hb
  split at hb
  · rename_i hs
    cases s with
    | nil => simp at hs
    | cons c s =>
        rw [Nat.add_comm, List.take_succ_cons, List.drop_one,
          List.tail_cons, take_spanLen, List.mem_cons] at hb
        obtain rfl | hb := hb
        · exact .inr (by simpa using hs)
        · exact .inl (List.mem_takeWhile_imp hb)
  · simp at hb

/-- An exponent is a letter, a sign or none, and digits. -/
theorem take_exponentLen (s : List UInt8) :
    s.take (exponentLen s) = [] ∨
      ∃ e sign ds, s.take (exponentLen s) = e :: sign ++ ds
        ∧ isE e = true ∧ (sign = [] ∨ sign = [43] ∨ sign = [minus])
        ∧ ds ≠ [] ∧ ∀ d ∈ ds, isDigit d = true := by
  cases s with
  | nil => exact .inl rfl
  | cons e s =>
      simp only [exponentLen]
      split
      · rename_i he
        -- one statement for the three signs: the digits after it
        have key : ∀ sign, s.take sign.length = sign →
            (sign = [] ∨ sign = [43] ∨ sign = [minus]) →
            spanLen isDigit (s.drop sign.length) ≠ 0 →
            ∃ e' sign' ds, (e :: s).take
                (1 + sign.length + spanLen isDigit (s.drop sign.length))
                = e' :: sign' ++ ds
              ∧ isE e' = true
              ∧ (sign' = [] ∨ sign' = [43] ∨ sign' = [minus])
              ∧ ds ≠ [] ∧ ∀ d ∈ ds, isDigit d = true := by
          intro sign htake hsign hne
          refine ⟨e, sign, (s.drop sign.length).takeWhile isDigit, ?_, he,
            hsign, fun h => hne (by rw [spanLen, h]; rfl),
            fun d hd => List.mem_takeWhile_imp hd⟩
          rw [Nat.add_assoc, Nat.add_comm 1, List.take_succ_cons,
            List.take_add, htake, take_spanLen]
          rfl
        by_cases hsign : s.head? = some 43 ∨ s.head? = some minus
        · rw [if_pos hsign]
          split
          · exact .inl rfl
          · rename_i hne
            cases s with
            | nil => simp at hsign
            | cons c s =>
                refine .inr (key [c] rfl ?_ hne)
                simpa using hsign
        · rw [if_neg hsign]
          split
          · exact .inl rfl
          · rename_i hne
            exact .inr (key [] rfl (.inl rfl) hne)
      · exact .inl rfl

theorem take_mantissaLen (s : List UInt8) :
    ∀ b ∈ s.take (mantissaLen s), isDigit b = true ∨ b = period := by
  intro b hb
  rw [mantissaLen, List.take_add, take_spanLen, List.mem_append] at hb
  obtain hb | hb := hb
  · exact .inl (List.mem_takeWhile_imp hb)
  · exact take_fractionLen _ b hb

/-- A number is digits and points, and an exponent or none. -/
theorem take_numberLen (s : List UInt8) :
    ∃ a x, s.take (numberLen s) = a ++ x
      ∧ (∀ b ∈ a, isDigit b = true ∨ b = period)
      ∧ (x = [] ∨ ∃ e sign ds, x = e :: sign ++ ds
        ∧ isE e = true ∧ (sign = [] ∨ sign = [43] ∨ sign = [minus])
        ∧ ds ≠ [] ∧ ∀ d ∈ ds, isDigit d = true) := by
  refine ⟨s.take (mantissaLen s), _, ?_, take_mantissaLen s,
    take_exponentLen (s.drop (mantissaLen s))⟩
  rw [← List.take_add]
  rfl

/-- A number ends in a digit or in its point. -/
theorem numberLen_last {s : List UInt8} {b : UInt8}
    (h : (s.take (numberLen s)).getLast? = some b) :
    isDigit b = true ∨ b = period := by
  obtain ⟨a, x, htake, ha, hx⟩ := take_numberLen s
  rw [htake] at h
  obtain rfl | ⟨e, sign, ds, rfl, -, -, hne, hds⟩ := hx
  · rw [List.append_nil] at h
    exact ha b (List.mem_of_getLast? h)
  · rw [← List.append_assoc, List.getLast?_append_of_ne_nil _ hne] at h
    exact .inl (hds b (List.mem_of_getLast? h))

theorem numberLen_pos {c : UInt8} {s : List UInt8}
    (h : isDigit c = true ∨ c = period) : 0 < numberLen (c :: s) := by
  have hpos : 0 < mantissaLen (c :: s) := by
    by_cases hc : isDigit c = true
    · simp only [mantissaLen, spanLen, List.takeWhile_cons, hc, if_true,
        List.length_cons]
      omega
    · have hp : c = period := h.resolve_left hc
      simp only [mantissaLen, spanLen, List.takeWhile_cons, hc]
      simp [fractionLen, hp, Nat.add_comm 1]
  exact Nat.lt_of_lt_of_le hpos (Nat.le_add_right _ _)

-- ==== the kinds apart

/-- What is known of a token of each kind. -/
inductive Scanned (k : Context) (c : UInt8) (s : List UInt8) :
    Kind → Nat → Prop where
  | escapeString : isE c = true → s.head? = some quote →
      Scanned k c s (.string true false)
        (2 + quotedLen quote true (s.drop 1))
  | identifier : identStart c = true →
      (isE c = true → s.head? ≠ some quote) →
      Scanned k c s .identifier (1 + spanLen identCont s)
  | number : isDigit c = true ∨ c = period →
      Scanned k c s .number (numberLen (c :: s))
  | parameter : c = dollar → s.head?.any isDigit = true →
      Scanned k c s .parameter (1 + spanLen isDigit s)
  | dollarQuote {tag : List UInt8} : c = dollar → tag? s = some tag →
      Scanned k c s .dollarQuote
        (tag.length + 2 + bodyLen (delimiter tag) (s.drop (tag.length + 1)))
  | string {escapes continues : Bool} : c = quote →
      (continues = false → escapes = false) →
      Scanned k c s (.string escapes continues)
        (1 + quotedLen quote escapes s)
  | quotedIdentifier : c = doubleQuote →
      Scanned k c s .quotedIdentifier (1 + quotedLen doubleQuote false s)
  | lineComment : c = minus → s.head? = some minus →
      Scanned k c s .lineComment (2 + lineLen (s.drop 1))
  | blockComment : c = solidus → s.head? = some star →
      Scanned k c s .blockComment (2 + commentLen 1 (s.drop 1))
  | other : identStart c = false → c ≠ quote → c ≠ doubleQuote →
      (c = dollar → s.head?.any isDigit = false ∧ tag? s = none) →
      (c = minus → s.head? ≠ some minus) →
      (c = solidus → s.head? ≠ some star) →
      Scanned k c s .other 1

theorem scanned {k : Context} {c : UInt8} {s : List UInt8} {kind : Kind}
    {len : Nat} (h : scan k c s = (kind, len)) : Scanned k c s kind len := by
  unfold scan at h
  simp only [Bool.and_eq_true, Bool.or_eq_true, beq_iff_eq] at h
  split at h
  · rename_i hid
    split at h
    · rename_i he
      cases h
      exact .escapeString he.1 he.2
    · rename_i he
      cases h
      exact .identifier hid fun hc hs => he ⟨hc, hs⟩
  · rename_i hid
    split at h
    · rename_i hnum
      cases h
      exact .number (hnum.imp_right And.left)
    · split at h
      · rename_i hc
        split at h
        · rename_i hd
          cases h
          exact .parameter hc hd
        · rename_i hd
          split at h
          · rename_i tag htag
            cases h
            exact .dollarQuote hc htag
          · rename_i htag
            cases h
            subst hc
            exact .other rfl (by decide) (by decide)
              (fun _ => ⟨by simpa using hd, htag⟩) (fun h => absurd h (by decide))
              (fun h => absurd h (by decide))
      · rename_i hdollar
        split at h
        · rename_i hc
          split at h
          · cases h
            exact .string hc nofun
          · cases h
            exact .string hc fun _ => rfl
        · rename_i hquote
          split at h
          · rename_i hc
            cases h
            exact .quotedIdentifier hc
          · rename_i hdouble
            split at h
            · rename_i hc
              cases h
              exact .lineComment hc.1 hc.2
            · rename_i hminus
              split at h
              · rename_i hc
                cases h
                exact .blockComment hc.1 hc.2
              · rename_i hslash
                cases h
                exact .other (by simpa using hid) hquote hdouble
                  (fun hc => absurd hc hdollar)
                  (fun hc hs => hminus ⟨hc, hs⟩)
                  (fun hc hs => hslash ⟨hc, hs⟩)

theorem scan_pos {k : Context} {c : UInt8} {s : List UInt8} {kind : Kind}
    {len : Nat} (h : Scanned k c s kind len) : 0 < len := by
  cases h with
  | number hc => exact numberLen_pos hc
  | _ => omega

/-- The tag of a dollar quote stands between two dollars. -/
theorem tag?_spec {s tag : List UInt8} (h : tag? s = some tag) :
    ∃ rest, s = tag ++ dollar :: rest
      ∧ tag = if s.head?.any identStart then s.takeWhile tagCont else [] := by
  unfold tag? at h
  dsimp only at h
  generalize htag : (if s.head?.any identStart = true
    then s.takeWhile tagCont else []) = t at h
  have hpre : t <+: s := by
    rw [← htag]
    split
    · exact s.takeWhile_prefix _
    · exact List.nil_prefix
  split at h
  · rename_i hhead
    cases h
    obtain ⟨rest, hs⟩ := hpre
    rw [← hs, List.drop_left] at hhead
    cases rest with
    | nil => simp at hhead
    | cons d rest =>
        obtain rfl : d = dollar := by simpa using hhead
        exact ⟨rest, hs.symm, rfl⟩
  · cases h

/-- A byte of a class that has no `E` in it. -/
theorem isE_eq_false {p : UInt8 → Bool} (hE : p 69 = false)
    (he : p 101 = false) {b : UInt8} (h : p b = true) : isE b = false := by
  rw [isE, Bool.or_eq_false_iff, beq_eq_false_iff_ne, beq_eq_false_iff_ne]
  constructor
  · rintro rfl
    exact absurd h (by simp [hE])
  · rintro rfl
    exact absurd h (by simp [he])

theorem identStart_of_isE {b : UInt8} (h : isE b = true) :
    identStart b = true := by
  rw [isE, Bool.or_eq_true, beq_iff_eq, beq_iff_eq] at h
  obtain rfl | rfl := h <;> decide

theorem exists_last {P : UInt8 → Prop} {s : List UInt8} (hne : s ≠ [])
    (h : ∀ b ∈ s, P b) : ∃ b, s.getLast? = some b ∧ P b :=
  ⟨s.getLast hne, List.getLast?_eq_some_getLast hne,
    h _ (List.getLast_mem hne)⟩

/-- The front of a text, and what is known of its last byte if the text
goes on behind it. -/
theorem last_of_front {P : UInt8 → Prop} (front : List UInt8)
    {s : List UInt8} {n : Nat}
    (h : n < s.length → ∃ b, (s.take n).getLast? = some b ∧ P b)
    (hrest : (front ++ s).drop (front.length + n) ≠ []) :
    ∃ b, ((front ++ s).take (front.length + n)).getLast? = some b ∧ P b := by
  have hlt : n < s.length := by
    rw [Ne, List.drop_eq_nil_iff, List.length_append] at hrest
    omega
  obtain ⟨b, hb, hP⟩ := h hlt
  refine ⟨b, ?_, hP⟩
  rw [List.take_append, List.take_of_length_le (Nat.le_add_right _ _),
    Nat.add_sub_cancel_left, List.getLast?_append, hb, Option.some_or]

/-- Only an identifier ends in a letter, unless the text ends with it. -/
theorem scan_last {k : Context} {c : UInt8} {s : List UInt8} {kind : Kind}
    {len : Nat} (h : Scanned k c s kind len) (hk : kind ≠ .identifier)
    (hrest : (c :: s).drop len ≠ []) :
    ∃ b, ((c :: s).take len).getLast? = some b ∧ isE b = false := by
  cases h with
  | identifier _ _ => exact absurd rfl hk
  | escapeString _ hs =>
      obtain ⟨s, rfl⟩ : ∃ s', s = quote :: s' := by
        cases s <;> simp_all
      exact last_of_front [c, quote]
        (fun hlt => ⟨quote, quotedLen_last hlt, rfl⟩) hrest
  | number hc =>
      have hne : (c :: s).take (numberLen (c :: s)) ≠ [] := by
        simpa using Nat.ne_of_gt (numberLen_pos hc)
      refine ⟨_, List.getLast?_eq_some_getLast hne, ?_⟩
      obtain hb | hb := numberLen_last (List.getLast?_eq_some_getLast hne)
      · exact isE_eq_false (p := isDigit) rfl rfl hb
      · rw [hb]
        rfl
  | parameter hc _ =>
      rw [Nat.add_comm, List.take_succ_cons, take_spanLen]
      refine exists_last (by simp) fun b hb => ?_
      obtain rfl | hb := List.mem_cons.mp hb
      · rw [hc]
        rfl
      · exact isE_eq_false (p := isDigit) rfl rfl
          (List.mem_takeWhile_imp hb)
  | @dollarQuote tag hc htag =>
      obtain ⟨rest, rfl, -⟩ := tag?_spec htag
      have hdrop : (tag ++ dollar :: rest).drop (tag.length + 1) = rest := by
        rw [List.drop_append, Nat.add_sub_cancel_left,
          List.drop_eq_nil_of_le (Nat.le_succ _)]
        rfl
      have hlen : tag.length + 2 = (delimiter tag).length := by
        simp [delimiter]
      have htext : c :: (tag ++ dollar :: rest) = delimiter tag ++ rest := by
        simp [delimiter, hc]
      rw [hdrop, hlen, htext] at hrest ⊢
      exact last_of_front _ (fun hlt => ⟨dollar, bodyLen_last hlt, rfl⟩) hrest
  | string hc _ =>
      exact last_of_front [c]
        (fun hlt => ⟨quote, quotedLen_last hlt, rfl⟩) hrest
  | quotedIdentifier hc =>
      exact last_of_front [c]
        (fun hlt => ⟨doubleQuote, quotedLen_last hlt, rfl⟩) hrest
  | lineComment _ hs =>
      obtain ⟨s, rfl⟩ : ∃ s', s = minus :: s' := by
        cases s <;> simp_all
      refine last_of_front [c, minus] (fun hlt => ?_) hrest
      obtain ⟨b, hb, hnl⟩ := lineLen_last hlt
      exact ⟨b, hb, isE_eq_false (p := isNewline) rfl rfl hnl⟩
  | blockComment _ hs =>
      obtain ⟨s, rfl⟩ : ∃ s', s = star :: s' := by
        cases s <;> simp_all
      exact last_of_front [c, star]
        (fun hlt => ⟨solidus, commentLen_last hlt, rfl⟩) hrest
  | other hid _ _ _ _ _ =>
      refine ⟨c, rfl, ?_⟩
      cases hc : isE c with
      | false => rfl
      | true => exact absurd (identStart_of_isE hc) (by simp [hid])

theorem lexFrom_cons {n : Nat} {k : Context} {c : UInt8} {s : List UInt8}
    {kind : Kind} {len : Nat} (h : scan k c s = (kind, len)) :
    lexFrom (n + 1) k (c :: s)
      = ⟨kind, (c :: s).take len⟩
        :: lexFrom n (k.next kind c) ((c :: s).drop len) := by
  rw [lexFrom, h]

/-- The tokens are the text, cut into pieces. -/
theorem flatMap_lexFrom (n : Nat) (k : Context) (s : List UInt8)
    (hn : s.length ≤ n) : (lexFrom n k s).flatMap Token.text = s := by
  induction n generalizing k s with
  | zero =>
      rw [List.length_eq_zero_iff.mp (Nat.le_zero.mp hn)]
      rfl
  | succ n ih =>
      cases s with
      | nil => rfl
      | cons c s =>
          cases hscan : scan k c s with
          | mk kind len =>
              have hpos := scan_pos (scanned hscan)
              rw [lexFrom_cons hscan, List.flatMap_cons, ih]
              · exact List.take_append_drop _ _
              · rw [List.length_drop]
                omega

theorem flatMap_lex (s : List UInt8) : (lex s).flatMap Token.text = s :=
  flatMap_lexFrom _ _ _ (Nat.le_refl _)

example : (lex [36, 49, 36, 50]).map Token.text = [[36, 49], [36, 50]] := by
  decide +kernel

end Tokyo3Base.Lib.PgLexer
