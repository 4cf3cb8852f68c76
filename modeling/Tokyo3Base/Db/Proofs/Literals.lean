/-
`skipLiteral` against the lengths of PostgreSQL's lexer: for each kind of
literal, how far the code skips and how long the lexer's token is.

The loops over a quoted text, a comment, a tag and a body are the same
functions. What differs is what is known of the place: whether a quote is
that of an `E'...'` string is read off two bytes, and a comment ends at a
line feed only.
-/
import Tokyo3Base.Db.Placeholders
import Tokyo3Base.Lib.PgLexer

namespace Tokyo3Base.Db

open Go Lib
open PgLexer (delimiter lineLen identStart tagCont dollar tag?
  quotedLen bodyLen cr lf minus isNewline commentLen)

-- ==== the loops

theorem isIdentByte_eq (b : UInt8) : isIdentByte b = PgLexer.identCont b :=
  forall_byte (P := fun b => isIdentByte b = PgLexer.identCont b)
    (by decide +kernel) b

theorem skipQuoted_eq (c : UInt8) (esc : Bool) (s : GoString) :
    skipQuoted c esc s = quotedLen c esc s := by
  fun_induction quotedLen c esc s with
  | case1 => rfl
  | case2 b =>
      simp only [skipQuoted]
      split
      · rfl
      · split <;> rfl
  | case3 b d s h ih =>
      rw [Bool.or_eq_true] at h
      rw [skipQuoted]
      by_cases hesc : (esc && b == backslash) = true
      · rw [if_pos hesc, ih]
      · have hq : (b == c) = true ∧ (d == c) = true := by
          simpa using h.resolve_left hesc
        rw [if_neg hesc, if_pos hq.1, if_pos hq.2, ih]
  | case4 b d s h hb =>
      rw [Bool.or_eq_true, not_or] at h
      have hesc : ¬ (esc && b == backslash) = true := h.1
      have hd : ¬ (d == c) = true := fun hd => h.2 (by simp [hb, hd])
      rw [skipQuoted, if_neg hesc, if_pos hb, if_neg hd]
  | case5 b d s h hb ih =>
      rw [Bool.or_eq_true, not_or] at h
      have hesc : ¬ (esc && b == backslash) = true := h.1
      rw [skipQuoted, if_neg hesc, if_neg hb, ih]

theorem hasPrefix_pair (a b c d : UInt8) (s : GoString) :
    hasPrefix (c :: d :: s) [a, b] = (c == a && d == b) := by
  simp [hasPrefix, List.isPrefixOf, BEq.comm]

theorem skipComment_pair (depth : Nat) (b d : UInt8) (s : GoString) :
    skipComment depth (b :: d :: s)
      = if b == 47 && d == 42 then 2 + skipComment (depth + 1) s
        else if b == 42 && d == 47 then
          if depth - 1 = 0 then 2 else 2 + skipComment (depth - 1) s
        else 1 + skipComment depth (d :: s) := by
  have hopen := hasPrefix_pair 47 42 b d s
  have hclose := hasPrefix_pair 42 47 b d s
  rw [skipComment, show ascii "/*" = [47, 42] from rfl,
    show ascii "*/" = [42, 47] from rfl, hopen, hclose]

theorem skipComment_eq {depth : Nat} (hd : 1 ≤ depth) (s : GoString) :
    skipComment depth s = commentLen depth s := by
  fun_induction commentLen depth s with
  | case1 => rfl
  | case2 depth b =>
      simp [skipComment, hasPrefix, List.isPrefixOf, ascii]
  | case3 depth b d s h ih =>
      have h : (b == 47 && d == 42) = true := h
      rw [skipComment_pair, if_pos h, ih (by omega)]
  | case4 depth b d s h h' hdepth =>
      have h : ¬ (b == 47 && d == 42) = true := h
      have h' : (b == 42 && d == 47) = true := h'
      rw [skipComment_pair, if_neg h, if_pos h', if_pos (by omega)]
  | case5 depth b d s h h' hdepth ih =>
      have h : ¬ (b == 47 && d == 42) = true := h
      have h' : (b == 42 && d == 47) = true := h'
      rw [skipComment_pair, if_neg h, if_pos h', if_neg (by omega),
        ih (by omega)]
  | case6 depth b d s h h' ih =>
      have h : ¬ (b == 47 && d == 42) = true := h
      have h' : ¬ (b == 42 && d == 47) = true := h'
      rw [skipComment_pair, if_neg h, if_neg h', ih hd]

theorem tagByte_eq (b : UInt8) :
    (b == 95 || (b ≥ 97 && b ≤ 122) || (b ≥ 65 && b ≤ 90) || b ≥ 0x80)
      = identStart b :=
  forall_byte (P := fun b => (b == 95 || (b ≥ 97 && b ≤ 122)
    || (b ≥ 65 && b ≤ 90) || b ≥ 0x80) = identStart b)
    (by decide +kernel) b

/-- The loop over a tag, past its first byte. -/
theorem tagLen_false (s : GoString) :
    tagLen false s = (s.takeWhile tagCont).length := by
  induction s with
  | nil => rfl
  | cons b s ih =>
      have hb : ((b == 95 || (b ≥ 97 && b ≤ 122) || (b ≥ 65 && b ≤ 90)
          || b ≥ 0x80 || (!false && b ≥ 48 && b ≤ 57)) = true)
          = (tagCont b = true) := by
        rw [tagByte_eq]
        simp [tagCont, PgLexer.isDigit]
      rw [tagLen, List.takeWhile_cons, ih]
      simp only [hb]
      split
      · rw [List.length_cons, Nat.add_comm]
      · rfl

theorem tagLen_true (s : GoString) :
    tagLen true s = (if s.head?.any identStart then
      s.takeWhile tagCont else []).length := by
  cases s with
  | nil => rfl
  | cons b s =>
      have hb : ((b == 95 || (b ≥ 97 && b ≤ 122) || (b ≥ 65 && b ≤ 90)
          || b ≥ 0x80 || (!true && b ≥ 48 && b ≤ 57)) = true)
          = (identStart b = true) := by
        rw [tagByte_eq]
        simp
      rw [tagLen, tagLen_false]
      by_cases h : identStart b = true
      · have hcont : tagCont b = true := by simp [tagCont, h]
        simp only [hb, List.head?_cons, Option.any_some, h, if_true,
          List.takeWhile_cons, hcont, List.length_cons, Nat.add_comm]
      · simp only [hb, List.head?_cons, Option.any_some, h]
        rfl

theorem index_bodyLen (delim : GoString) (hd : delim ≠ []) (s : GoString) :
    (index s delim).elim s.length (· + delim.length) = bodyLen delim s := by
  induction s with
  | nil => simp [index, hd, bodyLen]
  | cons c s ih =>
      rw [index, bodyLen]
      by_cases hp : delim.isPrefixOf (c :: s) = true
      · rw [if_pos hp, if_pos (by simpa [hasPrefix] using hp)]
        simp
      · rw [if_neg hp, if_neg (by simpa [hasPrefix] using hp), ← ih]
        cases index s delim with
        | none => simp [Nat.add_comm]
        | some k =>
            change k + 1 + delim.length = 1 + (k + delim.length)
            omega

-- ==== bytes apart

/-- A byte with which no literal and no placeholder starts. -/
def inert (c : UInt8) : Bool :=
  c != 39 && c != 34 && c != 45 && c != 47 && c != 36

theorem skipLiteral_inert {done rest : GoString} {c : UInt8}
    (hc : inert c = true) : skipLiteral done (c :: rest) = 0 := by
  simp only [inert, Bool.and_eq_true, bne_iff_ne] at hc
  obtain ⟨⟨⟨⟨h39, h34⟩, h45⟩, h47⟩, h36⟩ := hc
  simp [skipLiteral, h39, h34, h45, h47, h36]

theorem inert_of_isIdentByte {c : UInt8} (hc : isIdentByte c = true)
    (h36 : c ≠ 36) : inert c = true :=
  forall_byte (P := fun c => isIdentByte c = true → c ≠ 36 → inert c = true)
    (by decide +kernel) c hc h36

theorem inert_of_isDigit {c : UInt8} (hc : PgLexer.isDigit c = true) :
    inert c = true :=
  forall_byte (P := fun c => PgLexer.isDigit c = true → inert c = true)
    (by decide +kernel) c hc

theorem inert_of_identStart {c : UInt8} (hc : identStart c = true) :
    inert c = true :=
  forall_byte (P := fun c => identStart c = true → inert c = true)
    (by decide +kernel) c hc

-- ==== quotes and comments

theorem escapeLetter_eq (c : UInt8) :
    (c == 101 || c == 69) = PgLexer.isE c :=
  Bool.or_comm _ _

theorem skipLiteral_quote (done s : GoString) :
    skipLiteral done (PgLexer.quote :: s)
      = 1 + quotedLen PgLexer.quote (escapePrefix done) s := by
  simp [skipLiteral, PgLexer.quote, skipQuoted_eq]

theorem skipLiteral_doubleQuote (done s : GoString) :
    skipLiteral done (PgLexer.doubleQuote :: s)
      = 1 + quotedLen PgLexer.doubleQuote false s := by
  simp [skipLiteral, PgLexer.doubleQuote, skipQuoted_eq]

theorem skipLiteral_block (done s : GoString) :
    skipLiteral done (PgLexer.solidus :: PgLexer.star :: s)
      = 2 + commentLen 1 s := by
  have hp : hasPrefix (47 :: 42 :: s) (ascii "/*") = true := rfl
  simp [skipLiteral, PgLexer.solidus, PgLexer.star, hp, skipComment_pair,
    skipComment_eq]

theorem skipLiteral_minus (done : GoString) {s : GoString}
    (hs : s.head? ≠ some 45) : skipLiteral done (45 :: s) = 0 := by
  have hp : hasPrefix (45 :: s) (ascii "--") = false := by
    cases s with
    | nil => rfl
    | cons d s =>
        have hd : d ≠ 45 := by simpa using hs
        rw [show ascii "--" = [45, 45] from rfl, hasPrefix_pair]
        simp [hd]
  simp [skipLiteral, hp]

theorem skipLiteral_slash (done : GoString) {s : GoString}
    (hs : s.head? ≠ some 42) : skipLiteral done (47 :: s) = 0 := by
  have hp : hasPrefix (47 :: s) (ascii "/*") = false := by
    cases s with
    | nil => rfl
    | cons d s =>
        have hd : d ≠ 42 := by simpa using hs
        rw [show ascii "/*" = [47, 42] from rfl, hasPrefix_pair]
        simp [hd]
  simp [skipLiteral, hp]

-- ==== dollars

theorem skipLiteral_dollarQuote {done s tag : GoString}
    (hdone : afterIdentByte done = false) (htag : tag? s = some tag) :
    skipLiteral done (dollar :: s)
      = tag.length + 2 + bodyLen (delimiter tag)
        (s.drop (tag.length + 1)) := by
  obtain ⟨rest, hs, htagLen⟩ := PgLexer.tag?_spec htag
  have hlen : tagLen true s = tag.length := by rw [tagLen_true, ← htagLen]
  have htext : dollar :: s = delimiter tag ++ rest := by
    rw [hs]
    simp [delimiter]
  have hdelim : (delimiter tag).length = tag.length + 2 := by
    simp [delimiter]
  have hdrop : s.drop (tag.length + 1) = rest := by
    rw [hs, List.drop_append, Nat.add_sub_cancel_left,
      List.drop_eq_nil_of_le (Nat.le_succ _)]
    rfl
  have htake : (36 :: s).take (1 + tag.length + 1) = delimiter tag := by
    rw [show (36 : UInt8) :: s = _ from htext,
      show 1 + tag.length + 1 = (delimiter tag).length by omega,
      List.take_left]
  have hhead : ((36 :: s).drop (1 + tag.length)).head? = some 36 := by
    rw [Nat.add_comm, List.drop_succ_cons, hs, List.drop_left]
    rfl
  have hrest : (36 :: s).drop (1 + tag.length + 1) = rest := by
    rw [List.drop_succ_cons, Nat.add_comm, hdrop]
  have hbody := index_bodyLen (delimiter tag) (by simp [delimiter]) rest
  rw [hdrop, ← hbody]
  simp only [skipLiteral, dollar, hdone, hlen, htake, hhead, hrest]
  cases index rest (delimiter tag) with
  | none =>
      have hsum := congrArg List.length htext
      rw [List.length_append, hdelim] at hsum
      exact hsum
  | some k =>
      change 1 + tag.length + 1 + k + (delimiter tag).length
        = tag.length + 2 + (k + (delimiter tag).length)
      omega

theorem skipLiteral_dollar_other (done : GoString) {s : GoString}
    (htag : tag? s = none) :
    skipLiteral done (dollar :: s) = 0 := by
  unfold tag? at htag
  dsimp only at htag
  rw [ite_eq_right_iff] at htag
  have hhead : ((36 :: s).drop (1 + tagLen true s)).head? ≠ some 36 := by
    rw [Nat.add_comm, List.drop_succ_cons, tagLen_true]
    exact fun h => absurd (htag h) nofun
  simp only [skipLiteral, dollar, bne_iff_ne.mpr hhead]
  change (if afterIdentByte done = true then 0 else 0) = 0
  rw [ite_self]

/-- A digit is not the start of a tag, nor the end of one. -/
theorem tag?_of_digit {s : GoString} (h : s.head?.any isDigit = true) :
    tag? s = none := by
  cases s with
  | nil => simp at h
  | cons d s =>
      obtain ⟨hstart, hne⟩ : identStart d = false ∧ d ≠ 36 :=
        forall_byte (P := fun d => isDigit d = true →
            identStart d = false ∧ d ≠ 36)
          (by decide +kernel) d (by simpa using h)
      simp [tag?, hstart, dollar, hne]

-- ==== ends of lines

/-- The end of a line as the code finds it. -/
def lineEnd (s : GoString) : Nat :=
  match indexByte s 10 with
  | some nl => nl + 1
  | none => s.length

theorem lineEnd_cons {c : UInt8} (hc : c ≠ 10) (s : GoString) :
    lineEnd (c :: s) = 1 + lineEnd s := by
  have hc : (c == 10) = false := beq_eq_false_iff_ne.mpr hc
  unfold lineEnd indexByte
  rw [List.findIdx?_cons, hc]
  cases s.findIdx? (· == 10) with
  | none => exact Nat.add_comm _ _
  | some nl => exact Nat.add_comm _ _

/-- A carriage return ends a comment of the lexer. -/
def endsInCR (s : GoString) : Prop :=
  (s.take (lineLen s)).getLast? = some cr

instance (s : GoString) : Decidable (endsInCR s) :=
  inferInstanceAs (Decidable (_ = _))

theorem endsInCR_cons {c : UInt8} (hc : isNewline c = false)
    (s : GoString) : endsInCR (c :: s) ↔ endsInCR s := by
  unfold endsInCR
  rw [lineLen, if_neg (by simp [hc]), Nat.add_comm,
    List.take_succ_cons, List.getLast?_cons]
  cases (s.take (lineLen s)).getLast? with
  | some b => rfl
  | none =>
      have hne : c ≠ cr := fun h => by
        rw [h] at hc
        cases hc
      simp [hne]

/-- The code ends a comment where the lexer does, or behind CRLF. -/
theorem lineEnd_eq {s : GoString}
    (h : endsInCR s → (s.drop (lineLen s)).head? = some lf) :
    lineEnd s = lineLen s + if endsInCR s then 1 else 0 := by
  induction s with
  | nil => rfl
  | cons c s ih =>
      cases hc : isNewline c with
      | false =>
          have hlen : lineLen (c :: s) = lineLen s + 1 := by
            rw [lineLen, if_neg (by simp [hc]), Nat.add_comm]
          have hne : c ≠ 10 := fun h => by
            rw [h] at hc
            cases hc
          rw [endsInCR_cons hc, hlen, List.drop_succ_cons] at h
          rw [lineEnd_cons hne, ih h, hlen]
          simp only [endsInCR_cons hc]
          omega
      | true =>
          have hlen : lineLen (c :: s) = 1 := by
            rw [lineLen, if_pos hc]
          have hend : endsInCR (c :: s) ↔ c = cr := by
            simp [endsInCR, hlen]
          rw [hend, hlen] at h
          simp only [hend, hlen]
          by_cases hcr : c = cr
          · cases s with
            | nil => simpa using h hcr
            | cons d s =>
                obtain rfl : d = lf := by simpa using h hcr
                rw [if_pos hcr, hcr]
                rfl
          · have hlf : c = 10 := by
              simpa [isNewline, hcr, lf] using hc
            rw [if_neg hcr, hlf]
            rfl

theorem skipLiteral_line (done s : GoString) :
    skipLiteral done (minus :: minus :: s) = 2 + lineEnd s := by
  have hp : hasPrefix (45 :: 45 :: s) (ascii "--") = true := rfl
  simp only [skipLiteral, minus, hp]
  change lineEnd (45 :: 45 :: s) = 2 + lineEnd s
  rw [lineEnd_cons (by decide), lineEnd_cons (by decide)]
  omega

example : skipLiteral [] (ascii "--a\nb") = 4 := by decide +kernel

end Tokyo3Base.Db
