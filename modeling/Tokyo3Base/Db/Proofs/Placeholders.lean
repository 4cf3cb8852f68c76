/-
`ConvertPgPlaceholders` against PostgreSQL's lexer: where the two cut the
text in the same places, what it returns is the text with the parameters
replaced that it sees, and the arguments in the order of these. So it is
right exactly if it sees all of them, or fails at one that has no
argument.

The code decides what a `$` or a quote is by the one or two bytes before
it, the lexer by the token that ended there. A parameter right behind a
number or another parameter is not seen, but it is copied like any other
text (`asSeen`), and the code goes on where the lexer does. `Seen` is when
it does so at the other tokens. That fails for a dollar quote right behind
a number or parameter, for the second part of an `E'...'` string that
holds a backslash, and for a comment that a carriage return ends. Where
no more placeholders follow, or an error comes first, it makes no
difference (`Readable`).
-/
import Tokyo3Base.Db.Proofs.Literals

namespace Tokyo3Base.Db

open Go Lib
open PgLexer (Token lex lexFrom Context Scanned scanned dollar lf cr
  minus quotedLen lineLen identCont tagCont take_spanLen lexFrom_cons
  flatMap_lexFrom scan_pos)

variable {α : Type}

-- ==== parameters replaced

/-- The number of a parameter, as it is written. -/
def numStr (t : Token) : GoString := t.text.drop 1

/-- The numbers of the parameters among tokens. -/
def parameters (ts : List Token) : List GoString :=
  (ts.filter fun t => t.kind == .parameter).map numStr

/-- The text of tokens with every parameter replaced. -/
def substituted (ts : List Token) : GoString :=
  ts.flatMap fun t => if t.kind = .parameter then ascii "?" else t.text

/-- The arguments in the order of the parameters. -/
def ordered (args : List α) : List GoString → Except GoString (List α)
  | [] => .ok []
  | p :: ps =>
      match argument args p with
      | none => .error (invalidPlaceholder p)
      | some arg => (ordered args ps).map (arg :: ·)

/-- What the text and the arguments become when exactly the parameter
tokens are replaced. Without one they are left as they are. -/
def replaceParameters (args : List α) (ts : List Token) :
    Except GoString (GoString × List α) :=
  if parameters ts = [] then .ok (substituted ts, args)
  else (ordered args (parameters ts)).map fun l => (substituted ts, l)

-- ==== what can be seen

/-- The bytes next to a token tell what it is. -/
structure Seen (before : Option UInt8) (t : Token)
    (after : Option UInt8) : Prop where
  /-- the `$` of a dollar quote does not stand right behind the byte of a
  name or number -/
  dollar : t.kind = .dollarQuote → before.any isIdentByte = false
  /-- nor does the `E` of a string that needs it, and what continues such
  a string does not need it -/
  escapes : t.kind = .string true true
      ∨ t.kind = .string true false ∧ before.any isIdentByte = true →
    PgLexer.backslash ∉ t.text
  /-- the line of a comment ends in LF or CRLF -/
  line : t.kind = .lineComment → t.text.getLast? = some cr →
    after = some lf

instance (before : Option UInt8) (t : Token)
    (after : Option UInt8) : Decidable (Seen before t after) :=
  decidable_of_iff
    ((t.kind = .dollarQuote → before.any isIdentByte = false)
      ∧ (t.kind = .string true true
          ∨ t.kind = .string true false ∧ before.any isIdentByte = true →
        PgLexer.backslash ∉ t.text)
      ∧ (t.kind = .lineComment → t.text.getLast? = some cr →
        after = some lf))
    ⟨fun h => ⟨h.1, h.2.1, h.2.2⟩, fun h => ⟨h.dollar, h.escapes, h.line⟩⟩

/-- A parameter that the code takes for text. -/
def overlooked (before : Option UInt8) (t : Token) : Bool :=
  t.kind == .parameter && before.any isIdentByte

/-- The tokens as the code sees them. -/
def asSeen (before : Option UInt8) :
    List Token → List Token
  | [] => []
  | t :: ts =>
      (if overlooked before t then { t with kind := .other } else t)
        :: asSeen t.text.getLast? ts

def noPlaceholder : GoString → Bool
  | [] => true
  | c :: s =>
      !(c == dollar && s.head?.any isDigit) && noPlaceholder s

/-- The code fails at a parameter that it sees. -/
def failsAt (args : List α) (before : Option UInt8) (t : Token) :
    Bool :=
  t.kind == .parameter && !before.any isIdentByte
    && (argument args (numStr t)).isNone

/-- The bytes next to the tokens tell what they are, up to a parameter at
which the code fails, or up to where no more placeholders follow. -/
def Readable (args : List α) (before : Option UInt8) :
    List Token → Prop
  | [] => True
  | t :: ts =>
      noPlaceholder ((t :: ts).flatMap Token.text) = true
        ∨ failsAt args before t = true
        ∨ Seen before t (ts.head?.bind fun u => u.text.head?)
          ∧ Readable args t.text.getLast? ts

instance decidableReadable (args : List α) (before : Option UInt8) :
    (ts : List Token) → Decidable (Readable args before ts)
  | [] => isTrue trivial
  | t :: ts =>
      @instDecidableOr _ _ _ (@instDecidableOr _ _ _
        (@instDecidableAnd _ _ _ (decidableReadable args t.text.getLast? ts)))

-- ==== what is copied

/-- From here on the loop writes a text as it is. -/
def Copies (args : List α) (done w rest : GoString) : Prop :=
  ∀ n acc, (w ++ rest).length ≤ n → ∃ n', rest.length ≤ n' ∧
    convertLoop args n done (w ++ rest) acc
      = convertLoop args n' (w.reverse ++ done) rest (acc.write w)

theorem Copies.append {args : List α} {done w w' rest : GoString}
    (h : Copies args done w (w' ++ rest))
    (h' : Copies args (w.reverse ++ done) w' rest) :
    Copies args done (w ++ w') rest := by
  intro n acc hn
  rw [List.append_assoc] at hn
  obtain ⟨n₁, hn₁, h₁⟩ := h n acc hn
  obtain ⟨n₂, hn₂, h₂⟩ := h' n₁ (acc.write w) hn₁
  refine ⟨n₂, hn₂, ?_⟩
  rw [List.append_assoc, h₁, h₂, List.reverse_append, List.append_assoc]
  simp [Builder.write]

theorem Copies.nil (args : List α) (done rest : GoString) :
    Copies args done [] rest := by
  intro n acc hn
  exact ⟨n, hn, by simp [Builder.write]⟩

/-- A literal is copied in one round. -/
theorem Copies.literal {args : List α} {done s : GoString} {len : Nat}
    (h : skipLiteral done s = len) (hlen : 0 < len) :
    Copies args done (s.take len) (s.drop len) := by
  intro n acc hn
  rw [List.take_append_drop] at hn ⊢
  cases s with
  | nil =>
      rw [← h] at hlen
      exact absurd hlen (Nat.lt_irrefl 0)
  | cons c s =>
      cases n with
      | zero => simp at hn
      | succ n =>
          refine ⟨n, ?_, ?_⟩
          · rw [List.length_drop]
            omega
          · rw [convertLoop]
            dsimp only
            rw [h, if_pos hlen]

/-- A byte at which no literal and no placeholder starts. -/
theorem Copies.byte {args : List α} {done : GoString} {c : UInt8}
    {rest : GoString} (h : skipLiteral done (c :: rest) = 0)
    (hc : c = 36 → afterIdentByte done = true ∨ rest.head?.any isDigit = false) :
    Copies args done [c] rest := by
  intro n acc hn
  cases n with
  | zero => simp at hn
  | succ n =>
      refine ⟨n, by simpa using hn, ?_⟩
      have hno : ¬ (c == 36 && !afterIdentByte done
          && rest.takeWhile isDigit != []) = true := by
        simp only [Bool.and_eq_true, beq_iff_eq, Bool.not_eq_true',
          bne_iff_ne, not_and, not_not]
        rintro ⟨h36, hdone⟩
        obtain hd | hd := hc h36
        · rw [hdone] at hd
          cases hd
        · cases rest with
          | nil => rfl
          | cons b rest => simpa using hd
      rw [List.cons_append, List.nil_append, convertLoop]
      dsimp only
      rw [h, if_neg (Nat.lt_irrefl 0), if_neg hno]
      rfl

theorem Copies.inert {args : List α} {w : GoString}
    (hw : ∀ c ∈ w, inert c = true) (done rest : GoString) :
    Copies args done w rest := by
  induction w generalizing done with
  | nil => exact .nil args done rest
  | cons c w ih =>
      have hc := hw c List.mem_cons_self
      have hbyte : Copies args done [c] (w ++ rest) :=
        .byte (skipLiteral_inert hc) fun h => by
          rw [h] at hc
          cases hc
      exact hbyte.append (ih (fun b hb => hw b (List.mem_cons_of_mem _ hb)) _)

/-- The bytes of a name behind its first one, dollars included. -/
theorem Copies.name {args : List α} {w : GoString}
    (hw : ∀ c ∈ w, isIdentByte c = true) {done : GoString}
    (hdone : afterIdentByte done = true) (rest : GoString) :
    Copies args done w rest := by
  induction w generalizing done with
  | nil => exact .nil args done rest
  | cons c w ih =>
      have hc := hw c List.mem_cons_self
      have hbyte : Copies args done [c] (w ++ rest) := by
        by_cases h36 : c = 36
        · refine .byte ?_ fun _ => .inl hdone
          simp [skipLiteral, h36, hdone]
        · have hin := inert_of_isIdentByte hc h36
          exact .byte (skipLiteral_inert hin) fun h => absurd h h36
      exact hbyte.append (ih (fun b hb => hw b (List.mem_cons_of_mem _ hb))
        (by simpa [afterIdentByte] using hc))

-- ==== token by token

theorem Copies.number (args : List α) (done s : GoString) :
    Copies args done (s.take (PgLexer.numberLen s))
      (s.drop (PgLexer.numberLen s)) := by
  obtain ⟨a, x, htake, ha, hx⟩ := PgLexer.take_numberLen s
  have hina : ∀ b ∈ a, Db.inert b = true := fun b hb => by
    obtain hb | rfl := ha b hb
    · exact inert_of_isDigit hb
    · rfl
  rw [htake]
  refine (Copies.inert hina done _).append ?_
  obtain rfl | ⟨e, sign, ds, rfl, he, hsign, hne, hds⟩ := hx
  · exact .nil args _ _
  · have hine : ∀ b ∈ [e], Db.inert b = true := fun b hb => by
      rw [List.mem_singleton.mp hb]
      exact inert_of_identStart (PgLexer.identStart_of_isE he)
    have hinds : ∀ b ∈ ds, Db.inert b = true := fun b hb =>
      inert_of_isDigit (hds b hb)
    refine Copies.append (w := [e] ++ sign)
      ((Copies.inert hine _ _).append ?_) (.inert hinds _ _)
    obtain rfl | rfl | rfl := hsign
    · exact .nil args _ _
    · exact .inert (by decide +kernel) _ _
    · refine .byte (skipLiteral_minus _ ?_) nofun
      -- the sign of an exponent has a digit behind it
      cases ds with
      | nil => exact absurd rfl hne
      | cons d ds =>
          have hd := hds d List.mem_cons_self
          intro hhead
          obtain rfl : d = 45 := by simpa using hhead
          exact absurd hd (by decide)

/-- A string behind no letter that would make it escape. What continues a
string that escapes is read as one that does not. -/
theorem copies_string (args : List α) {done s : GoString}
    {escapes continues : Bool} (hquote : escapePrefix done = false)
    (hmode : continues = false → escapes = false)
    (hno : escapes = true → continues = true → PgLexer.backslash ∉
      (PgLexer.quote :: s).take (1 + quotedLen PgLexer.quote escapes s)) :
    Copies args done
      ((PgLexer.quote :: s).take
        (1 + quotedLen PgLexer.quote escapes s))
      ((PgLexer.quote :: s).drop
        (1 + quotedLen PgLexer.quote escapes s)) := by
  have hskip := skipLiteral_quote done s
  rw [hquote] at hskip
  cases escapes with
  | false => exact .literal hskip (by omega)
  | true =>
      have hcont : continues = true := by
        cases continues with
        | true => rfl
        | false => exact (hmode rfl).symm
      have hno := hno rfl hcont
      rw [Nat.add_comm, List.take_succ_cons, List.mem_cons, not_or] at hno
      rw [PgLexer.quotedLen_mode hno.2] at hskip
      exact .literal hskip (by omega)

/-- A string with its letter. Behind the byte of a name the letter is not
seen, which makes no difference to a string without a backslash. -/
theorem copies_escapeString (args : List α) {c : UInt8} {done s : GoString}
    (hc : PgLexer.isE c = true)
    (hno : afterIdentByte done = true → PgLexer.backslash ∉
      (c :: PgLexer.quote :: s).take
        (2 + quotedLen PgLexer.quote true s)) :
    Copies args done
      ((c :: PgLexer.quote :: s).take
        (2 + quotedLen PgLexer.quote true s))
      ((c :: PgLexer.quote :: s).drop
        (2 + quotedLen PgLexer.quote true s)) := by
  have hin : ∀ b ∈ [c], inert b = true := fun b hb => by
    rw [List.mem_singleton.mp hb]
    exact inert_of_identStart (PgLexer.identStart_of_isE hc)
  have hskip := skipLiteral_quote (c :: done) s
  have hlen : quotedLen PgLexer.quote (escapePrefix (c :: done)) s
      = quotedLen PgLexer.quote true s := by
    cases hdone : afterIdentByte done with
    | true =>
        have hno := hno hdone
        rw [Nat.add_comm, List.take_succ_cons, List.take_succ_cons,
          List.mem_cons, List.mem_cons, not_or, not_or] at hno
        exact PgLexer.quotedLen_mode hno.2.2 _
    | false =>
        rw [show escapePrefix (c :: done) = true by
          rw [escapePrefix, hdone, escapeLetter_eq, hc]
          rfl]
  rw [hlen] at hskip
  have hcopy : Copies args (c :: done) _ _ := .literal hskip (by omega)
  rw [show 2 + quotedLen PgLexer.quote true s
      = 1 + quotedLen PgLexer.quote true s + 1 by omega,
    List.take_succ_cons, List.drop_succ_cons]
  exact (Copies.inert hin done _).append hcopy

theorem copies_other (args : List α) {c : UInt8} {done s : GoString}
    (hq : c ≠ PgLexer.quote) (hdq : c ≠ PgLexer.doubleQuote)
    (hdollar : c = dollar →
      s.head?.any PgLexer.isDigit = false ∧ PgLexer.tag? s = none)
    (hminus : c = minus → s.head? ≠ some minus)
    (hslash : c = PgLexer.solidus → s.head? ≠ some PgLexer.star) :
    Copies args done [c] s := by
  by_cases h36 : c = dollar
  · subst h36
    obtain ⟨hd, htag⟩ := hdollar rfl
    exact .byte (skipLiteral_dollar_other done htag) fun _ => .inr hd
  · refine .byte ?_ fun h => absurd h h36
    by_cases h45 : c = minus
    · subst h45
      exact skipLiteral_minus done (hminus rfl)
    · by_cases h47 : c = PgLexer.solidus
      · subst h47
        exact skipLiteral_slash done (hslash rfl)
      · exact skipLiteral_inert (by
          simp only [inert, Bool.and_eq_true, bne_iff_ne]
          exact ⟨⟨⟨⟨hq, hdq⟩, h45⟩, h47⟩, h36⟩)

/-- Every token that bytes tell apart is copied, except a parameter and a
comment that CRLF ends. -/
theorem copies_scanned (args : List α) {k : Context} {c : UInt8}
    {s : GoString} {kind : PgLexer.Kind} {len : Nat} {done : GoString}
    {after : Option UInt8} (h : Scanned k c s kind len)
    (hp : kind ≠ .parameter)
    (hseen : Seen done.head? ⟨kind, (c :: s).take len⟩ after)
    (hquote : c = PgLexer.quote → escapePrefix done = false)
    (hline : kind = .lineComment →
      ((c :: s).take len).getLast? ≠ some cr) :
    Copies args done ((c :: s).take len) ((c :: s).drop len) := by
  cases h with
  | parameter _ _ => exact absurd rfl hp
  | identifier hc _ =>
      rw [Nat.add_comm, List.take_succ_cons, List.drop_succ_cons,
        take_spanLen]
      have hin : ∀ b ∈ [c], inert b = true := fun b hb => by
        rw [List.mem_singleton.mp hb]
        exact inert_of_identStart hc
      refine (Copies.inert hin done _).append (.name ?_ ?_ _)
      · intro b hb
        rw [isIdentByte_eq]
        exact List.mem_takeWhile_imp hb
      · simp [afterIdentByte, isIdentByte_eq, identCont,
          tagCont, hc]
  | number _ => exact .number args done _
  | quotedIdentifier hc =>
      subst hc
      exact .literal (skipLiteral_doubleQuote done s) (by omega)
  | @dollarQuote tag hc htag =>
      subst hc
      exact .literal (skipLiteral_dollarQuote (hseen.dollar rfl) htag)
        (by omega)
  | @string escapes continues hc hmode =>
      subst hc
      refine copies_string args (hquote rfl) hmode fun hesc hcont => ?_
      subst hesc
      subst hcont
      exact hseen.escapes (.inl rfl)
  | escapeString hc hs =>
      obtain ⟨s, rfl⟩ : ∃ s', s = PgLexer.quote :: s' := by
        cases s <;> simp_all
      exact copies_escapeString args hc fun hdone =>
        hseen.escapes (.inr ⟨rfl, hdone⟩)
  | lineComment hc hs =>
      subst hc
      obtain ⟨s, rfl⟩ : ∃ s', s = minus :: s' := by
        cases s <;> simp_all
      have hcr : ¬ endsInCR s := fun hcr => by
        refine hline rfl ?_
        rw [List.drop_one, List.tail_cons]
        exact PgLexer.getLast?_take_two_add hcr
      have hskip := skipLiteral_line done s
      rw [lineEnd_eq fun h => absurd h hcr, if_neg hcr] at hskip
      exact .literal hskip (by omega)
  | blockComment hc hs =>
      subst hc
      obtain ⟨s, rfl⟩ : ∃ s', s = PgLexer.star :: s' := by
        cases s <;> simp_all
      exact .literal (skipLiteral_block done s) (by omega)
  | other _ hq hdq hdollar hminus hslash =>
      exact copies_other args hq hdq hdollar hminus hslash

/-- A comment that CRLF ends is copied with the line feed. -/
theorem copies_crlf (args : List α) {k : Context} {c : UInt8}
    {s : GoString} {len : Nat} (done : GoString) {rest : GoString}
    (h : Scanned k c s .lineComment len)
    (hcr : ((c :: s).take len).getLast? = some cr)
    (hlf : (c :: s).drop len = lf :: rest) :
    Copies args done ((c :: s).take len ++ [lf]) rest := by
  cases h with
  | lineComment hc hs =>
      subst hc
      obtain ⟨s, rfl⟩ : ∃ s', s = minus :: s' := by
        cases s <;> simp_all
      rw [List.drop_one, List.tail_cons, Nat.add_comm] at hcr hlf ⊢
      rw [List.drop_succ_cons, List.drop_succ_cons] at hlf
      have hend : endsInCR s := by
        rw [List.take_succ_cons, List.take_succ_cons, List.getLast?_cons,
          List.getLast?_cons] at hcr
        unfold endsInCR
        cases hlast : (s.take (lineLen s)).getLast? with
        | some b => simpa [hlast] using hcr
        | none =>
            rw [hlast] at hcr
            exact absurd hcr (by decide)
      have hskip := skipLiteral_line done s
      rw [lineEnd_eq fun _ => by rw [hlf]; rfl, if_pos hend] at hskip
      have hcopy : Copies args done _ _ := .literal hskip (by omega)
      have hdrop : (minus :: minus :: s).drop
          (lineLen s + 2) = lf :: rest := hlf
      have hdrop' : (minus :: minus :: s).drop
          (lineLen s + 2 + 1) = rest := by
        rw [← List.drop_drop, hdrop]
        rfl
      rw [show 2 + (lineLen s + 1) = lineLen s + 2 + 1 by omega,
        List.take_add, hdrop, hdrop'] at hcopy
      exact hcopy

/-- Behind a token, a quote does not look like that of an `E'...'` string:
the letter before it would be a token, and with the quote it is one. -/
theorem escapePrefix_after {k : Context} {c : UInt8} {s : GoString}
    {kind : PgLexer.Kind} {len : Nat} (h : Scanned k c s kind len)
    (done : GoString)
    (hquote : ((c :: s).drop len).head? = some PgLexer.quote) :
    escapePrefix (((c :: s).take len).reverse ++ done) = false := by
  by_cases hk : kind = .identifier
  · subst hk
    cases h with
    | identifier hc hE =>
        rw [Nat.add_comm, List.take_succ_cons, take_spanLen,
          List.reverse_cons, List.append_assoc, List.singleton_append]
        rw [Nat.add_comm, List.drop_succ_cons] at hquote
        cases hrev : (s.takeWhile identCont).reverse with
        | nil =>
            have hspan : PgLexer.spanLen identCont s = 0 := by
              rw [PgLexer.spanLen, List.reverse_eq_nil_iff.mp hrev]
              rfl
            rw [hspan, List.drop_zero] at hquote
            have hc : PgLexer.isE c = false := by
              simpa using mt (hE ·) (not_not_intro hquote)
            rw [List.nil_append, escapePrefix, escapeLetter_eq, hc,
              Bool.false_and]
        | cons x t =>
            have hmem : ∀ b ∈ t ++ [c], identCont b = true := by
              intro b hb
              obtain hb | hb := List.mem_append.mp hb
              · refine List.mem_takeWhile_imp (l := s) ?_
                rw [← List.mem_reverse, hrev]
                exact List.mem_cons_of_mem _ hb
              · rw [List.mem_singleton.mp hb]
                simp [identCont, tagCont, hc]
            have hafter : afterIdentByte (t ++ c :: done) = true := by
              cases t with
              | nil => simpa [afterIdentByte, isIdentByte_eq] using hmem
              | cons y t =>
                  simp only [List.cons_append, afterIdentByte,
                    List.head?_cons, Option.any_some, isIdentByte_eq]
                  exact hmem y List.mem_cons_self
            rw [List.cons_append, escapePrefix, hafter, Bool.not_true,
              Bool.and_false]
  · have hrest : (c :: s).drop len ≠ [] := fun hnil => by
      rw [hnil] at hquote
      cases hquote
    obtain ⟨b, hlast, hb⟩ := PgLexer.scan_last h hk hrest
    obtain ⟨w, hw⟩ := List.getLast?_eq_some_iff.mp hlast
    rw [hw, List.reverse_append, List.reverse_singleton, List.append_assoc,
      List.singleton_append, escapePrefix, escapeLetter_eq, hb, Bool.false_and]

/-- The loop over tokens: a parameter is replaced, anything else
written. -/
def consume (args : List α) :
    Builder α → List Token → Except GoString (Builder α)
  | acc, [] => .ok acc
  | acc, t :: ts =>
      if t.kind = .parameter then
        match argument args (numStr t) with
        | none => .error (invalidPlaceholder (numStr t))
        | some arg => consume args (acc.place arg) ts
      else consume args (acc.write t.text) ts

theorem head_lexFrom {m : Nat} (k : Context) {s : GoString}
    (hm : s.length ≤ m) :
    ((lexFrom m k s).head?.bind fun t => t.text.head?) = s.head? := by
  cases s with
  | nil => cases m <;> rfl
  | cons c s =>
      cases m with
      | zero => simp at hm
      | succ m =>
          cases hscan : PgLexer.scan k c s with
          | mk kind len =>
              have hpos := scan_pos (scanned hscan)
              rw [lexFrom_cons hscan]
              cases len with
              | zero => cases hpos
              | succ len => rfl

/-- The byte before the text that follows a token. -/
theorem head?_reverse_append {w : GoString} (hw : w ≠ []) (done : GoString) :
    (w.reverse ++ done).head? = w.getLast? := by
  rw [List.head?_append, List.head?_reverse,
    List.getLast?_eq_some_getLast hw, Option.some_or]

/-- A parameter is replaced in one round. -/
theorem convertLoop_parameter (args : List α) {n : Nat} {done s : GoString}
    {acc : Builder α} (hdone : afterIdentByte done = false)
    (hs : s.head?.any isDigit = true) :
    convertLoop args (n + 1) done (dollar :: s) acc
      = (argument args (s.takeWhile isDigit)).elim
        (.error (invalidPlaceholder (s.takeWhile isDigit)))
        fun arg => convertLoop args n
          ((s.takeWhile isDigit).reverse ++ dollar :: done)
          (s.drop (s.takeWhile isDigit).length) (acc.place arg) := by
  have hne : s.takeWhile isDigit ≠ [] := by
    cases s with
    | nil => simp at hs
    | cons d s => simpa using hs
  have hstart : (dollar == 36 && !afterIdentByte done
      && s.takeWhile isDigit != []) = true := by
    simpa [hdone, dollar] using hne
  rw [convertLoop]
  dsimp only
  rw [skipLiteral_dollar_other done (tag?_of_digit hs),
    if_neg (Nat.lt_irrefl 0), if_pos hstart]
  cases argument args (s.takeWhile isDigit) with
  | none => rfl
  | some arg => rfl

theorem consume_parameter (args : List α) (acc : Builder α)
    {t : Token} (ht : t.kind = .parameter)
    (ts : List Token) :
    consume args acc (t :: ts)
      = (argument args (numStr t)).elim
        (.error (invalidPlaceholder (numStr t)))
        fun arg => consume args (acc.place arg) ts := by
  rw [consume, if_pos ht]
  cases argument args (numStr t) with
  | none => rfl
  | some arg => rfl

theorem Builder.write_write (acc : Builder α) (x y : GoString) :
    (acc.write x).write y = acc.write (x ++ y) := by
  simp [Builder.write]

theorem noPlaceholder_append {x y : GoString}
    (h : noPlaceholder (x ++ y) = true) : noPlaceholder y = true := by
  induction x with
  | nil => exact h
  | cons c x ih =>
      rw [List.cons_append, noPlaceholder, Bool.and_eq_true] at h
      exact ih h.2

/-- A text without placeholders is copied, whatever is before it. -/
theorem convertLoop_copies (args : List α) {n : Nat} {done rest : GoString}
    {acc : Builder α} (hn : rest.length ≤ n)
    (h : noPlaceholder rest = true) :
    convertLoop args n done rest acc = .ok (acc.write rest) := by
  induction n generalizing done rest acc with
  | zero =>
      obtain rfl := List.length_eq_zero_iff.mp (Nat.le_zero.mp hn)
      simp [convertLoop, Builder.write]
  | succ n ih =>
      cases rest with
      | nil => simp [convertLoop, Builder.write]
      | cons c cs =>
          have hcs : cs.length ≤ n := Nat.le_of_succ_le_succ hn
          rw [convertLoop]
          dsimp only
          generalize skipLiteral done (c :: cs) = len
          split
          · have hdrop : noPlaceholder ((c :: cs).drop len) = true :=
              noPlaceholder_append (x := (c :: cs).take len)
                (by rwa [List.take_append_drop])
            rw [ih (by rw [List.length_drop, List.length_cons]; omega) hdrop,
              Builder.write_write, List.take_append_drop]
          · rw [noPlaceholder, Bool.and_eq_true] at h
            have hno : ¬ (c == 36 && !afterIdentByte done
                && cs.takeWhile isDigit != []) = true := by
              intro hplace
              simp only [Bool.and_eq_true, beq_iff_eq, bne_iff_ne] at hplace
              obtain ⟨⟨rfl, -⟩, hdigits⟩ := hplace
              cases cs with
              | nil => exact hdigits rfl
              | cons d cs =>
                  have hd : isDigit d = false := by
                    simpa [dollar] using h.1
                  exact hdigits (List.takeWhile_cons_of_neg (by simp [hd]))
            rw [if_neg hno, ih hcs h.2, Builder.write_write]
            rfl

/-- How a parameter is written. -/
theorem parameter_text {m : Nat} {k : Context} {s : GoString}
    {t : Token} (ht : t ∈ lexFrom m k s)
    (hkind : t.kind = .parameter) :
    ∃ d w, t.text = dollar :: d :: w ∧ isDigit d = true := by
  induction m generalizing k s with
  | zero => cases ht
  | succ m ih =>
      cases s with
      | nil => cases ht
      | cons c s =>
          cases hscan : PgLexer.scan k c s with
          | mk kind len =>
              rw [lexFrom_cons hscan] at ht
              obtain rfl | ht := List.mem_cons.mp ht
              · have hsc := scanned hscan
                obtain rfl : kind = .parameter := hkind
                cases hsc with
                | parameter hc hd =>
                    subst hc
                    cases s with
                    | nil => cases hd
                    | cons d s =>
                        have hd : PgLexer.isDigit d = true := hd
                        refine ⟨d, s.takeWhile PgLexer.isDigit, ?_, hd⟩
                        show List.take _ _ = _
                        rw [Nat.add_comm, List.take_succ_cons,
                          take_spanLen, List.takeWhile_cons_of_pos hd]
              · exact ih ht

/-- The tokens of a text without placeholders are written. -/
theorem consume_copies (args : List α) (before : Option UInt8)
    (acc : Builder α) {ts : List Token}
    (h : ∀ t ∈ ts, t.kind ≠ .parameter) :
    consume args acc (asSeen before ts)
      = .ok (acc.write (ts.flatMap Token.text)) := by
  induction ts generalizing before acc with
  | nil => simp [asSeen, consume, Builder.write]
  | cons t ts ih =>
      have ht := h t List.mem_cons_self
      have hsame : overlooked before t = false := by simp [overlooked, ht]
      rw [asSeen, hsame, if_neg (by decide), consume, if_neg ht,
        ih _ _ fun u hu => h u (List.mem_cons_of_mem t hu),
        Builder.write_write, List.flatMap_cons]

/-- What is behind a token that is no parameter. -/
theorem Readable.tail {args : List α} {before : Option UInt8}
    {t : Token} {ts : List Token} (ht : t.kind ≠ .parameter)
    (h : Readable args before (t :: ts)) :
    Readable args t.text.getLast? ts := by
  obtain h | h | h := h
  · cases ts with
    | nil => trivial
    | cons u ts =>
        rw [List.flatMap_cons] at h
        exact .inl (noPlaceholder_append h)
  · simp [failsAt, ht] at h
  · exact h.2

/-- On texts of at most so many bytes the code does what it should with the
tokens that it sees. -/
def Follows (args : List α) (m : Nat) : Prop :=
  ∀ n k done rest acc, rest.length ≤ m → rest.length ≤ n →
    (rest.head? = some PgLexer.quote → escapePrefix done = false) →
    Readable args done.head? (lexFrom m k rest) →
    convertLoop args n done rest acc
      = consume args acc (asSeen done.head? (lexFrom m k rest))

/-- Where no more placeholders follow, it does not matter how the rest is
read. -/
theorem follows_copies {args : List α} {m n : Nat} (k : Context)
    {done rest : GoString} (acc : Builder α) (hm : rest.length ≤ m)
    (hn : rest.length ≤ n) (h : noPlaceholder rest = true) :
    convertLoop args n done rest acc
      = consume args acc (asSeen done.head? (lexFrom m k rest)) := by
  rw [convertLoop_copies args hn h, consume_copies,
    flatMap_lexFrom m k rest hm]
  intro t ht hkind
  obtain ⟨d, w, htext, hd⟩ := parameter_text ht hkind
  obtain ⟨front, back, hts⟩ := List.append_of_mem ht
  have hrest := flatMap_lexFrom m k rest hm
  rw [hts, List.flatMap_append, List.flatMap_cons, htext] at hrest
  rw [← hrest] at h
  have hno := noPlaceholder_append h
  rw [List.cons_append, List.cons_append, noPlaceholder, Bool.and_eq_true]
    at hno
  simp [hd] at hno

/-- The text of a parameter, and what is behind it. -/
theorem parameter_split {k : Context} {c : UInt8} {s : GoString}
    {len : Nat} (h : Scanned k c s .parameter len) :
    c = dollar ∧ s.head?.any isDigit = true
      ∧ (c :: s).take len = dollar :: s.takeWhile isDigit
      ∧ (c :: s).drop len = s.drop (s.takeWhile isDigit).length := by
  cases h with
  | parameter hc hd =>
      subst hc
      refine ⟨rfl, hd, ?_, ?_⟩
      · rw [Nat.add_comm, List.take_succ_cons, take_spanLen]
        rfl
      · rw [Nat.add_comm, List.drop_succ_cons]
        rfl

theorem follows_parameter {args : List α} {m : Nat} (ih : Follows args m)
    {n : Nat} {k : Context} {c : UInt8} {done s : GoString}
    {len : Nat} (acc : Builder α) (hm : s.length ≤ m)
    (hn : s.length + 1 ≤ n)
    (h : Scanned k c s .parameter len)
    (hdone : afterIdentByte done = false)
    (hrest : (argument args (s.takeWhile isDigit)).isNone = true
      ∨ Readable args ((c :: s).take len).getLast?
        (lexFrom m (k.next .parameter c) ((c :: s).drop len))) :
    convertLoop args n done (c :: s) acc
      = consume args acc (⟨.parameter, (c :: s).take len⟩
        :: asSeen ((c :: s).take len).getLast?
          (lexFrom m (k.next .parameter c) ((c :: s).drop len))) := by
  have hnext := escapePrefix_after h done
  obtain ⟨rfl, hd, htake, hdrop⟩ := parameter_split h
  have hlen : (s.drop (s.takeWhile isDigit).length).length ≤ s.length := by
    rw [List.length_drop]
    omega
  rw [htake, hdrop] at hrest hnext ⊢
  have hhead := head?_reverse_append
    (w := dollar :: s.takeWhile isDigit) nofun done
  rw [List.reverse_cons, List.append_assoc, List.singleton_append]
    at hhead hnext
  cases n with
  | zero => cases hn
  | succ n =>
      rw [convertLoop_parameter args hdone hd, consume_parameter _ _ rfl,
        show numStr ⟨.parameter, dollar :: s.takeWhile isDigit⟩
          = s.takeWhile isDigit from rfl]
      cases harg : argument args (s.takeWhile isDigit) with
      | none => rfl
      | some arg =>
          rw [harg] at hrest
          have hrest := hrest.resolve_left nofun
          rw [← hhead] at hrest ⊢
          exact ih _ _ _ _ _ (by omega) (by omega) hnext hrest

/-- One that is not seen is copied, and the code goes on behind it. -/
theorem copies_parameter (args : List α) {k : Context} {c : UInt8}
    {done s : GoString} {len : Nat}
    (h : Scanned k c s .parameter len)
    (hdone : afterIdentByte done = true) :
    Copies args done ((c :: s).take len) ((c :: s).drop len) := by
  obtain ⟨rfl, -, htake, -⟩ := parameter_split h
  rw [htake]
  refine .name (fun b hb => ?_) hdone _
  obtain rfl | hb := List.mem_cons.mp hb
  · rfl
  · have hdigit : isDigit b = true := List.mem_takeWhile_imp hb
    rw [isIdentByte_eq, identCont, tagCont,
      show PgLexer.isDigit b = true from hdigit]
    simp

theorem follows_crlf {args : List α} {m : Nat}
    (ih : ∀ m' < m, Follows args m') {n : Nat} {k : Context}
    {c : UInt8} {done s : GoString} {len : Nat} (acc : Builder α)
    (hm : ((c :: s).drop len).length ≤ m) (hn : (c :: s).length ≤ n)
    (h : Scanned k c s .lineComment len)
    (hcr : ((c :: s).take len).getLast? = some cr)
    (hlf : ((c :: s).drop len).head? = some lf)
    (hrest : Readable args ((c :: s).take len).getLast?
      (lexFrom m .clear ((c :: s).drop len))) :
    convertLoop args n done (c :: s) acc
      = consume args (acc.write ((c :: s).take len))
        (asSeen ((c :: s).take len).getLast?
          (lexFrom m .clear ((c :: s).drop len))) := by
  cases hr : (c :: s).drop len with
  | nil =>
      rw [hr] at hlf
      cases hlf
  | cons d r =>
      rw [hr] at hlf hm hrest
      obtain rfl : d = lf := by simpa using hlf
      have htext : (c :: s).take len ++ [lf] ++ r = c :: s := by
        rw [List.append_assoc, List.singleton_append, ← hr,
          List.take_append_drop]
      -- the line feed is a token of its own, but not a round
      cases m with
      | zero => cases hm
      | succ m =>
          have hlex : lexFrom (m + 1) .clear (lf :: r)
              = ⟨.other, [lf]⟩ :: lexFrom m .clear r := rfl
          obtain ⟨n', hn', hcopy⟩ := copies_crlf args done h hcr hr n acc
            (by rwa [htext])
          rw [htext, List.reverse_append, List.reverse_singleton,
            List.singleton_append, List.cons_append] at hcopy
          rw [hlex] at hrest ⊢
          have hlast : (lf :: (((c :: s).take len).reverse
              ++ done)).head? = [lf].getLast? := rfl
          rw [hcopy, ih m (Nat.lt_succ_self m) n' .clear (lf :: _) r _
            (Nat.le_of_succ_le_succ hm) hn' (fun _ => rfl)
            (hrest.tail (by decide)), asSeen, if_neg (by simp [overlooked]),
            consume, if_neg (by decide), Builder.write_write, hlast]

/-- A token that is copied, whether it is seen or not. -/
theorem follows_copied {args : List α} {m n : Nat} (ih : Follows args m)
    {k : Context} {done : GoString} {c : UInt8} {s : GoString}
    {kind : PgLexer.Kind} {len : Nat} (acc : Builder α)
    (hlen : ((c :: s).drop len).length ≤ m) (hn : (c :: s).length ≤ n)
    (h : Scanned k c s kind len)
    (hcopy : Copies args done ((c :: s).take len) ((c :: s).drop len))
    (hrest : Readable args ((c :: s).take len).getLast?
      (lexFrom m (k.next kind c) ((c :: s).drop len))) :
    convertLoop args n done (c :: s) acc
      = consume args (acc.write ((c :: s).take len))
        (asSeen ((c :: s).take len).getLast?
          (lexFrom m (k.next kind c) ((c :: s).drop len))) := by
  have hhead := head?_reverse_append (w := (c :: s).take len)
    (by simpa using Nat.ne_of_gt (scan_pos h)) done
  obtain ⟨n', hn', hcopy⟩ := hcopy n acc (by rwa [List.take_append_drop])
  rw [List.take_append_drop] at hcopy
  rw [← hhead] at hrest ⊢
  rw [hcopy]
  exact ih n' _ _ _ _ hlen hn' (escapePrefix_after h done) hrest

/-- Token by token the code does what it should. -/
theorem follows (args : List α) (m : Nat) : Follows args m := by
  induction m using Nat.strong_induction_on with
  | _ m ih =>
    intro n k done rest acc hm hn hquote hread
    cases rest with
    | nil => cases m <;> cases n <;> rfl
    | cons c s =>
      cases m with
      | zero => cases hm
      | succ m =>
        cases hscan : PgLexer.scan k c s with
        | mk kind len =>
          have ihm := ih m (Nat.lt_succ_self m)
          have hsc := scanned hscan
          have hlen : ((c :: s).drop len).length ≤ m := by
            have := scan_pos hsc
            rw [List.length_drop]
            omega
          have htext := flatMap_lexFrom (m + 1) k (c :: s) hm
          rw [lexFrom_cons hscan] at hread htext ⊢
          obtain hno | hfails | ⟨hfirst, hrest⟩ := hread
          · rw [htext] at hno
            rw [← lexFrom_cons hscan]
            exact follows_copies k acc hm hn hno
          · simp only [failsAt, Bool.and_eq_true, beq_iff_eq,
              Bool.not_eq_true'] at hfails
            obtain ⟨⟨rfl, hdone⟩, hnone⟩ := hfails
            obtain ⟨rfl, -, htake, -⟩ := parameter_split hsc
            rw [asSeen, if_neg (by simp [overlooked, hdone])]
            refine follows_parameter ihm acc (Nat.le_of_succ_le_succ hm) hn hsc
              hdone (.inl ?_)
            rwa [numStr, htake] at hnone
          · rw [head_lexFrom _ hlen] at hfirst
            by_cases hp : kind = .parameter
            · subst hp
              cases hdone : afterIdentByte done with
              | false =>
                  rw [asSeen, if_neg (by
                    simpa [overlooked, afterIdentByte] using hdone)]
                  exact follows_parameter ihm acc (Nat.le_of_succ_le_succ hm)
                    hn hsc hdone (.inr hrest)
              | true =>
                  rw [asSeen, if_pos (by
                    simpa [overlooked, afterIdentByte] using hdone), consume,
                    if_neg nofun]
                  exact follows_copied ihm acc hlen hn hsc
                    (copies_parameter args hsc hdone) hrest
            · rw [asSeen, if_neg (by simp [overlooked, hp]), consume,
                if_neg hp]
              by_cases hcr : kind = .lineComment
                  ∧ ((c :: s).take len).getLast? = some cr
              · obtain ⟨rfl, hlast⟩ := hcr
                exact follows_crlf (fun m' hm' => ih m' (by omega)) acc hlen hn
                  hsc hlast (hfirst.line rfl hlast) hrest
              · exact follows_copied ihm acc hlen hn hsc
                  (copies_scanned args hsc hp hfirst
                    (fun hc => hquote (by rw [hc]; rfl))
                    fun hk hlast => hcr ⟨hk, hlast⟩) hrest

-- ==== whole texts

theorem consume_eq (args : List α) (acc : Builder α)
    (ts : List Token) :
    consume args acc ts
      = (ordered args (parameters ts)).map fun l =>
        ⟨acc.b ++ substituted ts, acc.orderedArgs ++ l,
          acc.found || !(parameters ts).isEmpty⟩ := by
  induction ts generalizing acc with
  | nil => simp [consume, ordered, parameters, substituted, Except.map]
  | cons t ts ih =>
      by_cases ht : t.kind = .parameter
      · have hparams : parameters (t :: ts) = numStr t :: parameters ts := by
          simp [parameters, ht]
        rw [consume_parameter args acc ht, hparams, ordered]
        cases argument args (numStr t) with
        | none => rfl
        | some arg =>
            dsimp only [Option.elim]
            rw [ih]
            cases ordered args (parameters ts) with
            | error err => rfl
            | ok l => simp [Except.map, Builder.place, substituted, ht]
      · have hparams : parameters (t :: ts) = parameters ts := by
          simp [parameters, ht]
        rw [consume, if_neg ht, ih, hparams]
        cases ordered args (parameters ts) with
        | error err => rfl
        | ok l => simp [Except.map, Builder.write, substituted, ht]

/-- Without parameters nothing is replaced. -/
theorem substituted_of_none {ts : List Token}
    (h : parameters ts = []) :
    substituted ts = ts.flatMap Token.text := by
  have hnone : ∀ t ∈ ts, t.kind ≠ .parameter := by
    simpa [parameters] using h
  exact List.flatMap_congr fun t ht => if_neg (hnone t ht)

theorem flatMap_asSeen (before : Option UInt8) (ts : List Token) :
    (asSeen before ts).flatMap Token.text = ts.flatMap Token.text := by
  induction ts generalizing before with
  | nil => rfl
  | cons t ts ih =>
      rw [asSeen, List.flatMap_cons, List.flatMap_cons, ih]
      split <;> rfl

/-- An overlooked parameter shows in the text. -/
theorem asSeen_eq_self {before : Option UInt8} {ts : List Token}
    (hdollar : ∀ t ∈ ts, t.kind = .parameter →
      t.text.head? = some dollar)
    (h : substituted (asSeen before ts) = substituted ts) :
    asSeen before ts = ts := by
  induction ts generalizing before with
  | nil => rfl
  | cons t ts ih =>
      have hrest := fun u hu => hdollar u (List.mem_cons_of_mem t hu)
      unfold substituted at h ih
      rw [asSeen, List.flatMap_cons, List.flatMap_cons] at h
      rw [asSeen]
      split at h
      · next hover =>
        have hkind : t.kind = .parameter := by
          simp only [overlooked, Bool.and_eq_true, beq_iff_eq] at hover
          exact hover.1
        have hfirst := hdollar t List.mem_cons_self hkind
        obtain ⟨w, hw⟩ := List.head?_eq_some_iff.mp hfirst
        have hhead := congrArg List.head? h
        have hhead : some dollar = (ascii "?").head? := by
          simpa [hkind, hw, ascii] using hhead
        exact absurd hhead (by decide)
      · next hseen => rw [if_neg hseen, ih hrest (List.append_cancel_left h)]

/-- What the code does is to replace the parameters that it sees. -/
theorem convert_eq (sql : GoString) (args : List α)
    (h : Readable args none (lex sql)) :
    convertPgPlaceholders sql args
      = replaceParameters args (asSeen none (lex sql)) := by
  have hloop : convertLoop args sql.length [] sql ⟨[], [], false⟩
      = consume args ⟨[], [], false⟩ (asSeen none (lex sql)) :=
    follows args sql.length _ _ _ _ _ (Nat.le_refl _) (Nat.le_refl _)
      (fun _ => rfl) h
  rw [convertPgPlaceholders, hloop, consume_eq, replaceParameters]
  by_cases hp : parameters (asSeen none (lex sql)) = []
  · rw [if_pos hp, hp, substituted_of_none hp, flatMap_asSeen,
      PgLexer.flatMap_lex]
    rfl
  · rw [if_neg hp]
    cases ordered args (parameters (asSeen none (lex sql))) with
    | error err => rfl
    | ok l => simp [Except.map, hp]

/-- There is an order exactly if every number is that of an argument. -/
theorem ordered_isOk (args : List α) (ps : List GoString) :
    (∃ l, ordered args ps = .ok l) ↔ ∀ p ∈ ps, argument args p ≠ none := by
  induction ps with
  | nil =>
      refine ⟨fun _ p hp => ?_, fun _ => ⟨[], rfl⟩⟩
      cases hp
  | cons p ps ih =>
      rw [List.forall_mem_cons, ← ih, ordered]
      cases harg : argument args p with
      | none => simp
      | some arg =>
          cases ordered args ps with
          | error err => simp [Except.map]
          | ok l => simp [Except.map]

/-- Where a text is readable, the code replaces exactly the parameters if it
returns anything at all: if and only if it sees them all, or one of those
that it sees has no argument. If it sees them all, it also fails as it
should. -/
theorem convert_replaces_iff (sql : GoString) (args : List α)
    (h : Readable args none (lex sql)) :
    ((∀ r, convertPgPlaceholders sql args = .ok r →
        replaceParameters args (lex sql) = .ok r)
      ↔ asSeen none (lex sql) = lex sql
        ∨ ∃ p ∈ parameters (asSeen none (lex sql)),
          argument args p = none)
    ∧ (asSeen none (lex sql) = lex sql →
      convertPgPlaceholders sql args = replaceParameters args (lex sql)) := by
  have hconvert := convert_eq sql args h
  have hall : asSeen none (lex sql) = lex sql →
      convertPgPlaceholders sql args
        = replaceParameters args (lex sql) := fun hseen => by
    rw [hconvert, hseen]
  refine ⟨⟨fun hright => ?_, ?_⟩, hall⟩
  · by_cases hnone : ∃ p ∈ parameters (asSeen none (lex sql)),
        argument args p = none
    · exact .inr hnone
    · obtain ⟨l, hl⟩ := (ordered_isOk args _).mpr fun p hp heq =>
        hnone ⟨p, hp, heq⟩
      refine .inl (asSeen_eq_self (fun t ht hkind => ?_) ?_)
      · obtain ⟨d, w, htext, -⟩ := parameter_text ht hkind
        rw [htext]
        rfl
      · -- both replace the same text
        have hshown (ts : List Token) {r : GoString × List α}
            (hr : replaceParameters args ts = .ok r) :
            r.1 = substituted ts := by
          unfold replaceParameters at hr
          split at hr
          · cases hr
            rfl
          · cases hord : ordered args (parameters ts) with
            | error err =>
                rw [hord] at hr
                cases hr
            | ok l' =>
                rw [hord] at hr
                cases hr
                rfl
        obtain ⟨r, hr⟩ : ∃ r, replaceParameters args
            (asSeen none (lex sql)) = .ok r := by
          unfold replaceParameters
          split
          · exact ⟨_, rfl⟩
          · rw [hl]
            exact ⟨_, rfl⟩
        rw [← hshown _ hr, hshown _ (hright r (hconvert.trans hr))]
  · rintro (hseen | ⟨p, hp, hnone⟩) r hr
    · rw [← hall hseen, hr]
    · -- the code has failed
      rw [hconvert, replaceParameters, if_neg (List.ne_nil_of_mem hp)] at hr
      cases hord : ordered args
          (parameters (asSeen none (lex sql))) with
      | error err =>
          rw [hord] at hr
          cases hr
      | ok l =>
          exact absurd hnone ((ordered_isOk args _).mp ⟨l, hord⟩ p hp)

/-- A text with strings, comments and quotes of every kind, in which only
the parameters are replaced; one in which an error comes first, and one
that ends in a quote behind a number. -/
theorem convert_replaces_iff_query :
    convertPgPlaceholders
      (ascii "SELECT $2, c$1, E'\\'$1', $$ $1 $$ /* $1 */ -- $9\r\n, $1")
      [10, 20]
    = .ok (ascii "SELECT ?, c$1, E'\\'$1', $$ $1 $$ /* $1 */ -- $9\r\n, ?",
        [20, 10])
    ∧ (∀ r, convertPgPlaceholders (ascii "$9 $1$1") [10] = .ok r →
      replaceParameters [10] (lex (ascii "$9 $1$1")) = .ok r)
    ∧ convertPgPlaceholders (ascii "SELECT $1 LIMIT 1$$ x $$") [10]
      = .ok (ascii "SELECT ? LIMIT 1$$ x $$", [10]) := by
  refine ⟨((convert_replaces_iff _ _ (by decide +kernel)).2
      (by decide +kernel)).trans (by decide +kernel),
    (convert_replaces_iff _ _ (by decide +kernel)).1.mpr
      (.inr ⟨ascii "9", by decide +kernel, by decide +kernel⟩),
    ((convert_replaces_iff _ _ (by decide +kernel)).2
      (by decide +kernel)).trans (by decide +kernel)⟩

/-- Six texts that the code cuts in other places than the lexer: a
parameter behind a parameter and behind a number, a dollar quote behind a
number, a string that escapes behind a parameter, the second part of such
a string, and a comment that a carriage return ends. In each a parameter
is left, or a text that is none replaced. -/
theorem convert_other_places :
    (convertPgPlaceholders (ascii "SELECT $1$2") [10, 20]
        = .ok (ascii "SELECT ?$2", [10])
      ∧ replaceParameters [10, 20] (lex (ascii "SELECT $1$2"))
        = .ok (ascii "SELECT ??", [10, 20]))
    ∧ (convertPgPlaceholders (ascii "SELECT 1$1") [10]
        = .ok (ascii "SELECT 1$1", [10])
      ∧ replaceParameters [10] (lex (ascii "SELECT 1$1"))
        = .ok (ascii "SELECT 1?", [10]))
    ∧ (convertPgPlaceholders (ascii "LIMIT 1$$ $1 $$") [10]
        = .ok (ascii "LIMIT 1$$ ? $$", [10])
      ∧ replaceParameters [10] (lex (ascii "LIMIT 1$$ $1 $$"))
        = .ok (ascii "LIMIT 1$$ $1 $$", [10]))
    ∧ (convertPgPlaceholders (ascii "$1E'\\'$2'") [10, 20]
        = .ok (ascii "?E'\\'?'", [10, 20])
      ∧ replaceParameters [10, 20] (lex (ascii "$1E'\\'$2'"))
        = .ok (ascii "?E'\\'$2'", [10]))
    ∧ (convertPgPlaceholders (ascii "E'a'\n'\\'$1'") [10]
        = .ok (ascii "E'a'\n'\\'?'", [10])
      ∧ replaceParameters [10] (lex (ascii "E'a'\n'\\'$1'"))
        = .ok (ascii "E'a'\n'\\'$1'", [10]))
    ∧ (convertPgPlaceholders (ascii "-- a\r$1") [10]
        = .ok (ascii "-- a\r$1", [10])
      ∧ replaceParameters [10] (lex (ascii "-- a\r$1"))
        = .ok (ascii "-- a\r?", [10])) := by
  refine ⟨⟨?_, ?_⟩, ⟨?_, ?_⟩, ⟨?_, ?_⟩, ⟨?_, ?_⟩, ⟨?_, ?_⟩, ?_, ?_⟩ <;>
  decide +kernel


end Tokyo3Base.Db
