/-
What `ConvertPgPlaceholders` does to any text at all: it cuts the text into
literals, placeholders and single bytes, and replaces the placeholders.

Unlike in `Placeholders`, nothing is said about SQL here. A literal is what
`skipLiteral` takes for one at the position the scan has come to, whether
PostgreSQL would or not.
-/
import Mathlib.Data.List.Forall2
import Tokyo3Base.Db.Proofs.Placeholders

namespace Tokyo3Base.Db

open Go Lib

variable {α : Type}

-- ==== inside the text

theorem skipQuoted_le (c : UInt8) (esc : Bool) (s : GoString) :
    skipQuoted c esc s ≤ s.length := by
  fun_induction skipQuoted c esc s with
  | case1 => exact Nat.le_refl 0
  | _ => simp only [List.length_cons] at *; omega

theorem skipComment_le (depth : Nat) (s : GoString) :
    skipComment depth s ≤ s.length := by
  fun_induction skipComment depth s with
  | case1 => exact Nat.le_refl 0
  | _ => simp only [List.length_cons] at *; omega

theorem index_add_le {s sub : GoString} {k : Nat}
    (h : index s sub = some k) : k + sub.length ≤ s.length := by
  induction s generalizing k with
  | nil =>
      rw [index] at h
      split at h
      · rename_i hsub
        cases h
        rw [hsub]
        exact Nat.le_refl 0
      · cases h
  | cons c s ih =>
      rw [index] at h
      split at h
      · rename_i hpre
        cases h
        rw [Nat.zero_add]
        exact (List.isPrefixOf_iff_prefix.mp hpre).length_le
      · obtain ⟨k', hk', rfl⟩ := Option.map_eq_some_iff.mp h
        have := ih hk'
        rw [List.length_cons]
        omega

theorem skipLiteral_le (done rest : GoString) :
    skipLiteral done rest ≤ rest.length := by
  unfold skipLiteral
  cases rest with
  | nil => exact Nat.le_refl 0
  | cons c cs =>
      dsimp only
      split
      · have := skipQuoted_le c (c == 39 && escapePrefix done) cs
        rw [List.length_cons]
        omega
      · split
        · cases hnl : indexByte (c :: cs) 10 with
          | none => exact Nat.le_refl _
          | some nl =>
              exact (List.findIdx?_eq_some_iff_getElem.mp hnl).1
        · split
          · exact skipComment_le 0 _
          · split
            · split
              · exact Nat.zero_le _
              · split
                · exact Nat.zero_le _
                · rename_i hdollar
                  generalize 1 + tagLen true cs = j at hdollar ⊢
                  have hj : j < (c :: cs).length := by
                    refine Nat.lt_of_not_le fun hle => hdollar ?_
                    rw [List.drop_eq_nil_of_le hle]
                    rfl
                  cases hk : index ((c :: cs).drop (j + 1))
                      ((c :: cs).take (j + 1)) with
                  | none => exact Nat.le_refl _
                  | some k =>
                      have := index_add_le hk
                      rw [List.length_drop] at this
                      dsimp only
                      omega
            · exact Nat.zero_le _

-- ==== the cut

/-- A piece of a text: a literal, a placeholder by its number, or any
other byte. -/
inductive Piece where
  | literal (region : GoString)
  | placeholder (digits : GoString)
  | byte (c : UInt8)
deriving DecidableEq

def Piece.text : Piece → GoString
  | .literal region => region
  | .placeholder digits => 36 :: digits
  | .byte c => [c]

/-- What is written for a piece. -/
def Piece.written : Piece → GoString
  | .literal region => region
  | .placeholder _ => ascii "?"
  | .byte c => [c]

def Piece.number? : Piece → Option GoString
  | .placeholder digits => some digits
  | _ => none

/-- The numbers of the placeholders, in order of appearance. -/
def numbers (ps : List Piece) : List GoString := ps.filterMap Piece.number?

/-- The cut of a text behind the bytes `done`. A placeholder takes all the
digits that there are. -/
inductive Scan : GoString → GoString → List Piece → Prop where
  | nil (done : GoString) : Scan done [] []
  | literal {done region rest : GoString} {ps : List Piece}
      (hskip : skipLiteral done (region ++ rest) = region.length)
      (hne : region ≠ []) (h : Scan (region.reverse ++ done) rest ps) :
      Scan done (region ++ rest) (.literal region :: ps)
  | placeholder {done digits rest : GoString} {ps : List Piece}
      (hskip : skipLiteral done (36 :: (digits ++ rest)) = 0)
      (hident : afterIdentByte done = false) (hne : digits ≠ [])
      (hdigits : ∀ c ∈ digits, isDigit c = true)
      (hmax : rest.head?.any isDigit = false)
      (h : Scan (digits.reverse ++ 36 :: done) rest ps) :
      Scan done (36 :: (digits ++ rest)) (.placeholder digits :: ps)
  | byte {done rest : GoString} {c : UInt8} {ps : List Piece}
      (hskip : skipLiteral done (c :: rest) = 0)
      (hno : c = 36 → afterIdentByte done = true
        ∨ rest.head?.any isDigit = false)
      (h : Scan (c :: done) rest ps) : Scan done (c :: rest) (.byte c :: ps)

theorem Scan.text {done rest : GoString} {ps : List Piece}
    (h : Scan done rest ps) : ps.flatMap Piece.text = rest := by
  induction h with
  | nil => rfl
  | literal _ _ _ ih => rw [List.flatMap_cons, ih, Piece.text]
  | placeholder _ _ _ _ _ _ ih =>
      rw [List.flatMap_cons, ih, Piece.text, List.cons_append]
  | byte _ _ _ ih =>
      rw [List.flatMap_cons, ih, Piece.text, List.singleton_append]

/-- A run of digits that nothing continues. -/
theorem takeWhile_digits {digits rest : GoString}
    (hdigits : ∀ c ∈ digits, isDigit c = true)
    (hmax : rest.head?.any isDigit = false) :
    (digits ++ rest).takeWhile isDigit = digits := by
  have hrest : rest.takeWhile isDigit = [] := by
    cases rest with
    | nil => rfl
    | cons c rest => exact List.takeWhile_cons_of_neg (by
        rw [Bool.not_eq_true]
        exact hmax)
  rw [List.takeWhile_append_of_pos hdigits, hrest, List.append_nil]

theorem head_digits {digits rest : GoString} (hne : digits ≠ [])
    (hdigits : ∀ c ∈ digits, isDigit c = true) :
    (digits ++ rest).head?.any isDigit = true := by
  cases digits with
  | nil => exact absurd rfl hne
  | cons c digits => exact hdigits c List.mem_cons_self

theorem head_dropWhile_digits (cs : GoString) :
    (cs.dropWhile isDigit).head?.any isDigit = false := by
  have h := List.head?_dropWhile_not isDigit cs
  cases hhead : (cs.dropWhile isDigit).head? with
  | none => rfl
  | some c =>
      rw [hhead] at h
      exact h

/-- Every text has a cut, by induction on its length. -/
theorem scan_exists : ∀ (n : Nat) (done rest : GoString),
    rest.length ≤ n → ∃ ps, Scan done rest ps
  | _, done, [], _ => ⟨[], .nil done⟩
  | n + 1, done, c :: cs, hn => by
      have hcs : cs.length ≤ n := Nat.le_of_succ_le_succ hn
      rcases Nat.eq_zero_or_pos (skipLiteral done (c :: cs)) with hskip | hpos
      · by_cases hplace : c = 36 ∧ afterIdentByte done = false
          ∧ cs.head?.any isDigit = true
        · obtain ⟨rfl, hident, hhead⟩ := hplace
          have hcut := List.takeWhile_append_dropWhile (p := isDigit) (l := cs)
          have hne : cs.takeWhile isDigit ≠ [] := by
            cases cs with
            | nil => cases hhead
            | cons d ds =>
                rw [List.takeWhile_cons_of_pos
                  (show isDigit d = true from hhead)]
                exact List.cons_ne_nil _ _
          have hlen : (cs.dropWhile isDigit).length ≤ n := by
            have := congrArg List.length hcut
            rw [List.length_append] at this
            omega
          obtain ⟨ps, hps⟩ := scan_exists n
            ((cs.takeWhile isDigit).reverse ++ 36 :: done)
            (cs.dropWhile isDigit) hlen
          rw [← hcut] at hskip ⊢
          exact ⟨_, .placeholder hskip hident hne
            (fun d hd => List.mem_takeWhile_imp hd)
            (head_dropWhile_digits cs) hps⟩
        · obtain ⟨ps, hps⟩ := scan_exists n (c :: done) cs hcs
          refine ⟨_, .byte hskip (fun hc => ?_) hps⟩
          cases hident : afterIdentByte done with
          | true => exact .inl rfl
          | false =>
              refine .inr (Bool.eq_false_iff.mpr fun hhead => ?_)
              exact hplace ⟨hc, hident, hhead⟩
      · have hle := skipLiteral_le done (c :: cs)
        have hcut := List.take_append_drop (skipLiteral done (c :: cs))
          (c :: cs)
        have htake := List.length_take_of_le hle
        have hlen : ((c :: cs).drop (skipLiteral done (c :: cs))).length
            ≤ n := by
          rw [List.length_drop]
          omega
        obtain ⟨ps, hps⟩ := scan_exists n _ _ hlen
        have hscan := Scan.literal (by rw [hcut, htake])
          (List.ne_nil_of_length_pos (htake ▸ hpos)) hps
        rw [hcut] at hscan
        exact ⟨_, hscan⟩

/-- The cut is unique. The induction is on one of the two scans, against an
equation between their texts. -/
theorem Scan.unique_of_eq {done rest rest' : GoString} {ps qs : List Piece}
    (h : Scan done rest ps) (h' : Scan done rest' qs)
    (heq : rest = rest') : ps = qs := by
  induction h generalizing rest' qs with
  | nil done =>
      cases h' with
      | nil => rfl
      | literal _ hne _ =>
          exact absurd (List.append_eq_nil_iff.mp heq.symm).1 hne
      | placeholder => cases heq
      | byte => cases heq
  | literal hskip hne h ih =>
      have hlen := List.length_pos_of_ne_nil hne
      cases h' with
      | nil => exact absurd (List.append_eq_nil_iff.mp heq).1 hne
      | literal hskip' hne' h' =>
          obtain ⟨rfl, rfl⟩ := List.append_inj heq
            (by rw [← hskip, ← hskip', heq])
          rw [ih h' rfl]
      | placeholder hskip' => rw [heq, hskip'] at hskip; omega
      | byte hskip' => rw [heq, hskip'] at hskip; omega
  | placeholder hskip hident hne hdigits hmax h ih =>
      cases h' with
      | nil => cases heq
      | literal hskip' hne' h' =>
          have hlen := List.length_pos_of_ne_nil hne'
          rw [← heq, hskip] at hskip'
          omega
      | placeholder _ _ _ hdigits' hmax' h' =>
          have htail := (List.cons_eq_cons.mp heq).2
          have hsame := congrArg (List.takeWhile isDigit) htail
          rw [takeWhile_digits hdigits hmax,
            takeWhile_digits hdigits' hmax'] at hsame
          subst hsame
          obtain rfl := List.append_cancel_left htail
          rw [ih h' rfl]
      | byte _ hno _ =>
          obtain ⟨rfl, rfl⟩ := List.cons_eq_cons.mp heq
          rcases hno rfl with h | h
          · cases hident.symm.trans h
          · cases h.symm.trans (head_digits hne hdigits)
  | byte hskip hno h ih =>
      cases h' with
      | nil => cases heq
      | literal hskip' hne' h' =>
          have hlen := List.length_pos_of_ne_nil hne'
          rw [← heq, hskip] at hskip'
          omega
      | placeholder _ hident hne hdigits _ _ =>
          obtain ⟨rfl, rfl⟩ := List.cons_eq_cons.mp heq
          rcases hno rfl with h | h
          · cases hident.symm.trans h
          · cases h.symm.trans (head_digits hne hdigits)
      | byte _ _ h' =>
          obtain ⟨rfl, rfl⟩ := List.cons_eq_cons.mp heq
          rw [ih h' rfl]

-- ==== the loop

/-- What the loop makes of a cut text. -/
def Builder.after (acc : Builder α) (ps : List Piece) (values : List α) :
    Builder α where
  b := acc.b ++ ps.flatMap Piece.written
  orderedArgs := acc.orderedArgs ++ values
  found := acc.found || !(numbers ps).isEmpty

theorem Builder.after_write (acc : Builder α) {p : Piece}
    (hp : p.number? = none) (hwritten : p.written = p.text)
    (ps : List Piece) (values : List α) :
    (acc.write p.text).after ps values = acc.after (p :: ps) values := by
  rw [Builder.after, Builder.after, numbers, numbers,
    List.filterMap_cons_none hp, List.flatMap_cons, hwritten, Builder.write,
    List.append_assoc]

theorem Builder.after_place (acc : Builder α) (digits : GoString) (arg : α)
    (ps : List Piece) (values : List α) :
    (acc.place arg).after ps values
      = acc.after (.placeholder digits :: ps) (arg :: values) := by
  simp [Builder.after, Builder.place, numbers, Piece.number?,
    Piece.written]

theorem convertLoop_copied {args : List α} {done rest : GoString}
    {p : Piece} {ps : List Piece} (hcopies : Copies args done p.text rest)
    (hp : p.number? = none) (hwritten : p.written = p.text)
    (ih : ∀ (n : Nat) (acc : Builder α), rest.length ≤ n →
      convertLoop args n (p.text.reverse ++ done) rest acc
        = (ordered args (numbers ps)).map (acc.after ps))
    (n : Nat) (acc : Builder α) (hn : (p.text ++ rest).length ≤ n) :
    convertLoop args n done (p.text ++ rest) acc
      = (ordered args (numbers (p :: ps))).map (acc.after (p :: ps)) := by
  obtain ⟨n', hn', hround⟩ := hcopies n acc hn
  have hnumbers : numbers (p :: ps) = numbers ps :=
    List.filterMap_cons_none hp
  rw [hround, ih n' _ hn', hnumbers,
    funext (acc.after_write hp hwritten ps)]

/-- The loop over a cut text: as many rounds as there are bytes are
enough. -/
theorem convertLoop_scan {args : List α} {done rest : GoString}
    {ps : List Piece} (h : Scan done rest ps) :
    ∀ (n : Nat) (acc : Builder α), rest.length ≤ n →
      convertLoop args n done rest acc
        = (ordered args (numbers ps)).map (acc.after ps) := by
  induction h with
  | nil done =>
      intro n acc _
      cases n <;> simp [convertLoop, numbers, ordered, Except.map,
        Builder.after]
  | @literal done region rest ps hskip hne h ih =>
      have hcopies : Copies args done region rest := by
        have hround := @Copies.literal α args _ _ _ hskip
          (List.length_pos_of_ne_nil hne)
        rwa [List.take_left, List.drop_left] at hround
      exact convertLoop_copied (p := .literal region) hcopies rfl rfl ih
  | @placeholder done digits rest ps hskip hident hne hdigits hmax h ih =>
      intro n acc hn
      cases n with
      | zero => cases hn
      | succ n =>
          have hrest : rest.length ≤ n := by
            rw [List.length_cons, List.length_append] at hn
            omega
          have hround := @convertLoop_parameter α args n done
            (digits ++ rest) acc hident (head_digits hne hdigits)
          rw [takeWhile_digits hdigits hmax, List.drop_left] at hround
          refine hround.trans ?_
          have hnumbers : numbers (.placeholder digits :: ps)
              = digits :: numbers ps := rfl
          rw [hnumbers, ordered]
          cases harg : argument args digits with
          | none => rfl
          | some arg =>
              dsimp only [Option.elim]
              rw [show PgLexer.dollar = 36 from rfl, ih n _ hrest,
                funext (acc.after_place digits arg ps)]
              cases ordered args (numbers ps) with
              | error err => rfl
              | ok values => rfl
  | @byte done rest c ps hskip hno h ih =>
      exact convertLoop_copied (p := .byte c) (Copies.byte hskip hno) rfl rfl
        ih

-- ==== numbers and arguments

/-- The number of no argument: 0, more than there are, or more than an
`int` can be. -/
def OutOfRange (args : List α) (digits : GoString) : Prop :=
  decimal digits = 0 ∨ args.length < decimal digits
    ∨ 9223372036854775807 < decimal digits

/-- The number of this argument. -/
def Names (args : List α) (digits : GoString) (arg : α) : Prop :=
  ¬ OutOfRange args digits ∧ args[decimal digits - 1]? = some arg

/-- What a placeholder of a cut text has for a number. -/
def IsNumber (digits : GoString) : Prop :=
  digits ≠ [] ∧ ∀ c ∈ digits, isDigit c = true

theorem Scan.isNumber {done rest : GoString} {ps : List Piece}
    (h : Scan done rest ps) : ∀ digits ∈ numbers ps, IsNumber digits := by
  induction h with
  | nil => nofun
  | literal _ _ _ ih => exact ih
  | placeholder _ _ hne hdigits _ _ ih =>
      intro digits hmem
      rcases List.mem_cons.mp hmem with rfl | hmem
      · exact ⟨hne, hdigits⟩
      · exact ih digits hmem
  | byte _ _ _ ih => exact ih

theorem atoi_digits {digits : GoString} (h : IsNumber digits) :
    atoi digits = if decimal digits ≤ 9223372036854775807
      then some (decimal digits : Int) else none := by
  obtain ⟨hne, hdigits⟩ := h
  have hsign : ¬ (digits.head? = some 45 ∨ digits.head? = some 43) := by
    rintro (h | h)
    · exact absurd (hdigits _ (List.mem_of_head? h)) (by decide)
    · exact absurd (hdigits _ (List.mem_of_head? h)) (by decide)
  have hall : ¬ (digits = [] ∨ digits.all isDigit = false) := by
    rintro (h | h)
    · exact hne h
    · rw [List.all_eq_true.mpr hdigits] at h
      cases h
  unfold atoi
  dsimp only
  rw [if_neg hsign, if_neg hall, if_neg fun h => hsign (.inl h)]

theorem argument_of_outOfRange {args : List α} {digits : GoString}
    (h : IsNumber digits) (hout : OutOfRange args digits) :
    argument args digits = none := by
  rw [argument, atoi_digits h]
  split
  · rfl
  · rename_i n hn
    refine if_pos ?_
    split at hn
    · cases hn
      unfold OutOfRange at hout
      omega
    · cases hn

theorem argument_of_inRange {args : List α} {digits : GoString}
    (h : IsNumber digits) (hin : ¬ OutOfRange args digits) :
    argument args digits = args[decimal digits - 1]? := by
  unfold OutOfRange at hin
  have hmax : decimal digits ≤ 9223372036854775807 := by omega
  have hbounds : ¬ ((decimal digits : Int) < 1
      ∨ (decimal digits : Int) > args.length) := by omega
  rw [argument, atoi_digits h, if_pos hmax]
  dsimp only
  rw [if_neg hbounds, Int.toNat_natCast]

theorem argument_some {args : List α} {digits : GoString} {arg : α}
    (h : IsNumber digits) :
    argument args digits = some arg ↔ Names args digits arg := by
  constructor
  · intro harg
    have hin : ¬ OutOfRange args digits := fun hout => by
      rw [argument_of_outOfRange h hout] at harg
      cases harg
    rw [argument_of_inRange h hin] at harg
    exact ⟨hin, harg⟩
  · rintro ⟨hin, harg⟩
    rw [argument_of_inRange h hin]
    exact harg

theorem argument_none {args : List α} {digits : GoString}
    (h : IsNumber digits) :
    argument args digits = none ↔ OutOfRange args digits := by
  refine ⟨fun hnone => ?_, argument_of_outOfRange h⟩
  by_contra hin
  rw [argument_of_inRange h hin, List.getElem?_eq_none_iff] at hnone
  unfold OutOfRange at hin
  omega

theorem ordered_ok {args : List α} {ds : List GoString}
    (h : ∀ d ∈ ds, IsNumber d) {values : List α} :
    ordered args ds = .ok values ↔ List.Forall₂ (Names args) ds values := by
  induction ds generalizing values with
  | nil =>
      rw [ordered, List.forall₂_nil_left_iff]
      exact ⟨fun heq => (Except.ok.inj heq).symm, fun heq => heq ▸ rfl⟩
  | cons d ds ih =>
      have hd := h d List.mem_cons_self
      have ih := @ih fun e he => h e (List.mem_cons_of_mem _ he)
      rw [ordered, List.forall₂_cons_left_iff]
      cases harg : argument args d with
      | none =>
          constructor
          · rintro ⟨⟩
          · rintro ⟨arg, _, hnames, -⟩
            rw [← argument_some hd, harg] at hnames
            cases hnames
      | some arg =>
          dsimp only
          constructor
          · intro hmap
            cases hrest : ordered args ds with
            | error err =>
                rw [hrest] at hmap
                cases hmap
            | ok rest =>
                rw [hrest] at hmap
                cases hmap
                exact ⟨arg, rest, (argument_some hd).mp harg,
                  ih.mp hrest, rfl⟩
          · rintro ⟨arg', rest, hnames, hrest, rfl⟩
            rw [← argument_some hd, harg] at hnames
            cases hnames
            rw [ih.mpr hrest]
            rfl

theorem ordered_error {args : List α} {ds : List GoString}
    (h : ∀ d ∈ ds, IsNumber d) {err : GoString} :
    ordered args ds = .error err
      ↔ ∃ before d after, ds = before ++ d :: after
        ∧ (∀ e ∈ before, ¬ OutOfRange args e) ∧ OutOfRange args d
        ∧ err = invalidPlaceholder d := by
  induction ds with
  | nil =>
      constructor
      · rintro ⟨⟩
      · rintro ⟨before, d, after, hnil, -⟩
        cases before <;> cases hnil
  | cons d ds ih =>
      have hd := h d List.mem_cons_self
      have ih := ih fun e he => h e (List.mem_cons_of_mem _ he)
      rw [ordered]
      cases harg : argument args d with
      | none =>
          have hout := (argument_none hd).mp harg
          dsimp only
          constructor
          · rintro ⟨⟩
            exact ⟨[], d, ds, rfl, List.forall_mem_nil _, hout, rfl⟩
          · rintro ⟨_ | ⟨e, before⟩, d', after, heq, hbefore, -, rfl⟩
            · cases heq
              rfl
            · cases heq
              exact absurd hout (hbefore d List.mem_cons_self)
      | some arg =>
          have hin : ¬ OutOfRange args d := fun hout => by
            rw [argument_of_outOfRange hd hout] at harg
            cases harg
          dsimp only
          constructor
          · intro hmap
            cases hrest : ordered args ds with
            | ok rest =>
                rw [hrest] at hmap
                cases hmap
            | error err' =>
                rw [hrest] at hmap
                cases hmap
                obtain ⟨before, d', after, rfl, hbefore, hout, rfl⟩ :=
                  ih.mp hrest
                refine ⟨d :: before, d', after, rfl, fun e he => ?_, hout,
                  rfl⟩
                rcases List.mem_cons.mp he with rfl | he
                · exact hin
                · exact hbefore e he
          · rintro ⟨_ | ⟨e, before⟩, d', after, heq, hbefore, hout, rfl⟩
            · cases heq
              exact absurd hout hin
            · cases heq
              rw [ih.mpr ⟨before, d', after, rfl,
                fun e he => hbefore e (List.mem_cons_of_mem _ he), hout, rfl⟩]
              rfl

-- ==== the result

theorem convertPgPlaceholders_eq {sql : GoString} {ps : List Piece}
    (h : Scan [] sql ps) (args : List α) :
    convertPgPlaceholders sql args
      = (ordered args (numbers ps)).map fun values =>
        if numbers ps = [] then (sql, args)
        else (ps.flatMap Piece.written, values) := by
  rw [convertPgPlaceholders, convertLoop_scan h sql.length _ (Nat.le_refl _)]
  cases ordered args (numbers ps) with
  | error err => rfl
  | ok values =>
      by_cases hp : numbers ps = []
      · simp [Except.map, Builder.after, hp]
      · simp [Except.map, Builder.after, hp]

/-- For every text and all arguments: the text has one cut; the call
succeeds with its placeholders replaced and their arguments in order, or
fails with the first placeholder that is out of range. -/
theorem convertPgPlaceholders_scan (sql : GoString) (args : List α) :
    ∃ ps, (∀ qs, Scan [] sql qs ↔ qs = ps)
      ∧ ps.flatMap Piece.text = sql
      ∧ (∀ out, convertPgPlaceholders sql args = .ok out
        ↔ ∃ values, List.Forall₂ (Names args) (numbers ps) values
          ∧ out = if numbers ps = [] then (sql, args)
            else (ps.flatMap Piece.written, values))
      ∧ (∀ err, convertPgPlaceholders sql args = .error err
        ↔ ∃ before d after, numbers ps = before ++ d :: after
          ∧ (∀ e ∈ before, ¬ OutOfRange args e) ∧ OutOfRange args d
          ∧ err = invalidPlaceholder d)
      ∧ ∀ done rest, skipLiteral done rest ≤ rest.length := by
  obtain ⟨ps, hps⟩ := scan_exists sql.length [] sql (Nat.le_refl _)
  have hnumbers := hps.isNumber
  refine ⟨ps, fun qs => ⟨fun hqs => hqs.unique_of_eq hps rfl, ?_⟩, hps.text,
    fun out => ?_, fun err => ?_, skipLiteral_le⟩
  · rintro rfl
    exact hps
  · rw [convertPgPlaceholders_eq hps args]
    constructor
    · intro hok
      cases hordered : ordered args (numbers ps) with
      | error err =>
          rw [hordered] at hok
          cases hok
      | ok values =>
          rw [hordered] at hok
          exact ⟨values, (ordered_ok hnumbers).mp hordered,
            (Except.ok.inj hok).symm⟩
    · rintro ⟨values, hvalues, rfl⟩
      rw [(ordered_ok hnumbers).mpr hvalues]
      rfl
  · rw [convertPgPlaceholders_eq hps args, ← ordered_error hnumbers]
    cases ordered args (numbers ps) with
    | error err' => exact ⟨fun h => by cases h; rfl, fun h => by cases h; rfl⟩
    | ok values => exact ⟨nofun, nofun⟩

end Tokyo3Base.Db
