import Beansdb.Basic
/-!
# Numeral — the C library's `strtol` family and `safe_strtoull`

Base 10 only, on a 64-bit (LP64) platform: after white space (`isspace`) and an optional sign, the longest run of
decimal digits is read; with none, the value is 0 and `endptr` is the start.  Out of range, `strtol` gives
`LONG_MAX`/`LONG_MIN` and `strtoul`/`strtoull` `ULONG_MAX`, with `ERANGE`; `strtoul` negates a minus-signed value in
unsigned arithmetic.  An `int` is 32 bits, and a conversion to it keeps the low 32 bits (`toInt32`).

The last section says what `safe_strtoull` accepts (`safeStrtoull_eq_some_iff`): the numerals that end at the `'\0'`
or at white space, and one more string, a blank one read as 0; and that it reads back what `%llu` prints
(`safeStrtoull_toString`).
-/
namespace Beansdb

/-- `isspace` in the C locale. -/
def isspace (ch : Char) : Bool :=
  ch = ' ' || ch = '\t' || ch = '\n' || ch = '\x0b' || ch = '\x0c' || ch = '\r'

/-- What a `strto*` call reads: the sign, the digits, and the index of `endptr` (0 when there are no digits). -/
structure Scan where
  neg    : Bool
  digits : List Char
  endp   : Nat
deriving DecidableEq, Repr

/-- The scan of `strto*` over a C string. -/
def scanNumber (s : List Char) : Scan :=
  let ws := (s.takeWhile isspace).length
  let r := s.drop ws
  let sign : Bool × Nat := match r with
    | '-' :: _ => (true, 1)
    | '+' :: _ => (false, 1)
    | _ => (false, 0)
  let ds := (r.drop sign.2).takeWhile Char.isDigit
  ⟨sign.1, ds, if ds = [] then 0 else ws + sign.2 + ds.length⟩

/-- The value of a run of decimal digits. -/
def digitsValue (ds : List Char) : Nat := ds.foldl (fun n d => 10 * n + (d.toNat - '0'.toNat)) 0

/-- `LONG_MAX` of a 64-bit `long`. -/
def longMax : Int := 2 ^ 63 - 1

/-- `ULONG_MAX` (and `ULLONG_MAX`). -/
def ulongMax : Nat := 2 ^ 64 - 1

/-- `strtol (s, &endptr, 10)`: the value, `endptr` and whether `errno` became `ERANGE`. -/
def strtol (s : List Char) : Int × Nat × Bool :=
  let sc := scanNumber s
  let m : Int := digitsValue sc.digits
  if sc.neg then (if m > longMax + 1 then (-longMax - 1, sc.endp, true) else (-m, sc.endp, false))
  else if m > longMax then (longMax, sc.endp, true) else (m, sc.endp, false)

/-- `strtoul (s, &endptr, 10)` and `strtoull`: the value, `endptr` and whether `errno` became `ERANGE`. -/
def strtoull (s : List Char) : Nat × Nat × Bool :=
  let sc := scanNumber s
  let m := digitsValue sc.digits
  if m > ulongMax then (ulongMax, sc.endp, true)
  else ((if sc.neg then (2 ^ 64 - m) % 2 ^ 64 else m), sc.endp, false)

/-- The conversion of an integer to a 32-bit `int`: its low 32 bits, read in two's complement. -/
def toInt32 (v : Int) : Int := (v + 2 ^ 31) % 2 ^ 32 - 2 ^ 31

/-- The conversion of a `uint64_t` to an `int64_t`. -/
def toInt64 (v : Nat) : Int := ((v : Int) + 2 ^ 63) % 2 ^ 64 - 2 ^ 63

/-- `safe_strtoull (str, &out)`: `some out` when it returns true. -/
def safeStrtoull (s : List Char) : Option Nat :=
  let (v, endp, erange) := strtoull s
  if erange then none
  else if isspace (s.getD endp '\x00') || (s.getD endp '\x00' = '\x00' && endp ≠ 0) then some v
  else none

/-- Modelled from the spec: `safe_strtol (str, 10, &out)` of the missing `util.c`, which "validates overflow" (§4.4):
`strtol` without `ERANGE`, ending at white space or at the end of a non-empty numeral, as `safe_strtoull` does. -/
def safeStrtol (s : List Char) : Option Int :=
  let (v, endp, erange) := strtol s
  if erange then none
  else if isspace (s.getD endp '\x00') || (s.getD endp '\x00' = '\x00' && endp ≠ 0) then some v
  else none

/-! ## A minus sign and a run of digits -/

theorem takeWhile_isDigit_append {ds t : List Char} (hd : ∀ ch ∈ ds, ch.isDigit = true)
    (ht : ∀ ch ∈ t.head?, ch.isDigit = false) : (ds ++ t).takeWhile Char.isDigit = ds := by
  induction ds with
  | nil => cases t with
    | nil => rfl
    | cons ch t => simp [List.takeWhile_cons, ht ch rfl]
  | cons ch ds ih =>
    rw [List.cons_append, List.takeWhile_cons, if_pos (hd ch (List.mem_cons_self _ _)),
      ih (fun x hx => hd x (List.mem_cons_of_mem _ hx))]

/-- `strto*` reads a minus sign and the digits after it, and stops on the first byte that is not a digit. -/
theorem scanNumber_minus {ds t : List Char} (hd : ∀ ch ∈ ds, ch.isDigit = true) (hne : ds ≠ [])
    (ht : ∀ ch ∈ t.head?, ch.isDigit = false) : scanNumber ('-' :: (ds ++ t)) = ⟨true, ds, ds.length + 1⟩ := by
  have hw : ('-' :: (ds ++ t)).takeWhile isspace = [] := by simp [List.takeWhile_cons, isspace]
  simp only [scanNumber, hw, List.length_nil, List.drop_zero, List.drop_one, List.tail_cons,
    takeWhile_isDigit_append hd ht, if_neg hne, Scan.mk.injEq, true_and]
  omega

/-- **`strtoull` negates a minus-signed numeral in unsigned arithmetic**, with no `ERANGE` while the digits fit. -/
theorem strtoull_minus {ds t : List Char} (hd : ∀ ch ∈ ds, ch.isDigit = true) (hne : ds ≠ [])
    (ht : ∀ ch ∈ t.head?, ch.isDigit = false) (hm : digitsValue ds ≤ ulongMax) :
    strtoull ('-' :: (ds ++ t)) = ((2 ^ 64 - digitsValue ds) % 2 ^ 64, ds.length + 1, false) := by
  simp only [strtoull, scanNumber_minus hd hne ht, if_neg (not_lt.2 hm), if_true]

/-- **`safe_strtoull` takes a minus-signed numeral** ended by the `'\0'` or white space: it never looks for the
sign. -/
theorem safeStrtoull_minus {ds t : List Char} (hd : ∀ ch ∈ ds, ch.isDigit = true) (hne : ds ≠ [])
    (hend : t.headD '\x00' = '\x00' ∨ isspace (t.headD '\x00') = true) (hm : digitsValue ds ≤ ulongMax) :
    safeStrtoull ('-' :: (ds ++ t)) = some ((2 ^ 64 - digitsValue ds) % 2 ^ 64) := by
  have ht : ∀ ch ∈ t.head?, ch.isDigit = false := by
    cases t with
    | nil => simp
    | cons ch t =>
      intro x hx
      simp only [List.head?_cons, Option.mem_def, Option.some.injEq] at hx
      subst hx
      rcases hend with h | h <;> simp only [List.headD_cons] at h
      · subst h; rfl
      · simp only [isspace, Bool.or_eq_true, decide_eq_true_eq] at h
        rcases h with ((((h | h) | h) | h) | h) | h <;> subst h <;> rfl
  have hget : ('-' :: (ds ++ t)).getD (ds.length + 1) '\x00' = t.headD '\x00' := by
    cases t <;> simp [List.getD_eq_getElem?_getD, List.getElem?_append_right, List.getElem_append_right]
  simp only [safeStrtoull, strtoull_minus hd hne ht hm, hget, Bool.false_eq_true, if_false]
  rcases hend with h | h <;> rw [h] <;> simp

/-- **A value of `2 ^ 63` or above, or a negated one, is a negative `int64_t`.**  The minus-signed numeral `m`,
`1 ≤ m ≤ 2 ^ 63`, becomes `-m`. -/
theorem toInt64_minus {m : Nat} (h0 : 0 < m) (hm : m ≤ 2 ^ 63) : toInt64 ((2 ^ 64 - m) % 2 ^ 64) = -m := by
  unfold toInt64
  have h1 : (2 ^ 64 - m) % 2 ^ 64 = 2 ^ 64 - m := Nat.mod_eq_of_lt (by omega)
  rw [h1]
  omega

/-! ## What `safe_strtoull` accepts -/

/-- `s` is a numeral of value `v` as `strtoull` reads it, ended where `safe_strtoull` wants it ended: white space, an
optional sign and a non-empty run of decimal digits of value at most `ULLONG_MAX`, then the end of the C string or
white space.  A minus negates the value modulo `2 ^ 64`. -/
def NumeralOf (s : List Char) (v : Nat) : Prop :=
  ∃ ws sg ds t, s = ws ++ sg ++ ds ++ t ∧ (∀ ch ∈ ws, isspace ch = true) ∧ (sg = [] ∨ sg = ['+'] ∨ sg = ['-']) ∧
    ds ≠ [] ∧ (∀ ch ∈ ds, ch.isDigit = true) ∧ (t.headD '\x00' = '\x00' ∨ isspace (t.headD '\x00') = true) ∧
    digitsValue ds ≤ ulongMax ∧ v = if sg = ['-'] then (2 ^ 64 - digitsValue ds) % 2 ^ 64 else digitsValue ds

theorem isspace_eq_false_of_isDigit {ch : Char} (h : ch.isDigit = true) : isspace ch = false := by
  cases hs : isspace ch
  · rfl
  · simp only [isspace, Bool.or_eq_true, decide_eq_true_eq] at hs
    rcases hs with ((((rfl | rfl) | rfl) | rfl) | rfl) | rfl <;> exact absurd h (by decide)

/-- **The scan of a numeral**: its white space, its sign and its digits, up to the first byte that is not one. -/
theorem scanNumber_numeral {ws sg ds t : List Char} (hw : ∀ ch ∈ ws, isspace ch = true)
    (hs : sg = [] ∨ sg = ['+'] ∨ sg = ['-']) (hd : ∀ ch ∈ ds, ch.isDigit = true) (hne : ds ≠ [])
    (ht : ∀ ch ∈ t.head?, ch.isDigit = false) :
    scanNumber (ws ++ sg ++ ds ++ t) = ⟨decide (sg = ['-']), ds, ws.length + sg.length + ds.length⟩ := by
  obtain ⟨d, ds', rfl⟩ := List.exists_cons_of_ne_nil hne
  have hd0 : d.isDigit = true := hd d (List.mem_cons_self _ _)
  have hws : (ws ++ (sg ++ d :: (ds' ++ t))).takeWhile isspace = ws := by
    rw [List.takeWhile_append_of_pos hw, List.append_right_eq_self]
    rcases hs with rfl | rfl | rfl
    · simp [List.takeWhile_cons, isspace_eq_false_of_isDigit hd0]
    all_goals rfl
  have hdig : (d :: (ds' ++ t)).takeWhile Char.isDigit = d :: ds' := takeWhile_isDigit_append hd ht
  simp only [scanNumber, List.append_assoc, List.cons_append, hws, List.drop_left]
  rcases hs with rfl | rfl | rfl
  · split
    · rename_i h; simp only [List.nil_append, List.cons.injEq] at h; simp [h.1] at hd0
    · rename_i h; simp only [List.nil_append, List.cons.injEq] at h; simp [h.1] at hd0
    · simp [hdig]
  · simp [hdig]
  · simp [hdig]

theorem scanNumber_spec (s : List Char) : ∃ ws sg rest, s = ws ++ sg ++ rest ∧ (∀ ch ∈ ws, isspace ch = true) ∧
    (sg = [] ∨ sg = ['+'] ∨ sg = ['-']) ∧
    scanNumber s = ⟨decide (sg = ['-']), rest.takeWhile Char.isDigit,
      if rest.takeWhile Char.isDigit = [] then 0 else ws.length + sg.length + (rest.takeWhile Char.isDigit).length⟩ := by
  obtain ⟨ws, r, rfl, hw, hws⟩ : ∃ ws r, s = ws ++ r ∧ (∀ ch ∈ ws, isspace ch = true) ∧
      (ws ++ r).takeWhile isspace = ws :=
    ⟨_, _, (List.takeWhile_append_dropWhile isspace s).symm, fun _ h => List.mem_takeWhile_imp h,
      by rw [List.takeWhile_append_dropWhile]⟩
  simp only [scanNumber, hws, List.drop_left]
  split
  · rename_i tail; exact ⟨ws, ['-'], tail, by simp, hw, by simp, by simp⟩
  · rename_i tail; exact ⟨ws, ['+'], tail, by simp, hw, by simp, by simp⟩
  · exact ⟨ws, [], r, by simp, hw, by simp, by simp⟩

theorem getD_numeral_end (ws sg ds t : List Char) :
    (ws ++ sg ++ ds ++ t).getD (ws.length + sg.length + ds.length) '\x00' = t.headD '\x00' := by
  rw [List.getD_append_right _ _ _ _ (by simp [Nat.add_assoc])]
  cases t <;> simp [Nat.add_assoc]

theorem not_isDigit_of_end {t : List Char} (hend : t.headD '\x00' = '\x00' ∨ isspace (t.headD '\x00') = true) :
    ∀ ch ∈ t.head?, ch.isDigit = false := by
  cases t with
  | nil => simp
  | cons ch t =>
    rintro x ⟨⟩
    rcases hend with h | h
    · simp only [List.headD_cons] at h; subst h; rfl
    · exact Bool.eq_false_iff.2 fun hd => by simp [isspace_eq_false_of_isDigit hd] at h

theorem scanNumber_endp_of_digits_nil {s : List Char} (h : (scanNumber s).digits = []) : (scanNumber s).endp = 0 :=
  if_pos h

/-- `safe_strtoull` takes every numeral ended by the `'\0'` or white space, and gives its value. -/
theorem safeStrtoull_numeral {ws sg ds t : List Char} (hw : ∀ ch ∈ ws, isspace ch = true)
    (hs : sg = [] ∨ sg = ['+'] ∨ sg = ['-']) (hne : ds ≠ []) (hd : ∀ ch ∈ ds, ch.isDigit = true)
    (hend : t.headD '\x00' = '\x00' ∨ isspace (t.headD '\x00') = true) (hm : digitsValue ds ≤ ulongMax) :
    safeStrtoull (ws ++ sg ++ ds ++ t) =
      some (if sg = ['-'] then (2 ^ 64 - digitsValue ds) % 2 ^ 64 else digitsValue ds) := by
  simp only [safeStrtoull, strtoull, scanNumber_numeral hw hs hd hne (not_isDigit_of_end hend),
    if_neg (not_lt.2 hm), getD_numeral_end, decide_eq_true_eq]
  have : ds.length ≠ 0 := by simpa using hne
  rcases hend with h | h <;> rw [h] <;> simp [this]

/-- `safe_strtoull` takes a string that starts with white space and holds no digits after it, as 0. -/
theorem safeStrtoull_blank {s : List Char} (hsp : isspace (s.headD '\x00') = true) (hd : (scanNumber s).digits = []) :
    safeStrtoull s = some 0 := by
  have h0 : digitsValue [] = 0 := rfl
  simpa [safeStrtoull, strtoull, hd, scanNumber_endp_of_digits_nil hd, h0, List.head?_eq_getElem?] using hsp

theorem safeStrtoull_sound {s : List Char} {v : Nat} (h : safeStrtoull s = some v) :
    NumeralOf s v ∨ (v = 0 ∧ isspace (s.headD '\x00') = true ∧ (scanNumber s).digits = []) := by
  obtain ⟨ws, sg, rest, rfl, hw, hs, hsc⟩ := scanNumber_spec s
  have hsplit := List.takeWhile_append_dropWhile Char.isDigit rest
  have hd : ∀ ch ∈ rest.takeWhile Char.isDigit, ch.isDigit = true := fun _ h => List.mem_takeWhile_imp h
  generalize rest.takeWhile Char.isDigit = ds at hsc hsplit hd
  generalize rest.dropWhile Char.isDigit = t at hsplit
  subst hsplit
  rw [← List.append_assoc] at hsc h ⊢
  simp only [safeStrtoull, strtoull, hsc] at h
  have hm : digitsValue ds ≤ ulongMax := by
    by_contra hm
    simp [not_le.1 hm] at h
  simp only [if_neg (not_lt.2 hm), Bool.false_eq_true, if_false] at h
  by_cases hne : ds = []
  · subst hne
    right
    simp [digitsValue] at h
    exact ⟨h.2.symm, by simpa [List.head?_eq_getElem?] using h.1, by rw [hsc]⟩
  · left
    simp only [if_neg hne, getD_numeral_end] at h
    split at h
    · rename_i hc
      simp only [Bool.or_eq_true, Bool.and_eq_true, decide_eq_true_eq] at hc
      exact ⟨ws, sg, ds, t, rfl, hw, hs, hne, hd, hc.symm.imp_left And.left, hm,
        by simpa using (Option.some.inj h).symm⟩
    · cases h

theorem digitChar_digit : ∀ d < 10, (Nat.digitChar d).isDigit = true ∧ (Nat.digitChar d).toNat - '0'.toNat = d := by
  decide

theorem digitsValue_append_digit (ds : List Char) (d : Char) :
    digitsValue (ds ++ [d]) = 10 * digitsValue ds + (d.toNat - '0'.toNat) := by
  simp [digitsValue]

/-- **The digits of `n` go in front of the accumulator**, each one a decimal digit, and read back as `n`. -/
theorem toDigitsCore_digits : ∀ fuel n (ds : List Char), n < fuel →
    ∃ l, Nat.toDigitsCore 10 fuel n ds = l ++ ds ∧ l ≠ [] ∧ (∀ c ∈ l, c.isDigit = true) ∧ digitsValue l = n
  | 0, n, _, h => absurd h (Nat.not_lt_zero n)
  | fuel + 1, n, ds, h => by
    obtain ⟨hc, hv⟩ := digitChar_digit (n % 10) (Nat.mod_lt n (by decide))
    simp only [Nat.toDigitsCore]
    split_ifs with h0
    · refine ⟨[Nat.digitChar (n % 10)], rfl, List.cons_ne_nil _ _, by simpa using hc, ?_⟩
      simp only [digitsValue, List.foldl_cons, List.foldl_nil, hv]
      omega
    · obtain ⟨l, hl, -, hd, hval⟩ := toDigitsCore_digits fuel (n / 10) (Nat.digitChar (n % 10) :: ds) (by omega)
      refine ⟨l ++ [Nat.digitChar (n % 10)], by simp [hl], by simp, ?_, ?_⟩
      · simp only [List.mem_append, List.mem_singleton]
        rintro c (h | rfl)
        exacts [hd c h, hc]
      · rw [digitsValue_append_digit, hval, hv]
        omega

/-- **What `safe_strtoull` accepts.**  Exactly the numerals that `strtoull` reads without `ERANGE` and that end at
the `'\0'` or at white space, and besides them, as 0, a string that starts with white space and has no digits after
its white space and sign. -/
theorem safeStrtoull_eq_some_iff {s : List Char} {v : Nat} :
    safeStrtoull s = some v ↔
      NumeralOf s v ∨ (v = 0 ∧ isspace (s.headD '\x00') = true ∧ (scanNumber s).digits = []) := by
  refine ⟨safeStrtoull_sound, ?_⟩
  rintro (⟨ws, sg, ds, t, rfl, hw, hs, hne, hd, hend, hm, rfl⟩ | ⟨rfl, hsp, hd⟩)
  · exact safeStrtoull_numeral hw hs hne hd hend hm
  · exact safeStrtoull_blank hsp hd

/-- **`safe_strtoull` reads back what `%llu` prints**, and refuses a printed value past `ULLONG_MAX`. -/
theorem safeStrtoull_toString (n : Nat) :
    safeStrtoull (toString n).toList = if n ≤ ulongMax then some n else none := by
  obtain ⟨l, hl, hne, hd, hv⟩ := toDigitsCore_digits (n + 1) n [] (Nat.lt_succ_self n)
  have hs : (toString n).toList = l := by
    simpa [Nat.toDigits] using congrArg List.asString hl
  have hsc : scanNumber l = ⟨false, l, l.length⟩ := by
    simpa using @scanNumber_numeral [] [] l [] (by simp) (.inl rfl) hd hne (by simp)
  rw [hs]
  split_ifs with hm
  · simpa [hv] using @safeStrtoull_numeral [] [] l [] (by simp) (.inl rfl) hne hd (.inl rfl)
      (hv ▸ hm)
  · simp [safeStrtoull, strtoull, hsc, hv, not_le.1 hm]

end Beansdb
