import Beansdb.Arm
import Beansdb.Reply
/-!
# Fields — what the update and `incr` handlers make of their fields

`process_update_command` converts its three numerals with `strtoul` and `strtol` and keeps them in `int`s;
`process_arithmetic_command` converts its delta with `safe_strtoull` and hands it to `add_delta` as an `int64_t`
(`Numeral`).  For every line of the right shape:
- a length numeral of `2 ^ 32` or more is cut to its low 32 bits, so the handler arms a body shorter than the line
  announces (`update_length_truncated`);
- when `item_alloc1` fails on a line whose checks pass, the source writes through the NULL item before it tests it
  (`update_alloc_failure_undefined`);
- a minus-signed delta is accepted and handed to the store negated (`incr_minus_delta_decrements`).
-/
namespace Beansdb

/-! ## `process_update_command` -/

/-- The low 32 bits of a `long` in `[2 ^ 32, 2 ^ 32 + 2 ^ 31)`, read as an `int`. -/
theorem toInt32_of_wrap {N : Int} (hN : 2 ^ 32 ≤ N) (hN' : N < 2 ^ 32 + 2 ^ 31) : toInt32 N = N - 2 ^ 32 := by
  unfold toInt32; omega

/-- **A length numeral is cut to 32 bits.**  `vlen = strtol (tokens[4].value, NULL, 10)` keeps the `long` in an
`int`, and no check looks at what was lost: for a length numeral `N` with `2 ^ 32 ≤ N ≤ 2 ^ 32 + 2 ^ 31 - 3`, the
handler arms a body `2 ^ 32` bytes shorter than the `N + 2` the line announces, and the rest of the body is read as
command lines. -/
theorem update_length_truncated (c : Conn) (e : Env) (buf : List Char) (toks : List Token) (comm : Comm) (N : Int)
    (p : Nat) (hkey : (tokAt toks 1).length ≤ maxKeyLen) (hf : (strtoull (tokStr buf (tokAt toks 2))).2.2 = false)
    (hx : (strtol (tokStr buf (tokAt toks 3))).2.2 = false) (hv : strtol (tokStr buf (tokAt toks 4)) = (N, p, false))
    (hN : 2 ^ 32 ≤ N) (hN' : N ≤ 2 ^ 32 + 2 ^ 31 - 3) (hg : e.ok = true) :
    (processUpdateCommand c e buf toks comm).1.state = .nread ∧
      (processUpdateCommand c e buf toks comm).1.rlbytes + 2 ^ 32 = (N + 2).toNat := by
  have hw := toInt32_of_wrap hN (by omega)
  have h1 : ¬(N - 2 ^ 32 < 0) := by omega
  have h2 : ¬(intMax < N - 2 ^ 32 + 2) := by unfold intMax; omega
  unfold processUpdateCommand
  simp only [if_neg (not_lt.2 hkey), hf, hx, hv, hw, decide_eq_true_eq, h1, Bool.or_false, Bool.false_eq_true,
    if_false, h2, hg, if_true, connSetState_state, connSetState_rlbytes, true_and, decide_False]
  omega

theorem set_a_length_truncated :
    (tokAt (tokenizeCommand ("set a 0 0 4294967298".toList ++ ['\x00']) 0 maxTokens).2 1).length ≤ maxKeyLen ∧
    (strtoull (tokStr (tokenizeCommand ("set a 0 0 4294967298".toList ++ ['\x00']) 0 maxTokens).1
      (tokAt (tokenizeCommand ("set a 0 0 4294967298".toList ++ ['\x00']) 0 maxTokens).2 2))).2.2 = false ∧
    (strtol (tokStr (tokenizeCommand ("set a 0 0 4294967298".toList ++ ['\x00']) 0 maxTokens).1
      (tokAt (tokenizeCommand ("set a 0 0 4294967298".toList ++ ['\x00']) 0 maxTokens).2 3))).2.2 = false ∧
    strtol (tokStr (tokenizeCommand ("set a 0 0 4294967298".toList ++ ['\x00']) 0 maxTokens).1
      (tokAt (tokenizeCommand ("set a 0 0 4294967298".toList ++ ['\x00']) 0 maxTokens).2 4)) = (4294967298, 10, false) ∧
    (2 : Int) ^ 32 ≤ 4294967298 ∧ (4294967298 : Int) ≤ 2 ^ 32 + 2 ^ 31 - 3 ∧ (clientEnv []).ok = true ∧
    (processUpdateCommand (Conn.init dataBufferSize .read) (clientEnv [])
        (tokenizeCommand ("set a 0 0 4294967298".toList ++ ['\x00']) 0 maxTokens).1
        (tokenizeCommand ("set a 0 0 4294967298".toList ++ ['\x00']) 0 maxTokens).2 .set).1.state = .nread ∧
    (processUpdateCommand (Conn.init dataBufferSize .read) (clientEnv [])
        (tokenizeCommand ("set a 0 0 4294967298".toList ++ ['\x00']) 0 maxTokens).1
        (tokenizeCommand ("set a 0 0 4294967298".toList ++ ['\x00']) 0 maxTokens).2 .set).1.rlbytes + 2 ^ 32 =
      ((4294967298 : Int) + 2).toNat :=
  have hk : (tokAt (tokenizeCommand ("set a 0 0 4294967298".toList ++ ['\x00']) 0 maxTokens).2 1).length ≤
      maxKeyLen := by decide
  have hf : (strtoull (tokStr (tokenizeCommand ("set a 0 0 4294967298".toList ++ ['\x00']) 0 maxTokens).1
      (tokAt (tokenizeCommand ("set a 0 0 4294967298".toList ++ ['\x00']) 0 maxTokens).2 2))).2.2 = false := by decide
  have hx : (strtol (tokStr (tokenizeCommand ("set a 0 0 4294967298".toList ++ ['\x00']) 0 maxTokens).1
      (tokAt (tokenizeCommand ("set a 0 0 4294967298".toList ++ ['\x00']) 0 maxTokens).2 3))).2.2 = false := by decide
  have hv : strtol (tokStr (tokenizeCommand ("set a 0 0 4294967298".toList ++ ['\x00']) 0 maxTokens).1
      (tokAt (tokenizeCommand ("set a 0 0 4294967298".toList ++ ['\x00']) 0 maxTokens).2 4)) =
      (4294967298, 10, false) := by decide
  ⟨hk, hf, hx, hv, by norm_num, by norm_num, rfl,
    update_length_truncated (Conn.init dataBufferSize .read) (clientEnv []) _ _ .set 4294967298 10 hk hf hx hv
      (by norm_num) (by norm_num) rfl⟩

/-- **A failed `item_alloc1` is undefined.**  On every line whose checks pass (`updateFrame` arms a body), the source
writes `it->ver` and `it->flag` through the item before it tests it for NULL.  When the allocator refuses, that is a
store through a null pointer, and the `SERVER_ERROR` and the swallow of the body after the test are never reached. -/
theorem update_alloc_failure_undefined (c : Conn) (e : Env) (buf : List Char) (toks : List Token) (comm : Comm)
    {n : Nat} (hb : updateFrame buf toks = .body n) (hr : e.ok = false) :
    (processUpdateCommand c e buf toks comm).2.fault = true := by
  unfold updateFrame at hb
  unfold processUpdateCommand
  dsimp only at hb ⊢
  split_ifs at hb ⊢ <;>
    first | (cases hb; done) | exact absurd (hr.symm.trans ‹e.ok = true›) Bool.false_ne_true | rfl

theorem set_a_refused_undefined :
    updateFrame (tokenizeCommand ("set a 0 0 1".toList ++ ['\x00']) 0 maxTokens).1
        (tokenizeCommand ("set a 0 0 1".toList ++ ['\x00']) 0 maxTokens).2 = .body 3 ∧
      ({ clientEnv [] with allocs := fun _ => false } : Env).ok = false ∧
      (processUpdateCommand (Conn.init dataBufferSize .read) { clientEnv [] with allocs := fun _ => false }
        (tokenizeCommand ("set a 0 0 1".toList ++ ['\x00']) 0 maxTokens).1
        (tokenizeCommand ("set a 0 0 1".toList ++ ['\x00']) 0 maxTokens).2 .set).2.fault = true :=
  have hb : updateFrame (tokenizeCommand ("set a 0 0 1".toList ++ ['\x00']) 0 maxTokens).1
      (tokenizeCommand ("set a 0 0 1".toList ++ ['\x00']) 0 maxTokens).2 = .body 3 := by decide
  ⟨hb, rfl, update_alloc_failure_undefined _ _ _ _ .set hb rfl⟩

/-! ## `process_arithmetic_command` -/

/-- **A minus-signed delta is a decrement.**  `safe_strtoull` never looks for a sign, `strtoull` negates the value in
unsigned arithmetic, and `add_delta` hands it on as an `int64_t`: for the delta token `-m`, `1 ≤ m ≤ 2 ^ 63`, ended
by the `'\0'` the tokenizer wrote, the store is asked to add `-m`: its answer is the reply, and the call moves it. -/
theorem incr_minus_delta_decrements (c : Conn) (e : Env) (buf : List Char) (toks : List Token) (ds rest : List Char)
    (hkey : (tokAt toks 1).length ≤ maxKeyLen) (hd : tokStr buf (tokAt toks 2) = '-' :: (ds ++ '\x00' :: rest))
    (hdig : ∀ ch ∈ ds, ch.isDigit = true) (h0 : 0 < digitsValue ds) (hm : digitsValue ds ≤ 2 ^ 63) :
    processArithmeticCommand c e buf toks =
      outString (setNoreplyMaybe c buf toks)
        (({ e with stats := { e.stats with setCmds := e.stats.setCmds + 1 } } : Env).write
          (.incr (tokBytes buf (tokAt toks 1)) (-(digitsValue ds : Int))))
        (toString (e.store.incr (tokBytes buf (tokAt toks 1)) (-(digitsValue ds : Int)) % 2 ^ 64)).toList := by
  have hne : ds ≠ [] := by rintro rfl; exact absurd h0 (by decide)
  have hs : safeStrtoull ('-' :: (ds ++ '\x00' :: rest)) = some ((2 ^ 64 - digitsValue ds) % 2 ^ 64) :=
    safeStrtoull_minus hdig hne (.inl rfl) (by unfold ulongMax; omega)
  unfold processArithmeticCommand
  simp only [if_neg (not_lt.2 hkey), hd, hs, toInt64_minus h0 hm]

theorem incr_a_minus_one :
    (tokAt (tokenizeCommand ("incr a -1".toList ++ ['\x00']) 0 maxTokens).2 1).length ≤ maxKeyLen ∧
    tokStr (tokenizeCommand ("incr a -1".toList ++ ['\x00']) 0 maxTokens).1
      (tokAt (tokenizeCommand ("incr a -1".toList ++ ['\x00']) 0 maxTokens).2 2) = '-' :: (['1'] ++ '\x00' :: []) ∧
    processArithmeticCommand (Conn.init dataBufferSize .read) (clientEnv [])
        (tokenizeCommand ("incr a -1".toList ++ ['\x00']) 0 maxTokens).1
        (tokenizeCommand ("incr a -1".toList ++ ['\x00']) 0 maxTokens).2 =
      outString (setNoreplyMaybe (Conn.init dataBufferSize .read)
          (tokenizeCommand ("incr a -1".toList ++ ['\x00']) 0 maxTokens).1
          (tokenizeCommand ("incr a -1".toList ++ ['\x00']) 0 maxTokens).2)
        (({ clientEnv [] with stats := { (clientEnv []).stats with setCmds := (clientEnv []).stats.setCmds + 1 } } :
          Env).write (.incr "a".toList (-1)))
        (toString ((clientEnv []).store.incr "a".toList (-1) % 2 ^ 64)).toList :=
  have hk : (tokAt (tokenizeCommand ("incr a -1".toList ++ ['\x00']) 0 maxTokens).2 1).length ≤ maxKeyLen := by
    decide
  have hd : tokStr (tokenizeCommand ("incr a -1".toList ++ ['\x00']) 0 maxTokens).1
      (tokAt (tokenizeCommand ("incr a -1".toList ++ ['\x00']) 0 maxTokens).2 2) = '-' :: (['1'] ++ '\x00' :: []) := by
    decide
  ⟨hk, hd, incr_minus_delta_decrements _ _ _ _ ['1'] [] hk hd (by decide) (by decide) (by decide)⟩

end Beansdb
