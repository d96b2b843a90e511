import Beansdb.Reply
/-!
# Break — the allocation-failure `break` of `process_get_command`

A hit whose `ilist` growth or `add_iov` fails releases its item and `break`s out of the key loop on the key.
`stats_get_cmds` has counted the key, and neither `stats_get_hits` nor `stats_get_misses` will: over a whole command
`get_cmds` grows by the hits, the misses and the items released (`get_cmds_count_releases`).  The `do … while` then
tokenizes again from the key's own value, and `tokenize_command` has already ended the key with a `'\0'`: the new
chunk is the key alone and a NULL terminal (`retokenize_word`), so the key is looked up again and the keys after it
are dropped.  While the allocator refuses, the retried key breaks again and the loop never ends
(`getLoop_stuck_never_ends`).
-/
namespace Beansdb

/-- **`get_cmds` counts the hits, the misses and the releases.**  Over every run of `process_get_command`,
`stats.get_cmds` grows by the hits, the misses and the items released at a `break`: it outgrows
`get_hits + get_misses` by one for each `break`. -/
theorem get_cmds_count_releases (fuel : Nat) (c : Conn) (e : Env) (buf : List Char) (toks : List Token)
    (r : Conn × Env) (h : processGetCommand fuel c e buf toks = some r) :
    r.2.stats.getCmds + e.stats.getHits + e.stats.getMisses + e.freed.length =
      e.stats.getCmds + r.2.stats.getHits + r.2.stats.getMisses + r.2.freed.length := by
  unfold processGetCommand at h
  split at h
  · cases h
  · next s hs =>
    cases h
    obtain ⟨hc, hst, -⟩ := getLoop_follows _ _ _ hs
    have ht := outString_ticked s.conn (addGetStats s.env s) "CLIENT_ERROR bad command line format".toList
    simp only [GetEnd.st] at hc hst
    rw [ht.stats_eq, ht.freed_eq]
    simp only [addGetStats, hst]
    omega
  · next s t hs =>
    cases h
    obtain ⟨hc, hst, -⟩ := getLoop_follows _ _ _ hs
    have ht := getReply_ticked s t
    simp only [GetEnd.st] at hc hst
    simp only [addGetStats]
    rw [ht.stats_eq, ht.freed_eq, hst]
    omega

theorem tokBytes_word {buf key : List Char} {v : Nat} (hbuf : buf.drop v = key ++ '\x00' :: buf.drop (v + key.length + 1)) :
    tokBytes buf ⟨some v, key.length⟩ = key := by
  simp [tokBytes, hbuf]

/-- After a `break` on a key the scan ended with a `'\0'`, the chunk tokenized again is that key alone. -/
theorem retokenize_word {s : GetSt} {v : Nat} {key : List Char}
    (hbuf : s.buf.drop v = key ++ '\x00' :: s.buf.drop (v + key.length + 1)) (hw : ∀ ch ∈ key, ch ≠ ' ' ∧ ch ≠ '\x00')
    (hne : key ≠ []) (n : Nat) :
    retokenize s ⟨some v, n⟩ = ({ s with toks := [⟨some v, key.length⟩, ⟨none, 0⟩], k := 0 }, true) := by
  simp only [retokenize, tokenizeCommand_word hbuf hw hne]; rfl

/-- A key loop standing on `key` at `v` that breaks on it whenever it is retried: the key is in the store and ended
in the buffer by the `'\0'` the scan wrote, the allocator refuses every call from now on, and the `ilist` or the
`iov` array is full. -/
structure GetSt.Stuck (s : GetSt) (v : Nat) (key : List Char) : Prop where
  tok      : tokAt s.toks s.k = ⟨some v, key.length⟩
  word     : s.buf.drop v = key ++ '\x00' :: s.buf.drop (v + key.length + 1)
  chars    : ∀ ch ∈ key, ch ≠ ' ' ∧ ch ≠ '\x00'
  nonempty : key ≠ []
  short    : key.length ≤ maxKeyLen
  hit      : (s.env.store.get key).isSome
  refuses  : s.env.Refuses
  full     : s.conn.isize ≤ s.i ∨ (s.conn.iovsize ≤ s.conn.iovused ∧ s.conn.msgused ≠ 0)

/-- One pass of a stuck loop looks the key up, breaks, and stands on the same key again. -/
theorem GetSt.Stuck.step {s : GetSt} {v : Nat} {key : List Char} (h : s.Stuck v key) (fuel : Nat) :
    ∃ s', s'.Stuck v key ∧ getLoop (fuel + 1) s = getLoop fuel s' := by
  let s1 : GetSt := { s with cmds := s.cmds + 1 }
  obtain ⟨hb, -, hst, hr, hf⟩ := getKey_full s1 key h.hit h.refuses h.full
  have hbuf : (getKey s1 key).1.buf = s.buf := (getKey_frame s1 key).1
  have hword : (getKey s1 key).1.buf.drop v = key ++ '\x00' :: (getKey s1 key).1.buf.drop (v + key.length + 1) := by
    rw [hbuf]; exact h.word
  refine ⟨{ (getKey s1 key).1 with toks := [⟨some v, key.length⟩, ⟨none, 0⟩], k := 0 },
    ⟨rfl, hword, h.chars, h.nonempty, h.short, by rw [hst]; exact h.hit, hr, hf⟩, ?_⟩
  have hl : key.length ≠ 0 := by simpa using h.nonempty
  have hpair : getKey s1 key = ((getKey s1 key).1, false) := by rw [← hb]
  simp only [getLoop, h.tok, ne_eq, hl, not_false_eq_true, if_true, Nat.not_lt.2 h.short, if_false,
    tokBytes_word h.word]
  rw [hpair]; dsimp only
  rw [retokenize_word hword h.chars h.nonempty]

/-- **A key loop stuck on a failed allocation never ends.**  From a state where the allocator refuses every call and
the `ilist` or the `iov` array is full, standing on a key the store holds, `process_get_command`'s loop looks the same
key up again on every pass, for any number of passes. -/
theorem getLoop_stuck_never_ends (s : GetSt) (v : Nat) (key : List Char) (h : s.Stuck v key) (fuel : Nat) :
    getLoop fuel s = none := by
  induction fuel generalizing s with
  | zero => rfl
  | succ n ih =>
    obtain ⟨s', hs', heq⟩ := h.step n
    rw [heq]; exact ih s' hs'

/-- `get` and 134 keys `a`.  A hit takes three `iov`s (its `VALUE ` header, its key and its data), so the 134th
finds the 400 of a fresh connection taken and `add_iov` must grow the array. -/
def manyLine : List Char := "get".toList ++ (List.replicate 134 " a".toList).flatten

/-- `process_command` on `manyLine` from a fresh connection in `conn_read`, the allocator answering `allocs`. -/
def getMany (fuel : Nat) (allocs : Nat → Bool) : Option (Conn × Env) :=
  processCommand fuel (Conn.init dataBufferSize .read) { clientEnv [] with allocs := allocs } manyLine

/-- `process_command` hands `manyLine` to `process_get_command`, after adding the connection's first `msghdr`. -/
theorem getMany_eq (fuel : Nat) (allocs : Nat → Bool) :
    getMany fuel allocs = processGetCommand fuel (pushMsghdr (Conn.init dataBufferSize .read))
      { clientEnv [] with allocs := allocs, log := [.command manyLine] }
      (tokenizeCommand (manyLine ++ ['\x00']) 0 maxTokens).1 (tokenizeCommand (manyLine ++ ['\x00']) 0 maxTokens).2 := by
  unfold getMany processCommand addMsghdr; dsimp only
  rw [if_neg (by decide)]; dsimp only
  unfold dispatch; dsimp only
  rw [if_pos ⟨by decide, by decide⟩]
  rfl

set_option maxRecDepth 100000 in
/-- The allocator refuses its first call and grants the retry: 135 lookups, 134 hits, no miss, one item released. -/
theorem getMany_once_counts : (getMany 400 fun n => n != 0).map
    (fun r => (r.2.stats.getCmds, r.2.stats.getHits, r.2.stats.getMisses, r.2.freed.length)) = some (135, 134, 0, 1) := by
  decide

theorem getMany_once_break : ∃ r, getMany 400 (fun n => n != 0) = some r ∧
    r.2.stats.getCmds + 0 + 0 + 0 = 0 + r.2.stats.getHits + r.2.stats.getMisses + r.2.freed.length ∧
    r.2.stats.getCmds ≠ r.2.stats.getHits + r.2.stats.getMisses := by
  obtain ⟨r, hr⟩ := Option.isSome_iff_exists.1 (by simpa using congrArg Option.isSome getMany_once_counts)
  have hv := getMany_once_counts
  simp only [hr, Option.map_some', Option.some.injEq, Prod.mk.injEq] at hv
  exact ⟨r, hr, get_cmds_count_releases _ _ _ _ _ r ((getMany_eq 400 _).symm.trans hr), by omega⟩

/-- The key loop `process_command` runs on `manyLine` when the allocator refuses every call. -/
def manyLoop : GetSt :=
  ⟨pushMsghdr (Conn.init dataBufferSize .read), { clientEnv [] with allocs := fun _ => false, log := [.command manyLine] },
   (tokenizeCommand (manyLine ++ ['\x00']) 0 maxTokens).1, (tokenizeCommand (manyLine ++ ['\x00']) 0 maxTokens).2,
   1, 0, 0, 0, 0⟩

/-- Where `manyLoop` stands after 152 passes: on the 134th key, at 270, its first `add_iov` about to find the `iov`
array full. -/
def manyStuck : GetSt := (getRun 152 manyLoop).elim id GetEnd.st

set_option maxRecDepth 100000 in
theorem manyStuck_reached : (getRun 152 manyLoop).isLeft ∧ tokAt manyStuck.toks manyStuck.k = ⟨some 270, "a".toList.length⟩ ∧
    manyStuck.buf.drop 270 = "a".toList ++ '\x00' :: manyStuck.buf.drop (270 + "a".toList.length + 1) ∧
    manyStuck.conn.iovsize ≤ manyStuck.conn.iovused ∧ manyStuck.conn.msgused ≠ 0 := by
  decide

theorem manyStuck_run : getRun 152 manyLoop = .inl manyStuck := by
  have h := manyStuck_reached.1
  unfold manyStuck
  cases hx : getRun 152 manyLoop with
  | inl s => rfl
  | inr r => rw [hx] at h; cases h

theorem manyStuck_stuck : manyStuck.Stuck 270 "a".toList := by
  obtain ⟨-, htok, hword, hfull, hm⟩ := manyStuck_reached
  have hf := getRun_follows 152 manyLoop manyStuck manyStuck_run
  have hal := hf.input
  simp only [Env.input, Prod.mk.injEq] at hal
  exact ⟨htok, hword, by decide, by decide, by decide, by rw [hf.store]; rfl, fun _ _ => by rw [hal.2.2.2]; rfl,
    .inr ⟨hfull, hm⟩⟩

set_option maxRecDepth 100000 in
/-- With the allocator refusing, `process_command` never returns from `manyLine`: 152 passes bring its key loop to
the 134th key, stuck. -/
theorem getMany_never_ends : getRun 152 manyLoop = .inl manyStuck ∧ manyStuck.Stuck 270 "a".toList ∧
    ∀ fuel, getMany fuel (fun _ => false) = none := by
  refine ⟨manyStuck_run, manyStuck_stuck, fun fuel => ?_⟩
  have hl : getLoop fuel manyLoop = none := by
    cases h : getLoop fuel manyLoop with
    | none => rfl
    | some r =>
      have h' := (getLoop_add_fuel 152 fuel manyLoop h).symm.trans (getLoop_getRun fuel 152 _ _ manyStuck_run)
      rw [getLoop_stuck_never_ends manyStuck 270 _ manyStuck_stuck fuel] at h'
      cases h'
  rw [getMany_eq]; unfold processGetCommand; erw [hl]

end Beansdb
