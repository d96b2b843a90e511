import Beansdb.Get
import Beansdb.Numeral
/-!
# Command — `process_command` and the handlers it routes to

`process_command` empties the reply lists, opens the first `msghdr`, tokenizes the line and routes on the first
token and the token count.  `set_noreply_maybe` looks at the token before the terminal one, whatever the command's
arity.  The store's answers come from `Env.store`.  `settings.verbose`, the access log and the slow-command clock only
feed logging and `stats.slow_cmds`, and are left out.
-/
namespace Beansdb

/-- The C string a token points at. -/
def tokStr (buf : List Char) (t : Token) : List Char :=
  match t.value with
  | some v => buf.drop v
  | none => []

/-- `set_noreply_maybe (c, tokens, ntokens)`. -/
def setNoreplyMaybe (c : Conn) (buf : List Char) (toks : List Token) : Conn :=
  match (tokAt toks (toks.length - 2)).value with
  | some v => if streq (buf.drop v) "noreply" then { c with noreply := true } else c
  | none => c

theorem setNoreplyMaybe_readSide (c : Conn) (buf : List Char) (toks : List Token) :
    (setNoreplyMaybe c buf toks).readSide = c.readSide := by
  unfold setNoreplyMaybe; split
  · split_ifs <;> rfl
  · rfl

/-- `CLIENT_ERROR bad command line format`. -/
def badFormat : List Char := "CLIENT_ERROR bad command line format".toList

/-- Modelled from the spec: `item_alloc1 (key, nkey, flags, nbytes)` of the missing `item.c`, once the allocator
said yes: an item of `nbytes` data bytes with the header ` <flag> <len>\r\n` (§3). -/
def itemAlloc1 (key : List Char) (flags : Int) (nbytes : Nat) : Item :=
  ⟨key, flags, 0, (" " ++ toString flags ++ " " ++ toString (nbytes - 2) ++ "\r\n").toList,
   List.replicate nbytes '\x00'⟩

/-- `process_update_command (c, tokens, ntokens, comm)`.  `errno` is `ERANGE` when any of the three conversions
overflowed; glibc sets no `EINVAL` in base 10.  `vlen + 2` is computed in `int`, and `it->ver` is written before
`it` is checked: past `INT_MAX`, or on a failed `item_alloc1`, the source is undefined. -/
def processUpdateCommand (c : Conn) (e : Env) (buf : List Char) (toks : List Token) (comm : Comm) : Conn × Env :=
  let c := setNoreplyMaybe c buf toks
  if maxKeyLen < (tokAt toks 1).length then outString c e badFormat
  else
    let key := tokBytes buf (tokAt toks 1)
    let f := strtoull (tokStr buf (tokAt toks 2))
    let x := strtol (tokStr buf (tokAt toks 3))
    let v := strtol (tokStr buf (tokAt toks 4))
    let flags := toInt32 f.1
    let vlen := toInt32 v.1
    if f.2.2 || x.2.2 || v.2.2 || decide (vlen < 0) then outString c e badFormat
    else if intMax < vlen + 2 then (c, { e with fault := true })
    else if e.ok then
      let h := e.tick.hold { itemAlloc1 key flags (vlen + 2).toNat with ver := toInt32 x.1, flag := flags }
      connSetState { c with item := some h.1, ritem := 0, rlbytes := (vlen + 2).toNat, itemComm := comm } h.2 .nread
    else (c, { e.tick with fault := true })

/-- `process_arithmetic_command (c, tokens, ntokens, 1)`: `incr`.  `add_delta` passes the `uint64_t` delta as an
`int64_t` and formats the store's `uint64_t` answer with `%llu`. -/
def processArithmeticCommand (c : Conn) (e : Env) (buf : List Char) (toks : List Token) : Conn × Env :=
  let c := setNoreplyMaybe c buf toks
  let e := { e with stats := { e.stats with setCmds := e.stats.setCmds + 1 } }
  if maxKeyLen < (tokAt toks 1).length then outString c e badFormat
  else
    match safeStrtoull (tokStr buf (tokAt toks 2)) with
    | none => outString c e "CLIENT_ERROR invalid numeric delta argument".toList
    | some delta =>
      let key := tokBytes buf (tokAt toks 1)
      let value := e.store.incr key (toInt64 delta)
      outString c (e.write (.incr key (toInt64 delta))) (toString (value % 2 ^ 64)).toList

/-- `process_delete_command (c, tokens, ntokens)`. -/
def processDeleteCommand (c : Conn) (e : Env) (buf : List Char) (toks : List Token) : Conn × Env :=
  let c := setNoreplyMaybe c buf toks
  let e := { e with stats := { e.stats with deleteCmds := e.stats.deleteCmds + 1 } }
  if maxKeyLen < (tokAt toks 1).length then outString c e badFormat
  else
    let key := tokBytes buf (tokAt toks 1)
    outString c (e.write (.delete key)) (if e.store.delete key then "DELETED".toList else "NOT_FOUND".toList)

/-- `process_verbosity_command (c, tokens, ntokens)`; the level it sets only gates logging. -/
def processVerbosityCommand (c : Conn) (e : Env) (buf : List Char) (toks : List Token) : Conn × Env :=
  let c := setNoreplyMaybe c buf toks
  if (strtoull (tokStr buf (tokAt toks 1))).2.2 then outString c e badFormat else outString c e "OK".toList

/-- `stats_reset ()`: the counters it zeroes, under `STATS_LOCK`. -/
def statsReset (s : Stats) : Stats :=
  { s with getCmds := 0, getHits := 0, getMisses := 0, setCmds := 0, deleteCmds := 0, bytesRead := 0,
           bytesWritten := 0 }

/-- `process_stat (c, tokens, ntokens)`. -/
def processStat (c : Conn) (e : Env) (buf : List Char) (toks : List Token) : Conn × Env :=
  if toks.length < 2 then outString c e "CLIENT_ERROR bad command line".toList
  else if toks.length = 2 ∧ streq (tokStr buf (tokAt toks 0)) "stats" then outString c e (e.statsText e.stats)
  else if streq (tokStr buf (tokAt toks 1)) "reset" then
    outString c { e with stats := statsReset e.stats } "RESET".toList
  else outString c e "ERROR".toList

/-- The `flush_all` branch of `process_command`. -/
def processFlushAll (c : Conn) (e : Env) (buf : List Char) (toks : List Token) : Conn × Env :=
  let c := setNoreplyMaybe c buf toks
  let n := if c.noreply then toks.length - 1 else toks.length
  match (if 3 ≤ n then safeStrtol (tokStr buf (tokAt toks 1)) else some 10000) with
  | none => outString c e badFormat
  | some limit =>
    let tree := if 4 ≤ n then cstr (tokStr buf (tokAt toks 2)) else "@".toList
    let ret := e.store.optimize limit tree
    let e := e.write (.optimize limit tree)
    if ret = 0 then outString c e "OK".toList
    else if ret = -1 then outString c e "ERROR READ_ONLY".toList
    else if ret = -2 then outString c e "ERROR OPTIMIZE_RUNNING".toList
    else if ret = -3 then outString c e badFormat
    else (c, e)

/-- The `optimize_stat` branch of `process_command`: `%x` prints the bucket in lower-case hex. -/
def processOptimizeStat (c : Conn) (e : Env) : Conn × Env :=
  let ret := e.store.optimizeStat
  if 0 ≤ ret then outString c e ("running bitcast 0x".toList ++ Nat.toDigits 16 ret.toNat)
  else if ret = -1 then outString c e "success".toList
  else outString c e "fail".toList

/-- The routing table of `process_command`, on the tokenized line. -/
def dispatch (fuel : Nat) (c : Conn) (e : Env) (buf : List Char) (toks : List Token) : Option (Conn × Env) :=
  let n := toks.length
  let cmd := tokStr buf (tokAt toks 0)
  if 3 ≤ n ∧ streq cmd "get" then processGetCommand fuel c e buf toks
  else if (n = 6 ∨ n = 7) ∧ streq cmd "set" then some (processUpdateCommand c e buf toks .set)
  else if (n = 6 ∨ n = 7) ∧ streq cmd "append" then some (processUpdateCommand c e buf toks .append)
  else if (n = 4 ∨ n = 5) ∧ streq cmd "incr" then some (processArithmeticCommand c e buf toks)
  else if 3 ≤ n ∧ n ≤ 4 ∧ streq cmd "delete" then some (processDeleteCommand c e buf toks)
  else if 2 ≤ n ∧ streq cmd "stats" then some (processStat c e buf toks)
  else if n = 2 ∧ streq cmd "version" then some (outString c e ("VERSION ".toList ++ e.version))
  else if n = 2 ∧ streq cmd "quit" then some (connSetState c e .closing)
  else if n = 3 ∧ streq cmd "verbosity" then some (processVerbosityCommand c e buf toks)
  else if n = 2 ∧ streq cmd "optimize_stat" then some (processOptimizeStat c e)
  else if 2 ≤ n ∧ n ≤ 4 ∧ streq cmd "flush_all" then some (processFlushAll c e buf toks)
  else if e.stopme ∧ n = 2 ∧ streq cmd "stopme" then some (c, { e with daemonQuit := true })
  else some (outString c e "ERROR".toList)

/-- `process_command (c, command)` on the line `try_read_command` cut, its `'\0'` appended.  The call is recorded in
`Env.log`. -/
def processCommand (fuel : Nat) (c : Conn) (e : Env) (line : List Char) : Option (Conn × Env) :=
  let e := { e with log := e.log ++ [.command line] }
  let c := { c with msgcurr := 0, msgused := 0, iovused := 0 }
  match addMsghdr c e with
  | (none, e) => some (outString c e "SERVER_ERROR out of memory preparing response".toList)
  | (some c, e) =>
    let r := tokenizeCommand (line ++ ['\x00']) 0 maxTokens
    dispatch fuel c e r.1 r.2

/-! From `conn_read`, no handler touches the read buffer: the reply goes to `wbuf` or the `iov` list, and the only
state change that shrinks buffers, entering `conn_read`, is a no-op there. -/

theorem ite_some_of {p : Prop} {d : Decidable p} {a b : Option (Conn × Env)} {r : Conn × Env} {Q : Prop}
    (ha : a = some r → Q) (hb : b = some r → Q) : (if p then a else b) = some r → Q := by
  split_ifs <;> assumption

section ReadView

variable (c : Conn) (e : Env) (buf : List Char) (toks : List Token) (h : c.state = .read)
include h

theorem processUpdateCommand_readView (comm : Comm) :
    (processUpdateCommand c e buf toks comm).1.readView = c.readView := by
  have hn := setNoreplyMaybe_readSide c buf toks
  unfold processUpdateCommand; dsimp only
  split_ifs
  · exact outString_readView_of _ _ hn h
  · exact outString_readView_of _ _ hn h
  · exact congrArg Prod.fst hn
  · exact (connSetState_readView _ _ .nread (.inl (by decide))).trans (congrArg Prod.fst hn)
  · exact congrArg Prod.fst hn

theorem processArithmeticCommand_readView : (processArithmeticCommand c e buf toks).1.readView = c.readView := by
  have hn := setNoreplyMaybe_readSide c buf toks
  unfold processArithmeticCommand; dsimp only
  split_ifs
  · exact outString_readView_of _ _ hn h
  · split <;> exact outString_readView_of _ _ hn h

theorem processDeleteCommand_readView : (processDeleteCommand c e buf toks).1.readView = c.readView := by
  have hn := setNoreplyMaybe_readSide c buf toks
  unfold processDeleteCommand; dsimp only
  split_ifs <;> exact outString_readView_of _ _ hn h

theorem processVerbosityCommand_readView : (processVerbosityCommand c e buf toks).1.readView = c.readView := by
  have hn := setNoreplyMaybe_readSide c buf toks
  unfold processVerbosityCommand; dsimp only
  split_ifs <;> exact outString_readView_of _ _ hn h

theorem processStat_readView : (processStat c e buf toks).1.readView = c.readView := by
  unfold processStat
  split_ifs <;> exact outString_readView _ _ _ h

theorem processFlushAll_readView : (processFlushAll c e buf toks).1.readView = c.readView := by
  have hn := setNoreplyMaybe_readSide c buf toks
  unfold processFlushAll; dsimp only
  split
  · exact outString_readView_of _ _ hn h
  · generalize e.store.optimize _ _ = ret
    split_ifs <;> first | exact outString_readView_of _ _ hn h | exact congrArg Prod.fst hn

theorem processOptimizeStat_readView : (processOptimizeStat c e).1.readView = c.readView := by
  unfold processOptimizeStat; dsimp only
  split_ifs <;> exact outString_readView _ _ _ h

theorem dispatch_readView (fuel : Nat) {r : Conn × Env} :
    dispatch fuel c e buf toks = some r → r.1.readView = c.readView := by
  have hs : ∀ x : Conn × Env, x.1.readView = c.readView → some x = some r → r.1.readView = c.readView := by
    rintro x hx ⟨⟩; exact hx
  unfold dispatch; dsimp only []
  refine ite_some_of (processGetCommand_readView h) ?_
  refine ite_some_of (hs _ (processUpdateCommand_readView c e buf toks h .set)) ?_
  refine ite_some_of (hs _ (processUpdateCommand_readView c e buf toks h .append)) ?_
  refine ite_some_of (hs _ (processArithmeticCommand_readView c e buf toks h)) ?_
  refine ite_some_of (hs _ (processDeleteCommand_readView c e buf toks h)) ?_
  refine ite_some_of (hs _ (processStat_readView c e buf toks h)) ?_
  refine ite_some_of (hs _ (outString_readView _ _ _ h)) ?_
  refine ite_some_of (hs _ (connSetState_readView _ _ _ (.inl (by decide)))) ?_
  refine ite_some_of (hs _ (processVerbosityCommand_readView c e buf toks h)) ?_
  refine ite_some_of (hs _ (processOptimizeStat_readView c e h)) ?_
  refine ite_some_of (hs _ (processFlushAll_readView c e buf toks h)) ?_
  exact ite_some_of (hs _ rfl) (hs _ (outString_readView _ _ _ h))

/-- From `conn_read`, `process_command` leaves the read buffer and its window alone. -/
theorem processCommand_readView (fuel : Nat) (line : List Char) {r : Conn × Env}
    (hr : processCommand fuel c e line = some r) : r.1.readView = c.readView := by
  unfold processCommand at hr; dsimp only at hr
  split at hr
  · cases hr; exact outString_readView _ _ _ h
  · next c' e' heq =>
    have hc : c'.readSide = c.readSide := by unfold addMsghdr at heq; split_ifs at heq <;> cases heq <;> rfl
    exact (dispatch_readView c' e' _ _ ((Conn.state_eq_of_readSide hc).trans h) fuel hr).trans (congrArg Prod.fst hc)

end ReadView

end Beansdb
