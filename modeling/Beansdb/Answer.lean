import Beansdb.Build
import Beansdb.Pipeline
/-!
# Answer — pipelined commands are answered in order

A client may send its commands without waiting for the replies.  `process_command` hands each line to the handler of
its row of the routing table (`dispatch_route`): a get builds its `VALUE` blocks in the `iov` list for `conn_mwrite`;
a `set` or an `append` whose checks pass takes the `noreply` flag from the line and enters `conn_nread` with a fresh
item (`processCommand_updateLine`), and only once the body has come does `complete_nread` store it and answer; `quit`
closes and `stopme` stops the server, answering nothing (`processCommand_silent`); every other row answers at once
with the line `lineReply` gives (`processCommand_outString`).  Those answers go through `out_string`: one line in
`wbuf`, or none under `noreply`, and `conn_write` queues the line and sends it before the connection reads on.
`replies` is what a server answering the commands in order has sent once it dispatched some events.  On a stream of
commands whose answers are a function of the stream, with the allocator granting, every pass of `drive_machine` keeps
the connection in line with that server (`Conn.Answering.step`), whatever `read` and `sendmsg` return; so over every
run from a fresh connection the socket gets a prefix of those replies, and all of them once the connection is back in
`conn_read` with no line left (`pipelined_commands_answered`).

On the way: no pass resizes `wbuf`, and `noreply` is set only by `set_noreply_maybe` and cleared by `out_string`
(`Conn.replyCfg`).
-/
namespace Beansdb

/-! ## The reply settings: the size of `wbuf` and `noreply` -/

/-- What `out_string` reads of a connection besides the line: the size of `wbuf` and the `noreply` flag. -/
def Conn.replyCfg (c : Conn) : Nat × Bool := (c.wsize, c.noreply)

theorem connSetState_replyCfg (c : Conn) (e : Env) (s : ConnState) :
    (connSetState c e s).1.replyCfg = c.replyCfg := by
  obtain ⟨-, hn, -, -, -, -, -, -, -, -, -, -, -, -, -, -, -, hw⟩ := (connSetState_unshrunk c e s).2
  exact Prod.ext hw hn

@[simp] theorem connSetState_wsize (c : Conn) (e : Env) (s : ConnState) : (connSetState c e s).1.wsize = c.wsize :=
  congrArg Prod.fst (connSetState_replyCfg c e s)

theorem outString_wsize (c : Conn) (e : Env) (str : List Char) : (outString c e str).1.wsize = c.wsize := by
  unfold outString; split <;> simp

/-- Whichever branch it takes, `out_string` leaves `noreply` clear. -/
theorem outString_clears_noreply (c : Conn) (e : Env) (str : List Char) : (outString c e str).1.noreply = false := by
  unfold outString; split <;> simp_all

theorem outString_replyCfg {c : Conn} (e : Env) (str : List Char) (h : c.noreply = false) :
    (outString c e str).1.replyCfg = c.replyCfg :=
  Prod.ext (outString_wsize c e str) ((outString_clears_noreply c e str).trans h.symm)

/-- The line `out_string` puts in `wbuf` for `str` on a connection as `conn_new` sets it up: `str` itself, or an
error when `str` and `\r\n` would not fit. -/
def outLine (str : List Char) : List Char :=
  if dataBufferSize < str.length + 2 then "SERVER_ERROR output line too long".toList else str

/-- With `noreply` clear, `out_string` puts its line and `\r\n` in `wbuf` and enters `conn_write`, to come back to
`conn_read`. -/
theorem outString_write {c : Conn} (e : Env) (str : List Char) (hn : c.noreply = false)
    (hw : c.wsize = dataBufferSize) :
    outString c e str =
      ({ c with wcurr := outLine str ++ ['\r', '\n'], wbytes := (outLine str).length + 2, state := .write,
                writeAndGo := .read }, e) := by
  simp only [outString, hn, hw, outLine, Bool.false_eq_true, if_false,
    connSetState_of_ne_read _ e (show ConnState.write ≠ .read by decide)]

theorem outString_state (c : Conn) (e : Env) (str : List Char) :
    (outString c e str).1.state = .read ∨ (outString c e str).1.state = .write := by
  unfold outString; split <;> simp

theorem addMsghdr_replyCfg {c c' : Conn} {e e' : Env} (h : addMsghdr c e = (some c', e')) :
    c'.replyCfg = c.replyCfg ∧ c'.iovused = c.iovused ∧ c'.state = c.state := by
  unfold addMsghdr at h; split_ifs at h <;> cases h <;> exact ⟨rfl, rfl, rfl⟩

theorem addIov_replyCfg (c : Conn) (e : Env) (buf : List Char) (len : Nat) (o : Option Nat) :
    (addIov c e buf len o).1.replyCfg = c.replyCfg := by
  unfold addIov; split_ifs
  · rfl
  · refine addIovLoop_preserves (fun d => d.replyCfg = c.replyCfg) (fun h₁ hc => ?_) (fun h₂ hc => ?_)
      (fun _ _ hc => hc) _ c e buf len o rfl
    · unfold startMsghdr at h₁; split_ifs at h₁
      exacts [(addMsghdr_replyCfg h₁).1.trans hc, by cases h₁; exact hc]
    · unfold ensureIovSpace at h₂; split_ifs at h₂ <;> cases h₂ <;> exact hc

theorem addValue_replyCfg (c : Conn) (e : Env) (h : Held) : (addValue c e h).1.replyCfg = c.replyCfg := by
  have h1 := addIov_replyCfg c e "VALUE ".toList 6 none
  unfold addValue; dsimp only
  split_ifs
  · exact (addIov_replyCfg _ _ _ _ _).trans ((addIov_replyCfg _ _ _ _ _).trans h1)
  · exact (addIov_replyCfg _ _ _ _ _).trans h1
  · exact h1

theorem getKey_replyCfg (s : GetSt) (key : List Char) : (getKey s key).1.conn.replyCfg = s.conn.replyCfg := by
  unfold getKey; split
  · rfl
  · next _ it _ =>
    dsimp only; split
    · rfl
    · next c e heq =>
      have hc : c.replyCfg = s.conn.replyCfg := by
        unfold growIlist at heq; split_ifs at heq <;> cases heq <;> rfl
      have hv := (addValue_replyCfg c e (s.env.hold it).1).trans hc
      split_ifs
      exacts [hv, hv]

theorem getLoop_replyCfg (fuel : Nat) (s : GetSt) (r : GetEnd) (h : getLoop fuel s = some r) :
    r.st.conn.replyCfg = s.conn.replyCfg := by
  induction fuel generalizing s with
  | zero => cases h
  | succ n ih =>
    unfold getLoop at h; dsimp only at h
    split_ifs at h
    · cases h; rfl
    · have hk := getKey_replyCfg { s with cmds := s.cmds + 1 } (tokBytes s.buf (tokAt s.toks s.k))
      split at h
      · next s' heq => rw [heq] at hk; exact (ih _ h).trans hk
      · next s' heq =>
        rw [heq] at hk
        have ht := retokenize_conn s' (tokAt s.toks s.k)
        split at h
        · next s'' heq2 => rw [heq2] at ht; exact (ih _ h).trans (ht ▸ hk)
        · next s'' heq2 => rw [heq2] at ht; cases h; exact ht ▸ hk
    · have ht := retokenize_conn s (tokAt s.toks s.k)
      split at h
      · next s' heq => rw [heq] at ht; exact (ih _ h).trans (congrArg Conn.replyCfg ht)
      · next s' heq => rw [heq] at ht; cases h; exact congrArg Conn.replyCfg ht

theorem getReply_replyCfg (s : GetSt) (t : Token) (hn : s.conn.noreply = false) :
    (getReply s t).1.replyCfg = s.conn.replyCfg := by
  have ha := addIov_replyCfg { s.conn with icurr := 0, ileft := s.i } s.env "END\r\n".toList 5 none
  unfold getReply; dsimp only
  cases t.value.isSome
  · simp only [Bool.false_eq_true, ↓reduceIte]
    generalize addIov { s.conn with icurr := 0, ileft := s.i } s.env "END\r\n".toList 5 none = a at ha ⊢
    split
    · exact (connSetState_replyCfg _ _ _).trans ha
    · exact (outString_replyCfg _ _ ((congrArg Prod.snd ha).trans hn)).trans ha
  · exact outString_replyCfg _ _ hn

theorem processGetCommand_replyCfg {fuel : Nat} {c : Conn} {e : Env} {buf : List Char} {toks : List Token}
    {r : Conn × Env} (hn : c.noreply = false) (hr : processGetCommand fuel c e buf toks = some r) :
    r.1.replyCfg = c.replyCfg := by
  unfold processGetCommand at hr
  split at hr
  · cases hr
  · next s hs =>
    cases hr
    have hf := getLoop_replyCfg _ _ _ hs
    exact (outString_replyCfg _ _ ((congrArg Prod.snd hf).trans hn)).trans hf
  · next s t hs =>
    cases hr
    have hf := getLoop_replyCfg _ _ _ hs
    exact (getReply_replyCfg s t ((congrArg Prod.snd hf).trans hn)).trans hf

/-- A get line leaves the reply settings as they were. -/
theorem processCommand_getLine_replyCfg {fuel : Nat} {c : Conn} {e : Env} {line : List Char} {r : Conn × Env}
    (hl : GetLine line) (hn : c.noreply = false) (hr : processCommand fuel c e line = some r) :
    r.1.replyCfg = c.replyCfg := by
  obtain ⟨-, -, hstr, h3⟩ := getLine_chunk hl.words_eq
  unfold processCommand at hr; dsimp only at hr
  split at hr
  · cases hr; exact outString_replyCfg _ _ hn
  · next c₁ e₁ hadd =>
    have hc := (addMsghdr_replyCfg hadd).1
    generalize tokenizeCommand (line ++ ['\x00']) 0 maxTokens = t at hstr h3 hr
    unfold dispatch at hr; dsimp only at hr
    rw [if_pos ⟨h3 hl.2.1, hstr⟩] at hr
    exact (processGetCommand_replyCfg ((congrArg Prod.snd hc).trans hn) hr).trans hc

/-- A send moves only the message list and the state. -/
theorem transmit_keeps (c : Conn) (e : Env) :
    (transmit c e).1.replyCfg = c.replyCfg ∧ (transmit c e).1.iovused = c.iovused ∧
      (transmit c e).1.writeAndGo = c.writeAndGo := by
  have h : (skipDrained c).replyCfg = c.replyCfg ∧ (skipDrained c).iovused = c.iovused ∧
      (skipDrained c).writeAndGo = c.writeAndGo := by
    unfold skipDrained; split_ifs <;> exact ⟨rfl, rfl, rfl⟩
  unfold transmit
  generalize skipDrained c = d at h ⊢
  dsimp only
  split_ifs <;> (try split) <;> (try split_ifs) <;> exact h

theorem stepTransmit_replyCfg (c : Conn) (e : Env) : (stepTransmit c e).1.replyCfg = c.replyCfg := by
  have ht := (transmit_keeps c e).1
  unfold stepTransmit; dsimp only
  generalize transmit c e = t at ht ⊢
  split
  · split_ifs <;> exact (connSetState_replyCfg _ _ _).trans ht
  all_goals exact ht

theorem readLoop_replyCfg (fuel : Nat) (c : Conn) (e : Env) (got : Bool) (hn : c.noreply = false) :
    (readLoop fuel c e got).1.replyCfg = c.replyCfg := by
  induction fuel generalizing c e got with
  | zero => rfl
  | succ n ih =>
    simp only [readLoop]
    split
    · exact outString_replyCfg _ _ hn
    · next c₁ e₁ heq =>
      have hc : c₁.replyCfg = c.replyCfg := by unfold growRbuf at heq; split_ifs at heq <;> cases heq <;> rfl
      split
      · split_ifs
        · refine Eq.trans (ih _ _ _ ?_) hc
          exact (congrArg Prod.snd hc).trans hn
        · exact hc
      · exact hc
      · exact (connSetState_replyCfg _ _ _).trans hc

theorem tryReadNetwork_replyCfg (c : Conn) (e : Env) (hn : c.noreply = false) :
    (tryReadNetwork c e).1.replyCfg = c.replyCfg := by
  have hc : (compactRbuf c).replyCfg = c.replyCfg := by unfold compactRbuf; split_ifs <;> rfl
  exact (readLoop_replyCfg _ _ _ _ ((congrArg Prod.snd hc).trans hn)).trans hc

/-! ## The message list of a reply -/

/-- The message list `process_command` opens for a reply, still empty: one `msghdr` and no fragment. -/
structure Conn.Opened (c : Conn) : Prop where
  iovOk   : c.IovOk
  iovused : c.iovused = 0
  msgcurr : c.msgcurr = 0
  msgused : c.msgused ≠ 0

/-- The fields of a connection that the message list is made of. -/
def Conn.msgSide (c : Conn) : List Msghdr × Nat × Nat × List Iovec × Nat :=
  (c.msglist, c.msgused, c.msgcurr, c.iov, c.iovused)

theorem Conn.Opened.congr {c c' : Conn} (h : c.Opened) (hm : c'.msgSide = c.msgSide) : c'.Opened := by
  simp only [Conn.msgSide, Prod.mk.injEq] at hm
  obtain ⟨h1, h2, h3, h4, h5⟩ := hm
  exact ⟨h.iovOk.of_eq (by simp only [Conn.msgs, h1, h2]) h5 h4 (by rw [h1, h2]; exact h.iovOk.msgLen),
    h5.trans h.iovused, h3.trans h.msgcurr, h2 ▸ h.msgused⟩

theorem Conn.TxOk.congr {c c' : Conn} (h : c.TxOk) (hm : c'.msgSide = c.msgSide) :
    c'.TxOk ∧ c'.unsent = c.unsent := by
  simp only [Conn.msgSide, Prod.mk.injEq] at hm
  obtain ⟨h1, h2, h3, h4, h5⟩ := hm
  have hu : c'.unsentMsgs = c.unsentMsgs := by simp only [Conn.unsentMsgs, Conn.msgs, h1, h2, h3]
  refine ⟨⟨?_, ?_, ?_, ?_, ?_, ?_⟩, by simp only [Conn.unsent, hu, h4]⟩
  · rw [h2, h3]; exact h.curr
  · rw [h1, h2]; exact h.msgLen
  · rw [hu]; exact h.sorted
  · rw [hu, h5]; exact h.inside
  · rw [h4, h5]; exact h.iovLen
  · rw [h4, h5]; exact h.frags


/-! ## The routing table -/

/-- The rows of `process_command`'s routing table. -/
inductive Route where
  | get | set | append | incr | delete | stats | version | quit | verbosity | optimizeStat | flushAll | stopme | error
deriving DecidableEq, Repr

/-- The row of `process_command`'s routing table a tokenized line falls in, tested in the table's order; `stopme` is
the `-S` setting. -/
def route (stopme : Bool) (buf : List Char) (toks : List Token) : Route :=
  let n := toks.length
  let cmd := tokStr buf (tokAt toks 0)
  if 3 ≤ n ∧ streq cmd "get" then .get
  else if (n = 6 ∨ n = 7) ∧ streq cmd "set" then .set
  else if (n = 6 ∨ n = 7) ∧ streq cmd "append" then .append
  else if (n = 4 ∨ n = 5) ∧ streq cmd "incr" then .incr
  else if 3 ≤ n ∧ n ≤ 4 ∧ streq cmd "delete" then .delete
  else if 2 ≤ n ∧ streq cmd "stats" then .stats
  else if n = 2 ∧ streq cmd "version" then .version
  else if n = 2 ∧ streq cmd "quit" then .quit
  else if n = 3 ∧ streq cmd "verbosity" then .verbosity
  else if n = 2 ∧ streq cmd "optimize_stat" then .optimizeStat
  else if 2 ≤ n ∧ n ≤ 4 ∧ streq cmd "flush_all" then .flushAll
  else if stopme ∧ n = 2 ∧ streq cmd "stopme" then .stopme
  else .error

/-- The row the command line `line` falls in. -/
def lineRoute (stopme : Bool) (line : List Char) : Route :=
  let r := tokenizeCommand (line ++ ['\x00']) 0 maxTokens
  route stopme r.1 r.2

/-- The handler of each row of `process_command`'s routing table. -/
def rowHandler (fuel : Nat) (c : Conn) (e : Env) (buf : List Char) (toks : List Token) : Route → Option (Conn × Env)
  | .get => processGetCommand fuel c e buf toks
  | .set => some (processUpdateCommand c e buf toks .set)
  | .append => some (processUpdateCommand c e buf toks .append)
  | .incr => some (processArithmeticCommand c e buf toks)
  | .delete => some (processDeleteCommand c e buf toks)
  | .stats => some (processStat c e buf toks)
  | .version => some (outString c e ("VERSION ".toList ++ e.version))
  | .quit => some (connSetState c e .closing)
  | .verbosity => some (processVerbosityCommand c e buf toks)
  | .optimizeStat => some (processOptimizeStat c e)
  | .flushAll => some (processFlushAll c e buf toks)
  | .stopme => some (c, { e with daemonQuit := true })
  | .error => some (outString c e "ERROR".toList)

/-- **The routing table**: `process_command` hands a tokenized line to the handler of its row. -/
theorem dispatch_route (fuel : Nat) (c : Conn) (e : Env) (buf : List Char) (toks : List Token) :
    dispatch fuel c e buf toks = rowHandler fuel c e buf toks (route e.stopme buf toks) := by
  unfold dispatch route
  simp only [apply_ite (rowHandler fuel c e buf toks)]
  rfl

theorem GetLine.route_get {line : List Char} (hl : GetLine line) (stopme : Bool) : lineRoute stopme line = .get := by
  obtain ⟨-, -, hstr, h3⟩ := getLine_chunk hl.words_eq
  unfold lineRoute route; dsimp only
  rw [if_pos ⟨h3 hl.2.1, hstr⟩]

/-- The row of an update command. -/
def Comm.route : Comm → Route
  | .set => .set
  | .append => .append

theorem rowHandler_comm (fuel : Nat) (c : Conn) (e : Env) (buf : List Char) (toks : List Token) (comm : Comm) :
    rowHandler fuel c e buf toks comm.route = some (processUpdateCommand c e buf toks comm) := by
  cases comm <;> rfl

/-- The store call `complete_nread` makes for the body of the update line `line`: `hs_set` for `set`, `hs_append`
for `append`. -/
def updateComm (line : List Char) : Comm :=
  let r := tokenizeCommand (line ++ ['\x00']) 0 maxTokens
  if streq (tokStr r.1 (tokAt r.2 0)) "set" then .set else .append

/-- A line that reads a body is a `set` or an `append`, routed by its store call. -/
theorem lineRoute_of_frame {line : List Char} (hf : commandFrame line ≠ .line) (stopme : Bool) :
    lineRoute stopme line = (updateComm line).route := by
  unfold commandFrame tokFrame at hf; unfold lineRoute route updateComm; dsimp only at hf ⊢
  generalize tokenizeCommand (line ++ ['\x00']) 0 maxTokens = t at hf ⊢
  split_ifs at hf with hcmd
  · have hget : ¬(3 ≤ t.2.length ∧ streq (tokStr t.1 (tokAt t.2 0)) "get" = true) := fun h =>
      hcmd.2.elim (fun hs => absurd (streq_unique h.2 hs) (by decide))
        (fun ha => absurd (streq_unique h.2 ha) (by decide))
    rw [if_neg hget]
    by_cases hs : streq (tokStr t.1 (tokAt t.2 0)) "set" = true
    · rw [if_pos ⟨hcmd.1, hs⟩, if_pos hs]; rfl
    · rw [if_neg (fun h => hs h.2), if_pos ⟨hcmd.1, hcmd.2.resolve_left hs⟩, if_neg hs]; rfl
  · exact absurd rfl hf

/-! ## What each row answers at once -/

/-- The rows whose handler reads `noreply` off the line (`set_noreply_maybe`). -/
def Route.readsNoreply : Route → Bool
  | .set | .append | .incr | .delete | .verbosity | .flushAll => true
  | _ => false

/-- The flag `set_noreply_maybe` takes from a tokenized line: the token before the terminal one is `noreply`. -/
def noreplyTok (buf : List Char) (toks : List Token) : Bool :=
  match (tokAt toks (toks.length - 2)).value with
  | some v => streq (buf.drop v) "noreply"
  | none => false

/-- The checks of `process_update_command` answered with `CLIENT_ERROR bad command line format`: a key longer than
`MAX_KEY_LEN`, a number that does not parse, or a negative length. -/
def updateFails (buf : List Char) (toks : List Token) : Bool :=
  let f := strtoull (tokStr buf (tokAt toks 2))
  let x := strtol (tokStr buf (tokAt toks 3))
  let v := strtol (tokStr buf (tokAt toks 4))
  decide (maxKeyLen < (tokAt toks 1).length) || (f.2.2 || x.2.2 || v.2.2 || decide (toInt32 v.1 < 0))

/-- The line `process_arithmetic_command` answers an `incr` with, before `out_string`. -/
def incrReply (st : Store) (buf : List Char) (toks : List Token) : List Char :=
  if maxKeyLen < (tokAt toks 1).length then badFormat
  else
    match safeStrtoull (tokStr buf (tokAt toks 2)) with
    | none => "CLIENT_ERROR invalid numeric delta argument".toList
    | some delta => (toString (st.incr (tokBytes buf (tokAt toks 1)) (toInt64 delta) % 2 ^ 64)).toList

/-- The line `process_delete_command` answers a `delete` with, before `out_string`. -/
def deleteReply (st : Store) (buf : List Char) (toks : List Token) : List Char :=
  if maxKeyLen < (tokAt toks 1).length then badFormat
  else if st.delete (tokBytes buf (tokAt toks 1)) then "DELETED".toList else "NOT_FOUND".toList

/-- The line `process_stat` answers a `stats` line of more than one word with. -/
def statReply (buf : List Char) (toks : List Token) : List Char :=
  if streq (tokStr buf (tokAt toks 1)) "reset" then "RESET".toList else "ERROR".toList

/-- The line `process_verbosity_command` answers with. -/
def verbosityReply (buf : List Char) (toks : List Token) : List Char :=
  if (strtoull (tokStr buf (tokAt toks 1))).2.2 then badFormat else "OK".toList

/-- The line the `optimize_stat` branch answers with. -/
def optimizeStatReply (st : Store) : List Char :=
  if 0 ≤ st.optimizeStat then "running bitcast 0x".toList ++ Nat.toDigits 16 st.optimizeStat.toNat
  else if st.optimizeStat = -1 then "success".toList else "fail".toList

/-- The line the `flush_all` branch answers with, `noreply` the flag `set_noreply_maybe` left; `none` when the store
answers `hs_optimize` outside its contract and the branch sends nothing. -/
def flushReply (st : Store) (noreply : Bool) (buf : List Char) (toks : List Token) : Option (List Char) :=
  let n := if noreply then toks.length - 1 else toks.length
  match (if 3 ≤ n then safeStrtol (tokStr buf (tokAt toks 1)) else some 10000) with
  | none => some badFormat
  | some limit =>
    let ret := st.optimize limit (if 4 ≤ n then cstr (tokStr buf (tokAt toks 2)) else "@".toList)
    if ret = 0 then some "OK".toList
    else if ret = -1 then some "ERROR READ_ONLY".toList
    else if ret = -2 then some "ERROR OPTIMIZE_RUNNING".toList
    else if ret = -3 then some badFormat
    else none

/-- The line a row's handler answers a tokenized line with at once through `out_string`, against the store `st`,
`noreply` the flag in force: `none` where the row answers otherwise (a get's `VALUE` blocks, an update that reads a
body, `quit` and `stopme`, which answer nothing), where the reply is not a function of the line (a plain `stats`
prints the counters), and where the source makes none (an update whose length overflows, a `flush_all` the store
answers outside its contract). -/
def lineReply (w : Server) (st : Store) (noreply : Bool) (buf : List Char) (toks : List Token) : Option (List Char) :=
  match route w.stopme buf toks with
  | .set | .append => if updateFails buf toks then some badFormat else none
  | .incr => some (incrReply st buf toks)
  | .delete => some (deleteReply st buf toks)
  | .stats => if 2 < toks.length then some (statReply buf toks) else none
  | .version => some ("VERSION ".toList ++ w.version)
  | .verbosity => some (verbosityReply buf toks)
  | .optimizeStat => some (optimizeStatReply st)
  | .flushAll => flushReply st noreply buf toks
  | .error => some "ERROR".toList
  | .get | .quit | .stopme => none

/-- The call `process_arithmetic_command` makes to the store: `hs_incr`, once the key and the delta pass. -/
def incrCall (buf : List Char) (toks : List Token) : Option StoreCall :=
  if maxKeyLen < (tokAt toks 1).length then none
  else (safeStrtoull (tokStr buf (tokAt toks 2))).map fun delta => .incr (tokBytes buf (tokAt toks 1)) (toInt64 delta)

/-- The call `process_delete_command` makes to the store: `hs_delete`, once the key passes. -/
def deleteCall (buf : List Char) (toks : List Token) : Option StoreCall :=
  if maxKeyLen < (tokAt toks 1).length then none else some (.delete (tokBytes buf (tokAt toks 1)))

/-- The call the `flush_all` branch makes to the store: `hs_optimize`, once the limit parses. -/
def flushCall (noreply : Bool) (buf : List Char) (toks : List Token) : Option StoreCall :=
  let n := if noreply then toks.length - 1 else toks.length
  (if 3 ≤ n then safeStrtol (tokStr buf (tokAt toks 1)) else some 10000).map fun limit =>
    .optimize limit (if 4 ≤ n then cstr (tokStr buf (tokAt toks 2)) else "@".toList)

/-- The call a row's handler makes to the store for a tokenized line, `noreply` the flag in force. -/
def rowCall (stopme noreply : Bool) (buf : List Char) (toks : List Token) : Option StoreCall :=
  match route stopme buf toks with
  | .incr => incrCall buf toks
  | .delete => deleteCall buf toks
  | .flushAll => flushCall noreply buf toks
  | _ => none

/-- The `noreply` flag in force when the line `line` is answered: read off the line by the rows that read it. -/
def lineNoreply (stopme : Bool) (line : List Char) : Bool :=
  let r := tokenizeCommand (line ++ ['\x00']) 0 maxTokens
  (route stopme r.1 r.2).readsNoreply && noreplyTok r.1 r.2

/-- The line the command line `line` is answered with at once, against the store `st`. -/
def lineAnswer (w : Server) (st : Store) (line : List Char) : Option (List Char) :=
  let r := tokenizeCommand (line ++ ['\x00']) 0 maxTokens
  lineReply w st (lineNoreply w.stopme line) r.1 r.2

/-- The call the command line `line` makes to the store. -/
def lineCall (stopme : Bool) (line : List Char) : Option StoreCall :=
  let r := tokenizeCommand (line ++ ['\x00']) 0 maxTokens
  rowCall stopme (lineNoreply stopme line) r.1 r.2

/-- The store after the call `k`, if there is one. -/
def Server.apply (w : Server) (st : Store) : Option StoreCall → Store
  | none => st
  | some k => w.update st k

/-- The world after the call `k`, if there is one. -/
def Env.writeOpt (e : Env) : Option StoreCall → Env
  | none => e
  | some k => e.write k

theorem Env.writeOpt_quiet (e : Env) (k : Option StoreCall) :
    (e.writeOpt k).server = e.server ∧ (e.writeOpt k).store = e.server.apply e.store k ∧ (e.writeOpt k).outq = e.outq ∧
      (e.writeOpt k).log = e.log := by
  cases k <;> exact ⟨rfl, rfl, rfl, rfl⟩

/-- A line that reads a body passed the checks of `process_update_command`. -/
theorem updateFails_of_frame {line : List Char} (hf : commandFrame line ≠ .line) :
    updateFails (tokenizeCommand (line ++ ['\x00']) 0 maxTokens).1 (tokenizeCommand (line ++ ['\x00']) 0 maxTokens).2 =
      false := by
  unfold commandFrame tokFrame at hf; unfold updateFails; dsimp only at hf ⊢
  split_ifs at hf
  · unfold updateFrame at hf; dsimp only at hf
    split_ifs at hf with h1 h2 <;> first | exact absurd rfl hf |
      (rw [decide_eq_false h1, Bool.false_or]; exact Bool.eq_false_iff.2 h2)
  · exact absurd rfl hf

section Handlers

variable (c : Conn) (e : Env) (buf : List Char) (toks : List Token)

/-- `set_noreply_maybe` writes `noreply` only. -/
theorem setNoreplyMaybe_eq : setNoreplyMaybe c buf toks = { c with noreply := (setNoreplyMaybe c buf toks).noreply } := by
  unfold setNoreplyMaybe; split
  · split_ifs <;> rfl
  · rfl

theorem setNoreplyMaybe_noreply (hn : c.noreply = false) : (setNoreplyMaybe c buf toks).noreply = noreplyTok buf toks := by
  unfold setNoreplyMaybe noreplyTok; split
  · split_ifs <;> simp_all
  · simp_all

theorem processUpdateCommand_fails (comm : Comm) (h : updateFails buf toks = true) :
    processUpdateCommand c e buf toks comm = outString (setNoreplyMaybe c buf toks) e badFormat := by
  unfold updateFails at h; unfold processUpdateCommand; dsimp only at h ⊢
  split_ifs with h1 h2
  · rfl
  · rfl
  all_goals rw [decide_eq_false h1, Bool.false_or] at h; exact absurd h h2

theorem processArithmeticCommand_eq : processArithmeticCommand c e buf toks = outString (setNoreplyMaybe c buf toks)
    (({ e with stats := { e.stats with setCmds := e.stats.setCmds + 1 } } : Env).writeOpt (incrCall buf toks))
    (incrReply e.store buf toks) := by
  unfold processArithmeticCommand incrReply incrCall; dsimp only
  split_ifs
  · rfl
  · cases safeStrtoull (tokStr buf (tokAt toks 2)) <;> rfl

theorem processDeleteCommand_eq : processDeleteCommand c e buf toks = outString (setNoreplyMaybe c buf toks)
    (({ e with stats := { e.stats with deleteCmds := e.stats.deleteCmds + 1 } } : Env).writeOpt (deleteCall buf toks))
    (deleteReply e.store buf toks) := by
  unfold processDeleteCommand deleteReply deleteCall; dsimp only
  split_ifs <;> rfl

theorem processStat_eq (h : 2 < toks.length) : processStat c e buf toks = outString c
    (if streq (tokStr buf (tokAt toks 1)) "reset" then { e with stats := statsReset e.stats } else e)
    (statReply buf toks) := by
  unfold processStat statReply
  rw [if_neg (by omega), if_neg (fun h' => by omega)]
  split_ifs <;> rfl

theorem processVerbosityCommand_eq :
    processVerbosityCommand c e buf toks = outString (setNoreplyMaybe c buf toks) e (verbosityReply buf toks) := by
  unfold processVerbosityCommand verbosityReply; dsimp only
  split_ifs <;> rfl

theorem processOptimizeStat_eq : processOptimizeStat c e = outString c e (optimizeStatReply e.store) := by
  unfold processOptimizeStat optimizeStatReply; dsimp only
  split_ifs <;> rfl

theorem processFlushAll_eq : processFlushAll c e buf toks =
    match flushReply e.store (setNoreplyMaybe c buf toks).noreply buf toks with
    | some str => outString (setNoreplyMaybe c buf toks) (e.writeOpt (flushCall (setNoreplyMaybe c buf toks).noreply buf toks)) str
    | none => (setNoreplyMaybe c buf toks, e.writeOpt (flushCall (setNoreplyMaybe c buf toks).noreply buf toks)) := by
  unfold processFlushAll flushReply flushCall; dsimp only
  generalize (if (setNoreplyMaybe c buf toks).noreply = true then toks.length - 1 else toks.length) = n
  cases (if 3 ≤ n then safeStrtol (tokStr buf (tokAt toks 1)) else some 10000) with
  | none => rfl
  | some limit =>
    dsimp only
    generalize (if 4 ≤ n then cstr (tokStr buf (tokAt toks 2)) else "@".toList) = tree
    generalize e.store.optimize limit tree = ret
    split_ifs <;> rfl

/-- **The rows that answer at once** hand `out_string` the line `lineReply` gives, with the `noreply` flag the row
reads, from a world the handler changed only by the row's store call and in what no reply reads. -/
theorem dispatch_outString (fuel : Nat) (hn : c.noreply = false) {str : List Char}
    (hr : lineReply e.server e.store ((route e.stopme buf toks).readsNoreply && noreplyTok buf toks) buf toks =
      some str) :
    ∃ c₀ E, dispatch fuel c e buf toks = some (outString c₀ E str) ∧ c₀.msgSide = c.msgSide ∧ c₀.wsize = c.wsize ∧
      c₀.noreply = ((route e.stopme buf toks).readsNoreply && noreplyTok buf toks) ∧ E.server = e.server ∧
      E.store = e.server.apply e.store
        (rowCall e.stopme ((route e.stopme buf toks).readsNoreply && noreplyTok buf toks) buf toks) ∧
      E.outq = e.outq ∧ E.log = e.log := by
  have hs := setNoreplyMaybe_eq c buf toks
  have hsn := setNoreplyMaybe_noreply c buf toks hn
  /- The rows that read `noreply` answer from `set_noreply_maybe`'s connection, the others from `c`. -/
  have reads : ∀ (E : Env) (k : Option StoreCall), E.server = e.server → E.store = e.store → E.outq = e.outq →
      E.log = e.log → ∃ c₀ E', outString (setNoreplyMaybe c buf toks) (E.writeOpt k) str = outString c₀ E' str ∧
        c₀.msgSide = c.msgSide ∧ c₀.wsize = c.wsize ∧ c₀.noreply = (true && noreplyTok buf toks) ∧
        E'.server = e.server ∧ E'.store = e.server.apply e.store k ∧ E'.outq = e.outq ∧ E'.log = e.log :=
    fun E k h1 h2 h3 h4 =>
      have hw := E.writeOpt_quiet k
      ⟨_, _, rfl, by rw [hs]; rfl, by rw [hs], hsn, hw.1.trans h1, by rw [hw.2.1, h1, h2], hw.2.2.1.trans h3,
        hw.2.2.2.trans h4⟩
  have plain : ∀ E : Env, E.server = e.server → E.store = e.store → E.outq = e.outq → E.log = e.log →
      ∃ c₀ E', outString c E str = outString c₀ E' str ∧
        c₀.msgSide = c.msgSide ∧ c₀.wsize = c.wsize ∧ c₀.noreply = (false && noreplyTok buf toks) ∧
        E'.server = e.server ∧ E'.store = e.server.apply e.store none ∧ E'.outq = e.outq ∧ E'.log = e.log :=
    fun E h1 h2 h3 h4 => ⟨c, E, rfl, rfl, rfl, hn, h1, h2, h3, h4⟩
  rw [dispatch_route]
  simp only [lineReply, Env.server] at hr
  simp only [rowCall]
  generalize hrt : route e.stopme buf toks = rt at hr ⊢
  cases rt <;> simp only [Route.readsNoreply, rowHandler, Option.some.injEq, reduceCtorEq] at hr ⊢
  case set | append =>
    split_ifs at hr with hf
    cases hr
    rw [processUpdateCommand_fails c e buf toks _ hf]; exact reads e none rfl rfl rfl rfl
  case incr => subst hr; rw [processArithmeticCommand_eq]; exact reads _ _ rfl rfl rfl rfl
  case delete => subst hr; rw [processDeleteCommand_eq]; exact reads _ _ rfl rfl rfl rfl
  case stats =>
    split_ifs at hr with h2
    cases hr
    rw [processStat_eq c e buf toks h2]
    refine plain _ ?_ ?_ ?_ ?_ <;> split_ifs <;> rfl
  case version => subst hr; exact plain e rfl rfl rfl rfl
  case verbosity => subst hr; rw [processVerbosityCommand_eq]; exact reads e none rfl rfl rfl rfl
  case optimizeStat => subst hr; rw [processOptimizeStat_eq]; exact plain e rfl rfl rfl rfl
  case flushAll =>
    rw [processFlushAll_eq, hsn, ← Bool.true_and (noreplyTok buf toks), hr]; exact reads e _ rfl rfl rfl rfl
  case error => subst hr; exact plain e rfl rfl rfl rfl

end Handlers

/-! ## `process_command` on a line -/

/-- The `noreply` flag `set_noreply_maybe` takes from the command line `line`. -/
def noreplyOf (line : List Char) : Bool :=
  let r := tokenizeCommand (line ++ ['\x00']) 0 maxTokens
  noreplyTok r.1 r.2

/-- `process_command` up to its routing table, every allocation granted: it records the line and opens an empty
message list, and `dispatch` does the rest on the line's tokens. -/
theorem processCommand_opens {fuel : Nat} {c : Conn} {e : Env} {line : List Char} {r : Conn × Env} (hg : e.Grants)
    (hr : processCommand fuel c e line = some r) :
    ∃ c₁ e₁, c₁.Opened ∧ c₁.replyCfg = c.replyCfg ∧ c₁.state = c.state ∧ e₁.ok = true ∧ e₁.server = e.server ∧
      e₁.store = e.store ∧ e₁.outq = e.outq ∧ e₁.log = e.log ++ [.command line] ∧ dispatch fuel c₁ e₁
        (tokenizeCommand (line ++ ['\x00']) 0 maxTokens).1 (tokenizeCommand (line ++ ['\x00']) 0 maxTokens).2 =
          some r := by
  obtain ⟨c₁, hadd, hi₁, hm₁, -⟩ := addMsghdr_grants { c with msgcurr := 0, msgused := 0, iovused := 0 }
    { e with log := e.log ++ [.command line] } hg (Conn.IovOk.reset c)
  obtain ⟨-, -, -, hcur₁, -⟩ := addMsghdr_start hadd
  obtain ⟨hc₁, hu₁, hs₁⟩ := addMsghdr_replyCfg hadd
  have ht₁ := addMsghdr_ticked { c with msgcurr := 0, msgused := 0, iovused := 0 }
    { e with log := e.log ++ [.command line] }
  unfold processCommand at hr; dsimp only at hr
  rw [hadd] at hr
  exact ⟨c₁, _, ⟨hi₁, hu₁, hcur₁, by rw [hm₁]; exact Nat.succ_ne_zero _⟩, hc₁, hs₁,
    ((show Env.Grants { e with log := e.log ++ [.command line] } from hg).ticked ht₁).ok, ht₁.quiet.server,
    ht₁.store_eq, ht₁.outq_eq, congrArg Prod.fst ht₁.input_eq, hr⟩

/-- The item `process_update_command` allocates for the update line `line`: its key, and the flags and the version
its third and fourth tokens give, with room for the body its fifth asks for. -/
def updateItem (line : List Char) : Item :=
  let r := tokenizeCommand (line ++ ['\x00']) 0 maxTokens
  let f := strtoull (tokStr r.1 (tokAt r.2 2))
  let x := strtol (tokStr r.1 (tokAt r.2 3))
  let v := strtol (tokStr r.1 (tokAt r.2 4))
  { itemAlloc1 (tokBytes r.1 (tokAt r.2 1)) (toInt32 f.1) (toInt32 v.1 + 2).toNat with
    ver := toInt32 x.1, flag := toInt32 f.1 }

/-- A connection reading the body of the update line `line`: it holds the item `process_update_command` allocated for
the line, whatever part of the body has come, the store call and the `noreply` flag the line asks for, and the empty
message list of the reply. -/
structure Conn.ReadsBody (line : List Char) (c : Conn) : Prop where
  item    : ∃ h, c.item = some h ∧ h.item = { updateItem line with data := h.item.data }
  comm    : c.itemComm = updateComm line
  noreply : c.noreply = noreplyOf line
  opened  : c.Opened

theorem Conn.ReadsBody.congr {line : List Char} {c c' : Conn} (h : c.ReadsBody line) (hi : c'.item = c.item)
    (hc : c'.itemComm = c.itemComm) (hn : c'.noreply = c.noreply) (hm : c'.msgSide = c.msgSide) : c'.ReadsBody line :=
  ⟨hi ▸ h.item, hc.trans h.comm, hn.trans h.noreply, h.opened.congr hm⟩

/-- Copying body bytes into the item keeps what the connection holds of the line. -/
theorem Conn.ReadsBody.fillItem {line : List Char} {c : Conn} (h : c.ReadsBody line) (b : List Char) :
    (fillItem c b).ReadsBody line := by
  obtain ⟨⟨it, hit, hitem⟩, hc, hn, ho⟩ := h
  refine ⟨⟨{ it with item := { it.item with data := readInto it.item.data c.ritem b } },
    by simp only [Beansdb.fillItem, hit, Option.map_some'], ?_⟩, hc, hn, ho.congr rfl⟩
  dsimp only; rw [hitem]

section Lines

variable {fuel : Nat} {c : Conn} {e : Env} {line : List Char} {r : Conn × Env}

/-- **`process_command` on an update line whose checks pass**, from `conn_read` with `noreply` clear and every
allocation granted: it records the line and enters `conn_nread` reading the body into the line's item, with the
store call and the `noreply` flag the line asks for and an empty reply; it sends nothing and keeps `wbuf`. -/
theorem processCommand_updateLine (hf : commandFrame line ≠ .line) (hn : c.noreply = false) (hg : e.Grants)
    (hr : processCommand fuel c e line = some r) :
    r.1.state = .nread ∧ r.1.ReadsBody line ∧ r.1.wsize = c.wsize ∧ r.2.store = e.store ∧ r.2.outq = e.outq ∧
      r.2.log = e.log ++ [.command line] := by
  obtain ⟨c₁, e₁, ho₁, hc₁, -, hg₁, -, hst₁, hout₁, hlog₁, hr⟩ := processCommand_opens hg hr
  have hu := lineRoute_of_frame hf e₁.stopme
  unfold lineRoute at hu; dsimp only at hu
  rw [dispatch_route, hu, rowHandler_comm] at hr
  cases hr
  unfold commandFrame tokFrame at hf; dsimp only at hf
  generalize hcomm : updateComm line = comm
  generalize htok : tokenizeCommand (line ++ ['\x00']) 0 maxTokens = t at hf ⊢
  have hs₁ := setNoreplyMaybe_eq c₁ t.1 t.2
  have hn₁ := setNoreplyMaybe_noreply c₁ t.1 t.2 ((congrArg Prod.snd hc₁).trans hn)
  split_ifs at hf
  swap; · exact absurd rfl hf
  unfold processUpdateCommand; unfold updateFrame at hf; dsimp only at hf ⊢
  split_ifs at hf ⊢ <;> try exact absurd rfl hf
  rw [connSetState_of_ne_read _ _ (by decide)]
  refine ⟨rfl, ⟨⟨_, rfl, ?_⟩, hcomm.symm, ?_, ho₁.congr (by rw [hs₁]; rfl)⟩, ?_, hst₁, hout₁, hlog₁⟩
  · simp only [updateItem, htok]; rfl
  · simp only [noreplyOf, htok]; exact hn₁
  · exact (congrArg Conn.wsize hs₁).trans (congrArg Prod.fst hc₁)

/-- **`process_command` on a line answered at once**, from `conn_read` with `noreply` clear and every allocation
granted: it records the line and hands `out_string` the line's reply, over an empty message list and with the
`noreply` flag its row reads. -/
theorem processCommand_outString {str : List Char} (hl : lineAnswer e.server e.store line = some str)
    (hn : c.noreply = false) (hg : e.Grants) (hr : processCommand fuel c e line = some r) :
    ∃ c₀ E, r = outString c₀ E str ∧ c₀.Opened ∧ c₀.noreply = lineNoreply e.stopme line ∧ c₀.wsize = c.wsize ∧
      E.server = e.server ∧ E.store = e.server.apply e.store (lineCall e.stopme line) ∧ E.outq = e.outq ∧
      E.log = e.log ++ [.command line] := by
  obtain ⟨c₁, e₁, ho₁, hc₁, -, -, hsv₁, hst₁, hout₁, hlog₁, hr⟩ := processCommand_opens hg hr
  have hst : e₁.stopme = e.stopme := congrArg Server.stopme hsv₁
  obtain ⟨c₀, E, hd, hm, hw, hn₀, hsv, hstore, hout, hlog⟩ :=
    dispatch_outString c₁ e₁ _ _ fuel ((congrArg Prod.snd hc₁).trans hn) (by rw [hsv₁, hst₁, hst]; exact hl)
  rw [hd] at hr
  cases hr
  exact ⟨c₀, E, rfl, ho₁.congr hm, by rw [hn₀, hst]; rfl, hw.trans (congrArg Prod.fst hc₁), hsv.trans hsv₁,
    by rw [hstore, hsv₁, hst₁, hst]; rfl, hout.trans hout₁, hlog.trans hlog₁⟩

/-- **`quit` and `stopme`** answer nothing: `quit` closes, `stopme` stops the server and the connection reads on. -/
theorem processCommand_silent (hq : lineRoute e.stopme line = .quit ∨ lineRoute e.stopme line = .stopme)
    (hn : c.noreply = false) (hg : e.Grants) (hr : processCommand fuel c e line = some r) :
    (r.1.state = .closing ∨ r.1.state = c.state ∧ r.1.noreply = false) ∧ r.1.wsize = c.wsize ∧ r.2.store = e.store ∧
      r.2.outq = e.outq ∧ r.2.log = e.log ++ [.command line] := by
  obtain ⟨c₁, e₁, -, hc₁, hs₁, -, hsv₁, hst₁, hout₁, hlog₁, hr⟩ := processCommand_opens hg hr
  unfold lineRoute at hq; dsimp only at hq
  rw [dispatch_route, show e₁.stopme = e.stopme from congrArg Server.stopme hsv₁] at hr
  rcases hq with hq | hq <;> rw [hq] at hr <;> cases hr
  · have hq' := (connSetState_ticked c₁ e₁ .closing).quiet
    exact ⟨.inl (connSetState_state _ _ _), (connSetState_wsize _ _ _).trans (congrArg Prod.fst hc₁),
      hq'.store.trans hst₁, hq'.outq.trans hout₁, hq'.log.trans hlog₁⟩
  · exact ⟨.inr ⟨hs₁, (congrArg Prod.snd hc₁).trans hn⟩, congrArg Prod.fst hc₁, hst₁, hout₁, hlog₁⟩

end Lines

/-! ## A server answering in order -/

/-- What the socket gets for a reply line: the line `out_string` puts in `wbuf` and `\r\n`, unless the command asked
for `noreply`. -/
def sendLine (noreply : Bool) (str : List Char) : List Char := if noreply then [] else outLine str ++ ['\r', '\n']

/-- The line `complete_nread` answers for the body `d` of the update line `line`, against the store `st`. -/
def bodyReply (st : Store) (line d : List Char) : List Char :=
  if d.drop (d.length - 2) ≠ ['\r', '\n'] then "CLIENT_ERROR bad data chunk".toList
  else
    let ret := storeItem st { updateItem line with data := d } (updateComm line)
    if ret = 1 then "STORED".toList else if ret = 2 then "EXISTS".toList
    else if ret = 3 then "NOT_FOUND".toList else "NOT_STORED".toList

/-- The call `complete_nread` makes to the store for the body `d` of the update line `line`: `store_item`'s, once
the body ends in `\r\n`. -/
def bodyCall (line d : List Char) : Option StoreCall :=
  if d.drop (d.length - 2) ≠ ['\r', '\n'] then none
  else some (itemCall { updateItem line with data := d } (updateComm line))

/-- What a server answering in order sends for the command line `line` against the store `st`: a get's `VALUE`
blocks and `END`, else the line's reply with its `\r\n`, nothing under `noreply` and nothing where the row answers
no line at once. -/
def commandAnswer (w : Server) (st : Store) (line : List Char) : List Char :=
  if lineRoute w.stopme line = .get then getResponse st (words line).tail
  else
    match lineAnswer w st line with
    | some str => sendLine (lineNoreply w.stopme line) str
    | none => []

theorem commandAnswer_get {w : Server} {st : Store} {line : List Char} (hl : GetLine line) :
    commandAnswer w st line = getResponse st (words line).tail := by
  rw [commandAnswer, if_pos (hl.route_get _)]

theorem commandAnswer_some {w : Server} {st : Store} {line str : List Char} (h : lineAnswer w st line = some str) :
    commandAnswer w st line = sendLine (lineNoreply w.stopme line) str := by
  rw [commandAnswer, if_neg, h]
  intro hg
  unfold lineAnswer lineReply at h; unfold lineRoute at hg; dsimp only at h hg
  simp only [hg, reduceCtorEq] at h

theorem commandAnswer_silent {w : Server} {st : Store} {line : List Char}
    (h : lineRoute w.stopme line = .quit ∨ lineRoute w.stopme line = .stopme) : commandAnswer w st line = [] := by
  rw [commandAnswer, if_neg (by rcases h with h | h <;> rw [h] <;> decide)]
  unfold lineAnswer lineReply; unfold lineRoute at h; dsimp only at h ⊢
  rcases h with h | h <;> rw [h]

/-- An update line that reads a body is answered with the body. -/
theorem commandAnswer_body {w : Server} {st : Store} {line : List Char} (hf : commandFrame line ≠ .line) :
    commandAnswer w st line = [] := by
  have hu := lineRoute_of_frame hf w.stopme
  have hfail := updateFails_of_frame hf
  unfold lineRoute at hu; unfold commandAnswer lineAnswer lineReply lineRoute; dsimp only at hu ⊢
  rw [hu]
  cases updateComm line <;> simp only [Comm.route, hfail, reduceCtorEq, if_false, Bool.false_eq_true]

/-- The rows that do not write the store: a get, an update line (its body does), `quit` and `stopme`. -/
theorem lineCall_eq_none {stopme : Bool} {line : List Char}
    (h : lineRoute stopme line = .get ∨ commandFrame line ≠ .line ∨ lineRoute stopme line = .quit ∨
      lineRoute stopme line = .stopme) : lineCall stopme line = none := by
  have hr : lineRoute stopme line = .get ∨ lineRoute stopme line = .set ∨ lineRoute stopme line = .append ∨
      lineRoute stopme line = .quit ∨ lineRoute stopme line = .stopme := by
    rcases h with h | hf | h
    · exact .inl h
    · rw [lineRoute_of_frame hf]; cases updateComm line
      exacts [.inr (.inl rfl), .inr (.inr (.inl rfl))]
    · exact .inr (.inr (.inr h))
  unfold lineCall rowCall; unfold lineRoute at hr; dsimp only at hr ⊢
  rcases hr with h | h | h | h | h <;> rw [h]

/-- Where a server answering in order stands once the event is answered, from its store and the last command line
before it: a line's call moves the store, a body's too. -/
def Event.next (w : Server) (p : Store × List Char) : Event → Store × List Char
  | .command line => (w.apply p.1 (lineCall w.stopme line), line)
  | .body d => (w.apply p.1 (bodyCall p.2 d), p.2)
  | .swallow _ => p

/-- Where the server stands after the events `evs`. -/
def afterEvents (w : Server) (p : Store × List Char) (evs : List Event) : Store × List Char := evs.foldl (Event.next w) p

theorem afterEvents_snoc (w : Server) (p : Store × List Char) (evs : List Event) (ev : Event) :
    afterEvents w p (evs ++ [ev]) = ev.next w (afterEvents w p evs) := by
  simp only [afterEvents, List.foldl_append, List.foldl_cons, List.foldl_nil]

/-- What a server answering in order sends for an event, from where it stands: the answer to a command line, and for
a body the reply to its update line. -/
def Event.answer (w : Server) (p : Store × List Char) : Event → List Char
  | .command line => commandAnswer w p.1 line
  | .body d => sendLine (noreplyOf p.2) (bodyReply p.1 p.2 d)
  | .swallow _ => []

/-- What the server has sent once the events `evs` were dispatched, from where it stood before them. -/
def replies (w : Server) (p : Store × List Char) : List Event → List Char
  | [] => []
  | ev :: evs => ev.answer w p ++ replies w (ev.next w p) evs

theorem replies_append (w : Server) (a b : List Event) :
    ∀ p, replies w p (a ++ b) = replies w p a ++ replies w (afterEvents w p a) b := by
  induction a with
  | nil => intro p; rfl
  | cons ev a ih => intro p; rw [List.cons_append, replies, replies, ih, List.append_assoc]; rfl

theorem replies_snoc (w : Server) (p : Store × List Char) (evs : List Event) (ev : Event) :
    replies w p (evs ++ [ev]) = replies w p evs ++ ev.answer w (afterEvents w p evs) := by
  rw [replies_append, replies, replies, List.append_nil]

theorem replies_mono (w : Server) (p : Store × List Char) {a b : List Event} (h : a <+: b) :
    replies w p a <+: replies w p b := by
  obtain ⟨t, rfl⟩ := h
  rw [replies_append]; exact List.prefix_append _ _

/-- The server answers the event as a function of the events before it, against the store `st`: a get of keys of at
most `MAX_KEY_LEN` bytes, an update that reads a body, a line with a reply at once, `quit` or `stopme`, or what
follows a line. -/
def Event.Served (w : Server) (st : Store) : Event → Prop
  | .command line => GetLine line ∨ commandFrame line ≠ .line ∨ (lineAnswer w st line).isSome ∨
      lineRoute w.stopme line = .quit ∨ lineRoute w.stopme line = .stopme
  | _ => True

instance (w : Server) (st : Store) : DecidablePred (Event.Served w st)
  | .command line => inferInstanceAs (Decidable (GetLine line ∨ commandFrame line ≠ .line ∨
      (lineAnswer w st line).isSome ∨ lineRoute w.stopme line = .quit ∨ lineRoute w.stopme line = .stopme))
  | .body _ => isTrue trivial
  | .swallow _ => isTrue trivial

/-- Events the server answers one after the other, each against the store the events before it left. -/
def ServedEvents (w : Server) : Store × List Char → List Event → Prop
  | _, [] => True
  | p, ev :: evs => ev.Served w p.1 ∧ ServedEvents w (ev.next w p) evs

instance decServedEvents (w : Server) : ∀ (p : Store × List Char) (evs : List Event), Decidable (ServedEvents w p evs)
  | _, [] => isTrue trivial
  | p, ev :: evs =>
    have := decServedEvents w (ev.next w p) evs
    inferInstanceAs (Decidable (ev.Served w p.1 ∧ ServedEvents w (ev.next w p) evs))

theorem ServedEvents.served {w : Server} {ev : Event} {b : List Event} :
    ∀ {p : Store × List Char} {a : List Event}, ServedEvents w p (a ++ ev :: b) → ev.Served w (afterEvents w p a).1
  | _, [], h => h.1
  | p, x :: a, h => @ServedEvents.served w ev b (x.next w p) a h.2

/-- A stream whose command lines the server `w` answers as a function of the stream, from the store `st`. -/
def ServedStream (w : Server) (st : Store) (s : List Char) : Prop := ServedEvents w (st, []) (cutStream commandFrame s).events

instance (w : Server) (st : Store) (s : List Char) : Decidable (ServedStream w st s) :=
  inferInstanceAs (Decidable (ServedEvents _ _ _))

/-! ## A connection answering in order -/

/-- Where `conn_write` stands with the line `out` still to send: in `wbuf`, over an empty message list, or queued. -/
def Conn.WritesOut (c : Conn) (out : List Char) : Prop :=
  (c.Opened ∧ 0 < c.wbytes ∧ c.wbytes ≤ c.wcurr.length ∧ c.wcurr.take c.wbytes = out) ∨
    (c.iovused ≠ 0 ∧ c.TxOk ∧ c.unsent = out)

theorem Conn.WritesOut.congr {c c' : Conn} {out : List Char} (h : c.WritesOut out) (hm : c'.msgSide = c.msgSide)
    (hw : c'.wcurr = c.wcurr) (hb : c'.wbytes = c.wbytes) : c'.WritesOut out := by
  rcases h with ⟨ho, hpos, hle, ht⟩ | ⟨hu, htx, hun⟩
  · exact .inl ⟨ho.congr hm, hb ▸ hpos, by rw [hb, hw]; exact hle, by rw [hb, hw]; exact ht⟩
  · obtain ⟨htx', hun'⟩ := htx.congr hm
    exact .inr ⟨fun h0 => hu ((congrArg (fun x => x.2.2.2.2) hm).symm.trans h0), htx', hun'.trans hun⟩

/-- Where a connection stands with its output against the server `w` answering in order from the store `st`: it
reads a line or a body, sends a reply or closes, and `wbuf` keeps its size; the store is where the events dispatched
left it; the connection has sent a prefix of the answers to those events, all of them in `conn_read` and
`conn_nread`, and in `conn_write` and `conn_mwrite` the reply it still has to send is the rest; `noreply` is clear
but while a body is read. -/
structure Conn.Answering (w : Server) (st : Store) (c : Conn) (e : Env) : Prop where
  server : e.server = w
  store  : e.store = (afterEvents w (st, []) e.log).1
  wsize  : c.wsize = dataBufferSize
  state  : c.state = .read ∨ c.state = .nread ∨ c.state = .write ∨ c.state = .mwrite ∨ c.state = .closing
  sent   : e.outq <+: replies w (st, []) e.log
  read   : c.state = .read → c.noreply = false ∧ e.outq = replies w (st, []) e.log
  nread  : c.state = .nread → c.ReadsBody (afterEvents w (st, []) e.log).2 ∧ e.outq = replies w (st, []) e.log
  write  : c.state = .write → c.noreply = false ∧ c.writeAndGo = .read ∧
    ∃ out, c.WritesOut out ∧ e.outq ++ out = replies w (st, []) e.log
  mwrite : c.state = .mwrite → c.noreply = false ∧ c.TxOk ∧ e.outq ++ c.unsent = replies w (st, []) e.log

/-- The fields of a connection that `Conn.Answering` reads besides the message list and the item. -/
def Conn.answerSide (c : Conn) : ConnState × Nat × Bool × ConnState × List Char × Nat :=
  (c.state, c.wsize, c.noreply, c.writeAndGo, c.wcurr, c.wbytes)

section Answer

variable {s : List Char} {w : Server} {st : Store} {c : Conn} {e : Env}

/-- A connection and a world that agree with answering ones on what answering reads answer as well. -/
theorem Conn.Answering.congr {c' : Conn} {e' : Env} (h : c.Answering w st e) (hc : c'.answerSide = c.answerSide)
    (hm : c'.msgSide = c.msgSide) (hi : c.state = .nread → c'.item = c.item ∧ c'.itemComm = c.itemComm)
    (he : e.Quiet e') : c'.Answering w st e' := by
  simp only [Conn.answerSide, Prod.mk.injEq] at hc
  obtain ⟨hs, hw, hn, hg, hwc, hwb⟩ := hc
  have hl := he.log
  have ho := he.outq
  refine ⟨he.server.trans h.server, by rw [he.store, hl]; exact h.store, hw.trans h.wsize, hs ▸ h.state,
    by rw [ho, hl]; exact h.sent, fun h' => ?_, fun h' => ?_, fun h' => ?_, fun h' => ?_⟩
  · obtain ⟨h1, h2⟩ := h.read (hs.symm.trans h')
    exact ⟨hn.trans h1, by rw [ho, hl]; exact h2⟩
  · obtain ⟨h1, h2⟩ := h.nread (hs.symm.trans h')
    obtain ⟨hi1, hi2⟩ := hi (hs.symm.trans h')
    exact ⟨by rw [hl]; exact h1.congr hi1 hi2 hn hm, by rw [ho, hl]; exact h2⟩
  · obtain ⟨h1, h2, out, h3, h4⟩ := h.write (hs.symm.trans h')
    exact ⟨hn.trans h1, hg.trans h2, out, h3.congr hm hwc hwb, by rw [ho, hl]; exact h4⟩
  · obtain ⟨h1, h2, h3⟩ := h.mwrite (hs.symm.trans h')
    obtain ⟨htx, hun⟩ := h2.congr hm
    exact ⟨hn.trans h1, htx, by rw [ho, hl, hun]; exact h3⟩

section Enter

variable (hsv : e.server = w) (hst : e.store = (afterEvents w (st, []) e.log).1) (hw : c.wsize = dataBufferSize)
include hsv hst hw

theorem Conn.Answering.of_read (hs : c.state = .read) (hn : c.noreply = false) (ho : e.outq = replies w (st, []) e.log) :
    c.Answering w st e :=
  ⟨hsv, hst, hw, .inl hs, ho ▸ List.prefix_refl _, fun _ => ⟨hn, ho⟩, fun h => absurd (hs.symm.trans h) (by decide),
    fun h => absurd (hs.symm.trans h) (by decide), fun h => absurd (hs.symm.trans h) (by decide)⟩

theorem Conn.Answering.of_nread (hs : c.state = .nread) (hb : c.ReadsBody (afterEvents w (st, []) e.log).2)
    (ho : e.outq = replies w (st, []) e.log) : c.Answering w st e :=
  ⟨hsv, hst, hw, .inr (.inl hs), ho ▸ List.prefix_refl _, fun h => absurd (hs.symm.trans h) (by decide),
    fun _ => ⟨hb, ho⟩, fun h => absurd (hs.symm.trans h) (by decide), fun h => absurd (hs.symm.trans h) (by decide)⟩

theorem Conn.Answering.of_write (hs : c.state = .write) (hn : c.noreply = false) (hg : c.writeAndGo = .read)
    {out : List Char} (hout : c.WritesOut out) (ho : e.outq ++ out = replies w (st, []) e.log) : c.Answering w st e :=
  ⟨hsv, hst, hw, .inr (.inr (.inl hs)), ho ▸ List.prefix_append _ _, fun h => absurd (hs.symm.trans h) (by decide),
    fun h => absurd (hs.symm.trans h) (by decide), fun _ => ⟨hn, hg, out, hout, ho⟩,
    fun h => absurd (hs.symm.trans h) (by decide)⟩

theorem Conn.Answering.of_mwrite (hs : c.state = .mwrite) (hn : c.noreply = false) (ht : c.TxOk)
    (ho : e.outq ++ c.unsent = replies w (st, []) e.log) : c.Answering w st e :=
  ⟨hsv, hst, hw, .inr (.inr (.inr (.inl hs))), ho ▸ List.prefix_append _ _,
    fun h => absurd (hs.symm.trans h) (by decide), fun h => absurd (hs.symm.trans h) (by decide),
    fun h => absurd (hs.symm.trans h) (by decide), fun _ => ⟨hn, ht, ho⟩⟩

theorem Conn.Answering.of_closing (hs : c.state = .closing) (ho : e.outq <+: replies w (st, []) e.log) :
    c.Answering w st e :=
  ⟨hsv, hst, hw, .inr (.inr (.inr (.inr hs))), ho, fun h => absurd (hs.symm.trans h) (by decide),
    fun h => absurd (hs.symm.trans h) (by decide), fun h => absurd (hs.symm.trans h) (by decide),
    fun h => absurd (hs.symm.trans h) (by decide)⟩

end Enter

/-- **`out_string` over an empty message list** puts the reply line in `wbuf` for `conn_write`, or, under `noreply`,
answers nothing and goes back to `conn_read`. -/
theorem Conn.Answering.of_outString {E : Env} {str : List Char} (hsv : E.server = w)
    (hst : E.store = (afterEvents w (st, []) E.log).1) (ho : c.Opened) (hw : c.wsize = dataBufferSize)
    (hans : replies w (st, []) E.log = E.outq ++ sendLine c.noreply str) :
    (outString c E str).1.Answering w st (outString c E str).2 := by
  cases hn : c.noreply
  · simp only [hn, sendLine, Bool.false_eq_true, if_false] at hans
    rw [outString_write E str hn hw]
    exact .of_write hsv hst hw rfl hn rfl (.inl ⟨ho.congr rfl, by simp, by simp, List.take_of_length_le (by simp)⟩)
      hans.symm
  · obtain ⟨hn', hs, -⟩ := outString_noreply c E str hn
    have hq := (outString_ticked c E str).quiet
    simp only [hn, sendLine, if_true, List.append_nil] at hans
    exact .of_read (hq.server.trans hsv) (by rw [hq.store, hq.log]; exact hst)
      ((outString_wsize c E str).trans hw) hs hn' (by rw [hq.outq, hq.log, hans])

/-- **`conn_read`** takes a line and enters the state its row leads to with the line's answer to send (a get's in the
message list, a reply line in `wbuf`), or reads the body of an update, or closes on `quit`; or it reads the socket. -/
theorem Conn.Answering.readStep (hg : ServedStream w st s) (ho : c.OnStream s e) (h : c.Answering w st e)
    (hs : c.state = .read) {fuel : Nat} {r : Conn × Env × Next} (hr : stepRead fuel c e = some r) :
    r.1.Answering w st r.2.1 := by
  obtain ⟨hn, hsent⟩ := h.read hs
  have hsv := h.server
  subst hsv
  unfold stepRead at hr
  split at hr
  · next o hc =>
    cases o with
    | none => cases hr
    | some r₀ =>
      cases hr
      have hon := ho.commandStep hs hc
      obtain ⟨line, n, r₁, h₁, rfl⟩ := tryReadCommand_some hc
      have hg' : e.Grants := fun k _ => ho.grants k
      obtain ⟨hlog, hsv₁, -⟩ := processCommand_quiet h₁
      have hnext : afterEvents e.server (st, []) (e.log ++ [.command line]) =
          (e.server.apply e.store (lineCall e.stopme line), line) := by
        rw [afterEvents_snoc, h.store]; rfl
      have hans : replies e.server (st, []) (e.log ++ [.command line]) =
          replies e.server (st, []) e.log ++ commandAnswer e.server e.store line := by
        rw [replies_snoc, h.store]; rfl
      have hserv : (Event.command line).Served e.server e.store := by
        obtain ⟨t, ht⟩ := hon.dispatched
        rw [hlog, List.append_assoc, List.singleton_append] at ht
        rw [h.store]
        exact @ServedEvents.served e.server (.command line) t (st, []) e.log (by rw [ht]; exact hg)
      rcases hserv with hl | hf | hk | hq
      · obtain ⟨hm, htx, hun, hout, hst₁, -⟩ := processCommand_getLine hl hs hg' h₁
        have hcfg := processCommand_getLine_replyCfg hl hn h₁
        obtain ⟨htx', hun'⟩ : ({ r₁.1 with rbytes := r₁.1.rbytes - n, rcurr := r₁.1.rcurr + n } : Conn).TxOk ∧
          ({ r₁.1 with rbytes := r₁.1.rbytes - n, rcurr := r₁.1.rcurr + n } : Conn).unsent = r₁.1.unsent := htx.congr rfl
        refine .of_mwrite hsv₁ ?_ ((congrArg Prod.fst hcfg).trans h.wsize) hm ((congrArg Prod.snd hcfg).trans hn) htx' ?_
        · rw [hlog, hnext, lineCall_eq_none (.inl (hl.route_get _))]; exact hst₁
        · rw [hun', hout, hun, hlog, hans, ← hsent, commandAnswer_get hl]
      · obtain ⟨hst, hb, hw, hst₁, hout, -⟩ := processCommand_updateLine hf hn hg' h₁
        refine .of_nread hsv₁ ?_ (hw.trans h.wsize) hst ?_ ?_
        · rw [hlog, hnext, lineCall_eq_none (.inr (.inl hf))]; exact hst₁
        · rw [hlog, hnext]; exact hb.congr rfl rfl rfl rfl
        · show r₁.2.outq = _
          rw [hout, hlog, hans, ← hsent, commandAnswer_body hf, List.append_nil]
      · obtain ⟨str, hstr⟩ := Option.isSome_iff_exists.1 hk
        obtain ⟨c₀, E, rfl, ho₀, hn₀, hw₀, hsv₀, hst₀, hout₀, hlog₀⟩ := processCommand_outString hstr hn hg' h₁
        refine (Conn.Answering.of_outString hsv₀ ?_ ho₀ (hw₀.trans h.wsize) ?_).congr rfl rfl (fun _ => ⟨rfl, rfl⟩) rfl
        · rw [hlog₀, hnext, hst₀]
        · rw [hlog₀, hans, hout₀, ← hsent, hn₀]
          exact congrArg _ (commandAnswer_some hstr)
      · have hq₀ : lineRoute e.stopme line = .quit ∨ lineRoute e.stopme line = .stopme := hq
        obtain ⟨hst, hw, hst₁, hout, -⟩ := processCommand_silent hq₀ hn hg' h₁
        have hst' : r₁.2.store = (afterEvents e.server (st, []) r₁.2.log).1 := by
          rw [hlog, hnext, lineCall_eq_none (.inr (.inr hq₀))]; exact hst₁
        have hq' : e.outq = replies e.server (st, []) r₁.2.log := by
          rw [hlog, hans, commandAnswer_silent hq, List.append_nil, hsent]
        rcases hst with hc | ⟨hrd, hn'⟩
        · exact .of_closing hsv₁ hst' (hw.trans h.wsize) hc (by rw [hout, ← hq'])
        · exact .of_read hsv₁ hst' (hw.trans h.wsize) (hrd.trans hs) hn' (by rw [hout, hq'])
  · cases hr
    obtain ⟨-, hl, -, -, hst⟩ := tryReadNetwork_refills c e ho.grants ho.rbuf
    have hq := tryReadNetwork_reads c e
    have hcfg := tryReadNetwork_replyCfg c e hn
    have hw := (congrArg Prod.fst hcfg).trans h.wsize
    have hsto : (tryReadNetwork c e).2.1.store = (afterEvents e.server (st, []) (tryReadNetwork c e).2.1.log).1 := by
      rw [hq.store, hq.log]; exact h.store
    rcases hst with hc | ⟨hs', -⟩
    · exact .of_closing hq.counted.server hsto hw hc (by rw [hq.outq, hl]; exact h.sent)
    · exact .of_read hq.counted.server hsto hw (hs'.trans hs) ((congrArg Prod.snd hcfg).trans hn)
        (by rw [hq.outq, hl]; exact hsent)

/-- `complete_nread`'s `out_string`, the item dropped and released after it. -/
theorem Conn.Answering.of_outString_free {E : Env} {str : List Char} (it : Held) (hsv : E.server = w)
    (hst : E.store = (afterEvents w (st, []) E.log).1) (ho : c.Opened) (hw : c.wsize = dataBufferSize)
    (hans : replies w (st, []) E.log = E.outq ++ sendLine c.noreply str) :
    ({ (outString c E str).1 with item := none } : Conn).Answering w st ((outString c E str).2.free it) :=
  (Conn.Answering.of_outString hsv hst ho hw hans).congr rfl rfl
    (fun h => by rcases outString_state c E str with h' | h' <;> rw [h'] at h <;> cases h)
    ((outString c E str).2.free_quiet it)

/-- **`complete_nread`** stores the whole body and answers it with `out_string`. -/
theorem Conn.Answering.completeStep (h : c.Answering w st e) (hs : c.state = .nread) :
    (completeNread c e).1.Answering w st (completeNread c e).2 := by
  obtain ⟨hb, hsent⟩ := h.nread hs
  obtain ⟨it, hit, hitem⟩ := hb.item
  have hsv := h.server
  subst hsv
  unfold completeNread; rw [hit]; dsimp only
  have hnext : afterEvents e.server (st, []) (e.log ++ [.body it.item.data]) =
      (e.server.apply e.store (bodyCall (afterEvents e.server (st, []) e.log).2 it.item.data),
        (afterEvents e.server (st, []) e.log).2) := by
    rw [afterEvents_snoc, h.store]; rfl
  have hans : replies e.server (st, []) (e.log ++ [.body it.item.data]) = e.outq ++
      sendLine c.noreply (bodyReply e.store (afterEvents e.server (st, []) e.log).2 it.item.data) := by
    rw [replies_snoc, ← hsent, hb.noreply, h.store]; rfl
  split
  · next hbad =>
    refine .of_outString_free it rfl ?_ hb.opened h.wsize ?_
    · show e.store = (afterEvents e.server (st, []) (e.log ++ [.body it.item.data])).1
      rw [hnext, bodyCall, if_pos hbad]; rfl
    · show replies e.server (st, []) (e.log ++ [.body it.item.data]) = e.outq ++ _
      rw [hans, bodyReply, if_pos hbad]
  · next hbad =>
    refine .of_outString_free it rfl ?_ hb.opened h.wsize ?_
    · show e.update e.store (itemCall it.item c.itemComm) = (afterEvents e.server (st, []) (e.log ++ [.body it.item.data])).1
      rw [hnext, bodyCall, if_neg hbad, ← hitem, ← hb.comm]; rfl
    · show replies e.server (st, []) (e.log ++ [.body it.item.data]) = e.outq ++ _
      rw [hans, bodyReply, if_neg hbad, ← hitem, ← hb.comm]

/-- **`conn_nread`** copies body bytes into the item, or reads the socket, or closes; once the body is whole,
`complete_nread` answers it. -/
theorem Conn.Answering.nreadStep (h : c.Answering w st e) (hs : c.state = .nread) :
    (stepNread c e).1.Answering w st (stepNread c e).2.1 := by
  obtain ⟨hb, hsent⟩ := h.nread hs
  unfold stepNread
  split_ifs with h0 h1
  · exact h.completeStep hs
  · exact .of_nread h.server h.store h.wsize hs ((hb.fillItem _).congr rfl rfl rfl rfl) hsent
  · split
    · next e' b hrd =>
      have hq := Env.read_reads hrd
      exact .of_nread (hq.counted.server.trans h.server) (by rw [hq.store, hq.log]; exact h.store) h.wsize hs
        (by rw [hq.log]; exact hb.fillItem b) (by rw [hq.outq, hq.log]; exact hsent)
    · next e' hrd =>
      have hq := Env.read_reads hrd
      exact .of_nread (hq.counted.server.trans h.server) (by rw [hq.store, hq.log]; exact h.store) h.wsize hs
        (by rw [hq.log]; exact hb) (by rw [hq.outq, hq.log]; exact hsent)
    · next e' o _ _ hrd =>
      have hq := Env.read_reads hrd
      have hq' := (connSetState_ticked c e' .closing).quiet
      exact .of_closing (hq'.server.trans (hq.counted.server.trans h.server))
        (by rw [hq'.store, hq'.log, hq.store, hq.log]; exact h.store) ((connSetState_wsize _ _ _).trans h.wsize)
        (connSetState_state _ _ _) (by rw [hq'.outq, hq'.log, hq.outq, hq.log]; exact h.sent)

/-- With its reply queued, `conn_write` sends a prefix of it, or gets back to `conn_read` with all of it sent, or
closes having sent nothing more. -/
theorem stepTransmit_write {c : Conn} (h : c.TxOk) (hs : c.state = .write) (hw : c.writeAndGo = .read) (e : Env) :
    ((stepTransmit c e).1.state = .read ∧ c.unsent = [] ∧ (stepTransmit c e).2.1.outq = e.outq) ∨
    ((stepTransmit c e).1.state = .write ∧ (stepTransmit c e).1.TxOk ∧ (stepTransmit c e).1.iovused = c.iovused ∧
      (stepTransmit c e).1.writeAndGo = .read ∧
      (stepTransmit c e).2.1.outq ++ (stepTransmit c e).1.unsent = e.outq ++ c.unsent) ∨
    ((stepTransmit c e).1.state = .closing ∧ (stepTransmit c e).2.1.outq = e.outq) := by
  have hk := transmit_keeps c e
  unfold stepTransmit; dsimp only
  rcases transmit_tx h e with ⟨hc, hu, hst, ho⟩ | ⟨hr, hst, h2, ho⟩ | ⟨hr, hst⟩
  · rw [hc]; dsimp only
    rw [if_neg (by rw [hst, hs]; decide), if_pos (hst.trans hs), hk.2.2, hw]
    exact .inl ⟨connSetState_state _ _ _, hu, by rw [(connSetState_ticked _ _ _).outq_eq, ho]⟩
  · rcases hr with hr | hr <;> rw [hr] <;> exact .inr (.inl ⟨hst.trans hs, h2, hk.2.1, hk.2.2.trans hw, ho⟩)
  · rw [hr]; exact .inr (.inr ⟨hst, transmit_outq_of_closing (by rw [hs]; decide) hst⟩)

/-- `conn_write` sending the queued reply line. -/
theorem Conn.Answering.of_sending (hsv : e.server = w) (hst : e.store = (afterEvents w (st, []) e.log).1)
    (hwz : c.wsize = dataBufferSize) (hs : c.state = .write) (hn : c.noreply = false) (hw : c.writeAndGo = .read)
    (hu : c.iovused ≠ 0) (htx : c.TxOk) (heq : e.outq ++ c.unsent = replies w (st, []) e.log) :
    (stepTransmit c e).1.Answering w st (stepTransmit c e).2.1 := by
  obtain ⟨hl, hsto, hc⟩ := stepTransmit_counted c e
  have hcfg := stepTransmit_replyCfg c e
  have hsv' := hc.server.trans hsv
  have hst' : (stepTransmit c e).2.1.store = (afterEvents w (st, []) (stepTransmit c e).2.1.log).1 := by
    rw [hsto, hl]; exact hst
  have hwz' := (congrArg Prod.fst hcfg).trans hwz
  have hn' := (congrArg Prod.snd hcfg).trans hn
  rcases stepTransmit_write htx hs hw e with ⟨hr, hu0, ho⟩ | ⟨hm, ht', hu', hw', ho⟩ | ⟨hc', ho⟩
  · exact .of_read hsv' hst' hwz' hr hn' (by rw [ho, hl, ← heq, hu0, List.append_nil])
  · exact .of_write hsv' hst' hwz' hm hn' hw' (.inr ⟨hu'.symm ▸ hu, ht', rfl⟩) (by rw [ho, hl, heq])
  · exact .of_closing hsv' hst' hwz' hc' (by rw [ho, hl]; exact heq ▸ List.prefix_append _ _)

/-- **`conn_write`** queues the reply line of `wbuf` and sends a prefix of it, or gets back to `conn_read` with all of
it sent, or closes having sent nothing more. -/
theorem Conn.Answering.writeStep (hg : e.Grants) (h : c.Answering w st e) (hs : c.state = .write) :
    (stepWrite c e).1.Answering w st (stepWrite c e).2.1 := by
  obtain ⟨hn, hw, out, hout, heq⟩ := h.write hs
  rcases hout with ⟨ho, hpos, hle, htake⟩ | ⟨hu, htx, hun⟩
  · obtain ⟨hok, hi, -, hp⟩ := addIov_pending c.wcurr c.wbytes none ho.iovOk ho.msgused hg hle
    have hcfg := addIov_replyCfg c e c.wcurr c.wbytes none
    obtain ⟨ht, hrs⟩ := addIov_frame c e c.wcurr c.wbytes none
    obtain ⟨htx, hun⟩ := hi.txOk ((addIov_msgcurr _ _ _ _ _).trans ho.msgcurr)
    have hpend : (addIov c e c.wcurr c.wbytes none).1.pending = out := by
      rw [hp, htake, show c.pending = [] by simp [Conn.pending, ho.iovused], List.nil_append]
    have hne : out ≠ [] := htake ▸ List.ne_nil_of_length_pos (by rw [List.length_take]; omega)
    unfold stepWrite; rw [if_pos ho.iovused]; dsimp only; rw [if_pos hok]
    refine .of_sending (ht.quiet.server.trans h.server) (by rw [ht.store_eq, ht.quiet.log]; exact h.store)
      ((congrArg Prod.fst hcfg).trans h.wsize) ((Conn.state_eq_of_readSide hrs).trans hs)
      ((congrArg Prod.snd hcfg).trans hn) ((congrArg (fun x => x.2.2.2.2.2.2) hrs).trans hw) (fun h0 => hne ?_) htx
      (by rw [ht.outq_eq, hun, hpend, heq, ht.quiet.log])
    rw [← hpend, Conn.pending, h0, List.take_zero, List.flatMap_nil]
  · rw [stepWrite_of_iovused c e hu]
    exact .of_sending h.server h.store h.wsize hs hn hw hu htx (hun ▸ heq)

/-- **`conn_mwrite`** sends a prefix of the reply it holds, or gets back to `conn_read` with all of it sent, or
closes having sent nothing more. -/
theorem Conn.Answering.mwriteStep (h : c.Answering w st e) (hs : c.state = .mwrite) :
    (stepTransmit c e).1.Answering w st (stepTransmit c e).2.1 := by
  obtain ⟨hn, htx, heq⟩ := h.mwrite hs
  obtain ⟨hl, hsto, hc⟩ := stepTransmit_counted c e
  have hcfg := stepTransmit_replyCfg c e
  have hsv := hc.server.trans h.server
  have hst : (stepTransmit c e).2.1.store = (afterEvents w (st, []) (stepTransmit c e).2.1.log).1 := by
    rw [hsto, hl]; exact h.store
  have hw := (congrArg Prod.fst hcfg).trans h.wsize
  have hn' := (congrArg Prod.snd hcfg).trans hn
  rcases stepTransmit_tx htx hs e with ⟨hr, hu, ho⟩ | ⟨hm, ht', ho⟩ | hc'
  · exact .of_read hsv hst hw hr hn' (by rw [ho, hl, ← heq, hu, List.append_nil])
  · exact .of_mwrite hsv hst hw hm hn' ht' (by rw [ho, hl, heq])
  · exact .of_closing hsv hst hw hc' (by rw [stepTransmit_outq_of_closing htx hs e hc', hl]; exact h.sent)

/-- **`conn_closing`**: `conn_cleanup` sends nothing. -/
theorem Conn.Answering.closingStep (h : c.Answering w st e) (hs : c.state = .closing) :
    (connCleanup c e).1.Answering w st (connCleanup c e).2 := by
  have hq := connCleanup_quiet c e
  exact .of_closing (hq.server.trans h.server) (by rw [hq.store, hq.log]; exact h.store) h.wsize hs
    (by rw [hq.outq, hq.log]; exact h.sent)

/-- **One pass of `drive_machine` on a served stream keeps the output in line with the answers.** -/
theorem Conn.Answering.step (hg : ServedStream w st s) (ho : c.OnStream s e) (h : c.Answering w st e) {fuel : Nat}
    {r : Conn × Env × Next} (hr : driveStep fuel c e = some r) : r.1.Answering w st r.2.1 := by
  rcases h.state with hs | hs | hs | hs | hs
  · simp only [driveStep, hs] at hr
    exact h.readStep hg ho hs hr
  · simp only [driveStep, hs, Option.some.injEq] at hr
    subst hr; exact h.nreadStep hs
  · simp only [driveStep, hs, Option.some.injEq] at hr
    subst hr; exact h.writeStep (fun k _ => ho.grants k) hs
  · rw [driveStep_mwrite fuel e hs] at hr
    cases hr; exact h.mwriteStep hs
  · simp only [driveStep, hs, Option.some.injEq] at hr
    subst hr; exact h.closingStep hs

end Answer

/-- The states of a connection of the server `w` answering a client that sends the stream `s`, from the store `st`:
a connection as `conn_new` sets it up, in `conn_read` with nothing read, dispatched or sent, then pass after pass of
`drive_machine` that meets no undefined behaviour, whatever the `read`s and the `sendmsg`s return. -/
inductive AnswerRun (w : Server) (st : Store) (s : List Char) : Conn → Env → Prop
  | init {c : Conn} {e : Env} : c.state = .read → c.rbytes = 0 → c.RbufOk → c.wsize = dataBufferSize →
      c.noreply = false → e.server = w → e.store = st → e.inq = s → e.log = [] → e.swallowed = [] →
      (∀ n, e.allocs n = true) → e.outq = [] → e.fault = false → AnswerRun w st s c e
  | step {c : Conn} {e : Env} (fuel : Nat) {r : Conn × Env × Next} :
      AnswerRun w st s c e → driveStep fuel c e = some r → r.2.1.fault = false → AnswerRun w st s r.1 r.2.1

section Run

variable {w : Server} {st : Store} {s : List Char} {c : Conn} {e : Env}

theorem AnswerRun.streamRun (h : AnswerRun w st s c e) : StreamRun s c e := by
  induction h with
  | init hs h0 hrb _ _ _ _ hq hl hw hg _ hf => exact .init hs h0 hrb hq hl hw hg hf
  | step fuel _ hr hf ih => exact .step fuel ih hr hf

theorem AnswerRun.answering (hg : ServedStream w st s) (h : AnswerRun w st s c e) : c.Answering w st e := by
  induction h with
  | init hs _ _ hw hn hsv hst _ hl _ _ ho _ => exact .of_read hsv (by rw [hst, hl]; rfl) hw hs hn (by rw [ho, hl]; rfl)
  | step fuel h₀ hr _ ih => exact ih.step hg h₀.streamRun.onStream hr

/-- A call of `drive_machine` that returns with no undefined behaviour met made passes of the run. -/
theorem AnswerRun.driveMachine (fuel : Nat) : ∀ (n : Nat) {c : Conn} {e : Env} {r : Conn × Env × Next},
    AnswerRun w st s c e → driveMachine fuel n c e = some r → r.2.1.fault = false → AnswerRun w st s r.1 r.2.1
  | 0, _, _, _, h, hr, _ => by cases hr; exact h
  | n + 1, c, e, r, h, hr, hf => by
    unfold Beansdb.driveMachine at hr
    split at hr
    · next c' e' heq =>
      split_ifs at hr with hfe
      · cases hr; simp only [hfe] at hf; cases hf
      · exact AnswerRun.driveMachine fuel n (h.step fuel heq (by simpa using hfe)) hr hf
    · exact h.step fuel hr hf

/-- **Pipelined commands are answered in order, each byte once.**  On a served stream from the server's one client,
over a run with no undefined behaviour however `read` and `sendmsg` split it: the bytes sent are a prefix of the
answers in order, each against the store the commands before it left; in `conn_read` all so far, at the end all. -/
theorem pipelined_commands_answered (hg : ServedStream w st s) (h : AnswerRun w st s c e) :
    e.outq <+: replies w (st, []) e.log ∧ e.log <+: (cutStream commandFrame s).events ∧
      e.store = (afterEvents w (st, []) e.log).1 ∧
      (c.state = .read → e.outq = replies w (st, []) e.log) ∧
      (c.state = .mwrite → e.outq ++ c.unsent = replies w (st, []) e.log) ∧
      (c.state = .read → '\n' ∉ c.window ++ e.inq → e.outq = replies w (st, []) (cutStream commandFrame s).events) := by
  have hv := h.answering hg
  have ho := h.streamRun.onStream
  refine ⟨hv.sent, ho.dispatched, hv.store, fun hs => (hv.read hs).2, fun hs => (hv.mwrite hs).2.2, fun hs hn => ?_⟩
  obtain ⟨t, hst, ht⟩ := ho.taken (by rw [hs]; decide)
  rw [hst, List.append_assoc, cutStream_append, ht, Conn.Idle.view (.inl hs), Cutter.feed_held _ _ _ _ hn]
  exact (hv.read hs).2

end Run

/-- A `set` with its body, a get of its key, `delete a` twice, an `incr` with `noreply` and a `version`. -/
def sixCommands : List Char :=
  "set k 0 0 1\r\nx\r\nget k\r\ndelete a\r\ndelete a\r\nincr k 1 noreply\r\nversion\r\n".toList

/-- The test client sending `sixCommands` sixteen bytes a `read`, then waiting. -/
def sixEnv : Env := { clientEnv sixCommands with reads := fun _ => .data 15 }

/-- `drive_machine` on a fresh connection of `sixEnv`, until the client has nothing more to send. -/
def sixRun : Option (Conn × Env × Next) := driveMachine 8 60 (Conn.init dataBufferSize .read) sixEnv

set_option maxRecDepth 20000 in
theorem sixRun_waits : sixRun.map (fun r => (r.1.state, r.1.window ++ r.2.1.inq, r.2.1.fault, r.2.1.outq)) =
    some (.read, [], false,
      "STORED\r\nVALUE k 0 1\r\nx\r\nEND\r\nDELETED\r\nNOT_FOUND\r\nVERSION 1.0\r\n".toList) := by
  decide

set_option maxRecDepth 20000 in
theorem sixCommands_served : ServedStream sixEnv.server sixEnv.store sixCommands := by
  decide

set_option maxRecDepth 20000 in
/-- The six commands read sixteen bytes at a time: the `set` is seen by the get after it, the second `delete a` finds
nothing, and every answer is sent. -/
theorem six_commands_answered : ∃ r, sixRun = some r ∧ AnswerRun sixEnv.server sixEnv.store sixCommands r.1 r.2.1 ∧
    r.1.state = .read ∧ r.1.window ++ r.2.1.inq = [] ∧
    r.2.1.outq = "STORED\r\nVALUE k 0 1\r\nx\r\nEND\r\nDELETED\r\nNOT_FOUND\r\nVERSION 1.0\r\n".toList ∧
    (r.2.1.outq <+: replies sixEnv.server (sixEnv.store, []) r.2.1.log ∧
      r.2.1.log <+: (cutStream commandFrame sixCommands).events ∧
      r.2.1.store = (afterEvents sixEnv.server (sixEnv.store, []) r.2.1.log).1 ∧
      (r.1.state = .read → r.2.1.outq = replies sixEnv.server (sixEnv.store, []) r.2.1.log) ∧
      (r.1.state = .mwrite → r.2.1.outq ++ r.1.unsent = replies sixEnv.server (sixEnv.store, []) r.2.1.log) ∧
      (r.1.state = .read → '\n' ∉ r.1.window ++ r.2.1.inq →
        r.2.1.outq = replies sixEnv.server (sixEnv.store, []) (cutStream commandFrame sixCommands).events)) := by
  obtain ⟨r, hr⟩ := Option.isSome_iff_exists.1 (by simpa using congrArg Option.isSome sixRun_waits)
  have hv := sixRun_waits
  simp only [hr, Option.map_some', Option.some.injEq, Prod.mk.injEq] at hv
  have hrun : AnswerRun sixEnv.server sixEnv.store sixCommands r.1 r.2.1 :=
    AnswerRun.driveMachine 8 60 (.init rfl rfl ⟨by decide, by decide, List.length_replicate _ _⟩ rfl rfl rfl rfl rfl
      rfl rfl (fun _ => rfl) rfl rfl) hr hv.2.2.1
  exact ⟨r, hr, hrun, hv.1, hv.2.1, hv.2.2.2, pipelined_commands_answered sixCommands_served hrun⟩

end Beansdb
