import Beansdb.Cut
/-!
# Arm — what `process_command` leaves the read path after a line

`process_command` handles one command line and leaves the connection reading the next line, or, for a `set` or an
`append` whose checks pass, reading a body of `vlen + 2` bytes into a fresh item.  Which of the two is decided by
the line alone (`commandFrame`, from `process_update_command`'s checks): with the allocator granting, the handler
arms exactly that frame (`processCommand_arms`); where `vlen + 2` overflows, the source is undefined and the model,
which flags it, stays in `conn_read`.  No handler dispatches an event, reads
the socket or throws bytes away (`Env.input`).
-/
namespace Beansdb

/-- The body `process_update_command` arms for a tokenized `set` or `append` line: `vlen + 2` bytes, once the key and
the three numerals pass its checks.  Past `INT_MAX` the source is undefined (`updateOverflows`): the cutter reads a
line after it, but no pass that meets no undefined behaviour gets past such a line (`processCommand_fault`). -/
def updateFrame (buf : List Char) (toks : List Token) : Frame :=
  if maxKeyLen < (tokAt toks 1).length then .line
  else
    let f := strtoull (tokStr buf (tokAt toks 2))
    let x := strtol (tokStr buf (tokAt toks 3))
    let v := strtol (tokStr buf (tokAt toks 4))
    let vlen := toInt32 v.1
    if f.2.2 || x.2.2 || v.2.2 || decide (vlen < 0) then .line
    else if intMax < vlen + 2 then .line
    else .body (vlen + 2).toNat

/-- The frame a tokenized line asks for: `process_command` routes it to `process_update_command`, or it reads the
next line. -/
def tokFrame (buf : List Char) (toks : List Token) : Frame :=
  if (toks.length = 6 ∨ toks.length = 7) ∧
      (streq (tokStr buf (tokAt toks 0)) "set" = true ∨ streq (tokStr buf (tokAt toks 0)) "append" = true) then
    updateFrame buf toks
  else .line

/-- The frame the command line `line` asks for. -/
def commandFrame (line : List Char) : Frame :=
  let r := tokenizeCommand (line ++ ['\x00']) 0 maxTokens
  tokFrame r.1 r.2

/-- The connection reads a line next, or closes: where every handler but an armed update leaves it. -/
def Conn.Idle (c : Conn) : Prop :=
  c.state = .read ∨ c.state = .mwrite ∨ c.state = .closing ∨ (c.state = .write ∧ c.writeAndGo = .read)

/-- A handler's outcome `r` from the world `e`, for a line asking for the frame `f`: nothing dispatched, read or
thrown away, and the connection reads `f` next. -/
def Arms (f : Frame) (e : Env) (r : Conn × Env) : Prop :=
  r.2.input = e.input ∧
    ((r.1.Idle ∧ f = .line) ∨
      ∃ h, f = .body h.item.data.length ∧ r.1.state = .nread ∧ r.1.item = some h ∧ r.1.ritem = 0 ∧
        r.1.rlbytes = h.item.data.length)

theorem Arms.of_input {f : Frame} {e e' : Env} {r : Conn × Env} (h : Arms f e' r) (he : e'.input = e.input) :
    Arms f e r :=
  ⟨h.1.trans he, h.2⟩

theorem some_arms {f : Frame} {e : Env} {x r : Conn × Env} (h : Arms f e x) : some x = some r → Arms f e r := by
  rintro ⟨⟩; exact h

theorem streq_unique {l : List Char} {a b : String} (ha : streq l a = true) (hb : streq l b = true) :
    a.toList = b.toList := by
  simp only [streq, beq_iff_eq] at ha hb; rw [← ha, ← hb]

section Handlers

variable (c : Conn) (e : Env) (buf : List Char) (toks : List Token)

theorem outString_idle (str : List Char) : (outString c e str).1.Idle := by
  unfold outString
  split
  · exact .inl (connSetState_state _ _ _)
  · exact .inr (.inr (.inr ⟨connSetState_state _ _ _, rfl⟩))

theorem outString_ne_closing (str : List Char) : (outString c e str).1.state ≠ .closing := by
  unfold outString; split <;> simp

theorem outString_arms (str : List Char) : Arms .line e (outString c e str) :=
  ⟨(outString_ticked c e str).input_eq, .inl ⟨outString_idle c e str, rfl⟩⟩

/-- **`process_update_command` arms the body its checks allow.** -/
theorem processUpdateCommand_arms (comm : Comm) (hs : c.state = .read) (hg : e.ok = true) :
    Arms (updateFrame buf toks) e (processUpdateCommand c e buf toks comm) := by
  have hn := Conn.state_eq_of_readSide (setNoreplyMaybe_readSide c buf toks)
  unfold processUpdateCommand updateFrame; dsimp only
  split_ifs
  · exact outString_arms _ _ _
  · exact outString_arms _ _ _
  · exact ⟨rfl, .inl ⟨.inl (hn.trans hs), rfl⟩⟩
  · refine ⟨(connSetState_ticked _ _ _).input_eq, .inr ⟨_, ?_, connSetState_state _ _ _, connSetState_item _ _ _,
      connSetState_ritem _ _ _, ?_⟩⟩
    · simp only [Env.hold, itemAlloc1, List.length_replicate]
    · simp only [connSetState_rlbytes, Env.hold, itemAlloc1, List.length_replicate]

theorem processArithmeticCommand_arms : Arms .line e (processArithmeticCommand c e buf toks) := by
  unfold processArithmeticCommand; dsimp only
  split_ifs
  · exact (outString_arms _ _ _).of_input rfl
  · split <;> exact (outString_arms _ _ _).of_input rfl

theorem processDeleteCommand_arms : Arms .line e (processDeleteCommand c e buf toks) := by
  unfold processDeleteCommand; dsimp only
  split_ifs <;> exact (outString_arms _ _ _).of_input rfl

theorem processVerbosityCommand_arms : Arms .line e (processVerbosityCommand c e buf toks) := by
  unfold processVerbosityCommand; dsimp only
  split_ifs <;> exact outString_arms _ _ _

theorem processStat_arms : Arms .line e (processStat c e buf toks) := by
  unfold processStat
  split_ifs <;> exact (outString_arms _ _ _).of_input rfl

theorem processOptimizeStat_arms : Arms .line e (processOptimizeStat c e) := by
  unfold processOptimizeStat; dsimp only
  split_ifs <;> exact outString_arms _ _ _

theorem processFlushAll_arms (hs : c.state = .read) : Arms .line e (processFlushAll c e buf toks) := by
  have hn := Conn.state_eq_of_readSide (setNoreplyMaybe_readSide c buf toks)
  unfold processFlushAll; dsimp only
  split
  · exact outString_arms _ _ _
  · generalize (if 4 ≤ _ then cstr (tokStr buf (tokAt toks 2)) else "@".toList) = tree
    generalize e.store.optimize _ _ = ret
    split_ifs
    iterate 4 exact (outString_arms _ _ _).of_input rfl
    exact ⟨rfl, .inl ⟨.inl (hn.trans hs), rfl⟩⟩

theorem getReply_idle (s : GetSt) (t : Token) : (getReply s t).1.Idle := by
  unfold getReply; dsimp only
  split_ifs <;> first | contradiction | exact .inr (.inl (connSetState_state _ _ _)) | exact outString_idle _ _ _

theorem processGetCommand_arms (fuel : Nat) {r : Conn × Env} (hr : processGetCommand fuel c e buf toks = some r) :
    Arms .line e r := by
  unfold processGetCommand at hr
  split at hr
  · cases hr
  · next s hs =>
    cases hr
    exact ⟨(outString_ticked _ _ _).input_eq.trans (getLoop_follows _ _ _ hs).input,
      .inl ⟨outString_idle _ _ _, rfl⟩⟩
  · next s t hs =>
    cases hr
    exact ⟨(getReply_ticked s t).input_eq.trans (getLoop_follows _ _ _ hs).input, .inl ⟨getReply_idle s t, rfl⟩⟩

/-- The routing table arms the frame the tokenized line asks for. -/
theorem dispatch_arms (fuel : Nat) (hs : c.state = .read) (hg : e.ok = true) {r : Conn × Env}
    (hr : dispatch fuel c e buf toks = some r) : Arms (tokFrame buf toks) e r := by
  unfold dispatch at hr; unfold tokFrame; dsimp only at hr
  by_cases hu : (toks.length = 6 ∨ toks.length = 7) ∧
      (streq (tokStr buf (tokAt toks 0)) "set" = true ∨ streq (tokStr buf (tokAt toks 0)) "append" = true)
  · rw [if_pos hu]
    have hget : ¬(3 ≤ toks.length ∧ streq (tokStr buf (tokAt toks 0)) "get" = true) := fun h => by
      rcases hu.2 with h' | h' <;> have := streq_unique h.2 h' <;> simp at this
    rw [if_neg hget] at hr
    by_cases hset : streq (tokStr buf (tokAt toks 0)) "set" = true
    · rw [if_pos (show (toks.length = 6 ∨ toks.length = 7) ∧ _ from ⟨hu.1, hset⟩)] at hr
      exact some_arms (processUpdateCommand_arms c e buf toks .set hs hg) hr
    · have h2 : ¬((toks.length = 6 ∨ toks.length = 7) ∧ streq (tokStr buf (tokAt toks 0)) "set" = true) :=
        fun h => hset h.2
      rw [if_neg h2, if_pos (show (toks.length = 6 ∨ toks.length = 7) ∧ _ from ⟨hu.1, hu.2.resolve_left hset⟩)] at hr
      exact some_arms (processUpdateCommand_arms c e buf toks .append hs hg) hr
  · rw [if_neg hu]
    have h2 : ¬((toks.length = 6 ∨ toks.length = 7) ∧ streq (tokStr buf (tokAt toks 0)) "set" = true) :=
      fun h => hu ⟨h.1, .inl h.2⟩
    have h3 : ¬((toks.length = 6 ∨ toks.length = 7) ∧ streq (tokStr buf (tokAt toks 0)) "append" = true) :=
      fun h => hu ⟨h.1, .inr h.2⟩
    rw [if_neg h2, if_neg h3] at hr
    revert hr
    refine ite_some_of (processGetCommand_arms c e buf toks fuel) ?_
    refine ite_some_of (some_arms (processArithmeticCommand_arms c e buf toks)) ?_
    refine ite_some_of (some_arms (processDeleteCommand_arms c e buf toks)) ?_
    refine ite_some_of (some_arms (processStat_arms c e buf toks)) ?_
    refine ite_some_of (some_arms (outString_arms _ _ _)) ?_
    refine ite_some_of (some_arms ⟨(connSetState_ticked _ _ _).input_eq,
      .inl ⟨.inr (.inr (.inl (connSetState_state c e .closing))), rfl⟩⟩) ?_
    refine ite_some_of (some_arms (processVerbosityCommand_arms c e buf toks)) ?_
    refine ite_some_of (some_arms (processOptimizeStat_arms c e)) ?_
    refine ite_some_of (some_arms (processFlushAll_arms c e buf toks hs)) ?_
    exact ite_some_of (some_arms ⟨rfl, .inl ⟨.inl hs, rfl⟩⟩) (some_arms (outString_arms _ _ _))

end Handlers

/-- **`process_command` arms the frame its line asks for.**  From `conn_read`, with the allocator granting, the line
is dispatched, nothing is read or thrown away, and the connection reads next what `commandFrame` says. -/
theorem processCommand_arms {fuel : Nat} {c : Conn} {e : Env} {line : List Char} {r : Conn × Env}
    (hs : c.state = .read) (hg : e.Grants) (hr : processCommand fuel c e line = some r) :
    Arms (commandFrame line) { e with log := e.log ++ [.command line] } r := by
  have hg' : ({ e with log := e.log ++ [.command line] } : Env).Grants := hg
  unfold processCommand at hr; dsimp only at hr
  split at hr
  · next e' heq =>
    unfold addMsghdr at heq
    split_ifs at heq with h1 h2
    · cases heq
    · exact absurd hg'.ok h2
    · cases heq
  · next c' e' heq =>
    have ht := addMsghdr_ticked { c with msgcurr := 0, msgused := 0, iovused := 0 } { e with log := e.log ++ [.command line] }
    have hc : c'.state = .read := by unfold addMsghdr at heq; split_ifs at heq <;> cases heq <;> exact hs
    rw [heq] at ht
    have ha := dispatch_arms c' e' _ _ fuel hc (hg'.ticked ht).ok hr
    exact ⟨ha.1.trans ht.input_eq, ha.2⟩

end Beansdb
