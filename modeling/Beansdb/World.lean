import Beansdb.Reply
/-!
# World — what a pass of `drive_machine` does to the world, and the byte counters

Around its reads and sends, no part of a pass touches the socket's queues or the byte counters of `stats`: the
handlers add events and other counters, write the store, allocate and free (`Env.Quiet`).  `read` takes its bytes from the
front of what the client sent and adds them to `bytes_read`; `transmit` appends what `sendmsg` accepted to what the
client got and adds it to `bytes_written` (`Env.Counted`).  Only `stats reset` sets the counters back
(`dispatch_quiet`).  So over any run of `drive_machine`, from any state, the events only grow, and while no line
dispatched resets the stats, the counters grow by exactly the bytes read and sent (`byte_counters_exact`).  The
counters are the server's; the world here has the one connection.
-/
namespace Beansdb

/-! ## Quiet parts and counted bytes -/

/-- What the replies of the server depend on besides the commands and its store: how the store moves, `VERSION`, and
the `-S` setting that lets a client stop it. -/
structure Server where
  update  : Store → StoreCall → Store
  version : List Char
  stopme  : Bool

/-- The server a world answers for.  No part of the request core writes any of it. -/
def Env.server (e : Env) : Server := ⟨e.update, e.version, e.stopme⟩

/-- What a part of a pass that neither reads the socket, sends, dispatches nor writes the store keeps of the world: the
server, the store, the events, the bytes waiting and sent, and the two byte counters. -/
def Env.kept (e : Env) : Server × Store × List Event × List Char × List Char × Nat × Nat :=
  (e.server, e.store, e.log, e.inq, e.outq, e.stats.bytesRead, e.stats.bytesWritten)

/-- `e'` follows `e` with nothing read, sent, dispatched or stored, and the byte counters as they were. -/
def Env.Quiet (e e' : Env) : Prop := e'.kept = e.kept

section Quiet

variable {e e' e'' : Env}

theorem Env.Quiet.trans (h1 : e.Quiet e') (h2 : e'.Quiet e'') : e.Quiet e'' := Eq.trans h2 h1

theorem Env.Ticked.quiet (h : e.Ticked e') : e.Quiet e' := by
  obtain ⟨n, f, -, rfl⟩ := h; rfl

/-- A ticked part after an update of what is not kept: other counters, the allocator, the items. -/
theorem Env.Ticked.quiet_of {e₀ : Env} (h : e.Ticked e') (he : e.kept = e₀.kept) : e₀.Quiet e' := Eq.trans h.quiet he

theorem Env.Quiet.server (h : e.Quiet e') : e'.server = e.server := congrArg (·.1) h

theorem Env.Quiet.store (h : e.Quiet e') : e'.store = e.store := congrArg (·.2.1) h

theorem Env.Quiet.log (h : e.Quiet e') : e'.log = e.log := congrArg (·.2.2.1) h

theorem Env.Quiet.inq (h : e.Quiet e') : e'.inq = e.inq := congrArg (·.2.2.2.1) h

theorem Env.Quiet.outq (h : e.Quiet e') : e'.outq = e.outq := congrArg (·.2.2.2.2.1) h

theorem Env.Quiet.bytesRead (h : e.Quiet e') : e'.stats.bytesRead = e.stats.bytesRead := congrArg (·.2.2.2.2.2.1) h

theorem Env.Quiet.bytesWritten (h : e.Quiet e') : e'.stats.bytesWritten = e.stats.bytesWritten :=
  congrArg (·.2.2.2.2.2.2) h

end Quiet

/-- `e'` follows `e` with every byte of the socket counted: what `read` took is off the front of `inq` and in
`bytes_read`, what `sendmsg` accepted is at the end of `outq` and in `bytes_written`.  The server stays; the store
may have been written. -/
structure Env.Counted (e e' : Env) : Prop where
  server : e'.server = e.server
  taken : ∃ b, e.inq = b ++ e'.inq ∧ e'.stats.bytesRead = e.stats.bytesRead + b.length
  sent  : ∃ b, e'.outq = e.outq ++ b ∧ e'.stats.bytesWritten = e.stats.bytesWritten + b.length

/-- A part of a pass that may read the socket, and sends, dispatches and stores nothing. -/
structure Env.Reads (e e' : Env) : Prop where
  log     : e'.log = e.log
  outq    : e'.outq = e.outq
  store   : e'.store = e.store
  counted : e.Counted e'

section Counted

variable {e e' e'' : Env}

theorem Env.Quiet.counted (h : e.Quiet e') : e.Counted e' :=
  ⟨h.server, ⟨[], by rw [h.inq]; rfl, by rw [h.bytesRead]; rfl⟩,
    ⟨[], by rw [h.outq, List.append_nil], by rw [h.bytesWritten]; rfl⟩⟩

theorem Env.Counted.refl (e : Env) : e.Counted e := Env.Quiet.counted rfl

theorem Env.Counted.trans (h1 : e.Counted e') (h2 : e'.Counted e'') : e.Counted e'' := by
  obtain ⟨hs1, ⟨t1, ht1, hr1⟩, ⟨s1, hs1', hw1⟩⟩ := h1
  obtain ⟨hs2, ⟨t2, ht2, hr2⟩, ⟨s2, hs2', hw2⟩⟩ := h2
  refine ⟨hs2.trans hs1, ⟨t1 ++ t2, by rw [ht1, ht2, List.append_assoc], ?_⟩,
    ⟨s1 ++ s2, by rw [hs2', hs1', List.append_assoc], ?_⟩⟩
  · rw [hr2, hr1, List.length_append, Nat.add_assoc]
  · rw [hw2, hw1, List.length_append, Nat.add_assoc]

/-- Counting looks at the server, the socket's queues and the byte counters, not at the store or the events. -/
theorem Env.Counted.of_events {e₀ : Env} (h : e₀.Counted e') (hs : e₀.server = e.server)
    (hk : e₀.kept.2.2.2 = e.kept.2.2.2) : e.Counted e' := by
  simp only [Env.kept, Prod.mk.injEq] at hk
  obtain ⟨hi, ho, hr, hw⟩ := hk
  obtain ⟨h1, ⟨t, ht, htr⟩, ⟨b, hb, hbw⟩⟩ := h
  exact ⟨h1.trans hs, ⟨t, by rw [← hi, ht], by rw [htr, hr]⟩, ⟨b, by rw [hb, ho], by rw [hbw, hw]⟩⟩

theorem Env.Quiet.reads (h : e.Quiet e') : e.Reads e' := ⟨h.log, h.outq, h.store, h.counted⟩

theorem Env.Reads.trans (h1 : e.Reads e') (h2 : e'.Reads e'') : e.Reads e'' :=
  ⟨h2.log.trans h1.log, h2.outq.trans h1.outq, h2.store.trans h1.store, h1.counted.trans h2.counted⟩

/-- `e'` follows `e` as after a handler: quiet, but for one call that may have written the store. -/
def Env.Handled (e e' : Env) : Prop := e.Quiet e' ∨ ∃ k, (e.write k).Quiet e'

theorem Env.Handled.log (h : e.Handled e') : e'.log = e.log := by
  rcases h with h | ⟨_, h⟩ <;> exact h.log

theorem Env.Handled.server (h : e.Handled e') : e'.server = e.server := by
  rcases h with h | ⟨_, h⟩ <;> exact h.server

theorem Env.Handled.counted (h : e.Handled e') : e.Counted e' := by
  rcases h with h | ⟨_, h⟩
  exacts [h.counted, h.counted.of_events rfl rfl]

end Counted

theorem Env.free_quiet (e : Env) (h : Held) : e.Quiet (e.free h) := rfl

theorem foldl_free_quiet : ∀ (l : List Held) (e : Env), e.Quiet (l.foldl Env.free e)
  | [], _ => rfl
  | h :: l, e => (e.free_quiet h).trans (foldl_free_quiet l _)

/-! ## The key loop and the handlers -/

theorem getKey_quiet (s : GetSt) (key : List Char) : s.env.Quiet (getKey s key).1.env := by
  unfold getKey; split
  · rfl
  · next it _ =>
    have hg := (growIlist_ticked s.conn (s.env.hold it).2 s.i).quiet
    dsimp only; split
    · next e heq => rw [heq] at hg; exact hg
    · next c e heq =>
      rw [heq] at hg
      have hv := hg.trans (addValue_frame c e (s.env.hold it).1).1.quiet
      split_ifs
      exacts [hv, hv]

theorem retokenize_env (s : GetSt) (t : Token) : (retokenize s t).1.env = s.env := by
  unfold retokenize; split <;> rfl

/-- The key loop reads and sends nothing: it only looks items up. -/
theorem getLoop_quiet (fuel : Nat) (s : GetSt) {r : GetEnd} (h : getLoop fuel s = some r) : s.env.Quiet r.st.env := by
  induction fuel generalizing s with
  | zero => cases h
  | succ n ih =>
    unfold getLoop at h; dsimp only at h
    split_ifs at h
    · cases h; rfl
    · have hk := getKey_quiet { s with cmds := s.cmds + 1 } (tokBytes s.buf (tokAt s.toks s.k))
      split at h
      · next s' heq => rw [heq] at hk; exact Eq.trans (ih _ h) hk
      · next s' heq =>
        rw [heq] at hk
        have ht := congrArg Env.kept (retokenize_env s' (tokAt s.toks s.k))
        split at h
        · next s'' heq2 => rw [heq2] at ht; exact (Eq.trans (ih _ h) ht).trans hk
        · next s'' heq2 => rw [heq2] at ht; cases h; exact ht.trans hk
    · have ht := congrArg Env.kept (retokenize_env s (tokAt s.toks s.k))
      split at h
      · next s' heq => rw [heq] at ht; exact Eq.trans (ih _ h) ht
      · next s' heq => rw [heq] at ht; cases h; exact ht

section Handlers

variable (c : Conn) (e : Env) (buf : List Char) (toks : List Token)

theorem addGetStats_quiet (s : GetSt) : e.Quiet (addGetStats e s) := rfl

theorem processGetCommand_quiet (fuel : Nat) {r : Conn × Env} (h : processGetCommand fuel c e buf toks = some r) :
    e.Quiet r.2 := by
  unfold processGetCommand at h
  split at h
  · cases h
  · next s hs =>
    cases h
    exact (getLoop_quiet _ _ hs).trans ((addGetStats_quiet _ s).trans (outString_ticked _ _ _).quiet)
  · next s t hs => cases h; exact (getLoop_quiet _ _ hs).trans ((getReply_ticked s t).quiet.trans (addGetStats_quiet _ s))

/-- A get only reads the store. -/
theorem processGetCommand_store (fuel : Nat) {r : Conn × Env} (h : processGetCommand fuel c e buf toks = some r) :
    r.2.store = e.store := by
  unfold processGetCommand at h
  split at h
  · cases h
  · next s hs => cases h; exact (outString_ticked _ _ _).store_eq.trans (getLoop_follows _ _ _ hs).store
  · next s t hs => cases h; exact (getReply_ticked s t).store_eq.trans (getLoop_follows _ _ _ hs).store

theorem processUpdateCommand_quiet (comm : Comm) : e.Quiet (processUpdateCommand c e buf toks comm).2 := by
  unfold processUpdateCommand; dsimp only
  split_ifs
  · exact (outString_ticked _ _ _).quiet
  · exact (outString_ticked _ _ _).quiet
  · rfl
  · exact (connSetState_ticked _ _ _).quiet_of rfl
  · rfl

theorem processArithmeticCommand_handled : e.Handled (processArithmeticCommand c e buf toks).2 := by
  unfold processArithmeticCommand; dsimp only
  split_ifs
  · exact .inl ((outString_ticked _ _ _).quiet_of rfl)
  · split
    · exact .inl ((outString_ticked _ _ _).quiet_of rfl)
    · exact .inr ⟨_, (outString_ticked _ _ _).quiet_of rfl⟩

theorem processDeleteCommand_handled : e.Handled (processDeleteCommand c e buf toks).2 := by
  unfold processDeleteCommand; dsimp only
  split_ifs
  · exact .inl ((outString_ticked _ _ _).quiet_of rfl)
  all_goals exact .inr ⟨_, (outString_ticked _ _ _).quiet_of rfl⟩

theorem processVerbosityCommand_quiet : e.Quiet (processVerbosityCommand c e buf toks).2 := by
  unfold processVerbosityCommand; dsimp only
  split_ifs <;> exact (outString_ticked _ _ _).quiet

theorem processFlushAll_handled : e.Handled (processFlushAll c e buf toks).2 := by
  unfold processFlushAll; dsimp only
  split
  · exact .inl (outString_ticked _ _ _).quiet
  · generalize (if 4 ≤ _ then cstr (tokStr buf (tokAt toks 2)) else "@".toList) = tree
    generalize e.store.optimize _ _ = ret
    split_ifs
    iterate 4 exact .inr ⟨_, (outString_ticked _ _ _).quiet_of rfl⟩
    exact .inr ⟨_, rfl⟩

theorem processOptimizeStat_quiet : e.Quiet (processOptimizeStat c e).2 := by
  unfold processOptimizeStat; dsimp only
  split_ifs <;> exact (outString_ticked _ _ _).quiet

/-- The tokens of a `stats reset` line, as `process_command` and `process_stat` test them: `stats`, `reset`, and
more than the two tokens of a plain `stats`. -/
def ResetsToks : Prop :=
  3 ≤ toks.length ∧ streq (tokStr buf (tokAt toks 0)) "stats" = true ∧ streq (tokStr buf (tokAt toks 1)) "reset" = true

/-- `process_stat` keeps the byte counters, but for `stats reset`, which zeroes them. -/
theorem processStat_quiet (hs : streq (tokStr buf (tokAt toks 0)) "stats" = true) :
    e.Quiet (processStat c e buf toks).2 ∨
      ResetsToks buf toks ∧ ({ e with stats := statsReset e.stats } : Env).Quiet (processStat c e buf toks).2 := by
  unfold processStat
  split_ifs with h1 h2 h3
  · exact .inl (outString_ticked _ _ _).quiet
  · exact .inl (outString_ticked _ _ _).quiet
  · have : toks.length ≠ 2 := fun h => h2 ⟨h, hs⟩
    exact .inr ⟨⟨by omega, hs, h3⟩, (outString_ticked _ _ _).quiet⟩
  · exact .inl (outString_ticked _ _ _).quiet

theorem handled_some {e : Env} {x r : Conn × Env} {P : Prop} (h : e.Handled x.2) :
    some x = some r → e.Handled r.2 ∨ P := by
  rintro ⟨⟩; exact .inl h

/-- **The routing table reads and sends nothing** and writes the store at most once, and keeps the byte counters
unless the line is a `stats reset`. -/
theorem dispatch_quiet {fuel : Nat} {r : Conn × Env} (hr : dispatch fuel c e buf toks = some r) :
    e.Handled r.2 ∨ ResetsToks buf toks ∧ ({ e with stats := statsReset e.stats } : Env).Quiet r.2 := by
  unfold dispatch at hr; dsimp only at hr
  revert hr
  refine ite_some_of (fun h => .inl (.inl (processGetCommand_quiet c e buf toks fuel h))) ?_
  refine ite_some_of (handled_some (.inl (processUpdateCommand_quiet c e buf toks .set))) ?_
  refine ite_some_of (handled_some (.inl (processUpdateCommand_quiet c e buf toks .append))) ?_
  refine ite_some_of (handled_some (processArithmeticCommand_handled c e buf toks)) ?_
  refine ite_some_of (handled_some (processDeleteCommand_handled c e buf toks)) ?_
  by_cases hs : 2 ≤ toks.length ∧ streq (tokStr buf (tokAt toks 0)) "stats" = true
  · rw [if_pos hs]; rintro ⟨⟩
    exact (processStat_quiet c e buf toks hs.2).imp_left .inl
  rw [if_neg hs]
  refine ite_some_of (handled_some (.inl (outString_ticked _ _ _).quiet)) ?_
  refine ite_some_of (handled_some (.inl (connSetState_ticked _ _ _).quiet)) ?_
  refine ite_some_of (handled_some (.inl (processVerbosityCommand_quiet c e buf toks))) ?_
  refine ite_some_of (handled_some (.inl (processOptimizeStat_quiet c e))) ?_
  refine ite_some_of (handled_some (processFlushAll_handled c e buf toks)) ?_
  exact ite_some_of (handled_some (.inl rfl)) (handled_some (.inl (outString_ticked _ _ _).quiet))

end Handlers

/-- `process_command` resets the stats on this line: a `stats reset`. -/
def ResetsStats (line : List Char) : Prop :=
  ResetsToks (tokenizeCommand (line ++ ['\x00']) 0 maxTokens).1 (tokenizeCommand (line ++ ['\x00']) 0 maxTokens).2

instance (line : List Char) : Decidable (ResetsStats line) := inferInstanceAs (Decidable (_ ∧ _ ∧ _))

example : ResetsStats "stats reset".toList ∧ ¬ResetsStats "stats".toList ∧ ¬ResetsStats "stats resets".toList := by
  decide

/-- `process_command` records its line, reads and sends nothing, and keeps the server; unless the line is a
`stats reset`, the byte counters stay. -/
theorem processCommand_quiet {fuel : Nat} {c : Conn} {e : Env} {line : List Char} {r : Conn × Env}
    (hr : processCommand fuel c e line = some r) :
    r.2.log = e.log ++ [.command line] ∧ r.2.server = e.server ∧ (¬ResetsStats line → e.Counted r.2) := by
  unfold processCommand at hr; dsimp only at hr
  have ht := addMsghdr_ticked { c with msgcurr := 0, msgused := 0, iovused := 0 } { e with log := e.log ++ [.command line] }
  generalize addMsghdr { c with msgcurr := 0, msgused := 0, iovused := 0 }
    { e with log := e.log ++ [.command line] } = a at hr ht
  obtain ⟨_ | c', e'⟩ := a
  · cases hr
    have hq := ht.quiet.trans (outString_ticked { c with msgcurr := 0, msgused := 0, iovused := 0 } e'
      "SERVER_ERROR out of memory preparing response".toList).quiet
    exact ⟨hq.log, hq.server, fun _ => hq.counted.of_events rfl rfl⟩
  · rcases dispatch_quiet c' e' _ _ hr with hq | ⟨hres, hq⟩
    · exact ⟨hq.log.trans ht.quiet.log, hq.server.trans ht.quiet.server,
        fun _ => (ht.quiet.counted.trans hq.counted).of_events rfl rfl⟩
    · exact ⟨hq.log.trans ht.quiet.log, hq.server.trans ht.quiet.server, fun hn => absurd hres hn⟩

/-! ## Reads and sends -/

theorem Env.read_reads {e e' : Env} {want : Nat} {o : ReadOut} (h : e.read want = (e', o)) : e.Reads e' := by
  unfold Env.read at h
  split at h
  · split_ifs at h with h0 h1
    · cases h; exact Env.Quiet.reads rfl
    · cases h; exact Env.Quiet.reads rfl
    · cases h
      refine ⟨rfl, rfl, rfl, rfl, ⟨e.inq.take _, (List.take_append_drop _ _).symm, ?_⟩, ⟨[], by simp, rfl⟩⟩
      simp only [List.length_take]; omega
  all_goals cases h; exact Env.Quiet.reads rfl

theorem growRbuf_ticked (c : Conn) (e : Env) : e.Ticked (growRbuf c e).2 := by
  unfold growRbuf; split_ifs <;> first | exact e.ticked_tick | exact .refl e

/-- The read loop of `try_read_network` sends nothing and counts what it reads. -/
theorem readLoop_reads (fuel : Nat) : ∀ (c : Conn) (e : Env) (got : Bool), e.Reads (readLoop fuel c e got).2.1 := by
  induction fuel with
  | zero => exact fun _ _ _ => Env.Quiet.reads rfl
  | succ n ih =>
    intro c e got
    have hg := (growRbuf_ticked c e).quiet
    unfold readLoop
    split
    · next e₁ heq =>
      rw [heq] at hg
      exact (hg.trans (outString_ticked _ e₁ _).quiet).reads
    · next c₁ e₁ heq =>
      rw [heq] at hg
      dsimp only
      split
      · next e₂ b hr =>
        split_ifs
        · exact hg.reads.trans ((Env.read_reads hr).trans (ih _ e₂ true))
        · exact hg.reads.trans (Env.read_reads hr)
      · next e₂ hr => exact hg.reads.trans (Env.read_reads hr)
      · next e₂ o _ _ hr =>
        exact hg.reads.trans ((Env.read_reads hr).trans (connSetState_ticked c₁ e₂ .closing).quiet.reads)

theorem tryReadNetwork_reads (c : Conn) (e : Env) : e.Reads (tryReadNetwork c e).2.1 :=
  readLoop_reads _ _ e false

/-- `transmit` dispatches and stores nothing, and counts what `sendmsg` accepted. -/
theorem transmit_counted (c : Conn) (e : Env) :
    (transmit c e).2.1.log = e.log ∧ (transmit c e).2.1.store = e.store ∧ e.Counted (transmit c e).2.1 := by
  unfold transmit; dsimp only
  split_ifs
  · split
    · split_ifs
      · refine ⟨rfl, rfl, rfl, ⟨[], rfl, rfl⟩, ⟨_, rfl, ?_⟩⟩
        simp only [List.length_take]; omega
      · exact ⟨rfl, rfl, Env.Quiet.counted rfl⟩
    all_goals exact ⟨rfl, rfl, Env.Quiet.counted rfl⟩
  · exact ⟨rfl, rfl, Env.Quiet.counted rfl⟩

/-- A pass of `conn_mwrite`, or the tail of `conn_write`, dispatches and stores nothing and counts what it sends. -/
theorem stepTransmit_counted (c : Conn) (e : Env) :
    (stepTransmit c e).2.1.log = e.log ∧ (stepTransmit c e).2.1.store = e.store ∧ e.Counted (stepTransmit c e).2.1 := by
  have ht := transmit_counted c e
  unfold stepTransmit; dsimp only
  generalize transmit c e = t at ht ⊢
  split
  · split_ifs
    · have hq := (foldl_free_quiet ((t.1.ilist.drop t.1.icurr).take t.1.ileft) t.2.1).trans
        (connSetState_ticked { t.1 with icurr := t.1.icurr + t.1.ileft, ileft := 0 } _ .read).quiet
      exact ⟨hq.log.trans ht.1, hq.store.trans ht.2.1, ht.2.2.trans hq.counted⟩
    · have hq := (connSetState_ticked { t.1 with writeAndFree := none } t.2.1 t.1.writeAndGo).quiet
      exact ⟨hq.log.trans ht.1, hq.store.trans ht.2.1, ht.2.2.trans hq.counted⟩
    · have hq := (connSetState_ticked t.1 t.2.1 .closing).quiet
      exact ⟨hq.log.trans ht.1, hq.store.trans ht.2.1, ht.2.2.trans hq.counted⟩
  all_goals exact ht

theorem connCleanup_quiet (c : Conn) (e : Env) : e.Quiet (connCleanup c e).2 := by
  unfold connCleanup; dsimp only
  split
  · exact (e.free_quiet _).trans (foldl_free_quiet _ _)
  · exact foldl_free_quiet _ _

/-- `try_read_command` that took a line: `process_command` ran on it and the window moved past it. -/
theorem tryReadCommand_some {fuel : Nat} {c : Conn} {e : Env} {r : Conn × Env}
    (h : tryReadCommand fuel c e = some (some r)) : ∃ line n r₁, processCommand fuel c e line = some r₁ ∧
      r = ({ r₁.1 with rbytes := r₁.1.rbytes - n, rcurr := r₁.1.rcurr + n }, r₁.2) := by
  unfold tryReadCommand at h
  split_ifs at h
  split at h
  · cases h
  · obtain ⟨r₁, h₁, rfl⟩ := Option.map_eq_some'.1 (Option.some.inj h)
    exact ⟨_, _, r₁, h₁, rfl⟩

/-! ## Every pass, every run -/

/-- No line among the events `evs` is a `stats reset`. -/
def ResetFree (evs : List Event) : Prop := ∀ line, Event.command line ∈ evs → ¬ResetsStats line

/-- What passes did to the world: they dispatched the events `evs`, and, unless one of them resets the stats,
counted every byte read or sent. -/
def Env.Passed (e e' : Env) : Prop := ∃ evs, e'.log = e.log ++ evs ∧ (ResetFree evs → e.Counted e')

section Passed

variable {e e' e'' : Env}

theorem Env.Passed.of_counted (hl : e'.log = e.log) (h : e.Counted e') : e.Passed e' :=
  ⟨[], by rw [hl, List.append_nil], fun _ => h⟩

theorem Env.Passed.trans (h1 : e.Passed e') (h2 : e'.Passed e'') : e.Passed e'' := by
  obtain ⟨evs1, hl1, hc1⟩ := h1
  obtain ⟨evs2, hl2, hc2⟩ := h2
  refine ⟨evs1 ++ evs2, by rw [hl2, hl1, List.append_assoc], fun hf => ?_⟩
  exact (hc1 fun l hl => hf l (List.mem_append_left _ hl)).trans (hc2 fun l hl => hf l (List.mem_append_right _ hl))

theorem Env.Reads.passed (h : e.Reads e') : e.Passed e' := .of_counted h.log h.counted

theorem Env.Quiet.passed (h : e.Quiet e') : e.Passed e' := h.reads.passed

end Passed

theorem stepRead_passed {fuel : Nat} {c : Conn} {e : Env} {r : Conn × Env × Next} (hr : stepRead fuel c e = some r) :
    e.Passed r.2.1 := by
  unfold stepRead at hr
  split at hr
  · next o hc =>
    cases o with
    | none => cases hr
    | some r₀ =>
      cases hr
      obtain ⟨line, n, r₁, h₁, rfl⟩ := tryReadCommand_some hc
      obtain ⟨hl, -, hc⟩ := processCommand_quiet h₁
      exact ⟨[.command line], hl, fun hf => hc (hf line (List.mem_singleton_self _))⟩
  · cases hr; exact (tryReadNetwork_reads c e).passed

theorem completeNread_passed (c : Conn) (e : Env) : e.Passed (completeNread c e).2 := by
  unfold completeNread
  split
  · exact Env.Quiet.passed rfl
  · next h _ =>
    have key : ∀ (e₁ : Env) (o : Conn × Env), e₁.Ticked o.2 → e₁.log = e.log ++ [.body h.item.data] →
        e₁.server = e.server → e₁.kept.2.2.2 = e.kept.2.2.2 → e.Passed (o.2.free h) :=
      fun _ o ht hl hs hk =>
        have hq := ht.quiet.trans (o.2.free_quiet h)
        ⟨[.body h.item.data], hq.log.trans hl, fun _ => hq.counted.of_events hs hk⟩
    dsimp only
    split_ifs <;> exact key _ _ (outString_ticked _ _ _) rfl rfl rfl

theorem stepNread_passed (c : Conn) (e : Env) : e.Passed (stepNread c e).2.1 := by
  unfold stepNread
  split_ifs
  · exact completeNread_passed c e
  · exact Env.Quiet.passed rfl
  · split
    · next e' b hr => exact (Env.read_reads hr).passed
    · next e' hr => exact (Env.read_reads hr).passed
    · next e' _ _ _ hr => exact ((Env.read_reads hr).trans (connSetState_ticked c e' .closing).quiet.reads).passed

theorem stepSwallow_passed (c : Conn) (e : Env) : e.Passed (stepSwallow c e).2.1 := by
  unfold stepSwallow
  split_ifs
  · have hq := (connSetState_ticked c { e with log := e.log ++ [.swallow e.swallowed], swallowed := [] } .read).quiet
    exact ⟨[.swallow e.swallowed], hq.log, fun _ => hq.counted.of_events rfl rfl⟩
  · exact Env.Quiet.passed rfl
  · split
    · next e' b hr =>
      have hq : e'.Quiet { e' with swallowed := e'.swallowed ++ b } := rfl
      exact ((Env.read_reads hr).trans hq.reads).passed
    · next e' hr => exact (Env.read_reads hr).passed
    · next e' _ _ _ hr => exact ((Env.read_reads hr).trans (connSetState_ticked c e' .closing).quiet.reads).passed

theorem stepWrite_passed (c : Conn) (e : Env) : e.Passed (stepWrite c e).2.1 := by
  unfold stepWrite
  split_ifs
  · have hq := (addIov_frame c e c.wcurr c.wbytes none).1.quiet
    generalize addIov c e c.wcurr c.wbytes none = a at hq ⊢
    dsimp only
    split_ifs
    · obtain ⟨hl, -, hc⟩ := stepTransmit_counted a.1 a.2.1
      exact hq.passed.trans (.of_counted hl hc)
    · exact (hq.trans (connSetState_ticked _ _ _).quiet).passed
  · exact .of_counted (stepTransmit_counted c e).1 (stepTransmit_counted c e).2.2

/-- **Every pass of `drive_machine`** dispatches at most one event and, unless it is a `stats reset`, counts every
byte it reads or sends. -/
theorem driveStep_passed {fuel : Nat} {c : Conn} {e : Env} {r : Conn × Env × Next}
    (hr : driveStep fuel c e = some r) : e.Passed r.2.1 := by
  unfold driveStep at hr
  split at hr
  · cases hr; exact Env.Quiet.passed rfl
  · exact stepRead_passed hr
  · cases hr; exact stepNread_passed c e
  · cases hr; exact stepSwallow_passed c e
  · cases hr; exact stepWrite_passed c e
  · cases hr; exact .of_counted (stepTransmit_counted c e).1 (stepTransmit_counted c e).2.2
  · cases hr; exact (connCleanup_quiet c e).passed

/-- Passes of `drive_machine` from `(c, e)`, each given its own fuel, ending at `(c', e')`. -/
inductive DriveRun : Conn → Env → Conn → Env → Prop
  | refl (c : Conn) (e : Env) : DriveRun c e c e
  | step {c c' : Conn} {e e' : Env} (fuel : Nat) {r : Conn × Env × Next} :
      DriveRun c e c' e' → driveStep fuel c' e' = some r → DriveRun c e r.1 r.2.1

/-- A call of `drive_machine` makes passes: what it returns ends a run from where it was called. -/
theorem driveMachine_run (fuel : Nat) {c₀ : Conn} {e₀ : Env} : ∀ (n : Nat) {c : Conn} {e : Env}
    {r : Conn × Env × Next}, DriveRun c₀ e₀ c e → driveMachine fuel n c e = some r → DriveRun c₀ e₀ r.1 r.2.1
  | 0, _, _, _, h0, h => by cases h; exact h0
  | n + 1, c, e, r, h0, h => by
    unfold driveMachine at h
    split at h
    · next c' e' heq =>
      have h1 := DriveRun.step fuel h0 heq
      split_ifs at h
      · cases h; exact h1
      · exact driveMachine_run fuel n h1 h
    · exact .step fuel h0 h

theorem DriveRun.passed {c c' : Conn} {e e' : Env} (h : DriveRun c e c' e') : e.Passed e' := by
  induction h with
  | refl => exact Env.Quiet.passed rfl
  | step _ _ hr ih => exact ih.trans (driveStep_passed hr)

/-- **The byte counters count the socket's bytes.**  On a server whose one connection runs `drive_machine` (the
counters are global), over any run from any state the events only grow, and unless a line dispatched is a
`stats reset`, `bytes_read` grew by the bytes taken off the front of the socket and `bytes_written` by those sent. -/
theorem byte_counters_exact {c c' : Conn} {e e' : Env} (h : DriveRun c e c' e') :
    ∃ evs, e'.log = e.log ++ evs ∧ ((∀ line, Event.command line ∈ evs → ¬ResetsStats line) →
      (∃ taken, e.inq = taken ++ e'.inq ∧ e'.stats.bytesRead = e.stats.bytesRead + taken.length) ∧
      (∃ sent, e'.outq = e.outq ++ sent ∧ e'.stats.bytesWritten = e.stats.bytesWritten + sent.length)) := by
  obtain ⟨evs, hl, hc⟩ := h.passed
  exact ⟨evs, hl, fun hf => ⟨(hc hf).taken, (hc hf).sent⟩⟩

set_option maxRecDepth 20000 in
/-- A fresh connection answering `get a` to its client and closing: it reads the 7 bytes of the line and sends the 21
of its reply, and the counters say so. -/
theorem get_a_counts_bytes : ∃ r, clientRun "get a\r\n".toList = some r ∧
    DriveRun (Conn.init dataBufferSize .read) (clientEnv "get a\r\n".toList) r.1 r.2.1 ∧
    r.2.1.stats.bytesRead = 7 ∧ r.2.1.stats.bytesWritten = 21 ∧
    ∃ evs, r.2.1.log = (clientEnv "get a\r\n".toList).log ++ evs ∧
      ((∀ line, Event.command line ∈ evs → ¬ResetsStats line) →
        (∃ taken, (clientEnv "get a\r\n".toList).inq = taken ++ r.2.1.inq ∧
          r.2.1.stats.bytesRead = (clientEnv "get a\r\n".toList).stats.bytesRead + taken.length) ∧
        (∃ sent, r.2.1.outq = (clientEnv "get a\r\n".toList).outq ++ sent ∧
          r.2.1.stats.bytesWritten = (clientEnv "get a\r\n".toList).stats.bytesWritten + sent.length)) := by
  have hv : (clientRun "get a\r\n".toList).map (fun r => (r.2.1.stats.bytesRead, r.2.1.stats.bytesWritten)) =
      some (7, 21) := by decide
  rcases hr : clientRun "get a\r\n".toList with _ | r
  · rw [hr] at hv; cases hv
  · rw [hr, Option.map_some', Option.some.injEq, Prod.mk.injEq] at hv
    have hrun := driveMachine_run 20 20 (.refl _ _) hr
    exact ⟨r, rfl, hrun, hv.1, hv.2, byte_counters_exact hrun⟩

end Beansdb
