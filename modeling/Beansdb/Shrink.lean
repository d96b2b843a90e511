import Beansdb.Transmit
/-!
# Shrink — `conn_shrink`, `conn_set_state` and `out_string`

Entering `conn_read` shrinks the buffers past their high-water marks; the read buffer is first compacted, so its
unread bytes move to its head.  `out_string` puts one line in `wbuf` and enters `conn_write`, unless `noreply` is set:
then it clears the flag and stays in `conn_read`, sending nothing.
-/
namespace Beansdb

/-- `realloc (p, n)` of an array holding `l`: the first `n` slots survive, new ones hold `fill`. -/
def realloc {α : Type} (l : List α) (n : Nat) (fill : α) : List α := l.take n ++ List.replicate (n - l.length) fill

/-- `memmove (rbuf, rbuf + rcurr, rbytes)`. -/
def memmove (rbuf : List Char) (rcurr rbytes : Nat) : List Char := (rbuf.drop rcurr).take rbytes ++ rbuf.drop rbytes

/-- The read-buffer half of `conn_shrink`. -/
def shrinkRbuf (c : Conn) (e : Env) : Conn × Env :=
  if readBufferHighwat < c.rsize ∧ c.rbytes < dataBufferSize then
    let rbuf := if c.rcurr ≠ 0 then memmove c.rbuf c.rcurr c.rbytes else c.rbuf
    if e.ok then ({ c with rbuf := realloc rbuf dataBufferSize '\x00', rsize := dataBufferSize, rcurr := 0 }, e.tick)
    else ({ c with rbuf := rbuf, rcurr := 0 }, e.tick)
  else (c, e)

/-- The `ilist` half of `conn_shrink`. -/
def shrinkIlist (c : Conn) (e : Env) : Conn × Env :=
  if itemListHighwat < c.isize then
    (if e.ok then { c with ilist := c.ilist.take itemListInitial, isize := itemListInitial } else c, e.tick)
  else (c, e)

/-- The `msglist` part of `conn_shrink`. -/
def shrinkMsglist (c : Conn) (e : Env) : Conn × Env :=
  if msgListHighwat < c.msgsize then
    (if e.ok then { c with msglist := c.msglist.take msgListInitial, msgsize := msgListInitial } else c, e.tick)
  else (c, e)

/-- The `iov` part of `conn_shrink`. -/
def shrinkIov (c : Conn) (e : Env) : Conn × Env :=
  if iovListHighwat < c.iovsize then
    (if e.ok then { c with iov := c.iov.take iovListInitial, iovsize := iovListInitial } else c, e.tick)
  else (c, e)

/-- `conn_shrink (c)`. -/
def connShrink (c : Conn) (e : Env) : Conn × Env :=
  let r := shrinkRbuf c e
  let r := shrinkIlist r.1 r.2
  let r := shrinkMsglist r.1 r.2
  shrinkIov r.1 r.2

/-! `conn_shrink` changes only the buffers, their sizes and the allocator. -/

/-- The fields of a connection `conn_shrink` leaves alone. -/
def Conn.Unshrunk (c c' : Conn) : Prop :=
  c'.state = c.state ∧ c'.noreply = c.noreply ∧ c'.iovused = c.iovused ∧ c'.msgused = c.msgused ∧
  c'.msgcurr = c.msgcurr ∧ c'.icurr = c.icurr ∧ c'.ileft = c.ileft ∧ c'.item = c.item ∧ c'.rbytes = c.rbytes ∧
  c'.wcurr = c.wcurr ∧ c'.wbytes = c.wbytes ∧ c'.writeAndGo = c.writeAndGo ∧ c'.writeAndFree = c.writeAndFree ∧
  c'.rlbytes = c.rlbytes ∧ c'.sbytes = c.sbytes ∧ c'.ritem = c.ritem ∧ c'.itemComm = c.itemComm ∧
  c'.wsize = c.wsize

theorem Conn.Unshrunk.refl (c : Conn) : c.Unshrunk c := by simp [Conn.Unshrunk]

theorem Conn.Unshrunk.trans {a b c : Conn} (h1 : a.Unshrunk b) (h2 : b.Unshrunk c) : a.Unshrunk c := by
  simp only [Conn.Unshrunk] at *; aesop

theorem shrinkRbuf_frame (c : Conn) (e : Env) : c.Unshrunk (shrinkRbuf c e).1 ∧ e.Ticked (shrinkRbuf c e).2 := by
  unfold shrinkRbuf; split_ifs <;> exact ⟨by simp [Conn.Unshrunk], by first | exact e.ticked_tick | exact .refl e⟩

theorem shrinkIlist_frame (c : Conn) (e : Env) : c.Unshrunk (shrinkIlist c e).1 ∧ e.Ticked (shrinkIlist c e).2 := by
  unfold shrinkIlist; split_ifs <;> exact ⟨by simp [Conn.Unshrunk], by first | exact e.ticked_tick | exact .refl e⟩

theorem shrinkMsglist_frame (c : Conn) (e : Env) :
    c.Unshrunk (shrinkMsglist c e).1 ∧ e.Ticked (shrinkMsglist c e).2 := by
  unfold shrinkMsglist; split_ifs <;> exact ⟨by simp [Conn.Unshrunk], by first | exact e.ticked_tick | exact .refl e⟩

theorem shrinkIov_frame (c : Conn) (e : Env) : c.Unshrunk (shrinkIov c e).1 ∧ e.Ticked (shrinkIov c e).2 := by
  unfold shrinkIov; split_ifs <;> exact ⟨by simp [Conn.Unshrunk], by first | exact e.ticked_tick | exact .refl e⟩

theorem connShrink_frame (c : Conn) (e : Env) : c.Unshrunk (connShrink c e).1 ∧ e.Ticked (connShrink c e).2 :=
  have h1 := shrinkRbuf_frame c e
  have h2 := shrinkIlist_frame _ _
  have h3 := shrinkMsglist_frame _ _
  have h4 := shrinkIov_frame _ _
  ⟨h1.1.trans (h2.1.trans (h3.1.trans h4.1)), h1.2.trans (h2.2.trans (h3.2.trans h4.2))⟩

/-- `conn_set_state (c, state)`. -/
def connSetState (c : Conn) (e : Env) (s : ConnState) : Conn × Env :=
  if s ≠ c.state then
    let r := if s = .read then connShrink c e else (c, e)
    ({ r.1 with state := s }, r.2)
  else (c, e)

/-- Entering a state changes only what `conn_shrink` may change. -/
theorem connSetState_unshrunk (c : Conn) (e : Env) (s : ConnState) :
    (connSetState c e s).1.state = s ∧ { c with state := s }.Unshrunk (connSetState c e s).1 := by
  unfold connSetState
  split_ifs with h1 h2
  · subst h2; have := (connShrink_frame c e).1; simp_all [Conn.Unshrunk]
  · simp [Conn.Unshrunk]
  · simp only [ne_eq, Decidable.not_not] at h1; subst h1; simp [Conn.Unshrunk]

theorem connSetState_ticked (c : Conn) (e : Env) (s : ConnState) : e.Ticked (connSetState c e s).2 := by
  unfold connSetState; split_ifs
  exacts [(connShrink_frame c e).2, .refl e, .refl e]

/-- Entering any state but `conn_read`, or staying in it, leaves the read buffer alone. -/
theorem connSetState_readView (c : Conn) (e : Env) (s : ConnState) (hs : s ≠ .read ∨ c.state = .read) :
    (connSetState c e s).1.readView = c.readView := by
  unfold connSetState
  split_ifs with h1 h2
  · exact absurd (h2.trans (hs.resolve_left (not_not.2 h2)).symm) h1
  all_goals rfl

@[simp] theorem connSetState_state (c : Conn) (e : Env) (s : ConnState) : (connSetState c e s).1.state = s :=
  (connSetState_unshrunk c e s).1

@[simp] theorem connSetState_noreply (c : Conn) (e : Env) (s : ConnState) :
    (connSetState c e s).1.noreply = c.noreply :=
  (connSetState_unshrunk c e s).2.2.1

@[simp] theorem connSetState_mode (c : Conn) (e : Env) (s : ConnState) : (connSetState c e s).1.mode = c.mode := by
  obtain ⟨-, -, -, -, -, -, -, h8, -, -, -, h12, -, h14, h15, h16, -⟩ := (connSetState_unshrunk c e s).2
  simp only [Conn.mode, h8, h12, h14, h15, h16]

@[simp] theorem connSetState_item (c : Conn) (e : Env) (s : ConnState) : (connSetState c e s).1.item = c.item :=
  congrArg (fun m => m.1) (connSetState_mode c e s)

@[simp] theorem connSetState_ritem (c : Conn) (e : Env) (s : ConnState) : (connSetState c e s).1.ritem = c.ritem :=
  congrArg (fun m => m.2.1) (connSetState_mode c e s)

@[simp] theorem connSetState_rlbytes (c : Conn) (e : Env) (s : ConnState) :
    (connSetState c e s).1.rlbytes = c.rlbytes :=
  congrArg (fun m => m.2.2.1) (connSetState_mode c e s)

@[simp] theorem connSetState_iovused (c : Conn) (e : Env) (s : ConnState) :
    (connSetState c e s).1.iovused = c.iovused :=
  (connSetState_unshrunk c e s).2.2.2.1

/-- `out_string (c, str)`. -/
def outString (c : Conn) (e : Env) (str : List Char) : Conn × Env :=
  if c.noreply then connSetState { c with noreply := false } e .read
  else
    let str := if c.wsize < str.length + 2 then "SERVER_ERROR output line too long".toList else str
    let r := connSetState { c with wcurr := str ++ ['\r', '\n'], wbytes := str.length + 2 } e .write
    ({ r.1 with writeAndGo := .read }, r.2)

/-- From `conn_read`, `out_string` leaves the read buffer alone. -/
theorem outString_readView (c : Conn) (e : Env) (str : List Char) (h : c.state = .read) :
    (outString c e str).1.readView = c.readView := by
  unfold outString
  by_cases hn : c.noreply
  · rw [if_pos hn]; exact connSetState_readView _ e .read (.inr h)
  · rw [if_neg hn]; exact connSetState_readView _ e .write (.inl (by decide))

theorem outString_readView_of {c c' : Conn} (e : Env) (str : List Char) (hc : c'.readSide = c.readSide)
    (h : c.state = .read) : (outString c' e str).1.readView = c.readView :=
  (outString_readView c' e str ((Conn.state_eq_of_readSide hc).trans h)).trans (congrArg Prod.fst hc)

theorem outString_ticked (c : Conn) (e : Env) (str : List Char) : e.Ticked (outString c e str).2 := by
  unfold outString; split_ifs <;> exact connSetState_ticked _ _ _

end Beansdb
