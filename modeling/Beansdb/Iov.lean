import Beansdb.Conn
/-!
# Iov — `add_msghdr`, `ensure_iov_space` and `add_iov`

The reply a command builds is a list of `msghdr`s over one array of `iovec`s.  `add_iov` appends a fragment to the
last `msghdr`, starting a new one when that one holds `IOV_MAX` fragments or, for the first, `MAX_PAYLOAD_SIZE` bytes,
and splits a fragment that would overflow the first.  `limit_to_mtu` is read before `add_msghdr` runs, as in the
source.  A failed allocation returns `none` (`add_msghdr`, `ensure_iov_space`) or the flag `false` (`add_iov`), the
source's `-1`.
-/
namespace Beansdb

instance : Inhabited Iovec := ⟨⟨[], 0, none⟩⟩
instance : Inhabited Msghdr := ⟨⟨0, 0⟩⟩

/-- The allocator's next answer. -/
def Env.ok (e : Env) : Bool := e.allocs e.nalloc

/-- The allocator after one more call. -/
def Env.tick (e : Env) : Env := { e with nalloc := e.nalloc + 1 }

/-- `e'` is `e` after some calls to the allocator, perhaps with a fault: nothing else of the world has moved. -/
def Env.Ticked (e e' : Env) : Prop := ∃ n f, e.nalloc ≤ n ∧ e' = { e with nalloc := n, fault := f }

theorem Env.Ticked.refl (e : Env) : e.Ticked e := ⟨e.nalloc, e.fault, le_rfl, rfl⟩

theorem Env.Ticked.trans {a b c : Env} (h1 : a.Ticked b) (h2 : b.Ticked c) : a.Ticked c := by
  obtain ⟨n, f, hn, rfl⟩ := h1
  obtain ⟨n', f', hn', rfl⟩ := h2
  exact ⟨n', f', hn.trans hn', rfl⟩

theorem Env.ticked_tick (e : Env) : e.Ticked e.tick := ⟨_, e.fault, Nat.le_succ _, rfl⟩

theorem Env.ticked_fault (e : Env) : e.Ticked { e with fault := true } := ⟨_, true, le_rfl, rfl⟩

theorem Env.Ticked.store_eq {e e' : Env} (h : e.Ticked e') : e'.store = e.store := by
  obtain ⟨n, f, -, rfl⟩ := h; rfl

theorem Env.Ticked.freed_eq {e e' : Env} (h : e.Ticked e') : e'.freed = e.freed := by
  obtain ⟨n, f, -, rfl⟩ := h; rfl

theorem Env.Ticked.stats_eq {e e' : Env} (h : e.Ticked e') : e'.stats = e.stats := by
  obtain ⟨n, f, -, rfl⟩ := h; rfl

/-- The allocator refuses every call from now on. -/
def Env.Refuses (e : Env) : Prop := ∀ n, e.nalloc ≤ n → e.allocs n = false

theorem Env.Refuses.ok {e : Env} (h : e.Refuses) : e.ok = false := h _ le_rfl

theorem Env.Refuses.ticked {e e' : Env} (h : e.Refuses) (ht : e.Ticked e') : e'.Refuses := by
  obtain ⟨n, f, hn, rfl⟩ := ht
  exact fun m hm => h m (hn.trans hm)

theorem Env.Refuses.free {e : Env} (h : e.Refuses) (x : Held) : (e.free x).Refuses := h

/-- The allocator grants every call from now on. -/
def Env.Grants (e : Env) : Prop := ∀ n, e.nalloc ≤ n → e.allocs n = true

theorem Env.Grants.ok {e : Env} (h : e.Grants) : e.ok = true := h _ le_rfl

theorem Env.Grants.ticked {e e' : Env} (h : e.Grants) (ht : e.Ticked e') : e'.Grants := by
  obtain ⟨n, f, hn, rfl⟩ := ht
  exact fun m hm => h m (hn.trans hm)

theorem Env.Ticked.outq_eq {e e' : Env} (h : e.Ticked e') : e'.outq = e.outq := by
  obtain ⟨n, f, -, rfl⟩ := h; rfl

theorem Env.Ticked.sends_eq {e e' : Env} (h : e.Ticked e') : e'.sends = e.sends := by
  obtain ⟨n, f, -, rfl⟩ := h; rfl

/-- The input side of the world: the events dispatched, the bytes no `read` has returned yet, what `conn_swallow`
has thrown away of the current body, and the allocator's answers. -/
def Env.input (e : Env) : List Event × List Char × List Char × (Nat → Bool) := (e.log, e.inq, e.swallowed, e.allocs)

theorem Env.Ticked.input_eq {e e' : Env} (h : e.Ticked e') : e'.input = e.input := by
  obtain ⟨n, f, -, rfl⟩ := h; rfl

/-- The read buffer of a connection, its size and the window of unread bytes in it. -/
def Conn.readView (c : Conn) : List Char × Nat × Nat × Nat := (c.rbuf, c.rsize, c.rcurr, c.rbytes)

/-- What the connection is reading: the pending item, where its body goes and how much of it is missing, the bytes
left to throw away, and the state `conn_write` hands over to. -/
def Conn.mode (c : Conn) : Option Held × Nat × Nat × Nat × ConnState :=
  (c.item, c.ritem, c.rlbytes, c.sbytes, c.writeAndGo)

/-- The read view, the state and the mode: what building a reply leaves alone. -/
def Conn.readSide (c : Conn) :
    (List Char × Nat × Nat × Nat) × ConnState × (Option Held × Nat × Nat × Nat × ConnState) :=
  (c.readView, c.state, c.mode)

theorem Conn.state_eq_of_readSide {c c' : Conn} (h : c'.readSide = c.readSide) : c'.state = c.state :=
  congrArg (fun x => x.2.1) h

/-- The `msghdr` `add_msghdr` writes at `msgused`: it starts at `c->iov[c->iovused]`, empty. -/
def pushMsghdr (c : Conn) : Conn :=
  { c with msglist := writeAt c.msglist c.msgused ⟨c.iovused, 0⟩, msgbytes := 0, msgused := c.msgused + 1 }

/-- `add_msghdr (c)`: doubles `msglist` when it is full. -/
def addMsghdr (c : Conn) (e : Env) : Option Conn × Env :=
  if c.msgsize = c.msgused then
    if e.ok then (some (pushMsghdr { c with msgsize := c.msgsize * 2 }), e.tick) else (none, e.tick)
  else (some (pushMsghdr c), e)

theorem addMsghdr_ticked (c : Conn) (e : Env) : e.Ticked (addMsghdr c e).2 := by
  unfold addMsghdr; split_ifs <;> first | exact e.ticked_tick | exact .refl e

theorem addMsghdr_fault (c : Conn) (e : Env) : (addMsghdr c e).2.fault = e.fault := by
  unfold addMsghdr; split_ifs <;> rfl

/-- The loop of `ensure_iov_space` that points the first `n` `msghdr`s at the moved `iov`: the `i`-th starts after
the fragments of those before it. -/
def repoint : List Msghdr → Nat → Nat → List Msghdr
  | [], _, _ => []
  | m :: l, 0, _ => m :: l
  | m :: l, n + 1, acc => { m with iov := acc } :: repoint l n (acc + m.iovlen)

/-- `ensure_iov_space (c)`: doubles `iov` when it is full. -/
def ensureIovSpace (c : Conn) (e : Env) : Option Conn × Env :=
  if c.iovsize ≤ c.iovused then
    if e.ok then (some { c with iovsize := c.iovsize * 2, msglist := repoint c.msglist c.msgused 0 }, e.tick)
    else (none, e.tick)
  else (some c, e)

theorem ensureIovSpace_ticked (c : Conn) (e : Env) : e.Ticked (ensureIovSpace c e).2 := by
  unfold ensureIovSpace; split_ifs <;> first | exact e.ticked_tick | exact .refl e

theorem ensureIovSpace_fault (c : Conn) (e : Env) : (ensureIovSpace c e).2.fault = e.fault := by
  unfold ensureIovSpace; split_ifs <;> rfl

theorem ensureIovSpace_readSide {c c' : Conn} {e e' : Env} (h : ensureIovSpace c e = (some c', e')) :
    c'.readSide = c.readSide := by
  unfold ensureIovSpace at h
  split_ifs at h <;> cases h <;> rfl

theorem ensureIovSpace_full {c : Conn} {e : Env} (hf : c.iovsize ≤ c.iovused) (hr : e.Refuses) :
    ensureIovSpace c e = (none, e.tick) := by
  simp [ensureIovSpace, hf, hr.ok]

/-- The last `msghdr`, `c->msglist[c->msgused - 1]`. -/
def lastMsg (c : Conn) : Msghdr := c.msglist.getD (c.msgused - 1) default

/-- The bytes of the fragment `add_iov` takes in one pass: all of `len`, or what fits the first message. -/
def takeLen (limitToMtu : Bool) (msgbytes len : Nat) : Nat :=
  if limitToMtu ∧ maxPayloadSize < len + msgbytes then maxPayloadSize - msgbytes else len

/-- Writing one fragment into the last `msghdr`. -/
def putIov (c : Conn) (v : Iovec) : Conn :=
  let m := lastMsg c
  { c with iov := writeAt c.iov (m.iov + m.iovlen) v, msgbytes := c.msgbytes + v.len, iovused := c.iovused + 1,
           msglist := writeAt c.msglist (c.msgused - 1) { m with iovlen := m.iovlen + 1 } }

theorem putIov_readSide (c : Conn) (v : Iovec) : (putIov c v).readSide = c.readSide := rfl

/-- The head of an `add_iov` pass: a new `msghdr` when the last one holds `IOV_MAX` fragments or, with
`limit_to_mtu`, `MAX_PAYLOAD_SIZE` bytes. -/
def startMsghdr (c : Conn) (e : Env) (limitToMtu : Bool) : Option Conn × Env :=
  if (lastMsg c).iovlen = iovMax ∨ (limitToMtu ∧ maxPayloadSize ≤ c.msgbytes) then addMsghdr c e else (some c, e)

theorem startMsghdr_ticked (c : Conn) (e : Env) (l : Bool) : e.Ticked (startMsghdr c e l).2 := by
  unfold startMsghdr; split_ifs; exacts [addMsghdr_ticked c e, .refl e]

theorem startMsghdr_fault (c : Conn) (e : Env) (l : Bool) : (startMsghdr c e l).2.fault = e.fault := by
  unfold startMsghdr; split_ifs; exacts [addMsghdr_fault c e, rfl]

/-- A new `msghdr` moves no fragment, no `ilist` slot and nothing of the read side. -/
theorem startMsghdr_conn {c c' : Conn} {e e' : Env} {l : Bool} (h : startMsghdr c e l = (some c', e')) :
    c'.iovused = c.iovused ∧ c'.iovsize = c.iovsize ∧ c.msgused ≤ c'.msgused ∧ c'.isize = c.isize ∧
      c'.readSide = c.readSide := by
  unfold startMsghdr addMsghdr at h
  split_ifs at h <;> cases h <;> exact ⟨rfl, rfl, by simp [pushMsghdr], rfl, rfl⟩

/-- The passes of `add_iov`'s `do … while` loop, at most `fuel` of them (`addIov` gives enough).  The flag is the
return value, `true` for 0; a pass that fails leaves what the passes before it wrote. -/
def addIovLoop : Nat → Conn → Env → List Char → Nat → Option Nat → Conn × Env × Bool
  | 0, c, e, _, _, _ => (c, e, true)
  | fuel + 1, c, e, buf, len, owner =>
    let limitToMtu := decide (c.msgused = 1)
    match startMsghdr c e limitToMtu with
    | (none, e) => (c, e, false)
    | (some c, e) =>
      match ensureIovSpace c e with
      | (none, e) => (c, e, false)
      | (some c, e) =>
        let n := takeLen limitToMtu c.msgbytes len
        let c := putIov c ⟨buf, n, owner⟩
        if n < len then addIovLoop fuel c e (buf.drop n) (len - n) owner else (c, e, true)

theorem addIovLoop_frame (fuel : Nat) (c : Conn) (e : Env) (buf : List Char) (len : Nat) (o : Option Nat) :
    e.Ticked (addIovLoop fuel c e buf len o).2.1 ∧ (addIovLoop fuel c e buf len o).1.readSide = c.readSide := by
  induction fuel generalizing c e buf len with
  | zero => exact ⟨.refl e, rfl⟩
  | succ n ih =>
    have h1 := startMsghdr_ticked c e (decide (c.msgused = 1))
    simp only [addIovLoop]
    split
    · next e1 heq => rw [heq] at h1; exact ⟨h1, rfl⟩
    · next c1 e1 heq =>
      rw [heq] at h1
      have hc1 := (startMsghdr_conn heq).2.2.2.2
      have h2 := ensureIovSpace_ticked c1 e1
      split
      · next e2 heq2 => rw [heq2] at h2; exact ⟨h1.trans h2, hc1⟩
      · next c2 e2 heq2 =>
        rw [heq2] at h2
        have hc : (putIov c2 ⟨buf, takeLen (decide (c.msgused = 1)) c2.msgbytes len, o⟩).readSide = c.readSide :=
          (ensureIovSpace_readSide heq2).trans hc1
        split_ifs
        · have := ih (putIov c2 ⟨buf, takeLen (decide (c.msgused = 1)) c2.msgbytes len, o⟩) e2
            (buf.drop (takeLen (decide (c.msgused = 1)) c2.msgbytes len))
            (len - takeLen (decide (c.msgused = 1)) c2.msgbytes len)
          exact ⟨h1.trans (h2.trans this.1), this.2.trans hc⟩
        · exact ⟨h1.trans h2, hc⟩

/-- The passes of `add_iov` are defined, and drop no `msghdr`. -/
theorem addIovLoop_fault (fuel : Nat) (c : Conn) (e : Env) (buf : List Char) (len : Nat) (o : Option Nat) :
    (addIovLoop fuel c e buf len o).2.1.fault = e.fault ∧ c.msgused ≤ (addIovLoop fuel c e buf len o).1.msgused := by
  induction fuel generalizing c e buf len with
  | zero => exact ⟨rfl, le_rfl⟩
  | succ n ih =>
    have h1 := startMsghdr_fault c e (decide (c.msgused = 1))
    simp only [addIovLoop]
    split
    · next e1 heq => rw [heq] at h1; exact ⟨h1, le_rfl⟩
    · next c1 e1 heq =>
      rw [heq] at h1
      have hm1 := (startMsghdr_conn heq).2.2.1
      have h2 := ensureIovSpace_fault c1 e1
      split
      · next e2 heq2 => rw [heq2] at h2; exact ⟨h2.trans h1, hm1⟩
      · next c2 e2 heq2 =>
        rw [heq2] at h2
        have hm2 : c1.msgused ≤ c2.msgused := by
          unfold ensureIovSpace at heq2; split_ifs at heq2 <;> cases heq2 <;> exact le_rfl
        split_ifs
        · have := ih (putIov c2 ⟨buf, takeLen (decide (c.msgused = 1)) c2.msgbytes len, o⟩) e2
            (buf.drop (takeLen (decide (c.msgused = 1)) c2.msgbytes len))
            (len - takeLen (decide (c.msgused = 1)) c2.msgbytes len)
          exact ⟨this.1.trans (h2.trans h1), hm1.trans (hm2.trans this.2)⟩
        · exact ⟨h2.trans h1, hm1.trans hm2⟩

/-- `add_iov (c, buf, len)`, for a fragment of `owner`'s memory.  With no `msghdr` (`msgused = 0`) the source reads
`c->msglist[-1]`: undefined. -/
def addIov (c : Conn) (e : Env) (buf : List Char) (len : Nat) (owner : Option Nat) : Conn × Env × Bool :=
  if c.msgused = 0 then (c, { e with fault := true }, false) else addIovLoop (len + 1) c e buf len owner

theorem addIov_frame (c : Conn) (e : Env) (buf : List Char) (len : Nat) (o : Option Nat) :
    e.Ticked (addIov c e buf len o).2.1 ∧ (addIov c e buf len o).1.readSide = c.readSide := by
  unfold addIov; split_ifs; exacts [⟨e.ticked_fault, rfl⟩, addIovLoop_frame _ _ _ _ _ _]

/-- With a `msghdr` open, `add_iov` is defined and leaves one open. -/
theorem addIov_fault (c : Conn) (e : Env) (buf : List Char) (len : Nat) (o : Option Nat) (hm : c.msgused ≠ 0) :
    (addIov c e buf len o).2.1.fault = e.fault ∧ (addIov c e buf len o).1.msgused ≠ 0 := by
  have h := addIovLoop_fault (len + 1) c e buf len o
  simp only [addIov, hm, if_false]
  exact ⟨h.1, by omega⟩

/-- With the `iov` array full and the allocator refusing, `add_iov` fails, and the array stays full. -/
theorem addIov_full {c : Conn} {e : Env} (buf : List Char) (len : Nat) (o : Option Nat) (hm : c.msgused ≠ 0)
    (hf : c.iovsize ≤ c.iovused) (hr : e.Refuses) :
    (addIov c e buf len o).2.2 = false ∧ (addIov c e buf len o).1.iovsize ≤ (addIov c e buf len o).1.iovused ∧
      (addIov c e buf len o).1.msgused ≠ 0 ∧ (addIov c e buf len o).1.isize = c.isize := by
  have h1 := startMsghdr_ticked c e (decide (c.msgused = 1))
  simp only [addIov, hm, if_false, addIovLoop]
  split
  · exact ⟨rfl, hf, hm, rfl⟩
  · next c1 e1 heq =>
    rw [heq] at h1
    obtain ⟨hu, hs, hmu, hi, -⟩ := startMsghdr_conn heq
    rw [ensureIovSpace_full (by omega) (hr.ticked h1)]
    dsimp only
    exact ⟨rfl, by omega, by omega, hi⟩

end Beansdb
