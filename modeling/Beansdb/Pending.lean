import Beansdb.Iov
/-!
# Pending — the reply `add_iov` builds

`Conn.pending` is what a reply holds so far: the bytes of the first `iovused` fragments, in order.  `Conn.IovOk` is
how `add_msghdr`, `ensure_iov_space` and `add_iov` keep the message list: the `msghdr`s in use cut those fragments
into runs laid out one after another (`layout`), which is where `ensure_iov_space` points them again after a move.
With an allocator that grants every call each operation keeps `IovOk`, and `add_iov` appends exactly the bytes it was
given (`addIov_pending`), over however many passes the `MAX_PAYLOAD_SIZE` and `IOV_MAX` splits take.
-/
namespace Beansdb

/-- The `msghdr`s of `iovlen`s `ls` laid out one after another from `iov[s]`. -/
def layout : List Nat → Nat → List Msghdr
  | [], _ => []
  | l :: ls, s => ⟨s, l⟩ :: layout ls (s + l)

theorem layout_append_single (l : Nat) :
    ∀ (ls : List Nat) (s : Nat), layout (ls ++ [l]) s = layout ls s ++ [⟨s + ls.sum, l⟩]
  | [], s => by simp [layout]
  | x :: ls, s => by
    rw [List.cons_append, layout, layout, layout_append_single l ls (s + x), List.sum_cons, Nat.add_assoc]; rfl

/-- The `msghdr`s in use. -/
def Conn.msgs (c : Conn) : List Msghdr := c.msglist.take c.msgused

/-- The bytes of the reply built so far: those of the first `iovused` fragments. -/
def Conn.pending (c : Conn) : List Char := (c.iov.take c.iovused).flatMap Iovec.bytes

/-- The message list of a reply being built: the `msghdr`s in use are laid out one after another over the first
`iovused` fragments, and each of those fragments holds the bytes its length counts. -/
structure Conn.IovOk (c : Conn) : Prop where
  laidOut : c.msgs = layout (c.msgs.map Msghdr.iovlen) 0
  used   : (c.msgs.map Msghdr.iovlen).sum = c.iovused
  iovLen : c.iovused ≤ c.iov.length
  msgLen : c.msgused ≤ c.msglist.length
  frags  : ∀ v ∈ c.iov.take c.iovused, v.len ≤ v.base.length

/-- `process_command` starts each reply with no `msghdr` and no fragment. -/
theorem Conn.IovOk.reset (c : Conn) : ({ c with msgcurr := 0, msgused := 0, iovused := 0 } : Conn).IovOk :=
  ⟨rfl, rfl, Nat.zero_le _, Nat.zero_le _, by simp⟩

theorem Conn.pending_reset (c : Conn) : ({ c with msgcurr := 0, msgused := 0, iovused := 0 } : Conn).pending = [] :=
  rfl

/-- Fields of the message list alone decide `IovOk`. -/
theorem Conn.IovOk.of_eq {c c' : Conn} (h : c.IovOk) (hm : c'.msgs = c.msgs) (hu : c'.iovused = c.iovused)
    (hi : c'.iov = c.iov) (hl : c'.msgused ≤ c'.msglist.length) : c'.IovOk :=
  ⟨by rw [hm]; exact h.laidOut, by rw [hm, hu]; exact h.used, by rw [hu, hi]; exact h.iovLen, hl,
   by rw [hu, hi]; exact h.frags⟩

theorem Conn.IovOk.push {c : Conn} (h : c.IovOk) : (pushMsghdr c).IovOk := by
  have hm : (pushMsghdr c).msgs = c.msgs ++ [⟨c.iovused, 0⟩] := take_writeAt _ _ _ h.msgLen
  refine ⟨?_, ?_, h.iovLen, length_writeAt _ _ _ h.msgLen, h.frags⟩
  · rw [hm, List.map_append, List.map_singleton, layout_append_single, ← h.laidOut, h.used, Nat.zero_add]
  · rw [hm, List.map_append, List.sum_append, h.used]; rfl

/-- The last `msghdr` in use ends where the fragments in use do. -/
theorem Conn.IovOk.last {c : Conn} (h : c.IovOk) (hm : c.msgused ≠ 0) :
    c.msgs = c.msglist.take (c.msgused - 1) ++ [lastMsg c] ∧
      c.msglist.take (c.msgused - 1) = layout ((c.msglist.take (c.msgused - 1)).map Msghdr.iovlen) 0 ∧
      (lastMsg c).iov = ((c.msglist.take (c.msgused - 1)).map Msghdr.iovlen).sum ∧
      (lastMsg c).iov + (lastMsg c).iovlen = c.iovused := by
  have hsplit : c.msgs = c.msglist.take (c.msgused - 1) ++ [lastMsg c] := by
    have hlt : c.msgused - 1 < c.msglist.length := by have := h.msgLen; omega
    rw [Conn.msgs, show c.msgused = c.msgused - 1 + 1 by omega, List.take_succ, List.getElem?_eq_getElem hlt,
      lastMsg, List.getD_eq_getElem?_getD, List.getElem?_eq_getElem hlt]
    rfl
  have hl := h.laidOut
  rw [hsplit, List.map_append, List.map_singleton, layout_append_single, Nat.zero_add] at hl
  obtain ⟨h1, h2⟩ := List.append_inj' hl rfl
  have hiov : (lastMsg c).iov = ((c.msglist.take (c.msgused - 1)).map Msghdr.iovlen).sum := by
    rw [List.singleton_inj.1 h2]
  have hu := h.used
  rw [hsplit, List.map_append, List.sum_append] at hu
  exact ⟨hsplit, h1, hiov, by simp only [List.map_singleton, List.sum_singleton] at hu; omega⟩

/-- The `msghdr`s in use after a fragment goes into the last one. -/
theorem Conn.IovOk.put_msgs {c : Conn} (h : c.IovOk) (hm : c.msgused ≠ 0) (v : Iovec) :
    (putIov c v).msgs = c.msglist.take (c.msgused - 1) ++ [⟨(lastMsg c).iov, (lastMsg c).iovlen + 1⟩] := by
  obtain ⟨k, hk⟩ : ∃ k, c.msgused = k + 1 := ⟨c.msgused - 1, by omega⟩
  have hlen : k ≤ c.msglist.length := by have := h.msgLen; omega
  show (writeAt c.msglist (c.msgused - 1) _).take c.msgused = _
  rw [hk, Nat.add_sub_cancel, take_writeAt _ _ _ hlen]

/-- The fragments in use after a fragment goes in: it is the new last one. -/
theorem Conn.IovOk.put_iov {c : Conn} (h : c.IovOk) (hm : c.msgused ≠ 0) (v : Iovec) :
    (putIov c v).iov.take (c.iovused + 1) = c.iov.take c.iovused ++ [v] := by
  show (writeAt c.iov ((lastMsg c).iov + (lastMsg c).iovlen) v).take _ = _
  rw [(h.last hm).2.2.2, take_writeAt _ _ _ h.iovLen]

/-- **One fragment.**  Writing a fragment into the last `msghdr` keeps the layout and appends the fragment's bytes to
the reply. -/
theorem Conn.IovOk.put {c : Conn} (h : c.IovOk) (hm : c.msgused ≠ 0) {v : Iovec} (hv : v.len ≤ v.base.length) :
    (putIov c v).IovOk ∧ (putIov c v).pending = c.pending ++ v.bytes := by
  obtain ⟨-, hpre, hiov, hend⟩ := h.last hm
  have hmsgs := h.put_msgs hm v
  have hiovs := h.put_iov hm v
  have hsum : ((putIov c v).msgs.map Msghdr.iovlen).sum = c.iovused + 1 := by
    rw [hmsgs, List.map_append, List.sum_append, ← hiov]; simp only [List.map_singleton, List.sum_singleton]; omega
  refine ⟨⟨?_, hsum, ?_, ?_, ?_⟩, ?_⟩
  · rw [hmsgs, List.map_append, List.map_singleton, layout_append_single, ← hpre, Nat.zero_add, ← hiov]
  · show c.iovused + 1 ≤ (writeAt c.iov ((lastMsg c).iov + (lastMsg c).iovlen) v).length
    rw [hend]; exact length_writeAt _ _ _ h.iovLen
  · have := length_writeAt c.msglist (c.msgused - 1) { lastMsg c with iovlen := (lastMsg c).iovlen + 1 }
      (by have := h.msgLen; omega)
    show c.msgused ≤ (writeAt c.msglist (c.msgused - 1) { lastMsg c with iovlen := (lastMsg c).iovlen + 1 }).length
    omega
  · show ∀ x ∈ (putIov c v).iov.take (c.iovused + 1), _
    rw [hiovs]
    intro x hx
    rcases List.mem_append.1 hx with hx | hx
    · exact h.frags x hx
    · rw [List.mem_singleton.1 hx]; exact hv
  · show ((putIov c v).iov.take (c.iovused + 1)).flatMap Iovec.bytes = _
    rw [hiovs, List.flatMap_append, List.flatMap_singleton]; rfl

/-! ## The passes of `add_iov` with an allocator that grants every call -/

theorem startMsghdr_some (c : Conn) {e : Env} (hg : e.Grants) (l : Bool) : (startMsghdr c e l).1.isSome := by
  unfold startMsghdr addMsghdr; split_ifs <;> simp_all [hg.ok]

theorem ensureIovSpace_some (c : Conn) {e : Env} (hg : e.Grants) : (ensureIovSpace c e).1.isSome := by
  unfold ensureIovSpace; split_ifs <;> simp_all [hg.ok]

/-- A pass's new `msghdr` keeps the layout and leaves the first message room under `MAX_PAYLOAD_SIZE`. -/
theorem startMsghdr_iovOk {c c' : Conn} {e e' : Env} {l : Bool} (hs : startMsghdr c e l = (some c', e'))
    (h : c.IovOk) : c'.IovOk ∧ c'.pending = c.pending ∧ c.msgused ≤ c'.msgused ∧
      ¬(l = true ∧ maxPayloadSize ≤ c'.msgbytes) := by
  have hc : ({ c with msgsize := c.msgsize * 2 } : Conn).IovOk := ⟨h.1, h.2, h.3, h.4, h.5⟩
  unfold startMsghdr addMsghdr at hs
  split_ifs at hs with hcond <;> cases hs
  · exact ⟨hc.push, rfl, Nat.le_succ _, by simp [pushMsghdr, maxPayloadSize]⟩
  · exact ⟨h.push, rfl, Nat.le_succ _, by simp [pushMsghdr, maxPayloadSize]⟩
  · exact ⟨h, rfl, le_rfl, fun h' => hcond (.inr h')⟩

theorem repoint_take : ∀ (l : List Msghdr) (n s : Nat),
    (repoint l n s).take n = layout ((l.take n).map Msghdr.iovlen) s
  | [], n, _ => by cases n <;> rfl
  | _ :: _, 0, _ => rfl
  | m :: l, n + 1, s => by
    rw [repoint, List.take_succ_cons, List.take_succ_cons, List.map_cons, layout, repoint_take l n]

theorem length_repoint : ∀ (l : List Msghdr) (n s : Nat), (repoint l n s).length = l.length
  | [], _, _ => rfl
  | _ :: _, 0, _ => rfl
  | _ :: l, n + 1, _ => by rw [repoint, List.length_cons, List.length_cons, length_repoint l n]

/-- Moving `iov` changes nothing of the reply but where the `msghdr`s point, and they point where the layout had
them. -/
theorem ensureIovSpace_msgs {c c' : Conn} {e e' : Env} (hs : ensureIovSpace c e = (some c', e')) (h : c.IovOk) :
    c'.msgs = c.msgs ∧ c'.iov = c.iov ∧ c'.iovused = c.iovused ∧ c'.msgused = c.msgused ∧
      c'.msgbytes = c.msgbytes ∧ c'.msglist.length = c.msglist.length := by
  unfold ensureIovSpace at hs
  split_ifs at hs <;> cases hs
  · refine ⟨?_, rfl, rfl, rfl, rfl, length_repoint _ _ _⟩
    show (repoint c.msglist c.msgused 0).take c.msgused = _
    rw [repoint_take, ← Conn.msgs, ← h.laidOut]
  · exact ⟨rfl, rfl, rfl, rfl, rfl, rfl⟩

theorem ensureIovSpace_iovOk {c c' : Conn} {e e' : Env} (hs : ensureIovSpace c e = (some c', e')) (h : c.IovOk) :
    c'.IovOk ∧ c'.pending = c.pending ∧ c'.msgused = c.msgused ∧ c'.msgbytes = c.msgbytes := by
  obtain ⟨hm, hi, hu, hmu, hb, hl⟩ := ensureIovSpace_msgs hs h
  have hp : c'.pending = c.pending := by rw [Conn.pending, Conn.pending, hi, hu]
  exact ⟨h.of_eq hm hu hi (by rw [hmu, hl]; exact h.msgLen), hp, hmu, hb⟩

theorem takeLen_le (l : Bool) (mb len : Nat) : takeLen l mb len ≤ len := by
  unfold takeLen; split_ifs <;> omega

/-- A pass takes at least one byte of a non-empty fragment. -/
theorem takeLen_pos {l : Bool} {mb len : Nat} (h : ¬(l = true ∧ maxPayloadSize ≤ mb)) (hl : 0 < len) :
    0 < takeLen l mb len := by
  unfold takeLen; split_ifs with h'
  · have : ¬maxPayloadSize ≤ mb := fun hp => h ⟨h'.1, hp⟩
    omega
  · exact hl

/-- **`add_iov`'s passes append the fragment.**  With the allocator granting every call, passes enough for `len`
bytes succeed, keep the layout and append the first `len` bytes of `buf` to the reply. -/
theorem addIovLoop_pending (fuel : Nat) : ∀ (c : Conn) (e : Env) (buf : List Char) (len : Nat) (o : Option Nat),
    c.IovOk → c.msgused ≠ 0 → e.Grants → len ≤ buf.length → len < fuel →
    (addIovLoop fuel c e buf len o).2.2 = true ∧ (addIovLoop fuel c e buf len o).1.IovOk ∧
      (addIovLoop fuel c e buf len o).1.msgused ≠ 0 ∧
      (addIovLoop fuel c e buf len o).1.pending = c.pending ++ buf.take len := by
  induction fuel with
  | zero => intro c e buf len o _ _ _ _ hf; omega
  | succ fuel ih =>
    intro c e buf len o h hm hg hb hf
    have hs1 := startMsghdr_some c hg (decide (c.msgused = 1))
    have ht1 := startMsghdr_ticked c e (decide (c.msgused = 1))
    simp only [addIovLoop]
    split
    · next e1 heq => rw [heq] at hs1; cases hs1
    · next c1 e1 heq =>
      rw [heq] at ht1
      obtain ⟨h1, hp1, hm1, hroom⟩ := startMsghdr_iovOk heq h
      have hg1 := hg.ticked ht1
      have hs2 := ensureIovSpace_some c1 hg1
      have ht2 := ensureIovSpace_ticked c1 e1
      split
      · next e2 heq2 => rw [heq2] at hs2; cases hs2
      · next c2 e2 heq2 =>
        rw [heq2] at ht2
        obtain ⟨h2, hp2, hm2, hb2⟩ := ensureIovSpace_iovOk heq2 h1
        have hn := takeLen_le (decide (c.msgused = 1)) c2.msgbytes len
        have hm2' : c2.msgused ≠ 0 := by omega
        obtain ⟨h3, hp3⟩ := h2.put hm2' (v := ⟨buf, takeLen (decide (c.msgused = 1)) c2.msgbytes len, o⟩)
          (hn.trans hb)
        have hp : (putIov c2 ⟨buf, takeLen (decide (c.msgused = 1)) c2.msgbytes len, o⟩).pending =
            c.pending ++ buf.take (takeLen (decide (c.msgused = 1)) c2.msgbytes len) := by
          rw [hp3, hp2, hp1]; rfl
        split_ifs with hlt
        · -- the fragment did not fit the first message: the rest goes in the next pass
          have hpos := takeLen_pos (hb2 ▸ hroom) (by omega : 0 < len)
          obtain ⟨r1, r2, r3, r4⟩ := ih _ e2 (buf.drop (takeLen (decide (c.msgused = 1)) c2.msgbytes len))
            (len - takeLen (decide (c.msgused = 1)) c2.msgbytes len) o h3 hm2' (hg1.ticked ht2)
            (by simp; omega) (by omega)
          refine ⟨r1, r2, r3, ?_⟩
          rw [r4, hp, List.append_assoc, ← List.take_add, Nat.add_sub_cancel' hn]
        · have heq : takeLen (decide (c.msgused = 1)) c2.msgbytes len = len := by omega
          exact ⟨rfl, h3, hm2', by rw [hp, heq]⟩

/-- **`add_iov` appends the fragment.**  On a reply with a `msghdr`, with the allocator granting every call,
`add_iov (c, buf, len)` succeeds, keeps the layout and appends the first `len` bytes of `buf`. -/
theorem addIov_pending {c : Conn} {e : Env} (buf : List Char) (len : Nat) (o : Option Nat) (h : c.IovOk)
    (hm : c.msgused ≠ 0) (hg : e.Grants) (hb : len ≤ buf.length) :
    (addIov c e buf len o).2.2 = true ∧ (addIov c e buf len o).1.IovOk ∧ (addIov c e buf len o).1.msgused ≠ 0 ∧
      (addIov c e buf len o).1.pending = c.pending ++ buf.take len := by
  simp only [addIov, hm, if_false]
  exact addIovLoop_pending (len + 1) c e buf len o h hm hg hb (Nat.lt_succ_self _)

end Beansdb
