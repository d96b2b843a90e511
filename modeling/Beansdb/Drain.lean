import Beansdb.Pending
import Beansdb.Machine
/-!
# Drain — `conn_mwrite` sends the reply, each byte once

`Conn.unsent` is what `transmit` still has to send: the bytes of `msg[msgcurr..msgused)`.  `Conn.TxOk` is what it
needs of the message list: the runs of the messages still to send lie one after another inside the fragments in use,
and those fragments hold the bytes their lengths count.  A reply `add_iov` built has it, with the whole reply still to
send (`Conn.IovOk.txOk`).  A `sendmsg` that accepts `res` bytes trims the current message by exactly those bytes
(`trimSent_spec`, `afterSend_tx`), so each pass of `conn_mwrite` moves a prefix of `unsent` to the socket or closes
(`stepTransmit_tx`), and a run of passes that gets back to `conn_read` has sent all of it, once (`drains_outq`).
-/
namespace Beansdb

/-- The messages `transmit` has still to send, `msg[msgcurr..msgused)`. -/
def Conn.unsentMsgs (c : Conn) : List Msghdr := c.msgs.drop c.msgcurr

/-- The bytes `transmit` has still to send. -/
def Conn.unsent (c : Conn) : List Char := c.unsentMsgs.flatMap (msgBytes c.iov)

/-- The run of fragments `a` names ends where `b`'s starts, or before. -/
def Msghdr.Before (a b : Msghdr) : Prop := a.iov + a.iovlen ≤ b.iov

/-- The message list of a reply being sent: the messages still to send name runs of the fragments in use, one after
another, and those fragments hold the bytes their lengths count. -/
structure Conn.TxOk (c : Conn) : Prop where
  curr   : c.msgcurr ≤ c.msgused
  msgLen : c.msgused ≤ c.msglist.length
  sorted : c.unsentMsgs.Pairwise Msghdr.Before
  inside : ∀ m ∈ c.unsentMsgs, m.iov + m.iovlen ≤ c.iovused
  iovLen : c.iovused ≤ c.iov.length
  frags  : ∀ v ∈ c.iov.take c.iovused, v.len ≤ v.base.length

/-! ## A built reply is ready to send -/

theorem layout_ge : ∀ (ls : List Nat) (s : Nat), ∀ m ∈ layout ls s, s ≤ m.iov
  | [], _, _, hm => absurd hm (List.not_mem_nil _)
  | l :: ls, s, m, hm => by
    rcases List.mem_cons.1 hm with rfl | hm
    · exact le_rfl
    · have := layout_ge ls (s + l) m hm; omega

theorem layout_inside : ∀ (ls : List Nat) (s : Nat), ∀ m ∈ layout ls s, m.iov + m.iovlen ≤ s + ls.sum
  | [], _, _, hm => absurd hm (List.not_mem_nil _)
  | l :: ls, s, m, hm => by
    rw [List.sum_cons]
    rcases List.mem_cons.1 hm with rfl | hm
    · show s + l ≤ _; omega
    · have := layout_inside ls (s + l) m hm; omega

theorem layout_sorted : ∀ (ls : List Nat) (s : Nat), (layout ls s).Pairwise Msghdr.Before
  | [], _ => List.Pairwise.nil
  | l :: ls, s => List.pairwise_cons.2 ⟨fun m hm => layout_ge ls (s + l) m hm, layout_sorted ls (s + l)⟩

theorem layout_bytes (iov : List Iovec) : ∀ (ls : List Nat) (s : Nat),
    (layout ls s).flatMap (msgBytes iov) = ((iov.drop s).take ls.sum).flatMap Iovec.bytes
  | [], _ => by simp [layout]
  | l :: ls, s => by
    rw [layout, List.flatMap_cons, layout_bytes iov ls (s + l), List.sum_cons, List.take_add, List.flatMap_append,
      List.drop_drop]
    rfl

/-- **A built reply is ready to send.**  With `msgcurr` at 0, a message list `add_iov` laid out is one `transmit`
can send, and what it has to send is the whole reply. -/
theorem Conn.IovOk.txOk {c : Conn} (h : c.IovOk) (h0 : c.msgcurr = 0) : c.TxOk ∧ c.unsent = c.pending := by
  have hu : c.unsentMsgs = layout (c.msgs.map Msghdr.iovlen) 0 := by
    rw [Conn.unsentMsgs, h0, List.drop_zero]; exact h.laidOut
  refine ⟨⟨by omega, h.msgLen, by rw [hu]; exact layout_sorted _ _, fun m hm => ?_, h.iovLen, h.frags⟩, ?_⟩
  · rw [hu] at hm
    have := layout_inside _ 0 m hm
    rw [h.used] at this; omega
  · rw [Conn.unsent, hu, layout_bytes, h.used, List.drop_zero]; rfl

/-! ## One send -/

theorem Conn.TxOk.unsentMsgs_cons {c : Conn} (h : c.TxOk) (hlt : c.msgcurr < c.msgused) :
    c.unsentMsgs = c.msglist.getD c.msgcurr default :: c.msgs.drop (c.msgcurr + 1) := by
  have hl : c.msgs.length = c.msgused := by simp [Conn.msgs, h.msgLen]
  rw [Conn.unsentMsgs, List.drop_eq_getElem_cons (by omega), List.getD_eq_getElem?_getD,
    List.getElem?_eq_getElem (by have := h.msgLen; omega), Option.getD_some]
  simp [Conn.msgs]

theorem Conn.unsentMsgs_of_le {c : Conn} (hle : c.msgused ≤ c.msgcurr) : c.unsentMsgs = [] :=
  List.drop_eq_nil_of_le (by simp [Conn.msgs]; omega)

/-- Stepping past a drained message changes nothing of what is left to send. -/
theorem skipDrained_tx {c : Conn} (h : c.TxOk) :
    (skipDrained c).TxOk ∧ (skipDrained c).unsent = c.unsent ∧ (skipDrained c).state = c.state := by
  unfold skipDrained
  split_ifs with hs
  · have hc := h.unsentMsgs_cons hs.1
    have ht : ({ c with msgcurr := c.msgcurr + 1 } : Conn).unsentMsgs = c.msgs.drop (c.msgcurr + 1) := rfl
    have hsorted := h.sorted
    rw [hc] at hsorted
    refine ⟨⟨hs.1, h.msgLen, ht ▸ hsorted.of_cons, fun m hm => h.inside m ?_, h.iovLen, h.frags⟩, ?_, rfl⟩
    · rw [hc]; exact List.mem_cons_of_mem _ (ht ▸ hm)
    · show (c.msgs.drop (c.msgcurr + 1)).flatMap (msgBytes c.iov) = c.unsentMsgs.flatMap (msgBytes c.iov)
      rw [hc, List.flatMap_cons, msgBytes, hs.2, List.take_zero, List.flatMap_nil, List.nil_append]
  · exact ⟨h, rfl, rfl⟩

theorem Iovec.bytes_advance (v : Iovec) (res : Nat) : (advanceIov v res).bytes = v.bytes.drop res := by
  rw [Iovec.bytes, Iovec.bytes, List.drop_take]; rfl

theorem msgBytes_cons {iov : List Iovec} {i : Nat} (n : Nat) (h : i < iov.length) :
    msgBytes iov ⟨i, n + 1⟩ = (iov.getD i default).bytes ++ msgBytes iov ⟨i + 1, n⟩ := by
  simp only [msgBytes, List.drop_eq_getElem_cons h, List.take_succ_cons, List.flatMap_cons,
    List.getD_eq_getElem?_getD, List.getElem?_eq_getElem h, Option.getD_some]

theorem msgBytes_set_of_lt {iov : List Iovec} {j : Nat} (x : Iovec) {m : Msghdr} (h : j < m.iov) :
    msgBytes (iov.set j x) m = msgBytes iov m := by
  rw [msgBytes, msgBytes, List.drop_set_of_lt _ _ h]

/-- **The trimming loop.**  After a `sendmsg` that accepted `res` bytes of the run of `n` fragments from `iov[i]`,
the trimmed run ends where the old one did and names exactly the bytes not yet sent. -/
theorem trimSent_spec (iov : List Iovec) {E : Nat} (hE : E ≤ iov.length)
    (hw : ∀ v ∈ iov.take E, v.len ≤ v.base.length) : ∀ (n i res : Nat), i + n ≤ E →
    res ≤ (msgBytes iov ⟨i, n⟩).length →
    (trimSent iov n i res).2.1 + (trimSent iov n i res).1 = i + n ∧
    (0 < (trimSent iov n i res).2.2 → (trimSent iov n i res).2.1 < i + n) ∧
    msgBytes (trimIov iov (trimSent iov n i res).2.1 (trimSent iov n i res).2.2)
      ⟨(trimSent iov n i res).2.1, (trimSent iov n i res).1⟩ = (msgBytes iov ⟨i, n⟩).drop res
  | 0, i, res, _, hres => by
    have : res = 0 := by simpa [msgBytes] using hres
    subst this; simp [trimSent, trimIov, msgBytes]
  | n + 1, i, res, hi, hres => by
    have hlt : i < iov.length := by omega
    have hv : (iov.getD i default).len ≤ (iov.getD i default).base.length := by
      apply hw
      rw [List.getD_eq_getElem?_getD, List.getElem?_eq_getElem hlt, Option.getD_some]
      exact List.mem_iff_getElem.2 ⟨i, by simp; omega, by simp⟩
    have hlen : (iov.getD i default).bytes.length = (iov.getD i default).len := by
      rw [Iovec.bytes, List.length_take]; exact Nat.min_eq_left hv
    rw [msgBytes_cons n hlt] at hres ⊢
    rw [trimSent]
    split_ifs with hle <;> try dsimp only
    · -- the whole fragment went out
      rw [List.length_append, hlen] at hres
      obtain ⟨h1, h2, h3⟩ := trimSent_spec iov hE hw n (i + 1) (res - (iov.getD i default).len) (by omega) (by omega)
      refine ⟨by omega, fun h => by have := h2 h; omega, ?_⟩
      rw [h3, List.drop_append_eq_append_drop,
        List.drop_eq_nil_of_le (show (iov.getD i default).bytes.length ≤ res by omega), List.nil_append, hlen]
    · -- the send stopped inside it
      refine ⟨rfl, fun _ => by omega, ?_⟩
      by_cases hr : 0 < res
      · have hset : (iov.set i (advanceIov (iov.getD i default) res)).length = iov.length := List.length_set _ _ _
        rw [trimIov, if_pos hr, msgBytes_cons n (hset ▸ hlt), msgBytes_set_of_lt _ (Nat.lt_succ_self i),
          List.getD_eq_getElem?_getD, List.getElem?_set_self hlt, Option.getD_some, Iovec.bytes_advance,
          List.drop_append_of_le_length (by omega)]
      · rw [trimIov, if_neg hr, Nat.eq_zero_of_not_pos hr, List.drop_zero, msgBytes_cons n hlt]

/-- The messages still to send after the current one is replaced. -/
theorem Conn.TxOk.unsentMsgs_set {c : Conn} (h : c.TxOk) (hlt : c.msgcurr < c.msgused) (x : Msghdr)
    (iov : List Iovec) :
    ({ c with msglist := c.msglist.set c.msgcurr x, iov := iov } : Conn).unsentMsgs = x :: c.msgs.drop (c.msgcurr + 1) := by
  show ((c.msglist.set c.msgcurr x).take c.msgused).drop c.msgcurr = _
  rw [List.set_take, List.drop_set, if_neg (Nat.lt_irrefl _), Nat.sub_self, ← Conn.msgs, ← Conn.unsentMsgs,
    h.unsentMsgs_cons hlt]
  rfl

/-- **One accepted `sendmsg`.**  Trimming the current message by the `res` bytes accepted keeps the list sendable
and takes exactly those bytes off the front of what is left to send. -/
theorem afterSend_tx {c : Conn} (h : c.TxOk) (hlt : c.msgcurr < c.msgused) {res : Nat}
    (hres : res ≤ (msgBytes c.iov (c.msglist.getD c.msgcurr default)).length) :
    (afterSend c res).TxOk ∧ (afterSend c res).unsent = c.unsent.drop res ∧ (afterSend c res).state = c.state := by
  have hc := h.unsentMsgs_cons hlt
  have hm := h.inside _ (hc ▸ List.mem_cons_self _ _)
  have hsorted := h.sorted
  rw [hc, List.pairwise_cons] at hsorted
  obtain ⟨h1, h2, h3⟩ := trimSent_spec c.iov h.iovLen h.frags _ _ res hm hres
  obtain ⟨t, ht⟩ : ∃ t, trimSent c.iov (c.msglist.getD c.msgcurr default).iovlen
      (c.msglist.getD c.msgcurr default).iov res = t := ⟨_, rfl⟩
  rw [ht] at h1 h2 h3
  have hA : afterSend c res =
      { c with msglist := c.msglist.set c.msgcurr ⟨t.2.1, t.1⟩, iov := trimIov c.iov t.2.1 t.2.2 } := by
    simp only [afterSend, ht]
  rw [hA]
  set c' : Conn := { c with msglist := c.msglist.set c.msgcurr ⟨t.2.1, t.1⟩, iov := trimIov c.iov t.2.1 t.2.2 }
  have hu : c'.unsentMsgs = ⟨t.2.1, t.1⟩ :: c.msgs.drop (c.msgcurr + 1) := h.unsentMsgs_set hlt _ _
  have hrest : ∀ m ∈ c.msgs.drop (c.msgcurr + 1), msgBytes (trimIov c.iov t.2.1 t.2.2) m = msgBytes c.iov m := by
    intro m hm'
    have := hsorted.1 m hm'
    unfold Msghdr.Before at this
    unfold trimIov; split_ifs with hpos
    · exact msgBytes_set_of_lt _ (by have := h2 hpos; omega)
    · rfl
  have hlen : (trimIov c.iov t.2.1 t.2.2).length = c.iov.length := by unfold trimIov; split_ifs <;> simp
  refine ⟨⟨h.curr, by simp [c', h.msgLen], ?_, ?_, by show c.iovused ≤ _; rw [hlen]; exact h.iovLen, ?_⟩, ?_, rfl⟩
  · rw [hu, List.pairwise_cons]
    refine ⟨fun m hm' => ?_, hsorted.2⟩
    have := hsorted.1 m hm'
    unfold Msghdr.Before at this ⊢
    show t.2.1 + t.1 ≤ m.iov; omega
  · rw [hu]
    intro m hm'
    rcases List.mem_cons.1 hm' with rfl | hm'
    · show t.2.1 + t.1 ≤ c.iovused; omega
    · exact h.inside m (hc ▸ List.mem_cons_of_mem _ hm')
  · -- the trimmed fragment still holds the bytes its length counts
    show ∀ v ∈ (trimIov c.iov t.2.1 t.2.2).take c.iovused, v.len ≤ v.base.length
    unfold trimIov; split_ifs with hpos
    · intro v hv
      rw [List.set_take] at hv
      rcases List.mem_or_eq_of_mem_set hv with hv | rfl
      · exact h.frags v hv
      · have hin : c.iov.getD t.2.1 default ∈ c.iov.take c.iovused := by
          have := h2 hpos
          have := h.iovLen
          rw [List.getD_eq_getElem?_getD, List.getElem?_eq_getElem (by omega), Option.getD_some]
          exact List.mem_iff_getElem.2 ⟨t.2.1, by simp; omega, by simp⟩
        have := h.frags _ hin
        simp only [advanceIov, List.length_drop]; omega
    · exact h.frags
  · show c'.unsentMsgs.flatMap (msgBytes (trimIov c.iov t.2.1 t.2.2)) = _
    rw [hu, List.flatMap_cons, h3, List.flatMap_congr hrest, Conn.unsent, hc, List.flatMap_cons,
      List.drop_append_of_le_length hres]

/-- **One pass of `transmit`.**  It finds nothing left and reports completion; or it sends a prefix of what is left,
or nothing on `EAGAIN`, keeping the list sendable; or it closes on a hard error. -/
theorem transmit_tx {c : Conn} (h : c.TxOk) (e : Env) :
    ((transmit c e).2.2 = .complete ∧ c.unsent = [] ∧ (transmit c e).1.state = c.state ∧
      (transmit c e).2.1.outq = e.outq) ∨
    (((transmit c e).2.2 = .incomplete ∨ (transmit c e).2.2 = .softError) ∧ (transmit c e).1.state = c.state ∧
      (transmit c e).1.TxOk ∧ (transmit c e).2.1.outq ++ (transmit c e).1.unsent = e.outq ++ c.unsent) ∨
    ((transmit c e).2.2 = .hardError ∧ (transmit c e).1.state = .closing) := by
  obtain ⟨h1, hu1, hs1⟩ := skipDrained_tx h
  unfold transmit; dsimp only
  split_ifs with hlt
  · split
    · next n hsend =>
      split_ifs with hpos
      · obtain ⟨h2, hu2, hs2⟩ := afterSend_tx h1 hlt (min_le_right (n + 1) _)
        have htake : (skipDrained c).unsent.take (min (n + 1) (msgBytes (skipDrained c).iov
            ((skipDrained c).msglist.getD (skipDrained c).msgcurr default)).length) =
            (msgBytes (skipDrained c).iov ((skipDrained c).msglist.getD (skipDrained c).msgcurr default)).take
              (min (n + 1) (msgBytes (skipDrained c).iov
                ((skipDrained c).msglist.getD (skipDrained c).msgcurr default)).length) := by
          rw [Conn.unsent, h1.unsentMsgs_cons hlt, List.flatMap_cons, List.take_append_of_le_length (min_le_right _ _)]
        refine .inr (.inl ⟨.inl rfl, hs2.trans hs1, h2, ?_⟩)
        dsimp only
        rw [hu2, ← hu1, List.append_assoc, ← htake, List.take_append_drop]
      · exact .inr (.inr ⟨rfl, rfl⟩)
    · exact .inr (.inl ⟨.inr rfl, hs1, h1, by rw [hu1]⟩)
    · exact .inr (.inr ⟨rfl, rfl⟩)
  · exact .inl ⟨rfl, by rw [← hu1, Conn.unsent, Conn.unsentMsgs_of_le (Nat.le_of_not_lt hlt)]; rfl, hs1, rfl⟩

theorem foldl_free_outq (l : List Held) (e : Env) : (l.foldl Env.free e).outq = e.outq := by
  induction l generalizing e with
  | nil => rfl
  | cons x l ih => exact ih (e.free x)

/-- **One pass of `conn_mwrite`.**  It gets back to `conn_read` only when nothing is left to send, sending nothing
more; else it sends a prefix of what is left and stays in `conn_mwrite`, or it closes. -/
theorem stepTransmit_tx {c : Conn} (h : c.TxOk) (hs : c.state = .mwrite) (e : Env) :
    ((stepTransmit c e).1.state = .read ∧ c.unsent = [] ∧ (stepTransmit c e).2.1.outq = e.outq) ∨
    ((stepTransmit c e).1.state = .mwrite ∧ (stepTransmit c e).1.TxOk ∧
      (stepTransmit c e).2.1.outq ++ (stepTransmit c e).1.unsent = e.outq ++ c.unsent) ∨
    (stepTransmit c e).1.state = .closing := by
  unfold stepTransmit; dsimp only
  rcases transmit_tx h e with ⟨hc, hu, hst, ho⟩ | ⟨hr, hst, h2, ho⟩ | ⟨hr, hst⟩
  · rw [hc]; dsimp only
    rw [if_pos (hst.trans hs)]
    refine .inl ⟨(connSetState_unshrunk _ _ _).1, hu, ?_⟩
    rw [(connSetState_ticked _ _ _).outq_eq, foldl_free_outq, ho]
  · rcases hr with hr | hr <;> rw [hr] <;> exact .inr (.inl ⟨hst.trans hs, h2, ho⟩)
  · rw [hr]; exact .inr (.inr hst)

theorem driveStep_mwrite {c : Conn} (fuel : Nat) (e : Env) (h : c.state = .mwrite) :
    driveStep fuel c e = some (stepTransmit c e) := by
  simp [driveStep, h]

/-- A run of `conn_mwrite` passes from `(c, e)` that gets back to `conn_read` at `(c', e')`: each pass but the last
stays in `conn_mwrite`.  The passes may span calls of `drive_machine`, as many as the socket's `EAGAIN`s take. -/
inductive Drains : Conn → Env → Conn → Env → Prop
  | last {c : Conn} {e : Env} (fuel : Nat) {r : Conn × Env × Next} :
      c.state = .mwrite → driveStep fuel c e = some r → r.1.state = .read → Drains c e r.1 r.2.1
  | step {c : Conn} {e : Env} (fuel : Nat) {r : Conn × Env × Next} {c' : Conn} {e' : Env} :
      c.state = .mwrite → driveStep fuel c e = some r → r.1.state = .mwrite → Drains r.1 r.2.1 c' e' →
      Drains c e c' e'

/-- **A reply is sent whole, each byte once.**  Whatever the socket accepts at each `sendmsg`, a run of
`conn_mwrite` that gets back to `conn_read` has sent exactly what was left to send, in order. -/
theorem drains_outq {c c' : Conn} {e e' : Env} (hd : Drains c e c' e') (h : c.TxOk) : e'.outq = e.outq ++ c.unsent := by
  induction hd with
  | last fuel hs hr hread =>
    rw [driveStep_mwrite fuel _ hs, Option.some.injEq] at hr
    subst hr
    rcases stepTransmit_tx h hs _ with ⟨-, hu, ho⟩ | ⟨hm, -⟩ | hc
    · rw [ho, hu, List.append_nil]
    · rw [hm] at hread; cases hread
    · rw [hc] at hread; cases hread
  | step fuel hs hr hm _ ih =>
    rw [driveStep_mwrite fuel _ hs, Option.some.injEq] at hr
    subst hr
    rcases stepTransmit_tx h hs _ with ⟨hread, -⟩ | ⟨-, h2, ho⟩ | hc
    · rw [hm] at hread; cases hread
    · rw [ih h2, ← ho]
    · rw [hm] at hc; cases hc

end Beansdb
