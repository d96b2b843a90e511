import Beansdb.Iov
/-!
# Transmit — `transmit`

One call sends from `msg[msgcurr]`, first stepping past it when it is drained.  After a partial `sendmsg` the
drained `iovec`s are dropped from the head of the message and the boundary one is trimmed, so the next call sends
the rest.
-/
namespace Beansdb

/-- `TRANSMIT_COMPLETE`, `TRANSMIT_INCOMPLETE`, `TRANSMIT_SOFT_ERROR` and `TRANSMIT_HARD_ERROR`. -/
inductive TransmitResult where
  | complete | incomplete | softError | hardError
deriving DecidableEq, Repr

/-- The bytes a `msghdr` names: its `iovlen` fragments from `msg_iov` on. -/
def msgBytes (iov : List Iovec) (m : Msghdr) : List Char :=
  ((iov.drop m.iov).take m.iovlen).flatMap Iovec.bytes

/-- The trimming loop of `transmit`: with `res` bytes sent, drop each `iovec` they cover from the head of the
message (`msg_iovlen--`, `msg_iov++`).  Returns the new `msg_iovlen`, `msg_iov` and the bytes left over. -/
def trimSent (iov : List Iovec) : Nat → Nat → Nat → Nat × Nat × Nat
  | 0, i, res => (0, i, res)
  | n + 1, i, res =>
    if (iov.getD i default).len ≤ res then trimSent iov n (i + 1) (res - (iov.getD i default).len)
    else (n + 1, i, res)

/-- The boundary `iovec` after a partial write: `iov_base += res`, `iov_len -= res`. -/
def advanceIov (v : Iovec) (res : Nat) : Iovec := { v with base := v.base.drop res, len := v.len - res }

/-- The `iov` array after the trimming loop stopped on fragment `i` with `res` bytes of it sent: `iov_base += res`,
`iov_len -= res` when `res > 0`. -/
def trimIov (iov : List Iovec) (i res : Nat) : List Iovec :=
  if 0 < res then iov.set i (advanceIov (iov.getD i default) res) else iov

/-- The message after `sendmsg` accepted `res` bytes of it. -/
def afterSend (c : Conn) (res : Nat) : Conn :=
  let m := c.msglist.getD c.msgcurr default
  let t := trimSent c.iov m.iovlen m.iov res
  { c with msglist := c.msglist.set c.msgcurr ⟨t.2.1, t.1⟩, iov := trimIov c.iov t.2.1 t.2.2 }

/-- The head of `transmit`: stepping past `msg[msgcurr]` when it is drained (`msg_iovlen == 0`). -/
def skipDrained (c : Conn) : Conn :=
  if c.msgcurr < c.msgused ∧ (c.msglist.getD c.msgcurr default).iovlen = 0 then { c with msgcurr := c.msgcurr + 1 }
  else c

/-- `transmit (c)`: `sendmsg` answers from `Env.sends`. -/
def transmit (c : Conn) (e : Env) : Conn × Env × TransmitResult :=
  let c := skipDrained c
  if c.msgcurr < c.msgused then
    let out := msgBytes c.iov (c.msglist.getD c.msgcurr default)
    let e' := { e with nsends := e.nsends + 1 }
    match e.sends e.nsends with
    | .sent n =>
      let res := min (n + 1) out.length
      if 0 < res then
        (afterSend c res, { e' with outq := e.outq ++ out.take res,
                                    stats := { e.stats with bytesWritten := e.stats.bytesWritten + res } },
         .incomplete)
      else ({ c with state := .closing }, e', .hardError)
    | .eagain => (c, e', .softError)
    | .error => ({ c with state := .closing }, e', .hardError)
  else (c, e, .complete)

theorem skipDrained_readSide (c : Conn) : (skipDrained c).readSide = c.readSide := by
  unfold skipDrained; split_ifs <;> rfl

end Beansdb
