import Beansdb.Tokenize
/-!
# Conn — the connection record and the world around it

`Conn` is `struct conn` with the fields the request core reads.  A pointer into one of its arrays (`rcurr`, `icurr`,
`msg_iov`) is an index; an `iovec`'s `iov_base` is the bytes it points at, to the end of the object that holds them,
with the item that object belongs to.  `Env` is everything outside the connection a run of `drive_machine` meets:
the allocator's answers, the socket, the store, the global `stats`, the items handed out and released, and the events
the connection dispatched (`log`).  Where the C code has undefined behaviour the model sets `Env.fault`.
-/
namespace Beansdb

/-- `enum conn_states`. -/
inductive ConnState where
  | listening | read | write | nread | swallow | mwrite | closing
deriving DecidableEq, Repr

/-- An item the connection holds, with the number `item_get` or `item_alloc1` handed it out under. -/
structure Held where
  id   : Nat
  item : Item
deriving DecidableEq, Repr

/-- A `struct iovec`. -/
structure Iovec where
  base  : List Char
  len   : Nat
  owner : Option Nat
deriving DecidableEq, Repr

/-- The bytes an `iovec` names. -/
def Iovec.bytes (v : Iovec) : List Char := v.base.take v.len

/-- A `struct msghdr`: `msg_iov`, an index into `c->iov`, and `msg_iovlen`. -/
structure Msghdr where
  iov    : Nat
  iovlen : Nat
deriving DecidableEq, Repr

/-- `NREAD_SET` and `NREAD_APPEND`. -/
inductive Comm where
  | set | append
deriving DecidableEq, Repr

/-- `struct conn`.  Arrays hold their written slots; `iovused`, `msgused` and `ileft` count the live ones. -/
structure Conn where
  state        : ConnState
  rbuf         : List Char
  rsize        : Nat
  rcurr        : Nat
  rbytes       : Nat
  wsize        : Nat
  wcurr        : List Char
  wbytes       : Nat
  iov          : List Iovec
  iovsize      : Nat
  iovused      : Nat
  msglist      : List Msghdr
  msgsize      : Nat
  msgused      : Nat
  msgcurr      : Nat
  msgbytes     : Nat
  ilist        : List Held
  isize        : Nat
  icurr        : Nat
  ileft        : Nat
  item         : Option Held
  itemComm     : Comm
  ritem        : Nat
  rlbytes      : Nat
  sbytes       : Nat
  writeAndGo   : ConnState
  writeAndFree : Option (List Char)
  noreply      : Bool
deriving Repr

/-! ## The world -/

/-- The kernel's answer to a `read`: `data n` hands over up to `n + 1` of the bytes the client has sent. -/
inductive ReadAns where
  | data (n : Nat) | eagain | eof | error
deriving DecidableEq, Repr

/-- The kernel's answer to a `sendmsg`: `sent n` accepts up to `n + 1` bytes of the message. -/
inductive SendAns where
  | sent (n : Nat) | eagain | error
deriving DecidableEq, Repr

/-- The kernel's answer to an `accept` on the listening socket: a socket, or -1 with `EAGAIN`, `EMFILE` or another
`errno`. -/
inductive AcceptAns where
  | socket | eagain | emfile | error
deriving DecidableEq, Repr

/-- What the connection dispatched: a command line to `process_command`, a body to `complete_nread`, bytes
`conn_swallow` threw away. -/
inductive Event where
  | command (line : List Char)
  | body (bytes : List Char)
  | swallow (bytes : List Char)
deriving DecidableEq, Repr

/-- `struct stats`, the counters the request core adds to. -/
structure Stats where
  getCmds      : Nat
  getHits      : Nat
  getMisses    : Nat
  setCmds      : Nat
  deleteCmds   : Nat
  bytesRead    : Nat
  bytesWritten : Nat
deriving DecidableEq, Repr

/-- The world of one connection. -/
structure Env where
  /-- `allocs n`: whether the `n`-th allocation of the run succeeds. -/
  allocs    : Nat → Bool
  nalloc    : Nat
  /-- The store as it stands, and how each call that writes it moves it. -/
  store     : Store
  update    : Store → StoreCall → Store
  /-- The text `process_stat` formats for `stats`, from the counters (pid, times and rusage are the kernel's). -/
  statsText : Stats → List Char
  stats     : Stats
  /-- Items handed out so far; the next gets this number. -/
  nitems    : Nat
  /-- The items `item_free` released, in order. -/
  freed     : List Nat
  /-- Bytes the client sent that no `read` has returned yet, and the kernel's answers to the reads. -/
  inq       : List Char
  reads     : Nat → ReadAns
  nreads    : Nat
  /-- Bytes `sendmsg` accepted, and the kernel's answers to the sends. -/
  outq      : List Char
  sends     : Nat → SendAns
  nsends    : Nat
  /-- The kernel's answers to the `accept`s of a listening socket. -/
  accepts   : Nat → AcceptAns
  naccepts  : Nat
  /-- What `conn_swallow` has thrown away of the current body. -/
  swallowed : List Char
  log       : List Event
  /-- `VERSION` of the missing `config.h`, the `-S` setting `stopme`, and `daemon_quit`. -/
  version   : List Char
  stopme    : Bool
  daemonQuit : Bool
  fault     : Bool

/-- `try_realloc` and friends: the next answer of the allocator. -/
def Env.alloc (e : Env) : Bool × Env := (e.allocs e.nalloc, { e with nalloc := e.nalloc + 1 })

/-- The world after a call that writes the store. -/
def Env.write (e : Env) (k : StoreCall) : Env := { e with store := e.update e.store k }

/-- `item_free (it)`. -/
def Env.free (e : Env) (h : Held) : Env := { e with freed := e.freed ++ [h.id] }

/-- A fresh number for an item `item_get` or `item_alloc1` hands out. -/
def Env.hold (e : Env) (it : Item) : Held × Env := (⟨e.nitems, it⟩, { e with nitems := e.nitems + 1 })

end Beansdb
