import Beansdb.Command
/-!
# Machine — `try_read_command`, `try_read_network`, `complete_nread` and one pass of `drive_machine`

`driveStep` is one pass of `drive_machine`'s `while (!stop)` loop: it says whether the loop goes on, stops (to wait
for the socket), or closed the connection.  `read` and `sendmsg` are answered by `Env.reads` and `Env.sends`.  The
`'\0'`s `try_read_command` and `tokenize_command` write into the consumed line are not kept in `rbuf`: `rcurr` has
moved past them and nothing reads them again.  A listening connection makes one `accept` a pass, answered by
`Env.accepts`; the connection `conn_new` sets up for the socket is another connection's, and is not followed here.
-/
namespace Beansdb

/-- What `read` returned: bytes, 0, or -1 with `EAGAIN` or another `errno`. -/
inductive ReadOut where
  | bytes (b : List Char) | eof | eagain | error
deriving DecidableEq, Repr

/-- `read (sfd, buf, want)`: at least one and at most `want` of the bytes the client sent, when there are any. -/
def Env.read (e : Env) (want : Nat) : Env × ReadOut :=
  let e' := { e with nreads := e.nreads + 1 }
  match e.reads e.nreads with
  | .data n =>
    if want = 0 then (e', .eof)
    else if min (n + 1) (min want e.inq.length) = 0 then (e', .eagain)
    else
      let k := min (n + 1) (min want e.inq.length)
      ({ e' with inq := e.inq.drop k, stats := { e.stats with bytesRead := e.stats.bytesRead + k } },
       .bytes (e.inq.take k))
  | .eagain => (e', .eagain)
  | .eof => (e', .eof)
  | .error => (e', .error)

/-- The unread bytes of the read buffer, `rbytes` of them from `rcurr`. -/
def Conn.window (c : Conn) : List Char := (c.rbuf.drop c.rcurr).take c.rbytes

/-- `memchr (rcurr, '\n', rbytes)`: the offset of the first `'\n'` of the window. -/
def findNewline (w : List Char) : Option Nat :=
  if w.indexOf '\n' < w.length then some (w.indexOf '\n') else none

/-- The command line `try_read_command` cuts at a `'\n'` at offset `el`: a `'\r'` before it goes when the line has more
than one byte. -/
def cutLine (w : List Char) (el : Nat) : List Char :=
  if 1 < el ∧ w.getD (el - 1) ' ' = '\r' then w.take (el - 1) else w.take el

/-- `try_read_command (c)`: `none` when there is no complete line (it returns 0). -/
def tryReadCommand (fuel : Nat) (c : Conn) (e : Env) : Option (Option (Conn × Env)) :=
  if c.rbytes = 0 then none
  else
    match findNewline c.window with
    | none => none
    | some el =>
      some ((processCommand fuel c e (cutLine c.window el)).map
        (fun r => ({ r.1 with rbytes := r.1.rbytes - (el + 1), rcurr := r.1.rcurr + (el + 1) }, r.2)))

/-- `read` writing into a buffer at index `p`. -/
def readInto (rbuf : List Char) (p : Nat) (b : List Char) : List Char := rbuf.take p ++ b ++ rbuf.drop (p + b.length)

/-- The doubling of `try_read_network` when the buffer is full; `none` is the failed `try_realloc`. -/
def growRbuf (c : Conn) (e : Env) : Option Conn × Env :=
  if c.rsize ≤ c.rbytes then
    if e.ok then
      (some { c with rbuf := realloc c.rbuf (c.rsize * 2) '\x00', rcurr := 0, rsize := c.rsize * 2 }, e.tick)
    else (none, e.tick)
  else (some c, e)

/-- The `while (1)` loop of `try_read_network` after the compaction, at most `fuel` passes; the flag is `gotdata`,
or 1 on the exits that return 1. -/
def readLoop : Nat → Conn → Env → Bool → Conn × Env × Bool
  | 0, c, e, got => (c, e, got)
  | fuel + 1, c, e, got =>
    match growRbuf c e with
    | (none, e) =>
      let r := outString { c with rbytes := 0 } e "SERVER_ERROR out of memory reading request".toList
      ({ r.1 with writeAndGo := .closing }, r.2, true)
    | (some c, e) =>
      let avail := c.rsize - c.rbytes
      match e.read avail with
      | (e, .bytes b) =>
        let c := { c with rbuf := readInto c.rbuf c.rbytes b, rbytes := c.rbytes + b.length }
        if b.length = avail then readLoop fuel c e true else (c, e, true)
      | (e, .eagain) => (c, e, got)
      | (e, _) => let r := connSetState c e .closing; (r.1, r.2, true)

/-- The compaction at the head of `try_read_network`: the unread bytes move to the head of the buffer. -/
def compactRbuf (c : Conn) : Conn :=
  if c.rcurr ≠ 0 then
    { c with rbuf := (if c.rbytes ≠ 0 then memmove c.rbuf c.rcurr c.rbytes else c.rbuf), rcurr := 0 }
  else c

/-- `try_read_network (c)`: compacts the window to the head of the buffer, then reads. -/
def tryReadNetwork (c : Conn) (e : Env) : Conn × Env × Bool := readLoop (e.inq.length + 1) (compactRbuf c) e false

/-- `store_item (it, comm)`: the item's data without its `\r\n`. -/
def storeItem (st : Store) (it : Item) (comm : Comm) : Int :=
  match comm with
  | .set => st.set it.key (it.data.take (it.data.length - 2)) it.flag it.ver
  | .append => st.append it.key (it.data.take (it.data.length - 2))

/-- The call `store_item (it, comm)` makes. -/
def itemCall (it : Item) : Comm → StoreCall
  | .set => .set it.key (it.data.take (it.data.length - 2)) it.flag it.ver
  | .append => .append it.key (it.data.take (it.data.length - 2))

/-- `complete_nread (c)`; the body is recorded in `Env.log`. -/
def completeNread (c : Conn) (e : Env) : Conn × Env :=
  match c.item with
  | none => (c, { e with fault := true })
  | some h =>
    let e := { e with stats := { e.stats with setCmds := e.stats.setCmds + 1 }, log := e.log ++ [.body h.item.data] }
    let r :=
      if h.item.data.drop (h.item.data.length - 2) ≠ ['\r', '\n'] then outString c e "CLIENT_ERROR bad data chunk".toList
      else
        let ret := storeItem e.store h.item c.itemComm
        outString c (e.write (itemCall h.item c.itemComm)) (if ret = 1 then "STORED".toList else if ret = 2 then "EXISTS".toList
          else if ret = 3 then "NOT_FOUND".toList else "NOT_STORED".toList)
    ({ r.1 with item := none }, r.2.free h)

/-- `memcpy (c->ritem, src, n)` into the pending item. -/
def fillItem (c : Conn) (b : List Char) : Conn :=
  { c with item := c.item.map (fun h => { h with item := { h.item with data := readInto h.item.data c.ritem b } }),
           ritem := c.ritem + b.length, rlbytes := c.rlbytes - b.length }

/-- How a pass of `drive_machine` ends: the loop goes on, `stop` is set, or the connection was closed. -/
inductive Next where
  | go | stop | closed
deriving DecidableEq, Repr

/-- `conn_cleanup (c)`: the pending item, then the `ileft` items from `icurr`. -/
def connCleanup (c : Conn) (e : Env) : Conn × Env :=
  let e := match c.item with
    | some h => e.free h
    | none => e
  let e := ((c.ilist.drop c.icurr).take c.ileft).foldl Env.free e
  ({ c with item := none, icurr := c.icurr + c.ileft, ileft := 0, writeAndFree := none }, e)

/-- The `conn_read` case. -/
def stepRead (fuel : Nat) (c : Conn) (e : Env) : Option (Conn × Env × Next) :=
  match tryReadCommand fuel c e with
  | some r => r.map (fun r => (r.1, r.2, .go))
  | none =>
    let r := tryReadNetwork c e
    some (r.1, r.2.1, if r.2.2 then .go else .stop)

/-- The `conn_nread` case. -/
def stepNread (c : Conn) (e : Env) : Conn × Env × Next :=
  if c.rlbytes = 0 then let r := completeNread c e; (r.1, r.2, .go)
  else if 0 < c.rbytes then
    let n := min c.rbytes c.rlbytes
    ({ fillItem c (c.window.take n) with rcurr := c.rcurr + n, rbytes := c.rbytes - n }, e, .go)
  else
    match e.read c.rlbytes with
    | (e, .bytes b) => (fillItem c b, e, .go)
    | (e, .eagain) => (c, e, .stop)
    | (e, _) => let r := connSetState c e .closing; (r.1, r.2, .go)

/-- The `conn_swallow` case; what it throws away is kept in `Env.swallowed`. -/
def stepSwallow (c : Conn) (e : Env) : Conn × Env × Next :=
  if c.sbytes = 0 then
    let r := connSetState c { e with log := e.log ++ [.swallow e.swallowed], swallowed := [] } .read
    (r.1, r.2, .go)
  else if 0 < c.rbytes then
    let n := min c.rbytes c.sbytes
    ({ c with sbytes := c.sbytes - n, rcurr := c.rcurr + n, rbytes := c.rbytes - n },
     { e with swallowed := e.swallowed ++ c.window.take n }, .go)
  else
    match e.read (min c.rsize c.sbytes) with
    | (e, .bytes b) =>
      ({ c with rbuf := readInto c.rbuf 0 b, sbytes := c.sbytes - b.length }, { e with swallowed := e.swallowed ++ b },
       .go)
    | (e, .eagain) => (c, e, .stop)
    | (e, _) => let r := connSetState c e .closing; (r.1, r.2, .go)

/-- The `conn_mwrite` case, and the tail of `conn_write`. -/
def stepTransmit (c : Conn) (e : Env) : Conn × Env × Next :=
  let t := transmit c e
  match t.2.2 with
  | .complete =>
    if t.1.state = .mwrite then
      let e := ((t.1.ilist.drop t.1.icurr).take t.1.ileft).foldl Env.free t.2.1
      let r := connSetState { t.1 with icurr := t.1.icurr + t.1.ileft, ileft := 0 } e .read
      (r.1, r.2, .go)
    else if t.1.state = .write then
      let r := connSetState { t.1 with writeAndFree := none } t.2.1 t.1.writeAndGo
      (r.1, r.2, .go)
    else let r := connSetState t.1 t.2.1 .closing; (r.1, r.2, .go)
  | .softError => (t.1, t.2.1, .stop)
  | _ => (t.1, t.2.1, .go)

/-- The `conn_write` case. -/
def stepWrite (c : Conn) (e : Env) : Conn × Env × Next :=
  if c.iovused = 0 then
    let r := addIov c e c.wcurr c.wbytes none
    if r.2.2 then stepTransmit r.1 r.2.1
    else let r := connSetState r.1 r.2.1 .closing; (r.1, r.2, .go)
  else stepTransmit c e

/-- The `conn_listening` case: one `accept`.  A socket it gives is set up for a connection of its own, or closed when
`fcntl` or `conn_new` fails, and the loop goes on; a failed `accept` stops it (after `EMFILE`, once the spare
descriptor has been used to accept and close one more). -/
def stepListening (c : Conn) (e : Env) : Conn × Env × Next :=
  (c, { e with naccepts := e.naccepts + 1 }, if e.accepts e.naccepts = .socket then .go else .stop)

/-- One pass of `drive_machine`'s loop; `none` when `process_get_command` did not end within `fuel`. -/
def driveStep (fuel : Nat) (c : Conn) (e : Env) : Option (Conn × Env × Next) :=
  match c.state with
  | .listening => some (stepListening c e)
  | .read => stepRead fuel c e
  | .nread => some (stepNread c e)
  | .swallow => some (stepSwallow c e)
  | .write => some (stepWrite c e)
  | .mwrite => some (stepTransmit c e)
  | .closing => let r := connCleanup c e; some (r.1, r.2, .closed)

/-- `drive_machine (c)` for at most `n` passes of its loop: it returns at `stop`, at a close, or, as a `stop` with
`Env.fault` set, where the source is undefined. -/
def driveMachine (fuel : Nat) : Nat → Conn → Env → Option (Conn × Env × Next)
  | 0, c, e => some (c, e, .go)
  | n + 1, c, e =>
    match driveStep fuel c e with
    | some (c, e, .go) => if e.fault then some (c, e, .stop) else driveMachine fuel n c e
    | r => r

/-- A connection as `conn_new` sets up a fresh one in state `s`, with a read buffer of `size` bytes. -/
def Conn.init (size : Nat) (s : ConnState) : Conn where
  state := s
  rbuf := List.replicate size '\x00'
  rsize := size
  rcurr := 0
  rbytes := 0
  wsize := dataBufferSize
  wcurr := []
  wbytes := 0
  iov := []
  iovsize := iovListInitial
  iovused := 0
  msglist := []
  msgsize := msgListInitial
  msgused := 0
  msgcurr := 0
  msgbytes := 0
  ilist := []
  isize := itemListInitial
  icurr := 0
  ileft := 0
  item := none
  itemComm := .set
  ritem := 0
  rlbytes := 0
  sbytes := 0
  writeAndGo := .read
  writeAndFree := none
  noreply := false

end Beansdb
