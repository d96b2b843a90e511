import Beansdb.Machine
/-!
# Reply — what a command leaves for `conn_write`, and three replies that go wrong

`out_string` only fills `wbuf`; `conn_write` turns it into a fragment only when `iovused` is 0.  So the reply a
command sends is decided by what is left in the `iov` list when `out_string` runs (`stepWrite_of_iovused`), and a
command whose `noreply` flag is set sends nothing (`outString_noreply`).  `set_noreply_maybe` reads the token before
the terminal one whatever the command's arity (`setNoreplyMaybe_three`): for `delete <key>` that is the key.

The runs at the end are on one client, `clientEnv`: it sends its bytes at once and then closes, every `sendmsg`
takes the whole message and every allocation succeeds, against a store holding one item, `a`.
-/
namespace Beansdb

/-- With `noreply` set, `out_string` sends nothing: it clears the flag and enters `conn_read`, with `iovused` as it
was. -/
theorem outString_noreply (c : Conn) (e : Env) (str : List Char) (h : c.noreply = true) :
    (outString c e str).1.noreply = false ∧ (outString c e str).1.state = .read ∧
    (outString c e str).1.iovused = c.iovused := by
  simp only [outString, h, if_true]
  exact ⟨by simp, by simp, by simp⟩

/-- With fragments in the `iov` list, `conn_write` transmits them and never builds the `wbuf` fragment. -/
theorem stepWrite_of_iovused (c : Conn) (e : Env) (h : c.iovused ≠ 0) : stepWrite c e = stepTransmit c e := by
  simp [stepWrite, h]

/-- `set_noreply_maybe` on a line of two words looks at the second. -/
theorem setNoreplyMaybe_three (c : Conn) (buf : List Char) (t0 t1 t2 : Token) (v : Nat) (h1 : t1.value = some v) :
    (setNoreplyMaybe c buf [t0, t1, t2]).noreply = (c.noreply || streq (buf.drop v) "noreply") := by
  have ht : tokAt [t0, t1, t2] ([t0, t1, t2].length - 2) = t1 := rfl
  simp only [setNoreplyMaybe, ht, h1]
  split <;> simp_all

/-- The item `a`, with value `1`. -/
def itemA : Item := ⟨"a".toList, 0, 0, " 0 1\r\n".toList, "1\r\n".toList⟩

/-- A store holding `a` only; writes are stored and deletes find their key. -/
def storeA : Store :=
  ⟨fun k => if k = "a".toList then some itemA else none, fun _ _ _ _ => 1, fun _ _ => 1, fun _ _ => 0,
   fun _ => true, fun _ _ => 0, -1⟩

/-- The item `hs_set` leaves under `key` for the value `v`, with the header `item_get` precomputes. -/
def storedItem (key v : List Char) (flag ver : Int) : Item :=
  ⟨key, flag, ver, (" " ++ toString flag ++ " " ++ toString v.length ++ "\r\n").toList, v ++ ['\r', '\n']⟩

/-- A store of the items `items`: writes are stored, an `append` needs its key, a delete finds the keys held. -/
def itemStore (items : List Char → Option Item) : Store :=
  ⟨items, fun _ _ _ _ => 1, fun k _ => if (items k).isSome then 1 else 4, fun _ _ => 0, fun k => (items k).isSome,
   fun _ _ => 0, -1⟩

/-- How the test client's store moves: `set` writes its key, `append` extends a key it holds, `delete` removes its
key; `incr` and `optimize` leave the items alone. -/
def itemUpdate (st : Store) : StoreCall → Store
  | .set k v f ver => itemStore fun k' => if k' = k then some (storedItem k v f ver) else st.get k'
  | .append k v => itemStore fun k' =>
      if k' = k then (st.get k).map fun it => storedItem k (it.data.take (it.data.length - 2) ++ v) it.flag it.ver
      else st.get k'
  | .delete k => itemStore fun k' => if k' = k then none else st.get k'
  | .incr _ _ | .optimize _ _ => st

/-- A client that sends `input` in one read and then closes, with a kernel that takes every write whole and an
allocator that never fails. -/
def clientEnv (input : List Char) : Env where
  allocs := fun _ => true
  nalloc := 0
  store := storeA
  update := itemUpdate
  statsText := fun _ => "END".toList
  stats := ⟨0, 0, 0, 0, 0, 0, 0⟩
  nitems := 0
  freed := []
  inq := input
  reads := fun n => if n = 0 then .data input.length else .eof
  nreads := 0
  outq := []
  sends := fun _ => .sent 4096
  nsends := 0
  accepts := fun _ => .eagain
  naccepts := 0
  swallowed := []
  log := []
  version := "1.0".toList
  stopme := false
  daemonQuit := false
  fault := false

/-- The run of a fresh connection on `clientEnv input`, up to its close. -/
def clientRun (input : List Char) : Option (Conn × Env × Next) :=
  driveMachine 20 20 (Conn.init dataBufferSize .read) (clientEnv input)

set_option maxRecDepth 20000 in
/-- **`delete noreply` gets no reply.**  The command deletes the key `noreply` and carries no option, yet the
connection dispatches it and sends nothing before the client closes. -/
theorem delete_noreply_unanswered :
    (clientRun "delete noreply\r\n".toList).map (fun r => (r.2.1.log, r.2.1.outq, r.2.2)) =
      some ([.command "delete noreply".toList], [], .closed) := by
  decide

/-- A line asking for `a` and then for a key of 256 bytes. -/
def getLongKey : List Char := "get a ".toList ++ List.replicate 256 'x' ++ "\r\n".toList

set_option maxRecDepth 20000 in
/-- **The `CLIENT_ERROR` of an over-long key is not sent.**  `process_get_command` has queued `a`'s `VALUE` block
when it meets the 256-byte key; `out_string` fills `wbuf`, but `conn_write` finds `iovused` non-zero and sends the
queued block, without `END`, instead of `CLIENT_ERROR bad command line format`. -/
theorem get_long_key_sends_partial_value :
    (clientRun getLongKey).map (fun r => r.2.1.outq) = some "VALUE a 0 1\r\n1\r\n".toList := by
  decide

set_option maxRecDepth 20000 in
/-- **The item of an answered key leaks.**  In the same run `item_get` hands out `a` as item 0, and the connection
closes without ever releasing it: the early return skips `c->ileft`, so neither `conn_write` nor `conn_cleanup` sees
it. -/
theorem get_long_key_leaks_item :
    (clientRun getLongKey).map (fun r => (r.2.1.nitems, r.2.1.freed, r.2.2)) = some (1, [], .closed) := by
  decide

end Beansdb
