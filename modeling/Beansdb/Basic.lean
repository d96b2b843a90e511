import Mathlib
/-!
# Basic — the constants, items and store answers the request core reads

Bytes are `Char`s: every protocol text of `beansdb.c` is ASCII, and a client byte is any `Char`.  A C string is a
`List Char` read up to its first `'\0'` (`cstr`).  `beansdb.h`, `item.c` and `hstore.c` are not under `src/`: the
sizes below are the spec's (§4.2, §4.4), and the store is a record of answers (`Store`), one function per `hs_*` call
the request core makes; the calls that write it (`StoreCall`) move it to the state the world's `update` gives.
-/
namespace Beansdb

/-! ## Sizes -/

/-- Modelled from the spec: `DATA_BUFFER_SIZE` of the missing `beansdb.h` (§4.2, `wbuf=2048`). -/
def dataBufferSize : Nat := 2048
/-- Modelled from the spec: `ITEM_LIST_INITIAL` (§4.2, `ilist=200`). -/
def itemListInitial : Nat := 200
/-- Modelled from the spec: `ITEM_LIST_HIGHWAT` (§4.2, `ilist>400`). -/
def itemListHighwat : Nat := 400
/-- Modelled from the spec: `IOV_LIST_INITIAL` (§4.2, `iov=400`). -/
def iovListInitial : Nat := 400
/-- Modelled from the spec: `IOV_LIST_HIGHWAT` (§4.2, `iov>600`). -/
def iovListHighwat : Nat := 600
/-- Modelled from the spec: `MSG_LIST_INITIAL` (§4.2, `msg=10`). -/
def msgListInitial : Nat := 10
/-- Modelled from the spec: `MSG_LIST_HIGHWAT` (§4.2, `msg>20`). -/
def msgListHighwat : Nat := 20
/-- Modelled from the spec: `READ_BUFFER_HIGHWAT` (§4.2, `rbuf>8192`). -/
def readBufferHighwat : Nat := 8192
/-- Modelled from the spec: `MAX_PAYLOAD_SIZE` (§3, 1400 bytes). -/
def maxPayloadSize : Nat := 1400
/-- Modelled from the spec: `MAX_KEY_LEN` (§4.4, 255). -/
def maxKeyLen : Nat := 255
/-- `IOV_MAX`, as `beansdb.c` defines it where the platform does not. -/
def iovMax : Nat := 1024
/-- `MAX_TOKENS` of `beansdb.c`. -/
def maxTokens : Nat := 8
/-- `INT_MAX` of a 32-bit `int`. -/
def intMax : Int := 2 ^ 31 - 1

/-! ## C strings -/

/-- The C string at a pointer: the bytes up to the first `'\0'`. -/
def cstr (l : List Char) : List Char := l.takeWhile (· ≠ '\x00')

/-- `strcmp (p, s) == 0` for a literal `s` without `'\0'`. -/
def streq (l : List Char) (s : String) : Bool := cstr l == s.toList

/-- Writing `x` at index `n` of an array whose first `l.length` slots hold `l` (appending at `n = l.length`). -/
def writeAt {α : Type} (l : List α) (n : Nat) (x : α) : List α := l.take n ++ x :: l.drop (n + 1)

theorem writeAt_length {α : Type} (l : List α) (x : α) : writeAt l l.length x = l ++ [x] := by
  simp [writeAt]

theorem take_writeAt {α : Type} (l : List α) (n : Nat) (x : α) (h : n ≤ l.length) :
    (writeAt l n x).take (n + 1) = l.take n ++ [x] := by
  simp [writeAt, List.take_append_eq_append_take, List.length_take, Nat.min_eq_left h]

theorem length_writeAt {α : Type} (l : List α) (n : Nat) (x : α) (h : n ≤ l.length) :
    n + 1 ≤ (writeAt l n x).length := by
  simp [writeAt, Nat.min_eq_left h]

/-! ## Items and the store -/

/-- An item of the store, as the request core reads it: `ITEM_key`, `flag`, `ver`, the precomputed header
`ITEM_suffix` (` <flag> <len>\r\n`) and `ITEM_data`, which ends in `\r\n`.  `nkey`, `nsuffix` and `nbytes` are the
lengths. -/
structure Item where
  key    : List Char
  flag   : Int
  ver    : Int
  suffix : List Char
  data   : List Char
deriving DecidableEq, Repr

/-- The answers of the storage engine in one of its states, one per `hs_*` call of the request core (`hstore.c` is not
under `src/`). -/
structure Store where
  /-- `item_get (key, nkey)`. -/
  get          : List Char → Option Item
  /-- `hs_set (store, key, value, len, flag, ver)`: 1 stored, 2 exists, 3 not found, else not stored. -/
  set          : List Char → List Char → Int → Int → Int
  /-- `hs_append (store, key, value, len)`. -/
  append       : List Char → List Char → Int
  /-- `hs_incr (store, key, delta)`, a `uint64_t`. -/
  incr         : List Char → Int → Nat
  /-- `hs_delete (store, key)`. -/
  delete       : List Char → Bool
  /-- `hs_optimize (store, limit, tree)`. -/
  optimize     : Int → List Char → Int
  /-- `hs_optimize_stat (store)`. -/
  optimizeStat : Int

/-- A call of the request core that writes the store: `hs_set`, `hs_append`, `hs_incr`, `hs_delete` and
`hs_optimize`, with their arguments. -/
inductive StoreCall where
  | set (key value : List Char) (flag ver : Int)
  | append (key value : List Char)
  | incr (key : List Char) (delta : Int)
  | delete (key : List Char)
  | optimize (limit : Int) (tree : List Char)
deriving DecidableEq, Repr

end Beansdb
