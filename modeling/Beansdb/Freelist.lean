import Beansdb.Basic
/-!
# Freelist — the pool of connection shells

`freeconns[0 .. freecurr)` are the shells waiting for reuse, in a stack of `freetotal` slots that doubles when it is
full.  A connection is its address, a `Nat`; `Pool` adds to the stack the connections a caller holds (`inUse`).  The
operations are those of `beansdb.c` under the freelist's lock, so a run is a sequence of them: `conn_new` (from the
stack, or a fresh `calloc` when it is empty, with its event registration) and `conn_close`.  The allocator's and the
event loop's answers are arguments.
-/
namespace Beansdb

/-- The freelist globals `freeconns`, `freecurr` and `freetotal`. -/
structure Freelist where
  freeconns : List Nat
  freecurr  : Nat
  freetotal : Nat
deriving DecidableEq, Repr

/-- The shells on the stack. -/
def Freelist.shells (f : Freelist) : List Nat := f.freeconns.take f.freecurr

/-- `conn_init ()`. -/
def connInit : Freelist := ⟨[], 0, 200⟩

/-- `do_conn_from_freelist ()`. -/
def doConnFromFreelist (f : Freelist) : Option Nat × Freelist :=
  if 0 < f.freecurr then (some (f.freeconns.getD (f.freecurr - 1) 0), { f with freecurr := f.freecurr - 1 })
  else (none, f)

/-- `do_conn_add_to_freelist (c)`, `ok` the answer of `try_realloc`: `true` is the failure the caller must handle by
freeing the connection. -/
def doConnAddToFreelist (f : Freelist) (c : Nat) (ok : Bool) : Bool × Freelist :=
  if f.freecurr < f.freetotal then (false, ⟨writeAt f.freeconns f.freecurr c, f.freecurr + 1, f.freetotal⟩)
  else if ok then (false, ⟨writeAt f.freeconns f.freecurr c, f.freecurr + 1, f.freetotal * 2⟩)
  else (true, f)

/-- The freelist and the connections handed out. -/
structure Pool where
  free  : Freelist
  inUse : List Nat
deriving DecidableEq, Repr

/-- What the world answers to one `conn_new`: the address `calloc` returns, whether the buffer allocations succeed,
whether `add_event` succeeds, and the `try_realloc` of a freelist enlargement. -/
structure NewAns where
  fresh   : Nat
  allocOk : Bool
  eventOk : Bool
  growOk  : Bool
deriving DecidableEq, Repr

/-- `conn_new (sfd, init_state, read_buffer_size)`: the connection it returns, if any. -/
def connNew (p : Pool) (a : NewAns) : Option Nat × Pool :=
  let (got, f) := doConnFromFreelist p.free
  let c : Option Nat := match got with
    | some c => some c
    | none => if a.allocOk then some a.fresh else none
  match c with
  | none => (none, { p with free := f })
  | some c =>
    if a.eventOk then (some c, ⟨f, c :: p.inUse⟩)
    else (none, { p with free := (doConnAddToFreelist f c a.growOk).2 })

/-- `conn_close (c)`: `big` is `c->rsize > READ_BUFFER_HIGHWAT`, then the shell goes back on the stack or is freed. -/
def connClose (p : Pool) (c : Nat) (big : Bool) (growOk : Bool) : Pool :=
  let inUse := p.inUse.erase c
  if big then ⟨p.free, inUse⟩ else ⟨(doConnAddToFreelist p.free c growOk).2, inUse⟩

/-- The pools a run of `conn_new` and `conn_close` reaches from `conn_init`.  `calloc` returns an address that is
neither handed out nor on the stack, and `conn_close` is called on a connection in use. -/
inductive PoolReach : Pool → Prop
  | init : PoolReach ⟨connInit, []⟩
  | new {p : Pool} (a : NewAns) (hp : PoolReach p) (hfresh : a.fresh ∉ p.inUse ∧ a.fresh ∉ p.free.shells) :
      PoolReach (connNew p a).2
  | close {p : Pool} (c : Nat) (big growOk : Bool) (hp : PoolReach p) (hc : c ∈ p.inUse) :
      PoolReach (connClose p c big growOk)

/-- The freelist invariant: the stack's shells are distinct, none is in use, and the stack fits its slots. -/
structure Freelist.Inv (p : Pool) : Prop where
  nodup   : p.free.shells.Nodup
  notUsed : ∀ c ∈ p.free.shells, c ∉ p.inUse
  le      : p.free.freecurr ≤ p.free.freetotal
  pos     : 0 < p.free.freetotal
  written : p.free.freecurr ≤ p.free.freeconns.length
  useNodup : p.inUse.Nodup

/-! ## One lemma per operation -/

/-- A push puts `c` on top of the shells. -/
theorem shells_push (l : List Nat) (n T c : Nat) (h : n ≤ l.length) :
    (⟨writeAt l n c, n + 1, T⟩ : Freelist).shells = (⟨l, n, T⟩ : Freelist).shells ++ [c] :=
  take_writeAt l n c h

/-- **`do_conn_add_to_freelist`**: it pushes `c` (doubling the slots when they are full and `try_realloc` succeeds),
or it fails, exactly when the slots are full and the enlargement failed, and then changes nothing. -/
theorem doConnAddToFreelist_cases (f : Freelist) (c : Nat) (ok : Bool) (hpos : 0 < f.freetotal)
    (hle : f.freecurr ≤ f.freetotal) :
    (∃ T, f.freecurr < T ∧ f.freetotal ≤ T ∧
      doConnAddToFreelist f c ok = (false, ⟨writeAt f.freeconns f.freecurr c, f.freecurr + 1, T⟩)) ∨
    (f.freetotal ≤ f.freecurr ∧ ok = false ∧ doConnAddToFreelist f c ok = (true, f)) := by
  unfold doConnAddToFreelist
  by_cases h : f.freecurr < f.freetotal
  · exact .inl ⟨f.freetotal, h, le_refl _, by simp [h]⟩
  · cases ok
    · exact .inr ⟨by omega, rfl, by simp [h]⟩
    · refine .inl ⟨f.freetotal * 2, ?_, ?_, by simp [h]⟩ <;> omega

theorem doConnFromFreelist_some {f : Freelist} {c : Nat} {f' : Freelist}
    (h : doConnFromFreelist f = (some c, f')) (hw : f.freecurr ≤ f.freeconns.length) :
    f.shells = f'.shells ++ [c] ∧ f'.freetotal = f.freetotal ∧ f'.freeconns = f.freeconns ∧
      f'.freecurr + 1 = f.freecurr := by
  unfold doConnFromFreelist at h
  split at h
  · rename_i hpos
    simp only [Prod.mk.injEq, Option.some.injEq] at h
    obtain ⟨rfl, rfl⟩ := h
    refine ⟨?_, rfl, rfl, by simp; omega⟩
    have : f.freecurr = f.freecurr - 1 + 1 := by omega
    simp only [Freelist.shells]
    rw [this, List.take_succ, List.getD_eq_getElem?_getD, Nat.add_sub_cancel]
    rw [List.getElem?_eq_getElem (by omega)]
    rfl
  · simp at h

theorem doConnFromFreelist_none {f : Freelist} {f' : Freelist} (h : doConnFromFreelist f = (none, f')) :
    f' = f ∧ f.shells = [] := by
  unfold doConnFromFreelist at h
  split at h
  · simp at h
  · simp only [Prod.mk.injEq, true_and] at h
    exact ⟨h.symm, by simp [Freelist.shells]; omega⟩

/-! ## The invariant along a run -/

theorem inv_init : Freelist.Inv ⟨connInit, []⟩ :=
  ⟨by simp [Freelist.shells, connInit], by simp [Freelist.shells, connInit], by decide, by decide, by decide,
   List.nodup_nil⟩

/-- Pushing a connection that is neither in use nor on the stack keeps the invariant, whatever the enlargement
answers. -/
theorem inv_push {f : Freelist} {inUse : List Nat} {c : Nat} (ok : Bool) (hi : Freelist.Inv ⟨f, inUse⟩)
    (hc : c ∉ inUse) (hs : c ∉ f.shells) : Freelist.Inv ⟨(doConnAddToFreelist f c ok).2, inUse⟩ := by
  rcases doConnAddToFreelist_cases f c ok hi.pos hi.le with ⟨T, hT, hT', h⟩ | ⟨-, -, h⟩
  · rw [h]
    have hsh := shells_push f.freeconns f.freecurr T c hi.written
    refine ⟨?_, ?_, by simpa using hT, by simp; omega, length_writeAt _ _ _ hi.written, hi.useNodup⟩
    · simp only [hsh]
      exact List.nodup_append.2 ⟨hi.nodup, List.nodup_singleton c, by simpa using hs⟩
    · simp only [hsh, List.mem_append, List.mem_singleton]
      rintro d (hd | rfl)
      · exact hi.notUsed d hd
      · exact hc
  · rw [h]; exact hi

/-- Popping a shell keeps the invariant, and the shell is not in use. -/
theorem inv_pop {f f' : Freelist} {inUse : List Nat} {c : Nat} (hi : Freelist.Inv ⟨f, inUse⟩)
    (h : doConnFromFreelist f = (some c, f')) :
    Freelist.Inv ⟨f', inUse⟩ ∧ c ∉ f'.shells ∧ c ∉ inUse := by
  obtain ⟨hsh, htot, hconns, hcurr⟩ := doConnFromFreelist_some h hi.written
  have hnd : (f'.shells ++ [c]).Nodup := hsh ▸ hi.nodup
  have hnu : ∀ d ∈ f'.shells ++ [c], d ∉ inUse := hsh ▸ hi.notUsed
  have hle : f.freecurr ≤ f.freetotal := hi.le
  have hw : f.freecurr ≤ f.freeconns.length := hi.written
  refine ⟨⟨(List.nodup_append.1 hnd).1, fun d hd => hnu d (by simp [hd]), show f'.freecurr ≤ f'.freetotal by omega,
    show 0 < f'.freetotal by rw [htot]; exact hi.pos, show f'.freecurr ≤ f'.freeconns.length by rw [hconns]; omega,
    hi.useNodup⟩, ?_, hnu c (by simp)⟩
  intro hc
  exact (List.nodup_append.1 hnd).2.2 hc (List.mem_singleton_self c)

/-- **`conn_new` keeps the invariant.** -/
theorem inv_connNew {p : Pool} (a : NewAns) (hi : Freelist.Inv p)
    (hfresh : a.fresh ∉ p.inUse ∧ a.fresh ∉ p.free.shells) : Freelist.Inv (connNew p a).2 := by
  unfold connNew
  rcases hget : doConnFromFreelist p.free with ⟨_ | c, f⟩
  · obtain ⟨rfl, hnil⟩ := doConnFromFreelist_none hget
    cases ha : a.allocOk
    · simpa using hi
    · simp only [ite_true]
      cases he : a.eventOk
      · exact inv_push a.growOk hi hfresh.1 hfresh.2
      · refine ⟨hi.nodup, fun d hd => ?_, hi.le, hi.pos, hi.written, List.nodup_cons.2 ⟨hfresh.1, hi.useNodup⟩⟩
        simp [hnil] at hd
  · obtain ⟨hi', hcs, hcu⟩ := inv_pop hi hget
    cases he : a.eventOk
    · exact inv_push a.growOk hi' hcu hcs
    · refine ⟨hi'.nodup, fun d hd hd' => ?_, hi'.le, hi'.pos, hi'.written, List.nodup_cons.2 ⟨hcu, hi.useNodup⟩⟩
      rcases List.mem_cons.1 hd' with rfl | hd'
      · exact hcs hd
      · exact hi'.notUsed d hd hd'

/-- **`conn_close` keeps the invariant.** -/
theorem inv_connClose {p : Pool} (c : Nat) (big growOk : Bool) (hi : Freelist.Inv p) (hc : c ∈ p.inUse) :
    Freelist.Inv (connClose p c big growOk) := by
  have hnu : c ∉ p.inUse.erase c := List.Nodup.not_mem_erase hi.useNodup
  have hsub : ∀ d ∈ p.free.shells, d ∉ p.inUse.erase c := fun d hd hd' =>
    hi.notUsed d hd (List.mem_of_mem_erase hd')
  have hi' : Freelist.Inv ⟨p.free, p.inUse.erase c⟩ :=
    ⟨hi.nodup, hsub, hi.le, hi.pos, hi.written, hi.useNodup.erase c⟩
  unfold connClose
  cases big
  · exact inv_push growOk hi' hnu (fun hs => hi.notUsed c hs hc)
  · exact hi'

theorem inv_of_reach {p : Pool} (h : PoolReach p) : Freelist.Inv p := by
  induction h with
  | init => exact inv_init
  | new a _ hfresh ih => exact inv_connNew a ih hfresh
  | close c big growOk _ hc ih => exact inv_connClose c big growOk ih hc

/-- **The connection freelist.**  In every pool a run of `conn_new` (with its registration failures) and
`conn_close` reaches, the shells on the stack are pairwise distinct and none is in use, `0 ≤ freecurr ≤ freetotal`,
and `do_conn_from_freelist` hands out no connection in use; a failed enlargement in `do_conn_add_to_freelist`
returns `true` (the caller then frees the connection) and leaves the freelist as it was. -/
theorem freelist_shells_distinct_unused {p : Pool} (h : PoolReach p) :
    p.free.shells.Nodup ∧ (∀ c ∈ p.free.shells, c ∉ p.inUse) ∧ p.free.freecurr ≤ p.free.freetotal ∧
    (∀ c f', doConnFromFreelist p.free = (some c, f') → c ∉ p.inUse) ∧
    (∀ c, p.free.freetotal ≤ p.free.freecurr → doConnAddToFreelist p.free c false = (true, p.free)) := by
  have hi := inv_of_reach h
  refine ⟨hi.nodup, hi.notUsed, hi.le, fun c f' hc => (inv_pop hi hc).2.2, fun c hfull => ?_⟩
  simp [doConnAddToFreelist, Nat.not_lt.2 hfull]

/-- The pool after one connection is opened and closed again. -/
def poolOpenClose : Pool := connClose (connNew ⟨connInit, []⟩ ⟨7, true, true, true⟩).2 7 false true

/-- A connection opened and closed again waits alone on the stack. -/
theorem freelist_open_close :
    PoolReach poolOpenClose ∧ poolOpenClose.free.shells = [7] ∧
    (poolOpenClose.free.shells.Nodup ∧ (∀ c ∈ poolOpenClose.free.shells, c ∉ poolOpenClose.inUse) ∧
      poolOpenClose.free.freecurr ≤ poolOpenClose.free.freetotal ∧
      (∀ c f', doConnFromFreelist poolOpenClose.free = (some c, f') → c ∉ poolOpenClose.inUse) ∧
      (∀ c, poolOpenClose.free.freetotal ≤ poolOpenClose.free.freecurr →
        doConnAddToFreelist poolOpenClose.free c false = (true, poolOpenClose.free))) :=
  have h : PoolReach poolOpenClose := .close 7 false true (.new _ .init (by decide)) (by decide)
  ⟨h, by decide, freelist_shells_distinct_unused h⟩

end Beansdb
