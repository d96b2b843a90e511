import Beansdb.Numeral
/-!
# Mfile — the mapped-megabytes counter of `mfile.c`

`open_mfile` and `close_mfile` touch `curr_mmap_size` only inside `mmap_lock`, so a run of any number of threads is a
sequence of steps, each one thread's section between two lock boundaries: `open` and `fstat` (or their failure), the
admission test with the reservation, the `mmap` (or its failure and the rollback), and `close_mfile` up to and
past its decrement.  A thread that has reserved and not yet returned, or has started `close_mfile` and not yet
decremented, holds megabytes the counter counts and no open `MFile` accounts for.  The admission test lets through
every file of at most 100 MiB (`mb > 100` in the source).
-/
namespace Beansdb

/-- `MAX_MMAP_SIZE`, in MiB. -/
def maxMmapSize : Int := 2 ^ 12

/-- `int mb = sb.st_size >> 20`, and `f->size >> 20` in `close_mfile`. -/
def mbOf (size : Nat) : Int := toInt32 (size / 2 ^ 20)

/-- Where a thread is in `open_mfile` or `close_mfile`. -/
inductive MfilePc where
  /-- Outside both. -/
  | idle
  /-- In `open_mfile` past `fstat`, at the admission loop. -/
  | opening (size : Nat)
  /-- In `open_mfile` past the reservation, before it returns. -/
  | reserved (size : Nat)
  /-- In `close_mfile` before its decrement. -/
  | closing (size : Nat)
deriving DecidableEq, Repr

/-- The counter, the threads, and the sizes of the `MFile`s `open_mfile` returned that no `close_mfile` was called
on. -/
structure MmapSys where
  currMmapSize : Int
  threads      : List MfilePc
  files        : List Nat
deriving DecidableEq, Repr

/-- The admission test of `open_mfile`'s loop, under `mmap_lock`: `none` sleeps, `some` is the counter after
`curr_mmap_size += mb`. -/
def reserveMfile (curr : Int) (size : Nat) : Option Int :=
  if curr + mbOf size > maxMmapSize ∧ mbOf size > 100 then none else some (curr + mbOf size)

/-- The megabytes a thread holds in the counter. -/
def MfilePc.held : MfilePc → Int
  | .idle => 0
  | .opening _ => 0
  | .reserved s => mbOf s
  | .closing s => mbOf s

/-- One step of one thread `i`. -/
inductive MmapStep : MmapSys → MmapSys → Prop
  /-- `open` and `fstat` succeed on a file of `size` bytes. -/
  | start {s : MmapSys} (i size : Nat) (h : s.threads[i]? = some .idle) :
      MmapStep s { s with threads := s.threads.set i (.opening size) }
  /-- The admission test passes and the megabytes are counted. -/
  | reserve {s : MmapSys} (i size : Nat) (c : Int) (h : s.threads[i]? = some (.opening size))
      (hc : reserveMfile s.currMmapSize size = some c) :
      MmapStep s { s with currMmapSize := c, threads := s.threads.set i (.reserved size) }
  /-- `mmap` succeeds (or the file is empty): `open_mfile` returns the `MFile`. -/
  | mapped {s : MmapSys} (i size : Nat) (h : s.threads[i]? = some (.reserved size)) :
      MmapStep s { s with threads := s.threads.set i .idle, files := size :: s.files }
  /-- `mmap` fails: the megabytes are given back and `open_mfile` returns NULL. -/
  | mapFailed {s : MmapSys} (i size : Nat) (h : s.threads[i]? = some (.reserved size)) (hpos : 0 < size) :
      MmapStep s { s with currMmapSize := s.currMmapSize - mbOf size, threads := s.threads.set i .idle }
  /-- `close_mfile` is called on an open `MFile`. -/
  | close {s : MmapSys} (i size : Nat) (h : s.threads[i]? = some .idle) (hf : size ∈ s.files) :
      MmapStep s { s with threads := s.threads.set i (.closing size), files := s.files.erase size }
  /-- `close_mfile`'s decrement. -/
  | release {s : MmapSys} (i size : Nat) (h : s.threads[i]? = some (.closing size)) :
      MmapStep s { s with currMmapSize := s.currMmapSize - mbOf size, threads := s.threads.set i .idle }

/-- The states `n` threads reach from a zero counter. -/
inductive MmapReach (n : Nat) : MmapSys → Prop
  | init : MmapReach n ⟨0, List.replicate n .idle, []⟩
  | step {s s' : MmapSys} : MmapReach n s → MmapStep s s' → MmapReach n s'

/-! ## The counter along a run -/

theorem sum_map_set {α : Type} (f : α → Int) :
    ∀ (l : List α) (i : Nat) (x y : α), l[i]? = some y → ((l.set i x).map f).sum = (l.map f).sum - f y + f x
  | [], _, _, _, h => by simp at h
  | a :: l, 0, x, y, h => by
    simp only [List.getElem?_cons_zero, Option.some.injEq] at h
    subst h; simp; omega
  | a :: l, i + 1, x, y, h => by
    simp only [List.getElem?_cons_succ] at h
    simp only [List.set_cons_succ, List.map_cons, List.sum_cons, sum_map_set f l i x y h]
    omega

theorem sum_map_erase {α : Type} [DecidableEq α] (f : α → Int) :
    ∀ (l : List α) (a : α), a ∈ l → ((l.erase a).map f).sum = (l.map f).sum - f a
  | [], _, h => by simp at h
  | b :: l, a, h => by
    by_cases hab : b = a
    · subst hab; simp
    · have ha : a ∈ l := (List.mem_cons.1 h).resolve_left (Ne.symm hab)
      simp only [List.erase_cons_tail (a := a) (b := b) (by simp [hab]), List.map_cons, List.sum_cons, sum_map_erase f l a ha]
      omega

/-- The counter is the megabytes of the open `MFile`s and of the threads in the middle of an open or a close. -/
def MmapSys.Accounts (s : MmapSys) : Prop :=
  s.currMmapSize = (s.files.map mbOf).sum + (s.threads.map MfilePc.held).sum

theorem accounts_step {s s' : MmapSys} (h : MmapStep s s') (hs : s.Accounts) : s'.Accounts := by
  unfold MmapSys.Accounts at *
  cases h with
  | start i size h => rw [sum_map_set _ _ _ _ _ h]; simp only [MfilePc.held]; omega
  | reserve i size c h hc =>
    have hc : s.currMmapSize + mbOf size = c := by
      unfold reserveMfile at hc; split at hc <;> simp_all
    rw [sum_map_set _ _ _ _ _ h]; simp only [MfilePc.held]; omega
  | mapped i size h =>
    rw [sum_map_set _ _ _ _ _ h]
    show _ = ((size :: s.files).map mbOf).sum + _
    rw [List.map_cons, List.sum_cons]; simp only [MfilePc.held]; omega
  | mapFailed i size h _ => rw [sum_map_set _ _ _ _ _ h]; simp only [MfilePc.held]; omega
  | close i size h hf => rw [sum_map_set _ _ _ _ _ h, sum_map_erase _ _ _ hf]; simp only [MfilePc.held]; omega
  | release i size h => rw [sum_map_set _ _ _ _ _ h]; simp only [MfilePc.held]; omega

theorem accounts_of_reach {n : Nat} {s : MmapSys} (h : MmapReach n s) : s.Accounts := by
  induction h with
  | init => simp [MmapSys.Accounts, MfilePc.held, List.map_replicate, nsmul_zero]
  | step _ hst ih => exact accounts_step hst ih

/-- The admission test passes a file of more than 100 MiB only when the counter with it stays within
`MAX_MMAP_SIZE`. -/
theorem reserveMfile_le {curr c : Int} {size : Nat} (h : reserveMfile curr size = some c) (hbig : 100 < mbOf size) :
    c ≤ maxMmapSize := by
  unfold reserveMfile at h
  split at h
  · cases h
  · rename_i hn
    cases h
    omega

/-- The admission test lets a file of at most 100 MiB through whatever the counter. -/
theorem reserveMfile_small (curr : Int) {size : Nat} (hsmall : mbOf size ≤ 100) :
    reserveMfile curr size = some (curr + mbOf size) := by
  unfold reserveMfile
  rw [if_neg (fun h => absurd h.2 (not_lt.2 hsmall))]

theorem threads_set_ne {s : MmapSys} {i j : Nat} {x : MfilePc} (h : j ≠ i) :
    (s.threads.set j x)[i]? = s.threads[i]? := by
  rw [List.getElem?_set_ne h]

/-- Only the admission step takes a thread from the admission loop to a reservation. -/
theorem step_reserve {s s' : MmapSys} (h : MmapStep s s') {i size : Nat}
    (h1 : s.threads[i]? = some (.opening size)) (h2 : s'.threads[i]? = some (.reserved size)) :
    reserveMfile s.currMmapSize size = some s'.currMmapSize := by
  cases h with
  | start j sz hj =>
    by_cases hji : j = i
    · subst hji; rw [hj] at h1; cases h1
    · rw [threads_set_ne hji, h1] at h2; cases h2
  | reserve j sz c hj hc =>
    by_cases hji : j = i
    · subst hji; rw [hj] at h1; cases h1; exact hc
    · rw [threads_set_ne hji, h1] at h2; cases h2
  | mapped j sz hj =>
    by_cases hji : j = i
    · subst hji; rw [hj] at h1; cases h1
    · rw [threads_set_ne hji, h1] at h2; cases h2
  | mapFailed j sz hj _ =>
    by_cases hji : j = i
    · subst hji; rw [hj] at h1; cases h1
    · rw [threads_set_ne hji, h1] at h2; cases h2
  | close j sz hj _ =>
    by_cases hji : j = i
    · subst hji; rw [hj] at h1; cases h1
    · rw [threads_set_ne hji, h1] at h2; cases h2
  | release j sz hj =>
    by_cases hji : j = i
    · subst hji; rw [hj] at h1; cases h1
    · rw [threads_set_ne hji, h1] at h2; cases h2

/-- **The mapped-megabytes counter.**  In every reachable state the counter is the open `MFile`s' megabytes plus
those of the threads inside an open or a close; a file of more than 100 MiB is reserved only into a counter of at
most `MAX_MMAP_SIZE`, and one of at most 100 MiB is admitted whatever the counter. -/
theorem mmap_counter_accounts {n : Nat} {s : MmapSys} (h : MmapReach n s) :
    s.currMmapSize = (s.files.map mbOf).sum + (s.threads.map MfilePc.held).sum ∧
    ((∀ t ∈ s.threads, t.held = 0) → s.currMmapSize = (s.files.map mbOf).sum) ∧
    (∀ (s' : MmapSys) (i size : Nat), MmapStep s s' → s.threads[i]? = some (.opening size) →
      s'.threads[i]? = some (.reserved size) → 100 < mbOf size → s'.currMmapSize ≤ maxMmapSize) ∧
    (∀ i size, s.threads[i]? = some (.opening size) → mbOf size ≤ 100 →
      MmapStep s { s with currMmapSize := s.currMmapSize + mbOf size, threads := s.threads.set i (.reserved size) }) := by
  have ha := accounts_of_reach h
  refine ⟨ha, fun hq => ?_, fun s' i size hst h1 h2 hbig => reserveMfile_le (step_reserve hst h1 h2) hbig,
    fun i size h1 hsmall => .reserve i size _ h1 (reserveMfile_small _ hsmall)⟩
  rw [ha, List.map_congr_left hq, List.map_const', List.sum_replicate, nsmul_zero, add_zero]

/-- Two threads: the first has mapped a 4000 MiB file, the second has just reserved a 100 MiB one. -/
def mmapOverCap : MmapSys := ⟨4100, [.idle, .reserved (100 * 2 ^ 20)], [4000 * 2 ^ 20]⟩

theorem reach_mmapOverCap : MmapReach 2 mmapOverCap :=
  .step (.step (.step (.step (.step .init (.start 0 (4000 * 2 ^ 20) rfl))
    (.reserve 0 (4000 * 2 ^ 20) 4000 rfl (by decide))) (.mapped 0 (4000 * 2 ^ 20) rfl))
    (.start 1 (100 * 2 ^ 20) rfl)) (.reserve 1 (100 * 2 ^ 20) 4100 rfl (by decide))

/-- The counter at the over-cap state: the open file's 4000 MiB and the second thread's reservation of 100. -/
theorem mmapOverCap_accounts :
    MmapReach 2 mmapOverCap ∧
    (mmapOverCap.currMmapSize = (mmapOverCap.files.map mbOf).sum + (mmapOverCap.threads.map MfilePc.held).sum ∧
    ((∀ t ∈ mmapOverCap.threads, t.held = 0) → mmapOverCap.currMmapSize = (mmapOverCap.files.map mbOf).sum) ∧
    (∀ (s' : MmapSys) (i size : Nat), MmapStep mmapOverCap s' → mmapOverCap.threads[i]? = some (.opening size) →
      s'.threads[i]? = some (.reserved size) → 100 < mbOf size → s'.currMmapSize ≤ maxMmapSize) ∧
    (∀ i size, mmapOverCap.threads[i]? = some (.opening size) → mbOf size ≤ 100 →
      MmapStep mmapOverCap
        { mmapOverCap with currMmapSize := mmapOverCap.currMmapSize + mbOf size, threads := mmapOverCap.threads.set i (.reserved size) })) :=
  ⟨reach_mmapOverCap, mmap_counter_accounts reach_mmapOverCap⟩

/-- **The counter is not the open files' sum, and a 100 MiB file passes a full counter.**  Two threads reach a
state where the counter is 4100 while the one open `MFile` has 4000 MiB, and the second thread, holding a 100 MiB
reservation made over `MAX_MMAP_SIZE`, returns its `MFile` with the counter at 4100. -/
theorem mmap_counter_exceeds_cap :
    MmapReach 2 mmapOverCap ∧ mmapOverCap.currMmapSize ≠ (mmapOverCap.files.map mbOf).sum ∧
    mmapOverCap.threads[1]? = some (.reserved (100 * 2 ^ 20)) ∧ 100 ≤ mbOf (100 * 2 ^ 20) ∧
    MmapStep mmapOverCap ⟨4100, [.idle, .idle], [100 * 2 ^ 20, 4000 * 2 ^ 20]⟩ ∧
    maxMmapSize < mmapOverCap.currMmapSize :=
  ⟨reach_mmapOverCap, by decide, rfl, by decide, .mapped 1 (100 * 2 ^ 20) rfl, by decide⟩

end Beansdb
