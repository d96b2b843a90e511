import Beansdb.Shrink
/-!
# Get — `process_get_command`

The key loop walks the tokens of the current chunk; at the terminal token it tokenizes again from the terminal's
value, and the `do … while` ends when the token it stands on has a NULL value.  A failed allocation `break`s out of
the inner loop *on the key*, and the same re-tokenization then restarts from that key.  The counts of lookups, hits
and misses are kept in locals and added to `stats` under `STATS_LOCK` at the two exits.  The loop is run with
`fuel` passes, one per key looked at or chunk tokenized; `none` is a run that did not end within them.
-/
namespace Beansdb

/-- The locals of `process_get_command` inside its loop. -/
structure GetSt where
  conn   : Conn
  env    : Env
  buf    : List Char
  toks   : List Token
  /-- `key_token`, an index into `tokens`. -/
  k      : Nat
  i      : Nat
  cmds   : Nat
  hits   : Nat
  misses : Nat

/-- How the key loop ended: the `do … while` finished on the token `t`, or a key was longer than `MAX_KEY_LEN`. -/
inductive GetEnd where
  | done (s : GetSt) (t : Token)
  | tooLong (s : GetSt)

/-- The `ilist` check of a hit: when `i` has reached `isize` the list is doubled, and `none` is the failed
`try_realloc`. -/
def growIlist (c : Conn) (e : Env) (i : Nat) : Option Conn × Env :=
  if c.isize ≤ i then
    if e.ok then (some { c with isize := c.isize * 2 }, e.tick) else (none, e.tick)
  else (some c, e)

theorem growIlist_ticked (c : Conn) (e : Env) (i : Nat) : e.Ticked (growIlist c e i).2 := by
  unfold growIlist; split_ifs <;> first | exact e.ticked_tick | exact .refl e

theorem growIlist_fault (c : Conn) (e : Env) (i : Nat) : (growIlist c e i).2.fault = e.fault := by
  unfold growIlist; split_ifs <;> rfl

theorem growIlist_full {c : Conn} {e : Env} {i : Nat} (hi : c.isize ≤ i) (hr : e.Refuses) :
    growIlist c e i = (none, e.tick) := by
  simp [growIlist, hi, hr.ok]

theorem growIlist_of_lt {c : Conn} {e : Env} {i : Nat} (hi : i < c.isize) : growIlist c e i = (some c, e) := by
  simp [growIlist, Nat.not_le.2 hi]

/-- The three `add_iov` calls of a hit, `"VALUE "`, the key, and the suffix with the data, joined by `||`: the first
that fails ends it, keeping what the calls before it wrote. -/
def addValue (c : Conn) (e : Env) (h : Held) : Conn × Env × Bool :=
  let r := addIov c e "VALUE ".toList 6 none
  if r.2.2 then
    let r := addIov r.1 r.2.1 h.item.key h.item.key.length (some h.id)
    if r.2.2 then
      addIov r.1 r.2.1 (h.item.suffix ++ h.item.data) (h.item.suffix.length + h.item.data.length) (some h.id)
    else r
  else r

theorem addValue_frame (c : Conn) (e : Env) (h : Held) :
    e.Ticked (addValue c e h).2.1 ∧ (addValue c e h).1.readSide = c.readSide := by
  have h1 := addIov_frame c e "VALUE ".toList 6 none
  have h2 := addIov_frame (addIov c e "VALUE ".toList 6 none).1 (addIov c e "VALUE ".toList 6 none).2.1
    h.item.key h.item.key.length (some h.id)
  unfold addValue; dsimp only
  split_ifs
  · exact ⟨h1.1.trans (h2.1.trans (addIov_frame _ _ _ _ _).1), (addIov_frame _ _ _ _ _).2.trans (h2.2.trans h1.2)⟩
  · exact ⟨h1.1.trans h2.1, h2.2.trans h1.2⟩
  · exact h1

/-- With a `msghdr` open, a hit's `add_iov` calls are defined and leave one open. -/
theorem addValue_fault (c : Conn) (e : Env) (h : Held) (hm : c.msgused ≠ 0) :
    (addValue c e h).2.1.fault = e.fault ∧ (addValue c e h).1.msgused ≠ 0 := by
  obtain ⟨f1, m1⟩ := addIov_fault c e "VALUE ".toList 6 none hm
  obtain ⟨f2, m2⟩ := addIov_fault _ _ h.item.key h.item.key.length (some h.id) m1
  obtain ⟨f3, m3⟩ := addIov_fault _ _ (h.item.suffix ++ h.item.data) (h.item.suffix.length + h.item.data.length)
    (some h.id) m2
  unfold addValue; dsimp only
  split_ifs
  exacts [⟨f3.trans (f2.trans f1), m3⟩, ⟨f2.trans f1, m2⟩, ⟨f1, m1⟩]

/-- With the `iov` array full and the allocator refusing, the first `add_iov` of a hit fails. -/
theorem addValue_full {c : Conn} {e : Env} (h : Held) (hm : c.msgused ≠ 0) (hf : c.iovsize ≤ c.iovused)
    (hr : e.Refuses) :
    (addValue c e h).2.2 = false ∧ (addValue c e h).1.iovsize ≤ (addValue c e h).1.iovused ∧
      (addValue c e h).1.msgused ≠ 0 ∧ (addValue c e h).1.isize = c.isize := by
  have h1 := addIov_full "VALUE ".toList 6 none hm hf hr
  simp only [addValue, h1.1, Bool.false_eq_true, if_false]
  exact ⟨trivial, h1.2⟩

/-- One key of the inner loop after `stats_get_cmds++`: `true` goes on to the next token, `false` is the `break`,
which releases the item and leaves what the `add_iov` calls before it wrote. -/
def getKey (s : GetSt) (key : List Char) : GetSt × Bool :=
  match s.env.store.get key with
  | none => ({ s with misses := s.misses + 1 }, true)
  | some it =>
    let h := s.env.hold it
    match growIlist s.conn h.2 s.i with
    | (none, e) => ({ s with env := e.free h.1 }, false)
    | (some c, e) =>
      let r := addValue c e h.1
      if r.2.2 then
        ({ s with conn := { r.1 with ilist := writeAt r.1.ilist s.i h.1 }, env := r.2.1, i := s.i + 1,
                  hits := s.hits + 1 }, true)
      else ({ s with conn := r.1, env := r.2.1.free h.1 }, false)

theorem getKey_frame (s : GetSt) (key : List Char) :
    (getKey s key).1.buf = s.buf ∧ (getKey s key).1.toks = s.toks ∧ (getKey s key).1.k = s.k ∧
      (getKey s key).1.cmds = s.cmds ∧ (getKey s key).1.conn.readSide = s.conn.readSide := by
  unfold getKey; split
  · exact ⟨rfl, rfl, rfl, rfl, rfl⟩
  · next it _ =>
    dsimp only; split
    · exact ⟨rfl, rfl, rfl, rfl, rfl⟩
    · next c e heq =>
      have hc : c.readSide = s.conn.readSide := by
        unfold growIlist at heq; split_ifs at heq <;> cases heq <;> rfl
      have hv := (addValue_frame c e (s.env.hold it).1).2.trans hc
      split_ifs
      exacts [⟨rfl, rfl, rfl, rfl, hv⟩, ⟨rfl, rfl, rfl, rfl, hv⟩]

/-- Each key looked up ends as a hit, a miss or, at the `break`, an item released. -/
theorem getKey_counts (s : GetSt) (key : List Char) :
    (getKey s key).1.hits + (getKey s key).1.misses + (getKey s key).1.env.freed.length =
      s.hits + s.misses + s.env.freed.length + 1 ∧ (getKey s key).1.env.stats = s.env.stats ∧
      (getKey s key).1.env.input = s.env.input ∧ (getKey s key).1.env.store = s.env.store := by
  unfold getKey; split
  · exact ⟨by dsimp only; omega, rfl, rfl, rfl⟩
  · next it _ =>
    have hg := growIlist_ticked s.conn (s.env.hold it).2 s.i
    dsimp only; split
    · next e heq =>
      rw [heq] at hg
      have hf : e.freed = s.env.freed := hg.freed_eq
      exact ⟨by simp [Env.free, hf]; omega, hg.stats_eq, hg.input_eq, hg.store_eq⟩
    · next c e heq =>
      rw [heq] at hg
      have hv := hg.trans (addValue_frame c e (s.env.hold it).1).1
      have hf : (addValue c e (s.env.hold it).1).2.1.freed = s.env.freed := hv.freed_eq
      split_ifs
      · exact ⟨by simp [hf]; omega, hv.stats_eq, hv.input_eq, hv.store_eq⟩
      · exact ⟨by simp [Env.free, hf]; omega, hv.stats_eq, hv.input_eq, hv.store_eq⟩

/-- A hit with the `ilist` or the `iov` array full and the allocator refusing: the `break`, with the arrays still
full, the store as it was and the allocator still refusing. -/
theorem getKey_full (s : GetSt) (key : List Char) (hit : (s.env.store.get key).isSome) (hr : s.env.Refuses)
    (hf : s.conn.isize ≤ s.i ∨ (s.conn.iovsize ≤ s.conn.iovused ∧ s.conn.msgused ≠ 0)) :
    (getKey s key).2 = false ∧ (getKey s key).1.i = s.i ∧ (getKey s key).1.env.store = s.env.store ∧
      (getKey s key).1.env.Refuses ∧ ((getKey s key).1.conn.isize ≤ (getKey s key).1.i ∨
        ((getKey s key).1.conn.iovsize ≤ (getKey s key).1.conn.iovused ∧ (getKey s key).1.conn.msgused ≠ 0)) := by
  obtain ⟨it, hit⟩ := Option.isSome_iff_exists.1 hit
  unfold getKey; rw [hit]; dsimp only
  have hr' : (s.env.hold it).2.Refuses := hr
  by_cases hi : s.conn.isize ≤ s.i
  · rw [growIlist_full hi hr']; dsimp only
    exact ⟨rfl, rfl, rfl, (hr'.ticked (Env.ticked_tick _)).free _, .inl hi⟩
  · have hf := hf.resolve_left hi
    rw [growIlist_of_lt (Nat.lt_of_not_le hi)]; dsimp only
    have hv := addValue_full (s.env.hold it).1 hf.2 hf.1 hr'
    have ht := (addValue_frame s.conn (s.env.hold it).2 (s.env.hold it).1).1
    rw [if_neg (by simp [hv.1])]; dsimp only
    exact ⟨rfl, rfl, ht.store_eq, (hr'.ticked ht).free _, .inr ⟨hv.2.1, hv.2.2.1⟩⟩

/-- With a `msghdr` open, one key is defined and leaves one open. -/
theorem getKey_fault (s : GetSt) (key : List Char) (hm : s.conn.msgused ≠ 0) :
    (getKey s key).1.conn.msgused ≠ 0 ∧ (getKey s key).1.env.fault = s.env.fault := by
  unfold getKey; split
  · exact ⟨hm, rfl⟩
  · next it _ =>
    have hf := growIlist_fault s.conn (s.env.hold it).2 s.i
    dsimp only; split
    · next e heq => rw [heq] at hf; exact ⟨hm, hf⟩
    · next c e heq =>
      rw [heq] at hf
      have hc : c.msgused = s.conn.msgused := by unfold growIlist at heq; split_ifs at heq <;> cases heq <;> rfl
      obtain ⟨f, m⟩ := addValue_fault c e (s.env.hold it).1 (hc ▸ hm)
      split_ifs
      exacts [⟨m, f.trans hf⟩, ⟨m, f.trans hf⟩]

/-- The `if (key_token->value != NULL)` re-tokenization and the `while` test of the `do … while`: `some` loops again. -/
def retokenize (s : GetSt) (t : Token) : GetSt × Bool :=
  match t.value with
  | none => (s, false)
  | some v =>
    let r := tokenizeCommand s.buf v maxTokens
    ({ s with buf := r.1, toks := r.2, k := 0 }, (tokAt r.2 0).value.isSome)

/-- The `do … while` loop of `process_get_command`. -/
def getLoop : Nat → GetSt → Option GetEnd
  | 0, _ => none
  | fuel + 1, s =>
    let t := tokAt s.toks s.k
    if t.length ≠ 0 then
      if maxKeyLen < t.length then some (.tooLong s)
      else
        let s := { s with cmds := s.cmds + 1 }
        match getKey s (tokBytes s.buf t) with
        | (s', true) => getLoop fuel { s' with k := s.k + 1 }
        | (s', false) =>
          match retokenize s' t with
          | (s'', true) => getLoop fuel s''
          | (s'', false) => some (.done s'' (tokAt s''.toks s''.k))
    else
      match retokenize s t with
      | (s', true) => getLoop fuel s'
      | (s', false) => some (.done s' (tokAt s'.toks s'.k))

/-- One pass of the `do … while` of `getLoop`: the locals the loop goes on from, or how it ends. -/
def getPass (s : GetSt) : GetSt ⊕ GetEnd :=
  let t := tokAt s.toks s.k
  if t.length ≠ 0 then
    if maxKeyLen < t.length then .inr (.tooLong s)
    else
      let s := { s with cmds := s.cmds + 1 }
      match getKey s (tokBytes s.buf t) with
      | (s', true) => .inl { s' with k := s.k + 1 }
      | (s', false) =>
        match retokenize s' t with
        | (s'', true) => .inl s''
        | (s'', false) => .inr (.done s'' (tokAt s''.toks s''.k))
  else
    match retokenize s t with
    | (s', true) => .inl s'
    | (s', false) => .inr (.done s' (tokAt s'.toks s'.k))

/-- `getLoop` runs `getPass` until the loop ends or the fuel runs out. -/
theorem getLoop_succ (fuel : Nat) (s : GetSt) : getLoop (fuel + 1) s = (getPass s).elim (getLoop fuel) some := by
  simp only [getLoop, getPass]
  split_ifs
  · rfl
  · generalize getKey { s with cmds := s.cmds + 1 } (tokBytes s.buf (tokAt s.toks s.k)) = g
    obtain ⟨s', _ | _⟩ := g <;> dsimp only
    · generalize retokenize s' (tokAt s.toks s.k) = g'
      obtain ⟨s'', _ | _⟩ := g' <;> rfl
    · rfl
  · generalize retokenize s (tokAt s.toks s.k) = g'
    obtain ⟨s', _ | _⟩ := g' <;> rfl

/-- The key loop after `n` passes: the locals it stands on, or how it ended. -/
def getRun : Nat → GetSt → GetSt ⊕ GetEnd
  | 0, s => .inl s
  | n + 1, s => (getPass s).elim (getRun n) .inr

/-- A loop that stands on `s'` after `n` passes from `s` goes on from there. -/
theorem getLoop_getRun (fuel : Nat) : ∀ (n : Nat) (s s' : GetSt), getRun n s = .inl s' →
    getLoop (fuel + n) s = getLoop fuel s'
  | 0, s, s', h => by cases h; rfl
  | n + 1, s, s', h => by
    rw [← Nat.add_assoc, getLoop_succ]
    simp only [getRun] at h
    cases hp : getPass s with
    | inl s₁ => rw [hp] at h; exact getLoop_getRun fuel n s₁ s' h
    | inr r => rw [hp] at h; cases h

/-- A key loop that ended within `fuel` passes ends the same way given more. -/
theorem getLoop_add_fuel (k : Nat) : ∀ (fuel : Nat) (s : GetSt) {r : GetEnd},
    getLoop fuel s = some r → getLoop (fuel + k) s = some r
  | 0, _, _, h => nomatch h
  | fuel + 1, s, r, h => by
    rw [getLoop_succ] at h
    rw [Nat.add_right_comm, getLoop_succ]
    cases hp : getPass s with
    | inl s' => rw [hp] at h; exact getLoop_add_fuel k fuel s' h
    | inr r' => rw [hp] at h; exact h

/-- The locals a finished key loop hands back. -/
def GetEnd.st : GetEnd → GetSt
  | .done s _ => s
  | .tooLong s => s

/-- From `s` to `s'` the key loop counted every lookup as a hit, a miss or an item released, left `stats` and the
store alone and built its reply without touching the read side of the connection or the input side of the world;
from an open `msghdr` it was defined throughout and left one open. -/
structure GetSt.Follows (s s' : GetSt) : Prop where
  counts   : s'.cmds + s.hits + s.misses + s.env.freed.length = s.cmds + s'.hits + s'.misses + s'.env.freed.length
  stats    : s'.env.stats = s.env.stats
  readSide : s'.conn.readSide = s.conn.readSide
  input    : s'.env.input = s.env.input
  store    : s'.env.store = s.env.store
  fault    : s.conn.msgused ≠ 0 → s'.conn.msgused ≠ 0 ∧ s'.env.fault = s.env.fault

/-- The locals a pass of the loop changes only in its cursor. -/
theorem GetSt.Follows.of_eq {s s' : GetSt} (hc : s'.conn = s.conn) (he : s'.env = s.env) (hn : s'.cmds = s.cmds)
    (hh : s'.hits = s.hits) (hm : s'.misses = s.misses) : s.Follows s' :=
  ⟨by rw [he, hn, hh, hm], by rw [he], by rw [hc], by rw [he], by rw [he], fun h => ⟨hc ▸ h, by rw [he]⟩⟩

theorem GetSt.Follows.refl (s : GetSt) : s.Follows s := .of_eq rfl rfl rfl rfl rfl

theorem GetSt.Follows.trans {a b c : GetSt} (h1 : a.Follows b) (h2 : b.Follows c) : a.Follows c :=
  ⟨by have := h1.counts; have := h2.counts; omega, h2.stats.trans h1.stats, h2.readSide.trans h1.readSide,
   h2.input.trans h1.input, h2.store.trans h1.store,
   fun h => ⟨(h2.fault (h1.fault h).1).1, (h2.fault (h1.fault h).1).2.trans (h1.fault h).2⟩⟩

theorem follows_getKey (s : GetSt) (key : List Char) : s.Follows (getKey { s with cmds := s.cmds + 1 } key).1 := by
  have h1 := getKey_counts { s with cmds := s.cmds + 1 } key
  have h2 := getKey_frame { s with cmds := s.cmds + 1 } key
  exact ⟨by have := h2.2.2.2.1; simp only at h1 this; omega, h1.2.1, h2.2.2.2.2, h1.2.2.1, h1.2.2.2,
    getKey_fault { s with cmds := s.cmds + 1 } key⟩

theorem follows_retokenize (s : GetSt) (t : Token) : s.Follows (retokenize s t).1 := by
  unfold retokenize; split <;> exact .of_eq rfl rfl rfl rfl rfl

/-- One pass follows from the locals it started from, to those it goes on with or to the end it reaches. -/
theorem getPass_follows (s : GetSt) : (getPass s).elim s.Follows (fun r => s.Follows r.st) := by
  unfold getPass; dsimp only
  split_ifs
  · exact .refl s
  · have hk := follows_getKey s (tokBytes s.buf (tokAt s.toks s.k))
    split
    · next s' heq => rw [heq] at hk; exact hk.trans (.of_eq rfl rfl rfl rfl rfl)
    · next s' heq =>
      rw [heq] at hk
      have ht := follows_retokenize s' (tokAt s.toks s.k)
      split <;> next s'' heq2 => rw [heq2] at ht; exact hk.trans ht
  · have ht := follows_retokenize s (tokAt s.toks s.k)
    split <;> next s' heq => rw [heq] at ht; exact ht

/-- A whole key loop counts every lookup once and leaves the read side alone. -/
theorem getLoop_follows (fuel : Nat) (s : GetSt) (r : GetEnd) (h : getLoop fuel s = some r) : s.Follows r.st := by
  induction fuel generalizing s with
  | zero => cases h
  | succ n ih =>
    have hp := getPass_follows s
    rw [getLoop_succ] at h
    cases hq : getPass s with
    | inl s' => rw [hq] at h hp; exact GetSt.Follows.trans hp (ih s' h)
    | inr r' => rw [hq] at h hp; cases h; exact hp

/-- So do the passes of a loop that has not ended yet. -/
theorem getRun_follows : ∀ (n : Nat) (s s' : GetSt), getRun n s = .inl s' → s.Follows s'
  | 0, s, _, h => by cases h; exact .refl s
  | n + 1, s, s', h => by
    have hp := getPass_follows s
    simp only [getRun] at h
    cases hq : getPass s with
    | inl s₁ => rw [hq] at h hp; exact GetSt.Follows.trans hp (getRun_follows n s₁ s' h)
    | inr r => rw [hq] at h; cases h

/-- `stats.get_cmds += …; stats.get_hits += …; stats.get_misses += …` under `STATS_LOCK`. -/
def addGetStats (e : Env) (s : GetSt) : Env :=
  { e with stats := { e.stats with getCmds := e.stats.getCmds + s.cmds, getHits := e.stats.getHits + s.hits,
                                   getMisses := e.stats.getMisses + s.misses } }

/-- The exit after the loop: `END` when it ran to its NULL terminal and `add_iov` takes it, `SERVER_ERROR` else. -/
def getReply (s : GetSt) (t : Token) : Conn × Env :=
  let c := { s.conn with icurr := 0, ileft := s.i }
  let r := if t.value.isSome then (c, s.env, false) else addIov c s.env "END\r\n".toList 5 none
  if r.2.2 then
    let m := connSetState r.1 r.2.1 .mwrite
    ({ m.1 with msgcurr := 0 }, m.2)
  else outString r.1 r.2.1 "SERVER_ERROR out of memory writing get response".toList

theorem getReply_ticked (s : GetSt) (t : Token) : s.env.Ticked (getReply s t).2 := by
  unfold getReply; dsimp only
  split_ifs
  · contradiction
  · exact outString_ticked _ _ _
  · exact (addIov_frame _ _ _ _ _).1.trans (connSetState_ticked _ _ _)
  · exact (addIov_frame _ _ _ _ _).1.trans (outString_ticked _ _ _)

/-- From `conn_read`, the exit after the loop leaves the read buffer alone. -/
theorem getReply_readView (s : GetSt) (t : Token) (h : s.conn.state = .read) :
    (getReply s t).1.readView = s.conn.readView := by
  unfold getReply; dsimp only
  split_ifs
  · contradiction
  · exact outString_readView _ _ _ h
  · have ha := (addIov_frame { s.conn with icurr := 0, ileft := s.i } s.env "END\r\n".toList 5 none).2
    exact (connSetState_readView _ _ .mwrite (.inl (by decide))).trans (congrArg Prod.fst ha)
  · have ha := (addIov_frame { s.conn with icurr := 0, ileft := s.i } s.env "END\r\n".toList 5 none).2
    exact (outString_readView _ _ _ ((Conn.state_eq_of_readSide ha).trans h)).trans (congrArg Prod.fst ha)

/-- `process_get_command (c, tokens, ntokens)` on the command buffer `buf`, with `fuel` passes of its loop. -/
def processGetCommand (fuel : Nat) (c : Conn) (e : Env) (buf : List Char) (toks : List Token) :
    Option (Conn × Env) :=
  match getLoop fuel ⟨c, e, buf, toks, 1, 0, 0, 0, 0⟩ with
  | none => none
  | some (.tooLong s) => some (outString s.conn (addGetStats s.env s) "CLIENT_ERROR bad command line format".toList)
  | some (.done s t) =>
    let r := getReply s t
    some (r.1, addGetStats r.2 s)

/-- From `conn_read`, `process_get_command` leaves the read buffer alone. -/
theorem processGetCommand_readView {fuel : Nat} {c : Conn} {e : Env} {buf : List Char} {toks : List Token}
    {r : Conn × Env} (h : c.state = .read) (hr : processGetCommand fuel c e buf toks = some r) :
    r.1.readView = c.readView := by
  unfold processGetCommand at hr
  split at hr
  · cases hr
  · next s hs =>
    cases hr
    have hf := (getLoop_follows _ _ _ hs).readSide
    exact (outString_readView _ _ _ ((Conn.state_eq_of_readSide hf).trans h)).trans (congrArg Prod.fst hf)
  · next s t hs =>
    cases hr
    have hf := (getLoop_follows _ _ _ hs).readSide
    exact (getReply_readView s t ((Conn.state_eq_of_readSide hf).trans h)).trans (congrArg Prod.fst hf)

end Beansdb
