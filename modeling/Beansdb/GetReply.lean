import Beansdb.Measure
import Beansdb.Words
/-!
# GetReply — what a get sends when every allocation succeeds

`getResponse` says what a get of `keys` sends by the protocol: a `VALUE` block for each key the store holds, then
`END`.  With an allocator that grants every call, the key loop takes every key of the line once, over however many
chunks, and appends its block to the reply (`getLoop_answers`); `conn_mwrite` then sends that reply whole, whatever
the socket accepts at each call (`get_reply_sent`).
-/
namespace Beansdb

/-- What a hit on `key` adds to a get's reply: `VALUE `, the item's key, its suffix and its data. -/
def valueBytes (st : Store) (key : List Char) : List Char :=
  match st.get key with
  | some it => "VALUE ".toList ++ it.key ++ it.suffix ++ it.data
  | none => []

/-- What a get of `keys` sends: the `VALUE` block of each key the store holds, in order, then `END`. -/
def getResponse (st : Store) (keys : List (List Char)) : List Char :=
  keys.flatMap (valueBytes st) ++ "END\r\n".toList

theorem flatMap_valueBytes_length (st : Store) : ∀ keys : List (List Char),
    (keys.flatMap (valueBytes st)).length =
      ((keys.filterMap st.get).map fun it => 6 + it.key.length + it.suffix.length + it.data.length).sum
  | [] => rfl
  | k :: keys => by
    rw [List.flatMap_cons, List.length_append, flatMap_valueBytes_length st keys, valueBytes]
    cases h : st.get k with
    | none => simp [List.filterMap_cons_none h]
    | some it => simp [List.filterMap_cons_some h]; omega

/-- The byte count of a get's reply: `6 + nkey + nsuffix + nbytes` for each hit, and 5 for `END`. -/
theorem getResponse_length (st : Store) (keys : List (List Char)) :
    (getResponse st keys).length =
      ((keys.filterMap st.get).map fun it => 6 + it.key.length + it.suffix.length + it.data.length).sum + 5 := by
  rw [getResponse, List.length_append, flatMap_valueBytes_length]; rfl

/-- The items `item_get` hands out, as §3 has them: the one for a key carries that key, and its data ends in
`\r\n`. -/
def Store.ItemsOk (st : Store) : Prop := ∀ k it, st.get k = some it → it.key = k ∧ ∃ d, it.data = d ++ ['\r', '\n']

/-- The key loop's locals while it builds a reply that can still grow: a laid-out message list with a `msghdr`, and
an allocator that grants every call. -/
structure GetSt.Building (s : GetSt) : Prop where
  iovOk  : s.conn.IovOk
  msg    : s.conn.msgused ≠ 0
  grants : s.env.Grants

/-- From `s` to `s'` the key loop looked up `keys`, once each, and appended their `VALUE` blocks to the reply. -/
structure GetSt.Answers (s s' : GetSt) (keys : List (List Char)) : Prop where
  pending : s'.conn.pending = s.conn.pending ++ keys.flatMap (valueBytes s.env.store)
  cmds    : s'.cmds = s.cmds + keys.length
  hits    : s'.hits = s.hits + keys.countP (fun k => (s.env.store.get k).isSome)
  misses  : s'.misses = s.misses + keys.countP (fun k => (s.env.store.get k).isNone)
  store   : s'.env.store = s.env.store
  outq    : s'.env.outq = s.env.outq
  sends   : s'.env.sends = s.env.sends
  stats   : s'.env.stats = s.env.stats

theorem GetSt.Answers.trans {a b c : GetSt} {k1 k2 : List (List Char)} (h1 : a.Answers b k1) (h2 : b.Answers c k2) :
    a.Answers c (k1 ++ k2) where
  pending := by rw [h2.pending, h1.pending, h1.store, List.flatMap_append, List.append_assoc]
  cmds    := by rw [h2.cmds, h1.cmds, List.length_append, Nat.add_assoc]
  hits    := by rw [h2.hits, h1.hits, h1.store, List.countP_append, Nat.add_assoc]
  misses  := by rw [h2.misses, h1.misses, h1.store, List.countP_append, Nat.add_assoc]
  store   := h2.store.trans h1.store
  outq    := h2.outq.trans h1.outq
  sends   := h2.sends.trans h1.sends
  stats   := h2.stats.trans h1.stats

/-- Moving to another token or chunk looks nothing up. -/
theorem GetSt.answers_nil (s : GetSt) (buf : List Char) (toks : List Token) (k : Nat) :
    s.Answers { s with buf := buf, toks := toks, k := k } [] :=
  ⟨by simp, rfl, rfl, rfl, rfl, rfl, rfl, rfl⟩

theorem growIlist_grants (c : Conn) {e : Env} (i : Nat) (hg : e.Grants) :
    growIlist c e i = (some (if c.isize ≤ i then { c with isize := c.isize * 2 } else c),
      if c.isize ≤ i then e.tick else e) := by
  unfold growIlist; split_ifs <;> simp_all [hg.ok]

/-- **A hit's three `add_iov` calls.**  With the allocator granting every call they succeed and append `VALUE `, the
item's key, and its suffix with its data; with a key and data they keep the reply's sizes. -/
theorem addValue_grants {c : Conn} {e : Env} (h : Held) (hi : c.IovOk) (hm : c.msgused ≠ 0) (hg : e.Grants) :
    (addValue c e h).2.2 = true ∧ (addValue c e h).1.IovOk ∧ (addValue c e h).1.msgused ≠ 0 ∧
      (addValue c e h).1.pending = c.pending ++ ("VALUE ".toList ++ h.item.key ++ h.item.suffix ++ h.item.data) ∧
      (c.SizeOk → h.item.key ≠ [] → h.item.data ≠ [] → (addValue c e h).1.SizeOk) := by
  obtain ⟨r1, i1, m1, p1⟩ := addIov_pending "VALUE ".toList 6 none hi hm hg (by decide)
  have g1 := hg.ticked (addIov_frame c e "VALUE ".toList 6 none).1
  obtain ⟨r2, i2, m2, p2⟩ := addIov_pending h.item.key h.item.key.length (some h.id) i1 m1 g1 le_rfl
  have g2 := g1.ticked (addIov_frame (addIov c e "VALUE ".toList 6 none).1 (addIov c e "VALUE ".toList 6 none).2.1
    h.item.key h.item.key.length (some h.id)).1
  obtain ⟨r3, i3, m3, p3⟩ := addIov_pending (h.item.suffix ++ h.item.data)
    (h.item.suffix.length + h.item.data.length) (some h.id) i2 m2 g2 (by simp)
  simp only [addValue, r1, r2, if_true]
  refine ⟨r3, i3, m3, ?_, fun hs hk hd => ?_⟩
  · rw [p3, p2, p1, List.take_length, ← List.length_append, List.take_length]
    simp only [List.append_assoc]
    rfl
  · have s1 := addIov_sizeOk "VALUE ".toList 6 none hi hs hm hg (by decide) (by decide)
    have s2 := addIov_sizeOk h.item.key h.item.key.length (some h.id) i1 s1 m1 g1 (List.length_pos.2 hk) le_rfl
    exact addIov_sizeOk _ _ (some h.id) i2 s2 m2 g2 (by have := List.length_pos.2 hd; omega) (by simp)

/-- **One key, every allocation granted.**  The lookup goes on to the next key, the reply grows by the key's
`VALUE` block, and the hit or miss is counted. -/
theorem getKey_grants (s : GetSt) (key : List Char) (hb : s.Building) :
    (getKey { s with cmds := s.cmds + 1 } key).2 = true ∧ (getKey { s with cmds := s.cmds + 1 } key).1.Building ∧
      s.Answers (getKey { s with cmds := s.cmds + 1 } key).1 [key] ∧
      (s.env.store.ItemsOk → key ≠ [] → s.conn.SizeOk → (getKey { s with cmds := s.cmds + 1 } key).1.conn.SizeOk) := by
  unfold getKey
  split
  · next hget =>
    have hget' : s.env.store.get key = none := hget
    exact ⟨rfl, ⟨hb.1, hb.2, hb.3⟩, ⟨by simp [valueBytes, hget'], rfl, by simp [hget'], by simp [hget'], rfl, rfl, rfl,
      rfl⟩,
      fun _ _ hs => hs⟩
  · next it hget =>
    have hget' : s.env.store.get key = some it := hget
    dsimp only
    have hg : (s.env.hold it).2.Grants := hb.grants
    rw [growIlist_grants _ _ hg]
    dsimp only
    obtain ⟨c₁, hc₁, hi₁, hm₁, hp₁, hs₁⟩ : ∃ c₁, (if s.conn.isize ≤ s.i then { s.conn with isize := s.conn.isize * 2 }
        else s.conn) = c₁ ∧ c₁.IovOk ∧ c₁.msgused ≠ 0 ∧ c₁.pending = s.conn.pending ∧ (s.conn.SizeOk → c₁.SizeOk) := by
      split_ifs
      · exact ⟨_, rfl, ⟨hb.iovOk.1, hb.iovOk.2, hb.iovOk.3, hb.iovOk.4, hb.iovOk.5⟩, hb.msg, rfl,
          fun hs => ⟨hs.1, hs.2, hs.3, hs.4, hs.5⟩⟩
      · exact ⟨_, rfl, hb.iovOk, hb.msg, rfl, id⟩
    obtain ⟨e₁, he₁, ht₁⟩ : ∃ e₁, (if s.conn.isize ≤ s.i then (s.env.hold it).2.tick else (s.env.hold it).2) = e₁ ∧
        (s.env.hold it).2.Ticked e₁ := by
      split_ifs
      exacts [⟨_, rfl, Env.ticked_tick _⟩, ⟨_, rfl, .refl _⟩]
    rw [hc₁, he₁]
    obtain ⟨r, i1, m1, p1, s1⟩ := addValue_grants (s.env.hold it).1 hi₁ hm₁ (hg.ticked ht₁)
    have ht := ht₁.trans (addValue_frame c₁ e₁ (s.env.hold it).1).1
    rw [if_pos r]
    refine ⟨rfl, ⟨⟨i1.1, i1.2, i1.3, i1.4, i1.5⟩, m1, hg.ticked ht⟩,
      ⟨?_, rfl, by simp [hget'], by simp [hget'], ht.store_eq, ht.outq_eq, ht.sends_eq, ht.stats_eq⟩, fun hI hk hs => ?_⟩
    swap
    · obtain ⟨hkey, d, hd⟩ := hI key it hget'
      have := s1 (hs₁ hs) (by show it.key ≠ []; rw [hkey]; exact hk) (by show it.data ≠ []; rw [hd]; simp)
      exact ⟨this.1, this.2, this.3, this.4, this.5⟩
    show (addValue c₁ e₁ (s.env.hold it).1).1.pending = _
    rw [p1, hp₁]
    simp [valueBytes, hget', Env.hold]

/-- The words the key loop still has to look up: those its tokens name from `key_token` on, then the rest of the
line from the terminal's value. -/
def GetSt.todo (s : GetSt) : List (List Char) := chunkWords s.buf (s.toks.drop s.k)

/-- The passes the key loop still needs at most: one per word and one per chunk before it, and one more when it
stands on a terminal. -/
def GetSt.passes (s : GetSt) : Nat := 2 * s.todo.length + if (tokAt s.toks s.k).length = 0 then 1 else 0

theorem retokenize_conn (s : GetSt) (t : Token) : (retokenize s t).1.conn = s.conn := by
  unfold retokenize; split <;> rfl

/-- At a terminal, `retokenize` leaves the words still to look up as they were: the loop ends on a NULL terminal
when there are none, and goes on, standing on a key, when there are. -/
theorem retokenize_terminal {s s₁ : GetSt} {go : Bool} (hl : (tokAt s.toks s.k).length = 0)
    (ht : TokensIn s.buf s.toks) (hb : s.Building) (hr : retokenize s (tokAt s.toks s.k) = (s₁, go)) :
    s₁.Building ∧ TokensIn s₁.buf s₁.toks ∧ s₁.todo = s.todo ∧ s.Answers s₁ [] ∧
      (go = true → (tokAt s₁.toks s₁.k).length ≠ 0) ∧
      (go = false → (tokAt s₁.toks s₁.k).value = none ∧ s.todo = []) := by
  have htodo : s.todo = chunkWords s.buf (tokAt s.toks s.k :: s.toks.drop (s.k + 1)) := chunkWords_drop _ _ _
  simp only [chunkWords, hl, ne_eq, not_true_eq_false, if_false] at htodo
  unfold retokenize at hr
  cases hv : (tokAt s.toks s.k).value with
  | none =>
    rw [hv] at htodo hr
    cases hr
    exact ⟨hb, ht, rfl, GetSt.answers_nil s s.buf s.toks s.k, nofun, fun _ => ⟨hv, htodo⟩⟩
  | some v =>
    rw [hv] at htodo hr
    dsimp only at htodo hr
    have hp : v ≤ s.buf.length := by have := (ht.tokAt s.k).2 v hv; omega
    obtain ⟨hw, hin, hnone, hfirst, -, -⟩ := tokenizeCommand_chunk s.buf v hp
    generalize tokenizeCommand s.buf v maxTokens = r at hw hin hnone hfirst hr
    cases hr
    refine ⟨⟨hb.1, hb.2, hb.3⟩, hin, by rw [htodo, ← hw]; rfl, GetSt.answers_nil s _ _ 0, fun hgo => ?_, fun hgo => ?_⟩
    · exact hfirst fun hemp => by rw [hnone hemp] at hgo; cases hgo
    · by_cases hemp : words (s.buf.drop v) = []
      · exact ⟨hnone hemp, htodo.trans hemp⟩
      · obtain ⟨w, hw0, -⟩ := (hin.tokAt 0).1 (hfirst hemp)
        rw [hw0] at hgo; cases hgo

/-- **The key loop, every allocation granted.**  Given passes enough, the loop ends.  When every word left has at
most `MAX_KEY_LEN` bytes, it looks each up once, in order, and ends on a NULL terminal; at the first longer word it
ends there, having looked up exactly the words before it. -/
theorem getLoop_answers (fuel : Nat) : ∀ (s : GetSt), s.Building → TokensIn s.buf s.toks → s.passes < fuel →
    ∃ r, getLoop fuel s = some r ∧ ((∀ w ∈ s.todo, w.length ≤ maxKeyLen) →
      ∃ s', r = .done s' (tokAt s'.toks s'.k) ∧ (tokAt s'.toks s'.k).value = none ∧ s'.Building ∧
        s.Answers s' s.todo ∧ (s.env.store.ItemsOk → s.conn.SizeOk → s'.conn.SizeOk)) ∧
      ∀ ks w rest, s.todo = ks ++ w :: rest → (∀ k ∈ ks, k.length ≤ maxKeyLen) → maxKeyLen < w.length →
        ∃ s', r = .tooLong s' ∧ s.Answers s' ks := by
  induction fuel with
  | zero => intro s _ _ hf; omega
  | succ fuel ih =>
    intro s hb ht hf
    have htodo : s.todo = chunkWords s.buf (tokAt s.toks s.k :: s.toks.drop (s.k + 1)) := chunkWords_drop _ _ _
    unfold getLoop; dsimp only
    by_cases hl : (tokAt s.toks s.k).length = 0
    · -- a terminal: the loop ends, or tokenizes the next chunk
      rw [if_neg (not_not.2 hl)]
      rcases hr : retokenize s (tokAt s.toks s.k) with ⟨s₁, _ | _⟩
      · obtain ⟨hb₁, -, -, ha, -, hend⟩ := retokenize_terminal hl ht hb hr
        obtain ⟨hnone, hnil⟩ := hend rfl
        have hc : s₁.conn = s.conn := by rw [← retokenize_conn s (tokAt s.toks s.k), hr]
        refine ⟨_, rfl, fun _ => ⟨s₁, rfl, hnone, hb₁, by rw [hnil]; exact ha, fun _ hs => hc ▸ hs⟩,
          fun ks w rest h => ?_⟩
        rw [hnil] at h; simp at h
      · obtain ⟨hb₁, hin, hs', ha, hgo, -⟩ := retokenize_terminal hl ht hb hr
        have hpass : s₁.passes < fuel := by
          unfold GetSt.passes at hf ⊢
          rw [hs', if_neg (hgo rfl)]; rw [if_pos hl] at hf; omega
        obtain ⟨r', h1, hd, hlong⟩ := ih s₁ hb₁ hin hpass
        have hc : s₁.conn = s.conn := by rw [← retokenize_conn s (tokAt s.toks s.k), hr]
        refine ⟨r', h1, fun hk => ?_, fun ks w rest h hks hw => ?_⟩
        · obtain ⟨s', h1', h2, h3, h4, h5⟩ := hd (by rw [hs']; exact hk)
          exact ⟨s', h1', h2, h3, by rw [← hs']; exact ha.trans h4, fun hI hs => h5 (ha.store ▸ hI) (hc ▸ hs)⟩
        · obtain ⟨s', h1', h2⟩ := hlong ks w rest (hs'.trans h) hks hw
          exact ⟨s', h1', ha.trans h2⟩
    · -- a key: look it up and go on to the next token
      simp only [chunkWords, hl, ne_eq, not_false_eq_true, if_true] at htodo
      obtain ⟨v, hv, -⟩ := (ht.tokAt s.k).1 hl
      have hlen := tokBytes_length hv ((ht.tokAt s.k).2 v hv)
      rw [if_pos hl]
      by_cases hlong : maxKeyLen < (tokAt s.toks s.k).length
      · -- an over-long key ends the loop
        rw [if_pos hlong]
        refine ⟨_, rfl, fun hk => absurd (hk _ (htodo ▸ List.mem_cons_self _ _)) (by rw [hlen]; omega),
          fun ks w rest h hks _ => ?_⟩
        cases ks with
        | nil => exact ⟨s, rfl, GetSt.answers_nil s s.buf s.toks s.k⟩
        | cons k ks =>
          rw [htodo, List.cons_append, List.cons.injEq] at h
          exact absurd (hks k (List.mem_cons_self _ _)) (by rw [← h.1, hlen]; omega)
      rw [if_neg hlong]
      obtain ⟨hgk, hb1, ha1, hs1⟩ := getKey_grants s (tokBytes s.buf (tokAt s.toks s.k)) hb
      obtain ⟨hbuf, htoks, -, -, -⟩ := getKey_frame { s with cmds := s.cmds + 1 } (tokBytes s.buf (tokAt s.toks s.k))
      rw [show getKey { s with cmds := s.cmds + 1 } (tokBytes s.buf (tokAt s.toks s.k)) =
        ((getKey { s with cmds := s.cmds + 1 } (tokBytes s.buf (tokAt s.toks s.k))).1, true) from Prod.ext rfl hgk]
      dsimp only
      set s₁ := (getKey { s with cmds := s.cmds + 1 } (tokBytes s.buf (tokAt s.toks s.k))).1
      have hs₂ : ({ s₁ with k := s.k + 1 } : GetSt).todo = chunkWords s.buf (s.toks.drop (s.k + 1)) := by
        show chunkWords s₁.buf (s₁.toks.drop (s.k + 1)) = _
        rw [hbuf, htoks]
      have hpass : ({ s₁ with k := s.k + 1 } : GetSt).passes < fuel := by
        unfold GetSt.passes at hf ⊢
        rw [hs₂]; rw [htodo, if_neg hl, List.length_cons] at hf
        split_ifs <;> omega
      obtain ⟨r', h1, hd, hlong'⟩ := ih { s₁ with k := s.k + 1 } ⟨hb1.1, hb1.2, hb1.3⟩
        (by show TokensIn s₁.buf s₁.toks; rw [hbuf, htoks]; exact ht) hpass
      have hnext : s.Answers { s₁ with k := s.k + 1 } [tokBytes s.buf (tokAt s.toks s.k)] :=
        (List.append_nil [tokBytes s.buf (tokAt s.toks s.k)]) ▸
          ha1.trans (show s₁.Answers { s₁ with k := s.k + 1 } [] from ⟨by simp, rfl, rfl, rfl, rfl, rfl, rfl, rfl⟩)
      refine ⟨r', h1, fun hk => ?_, fun ks w rest h hks hw => ?_⟩
      · obtain ⟨s', h1', h2, h3, h4, h5⟩ :=
          hd (fun w hw => hk w (by rw [htodo]; exact List.mem_cons_of_mem _ (hs₂ ▸ hw)))
        refine ⟨s', h1', h2, h3, ?_, fun hI hs => h5 (ha1.store ▸ hI) (hs1 hI ?_ hs)⟩
        · rw [htodo, ← List.singleton_append]
          exact hnext.trans (hs₂ ▸ h4)
        · rw [← List.length_pos, hlen]; exact Nat.pos_of_ne_zero hl
      · cases ks with
        | nil =>
          rw [htodo, List.nil_append, List.cons.injEq] at h
          exact absurd hw (by rw [← h.1, hlen]; omega)
        | cons k ks =>
          rw [htodo, List.cons_append, List.cons.injEq] at h
          obtain ⟨s', h1', h2⟩ :=
            hlong' ks w rest (hs₂.trans h.2) (fun k' hk' => hks k' (List.mem_cons_of_mem _ hk')) hw
          exact ⟨s', h1', by rw [← h.1, ← List.singleton_append]; exact hnext.trans h2⟩

theorem connSetState_of_ne_read (c : Conn) (e : Env) {s : ConnState} (hs : s ≠ .read) :
    connSetState c e s = ({ c with state := s }, e) := by
  by_cases h1 : s = c.state
  · subst h1
    simp only [connSetState, ne_eq, not_true_eq_false, if_false]
  · simp [connSetState, h1, hs]

/-- **The exit after a whole key loop.**  On its NULL terminal, with every allocation granted, `END` joins the
reply and the connection enters `conn_mwrite` from its first message. -/
theorem getReply_grants (s : GetSt) (t : Token) (hb : s.Building) (ht : t.value = none) :
    (getReply s t).1.state = .mwrite ∧ (getReply s t).1.msgcurr = 0 ∧ (getReply s t).1.IovOk ∧
      (getReply s t).1.pending = s.conn.pending ++ "END\r\n".toList ∧ (getReply s t).2.outq = s.env.outq ∧
      (getReply s t).2.sends = s.env.sends ∧ (getReply s t).2.stats = s.env.stats ∧
      (s.conn.SizeOk → (getReply s t).1.SizeOk) := by
  have hc : ({ s.conn with icurr := 0, ileft := s.i } : Conn).IovOk := ⟨hb.1.1, hb.1.2, hb.1.3, hb.1.4, hb.1.5⟩
  obtain ⟨r, i1, -, p1⟩ := addIov_pending "END\r\n".toList 5 none hc hb.msg hb.grants (by decide)
  have hf := (addIov_frame { s.conn with icurr := 0, ileft := s.i } s.env "END\r\n".toList 5 none).1
  have hg : getReply s t =
      ({ (addIov { s.conn with icurr := 0, ileft := s.i } s.env "END\r\n".toList 5 none).1 with
          state := .mwrite, msgcurr := 0 },
        (addIov { s.conn with icurr := 0, ileft := s.i } s.env "END\r\n".toList 5 none).2.1) := by
    simp only [getReply, ht, Option.isSome_none, Bool.false_eq_true, if_false, r, if_true,
      connSetState_of_ne_read _ _ (show ConnState.mwrite ≠ .read by decide)]
  rw [hg]
  refine ⟨rfl, rfl, ⟨i1.1, i1.2, i1.3, i1.4, i1.5⟩, p1, hf.outq_eq, hf.sends_eq, hf.stats_eq, fun hs => ?_⟩
  have := addIov_sizeOk "END\r\n".toList 5 none hc ⟨hs.1, hs.2, hs.3, hs.4, hs.5⟩ hb.msg hb.grants (by decide)
    (by decide)
  exact ⟨this.1, this.2, this.3, this.4, this.5⟩

/-- **`process_get_command`, every allocation granted.**  Given passes enough, it looks up every word after `get`,
once each, builds the reply `getResponse` names, counts the lookups, and enters `conn_mwrite`. -/
theorem processGetCommand_grants (fuel : Nat) (c : Conn) (e : Env) (buf : List Char) (toks : List Token)
    (hb : GetSt.Building ⟨c, e, buf, toks, 1, 0, 0, 0, 0⟩) (ht : TokensIn buf toks)
    (hk : ∀ w ∈ chunkWords buf (toks.drop 1), w.length ≤ maxKeyLen)
    (hf : 2 * (chunkWords buf (toks.drop 1)).length + 1 < fuel) :
    ∃ c' e', processGetCommand fuel c e buf toks = some (c', e') ∧ c'.state = .mwrite ∧ c'.msgcurr = 0 ∧
      c'.IovOk ∧ c'.pending = c.pending ++ getResponse e.store (chunkWords buf (toks.drop 1)) ∧ e'.outq = e.outq ∧
      e'.stats.getCmds = e.stats.getCmds + (chunkWords buf (toks.drop 1)).length ∧
      e'.stats.getHits = e.stats.getHits + (chunkWords buf (toks.drop 1)).countP (fun k => (e.store.get k).isSome) ∧
      e'.stats.getMisses = e.stats.getMisses + (chunkWords buf (toks.drop 1)).countP (fun k => (e.store.get k).isNone) ∧
      e'.sends = e.sends ∧ (e.store.ItemsOk → c.SizeOk → c'.SizeOk) := by
  have hpass : GetSt.passes ⟨c, e, buf, toks, 1, 0, 0, 0, 0⟩ < fuel := by
    unfold GetSt.passes GetSt.todo; dsimp only; split_ifs <;> omega
  obtain ⟨r, h1, hd, -⟩ := getLoop_answers fuel _ hb ht hpass
  obtain ⟨s', rfl, h2, h3, h4, h5⟩ := hd hk
  obtain ⟨r1, r2, r3, r4, r5, r6, r7, r8⟩ := getReply_grants s' _ h3 h2
  unfold processGetCommand
  rw [h1]
  refine ⟨_, _, rfl, r1, r2, r3, ?_, ?_, ?_, ?_, ?_, by rw [addGetStats, r6, h4.sends], fun hI hs => r8 (h5 hI hs)⟩
  · rw [r4, h4.pending, getResponse, List.append_assoc]; rfl
  · rw [addGetStats, r5, h4.outq]
  · simp only [addGetStats, r7, h4.stats, h4.cmds, Nat.zero_add]; rfl
  · simp only [addGetStats, r7, h4.stats, h4.hits, h4.store, Nat.zero_add]; rfl
  · simp only [addGetStats, r7, h4.stats, h4.misses, h4.store, Nat.zero_add]; rfl

theorem addMsghdr_grants (c : Conn) (e : Env) (hg : e.Grants) (h : c.IovOk) :
    ∃ c', addMsghdr c e = (some c', (addMsghdr c e).2) ∧ c'.IovOk ∧ c'.msgused = c.msgused + 1 ∧
      c'.pending = c.pending := by
  have hc : ({ c with msgsize := c.msgsize * 2 } : Conn).IovOk := ⟨h.1, h.2, h.3, h.4, h.5⟩
  unfold addMsghdr
  split_ifs with h1 h2
  · exact ⟨_, rfl, hc.push, rfl, rfl⟩
  · exact absurd hg.ok h2
  · exact ⟨_, rfl, h.push, rfl, rfl⟩

/-- A word the scan ended with a `'\0'` reads back as a C string. -/
theorem cstr_of_nul {l w : List Char} {n : Nat} (hw : l.take n = w) (hnul : '\x00' ∉ w)
    (hend : charAt l n = '\x00') : cstr l = w := by
  have hpos : ∀ a ∈ l.take n, decide (a ≠ '\x00') = true := by
    rw [hw]
    intro a ha
    have : a ≠ '\x00' := fun h => hnul (h ▸ ha)
    simpa using this
  rw [cstr, ← List.take_append_drop n l, List.takeWhile_append_of_pos hpos, hw]
  rcases Nat.lt_or_ge n l.length with hn | hn
  · rw [charAt, List.getD_eq_getElem?_getD, List.getElem?_eq_getElem hn, Option.getD_some] at hend
    rw [List.drop_eq_getElem_cons hn, hend]; simp
  · rw [List.drop_eq_nil_of_le hn]; simp

theorem charAt_drop (l : List Char) (v n : Nat) : charAt (l.drop v) n = charAt l (v + n) := by
  simp [charAt, List.getElem?_drop]

/-- The first chunk of a line whose words are `get` and `keys`: it points into its buffer, its first token is `get`,
and from its second token on it names the keys, of which it holds at least one when there is one. -/
theorem getLine_chunk {line : List Char} {keys : List (List Char)} (hw : words line = "get".toList :: keys) :
    TokensIn (tokenizeCommand (line ++ ['\x00']) 0 maxTokens).1 (tokenizeCommand (line ++ ['\x00']) 0 maxTokens).2 ∧
    chunkWords (tokenizeCommand (line ++ ['\x00']) 0 maxTokens).1
      ((tokenizeCommand (line ++ ['\x00']) 0 maxTokens).2.drop 1) = keys ∧
    streq (tokStr (tokenizeCommand (line ++ ['\x00']) 0 maxTokens).1
      (tokAt (tokenizeCommand (line ++ ['\x00']) 0 maxTokens).2 0)) "get" = true ∧
    (keys ≠ [] → 3 ≤ (tokenizeCommand (line ++ ['\x00']) 0 maxTokens).2.length) := by
  obtain ⟨hch, hin, -, hfirst, hmin, -⟩ := tokenizeCommand_chunk (line ++ ['\x00']) 0 (Nat.zero_le _)
  rw [List.drop_zero, words_append_nul, hw] at hch hfirst hmin
  generalize tokenizeCommand (line ++ ['\x00']) 0 maxTokens = r at hch hin hfirst hmin ⊢
  have h0 := hfirst (List.cons_ne_nil _ _)
  obtain ⟨v, hv, hnul⟩ := (hin.tokAt 0).1 h0
  rw [← List.drop_zero r.2, chunkWords_drop] at hch
  simp only [chunkWords, h0, ne_eq, not_false_eq_true, if_true, List.cons.injEq] at hch
  have hc : cstr (r.1.drop v) = "get".toList := by
    refine cstr_of_nul (n := (tokAt r.2 0).length) ?_ (by decide) (by rw [charAt_drop]; exact hnul)
    rw [← hch.1]; simp [tokBytes, hv]
  refine ⟨hin, hch.2, by simp only [streq, tokStr, hv, hc]; rfl, fun hn => ?_⟩
  have := List.length_pos.2 hn
  simp only [List.length_cons, maxTokens] at hmin; omega

/-- **A get is answered whole.**  With every allocation granted, each key is looked up once, and a run back to
`conn_read`, which exists when every `sendmsg` takes a byte, sends the hits' `VALUE` blocks in order and `END`. -/
theorem get_reply_sent (fuel : Nat) (c : Conn) (e : Env) (line : List Char) (keys : List (List Char))
    (hw : words line = "get".toList :: keys) (hn : keys ≠ []) (hk : ∀ k ∈ keys, k.length ≤ maxKeyLen)
    (hg : e.Grants) (hf : 2 * keys.length + 1 < fuel) :
    ∃ c₁ e₁, processCommand fuel c e line = some (c₁, e₁) ∧ c₁.state = .mwrite ∧
      e₁.stats.getCmds = e.stats.getCmds + keys.length ∧
      e₁.stats.getHits = e.stats.getHits + keys.countP (fun k => (e.store.get k).isSome) ∧
      e₁.stats.getMisses = e.stats.getMisses + keys.countP (fun k => (e.store.get k).isNone) ∧
      (∀ c₂ e₂, Drains c₁ e₁ c₂ e₂ → e₂.outq = e.outq ++ getResponse e.store keys ∧
        e₂.outq.length = e.outq.length +
          (((keys.filterMap e.store.get).map fun it => 6 + it.key.length + it.suffix.length + it.data.length).sum + 5)) ∧
      (e.store.ItemsOk → (∀ i, ∃ n, e.sends i = .sent n) → ∃ c₂ e₂, Drains c₁ e₁ c₂ e₂) := by
  obtain ⟨c₁, hadd, hi₁, hm₁, hp₁⟩ := addMsghdr_grants { c with msgcurr := 0, msgused := 0, iovused := 0 }
    { e with log := e.log ++ [.command line] } hg (Conn.IovOk.reset c)
  have ht₁ := addMsghdr_ticked { c with msgcurr := 0, msgused := 0, iovused := 0 }
    { e with log := e.log ++ [.command line] }
  generalize (addMsghdr { c with msgcurr := 0, msgused := 0, iovused := 0 }
    { e with log := e.log ++ [.command line] }).2 = e₁ at hadd ht₁
  have hs₁ := (addMsghdr_start hadd).2.1
  unfold processCommand; dsimp only
  rw [hadd]; dsimp only
  -- the first chunk: `get`, then the keys
  obtain ⟨hin, hch, hstr, h3⟩ := getLine_chunk hw
  generalize tokenizeCommand (line ++ ['\x00']) 0 maxTokens = r at hin hch hstr h3 ⊢
  have h3 := h3 hn
  unfold dispatch; dsimp only
  rw [if_pos ⟨h3, hstr⟩]
  -- the key loop and the reply
  have hb : GetSt.Building ⟨c₁, e₁, r.1, r.2, 1, 0, 0, 0, 0⟩ :=
    ⟨hi₁, by rw [hm₁]; exact Nat.succ_ne_zero _, (show Env.Grants { e with log := e.log ++ [.command line] } from hg).ticked ht₁⟩
  obtain ⟨c', e', hp, hst, hcur, hiov, hpend, hout, hcmds, hhits, hmiss, hsends, hsize⟩ :=
    processGetCommand_grants fuel c₁ e₁ r.1 r.2 hb hin (hch ▸ hk) (by rw [hch]; exact hf)
  rw [hch, ht₁.store_eq] at hpend hhits hmiss
  rw [hch, ht₁.stats_eq] at hcmds
  rw [ht₁.stats_eq] at hhits hmiss
  have hsent : ∀ c₂ e₂, Drains c' e' c₂ e₂ → e₂.outq = e.outq ++ getResponse e.store keys := fun c₂ e₂ hd => by
    obtain ⟨htx, hun⟩ := hiov.txOk hcur
    rw [drains_outq hd htx, hun, hpend, hp₁, Conn.pending_reset, hout, ht₁.outq_eq, List.nil_append]
  refine ⟨c', e', hp, hst, hcmds, hhits, hmiss, fun c₂ e₂ hd => ⟨hsent c₂ e₂ hd, ?_⟩, fun hI hsend => ?_⟩
  · rw [hsent c₂ e₂ hd, List.length_append, getResponse_length]
  · -- the reply `add_iov` built keeps its sizes, so it can be sent, and it is
    have hsz := hsize (by rw [ht₁.store_eq]; exact hI) hs₁
    exact (hsz.sendable hiov hcur).1.drains 0 hst (by rw [hsends, ht₁.sends_eq]; exact hsend)

theorem storeA_itemsOk : storeA.ItemsOk := by
  intro k it h
  simp only [storeA] at h
  split at h
  · cases h; exact ⟨by simp_all [itemA], "1".toList, rfl⟩
  · cases h

/-- `get a` on a fresh connection, in the test client's world: the reply goes out whole. -/
theorem get_a_sent : words "get a".toList = "get".toList :: ["a".toList] ∧ ["a".toList] ≠ [] ∧
    (∀ k ∈ ["a".toList], k.length ≤ maxKeyLen) ∧ (clientEnv []).Grants ∧ 2 * ["a".toList].length + 1 < 4 ∧
    ∃ c₁ e₁, processCommand 4 (Conn.init dataBufferSize .read) (clientEnv []) "get a".toList = some (c₁, e₁) ∧
      c₁.state = .mwrite ∧
      (∃ c₂ e₂, Drains c₁ e₁ c₂ e₂) ∧
      ∀ c₂ e₂, Drains c₁ e₁ c₂ e₂ → e₂.outq = (clientEnv []).outq ++ getResponse (clientEnv []).store ["a".toList] ∧
        e₂.outq.length = (clientEnv []).outq.length + ((["a".toList].filterMap (clientEnv []).store.get).map
          fun it => 6 + it.key.length + it.suffix.length + it.data.length).sum + 5 := by
  obtain ⟨c₁, e₁, hp, hst, -, -, -, hsent, hrun⟩ :=
    get_reply_sent 4 (Conn.init dataBufferSize .read) (clientEnv []) "get a".toList ["a".toList] (by decide)
      (by decide) (by decide) (fun _ _ => rfl) (by decide)
  exact ⟨by decide, by decide, by decide, fun _ _ => rfl, by decide, c₁, e₁, hp, hst,
    hrun storeA_itemsOk (fun _ => ⟨4096, rfl⟩), fun c₂ e₂ hd => ⟨(hsent c₂ e₂ hd).1, by rw [(hsent c₂ e₂ hd).2]; rfl⟩⟩

/-- **Every word after `get` is looked up once, in order, up to the first over-long one.**  Every chunk keeps
`ChunkOk`; with every allocation granted the loop ends on a NULL terminal, or at a word over `MAX_KEY_LEN` bytes with
`CLIENT_ERROR bad command line format`, the words after it never looked up. -/
theorem get_words_visited (fuel : Nat) (c : Conn) (e : Env) (line : List Char) (keys : List (List Char))
    (hw : words line = "get".toList :: keys) (hi : c.IovOk) (hm : c.msgused ≠ 0) (hg : e.Grants)
    (hf : 2 * keys.length + 1 < fuel) :
    (∀ (buf : List Char) (p : Nat), p ≤ buf.length → ∃ toks tv,
      (tokenizeCommand buf p maxTokens).2 = toks ++ [⟨tv, 0⟩] ∧ ChunkOk buf p (tokenizeCommand buf p maxTokens).1 toks tv) ∧
    ((∀ k ∈ keys, k.length ≤ maxKeyLen) → ∃ s', getLoop fuel ⟨c, e, (tokenizeCommand (line ++ ['\x00']) 0 maxTokens).1,
        (tokenizeCommand (line ++ ['\x00']) 0 maxTokens).2, 1, 0, 0, 0, 0⟩ = some (.done s' (tokAt s'.toks s'.k)) ∧
      (tokAt s'.toks s'.k).value = none ∧
      GetSt.Answers ⟨c, e, (tokenizeCommand (line ++ ['\x00']) 0 maxTokens).1,
        (tokenizeCommand (line ++ ['\x00']) 0 maxTokens).2, 1, 0, 0, 0, 0⟩ s' keys) ∧
    ∀ ks w rest, keys = ks ++ w :: rest → (∀ k ∈ ks, k.length ≤ maxKeyLen) → maxKeyLen < w.length →
      ∃ s', getLoop fuel ⟨c, e, (tokenizeCommand (line ++ ['\x00']) 0 maxTokens).1,
          (tokenizeCommand (line ++ ['\x00']) 0 maxTokens).2, 1, 0, 0, 0, 0⟩ = some (.tooLong s') ∧
        GetSt.Answers ⟨c, e, (tokenizeCommand (line ++ ['\x00']) 0 maxTokens).1,
          (tokenizeCommand (line ++ ['\x00']) 0 maxTokens).2, 1, 0, 0, 0, 0⟩ s' ks ∧
        processGetCommand fuel c e (tokenizeCommand (line ++ ['\x00']) 0 maxTokens).1
            (tokenizeCommand (line ++ ['\x00']) 0 maxTokens).2 =
          some (outString s'.conn (addGetStats s'.env s') "CLIENT_ERROR bad command line format".toList) := by
  refine ⟨fun buf p hp => tokenizeCommand_spec buf p hp, ?_⟩
  obtain ⟨hin, hch, -, -⟩ := getLine_chunk hw
  have hpass : GetSt.passes ⟨c, e, (tokenizeCommand (line ++ ['\x00']) 0 maxTokens).1,
      (tokenizeCommand (line ++ ['\x00']) 0 maxTokens).2, 1, 0, 0, 0, 0⟩ < fuel := by
    unfold GetSt.passes GetSt.todo; dsimp only; rw [hch]; split_ifs <;> omega
  obtain ⟨r, h1, hd, hlong⟩ := getLoop_answers fuel _ ⟨hi, hm, hg⟩ hin hpass
  refine ⟨fun hk => ?_, fun ks w rest hks hk hw' => ?_⟩
  · obtain ⟨s', rfl, h2, -, h4, -⟩ := hd (by unfold GetSt.todo; rw [hch]; exact hk)
    exact ⟨s', h1, h2, by unfold GetSt.todo at h4; rwa [hch] at h4⟩
  · obtain ⟨s', rfl, h2⟩ := hlong ks w rest (by unfold GetSt.todo; rw [hch]; exact hks) hk hw'
    exact ⟨s', h1, h2, by unfold processGetCommand; rw [h1]⟩

set_option maxRecDepth 20000 in
theorem get_long_word_visited :
    words ("get a ".toList ++ List.replicate 256 'x' ++ " b".toList) =
      "get".toList :: ["a".toList, List.replicate 256 'x', "b".toList] ∧
    (pushMsghdr { Conn.init dataBufferSize .read with msgcurr := 0, msgused := 0, iovused := 0 }).msgused ≠ 0 ∧
    (clientEnv []).Grants ∧ 2 * ["a".toList, List.replicate 256 'x', "b".toList].length + 1 < 8 ∧
    ∃ s', getLoop 8 ⟨pushMsghdr { Conn.init dataBufferSize .read with msgcurr := 0, msgused := 0, iovused := 0 },
        clientEnv [], (tokenizeCommand ("get a ".toList ++ List.replicate 256 'x' ++ " b".toList ++ ['\x00']) 0 maxTokens).1,
        (tokenizeCommand ("get a ".toList ++ List.replicate 256 'x' ++ " b".toList ++ ['\x00']) 0 maxTokens).2,
        1, 0, 0, 0, 0⟩ = some (.tooLong s') ∧
      GetSt.Answers ⟨pushMsghdr { Conn.init dataBufferSize .read with msgcurr := 0, msgused := 0, iovused := 0 },
        clientEnv [], (tokenizeCommand ("get a ".toList ++ List.replicate 256 'x' ++ " b".toList ++ ['\x00']) 0 maxTokens).1,
        (tokenizeCommand ("get a ".toList ++ List.replicate 256 'x' ++ " b".toList ++ ['\x00']) 0 maxTokens).2,
        1, 0, 0, 0, 0⟩ s' ["a".toList] ∧
      processGetCommand 8 (pushMsghdr { Conn.init dataBufferSize .read with msgcurr := 0, msgused := 0, iovused := 0 })
          (clientEnv []) (tokenizeCommand ("get a ".toList ++ List.replicate 256 'x' ++ " b".toList ++ ['\x00']) 0 maxTokens).1
          (tokenizeCommand ("get a ".toList ++ List.replicate 256 'x' ++ " b".toList ++ ['\x00']) 0 maxTokens).2 =
        some (outString s'.conn (addGetStats s'.env s') "CLIENT_ERROR bad command line format".toList) :=
  have hw : words ("get a ".toList ++ List.replicate 256 'x' ++ " b".toList) =
      "get".toList :: ["a".toList, List.replicate 256 'x', "b".toList] := by decide
  ⟨hw, by decide, fun _ _ => rfl, by decide,
   (get_words_visited 8 _ _ _ _ hw (Conn.IovOk.reset _).push (by decide) (fun _ _ => rfl) (by decide)).2.2
     ["a".toList] (List.replicate 256 'x') ["b".toList] rfl (by decide) (by decide)⟩

set_option maxRecDepth 20000 in
/-- **An over-long word ends the loop before the words after it.**  On `get`, a word of 256 bytes and `a`, the key
loop stops at the long word with `CLIENT_ERROR bad command line format` and looks nothing up, `a` included. -/
theorem get_long_word_skips_rest :
    words ("get ".toList ++ List.replicate 256 'x' ++ " a".toList) =
      ["get".toList, List.replicate 256 'x', "a".toList] ∧
    (processGetCommand 4 (pushMsghdr { Conn.init dataBufferSize .read with msgcurr := 0, msgused := 0, iovused := 0 })
        (clientEnv []) (tokenizeCommand ("get ".toList ++ List.replicate 256 'x' ++ " a".toList ++ ['\x00']) 0 maxTokens).1
        (tokenizeCommand ("get ".toList ++ List.replicate 256 'x' ++ " a".toList ++ ['\x00']) 0 maxTokens).2).map
      (fun r => (r.1.wcurr, r.2.stats.getCmds)) = some ("CLIENT_ERROR bad command line format\r\n".toList, 0) := by
  decide

end Beansdb
