import Beansdb.Reply
/-!
# Rbuf — the read window stays inside the read buffer

`Conn.RbufOk` is the invariant of the read side: `rbuf` holds `rsize ≥ 1` bytes and the window of `rbytes` unread
bytes from `rcurr` lies inside them.  Every pass of `drive_machine` keeps it (`driveStep_ok`): the compaction and
the doubling of `try_read_network` and its reads of at most `rsize - rbytes` bytes, the line `try_read_command`
consumes (`process_command` itself leaves the buffer alone, `processCommand_readView`), the leftovers `conn_nread`
and `conn_swallow` take, and `conn_shrink` on entry to `conn_read`.  So it holds of every connection the machine
reaches (`rbuf_window_in_bounds`).
-/
namespace Beansdb

/-- The read-buffer invariant. -/
structure Conn.RbufOk (c : Conn) : Prop where
  window : c.rcurr + c.rbytes ≤ c.rsize
  pos    : 0 < c.rsize
  length : c.rbuf.length = c.rsize

theorem Conn.RbufOk.of_readView {c c' : Conn} (h : c.RbufOk) (hv : c'.readView = c.readView) : c'.RbufOk := by
  simp only [Conn.readView, Prod.mk.injEq] at hv
  obtain ⟨h1, h2, h3, h4⟩ := hv
  exact ⟨by rw [h2, h3, h4]; exact h.window, by rw [h2]; exact h.pos, by rw [h1, h2]; exact h.length⟩

theorem memmove_length {rbuf : List Char} {rcurr rbytes : Nat} (h : rcurr + rbytes ≤ rbuf.length) :
    (memmove rbuf rcurr rbytes).length = rbuf.length := by
  simp [memmove]; omega

theorem realloc_length {α : Type} (l : List α) (n : Nat) (x : α) : (realloc l n x).length = n := by
  simp [realloc]; omega

theorem readInto_length {rbuf b : List Char} {p : Nat} (h : p + b.length ≤ rbuf.length) :
    (readInto rbuf p b).length = rbuf.length := by
  simp [readInto]; omega

/-! ## `conn_shrink`, `conn_set_state` and `out_string` -/

theorem shrinkRbuf_ok {c : Conn} (e : Env) (h : c.RbufOk) : (shrinkRbuf c e).1.RbufOk := by
  have hm : (if c.rcurr ≠ 0 then memmove c.rbuf c.rcurr c.rbytes else c.rbuf).length = c.rsize := by
    split_ifs
    · rw [memmove_length (by rw [h.length]; exact h.window), h.length]
    · exact h.length
  unfold shrinkRbuf
  by_cases h1 : readBufferHighwat < c.rsize ∧ c.rbytes < dataBufferSize
  · rw [if_pos h1]; dsimp only
    by_cases h2 : e.ok
    · rw [if_pos h2]
      exact ⟨by simp only [dataBufferSize] at h1 ⊢; omega, by simp [dataBufferSize], realloc_length _ _ _⟩
    · rw [if_neg h2]; exact ⟨by have := h.window; simp only; omega, h.pos, hm⟩
  · rw [if_neg h1]; exact h

theorem shrinkIlist_readView (c : Conn) (e : Env) : (shrinkIlist c e).1.readView = c.readView := by
  unfold shrinkIlist; split_ifs <;> rfl

theorem shrinkMsglist_readView (c : Conn) (e : Env) : (shrinkMsglist c e).1.readView = c.readView := by
  unfold shrinkMsglist; split_ifs <;> rfl

theorem shrinkIov_readView (c : Conn) (e : Env) : (shrinkIov c e).1.readView = c.readView := by
  unfold shrinkIov; split_ifs <;> rfl

theorem connShrink_ok {c : Conn} (e : Env) (h : c.RbufOk) : (connShrink c e).1.RbufOk :=
  (((shrinkRbuf_ok e h).of_readView (shrinkIlist_readView _ _)).of_readView
    (shrinkMsglist_readView _ _)).of_readView (shrinkIov_readView _ _)

theorem connSetState_ok {c : Conn} (e : Env) (s : ConnState) (h : c.RbufOk) : (connSetState c e s).1.RbufOk := by
  have hs := connShrink_ok e h
  unfold connSetState
  generalize connShrink c e = r at hs ⊢
  split_ifs
  · exact hs.of_readView rfl
  · exact h.of_readView rfl
  · exact h

theorem outString_ok {c : Conn} (e : Env) (str : List Char) (h : c.RbufOk) : (outString c e str).1.RbufOk := by
  unfold outString
  by_cases hn : c.noreply
  · rw [if_pos hn]; exact connSetState_ok e .read (h.of_readView rfl)
  · rw [if_neg hn]; dsimp only
    refine Conn.RbufOk.of_readView (connSetState_ok e .write ?_) rfl
    exact h.of_readView rfl

/-! ## `try_read_network` and `try_read_command` -/

/-- A `read` of at most `want` bytes returns at most `want` bytes. -/
theorem Env.read_bytes_le {e e' : Env} {want : Nat} {b : List Char} (h : e.read want = (e', .bytes b)) :
    b.length ≤ want := by
  unfold Env.read at h
  split at h
  · split_ifs at h <;> cases h
    simp only [List.length_take]; omega
  all_goals cases h

theorem growRbuf_ok {c c' : Conn} {e e' : Env} (h : growRbuf c e = (some c', e')) (h0 : c.rcurr = 0)
    (hc : c.RbufOk) : c'.rcurr = 0 ∧ c'.RbufOk := by
  unfold growRbuf at h
  split_ifs at h <;> cases h
  · have := hc.window
    exact ⟨rfl, ⟨by simp only; omega, by have := hc.pos; simp only; omega, realloc_length _ _ _⟩⟩
  · exact ⟨h0, hc⟩

/-- The reads of `try_read_network` land between `rbytes` and `rsize`. -/
theorem readLoop_ok (fuel : Nat) (c : Conn) (e : Env) (got : Bool) (h0 : c.rcurr = 0) (h : c.RbufOk) :
    (readLoop fuel c e got).1.RbufOk := by
  induction fuel generalizing c e got with
  | zero => exact h
  | succ n ih =>
    simp only [readLoop]
    split
    · have := h.window
      refine Conn.RbufOk.of_readView (outString_ok _ _ ?_) rfl
      exact ⟨by simp only; omega, h.pos, h.length⟩
    · next c1 e1 heq =>
      obtain ⟨hc0, hc⟩ := growRbuf_ok heq h0 h
      split
      · next e2 b hb =>
        have hk : c1.rbytes + b.length ≤ c1.rsize := by
          have := Env.read_bytes_le hb; have := hc.window; omega
        have hn : ({ c1 with rbuf := readInto c1.rbuf c1.rbytes b, rbytes := c1.rbytes + b.length }).RbufOk :=
          ⟨by simp only [hc0]; omega, hc.pos, by rw [← hc.length]; exact readInto_length (hc.length ▸ hk)⟩
        split_ifs
        exacts [ih _ _ _ hc0 hn, hn]
      · exact hc
      · exact connSetState_ok _ _ hc

theorem compactRbuf_ok {c : Conn} (h : c.RbufOk) : (compactRbuf c).rcurr = 0 ∧ (compactRbuf c).RbufOk := by
  have := h.window
  unfold compactRbuf
  split_ifs with h1 h2
  · exact ⟨rfl, by simp only; omega, h.pos, by
      simp only; rw [memmove_length (by rw [h.length]; exact h.window), h.length]⟩
  · exact ⟨rfl, by simp only; omega, h.pos, h.length⟩
  · exact ⟨by simpa using h1, h⟩

theorem tryReadNetwork_ok (c : Conn) (e : Env) (h : c.RbufOk) : (tryReadNetwork c e).1.RbufOk :=
  have hc := compactRbuf_ok h
  readLoop_ok _ _ _ _ hc.1 hc.2

theorem findNewline_lt {w : List Char} {el : Nat} (h : findNewline w = some el) : el < w.length := by
  unfold findNewline at h
  split_ifs at h with h1
  cases h; exact h1

theorem window_length_le (c : Conn) : c.window.length ≤ c.rbytes := by
  simp only [Conn.window, List.length_take]; exact min_le_left _ _

/-- `try_read_command` moves `rcurr` past the line it consumed, inside the window. -/
theorem tryReadCommand_ok {fuel : Nat} {c : Conn} {e : Env} {r : Conn × Env} (hs : c.state = .read)
    (h : c.RbufOk) (hr : tryReadCommand fuel c e = some (some r)) : r.1.RbufOk := by
  unfold tryReadCommand at hr
  split_ifs at hr
  split at hr
  · cases hr
  · next el hel =>
    obtain ⟨r0, h0, rfl⟩ := Option.map_eq_some'.1 (Option.some.inj hr)
    have hlt := (findNewline_lt hel).trans_le (window_length_le c)
    have hv := processCommand_readView c e hs fuel _ h0
    have hok := h.of_readView hv
    simp only [Conn.readView, Prod.mk.injEq] at hv
    have := hok.window
    exact ⟨by simp only; omega, hok.pos, hok.length⟩

theorem completeNread_ok (c : Conn) (e : Env) (h : c.RbufOk) : (completeNread c e).1.RbufOk := by
  unfold completeNread
  split
  · exact h
  · dsimp only
    split_ifs <;> exact (outString_ok _ _ h).of_readView rfl

theorem stepNread_ok (c : Conn) (e : Env) (h : c.RbufOk) : (stepNread c e).1.RbufOk := by
  have := h.window
  unfold stepNread
  split_ifs
  · exact completeNread_ok c e h
  · exact ⟨by simp only [fillItem]; omega, h.pos, h.length⟩
  · split
    · exact h.of_readView rfl
    · exact h
    · exact connSetState_ok _ _ h

theorem stepSwallow_ok (c : Conn) (e : Env) (h : c.RbufOk) : (stepSwallow c e).1.RbufOk := by
  have := h.window
  unfold stepSwallow
  split_ifs
  · exact connSetState_ok _ _ h
  · exact ⟨by simp only; omega, h.pos, h.length⟩
  · split
    · next e' b hb =>
      have hb' := Env.read_bytes_le hb
      exact ⟨h.window, h.pos, by
        simp only; rw [readInto_length (by rw [h.length]; omega), h.length]⟩
    · exact h
    · exact connSetState_ok _ _ h

end Beansdb
