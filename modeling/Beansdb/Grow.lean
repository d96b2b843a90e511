import Beansdb.Reply
/-!
# Grow — how far `try_read_network` doubles the read buffer

`try_read_network` reads until a `read` hands over less than the space it offered, and doubles `rbuf` each time the
buffer is full, computing `c->rsize * 2` in `int`.  Nothing bounds the doubling but the bytes the socket delivers:
a read loop whose `read`s fill the space offered goes from a full buffer of `R` bytes to a full one of `R * 2 ^ k`
(`readLoop_doubles`).  From a fresh connection, a client that delivers `2 ^ 30` bytes that fast brings the loop to a
full buffer of `2 ^ 30` bytes, whose doubling is past `INT_MAX` (`try_read_network_overflows`).
-/
namespace Beansdb

/-- A `read` of `want` bytes, `0 < want`, that hands over all of them. -/
theorem Env.read_all {e : Env} {want m : Nat} (hr : e.reads e.nreads = .data m) (h0 : 0 < want)
    (hm : want ≤ m + 1) (hq : want ≤ e.inq.length) :
    (e.read want).2 = .bytes (e.inq.take want) ∧ (e.read want).1.inq = e.inq.drop want ∧
      (e.read want).1.reads = e.reads ∧ (e.read want).1.allocs = e.allocs ∧ (e.read want).1.nalloc = e.nalloc := by
  have hk : min (m + 1) (min want e.inq.length) = want := by omega
  simp only [Env.read, hr, if_neg (Nat.pos_iff_ne_zero.1 h0), hk, and_self]

theorem growRbuf_of_lt {c : Conn} (e : Env) (h : c.rbytes < c.rsize) : growRbuf c e = (some c, e) := by
  simp [growRbuf, Nat.not_le.2 h]

theorem growRbuf_of_full {c : Conn} {e : Env} (h : c.rsize ≤ c.rbytes) (hg : e.ok = true) :
    growRbuf c e = (some { c with rbuf := realloc c.rbuf (c.rsize * 2) '\x00', rcurr := 0, rsize := c.rsize * 2 },
      e.tick) := by
  simp [growRbuf, h, hg]

/-- **A pass of the read loop whose `read` fills the space offered** ends with a full buffer and goes on. -/
theorem readLoop_fills {c c₂ : Conn} {e e₂ : Env} (got : Bool) (f : Nat) (hg : growRbuf c e = (some c₂, e₂))
    (hlt : c₂.rbytes < c₂.rsize) (hr : ∃ m, e₂.reads e₂.nreads = .data m ∧ c₂.rsize - c₂.rbytes ≤ m + 1)
    (hq : c₂.rsize - c₂.rbytes ≤ e₂.inq.length) :
    ∃ c₃ e₃, readLoop (f + 1) c e got = readLoop f c₃ e₃ true ∧ c₃.rsize = c₂.rsize ∧ c₃.rbytes = c₂.rsize ∧
      e₃.inq = e₂.inq.drop (c₂.rsize - c₂.rbytes) ∧ e₃.reads = e₂.reads ∧ e₃.allocs = e₂.allocs ∧
      e₃.nalloc = e₂.nalloc := by
  obtain ⟨m, hm, hle⟩ := hr
  obtain ⟨hb, hi, hrd, ha, hn⟩ := Env.read_all hm (by omega) hle hq
  have hlen : (e₂.inq.take (c₂.rsize - c₂.rbytes)).length = c₂.rsize - c₂.rbytes := by simp; omega
  generalize e₂.inq.take (c₂.rsize - c₂.rbytes) = b at hb hlen
  refine ⟨{ c₂ with rbuf := readInto c₂.rbuf c₂.rbytes b, rbytes := c₂.rbytes + b.length },
    (e₂.read (c₂.rsize - c₂.rbytes)).1, ?_, rfl, by simp only; omega, hi, hrd, ha, hn⟩
  simp only [readLoop, hg]
  rw [show e₂.read (c₂.rsize - c₂.rbytes) = ((e₂.read (c₂.rsize - c₂.rbytes)).1, .bytes b) from Prod.ext rfl hb]
  simp only [hlen, if_true]

/-- **Each pass doubles a full buffer.**  From a full buffer of `R` bytes, with the allocator granting, `read`s that
hand over all the space offered (up to `R * 2 ^ (k - 1)` bytes) and `R * (2 ^ k - 1)` bytes on the socket, `k`
passes of the loop reach a full buffer of `R * 2 ^ k` bytes. -/
theorem readLoop_doubles (k : Nat) : ∀ (f : Nat) (c : Conn) (e : Env), 0 < c.rsize → c.rbytes = c.rsize →
    e.Grants → (∀ i, ∃ m, e.reads i = .data m ∧ c.rsize * 2 ^ k ≤ 2 * (m + 1)) →
    c.rsize * 2 ^ k ≤ e.inq.length + c.rsize →
    ∃ c' e', readLoop (f + k) c e true = readLoop f c' e' true ∧ c'.rsize = c.rsize * 2 ^ k ∧ c'.rbytes = c'.rsize := by
  induction k with
  | zero => intro f c e _ hb _ _ _; exact ⟨c, e, rfl, by simp, hb⟩
  | succ k ih =>
    intro f c e hpos hb hg hr hq
    have hX : c.rsize ≤ c.rsize * 2 ^ k := Nat.le_mul_of_pos_right _ (Nat.two_pow_pos k)
    have h2 : c.rsize * 2 ^ (k + 1) = 2 * (c.rsize * 2 ^ k) := by rw [Nat.pow_succ]; ring
    rw [h2] at hr hq
    obtain ⟨c₃, e₃, hrun, hs, hb₃, hi, hrd, ha, hn⟩ := readLoop_fills true (f + k) (growRbuf_of_full (le_of_eq hb.symm) hg.ok)
      (by simp only; omega) (by obtain ⟨m, hm, hle⟩ := hr e.tick.nreads; exact ⟨m, hm, by simp only; omega⟩)
      (by simp only [Env.tick]; omega)
    simp only at hs hb₃
    have hg₃ : e₃.Grants := fun n hn' => by rw [ha]; exact hg n (by rw [hn] at hn'; simp only [Env.tick] at hn'; omega)
    have hq₃ : (c.rsize * 2) * 2 ^ k ≤ e₃.inq.length + c.rsize * 2 := by
      rw [hi, List.length_drop, Nat.mul_comm c.rsize 2, Nat.mul_assoc]; simp only [Env.tick]; omega
    obtain ⟨c', e', hrun', hs', hb'⟩ := ih f c₃ e₃ (by omega) (by omega) hg₃
      (fun i => by obtain ⟨m, hm, hle⟩ := hr i; exact ⟨m, by rw [hrd]; exact hm, by rw [hs]; linarith⟩)
      (by rw [hs]; exact hq₃)
    refine ⟨c', e', by rw [show f + (k + 1) = (f + k) + 1 by omega, hrun, hrun'], by rw [hs', hs, h2]; ring, hb'⟩

/-- **`c->rsize * 2` passes `INT_MAX`.**  On a fresh connection, a client that delivers `2 ^ 30` bytes, with `read`s
that hand over the space offered (up to `2 ^ 29` bytes) and the allocator granting, brings the first
`try_read_network` to a full buffer of `rsize = 2 ^ 30` bytes; the next pass of its loop computes `c->rsize * 2`,
which does not fit an `int`. -/
theorem try_read_network_overflows (e : Env) (hq : 2 ^ 30 ≤ e.inq.length)
    (hr : ∀ i, ∃ m, e.reads i = .data m ∧ 2 ^ 29 ≤ m + 1) (hg : e.Grants) :
    ∃ f c' e', tryReadNetwork (Conn.init dataBufferSize .read) e = readLoop (f + 1) c' e' true ∧
      c'.rsize = 2 ^ 30 ∧ c'.rbytes = c'.rsize ∧ intMax < c'.rsize * 2 := by
  have hc : compactRbuf (Conn.init dataBufferSize .read) = Conn.init dataBufferSize .read := rfl
  have hR : (Conn.init dataBufferSize .read).rsize = 2048 := rfl
  have h0 : (Conn.init dataBufferSize .read).rbytes = 0 := rfl
  obtain ⟨c₁, e₁, hrun, hs, hb, hi, hrd, ha, hn⟩ := readLoop_fills false (e.inq.length)
    (growRbuf_of_lt e (by rw [hR, h0]; decide)) (by rw [hR, h0]; decide)
    (by obtain ⟨m, hm, hle⟩ := hr e.nreads; exact ⟨m, hm, by rw [hR, h0]; omega⟩) (by rw [hR, h0]; omega)
  rw [hR, h0] at hi
  rw [hR] at hs hb
  have hg₁ : e₁.Grants := fun n hn' => by rw [ha]; exact hg n (by rw [hn] at hn'; exact hn')
  obtain ⟨c', e', hrun', hs', hb'⟩ := readLoop_doubles 19 (e.inq.length - 20 + 1) c₁ e₁ (by omega) (by omega) hg₁
    (fun i => by obtain ⟨m, hm, hle⟩ := hr i; exact ⟨m, by rw [hrd]; exact hm, by rw [hs]; omega⟩)
    (by rw [hi, List.length_drop, hs]; omega)
  refine ⟨e.inq.length - 20, c', e', ?_, by rw [hs', hs]; norm_num, hb', by rw [hs', hs]; unfold intMax; norm_num⟩
  unfold tryReadNetwork
  rw [hc, hrun, ← hrun']
  congr 1; omega

theorem flood_overflows :
    2 ^ 30 ≤ ({ clientEnv (List.replicate (2 ^ 30) 'x') with reads := fun _ => .data (2 ^ 30) } : Env).inq.length ∧
    (∀ i, ∃ m, ({ clientEnv (List.replicate (2 ^ 30) 'x') with reads := fun _ => .data (2 ^ 30) } : Env).reads i =
      .data m ∧ 2 ^ 29 ≤ m + 1) ∧
    ({ clientEnv (List.replicate (2 ^ 30) 'x') with reads := fun _ => .data (2 ^ 30) } : Env).Grants ∧
    ∃ f c' e', tryReadNetwork (Conn.init dataBufferSize .read)
        { clientEnv (List.replicate (2 ^ 30) 'x') with reads := fun _ => .data (2 ^ 30) } = readLoop (f + 1) c' e' true ∧
      c'.rsize = 2 ^ 30 ∧ c'.rbytes = c'.rsize ∧ intMax < c'.rsize * 2 :=
  have hq : 2 ^ 30 ≤
      ({ clientEnv (List.replicate (2 ^ 30) 'x') with reads := fun _ => .data (2 ^ 30) } : Env).inq.length :=
    (List.length_replicate (2 ^ 30) 'x').ge
  have hr : ∀ i, ∃ m, ({ clientEnv (List.replicate (2 ^ 30) 'x') with reads := fun _ => .data (2 ^ 30) } : Env).reads i =
      .data m ∧ 2 ^ 29 ≤ m + 1 := fun _ => ⟨2 ^ 30, rfl, by norm_num⟩
  have hg : ({ clientEnv (List.replicate (2 ^ 30) 'x') with reads := fun _ => .data (2 ^ 30) } : Env).Grants :=
    fun _ _ => rfl
  ⟨hq, hr, hg, try_read_network_overflows _ hq hr hg⟩

end Beansdb
