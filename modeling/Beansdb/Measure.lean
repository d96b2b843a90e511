import Beansdb.Send
/-!
# Measure — what a run of `drive_machine` has left to do

Three counts bound what the loop of `drive_machine` can still do, taken in order (`haltMeasure`): the input not
taken yet (`inputLeft`, the bytes on the socket counting twice since a `read` moves them into the window before a pass
takes them), how far the state is from `conn_read` without taking input (`stateRank`), and what the reply has left to
send (`sendLeft`: its bytes, and one for each fragment).  A pass that brings them down lexicographically makes
`Progress`, a well-founded order (`progress_wf`).  A send that `sendmsg` took bytes of drops the fragments it sent
whole and shortens the one it stopped in, so it brings `sendLeft` down (`transmit_incomplete`).
-/
namespace Beansdb

/-! ## The measure -/

/-- The input the connection has still to take: the bytes on the socket count twice, once for the `read` that moves
them into the window and once for the pass that takes them from there. -/
def inputLeft (c : Conn) (e : Env) : Nat := 2 * e.inq.length + c.rbytes

/-- How far a state is from `conn_read` without taking input: a body completes into a reply, a reply with no
`iovec` yet is built, one with its `iovec`s is sent, a swallow completes into `conn_read`, and `conn_read` closes. -/
def stateRank (c : Conn) : Nat :=
  match c.state with
  | .nread => 5
  | .write => if c.iovused = 0 then 4 else 3
  | .mwrite => 3
  | .swallow => 2
  | .read => 1
  | .closing => 0
  | .listening => 0

/-- What is left to send of the `n` fragments from `iov[i]`: their lengths, and one for each fragment. -/
def fragWeight (iov : List Iovec) : Nat → Nat → Nat
  | _, 0 => 0
  | i, n + 1 => (iov.getD i default).len + 1 + fragWeight iov (i + 1) n

/-- What is left to send of the messages from `msgcurr` on. -/
def sendLeft (c : Conn) : Nat := (c.unsentMsgs.map fun m => fragWeight c.iov m.iov m.iovlen).sum

/-- The measure a pass of `drive_machine` brings down, lexicographically. -/
def haltMeasure (c : Conn) (e : Env) : Nat × Nat × Nat := (inputLeft c e, stateRank c, sendLeft c)

/-- A pass from `(c, e)` to `(c', e')` brings the measure down. -/
def Progress (c : Conn) (e : Env) (c' : Conn) (e' : Env) : Prop :=
  Prod.Lex (· < ·) (Prod.Lex (· < ·) (· < ·)) (haltMeasure c' e') (haltMeasure c e)

section Measure

variable {c c' : Conn} {e e' : Env}

theorem Progress.of_input (h : inputLeft c' e' < inputLeft c e) : Progress c e c' e' := Prod.Lex.left _ _ h

theorem Progress.trans {c₁ c₂ c₃ : Conn} {e₁ e₂ e₃ : Env} (h₁ : Progress c₁ e₁ c₂ e₂) (h₂ : Progress c₂ e₂ c₃ e₃) :
    Progress c₁ e₁ c₃ e₃ :=
  Prod.Lex.trans h₂ h₁

end Measure

/-! ## A send brings down what is left to send -/

theorem fragWeight_add (iov : List Iovec) : ∀ (i k m : Nat),
    fragWeight iov i (k + m) = fragWeight iov i k + fragWeight iov (i + k) m
  | i, 0, m => by simp [fragWeight]
  | i, k + 1, m => by
    rw [Nat.add_right_comm k 1 m, fragWeight, fragWeight, fragWeight_add iov (i + 1) k m,
      show i + 1 + k = i + (k + 1) by omega]
    omega

theorem le_fragWeight (iov : List Iovec) : ∀ (i n : Nat), n ≤ fragWeight iov i n
  | _, 0 => le_rfl
  | i, n + 1 => by have := le_fragWeight iov (i + 1) n; rw [fragWeight]; omega

/-- Shorter fragments weigh less, and strictly less when one of the run is strictly shorter. -/
theorem fragWeight_le {a b : List Iovec} (h : ∀ k, (a.getD k default).len ≤ (b.getD k default).len) :
    ∀ (i n : Nat), fragWeight a i n ≤ fragWeight b i n
  | _, 0 => le_rfl
  | i, n + 1 => by have := fragWeight_le h (i + 1) n; have := h i; simp only [fragWeight]; omega

theorem fragWeight_lt {a b : List Iovec} (h : ∀ k, (a.getD k default).len ≤ (b.getD k default).len) {j : Nat}
    (hj : (a.getD j default).len < (b.getD j default).len) :
    ∀ (i n : Nat), i ≤ j → j < i + n → fragWeight a i n < fragWeight b i n
  | _, 0, _, _ => by omega
  | i, n + 1, h1, h2 => by
    have := h i
    have := fragWeight_le h (i + 1) n
    simp only [fragWeight]
    rcases h1.lt_or_eq with h1 | rfl
    · have := fragWeight_lt h hj (i + 1) n h1 (by omega); omega
    · omega

theorem getD_trimIov_len_le (iov : List Iovec) (i res k : Nat) :
    ((trimIov iov i res).getD k default).len ≤ (iov.getD k default).len := by
  by_cases hk : k = i ∧ 0 < res
  · obtain ⟨rfl, hr⟩ := hk
    simp only [trimIov, hr, if_true, List.getD_eq_getElem?_getD, List.getElem?_set]
    split_ifs with hk
    · simp [advanceIov]
    · simp [List.getElem?_eq_none (Nat.le_of_not_lt hk)]
  · rw [getD_trimIov_of_ne hk]

theorem getD_trimIov_len_lt {iov : List Iovec} {i res : Nat} (h0 : 0 < res) (hl : res < (iov.getD i default).len) :
    ((trimIov iov i res).getD i default).len < (iov.getD i default).len := by
  have hi : i < iov.length := by
    by_contra hn
    rw [List.getD_eq_default _ _ (Nat.le_of_not_lt hn)] at hl
    exact Nat.not_lt_zero _ hl
  simp only [trimIov, h0, if_true, List.getD_eq_getElem?_getD, List.getElem?_set_self hi, Option.getD_some,
    advanceIov] at hl ⊢
  omega

/-- The trimming loop that dropped no fragment has sent nothing of the run yet. -/
theorem trimSent_of_full (iov : List Iovec) : ∀ (n i res : Nat), (trimSent iov n i res).1 = n →
    (trimSent iov n i res).2.1 = i ∧ (trimSent iov n i res).2.2 = res
  | 0, _, _, _ => ⟨rfl, rfl⟩
  | n + 1, i, res, h => by
    rw [trimSent] at h ⊢
    split_ifs at h ⊢ with hle
    · have := trimSent_bounds iov n (i + 1) (res - (iov.getD i default).len); omega
    · exact ⟨rfl, rfl⟩

theorem Conn.unsentMsgs_eq_cons {c : Conn} (hlt : c.msgcurr < c.msgused) (hml : c.msgcurr < c.msglist.length) :
    c.unsentMsgs = c.msglist.getD c.msgcurr default :: c.msgs.drop (c.msgcurr + 1) := by
  have hl : c.msgcurr < c.msgs.length := by simp [Conn.msgs]; omega
  rw [Conn.unsentMsgs, List.drop_eq_getElem_cons hl, List.getD_eq_getElem?_getD, List.getElem?_eq_getElem hml,
    Option.getD_some]
  simp [Conn.msgs]

/-- Stepping past a drained message leaves what is left to send. -/
theorem sendLeft_skipDrained (c : Conn) : sendLeft (skipDrained c) = sendLeft c := by
  unfold skipDrained
  split_ifs with hs
  · by_cases hml : c.msgcurr < c.msglist.length
    · show ((c.msgs.drop (c.msgcurr + 1)).map _).sum = _
      simp only [sendLeft, Conn.unsentMsgs_eq_cons hs.1 hml, List.map_cons, List.sum_cons, hs.2, fragWeight,
        Nat.zero_add]
    · have h0 : ∀ k, c.msgcurr ≤ k → c.msgs.drop k = [] := fun k hk =>
        List.drop_eq_nil_of_le (by simp [Conn.msgs]; omega)
      show ((c.msgs.drop (c.msgcurr + 1)).map _).sum = ((c.msgs.drop c.msgcurr).map _).sum
      rw [h0 _ le_rfl, h0 _ (Nat.le_succ _)]
  · rfl

/-- **A send that took bytes brings down what is left to send**: the fragments it sent whole drop out of the current
message, and the one it stopped in is shorter. -/
theorem sendLeft_afterSend {c : Conn} (hlt : c.msgcurr < c.msgused) {res : Nat} (h0 : 0 < res)
    (hres : res ≤ (msgBytes c.iov (c.msglist.getD c.msgcurr default)).length) :
    sendLeft (afterSend c res) < sendLeft c := by
  generalize hm : c.msglist.getD c.msgcurr default = m at hres
  have hn : 0 < m.iovlen := by
    rcases Nat.eq_zero_or_pos m.iovlen with h | h
    · simp [msgBytes, h] at hres; omega
    · exact h
  have hml : c.msgcurr < c.msglist.length := by
    by_contra hn'
    rw [List.getD_eq_default _ _ (Nat.le_of_not_lt hn')] at hm
    rw [← hm] at hn; exact Nat.lt_irrefl 0 hn
  have ha : afterSend c res = { c with
      msglist := c.msglist.set c.msgcurr ⟨(trimSent c.iov m.iovlen m.iov res).2.1, (trimSent c.iov m.iovlen m.iov res).1⟩,
      iov := trimIov c.iov (trimSent c.iov m.iovlen m.iov res).2.1 (trimSent c.iov m.iovlen m.iov res).2.2 } := by
    rw [← hm]; rfl
  obtain ⟨hi, hsum, hin⟩ := trimSent_bounds c.iov m.iovlen m.iov res
  have hfull := trimSent_of_full c.iov m.iovlen m.iov res
  rw [ha]
  generalize trimSent c.iov m.iovlen m.iov res = t at hi hsum hin hfull
  obtain ⟨n', i', res'⟩ := t
  dsimp only at hi hsum hin hfull ⊢
  have hu : ({ c with msglist := c.msglist.set c.msgcurr ⟨i', n'⟩, iov := trimIov c.iov i' res' } : Conn).unsentMsgs =
      ⟨i', n'⟩ :: c.msgs.drop (c.msgcurr + 1) := by
    show ((c.msglist.set c.msgcurr _).take c.msgused).drop c.msgcurr = _
    rw [List.set_take, List.drop_set, if_neg (Nat.lt_irrefl _), Nat.sub_self, ← Conn.msgs, ← Conn.unsentMsgs,
      Conn.unsentMsgs_eq_cons hlt hml]
    rfl
  -- the later messages weigh no more, and the current one weighs less
  have hrest : ((c.msgs.drop (c.msgcurr + 1)).map fun x => fragWeight (trimIov c.iov i' res') x.iov x.iovlen).sum ≤
      ((c.msgs.drop (c.msgcurr + 1)).map fun x => fragWeight c.iov x.iov x.iovlen).sum :=
    List.sum_le_sum fun x _ => fragWeight_le (getD_trimIov_len_le c.iov i' res') _ _
  have hhead : fragWeight (trimIov c.iov i' res') i' n' < fragWeight c.iov m.iov m.iovlen := by
    have hle := fragWeight_le (getD_trimIov_len_le c.iov i' res') i' n'
    rcases Nat.lt_or_ge n' m.iovlen with hlt' | hge
    · -- whole fragments were sent: they drop out
      have hsplit := fragWeight_add c.iov m.iov (i' - m.iov) n'
      rw [show i' - m.iov + n' = m.iovlen by omega, show m.iov + (i' - m.iov) = i' by omega] at hsplit
      have := le_fragWeight c.iov m.iov (i' - m.iov)
      omega
    · -- the first fragment was sent in part: it is shorter
      obtain ⟨rfl, rfl⟩ := hfull (by omega)
      rw [show m.iovlen = n' by omega]
      exact fragWeight_lt (getD_trimIov_len_le _ _ _ ) (getD_trimIov_len_lt h0 (hin (by omega))) _ _ le_rfl (by omega)
  simp only [sendLeft, hu, Conn.unsentMsgs_eq_cons hlt hml, hm, List.map_cons, List.sum_cons]
  omega

theorem transmit_incomplete {c : Conn} {e : Env} (h : (transmit c e).2.2 = .incomplete) :
    (transmit c e).1.state = c.state ∧ (transmit c e).1.iovused = c.iovused ∧ sendLeft (transmit c e).1 < sendLeft c := by
  have hs := sendLeft_skipDrained c
  have hr := Conn.state_eq_of_readSide (skipDrained_readSide c)
  have hu : (skipDrained c).iovused = c.iovused := by unfold skipDrained; split_ifs <;> rfl
  revert h
  unfold transmit; dsimp only
  generalize skipDrained c = d at hs hr hu
  split_ifs with hlt
  · split
    · split_ifs with hpos
      · exact fun _ => ⟨hr, hu, hs ▸ sendLeft_afterSend hlt hpos (min_le_right _ _)⟩
      · exact fun h => nomatch h
    all_goals exact fun h => nomatch h
  · exact fun h => nomatch h

theorem transmit_softError {c : Conn} {e : Env} (h : (transmit c e).2.2 = .softError) :
    e.sends e.nsends = .eagain := by
  revert h
  unfold transmit; dsimp only
  split_ifs
  · split
    · split_ifs <;> exact fun h => nomatch h
    · exact fun _ => ‹_›
    · exact fun h => nomatch h
  · exact fun h => nomatch h

/-- **A reply being sent gets out.**  When every `sendmsg` accepts at least a byte, `conn_mwrite` on a sendable
reply gets back to `conn_read`, each pass sending some of what is left. -/
theorem Conn.Sendable.drains (fuel : Nat) {c : Conn} {e : Env} (h : c.Sendable) (hs : c.state = .mwrite)
    (hsend : ∀ i, ∃ n, e.sends i = .sent n) : ∃ c' e', Drains c e c' e' := by
  suffices ∀ n (c : Conn) (e : Env), sendLeft c = n → c.Sendable → c.state = .mwrite →
      (∀ i, ∃ k, e.sends i = .sent k) → ∃ c' e', Drains c e c' e' from this _ c e rfl h hs hsend
  intro n
  induction n using Nat.strong_induction_on with
  | _ n ih =>
    intro c e hn h hs hsend
    have hne : e.sends e.nsends ≠ .error := by obtain ⟨k, hk⟩ := hsend e.nsends; rw [hk]; nofun
    cases ht : (transmit c e).2.2 with
    | complete =>
      -- nothing was left: the pass frees the items and enters `conn_read`
      have hsk : (transmit c e).1.state = .mwrite := by
        rw [(transmit_of_complete ht).1]; exact (Conn.state_eq_of_readSide (skipDrained_readSide c)).trans hs
      refine ⟨_, _, .last fuel hs (driveStep_mwrite fuel e hs) ?_⟩
      simp only [stepTransmit, ht, hsk, if_true]
      exact connSetState_state _ _ _
    | incomplete =>
      -- some bytes went out: the rest is a smaller reply, still in `conn_mwrite`
      obtain ⟨hst, -, hlt⟩ := transmit_incomplete ht
      obtain ⟨hsd, hsends⟩ := transmit_sendable h e
      have hr := stepTransmit_of_not_complete (show (transmit c e).2.2 ≠ .complete by rw [ht]; nofun)
      obtain ⟨c', e', hd⟩ := ih _ (hn ▸ hlt) _ _ rfl hsd (hst.trans hs) (by rw [hsends]; exact hsend)
      refine ⟨c', e', .step fuel hs (driveStep_mwrite fuel e hs) (by rw [hr.1]; exact hst.trans hs) ?_⟩
      rw [hr.1, hr.2]; exact hd
    | softError => obtain ⟨k, hk⟩ := hsend e.nsends; rw [transmit_softError ht] at hk; cases hk
    | hardError => exact absurd ht (transmit_result h hne).2

end Beansdb
