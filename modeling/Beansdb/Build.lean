import Beansdb.Drain
import Beansdb.Reply
/-!
# Build — the sizes `add_iov` keeps, over every sequence of calls

`Conn.IovOk` (`Pending`) is the layout of a reply's message list.  `Conn.SizeOk` is what `add_iov` keeps of its
sizes: no `msghdr` holds more than `IOV_MAX` fragments; the first holds at most `MAX_PAYLOAD_SIZE` bytes and, while it
is the only one, `msgbytes` counts them; no `msghdr` but the first is empty, and no fragment is.  Between the head of
a pass and its fragment the last `msghdr` may be a new, empty one, with room for the fragment (`Conn.Room`).
`limit_to_mtu` is read before `add_msghdr`, as in the source, and the pass cuts the fragment to what the first message
still holds (`takeLen_fits`).

Each call's loop ends: passes beyond the fragment's length change nothing (`addIovLoop_fuel`).  From
`process_command`'s `add_msghdr`, with the allocator granting, a sequence of calls with fragments of at least one byte
keeps both invariants, and the messages hold the calls' bytes in order (`add_iov_sequence_keeps_layout`).
-/
namespace Beansdb

/-! ## The bytes of a `msghdr` -/

theorem take_writeAt_of_le {α : Type} (l : List α) {n k : Nat} (x : α) (hk : k ≤ n) (hn : n ≤ l.length) :
    (writeAt l n x).take k = l.take k := by
  rw [writeAt, List.take_append_of_le_length (by simp; omega), List.take_take, Nat.min_eq_left hk]

/-- The bytes the fragments of a `msghdr` count: the sum of their `iov_len`s. -/
def msgLen (iov : List Iovec) (m : Msghdr) : Nat := (((iov.drop m.iov).take m.iovlen).map Iovec.len).sum

theorem msgLen_eq (iov : List Iovec) (m : Msghdr) :
    msgLen iov m = (((iov.take (m.iov + m.iovlen)).drop m.iov).map Iovec.len).sum := by
  rw [msgLen, List.take_drop]

/-- A fragment written past a `msghdr`'s run leaves its count alone. -/
theorem msgLen_writeAt_of_le {iov : List Iovec} {m : Msghdr} {n : Nat} (v : Iovec) (hm : m.iov + m.iovlen ≤ n)
    (hn : n ≤ iov.length) : msgLen (writeAt iov n v) m = msgLen iov m := by
  rw [msgLen_eq, msgLen_eq, take_writeAt_of_le _ _ hm hn]

/-- A fragment written at the end of a `msghdr`'s run adds its length. -/
theorem msgLen_writeAt_end {iov : List Iovec} (m : Msghdr) (v : Iovec) (hn : m.iov + m.iovlen ≤ iov.length) :
    msgLen (writeAt iov (m.iov + m.iovlen) v) ⟨m.iov, m.iovlen + 1⟩ = msgLen iov m + v.len := by
  rw [msgLen_eq, msgLen_eq]
  dsimp only
  rw [← Nat.add_assoc, take_writeAt _ _ _ hn, List.drop_append_of_le_length (by simp; omega), List.map_append,
    List.sum_append, List.map_singleton, List.sum_singleton]

/-- Each `msghdr` in use names fragments in use. -/
theorem Conn.IovOk.inside {c : Conn} (h : c.IovOk) : ∀ m ∈ c.msgs, m.iov + m.iovlen ≤ c.iovused := by
  intro m hm
  rw [h.laidOut] at hm
  have := layout_inside _ 0 m hm
  rwa [Nat.zero_add, h.used] at this

/-- Read `msg[0..msgused)` in order, the fragments give the reply. -/
theorem Conn.IovOk.msgs_bytes {c : Conn} (h : c.IovOk) : c.msgs.flatMap (msgBytes c.iov) = c.pending := by
  rw [h.laidOut, layout_bytes, h.used, List.drop_zero]; rfl

theorem pushMsghdr_msgs {c : Conn} (h : c.msgused ≤ c.msglist.length) :
    (pushMsghdr c).msgs = c.msgs ++ [⟨c.iovused, 0⟩] :=
  take_writeAt _ _ _ h

/-! ## The sizes `add_iov` keeps -/

/-- What `add_iov` keeps of the sizes of a reply. -/
structure Conn.SizeOk (c : Conn) : Prop where
  iovlens : ∀ m ∈ c.msgs, m.iovlen ≤ iovMax
  first  : ∀ m ∈ c.msgs.head?, msgLen c.iov m ≤ maxPayloadSize
  count  : c.msgused = 1 → ∀ m ∈ c.msgs.head?, msgLen c.iov m = c.msgbytes
  inner  : ∀ m ∈ c.msgs.tail, 0 < m.iovlen
  frags  : ∀ v ∈ c.iov.take c.iovused, 0 < v.len

/-- A reply where an `add_iov` pass puts its fragment: as `SizeOk`, but the last `msghdr` may be a new, empty one,
and it has room for one more fragment. -/
structure Conn.Room (c : Conn) : Prop where
  iovlens : ∀ m ∈ c.msgs, m.iovlen ≤ iovMax
  room   : ∀ m ∈ c.msgs.getLast?, m.iovlen < iovMax
  first  : ∀ m ∈ c.msgs.head?, msgLen c.iov m ≤ maxPayloadSize
  count  : c.msgused = 1 → ∀ m ∈ c.msgs.head?, msgLen c.iov m = c.msgbytes
  inner  : ∀ m ∈ c.msgs.dropLast.tail, 0 < m.iovlen
  frags  : ∀ v ∈ c.iov.take c.iovused, 0 < v.len

theorem Conn.Room.of_eq {c c' : Conn} (hr : c.Room) (hm : c'.msgs = c.msgs) (hi : c'.iov = c.iov)
    (hu : c'.iovused = c.iovused) (hmu : c'.msgused = c.msgused) (hb : c'.msgbytes = c.msgbytes) : c'.Room := by
  obtain ⟨h1, h2, h3, h4, h5, h6⟩ := hr
  exact ⟨hm ▸ h1, hm ▸ h2, by rw [hm, hi]; exact h3, by rw [hm, hi, hmu, hb]; exact h4, hm ▸ h5,
    by rw [hi, hu]; exact h6⟩

/-- `process_command`'s `add_msghdr` starts the reply with one empty `msghdr`. -/
theorem addMsghdr_start {c c₀ : Conn} {e e₀ : Env}
    (h : addMsghdr { c with msgcurr := 0, msgused := 0, iovused := 0 } e = (some c₀, e₀)) :
    c₀.IovOk ∧ c₀.SizeOk ∧ c₀.msgused = 1 ∧ c₀.msgcurr = 0 ∧ c₀.pending = [] := by
  have hs : ∀ d : Conn, d.msgused = 0 → d.iovused = 0 → (pushMsghdr d).IovOk ∧ (pushMsghdr d).SizeOk := by
    intro d h0 hi
    have hd : d.IovOk := ⟨by simp [Conn.msgs, h0, layout], by simp [Conn.msgs, h0, hi], by omega, by omega,
      by simp [hi]⟩
    have hm : (pushMsghdr d).msgs = [⟨d.iovused, 0⟩] := by rw [pushMsghdr_msgs hd.msgLen]; simp [Conn.msgs, h0]
    refine ⟨hd.push, ⟨?_, ?_, ?_, ?_, ?_⟩⟩ <;> (try rw [hm]) <;> simp [msgLen, hi, pushMsghdr]
  unfold addMsghdr at h
  split_ifs at h <;> cases h
  · exact ⟨(hs _ rfl rfl).1, (hs _ rfl rfl).2, rfl, rfl, rfl⟩
  · exact ⟨(hs _ rfl rfl).1, (hs _ rfl rfl).2, rfl, rfl, rfl⟩

/-- A new `msghdr` at the head of a pass: empty, with room. -/
theorem Conn.SizeOk.push {c : Conn} (hs : c.SizeOk) (h : c.IovOk) (hm : c.msgused ≠ 0) : (pushMsghdr c).Room := by
  have hp := pushMsghdr_msgs h.msgLen
  obtain ⟨a, as, ha⟩ := List.exists_cons_of_ne_nil (fun h0 : c.msgs = [] => hm (by
    simpa [Conn.msgs, h.msgLen] using congrArg List.length h0))
  refine ⟨?_, ?_, ?_, fun h1 => absurd (Nat.succ.inj h1) hm, ?_, hs.frags⟩
  · rw [hp]; intro m hm'
    rcases List.mem_append.1 hm' with hm' | hm'
    · exact hs.iovlens m hm'
    · rw [List.mem_singleton.1 hm']; exact Nat.zero_le _
  · rw [hp, List.getLast?_concat]; rintro m ⟨⟩; show 0 < iovMax; decide
  · rw [hp, ha]; intro m hm'; exact hs.first m (by rw [ha]; exact hm')
  · rw [hp, List.dropLast_concat]; exact hs.inner

theorem startMsghdr_mtu {c c' : Conn} {e e' : Env} {l : Bool} (hs : startMsghdr c e l = (some c', e')) :
    ¬(l = true ∧ maxPayloadSize ≤ c'.msgbytes) := by
  unfold startMsghdr addMsghdr at hs
  split_ifs at hs with hcond <;> cases hs
  · simp [pushMsghdr, maxPayloadSize]
  · simp [pushMsghdr, maxPayloadSize]
  · exact fun h' => hcond (.inr h')

/-- **The head of a pass.**  Whether it starts a new `msghdr` or not, the last one has room for the fragment. -/
theorem startMsghdr_room {c c' : Conn} {e e' : Env} {l : Bool} (hst : startMsghdr c e l = (some c', e'))
    (h : c.IovOk) (hs : c.SizeOk) (hm : c.msgused ≠ 0) : c'.Room := by
  have hsplit := (h.last hm).1
  unfold startMsghdr addMsghdr at hst
  split_ifs at hst with hcond <;> cases hst
  · exact (⟨hs.1, hs.2, hs.3, hs.4, hs.5⟩ : Conn.SizeOk { c with msgsize := c.msgsize * 2 }).push
      ⟨h.1, h.2, h.3, h.4, h.5⟩ hm
  · exact hs.push h hm
  · refine ⟨hs.iovlens, ?_, hs.first, hs.count, fun m hm' => hs.inner m ?_, hs.frags⟩
    · rw [hsplit, List.getLast?_concat]
      rintro m ⟨⟩
      have := hs.iovlens _ (hsplit ▸ List.mem_concat_self _ _)
      have : (lastMsg c).iovlen ≠ iovMax := fun h' => hcond (.inl h')
      omega
    · rw [List.tail_dropLast] at hm'; exact List.mem_of_mem_dropLast hm'

theorem ensureIovSpace_room {c c' : Conn} {e e' : Env} (hs : ensureIovSpace c e = (some c', e')) (h : c.IovOk)
    (hr : c.Room) : c'.Room := by
  obtain ⟨hm, hi, hu, hmu, hb, -⟩ := ensureIovSpace_msgs hs h
  exact hr.of_eq hm hi hu hmu hb

/-- **The fragment of a pass.**  Put in a `msghdr` with room, a non-empty fragment that the first message still holds
(when it is the only one) gives a reply with the sizes `add_iov` keeps. -/
theorem Conn.Room.put {c : Conn} (hr : c.Room) (h : c.IovOk) (hm : c.msgused ≠ 0) {v : Iovec} (hv : 0 < v.len)
    (hmtu : c.msgused = 1 → c.msgbytes + v.len ≤ maxPayloadSize) : (putIov c v).SizeOk := by
  obtain ⟨hsplit, -, -, hend⟩ := h.last hm
  have hmsgs := h.put_msgs hm v
  have hlen : c.iov.length ≥ (lastMsg c).iov + (lastMsg c).iovlen := hend ▸ h.iovLen
  have hroom : (lastMsg c).iovlen < iovMax := hr.room _ (by rw [hsplit, List.getLast?_concat]; rfl)
  have hkeep : ∀ m ∈ c.msglist.take (c.msgused - 1), msgLen (putIov c v).iov m = msgLen c.iov m := fun m hm' =>
    msgLen_writeAt_of_le v (hend ▸ h.inside m (hsplit ▸ List.mem_append_left _ hm')) hlen
  have hgrow : msgLen (putIov c v).iov ⟨(lastMsg c).iov, (lastMsg c).iovlen + 1⟩ = msgLen c.iov (lastMsg c) + v.len :=
    msgLen_writeAt_end _ v hlen
  have hT : (c.msglist.take (c.msgused - 1)).length = c.msgused - 1 := by have := h.msgLen; simp; omega
  have hmax : ∀ m ∈ (putIov c v).msgs, m.iovlen ≤ iovMax := by
    rw [hmsgs]; intro m hm'
    rcases List.mem_append.1 hm' with hm' | hm'
    · exact hr.iovlens m (hsplit ▸ List.mem_append_left _ hm')
    · rw [List.mem_singleton.1 hm']; show (lastMsg c).iovlen + 1 ≤ iovMax; omega
  have hfr : ∀ x ∈ (putIov c v).iov.take (c.iovused + 1), 0 < x.len := by
    rw [h.put_iov hm v]; intro x hx
    rcases List.mem_append.1 hx with hx | hx
    · exact hr.frags x hx
    · rw [List.mem_singleton.1 hx]; exact hv
  cases hTc : c.msglist.take (c.msgused - 1) with
  | nil =>
    -- the only `msghdr`: its count grows by the fragment, within `MAX_PAYLOAD_SIZE`
    have h1 : c.msgused = 1 := by rw [hTc] at hT; simp at hT; omega
    have hc := hr.count h1 (lastMsg c) (by rw [hsplit, hTc]; rfl)
    rw [hTc] at hmsgs
    refine ⟨hmax, ?_, fun _ => ?_, by rw [hmsgs]; simp, hfr⟩
    · rw [hmsgs]; rintro m ⟨⟩; have := hmtu h1; omega
    · rw [hmsgs]; rintro m ⟨⟩; show _ = c.msgbytes + v.len; omega
  | cons a as =>
    -- a later `msghdr`: the first one keeps its fragments
    have ha : a ∈ c.msglist.take (c.msgused - 1) := by rw [hTc]; exact List.mem_cons_self _ _
    rw [hTc] at hmsgs hkeep
    refine ⟨hmax, ?_, fun h1 => absurd (show c.msgused = 1 from h1) (by rw [hTc] at hT; simp at hT; omega), ?_, hfr⟩
    · rw [hmsgs]; rintro m ⟨⟩
      rw [hkeep a (List.mem_cons_self _ _)]
      exact hr.first a (by rw [hsplit, hTc]; rfl)
    · rw [hmsgs]; intro m hm'
      rcases List.mem_append.1 hm' with hm' | hm'
      · exact hr.inner m (by rw [hsplit, List.dropLast_concat, hTc]; exact hm')
      · rw [List.mem_singleton.1 hm']; show 0 < (lastMsg c).iovlen + 1; omega

/-- The fragment a pass takes fits what the first message still holds. -/
theorem takeLen_fits {mb : Nat} (len : Nat) (h : mb < maxPayloadSize) : mb + takeLen true mb len ≤ maxPayloadSize := by
  unfold takeLen; simp only [true_and]; split_ifs <;> omega

/-! ## A pass of `add_iov` -/

/-- With the allocator granting, the head of a pass succeeds. -/
theorem addIov_head {c : Conn} {e : Env} (hg : e.Grants) (l : Bool) :
    ∃ c₁ e₁ c₂ e₂, startMsghdr c e l = (some c₁, e₁) ∧ ensureIovSpace c₁ e₁ = (some c₂, e₂) ∧ e₂.Grants := by
  obtain ⟨c₁, h₁⟩ := Option.isSome_iff_exists.1 (startMsghdr_some c hg l)
  have hg₁ := hg.ticked (startMsghdr_ticked c e l)
  obtain ⟨c₂, h₂⟩ := Option.isSome_iff_exists.1 (ensureIovSpace_some c₁ hg₁)
  exact ⟨c₁, _, c₂, _, Prod.ext h₁ rfl, Prod.ext h₂ rfl, hg₁.ticked (ensureIovSpace_ticked _ _)⟩

theorem addIovLoop_succ_of {c c₁ c₂ : Conn} {e e₁ e₂ : Env} (f : Nat) (buf : List Char) (len : Nat) (o : Option Nat)
    (h₁ : startMsghdr c e (decide (c.msgused = 1)) = (some c₁, e₁)) (h₂ : ensureIovSpace c₁ e₁ = (some c₂, e₂)) :
    addIovLoop (f + 1) c e buf len o =
      if takeLen (decide (c.msgused = 1)) c₂.msgbytes len < len then
        addIovLoop f (putIov c₂ ⟨buf, takeLen (decide (c.msgused = 1)) c₂.msgbytes len, o⟩) e₂
          (buf.drop (takeLen (decide (c.msgused = 1)) c₂.msgbytes len))
          (len - takeLen (decide (c.msgused = 1)) c₂.msgbytes len) o
      else (putIov c₂ ⟨buf, takeLen (decide (c.msgused = 1)) c₂.msgbytes len, o⟩, e₂, true) := by
  simp only [addIovLoop, h₁, h₂]

/-- **`add_iov`'s loop ends.**  Every pass that goes on takes at least one byte of the fragment, so passes beyond its
length change nothing: the result is the same for every bound above it. -/
theorem addIovLoop_fuel : ∀ (f g : Nat) (c : Conn) (e : Env) (buf : List Char) (len : Nat) (o : Option Nat),
    len < f → len < g → addIovLoop f c e buf len o = addIovLoop g c e buf len o
  | 0, _, _, _, _, _, _, hf, _ => absurd hf (Nat.not_lt_zero _)
  | _ + 1, 0, _, _, _, _, _, _, hg => absurd hg (Nat.not_lt_zero _)
  | f + 1, g + 1, c, e, buf, len, o, hf, hg => by
    rcases h₁ : startMsghdr c e (decide (c.msgused = 1)) with ⟨_ | c₁, e₁⟩
    · simp only [addIovLoop, h₁]
    rcases h₂ : ensureIovSpace c₁ e₁ with ⟨_ | c₂, e₂⟩
    · simp only [addIovLoop, h₁, h₂]
    rw [addIovLoop_succ_of f buf len o h₁ h₂, addIovLoop_succ_of g buf len o h₁ h₂]
    split_ifs with hlt
    · have hb : c₂.msgbytes = c₁.msgbytes := by
        unfold ensureIovSpace at h₂; split_ifs at h₂ <;> cases h₂ <;> rfl
      have := takeLen_pos (hb ▸ startMsghdr_mtu h₁) (by omega : 0 < len)
      exact addIovLoop_fuel f g _ _ _ _ o (by omega) (by omega)
    · rfl

/-- A property of the connection that the head of a pass, the move of `iov` and the fragment each keep holds after
every pass of `add_iov`. -/
theorem addIovLoop_preserves (P : Conn → Prop)
    (hs : ∀ {c c' : Conn} {e e' : Env} {l : Bool}, startMsghdr c e l = (some c', e') → P c → P c')
    (he : ∀ {c c' : Conn} {e e' : Env}, ensureIovSpace c e = (some c', e') → P c → P c')
    (hp : ∀ (c : Conn) (v : Iovec), P c → P (putIov c v)) :
    ∀ (fuel : Nat) (c : Conn) (e : Env) (buf : List Char) (len : Nat) (o : Option Nat), P c →
      P (addIovLoop fuel c e buf len o).1
  | 0, _, _, _, _, _, h => h
  | f + 1, c, e, buf, len, o, h => by
    rcases h₁ : startMsghdr c e (decide (c.msgused = 1)) with ⟨_ | c₁, e₁⟩
    · simp only [addIovLoop, h₁]; exact h
    rcases h₂ : ensureIovSpace c₁ e₁ with ⟨_ | c₂, e₂⟩
    · simp only [addIovLoop, h₁, h₂]; exact hs h₁ h
    rw [addIovLoop_succ_of f buf len o h₁ h₂]
    have := hp _ ⟨buf, takeLen (decide (c.msgused = 1)) c₂.msgbytes len, o⟩ (he h₂ (hs h₁ h))
    split_ifs
    · exact addIovLoop_preserves P hs he hp f _ _ _ _ o this
    · exact this

/-- `add_iov` leaves `msgcurr` where it is. -/
theorem addIov_msgcurr (c : Conn) (e : Env) (buf : List Char) (len : Nat) (o : Option Nat) :
    (addIov c e buf len o).1.msgcurr = c.msgcurr := by
  unfold addIov
  split_ifs
  · rfl
  · refine addIovLoop_preserves (fun d => d.msgcurr = c.msgcurr) (fun h₁ hc => ?_) (fun h₂ hc => ?_)
      (fun _ _ hc => hc) _ c e buf len o rfl
    · unfold startMsghdr addMsghdr at h₁; split_ifs at h₁ <;> cases h₁ <;> exact hc
    · unfold ensureIovSpace at h₂; split_ifs at h₂ <;> cases h₂ <;> exact hc

/-- With the allocator granting, `add_iov`'s passes keep the sizes. -/
theorem addIovLoop_sizeOk (fuel : Nat) : ∀ (c : Conn) (e : Env) (buf : List Char) (len : Nat) (o : Option Nat),
    c.IovOk → c.SizeOk → c.msgused ≠ 0 → e.Grants → 0 < len → len ≤ buf.length →
    (addIovLoop fuel c e buf len o).1.SizeOk := by
  induction fuel with
  | zero => intro c _ _ _ _ _ hs _ _ _ _; exact hs
  | succ fuel ih =>
    intro c e buf len o h hs hm hg hl hb
    obtain ⟨c₁, e₁, c₂, e₂, h₁, h₂, hg₂⟩ := addIov_head hg (decide (c.msgused = 1))
    obtain ⟨hi₁, -, hmu₁, hmtu⟩ := startMsghdr_iovOk h₁ h
    obtain ⟨hi₂, -, hmu₂, hb₂⟩ := ensureIovSpace_iovOk h₂ hi₁
    have hr₂ := ensureIovSpace_room h₂ hi₁ (startMsghdr_room h₁ h hs hm)
    rw [← hb₂] at hmtu
    have hpos := takeLen_pos hmtu hl
    have hn := takeLen_le (decide (c.msgused = 1)) c₂.msgbytes len
    have hfit : c₂.msgused = 1 → c₂.msgbytes + takeLen (decide (c.msgused = 1)) c₂.msgbytes len ≤ maxPayloadSize := by
      intro h1
      have hc : c.msgused = 1 := by omega
      simp only [hc, decide_True, true_and] at hmtu ⊢
      exact takeLen_fits len (Nat.lt_of_not_le hmtu)
    have hs₃ : (putIov c₂ ⟨buf, takeLen (decide (c.msgused = 1)) c₂.msgbytes len, o⟩).SizeOk :=
      hr₂.put hi₂ (by omega) hpos hfit
    rw [addIovLoop_succ_of fuel buf len o h₁ h₂]
    split_ifs with hlt
    · exact ih _ _ _ _ o (hi₂.put (by omega) (hn.trans hb)).1 hs₃ (by show c₂.msgused ≠ 0; omega) hg₂ (by omega)
        (by simp; omega)
    · exact hs₃

theorem addIov_sizeOk {c : Conn} {e : Env} (buf : List Char) (len : Nat) (o : Option Nat) (h : c.IovOk)
    (hs : c.SizeOk) (hm : c.msgused ≠ 0) (hg : e.Grants) (hl : 0 < len) (hb : len ≤ buf.length) :
    (addIov c e buf len o).1.SizeOk := by
  simp only [addIov, hm, if_false]
  exact addIovLoop_sizeOk _ c e buf len o h hs hm hg hl hb

/-! ## A sequence of calls -/

/-- One call `add_iov (c, buf, len)`: the bytes from `buf`, `len` of them, and whose memory they are. -/
structure AddIovCall where
  buf   : List Char
  len   : Nat
  owner : Option Nat

/-- The bytes a call hands over. -/
def AddIovCall.bytes (f : AddIovCall) : List Char := f.buf.take f.len

/-- Calls of `add_iov` one after another, each checked as its caller does: the first that fails ends the sequence. -/
def addIovs : Conn → Env → List AddIovCall → Conn × Env × Bool
  | c, e, [] => (c, e, true)
  | c, e, f :: fs =>
    let r := addIov c e f.buf f.len f.owner
    if r.2.2 then addIovs r.1 r.2.1 fs else r

/-- With the allocator granting, a sequence of calls with fragments of at least one byte succeeds, keeps the layout
and the sizes, and appends the calls' bytes in order. -/
theorem addIovs_spec : ∀ (fs : List AddIovCall) (c : Conn) (e : Env), c.IovOk → c.SizeOk → c.msgused ≠ 0 →
    e.Grants → (∀ f ∈ fs, 0 < f.len ∧ f.len ≤ f.buf.length) →
    (addIovs c e fs).2.2 = true ∧ (addIovs c e fs).1.IovOk ∧ (addIovs c e fs).1.SizeOk ∧
      (addIovs c e fs).1.pending = c.pending ++ fs.flatMap AddIovCall.bytes ∧ (addIovs c e fs).1.msgcurr = c.msgcurr
  | [], c, _, h, hs, _, _, _ => ⟨rfl, h, hs, by simp [addIovs], rfl⟩
  | f :: fs, c, e, h, hs, hm, hg, hf => by
    obtain ⟨hl, hb⟩ := hf f (List.mem_cons_self _ _)
    obtain ⟨r1, r2, r3, r4⟩ := addIov_pending f.buf f.len f.owner h hm hg hb
    have hs' := addIov_sizeOk f.buf f.len f.owner h hs hm hg hl hb
    have hg' := hg.ticked (addIov_frame c e f.buf f.len f.owner).1
    obtain ⟨s1, s2, s3, s4, s5⟩ := addIovs_spec fs _ _ r2 hs' r3 hg' (fun g hg => hf g (List.mem_cons_of_mem _ hg))
    simp only [addIovs, r1, if_true]
    refine ⟨s1, s2, s3, ?_, s5.trans (addIov_msgcurr c e f.buf f.len f.owner)⟩
    rw [s4, r4, List.flatMap_cons, List.append_assoc]; rfl

/-- **`add_iov` over a reply.**  With every allocation granted, `add_iov` calls after `add_msghdr` succeed and keep
the message list laid out within `IOV_MAX` and `MAX_PAYLOAD_SIZE`; `msg[0..msgused)` give the calls' bytes in order,
each once, and each call's loop ends within as many passes as its fragment has bytes. -/
theorem add_iov_sequence_keeps_layout (c : Conn) (e : Env) {c₀ : Conn} {e₀ : Env} (fs : List AddIovCall)
    (h₀ : addMsghdr { c with msgcurr := 0, msgused := 0, iovused := 0 } e = (some c₀, e₀)) (hg : e.Grants)
    (hf : ∀ f ∈ fs, 0 < f.len ∧ f.len ≤ f.buf.length) :
    (addIovs c₀ e₀ fs).2.2 = true ∧ (addIovs c₀ e₀ fs).1.IovOk ∧ (addIovs c₀ e₀ fs).1.SizeOk ∧
      (addIovs c₀ e₀ fs).1.msgs.flatMap (msgBytes (addIovs c₀ e₀ fs).1.iov) = fs.flatMap AddIovCall.bytes ∧
      ∀ (c' : Conn) (e' : Env) (f : AddIovCall) (fuel : Nat), c'.msgused ≠ 0 → f.len < fuel →
        addIovLoop fuel c' e' f.buf f.len f.owner = addIov c' e' f.buf f.len f.owner := by
  obtain ⟨h, hs, h1, -, hp⟩ := addMsghdr_start h₀
  have ht := addMsghdr_ticked { c with msgcurr := 0, msgused := 0, iovused := 0 } e
  rw [h₀] at ht
  obtain ⟨r1, r2, r3, r4, -⟩ := addIovs_spec fs c₀ e₀ h hs (by omega) (hg.ticked ht) hf
  refine ⟨r1, r2, r3, by rw [r2.msgs_bytes, r4, hp, List.nil_append], fun c' e' f fuel hm hl => ?_⟩
  simp only [addIov, hm, if_false]
  exact addIovLoop_fuel fuel (f.len + 1) c' e' f.buf f.len f.owner hl (Nat.lt_succ_self _)

theorem value_reply_build :
    addMsghdr { Conn.init dataBufferSize .read with msgcurr := 0, msgused := 0, iovused := 0 } (clientEnv []) =
      (some (pushMsghdr { Conn.init dataBufferSize .read with msgcurr := 0, msgused := 0, iovused := 0 }),
        clientEnv []) ∧
    (clientEnv []).Grants ∧
    (∀ f ∈ [(⟨"VALUE a 0 1\r\n".toList, 13, none⟩ : AddIovCall), ⟨"x\r\n".toList, 3, some 0⟩],
      0 < f.len ∧ f.len ≤ f.buf.length) ∧
    let r := addIovs (pushMsghdr { Conn.init dataBufferSize .read with msgcurr := 0, msgused := 0, iovused := 0 })
      (clientEnv []) [⟨"VALUE a 0 1\r\n".toList, 13, none⟩, ⟨"x\r\n".toList, 3, some 0⟩]
    r.2.2 = true ∧ r.1.IovOk ∧ r.1.SizeOk ∧
      r.1.msgs.flatMap (msgBytes r.1.iov) =
        [(⟨"VALUE a 0 1\r\n".toList, 13, none⟩ : AddIovCall), ⟨"x\r\n".toList, 3, some 0⟩].flatMap AddIovCall.bytes ∧
      ∀ (c' : Conn) (e' : Env) (f : AddIovCall) (fuel : Nat), c'.msgused ≠ 0 → f.len < fuel →
        addIovLoop fuel c' e' f.buf f.len f.owner = addIov c' e' f.buf f.len f.owner :=
  have h₀ : addMsghdr { Conn.init dataBufferSize .read with msgcurr := 0, msgused := 0, iovused := 0 } (clientEnv []) =
      (some (pushMsghdr { Conn.init dataBufferSize .read with msgcurr := 0, msgused := 0, iovused := 0 }),
        clientEnv []) := rfl
  have hf : ∀ f ∈ [(⟨"VALUE a 0 1\r\n".toList, 13, none⟩ : AddIovCall), ⟨"x\r\n".toList, 3, some 0⟩],
      0 < f.len ∧ f.len ≤ f.buf.length := by decide
  ⟨h₀, fun _ _ => rfl, hf, add_iov_sequence_keeps_layout _ _ _ h₀ (fun _ _ => rfl) hf⟩

end Beansdb
