import Beansdb.Arm
import Beansdb.Rbuf
/-!
# Stream — the read path cuts the stream as `cutStream` does

The read path of `drive_machine` refines the whole-stream cutter of `Cut`.  In every state a run reaches, the
connection stands where the cutter stands after the bytes the connection took (`Conn.view`), and the bytes it has
not taken, the unread window of `rbuf` and then the socket's queue, are the rest of the stream in order
(`Conn.OnStream`).  Each pass of the loop moves the cutter over the bytes it takes: `try_read_command` a line
(`OnStream.commandStep`), `conn_nread` and `conn_swallow` the bytes they copy from the window or read from the socket
(`OnStream.nreadStep`, `OnStream.swallowStep`).  The compaction, the doubling and the reads of `try_read_network`
only append to the window (`Refills`), and `conn_shrink` and the sends keep it (`connSetState_window`,
`OnStream.transmitStep`).  So however the `read`s split the stream, over the passes that meet no undefined behaviour,
the events dispatched are those of cutting it at once, all of them once no line is left (`read_path_cuts_stream`).
-/
namespace Beansdb

/-! ## The window keeps its bytes -/

theorem Conn.window_congr {c c' : Conn} (h : c'.readView = c.readView) : c'.window = c.window := by
  simp only [Conn.readView, Prod.mk.injEq] at h
  simp only [Conn.window, h]

theorem Conn.RbufOk.window_length {c : Conn} (h : c.RbufOk) : c.window.length = c.rbytes := by
  have := h.window; have := h.length
  simp only [Conn.window, List.length_take, List.length_drop]; omega

/-- Moving `rcurr` past `n` bytes of the window leaves the rest of it. -/
theorem Conn.window_advance (c : Conn) (n : Nat) :
    ({ c with rcurr := c.rcurr + n, rbytes := c.rbytes - n }).window = c.window.drop n := by
  simp only [Conn.window, List.drop_take, List.drop_drop]

theorem memmove_take {rbuf : List Char} {rcurr rbytes : Nat} (h : rcurr + rbytes ≤ rbuf.length) :
    (memmove rbuf rcurr rbytes).take rbytes = (rbuf.drop rcurr).take rbytes :=
  List.take_left' (by simp only [List.length_take, List.length_drop]; omega)

theorem realloc_take {α : Type} {l : List α} {k : Nat} (n : Nat) (x : α) (hn : k ≤ n) (hl : k ≤ l.length) :
    (realloc l n x).take k = l.take k := by
  rw [realloc, List.take_append_of_le_length (by simp only [List.length_take]; omega), List.take_take,
    Nat.min_eq_left hn]

theorem readInto_take {rbuf b : List Char} {p : Nat} (h : p ≤ rbuf.length) :
    (readInto rbuf p b).take (p + b.length) = rbuf.take p ++ b :=
  List.take_left' (by simp only [List.length_append, List.length_take]; omega)

theorem compactRbuf_window {c : Conn} (h : c.RbufOk) : (compactRbuf c).window = c.window := by
  have := h.window; have := h.length
  unfold compactRbuf
  split_ifs with h1 h2
  · simp only [Conn.window, List.drop_zero]; exact memmove_take (by omega)
  · simp [Conn.window, not_not.1 h2]
  · rfl

/-- `conn_shrink` compacts and shrinks `rbuf` keeping the window's bytes: it shrinks only below `DATA_BUFFER_SIZE`
of them. -/
theorem shrinkRbuf_window {c : Conn} (e : Env) (h : c.RbufOk) : (shrinkRbuf c e).1.window = c.window := by
  have := h.window; have := h.length
  have hm : (if c.rcurr ≠ 0 then memmove c.rbuf c.rcurr c.rbytes else c.rbuf).take c.rbytes = c.window := by
    split_ifs with h1
    · exact memmove_take (by omega)
    · simp [Conn.window, not_not.1 h1]
  have hl : c.rbytes ≤ (if c.rcurr ≠ 0 then memmove c.rbuf c.rcurr c.rbytes else c.rbuf).length := by
    split_ifs
    · rw [memmove_length (by omega)]; omega
    · omega
  unfold shrinkRbuf
  by_cases h1 : readBufferHighwat < c.rsize ∧ c.rbytes < dataBufferSize
  · rw [if_pos h1]; dsimp only
    by_cases h2 : e.ok = true
    · rw [if_pos h2]; simp only [Conn.window, List.drop_zero]
      exact (realloc_take dataBufferSize _ (by omega) hl).trans hm
    · rw [if_neg h2]; simp only [Conn.window, List.drop_zero]; exact hm
  · rw [if_neg h1]

theorem connShrink_window {c : Conn} (e : Env) (h : c.RbufOk) : (connShrink c e).1.window = c.window := by
  unfold connShrink; dsimp only
  rw [Conn.window_congr (shrinkIov_readView _ _), Conn.window_congr (shrinkMsglist_readView _ _),
    Conn.window_congr (shrinkIlist_readView _ _), shrinkRbuf_window e h]

theorem connSetState_window {c : Conn} (e : Env) (s : ConnState) (h : c.RbufOk) :
    (connSetState c e s).1.window = c.window := by
  unfold connSetState
  split_ifs
  · have hw := connShrink_window e h
    generalize connShrink c e = r at hw ⊢
    exact hw
  all_goals rfl

theorem outString_window {c : Conn} (e : Env) (str : List Char) (h : c.RbufOk) :
    (outString c e str).1.window = c.window := by
  unfold outString
  split
  · exact connSetState_window _ _ (h.of_readView rfl)
  · exact (Conn.window_congr rfl).trans (connSetState_window _ _ (h.of_readView rfl))

/-! ## `try_read_network` appends to the window -/

/-- The bytes a `read` returned. -/
def ReadOut.got : ReadOut → List Char
  | .bytes b => b
  | _ => []

/-- A `read` takes the bytes it returns from the head of the socket's queue, and moves nothing else of the input
side of the world. -/
theorem Env.read_spec {e e' : Env} {want : Nat} {o : ReadOut} (h : e.read want = (e', o)) :
    e'.log = e.log ∧ e'.swallowed = e.swallowed ∧ e'.allocs = e.allocs ∧ e.inq = o.got ++ e'.inq := by
  unfold Env.read at h
  split at h
  · split_ifs at h <;> cases h <;> simp [ReadOut.got]
  all_goals cases h; simp [ReadOut.got]

/-- From `(c, e)` to `(c', e')` the read loop moved bytes from the head of the socket's queue to the end of the
window and nothing else of the read side, or the connection is closing. -/
def Refills (c : Conn) (e : Env) (c' : Conn) (e' : Env) : Prop :=
  c'.mode = c.mode ∧ e'.log = e.log ∧ e'.swallowed = e.swallowed ∧ e'.allocs = e.allocs ∧
    (c'.state = .closing ∨ c'.state = c.state ∧ ∃ b, e.inq = b ++ e'.inq ∧ c'.window = c.window ++ b)

theorem Refills.trans {c₁ c₂ c₃ : Conn} {e₁ e₂ e₃ : Env} (h₁ : Refills c₁ e₁ c₂ e₂) (h₂ : Refills c₂ e₂ c₃ e₃) :
    Refills c₁ e₁ c₃ e₃ := by
  obtain ⟨m₁, l₁, s₁, a₁, h₁⟩ := h₁
  obtain ⟨m₂, l₂, s₂, a₂, h₂⟩ := h₂
  refine ⟨m₂.trans m₁, l₂.trans l₁, s₂.trans s₁, a₂.trans a₁, ?_⟩
  rcases h₂ with h₂ | ⟨t₂, b₂, q₂, w₂⟩
  · exact .inl h₂
  rcases h₁ with h₁ | ⟨t₁, b₁, q₁, w₁⟩
  · exact .inl (t₂.trans h₁)
  · exact .inr ⟨t₂.trans t₁, b₁ ++ b₂, by rw [q₁, q₂, List.append_assoc], by rw [w₂, w₁, List.append_assoc]⟩

theorem growRbuf_window {c c' : Conn} {e e' : Env} (h : growRbuf c e = (some c', e')) (h0 : c.rcurr = 0)
    (hc : c.RbufOk) : c'.window = c.window ∧ c'.mode = c.mode ∧ c'.state = c.state ∧ e.Ticked e' := by
  have := hc.window; have := hc.length
  unfold growRbuf at h
  split_ifs at h <;> cases h
  · refine ⟨?_, rfl, rfl, e.ticked_tick⟩
    simp only [Conn.window, List.drop_zero, h0]; exact realloc_take (c.rsize * 2) _ (by omega) (by omega)
  · exact ⟨rfl, rfl, rfl, .refl e⟩

/-- The `while (1)` of `try_read_network`: with the allocator granting, each `read` appends to the window. -/
theorem readLoop_refills (fuel : Nat) (c : Conn) (e : Env) (got : Bool) (hg : ∀ n, e.allocs n = true)
    (h0 : c.rcurr = 0) (h : c.RbufOk) : Refills c e (readLoop fuel c e got).1 (readLoop fuel c e got).2.1 := by
  induction fuel generalizing c e got with
  | zero => exact ⟨rfl, rfl, rfl, rfl, .inr ⟨rfl, [], rfl, (List.append_nil _).symm⟩⟩
  | succ n ih =>
    simp only [readLoop]
    split
    · next e₁ heq =>
      unfold growRbuf at heq
      split_ifs at heq with h1 h2 <;> first | exact absurd (hg e.nalloc) h2 | cases heq
    · next c₁ e₁ heq =>
      obtain ⟨hw₁, hm₁, hs₁, ht₁⟩ := growRbuf_window heq h0 h
      obtain ⟨hc0, hc⟩ := growRbuf_ok heq h0 h
      have hi₁ := ht₁.input_eq
      simp only [Env.input, Prod.mk.injEq] at hi₁
      have hr₁ : Refills c e c₁ e₁ := ⟨hm₁, hi₁.1, hi₁.2.2.1, hi₁.2.2.2, .inr ⟨hs₁, [], by simp [hi₁.2.1], by simp [hw₁]⟩⟩
      split
      · next e₂ b hb =>
        obtain ⟨hl, hs, ha, hq⟩ := Env.read_spec hb
        have hk : c₁.rbytes + b.length ≤ c₁.rsize := by have := Env.read_bytes_le hb; have := hc.window; omega
        have hn : ({ c₁ with rbuf := readInto c₁.rbuf c₁.rbytes b, rbytes := c₁.rbytes + b.length }).RbufOk :=
          ⟨by simp only [hc0]; omega, hc.pos, by rw [← hc.length]; exact readInto_length (hc.length ▸ hk)⟩
        have hr₂ : Refills c₁ e₁ { c₁ with rbuf := readInto c₁.rbuf c₁.rbytes b, rbytes := c₁.rbytes + b.length } e₂ :=
          ⟨rfl, hl, hs, ha, .inr ⟨rfl, b, hq, by
            simp only [Conn.window, hc0, List.drop_zero]
            exact readInto_take (by have := hc.window; have := hc.length; omega)⟩⟩
        split_ifs
        · exact hr₁.trans (hr₂.trans (ih _ _ _ (fun k => ha ▸ hi₁.2.2.2 ▸ hg k) hc0 hn))
        · exact hr₁.trans hr₂
      · next e₂ hb =>
        obtain ⟨hl, hs, ha, hq⟩ := Env.read_spec hb
        exact hr₁.trans ⟨rfl, hl, hs, ha, .inr ⟨rfl, [], hq, by simp⟩⟩
      · next e₂ o _ _ hb =>
        obtain ⟨hl, hs, ha, -⟩ := Env.read_spec hb
        have hi := (connSetState_ticked c₁ e₂ .closing).input_eq
        simp only [Env.input, Prod.mk.injEq] at hi
        exact hr₁.trans ⟨connSetState_mode _ _ _, hi.1.trans hl, hi.2.2.1.trans hs, hi.2.2.2.trans ha,
          .inl (connSetState_state _ _ _)⟩

/-- **`try_read_network` only appends to the window**: the compaction keeps its bytes, a doubling keeps them, and
each `read` appends what it returned. -/
theorem tryReadNetwork_refills (c : Conn) (e : Env) (hg : ∀ n, e.allocs n = true) (h : c.RbufOk) :
    Refills c e (tryReadNetwork c e).1 (tryReadNetwork c e).2.1 := by
  have hc := compactRbuf_ok h
  have hm : (compactRbuf c).mode = c.mode ∧ (compactRbuf c).state = c.state := by
    unfold compactRbuf; split_ifs <;> exact ⟨rfl, rfl⟩
  exact (show Refills c e (compactRbuf c) e from
    ⟨hm.1, rfl, rfl, rfl, .inr ⟨hm.2, [], rfl, by rw [compactRbuf_window h, List.append_nil]⟩⟩).trans
    (readLoop_refills _ _ _ _ hg hc.1 hc.2)

/-! ## The connection as a cutter -/

/-- Where the connection stands as a cutter: the events it dispatched, the frame it reads and the bytes of that frame
it holds.  A body or a swallow whose last byte came is dispatched on the next pass; the cutter has it dispatched
already. -/
def Conn.view (c : Conn) (e : Env) : Cutter :=
  match c.state, c.item with
  | .nread, some h => Cutter.fill e.log .body .body (h.item.data.take c.ritem) c.rlbytes
  | .swallow, _ => Cutter.fill e.log .swallow .swallow e.swallowed c.sbytes
  | .write, _ => if c.writeAndGo = .swallow then Cutter.enter e.log (.swallow c.sbytes) else ⟨e.log, .line, []⟩
  | _, _ => ⟨e.log, .line, []⟩

/-- What the frame a connection reads asks of its fields. -/
structure Conn.FrameOk (c : Conn) (e : Env) : Prop where
  item       : c.state = .nread → ∃ h, c.item = some h ∧ h.item.data.length = c.ritem + c.rlbytes
  swallowed  : c.state ≠ .swallow → e.swallowed = []
  writeAndGo : c.state = .write → c.writeAndGo = .read ∨ c.writeAndGo = .swallow

theorem Conn.view_congr {c c' : Conn} {e e' : Env} (hs : c'.state = c.state) (hm : c'.mode = c.mode)
    (hl : e'.log = e.log) (hw : e'.swallowed = e.swallowed) : c'.view e' = c.view e := by
  simp only [Conn.mode, Prod.mk.injEq] at hm
  obtain ⟨h1, h2, h3, h4, h5⟩ := hm
  unfold Conn.view; rw [hs, h1, h2, h3, h4, h5, hl, hw]

theorem Conn.FrameOk.congr {c c' : Conn} {e e' : Env} (h : c.FrameOk e) (hs : c'.state = c.state)
    (hm : c'.mode = c.mode) (hw : e'.swallowed = e.swallowed) : c'.FrameOk e' := by
  simp only [Conn.mode, Prod.mk.injEq] at hm
  obtain ⟨h1, h2, h3, -, h5⟩ := hm
  exact ⟨by rw [hs, h1, h2, h3]; exact h.item, by rw [hs, hw]; exact h.swallowed, by rw [hs, h5]; exact h.writeAndGo⟩

theorem Conn.view_events (c : Conn) (e : Env) : e.log <+: (c.view e).events := by
  unfold Conn.view
  split
  · exact Cutter.events_fill _ _ _ _ _
  · exact Cutter.events_fill _ _ _ _ _
  · split_ifs
    exacts [Cutter.events_enter _ _, List.prefix_refl _]
  · exact List.prefix_refl _

theorem Conn.Idle.view {c : Conn} (h : c.Idle) (e : Env) : c.view e = ⟨e.log, .line, []⟩ := by
  rcases h with hs | hs | hs | ⟨hs, hw⟩ <;> simp [Conn.view, hs]
  simp [hw]

theorem Conn.Idle.frameOk {c : Conn} {e : Env} (h : c.Idle) (hw : e.swallowed = []) : c.FrameOk e := by
  refine ⟨fun hn => ?_, fun _ => hw, fun hn => ?_⟩ <;>
    rcases h with hs | hs | hs | ⟨hs, hg⟩ <;> simp_all

/-- The read side of a connection whose client sends the stream `s`: the events it dispatched are those of cutting
`s` at once, and, unless it is closing, the bytes it took, cut, leave the cutter where the connection stands, the
unread window and then the socket's queue being the rest of `s`. -/
structure Conn.OnStream (s : List Char) (c : Conn) (e : Env) : Prop where
  rbuf       : c.RbufOk
  grants     : ∀ n, e.allocs n = true
  dispatched : e.log <+: (cutStream commandFrame s).events
  frameOk    : c.state ≠ .closing → c.FrameOk e
  taken      : c.state ≠ .closing → ∃ t, s = t ++ c.window ++ e.inq ∧ cutStream commandFrame t = c.view e

theorem foldl_free_input (l : List Held) (e : Env) : (l.foldl Env.free e).input = e.input := by
  induction l generalizing e with
  | nil => rfl
  | cons x l ih => exact ih (e.free x)

section Passes

variable {s : List Char} {c c' : Conn} {e e' : Env}

/-- A pass that took the bytes `b` at the head of what the connection had not taken, and stands where the cutter
stands after them. -/
theorem Conn.OnStream.advance (h : c.OnStream s e) (hc : c.state ≠ .closing) (b : List Char) (hrb : c'.RbufOk)
    (hg : e'.allocs = e.allocs) (hok : c'.FrameOk e') (hw : c.window ++ e.inq = b ++ (c'.window ++ e'.inq))
    (hv : c'.view e' = (c.view e).feed commandFrame b) : c'.OnStream s e' := by
  obtain ⟨t, hs, ht⟩ := h.taken hc
  have hs' : s = t ++ b ++ c'.window ++ e'.inq := by rw [hs, List.append_assoc, hw]; simp
  have ht' : cutStream commandFrame (t ++ b) = c'.view e' := by rw [cutStream_append, ht, hv]
  have hd : e'.log <+: (cutStream commandFrame (t ++ b)).events := ht' ▸ c'.view_events e'
  exact ⟨hrb, hg ▸ h.grants, hd.trans (cutStream_events_mono _ ⟨c'.window ++ e'.inq, by rw [hs']; simp⟩),
    fun _ => hok, fun _ => ⟨t ++ b, hs', ht'⟩⟩

/-- A pass that closes the connection, dispatching nothing the cutter did not. -/
theorem Conn.OnStream.close (h : c.OnStream s e) (hrb : c'.RbufOk) (hg : e'.allocs = e.allocs)
    (hs : c'.state = .closing) (hl : e'.log <+: (cutStream commandFrame s).events) : c'.OnStream s e' :=
  ⟨hrb, hg ▸ h.grants, hl, fun h' => absurd hs h', fun h' => absurd hs h'⟩

/-- A pass that moved nothing of the read side. -/
theorem Conn.OnStream.stutter (h : c.OnStream s e) (hrs : c'.readSide = c.readSide) (he : e'.input = e.input) :
    c'.OnStream s e' := by
  have hv := congrArg Prod.fst hrs
  simp only [Conn.readSide, Prod.mk.injEq] at hrs
  simp only [Env.input, Prod.mk.injEq] at he
  obtain ⟨-, hs, hm⟩ := hrs
  obtain ⟨hl, hq, hw, ha⟩ := he
  refine ⟨h.rbuf.of_readView hv, ha ▸ h.grants, hl ▸ h.dispatched, fun hc => ?_, fun hc => ?_⟩
  · exact (h.frameOk (hs ▸ hc)).congr hs hm hw
  · obtain ⟨t, ht, hv'⟩ := h.taken (hs ▸ hc)
    exact ⟨t, by rw [ht, Conn.window_congr hv, hq], by rw [hv', Conn.view_congr hs hm hl hw]⟩

/-- The closing pass: `conn_cleanup` releases what the connection holds. -/
theorem Conn.OnStream.closingStep (h : c.OnStream s e) (hs : c.state = .closing) :
    (connCleanup c e).1.OnStream s (connCleanup c e).2 := by
  have hi : (connCleanup c e).2.input = e.input := by
    unfold connCleanup; dsimp only
    split <;> exact foldl_free_input _ _
  simp only [Env.input, Prod.mk.injEq] at hi
  exact h.close (h.rbuf.of_readView rfl) hi.2.2.2 hs (hi.1 ▸ h.dispatched)

/-- A `read` that returned `EAGAIN` took nothing. -/
theorem Conn.OnStream.readEagain {want : Nat} (h : c.OnStream s e) (hb : e.read want = (e', .eagain)) :
    c.OnStream s e' := by
  obtain ⟨hl, hsw, ha, hq⟩ := Env.read_spec hb
  exact h.stutter rfl (by simp only [Env.input, hl, hsw, ha, hq, ReadOut.got, List.nil_append])

/-- A `read` that failed closes the connection. -/
theorem Conn.OnStream.readFails {want : Nat} {o : ReadOut} (h : c.OnStream s e) (hb : e.read want = (e', o)) :
    (connSetState c e' .closing).1.OnStream s (connSetState c e' .closing).2 := by
  obtain ⟨hl, -, ha, -⟩ := Env.read_spec hb
  have hi := (connSetState_ticked c e' .closing).input_eq
  simp only [Env.input, Prod.mk.injEq] at hi
  exact h.close (connSetState_ok _ _ h.rbuf) (hi.2.2.2.trans ha) (connSetState_state _ _ _)
    (by rw [hi.1, hl]; exact h.dispatched)

/-! ## The passes of `drive_machine` -/

/-- **`try_read_command` takes one line**: the cutter cuts the same line and enters the frame `process_command`
arms. -/
theorem Conn.OnStream.commandStep {fuel : Nat} {r : Conn × Env} (h : c.OnStream s e) (hs : c.state = .read)
    (hr : tryReadCommand fuel c e = some (some r)) : r.1.OnStream s r.2 := by
  have hc : c.state ≠ .closing := by rw [hs]; decide
  have hrb := tryReadCommand_ok hs h.rbuf hr
  have hsw : e.swallowed = [] := (h.frameOk hc).swallowed (by rw [hs]; decide)
  unfold tryReadCommand at hr
  split_ifs at hr
  split at hr
  · cases hr
  · next el hel =>
    obtain ⟨r₁, h₁, rfl⟩ := Option.map_eq_some'.1 (Option.some.inj hr)
    obtain ⟨pre, rest, hw, hn, rfl⟩ := findNewline_some hel
    rw [hw, cutLine_eq_lineOf] at h₁
    obtain ⟨hi, ha⟩ := processCommand_arms hs (fun n _ => h.grants n) h₁
    simp only [Env.input, Prod.mk.injEq] at hi
    have hwin : ({ r₁.1 with rbytes := r₁.1.rbytes - (pre.length + 1), rcurr := r₁.1.rcurr + (pre.length + 1) } :
        Conn).window = rest := by
      rw [Conn.window_advance, Conn.window_congr (processCommand_readView c e hs _ _ h₁), hw]; simp
    have hfeed : (c.view e).feed commandFrame (pre ++ ['\n']) =
        Cutter.enter (e.log ++ [.command (lineOf pre)]) (commandFrame (lineOf pre)) := by
      rw [Conn.Idle.view (.inl hs) e]; exact feed_line _ _ _ hn
    refine h.advance hc (pre ++ ['\n']) hrb hi.2.2.2 ?_ (by rw [hw, hwin, hi.2.1]; simp) ?_
    · rcases ha with ⟨hidle, -⟩ | ⟨it, -, hst, hit, hri, hrl⟩
      · exact Conn.Idle.frameOk hidle (hi.2.2.1.trans hsw)
      · exact ⟨fun _ => ⟨it, hit, by rw [hri, hrl, Nat.zero_add]⟩, fun _ => hi.2.2.1.trans hsw,
          fun hw' => absurd (hst.symm.trans hw') (by decide)⟩
    · rw [hfeed]
      rcases ha with ⟨hidle, hf⟩ | ⟨it, hf, hst, hit, hri, hrl⟩
      · rw [hf, ← hi.1]; exact Conn.Idle.view hidle r₁.2
      · rw [hf, ← hi.1]; simp only [Conn.view, hst, hit, hri, hrl, List.take_zero]; rfl

theorem Conn.OnStream.readStep {fuel : Nat} {r : Conn × Env × Next} (h : c.OnStream s e) (hs : c.state = .read)
    (hr : stepRead fuel c e = some r) : r.1.OnStream s r.2.1 := by
  unfold stepRead at hr
  split at hr
  · next o ho =>
    cases o with
    | none => cases hr
    | some r₀ => cases hr; exact h.commandStep hs ho
  · cases hr
    have hc : c.state ≠ .closing := by rw [hs]; decide
    obtain ⟨hm, hl, hw, ha, hst⟩ := tryReadNetwork_refills c e h.grants h.rbuf
    have hrb := tryReadNetwork_ok c e h.rbuf
    rcases hst with hst | ⟨hst, b, hq, hwin⟩
    · exact h.close hrb ha hst (hl ▸ h.dispatched)
    · refine h.advance hc [] hrb ha ((h.frameOk hc).congr hst hm hw) (by rw [hwin, hq]; simp) ?_
      rw [Conn.view_congr hst hm hl hw]; rfl

/-- `complete_nread` dispatches the body and answers: the connection reads a line next. -/
theorem completeNread_spec (e : Env) {c : Conn} {it : Held} (hit : c.item = some it) (hc : c.RbufOk) :
    (completeNread c e).1.Idle ∧ (completeNread c e).1.state ≠ .closing ∧ (completeNread c e).1.window = c.window ∧
      (completeNread c e).2.input = (e.log ++ [.body it.item.data], e.inq, e.swallowed, e.allocs) := by
  unfold completeNread; rw [hit]; dsimp only
  split <;> exact ⟨outString_idle _ _ _, outString_ne_closing _ _ _, outString_window _ _ hc,
    (outString_ticked _ _ _).input_eq⟩

/-- `conn_nread` copying `b` into the item moves the cutter over `b`. -/
theorem fillItem_cut {it : Held} (hs : c.state = .nread) (hit : c.item = some it)
    (hlen : it.item.data.length = c.ritem + c.rlbytes) (hok : c.FrameOk e) (b : List Char)
    (hb : b.length ≤ c.rlbytes) : (fillItem c b).view e = (c.view e).feed commandFrame b ∧ (fillItem c b).FrameOk e := by
  have hv : c.view e = Cutter.fill e.log .body .body (it.item.data.take c.ritem) c.rlbytes := by
    simp [Conn.view, hs, hit]
  have hf : fillItem c b = { c with item := some { it with item := { it.item with
      data := readInto it.item.data c.ritem b } }, ritem := c.ritem + b.length, rlbytes := c.rlbytes - b.length } := by
    simp [fillItem, hit]
  rw [hf, hv, feed_body _ _ _ _ _ hb]
  refine ⟨?_, ⟨fun _ => ⟨_, rfl, ?_⟩, hok.swallowed, hok.writeAndGo⟩⟩
  · simp only [Conn.view, hs]; rw [readInto_take (by omega)]
  · dsimp only; rw [readInto_length (by omega)]; omega

theorem Conn.OnStream.nreadStep (h : c.OnStream s e) (hs : c.state = .nread) :
    (stepNread c e).1.OnStream s (stepNread c e).2.1 := by
  have hc : c.state ≠ .closing := by rw [hs]; decide
  have hok := h.frameOk hc
  have hsw := hok.swallowed (by rw [hs]; decide)
  obtain ⟨it, hit, hlen⟩ := hok.item hs
  have hrb := stepNread_ok c e h.rbuf
  have hwl := h.rbuf.window_length
  unfold stepNread at hrb ⊢
  split_ifs at hrb ⊢ with h0 h1
  · obtain ⟨hidle, -, hw, hi⟩ := completeNread_spec e hit h.rbuf
    simp only [Env.input, Prod.mk.injEq] at hi
    refine h.advance hc [] hrb hi.2.2.2 (hidle.frameOk (hi.2.2.1.trans hsw)) (by rw [hw, hi.2.1]; rfl) ?_
    rw [hidle.view, hi.1]
    simp [Conn.view, hs, hit, Cutter.fill, h0, List.take_of_length_le (show it.item.data.length ≤ c.ritem by omega)]
  · dsimp only at hrb ⊢
    generalize hn : min c.rbytes c.rlbytes = n at hrb ⊢
    have hnl : (c.window.take n).length = n := by simp; omega
    obtain ⟨hv, hok'⟩ := fillItem_cut hs hit hlen hok (c.window.take n) (by omega)
    have hw : ({ fillItem c (c.window.take n) with rcurr := c.rcurr + n, rbytes := c.rbytes - n }).window =
        c.window.drop n := Conn.window_advance _ _
    refine h.advance hc _ hrb rfl ⟨hok'.1, hok'.2, hok'.3⟩ ?_ hv
    rw [hw, ← List.append_assoc, List.take_append_drop]
  · have hw0 : c.window = [] := List.eq_nil_of_length_eq_zero (by omega)
    split
    · next e' b hb =>
      obtain ⟨hl, hsw', ha, hq⟩ := Env.read_spec hb
      obtain ⟨hv, hok'⟩ := fillItem_cut hs hit hlen hok b (Env.read_bytes_le hb)
      refine h.advance hc b (h.rbuf.of_readView rfl) ha (hok'.congr rfl rfl hsw') ?_ ?_
      · rw [show (fillItem c b).window = c.window from rfl, hw0, hq]; rfl
      · rw [Conn.view_congr rfl rfl hl hsw', hv]
    · next e' hb => exact h.readEagain hb
    · next e' o _ _ hb => exact h.readFails hb

theorem Conn.FrameOk.of_swallow (hs : c.state = .swallow) : c.FrameOk e :=
  ⟨fun hn => absurd (hs.symm.trans hn) (by decide), fun hn => absurd hs hn, fun hn => absurd (hs.symm.trans hn) (by decide)⟩

theorem Conn.OnStream.swallowStep (h : c.OnStream s e) (hs : c.state = .swallow) :
    (stepSwallow c e).1.OnStream s (stepSwallow c e).2.1 := by
  have hc : c.state ≠ .closing := by rw [hs]; decide
  have hv : c.view e = Cutter.fill e.log .swallow .swallow e.swallowed c.sbytes := by simp [Conn.view, hs]
  have hwl := h.rbuf.window_length
  have hrb := stepSwallow_ok c e h.rbuf
  unfold stepSwallow at hrb ⊢
  split_ifs at hrb ⊢ with h0 h1
  · have hi := (connSetState_ticked c { e with log := e.log ++ [.swallow e.swallowed], swallowed := [] } .read).input_eq
    simp only [Env.input, Prod.mk.injEq] at hi
    have hidle : (connSetState c { e with log := e.log ++ [.swallow e.swallowed], swallowed := [] } .read).1.Idle :=
      .inl (connSetState_state _ _ _)
    refine h.advance hc [] hrb hi.2.2.2 (hidle.frameOk hi.2.2.1) (by rw [connSetState_window _ _ h.rbuf, hi.2.1]; rfl) ?_
    rw [hidle.view, hi.1, hv]
    simp [Cutter.fill, h0]
  · dsimp only at hrb ⊢
    generalize hn : min c.rbytes c.sbytes = n at hrb ⊢
    have hnl : (c.window.take n).length = n := by simp; omega
    have hw : ({ c with sbytes := c.sbytes - n, rcurr := c.rcurr + n, rbytes := c.rbytes - n }).window =
        c.window.drop n := Conn.window_advance c n
    refine h.advance hc (c.window.take n) hrb rfl (.of_swallow hs) ?_ ?_
    · rw [hw, ← List.append_assoc, List.take_append_drop]
    · rw [hv, feed_swallow _ _ _ _ _ (by omega), hnl]; simp only [Conn.view, hs]
  · have hw0 : c.window = [] := List.eq_nil_of_length_eq_zero (by omega)
    have hlen := h.rbuf.length
    split
    · next e' b hb =>
      obtain ⟨hl, hsw', ha, hq⟩ := Env.read_spec hb
      have hb' := Env.read_bytes_le hb
      have hrb' : ({ c with rbuf := readInto c.rbuf 0 b, sbytes := c.sbytes - b.length } : Conn).RbufOk :=
        ⟨h.rbuf.window, h.rbuf.pos, by simp only; rw [readInto_length (by omega), hlen]⟩
      refine h.advance hc b hrb' ha (.of_swallow hs) ?_ ?_
      · rw [hw0, hq]; simp [Conn.window, show c.rbytes = 0 by omega, ReadOut.got]
      · rw [hv, feed_swallow _ _ _ _ _ (by omega)]; simp only [Conn.view, hs, hl, hsw']
    · next e' hb => exact h.readEagain hb
    · next e' o _ _ hb => exact h.readFails hb

/-- A send moves nothing of the read side, or closes the connection. -/
theorem transmit_spec (c : Conn) (e : Env) :
    (transmit c e).1.readView = c.readView ∧ (transmit c e).1.mode = c.mode ∧
      ((transmit c e).1.state = c.state ∨ (transmit c e).1.state = .closing) ∧ (transmit c e).2.1.input = e.input := by
  have h := skipDrained_readSide c
  simp only [Conn.readSide, Prod.mk.injEq] at h
  obtain ⟨hv, hs, hm⟩ := h
  unfold transmit; dsimp only
  generalize skipDrained c = d at hv hs hm ⊢
  split_ifs
  · split
    · split_ifs
      · exact ⟨hv, hm, .inl hs, rfl⟩
      · exact ⟨hv, hm, .inr rfl, rfl⟩
    · exact ⟨hv, hm, .inl hs, rfl⟩
    · exact ⟨hv, hm, .inr rfl, rfl⟩
  · exact ⟨hv, hm, .inl hs, rfl⟩

/-- `conn_mwrite`, and the tail of `conn_write`: the sends keep the window, and the state entered at the end reads
what the cutter expects. -/
theorem Conn.OnStream.transmitStep (h : c.OnStream s e) :
    (stepTransmit c e).1.OnStream s (stepTransmit c e).2.1 := by
  obtain ⟨hv, hm, hst, hi⟩ := transmit_spec c e
  have ht : (transmit c e).1.OnStream s (transmit c e).2.1 := by
    rcases hst with hst | hst
    · exact h.stutter (by simp only [Conn.readSide, hv, hst, hm]) hi
    · simp only [Env.input, Prod.mk.injEq] at hi
      exact h.close (h.rbuf.of_readView hv) hi.2.2.2 hst (hi.1 ▸ h.dispatched)
  unfold stepTransmit; dsimp only
  generalize transmit c e = t at ht ⊢
  split
  · split_ifs with h1 h2
    · have hc : t.1.state ≠ .closing := by rw [h1]; decide
      have hrb : ({ t.1 with icurr := t.1.icurr + t.1.ileft, ileft := 0 } : Conn).RbufOk := ht.rbuf.of_readView rfl
      have hi := ((connSetState_ticked { t.1 with icurr := t.1.icurr + t.1.ileft, ileft := 0 }
        (((t.1.ilist.drop t.1.icurr).take t.1.ileft).foldl Env.free t.2.1) .read).input_eq).trans
        (foldl_free_input _ _)
      simp only [Env.input, Prod.mk.injEq] at hi
      have hidle : (connSetState { t.1 with icurr := t.1.icurr + t.1.ileft, ileft := 0 }
          (((t.1.ilist.drop t.1.icurr).take t.1.ileft).foldl Env.free t.2.1) .read).1.Idle :=
        .inl (connSetState_state _ _ _)
      refine ht.advance hc [] (connSetState_ok _ _ hrb) hi.2.2.2
        (hidle.frameOk (hi.2.2.1.trans ((ht.frameOk hc).swallowed (by rw [h1]; decide))))
        (by rw [connSetState_window _ _ hrb, hi.2.1]; rfl) ?_
      rw [hidle.view, hi.1, Conn.Idle.view (.inr (.inl h1))]; rfl
    · have hc : t.1.state ≠ .closing := by rw [h2]; decide
      have hok := ht.frameOk hc
      have hsw := hok.swallowed (by rw [h2]; decide)
      have hrb : ({ t.1 with writeAndFree := none } : Conn).RbufOk := ht.rbuf.of_readView rfl
      have hi := (connSetState_ticked { t.1 with writeAndFree := none } t.2.1 t.1.writeAndGo).input_eq
      simp only [Env.input, Prod.mk.injEq] at hi
      have hs' := connSetState_state { t.1 with writeAndFree := none } t.2.1 t.1.writeAndGo
      rcases hok.writeAndGo h2 with hw | hw
      · have hidle : (connSetState { t.1 with writeAndFree := none } t.2.1 t.1.writeAndGo).1.Idle :=
          .inl (hs'.trans hw)
        refine ht.advance hc [] (connSetState_ok _ _ hrb) hi.2.2.2 (hidle.frameOk (hi.2.2.1.trans hsw))
          (by rw [connSetState_window _ _ hrb, hi.2.1]; rfl) ?_
        rw [hidle.view, hi.1, Conn.Idle.view (.inr (.inr (.inr ⟨h2, hw⟩)))]; rfl
      · refine ht.advance hc [] (connSetState_ok _ _ hrb) hi.2.2.2 (.of_swallow (hs'.trans hw))
          (by rw [connSetState_window _ _ hrb, hi.2.1]; rfl) ?_
        have hsb : (connSetState { t.1 with writeAndFree := none } t.2.1 t.1.writeAndGo).1.sbytes = t.1.sbytes :=
          congrArg (fun m => m.2.2.2.1) (connSetState_mode _ _ _)
        have hl : (connSetState { t.1 with writeAndFree := none } t.2.1 t.1.writeAndGo).1.view
            (connSetState { t.1 with writeAndFree := none } t.2.1 t.1.writeAndGo).2 =
              Cutter.fill t.2.1.log .swallow .swallow [] t.1.sbytes := by
          simp only [Conn.view, hs'.trans hw, hsb, hi.1, hi.2.2.1, hsw]
        rw [hl]; simp only [Conn.view, h2, hw, if_true]; rfl
    · have hi := (connSetState_ticked t.1 t.2.1 .closing).input_eq
      simp only [Env.input, Prod.mk.injEq] at hi
      exact ht.close (connSetState_ok _ _ ht.rbuf) hi.2.2.2 (connSetState_state _ _ _) (hi.1 ▸ ht.dispatched)
  · exact ht
  · exact ht

theorem Conn.OnStream.writeStep (h : c.OnStream s e) : (stepWrite c e).1.OnStream s (stepWrite c e).2.1 := by
  have ha := addIov_frame c e c.wcurr c.wbytes none
  unfold stepWrite; dsimp only
  split_ifs
  · exact (h.stutter ha.2 ha.1.input_eq).transmitStep
  · have hi := (ha.1.trans (connSetState_ticked (addIov c e c.wcurr c.wbytes none).1 _ .closing)).input_eq
    simp only [Env.input, Prod.mk.injEq] at hi
    exact h.close (connSetState_ok _ _ (h.rbuf.of_readView (congrArg Prod.fst ha.2))) hi.2.2.2
      (connSetState_state _ _ _) (hi.1 ▸ h.dispatched)
  · exact h.transmitStep

/-- **One pass of `drive_machine` keeps the read side on the stream.** -/
theorem Conn.OnStream.step {fuel : Nat} {r : Conn × Env × Next} (h : c.OnStream s e)
    (hr : driveStep fuel c e = some r) : r.1.OnStream s r.2.1 := by
  unfold driveStep at hr
  split at hr
  · cases hr; exact h.stutter rfl rfl
  · next hs => exact h.readStep hs hr
  · next hs => cases hr; exact h.nreadStep hs
  · next hs => cases hr; exact h.swallowStep hs
  · cases hr; exact h.writeStep
  · cases hr; exact h.transmitStep
  · next hs => cases hr; exact h.closingStep hs

end Passes

/-! ## Every run -/

/-- The states of a connection whose client sends the stream `s`: a connection in `conn_read` with an empty window,
on a socket with `s` to deliver, nothing dispatched yet and the allocator granting every call; then pass after pass
of `drive_machine` that meets no undefined behaviour, whatever the `read`s and the sends return. -/
inductive StreamRun (s : List Char) : Conn → Env → Prop
  | init {c : Conn} {e : Env} : c.state = .read → c.rbytes = 0 → c.RbufOk → e.inq = s → e.log = [] →
      e.swallowed = [] → (∀ n, e.allocs n = true) → e.fault = false → StreamRun s c e
  | step {c : Conn} {e : Env} (fuel : Nat) {r : Conn × Env × Next} :
      StreamRun s c e → driveStep fuel c e = some r → r.2.1.fault = false → StreamRun s r.1 r.2.1

theorem StreamRun.onStream {s : List Char} {c : Conn} {e : Env} (h : StreamRun s c e) : c.OnStream s e := by
  induction h with
  | init hs h0 hrb hq hl hw hg _ =>
    refine ⟨hrb, hg, by rw [hl]; exact List.nil_prefix, fun _ => (Conn.Idle.frameOk (.inl hs) hw), fun _ => ⟨[], ?_, ?_⟩⟩
    · simp [Conn.window, h0, hq]
    · rw [Conn.Idle.view (.inl hs), hl]; rfl
  | step _ _ hr _ ih => exact ih.step hr

/-- A call of `drive_machine` that returns with no undefined behaviour met made passes of the run. -/
theorem StreamRun.driveMachine {s : List Char} (fuel : Nat) : ∀ (n : Nat) {c : Conn} {e : Env}
    {r : Conn × Env × Next}, StreamRun s c e → driveMachine fuel n c e = some r → r.2.1.fault = false →
      StreamRun s r.1 r.2.1
  | 0, _, _, _, h, hr, _ => by cases hr; exact h
  | n + 1, c, e, r, h, hr, hf => by
    unfold Beansdb.driveMachine at hr
    split at hr
    · next c' e' heq =>
      split_ifs at hr with hfe
      · cases hr; simp only [hfe] at hf; cases hf
      · exact StreamRun.driveMachine fuel n (h.step fuel heq (by simpa using hfe)) hr hf
    · exact h.step fuel hr hf

end Beansdb
