import Beansdb.GetReply
import Beansdb.Stream
import Beansdb.World
/-!
# Pipeline — a get line in `conn_read`, and fuel

A client may send many command lines at once.  `try_read_command` takes them one at a time from the window, and
`process_command` builds a get's whole reply while the connection is in `conn_read`: on a line of keys of at most
`MAX_KEY_LEN` bytes, with the allocator granting, it enters `conn_mwrite` with the line's `VALUE` blocks and `END`
queued and nothing sent (`processCommand_getLine`).  `Answer` builds the server answering in order on it.

A get's key loop runs on fuel; a loop that ended within some fuel ends the same way given more
(`processCommand_add_fuel`), so a pass that took a get line took it whole.  A pass that closes sends nothing more
(`stepTransmit_outq_of_closing`).
-/
namespace Beansdb

/-! ## A command that ends within its fuel ends the same way given more -/
theorem processGetCommand_add_fuel (k : Nat) {fuel : Nat} {c : Conn} {e : Env} {buf : List Char} {toks : List Token}
    {r : Conn × Env} (h : processGetCommand fuel c e buf toks = some r) :
    processGetCommand (fuel + k) c e buf toks = some r := by
  unfold processGetCommand at h ⊢
  split at h
  · cases h
  · next s hs => rw [getLoop_add_fuel k _ _ hs]; exact h
  · next s t hs => rw [getLoop_add_fuel k _ _ hs]; exact h

theorem dispatch_add_fuel (k : Nat) {fuel : Nat} {c : Conn} {e : Env} {buf : List Char} {toks : List Token}
    {r : Conn × Env} (h : dispatch fuel c e buf toks = some r) : dispatch (fuel + k) c e buf toks = some r := by
  unfold dispatch at h ⊢; dsimp only at h ⊢
  by_cases hg : 3 ≤ toks.length ∧ streq (tokStr buf (tokAt toks 0)) "get" = true
  · rw [if_pos hg] at h ⊢; exact processGetCommand_add_fuel k h
  · rw [if_neg hg] at h ⊢; exact h

/-- A command that `process_command` finished within `fuel` passes of a get's key loop it finishes the same way given
more. -/
theorem processCommand_add_fuel (k : Nat) {fuel : Nat} {c : Conn} {e : Env} {line : List Char} {r : Conn × Env}
    (h : processCommand fuel c e line = some r) : processCommand (fuel + k) c e line = some r := by
  unfold processCommand at h ⊢; dsimp only at h ⊢
  generalize addMsghdr { c with msgcurr := 0, msgused := 0, iovused := 0 }
    { e with log := e.log ++ [.command line] } = a at h ⊢
  obtain ⟨_ | c', e'⟩ := a
  · exact h
  · exact dispatch_add_fuel k h

/-! ## A pass that closes -/

theorem transmit_outq_of_closing {c : Conn} {e : Env} (hs : c.state ≠ .closing)
    (h : (transmit c e).1.state = .closing) : (transmit c e).2.1.outq = e.outq := by
  have hd := Conn.state_eq_of_readSide (skipDrained_readSide c)
  revert h
  unfold transmit; dsimp only
  split_ifs
  · split
    · split_ifs
      · exact fun h => absurd (hd.symm.trans h) hs
      · exact fun _ => rfl
    · exact fun h => absurd (hd.symm.trans h) hs
    · exact fun _ => rfl
  · exact fun h => absurd (hd.symm.trans h) hs

/-- A pass of `conn_mwrite` that closes sent nothing: `sendmsg` failed. -/
theorem stepTransmit_outq_of_closing {c : Conn} (h : c.TxOk) (hs : c.state = .mwrite) (e : Env)
    (hc : (stepTransmit c e).1.state = .closing) : (stepTransmit c e).2.1.outq = e.outq := by
  unfold stepTransmit at hc ⊢; dsimp only at hc ⊢
  rcases transmit_tx h e with ⟨hr, -, hst, -⟩ | ⟨hr, hst, -⟩ | ⟨hr, hst⟩
  · rw [hr] at hc; dsimp only at hc
    rw [if_pos (hst.trans hs), connSetState_state] at hc; cases hc
  · rcases hr with hr | hr <;> rw [hr] at hc <;> (dsimp only at hc; rw [hst, hs] at hc; cases hc)
  · rw [hr]; exact transmit_outq_of_closing (by rw [hs]; decide) hst

/-! ## A get line -/

/-- A command line of `get` and one or more keys, each of at most `MAX_KEY_LEN` bytes. -/
def GetLine (line : List Char) : Prop :=
  (words line).head? = some "get".toList ∧ (words line).tail ≠ [] ∧ ∀ k ∈ (words line).tail, k.length ≤ maxKeyLen

instance (line : List Char) : Decidable (GetLine line) := inferInstanceAs (Decidable (_ ∧ _ ∧ _))

theorem GetLine.words_eq {line : List Char} (h : GetLine line) : words line = "get".toList :: (words line).tail := by
  have h1 := h.1
  revert h1
  cases words line with
  | nil => exact nofun
  | cons w ws => intro h1; cases Option.some.inj h1; rfl

/-- **`process_command` on a get line, every allocation granted**: it records the line, enters `conn_mwrite` with
the reply `getResponse` names ready to send, and sends nothing; the store is only read. -/
theorem processCommand_getLine {fuel : Nat} {c : Conn} {e : Env} {line : List Char} {r : Conn × Env}
    (hl : GetLine line) (hs : c.state = .read) (hg : e.Grants) (hr : processCommand fuel c e line = some r) :
    r.1.state = .mwrite ∧ r.1.TxOk ∧ r.1.unsent = getResponse e.store (words line).tail ∧ r.2.outq = e.outq ∧
      r.2.store = e.store ∧ r.2.log = e.log ++ [.command line] := by
  have hlog : r.2.log = e.log ++ [.command line] := congrArg Prod.fst (processCommand_arms hs hg hr).1
  have hw := hl.words_eq
  obtain ⟨-, hn, hk⟩ := hl
  generalize (words line).tail = keys at hw hn hk ⊢
  have hr' := processCommand_add_fuel (2 * keys.length + 2) hr
  obtain ⟨c₁, hadd, hi₁, hm₁, hp₁⟩ := addMsghdr_grants { c with msgcurr := 0, msgused := 0, iovused := 0 }
    { e with log := e.log ++ [.command line] } hg (Conn.IovOk.reset c)
  have ht₁ := addMsghdr_ticked { c with msgcurr := 0, msgused := 0, iovused := 0 }
    { e with log := e.log ++ [.command line] }
  generalize (addMsghdr { c with msgcurr := 0, msgused := 0, iovused := 0 }
    { e with log := e.log ++ [.command line] }).2 = e₁ at hadd ht₁
  unfold processCommand at hr'; dsimp only at hr'
  rw [hadd] at hr'; dsimp only at hr'
  obtain ⟨hin, hch, hstr, h3⟩ := getLine_chunk hw
  generalize tokenizeCommand (line ++ ['\x00']) 0 maxTokens = t at hin hch hstr h3 hr'
  unfold dispatch at hr'; dsimp only at hr'
  rw [if_pos ⟨h3 hn, hstr⟩] at hr'
  have hb : GetSt.Building ⟨c₁, e₁, t.1, t.2, 1, 0, 0, 0, 0⟩ :=
    ⟨hi₁, by rw [hm₁]; exact Nat.succ_ne_zero _,
      (show Env.Grants { e with log := e.log ++ [.command line] } from hg).ticked ht₁⟩
  obtain ⟨c', e', hp, hst, hcur, hiov, hpend, hout, -⟩ :=
    processGetCommand_grants (fuel + (2 * keys.length + 2)) c₁ e₁ t.1 t.2 hb hin (hch ▸ hk) (by rw [hch]; omega)
  have hse := processGetCommand_store _ _ _ _ _ hp
  rw [hp] at hr'
  cases hr'
  obtain ⟨htx, hun⟩ := hiov.txOk hcur
  rw [hch, ht₁.store_eq] at hpend
  refine ⟨hst, htx, ?_, by rw [hout, ht₁.outq_eq], by rw [hse, ht₁.store_eq], hlog⟩
  rw [hun, hpend, hp₁, Conn.pending_reset, List.nil_append]

end Beansdb
