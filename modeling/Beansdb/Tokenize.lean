import Beansdb.Basic
/-!
# Tokenize — `tokenize_command` over the command buffer

The command buffer is the line `try_read_command` cut at its `'\n'`, with the `'\0'` it wrote there; a pointer into
it is an index.  `tokenize_command` writes a `'\0'` over the space after each word it takes, so it returns the
buffer it wrote with the tokens: a token is `(value, length)`, and the terminal token has length 0 and value `none`
(NULL) exactly when the scan reached the end of the string.
-/
namespace Beansdb

/-- A `token_t`: a pointer into the command buffer (`none` is NULL) and a length. -/
structure Token where
  value  : Option Nat
  length : Nat
deriving DecidableEq, Repr

/-- The byte at index `e` of a buffer; past its end the buffer reads as its terminating `'\0'`. -/
def charAt (buf : List Char) (e : Nat) : Char := buf.getD e '\x00'

/-- The `for` loop of `tokenize_command`, with `room` tokens still allowed (`max_tokens - 1 - ntokens`), `s` the
start of the current word, `e` the byte being read and `rest` the bytes from `e` on.  It returns the buffer with the
`'\0'`s written, the tokens taken and the final `e`. -/
def tokenizeLoop : Nat → List Char → Nat → Nat → List Char → List Char × List Token × Nat
  | 0, buf, _, e, _ => (buf, [], e)
  | _ + 1, buf, s, e, [] => (buf, if s ≠ e then [⟨some s, e - s⟩] else [], e)
  | room + 1, buf, s, e, c :: rest =>
    if c = ' ' then
      if s ≠ e then
        let r := tokenizeLoop room (buf.set e '\x00') (e + 1) (e + 1) rest
        (r.1, ⟨some s, e - s⟩ :: r.2.1, r.2.2)
      else tokenizeLoop (room + 1) buf (e + 1) (e + 1) rest
    else if c = '\x00' then (buf, if s ≠ e then [⟨some s, e - s⟩] else [], e)
    else tokenizeLoop (room + 1) buf s (e + 1) rest

/-- A word ended by a `'\0'`: the scan takes it whole and stops on the `'\0'`. -/
theorem tokenizeLoop_word (room : Nat) (buf : List Char) (s : Nat) (rest : List Char) :
    ∀ (w : List Char) (e : Nat), (∀ ch ∈ w, ch ≠ ' ' ∧ ch ≠ '\x00') →
      tokenizeLoop (room + 1) buf s e (w ++ '\x00' :: rest) =
        (buf, if s ≠ e + w.length then [⟨some s, e + w.length - s⟩] else [], e + w.length)
  | [], e, _ => by simp [tokenizeLoop]
  | ch :: w, e, hw => by
    obtain ⟨h1, h2⟩ := hw ch (List.mem_cons_self ch w)
    rw [List.cons_append, tokenizeLoop, if_neg h1, if_neg h2,
      tokenizeLoop_word room buf s rest w (e + 1) (fun x hx => hw x (List.mem_cons_of_mem ch hx))]
    simp only [List.length_cons]
    rw [show e + 1 + w.length = e + (w.length + 1) by omega]

/-- `tokenize_command (command, tokens, max_tokens)` with `command` at index `p`: the written buffer and the
`ntokens` tokens, the last of them the terminal one. -/
def tokenizeCommand (buf : List Char) (p maxTok : Nat) : List Char × List Token :=
  let r := tokenizeLoop (maxTok - 1) buf p p (buf.drop p)
  (r.1, r.2.1 ++ [⟨if charAt r.1 r.2.2 = '\x00' then none else some r.2.2, 0⟩])

/-- Tokenizing from a word the scan has already ended with a `'\0'` gives that word alone and a NULL terminal. -/
theorem tokenizeCommand_word {buf w : List Char} {v : Nat}
    (hbuf : buf.drop v = w ++ '\x00' :: buf.drop (v + w.length + 1)) (hw : ∀ ch ∈ w, ch ≠ ' ' ∧ ch ≠ '\x00') (hne : w ≠ []) :
    tokenizeCommand buf v maxTokens = (buf, [⟨some v, w.length⟩, ⟨none, 0⟩]) := by
  have hend : charAt buf (v + w.length) = '\x00' := by
    rw [charAt, List.getD_eq_getElem?_getD, ← List.getElem?_drop, hbuf, List.getElem?_append_right le_rfl]
    simp
  have hv : v ≠ v + w.length := by have := List.length_pos.2 hne; omega
  simp only [tokenizeCommand, maxTokens]
  rw [hbuf, tokenizeLoop_word 6 buf v _ w v hw]
  simp [hv, hend]

/-- The bytes of a token, read from the buffer. -/
def tokBytes (buf : List Char) (t : Token) : List Char :=
  match t.value with
  | none => []
  | some v => (buf.drop v).take t.length

/-- The token at index `i` of a `token_t` array, the sentinel past its end. -/
def tokAt (toks : List Token) (i : Nat) : Token := toks.getD i ⟨none, 0⟩

end Beansdb
