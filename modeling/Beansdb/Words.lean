import Beansdb.Tokenize
/-!
# Words — the words `tokenize_command` takes

`words` says what the words of a C string are: its maximal runs of bytes other than `' '`, up to its first `'\0'`.
The scan of `tokenize_command` takes them in order: the tokens it returns name the first words and the bytes from
where it stopped hold the rest (`tokenizeLoop_words`), and it stops with room left only at the end of the string
(`tokenizeLoop_tokens`).  Read as `process_get_command` reads it, a chunk of tokens then names every word of the
string, its terminal's value being where the next chunk starts (`tokenizeCommand_chunk`).
-/
namespace Beansdb

/-- The words of a C string, `cur` being the word begun before it. -/
def wordsAux (cur : List Char) : List Char → List (List Char)
  | [] => if cur = [] then [] else [cur]
  | c :: s =>
    if c = ' ' then (if cur = [] then wordsAux [] s else cur :: wordsAux [] s)
    else if c = '\x00' then (if cur = [] then [] else [cur])
    else wordsAux (cur ++ [c]) s

/-- The words of a C string: its maximal runs of bytes other than `' '`, up to its first `'\0'`. -/
def words (s : List Char) : List (List Char) := wordsAux [] s

theorem words_nil : words [] = [] := rfl

theorem words_nul (s : List Char) : words ('\x00' :: s) = [] := by simp [words, wordsAux]

/-- The `'\0'` `process_command` puts after a line ends its words where the line does. -/
theorem wordsAux_append_nul : ∀ (cur l : List Char), wordsAux cur (l ++ ['\x00']) = wordsAux cur l
  | cur, [] => by simp [wordsAux]
  | cur, c :: l => by
    rw [List.cons_append, wordsAux, wordsAux, wordsAux_append_nul [] l, wordsAux_append_nul (cur ++ [c]) l]

theorem words_append_nul (l : List Char) : words (l ++ ['\x00']) = words l := wordsAux_append_nul [] l

/-- Past a `'\0'` a buffer has no words. -/
theorem words_drop_of_charAt {buf : List Char} {e : Nat} (h : charAt buf e = '\x00') : words (buf.drop e) = [] := by
  rw [charAt, List.getD_eq_getElem?_getD] at h
  rcases Nat.lt_or_ge e buf.length with he | he
  · rw [List.getElem?_eq_getElem he, Option.getD_some] at h
    rw [List.drop_eq_getElem_cons he, h, words_nul]
  · rw [List.drop_eq_nil_of_le he, words_nil]

/-- The words a scan's result accounts for: those its tokens name, then those of the bytes from where it stopped. -/
def scanWords (r : List Char × List Token × Nat) : List (List Char) :=
  r.2.1.map (tokBytes r.1) ++ words (r.1.drop r.2.2)

theorem take_of_take_succ {a b : List Char} {e : Nat} (h : a.take (e + 1) = b.take (e + 1)) : a.take e = b.take e := by
  simpa [List.take_take] using congrArg (List.take e) h

/-- The scan writes only at or after `e`, and keeps the buffer's length. -/
theorem tokenizeLoop_take (rest : List Char) : ∀ (room : Nat) (buf : List Char) (s e : Nat),
    (tokenizeLoop room buf s e rest).1.take e = buf.take e ∧ (tokenizeLoop room buf s e rest).1.length = buf.length := by
  induction rest with
  | nil => intro room buf s e; cases room <;> exact ⟨rfl, rfl⟩
  | cons c rest ih =>
    intro room buf s e
    cases room with
    | zero => exact ⟨rfl, rfl⟩
    | succ room =>
      simp only [tokenizeLoop]
      split_ifs <;> try exact ⟨rfl, rfl⟩
      · obtain ⟨h1, h2⟩ := ih room (buf.set e '\x00') (e + 1) (e + 1)
        refine ⟨(take_of_take_succ h1).trans ?_, h2.trans (List.length_set _ _ _)⟩
        rw [List.set_take, List.set_eq_of_length_le (List.length_take_le _ _)]
      · obtain ⟨h1, h2⟩ := ih (room + 1) buf (e + 1) (e + 1)
        exact ⟨take_of_take_succ h1, h2⟩
      · obtain ⟨h1, h2⟩ := ih (room + 1) buf s (e + 1)
        exact ⟨take_of_take_succ h1, h2⟩

/-- The word begun at `s` and read up to `e`, one byte longer. -/
theorem take_drop_succ {buf rest : List Char} {s e : Nat} {c : Char} (h : buf.drop e = c :: rest) (hs : s ≤ e) :
    (buf.drop s).take (e + 1 - s) = (buf.drop s).take (e - s) ++ [c] := by
  have hc : buf[e]? = some c := by rw [← List.head?_drop, h]; rfl
  rw [show e + 1 - s = e - s + 1 by omega, List.take_succ, List.getElem?_drop, Nat.add_sub_cancel' hs, hc]
  rfl

theorem charAt_of_drop {buf rest : List Char} {e : Nat} {c : Char} (h : buf.drop e = c :: rest) : charAt buf e = c := by
  rw [charAt, List.getD_eq_getElem?_getD, ← List.head?_drop, h]; rfl

theorem charAt_of_drop_nil {buf : List Char} {e : Nat} (h : buf.drop e = []) : charAt buf e = '\x00' := by
  rw [charAt, List.getD_eq_getElem?_getD, List.getElem?_eq_none (List.drop_eq_nil_iff.1 h)]; rfl

/-- The bytes `e` reaches are inside the buffer. -/
theorem lt_length_of_drop {buf rest : List Char} {e : Nat} {c : Char} (h : buf.drop e = c :: rest) :
    e < buf.length := by
  have := congrArg List.length h
  simp only [List.length_drop, List.length_cons] at this
  omega

/-- **The scan takes the words in order.**  From a word begun at `s` and read up to `e`, the tokens the scan returns
name the first words and the bytes from where it stopped hold the rest. -/
theorem tokenizeLoop_words (rest : List Char) : ∀ (room : Nat) (buf : List Char) (s e : Nat),
    buf.drop e = rest → s ≤ e → e ≤ buf.length → (room = 0 → s = e) →
    scanWords (tokenizeLoop room buf s e rest) = wordsAux ((buf.drop s).take (e - s)) rest := by
  induction rest with
  | nil =>
    intro room buf s e hr hs hb h0
    have hcur : (buf.drop s).take (e - s) = [] ↔ s = e := by
      rw [← List.length_eq_zero, List.length_take, List.length_drop]; omega
    cases room with
    | zero => simp [tokenizeLoop, scanWords, hr, h0 rfl, words, wordsAux]
    | succ room =>
      by_cases he : s = e
      · simp [tokenizeLoop, scanWords, hr, he, words, wordsAux]
      · simp [tokenizeLoop, scanWords, hr, he, hcur, tokBytes, words, wordsAux]
  | cons c rest ih =>
    intro room buf s e hr hs hb h0
    have he := lt_length_of_drop hr
    have hcur : (buf.drop s).take (e - s) = [] ↔ s = e := by
      rw [← List.length_eq_zero, List.length_take, List.length_drop]; omega
    cases room with
    | zero => simp [tokenizeLoop, scanWords, hr, h0 rfl, words]
    | succ room =>
      have hr' : buf.drop (e + 1) = rest := by rw [← List.drop_drop, hr]; rfl
      by_cases hsp : c = ' '
      · subst hsp
        by_cases hse : s = e
        · -- a space before a word
          have ih' := ih (room + 1) buf (e + 1) (e + 1) hr' le_rfl he (fun h => absurd h (Nat.succ_ne_zero _))
          rw [Nat.sub_self, List.take_zero] at ih'
          subst hse
          simp only [tokenizeLoop, if_true, ne_eq, not_true_eq_false, if_false]
          rw [ih', wordsAux, if_pos rfl, Nat.sub_self, List.take_zero, if_pos rfl]
        · -- a space after a word: its token, and the scan goes on with one token less
          have hset : (buf.set e '\x00').drop (e + 1) = rest := by rw [List.drop_set_of_lt _ _ (by omega), hr']
          have ih' := ih room (buf.set e '\x00') (e + 1) (e + 1) hset le_rfl (by simp; omega) (fun _ => rfl)
          rw [Nat.sub_self, List.take_zero] at ih'
          have hpre := take_of_take_succ (tokenizeLoop_take rest room (buf.set e '\x00') (e + 1) (e + 1)).1
          rw [List.set_take, List.set_eq_of_length_le (List.length_take_le _ _)] at hpre
          have htok : tokBytes (tokenizeLoop room (buf.set e '\x00') (e + 1) (e + 1) rest).1 ⟨some s, e - s⟩ =
              (buf.drop s).take (e - s) := by
            show List.take (e - s) (List.drop s _) = _
            rw [List.take_drop, List.take_drop, Nat.add_sub_cancel' hs, hpre]
          simp only [tokenizeLoop, if_true, ne_eq, hse, not_false_eq_true, if_true]
          rw [scanWords] at ih' ⊢
          simp only [List.map_cons, List.cons_append, htok, ih', wordsAux, if_true, if_neg (mt hcur.1 hse)]
      · by_cases hnul : c = '\x00'
        · -- the end of the string
          subst hnul
          simp only [tokenizeLoop, if_neg hsp, if_true]
          by_cases hse : s = e
          · simp [scanWords, hr, hse, words_nul, wordsAux]
          · simp [scanWords, hr, hse, words_nul, tokBytes, wordsAux, hcur]
        · -- a byte of a word
          simp only [tokenizeLoop, if_neg hsp, if_neg hnul]
          rw [ih (room + 1) buf s (e + 1) hr' (by omega) he (fun h => absurd h (Nat.succ_ne_zero _)),
            take_drop_succ hr hs, wordsAux, if_neg hsp, if_neg hnul]

/-- Where the scan stops, on a `'\0'` or at the end of the string, the word it was in ends on that `'\0'`. -/
theorem tokenizeLoop_stop_tokens {buf : List Char} {s e : Nat} (room : Nat) (hs : s ≤ e) (hb : e ≤ buf.length)
    (hend : charAt buf e = '\x00') :
    (if s ≠ e then [(⟨some s, e - s⟩ : Token)] else []).length ≤ room + 1 ∧
    ((if s ≠ e then [(⟨some s, e - s⟩ : Token)] else []).length < room + 1 → charAt buf e = '\x00') ∧
    ∀ t ∈ (if s ≠ e then [(⟨some s, e - s⟩ : Token)] else []), ∃ v, t.value = some v ∧ t.length ≠ 0 ∧
      v + t.length ≤ buf.length ∧ charAt buf (v + t.length) = '\x00' := by
  refine ⟨by split_ifs <;> simp, fun _ => hend, fun t ht => ?_⟩
  split_ifs at ht with hse
  · obtain rfl := List.mem_singleton.1 ht
    refine ⟨s, rfl, by dsimp only; omega, by dsimp only; omega, ?_⟩
    rwa [Nat.add_sub_cancel' hs]
  · exact absurd ht (List.not_mem_nil t)

/-- **The scan's tokens.**  There are at most `room` of them, fewer only when the scan reached the end of the string;
each names a non-empty run of bytes inside the buffer, followed by a `'\0'`. -/
theorem tokenizeLoop_tokens (rest : List Char) : ∀ (room : Nat) (buf : List Char) (s e : Nat),
    buf.drop e = rest → s ≤ e → e ≤ buf.length →
    (tokenizeLoop room buf s e rest).2.1.length ≤ room ∧
    ((tokenizeLoop room buf s e rest).2.1.length < room →
      charAt (tokenizeLoop room buf s e rest).1 (tokenizeLoop room buf s e rest).2.2 = '\x00') ∧
    ∀ t ∈ (tokenizeLoop room buf s e rest).2.1, ∃ v, t.value = some v ∧ t.length ≠ 0 ∧
      v + t.length ≤ (tokenizeLoop room buf s e rest).1.length ∧
      charAt (tokenizeLoop room buf s e rest).1 (v + t.length) = '\x00' := by
  induction rest with
  | nil =>
    intro room buf s e hr hs hb
    have hend := charAt_of_drop_nil hr
    cases room with
    | zero => simp [tokenizeLoop]
    | succ room => exact tokenizeLoop_stop_tokens room hs hb hend
  | cons c rest ih =>
    intro room buf s e hr hs hb
    have he := lt_length_of_drop hr
    have hr' : buf.drop (e + 1) = rest := by rw [← List.drop_drop, hr]; rfl
    cases room with
    | zero => simp [tokenizeLoop]
    | succ room =>
      by_cases hsp : c = ' '
      · subst hsp
        by_cases hse : s = e
        · subst hse
          simp only [tokenizeLoop, if_true, ne_eq, not_true_eq_false, if_false]
          exact ih (room + 1) buf (s + 1) (s + 1) hr' le_rfl he
        · have hset : (buf.set e '\x00').drop (e + 1) = rest := by rw [List.drop_set_of_lt _ _ (by omega), hr']
          obtain ⟨h1, h2, h3⟩ := ih room (buf.set e '\x00') (e + 1) (e + 1) hset le_rfl (by simp; omega)
          obtain ⟨hpre, hlen⟩ := tokenizeLoop_take rest room (buf.set e '\x00') (e + 1) (e + 1)
          have hnul : charAt (tokenizeLoop room (buf.set e '\x00') (e + 1) (e + 1) rest).1 e = '\x00' := by
            have := congrArg (fun l : List Char => l[e]?) hpre
            simp only [List.getElem?_take, show e < e + 1 by omega, if_true] at this
            simp [charAt, this, List.getElem?_set_self (show e < buf.length from he)]
          simp only [tokenizeLoop, if_true, ne_eq, hse, not_false_eq_true]
          refine ⟨by simp; omega, fun h => h2 (by simpa using h), fun t ht => ?_⟩
          rcases List.mem_cons.1 ht with rfl | ht
          · exact ⟨s, rfl, by simp; omega, by simp [Nat.add_sub_cancel' hs, hlen]; omega,
              by simpa [Nat.add_sub_cancel' hs]⟩
          · exact h3 t ht
      · by_cases hnul : c = '\x00'
        · subst hnul
          have hend := charAt_of_drop hr
          simp only [tokenizeLoop, if_neg hsp, if_true]
          exact tokenizeLoop_stop_tokens room hs hb hend
        · simp only [tokenizeLoop, if_neg hsp, if_neg hnul]
          exact ih (room + 1) buf s (e + 1) hr' (by omega) he

/-- The words a run of tokens names as `process_get_command` reads it: each token's bytes up to the first token of
length 0, then, if that one has a value, the words from there on.  Past the array the sentinel names none. -/
def chunkWords (buf : List Char) : List Token → List (List Char)
  | [] => []
  | t :: ts =>
    if t.length ≠ 0 then tokBytes buf t :: chunkWords buf ts
    else match t.value with
      | some v => words (buf.drop v)
      | none => []

theorem chunkWords_drop (buf : List Char) (toks : List Token) (k : Nat) :
    chunkWords buf (toks.drop k) = chunkWords buf (tokAt toks k :: toks.drop (k + 1)) := by
  rcases Nat.lt_or_ge k toks.length with hk | hk
  · rw [List.drop_eq_getElem_cons hk, tokAt, List.getD_eq_getElem?_getD, List.getElem?_eq_getElem hk]; rfl
  · rw [List.drop_eq_nil_of_le hk, List.drop_eq_nil_of_le (by omega), tokAt,
      List.getD_eq_getElem?_getD, List.getElem?_eq_none hk]
    rfl

/-- A chunk's tokens point into its buffer: a token of non-zero length is a C string, its bytes followed by a `'\0'`,
and a value with its length stays inside the buffer. -/
def TokensIn (buf : List Char) (toks : List Token) : Prop :=
  ∀ t ∈ toks, (t.length ≠ 0 → ∃ v, t.value = some v ∧ charAt buf (v + t.length) = '\x00') ∧
    ∀ v, t.value = some v → v + t.length ≤ buf.length

theorem TokensIn.tokAt {buf : List Char} {toks : List Token} (h : TokensIn buf toks) (k : Nat) :
    ((tokAt toks k).length ≠ 0 → ∃ v, (tokAt toks k).value = some v ∧ charAt buf (v + (tokAt toks k).length) = '\x00') ∧
      ∀ v, (tokAt toks k).value = some v → v + (tokAt toks k).length ≤ buf.length := by
  rw [Beansdb.tokAt, List.getD_eq_getElem?_getD]
  rcases Nat.lt_or_ge k toks.length with hk | hk
  · rw [List.getElem?_eq_getElem hk]; exact h _ (List.getElem_mem hk)
  · rw [List.getElem?_eq_none hk]; simp

/-- A token inside the buffer names as many bytes as its length says. -/
theorem tokBytes_length {buf : List Char} {t : Token} {v : Nat} (hv : t.value = some v)
    (hin : v + t.length ≤ buf.length) : (tokBytes buf t).length = t.length := by
  simp only [tokBytes, hv, List.length_take, List.length_drop]; omega

theorem chunkWords_append {buf : List Char} {toks : List Token} (h : ∀ t ∈ toks, t.length ≠ 0) (rest : List Token) :
    chunkWords buf (toks ++ rest) = toks.map (tokBytes buf) ++ chunkWords buf rest := by
  induction toks with
  | nil => rfl
  | cons t toks ih =>
    rw [List.cons_append, chunkWords, if_pos (h t (List.mem_cons_self _ _)), List.map_cons,
      ih (fun x hx => h x (List.mem_cons_of_mem _ hx))]
    rfl

theorem lt_length_of_charAt {buf : List Char} {e : Nat} (h : charAt buf e ≠ '\x00') : e < buf.length := by
  by_contra hn
  exact h (charAt_of_drop_nil (List.drop_eq_nil_of_le (Nat.le_of_not_lt hn)))

/-- **A chunk names every word from where it was tokenized.**  `tokenize_command` from `p` returns a chunk that
points into the buffer it wrote.  Read as the get loop reads it, the chunk names the words of the string from `p`;
its first token is NULL when there is no word and a word when there is one; and it holds `MAX_TOKENS - 1` words or
all of them. -/
theorem tokenizeCommand_chunk (buf : List Char) (p : Nat) (hp : p ≤ buf.length) :
    chunkWords (tokenizeCommand buf p maxTokens).1 (tokenizeCommand buf p maxTokens).2 = words (buf.drop p) ∧
    TokensIn (tokenizeCommand buf p maxTokens).1 (tokenizeCommand buf p maxTokens).2 ∧
    (words (buf.drop p) = [] → (tokAt (tokenizeCommand buf p maxTokens).2 0).value = none) ∧
    (words (buf.drop p) ≠ [] → (tokAt (tokenizeCommand buf p maxTokens).2 0).length ≠ 0) ∧
    min (words (buf.drop p)).length (maxTokens - 1) < (tokenizeCommand buf p maxTokens).2.length ∧
    (tokenizeCommand buf p maxTokens).1.length = buf.length := by
  obtain ⟨hlen, hshort, htoks⟩ := tokenizeLoop_tokens (buf.drop p) (maxTokens - 1) buf p p rfl le_rfl hp
  have hw := tokenizeLoop_words (buf.drop p) (maxTokens - 1) buf p p rfl le_rfl hp (fun _ => rfl)
  have hbuf := (tokenizeLoop_take (buf.drop p) (maxTokens - 1) buf p p).2
  rw [Nat.sub_self, List.take_zero, ← words] at hw
  simp only [tokenizeCommand]
  generalize tokenizeLoop (maxTokens - 1) buf p p (buf.drop p) = r at hlen hshort htoks hw hbuf
  obtain ⟨b, toks, e⟩ := r
  simp only at hlen hshort htoks hw hbuf
  have hpos : ∀ t ∈ toks, t.length ≠ 0 := fun t ht => (htoks t ht).choose_spec.2.1
  have hterm : chunkWords b [⟨if charAt b e = '\x00' then none else some e, 0⟩] = words (b.drop e) := by
    by_cases hc : charAt b e = '\x00'
    · simp [chunkWords, hc, words_drop_of_charAt hc]
    · simp [chunkWords, hc]
  have hchunk : chunkWords b (toks ++ [⟨if charAt b e = '\x00' then none else some e, 0⟩]) = words (buf.drop p) := by
    rw [chunkWords_append hpos, hterm, ← hw, scanWords]
  refine ⟨hchunk, ?_, ?_, ?_, ?_, hbuf⟩
  · -- every token points into the written buffer
    intro t ht
    rcases List.mem_append.1 ht with ht | ht
    · obtain ⟨v, hv, -, hin, hnul⟩ := htoks t ht
      exact ⟨fun _ => ⟨v, hv, hnul⟩, fun w hw => by rw [hv] at hw; cases hw; exact hin⟩
    · rw [List.mem_singleton.1 ht]
      refine ⟨fun h => absurd rfl h, fun v hv => ?_⟩
      by_cases hc : charAt b e = '\x00'
      · simp [hc] at hv
      · simp only [hc, if_false, Option.some.injEq] at hv
        subst hv
        exact Nat.le_of_lt (lt_length_of_charAt hc)
  · -- with no word the scan stopped at the end, on a NULL terminal
    intro hemp
    cases toks with
    | nil => simp [tokAt, hshort (by simp [maxTokens])]
    | cons t toks =>
      rw [← hchunk] at hemp
      simp [chunkWords, hpos t (List.mem_cons_self _ _)] at hemp
  · -- with a word the first token is one
    intro hne
    cases toks with
    | nil =>
      rw [← hchunk] at hne
      simp [chunkWords, hshort (by simp [maxTokens])] at hne
    | cons t toks => simpa [tokAt] using hpos t (List.mem_cons_self _ _)
  · -- a chunk short of its room holds every word
    have hwl : (words (buf.drop p)).length = toks.length + (words (b.drop e)).length := by
      rw [← hw, scanWords, List.length_append, List.length_map]
    simp only [List.length_append, List.length_singleton]
    by_cases hc : toks.length < maxTokens - 1
    · rw [words_drop_of_charAt (hshort hc)] at hwl
      simp only [List.length_nil, Nat.add_zero] at hwl
      omega
    · omega

/-! ## The contract of one chunk -/

/-- What `tokenize_command` returns from `p`, read against the words of the string from there: the tokens `toks`
before the terminal are at most `MAX_TOKENS - 1` non-empty words, the next ones in order.  A NULL terminal (`tv`) means
the scan reached the end of the string with every word taken; a terminal that points at `v` comes after a full chunk,
at a byte that does not end the string, and the words from `v` are the rest. -/
def ChunkOk (buf : List Char) (p : Nat) (b : List Char) (toks : List Token) : Option Nat → Prop
  | none => toks.length ≤ maxTokens - 1 ∧ (∀ t ∈ toks, t.length ≠ 0) ∧ words (buf.drop p) = toks.map (tokBytes b)
  | some v => toks.length = maxTokens - 1 ∧ (∀ t ∈ toks, t.length ≠ 0) ∧ charAt b v ≠ '\x00' ∧
      words (buf.drop p) = toks.map (tokBytes b) ++ words (b.drop v)

/-- **One chunk of `tokenize_command`.**  It returns at most `MAX_TOKENS` tokens: the words it took, then a terminal
of length 0 that is NULL exactly when the scan reached the end of the string, and otherwise points at the first byte
the scan left, where the rest of the words start. -/
theorem tokenizeCommand_spec (buf : List Char) (p : Nat) (hp : p ≤ buf.length) :
    ∃ toks tv, (tokenizeCommand buf p maxTokens).2 = toks ++ [⟨tv, 0⟩] ∧
      ChunkOk buf p (tokenizeCommand buf p maxTokens).1 toks tv := by
  obtain ⟨hlen, hshort, htoks⟩ := tokenizeLoop_tokens (buf.drop p) (maxTokens - 1) buf p p rfl le_rfl hp
  have hw := tokenizeLoop_words (buf.drop p) (maxTokens - 1) buf p p rfl le_rfl hp (fun _ => rfl)
  rw [Nat.sub_self, List.take_zero, ← words] at hw
  simp only [tokenizeCommand]
  generalize tokenizeLoop (maxTokens - 1) buf p p (buf.drop p) = r at hlen hshort htoks hw
  obtain ⟨b, toks, e⟩ := r
  simp only [scanWords] at hlen hshort htoks hw
  have hpos : ∀ t ∈ toks, t.length ≠ 0 := fun t ht => (htoks t ht).choose_spec.2.1
  refine ⟨toks, _, rfl, ?_⟩
  by_cases hc : charAt b e = '\x00'
  · rw [if_pos hc]
    exact ⟨hlen, hpos, by rw [← hw, words_drop_of_charAt hc, List.append_nil]⟩
  · rw [if_neg hc]
    exact ⟨by by_contra h; exact hc (hshort (by omega)), hpos, hc, hw.symm⟩

end Beansdb
