import Beansdb.Machine
/-!
# Cut — the stream a client sends, cut at once

What the read path of `drive_machine` is for, with no buffer in sight: the bytes of the stream are cut into command
lines, each ending at its first `'\n'` (a `'\r'` before the `'\n'` goes when the line has more than one byte), and
after a command line into the body, or the bytes to throw away, that the line asked for.  `cutStream` reads the
stream byte by byte; a `Cutter` is where it stands.  Cutting `s ++ t` is cutting `t` from where cutting `s` stopped
(`cutStream_append`), a line is cut at its `'\n'` (`feed_line`), and a body or a swallow takes bytes until it has its
count (`feed_fill`).
-/
namespace Beansdb

/-- What the reader takes next from the stream: a command line, a body of `n` bytes, or `n` bytes to throw away. -/
inductive Frame where
  | line | body (n : Nat) | swallow (n : Nat)
deriving DecidableEq, Repr

/-- The command line of the bytes before a `'\n'`: a `'\r'` before the `'\n'` goes when there is more than one byte. -/
def lineOf (pre : List Char) : List Char :=
  if 1 < pre.length ∧ pre.getLast? = some '\r' then pre.dropLast else pre

/-- A reader of the stream: the events it dispatched, the frame it reads and the bytes of that frame it took. -/
structure Cutter where
  events : List Event
  frame  : Frame
  held   : List Char
deriving DecidableEq, Repr

/-- A body or a swallow (`f`, dispatched as `ev`) holding `held`, with `missing` bytes to come: over when none are. -/
def Cutter.fill (evs : List Event) (f : Nat → Frame) (ev : List Char → Event) (held : List Char)
    (missing : Nat) : Cutter :=
  if missing = 0 then ⟨evs ++ [ev held], .line, []⟩ else ⟨evs, f (held.length + missing), held⟩

/-- Entering the frame `f` after the events `evs`. -/
def Cutter.enter (evs : List Event) : Frame → Cutter
  | .line => ⟨evs, .line, []⟩
  | .body n => Cutter.fill evs .body .body [] n
  | .swallow n => Cutter.fill evs .swallow .swallow [] n

/-- One byte of the stream; `next l` is the frame the command line `l` asks for. -/
def Cutter.push (next : List Char → Frame) (r : Cutter) (ch : Char) : Cutter :=
  match r.frame with
  | .line =>
    if ch = '\n' then Cutter.enter (r.events ++ [.command (lineOf r.held)]) (next (lineOf r.held))
    else { r with held := r.held ++ [ch] }
  | .body n => Cutter.fill r.events .body .body (r.held ++ [ch]) (n - (r.held.length + 1))
  | .swallow n => Cutter.fill r.events .swallow .swallow (r.held ++ [ch]) (n - (r.held.length + 1))

/-- The bytes `s`, one after the other. -/
def Cutter.feed (next : List Char → Frame) (r : Cutter) (s : List Char) : Cutter := s.foldl (Cutter.push next) r

/-- The stream `s` cut at once, from its first byte. -/
def cutStream (next : List Char → Frame) (s : List Char) : Cutter := Cutter.feed next ⟨[], .line, []⟩ s

section Feed

variable (next : List Char → Frame)

@[simp] theorem Cutter.feed_nil (r : Cutter) : r.feed next [] = r := rfl

theorem Cutter.feed_append (r : Cutter) (s t : List Char) : r.feed next (s ++ t) = (r.feed next s).feed next t :=
  List.foldl_append _ _ _ _

theorem cutStream_append (s t : List Char) : cutStream next (s ++ t) = (cutStream next s).feed next t :=
  Cutter.feed_append next _ s t

theorem Cutter.events_fill (evs : List Event) (f : Nat → Frame) (ev : List Char → Event) (held : List Char)
    (m : Nat) : evs <+: (Cutter.fill evs f ev held m).events := by
  unfold Cutter.fill; split_ifs <;> simp

theorem Cutter.events_enter (evs : List Event) (f : Frame) : evs <+: (Cutter.enter evs f).events := by
  cases f
  · exact List.prefix_refl _
  all_goals exact Cutter.events_fill _ _ _ _ _

/-- A byte only adds events. -/
theorem Cutter.events_push (r : Cutter) (ch : Char) : r.events <+: (r.push next ch).events := by
  unfold Cutter.push
  split
  · split_ifs
    · exact (List.prefix_append _ _).trans (Cutter.events_enter _ _)
    · exact List.prefix_refl _
  all_goals exact Cutter.events_fill _ _ _ _ _

theorem Cutter.events_feed (r : Cutter) (s : List Char) : r.events <+: (r.feed next s).events := by
  induction s generalizing r with
  | nil => exact List.prefix_refl _
  | cons ch s ih => exact (r.events_push next ch).trans (ih _)

/-- What was dispatched after cutting `s` was dispatched after cutting any stream that starts with `s`. -/
theorem cutStream_events_mono {s t : List Char} (h : s <+: t) : (cutStream next s).events <+: (cutStream next t).events := by
  obtain ⟨u, rfl⟩ := h
  rw [cutStream_append]; exact Cutter.events_feed next _ u

/-- Bytes before the `'\n'` go into the line. -/
theorem Cutter.feed_held (evs : List Event) (held pre : List Char) (hn : '\n' ∉ pre) :
    (⟨evs, .line, held⟩ : Cutter).feed next pre = ⟨evs, .line, held ++ pre⟩ := by
  induction pre generalizing held with
  | nil => simp
  | cons ch pre ih =>
    have hc : ch ≠ '\n' := fun h => hn (h ▸ List.mem_cons_self _ _)
    simp only [Cutter.feed, List.foldl_cons] at ih ⊢
    simp only [Cutter.push, if_neg hc]
    rw [ih _ (fun h => hn (List.mem_cons_of_mem _ h)), List.append_assoc, List.singleton_append]

/-- **A line is cut at its first `'\n'`**, and the frame the line asks for is entered. -/
theorem feed_line (evs : List Event) (pre : List Char) (hn : '\n' ∉ pre) :
    (⟨evs, .line, []⟩ : Cutter).feed next (pre ++ ['\n']) =
      Cutter.enter (evs ++ [.command (lineOf pre)]) (next (lineOf pre)) := by
  rw [Cutter.feed_append, Cutter.feed_held next evs [] pre hn]
  simp [Cutter.feed, Cutter.push]

/-- **A body or a swallow takes the bytes that come, up to its count.** -/
theorem feed_fill (evs : List Event) (f : Nat → Frame) (ev : List Char → Event)
    (hf : ∀ (n : Nat) (held : List Char) (ch : Char),
      (⟨evs, f n, held⟩ : Cutter).push next ch = Cutter.fill evs f ev (held ++ [ch]) (n - (held.length + 1)))
    (held b : List Char) (m : Nat) (hb : b.length ≤ m) :
    (Cutter.fill evs f ev held m).feed next b = Cutter.fill evs f ev (held ++ b) (m - b.length) := by
  induction b generalizing held m with
  | nil => simp
  | cons ch b ih =>
    simp only [List.length_cons] at hb
    have hm : m ≠ 0 := by omega
    simp only [Cutter.feed, List.foldl_cons] at ih ⊢
    simp only [Cutter.fill, if_neg hm]
    rw [hf, show held.length + m - (held.length + 1) = m - 1 by omega, ih _ _ (by omega)]
    simp only [List.append_assoc, List.singleton_append, List.length_cons]
    congr 1; omega

theorem feed_body (evs : List Event) (held b : List Char) (m : Nat) (hb : b.length ≤ m) :
    (Cutter.fill evs .body .body held m).feed next b = Cutter.fill evs .body .body (held ++ b) (m - b.length) :=
  feed_fill next evs .body .body (fun _ _ _ => rfl) held b m hb

theorem feed_swallow (evs : List Event) (held b : List Char) (m : Nat) (hb : b.length ≤ m) :
    (Cutter.fill evs .swallow .swallow held m).feed next b =
      Cutter.fill evs .swallow .swallow (held ++ b) (m - b.length) :=
  feed_fill next evs .swallow .swallow (fun _ _ _ => rfl) held b m hb

end Feed

/-! ## `try_read_command` cuts the line the cutter cuts -/

/-- The window holds a whole line: the bytes up to its first `'\n'`, at offset `el`. -/
theorem findNewline_some {w : List Char} {el : Nat} (h : findNewline w = some el) :
    ∃ pre rest, w = pre ++ '\n' :: rest ∧ '\n' ∉ pre ∧ el = pre.length := by
  unfold findNewline at h
  split_ifs at h with hl
  cases h
  induction w with
  | nil => simp at hl
  | cons x w ih =>
    by_cases hx : x = '\n'
    · subst hx; exact ⟨[], w, rfl, List.not_mem_nil _, List.indexOf_cons_self _ _⟩
    · rw [List.indexOf_cons_ne _ hx] at hl ⊢
      obtain ⟨pre, rest, h1, h2, h3⟩ := ih (by simpa using hl)
      exact ⟨x :: pre, rest, by rw [h1]; rfl, by simp [h2, Ne.symm hx], by simp [h3]⟩

/-- `try_read_command`'s line is the cutter's: the `'\r'` goes on the same condition. -/
theorem cutLine_eq_lineOf (pre rest : List Char) : cutLine (pre ++ '\n' :: rest) pre.length = lineOf pre := by
  unfold cutLine lineOf
  rcases List.eq_nil_or_concat pre with rfl | ⟨p, x, rfl⟩
  · simp
  · simp only [List.concat_eq_append]
    have hg : (p ++ [x] ++ '\n' :: rest).getD (p.length + 1 - 1) ' ' = x := by simp [List.getElem_append_right]
    have h1 : (p ++ [x] ++ '\n' :: rest).take (p.length + 1 - 1) = p := by simp
    have h2 : (p ++ [x] ++ '\n' :: rest).take (p.length + 1) = p ++ [x] := List.take_left' (by simp)
    simp only [List.length_append, List.length_singleton, hg, h1, h2, List.getLast?_concat, List.dropLast_concat,
      Option.some.injEq]

end Beansdb
