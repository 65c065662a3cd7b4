import TelegramCli.Lib.CString
import TelegramCli.Control.ReadIncoming

/-! # Control connections: which lines reach the interpreter

`serve` is the purpose of the read callback in terms of the stream alone: lines come off the front
while they have fewer than 4096 bytes, and what is left is either unterminated or starts with 4096
bytes without a newline. `deliver_serves` says that the callback does exactly this for every way of
cutting the stream into chunks.

When every line fits, `serve` takes all lines (`serve_short`), so they are handed over in order,
each once (`handed_lines`). A line that does not fit is never taken off (`serve_long`): the full
buffer has no room to read its newline into, so the flag `error` is never cleared and nothing
behind the line is served (`recovers_iff`). -/

namespace TelegramCli.Control.Framing

open TelegramCli.Lib.CString TelegramCli.Lib.Lines TelegramCli.Control.ReadIncoming

/-! ### The lines that fit -/

/-- The lines taken off the front of a stream, and what is left. -/
def serve (s : List UInt8) : List (List UInt8) × List UInt8 :=
  let i := s.idxOf newline
  if i < inBufSize ∧ i < s.length then
    (s.take i :: (serve (s.drop (i + 1))).1, (serve (s.drop (i + 1))).2)
  else ([], s)
termination_by s.length
decreasing_by all_goals simp only [List.length_drop]; omega

theorem serve_stuck {s : List UInt8} (h : newline ∉ s.take inBufSize) : serve s = ([], s) := by
  rw [serve, if_neg]
  rintro ⟨h1, h2⟩
  refine h (List.mem_take_iff_getElem.mpr ⟨s.idxOf newline, by omega, ?_⟩)
  exact List.getElem_idxOf h2

theorem serve_line {a : List UInt8} (s : List UInt8) (ha : newline ∉ a)
    (hl : a.length < inBufSize) :
    serve (a ++ newline :: s) = (a :: (serve s).1, (serve s).2) := by
  have hi : (a ++ newline :: s).idxOf newline = a.length := by
    rw [List.idxOf_append_of_notMem ha]; simp
  have htake : (a ++ newline :: s).take a.length = a := List.take_left
  have hdrop : (a ++ newline :: s).drop (a.length + 1) = s := by
    rw [← List.drop_drop, List.drop_left]; rfl
  rw [serve]
  simp only [hi, htake, hdrop]
  rw [if_pos ⟨hl, by simp⟩]

/-- A stream that arrives in two pieces. -/
theorem serve_append (s t : List UInt8) : serve (s ++ t) =
    ((serve s).1 ++ (serve ((serve s).2 ++ t)).1, (serve ((serve s).2 ++ t)).2) := by
  induction s using line_induction (n := newline) with
  | open_ a ha =>
    have hm : newline ∉ a.take inBufSize := fun h => ha (List.mem_of_mem_take h)
    rw [serve_stuck hm, List.nil_append]
  | line a s ha ih =>
    by_cases hl : a.length < inBufSize
    · rw [List.append_assoc, List.cons_append, serve_line _ ha hl, serve_line _ ha hl, ih,
        List.cons_append]
    · have hm : newline ∉ (a ++ newline :: s).take inBufSize := by
        rw [List.take_append_of_le_length (by omega)]
        exact fun h => ha (List.mem_of_mem_take h)
      rw [serve_stuck hm, List.nil_append]

/-- The lines of a full buffer are served, whatever follows it. -/
theorem serve_buffer (b t : List UInt8) (hb : b.length ≤ inBufSize) : serve (b ++ t) =
    (lines newline b ++ (serve (rest newline b ++ t)).1, (serve (rest newline b ++ t)).2) := by
  induction b using line_induction (n := newline) with
  | open_ a ha => rw [lines_of_notMem ha, rest_of_notMem ha, List.nil_append]
  | line a s ha ih =>
    simp only [List.length_append, List.length_cons] at hb
    rw [List.append_assoc, List.cons_append, serve_line _ ha (by omega), lines_line _ ha,
      rest_line _ ha, ih (by omega), List.cons_append]

/-! ### The callback serves -/

/-- The connection between two calls, `r` being the bytes it has not served: the buffer holds the
first of them and has no newline, bytes stay available only behind a full buffer, and `error` says
that the buffer is full. -/
structure Rep (r : List UInt8) (b : InBuf) (avail : List UInt8) : Prop where
  bytes : b.bytes ++ avail = r
  stuck : newline ∉ b.bytes
  full : b.bytes.length = inBufSize ∨ avail = []
  error : b.error = decide (b.bytes.length = inBufSize)

theorem Rep.fresh : Rep [] .fresh [] := ⟨rfl, by simp [InBuf.fresh], Or.inr rfl, rfl⟩

/-- A call hands over the lines `serve` takes and leaves what it leaves. -/
def Serves (s : List UInt8) (o : Outcome) : Prop :=
  List.Forall₂ Holds o.handed (serve s).1 ∧ Rep (serve s).2 o.buf o.avail

theorem fill_eq (b : InBuf) (avail : List UInt8) :
    (buffereventRead b avail).1.bytes ++ (buffereventRead b avail).2 = b.bytes ++ avail := by
  simp [buffereventRead, List.append_assoc]

/-- After a read the buffer is full or nothing is left to read. -/
theorem fill_full (b : InBuf) (avail : List UInt8) :
    (buffereventRead b avail).1.bytes.length = inBufSize ∨ (buffereventRead b avail).2 = [] := by
  have := b.fits
  simp only [buffereventRead, List.length_append, List.length_take, List.drop_eq_nil_iff]
  omega

/-- **The outer loop serves** the stream made of the buffer and the available bytes. -/
theorem readLoop_serves (b : InBuf) (avail : List UInt8) (herr : b.error = false)
    (hfull : b.bytes.length = inBufSize ∨ avail = []) :
    Serves (b.bytes ++ avail) (readLoop b avail) := by
  fun_induction readLoop b avail with
  | case1 b avail r hok next o ih =>
    obtain ⟨h1, h2, -, h4⟩ := scanLoop_zero b.bytes b.error false
    have hs : next.1.bytes ++ next.2 = rest newline b.bytes ++ avail := by
      rw [fill_eq]; exact congrArg (· ++ avail) h1
    have herr' : next.1.error = false := by
      show (scanLoop b.bytes b.error 0 false).error = false
      rw [h2, herr]; rfl
    obtain ⟨ih1, ih2⟩ := ih herr' (fill_full _ _)
    rw [hs] at ih1 ih2
    rw [if_neg (by simp [herr])] at h4
    unfold Serves
    rw [serve_buffer b.bytes avail b.fits]
    exact ⟨List.rel_append h4 ih1, ih2⟩
  | case2 b avail r hok =>
    obtain ⟨h1, h2, h3, h4⟩ := scanLoop_zero b.bytes b.error false
    have hm : newline ∉ b.bytes := by
      have : r.ok = decide (newline ∈ b.bytes) := by rw [h3, Bool.false_or]
      rw [this] at hok
      simpa using hok
    have hr : r.bytes = b.bytes := h1.trans (rest_of_notMem hm)
    rw [if_neg (by simp [herr]), lines_of_notMem hm] at h4
    have hstuck : serve (b.bytes ++ avail) = ([], b.bytes ++ avail) := by
      refine serve_stuck fun h => hm ?_
      rcases hfull with hf | hf
      · rwa [List.take_append_of_le_length (by omega), List.take_of_length_le (by omega)] at h
      · rw [hf, List.append_nil] at h; exact List.mem_of_mem_take h
    have he : r.error = false := h2.trans (by rw [herr]; rfl)
    unfold Serves
    rw [hstuck]
    refine ⟨h4, ⟨congrArg (· ++ avail) hr, ?_, ?_, ?_⟩⟩
    · show newline ∉ r.bytes
      rwa [hr]
    · show r.bytes.length = inBufSize ∨ avail = []
      rw [hr]; exact hfull
    · simp [he]

/-- A full buffer without a newline is never emptied: the call reads nothing and finds nothing. -/
theorem readIncoming_full {b : InBuf} (avail : List UInt8) (hl : b.bytes.length = inBufSize)
    (hm : newline ∉ b.bytes) (he : b.error = true) : readIncoming b avail = ⟨b, avail, []⟩ := by
  have hread : buffereventRead b avail = (b, avail) := by
    simp [buffereventRead, hl]
  obtain ⟨h1, h2, h3, h4⟩ := scanLoop_zero b.bytes b.error false
  rw [rest_of_notMem hm] at h1
  rw [if_pos he, lines_of_notMem hm, List.tail_nil, List.forall₂_nil_right_iff] at h4
  rw [readIncoming, hread, readLoop, dif_neg (by rw [h3]; simp [hm])]
  have he2 : (scanLoop b.bytes b.error 0 false).error = true := by rw [h2, he]; simp [hm]
  rw [Outcome.mk.injEq]
  refine ⟨InBuf.ext h1 ?_, rfl, h4⟩
  show ((scanLoop b.bytes b.error 0 false).error || _) = b.error
  rw [he2, Bool.true_or, he]

/-- **One call serves** what it had not served and the bytes that have arrived. -/
theorem readIncoming_serves {r : List UInt8} {b : InBuf} {avail : List UInt8}
    (h : Rep r b avail) (c : List UInt8) : Serves (r ++ c) (readIncoming b (avail ++ c)) := by
  obtain ⟨hb, hs, hf, he⟩ := h
  by_cases hl : b.bytes.length = inBufSize
  · have he' : b.error = true := by rw [he]; simpa using hl
    have hst : serve (r ++ c) = ([], r ++ c) := by
      refine serve_stuck ?_
      rw [← hb, List.append_assoc, List.take_append_of_le_length (by omega),
        List.take_of_length_le (by omega)]
      exact hs
    unfold Serves
    rw [readIncoming_full _ hl hs he', hst]
    refine ⟨List.Forall₂.nil, ⟨?_, hs, Or.inl hl, he⟩⟩
    rw [← hb, List.append_assoc]
  · have ha : avail = [] := hf.resolve_left hl
    have he' : b.error = false := by rw [he]; simpa using hl
    have h1 := readLoop_serves (buffereventRead b (avail ++ c)).1
      (buffereventRead b (avail ++ c)).2 he' (fill_full _ _)
    rwa [fill_eq, ← List.append_assoc, hb] at h1

/-- **Every chunking serves the whole stream.** -/
theorem deliver_serves {r : List UInt8} {b : InBuf} {avail : List UInt8} (h : Rep r b avail) :
    ∀ cs : List (List UInt8), Serves (r ++ cs.flatten) (deliver b avail cs)
  | [] => by
    have hm : newline ∉ r.take inBufSize := by
      rw [← h.bytes]
      rcases h.full with hf | hf
      · rw [List.take_append_of_le_length (by omega), List.take_of_length_le (by omega)]
        exact h.stuck
      · rw [hf, List.append_nil]; exact fun hm => h.stuck (List.mem_of_mem_take hm)
    unfold Serves
    rw [List.flatten_nil, List.append_nil, serve_stuck hm]
    exact ⟨List.Forall₂.nil, h⟩
  | c :: cs => by
    obtain ⟨h1, h2⟩ := readIncoming_serves h c
    obtain ⟨h3, h4⟩ := deliver_serves h2 cs
    unfold Serves
    rw [List.flatten_cons, ← List.append_assoc, serve_append]
    exact ⟨List.rel_append h1 h3, h4⟩

theorem connection_serves (chunks : List (List UInt8)) :
    Serves chunks.flatten (connection chunks) := deliver_serves Rep.fresh chunks

/-! ### Streams whose lines all fit -/

/-- Every line of the stream that is ended by a newline has at most 4095 bytes before it. -/
def LinesFit (s : List UInt8) : Prop := ∀ l ∈ lines newline s, l.length ≤ 4095

theorem serve_short {s : List UInt8} (h : LinesFit s) :
    serve s = (lines newline s, rest newline s) := by
  induction s using line_induction (n := newline) with
  | open_ a ha =>
    have hm : newline ∉ a.take inBufSize := fun h => ha (List.mem_of_mem_take h)
    rw [serve_stuck hm, lines_of_notMem ha, rest_of_notMem ha]
  | line a s ha ih =>
    unfold LinesFit at h
    rw [lines_line s ha] at h
    have hl : a.length < inBufSize := by have := h a (by simp); unfold inBufSize; omega
    rw [serve_line s ha hl, lines_line s ha, rest_line s ha,
      ih fun l hl => h l (List.mem_cons_of_mem _ hl)]

/-- A line that does not fit stays, newline included. -/
theorem serve_long {s : List UInt8} (h : ¬ LinesFit s) : newline ∈ (serve s).2 := by
  induction s using line_induction (n := newline) with
  | open_ a ha =>
    unfold LinesFit at h
    rw [lines_of_notMem ha] at h
    exact absurd (by simp) h
  | line a s ha ih =>
    by_cases hl : a.length < inBufSize
    · rw [serve_line s ha hl]
      refine ih fun hs => h ?_
      unfold LinesFit at hs ⊢
      rw [lines_line s ha]
      intro l hl'
      rcases List.mem_cons.mp hl' with rfl | hl'
      · unfold inBufSize at hl; omega
      · exact hs l hl'
    · have hm : newline ∉ (a ++ newline :: s).take inBufSize := by
        rw [List.take_append_of_le_length (by omega)]
        exact fun h => ha (List.mem_of_mem_take h)
      rw [serve_stuck hm]; simp

/-- A stream whose lines fit, cut off anywhere: the lines that have arrived fit, and so does the
part of the next one. -/
theorem LinesFit.of_append {s t : List UInt8} (h : LinesFit (s ++ t))
    (hr : (rest newline (s ++ t)).length ≤ 4095) :
    LinesFit s ∧ (rest newline s).length ≤ 4095 := by
  unfold LinesFit at h
  rw [lines_append] at h
  rw [rest_append] at hr
  refine ⟨fun l hl => h l (List.mem_append_left _ hl), ?_⟩
  have hns := rest_notMem (n := newline) s
  by_cases ht : newline ∈ t
  · obtain ⟨a, u, rfl, ha⟩ := List.eq_append_cons_of_mem ht
    have hna : newline ∉ rest newline s ++ a := by simp [hns, ha]
    rw [← List.append_assoc, lines_line u hna] at h
    have := h (rest newline s ++ a) (by simp)
    simp only [List.length_append] at this
    omega
  · rw [rest_of_notMem (a := rest newline s ++ t) (by simp [hns, ht])] at hr
    simp only [List.length_append] at hr
    omega

/-- For lines without a NUL the C string handed over is the line. -/
theorem Holds.cstring_eq {m l : List UInt8} (h : Holds m l) (hl : (0 : UInt8) ∉ l) :
    cstring m = l := by
  obtain ⟨t, rfl⟩ := h
  rw [List.append_assoc]
  exact cstring_append hl t

theorem cstrings_of_holds : ∀ {ms ls : List (List UInt8)}, List.Forall₂ Holds ms ls →
    (∀ l ∈ ls, (0 : UInt8) ∉ l) → ms.map cstring = ls
  | _, _, .nil, _ => rfl
  | _, _, .cons h hs, hz => by
    rw [List.map_cons, Holds.cstring_eq h (hz _ (by simp)),
      cstrings_of_holds hs fun l hl => hz l (List.mem_cons_of_mem _ hl)]

/-- **The lines handed over.** When every line and the unterminated rest have at most 4095 bytes,
the lines of the stream are handed over in order, each once (as C strings, when they have no NUL),
and every call leaves nothing available and a buffer that is not full. -/
theorem handed_lines (chunks : List (List UInt8)) (hl : LinesFit chunks.flatten)
    (hr : (rest newline chunks.flatten).length ≤ 4095) :
    List.Forall₂ Holds (connection chunks).handed (lines newline chunks.flatten) ∧
      ((∀ l ∈ lines newline chunks.flatten, (0 : UInt8) ∉ l) →
        (connection chunks).handed.map cstring = lines newline chunks.flatten) ∧
      ∀ n, (connection (chunks.take n)).avail = [] ∧
        (connection (chunks.take n)).buf.bytes.length < 4096 := by
  have hh := (connection_serves chunks).1
  rw [serve_short hl] at hh
  refine ⟨hh, cstrings_of_holds hh, fun n => ?_⟩
  have hsplit : chunks.flatten = (chunks.take n).flatten ++ (chunks.drop n).flatten := by
    rw [← List.flatten_append, List.take_append_drop]
  rw [hsplit] at hl hr
  obtain ⟨hl', hr'⟩ := hl.of_append hr
  obtain ⟨hb, -, hf, -⟩ := (connection_serves (chunks.take n)).2
  rw [serve_short hl'] at hb
  have hlen : (connection (chunks.take n)).buf.bytes.length +
      (connection (chunks.take n)).avail.length ≤ 4095 := by
    rw [← List.length_append, hb]; exact hr'
  exact ⟨hf.resolve_left (by unfold inBufSize; omega), by omega⟩

/-- The lines `a` and `b`, cut in the middle of each, and the start of a third. -/
theorem handed_lines_ab :
    List.Forall₂ Holds (connection [[97], [10, 98], [10, 99]]).handed [[97], [98]] ∧
      (connection [[97], [10, 98], [10, 99]]).handed.map cstring = [[97], [98]] ∧
      ∀ n, (connection ([[97], [10, 98], [10, 99]].take n)).avail = [] ∧
        (connection ([[97], [10, 98], [10, 99]].take n)).buf.bytes.length < 4096 := by
  obtain ⟨h1, h2, h3⟩ := handed_lines [[97], [10, 98], [10, 99]]
    (by unfold LinesFit; decide) (by decide)
  exact ⟨h1, h2 (by decide), h3⟩

/-! ### Lines that do not fit -/

/-- **Recovery from the `error` state**: the lines of at most 4095 bytes are handed over and no
others, everything up to the last newline has been consumed, and `error` is set only inside a line
that is too long. -/
def Recovers (chunks : List (List UInt8)) : Prop :=
  let s := chunks.flatten
  let o := connection chunks
  List.Forall₂ Holds o.handed ((lines newline s).filter (·.length ≤ 4095)) ∧
    o.buf.bytes ++ o.avail <:+ rest newline s ∧
    (o.buf.error = true → 4096 ≤ (rest newline s).length)

/-- A line that does not fit is not consumed. -/
theorem not_recovers {chunks : List (List UInt8)} (h : ¬ LinesFit chunks.flatten) :
    ¬ Recovers chunks := by
  rintro ⟨-, hsuf, -⟩
  have hb := (connection_serves chunks).2.bytes
  rw [hb] at hsuf
  exact rest_notMem chunks.flatten (hsuf.subset (serve_long h))

/-- **A connection recovers exactly when it has nothing to recover from**: when no line that has
ended is longer than the buffer. -/
theorem recovers_iff (chunks : List (List UInt8)) :
    Recovers chunks ↔ LinesFit chunks.flatten := by
  refine ⟨fun h => by_contra fun hn => not_recovers hn h, fun h => ?_⟩
  obtain ⟨h1, h2⟩ := connection_serves chunks
  rw [serve_short h] at h1 h2
  refine ⟨?_, by rw [h2.bytes], fun he => ?_⟩
  · rwa [List.filter_eq_self.mpr fun l hl => by simpa using h l hl]
  · rw [h2.error, decide_eq_true_eq] at he
    have := congrArg List.length h2.bytes
    simp only [List.length_append] at this
    unfold inBufSize at he
    omega

/-- A line of 4096 bytes is not skipped, and the line after it is not served. -/
theorem long_line_not_recovers :
    ¬ Recovers [List.replicate 4096 97 ++ [10, 104, 101, 108, 112, 10]] := by
  refine not_recovers fun h => ?_
  have hm : newline ∉ List.replicate 4096 (97 : UInt8) := by
    rw [List.mem_replicate]; rintro ⟨-, h⟩; cases h
  have hl : List.replicate 4096 (97 : UInt8) ∈ lines newline
      ([List.replicate 4096 97 ++ [10, 104, 101, 108, 112, 10]] : List (List UInt8)).flatten := by
    rw [List.flatten_singleton, show ([10, 104, 101, 108, 112, 10] : List UInt8) =
      newline :: [104, 101, 108, 112, 10] from rfl, lines_line _ hm]
    exact List.mem_cons_self
  have := h _ hl
  rw [List.length_replicate] at this
  omega

end TelegramCli.Control.Framing
