import TelegramCli.Control.ReadIncoming
import TelegramCli.Lib.CString

/-! # Lines on the standard input

Without readline the bytes of the standard input are collected in `line_buffer`, which grows when it
is full. After each `read` the lines that stand in the buffer are passed to `interpreter`, and the
rest is moved to the front. Whatever the reads are, the lines passed on are those of the stream, the
rest of it is in the buffer, and there is always room for it (`stdin_lines`). -/

namespace TelegramCli.Loop.StdinLines

open TelegramCli.Lib.CString TelegramCli.Lib.Lines
open TelegramCli.Control.ReadIncoming (newline Holds set_holds)

/-- `line_buffer`, `line_buffer_size`, `line_buffer_pos` and `delete_stdin_event`. -/
structure LineBuffer where
  mem : List UInt8
  size : ℕ
  pos : ℕ
  deleteStdinEvent : Bool

def LineBuffer.start : LineBuffer := ⟨[], 0, 0, false⟩

/-- What the scan leaves: the memory and the position, the memory at each call of `interpreter`, and
the positions in between. -/
structure Scan where
  mem : List UInt8
  pos : ℕ
  handed : List (List UInt8)
  seen : List ℕ

/-- `memmove (line_buffer, line_buffer + from, n)`. -/
def moveDown (mem : List UInt8) (start n : ℕ) : List UInt8 := (mem.drop start).take n ++ mem.drop n

/-- The loop over the lines in the buffer, with the search for a newline at `p`. -/
def scanLoop (mem : List UInt8) (pos p : ℕ) : Scan :=
  if p < pos then
    if mem.getD p 0 = newline then
      let r := scanLoop (moveDown (mem.set p 0) (p + 1) (pos - p - 1)) (pos - (p + 1)) 0
      { r with handed := mem.set p 0 :: r.handed, seen := (pos - (p + 1)) :: r.seen }
    else scanLoop mem pos (p + 1)
  else ⟨mem, pos, [], []⟩
termination_by pos - p
decreasing_by
  · omega
  · omega

/-- What a call leaves: the buffer, the memory at each call of `interpreter`, and the values of
`line_buffer_pos` and `line_buffer_size` on the way. -/
structure Outcome where
  buf : LineBuffer
  handed : List (List UInt8)
  seen : List (ℕ × ℕ)

/-- The buffer with room for a byte; `more` is what `realloc` finds behind the old memory. -/
def LineBuffer.grow (b : LineBuffer) (more : List UInt8) : LineBuffer :=
  if b.pos = b.size then { b with mem := b.mem ++ more, size := b.size * 2 + 100 } else b

/-- A read: the memory `realloc` adds, if it is called, and the bytes of the stream, of which there
are none at its end. -/
structure Event where
  more : List UInt8
  chunk : List UInt8

/-- The end of `stdin_read_callback`, without readline and without a prompt. -/
def stdinReadCallback (b : LineBuffer) (e : Event) : Outcome :=
  let b := b.grow e.more
  if e.chunk = [] then ⟨{ b with deleteStdinEvent := true }, [], [(b.pos, b.size)]⟩
  else
    let pos := b.pos + e.chunk.length
    let r := scanLoop (b.mem.take b.pos ++ e.chunk ++ b.mem.drop pos) pos 0
    ⟨{ b with mem := r.mem, pos := r.pos }, r.handed,
      (b.pos, b.size) :: (pos, b.size) :: r.seen.map fun pos => (pos, b.size)⟩

/-- One call after the other. -/
def reads (b : LineBuffer) : List Event → Outcome
  | [] => ⟨b, [], []⟩
  | e :: es =>
    let o := stdinReadCallback b e
    let p := reads o.buf es
    { p with handed := o.handed ++ p.handed, seen := o.seen ++ p.seen }

/-- `realloc` gives the memory it is asked for, and `read` no more bytes than it is asked for. -/
def Admits (b : LineBuffer) (e : Event) : Prop :=
  e.more.length = b.size + 100 ∧ e.chunk.length ≤ (b.grow e.more).size - (b.grow e.more).pos

@[inherit_doc Admits]
def AdmitsAll (b : LineBuffer) : List Event → Prop
  | [] => True
  | e :: es => Admits b e ∧ AdmitsAll (stdinReadCallback b e).buf es

/-- **The buffer** has room, and what has been read and not passed on is in it. -/
structure Inv (stream : List UInt8) (b : LineBuffer) : Prop where
  length : b.mem.length = b.size
  pos_le : b.pos ≤ b.size
  rest : b.mem.take b.pos = rest newline stream

/-! ### The scan -/

/-- What the scan does to a buffer with the bytes `bytes`. -/
structure ScanSpec (mem bytes : List UInt8) (r : Scan) : Prop where
  length : r.mem.length = mem.length
  pos_le : r.pos ≤ bytes.length
  rest : r.mem.take r.pos = rest newline bytes
  handed : List.Forall₂ Holds r.handed (lines newline bytes)
  seen : ∀ pos ∈ r.seen, pos ≤ bytes.length

theorem length_moveDown {mem : List UInt8} {start n : ℕ} (h : start + n ≤ mem.length) :
    (moveDown mem start n).length = mem.length := by
  rw [moveDown, List.length_append, List.length_take_of_le (by rw [List.length_drop]; omega),
    List.length_drop]
  omega

theorem take_moveDown {mem : List UInt8} {start n : ℕ} (h : start + n ≤ mem.length) :
    (moveDown mem start n).take n = (mem.drop start).take n :=
  List.take_left' (List.length_take_of_le (by rw [List.length_drop]; omega))

/-- **The scan** passes on the lines of the buffer and leaves their rest in front. -/
theorem scanLoop_spec (mem : List UInt8) (pos p : ℕ) (hpos : pos ≤ mem.length)
    (hp : newline ∉ (mem.take pos).take p) : ScanSpec mem (mem.take pos) (scanLoop mem pos p) := by
  fun_induction scanLoop mem pos p with
  | case1 mem pos p hlt hnl r ih =>
    have hp' : p < mem.length := by omega
    have hget : mem.getD p 0 = mem[p] := by
      rw [List.getD_eq_getElem?_getD, List.getElem?_eq_getElem hp', Option.getD_some]
    have htake : (mem.take pos).take p = mem.take p := by
      rw [List.take_take, Nat.min_eq_left hlt.le]
    have hdrop : (mem.set p 0).drop (p + 1) = mem.drop (p + 1) :=
      List.drop_set_of_lt (Nat.lt_succ_self p)
    have hsplit : mem.take pos = mem.take p ++ newline :: (mem.drop (p + 1)).take (pos - p - 1) := by
      obtain ⟨k, rfl⟩ : ∃ k, pos = p + (k + 1) := ⟨pos - p - 1, by omega⟩
      rw [show p + (k + 1) - p - 1 = k by omega, List.take_add, List.drop_eq_getElem_cons hp',
        List.take_succ_cons, ← hget, hnl]
    have hroom : p + 1 + (pos - p - 1) ≤ (mem.set p 0).length := by
      rw [List.length_set]
      omega
    have hmoved : (moveDown (mem.set p 0) (p + 1) (pos - p - 1)).take (pos - (p + 1)) =
        (mem.drop (p + 1)).take (pos - p - 1) := by
      rw [show pos - (p + 1) = pos - p - 1 by omega, take_moveDown hroom, hdrop]
    have hlen := length_moveDown hroom
    rw [List.length_set] at hlen
    obtain ⟨hlength, hle, hrest, hhanded, hseen⟩ := ih (by omega) (by simp)
    rw [htake] at hp
    rw [hmoved] at hle hrest hhanded hseen
    have hbytes : ((mem.drop (p + 1)).take (pos - p - 1)).length ≤ (mem.take pos).length := by
      rw [hsplit, List.length_append, List.length_cons]
      omega
    refine ⟨hlength.trans hlen, hle.trans hbytes, ?_, ?_, ?_⟩
    · rw [hsplit, rest_line _ hp]
      exact hrest
    · rw [hsplit, lines_line _ hp]
      exact .cons (set_holds hp') hhanded
    · intro x hx
      rcases List.mem_cons.mp hx with rfl | hx
      · rw [List.length_take_of_le hpos]
        omega
      · exact (hseen x hx).trans hbytes
  | case2 mem pos p hlt hnl ih =>
    refine ih hpos ?_
    have hp' : p < (mem.take pos).length := by
      rw [List.length_take_of_le hpos]
      exact hlt
    rw [List.take_succ_eq_append_getElem hp', List.mem_append, List.mem_singleton]
    rintro (hm | hm)
    · exact hp hm
    · refine hnl ?_
      rw [hm, List.getElem_take, List.getD_eq_getElem?_getD, List.getElem?_eq_getElem (by omega),
        Option.getD_some]
  | case3 mem pos p hlt =>
    have hlen : (mem.take pos).length ≤ p := by
      rw [List.length_take_of_le hpos]
      omega
    rw [List.take_of_length_le hlen] at hp
    refine ⟨rfl, (List.length_take_of_le hpos).ge, (rest_of_notMem hp).symm, ?_, by simp⟩
    rw [lines_of_notMem hp]
    exact .nil

/-! ### Runs -/

theorem Inv.start : Inv [] .start := ⟨rfl, le_rfl, rfl⟩

theorem Inv.grow {stream : List UInt8} {b : LineBuffer} (h : Inv stream b) {more : List UInt8}
    (hmore : more.length = b.size + 100) : Inv stream (b.grow more) := by
  have hlength := h.length
  have hpos := h.pos_le
  unfold LineBuffer.grow
  split_ifs
  · refine ⟨?_, ?_, ?_⟩
    · simp only [List.length_append]
      omega
    · simp only
      omega
    · simp only
      rw [List.take_append_of_le_length (by omega)]
      exact h.rest
  · exact h

/-- **One call** keeps the invariant, and passes on the lines that the new bytes end. -/
theorem Inv.callback {stream : List UInt8} {b : LineBuffer} (h : Inv stream b) {e : Event}
    (he : Admits b e) : Inv (stream ++ e.chunk) (stdinReadCallback b e).buf ∧
      List.Forall₂ Holds (stdinReadCallback b e).handed
        (lines newline (Lib.Lines.rest newline stream ++ e.chunk)) ∧
      ∀ s ∈ (stdinReadCallback b e).seen, s.1 ≤ s.2 := by
  obtain ⟨hmore, hchunk⟩ := he
  have hgrow := h.grow hmore
  unfold stdinReadCallback
  simp only
  set g := b.grow e.more with hg
  have hlength := hgrow.length
  have hpos := hgrow.pos_le
  by_cases hnil : e.chunk = []
  · rw [if_pos hnil, hnil, List.append_nil, List.append_nil, lines_of_notMem (rest_notMem stream)]
    refine ⟨⟨hlength, hpos, hgrow.rest⟩, .nil, fun s hs => ?_⟩
    rw [List.mem_singleton.mp hs]
    exact hpos
  rw [if_neg hnil]
  set mem := g.mem.take g.pos ++ e.chunk ++ g.mem.drop (g.pos + e.chunk.length) with hmem
  have hfront : (g.mem.take g.pos ++ e.chunk).length = g.pos + e.chunk.length := by
    rw [List.length_append, List.length_take_of_le (by omega)]
  have hlen : mem.length = g.size := by
    rw [hmem, List.length_append, hfront, List.length_drop]
    omega
  have hbytes : mem.take (g.pos + e.chunk.length) = Lib.Lines.rest newline stream ++ e.chunk := by
    rw [hmem, List.take_left' hfront, hgrow.rest]
  have hroom : g.pos + e.chunk.length ≤ g.size := by omega
  obtain ⟨hl, hle, hrest, hhanded, hseen⟩ :=
    scanLoop_spec mem (g.pos + e.chunk.length) 0 (by omega) (by simp)
  have htake : (mem.take (g.pos + e.chunk.length)).length = g.pos + e.chunk.length :=
    List.length_take_of_le (by omega)
  rw [htake] at hle hseen
  rw [hbytes] at hrest hhanded
  refine ⟨⟨hl.trans hlen, hle.trans hroom, ?_⟩, hhanded, fun s hs => ?_⟩
  · rw [rest_append]
    exact hrest
  · rcases List.mem_cons.mp hs with rfl | hs
    · exact hpos
    rcases List.mem_cons.mp hs with rfl | hs
    · exact hroom
    obtain ⟨pos, hp, rfl⟩ := List.mem_map.mp hs
    exact (hseen pos hp).trans hroom

/-- The bytes of all reads. -/
def stream (es : List Event) : List UInt8 := es.flatMap Event.chunk

theorem reads_inv : ∀ {es : List Event} {s : List UInt8} {b : LineBuffer}, Inv s b →
    AdmitsAll b es → Inv (s ++ stream es) (reads b es).buf ∧
      List.Forall₂ Holds (reads b es).handed
        (lines newline (Lib.Lines.rest newline s ++ stream es)) ∧
      ∀ p ∈ (reads b es).seen, p.1 ≤ p.2
  | [], s, b, h, _ => by
    refine ⟨?_, ?_, by simp [reads]⟩
    · rw [stream, List.flatMap_nil, List.append_nil]
      exact h
    · rw [stream, List.flatMap_nil, List.append_nil, lines_of_notMem (rest_notMem s)]
      exact .nil
  | e :: es, s, b, h, ⟨he, hes⟩ => by
    obtain ⟨hcall, hhanded, hseen⟩ := h.callback he
    obtain ⟨ih, ihhanded, ihseen⟩ := reads_inv hcall hes
    have hcons : stream (e :: es) = e.chunk ++ stream es := List.flatMap_cons
    refine ⟨?_, ?_, fun p hp => ?_⟩
    · rw [hcons, ← List.append_assoc]
      exact ih
    · rw [hcons, ← List.append_assoc, lines_append, ← rest_append]
      exact List.rel_append hhanded ihhanded
    · rcases List.mem_append.mp hp with hp | hp
      · exact hseen p hp
      · exact ihseen p hp

theorem cstring_holds {m l : List UInt8} (h : Holds m l) : cstring m = cstring l := by
  obtain ⟨more, rfl⟩ := h
  induction l with
  | nil => rfl
  | cons c l ih =>
    rw [List.cons_append, List.cons_append, cstring, cstring, ih]

theorem map_cstring_of_holds : ∀ {ms ls : List (List UInt8)}, List.Forall₂ Holds ms ls →
    ms.map cstring = ls.map cstring
  | _, _, .nil => rfl
  | _, _, .cons h hs => by
    rw [List.map_cons, List.map_cons, cstring_holds h, map_cstring_of_holds hs]

/-- **The lines of the standard input** are passed to `interpreter`, each once and in order, however
the stream is cut into reads. The buffer has the rest of the stream, and room for it all the
time. -/
theorem stdin_lines {es : List Event} (h : AdmitsAll .start es) :
    List.Forall₂ Holds (reads .start es).handed (lines newline (stream es)) ∧
      (reads .start es).handed.map cstring = (lines newline (stream es)).map cstring ∧
      (∀ p ∈ (reads .start es).seen, p.1 ≤ p.2) ∧
      (reads .start es).buf.mem.take (reads .start es).buf.pos = Lib.Lines.rest newline (stream es) ∧
      (reads .start es).buf.pos ≤ (reads .start es).buf.size := by
  obtain ⟨hinv, hhanded, hseen⟩ := reads_inv .start h
  rw [rest_nil, List.nil_append] at hhanded
  exact ⟨hhanded, map_cstring_of_holds hhanded, hseen, hinv.rest, hinv.pos_le⟩

/-- A line and the start of another. -/
theorem stdin_lines_one :
    (reads .start [⟨List.replicate 100 0, lit "msg Alice hi\nq"⟩]).handed.map cstring =
      (lines newline (stream [⟨List.replicate 100 0, lit "msg Alice hi\nq"⟩])).map cstring :=
  have h : AdmitsAll .start [⟨List.replicate 100 0, lit "msg Alice hi\nq"⟩] :=
    ⟨⟨by decide, by decide⟩, trivial⟩
  (stdin_lines h).2.1

end TelegramCli.Loop.StdinLines
