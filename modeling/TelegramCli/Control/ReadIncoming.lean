import TelegramCli.Lib.Lines

/-! # Control connections: the read callback

`readIncoming` is the callback libevent runs when bytes have arrived on a control connection. The
buffer `in_buf` holds at most 4096 bytes; its `in_buf_pos` valid ones are the list `bytes`. The
inner loop (`scanLoop`) hands every line that stands in the buffer to `interpreter_ex` and shifts
the buffer down, the outer loop (`readLoop`) refills it until a scan finds no newline.

A line is handed over as memory: the buffer, with the newline overwritten by a NUL. `Holds m l`
says that the memory `m` holds the line `l` and its terminator.

Between two calls the connection is described by the bytes `r` it has not served: the buffer has
the first 4096 of them, the event buffer the others (`Rep`). What a call does to `r` is `serve`,
which takes lines off the front as long as they fit. -/

namespace TelegramCli.Control.ReadIncoming

open TelegramCli.Lib.Lines

/-- The size of `in_buf`. -/
def inBufSize : ℕ := 4096

/-- The byte `'\n'`. -/
def newline : UInt8 := 10

/-- The reading part of `struct in_ev`: the valid bytes of `in_buf` and the flag `error`. -/
@[ext] structure InBuf where
  bytes : List UInt8
  error : Bool
  fits : bytes.length ≤ inBufSize

/-- The buffer of a connection just accepted. -/
def InBuf.fresh : InBuf := ⟨[], false, by simp⟩

/-- What the inner loop leaves: the buffer, the flags, and the memory handed to
`interpreter_ex`. -/
structure Scan where
  bytes : List UInt8
  error : Bool
  ok : Bool
  handed : List (List UInt8)

/-- The inner loop, from position `pos`. -/
def scanLoop (bytes : List UInt8) (error : Bool) (pos : ℕ) (ok : Bool) : Scan :=
  if h : pos < bytes.length then
    if bytes[pos] = newline then
      let r := scanLoop (bytes.drop (pos + 1)) false 0 true
      -- with `error` set the line is dropped and only the flag is cleared
      { r with handed := if error then r.handed else bytes.set pos 0 :: r.handed }
    else scanLoop bytes error (pos + 1) ok
  else ⟨bytes, error, ok, []⟩
termination_by bytes.length - pos
decreasing_by
  · simp only [List.length_drop]; omega
  · omega

/-- The memory `m` starts with the line `l` and a NUL. -/
def Holds (m l : List UInt8) : Prop := l ++ [0] <+: m

/-- What the inner loop does to a buffer whose first `pos` bytes have no newline. -/
structure ScanSpec (bytes : List UInt8) (error ok : Bool) (r : Scan) : Prop where
  bytes_eq : r.bytes = rest newline bytes
  error_eq : r.error = (error && decide (newline ∉ bytes))
  ok_eq : r.ok = (ok || decide (newline ∈ bytes))
  handed : List.Forall₂ Holds r.handed
    (if error then (lines newline bytes).tail else lines newline bytes)

theorem set_holds {bytes : List UInt8} {pos : ℕ} (h : pos < bytes.length) :
    Holds (bytes.set pos 0) (bytes.take pos) := by
  refine ⟨bytes.drop (pos + 1), ?_⟩
  rw [List.set_eq_take_append_cons_drop, if_pos h, List.append_assoc, List.singleton_append]

theorem scanLoop_spec (bytes : List UInt8) (error : Bool) (pos : ℕ) (ok : Bool)
    (hpos : newline ∉ bytes.take pos) : ScanSpec bytes error ok (scanLoop bytes error pos ok) := by
  fun_induction scanLoop bytes error pos ok with
  | case1 bytes error pos ok h hnl r ih =>
    have hsplit : bytes = bytes.take pos ++ newline :: bytes.drop (pos + 1) := by
      rw [← hnl, List.cons_getElem_drop_succ, List.take_append_drop]
    have hl := lines_line (bytes.drop (pos + 1)) hpos
    have hr := rest_line (bytes.drop (pos + 1)) hpos
    have hmem : newline ∈ bytes := by rw [hsplit]; simp
    rw [← hsplit] at hl hr
    obtain ⟨h1, h2, h3, h4⟩ := ih (by simp)
    refine ⟨?_, ?_, ?_, ?_⟩
    · rw [hr]; exact h1
    · rw [show _ = r.error from rfl, h2]; simp [hmem]
    · rw [show _ = r.ok from rfl, h3]; simp [hmem]
    · rw [hl]
      cases error
      · exact List.Forall₂.cons (set_holds h) (by simpa using h4)
      · simpa using h4
  | case2 bytes error pos ok h hnl ih =>
    refine ih ?_
    rw [List.take_succ_eq_append_getElem h, List.mem_append, List.mem_singleton]
    rintro (hm | hm)
    · exact hpos hm
    · exact hnl hm.symm
  | case3 bytes error pos ok h =>
    rw [List.take_of_length_le (by omega)] at hpos
    refine ⟨(rest_of_notMem hpos).symm, by simp [hpos], by simp [hpos], ?_⟩
    rw [lines_of_notMem hpos]
    cases error <;> exact List.Forall₂.nil

theorem scanLoop_zero (bytes : List UInt8) (error ok : Bool) :
    ScanSpec bytes error ok (scanLoop bytes error 0 ok) :=
  scanLoop_spec bytes error 0 ok (by simp)

theorem scanLoop_length_le (bytes : List UInt8) (error ok : Bool) :
    (scanLoop bytes error 0 ok).bytes.length ≤ bytes.length := by
  rw [(scanLoop_zero bytes error ok).bytes_eq]; exact length_rest_le bytes

theorem scanLoop_length_lt {bytes : List UInt8} {error : Bool}
    (h : (scanLoop bytes error 0 false).ok = true) :
    (scanLoop bytes error 0 false).bytes.length < bytes.length := by
  rw [(scanLoop_zero bytes error false).ok_eq] at h
  rw [(scanLoop_zero bytes error false).bytes_eq]
  exact length_rest_lt (by simpa using h)

/-! ### The callback -/

/-- `bufferevent_read (bev, in_buf + in_buf_pos, 4096 - in_buf_pos)`: as many of the available
bytes as the buffer has room for. -/
def buffereventRead (b : InBuf) (avail : List UInt8) : InBuf × List UInt8 :=
  (⟨b.bytes ++ avail.take (inBufSize - b.bytes.length), b.error, by
    have := b.fits
    simp only [List.length_append, List.length_take]; omega⟩,
   avail.drop (inBufSize - b.bytes.length))

/-- What a call leaves: the buffer, the bytes still available, and the memory handed over. -/
structure Outcome where
  buf : InBuf
  avail : List UInt8
  handed : List (List UInt8)

/-- The outer loop. -/
def readLoop (b : InBuf) (avail : List UInt8) : Outcome :=
  let r := scanLoop b.bytes b.error 0 false
  if _h : r.ok = true then
    let next := buffereventRead
      ⟨r.bytes, r.error, (scanLoop_length_le b.bytes b.error false).trans b.fits⟩ avail
    let o := readLoop next.1 next.2
    { o with handed := r.handed ++ o.handed }
  else
    ⟨⟨r.bytes, r.error || decide (r.bytes.length = inBufSize),
      (scanLoop_length_le b.bytes b.error false).trans b.fits⟩, avail, r.handed⟩
termination_by b.bytes.length + avail.length
decreasing_by
  have := scanLoop_length_lt _h
  simp only [buffereventRead, List.length_append, List.length_take, List.length_drop]
  omega

/-- **`read_incoming`**, with `avail` in the event buffer of the connection. -/
def readIncoming (b : InBuf) (avail : List UInt8) : Outcome :=
  readLoop (buffereventRead b avail).1 (buffereventRead b avail).2

/-- The stream of a connection arrives in chunks, each followed by one call of the callback. -/
def deliver (b : InBuf) (avail : List UInt8) : List (List UInt8) → Outcome
  | [] => ⟨b, avail, []⟩
  | c :: cs =>
    let o := readIncoming b (avail ++ c)
    let p := deliver o.buf o.avail cs
    { p with handed := o.handed ++ p.handed }

/-- A whole connection: all its chunks, from the fresh buffer. -/
def connection (chunks : List (List UInt8)) : Outcome := deliver .fresh [] chunks

end TelegramCli.Control.ReadIncoming
