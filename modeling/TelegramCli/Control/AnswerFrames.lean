import TelegramCli.Lib.CNumber
import TelegramCli.Lib.CString
import TelegramCli.Lib.Records

/-! # Answers to a control connection

An answer is printed piece by piece into `socket_answer` and sent as a frame: `ANSWER`, the number
of bytes, the bytes. `mprintf` adds what `vsnprintf` says a piece is long, also when the piece was
cut, and gives the answer up (`socket_answer_pos` is -1) when the buffer would overflow.

Answers below the size of the buffer are read back by a client, one after the other
(`readAnswers_stream`). What is sent for any pieces is a frame of printed bytes exactly when their
lengths stay within the buffer and do not fill it up to its last byte, which `vsnprintf` takes for
its NUL (`answer_wellFormed_iff`). -/

namespace TelegramCli.Control.AnswerFrames

open TelegramCli.Lib.CNumber TelegramCli.Lib.CString TelegramCli.Lib.Records

/-- `SOCKET_ANSWER_MAX_SIZE`. -/
def socketAnswerMaxSize : ℕ := 2 ^ 25

/-- `socket_answer` and `socket_answer_pos`, -1 when no answer is open. -/
structure SocketAnswer where
  buf : List UInt8
  pos : ℤ

/-- The largest `int`. -/
def intMax : ℕ := 2 ^ 31 - 1

/-- `vsnprintf (buf + pos, size, ..)` of a text: what it writes, with a NUL, and what it returns,
which is the length of the whole text, or -1 when that is no `int`. -/
def vsnprintf (buf : List UInt8) (pos size : ℕ) (text : List UInt8) : List UInt8 × ℤ :=
  let written := text.take (size - 1)
  (if size = 0 then buf else buf.take pos ++ written ++ 0 :: buf.drop (pos + written.length + 1),
    if text.length ≤ intMax then text.length else -1)

/-- `socket_answer_start`. -/
def socketAnswerStart (a : SocketAnswer) : SocketAnswer := { a with pos := 0 }

/-- `socket_answer_add_printf` of a text. -/
def socketAnswerAddPrintf (a : SocketAnswer) (text : List UInt8) : SocketAnswer :=
  if a.pos < 0 then a
  else
    let (buf, n) := vsnprintf a.buf a.pos.toNat (socketAnswerMaxSize - a.pos.toNat) text
    let pos := toInt32 (a.pos + n)
    ⟨buf, if socketAnswerMaxSize < pos then -1 else pos⟩

/-- `socket_answer_end` for an open connection: what it sends. A negative `socket_answer_pos` is
given to `bufferevent_write` as a size that no memory has; `huge` is what that sends. -/
def socketAnswerEnd (huge : SocketAnswer → List UInt8) (a : SocketAnswer) :
    List UInt8 × SocketAnswer :=
  (lit "ANSWER " ++ decimal a.pos ++ [10] ++ (if a.pos < 0 then huge a else a.buf.take a.pos.toNat)
    ++ [10], { a with pos := -1 })

/-- An answer of some pieces. -/
def answer (huge : SocketAnswer → List UInt8) (a : SocketAnswer) (pieces : List (List UInt8)) :
    List UInt8 × SocketAnswer :=
  socketAnswerEnd huge (pieces.foldl socketAnswerAddPrintf (socketAnswerStart a))

/-- Answers in a row. -/
def stream (huge : SocketAnswer → List UInt8) : SocketAnswer → List (List (List UInt8)) → List UInt8
  | _, [] => []
  | a, pieces :: answers =>
    (answer huge a pieces).1 ++ stream huge (answer huge a pieces).2 answers

/-! ### The client -/

/-- A frame of a body. -/
def frame (body : List UInt8) : List UInt8 :=
  lit "ANSWER " ++ (decimalNat body.length ++ ([10] ++ (body ++ [10])))

/-- A decimal number. -/
def readNumber : Reader ℕ := fun s =>
  let (n, t) := scanDigits 10 0 s
  if t.length = s.length then none else some (n, t)

/-- `ANSWER `, a decimal `n`, a newline, `n` bytes and a newline. -/
def readAnswer : Reader (List UInt8) := do
  expect (lit "ANSWER ")
  let n ← readNumber
  expect [10]
  let body ← readExact n
  expect [10]
  return body

/-- The client reads answers until nothing is left. -/
def readAnswers : List UInt8 → Option (List (List UInt8)) := readAll readAnswer

theorem readNumber_decimalNat (n : ℕ) (s : List UInt8) :
    readNumber (decimalNat n ++ ([10] ++ s)) = some (n, [10] ++ s) := by
  have hlen := List.length_pos_of_ne_nil (decimalNat_ne_nil n)
  unfold readNumber
  rw [List.singleton_append, scanDigits_decimalNat n s (by decide)]
  simp only
  rw [if_neg (by rw [List.length_append]; omega)]

theorem readAnswer_frame (body s : List UInt8) : readAnswer (frame body ++ s) = some (body, s) := by
  unfold readAnswer frame
  simp only [List.append_assoc]
  rw [bind_expect, bind_of_eq (readNumber_decimalNat body.length (body ++ ([10] ++ s))),
    bind_expect, bind_readExact rfl, bind_expect]
  rfl

/-! ### One piece -/

/-- What a piece adds to the position. -/
def advance (piece : List UInt8) : ℤ := if piece.length ≤ intMax then piece.length else -1

theorem addPrintf_of_neg {a : SocketAnswer} (h : a.pos < 0) (piece : List UInt8) :
    socketAnswerAddPrintf a piece = a := by
  unfold socketAnswerAddPrintf
  rw [if_pos h]

theorem addPrintf_pos {a : SocketAnswer} (h : 0 ≤ a.pos) (piece : List UInt8) :
    (socketAnswerAddPrintf a piece).pos = if socketAnswerMaxSize < toInt32 (a.pos + advance piece)
      then -1 else toInt32 (a.pos + advance piece) := by
  unfold socketAnswerAddPrintf
  rw [if_neg (by omega)]
  rfl

theorem addPrintf_buf {a : SocketAnswer} (h : 0 ≤ a.pos) (piece : List UInt8) :
    (socketAnswerAddPrintf a piece).buf =
      (vsnprintf a.buf a.pos.toNat (socketAnswerMaxSize - a.pos.toNat) piece).1 := by
  unfold socketAnswerAddPrintf
  rw [if_neg (by omega)]

section Vsnprintf

variable {buf text : List UInt8} {pos size : ℕ}

/-- What stands in front is not touched. -/
theorem vsnprintf_take {m : ℕ} (hm : m ≤ pos) (hpos : pos ≤ buf.length) :
    (vsnprintf buf pos size text).1.take m = buf.take m := by
  unfold vsnprintf
  simp only
  split_ifs
  · rfl
  · rw [List.append_assoc, List.take_append_of_le_length (by rw [List.length_take]; omega),
      List.take_take, Nat.min_eq_left hm]

/-- A text that fits with its NUL is written. -/
theorem vsnprintf_fit (hpos : pos ≤ buf.length) (hfit : text.length < size) :
    (vsnprintf buf pos size text).1.take (pos + text.length) = buf.take pos ++ text := by
  unfold vsnprintf
  simp only
  rw [if_neg (by omega), List.take_of_length_le (l := text) (by omega), List.take_left']
  rw [List.length_append, List.length_take]
  omega

/-- Of a text that fits without its NUL the last byte gives way to it. -/
theorem vsnprintf_full (hpos : pos ≤ buf.length) (hsize : 0 < size) (hfull : text.length = size) :
    (vsnprintf buf pos size text).1.take (pos + text.length) =
      buf.take pos ++ text.take (size - 1) ++ [0] := by
  unfold vsnprintf
  simp only
  rw [if_neg (by omega), List.append_cons, List.take_left']
  simp only [List.length_append, List.length_take, List.length_singleton]
  omega

theorem vsnprintf_length (size : ℕ) (text : List UInt8) (hpos : pos ≤ buf.length) :
    pos + min text.length size ≤ (vsnprintf buf pos size text).1.length := by
  unfold vsnprintf
  simp only
  split_ifs
  · omega
  · simp only [List.length_append, List.length_cons, List.length_take, List.length_drop]
    omega

end Vsnprintf

/-! ### Answers that fit -/

/-- The buffer up to the position is the text. -/
structure Holds (a : SocketAnswer) (text : List UInt8) : Prop where
  pos : a.pos = text.length
  buf : a.buf.take text.length = text

theorem Holds.length_le {a : SocketAnswer} {text : List UInt8} (h : Holds a text) :
    text.length ≤ a.buf.length := by
  have hlen := congrArg List.length h.buf
  rw [List.length_take] at hlen
  omega

theorem Holds.addPrintf {a : SocketAnswer} {text piece : List UInt8} (h : Holds a text)
    (hlen : text.length + piece.length < socketAnswerMaxSize) :
    Holds (socketAnswerAddPrintf a piece) (text ++ piece) := by
  have hle := h.length_le
  obtain ⟨hpos, hbuf⟩ := h
  have hmax : socketAnswerMaxSize = 2 ^ 25 := rfl
  have hadvance : advance piece = piece.length := if_pos (by unfold intMax; omega)
  refine ⟨?_, ?_⟩
  · rw [addPrintf_pos (by omega), hpos, hadvance, toInt32_of_lt (by omega) (by omega),
      if_neg (by omega), List.length_append, Nat.cast_add]
  · rw [addPrintf_buf (by omega), hpos, Int.toNat_natCast, List.length_append,
      vsnprintf_fit hle (by omega), hbuf]

theorem Holds.foldl : ∀ (pieces : List (List UInt8)) {a : SocketAnswer} {text : List UInt8},
    Holds a text → text.length + pieces.flatten.length < socketAnswerMaxSize →
    Holds (pieces.foldl socketAnswerAddPrintf a) (text ++ pieces.flatten)
  | [], a, text, h, _ => by rwa [List.flatten_nil, List.append_nil]
  | piece :: pieces, a, text, h, hlen => by
    rw [List.flatten_cons, List.length_append] at hlen
    have hpiece : Holds (socketAnswerAddPrintf a piece) (text ++ piece) := h.addPrintf (by omega)
    have ih := Holds.foldl pieces hpiece (by rw [List.length_append]; omega)
    rwa [List.append_assoc] at ih

/-- An answer that fits is sent as a frame. -/
theorem answer_eq_frame {huge : SocketAnswer → List UInt8} (a : SocketAnswer)
    {pieces : List (List UInt8)} (h : pieces.flatten.length < socketAnswerMaxSize) :
    (answer huge a pieces).1 = frame pieces.flatten := by
  have hstart : Holds (socketAnswerStart a) [] := ⟨rfl, rfl⟩
  have hend := hstart.foldl pieces (by simpa using h)
  rw [List.nil_append] at hend
  unfold answer socketAnswerEnd frame
  simp only [hend.pos]
  rw [if_neg (by omega), Int.toNat_natCast, hend.buf, decimal_natCast]
  simp only [List.append_assoc]

theorem stream_eq_frames {huge : SocketAnswer → List UInt8} :
    ∀ {answers : List (List (List UInt8))} (a : SocketAnswer),
    (∀ pieces ∈ answers, pieces.flatten.length < socketAnswerMaxSize) →
    stream huge a answers = (answers.map fun pieces => frame pieces.flatten).flatten
  | [], _, _ => rfl
  | pieces :: answers, a, h => by
    rw [stream, answer_eq_frame a (h pieces List.mem_cons_self),
      stream_eq_frames _ fun p hp => h p (List.mem_cons_of_mem pieces hp)]
    rfl

/-- **A client reads back** the answers that were sent, each shorter than the buffer. -/
theorem readAnswers_stream (huge : SocketAnswer → List UInt8) (a : SocketAnswer)
    (answers : List (List (List UInt8)))
    (h : ∀ pieces ∈ answers, pieces.flatten.length < 2 ^ 25) :
    readAnswers (stream huge a answers) = some (answers.map List.flatten) := by
  rw [stream_eq_frames a h]
  exact readAll_encoded fun pieces _ =>
    ⟨by unfold frame; exact List.append_ne_nil_of_left_ne_nil (by decide) _,
      readAnswer_frame pieces.flatten⟩

/-- Two answers, the second of which has the text of a frame. -/
theorem readAnswers_stream_frame :
    readAnswers (stream (fun _ => []) ⟨[], -1⟩ [[lit "a", lit "b\n"], [lit "ANSWER 1\nx\n"]]) =
      some [lit "ab\n", lit "ANSWER 1\nx\n"] :=
  readAnswers_stream (fun _ => []) ⟨[], -1⟩ [[lit "a", lit "b\n"], [lit "ANSWER 1\nx\n"]]
    (by decide)

/-! ### Any pieces -/

/-- The position stays within the buffer, from `p` on. -/
def Stays : ℤ → List (List UInt8) → Prop
  | _, [] => True
  | p, piece :: pieces =>
    (0 ≤ p + advance piece ∧ p + advance piece ≤ socketAnswerMaxSize) ∧
      Stays (p + advance piece) pieces

/-- **What is sent is a frame** of at most 2^25 bytes, all of them printed. -/
def WellFormed (printed sent : List UInt8) : Prop :=
  ∃ body, sent = frame body ∧ body.length ≤ socketAnswerMaxSize ∧ ∀ b ∈ body, b ∈ printed

/-- The buffer up to the position has printed bytes only, but for the NUL in the last place of a
full buffer. -/
structure Printed (a : SocketAnswer) (text : List UInt8) : Prop where
  nonneg : 0 ≤ a.pos
  max : a.pos ≤ socketAnswerMaxSize
  le : a.pos.toNat ≤ a.buf.length
  mem : a.pos < socketAnswerMaxSize → ∀ b ∈ a.buf.take a.pos.toNat, b ∈ text
  full : a.pos = socketAnswerMaxSize → ∃ body, a.buf.take a.pos.toNat = body ++ [0] ∧
    ∀ b ∈ body, b ∈ text

theorem advance_bounds (piece : List UInt8) : -1 ≤ advance piece ∧ advance piece < 2 ^ 31 := by
  unfold advance intMax
  split_ifs <;> omega

theorem foldl_of_neg {a : SocketAnswer} (h : a.pos < 0) :
    ∀ pieces : List (List UInt8), pieces.foldl socketAnswerAddPrintf a = a
  | [] => rfl
  | piece :: pieces => by rw [List.foldl_cons, addPrintf_of_neg h, foldl_of_neg h pieces]

/-- A piece that leaves the buffer gives the answer up. -/
theorem addPrintf_leaves {a : SocketAnswer} {text piece : List UInt8} (h : Printed a text)
    (hout : ¬ (0 ≤ a.pos + advance piece ∧ a.pos + advance piece ≤ socketAnswerMaxSize)) :
    (socketAnswerAddPrintf a piece).pos < 0 := by
  have h0 := h.nonneg
  have hmax := h.max
  have hsize : socketAnswerMaxSize = 2 ^ 25 := rfl
  obtain ⟨hlo, hhi⟩ := advance_bounds piece
  rw [addPrintf_pos h0]
  by_cases hbig : a.pos + advance piece < 2 ^ 31
  · rw [toInt32_of_lt (by omega) hbig]
    split_ifs <;> omega
  · have hneg := toInt32_of_ge (x := a.pos + advance piece) (by omega)
    rw [if_neg (by omega)]
    omega

/-- In front of the last place of the buffer all bytes are printed. -/
theorem Printed.mem_of_lt {a : SocketAnswer} {text : List UInt8} (h : Printed a text) {m : ℕ}
    (hm : m < a.pos) : ∀ b ∈ a.buf.take m, b ∈ text := by
  have htake : a.buf.take m = (a.buf.take a.pos.toNat).take m := by
    rw [List.take_take, Nat.min_eq_left (by omega)]
  intro b hb
  rw [htake] at hb
  rcases h.max.lt_or_eq with hlt | heq
  · exact h.mem hlt b (List.mem_of_mem_take hb)
  · obtain ⟨body, hbody, hprinted⟩ := h.full heq
    have hlen := congrArg List.length hbody
    have hle := h.le
    rw [List.length_take, List.length_append, List.length_singleton] at hlen
    rw [hbody, List.take_append_of_le_length (by omega)] at hb
    exact hprinted b (List.mem_of_mem_take hb)

/-- A piece too long for `vsnprintf` takes one byte back. -/
theorem Printed.addPrintf_long {a : SocketAnswer} {text piece : List UInt8} (h : Printed a text)
    (hlong : advance piece = -1) (hpos : 0 < a.pos) :
    (socketAnswerAddPrintf a piece).pos = a.pos - 1 ∧
      Printed (socketAnswerAddPrintf a piece) (text ++ piece) := by
  have hmax := h.max
  have hle := h.le
  have hsize : socketAnswerMaxSize = 2 ^ 25 := rfl
  have hpos' : (socketAnswerAddPrintf a piece).pos = a.pos - 1 := by
    rw [addPrintf_pos (by omega), hlong, toInt32_of_lt (by omega) (by omega), if_neg (by omega)]
    rfl
  have hlength := vsnprintf_length (socketAnswerMaxSize - a.pos.toNat) piece hle
  refine ⟨hpos', ⟨by omega, by omega, ?_, fun _ b hb => ?_, fun hf => by omega⟩⟩
  · rw [hpos', addPrintf_buf (by omega)]
    omega
  · rw [hpos', addPrintf_buf (by omega), vsnprintf_take (by omega) hle] at hb
    exact List.mem_append_left _ (h.mem_of_lt (by omega) b hb)

/-- A piece that ends within the buffer. -/
theorem Printed.addPrintf_short {a : SocketAnswer} {text piece : List UInt8} (h : Printed a text)
    (hshort : advance piece = piece.length) (hin : a.pos + piece.length ≤ socketAnswerMaxSize) :
    (socketAnswerAddPrintf a piece).pos = a.pos + piece.length ∧
      Printed (socketAnswerAddPrintf a piece) (text ++ piece) := by
  obtain ⟨n, hn⟩ := Int.eq_ofNat_of_zero_le h.nonneg
  obtain ⟨-, -, hle, hmem, hfull⟩ := h
  have hsize : socketAnswerMaxSize = 2 ^ 25 := rfl
  rw [hn, Int.toNat_natCast] at hle hmem hfull
  rw [hn] at hin
  have hpos : (socketAnswerAddPrintf a piece).pos = ((n + piece.length : ℕ) : ℤ) := by
    rw [addPrintf_pos (by omega), hn, hshort, toInt32_of_lt (by omega) (by omega),
      if_neg (by omega), Nat.cast_add]
  have hbuf : (socketAnswerAddPrintf a piece).buf =
      (vsnprintf a.buf n (socketAnswerMaxSize - n) piece).1 := by
    rw [addPrintf_buf (by omega), hn, Int.toNat_natCast]
  have hlength := vsnprintf_length (socketAnswerMaxSize - n) piece hle
  refine ⟨by rw [hpos, hn, Nat.cast_add], ⟨by omega, by omega, ?_, fun hlt b hb => ?_,
    fun heq => ?_⟩⟩
  · rw [hpos, hbuf]
    omega
  · rw [hpos, hbuf, Int.toNat_natCast, vsnprintf_fit hle (by omega), List.mem_append] at hb
    rw [List.mem_append]
    exact hb.imp_left (hmem (by omega) b)
  · rw [hpos, hbuf, Int.toNat_natCast]
    rw [hpos] at heq
    by_cases hzero : n = socketAnswerMaxSize
    · obtain ⟨body, hbody, hprinted⟩ := hfull (by omega)
      have hnil : piece = [] := List.eq_nil_of_length_eq_zero (by omega)
      refine ⟨body, ?_, fun b hb => List.mem_append_left _ (hprinted b hb)⟩
      rw [hnil, List.length_nil, Nat.add_zero, vsnprintf_take le_rfl hle, hbody]
    · refine ⟨a.buf.take n ++ piece.take (socketAnswerMaxSize - n - 1),
        vsnprintf_full hle (by omega) (by omega), fun b hb => ?_⟩
      rw [List.mem_append] at hb ⊢
      exact hb.imp (hmem (by omega) b) List.mem_of_mem_take

/-- **A piece that stays within the buffer.** -/
theorem Printed.addPrintf {a : SocketAnswer} {text piece : List UInt8} (h : Printed a text)
    (hin : 0 ≤ a.pos + advance piece ∧ a.pos + advance piece ≤ socketAnswerMaxSize) :
    (socketAnswerAddPrintf a piece).pos = a.pos + advance piece ∧
      Printed (socketAnswerAddPrintf a piece) (text ++ piece) := by
  by_cases hlen : piece.length ≤ intMax
  · have hshort : advance piece = piece.length := if_pos hlen
    rw [hshort] at hin ⊢
    exact h.addPrintf_short hshort hin.2
  · have hlong : advance piece = -1 := if_neg hlen
    rw [hlong] at hin ⊢
    exact h.addPrintf_long hlong (by omega)

/-! ### All pieces -/

theorem start_printed (a : SocketAnswer) : Printed (socketAnswerStart a) [] :=
  ⟨le_rfl, by unfold socketAnswerMaxSize; exact Int.natCast_nonneg _, Nat.zero_le _,
    fun _ b hb => by simp [socketAnswerStart] at hb, fun h => by cases h⟩

theorem Printed.foldl : ∀ (pieces : List (List UInt8)) {a : SocketAnswer} {text : List UInt8},
    Printed a text → Stays a.pos pieces →
    (pieces.foldl socketAnswerAddPrintf a).pos = a.pos + (pieces.map advance).sum ∧
      Printed (pieces.foldl socketAnswerAddPrintf a) (text ++ pieces.flatten)
  | [], a, text, h, _ => by
    rw [List.flatten_nil, List.append_nil, List.map_nil, List.sum_nil, add_zero]
    exact ⟨rfl, h⟩
  | piece :: pieces, a, text, h, hs => by
    obtain ⟨hpos, hpiece⟩ := h.addPrintf hs.1
    obtain ⟨hend, ih⟩ := Printed.foldl pieces hpiece (by rw [hpos]; exact hs.2)
    rw [List.append_assoc] at ih
    refine ⟨?_, ih⟩
    rw [List.foldl_cons, hend, hpos, List.map_cons, List.sum_cons, add_assoc]

theorem Printed.foldl_leaves : ∀ {pieces : List (List UInt8)} {a : SocketAnswer}
    {text : List UInt8}, Printed a text → ¬ Stays a.pos pieces →
    (pieces.foldl socketAnswerAddPrintf a).pos < 0
  | [], _, _, _, hs => absurd trivial hs
  | piece :: pieces, a, text, h, hs => by
    rw [List.foldl_cons]
    by_cases hin : 0 ≤ a.pos + advance piece ∧ a.pos + advance piece ≤ socketAnswerMaxSize
    · obtain ⟨hpos, hpiece⟩ := h.addPrintf hin
      exact Printed.foldl_leaves hpiece fun hstays => hs ⟨hin, hpos ▸ hstays⟩
    · have hneg := addPrintf_leaves h hin
      rwa [foldl_of_neg hneg]

theorem readNumber_minus (s : List UInt8) : readNumber (45 :: s) = none := by
  unfold readNumber
  rw [scanDigits, if_neg (by decide)]
  exact if_pos rfl

theorem readAnswer_of_neg {x : ℤ} (hx : x < 0) (s : List UInt8) :
    readAnswer (lit "ANSWER " ++ (decimal x ++ s)) = none := by
  unfold readAnswer decimal
  rw [if_pos hx, bind_expect, List.cons_append]
  simp only [bind, StateT.bind, readNumber_minus, Option.bind_none]

/-- What is sent when the answer was given up is no frame. -/
theorem not_wellFormed_of_neg {huge : SocketAnswer → List UInt8} {a : SocketAnswer}
    {text : List UInt8} (h : a.pos < 0) : ¬ WellFormed text (socketAnswerEnd huge a).1 := by
  rintro ⟨body, hsent, -⟩
  have hread := readAnswer_frame body []
  rw [List.append_nil, ← hsent] at hread
  unfold socketAnswerEnd at hread
  simp only [List.append_assoc] at hread
  rw [readAnswer_of_neg h] at hread
  cases hread

theorem socketAnswerEnd_of_nonneg {huge : SocketAnswer → List UInt8} {a : SocketAnswer}
    (h : 0 ≤ a.pos) (hle : a.pos.toNat ≤ a.buf.length) :
    (socketAnswerEnd huge a).1 = frame (a.buf.take a.pos.toNat) := by
  obtain ⟨n, hn⟩ := Int.eq_ofNat_of_zero_le h
  rw [hn, Int.toNat_natCast] at hle ⊢
  unfold socketAnswerEnd frame
  rw [hn, if_neg (by omega), Int.toNat_natCast, decimal_natCast, List.length_take,
    Nat.min_eq_left hle]
  simp only [List.append_assoc]

theorem frame_injective {a b : List UInt8} (h : frame a = frame b) : a = b := by
  have ha := readAnswer_frame a []
  rw [h, readAnswer_frame] at ha
  cases ha
  rfl

/-- **What is sent for any pieces** is a frame of printed bytes exactly when the position stays
within the buffer and, where it ends at its end, a NUL was printed. -/
theorem answer_wellFormed_iff (huge : SocketAnswer → List UInt8) (a : SocketAnswer)
    (pieces : List (List UInt8)) : WellFormed pieces.flatten (answer huge a pieces).1 ↔
      Stays 0 pieces ∧ ((pieces.map advance).sum < 2 ^ 25 ∨ 0 ∈ pieces.flatten) := by
  have hstart := start_printed a
  unfold answer
  by_cases hs : Stays 0 pieces
  · obtain ⟨hpos, hend⟩ := hstart.foldl pieces hs
    rw [List.nil_append] at hend
    rw [show (socketAnswerStart a).pos = 0 from rfl, zero_add] at hpos
    rw [socketAnswerEnd_of_nonneg hend.nonneg hend.le, ← hpos]
    have hmax := hend.max
    constructor
    · rintro ⟨body, hbody, -, hprinted⟩
      refine ⟨hs, ?_⟩
      rcases hend.max.lt_or_eq with hlt | heq
      · exact Or.inl hlt
      · obtain ⟨init, hinit, -⟩ := hend.full heq
        refine Or.inr (hprinted 0 ?_)
        rw [← frame_injective hbody, hinit]
        exact List.mem_append_right _ List.mem_cons_self
    · rintro ⟨-, hcond⟩
      refine ⟨_, rfl, by rw [List.length_take]; omega, ?_⟩
      rcases hend.max.lt_or_eq with hlt | heq
      · exact hend.mem hlt
      · obtain ⟨init, hinit, hprinted⟩ := hend.full heq
        rw [hinit]
        have hzero := hcond.resolve_left (by rw [heq]; exact lt_irrefl _)
        exact List.forall_mem_append.mpr ⟨hprinted, by simpa using hzero⟩
  · exact iff_of_false (not_wellFormed_of_neg (hstart.foldl_leaves hs)) fun h => hs h.1

/-- One byte more than the buffer has. -/
theorem overflow_not_wellFormed :
    2 ^ 25 ≤ [List.replicate (2 ^ 25 + 1) (97 : UInt8)].flatten.length ∧
      ¬ WellFormed [List.replicate (2 ^ 25 + 1) (97 : UInt8)].flatten
        (answer (fun _ => []) ⟨[], -1⟩ [List.replicate (2 ^ 25 + 1) 97]).1 := by
  have hadvance : advance (List.replicate (2 ^ 25 + 1) (97 : UInt8)) = 2 ^ 25 + 1 := by
    unfold advance intMax
    rw [List.length_replicate, if_pos (by omega)]
    rfl
  have hout : ¬ Stays 0 [List.replicate (2 ^ 25 + 1) (97 : UInt8)] := by
    rintro ⟨⟨-, hle⟩, -⟩
    rw [hadvance, socketAnswerMaxSize] at hle
    omega
  refine ⟨?_, not_wellFormed_of_neg ((start_printed _).foldl_leaves hout)⟩
  rw [List.flatten_singleton, List.length_replicate]
  omega

end TelegramCli.Control.AnswerFrames
