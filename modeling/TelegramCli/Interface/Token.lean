import TelegramCli.Lib.CString

/-! # The tokens of a command line

The static variables of the scanner (`line_ptr`, `cur_token`, ...) are the fields of
`Scanner`. A failed assertion is `none`. -/

namespace TelegramCli.Interface.Token

open TelegramCli.Lib.CString

/-- `'"'`, `'\''` and `'\\'`. -/
def dquote : UInt8 := 34

@[inherit_doc dquote] def squote : UInt8 := 39

@[inherit_doc dquote] def backslash : UInt8 := 92

/-- The bytes a quoted token may have, `1 << 20`. -/
def tokenMax : ℕ := 2 ^ 20

structure Scanner where
  linePtr : List UInt8
  curToken : List UInt8
  curTokenLen : ℤ
  curTokenEndStr : Bool
  curTokenQuoted : Bool
  deriving DecidableEq, Repr

/-- The scanner before the first line, standing at `line`. -/
def Scanner.start (line : List UInt8) : Scanner := ⟨line, [], 0, false, false⟩

/-- The bytes of the current token. -/
def Scanner.tok (s : Scanner) : List UInt8 := s.curToken.take s.curTokenLen.toNat

def skipWspc : List UInt8 → List UInt8
  | [] => []
  | c :: p => if c ≠ 0 ∧ c ≤ 32 then skipWspc p else c :: p

/-- The byte an escaped byte stands for. -/
def unescapeChar (c : UInt8) : UInt8 :=
  if c = 110 then 10 else if c = 114 then 13 else if c = 116 then 9
  else if c = 98 then 8 else if c = 97 then 7 else c

/-- The loop of `unescape_token` with `len` bytes written, `start` at the head of `mem` and `end`
`n` bytes behind it: the bytes it writes, and where it leaves `start`. -/
def unescapeLoop : ℕ → List UInt8 → ℕ → Option (List UInt8 × List UInt8)
  | _, mem, 0 => some ([], mem)
  | _, [], _ + 1 => none
  | len, c :: mem, n + 1 =>
    if len < tokenMax then
      if c = backslash then
        -- the byte behind a backslash is taken without a look at `end`
        match mem with
        | [] => some ([0], [])
        | d :: mem => (unescapeLoop (len + 1) mem (n - 1)).map fun r => (unescapeChar d :: r.1, r.2)
      else (unescapeLoop (len + 1) mem n).map fun r => (c :: r.1, r.2)
    else none

theorem unescapeLoop_backslash {len : ℕ} (h : len < tokenMax) (d : UInt8) (mem : List UInt8)
    (n : ℕ) : unescapeLoop len (backslash :: d :: mem) (n + 2) =
      (unescapeLoop (len + 1) mem n).map fun r => (unescapeChar d :: r.1, r.2) := by
  rw [unescapeLoop.eq_def]; simp [h]

theorem unescapeLoop_plain {len : ℕ} (h : len < tokenMax) {c : UInt8} (hc : c ≠ backslash)
    (mem : List UInt8) (n : ℕ) : unescapeLoop len (c :: mem) (n + 1) =
      (unescapeLoop (len + 1) mem n).map fun r => (c :: r.1, r.2) := by
  rw [unescapeLoop.eq_def]; simp [h, hc]

/-- The text `unescape_token` writes for the bytes from `start` up to `end`. -/
def unescapeToken (start end_ : List UInt8) : Option (List UInt8) :=
  (unescapeLoop 0 start (start.length - end_.length)).map Prod.fst

/-- The scan for the closing quote `c`; `esc` is set behind an odd run of backslashes. -/
def scanQuote (c : UInt8) : Bool → List UInt8 → List UInt8
  | _, [] => []
  | esc, x :: p =>
    if x ≠ 0 ∧ (esc = true ∨ x ≠ c) then
      scanQuote c (if x = backslash then !esc else false) p
    else x :: p

/-- The scan for the end of a word without quotes. -/
def skipWord : List UInt8 → List UInt8
  | [] => []
  | c :: p => if c ≠ 0 ∧ 32 < c then skipWord p else c :: p

def nextToken (forceEndMode : Bool) (s : Scanner) : Option Scanner :=
  let start := skipWspc s.linePtr
  let c := deref start
  if c = 0 then
    some { s with linePtr := start, curTokenLen := 0, curTokenEndStr := true,
                  curTokenQuoted := false }
  else if c = dquote ∨ c = squote then
    let close := scanQuote c false start.tail
    if deref close = 0 then
      some { s with linePtr := close, curTokenLen := -2, curTokenEndStr := false,
                    curTokenQuoted := true }
    else
      (unescapeToken start.tail close).map fun text =>
        { linePtr := close.tail, curToken := text, curTokenLen := text.length,
          curTokenEndStr := false, curTokenQuoted := true }
  else
    let stop := skipWord start
    some { linePtr := stop, curToken := start, curTokenLen := (start.length - stop.length : ℕ),
           curTokenEndStr := !forceEndMode && deref stop == 0, curTokenQuoted := false }

/-- The last loop of `next_token_end`: `len` without the blanks at the end of the token. -/
def trimEnd (tok : List UInt8) : ℕ → ℕ
  | 0 => 0
  | len + 1 => if tok.getD len 0 ≤ 32 then trimEnd tok len else len + 1

def nextTokenEnd (forceEndMode : Bool) (s : Scanner) : Option Scanner :=
  let start := skipWspc s.linePtr
  let c := deref start
  if c ≠ 0 ∧ c ≠ dquote ∧ c ≠ squote then
    let len := trimEnd start (cstring start).length
    if 0 < len then
      some { linePtr := start.drop (cstring start).length, curToken := start, curTokenLen := len,
             curTokenEndStr := !forceEndMode, curTokenQuoted := false }
    else none
  else if c ≠ 0 then do
    let t ← nextToken forceEndMode { s with linePtr := start }
    let stop := skipWspc t.linePtr
    if deref stop ≠ 0 then some { t with linePtr := stop, curTokenLen := -1 }
    else some { t with linePtr := stop }
  else nextToken forceEndMode { s with linePtr := start }

/-! ### Skipping blanks and words -/

@[simp] theorem skipWspc_nil : skipWspc [] = [] := rfl

theorem skipWspc_cons (c : UInt8) (p : List UInt8) :
    skipWspc (c :: p) = if c ≠ 0 ∧ c ≤ 32 then skipWspc p else c :: p := rfl

/-- Blanks in front are skipped. -/
theorem skipWspc_append : ∀ {b : List UInt8} (p : List UInt8), (∀ c ∈ b, 1 ≤ c ∧ c ≤ 32) →
    skipWspc (b ++ p) = skipWspc p
  | [], _, _ => rfl
  | c :: b, p, h => by
    have hc := h c (by simp)
    have h0 : c ≠ 0 := fun e => absurd (e ▸ hc.1) (by decide)
    rw [List.cons_append, skipWspc_cons, if_pos ⟨h0, hc.2⟩,
      skipWspc_append p fun d hd => h d (List.mem_cons_of_mem _ hd)]

theorem skipWspc_of_lt {c : UInt8} (h : 32 < c) (p : List UInt8) : skipWspc (c :: p) = c :: p := by
  rw [skipWspc_cons, if_neg fun hc => UInt8.not_le.mpr h hc.2]

/-! ### What a token takes -/

theorem length_skipWspc_le : ∀ p : List UInt8, (skipWspc p).length ≤ p.length
  | [] => le_rfl
  | c :: p => by
    rw [skipWspc_cons]
    split_ifs
    · exact (length_skipWspc_le p).trans (Nat.le_succ _)
    · exact le_rfl

theorem length_scanQuote_le (c : UInt8) : ∀ (esc : Bool) (p : List UInt8),
    (scanQuote c esc p).length ≤ p.length
  | _, [] => le_rfl
  | esc, x :: p => by
    rw [scanQuote]
    split_ifs
    · exact (length_scanQuote_le c _ p).trans (Nat.le_succ _)
    · exact (length_scanQuote_le c _ p).trans (Nat.le_succ _)
    · exact le_rfl

theorem length_skipWord_le : ∀ p : List UInt8, (skipWord p).length ≤ p.length
  | [] => le_rfl
  | c :: p => by
    rw [skipWord]
    split_ifs
    · exact (length_skipWord_le p).trans (Nat.le_succ _)
    · exact le_rfl

/-- The text that `skipWspc` leaves starts with a byte above the blanks, or with a terminator. -/
theorem skipWspc_head {p q : List UInt8} {c : UInt8} (h : skipWspc p = c :: q) (h0 : c ≠ 0) :
    32 < c := by
  induction p with
  | nil => cases h
  | cons d p ih =>
    rw [skipWspc_cons] at h
    split_ifs at h with hd
    · exact ih h
    · obtain ⟨rfl, rfl⟩ := List.cons.inj h
      exact UInt8.not_le.mp fun hle => hd ⟨h0, hle⟩

/-- **A token** that does not end the line takes at least a byte of it. -/
theorem nextToken_lt {force : Bool} {s t : Scanner} (h : nextToken force s = some t)
    (hend : t.curTokenEndStr = false) : t.linePtr.length < s.linePtr.length := by
  have hle := length_skipWspc_le s.linePtr
  unfold nextToken at h
  simp only at h
  cases hstart : skipWspc s.linePtr with
  | nil => simp [hstart] at h; subst h; cases hend
  | cons c q =>
    rw [hstart, List.length_cons] at hle
    have hscan : (scanQuote c false q).length ≤ q.length := length_scanQuote_le c false q
    simp only [hstart, deref_cons, List.tail_cons] at h
    split_ifs at h with h0 hquote hclose
    · cases h; cases hend
    · cases h
      exact Nat.lt_of_le_of_lt hscan hle
    · obtain ⟨text, -, rfl⟩ := Option.map_eq_some_iff.mp h
      have htail := List.length_tail (l := scanQuote c false q)
      simp only
      omega
    · cases h
      have hword := length_skipWord_le q
      have hc : 32 < c := skipWspc_head hstart h0
      simp only
      rw [skipWord, if_pos ⟨h0, hc⟩]
      omega

/-- A token that is put back is read again. -/
theorem nextToken_again {force : Bool} {s t : Scanner} (h : nextToken force s = some t) :
    nextToken force { t with linePtr := s.linePtr } = some t := by
  unfold nextToken at h ⊢
  simp only at h ⊢
  split_ifs at h ⊢
  · cases h; rfl
  · cases h; rfl
  · exact h
  · exact h

end TelegramCli.Interface.Token
