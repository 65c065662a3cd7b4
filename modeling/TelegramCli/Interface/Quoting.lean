import TelegramCli.Interface.Token

/-! # Quoted words

A word is quoted by a quote character on both sides and a backslash before every backslash and
every occurrence of that quote character (`escape`). The scanner reads it in two passes: the first
finds the closing quote, toggling a flag at backslashes, the second copies the bytes between,
looking one byte ahead at a backslash. On an escaped word both end at the closing quote
(`scanQuote_escape`, `unescapeLoop_escape`), so a line of quoted words is read back word by word
(`nextTokens_quoted`). -/

namespace TelegramCli.Interface.Quoting

open TelegramCli.Lib.CString TelegramCli.Interface.Token

/-- The word with a backslash before every backslash and every `q`. -/
def escape (q : UInt8) (w : List UInt8) : List UInt8 :=
  w.flatMap fun c => if c = backslash ∨ c = q then [backslash, c] else [c]

@[simp] theorem escape_nil (q : UInt8) : escape q [] = [] := rfl

theorem escape_cons (q c : UInt8) (w : List UInt8) : escape q (c :: w) =
    (if c = backslash ∨ c = q then [backslash, c] else [c]) ++ escape q w := by
  simp [escape]

/-- A quote character. -/
def IsQuote (q : UInt8) : Prop := q = dquote ∨ q = squote

theorem IsQuote.ne_backslash {q : UInt8} (h : IsQuote q) : q ≠ backslash := by
  rcases h with rfl | rfl <;> decide

theorem IsQuote.ne_zero {q : UInt8} (h : IsQuote q) : q ≠ 0 := by
  rcases h with rfl | rfl <;> decide

theorem IsQuote.lt {q : UInt8} (h : IsQuote q) : 32 < q := by
  rcases h with rfl | rfl <;> decide

/-- None of the named escapes is written by `escape`. -/
theorem IsQuote.unescapeChar {q c : UInt8} (h : IsQuote q) (hc : c = backslash ∨ c = q) :
    unescapeChar c = c := by
  rcases hc with rfl | rfl
  · decide
  · rcases h with rfl | rfl <;> decide

/-! ### The two passes -/

/-- The bytes of an escaped word cost the scan nothing: it enters and leaves them with the flag
cleared. -/
theorem scanQuote_escape {q : UInt8} (hq : IsQuote q) : ∀ {w : List UInt8} (rest : List UInt8),
    0 ∉ w → scanQuote q false (escape q w ++ q :: rest) = q :: rest
  | [], rest, _ => by simp [scanQuote]
  | c :: w, rest, hw => by
    have h0 : c ≠ 0 := fun e => hw (by simp [e])
    have ih := scanQuote_escape hq (w := w) rest fun h => hw (List.mem_cons_of_mem _ h)
    rw [escape_cons]
    by_cases hc : c = backslash ∨ c = q
    · have hb : backslash ≠ q := hq.ne_backslash.symm
      have hb0 : backslash ≠ 0 := by decide
      rw [if_pos hc]
      simp only [List.cons_append, List.nil_append, scanQuote]
      rw [if_pos ⟨hb0, Or.inr hb⟩]
      simp only [↓reduceIte, Bool.not_false, true_or, and_true]
      rw [if_pos h0]
      -- the second byte of the pair is passed with the flag set and clears it
      by_cases hcb : c = backslash <;> simp [hcb, ih]
    · obtain ⟨hcb, hcq⟩ := not_or.mp hc
      rw [if_neg hc]
      simp only [List.cons_append, List.nil_append, scanQuote]
      rw [if_pos ⟨h0, Or.inr hcq⟩, if_neg hcb, ih]

/-- Unescaping an escaped word gives the word and stops at the closing quote. -/
theorem unescapeLoop_escape {q : UInt8} (hq : IsQuote q) : ∀ {w : List UInt8} {len : ℕ}
    (rest : List UInt8), len + w.length ≤ tokenMax →
      unescapeLoop len (escape q w ++ q :: rest) (escape q w).length = some (w, q :: rest)
  | [], _, rest, _ => by simp [unescapeLoop]
  | c :: w, len, rest, hl => by
    have hl' : len < tokenMax := by simp only [List.length_cons] at hl; omega
    have ih := @unescapeLoop_escape q hq w (len + 1) rest
      (by simp only [List.length_cons] at hl; omega)
    rw [escape_cons]
    by_cases hc : c = backslash ∨ c = q
    · rw [if_pos hc]
      simp only [List.cons_append, List.nil_append, List.length_cons]
      rw [unescapeLoop_backslash hl', ih, hq.unescapeChar hc]
      rfl
    · obtain ⟨hcb, -⟩ := not_or.mp hc
      rw [if_neg hc]
      simp only [List.cons_append, List.nil_append, List.length_cons]
      rw [unescapeLoop_plain hl' hcb, ih]
      rfl

/-! ### A line of quoted words -/

/-- A word, the quote character it is put between, and the blanks that follow it. -/
structure QuotedWord where
  quote : UInt8
  word : List UInt8
  sep : List UInt8
  isQuote : IsQuote quote
  nulFree : 0 ∉ word
  length_le : word.length ≤ tokenMax
  blank : ∀ c ∈ sep, 1 ≤ c ∧ c ≤ 32

/-- The bytes between the quotes. -/
def QuotedWord.body (w : QuotedWord) : List UInt8 := escape w.quote w.word

/-- The word in the line, with the blanks after it. -/
def QuotedWord.text (w : QuotedWord) : List UInt8 := w.quote :: (w.body ++ w.quote :: w.sep)

/-- A line of quoted words. -/
def quotedLine (ws : List QuotedWord) : List UInt8 := ws.flatMap QuotedWord.text

/-- `n` calls of `next_token`: the scanner after each. -/
def nextTokens (forceEndMode : Bool) : ℕ → Scanner → Option (List Scanner)
  | 0, _ => some []
  | n + 1, s => do
    let t ← nextToken forceEndMode s
    let ts ← nextTokens forceEndMode n t
    return t :: ts

/-- The scanner behind a quoted word. -/
def QuotedWord.scanned (w : QuotedWord) (rest : List UInt8) : Scanner where
  linePtr := w.sep ++ rest
  curToken := w.word
  curTokenLen := w.word.length
  curTokenEndStr := false
  curTokenQuoted := true

@[simp] theorem QuotedWord.scanned_tok (w : QuotedWord) (rest : List UInt8) :
    (w.scanned rest).tok = w.word := by
  simp [scanned, Scanner.tok]

/-- **One call of `next_token` reads one quoted word.** -/
theorem nextToken_quoted (force : Bool) (w : QuotedWord) (rest : List UInt8) (s : Scanner)
    (hs : skipWspc s.linePtr = w.text ++ rest) : nextToken force s = some (w.scanned rest) := by
  have hq := w.isQuote
  have hscan : scanQuote w.quote false (w.body ++ w.quote :: (w.sep ++ rest)) =
      w.quote :: (w.sep ++ rest) := scanQuote_escape hq _ w.nulFree
  have hun : unescapeToken (w.body ++ w.quote :: (w.sep ++ rest)) (w.quote :: (w.sep ++ rest)) =
      some w.word := by
    have h := @unescapeLoop_escape _ hq w.word 0 (w.sep ++ rest)
      (by have := w.length_le; omega)
    rw [unescapeToken, List.length_append, Nat.add_sub_cancel, QuotedWord.body, h]
    rfl
  have htext : w.text ++ rest = w.quote :: (w.body ++ w.quote :: (w.sep ++ rest)) := by
    simp [QuotedWord.text]
  unfold nextToken
  simp only [hs, htext, deref_cons, List.tail_cons, hscan, hun]
  rw [if_neg hq.ne_zero, if_pos (show w.quote = dquote ∨ w.quote = squote from hq),
    if_neg hq.ne_zero]
  rfl

/-- At the end of a line `next_token` reports it. -/
theorem nextToken_end (force : Bool) (s : Scanner) (hs : skipWspc s.linePtr = []) :
    nextToken force s = some { s with linePtr := [], curTokenLen := 0, curTokenEndStr := true,
                                      curTokenQuoted := false } := by
  simp [nextToken, hs]

theorem nextTokens_of_skip (force : Bool) : ∀ (ws : List QuotedWord) (s : Scanner),
    skipWspc s.linePtr = quotedLine ws → ∃ ts e,
      nextTokens force (ws.length + 1) s = some (ts ++ [e]) ∧
      ts.map Scanner.tok = ws.map QuotedWord.word ∧ (∀ t ∈ ts, t.curTokenQuoted = true) ∧
      e.curTokenEndStr = true
  | [], s, hs => by
    have hend := nextToken_end force s hs
    refine ⟨[], { s with linePtr := [], curTokenLen := 0, curTokenEndStr := true,
                         curTokenQuoted := false }, ?_, rfl, by simp, rfl⟩
    rw [List.length_nil, nextTokens, hend]
    rfl
  | w :: ws, s, hs => by
    have hstep := nextToken_quoted force w (quotedLine ws) s (by rw [hs]; rfl)
    have hskip : skipWspc (w.scanned (quotedLine ws)).linePtr = quotedLine ws := by
      rw [show (w.scanned (quotedLine ws)).linePtr = w.sep ++ quotedLine ws from rfl,
        skipWspc_append _ w.blank]
      cases ws with
      | nil => rfl
      | cons v ws => exact skipWspc_of_lt v.isQuote.lt _
    obtain ⟨ts, e, h1, h2, h3, h4⟩ := nextTokens_of_skip force ws _ hskip
    refine ⟨w.scanned (quotedLine ws) :: ts, e, ?_, by simp [h2], ?_, h4⟩
    · rw [List.length_cons, nextTokens, hstep]
      simp only [Option.bind_eq_bind, Option.bind_some, h1]
      rfl
    · intro t ht
      rcases List.mem_cons.mp ht with rfl | ht
      · rfl
      · exact h3 t ht

/-- **A line of quoted words is read back word by word**: `n` calls of `next_token` give the words
in order, each marked as quoted, and the next call reports the end of the line. For each word the
scan and the copy end at the closing quote. -/
theorem nextTokens_quoted (force : Bool) (s : Scanner) (ws : List QuotedWord) :
    (∃ ts e, nextTokens force (ws.length + 1) { s with linePtr := quotedLine ws } =
        some (ts ++ [e]) ∧ ts.map Scanner.tok = ws.map QuotedWord.word ∧
        (∀ t ∈ ts, t.curTokenQuoted = true) ∧ e.curTokenEndStr = true) ∧
      ∀ w ∈ ws, ∀ rest : List UInt8,
        scanQuote w.quote false (w.body ++ w.quote :: rest) = w.quote :: rest ∧
        unescapeLoop 0 (w.body ++ w.quote :: rest) w.body.length =
          some (w.word, w.quote :: rest) := by
  refine ⟨nextTokens_of_skip force ws _ ?_, fun w _ rest => ⟨?_, ?_⟩⟩
  · cases ws with
    | nil => rfl
    | cons w ws => exact skipWspc_of_lt w.isQuote.lt _
  · exact scanQuote_escape w.isQuote rest w.nulFree
  · exact unescapeLoop_escape w.isQuote rest (by have := w.length_le; omega)

/-- A word with a backslash and the quote character that it is put between, and two blanks. -/
def backslashWord : QuotedWord where
  quote := dquote
  word := [97, backslash, dquote]
  sep := [32, 32]
  isQuote := .inl rfl
  nulFree := by simp [backslash, dquote]
  length_le := by decide
  blank := by simp

/-- The line `"a\\\""`, which is one word. -/
theorem nextTokens_quoted_backslash :
    quotedLine [backslashWord] =
        [dquote, 97, backslash, backslash, backslash, dquote, dquote, 32, 32] ∧
      ∃ t e, nextTokens false 2 (Scanner.start (quotedLine [backslashWord])) = some [t, e] ∧
        t.tok = [97, backslash, dquote] ∧ t.curTokenQuoted = true ∧ e.curTokenEndStr = true := by
  refine ⟨rfl, ?_⟩
  obtain ⟨⟨ts, e, hread, htok, hquoted, hend⟩, -⟩ :=
    nextTokens_quoted false (Scanner.start []) [backslashWord]
  obtain ⟨t, rfl, ht⟩ := List.map_eq_singleton_iff.mp htok
  exact ⟨t, e, hread, ht, hquoted t (List.mem_singleton_self t), hend⟩

end TelegramCli.Interface.Quoting
