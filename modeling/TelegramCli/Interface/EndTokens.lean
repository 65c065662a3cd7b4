import TelegramCli.Interface.Quoting
import TelegramCli.Interface.Rounds
import Mathlib.Data.List.DropRight

/-! # The rest of a line as one token

`next_token_end` takes the rest of the line without the blanks around it, or the text of a single
quoted word (`Unquotes`); a quoted word with more behind it, or one that is not closed, has a
negative length (`end_token`). So a message text that neither starts nor ends with a blank, and does
not start with a quote, gets to the command as it stands in the line. -/

namespace TelegramCli.Interface.EndTokens

open TelegramCli.Lib.CString TelegramCli.Interface.Token TelegramCli.Interface.Quoting
open TelegramCli.Interface.Args TelegramCli.Interface.Slots TelegramCli.Interface.Rounds

/-- White space and the other bytes up to it. -/
def blank (c : UInt8) : Bool := c ≤ 32

/-- A quoted word behind its opening quote: the bytes up to the closing one, the text they stand
for, and what follows. -/
inductive Unquotes (q : UInt8) : List UInt8 → List UInt8 → List UInt8 → Prop
  | close (rest : List UInt8) : Unquotes q (q :: rest) [] rest
  | plain {c : UInt8} {p text rest : List UInt8} (h0 : c ≠ 0) (hq : c ≠ q) (hb : c ≠ backslash)
      (h : Unquotes q p text rest) : Unquotes q (c :: p) (c :: text) rest
  | escaped {c : UInt8} {p text rest : List UInt8} (h0 : c ≠ 0) (h : Unquotes q p text rest) :
      Unquotes q (backslash :: c :: p) (unescapeChar c :: text) rest

/-- The trimming loop of `next_token_end` with its accesses; `none` reads in front of the token. -/
def trimReads (tok : List UInt8) : ℕ → Option ℕ
  | 0 => none
  | len + 1 => if tok.getD len 0 ≤ 32 then trimReads tok len else some (len + 1)

/-! ### Blanks -/

theorem blank_iff {c : UInt8} : blank c = true ↔ c ≤ 32 := decide_eq_true_iff

theorem cstring_skipWspc : ∀ p : List UInt8, cstring (skipWspc p) = (cstring p).dropWhile blank
  | [] => rfl
  | c :: p => by
    rw [skipWspc_cons, cstring]
    by_cases h0 : c = 0
    · rw [if_neg (fun h => h.1 h0), cstring, if_pos h0, List.dropWhile_nil]
    · rw [if_neg h0]
      by_cases hc : c ≤ 32
      · rw [if_pos ⟨h0, hc⟩, List.dropWhile_cons_of_pos (blank_iff.mpr hc), cstring_skipWspc p]
      · rw [if_neg (fun h => hc h.2), List.dropWhile_cons_of_neg (mt blank_iff.mp hc), cstring,
          if_neg h0]

/-- The rest of the line starts with a byte that is no blank. -/
theorem skipWspc_of_rest {l : List UInt8} {c : UInt8} {p : List UInt8}
    (h : (cstring l).dropWhile blank = c :: p) :
    ∃ raw, skipWspc l = c :: raw ∧ cstring raw = p ∧ c ≠ 0 ∧ 32 < c := by
  rw [← cstring_skipWspc] at h
  cases hs : skipWspc l with
  | nil => simp [hs, cstring] at h
  | cons d raw =>
    rw [hs, cstring] at h
    split_ifs at h with hd
    obtain ⟨rfl, hp⟩ := List.cons.inj h
    exact ⟨raw, rfl, hp, hd, skipWspc_head hs hd⟩

theorem take_trimEnd (tok : List UInt8) : ∀ {n : ℕ}, n ≤ tok.length →
    tok.take (trimEnd tok n) = (tok.take n).rdropWhile blank
  | 0, _ => rfl
  | n + 1, h => by
    have hn : n < tok.length := h
    have htake : tok.take (n + 1) = tok.take n ++ [tok.getD n 0] := by
      rw [List.take_add_one, List.getElem?_eq_getElem hn, Option.toList_some,
        List.getD_eq_getElem?_getD, List.getElem?_eq_getElem hn, Option.getD_some]
    rw [trimEnd, htake]
    split_ifs with hc
    · rw [List.rdropWhile_concat_pos _ _ _ (blank_iff.mpr hc), take_trimEnd tok hn.le]
    · rw [List.rdropWhile_concat_neg _ _ _ (mt blank_iff.mp hc), htake]

theorem trimEnd_le (tok : List UInt8) : ∀ n, trimEnd tok n ≤ n
  | 0 => le_rfl
  | n + 1 => by
    rw [trimEnd]
    split_ifs
    · exact (trimEnd_le tok n).trans (Nat.le_succ n)
    · exact le_rfl

/-- The loop stops at the first byte, which is no blank. -/
theorem trimReads_eq {c : UInt8} (hc : 32 < c) (p : List UInt8) :
    ∀ len, trimReads (c :: p) (len + 1) = some (trimEnd (c :: p) (len + 1))
  | 0 => by
    have h0 : ¬ (c :: p).getD 0 0 ≤ 32 := UInt8.not_le.mpr hc
    rw [trimReads, trimEnd, if_neg h0, if_neg h0]
  | len + 1 => by
    rw [trimReads, trimEnd]
    split_ifs
    · exact trimReads_eq hc p len
    · rfl

/-! ### Quoted words -/

section Quoted

variable {q : UInt8} {p text rest : List UInt8}

theorem Unquotes.append (h : Unquotes q p text rest) (m : List UInt8) :
    Unquotes q (p ++ m) text (rest ++ m) := by
  induction h with
  | close rest => exact .close _
  | plain h0 hq hb _ ih => exact .plain h0 hq hb ih
  | escaped h0 _ ih => exact .escaped h0 ih

theorem Unquotes.string (h : Unquotes q p text rest) (hq : q ≠ 0) :
    Unquotes q (cstring p) text (cstring rest) := by
  induction h with
  | close rest =>
    rw [cstring, if_neg hq]
    exact .close _
  | plain h0 hq hb _ ih =>
    rw [cstring, if_neg h0]
    exact .plain h0 hq hb ih
  | escaped h0 _ ih =>
    rw [cstring, if_neg (by decide), cstring, if_neg h0]
    exact .escaped h0 ih

theorem Unquotes.rest_suffix (h : Unquotes q p text rest) : rest <:+ p := by
  induction h with
  | close rest => exact List.suffix_cons q rest
  | plain _ _ _ _ ih => exact ih.trans (List.suffix_cons _ _)
  | escaped _ _ ih => exact ih.trans ((List.suffix_cons _ _).trans (List.suffix_cons _ _))

theorem Unquotes.rest_lt (h : Unquotes q p text rest) : rest.length < p.length := by
  induction h with
  | close rest => exact Nat.lt_succ_self _
  | plain _ _ _ _ ih => exact ih.trans (Nat.lt_succ_self _)
  | escaped _ _ ih => exact ih.trans ((Nat.lt_succ_self _).trans (Nat.lt_succ_self _))

theorem scanQuote_of_unquotes (hq : IsQuote q) (h : Unquotes q p text rest) :
    scanQuote q false p = q :: rest := by
  induction h with
  | close rest => simp [scanQuote]
  | plain h0 hne hb _ ih => rw [scanQuote, if_pos ⟨h0, .inr hne⟩, if_neg hb, ih]
  | @escaped c p text rest h0 _ ih =>
    have hb0 : backslash ≠ 0 := by decide
    rw [scanQuote, if_pos ⟨hb0, .inr hq.ne_backslash.symm⟩, if_pos rfl, Bool.not_false, scanQuote,
      if_pos ⟨h0, .inl rfl⟩, Bool.not_true, ite_self, ih]

/-- The closing quote is found, or the word is not closed. -/
theorem scanQuote_cases (hq : IsQuote q) : ∀ p : List UInt8, deref (scanQuote q false p) = 0 ∨
    ∃ text rest, Unquotes q p text rest
  | [] => .inl rfl
  | c :: p => by
    by_cases h0 : c = 0
    · left
      rw [scanQuote, if_neg (fun h => h.1 h0), deref_cons, h0]
    by_cases hcq : c = q
    · exact .inr ⟨[], p, hcq ▸ .close p⟩
    by_cases hb : c = backslash
    · subst hb
      cases p with
      | nil =>
        left
        rw [scanQuote, if_pos ⟨h0, .inr hcq⟩]
        rfl
      | cons d p =>
        rw [scanQuote, if_pos ⟨h0, .inr hcq⟩, if_pos rfl, Bool.not_false, scanQuote]
        by_cases hd : d = 0
        · left
          rw [if_neg (fun h => h.1 hd), deref_cons, hd]
        · rw [if_pos ⟨hd, .inl rfl⟩, Bool.not_true, ite_self]
          refine (scanQuote_cases hq p).imp_right ?_
          rintro ⟨text, rest, h⟩
          exact ⟨_, rest, .escaped hd h⟩
    · rw [scanQuote, if_pos ⟨h0, .inr hcq⟩, if_neg hb]
      refine (scanQuote_cases hq p).imp_right ?_
      rintro ⟨text, rest, h⟩
      exact ⟨_, rest, .plain h0 hcq hb h⟩

theorem unescapeLoop_of_unquotes (h : Unquotes q p text rest) :
    ∀ {len : ℕ}, len + text.length ≤ tokenMax →
      unescapeLoop len p (p.length - (rest.length + 1)) = some (text, q :: rest) := by
  induction h with
  | close rest =>
    intro len _
    rw [List.length_cons, Nat.sub_self, unescapeLoop]
  | @plain c p text rest h0 hne hb h ih =>
    intro len hlen
    have hlt := Unquotes.rest_lt h
    rw [List.length_cons] at hlen
    rw [List.length_cons, show p.length + 1 - (rest.length + 1) = p.length - (rest.length + 1) + 1
      by omega, unescapeLoop_plain (by omega) hb, ih (by omega)]
    rfl
  | @escaped c p text rest h0 h ih =>
    intro len hlen
    have hlt := Unquotes.rest_lt h
    rw [List.length_cons] at hlen
    rw [List.length_cons, List.length_cons, show p.length + 1 + 1 - (rest.length + 1) =
      p.length - (rest.length + 1) + 2 by omega, unescapeLoop_backslash (by omega), ih (by omega)]
    rfl

end Quoted

/-! ### The three forms -/

section Forms

variable {force : Bool} {s : Scanner} {q : UInt8} {raw text rest : List UInt8}

theorem nextToken_unquotes (hq : IsQuote q) (hs : skipWspc s.linePtr = q :: raw)
    (h : Unquotes q raw text rest) (hlen : text.length ≤ tokenMax) :
    nextToken force s = some ⟨rest, text, text.length, false, true⟩ := by
  have hscan := scanQuote_of_unquotes hq h
  have hloop := @unescapeLoop_of_unquotes _ _ _ _ h 0 (by omega)
  have htext : unescapeToken raw (q :: rest) = some text := by
    rw [unescapeToken, List.length_cons, hloop]
    rfl
  have hquote : q = dquote ∨ q = squote := hq
  unfold nextToken
  simp only [hs, deref_cons, List.tail_cons, hscan, if_neg hq.ne_zero, if_pos hquote, htext]
  rfl

theorem nextToken_unclosed (hq : IsQuote q) (hs : skipWspc s.linePtr = q :: raw)
    (h : deref (scanQuote q false raw) = 0) :
    nextToken force s = some ⟨scanQuote q false raw, s.curToken, -2, false, true⟩ := by
  have hquote : q = dquote ∨ q = squote := hq
  unfold nextToken
  simp only [hs, deref_cons, List.tail_cons, if_neg hq.ne_zero, if_pos hquote, if_pos h]

theorem nextTokenEnd_quote (hq : IsQuote q) (hs : skipWspc s.linePtr = q :: raw) :
    nextTokenEnd force s = (nextToken force { s with linePtr := q :: raw }).map fun t =>
      if deref (skipWspc t.linePtr) ≠ 0 then
        { t with linePtr := skipWspc t.linePtr, curTokenLen := -1 }
      else { t with linePtr := skipWspc t.linePtr } := by
  have hword : ¬ (q ≠ 0 ∧ q ≠ dquote ∧ q ≠ squote) := fun h => by
    rcases hq with rfl | rfl
    · exact h.2.1 rfl
    · exact h.2.2 rfl
  unfold nextTokenEnd
  simp only [hs, deref_cons, if_neg hword, if_pos hq.ne_zero]
  cases nextToken force { s with linePtr := q :: raw } with
  | none => rfl
  | some t =>
    simp only [Option.bind_eq_bind, Option.bind_some, Option.map_some]
    split_ifs <;> rfl

/-- A blank line. -/
theorem end_blank (h : (cstring s.linePtr).dropWhile blank = []) :
    ∃ t, nextTokenEnd force s = some t ∧ t.curTokenLen = 0 ∧ t.curTokenEndStr = true := by
  have h0 : deref (skipWspc s.linePtr) = 0 := by
    rw [← deref_cstring, cstring_skipWspc, h, deref_nil]
  refine ⟨{ s with linePtr := skipWspc s.linePtr, curTokenLen := 0, curTokenEndStr := true,
                   curTokenQuoted := false }, ?_, rfl, rfl⟩
  unfold nextTokenEnd nextToken
  simp [h0, skipWspc_idem]

/-- Anything but a quoted word. -/
theorem end_plain {c : UInt8} {p : List UInt8} (h : (cstring s.linePtr).dropWhile blank = c :: p)
    (hq : ¬ IsQuote c) : ∃ t, nextTokenEnd force s = some t ∧
      t.tok = (c :: p).rdropWhile blank ∧ t.curTokenLen = t.tok.length ∧ 0 < t.curTokenLen ∧
      trimReads t.curToken (c :: p).length = some t.tok.length := by
  obtain ⟨raw, hs, rfl, h0, hc⟩ := skipWspc_of_rest h
  have hword : c ≠ 0 ∧ c ≠ dquote ∧ c ≠ squote := ⟨h0, not_or.mp hq⟩
  have hstring : cstring (c :: raw) = c :: cstring raw := by rw [cstring, if_neg h0]
  have hprefix : c :: cstring raw <+: c :: raw := hstring ▸ cstring_prefix (c :: raw)
  have hpos : 0 < trimEnd (c :: raw) (c :: cstring raw).length := trimEnd_pos hc raw _
  have hle := (trimEnd_le (c :: raw) (c :: cstring raw).length).trans hprefix.length_le
  have htok : (c :: raw).take (trimEnd (c :: raw) (c :: cstring raw).length) =
      (c :: cstring raw).rdropWhile blank := by
    rw [take_trimEnd _ hprefix.length_le, ← List.prefix_iff_eq_take.mp hprefix]
  refine ⟨{ linePtr := (c :: raw).drop (c :: cstring raw).length, curToken := c :: raw,
            curTokenLen := trimEnd (c :: raw) (c :: cstring raw).length, curTokenEndStr := !force,
            curTokenQuoted := false }, ?_, htok, ?_, Int.natCast_pos.mpr hpos, ?_⟩
  · unfold nextTokenEnd
    simp only [hs, deref_cons, hstring, if_pos hword, if_pos hpos]
  · rw [Scanner.tok, Int.toNat_natCast, List.length_take_of_le hle]
  · rw [Scanner.tok, Int.toNat_natCast, List.length_take_of_le hle]
    exact trimReads_eq hc raw _

/-- A quoted word that is closed. -/
theorem end_quoted {p : List UInt8} (hq : IsQuote q)
    (h : (cstring s.linePtr).dropWhile blank = q :: p) (hu : Unquotes q p text rest)
    (hlen : text.length ≤ tokenMax) : ∃ t, nextTokenEnd force s = some t ∧
      if rest.all blank = true then t.tok = text ∧ t.curTokenLen = text.length
      else t.curTokenLen < 0 := by
  obtain ⟨raw, hs, rfl, -, -⟩ := skipWspc_of_rest h
  obtain ⟨m, hm, hm0⟩ := cstring_split raw
  have hraw : Unquotes q raw text (rest ++ m) := by
    have happ := hu.append m
    rwa [← hm] at happ
  have hskip : skipWspc (q :: raw) = q :: raw := skipWspc_of_lt hq.lt raw
  have htoken := @nextToken_unquotes force { s with linePtr := q :: raw } _ _ _ _ hq hskip hraw hlen
  have hrest : cstring (rest ++ m) = rest :=
    cstring_append_of (fun h0 => cstring_notMem raw (hu.rest_suffix.mem h0)) hm0
  have hderef : deref (skipWspc (rest ++ m)) = deref (rest.dropWhile blank) := by
    rw [← deref_cstring, cstring_skipWspc, hrest]
  rw [nextTokenEnd_quote hq hs, htoken]
  refine ⟨_, rfl, ?_⟩
  simp only [hderef]
  by_cases hblank : rest.all blank = true
  · have hnil : rest.dropWhile blank = [] :=
      List.dropWhile_eq_nil_iff.mpr (List.all_eq_true.mp hblank)
    rw [if_pos hblank, hnil, deref_nil, if_neg (not_not.mpr rfl)]
    exact ⟨by simp [Scanner.tok], rfl⟩
  · have hne : rest.dropWhile blank ≠ [] := fun hnil =>
      hblank (List.all_eq_true.mpr (List.dropWhile_eq_nil_iff.mp hnil))
    obtain ⟨c, r, hc⟩ := List.exists_cons_of_ne_nil hne
    have hc0 : c ≠ 0 := by
      rintro rfl
      have hmem : (0 : UInt8) ∈ rest.dropWhile blank := by rw [hc]; exact List.mem_cons_self
      exact cstring_notMem raw (hu.rest_suffix.mem ((List.dropWhile_suffix _).mem hmem))
    rw [if_neg hblank, hc, deref_cons, if_pos hc0]
    exact Int.negSucc_lt_zero 0

/-- A quoted word that is not closed. -/
theorem end_unclosed {p : List UInt8} (hq : IsQuote q)
    (h : (cstring s.linePtr).dropWhile blank = q :: p)
    (hu : ¬ ∃ text rest, Unquotes q p text rest) :
    ∃ t, nextTokenEnd force s = some t ∧ t.curTokenLen < 0 := by
  obtain ⟨raw, hs, rfl, -, -⟩ := skipWspc_of_rest h
  have hclose : deref (scanQuote q false raw) = 0 := by
    refine (scanQuote_cases hq raw).resolve_right ?_
    rintro ⟨text, rest, hraw⟩
    exact hu ⟨text, cstring rest, hraw.string hq.ne_zero⟩
  have hskip : skipWspc (q :: raw) = q :: raw := skipWspc_of_lt hq.lt raw
  have htoken := @nextToken_unclosed force { s with linePtr := q :: raw } _ _ hq hskip hclose
  rw [nextTokenEnd_quote hq hs, htoken]
  refine ⟨_, rfl, ?_⟩
  simp only
  split_ifs <;> simp

end Forms

/-! ### Message texts -/

/-- A text between blanks and the end of the line, which is no quoted word, is passed on as it
is. -/
theorem text_passed {E : Ids.Env} {sig : List Slot} {st : LoopState} {b text : List UInt8}
    (hroom : st.args.length < argsMax)
    (hslot : isEnd (slotAt sig (stepBack sig st.flags)).op = true)
    (hline : cstring st.scan.linePtr = b ++ text) (hb : ∀ c ∈ b, blank c = true)
    (hhead : 32 < deref text) (hquote : ¬ IsQuote (deref text))
    (hlast : ∀ hne : text ≠ [], 32 < text.getLast hne) (fuel : ℕ) :
    argLoop E sig (fuel + 1) st = .dispatch (st.args ++ [.str (some text)]) := by
  cases text with
  | nil => exact absurd hhead (by decide)
  | cons c p =>
    rw [deref_cons] at hhead hquote
    have hnot : ¬ blank c = true := fun h => UInt8.not_le.mpr hhead (blank_iff.mp h)
    have hrest : (cstring st.scan.linePtr).dropWhile blank = c :: p := by
      rw [hline, List.dropWhile_append_of_pos hb, List.dropWhile_cons_of_neg hnot]
    obtain ⟨t, ht, htok, -, hpos, -⟩ := @end_plain true st.scan c p hrest hquote
    have htrim : (c :: p).rdropWhile blank = c :: p := List.rdropWhile_eq_self_iff.mpr fun hne h =>
      UInt8.not_le.mpr (hlast hne) (blank_iff.mp h)
    have hnul : 0 ∉ c :: p := fun h =>
      cstring_notMem st.scan.linePtr (by rw [hline]; exact List.mem_append_right b h)
    rw [htrim] at htok
    rw [argLoop, if_pos hroom]
    simp only [slotRound_end hslot, ht, Option.elim_some, if_neg (not_lt.mpr hpos.le), htok,
      cstring_of_notMem hnul]

/-- **The rest of a line as one token**: trimmed if it is no quoted word, the text of a quoted word
with nothing behind it, and of negative length if there is more or no closing quote. So a text that
no blank surrounds and no quote starts is passed on byte for byte. -/
theorem end_token (force : Bool) (s : Scanner) :
    ((cstring s.linePtr).dropWhile blank = [] →
      ∃ t, nextTokenEnd force s = some t ∧ t.curTokenLen = 0 ∧ t.curTokenEndStr = true) ∧
    (∀ c p, (cstring s.linePtr).dropWhile blank = c :: p → ¬ IsQuote c →
      ∃ t, nextTokenEnd force s = some t ∧ t.tok = (c :: p).rdropWhile blank ∧
        t.curTokenLen = t.tok.length ∧ 0 < t.curTokenLen ∧
        trimReads t.curToken (c :: p).length = some t.tok.length) ∧
    (∀ q p, (cstring s.linePtr).dropWhile blank = q :: p → IsQuote q →
      (∀ text rest, Unquotes q p text rest → text.length ≤ tokenMax →
        ∃ t, nextTokenEnd force s = some t ∧
          if rest.all blank = true then t.tok = text ∧ t.curTokenLen = text.length
          else t.curTokenLen < 0) ∧
      ((¬ ∃ text rest, Unquotes q p text rest) →
        ∃ t, nextTokenEnd force s = some t ∧ t.curTokenLen < 0)) ∧
    ∀ (E : Ids.Env) (sig : List Slot) (st : LoopState) (b text : List UInt8), st.scan = s →
      st.args.length < argsMax → isEnd (slotAt sig (stepBack sig st.flags)).op = true →
      cstring s.linePtr = b ++ text → (∀ c ∈ b, blank c = true) → 32 < deref text →
      ¬ IsQuote (deref text) → (∀ hne : text ≠ [], 32 < text.getLast hne) →
      ∀ fuel, argLoop E sig (fuel + 1) st = .dispatch (st.args ++ [.str (some text)]) := by
  refine ⟨end_blank, fun c p h hq => end_plain h hq, fun q p h hq => ⟨fun text rest hu hlen =>
    end_quoted hq h hu hlen, end_unclosed hq h⟩, ?_⟩
  rintro E sig st b text rfl hroom hslot hline hb hhead hquote hlast fuel
  exact text_passed hroom hslot hline hb hhead hquote hlast fuel

/-- A text behind a blank. -/
theorem end_token_hello : argLoop Interpreter.aliceEnv.ids [⟨.stringEnd, false⟩] 1
    ⟨0, [], .start (lit " hello")⟩ = .dispatch [.str (some (lit "hello"))] :=
  (end_token true (.start (lit " hello"))).2.2.2 _ _ ⟨0, [], .start (lit " hello")⟩ (lit " ")
    (lit "hello") rfl (by decide) (by decide) (by decide)
    (fun c hc => by rw [List.mem_singleton.mp (show c ∈ [32] from hc)]; rfl) (by decide)
    (by unfold IsQuote; decide) (by decide) 0

end TelegramCli.Interface.EndTokens
