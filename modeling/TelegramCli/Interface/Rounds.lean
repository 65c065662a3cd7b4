import TelegramCli.Interface.Answers

/-! # The rounds of the argument loop

A round of the argument loop takes a token of the line, or goes past a slot for good. So on a line
of a control connection it ends after as many rounds as there are tokens on the line and entries in
the signature, unless the line overruns it (`loop_ends_iff`): a repeated slot takes arguments until
`args` is full, a slot that is both optional and repeated finds a quoted token and stores a missing
argument again and again, or a message id is half spelled in digits. Each of these ends in a failing
assertion. -/

namespace TelegramCli.Interface.Rounds

open TelegramCli.Lib.CString TelegramCli.Interface.Token TelegramCli.Interface.Ids
open TelegramCli.Interface.Args TelegramCli.Interface.Slots TelegramCli.Interface.Commands
open TelegramCli.Interface.Answers TelegramCli.Interface.Actions
open TelegramCli.Interface.Interpreter hiding Env
open TelegramCli.Interface.Head

/-- The bytes `read_incoming` hands on as one line, at most. -/
def lineMax : ℕ := 4095

/-- At most `fuel` tokens up to the end of the line. -/
def countTokens : ℕ → Scanner → ℕ
  | 0, _ => 0
  | fuel + 1, s =>
    match nextToken true s with
    | none => 0
    | some t => if t.curTokenEndStr then 0 else countTokens fuel t + 1

/-- The tokens that are left of the line. -/
def tokens (s : Scanner) : ℕ := countTokens s.linePtr.length s

/-- The loop calls the command or rejects the line. -/
def Ended (e : Exit) : Prop := e ≠ .abort ∧ e ≠ .hang

/-- The loop ends in a round for each token and each entry of the signature, its `ca_none`
included. -/
def EndsInTime (E : Env) (sig : List Slot) (s : Scanner) : Prop :=
  Ended (argLoop E sig (tokens s + (sig.length + 1)) ⟨0, [], s⟩)

/-! ### Lines that overrun the loop -/

/-- A token as long as a spelled message id, whose first half are digits and whose second half are
not. -/
def halfSpelled (E : Env) (tok : List UInt8) : Bool :=
  tok.length = 2 * E.sizeofMsgId && (tok.take E.sizeofMsgId).all isHex && !tok.all isHex

/-- The slot finds such a message id. -/
def Broken (E : Env) (slot : Slot) (s : Scanner) : Prop :=
  slot.op = .msgId ∧ ∃ t, nextToken true s = some t ∧ t.curTokenQuoted = false ∧
    t.curTokenEndStr = false ∧ halfSpelled E t.tok = true

/-- The next token is quoted. -/
def Quoted (s : Scanner) : Prop := ∃ t, nextToken true s = some t ∧ t.curTokenQuoted = true

/-- The scanner behind the token that a repeated slot takes. -/
def takeOne (E : Env) (slot : Slot) (s : Scanner) : Option Scanner :=
  (nextToken true s).bind fun t =>
    if t.curTokenQuoted || t.curTokenEndStr then none
    else
      match readId E slot.op t.tok with
      | some (_, true) => some t
      | _ => none

/-- The scanner behind `n` tokens that a repeated slot takes. -/
def takeMany (E : Env) (slot : Slot) : ℕ → Scanner → Option Scanner
  | 0, s => some s
  | n + 1, s => (takeOne E slot s).bind (takeMany E slot n)

/-- The scanner in front of the token that a repeated slot leaves to the next one. -/
def leaveOne (E : Env) (slot : Slot) (s : Scanner) : Option Scanner :=
  (nextToken true s).bind fun t =>
    let save : Scanner := { t with linePtr := s.linePtr }
    if t.curTokenEndStr then none
    else if t.curTokenQuoted then if slot.opt then none else some save
    else
      match readId E slot.op t.tok with
      | some (_, false) => some save
      | _ => none

/-- A repeated slot behind `n` arguments takes tokens until there is no room for an argument, until
an optional slot finds a quoted token, until a message id is half spelled, or until `leave`. -/
def crowded (E : Env) (slot : Slot) (leave : ℕ → Scanner → Prop) (n : ℕ) (s : Scanner) : Prop :=
  ∃ k t, takeMany E slot k s = some t ∧
    (argsMax ≤ n + k ∨ Broken E slot t ∨ (slot.opt = true ∧ Quoted t) ∨
      ∃ save, leaveOne E slot t = some save ∧ leave (n + k) save)

/-- The slots lead to a failing assertion; there are `n` arguments before. -/
def overruns (E : Env) : List Slot → ℕ → Scanner → Prop
  | [], n, _ => argsMax ≤ n
  | slot :: ⟨.period, false⟩ :: rest, n, s => crowded E slot (overruns E rest) n s
  | slot :: rest, n, s =>
    argsMax ≤ n ∨ Broken E slot s ∨ ∃ t, passSlot E slot s = some t ∧ overruns E rest (n + 1) t

/-- What is repeated is a number or an id. -/
def RepeatsIds : List Slot → Bool
  | [] => true
  | slot :: rest => (slotAt rest 0 ≠ Slot.period || isId slot.op) && RepeatsIds rest

theorem commands_repeatsIds : ∀ cmd ∈ commands, RepeatsIds cmd.args = true := by
  decide +kernel

variable {E : Env}

theorem overruns_cons {slot : Slot} {rest : List Slot} (h : slotAt rest 0 ≠ Slot.period) (n : ℕ)
    (s : Scanner) : overruns E (slot :: rest) n s ↔ argsMax ≤ n ∨ Broken E slot s ∨
      ∃ t, passSlot E slot s = some t ∧ overruns E rest (n + 1) t := by
  cases rest with
  | nil => rfl
  | cons next rest =>
    rw [overruns]
    rintro rest' he
    cases he
    exact h rfl

/-! ### The tokens of a short line -/

theorem unescapeLoop_isSome : ∀ {len n : ℕ} {mem : List UInt8}, n ≤ mem.length →
    len + n ≤ tokenMax → (unescapeLoop len mem n).isSome = true
  | len, 0, mem, _, _ => by cases mem <;> rfl
  | len, n + 1, [], hn, _ => absurd hn (Nat.not_succ_le_zero n)
  | len, n + 1, c :: mem, hn, hmax => by
    have hn' : n ≤ mem.length := Nat.le_of_succ_le_succ hn
    have hlen : len < tokenMax := by omega
    rw [unescapeLoop.eq_def]
    simp only [if_pos hlen]
    split_ifs
    · cases mem with
      | nil => rfl
      | cons d mem =>
        have hd : n - 1 ≤ mem.length := by
          rw [List.length_cons] at hn'
          omega
        have ih := @unescapeLoop_isSome (len + 1) _ _ hd (by omega)
        simpa using ih
    · have ih := @unescapeLoop_isSome (len + 1) _ _ hn' (by omega)
      simpa using ih

theorem nextToken_isSome {force : Bool} {s : Scanner} (h : s.linePtr.length ≤ tokenMax) :
    ∃ t, nextToken force s = some t := by
  rw [← Option.isSome_iff_exists]
  have hstart := (length_skipWspc_le s.linePtr).trans h
  unfold nextToken
  simp only
  split_ifs
  · rfl
  · rfl
  · have htail : (skipWspc s.linePtr).tail.length ≤ (skipWspc s.linePtr).length := by
      rw [List.length_tail]
      exact Nat.sub_le _ 1
    have hsome := @unescapeLoop_isSome 0 ((skipWspc s.linePtr).tail.length -
      (scanQuote (deref (skipWspc s.linePtr)) false (skipWspc s.linePtr).tail).length)
      (skipWspc s.linePtr).tail (Nat.sub_le _ _) (by omega)
    simpa [unescapeToken] using hsome
  · rfl

theorem trimEnd_pos {c : UInt8} (hc : 32 < c) (p : List UInt8) :
    ∀ len, 0 < trimEnd (c :: p) (len + 1)
  | 0 => by
    rw [trimEnd, List.getD_cons_zero, if_neg (UInt8.not_le.mpr hc)]
    exact Nat.zero_lt_one
  | len + 1 => by
    rw [trimEnd]
    split_ifs
    · exact trimEnd_pos hc p len
    · exact Nat.succ_pos _

theorem nextTokenEnd_isSome {force : Bool} {s : Scanner} (h : s.linePtr.length ≤ tokenMax) :
    ∃ t, nextTokenEnd force s = some t := by
  have hstart := (length_skipWspc_le s.linePtr).trans h
  obtain ⟨t, ht⟩ := @nextToken_isSome force { s with linePtr := skipWspc s.linePtr } hstart
  unfold nextTokenEnd
  simp only
  split_ifs with hword hlen hquote
  · exact ⟨_, rfl⟩
  · cases hs : skipWspc s.linePtr with
    | nil => simp [hs] at hword
    | cons c q =>
      rw [hs, deref_cons] at hword
      have hlen' : (cstring (c :: q)).length = (cstring q).length + 1 := by
        rw [cstring, if_neg hword.1, List.length_cons]
      rw [hs, hlen'] at hlen
      exact absurd (trimEnd_pos (skipWspc_head hs hword.1) q _) hlen
  · rw [ht]
    simp only [Option.bind_eq_bind, Option.bind_some]
    split_ifs <;> exact ⟨_, rfl⟩
  · exact ⟨t, ht⟩

theorem skipWspc_idem : ∀ p : List UInt8, skipWspc (skipWspc p) = skipWspc p
  | [] => rfl
  | c :: p => by
    rw [skipWspc_cons]
    split_ifs with hc
    · exact skipWspc_idem p
    · rw [skipWspc_cons, if_neg hc]

/-- At the end of the line the scanner stays there. -/
theorem nextToken_endStr {s t : Scanner} (h : nextToken true s = some t)
    (hend : t.curTokenEndStr = true) : nextToken true t = some t ∧
      t.linePtr.length ≤ s.linePtr.length := by
  have hle := length_skipWspc_le s.linePtr
  unfold nextToken at h
  simp only at h
  split_ifs at h with h0 hquote hclose
  · cases h
    refine ⟨?_, hle⟩
    unfold nextToken
    simp only [skipWspc_idem, if_pos h0]
  · cases h
    cases hend
  · obtain ⟨text, -, rfl⟩ := Option.map_eq_some_iff.mp h
    cases hend
  · cases h
    cases hend

theorem nextToken_le {s t : Scanner} (h : nextToken true s = some t) :
    t.linePtr.length ≤ s.linePtr.length := by
  cases hend : t.curTokenEndStr with
  | true => exact (nextToken_endStr h hend).2
  | false => exact (nextToken_lt h hend).le

theorem countTokens_stable : ∀ {fuel fuel' : ℕ} {s : Scanner}, s.linePtr.length ≤ fuel →
    s.linePtr.length ≤ fuel' → countTokens fuel s = countTokens fuel' s
  | 0, 0, _, _, _ => rfl
  | 0, fuel' + 1, s, h, _ => by
    have hnil : s.linePtr = [] := List.length_eq_zero_iff.mp (Nat.le_zero.mp h)
    rw [countTokens, countTokens]
    simp [nextToken, hnil]
  | fuel + 1, 0, s, _, h => by
    have hnil : s.linePtr = [] := List.length_eq_zero_iff.mp (Nat.le_zero.mp h)
    rw [countTokens, countTokens]
    simp [nextToken, hnil]
  | fuel + 1, fuel' + 1, s, h, h' => by
    rw [countTokens, countTokens]
    cases ht : nextToken true s with
    | none => rfl
    | some t =>
      simp only
      split_ifs with hend
      · rfl
      · have hlt := nextToken_lt ht (by simpa using hend)
        have ih := @countTokens_stable fuel fuel' t (by omega) (by omega)
        rw [ih]

theorem tokens_of_token {s t : Scanner} (h : nextToken true s = some t)
    (hend : t.curTokenEndStr = false) : tokens s = tokens t + 1 := by
  have hlt := nextToken_lt h hend
  obtain ⟨k, hk⟩ := Nat.exists_eq_succ_of_ne_zero (Nat.ne_zero_of_lt hlt)
  rw [tokens, hk, countTokens, h]
  simp only [hend, if_neg Bool.false_ne_true]
  rw [countTokens_stable (by omega) le_rfl]
  rfl

theorem tokens_of_end {s t : Scanner} (h : nextToken true s = some t)
    (hend : t.curTokenEndStr = true) : tokens s = 0 := by
  unfold tokens
  cases s.linePtr.length with
  | zero => rfl
  | succ k => rw [countTokens, h]; simp only [hend, if_true]

/-- A token that is put back counts again. -/
theorem tokens_again {s t : Scanner} (h : nextToken true s = some t) :
    tokens { t with linePtr := s.linePtr } = tokens s := by
  have hagain := nextToken_again h
  by_cases hend : t.curTokenEndStr = true
  · rw [tokens_of_end hagain hend, tokens_of_end h hend]
  · rw [Bool.not_eq_true] at hend
    rw [tokens_of_token hagain hend, tokens_of_token h hend]

/-- A token that is read does not count any more. -/
theorem tokens_le {s t : Scanner} (h : nextToken true s = some t) : tokens t ≤ tokens s := by
  cases hend : t.curTokenEndStr with
  | true => rw [tokens_of_end (nextToken_endStr h hend).1 hend]; exact Nat.zero_le _
  | false => rw [tokens_of_token h hend]; exact Nat.le_succ _

/-! ### Half-spelled message ids -/

theorem hex2int_isSome (c : UInt8) : (hex2int c).isSome = isHex c := by
  unfold hex2int isHex
  cases (48 ≤ c && c ≤ 57 : Bool) with
  | true => rfl
  | false => cases (97 ≤ c && c ≤ 102 : Bool) <;> rfl

/-- Pairs of digits are read if all of them are digits. -/
theorem hexBytes_isSome : ∀ {n : ℕ} {tok : List UInt8}, tok.length = 2 * n →
    (hexBytes tok).isSome = tok.all isHex
  | 0, [], _ => rfl
  | 0, _ :: _, h => by simp at h
  | n + 1, [], h => by simp at h
  | n + 1, [_], h => by
    rw [List.length_singleton] at h
    omega
  | n + 1, a :: b :: p, h => by
    have hp : p.length = 2 * n := by
      rw [List.length_cons, List.length_cons] at h
      omega
    have ih := hexBytes_isSome hp
    have ha := hex2int_isSome a
    have hb := hex2int_isSome b
    rw [hexBytes, List.all_cons, List.all_cons, ← ih, ← ha, ← hb]
    cases hex2int a with
    | none => rfl
    | some x =>
      cases hex2int b with
      | none => rfl
      | some y => cases hexBytes p <;> rfl

/-- The assertion of `hex2int` fails for half-spelled ids only. -/
theorem parseInputMsgId_eq_none (E : Env) (tok : List UInt8) :
    parseInputMsgId E tok = none ↔ halfSpelled E tok = true := by
  unfold parseInputMsgId halfSpelled
  split_ifs with hnil hlen hhex
  · subst hnil
    simp
  · have hsome := hexBytes_isSome hlen
    simp only [hlen, hhex, decide_true, Bool.true_and, ← hsome, Option.map_eq_none_iff]
    cases hexBytes tok <;> simp
  · simp [hhex]
  · simp only [hlen, decide_false, Bool.false_and]
    split_ifs <;> simp

theorem readId_eq_none {op : CommandArgument} (h : isId op = true) (tok : List UInt8) :
    readId E op tok = none ↔ op = .msgId ∧ halfSpelled E tok = true := by
  rw [← parseInputMsgId_eq_none]
  cases op
  case msgId => simp [readId]
  all_goals first | (cases h; done) | exact iff_of_false (by simp [readId]) (by simp)

/-! ### One round -/

/-- A round fails an assertion at a half-spelled message id. -/
theorem slotRound_abort {slot : Slot} (hslot : taken slot = true) {s : Scanner}
    (hlen : s.linePtr.length ≤ tokenMax) (period : Bool) (args : List Arg) :
    slotRound E slot period args s = .abort ↔ Broken E slot s := by
  obtain ⟨t, ht⟩ := @nextToken_isSome true s hlen
  rcases taken_iff.mp hslot with hs | hs | hs
  · rw [slotRound_id hs, ht, Option.elim_some]
    have hbroken : Broken E slot s ↔ slot.op = .msgId ∧ t.curTokenQuoted = false ∧
        t.curTokenEndStr = false ∧ halfSpelled E t.tok = true := by
      simp [Broken, ht]
    rw [hbroken]
    unfold idRound
    cases hend : t.curTokenEndStr with
    | true =>
      refine iff_of_false ?_ (by simp)
      simp only [Bool.and_true, Bool.or_true, if_true]
      split_ifs <;> simp
    | false =>
      cases hquoted : t.curTokenQuoted with
      | true =>
        refine iff_of_false ?_ (by simp)
        simp only [Bool.and_false, Bool.true_or, if_true, if_neg Bool.false_ne_true]
        split_ifs <;> simp
      | false =>
        have hread := readId_eq_none (E := E) hs t.tok
        simp only [Bool.and_false, Bool.or_false, if_neg Bool.false_ne_true, true_and]
        rw [← hread]
        cases readId E slot.op t.tok with
        | none => simp
        | some r =>
          simp only
          split_ifs <;> simp
  · have hop : slot.op ≠ .msgId := by
      rintro he
      rw [he] at hs
      cases hs
    refine iff_of_false ?_ fun h => hop h.1
    rw [slotRound_word hs, ht, Option.elim_some, wordRound]
    split_ifs <;> simp
  · have hop : slot.op ≠ .msgId := by
      rintro he
      rw [he] at hs
      cases hs
    obtain ⟨u, hu⟩ := @nextTokenEnd_isSome true s hlen
    refine iff_of_false ?_ fun h => hop h.1
    rw [slotRound_end hs, hu, Option.elim_some]
    split_ifs <;> simp

theorem nextToken_end_unquoted {s t : Scanner} (h : nextToken true s = some t)
    (hend : t.curTokenEndStr = true) : t.curTokenQuoted = false := by
  unfold nextToken at h
  simp only at h
  split_ifs at h with h0 hquote hclose
  · cases h
    rfl
  · cases h
    cases hend
  · obtain ⟨text, -, rfl⟩ := Option.map_eq_some_iff.mp h
    cases hend
  · cases h
    cases hend

/-- **A repeated slot** ends the loop, spins on a quoted token, fails an assertion, takes the token
or leaves it. -/
theorem repeatRound_cases {slot : Slot} (hid : isId slot.op = true) {s t : Scanner}
    (ht : nextToken true s = some t) (args : List Arg) :
    (slotRound E slot true args s = .dispatch args ∧ takeOne E slot s = none ∧
      leaveOne E slot s = none ∧ ¬ Broken E slot s ∧ ¬ Quoted s) ∨
    (slot.opt = true ∧ Quoted s ∧ ∃ a : Arg,
      slotRound E slot true args s = .next 1 (args ++ [a]) { t with linePtr := s.linePtr }) ∨
    (slotRound E slot true args s = .abort ∧ Broken E slot s) ∨
    (takeOne E slot s = some t ∧ t.curTokenEndStr = false ∧ ∃ a : Arg,
      slotRound E slot true args s = .next 1 (args ++ [a]) t) ∨
    (slotRound E slot true args s = .next 2 args { t with linePtr := s.linePtr } ∧
      takeOne E slot s = none ∧ leaveOne E slot s = some { t with linePtr := s.linePtr } ∧
      ¬ Broken E slot s ∧ ¬ (slot.opt = true ∧ Quoted s)) := by
  have hbroken : Broken E slot s ↔ slot.op = .msgId ∧ t.curTokenQuoted = false ∧
      t.curTokenEndStr = false ∧ halfSpelled E t.tok = true := by
    simp [Broken, ht]
  have hquoted : Quoted s ↔ t.curTokenQuoted = true := by simp [Quoted, ht]
  have htake : takeOne E slot s = if t.curTokenQuoted || t.curTokenEndStr then none
      else match readId E slot.op t.tok with
        | some (_, true) => some t
        | _ => none := by
    rw [takeOne, ht]
    rfl
  have hleave : leaveOne E slot s = if t.curTokenEndStr then none
      else if t.curTokenQuoted then
        if slot.opt then none else some { t with linePtr := s.linePtr }
      else match readId E slot.op t.tok with
        | some (_, false) => some { t with linePtr := s.linePtr }
        | _ => none := by
    rw [leaveOne, ht]
    rfl
  have hround : slotRound E slot true args s =
      if t.curTokenEndStr then .dispatch args else idRound E slot true args s t := by
    rw [slotRound_id hid, ht]
    rfl
  rw [hbroken, hquoted, htake, hleave, hround]
  cases hend : t.curTokenEndStr with
  | true =>
    have hunq := nextToken_end_unquoted ht hend
    exact .inl ⟨rfl, by simp, rfl, by simp, by simp [hunq]⟩
  | false =>
    refine .inr ?_
    unfold idRound
    cases hq : t.curTokenQuoted with
    | true =>
      cases hopt : slot.opt with
      | true => exact .inl ⟨rfl, rfl, missing slot.op, by simp [hend]⟩
      | false => exact .inr (.inr (.inr (by simp [hend])))
    | false =>
      have hread := readId_eq_none (E := E) hid t.tok
      refine .inr ?_
      cases hr : readId E slot.op t.tok with
      | none =>
        obtain ⟨hop, hhalf⟩ := hread.mp hr
        exact .inl ⟨by simp [hend], hop, rfl, rfl, hhalf⟩
      | some r =>
        have hok : ¬ (slot.op = .msgId ∧ halfSpelled E t.tok = true) := by
          rw [← hread, hr]
          simp
        obtain ⟨a, ok⟩ := r
        cases ok with
        | true => exact .inr (.inl ⟨rfl, rfl, a, by simp [hend]⟩)
        | false => exact .inr (.inr (by simpa [hend] using hok))

/-! ### Repeated slots -/

section Repeat

variable {slot : Slot} {leave : ℕ → Scanner → Prop} {n : ℕ} {s t : Scanner}

theorem takeOne_eq_some (h : takeOne E slot s = some t) : nextToken true s = some t ∧
    t.curTokenQuoted = false ∧ t.curTokenEndStr = false ∧
      ∃ a, readId E slot.op t.tok = some (a, true) := by
  obtain ⟨u, hu, h⟩ := Option.bind_eq_some_iff.mp h
  split_ifs at h with hq
  rw [Bool.or_eq_true, not_or, Bool.not_eq_true, Bool.not_eq_true] at hq
  split at h
  · rename_i a hr
    cases h
    exact ⟨hu, hq.1, hq.2, a, hr⟩
  · cases h

/-- A token that is taken leads to the same slot. -/
theorem crowded_take (hid : isId slot.op = true) (hn : n < argsMax)
    (htake : takeOne E slot s = some t) :
    crowded E slot leave n s ↔ crowded E slot leave (n + 1) t := by
  obtain ⟨ht, hq, hend, a, hr⟩ := takeOne_eq_some htake
  have hbroken : ¬ Broken E slot s := by
    rintro ⟨hop, u, hu, -, -, hhalf⟩
    obtain rfl := Option.some.inj (ht.symm.trans hu)
    rw [(readId_eq_none hid _).mpr ⟨hop, hhalf⟩] at hr
    cases hr
  have hquoted : ¬ Quoted s := by
    rintro ⟨u, hu, hq'⟩
    obtain rfl := Option.some.inj (ht.symm.trans hu)
    rw [hq] at hq'
    cases hq'
  have hleave : leaveOne E slot s = none := by
    rw [leaveOne, ht]
    simp [hq, hend, hr]
  constructor
  · rintro ⟨k, u, hu, h⟩
    cases k with
    | zero =>
      obtain rfl : s = u := Option.some.inj hu
      rcases h with h | h | ⟨-, h⟩ | ⟨save, h, -⟩
      · omega
      · exact absurd h hbroken
      · exact absurd h hquoted
      · rw [hleave] at h
        cases h
    | succ k =>
      rw [takeMany, htake, Option.bind_some] at hu
      refine ⟨k, u, hu, ?_⟩
      rwa [Nat.add_assoc, Nat.add_comm 1 k]
  · rintro ⟨k, u, hu, h⟩
    refine ⟨k + 1, u, by rw [takeMany, htake, Option.bind_some, hu], ?_⟩
    rwa [Nat.add_comm k 1, ← Nat.add_assoc]

/-- Without such a token the slot itself decides. -/
theorem crowded_stay (hn : n < argsMax) (htake : takeOne E slot s = none) :
    crowded E slot leave n s ↔ Broken E slot s ∨ (slot.opt = true ∧ Quoted s) ∨
      ∃ save, leaveOne E slot s = some save ∧ leave n save := by
  constructor
  · rintro ⟨k, u, hu, h⟩
    cases k with
    | zero =>
      obtain rfl : s = u := Option.some.inj hu
      rcases h with h | h
      · omega
      · exact h
    | succ k =>
      rw [takeMany, htake] at hu
      cases hu
  · intro h
    exact ⟨0, s, rfl, .inr h⟩

theorem crowded_full (hn : argsMax ≤ n) : crowded E slot leave n s :=
  ⟨0, s, rfl, .inl hn⟩

end Repeat

theorem overruns_full : ∀ {sig : List Slot} {n : ℕ} {s : Scanner}, Regular sig = true →
    argsMax ≤ n → overruns E sig n s
  | [], _, _, _, hn => hn
  | slot :: rest, n, s, hreg, hn => by
    obtain ⟨-, ⟨tail, rfl, -⟩ | ⟨hp, -⟩⟩ := Regular.cases hreg
    · exact crowded_full hn
    · exact (overruns_cons hp n s).mpr (.inl hn)

/-! ### The loop -/

theorem not_ended_abort : ¬ Ended .abort := fun h => h.1 rfl

/-- A slot that is both optional and repeated stores missing arguments until there is no room. -/
theorem not_ended_spin {pre rest : List Slot} {slot : Slot} (hid : isId slot.op = true)
    (hopt : slot.opt = true) {t : Scanner} : ∀ {fuel flags : ℕ} {args : List Arg} {s : Scanner},
    stepBack (pre ++ slot :: Slot.period :: rest) flags = pre.length → nextToken true s = some t →
    t.curTokenQuoted = true →
    ¬ Ended (argLoop E (pre ++ slot :: Slot.period :: rest) fuel ⟨flags, args, s⟩)
  | 0, _, _, _, _, _, _ => fun h => h.2 rfl
  | fuel + 1, flags, args, s, hback, ht, hq => by
    have hslot : taken slot = true := by rw [taken, hid]; rfl
    by_cases hlen : args.length < argsMax
    swap
    · rw [argLoop_full hlen]
      exact not_ended_abort
    have hrep : repeated (slot :: Slot.period :: rest) 0 = true := by
      simp [repeated, slotAt, taken_ne_none hslot]
    have h1 : slotAt (pre ++ slot :: Slot.period :: rest) (pre.length + 1) = Slot.period :=
      slotAt_append pre _ 1
    rw [argLoop_append hback hlen fun m args' s' h => (slotRound_next hslot h).imp And.left And.left,
      hrep]
    have hend : t.curTokenEndStr = false := by
      cases hend : t.curTokenEndStr with
      | true =>
        rw [nextToken_end_unquoted ht hend] at hq
        cases hq
      | false => rfl
    have hround : slotRound E slot true args s =
        .next 1 (args ++ [missing slot.op]) { t with linePtr := s.linePtr } := by
      rw [slotRound_id hid, ht]
      simp [idRound, hq, hopt, hend]
    rw [show slotAt (slot :: Slot.period :: rest) 0 = slot from rfl, hround]
    exact not_ended_spin hid hopt (by rw [stepBack_of_eq h1, Nat.add_sub_cancel])
      (nextToken_again ht) hq

/-- A slot that is not repeated, where the slots behind it end. -/
theorem ended_slot {pre rest : List Slot} {slot : Slot} {fuel flags : ℕ} {args : List Arg}
    {s : Scanner} (hslot : taken slot = true) (hp : slotAt rest 0 ≠ Slot.period)
    (hback : stepBack (pre ++ slot :: rest) flags = pre.length) (hlen : args.length < argsMax)
    (hline : s.linePtr.length ≤ tokenMax)
    (hnext : ∀ (a : Arg) (t : Scanner), passSlot E slot s = some t →
      (Ended (argLoop E (pre ++ slot :: rest) fuel ⟨pre.length + 1, args ++ [a], t⟩) ↔
        ¬ overruns E rest (args.length + 1) t)) :
    Ended (argLoop E (pre ++ slot :: rest) (fuel + 1) ⟨flags, args, s⟩) ↔
      ¬ overruns E (slot :: rest) args.length s := by
  have hrep : repeated (slot :: rest) 0 = false := by
    have h1 : slotAt (slot :: rest) 1 = slotAt rest 0 := rfl
    simp [repeated, h1, hp]
  have habort := slotRound_abort (E := E) hslot hline false args
  have hpass : ∀ t, (∃ m args', slotRound E slot false args s = .next m args' t) ↔
      passSlot E slot s = some t := fun _ => slotRound_next_iff hslot
  have hhang : slotRound E slot false args s ≠ .hang := slotRound_ne_hang hslot
  rw [argLoop_append hback hlen fun m args' s' h => (slotRound_next hslot h).imp And.left And.left,
    hrep, overruns_cons hp, show slotAt (slot :: rest) 0 = slot from rfl]
  have hroom : ¬ argsMax ≤ args.length := Nat.not_le_of_lt hlen
  have hnone : ∀ {r : Round}, slotRound E slot false args s = r →
      (∀ m args' s', r ≠ .next m args' s') →
      ∀ t, passSlot E slot s ≠ some t := by
    intro r hr hne t ht
    obtain ⟨m, args', h⟩ := (hpass t).mpr ht
    exact hne m args' t (hr.symm.trans h)
  cases hr : slotRound E slot false args s with
  | next m args' t =>
    obtain ⟨rfl, a, -, rfl⟩ | ⟨-, hfalse, -⟩ := slotRound_next hslot hr
    · have ht : passSlot E slot s = some t := (hpass t).mp ⟨1, _, hr⟩
      have hb : ¬ Broken E slot s := by
        rw [← habort, hr]
        simp
      simp only [exitOf, hroom, hb, ht, false_or, Option.some.injEq, exists_eq_left']
      exact hnext a t ht
    · cases hfalse
  | abort =>
    exact iff_of_false not_ended_abort (not_not.mpr (.inr (.inl (habort.mp hr))))
  | hang => exact absurd hr hhang
  | _ =>
    have hb : ¬ Broken E slot s := by
      rw [← habort, hr]
      simp
    have hpassed := hnone hr (by simp)
    exact iff_of_true ⟨by simp [exitOf], by simp [exitOf]⟩ (by simp [hroom, hb, hpassed])

theorem passSlot_le {slot : Slot} {s t : Scanner} (h : passSlot E slot s = some t) :
    t.linePtr.length ≤ s.linePtr.length ∧ tokens t ≤ tokens s := by
  obtain ⟨u, hu, h⟩ := Option.bind_eq_some_iff.mp h
  have hread := And.intro (nextToken_le hu) (tokens_le hu)
  have hsave : ({ u with linePtr := s.linePtr } : Scanner).linePtr.length ≤ s.linePtr.length ∧
      tokens { u with linePtr := s.linePtr } ≤ tokens s := ⟨le_rfl, (tokens_again hu).le⟩
  simp only at h
  split_ifs at h with hid hq hopt hopt'
  · cases h
    exact hsave
  · cases hr : readId E slot.op u.tok with
    | none => simp [hr] at h
    | some r =>
      simp only [hr] at h
      split_ifs at h
      · cases h
        exact hread
      · cases h
        exact hsave
  · cases hr : readId E slot.op u.tok with
    | none => simp [hr] at h
    | some r =>
      simp only [hr] at h
      split_ifs at h
      cases h
      exact hread
  · cases h
    exact hread

theorem leaveOne_le {slot : Slot} {s t : Scanner} (h : leaveOne E slot s = some t) :
    t.linePtr.length ≤ s.linePtr.length ∧ tokens t ≤ tokens s := by
  obtain ⟨u, hu, h⟩ := Option.bind_eq_some_iff.mp h
  have hsave : t = { u with linePtr := s.linePtr } := by
    simp only at h
    split_ifs at h
    · exact (Option.some.inj h).symm
    · split at h
      · exact (Option.some.inj h).symm
      · cases h
  rw [hsave]
  exact ⟨le_rfl, (tokens_again hu).le⟩

/-- A repeated slot, where the loop ends behind a token that is taken or left. -/
theorem ended_repeat {pre rest : List Slot} {slot : Slot} {fuel flags : ℕ} {args : List Arg}
    {s : Scanner} (hid : isId slot.op = true)
    (hback : stepBack (pre ++ slot :: Slot.period :: rest) flags = pre.length)
    (hlen : args.length < argsMax) (hline : s.linePtr.length ≤ tokenMax)
    (hagain : ∀ (a : Arg) (t : Scanner), takeOne E slot s = some t →
      (Ended (argLoop E (pre ++ slot :: Slot.period :: rest) fuel
          ⟨pre.length + 1, args ++ [a], t⟩) ↔
        ¬ crowded E slot (overruns E rest) (args.length + 1) t))
    (hleft : ∀ save, leaveOne E slot s = some save →
      (Ended (argLoop E (pre ++ slot :: Slot.period :: rest) fuel ⟨pre.length + 2, args, save⟩) ↔
        ¬ overruns E rest args.length save)) :
    Ended (argLoop E (pre ++ slot :: Slot.period :: rest) (fuel + 1) ⟨flags, args, s⟩) ↔
      ¬ crowded E slot (overruns E rest) args.length s := by
  have hslot : taken slot = true := by rw [taken, hid]; rfl
  have hrep : repeated (slot :: Slot.period :: rest) 0 = true := by
    simp [repeated, slotAt, taken_ne_none hslot]
  obtain ⟨t, ht⟩ := @nextToken_isSome true s hline
  rcases repeatRound_cases (E := E) hid ht args with ⟨hr, htake, hleave, hb, hq⟩ | ⟨hopt, hq, -⟩ |
    ⟨hr, hb⟩ | ⟨htake, hend, a, hr⟩ | ⟨hr, htake, hleave, hb, hq⟩
  case inr.inl =>
    obtain ⟨u, hu, hq'⟩ := hq
    exact iff_of_false (not_ended_spin hid hopt hback hu hq')
      (not_not.mpr ⟨0, s, rfl, .inr (.inr (.inl ⟨hopt, u, hu, hq'⟩))⟩)
  all_goals
    rw [argLoop_append hback hlen fun m args' s' h =>
      (slotRound_next hslot h).imp And.left And.left, hrep,
      show slotAt (slot :: Slot.period :: rest) 0 = slot from rfl, hr]
  · rw [crowded_stay hlen htake]
    exact iff_of_true ⟨by simp [exitOf], by simp [exitOf]⟩ (by simp [hb, hq, hleave])
  · exact iff_of_false not_ended_abort (not_not.mpr ⟨0, s, rfl, .inr (.inl hb)⟩)
  · rw [crowded_take hid hlen htake]
    exact hagain a t htake
  · rw [crowded_stay hlen htake]
    simp only [exitOf, hb, hq, hleave, false_or, Option.some.injEq, exists_eq_left']
    exact hleft _ hleave

/-- **The loop ends in time** from the slots behind a prefix. -/
theorem ended_iff : ∀ (fuel : ℕ) (pre rest : List Slot) {flags : ℕ} {args : List Arg} {s : Scanner},
    Regular rest = true → RepeatsIds rest = true → stepBack (pre ++ rest) flags = pre.length →
    s.linePtr.length ≤ tokenMax → tokens s + (rest.length + 1) ≤ fuel →
    (Ended (argLoop E (pre ++ rest) fuel ⟨flags, args, s⟩) ↔ ¬ overruns E rest args.length s)
  | 0, _, _, _, _, _, _, _, _, _, h => by omega
  | fuel + 1, pre, rest, flags, args, s, hreg, hids, hback, hline, hfuel => by
    by_cases hlen : args.length < argsMax
    swap
    · rw [argLoop_full hlen]
      exact iff_of_false not_ended_abort
        (not_not.mpr (overruns_full hreg (Nat.le_of_not_lt hlen)))
    match rest with
    | [] =>
      have hr : ∀ m args' s', slotRound E Slot.none false args s ≠ .next m args' s' :=
        fun _ _ _ => slotRound_none_ne_next
      rw [argLoop_append hback hlen fun m args' s' h => absurd h (hr m args' s')]
      obtain ⟨t, ht⟩ := @nextToken_isSome true s hline
      rw [show slotAt [] 0 = Slot.none from rfl, slotRound_none, ht, Option.elim_some]
      refine iff_of_true ?_ (Nat.not_le_of_lt hlen)
      split_ifs <;> exact ⟨by simp [exitOf], by simp [exitOf]⟩
    | slot :: rest =>
      rw [RepeatsIds, Bool.and_eq_true] at hids
      obtain ⟨hslot, ⟨tail, rfl, hreg'⟩ | ⟨hp, hreg'⟩⟩ := Regular.cases hreg
      · have hid : isId slot.op = true := by
          rcases Bool.or_eq_true_iff.mp hids.1 with h | h
          · exact absurd rfl (of_decide_eq_true h)
          · exact h
        have hids' : RepeatsIds tail = true := (Bool.and_eq_true_iff.mp hids.2).2
        have h1 : slotAt (pre ++ slot :: Slot.period :: tail) (pre.length + 1) = Slot.period :=
          slotAt_append pre _ 1
        have h2 : slotAt (pre ++ slot :: Slot.period :: tail) (pre.length + 2) = slotAt tail 0 :=
          slotAt_append pre _ 2
        rw [List.length_cons, List.length_cons] at hfuel
        refine ended_repeat hid hback hlen hline (fun a t htake => ?_) fun save hsave => ?_
        · obtain ⟨ht, -, hend, -⟩ := takeOne_eq_some htake
          have htokens := tokens_of_token ht hend
          have hids'' : RepeatsIds (slot :: Slot.period :: tail) = true := by
            rw [RepeatsIds, hids.1, hids.2]
            rfl
          have hback' : stepBack (pre ++ slot :: Slot.period :: tail) (pre.length + 1) =
              pre.length := by rw [stepBack_of_eq h1, Nat.add_sub_cancel]
          have ih := @ended_iff fuel pre (slot :: Slot.period :: tail) _ (args ++ [a]) t hreg hids''
            hback' ((nextToken_le ht).trans hline) (by simp only [List.length_cons]; omega)
          rwa [List.length_append] at ih
        · obtain ⟨hle, htokens⟩ := leaveOne_le hsave
          have happ : (pre ++ [slot, Slot.period]) ++ tail = pre ++ slot :: Slot.period :: tail :=
            List.append_assoc _ _ _
          have hback' : stepBack ((pre ++ [slot, Slot.period]) ++ tail) (pre.length + 2) =
              (pre ++ [slot, Slot.period]).length := by
            rw [happ, stepBack_of_ne (h2 ▸ Regular.head_ne hreg'), List.length_append]
            rfl
          have ih := @ended_iff fuel (pre ++ [slot, Slot.period]) tail _ args save hreg' hids' hback'
            (hle.trans hline) (by omega)
          rwa [happ] at ih
      · refine ended_slot hslot hp hback hlen hline fun a t ht => ?_
        have h1 : slotAt (pre ++ slot :: rest) (pre.length + 1) = slotAt rest 0 :=
          slotAt_append pre _ 1
        have happ : (pre ++ [slot]) ++ rest = pre ++ slot :: rest := List.append_assoc _ _ _
        have hback' : stepBack ((pre ++ [slot]) ++ rest) (pre.length + 1) =
            (pre ++ [slot]).length := by
          rw [happ, stepBack_of_ne (h1 ▸ hp), List.length_append]
          rfl
        obtain ⟨hle, htokens⟩ : t.linePtr.length ≤ s.linePtr.length ∧ tokens t ≤ tokens s :=
          passSlot_le ht
        rw [List.length_cons] at hfuel
        have ih := @ended_iff fuel (pre ++ [slot]) rest _ (args ++ [a]) t hreg' hids.2 hback'
          (hle.trans hline) (by omega)
        rwa [happ, List.length_append] at ih

/-- More rounds change nothing. -/
theorem argLoop_mono {sig : List Slot} (k : ℕ) : ∀ {fuel : ℕ} {st : LoopState},
    argLoop E sig fuel st ≠ .hang → argLoop E sig (fuel + k) st = argLoop E sig fuel st
  | 0, _, h => absurd rfl h
  | fuel + 1, st, h => by
    rw [Nat.add_right_comm, argLoop]
    rw [argLoop] at h ⊢
    split_ifs at h ⊢
    · dsimp only at h ⊢
      generalize slotRound E (slotAt sig (stepBack sig st.flags))
        (repeated sig (stepBack sig st.flags)) st.args st.scan = r at h ⊢
      cases r with
      | next move args scan => exact argLoop_mono k h
      | _ => rfl
    · rfl

/-- The rounds are those of the whole loop. -/
theorem parseArgs_of_ends {sig : List Slot} {s : Scanner} (hreg : Regular sig = true)
    (h : EndsInTime E sig s) :
    parseArgs E sig s = argLoop E sig (tokens s + (sig.length + 1)) ⟨0, [], s⟩ := by
  have hhang : parseArgs E sig s ≠ .hang := by
    rw [parseArgs_eq_readSlots hreg]
    exact readSlots_ne_hang hreg
  have hmore := argLoop_mono (tokens s + (sig.length + 1)) hhang
  have hless := argLoop_mono (roundsLeft sig ⟨0, [], s⟩ + 1) h.2
  rw [Nat.add_comm] at hless
  rw [parseArgs, ← hmore, hless]

theorem modifierLoop_le {E : Interpreter.Env} : ∀ {fuel : ℕ} {g g' : Globals} {s t : Scanner},
    modifierLoop E fuel g s = .name g' t → t.linePtr.length ≤ s.linePtr.length
  | 0, _, _, _, _, h => by cases h
  | fuel + 1, g, g', s, t, h => by
    rw [modifierLoop] at h
    cases hs : nextToken true s with
    | none => simp [hs] at h
    | some u =>
      simp only [hs] at h
      split_ifs at h
      · exact (modifierLoop_le h).trans (nextToken_le hs)
      · cases h
        exact nextToken_le hs

/-- **The argument loop ends in time** on a line of a control connection that does not overrun it,
and on no other. -/
theorem loop_ends_iff {E : Interpreter.Env} {line : List UInt8} {g : Globals} {t : Scanner}
    {cmd : Command} (hlen : line.length ≤ lineMax) (hh : parseHead E line = .name g t)
    (hf : findCommand commands t = some cmd) :
    EndsInTime E.ids cmd.args t ↔ ¬ overruns E.ids cmd.args 0 t := by
  obtain ⟨hreg, -⟩ := commands_regular cmd (findCommand_mem hf)
  have hle : t.linePtr.length ≤ line.length := modifierLoop_le hh
  have hmax : lineMax ≤ tokenMax := by decide
  exact ended_iff _ [] cmd.args hreg (commands_repeatsIds cmd (findCommand_mem hf))
    (stepBack_of_ne (Regular.head_ne hreg)) (by omega) le_rfl

/-- A message. -/
theorem loop_ends_iff_msg : ∃ t, EndsInTime aliceEnv.ids [req .peer, req .msgStringEnd] t ↔
    ¬ overruns aliceEnv.ids [req .peer, req .msgStringEnd] 0 t :=
  have hlen : (lit "msg Alice hello").length ≤ lineMax := by decide
  ⟨_, loop_ends_iff (E := aliceEnv) hlen rfl
    (show _ = some ⟨"msg", [req .peer, req .msgStringEnd], Handlers.doMsg,
      "msg <peer> <text>\tSends text message to peer"⟩ from rfl)⟩

/-- A quoted user behind the name and the title of a channel. -/
theorem create_channel_overruns : ¬ ∀ (E : Interpreter.Env) (line : List UInt8) (g : Globals)
    (t : Scanner) (cmd : Command), line.length ≤ lineMax → parseHead E line = .name g t →
    findCommand commands t = some cmd → EndsInTime E.ids cmd.args t := by
  intro h
  have hends := h aliceEnv (lit "create_channel a b \"c\"") _ _ ⟨"create_channel",
    [req .string, req .string, opt .user, req .period], Handlers.doCreateChannel,
    "create_channel <name> <about> <user>+\tCreates channel with users"⟩ (by decide) rfl rfl
  refine (ended_iff _ [] [req .string, req .string, opt .user, req .period] rfl rfl rfl ?_
    le_rfl).mp hends ?_
  · exact (by decide : (lit " a b \"c\"").length ≤ tokenMax)
  · exact .inr (.inr ⟨_, rfl, .inr (.inr ⟨_, rfl, 0, _, rfl,
      .inr (.inr (.inl ⟨rfl, _, rfl, rfl⟩))⟩)⟩)

end TelegramCli.Interface.Rounds
