import TelegramCli.Interface.Slots

/-! # When a command is dispatched

What the tokens of a line must have been for a slot to take them (`takeId`, `takeWord`), and the
arguments a command is dispatched with: without repetition (`Straight`) there is one for each slot,
of the slot's member (`readSlots_members`), and a repeated slot has taken some number of them
(`repeatSlot_dispatch`), which is known when it takes all that is left of the line
(`repeatSlot_of_countTaken`). -/

namespace TelegramCli.Interface.Dispatch

open TelegramCli.Lib.CString TelegramCli.Interface.Token TelegramCli.Interface.Ids
open TelegramCli.Interface.Args TelegramCli.Interface.Slots

variable {E : Env}

/-! ### What the tokens of a line are -/

/-- Nothing is left of the line. -/
def atEnd (s : Scanner) : Bool := (nextToken true s).elim false (·.curTokenEndStr)

/-- The scanner behind the next token, if that is an unquoted one with the value asked for. -/
def takeId (E : Env) (op : CommandArgument) (s : Scanner) : Option Scanner :=
  (nextToken true s).filter fun t =>
    !t.curTokenQuoted && !t.curTokenEndStr && (readId E op t.tok).elim false Prod.snd

/-- How many tokens there are up to the end of the line, if each has the value asked for and there
are fewer than `n`. -/
def countTaken (E : Env) (op : CommandArgument) : ℕ → Scanner → Option ℕ
  | 0, _ => none
  | n + 1, s =>
    if atEnd s then some 0
    else (takeId E op s).bind fun t => (countTaken E op n t).map (· + 1)

/-- The scanner behind a word. -/
def takeWord (s : Scanner) : Option Scanner :=
  (nextToken true s).filter fun t => !t.curTokenEndStr && !(t.curTokenLen < 0)

/-! ### One round -/

theorem takeId_eq_some {op : CommandArgument} {s t : Scanner} (h : takeId E op s = some t) :
    nextToken true s = some t ∧ t.curTokenQuoted = false ∧ t.curTokenEndStr = false ∧
      ∃ a, readId E op t.tok = some (a, true) := by
  obtain ⟨h, hc⟩ := Option.filter_eq_some_iff.mp h
  simp only [Bool.and_eq_true, Bool.not_eq_true'] at hc
  obtain ⟨⟨hq, he⟩, hr⟩ := hc
  refine ⟨h, hq, he, ?_⟩
  cases hr' : readId E op t.tok with
  | none => simp [hr'] at hr
  | some r =>
    obtain ⟨a, ok⟩ := r
    rw [hr'] at hr
    exact ⟨a, by rw [show ok = true from hr]⟩

theorem slotRound_take {slot : Slot} (hid : isId slot.op = true) {s t : Scanner}
    (h : takeId E slot.op s = some t) : ∃ a : Arg, a.member = slot.op.member ∧
      ∀ period args, slotRound E slot period args s = .next 1 (args ++ [a]) t := by
  obtain ⟨ht, hq, he, a, ha⟩ := takeId_eq_some h
  refine ⟨a, readId_member ha, fun period args => ?_⟩
  rw [slotRound_id hid, ht, Option.elim_some, he, Bool.and_false, if_neg Bool.false_ne_true,
    idRound, hq, he]
  simp [ha]

theorem slotRound_atEnd {slot : Slot} (hid : isId slot.op = true) {s : Scanner}
    (h : atEnd s = true) (args : List Arg) : slotRound E slot true args s = .dispatch args := by
  rw [slotRound_id hid]
  cases ht : nextToken true s with
  | none => simp [atEnd, ht] at h
  | some t =>
    rw [atEnd, ht, Option.elim_some] at h
    rw [Option.elim_some, h]
    rfl

theorem idRound_ne_dispatch {slot : Slot} {period : Bool} {args out : List Arg} {s t : Scanner} :
    idRound E slot period args s t ≠ .dispatch out := by
  unfold idRound
  cases hr : readId E slot.op t.tok <;> simp only <;> split_ifs <;> simp

theorem slotRound_id_dispatch {slot : Slot} (hid : isId slot.op = true) {period : Bool}
    {args out : List Arg} {s : Scanner} (h : slotRound E slot period args s = .dispatch out) :
    period = true ∧ atEnd s = true ∧ out = args := by
  rw [slotRound_id hid] at h
  cases ht : nextToken true s with
  | none => simp [ht] at h
  | some t =>
    rw [ht, Option.elim_some] at h
    split_ifs at h with hp
    · obtain ⟨hp, he⟩ := Bool.and_eq_true_iff.mp hp
      exact ⟨hp, by rw [atEnd, ht]; exact he, (Round.dispatch.inj h).symm⟩
    · exact absurd h idRound_ne_dispatch

theorem wordRound_ne_dispatch {slot : Slot} {args out : List Arg} {t : Scanner} :
    wordRound slot args t ≠ .dispatch out := by
  unfold wordRound
  split_ifs <;> simp

/-- A slot that is not repeated is the last one when its round dispatches. -/
theorem slotRound_dispatch {slot : Slot} (hslot : taken slot = true) {args out : List Arg}
    {s : Scanner} (h : slotRound E slot false args s = .dispatch out) :
    isEnd slot.op = true ∧ ∃ x, out = args ++ [.str x] := by
  rcases taken_iff.mp hslot with hs | hs | hs
  · exact absurd (slotRound_id_dispatch hs h).1 (by decide)
  · rw [slotRound_word hs] at h
    cases ht : nextToken true s with
    | none => simp [ht] at h
    | some t =>
      rw [ht, Option.elim_some, Bool.false_and, if_neg Bool.false_ne_true] at h
      exact absurd h wordRound_ne_dispatch
  · rw [slotRound_end hs] at h
    cases ht : nextTokenEnd true s with
    | none => simp [ht] at h
    | some t =>
      rw [ht, Option.elim_some] at h
      split_ifs at h
      exact ⟨hs, _, (Round.dispatch.inj h).symm⟩

/-- Past the last slot the arguments are complete. -/
theorem readSlots_nil_dispatch {args out : List Arg} {s : Scanner}
    (h : readSlots E [] args s = .dispatch out) : atEnd s = true ∧ out = args := by
  rw [readSlots, readSlot] at h
  split_ifs at h
  rw [slotRound_none] at h
  cases ht : nextToken true s with
  | none => simp [ht, exitOf] at h
  | some t =>
    rw [ht, Option.elim_some] at h
    split_ifs at h with he
    · exact ⟨by rw [atEnd, ht]; exact he, (Exit.dispatch.inj h).symm⟩
    · simp [exitOf] at h

/-- A slot that is not repeated, when the command is dispatched. -/
theorem readSlots_cons_dispatch {slot : Slot} (hslot : taken slot = true) {rest : List Slot}
    (hrest : slotAt rest 0 ≠ Slot.period) {args out : List Arg} {s : Scanner}
    (h : readSlots E (slot :: rest) args s = .dispatch out) :
    (isEnd slot.op = true ∧ ∃ x, out = args ++ [.str x]) ∨
      ∃ (a : Arg) (s' : Scanner), a.member = slot.op.member ∧
        slotRound E slot false args s = .next 1 (args ++ [a]) s' ∧
        readSlots E rest (args ++ [a]) s' = .dispatch out := by
  rw [readSlots_cons hrest, readSlot] at h
  split_ifs at h
  rcases exitOf_cases h with h | ⟨args', s', hr, h⟩ | ⟨m, args', s', hr, hm, -⟩
  · exact Or.inl (slotRound_dispatch hslot h)
  · rcases slotRound_next hslot hr with ⟨-, a, ha, rfl⟩ | ⟨hm, -, -⟩
    · exact Or.inr ⟨a, s', ha, hr, h⟩
    · exact absurd hm (by decide)
  · rcases slotRound_next hslot hr with ⟨hm1, -⟩ | ⟨-, hp, -⟩
    · exact absurd hm1 hm
    · exact absurd hp (by decide)

/-! ### Signatures without repetition -/

/-- No slot is repeated, and only the last one takes the rest of the line. -/
def Straight : List Slot → Bool
  | [] => true
  | slot :: rest => taken slot && (rest.isEmpty || !isEnd slot.op) && Straight rest

theorem Straight.head_ne : ∀ {sig : List Slot}, Straight sig = true → slotAt sig 0 ≠ Slot.period
  | [], _ => by decide
  | _ :: _, h => by
    rw [Straight, Bool.and_eq_true, Bool.and_eq_true] at h
    exact taken_ne_period h.1.1

theorem Straight.regular : ∀ {sig : List Slot}, Straight sig = true → Regular sig = true
  | [], _ => rfl
  | [slot], h => by
    rw [Straight, Bool.and_eq_true, Bool.and_eq_true] at h
    exact h.1.1
  | slot :: next :: rest, h => by
    rw [Straight, Bool.and_eq_true, Bool.and_eq_true] at h
    rw [Regular, if_neg (show ¬ next = Slot.period from Straight.head_ne h.2), Bool.and_eq_true]
    exact ⟨h.1.1, Straight.regular h.2⟩

/-- **Without repetition** there is an argument for each slot, stored through the slot's member. -/
theorem readSlots_members : ∀ {sig : List Slot} {args out : List Arg} {s : Scanner},
    Straight sig = true → readSlots E sig args s = .dispatch out →
    out.map Arg.member = args.map Arg.member ++ sig.map (·.op.member)
  | [], _, _, _, _, h => by rw [(readSlots_nil_dispatch h).2, List.map_nil, List.append_nil]
  | slot :: rest, args, out, s, hs, h => by
    rw [Straight, Bool.and_eq_true, Bool.and_eq_true] at hs
    obtain ⟨⟨hslot, hlast⟩, hrest⟩ := hs
    rcases readSlots_cons_dispatch hslot (Straight.head_ne hrest) h with
      ⟨hend, x, rfl⟩ | ⟨a, s', ha, -, h⟩
    · rw [hend, Bool.not_true, Bool.or_false, List.isEmpty_iff] at hlast
      have hm : slot.op.member = .str := by
        revert hend; cases slot.op <;> simp [isEnd, CommandArgument.member]
      simp [hlast, hm, Arg.member]
    · rw [readSlots_members hrest h]
      simp [ha]

/-! ### Words -/

theorem slotRound_takeWord {slot : Slot} (hw : isWord slot.op = true) {s t : Scanner}
    (h : takeWord s = some t) (args : List Arg) : slotRound E slot false args s =
      .next 1 (args ++ [.str (some (cstring t.tok))]) t := by
  obtain ⟨ht, hc⟩ := Option.filter_eq_some_iff.mp h
  rw [Bool.and_eq_true, Bool.not_eq_true', Bool.not_eq_true'] at hc
  rw [slotRound_word hw, ht, Option.elim_some, Bool.false_and, if_neg Bool.false_ne_true,
    wordRound, hc.1, hc.2, Bool.or_false, if_neg Bool.false_ne_true]

theorem slotRound_word_next {slot : Slot} (hw : isWord slot.op = true) (hopt : slot.opt = false)
    {args args' : List Arg} {s s' : Scanner} {m : ℕ}
    (h : slotRound E slot false args s = .next m args' s') : takeWord s = some s' := by
  rw [slotRound_word hw] at h
  cases ht : nextToken true s with
  | none => simp [ht] at h
  | some t =>
    rw [ht, Option.elim_some, Bool.false_and, if_neg Bool.false_ne_true, wordRound, hopt,
      if_neg Bool.false_ne_true] at h
    split_ifs at h with hc
    obtain ⟨-, -, rfl⟩ := Round.next.inj h
    rw [Bool.not_eq_true, Bool.or_eq_false_iff] at hc
    rw [takeWord, ht, Option.filter_some, hc.1, hc.2]
    rfl

theorem readSlots_atEnd {args : List Arg} {s : Scanner} (hend : atEnd s = true)
    (hlen : args.length < argsMax) : readSlots E [] args s = .dispatch args := by
  rw [readSlots, readSlot, if_pos hlen, slotRound_none]
  cases ht : nextToken true s with
  | none => simp [atEnd, ht] at hend
  | some t =>
    rw [atEnd, ht, Option.elim_some] at hend
    rw [Option.elim_some, hend]
    rfl

/-! ### Repeated slots -/

/-- Whether the line has ended depends on the line alone. -/
theorem atEnd_congr {s t : Scanner} (h : s.linePtr = t.linePtr) : atEnd s = atEnd t := by
  unfold atEnd nextToken
  rw [h]
  simp only
  split_ifs
  · rfl
  · rfl
  · cases unescapeToken (skipWspc t.linePtr).tail
      (scanQuote (deref (skipWspc t.linePtr)) false (skipWspc t.linePtr).tail) <;> rfl
  · rfl

/-- A mandatory slot goes on with the token it takes; otherwise it is repeated, and something is
left of the line. -/
theorem slotRound_id_next {slot : Slot} (hid : isId slot.op = true) (hopt : slot.opt = false)
    {period : Bool} {args args' : List Arg} {s s' : Scanner} {m : ℕ}
    (h : slotRound E slot period args s = .next m args' s') :
    (m = 1 ∧ takeId E slot.op s = some s') ∨ (m = 2 ∧ atEnd s' = false) := by
  rw [slotRound_id hid] at h
  cases ht : nextToken true s with
  | none => simp [ht] at h
  | some t =>
    rw [ht, Option.elim_some] at h
    split_ifs at h with hend
    have hsave : period = true → atEnd { t with linePtr := s.linePtr } = false := by
      rintro rfl
      rw [Bool.true_and, Bool.not_eq_true] at hend
      have he : atEnd s = false := by rw [atEnd, ht]; exact hend
      rw [← he]
      exact atEnd_congr rfl
    unfold idRound at h
    simp only [hopt, if_neg Bool.false_ne_true, Bool.false_and] at h
    split_ifs at h with hq hp
    · obtain ⟨rfl, -, rfl⟩ := Round.next.inj h
      exact Or.inr ⟨rfl, hsave hp⟩
    cases hr : readId E slot.op t.tok with
    | none => simp [hr] at h
    | some r =>
      obtain ⟨a, ok⟩ := r
      simp only [hr] at h
      split_ifs at h with hp hok
      · obtain ⟨rfl, -, rfl⟩ := Round.next.inj h
        exact Or.inr ⟨rfl, hsave (Bool.and_eq_true_iff.mp hp).1⟩
      · obtain ⟨rfl, -, rfl⟩ := Round.next.inj h
        rw [Bool.not_eq_true, Bool.not_eq_false'] at hok
        rw [Bool.or_eq_true, not_or, Bool.not_eq_true, Bool.not_eq_true] at hq
        refine Or.inl ⟨rfl, ?_⟩
        rw [takeId, ht]
        simp [Option.filter, hq, hr, hok]

/-- A repeated slot has taken `k` arguments when the command is dispatched: there the line ends, or
the later slots read on. -/
theorem repeatSlot_dispatch {slot : Slot} (hid : isId slot.op = true)
    {leave : List Arg → Scanner → Exit} : ∀ {n : ℕ} {args out : List Arg} {s : Scanner},
    repeatSlot E slot leave n args s = .dispatch out →
    ∃ (k : ℕ) (more : List Arg), k < n ∧ more.map Arg.member = List.replicate k slot.op.member ∧
      ((out = args ++ more ∧ (slot.opt = false → countTaken E slot.op n s = some k)) ∨
        ∃ s', (slot.opt = false → atEnd s' = false) ∧ leave (args ++ more) s' = .dispatch out)
  | 0, _, _, _, h => by cases h
  | n + 1, args, out, s, h => by
    have hslot : taken slot = true := taken_iff.mpr (Or.inl hid)
    rw [repeatSlot] at h
    rcases exitOf_cases h with h | ⟨args', s', hr, h⟩ | ⟨m, args', s', hr, hm, h⟩
    · obtain ⟨-, hend, rfl⟩ := slotRound_id_dispatch hid h
      exact ⟨0, [], Nat.succ_pos n, rfl, Or.inl ⟨(List.append_nil _).symm, fun _ => by
        rw [countTaken, if_pos hend]⟩⟩
    · rcases slotRound_next hslot hr with ⟨-, a, ha, rfl⟩ | ⟨hm, -, -⟩
      · obtain ⟨k, more, hk, hmore, hout⟩ := repeatSlot_dispatch hid h
        refine ⟨k + 1, a :: more, Nat.succ_lt_succ hk, ?_, ?_⟩
        · rw [List.map_cons, ha, hmore, List.replicate_succ]
        · rw [List.append_cons]
          refine hout.imp_left ?_
          rintro ⟨he, hc⟩
          refine ⟨he, fun ho => ?_⟩
          have hnot : ¬ atEnd s = true := by
            intro he
            rw [slotRound_atEnd hid he] at hr
            cases hr
          rcases slotRound_id_next hid ho hr with ⟨-, ht⟩ | ⟨hm, -⟩
          · rw [countTaken, if_neg hnot, ht, Option.bind_some, hc ho]; rfl
          · exact absurd hm (by decide)
      · exact absurd hm (by decide)
    · rcases slotRound_next hslot hr with ⟨hm1, -⟩ | ⟨rfl, -, rfl⟩
      · exact absurd hm1 hm
      · refine ⟨0, [], Nat.succ_pos n, rfl, Or.inr ⟨s', fun ho => ?_, by rwa [List.append_nil]⟩⟩
        rcases slotRound_id_next hid ho hr with ⟨hm1, -⟩ | ⟨-, he⟩
        · exact absurd hm1 hm
        · exact he

theorem repeatSlot_atEnd {slot : Slot} (hid : isId slot.op = true) {s : Scanner}
    (hend : atEnd s = true) (leave : List Arg → Scanner → Exit) :
    ∀ {n : ℕ}, 0 < n → ∀ args, repeatSlot E slot leave n args s = .dispatch args
  | _ + 1, _, args => by rw [repeatSlot, slotRound_atEnd hid hend]; rfl

theorem countTaken_zero {op : CommandArgument} : ∀ {n : ℕ} {s : Scanner},
    countTaken E op n s = some 0 → atEnd s = true
  | n + 1, s, h => by
    rw [countTaken] at h
    split_ifs at h with hend
    · exact hend
    · obtain ⟨t, -, h⟩ := Option.bind_eq_some_iff.mp h
      obtain ⟨k, -, h⟩ := Option.map_eq_some_iff.mp h
      exact absurd h (Nat.succ_ne_zero k)

/-- A repeated slot that takes every token. -/
theorem repeatSlot_of_countTaken {slot : Slot} (hid : isId slot.op = true)
    (leave : List Arg → Scanner → Exit) : ∀ {n k : ℕ} {s : Scanner},
    countTaken E slot.op n s = some k → ∃ more : List Arg,
      more.map Arg.member = List.replicate k slot.op.member ∧
      ∀ args, repeatSlot E slot leave n args s = .dispatch (args ++ more)
  | 0, _, _, h => by cases h
  | n + 1, k, s, h => by
    rw [countTaken] at h
    split_ifs at h with hend
    · cases h
      exact ⟨[], rfl, fun args => by
        rw [List.append_nil]; exact repeatSlot_atEnd hid hend leave (Nat.succ_pos n) args⟩
    · obtain ⟨t, ht, h⟩ := Option.bind_eq_some_iff.mp h
      obtain ⟨k, hk, rfl⟩ := Option.map_eq_some_iff.mp h
      obtain ⟨more, hmore, hrun⟩ := repeatSlot_of_countTaken hid leave hk
      obtain ⟨a, ha, hr⟩ := slotRound_take hid ht
      refine ⟨a :: more, by rw [List.map_cons, ha, hmore, List.replicate_succ], fun args => ?_⟩
      rw [List.append_cons args a more, repeatSlot, hr true args]
      exact hrun (args ++ [a])

end TelegramCli.Interface.Dispatch
