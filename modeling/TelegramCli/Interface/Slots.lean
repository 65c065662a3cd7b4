import TelegramCli.Interface.Args

/-! # Slot after slot

`argLoop` moves a pointer to and fro in an array. What that comes to is `readSlots`, a recursion on
the signature: the slots are read one after the other, and a slot followed by `ca_period` is read
again and again (`repeatSlot`). On the signatures that are `Regular` the two agree
(`parseArgs_eq_readSlots`), so a fact about the loop is proved along the signature. -/

namespace TelegramCli.Interface.Slots

open TelegramCli.Lib.CNumber TelegramCli.Lib.CString TelegramCli.Tgl
open TelegramCli.Interface.Token TelegramCli.Interface.Ids TelegramCli.Interface.Args

variable {E : Env}

/-- How the loop ends after a round, where `next` goes on with the next slot and `leave` goes past a
`ca_period`. -/
def exitOf (next leave : List Arg → Scanner → Exit) : Round → Exit
  | .next 1 args s => next args s
  | .next _ args s => leave args s
  | .dispatch args => .dispatch args
  | .fail text => .fail text
  | .silent => .silent
  | .abort => .abort
  | .hang => .hang

def readSlot (E : Env) (slot : Slot) (next : List Arg → Scanner → Exit) (args : List Arg)
    (s : Scanner) : Exit :=
  if args.length < argsMax then exitOf next next (slotRound E slot false args s) else .abort

/-- A slot followed by `ca_period`, with room for `n` arguments. -/
def repeatSlot (E : Env) (slot : Slot) (leave : List Arg → Scanner → Exit) :
    ℕ → List Arg → Scanner → Exit
  | 0, _, _ => .abort
  | n + 1, args, s =>
    exitOf (repeatSlot E slot leave n) leave (slotRound E slot true args s)

def readSlots (E : Env) : List Slot → List Arg → Scanner → Exit
  | [], args, s => readSlot E Slot.none (fun _ _ => .hang) args s
  | [slot], args, s => readSlot E slot (readSlots E []) args s
  | slot :: next :: rest, args, s =>
    if next = Slot.period then
      repeatSlot E slot (readSlots E rest) (argsMax - args.length) args s
    else readSlot E slot (readSlots E (next :: rest)) args s

/-- Some branch of the loop takes the slot. -/
def taken (slot : Slot) : Bool := isId slot.op || isWord slot.op || isEnd slot.op

/-- Every slot is taken, and what `ca_period` follows is one of them. -/
def Regular : List Slot → Bool
  | [] => true
  | [slot] => taken slot
  | slot :: next :: rest =>
    taken slot && if next = Slot.period then Regular rest else Regular (next :: rest)

theorem taken_ne_none {slot : Slot} (h : taken slot = true) : slot ≠ Slot.none := by
  rintro rfl; exact absurd h (by decide)

theorem taken_ne_period {slot : Slot} (h : taken slot = true) : slot ≠ Slot.period := by
  rintro rfl; exact absurd h (by decide)

theorem taken_iff {slot : Slot} :
    taken slot = true ↔ isId slot.op = true ∨ isWord slot.op = true ∨ isEnd slot.op = true := by
  rw [taken, Bool.or_eq_true, Bool.or_eq_true, or_assoc]

/-! ### What a round does -/

theorem slotRound_none (period : Bool) (args : List Arg) (s : Scanner) :
    slotRound E Slot.none period args s = (nextToken true s).elim .abort fun t =>
      if t.curTokenEndStr then .dispatch args
      else .fail (lit "too many args #" ++ decimal args.length) := by
  rw [slotRound, if_pos (show Slot.none.op = .none from rfl)]
  cases nextToken true s <;> rfl

theorem slotRound_end {slot : Slot} (h : isEnd slot.op = true) (period : Bool) (args : List Arg)
    (s : Scanner) :
    slotRound E slot period args s = (nextTokenEnd true s).elim .abort fun t =>
      if t.curTokenLen < 0 then .fail (lit "can not parse string_end arg #" ++ decimal args.length)
      else .dispatch (args ++ [.str (some (cstring t.tok))]) := by
  have h1 : slot.op ≠ .none := by rintro e; rw [e] at h; exact absurd h (by decide)
  rw [slotRound, if_neg h1, if_pos h]
  cases nextTokenEnd true s <;> rfl

theorem slotRound_id {slot : Slot} (h : isId slot.op = true) (period : Bool) (args : List Arg)
    (s : Scanner) :
    slotRound E slot period args s = (nextToken true s).elim .abort fun t =>
      if period && t.curTokenEndStr then .dispatch args else idRound E slot period args s t := by
  have h1 : slot.op ≠ .none := by rintro e; rw [e] at h; exact absurd h (by decide)
  have h2 : ¬ isEnd slot.op = true := by
    revert h; cases slot.op <;> simp [isEnd, isId]
  rw [slotRound, if_neg h1, if_neg h2]
  cases nextToken true s with
  | none => rfl
  | some t => simp only [h, if_true, Option.elim_some]

theorem slotRound_word {slot : Slot} (h : isWord slot.op = true) (period : Bool) (args : List Arg)
    (s : Scanner) :
    slotRound E slot period args s = (nextToken true s).elim .abort fun t =>
      if period && t.curTokenEndStr then .dispatch args else wordRound slot args t := by
  have h1 : slot.op ≠ .none := by rintro e; rw [e] at h; exact absurd h (by decide)
  have h2 : ¬ isEnd slot.op = true ∧ ¬ isId slot.op = true := by
    revert h; cases slot.op <;> simp [isEnd, isId, isWord]
  rw [slotRound, if_neg h1, if_neg h2.1]
  cases nextToken true s with
  | none => rfl
  | some t => simp only [if_neg h2.2, h, if_true, Option.elim_some]

theorem readId_member {op : CommandArgument} {tok : List UInt8} {a : Arg} {ok : Bool}
    (h : readId E op tok = some (a, ok)) : a.member = op.member := by
  cases op
  case msgId =>
    obtain ⟨id, -, hid⟩ := Option.map_eq_some_iff.mp h
    cases hid; rfl
  all_goals first | (cases h; rfl) | cases h

theorem missing_member {op : CommandArgument} (h : isId op = true) :
    (missing op).member = op.member := by
  cases op <;> first | rfl | exact absurd h (by decide)

/-- A round that goes on has taken an argument of the slot's member, or ends a repetition. -/
def Moves (slot : Slot) (period : Bool) (args : List Arg) : Round → Prop
  | .next m args' _ => (m = 1 ∧ ∃ a : Arg, a.member = slot.op.member ∧ args' = args ++ [a]) ∨
      (m = 2 ∧ period = true ∧ args' = args)
  | _ => True

theorem moves_take {slot : Slot} {period : Bool} {args : List Arg} {s : Scanner} {a : Arg}
    (h : a.member = slot.op.member) : Moves slot period args (.next 1 (args ++ [a]) s) :=
  Or.inl ⟨rfl, a, h, rfl⟩

theorem idRound_moves {slot : Slot} (h : isId slot.op = true) (period : Bool) (args : List Arg)
    (s t : Scanner) : Moves slot period args (idRound E slot period args s t) := by
  unfold idRound
  split_ifs with hq ho hp
  · exact moves_take (missing_member h)
  · exact Or.inr ⟨rfl, hp, rfl⟩
  · exact trivial
  cases hr : readId E slot.op t.tok with
  | none => exact trivial
  | some r =>
    obtain ⟨a, ok⟩ := r
    simp only
    split_ifs with hp
    · exact Or.inr ⟨rfl, (Bool.and_eq_true_iff.mp hp).1, rfl⟩
    · exact moves_take (readId_member hr)
    · exact trivial
    · exact moves_take (readId_member hr)

theorem wordRound_moves {slot : Slot} (h : isWord slot.op = true) (period : Bool)
    (args : List Arg) (t : Scanner) : Moves slot period args (wordRound slot args t) := by
  have hm : slot.op.member = .str := by
    revert h; cases slot.op <;> simp [isWord, CommandArgument.member]
  unfold wordRound
  split_ifs
  · exact moves_take hm.symm
  · exact trivial
  · exact moves_take hm.symm

/-- **A round** of a slot that is taken. -/
theorem slotRound_moves {slot : Slot} (hslot : taken slot = true) (period : Bool)
    (args : List Arg) (s : Scanner) : Moves slot period args (slotRound E slot period args s) := by
  rcases taken_iff.mp hslot with hs | hs | hs
  · rw [slotRound_id hs]
    cases nextToken true s with
    | none => exact trivial
    | some t =>
      rw [Option.elim_some]
      split_ifs
      · exact trivial
      · exact idRound_moves hs period args s t
  · rw [slotRound_word hs]
    cases nextToken true s with
    | none => exact trivial
    | some t =>
      rw [Option.elim_some]
      split_ifs
      · exact trivial
      · exact wordRound_moves hs period args t
  · rw [slotRound_end hs]
    cases nextTokenEnd true s with
    | none => exact trivial
    | some t => rw [Option.elim_some]; split_ifs <;> exact trivial

theorem slotRound_next {slot : Slot} (hslot : taken slot = true) {period : Bool}
    {args args' : List Arg} {s s' : Scanner} {m : ℕ}
    (h : slotRound E slot period args s = .next m args' s') :
    (m = 1 ∧ ∃ a : Arg, a.member = slot.op.member ∧ args' = args ++ [a]) ∨
      (m = 2 ∧ period = true ∧ args' = args) := by
  have hm : Moves slot period args (slotRound E slot period args s) :=
    slotRound_moves hslot period args s
  rw [h] at hm
  exact hm

/-! ### The pointer and the recursion -/

theorem exitOf_congr {next leave next' leave' : List Arg → Scanner → Exit} {r : Round}
    (h1 : ∀ args s, r = .next 1 args s → next args s = next' args s)
    (h2 : ∀ m args s, r = .next m args s → m ≠ 1 → leave args s = leave' args s) :
    exitOf next leave r = exitOf next' leave' r := by
  cases r with
  | next m args s =>
    by_cases hm : m = 1
    · subst hm; exact h1 args s rfl
    · unfold exitOf
      split <;> simp_all
  | _ => rfl

theorem exitOf_next (next : List Arg → Scanner → Exit) (m : ℕ) (args : List Arg) (s : Scanner) :
    exitOf next next (.next m args s) = next args s := by
  unfold exitOf
  split <;> simp_all

/-- The round that leaves the loop so. -/
def exitRound : Exit → Round
  | .dispatch args => .dispatch args
  | .fail text => .fail text
  | .silent => .silent
  | .abort => .abort
  | .hang => .hang

/-- The loop leaves in this round, or goes on. -/
theorem exitOf_cases {next leave : List Arg → Scanner → Exit} {r : Round} {e : Exit}
    (h : exitOf next leave r = e) : r = exitRound e ∨
      (∃ args s, r = .next 1 args s ∧ next args s = e) ∨
      ∃ m args s, r = .next m args s ∧ m ≠ 1 ∧ leave args s = e := by
  cases r with
  | next m args s =>
    by_cases hm : m = 1
    · subst hm; exact Or.inr (Or.inl ⟨args, s, rfl, h⟩)
    · refine Or.inr (Or.inr ⟨m, args, s, rfl, hm, ?_⟩)
      rw [← h]
      unfold exitOf
      split <;> simp_all
  | _ => subst h; exact Or.inl rfl

theorem argLoop_full {sig : List Slot} {fuel flags : ℕ} {args : List Arg} {s : Scanner}
    (hlen : ¬ args.length < argsMax) : argLoop E sig (fuel + 1) ⟨flags, args, s⟩ = .abort := by
  rw [argLoop, if_neg hlen]

/-- The entry behind a prefix. -/
theorem slotAt_append (pre rest : List Slot) (i : ℕ) :
    slotAt (pre ++ rest) (pre.length + i) = slotAt rest i := by
  simp [slotAt, List.getD_eq_getElem?_getD, List.getElem?_append_right]

theorem repeated_append (pre rest : List Slot) :
    repeated (pre ++ rest) pre.length = repeated rest 0 := by
  have h0 : slotAt (pre ++ rest) pre.length = slotAt rest 0 := slotAt_append pre rest 0
  rw [repeated, repeated, h0, slotAt_append]

/-- A round with the pointer behind a prefix, or at the `ca_period` after it. -/
theorem argLoop_append {pre rest : List Slot} {fuel flags : ℕ} {args : List Arg} {s : Scanner}
    (hback : stepBack (pre ++ rest) flags = pre.length) (hlen : args.length < argsMax)
    (hm : ∀ m args' s', slotRound E (slotAt rest 0) (repeated rest 0) args s = .next m args' s' →
      m = 1 ∨ m = 2) :
    argLoop E (pre ++ rest) (fuel + 1) ⟨flags, args, s⟩ =
      exitOf (fun args s => argLoop E (pre ++ rest) fuel ⟨pre.length + 1, args, s⟩)
        (fun args s => argLoop E (pre ++ rest) fuel ⟨pre.length + 2, args, s⟩)
        (slotRound E (slotAt rest 0) (repeated rest 0) args s) := by
  have h0 : slotAt (pre ++ rest) pre.length = slotAt rest 0 := slotAt_append pre rest 0
  rw [argLoop, if_pos hlen]
  simp only [hback, h0, repeated_append]
  generalize hr : slotRound E (slotAt rest 0) (repeated rest 0) args s = r
  cases r with
  | next m args' s' =>
    rcases hm m args' s' hr with rfl | rfl <;> rfl
  | _ => rfl

theorem stepBack_of_ne {sig : List Slot} {i : ℕ} (h : slotAt sig i ≠ Slot.period) :
    stepBack sig i = i := if_neg h

theorem stepBack_of_eq {sig : List Slot} {i : ℕ} (h : slotAt sig i = Slot.period) :
    stepBack sig i = i - 1 := if_pos h

theorem stepBack_le (sig : List Slot) (i : ℕ) : i ≤ stepBack sig i + 1 := by
  unfold stepBack; split_ifs <;> omega

theorem roundsLeft_take {sig : List Slot} {f g : ℕ} {args : List Arg} (h : args.length < argsMax)
    (a : Arg) (s t : Scanner) :
    roundsLeft sig ⟨g, args ++ [a], t⟩ < roundsLeft sig ⟨f, args, s⟩ := by
  obtain ⟨k, hk⟩ : ∃ k, argsMax - args.length = k + 1 := ⟨argsMax - args.length - 1, by omega⟩
  have hk' : argsMax - (args ++ [a]).length = k := by
    rw [List.length_append, List.length_singleton]; omega
  simp only [roundsLeft]
  rw [hk, hk', Nat.succ_mul]
  omega

theorem roundsLeft_leave {sig : List Slot} {f g : ℕ} (h : f < g) (hf : f < sig.length + 2)
    (args : List Arg) (s t : Scanner) :
    roundsLeft sig ⟨g, args, t⟩ < roundsLeft sig ⟨f, args, s⟩ := by
  simp only [roundsLeft]
  omega

theorem Regular.head_ne : ∀ {sig : List Slot}, Regular sig = true → slotAt sig 0 ≠ Slot.period
  | [], _ => by decide
  | [_], h => taken_ne_period h
  | _ :: _ :: _, h => taken_ne_period (Bool.and_eq_true_iff.mp h).1

theorem Regular.cases {slot : Slot} : ∀ {rest : List Slot}, Regular (slot :: rest) = true →
    taken slot = true ∧ ((∃ tail, rest = Slot.period :: tail ∧ Regular tail = true) ∨
      (slotAt rest 0 ≠ Slot.period ∧ Regular rest = true))
  | [], h => ⟨h, Or.inr ⟨by decide, rfl⟩⟩
  | next :: rest, h => by
    rw [Regular, Bool.and_eq_true] at h
    refine ⟨h.1, ?_⟩
    by_cases hn : next = Slot.period
    · rw [if_pos hn] at h
      exact Or.inl ⟨rest, by rw [hn], h.2⟩
    · rw [if_neg hn] at h
      exact Or.inr ⟨hn, h.2⟩

theorem readSlots_cons {slot : Slot} : ∀ {rest : List Slot}, slotAt rest 0 ≠ Slot.period →
    readSlots E (slot :: rest) = readSlot E slot (readSlots E rest)
  | [], _ => rfl
  | next :: rest, h => by
    funext args s
    rw [readSlots, if_neg (show ¬ next = Slot.period from h)]

theorem readSlots_period (slot : Slot) (rest : List Slot) (args : List Arg) (s : Scanner) :
    readSlots E (slot :: Slot.period :: rest) args s =
      repeatSlot E slot (readSlots E rest) (argsMax - args.length) args s := by
  rw [readSlots, if_pos rfl]

theorem readSlots_full {sig : List Slot} {args : List Arg} (h : ¬ args.length < argsMax)
    (s : Scanner) : readSlots E sig args s = .abort := by
  have h0 : argsMax - args.length = 0 := by omega
  match sig with
  | [] => rw [readSlots, readSlot, if_neg h]
  | [slot] => rw [readSlots, readSlot, if_neg h]
  | slot :: next :: rest =>
    rw [readSlots, h0]
    split_ifs
    · rfl
    · rw [readSlot, if_neg h]

theorem slotRound_none_ne_next {period : Bool} {args args' : List Arg} {s s' : Scanner} {m : ℕ} :
    slotRound E Slot.none period args s ≠ .next m args' s' := by
  rw [slotRound_none]
  cases nextToken true s with
  | none => simp
  | some t => rw [Option.elim_some]; split_ifs <;> simp

/-- **The loop** reads the slots one after the other, wherever the pointer stands. -/
theorem argLoop_eq_readSlots : ∀ (fuel : ℕ) (pre rest : List Slot) {flags : ℕ} {args : List Arg}
    {s : Scanner}, Regular rest = true → stepBack (pre ++ rest) flags = pre.length →
    roundsLeft (pre ++ rest) ⟨flags, args, s⟩ < fuel →
    argLoop E (pre ++ rest) fuel ⟨flags, args, s⟩ = readSlots E rest args s
  | 0, _, _, _, _, _, _, _, h => absurd h (Nat.not_lt_zero _)
  | fuel + 1, pre, rest, flags, args, s, hreg, hback, hfuel => by
    by_cases hlen : args.length < argsMax
    swap
    · rw [argLoop_full hlen, readSlots_full hlen]
    have hflags : flags ≤ pre.length + 1 := hback ▸ stepBack_le (pre ++ rest) flags
    match rest with
    | [] =>
      have hr : ∀ m args' s', slotRound E Slot.none false args s ≠ .next m args' s' :=
        fun _ _ _ => slotRound_none_ne_next
      rw [argLoop_append hback hlen fun m args' s' h => absurd h (hr m args' s'), readSlots,
        readSlot, if_pos hlen]
      exact exitOf_congr (fun _ _ h => absurd h (hr _ _ _)) fun _ _ _ h => absurd h (hr _ _ _)
    | slot :: rest =>
      obtain ⟨hslot, ⟨rest, rfl, hreg'⟩ | ⟨hp, hreg'⟩⟩ := Regular.cases hreg
      · have h1 : slotAt (pre ++ slot :: Slot.period :: rest) (pre.length + 1) = Slot.period :=
          slotAt_append pre _ 1
        have hrep : repeated (slot :: Slot.period :: rest) 0 = true := by
          simp [repeated, slotAt, taken_ne_none hslot]
        obtain ⟨n, hn⟩ : ∃ n, argsMax - args.length = n + 1 := ⟨argsMax - args.length - 1, by omega⟩
        rw [argLoop_append hback hlen fun m args' s' h =>
          (slotRound_next hslot h).imp And.left And.left, readSlots_period, hn, repeatSlot, hrep]
        refine exitOf_congr (fun args' s' h => ?_) fun m args' s' h hne => ?_
        · rcases slotRound_next hslot h with ⟨-, a, -, rfl⟩ | ⟨hm2, -, -⟩
          · -- the pointer stands at `ca_period`, and steps back
            rw [argLoop_eq_readSlots fuel pre _ hreg (by rw [stepBack_of_eq h1, Nat.add_sub_cancel])
              (Nat.lt_of_lt_of_le (roundsLeft_take hlen a s s') (Nat.le_of_lt_succ hfuel)),
              readSlots_period, List.length_append, List.length_singleton,
              show argsMax - (args.length + 1) = n by omega]
          · exact absurd hm2 (by decide)
        · rcases slotRound_next hslot h with ⟨hm1, -⟩ | ⟨-, -, rfl⟩
          · exact absurd hm1 hne
          · have h2 : slotAt (pre ++ slot :: Slot.period :: rest) (pre.length + 2) = slotAt rest 0 :=
              slotAt_append pre _ 2
            have happ : (pre ++ [slot, Slot.period]) ++ rest = pre ++ slot :: Slot.period :: rest :=
              List.append_assoc _ _ _
            rw [← happ]
            refine argLoop_eq_readSlots fuel _ rest hreg' ?_ ?_
            · rw [happ, stepBack_of_ne (h2 ▸ Regular.head_ne hreg'), List.length_append]; rfl
            · rw [happ]
              refine Nat.lt_of_lt_of_le (roundsLeft_leave (by omega) ?_ _ _ _)
                (Nat.le_of_lt_succ hfuel)
              rw [List.length_append]; omega
      · have h1 : slotAt (pre ++ slot :: rest) (pre.length + 1) = slotAt rest 0 :=
          slotAt_append pre _ 1
        have hrep : repeated (slot :: rest) 0 = false := by
          have : slotAt (slot :: rest) 1 = slotAt rest 0 := rfl
          simp [repeated, this, hp]
        rw [argLoop_append hback hlen fun m args' s' h =>
          (slotRound_next hslot h).imp And.left And.left, readSlots_cons hp, readSlot, if_pos hlen,
          hrep]
        refine exitOf_congr (fun args' s' h => ?_) fun m args' s' h hne => ?_
        · rcases slotRound_next hslot h with ⟨-, a, -, rfl⟩ | ⟨hm2, -, -⟩
          · have happ : (pre ++ [slot]) ++ rest = pre ++ slot :: rest := List.append_assoc _ _ _
            rw [← happ]
            refine argLoop_eq_readSlots fuel _ rest hreg' ?_ ?_
            · rw [happ, stepBack_of_ne (h1 ▸ hp), List.length_append]; rfl
            · rw [happ]
              exact Nat.lt_of_lt_of_le (roundsLeft_take hlen a s s') (Nat.le_of_lt_succ hfuel)
          · exact absurd hm2 (by decide)
        · rcases slotRound_next hslot h with ⟨hm1, -⟩ | ⟨-, hper, -⟩
          · exact absurd hm1 hne
          · exact absurd hper (by decide)

/-- **The argument loop** of a regular signature is the recursion. -/
theorem parseArgs_eq_readSlots {sig : List Slot} (h : Regular sig = true) (s : Scanner) :
    parseArgs E sig s = readSlots E sig [] s :=
  argLoop_eq_readSlots _ [] sig h (stepBack_of_ne (Regular.head_ne h)) (Nat.lt_succ_self _)

end TelegramCli.Interface.Slots
