import TelegramCli.Interface.Standing

/-! # Numbers on a line

A number slot takes a decimal number as it is, with two exceptions. The value that stands for a
missing number is a number, too, and `strtoll` gives the nearest number of 64 bits for one that has
none. So the slots take every number of 64 bits but one, and refuse none that is too large
(`number_passed_iff`). -/

namespace TelegramCli.Interface.Numbers

open TelegramCli.Lib.CNumber TelegramCli.Lib.CString TelegramCli.Interface.Token
open TelegramCli.Interface.Ids hiding Env
open TelegramCli.Interface.Args TelegramCli.Interface.Slots TelegramCli.Interface.Places
open TelegramCli.Interface.Standing

/-- The numbers of a `long long`. -/
def Fits64 (n : ℤ) : Prop := -2 ^ 63 ≤ n ∧ n < 2 ^ 63

/-- The loop stands at a number slot, with room for an argument, in front of `n` and `rest`. -/
structure AtNumber (sig : List Slot) (st : LoopState) (n : ℤ) (rest : List UInt8) : Prop where
  slot : (slotAt sig (stepBack sig st.flags)).op = .number
  room : st.args.length < argsMax
  line : ∃ b : List UInt8, (∀ c ∈ b, 1 ≤ c ∧ c ≤ 32) ∧
    st.scan.linePtr = b ++ (decimal n ++ rest)
  ends : deref rest ≤ 32

/-- The loop stores the number and goes on behind it, and when the command is called the number
stands in its place. -/
def Passed (E : Ids.Env) (sig : List Slot) (st : LoopState) (n : ℤ) (rest : List UInt8) : Prop :=
  ∃ t, t.linePtr = rest ∧
    argNext E sig st = some ⟨stepBack sig st.flags + 1, st.args ++ [.num n], t⟩ ∧
    ∀ fuel out, argLoop E sig fuel st = .dispatch out → out[st.args.length]? = some (.num n)

/-- The loop goes on in front of the token, past a repeated slot or with a missing number for an
optional one; otherwise it says that it cannot parse the argument. -/
def Refused (E : Ids.Env) (sig : List Slot) (st : LoopState) : Prop :=
  ∃ save, save.linePtr = st.scan.linePtr ∧
    if repeated sig (stepBack sig st.flags) then
      argNext E sig st = some ⟨stepBack sig st.flags + 2, st.args, save⟩
    else if (slotAt sig (stepBack sig st.flags)).opt then
      argNext E sig st = some ⟨stepBack sig st.flags + 1, st.args ++ [missing .number], save⟩
    else argNext E sig st = none ∧ ∀ fuel, argLoop E sig (fuel + 1) st =
      .fail (lit "can not parse arg #" ++ decimal (st.args.length + 1))

/-! ### Arguments that are stored -/

/-- A round keeps the arguments that are there. -/
def Keeps (args : List Arg) : Round → Prop
  | .next _ args' _ => args <+: args'
  | .dispatch out => args <+: out
  | _ => True

variable {E : Ids.Env} {sig : List Slot}

theorem idRound_keeps (slot : Slot) (period : Bool) (args : List Arg) (s t : Scanner) :
    Keeps args (idRound E slot period args s t) := by
  unfold idRound
  simp only
  split_ifs
  · exact List.prefix_append _ _
  · exact List.prefix_rfl
  · trivial
  cases readId E slot.op t.tok with
  | none => trivial
  | some r =>
    simp only
    split_ifs
    · exact List.prefix_rfl
    · exact List.prefix_append _ _
    · trivial
    · exact List.prefix_append _ _

theorem wordRound_keeps (slot : Slot) (args : List Arg) (t : Scanner) :
    Keeps args (wordRound slot args t) := by
  unfold wordRound
  split_ifs
  · exact List.prefix_append _ _
  · trivial
  · exact List.prefix_append _ _

theorem slotRound_keeps (slot : Slot) (period : Bool) (args : List Arg) (s : Scanner) :
    Keeps args (slotRound E slot period args s) := by
  unfold slotRound
  by_cases hnone : slot.op = .none
  · rw [if_pos hnone]
    cases nextToken true s with
    | none => trivial
    | some t =>
      simp only
      split_ifs
      · exact List.prefix_rfl
      · trivial
  rw [if_neg hnone]
  by_cases hend : isEnd slot.op = true
  · rw [if_pos hend]
    cases nextTokenEnd true s with
    | none => trivial
    | some t =>
      simp only
      split_ifs
      · trivial
      · exact List.prefix_append _ _
  rw [if_neg hend]
  cases nextToken true s with
  | none => trivial
  | some t =>
    simp only
    split_ifs
    · exact List.prefix_rfl
    · exact idRound_keeps slot period args s t
    · exact wordRound_keeps slot args t
    · trivial

/-- **The arguments that are stored** are the first ones the command is called with. -/
theorem argLoop_keeps : ∀ {fuel : ℕ} {st : LoopState} {out : List Arg},
    argLoop E sig fuel st = .dispatch out → st.args <+: out
  | 0, _, _, h => by cases h
  | fuel + 1, st, out, h => by
    rw [argLoop] at h
    split_ifs at h
    have hkeeps : Keeps st.args _ := slotRound_keeps (E := E)
      (slotAt sig (stepBack sig st.flags)) (repeated sig (stepBack sig st.flags)) st.args st.scan
    simp only at h
    cases hr : slotRound E (slotAt sig (stepBack sig st.flags))
        (repeated sig (stepBack sig st.flags)) st.args st.scan with
    | next move args scan =>
      rw [hr] at hkeeps h
      exact hkeeps.trans (argLoop_keeps h)
    | dispatch args =>
      rw [hr] at hkeeps h
      rw [← Exit.dispatch.inj h]
      exact hkeeps
    | _ =>
      rw [hr] at h
      cases h

/-! ### One number -/

theorem curTokenInt_decimal (n : ℤ) : curTokenInt (decimal n) = saturate64 n := by
  unfold curTokenInt
  rw [if_neg (decimal_ne_nil n), strtoll_decimal (.inl rfl)]
  rfl

theorem saturate64_of_fits {n : ℤ} (h : Fits64 n) : saturate64 n = n := by
  unfold Fits64 at h
  unfold saturate64
  omega

theorem saturate64_eq_notFound {n : ℤ} : saturate64 n = notFound ↔ n = notFound := by
  unfold saturate64 notFound
  omega

theorem decimal_printed (n : ℤ) : (∀ c ∈ decimal n, 32 < c) ∧ decimal n ≠ [] ∧
    deref (decimal n) ≠ dquote ∧ deref (decimal n) ≠ squote := by
  refine ⟨fun c hc => ?_, decimal_ne_nil n, ?_⟩
  · rcases decimal_byte n c hc with rfl | h
    · decide
    · exact UInt8.lt_of_lt_of_le (by decide) h.1
  · obtain ⟨c, p, hp⟩ := List.exists_cons_of_ne_nil (decimal_ne_nil n)
    have hc := decimal_byte n c (by rw [hp]; exact List.mem_cons_self)
    rw [hp, deref_cons]
    constructor
    · rintro rfl
      exact absurd hc (by decide)
    · rintro rfl
      exact absurd hc (by decide)

variable {st : LoopState} {n : ℤ} {rest : List UInt8}

/-- **A round at a number**: the slot takes it for missing, or takes what `strtoll` makes of it. -/
theorem slotRound_number (h : AtNumber sig st n rest) : ∃ t, t.linePtr = rest ∧
    slotRound E (slotAt sig (stepBack sig st.flags)) (repeated sig (stepBack sig st.flags)) st.args
        st.scan =
      if n = notFound then
        if repeated sig (stepBack sig st.flags) then
          .next 2 st.args { t with linePtr := st.scan.linePtr }
        else if (slotAt sig (stepBack sig st.flags)).opt then
          .next 1 (st.args ++ [missing .number]) { t with linePtr := st.scan.linePtr }
        else .fail (lit "can not parse arg #" ++ decimal (st.args.length + 1))
      else .next 1 (st.args ++ [.num (saturate64 n)]) t := by
  obtain ⟨b, hb, hline⟩ := h.line
  obtain ⟨hprinted, hne, hquote⟩ := decimal_printed n
  have ht := nextToken_bytes true hb hne hprinted hquote h.ends hline
  refine ⟨⟨rest, decimal n ++ rest, (decimal n).length, false, false⟩, rfl, ?_⟩
  have hid : isId (slotAt sig (stepBack sig st.flags)).op = true := by rw [h.slot]; rfl
  have htok : (⟨rest, decimal n ++ rest, (decimal n).length, false, false⟩ : Scanner).tok =
      decimal n := by
    rw [Scanner.tok, Int.toNat_natCast, List.take_left]
  rw [slotRound_id hid, ht, Option.elim_some, idRound]
  simp only [Bool.not_true, Bool.false_and, Bool.and_false, Bool.or_self, if_neg Bool.false_ne_true,
    h.slot, readId, htok, curTokenInt_decimal, ne_eq, saturate64_eq_notFound]
  by_cases hn : n = notFound
  · have hsat : saturate64 n = notFound := saturate64_eq_notFound.mpr hn
    simp only [hn, not_true_eq_false, decide_false, Bool.not_false, Bool.and_true, if_true]
    rw [← hn, hsat]
    rfl
  · simp only [hn, not_false_eq_true, decide_true, Bool.not_true, Bool.and_false,
      if_neg Bool.false_ne_true, if_false]

theorem AtNumber.linePtr_ne (h : AtNumber sig st n rest) : st.scan.linePtr ≠ rest := by
  obtain ⟨b, -, hline⟩ := h.line
  have hpos := List.length_pos_of_ne_nil (decimal_ne_nil n)
  intro heq
  have hlen := congrArg List.length (hline.symm.trans heq)
  rw [List.length_append, List.length_append] at hlen
  omega

theorem passed_of_fits (h : AtNumber sig st n rest) (hfits : Fits64 n) (hn : n ≠ notFound) :
    Passed E sig st n rest := by
  obtain ⟨t, hrest, hround⟩ := slotRound_number (E := E) h
  rw [if_neg hn, saturate64_of_fits hfits] at hround
  have hgo := argNext_of_round h.room hround
  refine ⟨t, hrest, hgo, fun fuel out hout => ?_⟩
  cases fuel with
  | zero => cases hout
  | succ fuel =>
    rw [argLoop_of_next hgo] at hout
    obtain ⟨more, rfl⟩ := argLoop_keeps hout
    rw [List.append_assoc, List.getElem?_append_right le_rfl, Nat.sub_self]
    rfl

/-- The token is put back, or the line is refused. -/
theorem not_passed_notFound (h : AtNumber sig st notFound rest) :
    ¬ Passed E sig st notFound rest := by
  rintro ⟨u, hu, hgo, -⟩
  obtain ⟨t, -, hround⟩ := slotRound_number (E := E) h
  rw [if_pos rfl] at hround
  split_ifs at hround
  · rw [argNext_of_round h.room hround] at hgo
    simp at hgo
  · rw [argNext_of_round h.room hround] at hgo
    simp only [Option.some.injEq, LoopState.mk.injEq] at hgo
    obtain ⟨-, -, rfl⟩ := hgo
    exact h.linePtr_ne hu
  · rw [argNext_eq_none fun move args scan hr => by
      rw [slotOf, hround] at hr
      cases hr] at hgo
    cases hgo

/-- The nearest number is stored. -/
theorem not_refused (h : AtNumber sig st n rest) (hn : n ≠ notFound) : ¬ Refused E sig st := by
  rintro ⟨save, hsave, href⟩
  obtain ⟨t, hrest, hround⟩ := slotRound_number (E := E) h
  rw [if_neg hn] at hround
  rw [argNext_of_round h.room hround] at href
  split_ifs at href
  · simp at href
  · simp only [Option.some.injEq, LoopState.mk.injEq] at href
    obtain ⟨-, -, rfl⟩ := href
    exact h.linePtr_ne (hsave.symm.trans hrest)
  · simp at href

theorem notFound_fits : Fits64 notFound := by
  unfold Fits64 notFound
  omega

/-- **A number slot** takes the numbers of 64 bits but the one that stands for a missing number, and
it should refuse the others, but takes them, too. -/
theorem number_passed_iff (h : AtNumber sig st n rest) :
    ((Fits64 n → Passed E sig st n rest) ∧ (¬ Fits64 n → Refused E sig st)) ↔
      Fits64 n ∧ n ≠ notFound := by
  constructor
  · rintro ⟨hpass, hrefuse⟩
    have hfits : Fits64 n := by
      by_contra hnot
      exact not_refused h (fun hn => hnot (hn ▸ notFound_fits)) (hrefuse hnot)
    refine ⟨hfits, ?_⟩
    rintro rfl
    exact not_passed_notFound h (hpass hfits)
  · rintro ⟨hfits, hn⟩
    exact ⟨fun _ => passed_of_fits h hfits hn, fun hnot => absurd hfits hnot⟩

/-- The loop at the only slot of a signature, in front of a number that ends the line. -/
theorem atNumber_only (n : ℤ) : AtNumber [⟨.number, false⟩]
    ⟨0, [], .start (lit " " ++ decimal n)⟩ n [] where
  slot := rfl
  room := (by decide : 0 < argsMax)
  line := ⟨lit " ", fun c hc => by rw [List.mem_singleton.mp (show c ∈ [32] from hc)]; decide,
    by rw [List.append_nil]; rfl⟩
  ends := by decide

/-- The number 5. -/
theorem number_passed_iff_five :
    ((Fits64 5 → Passed Interpreter.aliceEnv.ids [⟨.number, false⟩]
        ⟨0, [], .start (lit " " ++ decimal 5)⟩ 5 []) ∧
      (¬ Fits64 5 → Refused Interpreter.aliceEnv.ids [⟨.number, false⟩]
        ⟨0, [], .start (lit " " ++ decimal 5)⟩)) ↔ Fits64 5 ∧ (5 : ℤ) ≠ notFound :=
  number_passed_iff (atNumber_only 5)

/-- -2147483648 is a number, and is not taken. -/
theorem not_found_number : ¬ ∀ (E : Ids.Env) (sig : List Slot) (st : LoopState) (n : ℤ)
    (rest : List UInt8), AtNumber sig st n rest →
    (Fits64 n → Passed E sig st n rest) ∧ (¬ Fits64 n → Refused E sig st) := by
  intro h
  have hnumber := atNumber_only notFound
  exact not_passed_notFound hnumber ((h Interpreter.aliceEnv.ids _ _ _ _ hnumber).1 notFound_fits)

end TelegramCli.Interface.Numbers
