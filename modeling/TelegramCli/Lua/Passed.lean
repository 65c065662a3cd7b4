import TelegramCli.Interface.Slots
import TelegramCli.Lua.Registered

/-! # What a registered command is passed

A slot for a string is seen as one for the rest of the line (`argLoop_string`), and the last
argument is read from a word that is no part of it, unless it is the first and a peer
(`pushArg_last`). So a line is served right exactly if it is refused or has nothing to pass
(`serves_iff`). `Kept` is what the argument loop keeps of the array. -/

namespace TelegramCli.Lua.Passed

open TelegramCli.Lib.CNumber TelegramCli.Lib.CString TelegramCli.Tgl TelegramCli.Interface.Token
open TelegramCli.Interface.Ids hiding Env
open TelegramCli.Interface.Args TelegramCli.Interface.Slots TelegramCli.Interface.ArgMemory
open TelegramCli.Lua.Registered

variable {E : Interface.Ids.Env} {slots : List LuaSlot}

/-! ### The slots as they are seen -/

theorem seen_eq_period (s : LuaSlot) : s.seen = Slot.period ↔ s.kind = Slot.period := by
  obtain ⟨op, opt⟩ := s
  cases op <;> cases opt <;> decide

theorem seen_eq_none (s : LuaSlot) : s.seen = Slot.none ↔ s.kind = Slot.none := by
  obtain ⟨op, opt⟩ := s
  cases op <;> cases opt <;> decide

theorem kind_op_string (s : LuaSlot) : s.kind.op = .string ↔ s.op = .string := by
  obtain ⟨op, opt⟩ := s
  cases op <;> simp [LuaSlot.kind, LuaArgument.named]

theorem seen_op_string {s : LuaSlot} (h : s.op = .string) : s.seen.op = .msgStringEnd := by
  obtain ⟨op, opt⟩ := s
  cases h
  cases opt <;> decide

theorem seen_op_ne_msgId (s : LuaSlot) : s.seen.op ≠ .msgId := by
  obtain ⟨op, opt⟩ := s
  cases op <;> cases opt <;> decide

/-- The kinds that a slot can be registered with. -/
def Registrable (slots : List LuaSlot) : Prop :=
  ∀ s ∈ slots, s.op ∉ [.modifier, .command, .extf]

theorem parseVariant_op {s : List UInt8} {slot : LuaSlot} (h : parseVariant s = some slot) :
    slot.op ∉ [.modifier, .command, .extf] := by
  obtain ⟨v, hv, rfl⟩ := Option.map_eq_some_iff.mp h
  have hmem : v ∈ variants := List.mem_of_find?_eq_some hv
  have hall : ∀ v ∈ variants, v.2 ∉ [.modifier, .command, .extf] := by decide
  exact hall v hmem

theorem mapM_mem {α β : Type} {f : α → Option β} {P : β → Prop}
    (hf : ∀ a b, f a = some b → P b) : ∀ {l : List α} {l' : List β}, l.mapM f = some l' →
      ∀ b ∈ l', P b
  | [], l', h, b, hb => by
    cases h
    cases hb
  | a :: l, l', h, b, hb => by
    simp only [List.mapM_cons, Option.pure_def, Option.bind_eq_bind, Option.bind_eq_some_iff] at h
    obtain ⟨b', hb', l'', hl'', heq⟩ := h
    cases heq
    rcases List.mem_cons.mp hb with rfl | hb
    · exact hf a b hb'
    · exact mapM_mem hf hl'' b hb

theorem signature_registrable (S : Signature) : Registrable S.slots := by
  have h := S.accepted
  unfold registerArgs at h
  split_ifs at h
  refine mapM_mem (fun a b hab => ?_) h
  obtain ⟨s, -, hs⟩ := Option.bind_eq_some_iff.mp hab
  exact parseVariant_op hs

/-- A slot of the signature, or the filling behind it. -/
theorem slotAt_cases (slots : List LuaSlot) (i : ℕ) :
    (∃ s ∈ slots, slotAt (slots.map LuaSlot.seen) i = s.seen ∧
      slotAt (slots.map LuaSlot.kind) i = s.kind) ∨
    slotAt (slots.map LuaSlot.seen) i = Slot.none ∧
      slotAt (slots.map LuaSlot.kind) i = Slot.none := by
  unfold slotAt
  simp only [List.getD_eq_getElem?_getD, List.getElem?_map]
  cases h : slots[i]? with
  | none => exact .inr ⟨rfl, rfl⟩
  | some s => exact .inl ⟨s, List.mem_of_getElem? h, rfl, rfl⟩

theorem slotAt_seen_period (i : ℕ) : slotAt (slots.map LuaSlot.seen) i = Slot.period ↔
    slotAt (slots.map LuaSlot.kind) i = Slot.period := by
  rcases slotAt_cases slots i with ⟨s, -, hseen, hkind⟩ | ⟨hseen, hkind⟩
  · rw [hseen, hkind, seen_eq_period]
  · rw [hseen, hkind]

theorem slotAt_seen_none (i : ℕ) : slotAt (slots.map LuaSlot.seen) i = Slot.none ↔
    slotAt (slots.map LuaSlot.kind) i = Slot.none := by
  rcases slotAt_cases slots i with ⟨s, -, hseen, hkind⟩ | ⟨hseen, hkind⟩
  · rw [hseen, hkind, seen_eq_none]
  · rw [hseen, hkind]

theorem stepBack_seen (flags : ℕ) :
    stepBack (slots.map LuaSlot.seen) flags = stepBack (slots.map LuaSlot.kind) flags := by
  unfold stepBack
  simp only [slotAt_seen_period]

theorem repeated_seen (flags : ℕ) :
    repeated (slots.map LuaSlot.seen) flags = repeated (slots.map LuaSlot.kind) flags := by
  unfold repeated
  simp only [ne_eq, slotAt_seen_period, slotAt_seen_none]

/-- Where no string is registered the slot is seen as it is. -/
theorem slotAt_seen (hreg : Registrable slots) {i : ℕ}
    (h : (slotAt (slots.map LuaSlot.kind) i).op ≠ .string) :
    slotAt (slots.map LuaSlot.seen) i = slotAt (slots.map LuaSlot.kind) i := by
  rcases slotAt_cases slots i with ⟨s, hs, hseen, hkind⟩ | ⟨hseen, hkind⟩
  · rw [hkind] at h
    rw [hseen, hkind, seen_eq_kind_iff]
    have hop := hreg s hs
    rw [ne_eq, kind_op_string] at h
    simp_all
  · rw [hseen, hkind]

theorem slotAt_seen_string {i : ℕ} (h : (slotAt (slots.map LuaSlot.kind) i).op = .string) :
    (slotAt (slots.map LuaSlot.seen) i).op = .msgStringEnd := by
  rcases slotAt_cases slots i with ⟨s, -, hseen, hkind⟩ | ⟨-, hkind⟩
  · rw [hkind] at h
    rw [hseen]
    exact seen_op_string ((kind_op_string s).mp h)
  · rw [hkind] at h
    cases h

/-! ### Strings -/

/-- A line that does not come to a string is parsed as it should be. -/
theorem argLoop_seen (hreg : Registrable slots) : ∀ {fuel : ℕ} {st : LoopState},
    meetsString E (slots.map LuaSlot.kind) fuel st = false →
      argLoop E (slots.map LuaSlot.seen) fuel st = argLoop E (slots.map LuaSlot.kind) fuel st
  | 0, _, _ => rfl
  | fuel + 1, st, h => by
    rw [meetsString] at h
    rw [argLoop, argLoop]
    split_ifs at h ⊢ with hlen
    · dsimp only at h ⊢
      split_ifs at h with hop
      rw [stepBack_seen, repeated_seen, slotAt_seen hreg hop]
      cases hround : slotRound E (slotAt (slots.map LuaSlot.kind)
          (stepBack (slots.map LuaSlot.kind) st.flags))
          (repeated (slots.map LuaSlot.kind) (stepBack (slots.map LuaSlot.kind) st.flags))
          st.args st.scan with
      | next move args scan =>
        rw [hround] at h
        exact argLoop_seen hreg h
      | _ => rfl
    · rfl

/-- The `FAIL` of a slot for the rest of the line with the number `k`. -/
def endText (k : ℕ) : List UInt8 := lit "can not parse string_end arg #" ++ decimal k

theorem append_ne {a b : List UInt8} (h : a.isPrefixOf b = false) (hlen : a.length ≤ b.length)
    (x y : List UInt8) : a ++ x ≠ b ++ y := by
  intro heq
  have hpre : a <+: b := List.prefix_of_prefix_length_le (List.prefix_append a x)
    (heq ▸ List.prefix_append b y) hlen
  rw [← List.isPrefixOf_iff_prefix, h] at hpre
  cases hpre

theorem tooMany_ne_endText (n k : ℕ) : lit "too many args #" ++ decimal n ≠ endText k :=
  append_ne (by decide) (by decide) _ _

theorem arg_ne_endText (n : ℤ) (k : ℕ) : lit "can not parse arg #" ++ decimal n ≠ endText k :=
  append_ne (by decide) (by decide) _ _

theorem string_ne_endText (n k : ℕ) : lit "can not parse string arg #" ++ decimal n ≠ endText k :=
  append_ne (by decide) (by decide) _ _

/-- **A round** takes no argument back, and a `FAIL` for the rest of the line has the number of the
arguments. -/
def Counts (n : ℕ) : Round → Prop
  | .next _ args _ => n ≤ args.length
  | .fail text => ∀ k, text = endText k → k = n
  | _ => True

theorem idRound_counts (slot : Slot) (period : Bool) (args : List Arg) (s t : Scanner) :
    Counts args.length (idRound E slot period args s t) := by
  unfold idRound
  split_ifs
  · simp [Counts]
  · exact le_rfl
  · exact trivial
  · cases readId E slot.op t.tok with
    | none => exact trivial
    | some r =>
      simp only
      split_ifs
      · exact le_rfl
      · simp [Counts]
      · exact fun k h => absurd h (arg_ne_endText _ k)
      · simp [Counts]

theorem wordRound_counts (slot : Slot) (args : List Arg) (t : Scanner) :
    Counts args.length (wordRound slot args t) := by
  unfold wordRound
  split_ifs
  · simp [Counts]
  · exact fun k h => absurd h (string_ne_endText _ k)
  · simp [Counts]

theorem slotRound_counts (slot : Slot) (period : Bool) (args : List Arg) (s : Scanner) :
    Counts args.length (slotRound E slot period args s) := by
  unfold slotRound
  split_ifs
  · cases nextToken true s with
    | none => exact trivial
    | some t =>
      simp only
      split_ifs
      · exact trivial
      · exact fun k h => absurd h (tooMany_ne_endText _ k)
  · cases nextTokenEnd true s with
    | none => exact trivial
    | some t =>
      simp only
      split_ifs
      · exact fun k h => Int.ofNat_inj.mp (decimal_inj (List.append_cancel_left h).symm)
      · exact trivial
  · cases nextToken true s with
    | none => exact trivial
    | some t =>
      simp only
      split_ifs
      · exact trivial
      · exact idRound_counts slot period args s t
  · cases nextToken true s with
    | none => exact trivial
    | some t =>
      simp only
      split_ifs
      · exact trivial
      · exact wordRound_counts slot args t
  · cases nextToken true s with
    | none => exact trivial
    | some t =>
      simp only
      split_ifs <;> exact trivial

theorem argLoop_ne_fail {sig : List Slot} {k : ℕ} : ∀ {fuel : ℕ} {st : LoopState},
    k < st.args.length → argLoop E sig fuel st ≠ .fail (endText k)
  | 0, _, _ => by simp [argLoop]
  | fuel + 1, st, hk => by
    rw [argLoop]
    split_ifs
    · have hcounts := slotRound_counts (E := E) (slotAt sig (stepBack sig st.flags))
        (repeated sig (stepBack sig st.flags)) st.args st.scan
      dsimp only
      generalize slotRound E (slotAt sig (stepBack sig st.flags))
        (repeated sig (stepBack sig st.flags)) st.args st.scan = r at hcounts ⊢
      cases r with
      | next move args scan => exact argLoop_ne_fail (Nat.lt_of_lt_of_le hk hcounts)
      | fail text =>
        intro h
        have hnum : k = st.args.length := hcounts k (Exit.fail.inj h)
        omega
      | _ => simp
    · simp

/-- What a slot for a string does with the line is no `FAIL` for the rest of it. -/
theorem slotRound_string {slot : Slot} (hop : slot.op = .string) (period : Bool) (args : List Arg)
    (s : Scanner) :
    (∃ move a scan, slotRound E slot period args s = .next move (args ++ [a]) scan) ∨
      (∃ text, slotRound E slot period args s = .fail text ∧ ∀ k, text ≠ endText k) ∨
      slotRound E slot period args s = .dispatch args ∨
      slotRound E slot period args s = .abort := by
  unfold slotRound
  simp only [hop, isEnd, isId, isWord, reduceCtorEq, if_false, if_true, Bool.false_eq_true]
  cases nextToken true s with
  | none => simp
  | some t =>
    unfold wordRound
    simp only
    split_ifs
    · exact .inr (.inr (.inl rfl))
    · exact .inl ⟨_, _, _, rfl⟩
    · exact .inr (.inl ⟨_, rfl, fun k => string_ne_endText _ k⟩)
    · exact .inl ⟨_, _, _, rfl⟩

/-- A slot for the rest of the line. -/
theorem slotRound_rest {slot : Slot} (hop : slot.op = .msgStringEnd) (period : Bool)
    (args : List Arg) (s : Scanner) :
    (∃ str, slotRound E slot period args s = .dispatch (args ++ [.str (some str)])) ∨
      slotRound E slot period args s = .abort ∨
      slotRound E slot period args s = .fail (endText args.length) := by
  unfold slotRound
  simp only [hop, isEnd, reduceCtorEq, if_false, if_true]
  cases nextTokenEnd true s with
  | none => exact .inr (.inl rfl)
  | some t =>
    simp only
    split_ifs
    · exact .inr (.inr rfl)
    · exact .inl ⟨_, rfl⟩

/-- The last argument is a text. -/
def EndsInText (e : Exit) : Prop := ∃ args s, e = .dispatch (args ++ [.str (some s)])

/-- **A line that comes to a string** passes the rest of it, or is not parsed as it should be. -/
theorem argLoop_string (hreg : Registrable slots) : ∀ {fuel : ℕ} {st : LoopState},
    meetsString E (slots.map LuaSlot.kind) fuel st = true →
      EndsInText (argLoop E (slots.map LuaSlot.seen) fuel st) ∨
      argLoop E (slots.map LuaSlot.seen) fuel st = .abort ∨
      argLoop E (slots.map LuaSlot.seen) fuel st ≠ argLoop E (slots.map LuaSlot.kind) fuel st
  | 0, _, h => by cases h
  | fuel + 1, st, h => by
    rw [meetsString] at h
    rw [argLoop, argLoop]
    split_ifs at h ⊢ with hlen
    dsimp only at h ⊢
    rw [stepBack_seen, repeated_seen]
    by_cases hop : (slotAt (slots.map LuaSlot.kind)
        (stepBack (slots.map LuaSlot.kind) st.flags)).op = .string
    · rcases slotRound_rest (E := E) (slotAt_seen_string hop) (repeated (slots.map LuaSlot.kind)
          (stepBack (slots.map LuaSlot.kind) st.flags)) st.args st.scan with
        ⟨str, hrest⟩ | hrest | hrest
      · rw [hrest]
        exact .inl ⟨st.args, str, rfl⟩
      · rw [hrest]
        exact .inr (.inl rfl)
      · -- the `FAIL` has the number of the string, and its text is that of another kind
        rw [hrest]
        refine .inr (.inr ?_)
        rcases slotRound_string (E := E) hop (repeated (slots.map LuaSlot.kind)
            (stepBack (slots.map LuaSlot.kind) st.flags)) st.args st.scan with
          ⟨move, a, scan, hround⟩ | ⟨text, hround, htext⟩ | hround | hround
        · rw [hround]
          exact (argLoop_ne_fail (by simp)).symm
        · rw [hround]
          exact fun heq => htext _ (Exit.fail.inj heq).symm
        · rw [hround]
          simp
        · rw [hround]
          simp
    · rw [if_neg hop] at h
      rw [slotAt_seen hreg hop]
      cases hround : slotRound E (slotAt (slots.map LuaSlot.kind)
          (stepBack (slots.map LuaSlot.kind) st.flags))
          (repeated (slots.map LuaSlot.kind) (stepBack (slots.map LuaSlot.kind) st.flags))
          st.args st.scan with
      | next move args scan =>
        rw [hround] at h
        exact argLoop_string hreg h
      | _ =>
        rw [hround] at h
        cases h

/-! ### What the loop keeps of the array -/

/-- The entries behind the next one are those before the line, and the arguments are no message ids
and have strings of their own. -/
structure Filled (old : ℕ → Entry) (f : Frame) : Prop where
  above : ∀ j, f.argsNum < j → f.args j = old j
  member : ∀ i < f.argsNum, (f.args i).value.arg.member ≠ .msgId
  strings : ∃ g : ℕ → List UInt8, ∀ i < f.argsNum, ∀ a s, (f.args i).value = .dup a s →
    a < f.dups ∧ g a = s
  dups : f.dups ≤ f.argsNum
  num : f.argsNum ≤ argsMax

/-- A token is left. -/
def TokenStands (s : Scanner) : Prop :=
  ∃ t, nextToken true s = some t ∧ t.curTokenEndStr = false

/-- **The invariant** of the argument loop: the next entry has been written only for a token that
was put back. -/
structure Kept (old : ℕ → Entry) (f : Frame) (s : Scanner) : Prop extends Filled old f where
  next : (f.args f.argsNum).value = (old f.argsNum).value ∨ TokenStands s

/-- What the command finds: the next entry has its old value, and its flag is cleared unless the
last argument is the rest of the line. -/
structure Found (old : ℕ → Entry) (f : Frame) : Prop extends Filled old f where
  value : (f.args f.argsNum).value = (old f.argsNum).value
  flag : (f.args f.argsNum).flag = false ∨
    ∃ n a s, f.argsNum = n + 1 ∧ (f.args n).value = .dup a s

variable {old : ℕ → Entry} {f : Frame}

theorem Kept.start (old : ℕ → Entry) (s : Scanner) : Kept old ⟨old, 0, 0⟩ s where
  above _ _ := rfl
  member i hi := absurd hi (Nat.not_lt_zero i)
  strings := ⟨fun _ => [], fun i hi => absurd hi (Nat.not_lt_zero i)⟩
  dups := le_rfl
  num := Nat.zero_le _
  next := .inl rfl

/-- Another value at the next entry. -/
theorem Filled.update (h : Filled old f) (e : Entry) :
    Filled old { f with args := Function.update f.args f.argsNum e } where
  above j hj := (Function.update_of_ne (Nat.ne_of_gt hj) _ _).trans (h.above j hj)
  member i hi := by
    dsimp only at hi ⊢
    rw [Function.update_of_ne (Nat.ne_of_lt hi)]
    exact h.member i hi
  strings := by
    obtain ⟨g, hg⟩ := h.strings
    refine ⟨g, fun i hi => ?_⟩
    dsimp only at hi ⊢
    rw [Function.update_of_ne (Nat.ne_of_lt hi)]
    exact hg i hi
  dups := h.dups
  num := h.num

theorem Filled.clear (h : Filled old f) : Filled old f.clear := h.update _

theorem Filled.pop_push (h : Filled old f) (a : Arg) : Filled old (f.push a).pop := h.update _

theorem Filled.push (h : Filled old f) (hnum : f.argsNum < argsMax) {a : Arg}
    (ha : a.member ≠ .msgId) : Filled old (f.push a) := by
  have hupdate := h.update { f.args f.argsNum with value := .stored a }
  refine ⟨fun j hj => hupdate.above j (Nat.lt_of_succ_lt hj), fun i hi => ?_, ?_,
    h.dups.trans (Nat.le_succ _), hnum⟩
  · rcases Nat.lt_succ_iff_lt_or_eq.mp hi with hlt | rfl
    · exact hupdate.member i hlt
    · simpa [Frame.push, Value.arg] using ha
  · obtain ⟨g, hg⟩ := hupdate.strings
    refine ⟨g, fun i hi a' s hdup => ?_⟩
    rcases Nat.lt_succ_iff_lt_or_eq.mp hi with hlt | rfl
    · exact hg i hlt a' s hdup
    · simp [Frame.push] at hdup

theorem Filled.pushString (h : Filled old f) (hnum : f.argsNum < argsMax) (s : List UInt8) :
    Filled old (f.pushString s) := by
  have hupdate := h.update ⟨true, .dup f.dups s⟩
  refine ⟨fun j hj => hupdate.above j (Nat.lt_of_succ_lt hj), fun i hi => ?_, ?_,
    Nat.succ_le_succ h.dups, hnum⟩
  · rcases Nat.lt_succ_iff_lt_or_eq.mp hi with hlt | rfl
    · exact hupdate.member i hlt
    · simp [Frame.pushString, Value.arg, Arg.member]
  · obtain ⟨g, hg⟩ := hupdate.strings
    refine ⟨Function.update g f.dups s, fun i hi a' s' hdup => ?_⟩
    rcases Nat.lt_succ_iff_lt_or_eq.mp hi with hlt | rfl
    · obtain ⟨hlt', hgs⟩ := hg i hlt a' s' hdup
      refine ⟨Nat.lt_succ_of_lt hlt', ?_⟩
      rw [Function.update_of_ne (Nat.ne_of_lt hlt')]
      exact hgs
    · simp only [Frame.pushString, Function.update_self, Value.dup.injEq] at hdup
      obtain ⟨rfl, rfl⟩ := hdup
      exact ⟨Nat.lt_succ_self _, Function.update_self ..⟩

/-- Behind a value the array is as before the line. -/
theorem Filled.kept_push (h : Filled old f) (hnum : f.argsNum < argsMax) {a : Arg}
    (ha : a.member ≠ .msgId) (s : Scanner) : Kept old (f.push a) s := by
  refine ⟨h.push hnum ha, .inl ?_⟩
  have habove := h.above (f.argsNum + 1) (Nat.lt_succ_self _)
  simp [Frame.push, habove]

theorem Filled.value_pushString (h : Filled old f) (s : List UInt8) :
    ((f.pushString s).args (f.pushString s).argsNum).value =
      (old (f.pushString s).argsNum).value := by
  have habove := h.above (f.argsNum + 1) (Nat.lt_succ_self _)
  simp [Frame.pushString, habove]

theorem Kept.clear {s : Scanner} (h : Kept old f s) : Kept old f.clear s :=
  ⟨h.toFilled.clear, by simpa [Frame.clear] using h.next⟩

/-- At the end of the line no token is put back. -/
theorem Kept.value {s t : Scanner} (h : Kept old f s) (ht : nextToken true s = some t)
    (hend : t.curTokenEndStr = true) : (f.args f.argsNum).value = (old f.argsNum).value := by
  rcases h.next with hvalue | ⟨t', ht', hend'⟩
  · exact hvalue
  · rw [ht] at ht'
    cases ht'
    rw [hend] at hend'
    cases hend'

/-- A round keeps the invariant, or calls the command. -/
def Keeps (old : ℕ → Entry) : MemRound → Prop
  | .next _ f s => Kept old f s
  | .dispatch f => Found old f
  | _ => True

theorem tokenStands_again {s t : Scanner} (ht : nextToken true s = some t)
    (hend : t.curTokenEndStr = false) : TokenStands { t with linePtr := s.linePtr } :=
  ⟨t, nextToken_again ht, hend⟩

theorem memIdRound_keeps (h : Filled old f) (hnum : f.argsNum < argsMax) {slot : Slot}
    (hid : isId slot.op = true) (hop : slot.op.member ≠ .msgId) {period : Bool} {s t : Scanner}
    (ht : nextToken true s = some t) (hperiod : (period && t.curTokenEndStr) = false) :
    Keeps old (memIdRound E slot period f s t) := by
  unfold memIdRound
  split_ifs with htok hopt hrep
  · exact h.kept_push hnum (by rwa [missing_member hid]) _
  · rw [hrep, Bool.true_and] at hperiod
    exact ⟨h, .inr (tokenStands_again ht hperiod)⟩
  · exact trivial
  · have hend : t.curTokenEndStr = false := (Bool.or_eq_false_iff.mp (Bool.not_eq_true _ ▸ htok)).2
    cases hr : readId E slot.op t.tok with
    | none => exact trivial
    | some r =>
      obtain ⟨a, ok⟩ := r
      have ha : a.member ≠ .msgId := by rwa [readId_member hr]
      simp only
      split_ifs
      · exact ⟨h.pop_push a, .inr (tokenStands_again ht hend)⟩
      · exact h.kept_push hnum ha _
      · exact trivial
      · exact h.kept_push hnum ha _

theorem memWordRound_keeps (h : Filled old f) (hnum : f.argsNum < argsMax) (slot : Slot)
    (t : Scanner) : Keeps old (memWordRound slot f t) := by
  unfold memWordRound
  split_ifs
  · exact h.kept_push hnum (by simp [Arg.member]) t
  · exact trivial
  · exact ⟨h.pushString hnum _, .inl (h.value_pushString _)⟩

theorem memSlotRound_keeps {s : Scanner} (h : Kept old f s) (hnum : f.argsNum < argsMax)
    (hflag : (f.args f.argsNum).flag = false) {slot : Slot} (hop : slot.op.member ≠ .msgId)
    (period : Bool) : Keeps old (memSlotRound E slot period f s) := by
  unfold memSlotRound
  split_ifs with hnone hrest hid hword
  · cases ht : nextToken true s with
    | none => exact trivial
    | some t =>
      simp only
      split_ifs with hend
      · exact ⟨h.toFilled, h.value ht hend, .inl hflag⟩
      · exact trivial
  · cases nextTokenEnd true s with
    | none => exact trivial
    | some t =>
      simp only
      split_ifs
      · exact trivial
      · exact ⟨h.toFilled.pushString hnum _, h.toFilled.value_pushString _,
          .inr ⟨f.argsNum, f.dups, cstring t.tok, rfl, by simp [Frame.pushString]⟩⟩
  all_goals
    cases ht : nextToken true s with
    | none => exact trivial
    | some t =>
      simp only
      split_ifs with hend
      · exact ⟨h.toFilled, h.value ht (Bool.and_eq_true_iff.mp hend).2, .inl hflag⟩
      · first
        | exact memIdRound_keeps h.toFilled hnum hid hop ht (Bool.not_eq_true _ ▸ hend)
        | exact memWordRound_keeps h.toFilled hnum slot t
        | exact trivial

/-- **The array that a registered command finds**. -/
theorem memLoop_found {sig : List Slot} (hsig : ∀ i, (slotAt sig i).op.member ≠ .msgId) :
    ∀ {fuel flags : ℕ} {f f' : Frame} {s : Scanner}, Kept old f s →
      memLoop E sig fuel ⟨flags, f, s⟩ = .dispatch f' → Found old f'
  | 0, _, _, _, _, _, h => by cases h
  | fuel + 1, flags, f, f', s, hkept, h => by
    rw [memLoop] at h
    split_ifs at h with hnum
    have hround := memSlotRound_keeps (E := E) hkept.clear hnum (flag_clear f)
      (hsig (stepBack sig flags)) (repeated sig (stepBack sig flags))
    dsimp only at h
    generalize memSlotRound E (slotAt sig (stepBack sig flags)) (repeated sig (stepBack sig flags))
      f.clear s = r at hround h
    cases r with
    | next move f'' scan => exact memLoop_found hsig hround h
    | dispatch f'' =>
      cases h
      exact hround
    | _ => cases h

theorem slotAt_seen_member (slots : List LuaSlot) (i : ℕ) :
    (slotAt (slots.map LuaSlot.seen) i).op.member ≠ .msgId := by
  rcases slotAt_cases slots i with ⟨s, -, hseen, -⟩ | ⟨hseen, -⟩
  · rw [hseen]
    have hop := seen_op_ne_msgId s
    cases hs : s.seen.op <;> simp_all [CommandArgument.member]
  · rw [hseen]
    simp [Slot.none, CommandArgument.member]

/-! ### The words that are read -/

/-- An array of numbers. -/
def filler (b : Bool) (w : ℕ) : ℕ → Entry := fun _ => ⟨b, .stored (.num w)⟩

variable {b : Bool} {w : ℕ}

/-- A platform whose strings are duplicated to blocks of 16 bytes. -/
def blocks : Platform where
  peerType t :=
    if t = .user then 1 else if t = .chat then 2 else if t = .geoChat then 3
    else if t = .encrChat then 4 else if t = .channel then 5 else 0
  addr a := BitVec.ofNat 64 (16 * a + 8)
  addr_ne a h := by
    have hnat := congrArg BitVec.toNat h
    simp only [BitVec.toNat_ofNat, BitVec.ofNat_eq_ofNat] at hnat
    omega

/-- The memory in which the words that no value needs are `w`. -/
def memoryOf (w : ℕ) (f : Frame) (p : ℕ) : BitVec 64 :=
  if p % 4 = 0 then if (f.args (p / 4)).flag then 1 else 0
  else (valueWords blocks (f.args (p / 4)).value).getD (p % 4 - 1) (BitVec.ofNat 64 w)

/-- No peers, and the strings in their blocks. -/
def heapOf (g : ℕ → List UInt8) : Heap where
  stringAt p := if p.toNat % 16 = 8 then some (g ((p.toNat - 8) / 16)) else none
  peerAt _ := none

theorem length_valueWords_le (L : Platform) (v : Value) : (valueWords L v).length ≤ 3 := by
  cases v with
  | dup a s => simp [valueWords]
  | stored a => cases a <;> simp [valueWords]

theorem represents_memoryOf (w : ℕ) (f : Frame) : Represents blocks (memoryOf w f) f where
  flags i _ := by
    unfold memoryOf
    rw [if_pos (Nat.mul_mod_right 4 i), Nat.mul_div_cancel_left i (by decide)]
  value i _ k v hv := by
    have hk : k < 3 := Nat.lt_of_lt_of_le (List.getElem?_eq_some_iff.mp hv).1
      (length_valueWords_le _ _)
    have hdiv : (4 * i + 1 + k) / 4 = i := by omega
    have hmod : (4 * i + 1 + k) % 4 = k + 1 := by omega
    unfold memoryOf
    rw [hdiv, hmod, if_neg (Nat.succ_ne_zero k), Nat.add_sub_cancel, List.getD_eq_getElem?_getD, hv]
    rfl

theorem hasStrings_heapOf (h : Filled old f) : ∃ g, (heapOf g).HasStrings blocks f := by
  obtain ⟨g, hg⟩ := h.strings
  refine ⟨g, fun i hi a s hdup => ?_⟩
  obtain ⟨hlt, rfl⟩ := hg i hi a s hdup
  have hdups := h.dups
  have hnum := h.num
  have haddr : (blocks.addr a).toNat = 16 * a + 8 := by
    simp only [blocks, BitVec.toNat_ofNat]
    unfold argsMax at hnum
    omega
  have hmod : (16 * a + 8) % 16 = 8 := by omega
  have hdiv : (16 * a + 8 - 8) / 16 = a := by omega
  simp only [heapOf, haddr, hmod, if_true, hdiv]

/-- A word of an entry that holds no argument. -/
theorem memoryOf_free (h : Found (filler b w) f) {p : ℕ} (hp : f.argsNum ≤ p / 4)
    (hmod : p % 4 ≠ 0) : memoryOf w f p = BitVec.ofNat 64 w := by
  have hvalue : (f.args (p / 4)).value = .stored (.num w) := by
    rcases Nat.eq_or_lt_of_le hp with heq | hlt
    · rw [← heq]
      exact h.value
    · rw [h.above _ hlt]
      rfl
  unfold memoryOf
  rw [if_neg hmod, hvalue]
  simp only [valueWords, BitVec.ofInt_natCast, List.getD_eq_getElem?_getD]
  cases p % 4 - 1 <;> rfl

/-- The last word of a value that is no message id. -/
theorem memoryOf_third (h : Found (filler b w) f) {i p : ℕ} (hi : i < f.argsNum)
    (hp : p = 4 * i + 3) : memoryOf w f p = BitVec.ofNat 64 w := by
  have hdiv : p / 4 = i := by omega
  have hmod : p % 4 = 3 := by omega
  have hmember := h.member i hi
  unfold memoryOf
  rw [hdiv, hmod, if_neg (by decide)]
  cases hv : (f.args i).value with
  | dup a s => rfl
  | stored a =>
    rw [hv] at hmember
    cases a with
    | msgId id => exact absurd rfl hmember
    | _ => rfl

theorem valueOf_eq_nil {a : Arg} (h : valueOf a = .nil) : a = .str none ∨ a = .num notFound ∨
    a = .dval notFoundDouble ∨ ∃ id : PeerId, a = .peerId id ∧ id.peerId = notFound := by
  cases a with
  | str s => cases s <;> simp_all [valueOf]
  | num n => simp only [valueOf] at h; split_ifs at h with hn; simp [hn]
  | dval x => simp only [valueOf] at h; split_ifs at h with hx; simp [hx]
  | peerId id => simp only [valueOf] at h; split_ifs at h with hid; simp [hid]
  | msgId id => cases h

theorem valueOf_eq_zero {a : Arg} (h : valueOf a = .integer 0) : a = .num 0 := by
  cases a with
  | str s => cases s <;> simp_all [valueOf]
  | num n =>
    simp only [valueOf] at h
    split_ifs at h
    rw [LuaValue.integer.inj h]
  | dval x => simp only [valueOf] at h; split_ifs at h
  | peerId id => simp only [valueOf] at h; split_ifs at h
  | msgId id => cases h

theorem pair_ne_zero {lo hi : BitVec 32} (h : hi ≠ 0) : pair lo hi ≠ 0 := by
  intro hzero
  have hhi := congrArg (BitVec.extractLsb' 32 32) hzero
  unfold pair at hhi
  rw [BitVec.extractLsb'_append_eq_left] at hhi
  exact h hhi

/-- The first word of a value that is absent is 0 only for a string. -/
theorem first_of_nil {v : Value} (h : valueOf v.arg = .nil)
    (hzero : (valueWords blocks v).getD 0 (BitVec.ofNat 64 w) = 0) : v.arg = .str none := by
  have hnum : BitVec.ofInt 64 notFound ≠ 0 := by decide
  have hdouble : notFoundDouble ≠ 0 := by decide
  have hid : BitVec.ofInt 32 notFound ≠ 0 := by decide
  cases v with
  | dup a s => cases h
  | stored a =>
    rcases valueOf_eq_nil h with ha | ha | ha | ⟨id, ha, hpeer⟩
    · exact ha
    · cases ha
      exact absurd hzero hnum
    · cases ha
      exact absurd hzero hdouble
    · cases ha
      rw [← hpeer] at hid
      exact absurd hzero (pair_ne_zero hid)

/-! ### What is pushed for the last argument -/

/-- The value is none of those that the words with nothing in them stand for. -/
structure Apart (b : Bool) (w : ℕ) (v : LuaValue) : Prop where
  integer : v ≠ .integer w
  number : v ≠ .number (BitVec.ofNat 64 w)
  flag : v ≠ .integer (if b then 1 else 0)

theorem exists_apart (v : LuaValue) : ∃ b w, (w = 1 ∨ w = 3) ∧ Apart b w v := by
  by_cases hone : v = .integer 1 ∨ v = .number 1
  · refine ⟨false, 3, .inr rfl, ?_⟩
    rcases hone with rfl | rfl
    · exact ⟨by decide, by decide, by decide⟩
    · exact ⟨by decide, by decide, by decide⟩
  · rw [not_or] at hone
    exact ⟨true, 1, .inl rfl, hone.1, hone.2, hone.1⟩

variable {i : ℕ} {g : ℕ → List UInt8}

theorem read_peer (h : Found (filler b w) f) (hi : f.argsNum = i + 1) (hw : w = 1 ∨ w = 3)
    (hread : (if memoryOf w f (6 * i + 1) = 0 then some .nil
      else ((heapOf g).peerAt (memoryOf w f (6 * i + 1))).map .peer) =
        some (valueOf (f.args i).value.arg)) :
    i = 0 ∧ (f.args i).value.arg = .str none := by
  have hne : BitVec.ofNat 64 w ≠ 0 := by rcases hw with rfl | rfl <;> decide
  have hzero : memoryOf w f (6 * i + 1) = 0 := by
    by_contra hn
    rw [if_neg hn] at hread
    cases hread
  rw [if_pos hzero, Option.some.injEq] at hread
  rcases Nat.lt_or_ge 1 i with hlt | hle
  · rw [memoryOf_free h (by omega) (by omega)] at hzero
    exact absurd hzero hne
  · rcases Nat.le_one_iff_eq_zero_or_eq_one.mp hle with rfl | rfl
    · exact ⟨rfl, first_of_nil hread.symm hzero⟩
    · rw [memoryOf_third (i := 1) h (by omega) (by omega)] at hzero
      exact absurd hzero hne

/-- The word of a string is the third one of the first entry, or of an entry behind the last. -/
theorem memoryOf_string (h : Found (filler b w) f) (hi : f.argsNum = i + 1) :
    memoryOf w f (6 * i + 3) = BitVec.ofNat 64 w := by
  rcases Nat.eq_zero_or_pos i with rfl | hpos
  · exact memoryOf_third h (Nat.lt_of_lt_of_eq (Nat.lt_succ_self 0) hi.symm) rfl
  · exact memoryOf_free h (by omega) (by omega)

theorem read_string (h : Found (filler b w) f) (hi : f.argsNum = i + 1) (hw : w = 1 ∨ w = 3)
    {v : LuaValue} : (if memoryOf w f (6 * i + 3) = 0 then some .nil
      else ((heapOf g).stringAt (memoryOf w f (6 * i + 3))).map .string) ≠ some v := by
  rw [memoryOf_string h hi]
  rcases hw with rfl | rfl
  · rw [if_neg (by decide)]
    simp [heapOf]
  · rw [if_neg (by decide)]
    simp [heapOf]

theorem read_double (h : Found (filler b w) f) (hi : f.argsNum = i + 1) (hw : w = 1 ∨ w = 3)
    {v : LuaValue} (hv : Apart b w v) : (if memoryOf w f (6 * i + 5) = notFoundDouble then some .nil
      else some (.number (memoryOf w f (6 * i + 5)))) ≠ some v := by
  rw [memoryOf_free h (by omega) (by omega)]
  have hne : BitVec.ofNat 64 w ≠ notFoundDouble := by rcases hw with rfl | rfl <;> decide
  rw [if_neg hne]
  exact fun heq => hv.number (Option.some.inj heq).symm

/-- The word of a number is the flag of an entry behind the last, or holds no argument. -/
theorem memoryOf_number (h : Found (filler b w) f) (hi : f.argsNum = i + 1) :
    memoryOf w f (6 * i + 4) = BitVec.ofNat 64 w ∨
      memoryOf w f (6 * i + 4) = (if b then 1 else 0) ∨
      i = 0 ∧ memoryOf w f (6 * i + 4) = if (f.args 1).flag then 1 else 0 := by
  rcases Nat.eq_zero_or_pos i with rfl | hpos
  · exact .inr (.inr ⟨rfl, rfl⟩)
  · by_cases hmod : (6 * i + 4) % 4 = 0
    · have hlt : f.argsNum < (6 * i + 4) / 4 := by omega
      refine .inr (.inl ?_)
      unfold memoryOf
      rw [if_pos hmod, h.above _ hlt]
      rfl
    · exact .inl (memoryOf_free h (by omega) hmod)

theorem toInt_flag (b : Bool) : (if b then 1 else 0 : BitVec 64).toInt = if b then 1 else 0 := by
  cases b <;> decide

theorem read_number (h : Found (filler b w) f) (hi : f.argsNum = i + 1) (hw : w = 1 ∨ w = 3)
    (hv : Apart b w (valueOf (f.args i).value.arg))
    (hread : (if (memoryOf w f (6 * i + 4)).toInt = notFound then some .nil
      else some (.integer (memoryOf w f (6 * i + 4)).toInt)) =
        some (valueOf (f.args i).value.arg)) :
    i = 0 ∧ (f.args i).value.arg = .num 0 := by
  have hflag : ∀ b : Bool, (if b then 1 else 0 : ℤ) ≠ notFound := by decide
  rcases memoryOf_number h hi with hmem | hmem | ⟨rfl, hmem⟩
  · have hint : (BitVec.ofNat 64 w).toInt = w := by rcases hw with rfl | rfl <;> decide
    have hne : (w : ℤ) ≠ notFound := by rcases hw with rfl | rfl <;> decide
    rw [hmem, hint, if_neg hne] at hread
    exact absurd (Option.some.inj hread).symm hv.integer
  · rw [hmem, toInt_flag, if_neg (hflag b)] at hread
    exact absurd (Option.some.inj hread).symm hv.flag
  · rw [hmem, toInt_flag, if_neg (hflag _), Option.some.injEq] at hread
    refine ⟨rfl, valueOf_eq_zero ?_⟩
    rcases h.flag with hclear | ⟨n, a, s, hn, hdup⟩
    · rw [hi] at hclear
      rw [hclear] at hread
      exact hread.symm
    · -- the rest of the line is no number
      obtain rfl : n = 0 := by omega
      rw [hdup] at hread
      cases hread

/-- **The last argument** is read right only as the first, if it is an absent string read as a peer
or the number 0 read as a number. -/
theorem pushArg_last (h : Found (filler b w) f) (hi : f.argsNum = i + 1) (hw : w = 1 ∨ w = 3)
    (hv : Apart b w (valueOf (f.args i).value.arg)) {c : ℕ}
    (hpush : pushArg (heapOf g) (memoryOf w f) i c = some (valueOf (f.args i).value.arg)) :
    i = 0 ∧ ((f.args i).value.arg = .str none ∧ isPointer (codeKind c) = true ∨
      (f.args i).value.arg = .num 0 ∧ codeKind c = .number) := by
  unfold pushArg at hpush
  cases hkind : codeKind c
  case user | chat | secretChat | peer =>
    rw [hkind] at hpush
    obtain ⟨hzero, harg⟩ := read_peer h hi hw hpush
    exact ⟨hzero, .inl ⟨harg, rfl⟩⟩
  case fileName | fileNameEnd | stringEnd | string =>
    rw [hkind] at hpush
    exact absurd hpush (read_string h hi hw)
  case number =>
    rw [hkind] at hpush
    obtain ⟨hzero, harg⟩ := read_number h hi hw hv hpush
    exact ⟨hzero, .inr ⟨harg, rfl⟩⟩
  case double =>
    rw [hkind] at hpush
    exact absurd hpush (read_double h hi hw hv)
  all_goals
    rw [hkind] at hpush
    cases hpush

/-! ### The lines that are served right -/

theorem mapM_eq_map_iff {α β : Type} {F : α → Option β} {G : α → β} : ∀ {l : List α},
    l.mapM F = some (l.map G) ↔ ∀ a ∈ l, F a = some (G a)
  | [] => by simp
  | a :: l => by
    rw [List.mapM_cons, List.map_cons, List.forall_mem_cons, ← mapM_eq_map_iff]
    simp only [Option.pure_def, Option.bind_eq_bind, Option.bind_eq_some_iff, Option.some.injEq,
      List.cons.injEq]
    constructor
    · rintro ⟨x, hx, xs, hxs, rfl, rfl⟩
      exact ⟨hx, hxs⟩
    · rintro ⟨hx, hxs⟩
      exact ⟨_, hx, _, hxs, rfl, rfl⟩

/-- The Lua function gets the values of the array if each is pushed. -/
theorem doInterface_iff (H : Heap) (mem : ℕ → BitVec 64) (f : Frame) :
    doInterfaceFromLua H slots f.argsNum mem = some (f.view.map valueOf) ↔
      ∀ i < f.argsNum, (codeFrom slots (min i 9)).bind (pushArg H mem i) =
        some (valueOf (f.args i).value.arg) := by
  unfold doInterfaceFromLua Frame.view
  rw [List.map_map, mapM_eq_map_iff]
  simp only [List.mem_range, Function.comp_apply]

theorem codeKind_code (s : LuaSlot) : codeKind s.code = s.op := by
  obtain ⟨op, opt⟩ := s
  cases op <;> cases opt <;> decide

/-- The first slot, unless it repeats or is none. -/
theorem codeFrom_zero {c : ℕ} (h : codeFrom slots 0 = some c) :
    ∃ slot, slots.head? = some slot ∧ codeKind c = slot.op := by
  rw [codeFrom] at h
  split_ifs at h with hnone
  rw [not_or] at hnone
  cases slots with
  | nil => exact absurd rfl hnone.2
  | cons slot rest =>
    cases h
    exact ⟨slot, rfl, codeKind_code slot⟩

theorem codeFrom_head {slot : LuaSlot} (h : slots.head? = some slot) (hnone : slot.op ≠ .none)
    (hperiod : slot.op ≠ .period) : codeFrom slots 0 = some slot.code := by
  obtain ⟨rest, rfl⟩ := List.head?_eq_some_iff.mp h
  have hcode : slot.code ≠ LuaArgument.period.toNum ∧ slot.code ≠ 0 := by
    obtain ⟨op, opt⟩ := slot
    revert hnone hperiod
    cases op <;> cases opt <;> decide
  exact if_neg (not_or.mpr hcode)

/-- The loop with the array from before reads off what the parser does. -/
theorem memParseArgs_view (sig : List Slot) (args : ℕ → Entry) (t : Scanner) :
    (memParseArgs E sig ⟨true, args, 0, []⟩ t).view = parseArgs E sig t :=
  memLoop_view sig _ 0 ⟨args, 0, 0⟩ t

theorem memParseArgs_found {sig : List Slot} (hsig : ∀ i, (slotAt sig i).op.member ≠ .msgId)
    {t : Scanner} (h : memParseArgs E sig ⟨true, old, 0, []⟩ t = .dispatch f) : Found old f :=
  memLoop_found hsig (Kept.start old t) h

theorem view_eq_dispatch {e : MemExit} {args : List Arg} (h : e.view = .dispatch args) :
    ∃ f, e = .dispatch f ∧ f.view = args := by
  cases e with
  | dispatch f =>
    cases h
    exact ⟨f, rfl, rfl⟩
  | _ => cases h

theorem roundsLeft_seen (st : LoopState) :
    roundsLeft (slots.map LuaSlot.seen) st = roundsLeft (slots.map LuaSlot.kind) st := by
  simp [roundsLeft]

theorem head_seen : (slots.map LuaSlot.seen).head? = some Slot.period ↔
    slots.head? = some ⟨.period, false⟩ := by
  cases slots with
  | nil => simp
  | cons s rest =>
    obtain ⟨op, opt⟩ := s
    simp only [List.map_cons, List.head?_cons, Option.some.injEq]
    cases op <;> cases opt <;> decide

/-- The last value of a line that is served right. -/
theorem stake_of_serves {t : Scanner} {args : List Arg} (h : ServesLine E slots t)
    (hargs : parseArgs E (slots.map LuaSlot.seen) t = .dispatch args) :
    NothingAtStake slots args := by
  rcases List.eq_nil_or_concat args with rfl | ⟨pre, a, rfl⟩
  · exact .inl rfl
  · obtain ⟨b, w, hw, hv⟩ := exists_apart (valueOf a)
    obtain ⟨exit, hparse, -, -, hvalues⟩ := h (filler b w)
    unfold parseRegistered at hparse
    split_ifs at hparse
    cases hparse
    obtain ⟨f, hf, hview⟩ := view_eq_dispatch ((memParseArgs_view _ (filler b w) t).trans hargs)
    have hfound := memParseArgs_found (slotAt_seen_member slots) hf
    have hnum : f.argsNum = pre.length + 1 := by
      rw [← view_length, hview]
      simp
    have hlast : (f.args pre.length).value.arg = a := by
      have hget := congrArg (·[pre.length]?) hview
      simpa [Frame.view, hnum] using hget
    obtain ⟨g, hg⟩ := hasStrings_heapOf hfound.toFilled
    have hread := (doInterface_iff _ _ f).mp
      (hvalues f hf blocks (heapOf g) _ (represents_memoryOf w f) hg) pre.length (by omega)
    obtain ⟨c, hc, hpush⟩ := Option.bind_eq_some_iff.mp hread
    rw [← hlast] at hv
    obtain ⟨hzero, hcase⟩ := pushArg_last hfound hnum hw hv hpush
    rw [hlast] at hcase
    rw [hzero] at hc
    obtain ⟨slot, hslot, hop⟩ := codeFrom_zero hc
    obtain rfl : pre = [] := List.length_eq_zero_iff.mp hzero
    rw [hop] at hcase
    exact .inr ⟨slot, a, hslot, rfl, hcase⟩

theorem not_stake_text {args : List Arg} {s : List UInt8} :
    ¬ NothingAtStake slots (args ++ [.str (some s)]) := by
  rintro (h | ⟨slot, a, -, h, hcase⟩)
  · exact List.append_ne_nil_of_right_ne_nil _ (List.cons_ne_nil _ _) h
  · obtain rfl : Arg.str (some s) = a := by simpa using congrArg List.getLast? h
    rcases hcase with ⟨ha, -⟩ | ⟨ha, -⟩
    · cases ha
    · cases ha

theorem harmless_of_serves (hreg : Registrable slots) {t : Scanner} (h : ServesLine E slots t) :
    Harmless E slots t := by
  obtain ⟨exit, hparse, hanswers, hsame, -⟩ := h fun _ => ⟨false, .stored (.num 0)⟩
  unfold parseRegistered at hparse
  split_ifs at hparse with hstart
  cases hparse
  rw [memParseArgs_view] at hanswers hsame
  refine ⟨mt head_seen.mpr hstart, ?_, hsame ▸ hanswers, fun args hargs => ?_⟩
  · by_contra hmeets
    rw [Bool.not_eq_false] at hmeets
    rcases argLoop_string hreg hmeets with ⟨args, s, htext⟩ | habort | hne
    · rw [← roundsLeft_seen] at htext
      exact not_stake_text (stake_of_serves h htext)
    · rw [← roundsLeft_seen] at habort
      rw [parseArgs, habort] at hanswers
      cases hanswers
    · rw [parseArgs, parseArgs, roundsLeft_seen] at hsame
      exact hne hsame
  · exact stake_of_serves h (hsame.trans hargs)

/-- A first argument that is nothing is read right. -/
theorem pushArg_stake (hfound : Found old f) (hnum : f.argsNum = 1) {slot : LuaSlot}
    (hcase : (f.args 0).value.arg = .str none ∧ isPointer slot.op = true ∨
      (f.args 0).value.arg = .num 0 ∧ slot.op = .number)
    {L : Platform} {mem : ℕ → BitVec 64} (hmem : Represents L mem f) (H : Heap) :
    pushArg H mem 0 slot.code = some (valueOf (f.args 0).value.arg) := by
  unfold pushArg
  rw [codeKind_code]
  rcases hcase with ⟨harg, hop⟩ | ⟨harg, hop⟩
  · have hzero : mem 1 = 0 := by
      refine hmem.value 0 (by decide) 0 0 ?_
      cases hv : (f.args 0).value with
      | dup a s =>
        rw [hv] at harg
        cases harg
      | stored a =>
        rw [hv] at harg
        cases harg
        rfl
    rw [harg]
    cases hkind : slot.op <;> rw [hkind] at hop <;> first | exact if_pos hzero | cases hop
  · have hclear : (f.args 1).flag = false := by
      rcases hfound.flag with hclear | ⟨n, a, s, hn, hdup⟩
      · rwa [hnum] at hclear
      · obtain rfl : n = 0 := by omega
        rw [hdup] at harg
        cases harg
    have hzero : mem 4 = 0 := by
      have hflag := hmem.flags 1 (by decide)
      rwa [hclear] at hflag
    rw [harg, hop]
    simp only [Nat.mul_zero, Nat.zero_add, hzero]
    rfl

theorem stake_head {slot : LuaSlot} {a : Arg}
    (h : a = .str none ∧ isPointer slot.op = true ∨ a = .num 0 ∧ slot.op = .number) :
    slot.op ≠ .none ∧ slot.op ≠ .period := by
  rcases h with ⟨-, h⟩ | ⟨-, h⟩
  · constructor
    · intro hop
      rw [hop] at h
      cases h
    · intro hop
      rw [hop] at h
      cases h
  · rw [h]
    decide

theorem serves_of_harmless (hreg : Registrable slots) {t : Scanner} (h : Harmless E slots t) :
    ServesLine E slots t := by
  have hsame : parseArgs E (slots.map LuaSlot.seen) t = parseArgs E (slots.map LuaSlot.kind) t := by
    unfold parseArgs
    rw [roundsLeft_seen]
    exact argLoop_seen hreg h.string
  intro args
  refine ⟨_, if_neg (mt head_seen.mp h.start), ?_, ?_, fun f hf L H mem hmem _ => ?_⟩
  · rw [memParseArgs_view, hsame]
    exact h.answers
  · rw [memParseArgs_view, hsame]
  · have hview := memParseArgs_view (E := E) (slots.map LuaSlot.seen) args t
    rw [hf, hsame] at hview
    rw [doInterface_iff]
    intro i hi
    rcases h.nothing _ hview.symm with hnil | ⟨slot, a, hslot, hone, hcase⟩
    · rw [← view_length, hnil] at hi
      cases hi
    · have hnum : f.argsNum = 1 := by rw [← view_length, hone, List.length_singleton]
      obtain rfl : i = 0 := by omega
      have harg : (f.args 0).value.arg = a := by
        have hget := congrArg (·[0]?) hone
        simpa [Frame.view, hnum] using hget
      obtain ⟨hnone, hperiod⟩ := stake_head hcase
      rw [Nat.zero_min, codeFrom_head hslot hnone hperiod, Option.bind_some]
      exact pushArg_stake (memParseArgs_found (slotAt_seen_member slots) hf) hnum
        (harg.symm ▸ hcase) hmem H

/-- **A line is served right** if and only if it has nothing to pass. -/
theorem serves_iff (E : Interface.Ids.Env) (S : Signature) (t : Scanner) :
    ServesLine E S.slots t ↔ Harmless E S.slots t :=
  ⟨harmless_of_serves (signature_registrable S), serves_of_harmless (signature_registrable S)⟩

/-- A command that takes a number. -/
def numberSignature : Signature := ⟨[some (lit "number")], [⟨.number, false⟩], by decide⟩

/-- For the first line of a console with the number 5 the Lua function gets 0: the word it reads is
the flag of the next entry. -/
theorem number_misread : ¬ ∀ (E : Interface.Ids.Env) (S : Signature) (t : Scanner),
    ServesLine E S.slots t := by
  intro h
  obtain ⟨exit, hparse, -, -, hvalues⟩ := h Interface.Interpreter.aliceEnv.ids numberSignature
    (Scanner.start (lit " 5")) Memory.start.args
  have hrun : ∃ f, parseRegistered Interface.Interpreter.aliceEnv.ids numberSignature.slots
      Memory.start.args (Scanner.start (lit " 5")) = some (.dispatch f) ∧ f.argsNum = 1 ∧
      (f.args 0).value = .stored (.num 5) ∧ (f.args 1).flag = false := ⟨_, rfl, rfl, rfl, rfl⟩
  obtain ⟨f, hf, hnum, hfive, hflag⟩ := hrun
  rw [hf] at hparse
  cases hparse
  have hstrings : (heapOf fun _ => []).HasStrings blocks f := by
    intro i hi a s hdup
    obtain rfl : i = 0 := by omega
    rw [hfive] at hdup
    cases hdup
  have hread := (doInterface_iff _ _ f).mp
    (hvalues f rfl blocks _ _ (represents_memoryOf 0 f) hstrings) 0 (by omega)
  have hzero : memoryOf 0 f 4 = 0 := by
    change (if (f.args 1).flag then 1 else 0) = 0
    rw [hflag]
    rfl
  rw [hfive] at hread
  change (if (memoryOf 0 f 4).toInt = notFound then some LuaValue.nil
    else some (.integer (memoryOf 0 f 4).toInt)) = some (.integer 5) at hread
  rw [hzero] at hread
  exact absurd hread (by decide)

end TelegramCli.Lua.Passed
