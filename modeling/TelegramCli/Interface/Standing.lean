import TelegramCli.Interface.Places

/-! # Where the completion and the interpreter stand

On complete tokens without quotes both `getCompleteMode` and the argument loop walk over the
signature as `place` does, each by rules of its own (`complete_follows`, `arg_follows`). The two
accept the same words except for peers: the interpreter looks at the number of the id it gets, the
completion at its type, which is found even where the peer is not. So where the completion stands
in front of the last token, the interpreter stands at the same slot exactly when the words agree
with the signature (`stands_same_iff`). -/

namespace TelegramCli.Interface.Standing

open TelegramCli.Lib.CString TelegramCli.Tgl TelegramCli.Interface.Token
open TelegramCli.Interface.Ids hiding Env
open TelegramCli.Interface.Args TelegramCli.Interface.Slots TelegramCli.Interface.Actions
open TelegramCli.Interface.Commands TelegramCli.Interface.Interpreter TelegramCli.Interface.Head
open TelegramCli.Interface.Places
open TelegramCli.Interface.Complete (completeHead typeFound findToken)

/-! ### The two loops -/

variable {E : Ids.Env} {sig : List Slot}

/-- A round of `get_complete_mode` that goes on. -/
def completeNext (E : Ids.Env) (sig : List Slot) (st : Complete.LoopState) :
    Option Complete.LoopState :=
  match Complete.roundAt E sig st with
  | .next move scan auto => some ⟨stepBack sig st.flags + move, scan, auto⟩
  | _ => none

/-- A round of the argument loop that goes on. -/
def argNext (E : Ids.Env) (sig : List Slot) (st : Args.LoopState) : Option Args.LoopState :=
  if st.args.length < argsMax then
    let flags := stepBack sig st.flags
    match slotRound E (slotAt sig flags) (repeated sig flags) st.args st.scan with
    | .next move args scan => some ⟨flags + move, args, scan⟩
    | _ => none
  else none

theorem completeLoop_of_next {st st' : Complete.LoopState} (h : completeNext E sig st = some st')
    (fuel : ℕ) :
    Complete.completeLoop E sig (fuel + 1) st = Complete.completeLoop E sig fuel st' := by
  rw [completeNext, Complete.roundAt] at h
  rw [Complete.completeLoop]
  split at h
  · rename_i hr
    simp only [hr]
    rw [← Option.some.inj h]
  · cases h

theorem argLoop_of_next {st st' : Args.LoopState} (h : argNext E sig st = some st') (fuel : ℕ) :
    argLoop E sig (fuel + 1) st = argLoop E sig fuel st' := by
  unfold argNext at h
  rw [argLoop]
  split_ifs at h with hlen
  rw [if_pos hlen]
  simp only at h ⊢
  split at h
  · rename_i hr
    simp only [hr]
    rw [← Option.some.inj h]
  · cases h

/-- The words the completion accepts, and those the interpreter does. -/
def completeTest (E : Ids.Env) (op : CommandArgument) (tok : List UInt8) : Option Bool :=
  if isId op || op = .command then Complete.completeOk E op tok else some true

@[inherit_doc completeTest]
def argTest (E : Ids.Env) (op : CommandArgument) (tok : List UInt8) : Option Bool :=
  if isId op then (readId E op tok).map Prod.snd else some true

/-- The rules of `get_complete_mode`. -/
def completeRules (E : Ids.Env) : Rules where
  test := completeTest E
  refuse opt _ visited := if opt then some 1 else if visited then some 2 else none
  room _ := true
  single opt move h := by
    cases opt
    · cases h
    · exact (Option.some.inj h).symm
  again opt visited move h := by
    cases opt
    · cases visited
      · cases h
      · exact .inl (Option.some.inj h).symm
    · exact .inr ⟨(Option.some.inj h).symm, rfl⟩

/-- The rules of the argument loop. -/
def argRules (E : Ids.Env) : Rules where
  test := argTest E
  refuse opt repeated _ := if repeated then some 2 else if opt then some 1 else none
  room n := n < argsMax
  single opt move h := by
    cases opt
    · cases h
    · exact (Option.some.inj h).symm
  again opt visited move h := .inl (Option.some.inj h).symm

theorem findToken_word {slot : Slot} (hslot : taken slot = true) (hend : isEnd slot.op = false)
    {s t : Scanner} (ht : nextToken false s = some t) (hquoted : t.curTokenQuoted = false)
    (hendStr : t.curTokenEndStr = false) : findToken E slot s =
      match completeTest E slot.op t.tok with
      | none => .failed
      | some ok => if ok then .accepted t else .refused t := by
  have hword : isId slot.op = false → isWord slot.op = true := by
    intro hid
    rcases taken_iff.mp hslot with h | h | h
    · rw [hid] at h
      cases h
    · exact h
    · rw [hend] at h
      cases h
  rw [findToken, ht]
  simp only [hquoted, hendStr, if_neg Bool.false_ne_true]
  cases hid : isId slot.op || slot.op = .command with
  | true =>
    cases hok : Complete.completeOk E slot.op t.tok with
    | none => simp [completeTest, hid, hok]
    | some ok => simp [completeTest, hid, hok]
  | false => simp only [if_neg Bool.false_ne_true, completeTest, hid,
      if_pos (hword (Bool.or_eq_false_iff.mp hid).1), if_true]

theorem completeNext_of_round {st : Complete.LoopState} {move : ℕ} {scan : Scanner}
    {auto : Complete.Autocomplete} (h : Complete.roundAt E sig st = .next move scan auto) :
    completeNext E sig st = some ⟨stepBack sig st.flags + move, scan, auto⟩ := by
  rw [completeNext, h]

theorem complete_follows : Follows (completeRules E) sig (completeNext E sig)
    Complete.LoopState.flags (fun st => st.scan.linePtr) (fun _ => 0) where
  full st h := by cases h
  none st h := by
    rw [slotOf] at h
    rw [completeNext, Complete.roundAt, h]
    rfl
  word st w ws b p hroom hslot hend hline := by
    obtain ⟨t, ht, hptr, htok, hquoted, hendStr, hlen⟩ := nextToken_word false hline
    have hround : Complete.roundAt E sig st = _ :=
      Complete.completeRound_token (E := E) hslot hend _ st.scan st.auto
    have hgoes : ∀ (move k : ℕ) (u : Scanner) (auto : Complete.Autocomplete),
        Goes (completeRules E) sig Complete.LoopState.flags (fun st => st.scan.linePtr) (fun _ => 0)
          st ⟨stepBack sig st.flags + move, u, auto⟩ move k u.linePtr :=
      fun _ _ _ _ => ⟨rfl, rfl, fun _ => rfl⟩
    rw [findToken_word hslot hend ht hquoted hendStr, htok] at hround
    have htest : (completeRules E).test = completeTest E := rfl
    have hrefuse : ∀ opt repeated visited, (completeRules E).refuse opt repeated visited =
      if opt then some 1 else if visited then some 2 else none := fun _ _ _ => rfl
    simp only [htest, hrefuse]
    cases hok : completeTest E (slotOf sig Complete.LoopState.flags st).op w.bytes with
    | none =>
      rw [hok] at hround
      simp only [completeNext, hround]
    | some ok =>
      rw [hok] at hround
      cases ok with
      | true =>
        simp only [if_true] at hround
        refine ⟨_, completeNext_of_round hround, ?_⟩
        rw [← hptr]
        exact hgoes 1 1 t _
      | false =>
        simp only [if_neg Bool.false_ne_true] at hround
        cases hopt : (slotOf sig Complete.LoopState.flags st).opt with
        | true =>
          simp only [hopt, if_true] at hround
          refine ⟨_, completeNext_of_round hround, ?_⟩
          exact hgoes 1 1 { t with linePtr := st.scan.linePtr } st.auto
        | false =>
          simp only [hopt, if_neg Bool.false_ne_true, decide_eq_true_eq] at hround
          by_cases hp : slotAt sig st.flags = Slot.period
          · rw [if_pos hp] at hround
            simp only [hp, decide_true, if_true, if_neg Bool.false_ne_true]
            refine ⟨_, completeNext_of_round hround, ?_⟩
            exact hgoes 2 0 { t with linePtr := st.scan.linePtr } st.auto
          · rw [if_neg hp] at hround
            simp only [hp, decide_false, if_neg Bool.false_ne_true]
            simp only [completeNext, hround]

/-- A round of the argument loop at a word. -/
theorem slotRound_word_ok {slot : Slot} (hslot : taken slot = true) (hend : isEnd slot.op = false)
    {s t : Scanner} (ht : nextToken true s = some t) (hquoted : t.curTokenQuoted = false)
    (hendStr : t.curTokenEndStr = false) (hlen : 0 ≤ t.curTokenLen) (period : Bool)
    (args : List Arg) :
    match argTest E slot.op t.tok with
    | none => slotRound E slot period args s = .abort
    | some true => ∃ a : Arg, slotRound E slot period args s = .next 1 (args ++ [a]) t
    | some false =>
      if period then
        slotRound E slot period args s = .next 2 args { t with linePtr := s.linePtr }
      else if slot.opt then ∃ a : Arg,
        slotRound E slot period args s = .next 1 (args ++ [a]) { t with linePtr := s.linePtr }
      else ∃ text, slotRound E slot period args s = .fail text := by
  rcases taken_iff.mp hslot with hs | hs | hs
  · have hround : slotRound E slot period args s = idRound E slot period args s t := by
      rw [slotRound_id hs, ht, Option.elim_some, hendStr, Bool.and_false,
        if_neg Bool.false_ne_true]
    rw [hround, argTest, if_pos hs, idRound, hquoted, hendStr]
    cases hread : readId E slot.op t.tok with
    | none => simp
    | some r =>
      obtain ⟨a, ok⟩ := r
      cases ok <;> cases period <;> cases hopt : slot.opt <;> simp
  · have hid : ¬ isId slot.op = true := by
      revert hs
      cases slot.op <;> simp [isWord, isId]
    have hneg : ¬ t.curTokenLen < 0 := not_lt.mpr hlen
    have hround : slotRound E slot period args s = wordRound slot args t := by
      rw [slotRound_word hs, ht, Option.elim_some, hendStr, Bool.and_false,
        if_neg Bool.false_ne_true]
    rw [argTest, if_neg hid]
    refine ⟨.str (some (cstring t.tok)), ?_⟩
    rw [hround, wordRound, hendStr]
    simp [hneg]
  · rw [hend] at hs
    cases hs

theorem argNext_of_round {st : Args.LoopState} (hlen : st.args.length < argsMax) {move : ℕ}
    {args : List Arg} {scan : Scanner}
    (h : slotRound E (slotOf sig Args.LoopState.flags st)
      (repeated sig (stepBack sig st.flags)) st.args st.scan = .next move args scan) :
    argNext E sig st = some ⟨stepBack sig st.flags + move, args, scan⟩ := by
  rw [slotOf] at h
  rw [argNext, if_pos hlen]
  simp only [h]

theorem argNext_eq_none {st : Args.LoopState}
    (h : ∀ move args scan, slotRound E (slotOf sig Args.LoopState.flags st)
      (repeated sig (stepBack sig st.flags)) st.args st.scan ≠ .next move args scan) :
    argNext E sig st = none := by
  rw [argNext]
  split_ifs
  · simp only
    split
    · rename_i hr
      exact absurd hr (h _ _ _)
    · rfl
  · rfl

theorem arg_follows : Follows (argRules E) sig (argNext E sig) Args.LoopState.flags
    (fun st => st.scan.linePtr) (fun st => st.args.length) where
  full st h := by rw [argNext, if_neg (of_decide_eq_false h)]
  none st h := argNext_eq_none fun move args scan hr => by
    rw [h] at hr
    exact slotRound_none_ne_next hr
  word st w ws b p hroom hslot hend hline := by
    obtain ⟨t, ht, hptr, htok, hquoted, hendStr, hlen⟩ := nextToken_word true hline
    have hroom' : st.args.length < argsMax := of_decide_eq_true hroom
    have hround := slotRound_word_ok (E := E) hslot hend ht hquoted hendStr hlen
      (repeated sig (stepBack sig st.flags)) st.args
    have hgoes : ∀ (move : ℕ) (as : List Arg) (u : Scanner),
        Goes (argRules E) sig Args.LoopState.flags (fun st => st.scan.linePtr)
          (fun st => st.args.length) st ⟨stepBack sig st.flags + move, st.args ++ as, u⟩ move
          as.length u.linePtr :=
      fun _ _ _ => ⟨rfl, rfl, fun _ => by rw [List.length_append]⟩
    have htest : (argRules E).test = argTest E := rfl
    have hrefuse : ∀ opt repeated visited, (argRules E).refuse opt repeated visited =
      if repeated then some 2 else if opt then some 1 else none := fun _ _ _ => rfl
    rw [htok] at hround
    simp only [htest, hrefuse]
    cases hok : argTest E (slotOf sig Args.LoopState.flags st).op w.bytes with
    | none =>
      rw [hok] at hround
      exact argNext_eq_none fun move args scan hr => by
        rw [hr] at hround
        cases hround
    | some ok =>
      rw [hok] at hround
      cases ok with
      | true =>
        obtain ⟨a, ha⟩ := hround
        refine ⟨_, argNext_of_round hroom' ha, ?_⟩
        rw [← hptr]
        exact hgoes 1 [a] t
      | false =>
        cases hrep : repeated sig (stepBack sig st.flags) with
        | true =>
          simp only [hrep, if_true] at hround ⊢
          refine ⟨_, argNext_of_round hroom' (by rw [hrep]; exact hround), ?_⟩
          have h := hgoes 2 [] { t with linePtr := st.scan.linePtr }
          rwa [List.append_nil] at h
        | false =>
          simp only [hrep, if_neg Bool.false_ne_true] at hround ⊢
          cases hopt : (slotOf sig Args.LoopState.flags st).opt with
          | true =>
            simp only [hopt, if_true] at hround ⊢
            obtain ⟨a, ha⟩ := hround
            refine ⟨_, argNext_of_round hroom' (by rw [hrep]; exact ha), ?_⟩
            exact hgoes 1 [a] { t with linePtr := st.scan.linePtr }
          | false =>
            simp only [hopt, if_neg Bool.false_ne_true] at hround ⊢
            obtain ⟨text, htext⟩ := hround
            refine argNext_eq_none fun move args scan hr => ?_
            rw [hrep, htext] at hr
            cases hr

/-! ### Words that agree with the signature -/

/-- The slots that take a peer. -/
def isPeer : CommandArgument → Bool
  | .user | .chat | .secretChat | .channel | .peer => true
  | _ => false

/-- The type of peer that a slot asks for. -/
def maskOf : CommandArgument → Option PeerType
  | .user => some .user
  | .chat => some .chat
  | .secretChat => some .encrChat
  | .channel => some .channel
  | _ => none

/-- The word names a peer that the slot takes. -/
def resolves (E : Ids.Env) (op : CommandArgument) (tok : List UInt8) : Bool :=
  (parseInputPeerId E tok (maskOf op)).peerId ≠ notFound

/-- The word is a number. -/
def isNumber (w : Word) : Bool := curTokenInt w.bytes ≠ notFound

/-- Every word at a peer slot names a peer, and there are fewer than 1000 arguments. At a peer slot
that is optional, and followed by optional numbers, a word that names none does no harm if its id
has the type `NOT_FOUND` too, or if the words behind are as many as the numbers or one of them is
not a number. -/
def Agree (E : Ids.Env) : List Slot → ℕ → List Word → Prop
  | [], _, _ => True
  | slot :: ⟨.period, false⟩ :: _, n, ws =>
    n + ws.length < argsMax ∧ (isPeer slot.op = true → ∀ w ∈ ws, resolves E slot.op w.bytes = true)
  | _ :: _, _, [] => True
  | slot :: rest, n, w :: ws =>
    if isEnd slot.op then True
    else if isPeer slot.op then
      if slot.opt then
        resolves E slot.op w.bytes = typeFound (parseInputPeerId E w.bytes (maskOf slot.op)) ∨
          rest.countP (fun next => next.op = .number) ≤ ws.length ∨ ∃ v ∈ ws, isNumber v = false
      else resolves E slot.op w.bytes = true ∧ Agree E rest (n + 1) ws
    else if argTest E slot.op w.bytes = some true then Agree E rest (n + 1) ws
    else Agree E rest (n + 1) (w :: ws)

/-- The slots of a command that searches messages, behind the peer. -/
def numbersEnd (k : ℕ) : List Slot := List.replicate k (opt .number) ++ [req .stringEnd]

/-- A repeated slot takes peers of one type or is the last one, and an optional peer is followed by
optional numbers and a text. -/
def Shaped : List Slot → Bool
  | [] => true
  | slot :: ⟨.period, false⟩ :: rest =>
    !isEnd slot.op && if isPeer slot.op then slot.op ≠ .peer else rest.isEmpty
  | slot :: rest =>
    if isPeer slot.op && slot.opt then rest = numbersEnd (rest.length - 1) else Shaped rest

theorem commands_shaped : ∀ cmd ∈ commands, Shaped cmd.args = true ∧ cmd.args.length < argsMax := by
  decide +kernel

theorem argTest_peer {op : CommandArgument} (h : isPeer op = true) (tok : List UInt8) :
    argTest E op tok = some (resolves E op tok) ∧
      completeTest E op tok = some (typeFound (parseInputPeerId E tok (maskOf op))) := by
  cases op
  case user => exact ⟨rfl, rfl⟩
  case chat => exact ⟨rfl, rfl⟩
  case secretChat => exact ⟨rfl, rfl⟩
  case channel => exact ⟨rfl, rfl⟩
  case peer => exact ⟨rfl, rfl⟩
  all_goals cases h

/-- The two test other words alike. -/
theorem argTest_other {op : CommandArgument} (h : isPeer op = false) (w : Word) :
    argTest E op w.bytes = completeTest E op w.bytes := by
  cases op
  case number => rfl
  case double => rfl
  case msgId =>
    simp only [argTest, completeTest, isId, Bool.true_or, if_true, readId, Complete.completeOk,
      Option.map_map]
    rfl
  case command =>
    have hpos := List.length_pos_of_ne_nil w.ne_nil
    simp [argTest, completeTest, isId, Complete.completeOk, hpos]
  all_goals first | rfl | cases h

/-- The library gives a peer of the type asked for. -/
def PeersTyped (E : Ids.Env) : Prop :=
  ∀ id P, E.peerGet id = some P → P.id.peerType = id.peerType

theorem masked_cases (tt : PeerType) (P : Option Peer) :
    masked (some tt) P = peerNotFound ∨ (masked (some tt) P).peerType = tt := by
  cases P with
  | none => exact .inl rfl
  | some P =>
    simp only [masked, reduceCtorEq, false_or, Option.some.injEq]
    split_ifs with h
    · exact .inr h.symm
    · exact .inl rfl

/-- A peer that is asked for by its type is of that type, whatever the syntax. -/
theorem parseInputPeerId_cases (hE : PeersTyped E) (tok : List UInt8) (tt : PeerType) :
    parseInputPeerId E tok (some tt) = peerNotFound ∨
      (parseInputPeerId E tok (some tt)).peerType = tt := by
  unfold parseInputPeerId
  simp only [ne_eq, reduceCtorEq, not_false_eq_true, true_and, Option.some.injEq]
  split_ifs with hnil hdollar hlen hhex htype hat
  · exact .inl rfl
  · exact .inl rfl
  · exact .inr htype.symm
  · exact .inl rfl
  · exact .inl rfl
  · exact masked_cases tt _
  · split
    · rename_i ss tt' hfind
      have hmask := List.find?_some hfind
      simp only [Bool.and_eq_true, Bool.or_eq_true, decide_eq_true_eq, false_or] at hmask
      obtain rfl : tt = tt' := hmask.1.1
      split_ifs
      · exact .inl rfl
      · cases hget : E.peerGet ⟨tt, Lib.CNumber.atoi ((cstring tok).drop ss.length), 0⟩ with
        | none => exact .inl rfl
        | some P => exact .inr (hE _ _ hget)
    · exact masked_cases tt _

/-- A slot for peers of one type finds the type of every word. -/
theorem typeFound_masked (hE : PeersTyped E) {op : CommandArgument} (h : isPeer op = true)
    (hop : op ≠ .peer) (tok : List UInt8) :
    typeFound (parseInputPeerId E tok (maskOf op)) = true := by
  obtain ⟨tt, htt, hne⟩ : ∃ tt, maskOf op = some tt ∧ tt ≠ .other notFound := by
    cases op
    case user => exact ⟨_, rfl, by simp⟩
    case chat => exact ⟨_, rfl, by simp⟩
    case secretChat => exact ⟨_, rfl, by simp⟩
    case channel => exact ⟨_, rfl, by simp⟩
    case peer => exact absurd rfl hop
    all_goals cases h
  rw [htt]
  rcases parseInputPeerId_cases hE tok tt with hnot | htype
  · rw [hnot]
    decide
  · rw [typeFound, htype]
    exact decide_eq_true hne

theorem numbersEnd_head (k : ℕ) : slotAt (numbersEnd k) 0 ≠ Slot.period := by
  cases k with
  | zero => decide
  | succ k => exact show opt .number ≠ Slot.period by decide

/-- Words at optional numbers: they are used up, or lead to the text behind. -/
theorem place_numbersEnd {R : Rules}
    (htest : ∀ w : Word, R.test .number w.bytes = some (isNumber w))
    (hrefuse : R.refuse true false false = some 1) : ∀ (k : ℕ) {n : ℕ} (ws : List Word),
    (∀ j ≤ k, R.room (n + j) = true) → place R (numbersEnd k) n ws =
      some (if ws.length < k ∧ ∀ w ∈ ws, isNumber w = true then ws.length else k)
  | 0, n, ws, hroom => by
    have h0 : R.room n = true := hroom 0 le_rfl
    rw [show numbersEnd 0 = req .stringEnd :: [] from rfl, place_cons (by decide), h0]
    rfl
  | k + 1, n, ws, hroom => by
    have h0 : R.room n = true := hroom 0 (Nat.zero_le _)
    have hroom' : ∀ j ≤ k, R.room (n + 1 + j) = true := by
      intro j hj
      rw [Nat.add_assoc, Nat.add_comm 1 j]
      exact hroom (j + 1) (Nat.succ_le_succ hj)
    rw [show numbersEnd (k + 1) = opt .number :: numbersEnd k from rfl,
      place_cons (numbersEnd_head k), h0]
    simp only [Bool.not_true, if_neg Bool.false_ne_true]
    rw [if_neg (show ¬ isEnd (opt .number).op = true by decide)]
    cases ws with
    | nil => simp
    | cons w ws =>
      simp only [show (opt .number).op = .number from rfl, show (opt .number).opt = true from rfl,
        htest]
      cases hw : isNumber w with
      | true =>
        simp only
        rw [place_numbersEnd htest hrefuse k ws hroom', Option.map_some]
        simp only [List.length_cons, List.forall_mem_cons, hw, true_and, Nat.add_lt_add_iff_right]
        split_ifs <;> simp [Nat.add_comm]
      | false =>
        simp only
        rw [if_pos hrefuse, place_numbersEnd htest hrefuse k (w :: ws) hroom', Option.map_some]
        simp [hw, Nat.add_comm]

theorem shaped_cons {slot : Slot} {rest : List Slot} (h : slotAt rest 0 ≠ Slot.period) :
    Shaped (slot :: rest) = if isPeer slot.op && slot.opt then
      decide (rest = numbersEnd (rest.length - 1)) else Shaped rest := by
  cases rest with
  | nil => rfl
  | cons next rest =>
    rw [Shaped]
    rintro rest' he
    cases he
    exact h rfl

theorem agree_nil {slot : Slot} {rest : List Slot} (h : slotAt rest 0 ≠ Slot.period) (n : ℕ) :
    Agree E (slot :: rest) n [] := by
  cases rest with
  | nil => exact trivial
  | cons next rest =>
    rw [Agree]
    · exact trivial
    · rintro rest' he
      cases he
      exact h rfl

theorem agree_cons {slot : Slot} {rest : List Slot} (h : slotAt rest 0 ≠ Slot.period) (n : ℕ)
    (w : Word) (ws : List Word) : Agree E (slot :: rest) n (w :: ws) ↔
      if isEnd slot.op then True
      else if isPeer slot.op then
        if slot.opt then
          resolves E slot.op w.bytes = typeFound (parseInputPeerId E w.bytes (maskOf slot.op)) ∨
            rest.countP (fun next => next.op = .number) ≤ ws.length ∨ ∃ v ∈ ws, isNumber v = false
        else resolves E slot.op w.bytes = true ∧ Agree E rest (n + 1) ws
      else if argTest E slot.op w.bytes = some true then Agree E rest (n + 1) ws
      else Agree E rest (n + 1) (w :: ws) := by
  cases rest with
  | nil => rfl
  | cons next rest =>
    rw [Agree]
    rintro rest' he
    cases he
    exact h rfl

/-- A repeated slot: the completion stands at it, and the interpreter does so if it takes all words
too and has room for them. -/
theorem repeat_agree (hE : PeersTyped E) {slot : Slot} {rest : List Slot}
    (hshape : Shaped (slot :: Slot.period :: rest) = true) {n : ℕ} {ws : List Word} {i : ℕ}
    (hplace : place (completeRules E) (slot :: Slot.period :: rest) n ws = some i) :
    place (argRules E) (slot :: Slot.period :: rest) n ws = some i ↔
      Agree E (slot :: Slot.period :: rest) n ws := by
  obtain ⟨hend, hshape⟩ := Bool.and_eq_true_iff.mp hshape
  rw [Bool.not_eq_true'] at hend
  have hroom : (∀ j ≤ ws.length, (argRules E).room (n + j) = true) ↔ n + ws.length < argsMax := by
    constructor
    · exact fun h => of_decide_eq_true (h ws.length le_rfl)
    · intro h j hj
      exact decide_eq_true (show n + j < argsMax by omega)
  -- the completion has not gone past the slot
  have hi : i = 0 := by
    rcases placeRepeat_cases hplace with hi | ⟨m, w, vs, -, htest, hleave⟩
    · exact hi
    · cases hpeer : isPeer slot.op with
      | true =>
        rw [hpeer, if_pos rfl] at hshape
        have hfound := typeFound_masked hE hpeer (of_decide_eq_true hshape) w.bytes
        rw [show (completeRules E).test = completeTest E from rfl, (argTest_peer hpeer _).2,
          hfound] at htest
        cases htest
      | false =>
        rw [hpeer, if_neg Bool.false_ne_true] at hshape
        rw [List.isEmpty_iff.mp hshape] at hleave
        simp [place] at hleave
  subst hi
  have hall := ((placeRepeat_eq_zero hend).mp hplace).1
  have hagree : Agree E (slot :: Slot.period :: rest) n ws ↔ n + ws.length < argsMax ∧
      (isPeer slot.op = true → ∀ w ∈ ws, resolves E slot.op w.bytes = true) := Iff.rfl
  rw [show place (argRules E) (slot :: Slot.period :: rest) n ws =
    placeRepeat (argRules E) slot (place (argRules E) rest) false n ws from rfl,
    placeRepeat_eq_zero hend, hroom, hagree, and_comm]
  refine and_congr_right fun _ => ?_
  cases hpeer : isPeer slot.op with
  | true =>
    have h : ∀ w : Word, (argRules E).test slot.op w.bytes = some true ↔
        resolves E slot.op w.bytes = true := by
      intro w
      rw [show (argRules E).test = argTest E from rfl, (argTest_peer hpeer _).1, Option.some.injEq]
    simp only [h, true_implies]
  | false =>
    refine iff_of_true (fun w hw => ?_) (by simp)
    exact (argTest_other hpeer w).trans (hall w hw)

/-- The number of slots that words at optional numbers lead past. -/
def passedNumbers (k : ℕ) (ws : List Word) : ℕ :=
  if ws.length < k ∧ ∀ w ∈ ws, isNumber w = true then ws.length else k

/-- A word more makes no difference only if the numbers are passed anyway. -/
theorem passedNumbers_cons (k : ℕ) (w : Word) (ws : List Word) :
    passedNumbers k (w :: ws) = passedNumbers k ws ↔
      k ≤ ws.length ∨ ∃ v ∈ ws, isNumber v = false := by
  have hall : (∃ v ∈ ws, isNumber v = false) ↔ ¬ ∀ v ∈ ws, isNumber v = true := by
    simp
  unfold passedNumbers
  rw [hall, ← Nat.not_lt, ← not_and_or, List.length_cons]
  by_cases h : ws.length < k ∧ ∀ v ∈ ws, isNumber v = true
  · rw [if_pos h]
    refine iff_of_false ?_ (not_not.mpr h)
    split_ifs <;> omega
  · rw [if_neg h]
    refine iff_of_true (if_neg ?_) h
    rintro ⟨hlen, hnum⟩
    exact h ⟨by omega, fun v hv => hnum v (List.mem_cons_of_mem w hv)⟩

theorem countP_numbersEnd (k : ℕ) :
    (numbersEnd k).countP (fun next => next.op = .number) = k := by
  simp [numbersEnd, List.countP_append, List.countP_replicate, opt, req]

/-- An optional peer in front of optional numbers. -/
theorem optional_agree {slot : Slot} {k n : ℕ} (hn : n + 1 + k < argsMax)
    (hpeer : isPeer slot.op = true) {w : Word} {ws : List Word} {i : ℕ}
    (h : (match completeTest E slot.op w.bytes with
      | none => none
      | some true => (place (completeRules E) (numbersEnd k) (n + 1) ws).map (1 + ·)
      | some false => (place (completeRules E) (numbersEnd k) (n + 1) (w :: ws)).map (1 + ·)) =
        some i) :
    (match argTest E slot.op w.bytes with
      | none => none
      | some true => (place (argRules E) (numbersEnd k) (n + 1) ws).map (1 + ·)
      | some false => (place (argRules E) (numbersEnd k) (n + 1) (w :: ws)).map (1 + ·)) = some i ↔
      resolves E slot.op w.bytes = typeFound (parseInputPeerId E w.bytes (maskOf slot.op)) ∨
        k ≤ ws.length ∨ ∃ v ∈ ws, isNumber v = false := by
  have hC : ∀ vs, place (completeRules E) (numbersEnd k) (n + 1) vs = some (passedNumbers k vs) :=
    fun vs => place_numbersEnd (fun _ => rfl) rfl k vs fun _ _ => rfl
  have hI : ∀ vs, place (argRules E) (numbersEnd k) (n + 1) vs = some (passedNumbers k vs) :=
    fun vs => place_numbersEnd (fun _ => rfl) rfl k vs fun j hj =>
      decide_eq_true (show n + 1 + j < argsMax by omega)
  obtain ⟨htestI, htestC⟩ := argTest_peer (E := E) hpeer w.bytes
  rw [htestC] at h
  rw [htestI]
  have hcons := passedNumbers_cons k w ws
  generalize typeFound (parseInputPeerId E w.bytes (maskOf slot.op)) = found at h ⊢
  generalize resolves E slot.op w.bytes = named
  simp only [hC, hI, Option.map_some] at h ⊢
  rw [← hcons]
  cases found <;> cases named <;> simp only [Option.some.injEq] at h ⊢ <;> subst h <;>
    simp [eq_comm]

theorem map_one_add {o : Option ℕ} {k : ℕ} : o.map (1 + ·) = some (1 + k) ↔ o = some k := by
  simp [Option.map_eq_some_iff]

/-- A slot that is no peer, whose test is the same on both sides. -/
theorem other_agree {test : Option Bool} {refused : Prop} [Decidable refused]
    {P Q : List Word → Option ℕ} {A : List Word → Prop}
    (ih : ∀ {vs : List Word} {k : ℕ}, P vs = some k → (Q vs = some k ↔ A vs))
    {w : Word} {ws : List Word} {i : ℕ} :
    (match test with
      | none => none
      | some true => (P ws).map (1 + ·)
      | some false => if refused then (P (w :: ws)).map (1 + ·) else none) = some i →
    ((match test with
      | none => none
      | some true => (Q ws).map (1 + ·)
      | some false => if refused then (Q (w :: ws)).map (1 + ·) else none) = some i ↔
      if test = some true then A ws else A (w :: ws)) := by
  intro h
  cases test with
  | none => cases h
  | some ok =>
    cases ok with
    | true =>
      simp only [if_true] at h ⊢
      obtain ⟨k, hk, rfl⟩ := Option.map_eq_some_iff.mp h
      rw [map_one_add]
      exact ih hk
    | false =>
      simp only [Option.some.injEq, if_neg Bool.false_ne_true] at h ⊢
      split_ifs at h ⊢
      obtain ⟨k, hk, rfl⟩ := Option.map_eq_some_iff.mp h
      rw [map_one_add]
      exact ih hk

/-- A peer that is required. -/
theorem required_agree {op : CommandArgument} (hpeer : isPeer op = true) {w : Word}
    {P Q : Option ℕ} {A : Prop} (ih : ∀ {k : ℕ}, P = some k → (Q = some k ↔ A)) {i : ℕ}
    (h : (match completeTest E op w.bytes with
      | none => none
      | some true => P.map (1 + ·)
      | some false => none) = some i) :
    (match argTest E op w.bytes with
      | none => none
      | some true => Q.map (1 + ·)
      | some false => none) = some i ↔ resolves E op w.bytes = true ∧ A := by
  obtain ⟨htestI, htestC⟩ := argTest_peer (E := E) hpeer w.bytes
  rw [htestC] at h
  rw [htestI]
  generalize typeFound (parseInputPeerId E w.bytes (maskOf op)) = found at h
  cases found with
  | false => cases h
  | true =>
    obtain ⟨k, hk, rfl⟩ := Option.map_eq_some_iff.mp h
    cases resolves E op w.bytes with
    | false => simp
    | true =>
      simp only [true_and]
      rw [map_one_add]
      exact ih hk

/-- **The places agree**, where the completion gets to the last token, exactly when the words agree
with the signature. -/
theorem place_agree (hE : PeersTyped E) : ∀ {sig : List Slot} {n : ℕ} {ws : List Word} {i : ℕ},
    Regular sig = true → Shaped sig = true → n + sig.length < argsMax →
    place (completeRules E) sig n ws = some i →
    (place (argRules E) sig n ws = some i ↔ Agree E sig n ws)
  | [], n, ws, i, _, _, hn, h => by
    have hroom : (argRules E).room n = true := decide_eq_true hn
    rw [place] at h ⊢
    rw [hroom]
    exact iff_of_true h trivial
  | slot :: rest, n, ws, i, hreg, hshape, hn, h => by
    obtain ⟨hslot, ⟨tail, rfl, hreg'⟩ | ⟨hp, hreg'⟩⟩ := Regular.cases hreg
    · exact repeat_agree hE hshape h
    have hn' : n + 1 + rest.length < argsMax := by
      rw [List.length_cons] at hn
      omega
    have hroom : (argRules E).room n = true := decide_eq_true (show n < argsMax by omega)
    have hroomC : (completeRules E).room n = true := rfl
    rw [place_cons hp] at h ⊢
    rw [hroom]
    rw [hroomC] at h
    simp only [Bool.not_true, if_neg Bool.false_ne_true] at h ⊢
    rw [shaped_cons hp] at hshape
    cases ws with
    | nil =>
      simp only at h ⊢
      exact iff_of_true h (agree_nil hp n)
    | cons w ws =>
      rw [agree_cons hp]
      cases hend : isEnd slot.op with
      | true =>
        simp only [hend, if_true] at h ⊢
        exact iff_of_true h trivial
      | false =>
        simp only [hend, if_neg Bool.false_ne_true] at h ⊢
        have hrefuse : ∀ opt, (completeRules E).refuse opt false false =
          (argRules E).refuse opt false false := fun _ => rfl
        have htestC : (completeRules E).test = completeTest E := rfl
        have htestI : (argRules E).test = argTest E := rfl
        rw [htestC, hrefuse] at h
        rw [htestI]
        cases hpeer : isPeer slot.op with
        | false =>
          rw [hpeer, Bool.false_and, if_neg Bool.false_ne_true] at hshape
          rw [← argTest_other hpeer] at h
          simp only [if_neg Bool.false_ne_true]
          exact other_agree (P := place (completeRules E) rest (n + 1))
            (Q := place (argRules E) rest (n + 1)) (A := Agree E rest (n + 1))
            (place_agree hE hreg' hshape hn') h
        | true =>
          simp only [if_true]
          cases hopt : slot.opt with
          | true =>
            rw [hpeer, hopt, if_pos (by rfl)] at hshape
            have hrest := of_decide_eq_true hshape
            have hone : (argRules E).refuse true false false = some 1 := rfl
            simp only [hopt, if_pos hone] at h ⊢
            rw [hrest] at h ⊢
            rw [countP_numbersEnd]
            exact optional_agree (by omega) hpeer h
          | false =>
            rw [hpeer, hopt, Bool.true_and, if_neg Bool.false_ne_true] at hshape
            have hone : ¬ (argRules E).refuse false false false = some 1 := by
              intro hr
              cases hr
            simp only [hopt, if_neg hone, if_neg Bool.false_ne_true] at h ⊢
            exact required_agree hpeer (place_agree hE hreg' hshape hn') h

/-! ### The start of the line -/

/-- A token that does not end the line is read alike. -/
theorem nextToken_force {s t : Scanner} (h : nextToken false s = some t)
    (hend : t.curTokenEndStr = false) : nextToken true s = some t := by
  unfold nextToken at h ⊢
  simp only at h ⊢
  split_ifs at h ⊢
  · cases h
    cases hend
  · exact h
  · exact h
  · cases h
    simp only [Option.some.injEq, Scanner.mk.injEq, true_and, and_true]
    exact hend.symm

theorem modifierLoop_of_complete {E : Env} : ∀ {fuel : ℕ} (g : Globals) {s t : Scanner},
    Complete.completeModifiers fuel s = .name t → t.curTokenEndStr = false →
    ∃ g', modifierLoop E fuel g s = .name g' t
  | 0, _, _, _, h, _ => by cases h
  | fuel + 1, g, s, t, h, hend => by
    rw [Complete.completeModifiers] at h
    rw [modifierLoop]
    cases hs : nextToken false s with
    | none => simp [hs] at h
    | some u =>
      simp only [hs] at h
      split_ifs at h with hquoted hlen hmod hlast hbracket
      · rw [Bool.not_eq_true] at hlast
        rw [nextToken_force hs hlast]
        simp only [if_neg hquoted, if_neg hlen, if_pos hmod, hlast, if_neg Bool.false_ne_true,
          if_neg hbracket]
        exact modifierLoop_of_complete _ h hend
      · cases h
        rw [nextToken_force hs hend]
        simp only [if_neg hquoted, if_neg hlen, if_neg hmod]
        exact ⟨g, rfl⟩

/-- Both find the same name of a command. -/
theorem parseHead_of_complete {E : Env} {line : List UInt8} {t : Scanner}
    (h : completeHead line = .name t) : ∃ g, parseHead E line = .name g t := by
  rw [completeHead] at h
  cases hm : Complete.completeModifiers (line.length + 1) (Scanner.start line) with
  | name u =>
    simp only [hm] at h
    split_ifs at h with hquoted hend hparen
    cases h
    exact modifierLoop_of_complete _ hm (by simpa using hend)
  | _ => simp [hm] at h

/-- The completion stands at slot `i` of the command in the line, in front of `p`, or at a slot that
takes the rest of the line. -/
def CompletionStands (E : Ids.Env) (id : MsgId) (line : List UInt8) (b : Gap) (p : List UInt8)
    (i : ℕ) : Prop :=
  ∃ t cmd, completeHead line = .name t ∧ findCommand commands t = some cmd ∧
    StandsAt (completeRules E) cmd.args (completeNext E cmd.args) Complete.LoopState.flags
      (fun st => st.scan.linePtr) (fun _ => 0) b p ⟨0, t, ⟨none, { id with peerType := notFound }⟩⟩ i

@[inherit_doc CompletionStands]
def InterpreterStands (E : Env) (line : List UInt8) (b : Gap) (p : List UInt8) (i : ℕ) : Prop :=
  ∃ g t cmd, parseHead E line = .name g t ∧ findCommand commands t = some cmd ∧
    StandsAt (argRules E.ids) cmd.args (argNext E.ids cmd.args) Args.LoopState.flags
      (fun st => st.scan.linePtr) (fun st => st.args.length) b p ⟨0, [], t⟩ i

section Line

variable {E : Env} {id : MsgId} {line : List UInt8} {t : Scanner} {cmd : Command} {ws : List Word}
  {b : Gap} {p : List UInt8} {i : ℕ}

theorem completionStands_iff (hh : completeHead line = .name t)
    (hf : findCommand commands t = some cmd) (hline : t.linePtr = text ws b p) :
    CompletionStands E.ids id line b p i ↔ place (completeRules E.ids) cmd.args 0 ws = some i := by
  obtain ⟨hreg, -⟩ := Answers.commands_regular cmd (findCommand_mem hf)
  have h : StandsAt (completeRules E.ids) cmd.args (completeNext E.ids cmd.args)
      Complete.LoopState.flags (fun st => st.scan.linePtr) (fun _ => 0) b p
      ⟨0, t, ⟨none, { id with peerType := notFound }⟩⟩ i ↔
      ∃ k, place (completeRules E.ids) cmd.args 0 ws = some k ∧ i = 0 + k :=
    stands_iff_place complete_follows cmd.args [] hreg rfl rfl hline fun _ => rfl
  constructor
  · rintro ⟨t', cmd', hh', hf', hs⟩
    cases hh.symm.trans hh'
    cases hf.symm.trans hf'
    obtain ⟨k, hk, rfl⟩ := h.mp hs
    rwa [Nat.zero_add]
  · intro hi
    exact ⟨t, cmd, hh, hf, h.mpr ⟨i, hi, (Nat.zero_add i).symm⟩⟩

theorem interpreterStands_iff {g : Globals} (hh : parseHead E line = .name g t)
    (hf : findCommand commands t = some cmd) (hline : t.linePtr = text ws b p) :
    InterpreterStands E line b p i ↔ place (argRules E.ids) cmd.args 0 ws = some i := by
  obtain ⟨hreg, -⟩ := Answers.commands_regular cmd (findCommand_mem hf)
  have h : StandsAt (argRules E.ids) cmd.args (argNext E.ids cmd.args) Args.LoopState.flags
      (fun st => st.scan.linePtr) (fun st => st.args.length) b p ⟨0, [], t⟩ i ↔
      ∃ k, place (argRules E.ids) cmd.args 0 ws = some k ∧ i = 0 + k :=
    stands_iff_place arg_follows cmd.args [] hreg rfl rfl hline fun _ => rfl
  constructor
  · rintro ⟨g', t', cmd', hh', hf', hs⟩
    cases hh.symm.trans hh'
    cases hf.symm.trans hf'
    obtain ⟨k, hk, rfl⟩ := h.mp hs
    rwa [Nat.zero_add]
  · intro hi
    exact ⟨g, t, cmd, hh, hf, h.mpr ⟨i, hi, (Nat.zero_add i).symm⟩⟩

/-- **The interpreter stands where the completion does**, on a line of complete words, exactly when
the words agree with the signature. -/
theorem stands_same_iff (hE : PeersTyped E.ids) (hh : completeHead line = .name t)
    (hf : findCommand commands t = some cmd) (hline : t.linePtr = text ws b p)
    (hstands : CompletionStands E.ids id line b p i) :
    InterpreterStands E line b p i ↔ Agree E.ids cmd.args 0 ws := by
  obtain ⟨g, hg⟩ := parseHead_of_complete (E := E) hh
  obtain ⟨hreg, -⟩ := Answers.commands_regular cmd (findCommand_mem hf)
  obtain ⟨hshape, hlen⟩ := commands_shaped cmd (findCommand_mem hf)
  rw [interpreterStands_iff hg hf hline]
  exact place_agree hE hreg hshape (by rwa [Nat.zero_add])
    ((completionStands_iff hh hf hline).mp hstands)

end Line

/-! ### Two lines -/

/-- A blank. -/
def blank : Gap := ⟨lit " ", by decide, fun c hc => by
  obtain rfl : c = 32 := List.mem_singleton.mp hc
  decide⟩

/-- A word behind a blank. -/
def wordOf (w : List UInt8) (hne : w ≠ []) (hprinted : (w.all fun c => 32 < c) = true)
    (hunquoted : deref w ≠ dquote ∧ deref w ≠ squote) : Word :=
  ⟨blank, w, hne, fun c hc => of_decide_eq_true (List.all_eq_true.mp hprinted c hc), hunquoted⟩

/-- `Alice`, and another name. -/
def aliceWord : Word := wordOf (lit "Alice") (by decide) rfl (by decide)

@[inherit_doc aliceWord]
def bobWord : Word := wordOf (lit "Bob") (by decide) rfl (by decide)

theorem aliceEnv_typed : PeersTyped aliceEnv.ids := by
  intro id P h
  obtain ⟨hid, hP⟩ := Option.ite_none_right_eq_some.mp h
  obtain rfl := Option.some.inj hP
  exact hid.1.symm

/-- A message to a known user. -/
theorem stands_same_iff_known :
    InterpreterStands aliceEnv (lit "msg Alice he") blank (lit "he") 1 ↔
      Agree aliceEnv.ids [req .peer, req .msgStringEnd] 0 [aliceWord] := by
  refine @stands_same_iff aliceEnv msgIdZero _ _ ⟨"msg", [req .peer, req .msgStringEnd],
    Handlers.doMsg, "msg <peer> <text>\tSends text message to peer"⟩ _ _ _ _ aliceEnv_typed rfl rfl
    rfl ?_
  exact (@completionStands_iff aliceEnv _ _ _ _ [aliceWord] blank (lit "he") 1 rfl rfl
    rfl).mpr rfl

/-- A message to nobody the library knows. -/
theorem stands_apart : ¬ ∀ (E : Env) (id : MsgId) (line : List UInt8) (t : Scanner) (cmd : Command)
    (ws : List Word) (b : Gap) (p : List UInt8) (i : ℕ), PeersTyped E.ids →
    completeHead line = .name t → findCommand commands t = some cmd → t.linePtr = text ws b p →
    CompletionStands E.ids id line b p i → InterpreterStands E line b p i := by
  intro h
  have hstands := h aliceEnv msgIdZero (lit "msg Bob he") _ ⟨"msg", [req .peer, req .msgStringEnd],
    Handlers.doMsg, "msg <peer> <text>\tSends text message to peer"⟩
    [bobWord] blank (lit "he") 1 aliceEnv_typed rfl rfl rfl
    ((@completionStands_iff aliceEnv _ _ _ _ [bobWord] blank (lit "he") 1 rfl rfl rfl).mpr rfl)
  have hplace := (@interpreterStands_iff aliceEnv _ _ _ [bobWord] blank (lit "he") 1 _ rfl rfl
    rfl).mp hstands
  cases hplace

end TelegramCli.Interface.Standing
