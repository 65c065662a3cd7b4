import TelegramCli.Interface.Answers

/-! # What the Tab key completes

`getCompleteMode` walks over the line that is being typed as `interpreterEx` does over a finished
one, and answers with the kind of argument that its last token is. A slot is read by `findToken`;
a token that it refuses is left for the next slot. At a slot that is both optional and repeated the
next slot is the same one, so a refused token holds the walk up for good. `trapped` says that the
walk gets to such a token or to a failing assertion, and the walk comes to an answer exactly when it
does not (`completion_returns_iff`). -/

namespace TelegramCli.Interface.Complete

open TelegramCli.Lib.CString TelegramCli.Tgl TelegramCli.Interface.Token TelegramCli.Interface.Ids
open TelegramCli.Interface.Args TelegramCli.Interface.Slots TelegramCli.Interface.Commands
open TelegramCli.Interface.Interpreter TelegramCli.Interface.Head

/-- `next_token_end_ac`: blanks at the end belong to the token. -/
def nextTokenEndAc (forceEndMode : Bool) (s : Scanner) : Option Scanner :=
  let start := skipWspc s.linePtr
  let c := deref start
  if c ≠ 0 ∧ c ≠ dquote ∧ c ≠ squote then
    let len := (cstring start).length
    if 0 < len then
      some { linePtr := start.drop len, curToken := start, curTokenLen := len,
             curTokenEndStr := !forceEndMode, curTokenQuoted := false }
    else none
  else if c ≠ 0 then do
    let t ← nextToken forceEndMode { s with linePtr := start }
    let stop := skipWspc t.linePtr
    if deref stop ≠ 0 then some { t with linePtr := stop, curTokenLen := -1 }
    else some { t with linePtr := stop }
  else nextToken forceEndMode { s with linePtr := start }

/-- `autocomplete_peer` and `autocomplete_id`. -/
structure Autocomplete where
  peer : Option Peer
  id : MsgId

/-- `tgl_get_peer_type (id) != NOT_FOUND`. -/
def typeFound (id : PeerId) : Bool := id.peerType ≠ .other notFound

/-- The flag `ok` for an unquoted token; `none` is a failed assertion. -/
def completeOk (E : Ids.Env) (op : CommandArgument) (tok : List UInt8) : Option Bool :=
  match op with
  | .user => some (typeFound (parseInputPeerId E tok (some .user)))
  | .chat => some (typeFound (parseInputPeerId E tok (some .chat)))
  | .secretChat => some (typeFound (parseInputPeerId E tok (some .encrChat)))
  | .channel => some (typeFound (parseInputPeerId E tok (some .channel)))
  | .peer => some (typeFound (parseInputPeerId E tok none))
  | .number => some (curTokenInt tok ≠ notFound)
  | .msgId => (parseInputMsgId E tok).map fun id => id.peerType ≠ 0
  | .double => some (curTokenDouble E tok ≠ notFoundDouble)
  | .command => some (0 < tok.length)
  | _ => none

/-- What a token that is `ok` leaves in the two variables. -/
def autocomplete (E : Ids.Env) (op : CommandArgument) (t : Scanner) (auto : Autocomplete) :
    Autocomplete :=
  match op with
  | .peer =>
    { peer := E.peerGet (parseInputPeerId E t.tok none), id := { auto.id with peerType := notFound } }
  | .msgId => { peer := none, id := (parseInputMsgId E t.tok).getD auto.id }
  | _ => auto

/-- What a slot finds in the line. -/
inductive Found
  | accepted (t : Scanner)
  | refused (t : Scanner)
  /-- The token ends where the line does. -/
  | last
  /-- An assertion fails. -/
  | failed

/-- The token of a slot that does not take the rest of the line. -/
def findToken (E : Ids.Env) (slot : Slot) (s : Scanner) : Found :=
  match nextToken false s with
  | none => .failed
  | some t =>
    if isId slot.op || slot.op = .command then
      if t.curTokenQuoted then .refused t
      else if t.curTokenEndStr then .last
      else
        match completeOk E slot.op t.tok with
        | none => .failed
        | some ok => if ok then .accepted t else .refused t
    else if isWord slot.op then
      if t.curTokenEndStr then .last else .accepted t
    else .failed

/-! ### The walk -/

inductive Round
  /-- `flags += move`. -/
  | next (move : ℕ) (scan : Scanner) (auto : Autocomplete)
  | ret (op : CommandArgument)
  | abort

/-- One round at a slot that is not `ca_period`; `period` says that the pointer stood behind it. -/
def completeRound (E : Ids.Env) (slot : Slot) (period : Bool) (s : Scanner) (auto : Autocomplete) :
    Round :=
  if slot.op = .none then .ret .none
  else if isEnd slot.op then
    match nextTokenEndAc false s with
    | none => .abort
    | some t => if t.curTokenLen < 0 || !t.curTokenEndStr then .ret .none else .ret slot.op
  else
    match findToken E slot s with
    | .accepted t => .next 1 t (autocomplete E slot.op t auto)
    | .refused t =>
      let save : Scanner := { t with linePtr := s.linePtr }
      if slot.opt then .next 1 save auto
      else if period then .next 2 save auto
      else .ret .none
    | .last => .ret slot.op
    | .failed => .abort

structure LoopState where
  flags : ℕ
  scan : Scanner
  auto : Autocomplete

/-- What `get_complete_mode` answers, with the two variables. -/
inductive Answer
  | ret (op : CommandArgument) (auto : Autocomplete)
  | abort

/-- At most `fuel` rounds; `none` is a loop that still goes on. -/
def completeLoop (E : Ids.Env) (sig : List Slot) : ℕ → LoopState → Option Answer
  | 0, _ => none
  | fuel + 1, st =>
    let period := slotAt sig st.flags = Slot.period
    let flags := stepBack sig st.flags
    match completeRound E (slotAt sig flags) period st.scan st.auto with
    | .next move scan auto => completeLoop E sig fuel ⟨flags + move, scan, auto⟩
    | .ret op => some (.ret op st.auto)
    | .abort => some .abort

/-- What the start of the line is found to be. -/
inductive CompleteHead
  | ret (op : CommandArgument)
  | abort
  | hang
  /-- The name of a command as the current token. -/
  | name (t : Scanner)

/-- At most `fuel` tokens of the loop over the modifiers. -/
def completeModifiers : ℕ → Scanner → CompleteHead
  | 0, _ => .hang
  | fuel + 1, s =>
    match nextToken false s with
    | none => .abort
    | some t =>
      if t.curTokenQuoted then .ret .none
      else if t.curTokenLen ≤ 0 then .ret .command
      else if deref t.curToken = 91 then
        if t.curTokenEndStr then .ret .modifier
        else if t.tok.getLast? ≠ some 93 then .ret .none
        else completeModifiers fuel t
      else .name t

/-- The start of the line, up to the name of the command. -/
def completeHead (line : List UInt8) : CompleteHead :=
  match completeModifiers (line.length + 1) (Scanner.start line) with
  | .name t =>
    if t.curTokenQuoted then .ret .none
    else if t.curTokenEndStr then .ret .command
    else if deref t.curToken = 40 then .ret .extf
    else .name t
  | head => head

/-- `get_complete_mode`, where `id` is the value `autocomplete_id` has from before. -/
def getCompleteMode (E : Ids.Env) (table : List Command) (id : MsgId) (fuel : ℕ)
    (line : List UInt8) : Option Answer :=
  let auto : Autocomplete := ⟨none, { id with peerType := notFound }⟩
  match completeHead line with
  | .ret op => some (.ret op auto)
  | .abort => some .abort
  | .hang => none
  | .name t =>
    match findCommand table t with
    | none => some (.ret .none auto)
    | some cmd => completeLoop E cmd.args fuel ⟨0, t, auto⟩

/-- The walk comes to an answer. -/
def Returns (E : Ids.Env) (sig : List Slot) (st : LoopState) : Prop :=
  ∃ fuel op auto, completeLoop E sig fuel st = some (.ret op auto)

/-- `get_complete_mode` returns. -/
def Completes (E : Ids.Env) (id : MsgId) (line : List UInt8) : Prop :=
  ∃ fuel op auto, getCompleteMode E commands id fuel line = some (.ret op auto)

/-! ### Lines that hold the walk up -/

/-- An assertion fails at the slot. -/
def Fails (E : Ids.Env) (slot : Slot) (s : Scanner) : Prop :=
  if isEnd slot.op then nextTokenEndAc false s = none else findToken E slot s = .failed

/-- `n` tokens one after the other are accepted by the slot, and the scanner is behind them. -/
def acceptMany (E : Ids.Env) (slot : Slot) : ℕ → Scanner → Option Scanner
  | 0, s => some s
  | n + 1, s =>
    match findToken E slot s with
    | .accepted t => acceptMany E slot n t
    | _ => none

/-- The scanner in front of the token that the slot refuses. -/
def refusal (E : Ids.Env) (slot : Slot) (s : Scanner) : Option Scanner :=
  match findToken E slot s with
  | .refused t => some { t with linePtr := s.linePtr }
  | _ => none

/-- The scanner behind a slot that is not repeated. -/
def passed (E : Ids.Env) (slot : Slot) (s : Scanner) : Option Scanner :=
  if isEnd slot.op then none
  else
    match findToken E slot s with
    | .accepted t => some t
    | .refused t => if slot.opt then some { t with linePtr := s.linePtr } else none
    | _ => none

/-- A repeated slot, where `visited` says that it has accepted a token before: behind some more an
assertion fails, or a token is refused. That is a trap if the slot is optional, and leads on to
`leave` if it is visited. -/
def heldUp (E : Ids.Env) (slot : Slot) (leave : Scanner → Prop) (visited : Bool) (s : Scanner) :
    Prop :=
  ∃ n t, acceptMany E slot n s = some t ∧
    (Fails E slot t ∨ ∃ save, refusal E slot t = some save ∧
      (slot.opt = true ∨ (visited = true ∨ 0 < n) ∧ leave save))

/-- The walk gets to a failing assertion, or to a slot that is both optional and repeated and that
refuses the next token. -/
def trapped (E : Ids.Env) : List Slot → Scanner → Prop
  | [], _ => False
  | slot :: ⟨.period, false⟩ :: rest, s => heldUp E slot (trapped E rest) false s
  | slot :: rest, s => Fails E slot s ∨ ∃ t, passed E slot s = some t ∧ trapped E rest t

/-- A line whose start fails an assertion, or that names a command whose slots trap the walk. -/
def Trapped (E : Ids.Env) (line : List UInt8) : Prop :=
  completeHead line = .abort ∨ ∃ t cmd, completeHead line = .name t ∧
    findCommand commands t = some cmd ∧ trapped E cmd.args t

variable {E : Ids.Env}

theorem trapped_period (slot : Slot) (rest : List Slot) (s : Scanner) :
    trapped E (slot :: Slot.period :: rest) s ↔ heldUp E slot (trapped E rest) false s := Iff.rfl

theorem trapped_cons {slot : Slot} {rest : List Slot} (h : slotAt rest 0 ≠ Slot.period)
    (s : Scanner) : trapped E (slot :: rest) s ↔
      Fails E slot s ∨ ∃ t, passed E slot s = some t ∧ trapped E rest t := by
  cases rest with
  | nil => rfl
  | cons next rest =>
    rw [trapped]
    rintro rest' he
    cases he
    exact h rfl

/-! ### Reading a token -/

/-- A token that the slot accepts takes at least a byte of the line. -/
theorem findToken_accepted {slot : Slot} {s t : Scanner} (h : findToken E slot s = .accepted t) :
    t.linePtr.length < s.linePtr.length := by
  unfold findToken at h
  cases hs : nextToken false s with
  | none => simp [hs] at h
  | some u =>
    have hlt := nextToken_lt hs
    simp only [hs] at h
    cases hend : u.curTokenEndStr with
    | true =>
      simp only [hend, if_true] at h
      split_ifs at h
    | false =>
      simp only [hend, if_neg Bool.false_ne_true] at h
      split_ifs at h
      · cases hok : completeOk E slot.op u.tok with
        | none => simp [hok] at h
        | some ok =>
          simp only [hok] at h
          split_ifs at h
          cases h
          exact hlt hend
      · cases h
        exact hlt hend

theorem findToken_again {slot : Slot} {s t : Scanner} (h : findToken E slot s = .refused t) :
    findToken E slot { t with linePtr := s.linePtr } = .refused t := by
  cases hs : nextToken false s with
  | none => simp [findToken, hs] at h
  | some u =>
    have hu : t = u := by
      simp only [findToken, hs] at h
      split_ifs at h
      · cases h; rfl
      · cases hok : completeOk E slot.op u.tok with
        | none => simp [hok] at h
        | some ok =>
          simp only [hok] at h
          split_ifs at h
          cases h; rfl
    subst hu
    have hagain := nextToken_again hs
    rw [← h]
    simp only [findToken, hs, hagain]

/-! ### One round -/

theorem isEnd_ne_none {slot : Slot} (h : taken slot = true) : slot.op ≠ .none := by
  intro he
  rw [taken, he] at h
  exact absurd h (by decide)

theorem completeRound_end {slot : Slot} (h : isEnd slot.op = true) (period : Bool) (s : Scanner)
    (auto : Autocomplete) : (completeRound E slot period s auto = .abort ∧ Fails E slot s) ∨
      ((∃ op, completeRound E slot period s auto = .ret op) ∧ ¬ Fails E slot s) := by
  have hne : slot.op ≠ .none := isEnd_ne_none (by simp [taken, h])
  unfold completeRound Fails
  rw [if_neg hne, if_pos h, if_pos h]
  cases nextTokenEndAc false s with
  | none => exact .inl ⟨rfl, rfl⟩
  | some t =>
    simp only
    split_ifs
    · exact .inr ⟨⟨_, rfl⟩, by simp⟩
    · exact .inr ⟨⟨_, rfl⟩, by simp⟩

theorem completeRound_token {slot : Slot} (hslot : taken slot = true) (h : isEnd slot.op = false)
    (period : Bool) (s : Scanner) (auto : Autocomplete) : completeRound E slot period s auto =
      match findToken E slot s with
      | .accepted t => .next 1 t (autocomplete E slot.op t auto)
      | .refused t =>
        if slot.opt then .next 1 { t with linePtr := s.linePtr } auto
        else if period then .next 2 { t with linePtr := s.linePtr } auto
        else .ret .none
      | .last => .ret slot.op
      | .failed => .abort := by
  rw [completeRound, if_neg (isEnd_ne_none hslot), if_neg (by simp [h])]

/-! ### Rounds of the walk -/

variable {sig : List Slot} {st : LoopState}

/-- The round of a state. -/
def roundAt (E : Ids.Env) (sig : List Slot) (st : LoopState) : Round :=
  completeRound E (slotAt sig (stepBack sig st.flags)) (slotAt sig st.flags = Slot.period) st.scan
    st.auto

theorem returns_next {move : ℕ} {scan : Scanner} {auto : Autocomplete}
    (h : roundAt E sig st = .next move scan auto) :
    Returns E sig st ↔ Returns E sig ⟨stepBack sig st.flags + move, scan, auto⟩ := by
  have hstep : ∀ fuel, completeLoop E sig (fuel + 1) st =
      completeLoop E sig fuel ⟨stepBack sig st.flags + move, scan, auto⟩ := by
    intro fuel
    rw [completeLoop]
    rw [roundAt] at h
    simp only [h]
  constructor
  · rintro ⟨fuel, op, auto', hret⟩
    cases fuel with
    | zero => cases hret
    | succ fuel => exact ⟨fuel, op, auto', by rw [← hret, hstep]⟩
  · rintro ⟨fuel, op, auto', hret⟩
    exact ⟨fuel + 1, op, auto', by rw [hstep, hret]⟩

theorem returns_ret {op : CommandArgument} (h : roundAt E sig st = .ret op) :
    Returns E sig st := by
  refine ⟨1, op, st.auto, ?_⟩
  rw [completeLoop]
  rw [roundAt] at h
  simp only [h]

theorem not_returns_abort (h : roundAt E sig st = .abort) : ¬ Returns E sig st := by
  rintro ⟨fuel, op, auto, hret⟩
  cases fuel with
  | zero => cases hret
  | succ fuel =>
    rw [completeLoop] at hret
    rw [roundAt] at h
    simp only [h] at hret
    cases hret

/-- A round that leads back to its own state is repeated for good. -/
theorem not_returns_spin {move : ℕ} (h : roundAt E sig st = .next move st.scan st.auto)
    (hflags : stepBack sig st.flags + move = st.flags) : ¬ Returns E sig st := by
  rintro ⟨fuel, op, auto, hret⟩
  induction fuel with
  | zero => cases hret
  | succ fuel ih =>
    apply ih
    rw [completeLoop] at hret
    rw [roundAt] at h
    simp only [h, hflags] at hret
    exact hret

/-! ### Repeated slots -/

variable {slot : Slot} {leave : Scanner → Prop} {visited : Bool} {s t : Scanner}

theorem fails_token (h : isEnd slot.op = false) :
    Fails E slot s ↔ findToken E slot s = .failed := by
  rw [Fails, h, if_neg Bool.false_ne_true]

/-- An accepted token leads to the same slot. -/
theorem heldUp_accepted (hend : isEnd slot.op = false) (h : findToken E slot s = .accepted t) :
    heldUp E slot leave visited s ↔ heldUp E slot leave true t := by
  constructor
  · rintro ⟨n, u, hu, hheld⟩
    cases n with
    | zero =>
      obtain rfl : s = u := Option.some.inj hu
      rcases hheld with hfail | ⟨save, hsave, -⟩
      · rw [fails_token hend, h] at hfail
        cases hfail
      · simp [refusal, h] at hsave
    | succ n =>
      rw [acceptMany, h] at hu
      refine ⟨n, u, hu, hheld.imp_right ?_⟩
      rintro ⟨save, hsave, hleave⟩
      exact ⟨save, hsave, hleave.imp_right fun hl => ⟨.inl rfl, hl.2⟩⟩
  · rintro ⟨n, u, hu, hheld⟩
    refine ⟨n + 1, u, by rw [acceptMany, h]; exact hu, hheld.imp_right ?_⟩
    rintro ⟨save, hsave, hleave⟩
    exact ⟨save, hsave, hleave.imp_right fun hl => ⟨.inr n.succ_pos, hl.2⟩⟩

/-- Without an accepted token the slot itself decides. -/
theorem heldUp_other (h : ∀ u, findToken E slot s ≠ .accepted u) :
    heldUp E slot leave visited s ↔ Fails E slot s ∨ ∃ save, refusal E slot s = some save ∧
      (slot.opt = true ∨ visited = true ∧ leave save) := by
  constructor
  · rintro ⟨n, u, hu, hheld⟩
    cases n with
    | zero =>
      obtain rfl : s = u := Option.some.inj hu
      refine hheld.imp_right ?_
      rintro ⟨save, hsave, hleave⟩
      refine ⟨save, hsave, hleave.imp_right ?_⟩
      rintro ⟨hv | hn, hl⟩
      · exact ⟨hv, hl⟩
      · exact absurd hn (lt_irrefl 0)
    | succ n =>
      rw [acceptMany] at hu
      cases hf : findToken E slot s with
      | accepted v => exact absurd hf (h v)
      | _ => simp [hf] at hu
  · intro hheld
    refine ⟨0, s, rfl, hheld.imp_right ?_⟩
    rintro ⟨save, hsave, hleave⟩
    exact ⟨save, hsave, hleave.imp_right fun hl => ⟨.inl hl.1, hl.2⟩⟩

/-- The states at a repeated slot: the pointer stands at the slot, or at the `ca_period` behind. -/
def AtRepeat (pre rest : List Slot) (slot : Slot) (visited : Bool) (flags : ℕ) : Prop :=
  stepBack (pre ++ slot :: Slot.period :: rest) flags = pre.length ∧
    (slotAt (pre ++ slot :: Slot.period :: rest) flags = Slot.period ↔ visited = true)

theorem atRepeat_first {pre rest : List Slot} (hslot : taken slot = true) :
    AtRepeat pre rest slot false pre.length := by
  have h0 : slotAt (pre ++ slot :: Slot.period :: rest) pre.length = slot :=
    slotAt_append pre (slot :: Slot.period :: rest) 0
  have hne : slotAt (pre ++ slot :: Slot.period :: rest) pre.length ≠ Slot.period := by
    rw [h0]
    exact taken_ne_period hslot
  exact ⟨stepBack_of_ne hne, iff_of_false hne Bool.false_ne_true⟩

theorem atRepeat_again (pre rest : List Slot) (slot : Slot) :
    AtRepeat pre rest slot true (pre.length + 1) := by
  have h1 : slotAt (pre ++ slot :: Slot.period :: rest) (pre.length + 1) = Slot.period :=
    slotAt_append pre (slot :: Slot.period :: rest) 1
  exact ⟨by rw [stepBack_of_eq h1, Nat.add_sub_cancel], iff_of_true h1 rfl⟩

theorem roundAt_repeat {pre rest : List Slot} {flags : ℕ}
    (h : AtRepeat pre rest slot visited flags) (s : Scanner) (auto : Autocomplete) :
    roundAt E (pre ++ slot :: Slot.period :: rest) ⟨flags, s, auto⟩ =
      completeRound E slot visited s auto := by
  have h0 : slotAt (pre ++ slot :: Slot.period :: rest) pre.length = slot :=
    slotAt_append pre (slot :: Slot.period :: rest) 0
  rw [roundAt]
  simp only [h.1, h0, h.2, Bool.decide_eq_true]

theorem findToken_end (h : isEnd slot.op = true) (s : Scanner) :
    findToken E slot s = .failed := by
  have hop : (isId slot.op || slot.op = .command) = false ∧ isWord slot.op = false := by
    revert h
    cases slot.op <;> simp [isEnd, isId, isWord]
  unfold findToken
  cases nextToken false s with
  | none => rfl
  | some t => simp [hop.1, hop.2]

/-- **A repeated slot** is left behind unless it holds the walk up; every round takes a token. -/
theorem returns_repeat {pre rest : List Slot} (hslot : taken slot = true)
    (hleave : ∀ s auto, Returns E (pre ++ slot :: Slot.period :: rest) ⟨pre.length + 2, s, auto⟩ ↔
      ¬ leave s) (s : Scanner) {visited : Bool} {flags : ℕ} (auto : Autocomplete)
    (hat : AtRepeat pre rest slot visited flags) :
    Returns E (pre ++ slot :: Slot.period :: rest) ⟨flags, s, auto⟩ ↔
      ¬ heldUp E slot leave visited s := by
  have hround := roundAt_repeat (E := E) hat s auto
  cases hend : isEnd slot.op with
  | true =>
    have hf : findToken E slot s = .failed := findToken_end hend s
    rw [heldUp_other (by simp [hf])]
    have hsave : refusal E slot s = none := by simp [refusal, hf]
    rcases completeRound_end (E := E) hend visited s auto with ⟨hr, hfail⟩ | ⟨⟨op, hr⟩, hfail⟩
    · rw [hr] at hround
      exact iff_of_false (not_returns_abort hround) (not_not.mpr (.inl hfail))
    · rw [hr] at hround
      exact iff_of_true (returns_ret hround) (by simp [hfail, hsave])
  | false =>
    rw [completeRound_token hslot hend] at hround
    cases hf : findToken E slot s with
    | accepted t =>
      simp only [hf] at hround
      rw [returns_next hround, heldUp_accepted hend hf]
      simp only [hat.1]
      exact returns_repeat hslot hleave t _ (atRepeat_again pre rest slot)
    | refused t =>
      have hfail : ¬ Fails E slot s := by simp [fails_token hend, hf]
      have hsave : refusal E slot s = some { t with linePtr := s.linePtr } := by simp [refusal, hf]
      rw [heldUp_other (by simp [hf])]
      simp only [hfail, hsave, false_or, Option.some.injEq, exists_eq_left']
      simp only [hf] at hround
      split_ifs at hround with hopt hvisited
      · rw [returns_next hround]
        simp only [hat.1]
        refine iff_of_false ?_ (not_not.mpr (.inl hopt))
        -- the pointer is at `ca_period`, in front of the same token
        have hagain := roundAt_repeat (E := E) (atRepeat_again pre rest slot)
          { t with linePtr := s.linePtr } auto
        have hf' : findToken E slot { t with linePtr := s.linePtr } = .refused t :=
          findToken_again hf
        rw [completeRound_token hslot hend, hf'] at hagain
        simp only [if_pos hopt] at hagain
        refine not_returns_spin hagain ?_
        rw [(atRepeat_again pre rest slot).1]
      · rw [returns_next hround]
        simp only [hat.1]
        rw [hleave]
        simp [hopt, hvisited]
      · exact iff_of_true (returns_ret hround) (by simp [hopt, hvisited])
    | last =>
      have hsave : refusal E slot s = none := by simp [refusal, hf]
      have hfail : ¬ Fails E slot s := by simp [fails_token hend, hf]
      rw [heldUp_other (by simp [hf])]
      simp only [hf] at hround
      exact iff_of_true (returns_ret hround) (by simp [hfail, hsave])
    | failed =>
      have hfail : Fails E slot s := (fails_token hend).mpr hf
      rw [heldUp_other (by simp [hf])]
      simp only [hf] at hround
      exact iff_of_false (not_returns_abort hround) (not_not.mpr (.inl hfail))
termination_by s.linePtr.length
decreasing_by exact findToken_accepted hf

/-! ### The whole walk -/

/-- A slot that is not repeated. -/
theorem returns_slot {pre rest : List Slot} (hslot : taken slot = true)
    (hp : slotAt rest 0 ≠ Slot.period)
    (hnext : ∀ s auto, Returns E (pre ++ slot :: rest) ⟨pre.length + 1, s, auto⟩ ↔
      ¬ trapped E rest s) (s : Scanner) (auto : Autocomplete) :
    Returns E (pre ++ slot :: rest) ⟨pre.length, s, auto⟩ ↔ ¬ trapped E (slot :: rest) s := by
  have h0 : slotAt (pre ++ slot :: rest) pre.length = slot := slotAt_append pre (slot :: rest) 0
  have hne : slotAt (pre ++ slot :: rest) pre.length ≠ Slot.period := by
    rw [h0]
    exact taken_ne_period hslot
  have hback := stepBack_of_ne hne
  have hround : roundAt E (pre ++ slot :: rest) ⟨pre.length, s, auto⟩ =
      completeRound E slot false s auto := by
    rw [roundAt]
    simp only [hback, h0, decide_eq_false (taken_ne_period hslot)]
  rw [trapped_cons hp]
  cases hend : isEnd slot.op with
  | true =>
    have hpass : passed E slot s = none := by rw [passed, if_pos hend]
    rcases completeRound_end (E := E) hend false s auto with ⟨hr, hfail⟩ | ⟨⟨op, hr⟩, hfail⟩
    · rw [hr] at hround
      exact iff_of_false (not_returns_abort hround) (not_not.mpr (.inl hfail))
    · rw [hr] at hround
      exact iff_of_true (returns_ret hround) (by simp [hfail, hpass])
  | false =>
    rw [completeRound_token hslot hend] at hround
    cases hf : findToken E slot s with
    | accepted t =>
      have hpass : passed E slot s = some t := by simp [passed, hend, hf]
      have hfail : ¬ Fails E slot s := by simp [fails_token hend, hf]
      simp only [hf] at hround
      rw [returns_next hround]
      simp only [hback]
      rw [hnext]
      simp [hfail, hpass]
    | refused t =>
      have hfail : ¬ Fails E slot s := by simp [fails_token hend, hf]
      simp only [hf, if_neg Bool.false_ne_true] at hround
      split_ifs at hround with hopt
      · have hpass : passed E slot s = some { t with linePtr := s.linePtr } := by
          simp [passed, hend, hf, hopt]
        rw [returns_next hround]
        simp only [hback]
        rw [hnext]
        simp [hfail, hpass]
      · have hpass : passed E slot s = none := by simp [passed, hend, hf, hopt]
        exact iff_of_true (returns_ret hround) (by simp [hfail, hpass])
    | last =>
      have hpass : passed E slot s = none := by simp [passed, hend, hf]
      have hfail : ¬ Fails E slot s := by simp [fails_token hend, hf]
      simp only [hf] at hround
      exact iff_of_true (returns_ret hround) (by simp [hfail, hpass])
    | failed =>
      have hfail : Fails E slot s := (fails_token hend).mpr hf
      simp only [hf] at hround
      exact iff_of_false (not_returns_abort hround) (not_not.mpr (.inl hfail))

/-- **The walk** from the slots behind a prefix. -/
theorem returns_iff_not_trapped : ∀ (rest pre : List Slot) (s : Scanner) (auto : Autocomplete),
    Regular rest = true →
    (Returns E (pre ++ rest) ⟨pre.length, s, auto⟩ ↔ ¬ trapped E rest s)
  | [], pre, s, auto, _ => by
    have h0 : slotAt (pre ++ []) pre.length = Slot.none := slotAt_append pre [] 0
    have hne : slotAt (pre ++ []) pre.length ≠ Slot.period := by
      rw [h0]
      decide
    have hround : roundAt E (pre ++ []) ⟨pre.length, s, auto⟩ = .ret .none := by
      rw [roundAt, stepBack_of_ne hne, h0]
      rfl
    exact iff_of_true (returns_ret hround) not_false
  | slot :: rest, pre, s, auto, hreg => by
    obtain ⟨hslot, ⟨tail, rfl, hreg'⟩ | ⟨hp, hreg'⟩⟩ := Regular.cases hreg
    · rw [trapped_period]
      refine returns_repeat hslot (fun u auto' => ?_) s auto (atRepeat_first hslot)
      have ih := returns_iff_not_trapped tail (pre ++ [slot, Slot.period]) u auto' hreg'
      rwa [List.append_assoc, List.length_append] at ih
    · refine returns_slot hslot hp (fun u auto' => ?_) s auto
      have ih := returns_iff_not_trapped rest (pre ++ [slot]) u auto' hreg'
      rwa [List.append_assoc, List.length_append] at ih

/-! ### The start of the line -/

theorem completeModifiers_ne_hang : ∀ (fuel : ℕ) (s : Scanner), s.linePtr.length < fuel →
    completeModifiers fuel s ≠ .hang
  | 0, _, h => absurd h (Nat.not_lt_zero _)
  | fuel + 1, s, h => by
    rw [completeModifiers]
    cases ht : nextToken false s with
    | none => simp
    | some t =>
      simp only
      split_ifs with hq hlen hmod hend
      any_goals simp
      have hlt : t.linePtr.length < s.linePtr.length := nextToken_lt ht (by simpa using hend)
      exact completeModifiers_ne_hang fuel t (by omega)

theorem completeHead_ne_hang (line : List UInt8) : completeHead line ≠ .hang := by
  have h := completeModifiers_ne_hang (line.length + 1) (Scanner.start line) (Nat.lt_succ_self _)
  rw [completeHead]
  cases hm : completeModifiers (line.length + 1) (Scanner.start line) with
  | name t =>
    simp only
    split_ifs <;> simp
  | hang => exact absurd hm h
  | _ => simp

theorem completes_name {line : List UInt8} {t : Scanner} {cmd : Command} {id : MsgId}
    (hh : completeHead line = .name t) (hf : findCommand commands t = some cmd) :
    Completes E id line ↔
      Returns E cmd.args ⟨0, t, ⟨none, { id with peerType := notFound }⟩⟩ := by
  simp only [Completes, Returns, getCompleteMode, hh, hf]

/-- **Completion returns exactly when** the line does not trap the walk. -/
theorem completion_returns_iff (E : Ids.Env) (id : MsgId) (line : List UInt8) :
    Completes E id line ↔ ¬ Trapped E line := by
  cases hh : completeHead line with
  | ret op =>
    refine iff_of_true ⟨0, op, _, by rw [getCompleteMode, hh]⟩ ?_
    simp [Trapped, hh]
  | abort =>
    refine iff_of_false ?_ (not_not.mpr (.inl hh))
    rintro ⟨fuel, op, auto, h⟩
    simp [getCompleteMode, hh] at h
  | hang => exact absurd hh (completeHead_ne_hang line)
  | name t =>
    cases hf : findCommand commands t with
    | none =>
      refine iff_of_true ⟨0, .none, ⟨none, { id with peerType := notFound }⟩, ?_⟩ ?_
      · rw [getCompleteMode, hh]
        simp only [hf]
      · simp [Trapped, hh, hf]
    | some cmd =>
      obtain ⟨hreg, -⟩ := Answers.commands_regular cmd (findCommand_mem hf)
      rw [completes_name hh hf, show Trapped E line ↔ trapped E cmd.args t by
        simp [Trapped, hh, hf]]
      exact returns_iff_not_trapped cmd.args [] t _ hreg

/-- A quoted user behind the name and the title of a channel. -/
theorem create_channel_spins : ¬ ∀ (E : Ids.Env) (id : MsgId) (line : List UInt8),
    Completes E id line := by
  intro h
  have hc := h aliceEnv.ids msgIdZero (lit "create_channel a b \"c\" ")
  rw [@completes_name _ _ _ ⟨"create_channel", [req .string, req .string, opt .user, req .period],
    Handlers.doCreateChannel, "create_channel <name> <about> <user>+\tCreates channel with users"⟩ _
    rfl rfl] at hc
  refine (returns_iff_not_trapped _ [] _ _ rfl).mp hc ?_
  exact .inr ⟨_, rfl, .inr ⟨_, rfl, 0, _, rfl, .inr ⟨_, rfl, .inl rfl⟩⟩⟩

end TelegramCli.Interface.Complete
