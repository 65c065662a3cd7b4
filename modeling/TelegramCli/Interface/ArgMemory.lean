import TelegramCli.Interface.Head

/-! # The memory of the arguments

The array `args` outlives a line, an entry says by a flag that its string was duplicated, and the
loop at the end of `interpreter_ex` frees the strings of the entries with the flag. `memLoop` is the
argument loop with the array as it is written; what it reads off it is `argLoop`
(`memLoop_view`). An entry's flag is cleared in the round that writes it, so when the function
returns, `in_readline` is reset and the strings freed are those duplicated for this line, each once
(`returns_released`). -/

namespace TelegramCli.Interface.ArgMemory

open TelegramCli.Lib.CNumber TelegramCli.Lib.CString TelegramCli.Tgl TelegramCli.Interface.Token
open TelegramCli.Interface.Ids hiding Env
open TelegramCli.Interface.Args TelegramCli.Interface.Actions TelegramCli.Interface.Commands
open TelegramCli.Interface.Interpreter TelegramCli.Interface.Head

/-- What an entry of `args` holds: the string that was duplicated as the one with the number `a`, or
any other value of the union. -/
inductive Value
  | dup (a : ℕ) (s : List UInt8)
  | stored (a : Arg)
  deriving DecidableEq, Repr

def Value.arg : Value → Arg
  | .dup _ s => .str (some s)
  | .stored a => a

/-- The number of a duplicated string. -/
def Value.dupNumber : Value → Option ℕ
  | .dup a _ => some a
  | .stored _ => none

/-- `struct arg`, with the bit of `flags` that says the string is to be freed. -/
structure Entry where
  flag : Bool
  value : Value
  deriving DecidableEq, Repr

/-- The array `args`, `args_num`, and how many strings have been duplicated. -/
structure Frame where
  args : ℕ → Entry
  argsNum : ℕ
  dups : ℕ

/-- `args[args_num].flags = 0`. -/
def Frame.clear (f : Frame) : Frame :=
  { f with args := Function.update f.args f.argsNum { f.args f.argsNum with flag := false } }

/-- `args[args_num ++]` gets a value. -/
def Frame.push (f : Frame) (a : Arg) : Frame :=
  { f with args := Function.update f.args f.argsNum { f.args f.argsNum with value := .stored a }
           argsNum := f.argsNum + 1 }

/-- `args[args_num ++]` gets a duplicate of the string, and the flag. -/
def Frame.pushString (f : Frame) (s : List UInt8) : Frame where
  args := Function.update f.args f.argsNum ⟨true, .dup f.dups s⟩
  argsNum := f.argsNum + 1
  dups := f.dups + 1

/-- `args_num --`. -/
def Frame.pop (f : Frame) : Frame := { f with argsNum := f.argsNum - 1 }

/-- The arguments that a handler reads. -/
def Frame.view (f : Frame) : List Arg :=
  (List.range f.argsNum).map fun i => (f.args i).value.arg

/-- The value the last loop frees at an entry. -/
def Entry.held (e : Entry) : Option Value := if e.flag then some e.value else none

/-- The values the last loop frees. -/
def Frame.held (f : Frame) : List Value :=
  (List.range f.argsNum).filterMap fun i => (f.args i).held

/-! ### The loop -/

inductive MemRound
  /-- `flags += move`. -/
  | next (move : ℕ) (f : Frame) (scan : Scanner)
  | dispatch (f : Frame)
  | fail (text : List UInt8) (f : Frame)
  | silent (f : Frame)
  | abort
  | hang

/-- A number or id slot, with the token `t` behind the scanner `s`. -/
def memIdRound (E : Ids.Env) (slot : Slot) (period : Bool) (f : Frame) (s t : Scanner) : MemRound :=
  let save : Scanner := { t with linePtr := s.linePtr }
  if t.curTokenQuoted || t.curTokenEndStr then
    if slot.opt then .next 1 (f.push (missing slot.op)) save
    else if period then .next 2 f save
    else .silent f
  else
    match readId E slot.op t.tok with
    | none => .abort
    | some (a, ok) =>
      let f := f.push a
      if period && !ok then .next 2 f.pop save
      else if slot.opt && !ok then .next 1 f save
      else if !ok then .fail (lit "can not parse arg #" ++ decimal f.argsNum) f
      else .next 1 f t

/-- A word slot. -/
def memWordRound (slot : Slot) (f : Frame) (t : Scanner) : MemRound :=
  if t.curTokenEndStr || t.curTokenLen < 0 then
    if slot.opt then .next 1 (f.push (.str none)) t
    else .fail (lit "can not parse string arg #" ++ decimal f.argsNum) f
  else .next 1 (f.pushString (cstring t.tok)) t

/-- One round at a slot that is not `ca_period`. -/
def memSlotRound (E : Ids.Env) (slot : Slot) (period : Bool) (f : Frame) (s : Scanner) : MemRound :=
  if slot.op = .none then
    match nextToken true s with
    | none => .abort
    | some t =>
      if t.curTokenEndStr then .dispatch f
      else .fail (lit "too many args #" ++ decimal f.argsNum) f
  else if isEnd slot.op then
    match nextTokenEnd true s with
    | none => .abort
    | some t =>
      if t.curTokenLen < 0 then .fail (lit "can not parse string_end arg #" ++ decimal f.argsNum) f
      else .dispatch (f.pushString (cstring t.tok))
  else
    match nextToken true s with
    | none => .abort
    | some t =>
      if period && t.curTokenEndStr then .dispatch f
      else if isId slot.op then memIdRound E slot period f s t
      else if isWord slot.op then memWordRound slot f t
      else .hang

structure MemState where
  flags : ℕ
  frame : Frame
  scan : Scanner

/-- How the loop ends, with the array as the last loop finds it. -/
inductive MemExit
  | dispatch (f : Frame)
  | fail (text : List UInt8) (f : Frame)
  | silent (f : Frame)
  | abort
  | hang

/-- At most `fuel` rounds. -/
def memLoop (E : Ids.Env) (sig : List Slot) : ℕ → MemState → MemExit
  | 0, _ => .hang
  | fuel + 1, st =>
    if st.frame.argsNum < argsMax then
      let f := st.frame.clear
      let flags := stepBack sig st.flags
      match memSlotRound E (slotAt sig flags) (repeated sig flags) f st.scan with
      | .next move f scan => memLoop E sig fuel ⟨flags + move, f, scan⟩
      | .dispatch f => .dispatch f
      | .fail text f => .fail text f
      | .silent f => .silent f
      | .abort => .abort
      | .hang => .hang
    else .abort

/-! ### The function -/

/-- `in_readline`, `args`, how many strings have been duplicated, and what has been freed. -/
structure Memory where
  inReadline : Bool
  args : ℕ → Entry
  dups : ℕ
  freed : List Value

inductive Result
  | returned (o : Outcome) (m : Memory)
  /-- The assertion at the start fails. -/
  | entryFailed
  /-- Another assertion fails, or a loop spins. -/
  | stopped

/-- `in_readline = 0`. -/
def Memory.reset (m : Memory) : Memory := { m with inReadline := false }

/-- The last loop, and the end of the function. -/
def Memory.cleanup (m : Memory) (f : Frame) : Memory where
  inReadline := false
  args := f.args
  dups := f.dups
  freed := m.freed ++ f.held

/-- The function returns behind a `FAIL`, unless that fails an assertion. -/
def answered (o : Outcome) (m : Memory) : Result :=
  match o with
  | .abort => .stopped
  | o => .returned o m

/-- The end of the argument loop for a command. -/
def memFinish (E : Env) (cmd : Command) (g : Globals) (m : Memory) : MemExit → Result
  | .dispatch f => .returned (.dispatched cmd g f.view) (m.cleanup f)
  | .fail text f => answered (failInterface E text) (m.cleanup f)
  | .silent f => .returned .silent (m.cleanup f)
  | .abort => .stopped
  | .hang => .stopped

/-- The loop over the arguments of a command. -/
def memParseArgs (E : Ids.Env) (sig : List Slot) (m : Memory) (scan : Scanner) : MemExit :=
  memLoop E sig (roundsLeft sig ⟨0, [], scan⟩ + 1) ⟨0, ⟨m.args, 0, m.dups⟩, scan⟩

/-- A line that is neither empty nor an `extf` query. -/
def memLine (E : Env) (table : List Command) (line : List UInt8) (m : Memory) : Result :=
  match parseHead E line with
  | .fail _ text => answered (failInterface E text) m.reset
  | .abort => .stopped
  | .hang => .stopped
  | .name g t =>
    if t.curTokenQuoted || t.curTokenEndStr then
      answered (failInterface E (lit "can not parse command name")) m.reset
    else
      match findCommand table t with
      | none => answered (failInterface E (lit "can not find command '" ++ cstring t.tok ++ lit "'"))
          m.reset
      | some cmd => memFinish E cmd g m (memParseArgs E.ids cmd.args m t)

/-- `interpreter_ex` with its memory. -/
def memInterpreterEx (E : Env) (table : List Command) (inChatMode : Bool)
    (line : Option (List UInt8)) (m : Memory) : Result :=
  if m.inReadline then .entryFailed
  else
    let m := { m with inReadline := true }
    if inChatMode then .returned (.chat (interpreterChatMode line)) m.reset
    else
      match line with
      | none => .returned .safeQuit m.reset
      | some line =>
        if deref line = 0 then .returned .empty m.reset
        else if deref line = 40 then .returned (.extf (cstring line)) m.reset
        else memLine E table line m

/-! ### What the array shows -/

theorem view_length (f : Frame) : f.view.length = f.argsNum := by simp [Frame.view]

theorem map_update {β : Type} (args : ℕ → Entry) (n : ℕ) (e : Entry) (g : Entry → β) :
    (List.range n).map (fun i => g (Function.update args n e i)) =
      (List.range n).map fun i => g (args i) := by
  refine List.map_congr_left fun i hi => ?_
  rw [Function.update_of_ne (Nat.ne_of_lt (List.mem_range.mp hi))]

@[simp] theorem view_clear (f : Frame) : f.clear.view = f.view :=
  map_update f.args f.argsNum _ fun e => e.value.arg

@[simp] theorem view_push (f : Frame) (a : Arg) : (f.push a).view = f.view ++ [a] := by
  unfold Frame.view Frame.push
  rw [List.range_succ, List.map_append]
  congr 1
  · exact map_update f.args f.argsNum _ fun e => e.value.arg
  · simp [Value.arg]

@[simp] theorem view_pushString (f : Frame) (s : List UInt8) :
    (f.pushString s).view = f.view ++ [.str (some s)] := by
  unfold Frame.view Frame.pushString
  rw [List.range_succ, List.map_append]
  congr 1
  · exact map_update f.args f.argsNum _ fun e => e.value.arg
  · simp [Value.arg]

@[simp] theorem view_pop_push (f : Frame) (a : Arg) : (f.push a).pop.view = f.view :=
  map_update f.args f.argsNum _ fun e => e.value.arg

def MemRound.view : MemRound → Round
  | .next move f scan => .next move f.view scan
  | .dispatch f => .dispatch f.view
  | .fail text _ => .fail text
  | .silent _ => .silent
  | .abort => .abort
  | .hang => .hang

def MemExit.view : MemExit → Exit
  | .dispatch f => .dispatch f.view
  | .fail text _ => .fail text
  | .silent _ => .silent
  | .abort => .abort
  | .hang => .hang

variable {E : Ids.Env}

theorem memIdRound_view (slot : Slot) (period : Bool) (f : Frame) (s t : Scanner) :
    (memIdRound E slot period f s t).view = idRound E slot period f.view s t := by
  unfold memIdRound idRound
  split_ifs with hquoted hopt hperiod
  · simp only [MemRound.view, view_push]
  · rfl
  · rfl
  · cases readId E slot.op t.tok with
    | none => rfl
    | some r =>
      obtain ⟨a, ok⟩ := r
      simp only
      split_ifs
      · simp only [MemRound.view, view_pop_push]
      · simp only [MemRound.view, view_push]
      · simp only [MemRound.view, view_length, Frame.push, Nat.cast_succ]
      · simp only [MemRound.view, view_push]

theorem memWordRound_view (slot : Slot) (f : Frame) (t : Scanner) :
    (memWordRound slot f t).view = wordRound slot f.view t := by
  unfold memWordRound wordRound
  split_ifs
  · simp only [MemRound.view, view_push]
  · simp only [MemRound.view, view_length]
  · simp only [MemRound.view, view_pushString]

theorem memSlotRound_view (slot : Slot) (period : Bool) (f : Frame) (s : Scanner) :
    (memSlotRound E slot period f s).view = slotRound E slot period f.view s := by
  unfold memSlotRound slotRound
  split_ifs
  · cases nextToken true s with
    | none => rfl
    | some t =>
      simp only
      split_ifs
      · rfl
      · simp only [MemRound.view, view_length]
  · cases nextTokenEnd true s with
    | none => rfl
    | some t =>
      simp only
      split_ifs
      · simp only [MemRound.view, view_length]
      · simp only [MemRound.view, view_pushString]
  · cases nextToken true s with
    | none => rfl
    | some t =>
      simp only
      split_ifs
      · rfl
      · exact memIdRound_view slot period f s t
  · cases nextToken true s with
    | none => rfl
    | some t =>
      simp only
      split_ifs
      · rfl
      · exact memWordRound_view slot f t
  · cases nextToken true s with
    | none => rfl
    | some t =>
      simp only
      split_ifs <;> rfl

/-- **The loop with its array** reads off what the argument loop does. -/
theorem memLoop_view (sig : List Slot) : ∀ (fuel flags : ℕ) (f : Frame) (s : Scanner),
    (memLoop E sig fuel ⟨flags, f, s⟩).view = argLoop E sig fuel ⟨flags, f.view, s⟩
  | 0, _, _, _ => rfl
  | fuel + 1, flags, f, s => by
    rw [memLoop, argLoop, view_length]
    split_ifs
    · have hround := memSlotRound_view (E := E) (slotAt sig (stepBack sig flags))
        (repeated sig (stepBack sig flags)) f.clear s
      rw [view_clear] at hround
      dsimp only
      rw [← hround]
      cases memSlotRound E (slotAt sig (stepBack sig flags)) (repeated sig (stepBack sig flags))
        f.clear s with
      | next move f' scan => exact memLoop_view sig fuel _ f' scan
      | _ => rfl
    · rfl

/-! ### What is freed -/

/-- The strings held are those duplicated since there were `d` of them, in order. -/
structure Holds (d : ℕ) (f : Frame) : Prop where
  le : d ≤ f.dups
  held : f.held.map Value.dupNumber = (List.range' d (f.dups - d)).map some

theorem filterMap_update (args : ℕ → Entry) (n : ℕ) (e : Entry) :
    (List.range n).filterMap (fun i => (Function.update args n e i).held) =
      (List.range n).filterMap fun i => (args i).held := by
  refine List.filterMap_congr fun i hi => ?_
  rw [Function.update_of_ne (Nat.ne_of_lt (List.mem_range.mp hi))]

theorem held_clear (f : Frame) : f.clear.held = f.held := filterMap_update f.args f.argsNum _

theorem flag_clear (f : Frame) : (f.clear.args f.clear.argsNum).flag = false := by
  simp [Frame.clear]

theorem held_push {f : Frame} (hflag : (f.args f.argsNum).flag = false) (a : Arg) :
    (f.push a).held = f.held := by
  unfold Frame.held Frame.push
  rw [List.range_succ, List.filterMap_append]
  rw [filterMap_update]
  simp [Entry.held, hflag]

theorem held_pop_push (f : Frame) (a : Arg) : (f.push a).pop.held = f.held :=
  filterMap_update f.args f.argsNum _

theorem held_pushString (f : Frame) (s : List UInt8) :
    (f.pushString s).held = f.held ++ [.dup f.dups s] := by
  unfold Frame.held Frame.pushString
  rw [List.range_succ, List.filterMap_append, filterMap_update]
  simp [Entry.held]

variable {d : ℕ} {f : Frame}

theorem Holds.start (args : ℕ → Entry) (d : ℕ) : Holds d ⟨args, 0, d⟩ :=
  ⟨le_rfl, by simp [Frame.held]⟩

theorem Holds.clear (h : Holds d f) : Holds d f.clear :=
  ⟨h.le, by rw [held_clear]; exact h.held⟩

theorem Holds.push (h : Holds d f) (hflag : (f.args f.argsNum).flag = false) (a : Arg) :
    Holds d (f.push a) :=
  ⟨h.le, by rw [held_push hflag]; exact h.held⟩

theorem Holds.pop_push (h : Holds d f) (a : Arg) : Holds d (f.push a).pop :=
  ⟨h.le, by rw [held_pop_push]; exact h.held⟩

theorem Holds.pushString (h : Holds d f) (s : List UInt8) : Holds d (f.pushString s) := by
  have hle := h.le
  refine ⟨hle.trans (Nat.le_succ _), ?_⟩
  have hdups : (f.pushString s).dups - d = (f.dups - d) + 1 := by
    have hsucc : (f.pushString s).dups = f.dups + 1 := rfl
    omega
  rw [held_pushString, List.map_append, h.held, hdups, List.range'_1_concat, List.map_append,
    Nat.add_sub_of_le hle]
  rfl

/-- The frame that a round goes on or ends with has the property. -/
def MemRound.All (P : Frame → Prop) : MemRound → Prop
  | .next _ f _ => P f
  | .dispatch f => P f
  | .fail _ f => P f
  | .silent f => P f
  | .abort => True
  | .hang => True

@[inherit_doc MemRound.All]
def MemExit.All (P : Frame → Prop) : MemExit → Prop
  | .dispatch f => P f
  | .fail _ f => P f
  | .silent f => P f
  | .abort => True
  | .hang => True

theorem memIdRound_holds (h : Holds d f) (hflag : (f.args f.argsNum).flag = false) (slot : Slot)
    (period : Bool) (s t : Scanner) : (memIdRound E slot period f s t).All (Holds d) := by
  unfold memIdRound
  split_ifs with hquoted hopt hperiod
  · exact h.push hflag _
  · exact h
  · exact h
  · cases readId E slot.op t.tok with
    | none => exact trivial
    | some r =>
      obtain ⟨a, ok⟩ := r
      simp only
      split_ifs
      · exact h.pop_push a
      · exact h.push hflag a
      · exact h.push hflag a
      · exact h.push hflag a

theorem memWordRound_holds (h : Holds d f) (hflag : (f.args f.argsNum).flag = false) (slot : Slot)
    (t : Scanner) : (memWordRound slot f t).All (Holds d) := by
  unfold memWordRound
  split_ifs
  · exact h.push hflag _
  · exact h
  · exact h.pushString _

/-- A round that starts with the flag of the next entry cleared. -/
theorem memSlotRound_holds (h : Holds d f) (hflag : (f.args f.argsNum).flag = false) (slot : Slot)
    (period : Bool) (s : Scanner) : (memSlotRound E slot period f s).All (Holds d) := by
  unfold memSlotRound
  split_ifs
  · cases nextToken true s with
    | none => exact trivial
    | some t =>
      simp only
      split_ifs <;> exact h
  · cases nextTokenEnd true s with
    | none => exact trivial
    | some t =>
      simp only
      split_ifs
      · exact h
      · exact h.pushString _
  · cases nextToken true s with
    | none => exact trivial
    | some t =>
      simp only
      split_ifs
      · exact h
      · exact memIdRound_holds h hflag slot period s t
  · cases nextToken true s with
    | none => exact trivial
    | some t =>
      simp only
      split_ifs
      · exact h
      · exact memWordRound_holds h hflag slot t
  · cases nextToken true s with
    | none => exact trivial
    | some t =>
      simp only
      split_ifs
      · exact h
      · exact trivial

theorem memLoop_holds (sig : List Slot) : ∀ (fuel flags : ℕ) {f : Frame} (s : Scanner),
    Holds d f → (memLoop E sig fuel ⟨flags, f, s⟩).All (Holds d)
  | 0, _, _, _, _ => trivial
  | fuel + 1, flags, f, s, h => by
    rw [memLoop]
    split_ifs
    · have hround := memSlotRound_holds (E := E) h.clear (flag_clear f)
        (slotAt sig (stepBack sig flags)) (repeated sig (stepBack sig flags)) s
      dsimp only
      generalize memSlotRound E (slotAt sig (stepBack sig flags))
        (repeated sig (stepBack sig flags)) f.clear s = r at hround ⊢
      cases r with
      | next move f' scan => exact memLoop_holds sig fuel _ scan hround
      | _ => exact hround
    · exact trivial

/-! ### The whole function -/

theorem answered_returned {o o' : Outcome} {m m' : Memory} (h : answered o m = .returned o' m') :
    o = o' ∧ m = m' := by
  cases o with
  | abort => cases h
  | _ =>
    cases h
    exact ⟨rfl, rfl⟩

/-- What a result says about the outcome of the line. -/
def Result.Shows (o : Outcome) : Result → Prop
  | .returned o' _ => o' = o
  | .entryFailed => False
  | .stopped => o = .abort ∨ o = .hang

theorem answered_shows (o : Outcome) (m : Memory) : (answered o m).Shows o := by
  cases o with
  | abort => exact .inl rfl
  | _ => exact rfl

theorem memFinish_shows {E : Env} (cmd : Command) (g : Globals) (m : Memory) (e : MemExit) :
    (memFinish E cmd g m e).Shows (finish E cmd g e.view) := by
  cases e with
  | dispatch f => exact rfl
  | fail text f => exact answered_shows _ _
  | silent f => exact rfl
  | abort => exact .inl rfl
  | hang => exact .inr rfl

/-- **The function with its memory** does with a line what the interpreter does. -/
theorem memInterpreterEx_shows (E : Env) (table : List Command) (inChatMode : Bool)
    (line : Option (List UInt8)) {m : Memory} (hm : m.inReadline = false) :
    (memInterpreterEx E table inChatMode line m).Shows (interpreterEx E table inChatMode line) := by
  unfold memInterpreterEx interpreterEx
  simp only [hm, if_neg Bool.false_ne_true]
  split_ifs
  · exact rfl
  · cases line with
    | none => exact rfl
    | some line =>
      simp only
      split_ifs
      · exact rfl
      · exact rfl
      · unfold memLine interpretLine
        cases parseHead E line with
        | fail g text => exact answered_shows _ _
        | abort => exact .inl rfl
        | hang => exact .inr rfl
        | name g t =>
          simp only
          split_ifs
          · exact answered_shows _ _
          · cases findCommand table t with
            | none => exact answered_shows _ _
            | some cmd =>
              have hview := memLoop_view (E := E.ids) cmd.args
                (roundsLeft cmd.args ⟨0, [], t⟩ + 1) 0 ⟨m.args, 0, m.dups⟩ t
              have h := memFinish_shows (E := E) cmd g { m with inReadline := true }
                (memParseArgs E.ids cmd.args m t)
              rw [memParseArgs, hview] at h
              exact h

/-- `in_readline` is reset, and freed are the strings duplicated in between, each once. -/
structure Released (m m' : Memory) : Prop where
  inReadline : m'.inReadline = false
  dups : m.dups ≤ m'.dups
  freed : ∃ vs, m'.freed = m.freed ++ vs ∧
    vs.map Value.dupNumber = (List.range' m.dups (m'.dups - m.dups)).map some

theorem Released.reset (m : Memory) : Released m m.reset :=
  ⟨rfl, le_rfl, [], (List.append_nil _).symm, by simp [Memory.reset]⟩

theorem Released.cleanup {m : Memory} {f : Frame} (h : Holds m.dups f) :
    Released m (m.cleanup f) :=
  ⟨rfl, h.le, f.held, rfl, h.held⟩

theorem memFinish_released {E : Env} {cmd : Command} {g : Globals} {m m' : Memory} {e : MemExit}
    {o : Outcome} (he : e.All (Holds m.dups)) (h : memFinish E cmd g m e = .returned o m') :
    Released m m' := by
  cases e with
  | dispatch f =>
    cases h
    exact .cleanup he
  | fail text f =>
    obtain ⟨-, rfl⟩ := answered_returned h
    exact .cleanup he
  | silent f =>
    cases h
    exact .cleanup he
  | abort => cases h
  | hang => cases h

theorem memLine_released {E : Env} {table : List Command} {line : List UInt8} {m m' : Memory}
    {o : Outcome} (h : memLine E table line m = .returned o m') : Released m m' := by
  unfold memLine at h
  cases hhead : parseHead E line with
  | fail g text =>
    rw [hhead] at h
    obtain ⟨-, rfl⟩ := answered_returned h
    exact .reset m
  | abort =>
    rw [hhead] at h
    cases h
  | hang =>
    rw [hhead] at h
    cases h
  | name g t =>
    simp only [hhead] at h
    split_ifs at h
    · obtain ⟨-, rfl⟩ := answered_returned h
      exact .reset m
    · cases hfind : findCommand table t with
      | none =>
        simp only [hfind] at h
        obtain ⟨-, rfl⟩ := answered_returned h
        exact .reset m
      | some cmd =>
        simp only [hfind] at h
        exact memFinish_released (memLoop_holds cmd.args _ 0 t (Holds.start m.args m.dups)) h

/-- **Whenever the function returns**, `in_readline` is reset, so that it can be called with the
next line, and the strings it duplicated are freed, each once and nothing else. -/
theorem returns_released {E : Env} {table : List Command} {inChatMode : Bool}
    {line : Option (List UInt8)} {m m' : Memory} {o : Outcome} (hm : m.inReadline = false)
    (h : memInterpreterEx E table inChatMode line m = .returned o m') :
    Released m m' ∧ ∀ (chat : Bool) (next : Option (List UInt8)),
      memInterpreterEx E table chat next m' ≠ .entryFailed := by
  have hreleased : Released m m' := by
    unfold memInterpreterEx at h
    simp only [hm, if_neg Bool.false_ne_true] at h
    split_ifs at h
    · cases h
      exact .reset m
    · cases line with
      | none =>
        cases h
        exact .reset m
      | some line =>
        simp only at h
        split_ifs at h
        · cases h
          exact .reset m
        · cases h
          exact .reset m
        · have hline := memLine_released h
          exact ⟨hline.inReadline, hline.dups, hline.freed⟩
  refine ⟨hreleased, fun chat next hfail => ?_⟩
  have hshows := memInterpreterEx_shows E table chat next hreleased.inReadline
  rw [hfail] at hshows
  exact hshows

/-- The memory before the first line. -/
def Memory.start : Memory := ⟨false, fun _ => ⟨false, .stored (.num 0)⟩, 0, []⟩

/-- A message, whose text is duplicated and freed. -/
theorem returns_released_msg : ∃ o m', m'.dups = 1 ∧ memInterpreterEx aliceEnv commands false
    (some (lit "msg Alice hello")) Memory.start = .returned o m' ∧ Released Memory.start m' := by
  have hrun : ∃ o m', memInterpreterEx aliceEnv commands false (some (lit "msg Alice hello"))
      Memory.start = .returned o m' ∧ m'.dups = 1 := ⟨_, _, rfl, rfl⟩
  obtain ⟨o, m', h, hdups⟩ := hrun
  exact ⟨o, m', hdups, h, (returns_released rfl h).1⟩

end TelegramCli.Interface.ArgMemory
