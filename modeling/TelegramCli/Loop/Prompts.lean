import TelegramCli.Control.ReadIncoming
import TelegramCli.Lib.CString
import TelegramCli.Lib.Run

/-! # Prompts for values

`do_get_values` prompts for the answers to one question after the other. `one_string_read_end` puts
each answer into `one_string_results`, passes the array to the callback after the last, and frees
what the array holds when the callback has returned. A callback may ask for values in its turn, and
by then `one_string_total_args` is the count of its own request. The answers are freed each once,
with the callback they were given to, exactly in the runs whose steps are all of the kind `Fit`
(`freed_once_iff`): the last count is no smaller than that of the answers given, the slots between
the two are empty, and the first does not hold `bot_hash`. -/

namespace TelegramCli.Loop.Prompts

open TelegramCli.Lib.CString TelegramCli.Lib.Run
open TelegramCli.Control.ReadIncoming (newline)

/-- `enum tgl_value_type`, as far as `generate_prompt` has it. -/
inductive ValueType
  | phoneNumber
  | code
  | registerInfo
  | newPassword
  | curAndNewPassword
  | curPassword
  | botHash
  deriving DecidableEq

/-- The prompt of a question and its flags, unless an assertion fails. -/
def generatePrompt : ValueType → ℕ → Option (List UInt8 × ℕ)
  | .phoneNumber, 0 => some (lit "phone number: ", 0)
  | .code, 0 => some (lit "code ('CALL' for phone code): ", 0)
  | .registerInfo, 0 => some (lit "register (Y/n): ", 0)
  | .registerInfo, 1 => some (lit "first name: ", 0)
  | .registerInfo, 2 => some (lit "last name: ", 0)
  | .newPassword, 0 => some (lit "new password: ", 1)
  | .newPassword, 1 => some (lit "retype new password: ", 1)
  | .curAndNewPassword, 0 => some (lit "old password: ", 1)
  | .curAndNewPassword, 1 => some (lit "new password: ", 1)
  | .curAndNewPassword, 2 => some (lit "retype new password: ", 1)
  | .curPassword, 0 => some (lit "password: ", 1)
  | .botHash, 0 => some (lit "hash: ", 0)
  | _, _ => none

/-- What an entry of `one_string_results` points to: an answer, by its number among those collected,
or the string `bot_hash`. -/
inductive Ptr
  | str (k : ℕ)
  | botHash
  deriving DecidableEq

/-- A call of a callback that has not returned: from the end of `one_string_read_end`, with the
answers collected for it, or from `do_get_values` itself. The callback and its argument stand as a
number. -/
inductive Call
  | readEnd (cb : ℕ) (given : List ℕ)
  | direct (cb : ℕ)

def Call.given : Call → List ℕ
  | .readEnd _ given => given
  | .direct _ => []

/-- What `one_string_read_end` frees when a callback has returned, with the answers it was given. -/
structure Release where
  given : List ℕ
  freed : List Ptr
  deriving DecidableEq

/-- The globals of a prompt. `strings` are all answers collected so far, `collected` the numbers of
those for the last request, and `calls` the callbacks that run. -/
structure State where
  results : ℕ → Option Ptr
  num : ℕ
  totalArgs : ℕ
  type : ValueType
  cb : ℕ
  prompt : Option (List UInt8)
  flags : ℕ
  readOneString : Bool
  oneString : List UInt8
  strings : List (List UInt8)
  collected : List ℕ
  calls : List Call
  log : List Release

def State.start : State :=
  ⟨fun _ => none, 0, 0, .phoneNumber, 0, none, 0, false, [], [], [], [], []⟩

def doGetString (s : State) : Option State :=
  (generatePrompt s.type s.num).map fun p =>
    { s with prompt := some p.1, flags := p.2, readOneString := true, oneString := [] }

/-- The answer in its slot. -/
def State.collect (s : State) : State :=
  { s with
    readOneString := false
    prompt := none
    results := Function.update s.results s.num (some (.str s.strings.length))
    strings := s.strings ++ [cstring (s.oneString ++ [0])]
    collected := s.collected ++ [s.strings.length]
    num := s.num + 1 }

/-- `one_string_read_end` up to the call of the callback. -/
def oneStringReadEnd (s : State) : Option State :=
  if s.collect.num < s.collect.totalArgs then doGetString s.collect
  else some { s.collect with calls := .readEnd s.cb s.collect.collected :: s.calls, collected := [] }

/-- `MAX_ONE_STRING_LEN`. -/
def maxOneStringLen : ℕ := 511

/-- `'\r'`. -/
def carriageReturn : UInt8 := 13

/-- `stdin_read_callback` in a prompt, with the byte it has read. -/
def stdinReadCallback (c : UInt8) (s : State) : Option State :=
  if c = newline ∨ c = carriageReturn then oneStringReadEnd s
  else if s.oneString.length < maxOneStringLen then some { s with oneString := s.oneString ++ [c] }
  else some s

/-- `do_get_values`, where `hash` says that `bot_hash` is set. -/
def doGetValues (hash : Bool) (type : ValueType) (numValues cb : ℕ) (s : State) : Option State :=
  if type = .botHash ∧ hash = true then
    if numValues = 1 then
      some { s with
        results := Function.update s.results 0 (some .botHash)
        calls := .direct cb :: s.calls }
    else none
  else
    doGetString
      { s with cb := cb, num := 0, totalArgs := numValues, type := type, collected := [] }

/-- The loop over `tfree_str`, which does nothing with a null pointer. -/
def State.entries (s : State) : List Ptr := (List.range s.totalArgs).filterMap s.results

/-- What follows the return of a callback. -/
def Call.returned : Call → State → State
  | .readEnd _ given, s => { s with log := s.log ++ [⟨given, s.entries⟩] }
  | .direct _, s => s

/-- A byte on the standard input, a request for values, or the return of the innermost callback. -/
inductive Label
  | key (c : UInt8)
  | request (type : ValueType) (numValues cb : ℕ)
  | ret

/-- The standard input is read from the event loop, thus not while a callback runs. -/
inductive Step (hash : Bool) : State → Label → State → Prop
  | key {s t : State} {c : UInt8} : s.readOneString = true → s.calls = [] →
    stdinReadCallback c s = some t → Step hash s (.key c) t
  | request {s t : State} {type : ValueType} {numValues cb : ℕ} : 1 ≤ numValues → numValues ≤ 10 →
    doGetValues hash type numValues cb s = some t → Step hash s (.request type numValues cb) t
  | ret {s : State} {c : Call} {cs : List Call} : s.calls = c :: cs →
    Step hash s .ret (c.returned { s with calls := cs })

/-! ### The property and its condition -/

def State.freed (s : State) : List Ptr := s.log.flatMap (·.freed)

/-- The answers that a running callback was given, and those collected for the next. -/
def State.held (s : State) : List ℕ := s.calls.flatMap Call.given ++ s.collected

/-- Each return frees what its callback was given, and each answer either has been freed once or is
held. -/
structure FreedOnce (s : State) : Prop where
  own : ∀ r ∈ s.log, r.freed = r.given.map Ptr.str
  once : (s.freed ++ s.held.map Ptr.str).Perm
    ((List.range s.strings.length).map Ptr.str)

/-- **The slots at a return** whose callback was given so many answers. -/
structure FitsBack (s : State) (n : ℕ) : Prop where
  le : n ≤ s.totalArgs
  empty : ∀ i, n ≤ i → i < s.totalArgs → s.results i = none
  first : s.results 0 ≠ some .botHash

/-- A request drops no answers, and a return finds the slots as its callback had them. -/
def Fit (hash : Bool) (s : State) : Label → Prop
  | .key _ => True
  | .request type _ _ => type = .botHash ∧ hash = true ∨ s.collected = []
  | .ret => ∀ cb given cs, s.calls = .readEnd cb given :: cs → FitsBack s given.length

def FitStep (hash : Bool) (s : State) (l : Label) (t : State) : Prop :=
  Step hash s l t ∧ Fit hash s l

/-- The slots hold the answers, but for `bot_hash` in the first. -/
def Keeps (results : ℕ → Option Ptr) (given : List ℕ) : Prop :=
  ∀ i k, given[i]? = some k → results i = some (.str k) ∨ i = 0 ∧ results 0 = some .botHash

/-- The answers that callbacks were given, and those collected for the next. -/
def State.given (s : State) : List ℕ := s.log.flatMap (·.given) ++ s.held

/-- **What holds in every state of a run.** -/
structure Inv (s : State) : Prop where
  num : s.readOneString = true → s.num = s.collected.length ∧ s.num < s.totalArgs
  quiet : s.readOneString = false → s.collected = []
  collected : Keeps s.results s.collected
  calls : ∀ c ∈ s.calls, Keeps s.results c.given
  given : ∀ cb given, .readEnd cb given ∈ s.calls → given ≠ []
  given_le : s.given.length ≤ s.strings.length

/-! ### What a step does -/

theorem doGetString_eq_some {s t : State} (h : doGetString s = some t) :
    ∃ p f, t = { s with prompt := p, flags := f, readOneString := true, oneString := [] } := by
  obtain ⟨p, -, rfl⟩ := Option.map_eq_some_iff.mp h
  exact ⟨some p.1, p.2, rfl⟩

/-- A byte joins the answer, or ends it, and then the next prompt follows or the callback. -/
theorem stdinReadCallback_cases {c : UInt8} {s t : State} (h : stdinReadCallback c s = some t) :
    (∃ bytes, t = { s with oneString := bytes }) ∨
    (s.num + 1 < s.totalArgs ∧ ∃ p f, t =
      { s.collect with prompt := p, flags := f, readOneString := true, oneString := [] }) ∨
    t = { s.collect with
      calls := .readEnd s.cb s.collect.collected :: s.calls, collected := [] } := by
  unfold stdinReadCallback at h
  by_cases hend : c = newline ∨ c = carriageReturn
  · rw [if_pos hend] at h
    unfold oneStringReadEnd at h
    by_cases hmore : s.collect.num < s.collect.totalArgs
    · rw [if_pos hmore] at h
      exact Or.inr (Or.inl ⟨hmore, doGetString_eq_some h⟩)
    · rw [if_neg hmore] at h
      exact Or.inr (Or.inr (Option.some.inj h).symm)
  · rw [if_neg hend] at h
    by_cases hlen : s.oneString.length < maxOneStringLen
    · rw [if_pos hlen] at h
      exact Or.inl ⟨_, (Option.some.inj h).symm⟩
    · rw [if_neg hlen] at h
      exact Or.inl ⟨s.oneString, (Option.some.inj h).symm⟩

/-- A request begins with the first prompt, unless the answer is there already. -/
theorem doGetValues_cases {hash : Bool} {type : ValueType} {numValues cb : ℕ} {s t : State}
    (h : doGetValues hash type numValues cb s = some t) :
    (type = .botHash ∧ hash = true) ∧ t = { s with
      results := Function.update s.results 0 (some .botHash), calls := .direct cb :: s.calls } ∨
    ¬ (type = .botHash ∧ hash = true) ∧ ∃ p f, t =
      { s with
        cb := cb, num := 0, totalArgs := numValues, type := type, collected := []
        prompt := p, flags := f, readOneString := true, oneString := [] } := by
  unfold doGetValues at h
  by_cases hhash : type = .botHash ∧ hash = true
  · rw [if_pos hhash] at h
    by_cases hone : numValues = 1
    · rw [if_pos hone] at h
      exact Or.inl ⟨hhash, (Option.some.inj h).symm⟩
    · rw [if_neg hone] at h
      cases h
  · rw [if_neg hhash] at h
    exact Or.inr ⟨hhash, doGetString_eq_some h⟩

/-! ### The slots -/

theorem keeps_nil (results : ℕ → Option Ptr) : Keeps results [] := fun _ _ h => by simp at h

/-- An answer in the next slot. -/
theorem Keeps.append {results : ℕ → Option Ptr} {given : List ℕ} (h : Keeps results given) (k : ℕ) :
    Keeps (Function.update results given.length (some (.str k))) (given ++ [k]) := by
  intro i j hj
  rcases lt_trichotomy i given.length with hi | rfl | hi
  · rw [List.getElem?_append_left hi] at hj
    rw [Function.update_of_ne hi.ne, Function.update_of_ne (Nat.zero_le i |>.trans_lt hi).ne]
    exact h i j hj
  · rw [List.getElem?_concat_length] at hj
    obtain rfl := Option.some.inj hj
    exact Or.inl (Function.update_self ..)
  · rw [List.getElem?_eq_none (by rw [List.length_append, List.length_singleton]; omega)] at hj
    cases hj

/-- The string `bot_hash` in the first slot. -/
theorem Keeps.botHash {results : ℕ → Option Ptr} {given : List ℕ} (h : Keeps results given) :
    Keeps (Function.update results 0 (some .botHash)) given := by
  intro i k hk
  by_cases hi : i = 0
  · exact Or.inr ⟨hi, Function.update_self ..⟩
  · rw [Function.update_of_ne hi]
    refine Or.inl ((h i k hk).resolve_right fun hz => hi hz.1)

/-- The slots of the answers, when `bot_hash` is in none of them. -/
theorem Keeps.filterMap {results : ℕ → Option Ptr} {given : List ℕ} (h : Keeps results given)
    (hfirst : results 0 ≠ some .botHash) :
    (List.range given.length).filterMap results = given.map .str := by
  have hslot : ∀ i k, given[i]? = some k → results i = some (.str k) := fun i k hk =>
    (h i k hk).resolve_right fun hz => hfirst hz.2
  clear h hfirst
  induction given using List.reverseRecOn with
  | nil => rfl
  | append_singleton given k ih =>
    have hlast : results given.length = some (.str k) := hslot _ _ List.getElem?_concat_length
    have hinit : ∀ i j, given[i]? = some j → results i = some (.str j) := by
      intro i j hj
      refine hslot i j ?_
      rwa [List.getElem?_append_left (List.getElem?_eq_some_iff.mp hj).1]
    rw [List.length_append, List.length_singleton, List.range_succ, List.filterMap_append,
      ih hinit, List.map_append]
    simp [hlast]

/-- **A return frees the answers of its callback** exactly when the slots are as it had them. -/
theorem entries_eq_iff {s : State} {given : List ℕ} (h : Keeps s.results given) (hne : given ≠ []) :
    s.entries = given.map .str ↔ FitsBack s given.length := by
  have hpos : 0 < given.length := List.length_pos_iff.mpr hne
  have hsplit : given.length ≤ s.totalArgs → s.results 0 ≠ some .botHash →
      s.entries = given.map .str ++
        ((List.range (s.totalArgs - given.length)).map (given.length + ·)).filterMap s.results := by
    intro hle hfirst
    rw [← h.filterMap hfirst, ← List.filterMap_append, ← List.range_add, Nat.add_sub_cancel' hle]
    rfl
  constructor
  · intro heq
    have hle : given.length ≤ s.totalArgs := by
      have hlen := List.length_filterMap_le s.results (List.range s.totalArgs)
      rw [show List.filterMap s.results (List.range s.totalArgs) = given.map .str from heq,
        List.length_map, List.length_range] at hlen
      exact hlen
    have hfirst : s.results 0 ≠ some .botHash := by
      intro hfirst
      have hmem : Ptr.botHash ∈ s.entries :=
        List.mem_filterMap.mpr ⟨0, List.mem_range.mpr (hpos.trans_le hle), hfirst⟩
      rw [heq] at hmem
      obtain ⟨k, -, hk⟩ := List.mem_map.mp hmem
      cases hk
    refine ⟨hle, fun i hi hlt => ?_, hfirst⟩
    have hrest := List.append_right_eq_self.mp ((hsplit hle hfirst).symm.trans heq)
    refine List.filterMap_eq_nil_iff.mp hrest i (List.mem_map.mpr ⟨i - given.length, ?_, ?_⟩)
    · exact List.mem_range.mpr (by omega)
    · omega
  · intro hfit
    rw [hsplit hfit.le hfit.first, List.append_right_eq_self, List.filterMap_eq_nil_iff]
    intro i hi
    obtain ⟨j, hj, rfl⟩ := List.mem_map.mp hi
    have := List.mem_range.mp hj
    exact hfit.empty _ (Nat.le_add_right ..) (by omega)

/-! ### What becomes of the answers -/

/-- The answers that a new prompt begins without. -/
def dropped (hash : Bool) (s : State) : Label → List ℕ
  | .key _ => []
  | .request type _ _ => if type = .botHash ∧ hash = true then [] else s.collected
  | .ret => []

theorem Fit.dropped {hash : Bool} {s : State} : ∀ {l : Label}, Fit hash s l → dropped hash s l = []
  | .key _, _ => rfl
  | .ret, _ => rfl
  | .request type _ _, h => by
    by_cases hhash : type = .botHash ∧ hash = true
    · exact if_pos hhash
    · exact (if_neg hhash).trans (h.resolve_left hhash)

theorem returned_strings (c : Call) (s : State) : (c.returned s).strings = s.strings := by
  cases c with
  | readEnd cb given => rfl
  | direct cb => rfl

/-- The answers of a callback stay among those given when it returns. -/
theorem returned_given (c : Call) (s : State) :
    (c.returned s).given = s.log.flatMap (·.given) ++ (c.given ++ s.held) := by
  cases c with
  | readEnd cb given => simp [State.given, State.held, Call.returned, Call.given]
  | direct cb => rfl

/-- Each answer is new, has been given to a callback, is collected, or is dropped. -/
theorem step_given {hash : Bool} {s t : State} {l : Label} (hs : Step hash s l t) :
    ∃ new, List.range t.strings.length = List.range s.strings.length ++ new ∧
      (t.given ++ dropped hash s l).Perm (s.given ++ new) := by
  cases hs with
  | key _ hcalls h =>
    have hcollect : List.range s.collect.strings.length =
        List.range s.strings.length ++ [s.strings.length] := by
      unfold State.collect
      rw [List.length_append, List.length_singleton, List.range_succ]
    rcases stdinReadCallback_cases h with ⟨_, rfl⟩ | ⟨-, _, _, rfl⟩ | rfl
    · exact ⟨[], (List.append_nil _).symm, .rfl⟩
    · refine ⟨[s.strings.length], hcollect, .of_eq ?_⟩
      simp [State.given, State.held, State.collect, dropped]
    · refine ⟨[s.strings.length], hcollect, .of_eq ?_⟩
      simp [State.given, State.held, State.collect, dropped, hcalls, Call.given]
  | request _ _ h =>
    rcases doGetValues_cases h with ⟨hhash, rfl⟩ | ⟨hhash, _, _, rfl⟩
    · refine ⟨[], (List.append_nil _).symm, .of_eq ?_⟩
      simp [State.given, State.held, dropped, hhash, Call.given]
    · refine ⟨[], (List.append_nil _).symm, .of_eq ?_⟩
      simp [State.given, State.held, dropped, if_neg hhash]
  | @ret c cs hcalls =>
    rw [returned_given, returned_strings]
    refine ⟨[], (List.append_nil _).symm, .of_eq ?_⟩
    simp [State.given, State.held, dropped, hcalls]

/-- Only a return of a callback of `one_string_read_end` frees. -/
theorem step_log {hash : Bool} {s t : State} {l : Label} (hs : Step hash s l t) :
    t.log = s.log ∨ l = .ret ∧ ∃ cb given cs, s.calls = .readEnd cb given :: cs ∧
      t.log = s.log ++ [⟨given, s.entries⟩] := by
  cases hs with
  | key _ _ h =>
    rcases stdinReadCallback_cases h with ⟨_, rfl⟩ | ⟨-, _, _, rfl⟩ | rfl
    · exact Or.inl rfl
    · exact Or.inl rfl
    · exact Or.inl rfl
  | request _ _ h =>
    rcases doGetValues_cases h with ⟨-, rfl⟩ | ⟨-, _, _, rfl⟩
    · exact Or.inl rfl
    · exact Or.inl rfl
  | @ret c cs hcalls =>
    cases c with
    | readEnd cb given => exact Or.inr ⟨rfl, cb, given, cs, hcalls, rfl⟩
    | direct cb => exact Or.inl rfl

theorem step_given_length {hash : Bool} {s t : State} {l : Label} (hs : Step hash s l t) :
    t.given.length + (dropped hash s l).length + s.strings.length =
      s.given.length + t.strings.length := by
  obtain ⟨new, hrange, hperm⟩ := step_given hs
  have hlen := hperm.length_eq
  have hnew := congrArg List.length hrange
  rw [List.length_append, List.length_append] at hlen
  rw [List.length_append, List.length_range, List.length_range] at hnew
  omega

theorem Inv.step {hash : Bool} {s t : State} {l : Label} (hs : Step hash s l t) (h : Inv s) :
    Inv t := by
  have hle : t.given.length ≤ t.strings.length := by
    have := step_given_length hs
    have := h.given_le
    omega
  cases hs with
  | key hread hcalls hc =>
    obtain ⟨hnum, -⟩ := h.num hread
    have hkeeps : Keeps s.collect.results s.collect.collected := by
      have := h.collected.append s.strings.length
      rwa [← hnum] at this
    rcases stdinReadCallback_cases hc with ⟨_, rfl⟩ | ⟨hmore, _, _, rfl⟩ | rfl
    · exact ⟨h.num, h.quiet, h.collected, h.calls, h.given, hle⟩
    · refine ⟨fun _ => ⟨?_, hmore⟩, Bool.noConfusion, hkeeps, fun c hmem => ?_, h.given, hle⟩
      · change s.num + 1 = (s.collected ++ [s.strings.length]).length
        rw [List.length_append, List.length_singleton, hnum]
      · rw [show s.collect.calls = [] from hcalls] at hmem
        cases hmem
    · refine ⟨Bool.noConfusion, fun _ => rfl, keeps_nil _, fun c hmem => ?_,
        fun cb given hmem => ?_, hle⟩
      · rw [hcalls] at hmem
        obtain rfl := List.mem_singleton.mp hmem
        exact hkeeps
      · rw [hcalls] at hmem
        cases List.mem_singleton.mp hmem
        exact List.append_ne_nil_of_right_ne_nil _ (List.cons_ne_nil _ _)
  | request hpos _ hc =>
    rcases doGetValues_cases hc with ⟨-, rfl⟩ | ⟨-, _, _, rfl⟩
    · refine ⟨h.num, h.quiet, h.collected.botHash, fun c hmem => ?_, fun cb given hmem => ?_, hle⟩
      · rcases List.mem_cons.mp hmem with rfl | hmem
        · exact keeps_nil _
        · exact (h.calls c hmem).botHash
      · rcases List.mem_cons.mp hmem with heq | hmem
        · cases heq
        · exact h.given cb given hmem
    · exact ⟨fun _ => ⟨rfl, hpos⟩, Bool.noConfusion, keeps_nil _, h.calls, h.given, hle⟩
  | @ret c cs hcalls =>
    have hmem : ∀ d ∈ cs, d ∈ s.calls := fun d hd => hcalls ▸ List.mem_cons_of_mem c hd
    cases c
    all_goals exact ⟨h.num, h.quiet, h.collected, fun d hd => h.calls d (hmem d hd),
      fun cb given hd => h.given cb given (hmem _ hd), hle⟩

theorem inv_start : Inv State.start :=
  ⟨Bool.noConfusion, fun _ => rfl, keeps_nil _, fun _ h => absurd h List.not_mem_nil,
    fun _ _ h => absurd h List.not_mem_nil, le_rfl⟩

/-! ### Runs -/

/-- A return has freed other strings than its callback was given, or an answer is gone. -/
def Broken (s : State) : Prop :=
  (∃ r ∈ s.log, r.freed ≠ r.given.map .str) ∨ s.given.length < s.strings.length

/-- With each return freeing its own answers, all are freed or held once when they are given or
collected once. -/
theorem once_iff {s : State} (hown : ∀ r ∈ s.log, r.freed = r.given.map Ptr.str) :
    (s.freed ++ s.held.map Ptr.str).Perm ((List.range s.strings.length).map Ptr.str) ↔
      s.given.Perm (List.range s.strings.length) := by
  have hfreed : s.freed = (s.log.flatMap (·.given)).map Ptr.str := by
    unfold State.freed
    rw [List.map_flatMap]
    exact List.flatMap_congr hown
  rw [hfreed, ← List.map_append]
  exact List.map_perm_map_iff fun _ _ h => Ptr.str.inj h

theorem FreedOnce.not_broken {s : State} (h : FreedOnce s) : ¬ Broken s := by
  rintro (⟨r, hr, hne⟩ | hlt)
  · exact hne (h.own r hr)
  · have hlen := ((once_iff h.own).mp h.once).length_eq
    rw [List.length_range] at hlen
    omega

theorem Broken.step {hash : Bool} {s t : State} {l : Label} (hs : Step hash s l t)
    (h : Broken s) : Broken t := by
  rcases h with ⟨r, hr, hne⟩ | hlt
  · refine Or.inl ⟨r, ?_, hne⟩
    rcases step_log hs with hlog | ⟨-, _, _, _, -, hlog⟩
    · rwa [hlog]
    · rw [hlog]
      exact List.mem_append_left _ hr
  · have := step_given_length hs
    exact Or.inr (by omega)

/-- **A step of the other kind** cannot be mended. -/
theorem broken_of_not_fit {hash : Bool} {s t : State} {l : Label} (hs : Step hash s l t)
    (h : Inv s) (hfit : ¬ Fit hash s l) : Broken t := by
  cases l with
  | key c => exact absurd trivial hfit
  | request type numValues cb =>
    obtain ⟨hhash, hne⟩ := not_or.mp hfit
    have hpos : 0 < (dropped hash s (.request type numValues cb)).length := by
      rw [dropped, if_neg hhash]
      exact List.length_pos_iff.mpr hne
    have := step_given_length hs
    have := h.given_le
    exact Or.inr (by omega)
  | ret =>
    unfold Fit at hfit
    push Not at hfit
    obtain ⟨cb, given, cs, hcalls, hfit⟩ := hfit
    have hmem : Call.readEnd cb given ∈ s.calls := hcalls ▸ List.mem_cons_self
    cases hs with
    | ret hc =>
      rw [hcalls] at hc
      cases hc
      refine Or.inl ⟨⟨given, s.entries⟩, List.mem_append_right _ List.mem_cons_self, fun heq => ?_⟩
      exact hfit ((entries_eq_iff (h.calls _ hmem) (h.given cb given hmem)).mp heq)

theorem FreedOnce.step {hash : Bool} {s t : State} {l : Label} (hs : FitStep hash s l t)
    (hinv : Inv s) (h : FreedOnce s) : FreedOnce t := by
  have hown : ∀ r ∈ t.log, r.freed = r.given.map Ptr.str := by
    rcases step_log hs.1 with hlog | ⟨rfl, cb, given, cs, hcalls, hlog⟩
    · rw [hlog]
      exact h.own
    · have hmem : Call.readEnd cb given ∈ s.calls := hcalls ▸ List.mem_cons_self
      intro r hr
      rw [hlog] at hr
      rcases List.mem_append.mp hr with hr | hr
      · exact h.own r hr
      · obtain rfl := List.mem_singleton.mp hr
        exact (entries_eq_iff (hinv.calls _ hmem) (hinv.given cb given hmem)).mpr
          (hs.2 cb given cs hcalls)
  obtain ⟨new, hrange, hperm⟩ := step_given hs.1
  rw [hs.2.dropped, List.append_nil] at hperm
  refine ⟨hown, (once_iff hown).mpr ?_⟩
  rw [hrange]
  exact hperm.trans (((once_iff h.own).mp h.once).append_right new)

theorem freedOnce_start : FreedOnce State.start := ⟨fun _ h => absurd h List.not_mem_nil, .rfl⟩

/-- A run is of steps of the right kind, or cannot be mended. -/
theorem run_fit_or_broken {hash : Bool} : ∀ {s t : State} {ls : List Label},
    Runs (Step hash) s ls t → Inv s → Runs (FitStep hash) s ls t ∨ Broken t
  | _, _, _, .nil s, _ => Or.inl (.nil s)
  | s, _, l :: _, .cons hs hr, h => by
    by_cases hfit : Fit hash s l
    · rcases run_fit_or_broken hr (h.step hs) with hrun | hbroken
      · exact Or.inl (.cons ⟨hs, hfit⟩ hrun)
      · exact Or.inr hbroken
    · refine Or.inr (Runs.induction (P := Broken) (fun _ _ _ => Broken.step) hr ?_)
      exact broken_of_not_fit hs h hfit

/-- **The answers are freed each once**, with the callback they were given to, exactly when every
request comes without answers collected and every return finds the slots as its callback had
them. -/
theorem freed_once_iff {hash : Bool} {ls : List Label} {t : State}
    (hrun : Runs (Step hash) State.start ls t) :
    FreedOnce t ↔ Runs (FitStep hash) State.start ls t := by
  constructor
  · intro h
    exact (run_fit_or_broken hrun inv_start).resolve_right h.not_broken
  · intro hfit
    exact (Runs.induction (P := fun s => Inv s ∧ FreedOnce s)
      (fun _ _ _ hs h => ⟨h.1.step hs.1, h.2.step hs h.1⟩) hfit ⟨inv_start, freedOnce_start⟩).2

/-- A password that is asked for once, with the return of the callback. -/
theorem freed_once_iff_password : ∃ ls t,
    (FreedOnce t ↔ Runs (FitStep true) State.start ls t) ∧
      ls = [.request .curPassword 1 7, .key 104, .key newline, .ret] ∧
      t.strings = [lit "h"] ∧ t.freed = [.str 0] := by
  refine ⟨_, _, freed_once_iff (.cons (.request le_rfl (by decide) rfl) (.cons (.key rfl rfl rfl)
    (.cons (.key rfl rfl rfl) (.cons (.ret rfl) (.nil _))))), rfl, rfl, rfl⟩

/-- The callback that is given the answers for a registration asks for the phone number again: when
it returns, only the first of its answers is freed. -/
theorem registration_leaks : ∃ t, Runs (Step false) State.start
      [.request .registerInfo 3 7, .key newline, .key newline, .key newline,
        .request .phoneNumber 1 8, .ret] t ∧
    t.log = [⟨[0, 1, 2], [.str 0]⟩] ∧ t.calls = [] ∧ t.collected = [] ∧ ¬ FreedOnce t := by
  refine ⟨_, .cons (.request (by decide) (by decide) rfl) (.cons (.key rfl rfl rfl)
    (.cons (.key rfl rfl rfl) (.cons (.key rfl rfl rfl) (.cons (.request le_rfl (by decide) rfl)
    (.cons (.ret rfl) (.nil _)))))), rfl, rfl, rfl, fun h => ?_⟩
  exact absurd (h.own _ List.mem_cons_self) (by decide)

end TelegramCli.Loop.Prompts
