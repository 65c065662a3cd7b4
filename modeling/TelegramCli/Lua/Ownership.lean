import TelegramCli.Lib.Run
import TelegramCli.Lua.Serving

/-! # Whose strings are freed

`lua_do_all` frees the string of every flagged slot of a call, the slot of the callback record
included. The flags of argument slots are those of their call, but nothing clears the flag of a slot
that gets a callback record. A `Ledger` keeps account of the strings that are duplicated and freed.

What is freed are the strings of the served calls, in order, and the callback records in flagged
slots (`serveAll_freed`). So the account is `Exact` at the end of a run exactly when no callback
record has stood in a flagged slot at a call of `lua_do_all` (`freed_eq_duplicated_iff`). -/

namespace TelegramCli.Lua.Ownership

open TelegramCli.Lib.Run TelegramCli.Tgl TelegramCli.Interface.Ids
open TelegramCli.Interface.Interpreter (aliceEnv)
open TelegramCli.Lua.Functions TelegramCli.Lua.Calls TelegramCli.Lua.DoAll TelegramCli.Lua.Serving

/-! ### Runs -/

/-- By how much a case moves `p`. -/
def Case.moves : Case → ℕ
  | .issue _ _ _ n => n
  | .load => 2
  | .loadThumb => 2

/-- The case of the query type uses as many slots as there are parameters, and the one of the
callback record. -/
def Matches (type : LqType) (params : ℕ) : Prop :=
  (luaCase type).map Case.moves = some (params + 1)

instance (type : LqType) (params : ℕ) : Decidable (Matches type params) := by
  unfold Matches
  infer_instance

/-- The strings that are duplicated for arguments, into the blocks of memory from `n` on. -/
def duplicates : ℕ → List (Param × LuaValue) → List Value
  | _, [] => []
  | n, (F, v) :: args =>
    if F = .string then .str (.block n) (v.string.getD []) :: duplicates (n + 1) args
    else duplicates n args

/-- The strings that are freed. -/
def freedValues (es : List Event) : List Value :=
  es.filterMap fun
    | .free v => some v
    | _ => none

/-- The queue, with the slots of the callback records of its calls and the strings duplicated for
them, and with all strings duplicated and freed so far. -/
structure Ledger where
  queue : Queue
  records : List ℕ
  pending : List Value
  duplicated : List Value
  freed : List Value

def Ledger.start : Ledger := ⟨emptyQueue, [], [], [], []⟩

inductive Label
  | call (E : Env) (c : LuaCall)
  | drain (messageGet : MsgId → Option Message)

/-- A call of Lua, or of `lua_do_all`. -/
def Ledger.step (s : Ledger) : Label → Option Ledger
  | .call E c => do
    let (q, ok) ← universalFromLua E c s.queue
    if ok then
      let copies := (c.function.map fun F => duplicates (s.queue.next + 1) (F.args.zip c.stack))
      return { queue := q, records := s.records ++ [s.queue.pos + 2],
               pending := s.pending ++ copies.getD [],
               duplicated := s.duplicated ++ copies.getD [], freed := s.freed }
    else return { s with queue := q }
  | .drain messageGet => do
    let (es, _, q) ← luaDoAll messageGet s.queue
    return { queue := q, records := [], pending := [], duplicated := s.duplicated,
             freed := s.freed ++ freedValues es }

/-- The function that is called has as many parameters as its case of the `switch` uses. -/
def Label.Fits : Label → Prop
  | .call _ c => ∀ F, c.function = some F → Matches F.type F.args.length
  | .drain _ => True

def Step (s : Ledger) (l : Label) (t : Ledger) : Prop := l.Fits ∧ s.step l = some t

/-- No callback record stands in a flagged slot when `lua_do_all` is called. -/
def Clear (s : Ledger) : Label → Prop
  | .drain _ => ∀ i ∈ s.records, (s.queue.luaPtr i).flags = false
  | .call _ _ => True

def ClearStep (s : Ledger) (l : Label) (t : Ledger) : Prop := Step s l t ∧ Clear s l

/-- The block of memory of a string of our own. -/
def Value.block : Value → Option ℕ
  | .str (.block n) _ => some n
  | _ => none

/-- **The account is exact**: freed are the strings that were duplicated, in order and each once,
but for those that are still in the queue, and nothing else. -/
structure Exact (s : Ledger) : Prop where
  balance : s.freed ++ s.pending = s.duplicated
  once : (s.duplicated.map Value.block).Nodup
  own : ∀ v ∈ s.freed, Value.block v ≠ none

/-! ### What a call duplicates -/

/-- The strings among the values. -/
def strings (vs : List Value) : List Value := vs.filter Value.isStr

theorem parsedValue_string {E : Env} {v : LuaValue} {w : Value}
    (h : parsedValue E (.string, v) = some w) : w = .str .lua (v.string.getD []) := by
  unfold parsedValue parseParam at h
  cases hs : v.string with
  | none =>
    rw [hs] at h
    cases h
  | some s =>
    rw [hs] at h
    cases h
    rfl

theorem isStr_of_member {F : Param} {v : Value} (h : v.member = some (member F))
    (hF : F ≠ .string) : v.isStr = false := by
  cases v with
  | str owner s =>
    cases F with
    | string => exact absurd rfl hF
    | _ => cases h
  | _ => rfl

/-- **The strings of the slots** are the copies, once they have been made. -/
theorem dupStrings_strings {E : Env} : ∀ {i : ℕ} {args : List (Param × LuaValue)}
    {a b : ℕ → LuaArg} {n m : ℕ} {vs ws : List Value},
    dupStrings i (args.map Prod.fst) a n = some (b, m) → HoldsValues a i vs →
    args.map (parsedValue E) = vs.map some →
    vs.map Value.member = args.map (fun arg => some (member arg.1)) →
    HoldsValues b i ws → ws.length = args.length →
    strings ws = duplicates n args ∧ m = n + (duplicates n args).length
  | _, [], _, _, n, _, _, [], h, _, _, _, _, _ => by
    cases h
    exact ⟨rfl, rfl⟩
  | _, [], _, _, _, _, _, _ :: _, _, _, _, _, _, hlen => by cases hlen
  | _, _ :: _, _, _, _, _, _, [], _, _, _, _, _, hlen => by cases hlen
  | _, _ :: _, _, _, _, _, [], _ :: _, _, _, hparsed, _, _, _ => by cases hparsed
  | i, (F, x) :: args, a, b, n, m, v :: vs, w :: ws, h, hvs, hparsed, hmembers, hws, hlen => by
    rw [List.map_cons, List.map_cons, List.cons.injEq] at hparsed hmembers
    rw [List.length_cons, List.length_cons, Nat.succ_inj] at hlen
    rw [List.map_cons, dupStrings] at h
    by_cases hF : F = .string
    · subst hF
      have hv := parsedValue_string hparsed.1
      rw [if_pos rfl, hvs.1, hv] at h
      simp only at h
      have hw : w = .str (.block n) (x.string.getD []) := by
        have hslot := dupStrings_frame h i (by omega)
        rw [hws.1, setValue, Function.update_self] at hslot
        exact congrArg LuaArg.value hslot
      have hrest : HoldsValues (setValue a i (.str (.block n) (x.string.getD []))) (i + 1) vs :=
        hvs.2.congr fun k hik _ => Function.update_of_ne (by omega) _ _
      obtain ⟨hstrings, hnext⟩ :=
        dupStrings_strings h hrest hparsed.2 hmembers.2 hws.2 hlen
      rw [duplicates, if_pos rfl, strings, hw, List.filter_cons_of_pos rfl]
      exact ⟨congrArg (_ :: ·) hstrings, by rw [hnext, List.length_cons]; omega⟩
    · rw [if_neg hF] at h
      have hw : w = v := by
        have hslot := dupStrings_frame h i (by omega)
        rw [hws.1, hvs.1] at hslot
        exact congrArg LuaArg.value hslot
      obtain ⟨hstrings, hnext⟩ :=
        dupStrings_strings h hvs.2 hparsed.2 hmembers.2 hws.2 hlen
      have hstr : w.isStr = false := hw ▸ isStr_of_member hmembers.1 hF
      rw [duplicates, if_neg hF, strings, List.filter_cons_of_neg (by rw [hstr]; decide)]
      exact ⟨hstrings, hnext⟩

theorem duplicates_blocks : ∀ {n : ℕ} {args : List (Param × LuaValue)},
    (duplicates n args).map Value.block = (List.range' n (duplicates n args).length).map some
  | _, [] => rfl
  | n, (F, x) :: args => by
    rw [duplicates]
    split_ifs
    · rw [List.map_cons, duplicates_blocks, List.length_cons, List.range'_succ, List.map_cons]
      rfl
    · exact duplicates_blocks

/-- **An accepted call**: what it leaves in the queue, with copies of its strings. -/
theorem accepted_strings {E : Env} {stack : List LuaValue} {F : LuaFunction} {q q' : Queue}
    (h : parseLuaFunction E stack F q = some (q', true)) : ∃ c, Accepted E stack F q q' c ∧
      strings c.values = duplicates (q.next + 1) (F.args.zip stack) ∧
      q'.next = q.next + 1 + (duplicates (q.next + 1) (F.args.zip stack)).length := by
  obtain ⟨c, hc⟩ := parseLuaFunction_accepted h
  refine ⟨c, hc, ?_⟩
  obtain ⟨func, param, hstack, -⟩ := hc.extra
  unfold parseLuaFunction at h
  simp only [hstack] at h
  split_ifs at h with hpos
  simp only [Option.bind_eq_bind, Option.bind_eq_some_iff, Prod.exists] at h
  obtain ⟨a, ok, hargs, h⟩ := h
  cases ok with
  | false => cases h
  | true =>
    rw [if_pos rfl] at h
    simp only [Option.bind_eq_some_iff, Prod.exists] at h
    obtain ⟨b, next, hdup, h⟩ := h
    cases h
    obtain ⟨vs, hparsed, hmembers, hvalues⟩ := parseArgs_ok hargs
    have hlen : F.args.length ≤ stack.length := by
      have hdrop := congrArg List.length hstack
      rw [List.length_drop, List.length_cons, List.length_singleton] at hdrop
      omega
    have hfst : (F.args.zip stack).map Prod.fst = F.args := List.map_fst_zip hlen
    have hzip : (F.args.zip stack).length = F.args.length := by
      rw [← hfst, List.length_map]
      rw [hfst]
    rw [← hfst] at hdup
    exact dupStrings_strings hdup hvalues hparsed hmembers hc.holds.values
      (hc.length.trans hzip.symm)

/-! ### What `lua_do_all` frees -/

/-- The slots from `i` to `j` hold calls that their cases use up. -/
def Holds (a : ℕ → LuaArg) : ℕ → List Queued → ℕ → Prop
  | i, [], j => i = j
  | i, c :: cs, j => HoldsCall a i c ∧ Matches c.type c.values.length ∧
      Holds a (i + 3 + c.values.length) cs j

/-- The slots of the callback records. -/
def recordsFrom : ℕ → List Queued → List ℕ
  | _, [] => []
  | i, c :: cs => (i + 2) :: recordsFrom (i + 3 + c.values.length) cs

/-- What is freed of the calls from slot `i` on: a callback record if its slot is flagged, and the
strings. -/
def released (a : ℕ → LuaArg) : ℕ → List Queued → List Value
  | _, [] => []
  | i, c :: cs => (if (a (i + 2)).flags then [.ptr c.extra] else []) ++ strings c.values ++
      released a (i + 3 + c.values.length) cs

theorem freedValues_append (es fs : List Event) :
    freedValues (es ++ fs) = freedValues es ++ freedValues fs := List.filterMap_append

theorem frees_succ (a : ℕ → LuaArg) (p n : ℕ) : frees a p (n + 1) =
    (if (a p).flags then [.free (a p).value] else []) ++ frees a (p + 1) n := by
  have hshift : ∀ i, a (p + Nat.succ i) = a (p + 1 + i) := fun i => by
    rw [Nat.succ_eq_add_one, show p + (i + 1) = p + 1 + i by omega]
  have htail : ((List.map Nat.succ (List.range n)).filter fun i => (a (p + i)).flags).map
      (fun i => Event.free (a (p + i)).value) = frees a (p + 1) n := by
    rw [List.filter_map, List.map_map, frees]
    simp only [Function.comp_def, hshift]
  rw [frees, List.range_succ_eq_map, List.filter_cons, Nat.add_zero]
  split_ifs with hflag
  · rw [List.map_cons, htail]
    rfl
  · rw [htail]
    rfl

theorem freedValues_frees {a : ℕ → LuaArg} : ∀ {p : ℕ} {vs : List Value}, HoldsValues a p vs →
    freedValues (frees a p vs.length) = strings vs
  | _, [], _ => rfl
  | p, v :: vs, h => by
    have ih := freedValues_frees h.2
    rw [List.length_cons, frees_succ, freedValues_append, ih, h.1, strings, strings,
      List.filter_cons]
    cases v.isStr with
    | true => rfl
    | false => rfl

theorem Case.run_moves {messageGet : MsgId → Option Message} {a : ℕ → LuaArg} {p : ℕ} {k : Case}
    {ev : Event} {n : ℕ} (h : k.run messageGet a p = some (ev, n)) :
    n = Case.moves k ∧ freedValues [ev] = [] := by
  cases k with
  | issue fn reads cb m =>
    simp only [Case.run, Option.bind_eq_bind, Option.bind_eq_some_iff] at h
    obtain ⟨args, -, e, -, h⟩ := h
    cases h
    exact ⟨rfl, rfl⟩
  | load =>
    simp only [Case.run, Option.bind_eq_bind, Option.bind_eq_some_iff] at h
    obtain ⟨id, -, e, -, ev', hload, h⟩ := h
    cases h
    rw [loadFile_eq] at hload
    split_ifs at hload
    cases hload
    refine ⟨rfl, ?_⟩
    unfold fileEvent
    split <;> rfl
  | loadThumb =>
    simp only [Case.run, Option.bind_eq_bind, Option.bind_eq_some_iff] at h
    obtain ⟨id, -, e, -, h⟩ := h
    cases h
    refine ⟨rfl, ?_⟩
    unfold loadFileThumb
    split <;> rfl

theorem Holds.le {a : ℕ → LuaArg} : ∀ {i j : ℕ} {cs : List Queued}, Holds a i cs j → i ≤ j
  | _, _, [], h => Nat.le_of_eq h
  | _, _, _ :: _, h => by
    have hle := Holds.le h.2.2
    omega

/-- **The release of the strings** of all calls in the queue. -/
theorem serveAll_freed {messageGet : MsgId → Option Message} {q : Queue} : ∀ {fuel i p : ℕ}
    {cs : List Queued} {es : List Event}, Holds q.luaPtr i cs q.pos →
    serveAll messageGet q fuel i = some (es, p) → freedValues es = released q.luaPtr i cs
  | fuel, i, _, [], es, hq, h => by
    have hend : ¬ i < q.pos := by
      rw [show i = q.pos from hq]
      exact lt_irrefl _
    cases fuel with
    | zero => rw [serveAll, if_neg hend] at h; cases h; rfl
    | succ fuel => rw [serveAll, if_neg hend] at h; cases h; rfl
  | fuel, i, _, c :: cs, es, hq, h => by
    obtain ⟨hcall, hmatch, hrest⟩ := hq
    have hle := Holds.le hrest
    cases fuel with
    | zero => rw [serveAll, if_pos (by omega)] at h; cases h
    | succ fuel =>
      rw [serveAll, if_pos (by omega), serve_call hcall hle] at h
      simp only [Option.bind_eq_bind, Option.bind_eq_some_iff, Prod.exists] at h
      obtain ⟨es₁, p₁, ⟨k, hk, ev, n, hrun, hserve⟩, es₂, p₂, hall, h⟩ := h
      cases hserve
      cases h
      obtain ⟨hn, hev⟩ := Case.run_moves hrun
      have hmoves : n = c.values.length + 1 := by
        unfold Matches at hmatch
        rw [hk, Option.map_some, Option.some.injEq] at hmatch
        omega
      rw [hmoves, show i + 2 + (c.values.length + 1) = i + 3 + c.values.length by omega] at hall
      have ih := serveAll_freed hrest hall
      rw [hmoves, freedValues_append, ih, released, frees_succ,
        show (ev :: ((if (q.luaPtr (i + 2)).flags then
          [Event.free (q.luaPtr (i + 2)).value] else []) ++
            frees q.luaPtr (i + 3) c.values.length)) =
          [ev] ++ ((if (q.luaPtr (i + 2)).flags then
          [Event.free (q.luaPtr (i + 2)).value] else []) ++ frees q.luaPtr (i + 3) c.values.length)
          from rfl, freedValues_append, hev, freedValues_append, freedValues_frees hcall.values,
        hcall.extra]
      cases (q.luaPtr (i + 2)).flags with
      | true => rfl
      | false => rfl

theorem strings_append (vs ws : List Value) : strings (vs ++ ws) = strings vs ++ strings ws :=
  List.filter_append _ _

theorem strings_released {a : ℕ → LuaArg} : ∀ (i : ℕ) (cs : List Queued),
    strings (released a i cs) = cs.flatMap fun c => strings c.values
  | _, [] => rfl
  | i, c :: cs => by
    have hrecord : strings (if (a (i + 2)).flags then [.ptr c.extra] else []) = [] := by
      split_ifs <;> rfl
    rw [released, strings_append, strings_append, hrecord, strings_released, List.flatMap_cons,
      List.nil_append]
    unfold strings
    rw [List.filter_filter]
    simp only [Bool.and_self]

theorem released_isStr_iff {a : ℕ → LuaArg} : ∀ (i : ℕ) (cs : List Queued),
    (∀ v ∈ released a i cs, v.isStr = true) ↔ ∀ k ∈ recordsFrom i cs, (a k).flags = false
  | _, [] => by simp [released, recordsFrom]
  | i, c :: cs => by
    have hstrings : ∀ v ∈ strings c.values, v.isStr = true := fun v hv => (List.mem_filter.mp hv).2
    rw [released, recordsFrom, List.forall_mem_append, List.forall_mem_append, List.forall_mem_cons,
      released_isStr_iff, and_iff_left hstrings]
    refine and_congr_left fun _ => ?_
    cases (a (i + 2)).flags with
    | true =>
      refine iff_of_false (fun h => ?_) (by decide)
      cases h (.ptr c.extra) (List.mem_singleton_self _)
    | false => exact iff_of_true (fun v hv => absurd hv List.not_mem_nil) rfl

/-! ### The account over a run -/

theorem Holds.congr {a b : ℕ → LuaArg} : ∀ {i j : ℕ} {cs : List Queued}, Holds a i cs j →
    (∀ k < j, b k = a k) → Holds b i cs j
  | _, _, [], h, _ => h
  | _, _, _ :: _, h, hab => by
    have hle := Holds.le h.2.2
    exact ⟨h.1.congr fun k hk => hab k (by omega), h.2.1, Holds.congr h.2.2 hab⟩

theorem Holds.append {a : ℕ → LuaArg} : ∀ {i j k : ℕ} {cs ds : List Queued}, Holds a i cs j →
    Holds a j ds k → Holds a i (cs ++ ds) k
  | _, _, _, [], _, h, h' => by
    cases h
    exact h'
  | _, _, _, _ :: _, _, h, h' => ⟨h.1, h.2.1, Holds.append h.2.2 h'⟩

theorem recordsFrom_append {a : ℕ → LuaArg} : ∀ {i j : ℕ} {cs : List Queued} (ds : List Queued),
    Holds a i cs j → recordsFrom i (cs ++ ds) = recordsFrom i cs ++ recordsFrom j ds
  | _, _, [], _, h => by
    cases h
    rfl
  | _, _, _ :: _, ds, h => by
    rw [List.cons_append, recordsFrom, recordsFrom, recordsFrom_append ds h.2.2, List.cons_append]

/-- The account agrees with the queue, and is exact but for callback records that were freed. -/
structure Inv (s : Ledger) : Prop where
  queue : ∃ cs, Holds s.queue.luaPtr 0 cs s.queue.pos ∧ s.records = recordsFrom 0 cs ∧
    s.pending = cs.flatMap fun c => strings c.values
  balance : strings s.freed ++ s.pending = s.duplicated
  blocks : ∃ ns : List ℕ, s.duplicated.map Value.block = ns.map some ∧ ns.Pairwise (· < ·) ∧
    ∀ n ∈ ns, n < s.queue.next

theorem Inv.start : Inv Ledger.start :=
  ⟨⟨[], rfl, rfl, rfl⟩, rfl, ⟨[], rfl, .nil, fun _ h => absurd h List.not_mem_nil⟩⟩

theorem rejected_next {E : Env} {c : LuaCall} {q q' : Queue}
    (h : universalFromLua E c q = some (q', false)) :
    q.next ≤ q'.next ∧ q'.pos = q.pos ∧ ∀ k < q.pos, q'.luaPtr k = q.luaPtr k := by
  unfold universalFromLua at h
  cases hF : c.function with
  | none =>
    rw [hF] at h
    cases h
    exact ⟨le_rfl, rfl, fun _ _ => rfl⟩
  | some F =>
    rw [hF] at h
    refine ⟨?_, parseLuaFunction_rejected h⟩
    unfold parseLuaFunction at h
    simp only at h
    split at h
    · split_ifs at h with hpos
      simp only [Option.bind_eq_bind, Option.bind_eq_some_iff, Prod.exists] at h
      obtain ⟨a, ok, hargs, h⟩ := h
      cases ok with
      | true =>
        rw [if_pos rfl] at h
        simp only [Option.bind_eq_some_iff, Prod.exists] at h
        obtain ⟨b, next, hdup, h⟩ := h
        cases h
      | false =>
        cases h
        exact Nat.le_succ _
    · cases h
      exact le_rfl

/-- The blocks of the copies of a call are behind all others. -/
theorem blocks_append {vs : List Value} {args : List (Param × LuaValue)} {n : ℕ}
    (h : ∃ ns : List ℕ, vs.map Value.block = ns.map some ∧ ns.Pairwise (· < ·) ∧ ∀ k ∈ ns, k < n) :
    ∃ ns : List ℕ, (vs ++ duplicates (n + 1) args).map Value.block = ns.map some ∧
      ns.Pairwise (· < ·) ∧ ∀ k ∈ ns, k < n + 1 + (duplicates (n + 1) args).length := by
  obtain ⟨ns, hns, hlt, hmax⟩ := h
  refine ⟨ns ++ List.range' (n + 1) (duplicates (n + 1) args).length, ?_, ?_, fun k hk => ?_⟩
  · rw [List.map_append, List.map_append, hns, duplicates_blocks]
  · refine List.pairwise_append.mpr ⟨hlt, List.pairwise_lt_range', fun a ha b hb => ?_⟩
    have hbn := (List.mem_range'_1.mp hb).1
    have han := hmax a ha
    omega
  · rcases List.mem_append.mp hk with hk | hk
    · have hkn := hmax k hk
      omega
    · exact (List.mem_range'_1.mp hk).2

theorem Inv.rejected {s : Ledger} (h : Inv s) {E : Env} {c : LuaCall} {q : Queue}
    (hcall : universalFromLua E c s.queue = some (q, false)) : Inv { s with queue := q } := by
  obtain ⟨cs, hcs, hrecords, hpending⟩ := h.queue
  obtain ⟨ns, hns, hlt, hmax⟩ := h.blocks
  obtain ⟨hnext, hpos, hframe⟩ := rejected_next hcall
  refine ⟨⟨cs, ?_, hrecords, hpending⟩, h.balance,
    ⟨ns, hns, hlt, fun n hn => (hmax n hn).trans_le hnext⟩⟩
  simp only
  rw [hpos]
  exact hcs.congr hframe

/-- A call that is queued adds its slots, and the copies of its strings. -/
theorem Inv.accepted {s : Ledger} (h : Inv s) {E : Env} {stack : List LuaValue} {F : LuaFunction}
    (hfits : Matches F.type F.args.length) {q : Queue}
    (hcall : parseLuaFunction E stack F s.queue = some (q, true)) :
    Inv { queue := q, records := s.records ++ [s.queue.pos + 2]
          pending := s.pending ++ duplicates (s.queue.next + 1) (F.args.zip stack)
          duplicated := s.duplicated ++ duplicates (s.queue.next + 1) (F.args.zip stack)
          freed := s.freed } := by
  obtain ⟨cs, hcs, hrecords, hpending⟩ := h.queue
  obtain ⟨x, hx, hstrings, hnext⟩ := accepted_strings hcall
  have hmatch : Matches x.type x.values.length := by
    rw [hx.type, hx.length]
    exact hfits
  have hq : Holds q.luaPtr 0 (cs ++ [x]) q.pos :=
    (hcs.congr hx.frame).append ⟨hx.holds, hmatch, by rw [Holds, hx.length, hx.pos]⟩
  refine ⟨⟨cs ++ [x], hq, ?_, ?_⟩, ?_, ?_⟩
  · simp only
    rw [hrecords, recordsFrom_append [x] hcs]
    rfl
  · simp only
    rw [List.flatMap_append, List.flatMap_singleton, hpending, hstrings]
  · simp only
    rw [← List.append_assoc, h.balance]
  · simp only
    rw [hnext]
    exact blocks_append h.blocks

/-- **A step** keeps the account, and a callback record is freed only when it is not clear. -/
theorem step_inv {s t : Ledger} {l : Label} (h : Inv s) (hs : Step s l t) :
    Inv t ∧ ((∀ v ∈ t.freed, v.isStr = true) ↔ (∀ v ∈ s.freed, v.isStr = true) ∧ Clear s l) := by
  obtain ⟨hfits, hs⟩ := hs
  cases l with
  | call E c =>
    simp only [Ledger.step, Option.bind_eq_bind, Option.bind_eq_some_iff, Prod.exists] at hs
    obtain ⟨q, ok, hcall, hs⟩ := hs
    cases ok with
    | false =>
      cases hs
      exact ⟨h.rejected hcall, (and_iff_left trivial).symm⟩
    | true =>
      cases hs
      unfold universalFromLua at hcall
      cases hF : c.function with
      | none =>
        rw [hF] at hcall
        cases hcall
      | some F =>
        rw [hF] at hcall
        exact ⟨h.accepted (hfits F hF) hcall, (and_iff_left trivial).symm⟩
  | drain messageGet =>
    obtain ⟨cs, hcs, hrecords, hpending⟩ := h.queue
    simp only [Ledger.step, luaDoAll, Option.bind_eq_bind, Option.bind_eq_some_iff,
      Prod.exists] at hs
    obtain ⟨es, p, q, ⟨es', p', hall, hq⟩, hs⟩ := hs
    cases hq
    cases hs
    have hfreed := serveAll_freed hcs hall
    refine ⟨⟨⟨[], rfl, rfl, rfl⟩, ?_, h.blocks⟩, ?_⟩
    · simp only
      rw [hfreed, strings_append, strings_released, ← hpending, List.append_nil, h.balance]
    · simp only
      rw [List.forall_mem_append, hfreed, released_isStr_iff, ← hrecords]
      rfl

/-- **A run** keeps the account, and frees no callback record exactly when it is clear. -/
theorem run_inv : ∀ {s t : Ledger} {ls : List Label}, Runs Step s ls t → Inv s →
    Inv t ∧ ((∀ v ∈ t.freed, v.isStr = true) ↔
      (∀ v ∈ s.freed, v.isStr = true) ∧ Runs ClearStep s ls t)
  | _, _, _, .nil s, h => ⟨h, (and_iff_left (.nil s)).symm⟩
  | _, _, _, .cons hs hr, h => by
    obtain ⟨hu, hstep⟩ := step_inv h hs
    obtain ⟨ht, hrun⟩ := run_inv hr hu
    refine ⟨ht, hrun.trans ?_⟩
    rw [hstep, and_assoc]
    refine and_congr_right fun _ => ⟨fun hc => .cons ⟨hs, hc.1⟩ hc.2, fun hc => ?_⟩
    cases hc with
    | cons hl hls =>
      obtain rfl := Option.some.inj (hs.2.symm.trans hl.1.2)
      exact ⟨hl.2, hls⟩

theorem isStr_of_block {v : Value} (h : Value.block v ≠ none) : v.isStr = true := by
  cases v with
  | str owner t => rfl
  | _ => exact absurd rfl h

/-- **The strings of the calls are freed**, each once and nothing else, in exactly the runs in which
no callback record stands in a flagged slot at a call of `lua_do_all`. -/
theorem freed_eq_duplicated_iff {s : Ledger} {ls : List Label}
    (hrun : Runs Step Ledger.start ls s) :
    Exact s ↔ Runs ClearStep Ledger.start ls s := by
  obtain ⟨hinv, hclear⟩ := run_inv hrun Inv.start
  have hstart : ∀ v ∈ Ledger.start.freed, v.isStr = true := fun v hv => absurd hv List.not_mem_nil
  obtain ⟨ns, hns, hlt, -⟩ := hinv.blocks
  rw [and_iff_right hstart] at hclear
  rw [← hclear]
  refine ⟨fun h v hv => isStr_of_block (h.own v hv), fun h => ⟨?_, ?_, fun v hv => ?_⟩⟩
  · have hbalance := hinv.balance
    rwa [strings, List.filter_eq_self.mpr h] at hbalance
  · rw [hns]
    exact (hlt.imp Nat.ne_of_lt).map some fun _ _ hne heq => hne (Option.some.inj heq)
  · have hmem : v ∈ s.duplicated := by
      rw [← hinv.balance]
      exact List.mem_append_left _ (List.mem_filter.mpr ⟨hv, h v hv⟩)
    have hblock := List.mem_map_of_mem (f := Value.block) hmem
    rw [hns] at hblock
    obtain ⟨n, -, hn⟩ := List.mem_map.mp hblock
    rw [← hn]
    exact Option.some_ne_none n

/-- No string of Lua is freed in any run. -/
theorem freed_own {s : Ledger} {ls : List Label} (hrun : Runs Step Ledger.start ls s)
    {t : List UInt8} : .str .lua t ∉ s.freed := by
  intro hmem
  have hinv := (run_inv hrun Inv.start).1
  obtain ⟨ns, hns, -⟩ := hinv.blocks
  have hdup : .str .lua t ∈ s.duplicated := by
    rw [← hinv.balance]
    exact List.mem_append_left _ (List.mem_filter.mpr ⟨hmem, rfl⟩)
  have hblock := List.mem_map_of_mem (f := Value.block) hdup
  rw [hns] at hblock
  obtain ⟨n, -, hn⟩ := List.mem_map.mp hblock
  cases hn

/-- The steps as a computation. -/
def run : List Label → Ledger → Option Ledger
  | [], s => some s
  | l :: ls, s => (s.step l).bind (run ls)

theorem runs_of_run : ∀ {ls : List Label} {s t : Ledger}, (∀ l ∈ ls, l.Fits) → run ls s = some t →
    Runs Step s ls t
  | [], s, _, _, h => by
    cases h
    exact .nil s
  | l :: ls, s, t, hfits, h => by
    obtain ⟨u, hu, h⟩ := Option.bind_eq_some_iff.mp h
    exact .cons ⟨hfits l List.mem_cons_self, hu⟩
      (runs_of_run (fun k hk => hfits k (List.mem_cons_of_mem l hk)) h)

/-- Two batches of calls; the callback record of the last call is put where the string of the first
batch was. -/
def twoBatches : List Label :=
  [.call aliceEnv.ids (sampleCall "get_contact_list" []),
   .call aliceEnv.ids (sampleCall "set_profile_photo" ["x"]), .drain fun _ => none,
   .call aliceEnv.ids (sampleCall "mark_read" ["Alice"]),
   .call aliceEnv.ids (sampleCall "get_contact_list" []), .drain fun _ => none]

theorem freed_eq_duplicated_iff_one : ∃ s, s.freed.length = 1 ∧
    (Exact s ↔ Runs ClearStep Ledger.start (twoBatches.take 3) s) := by
  have hlen : (run (twoBatches.take 3) Ledger.start).map (fun s => s.freed.length) = some 1 := by
    decide +kernel
  obtain ⟨s, hs, hone⟩ := Option.map_eq_some_iff.mp hlen
  refine ⟨s, hone, freed_eq_duplicated_iff (runs_of_run (fun l hl => ?_) hs)⟩
  simp only [twoBatches, List.take_succ_cons, List.take_zero, List.mem_cons, List.not_mem_nil,
    or_false] at hl
  rcases hl with rfl | rfl | rfl
  · intro F hF
    cases hF
    decide
  · intro F hF
    cases hF
    decide
  · exact trivial

/-- A callback record is freed. -/
theorem record_freed : ∃ s, Runs Step Ledger.start twoBatches s ∧ ¬ Exact s := by
  have hfreed : (run twoBatches Ledger.start).map (fun s => s.freed.map Value.isStr) =
      some [true, false] := by decide +kernel
  obtain ⟨s, hs, hrecord⟩ := Option.map_eq_some_iff.mp hfreed
  refine ⟨s, runs_of_run (fun l hl => ?_) hs, fun h => ?_⟩
  · simp only [twoBatches, List.mem_cons, List.not_mem_nil, or_false] at hl
    rcases hl with rfl | rfl | rfl | rfl | rfl | rfl
    any_goals exact trivial
    all_goals
      intro F hF
      cases hF
      decide
  · have hstr : ∀ b ∈ s.freed.map Value.isStr, b = true := by
      intro b hb
      obtain ⟨v, hv, rfl⟩ := List.mem_map.mp hb
      exact isStr_of_block (h.own v hv)
    rw [hrecord] at hstr
    exact absurd (hstr false (by decide)) (by decide)

end TelegramCli.Lua.Ownership
