import Mathlib.Tactic

/-! # Building values on a stack

A program hands values to an interpreter over a stack: it pushes atoms and new tables, and moves a
key and a value from the top of the stack into the table below them. It may push only as far as it
has reserved room, and it fails when it goes beyond, when there is no more room to reserve, or when
no table is where it stores something. A table that is being built is on the stack only, so it is
the list of what was stored in it.

`Leads depth a m b n p` says that `p` replaces the values `a` on top of any stack by `b`, where `m`
slots from the bottom of `a` on are reserved before and `n` after it, and that it does not fail if
there is room for `depth` slots. What lies under `a` does not matter, so the rule can be used above
other values (`Leads.above`). `Pushes` and `Adds` are its cases for a value and for what is stored
in the table on top. -/

namespace TelegramCli.Lib.LuaStack

/-- What is on the stack. -/
inductive Value (α : Type) : Type
  | atom (a : α)
  | table (entries : List (Value α × Value α))

variable {α : Type}

/-- The values, the top first, and how many the stack may hold. -/
structure Stack (α : Type) where
  values : List (Value α)
  limit : ℕ

abbrev Op (α : Type) : Type := Stack α → Option (Stack α)

/-! ### Operations -/

def push (v : Value α) : Op α := fun s =>
  if s.values.length < s.limit then some ⟨v :: s.values, s.limit⟩ else none

def newTable : Op α := push (.table [])

/-- `lua_checkstack`, in an assertion; no stack has more than `cap` slots. -/
def checkStack (cap n : ℕ) : Op α := fun s =>
  if s.values.length + n ≤ cap then some ⟨s.values, s.limit ⊔ (s.values.length + n)⟩ else none

/-- `lua_settable (-3)`. -/
def setTable : Op α := fun s =>
  match s.values with
  | v :: k :: .table es :: rest => some ⟨.table (es ++ [(k, v)]) :: rest, s.limit⟩
  | _ => none

/-- `lua_settop (0)`. -/
def clear : Op α := fun s => some ⟨[], s.limit⟩

/-- The assertion that the stack has so many values. -/
def assertTop (n : ℕ) : Op α := fun s => if s.values.length = n then some s else none

def fail : Op α := fun _ => none

/-- An assertion. -/
def check (c : Prop) [Decidable c] : Op α := fun s => if c then some s else none

/-- One operation after the other. -/
def steps (ps : List (Op α)) : Op α := fun s => ps.foldlM (fun s p => p s) s

/-! ### What operations lead to -/

variable {cap depth m n k : ℕ} {a b c : List (Value α)} {p : Op α} {ps : List (Op α)}

def Leads (cap depth : ℕ) (a : List (Value α)) (m : ℕ) (b : List (Value α)) (n : ℕ) (p : Op α) :
    Prop :=
  ∀ (base : List (Value α)) (s : Stack α), s.values = a ++ base → base.length + m ≤ s.limit →
    base.length + depth ≤ cap →
    ∃ t, p s = some t ∧ t.values = b ++ base ∧ base.length + n ≤ t.limit ∧ s.limit ≤ t.limit

theorem leads_push (v : Value α) (h : a.length < m) : Leads cap depth a m (v :: a) m (push v) := by
  intro base s hs hm _
  have hlt : s.values.length < s.limit := by
    rw [hs, List.length_append]
    omega
  exact ⟨_, if_pos hlt, congrArg (v :: ·) hs, hm, le_rfl⟩

theorem leads_checkStack (k : ℕ) (h : a.length + k ≤ depth) :
    Leads cap depth a m a (m ⊔ (a.length + k)) (checkStack cap k) := by
  intro base s hs hm hdepth
  have hlen : s.values.length = a.length + base.length := by rw [hs, List.length_append]
  refine ⟨_, if_pos (by omega), hs, ?_, le_max_left _ _⟩
  change base.length + (m ⊔ (a.length + k)) ≤ s.limit ⊔ (s.values.length + k)
  omega

theorem leads_setTable (v k : Value α) (es : List (Value α × Value α)) :
    Leads cap depth (v :: k :: .table es :: a) m (.table (es ++ [(k, v)]) :: a) m setTable := by
  intro base s hs hm _
  refine ⟨⟨.table (es ++ [(k, v)]) :: (a ++ base), s.limit⟩, ?_, rfl, hm, le_rfl⟩
  unfold setTable
  rw [hs]
  rfl

theorem leads_nil : Leads cap depth a m a m (steps []) :=
  fun _ s hs hm _ => ⟨s, rfl, hs, hm, le_rfl⟩

/-- **One operation after another.** -/
theorem leads_cons (hp : Leads cap depth a m b n p) (hps : Leads cap depth b n c k (steps ps)) :
    Leads cap depth a m c k (steps (p :: ps)) := by
  intro base s hs hm hdepth
  obtain ⟨t, ht, hvalues, hn, hle⟩ := hp base s hs hm hdepth
  obtain ⟨u, hu, hvalues', hk, hle'⟩ := hps base t hvalues hn hdepth
  refine ⟨u, ?_, hvalues', hk, hle.trans hle'⟩
  rw [steps, List.foldlM_cons, ht]
  exact hu

/-- More room before leaves more room behind. -/
theorem Leads.mono (h : Leads cap depth a m b n p) {depth' m' n' : ℕ} (hdepth : depth ≤ depth')
    (hm : m ≤ m') (hn : n' ≤ n ⊔ m') : Leads cap depth' a m' b n' p := by
  intro base s hs hm' hdepth'
  obtain ⟨t, ht, hvalues, hnt, hle⟩ := h base s hs (by omega) (by omega)
  refine ⟨t, ht, hvalues, ?_, hle⟩
  omega

/-- **Above other values.** -/
theorem Leads.above (h : Leads cap depth a m b n p) (x : List (Value α)) :
    Leads cap (depth + x.length) (a ++ x) (m + x.length) (b ++ x) (n + x.length) p := by
  intro base s hs hm hdepth
  rw [List.append_assoc] at hs
  obtain ⟨t, ht, hvalues, hn, hle⟩ :=
    h (x ++ base) s hs (by rw [List.length_append]; omega) (by rw [List.length_append]; omega)
  rw [List.length_append] at hn
  exact ⟨t, ht, by rw [hvalues, List.append_assoc], by omega, hle⟩

/-! ### Values and entries -/

/-- A value is pushed. -/
def Pushes (cap depth m n : ℕ) (v : Value α) (p : Op α) : Prop := Leads cap depth [] m [v] n p

/-- Something is stored in the table on top. -/
def Adds (cap depth m n : ℕ) (es : List (Value α × Value α)) (p : Op α) : Prop :=
  ∀ es₀, Leads cap depth [.table es₀] m [.table (es₀ ++ es)] n p

variable {v w : Value α} {es fs : List (Value α × Value α)}

theorem pushes_push (v : Value α) (hm : 0 < m) : Pushes cap depth m m v (push v) :=
  leads_push v hm

theorem adds_nil : Adds cap depth m m ([] : List (Value α × Value α)) (steps []) := fun es₀ => by
  rw [List.append_nil]
  exact leads_nil

/-- Something is stored, and then more. -/
theorem adds_cons (hp : Adds cap depth m n es p) (hps : Adds cap depth n k fs (steps ps)) :
    Adds cap depth m k (es ++ fs) (steps (p :: ps)) := fun es₀ => by
  rw [← List.append_assoc]
  exact leads_cons (hp es₀) (hps (es₀ ++ es))

theorem Adds.mono (h : Adds cap depth m n es p) {depth' m' n' : ℕ} (hdepth : depth ≤ depth')
    (hm : m ≤ m') (hn : n' ≤ n ⊔ m') : Adds cap depth' m' n' es p :=
  fun es₀ => (h es₀).mono hdepth hm hn

/-- Room is reserved first. -/
theorem adds_checkStack (r : ℕ) (h : 1 + r ≤ depth)
    (hps : Adds cap depth (m ⊔ (1 + r)) n es (steps ps)) :
    Adds cap depth m n es (steps (checkStack cap r :: ps)) := fun es₀ =>
  leads_cons (leads_checkStack r h) (hps es₀)

/-- An assertion that holds. -/
theorem adds_check {c : Prop} [Decidable c] (hc : c) (hps : Adds cap depth m n es (steps ps)) :
    Adds cap depth m n es (steps (check c :: ps)) := fun es₀ =>
  leads_cons (fun _ s hs hm _ => ⟨s, if_pos hc, hs, hm, le_rfl⟩) (hps es₀)

/-- An entry that reserves the room for its key and its value. -/
theorem adds_reserved (key v : Value α) (h : 4 ≤ depth) :
    Adds cap depth m (m ⊔ 4) [(key, v)] (steps [checkStack cap 3, push key, push v, setTable]) := by
  refine adds_checkStack 3 h fun es₀ => ?_
  exact leads_cons (leads_push key (by rw [List.length_singleton]; omega))
    (leads_cons (leads_push v (by rw [List.length_cons, List.length_singleton]; omega))
      (leads_cons (leads_setTable v key es₀) leads_nil))

/-- **A value under a key.** -/
theorem adds_entry (key : Value α) (hp : Pushes cap depth m n v p) {m' : ℕ} (hm : m + 2 ≤ m') :
    Adds cap (depth + 2) m' (m' ⊔ (n + 2)) [(key, v)] (steps [push key, p, setTable]) := by
  intro es₀
  have hkey : Leads cap (depth + 2) [.table es₀] m' (key :: [.table es₀]) m' (push key) :=
    leads_push key (by rw [List.length_singleton]; omega)
  have hvalue : Leads cap (depth + 2) [key, .table es₀] m' [v, key, .table es₀] (m' ⊔ (n + 2)) p :=
    (hp.above [key, .table es₀]).mono le_rfl hm (by
      rw [List.length_cons, List.length_singleton]
      omega)
  exact leads_cons hkey (leads_cons hvalue (leads_cons (leads_setTable v key es₀) leads_nil))

/-- Entries one after the other. -/
theorem adds_steps : ∀ {ess : List (List (Value α × Value α))} {ps : List (Op α)},
    List.Forall₂ (Adds cap depth m m) ess ps → Adds cap depth m m ess.flatten (steps ps)
  | [], [], .nil => adds_nil
  | _ :: _, _ :: _, .cons h hs => adds_cons h (adds_steps hs)

theorem adds_map {ι : Type} {f : ι → List (Value α × Value α)} {g : ι → Op α} {xs : List ι}
    (h : ∀ x ∈ xs, Adds cap depth m m (f x) (g x)) :
    Adds cap depth m m (xs.flatMap f) (steps (xs.map g)) :=
  adds_steps (List.forall₂_map_left_iff.mpr (List.forall₂_map_right_iff.mpr
    (List.forall₂_same.mpr h)))

/-- **A table** is made and filled. -/
theorem pushes_table (hm : 0 < m) (hps : Adds cap depth m n es (steps ps)) :
    Pushes cap depth m n (.table es) (steps (newTable :: ps)) :=
  leads_cons (leads_push (.table []) hm) (hps [])

/-- Room is reserved for a value. -/
theorem pushes_checkStack (r : ℕ) (h : r ≤ depth) (hp : Pushes cap depth (m ⊔ r) n v p) :
    Pushes cap depth m n v (steps [checkStack cap r, p]) := by
  have hlen : ([] : List (Value α)).length + r = r := Nat.zero_add r
  refine leads_cons (leads_checkStack r (hlen.trans_le h)) (leads_cons ?_ leads_nil)
  rw [hlen]
  exact hp

/-! ### Calls -/

/-- Values one after the other, the last on top. -/
theorem leads_values {r : ℕ} : ∀ {vs : List (Value α)} {ps : List (Op α)} {a : List (Value α)},
    List.Forall₂ (Pushes cap r r r) vs ps → a.length + vs.length + r ≤ m + 1 →
    Leads cap m a m (vs.reverse ++ a) m (steps ps)
  | [], [], _, .nil, _ => leads_nil
  | v :: vs, p :: ps, a, .cons hp hps, hm => by
    rw [List.length_cons] at hm
    have hv : Leads cap m a m (v :: a) m p :=
      (hp.above a).mono (by omega) (by omega) (le_max_right _ _)
    have hrest : Leads cap m (v :: a) m (vs.reverse ++ v :: a) m (steps ps) :=
      leads_values hps (by rw [List.length_cons]; omega)
    rw [List.reverse_cons, List.append_assoc, List.singleton_append]
    exact leads_cons hv hrest

/-- A function with its arguments. -/
structure Invocation (α : Type) where
  func : Value α
  args : List (Value α)

/-- `lua_pcall` with `n` arguments. -/
def pcall (n : ℕ) (s : Stack α) : Option (Invocation α) :=
  match s.values.drop n with
  | [] => none
  | f :: _ => some ⟨f, (s.values.take n).reverse⟩

/-- A call from an empty stack: room is reserved, the function and its arguments are pushed, and
their number is asserted. -/
def invoke (cap room : ℕ) (ps : List (Op α)) (s : Stack α) : Option (Invocation α) :=
  (steps (clear :: checkStack cap room :: (ps ++ [assertTop ps.length])) s).bind
    (pcall (ps.length - 1))

theorem steps_append (ps qs : List (Op α)) (s : Stack α) :
    steps (ps ++ qs) s = (steps ps s).bind (steps qs) := List.foldlM_append

/-- **A call** goes through from any stack, with what is pushed. -/
theorem invoke_eq {f : Value α} {vs : List (Value α)} {ps : List (Op α)} {r room : ℕ}
    (h : List.Forall₂ (Pushes cap r r r) (f :: vs) ps) (hroom : vs.length + r ≤ room)
    (hcap : room ≤ cap) (s : Stack α) :
    invoke cap room ps s = some ⟨f, vs⟩ := by
  have hlen := h.length_eq
  rw [List.length_cons] at hlen
  have hzero : ([] : List (Value α)).length = 0 := rfl
  have hvalues : Leads cap room [] room ((f :: vs).reverse ++ []) room (steps ps) :=
    leads_values h (by rw [hzero, List.length_cons]; omega)
  obtain ⟨t, ht, hstack, -, -⟩ := hvalues [] ⟨[], s.limit ⊔ room⟩ rfl
    (by rw [hzero, Nat.zero_add]; exact le_max_right _ _) (by rw [hzero]; omega)
  rw [List.append_nil, List.append_nil] at hstack
  have hcheck : checkStack cap room ⟨[], s.limit⟩ =
      some ⟨([] : List (Value α)), s.limit ⊔ room⟩ := by
    unfold checkStack
    rw [hzero, Nat.zero_add, if_pos hcap]
  have hrun : steps (clear :: checkStack cap room :: (ps ++ [assertTop ps.length])) s = some t := by
    have htop : assertTop ps.length t = some t := by
      unfold assertTop
      rw [if_pos (by rw [hstack, List.length_reverse, List.length_cons]; omega)]
    change (checkStack cap room ⟨[], s.limit⟩).bind (steps (ps ++ [assertTop ps.length])) = some t
    rw [hcheck, Option.bind_some, steps_append, ht, Option.bind_some]
    change (assertTop ps.length t).bind some = some t
    rw [htop]
    rfl
  have hnum : ps.length - 1 = vs.reverse.length := by rw [List.length_reverse]; omega
  rw [invoke, hrun, Option.bind_some, pcall, hstack, List.reverse_cons, hnum, List.drop_left,
    List.take_left, List.reverse_reverse]

theorem Pushes.mono (h : Pushes cap depth m n v p) {depth' m' n' : ℕ} (hdepth : depth ≤ depth')
    (hm : m ≤ m') (hn : n' ≤ n ⊔ m') : Pushes cap depth' m' n' v p := Leads.mono h hdepth hm hn

end TelegramCli.Lib.LuaStack
