import TelegramCli.Interface.Args

/-! # Reading the arguments

A handler gets its arguments as an array of unions. An `ArgReader` reads some of them; it fails when
an argument is not there or was stored through another member, and `reads` lists what it depends on,
so that whether a handler can read its arguments is a question about their members alone. -/

namespace TelegramCli.Interface.Args

open TelegramCli.Tgl

/-- The members of the arguments are those that are read. -/
def Fits (tags : List Member) (reads : List (ℕ × Member)) : Prop :=
  ∀ r ∈ reads, tags[r.1]? = some r.2

instance (tags : List Member) (reads : List (ℕ × Member)) : Decidable (Fits tags reads) := by
  unfold Fits; infer_instance

theorem fits_append {tags : List Member} {r s : List (ℕ × Member)} :
    Fits tags (r ++ s) ↔ Fits tags r ∧ Fits tags s := by
  simp only [Fits, List.forall_mem_append]

structure ArgReader (α : Type) where
  reads : List (ℕ × Member)
  get : List Arg → Option α
  get_isSome : ∀ args, (get args).isSome = true ↔ Fits (args.map Arg.member) reads

namespace ArgReader

/-- The argument `i`, read through the member that `f` takes values of. -/
def single {α : Type} (m : Member) (f : Arg → Option α)
    (hf : ∀ a, (f a).isSome = true ↔ a.member = m) (i : ℕ) : ArgReader α where
  reads := [(i, m)]
  get args := args[i]?.bind f
  get_isSome args := by
    simp only [Fits, List.mem_singleton, forall_eq, List.getElem?_map]
    cases args[i]? with
    | none => simp
    | some a => simpa using hf a

/-- `args[i].str`, and the other members. -/
def str : ℕ → ArgReader Str :=
  single .str (fun | .str s => some s | _ => none) fun a => by cases a <;> simp [Arg.member]

@[inherit_doc str] def num : ℕ → ArgReader ℤ :=
  single .num (fun | .num n => some n | _ => none) fun a => by cases a <;> simp [Arg.member]

@[inherit_doc str] def dval : ℕ → ArgReader Double :=
  single .dval (fun | .dval x => some x | _ => none) fun a => by cases a <;> simp [Arg.member]

@[inherit_doc str] def msgId : ℕ → ArgReader MsgId :=
  single .msgId (fun | .msgId id => some id | _ => none) fun a => by cases a <;> simp [Arg.member]

@[inherit_doc str] def peerId : ℕ → ArgReader PeerId :=
  single .peerId (fun | .peerId id => some id | _ => none) fun a => by
    cases a <;> simp [Arg.member]

instance : Applicative ArgReader where
  pure a := ⟨[], fun _ => some a, fun _ => by simp [Fits]⟩
  seq f x :=
    { reads := f.reads ++ (x ()).reads
      get := fun args => (f.get args).bind fun g => ((x ()).get args).map g
      get_isSome := fun args => by
        rw [fits_append, ← f.get_isSome, ← (x ()).get_isSome]
        cases f.get args <;> cases (x ()).get args <;> simp }

/-- One reader after the other. -/
def many {α : Type} : List (ArgReader α) → ArgReader (List α)
  | [] => pure []
  | x :: xs => (· :: ·) <$> x <*> many xs

variable {α β : Type} {tags : List Member}

theorem fits_map (f : α → β) (x : ArgReader α) : Fits tags (f <$> x).reads ↔ Fits tags x.reads :=
  Iff.rfl

theorem fits_seq (f : ArgReader (α → β)) (x : ArgReader α) :
    Fits tags (f <*> x).reads ↔ Fits tags f.reads ∧ Fits tags x.reads := fits_append

theorem fits_single {m : Member} {f : Arg → Option α}
    {hf : ∀ a, (f a).isSome = true ↔ a.member = m} {i : ℕ} :
    Fits tags (single m f hf i).reads ↔ tags[i]? = some m := List.forall_mem_singleton

theorem fits_many : ∀ xs : List (ArgReader α),
    Fits tags (many xs).reads ↔ ∀ x ∈ xs, Fits tags x.reads
  | [] => by simp [many, pure, Fits]
  | x :: xs => by
    rw [List.forall_mem_cons, ← fits_many xs]
    exact fits_append

theorem get_map {f : α → β} {x : ArgReader α} {args : List Arg} {b : β}
    (h : (f <$> x).get args = some b) : ∃ a, x.get args = some a ∧ b = f a := by
  obtain ⟨a, ha, rfl⟩ := Option.map_eq_some_iff.mp (show (x.get args).map f = some b from h)
  exact ⟨a, ha, rfl⟩

theorem get_seq {f : ArgReader (α → β)} {x : ArgReader α} {args : List Arg} {b : β}
    (h : (f <*> x).get args = some b) :
    ∃ g a, f.get args = some g ∧ x.get args = some a ∧ b = g a := by
  obtain ⟨g, hg, h⟩ := Option.bind_eq_some_iff.mp
    (show ((f.get args).bind fun g => (x.get args).map g) = some b from h)
  obtain ⟨a, ha, rfl⟩ := Option.map_eq_some_iff.mp h
  exact ⟨g, a, hg, ha, rfl⟩

/-- Every value the reader can give has the property. -/
def Yields (P : α → Prop) (x : ArgReader α) : Prop := ∀ args a, x.get args = some a → P a

theorem yields_pure {P : α → Prop} {a : α} (h : P a) : Yields P (pure a : ArgReader α) :=
  fun _ _ hb => Option.some.inj hb ▸ h

theorem yields_map {P : β → Prop} {f : α → β} {x : ArgReader α} (h : ∀ a, P (f a)) :
    Yields P (f <$> x) := by
  intro args b hb
  obtain ⟨a, -, rfl⟩ := get_map hb
  exact h a

theorem yields_seq {P : β → Prop} {f : ArgReader (α → β)} {x : ArgReader α}
    (h : Yields (fun g => ∀ a, P (g a)) f) : Yields P (f <*> x) := by
  intro args b hb
  obtain ⟨g, a, hg, -, rfl⟩ := get_seq hb
  exact h args g hg a

/-- The arguments from `b` on, `n` of them, read through one member. -/
theorem fits_range {m : Member} {f : Arg → Option α}
    {hf : ∀ a, (f a).isSome = true ↔ a.member = m} {b n : ℕ} :
    Fits tags (many ((List.range n).map fun i => single m f hf (i + b))).reads ↔
      ∀ i < n, tags[i + b]? = some m := by
  rw [fits_many, List.forall_mem_map]
  simp only [List.mem_range, fits_single]

end ArgReader

end TelegramCli.Interface.Args
