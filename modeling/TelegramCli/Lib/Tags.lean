import TelegramCli.Lib.CString

/-! # Tags of a markup text

`tags` lists the tags of a text: one for each `<`, with its slash and its name. A text is `Settled`
when every tag's name ends inside the text, so that the tags of two texts in a row are the tags of
the one and then of the other (`tags_append`). `walk` follows the depth of the tags of a name, and
`Nested` says that it comes back to zero without falling below it. -/

namespace TelegramCli.Lib.Tags

open TelegramCli.Lib.CString

/-- `'<'`, `'>'` and `'/'`. -/
def lt : UInt8 := 60

@[inherit_doc lt] def gt : UInt8 := 62

@[inherit_doc lt] def slash : UInt8 := 47

/-- The bytes of a tag name. -/
def isName (c : UInt8) : Bool :=
  (48 ≤ c && c ≤ 57) || (65 ≤ c && c ≤ 90) || (97 ≤ c && c ≤ 122)

structure Tag where
  close : Bool
  name : List UInt8
  deriving DecidableEq, Repr

/-- The tag `<name`. -/
def opening (name : String) : Tag := ⟨false, lit name⟩

/-- The tag `</name`. -/
def closing (name : String) : Tag := ⟨true, lit name⟩

/-- The tag whose `<` stands in front of the text. -/
def tagAt : List UInt8 → Tag
  | [] => ⟨false, []⟩
  | c :: p => if c = slash then ⟨true, p.takeWhile isName⟩ else ⟨false, (c :: p).takeWhile isName⟩

def tags : List UInt8 → List Tag
  | [] => []
  | c :: p => if c = lt then tagAt p :: tags p else tags p

/-! ### Texts in a row -/

/-- The text behind a `<` goes on behind the tag's name. -/
def nameEnds : List UInt8 → Bool
  | [] => false
  | c :: p => if c = slash then p.any (!isName ·) else (c :: p).any (!isName ·)

/-- Every tag's name ends inside the text. -/
def Settled : List UInt8 → Prop
  | [] => True
  | c :: p => (c = lt → nameEnds p = true) ∧ Settled p

instance decidableSettled : DecidablePred Settled
  | [] => .isTrue trivial
  | c :: p =>
    have : Decidable (Settled p) := decidableSettled p
    inferInstanceAs (Decidable ((c = lt → nameEnds p = true) ∧ Settled p))

theorem takeWhile_append_of_any : ∀ {a : List UInt8} (b : List UInt8),
    a.any (!isName ·) = true → (a ++ b).takeWhile isName = a.takeWhile isName
  | [], _, h => by simp at h
  | c :: a, b, h => by
    rw [List.cons_append, List.takeWhile_cons, List.takeWhile_cons]
    split_ifs with hc
    · have ha : a.any (!isName ·) = true := by simpa [hc] using h
      rw [takeWhile_append_of_any b ha]
    · rfl

theorem tagAt_append {a : List UInt8} (b : List UInt8) (h : nameEnds a = true) :
    tagAt (a ++ b) = tagAt a := by
  cases a with
  | nil => simp [nameEnds] at h
  | cons c a =>
    rw [nameEnds] at h
    rw [List.cons_append, tagAt, tagAt]
    split_ifs at h ⊢ with hc
    · rw [takeWhile_append_of_any b h]
    · rw [← List.cons_append, takeWhile_append_of_any b h]

theorem tags_append : ∀ {a : List UInt8} (b : List UInt8),
    Settled a → tags (a ++ b) = tags a ++ tags b
  | [], _, _ => rfl
  | c :: a, b, ⟨hc, ha⟩ => by
    have ih := tags_append b ha
    rw [List.cons_append, tags, tags]
    split_ifs with h
    · rw [tagAt_append b (hc h), ih, List.cons_append]
    · exact ih

theorem settled_of_notMem : ∀ {a : List UInt8}, lt ∉ a → Settled a
  | [], _ => trivial
  | _ :: _, h => ⟨fun e => absurd (by simp [e]) h,
      settled_of_notMem fun e => h (List.mem_cons_of_mem _ e)⟩

theorem tags_of_notMem : ∀ {a : List UInt8}, lt ∉ a → tags a = []
  | [], _ => rfl
  | c :: a, h => by
    have hc : c ≠ lt := fun e => h (by simp [e])
    rw [tags, if_neg hc, tags_of_notMem fun e => h (List.mem_cons_of_mem _ e)]

theorem Settled.append : ∀ {a b : List UInt8}, Settled a → Settled b → Settled (a ++ b)
  | [], _, _, hb => hb
  | c :: a, b, ⟨hc, ha⟩, hb => by
    refine ⟨fun e => ?_, ha.append hb⟩
    have h := hc e
    cases a with
    | nil => simp [nameEnds] at h
    | cons d a =>
      show nameEnds (d :: (a ++ b)) = true
      rw [nameEnds] at h ⊢
      split_ifs at h ⊢
      · rw [List.any_append, h, Bool.true_or]
      · rw [← List.cons_append, List.any_append, h, Bool.true_or]

/-! ### Nesting -/

/-- The depth behind a tag; `none` when it falls below zero. -/
def step (name : List UInt8) (d : ℕ) (t : Tag) : Option ℕ :=
  if t.name ≠ name then some d
  else if t.close then (if d = 0 then none else some (d - 1))
  else some (d + 1)

/-- The depth the tags of a name lead to from depth `d`. -/
def walk (name : List UInt8) (d : ℕ) (ts : List Tag) : Option ℕ := ts.foldlM (step name) d

/-- **Nested**: the depth never falls below zero and is zero at the end. -/
def Nested (name : List UInt8) (ts : List Tag) : Prop := walk name 0 ts = some 0

instance (name : List UInt8) (ts : List Tag) : Decidable (Nested name ts) := by
  unfold Nested; infer_instance

/-- One walk after the other. -/
theorem walk_append (name : List UInt8) (d : ℕ) (s t : List Tag) :
    walk name d (s ++ t) = (walk name d s).bind fun e => walk name e t := List.foldlM_append

/-- The other tags do not matter. -/
theorem walk_filter (name : List UInt8) {keep : Tag → Bool}
    (hkeep : ∀ t : Tag, t.name = name → keep t = true) :
    ∀ (d : ℕ) (ts : List Tag), walk name d (ts.filter keep) = walk name d ts
  | _, [] => rfl
  | d, t :: ts => by
    have ih := fun e => walk_filter name hkeep e ts
    simp only [walk] at ih ⊢
    by_cases hk : keep t = true
    · rw [List.filter_cons_of_pos hk, List.foldlM_cons, List.foldlM_cons]
      exact congrArg _ (funext ih)
    · have ht : t.name ≠ name := fun e => hk (hkeep t e)
      have hstep : step name d t = some d := if_pos ht
      rw [List.filter_cons_of_neg hk, List.foldlM_cons, hstep]
      exact ih d

end TelegramCli.Lib.Tags
