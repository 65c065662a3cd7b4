import TelegramCli.Lib.CString
import TelegramCli.Lib.Lines
import TelegramCli.Lib.Tags

/-! # Escaping for the archive

`htmlspecialchars` replaces `<`, `>`, `"` and `&` by character references, `nl2br` replaces newlines
by `<br/>`. What the first one prints is `Inert`, with no tag and no other reference in it
(`inert_htmlspecialchars`), and it prints a string unchanged exactly when there is nothing to
replace (`htmlspecialchars_eq_self_iff`). -/

namespace TelegramCli.Telegrab.Escape

open TelegramCli.Lib.CString TelegramCli.Lib.Tags TelegramCli.Lib.Lines

/-- `'"'`, `'&'` and `'\n'`. -/
def quot : UInt8 := 34

@[inherit_doc quot] def amp : UInt8 := 38

@[inherit_doc quot] def nl : UInt8 := 10

/-! ### The functions -/

/-- `strstr`: where `rep` first occurs. -/
def strstr (rep : List UInt8) : List UInt8 → Option ℕ
  | [] => if rep.isPrefixOf [] then some 0 else none
  | c :: p => if rep.isPrefixOf (c :: p) then some 0 else (strstr rep p).map (· + 1)

/-- The counting loop of `str_replace`; an occurrence of `rep` takes at least one byte, so the
length of the string is fuel enough. -/
def countRep (rep : List UInt8) : ℕ → List UInt8 → ℕ
  | 0, _ => 0
  | fuel + 1, ins =>
    match strstr rep ins with
    | none => 0
    | some i => countRep rep fuel (ins.drop (i + rep.length)) + 1

/-- The copying loop of `str_replace`. -/
def replaceLoop (rep new : List UInt8) : ℕ → List UInt8 → List UInt8
  | 0, orig => orig
  | count + 1, orig =>
    let lenFront := (strstr rep orig).getD 0
    orig.take lenFront ++ new ++ replaceLoop rep new count (orig.drop (lenFront + rep.length))

def strReplace (orig rep new : List UInt8) : List UInt8 :=
  replaceLoop rep new (countRep rep orig.length orig) orig

def nl2br (src : List UInt8) : List UInt8 := strReplace src [nl] (lit "<br/>")

def htmlspecialchars : List UInt8 → List UInt8
  | [] => []
  | c :: p =>
    if c = lt then lit "&lt;" ++ htmlspecialchars p
    else if c = gt then lit "&gt;" ++ htmlspecialchars p
    else if c = quot then lit "&quot;" ++ htmlspecialchars p
    else if c = amp then lit "&amp;" ++ htmlspecialchars p
    else c :: htmlspecialchars p

/-! ### Newlines -/

/-- The first occurrence, when its first byte does not stand before it. -/
theorem strstr_append {d : UInt8} (rep : List UInt8) {a : List UInt8} (s : List UInt8)
    (ha : d ∉ a) : strstr (d :: rep) (a ++ (d :: rep ++ s)) = some a.length := by
  induction a with
  | nil =>
    have hp : (d :: rep).isPrefixOf (d :: rep ++ s) = true :=
      List.isPrefixOf_iff_prefix.mpr (List.prefix_append _ s)
    rw [List.nil_append, List.cons_append, strstr, ← List.cons_append, if_pos hp]
    rfl
  | cons c a ih =>
    have hc : d ≠ c := fun e => ha (by simp [e])
    have ih := ih fun e => ha (List.mem_cons_of_mem _ e)
    rw [List.cons_append, strstr, if_neg (by simp [hc]), ih]
    rfl

theorem strstr_of_notMem {d : UInt8} (rep : List UInt8) {a : List UInt8} (ha : d ∉ a) :
    strstr (d :: rep) a = none := by
  induction a with
  | nil => rfl
  | cons c a ih =>
    have hc : d ≠ c := fun e => ha (by simp [e])
    rw [strstr, if_neg (by simp [hc]), ih fun e => ha (List.mem_cons_of_mem _ e)]
    rfl

theorem strstr_line {a : List UInt8} (s : List UInt8) (ha : nl ∉ a) :
    strstr [nl] (a ++ nl :: s) = some a.length := strstr_append [] s ha

theorem drop_line (a s : List UInt8) : (a ++ nl :: s).drop (a.length + [nl].length) = s := by
  rw [← List.drop_drop, List.drop_left]; rfl

theorem flatMap_of_notMem (new : List UInt8) {a : List UInt8} (ha : nl ∉ a) :
    (a.flatMap fun c => if c = nl then new else [c]) = a := by
  have hid : ∀ c ∈ a, (if c = nl then new else [c]) = [c] := fun c hc =>
    if_neg fun e : c = nl => ha (e ▸ hc)
  rw [List.flatMap_congr hid, List.flatMap_singleton']

/-- Replacing newlines is replacing each newline. -/
theorem strReplace_nl (new s : List UInt8) :
    strReplace s [nl] new = s.flatMap fun c => if c = nl then new else [c] := by
  suffices h : ∀ fuel, s.length ≤ fuel → replaceLoop [nl] new (countRep [nl] fuel s) s =
      s.flatMap fun c => if c = nl then new else [c] from h _ le_rfl
  induction s using line_induction (n := nl) with
  | open_ a ha =>
    intro fuel _
    cases fuel with
    | zero => rw [countRep, replaceLoop, flatMap_of_notMem new ha]
    | succ fuel =>
      simp only [countRep, strstr_of_notMem [] ha, replaceLoop, flatMap_of_notMem new ha]
  | line a s ha ih =>
    intro fuel hfuel
    cases fuel with
    | zero => simp at hfuel
    | succ fuel =>
      simp only [countRep, strstr_line s ha, replaceLoop, Option.getD_some, drop_line]
      rw [ih fuel (by simp at hfuel; omega), List.take_left, List.flatMap_append,
        flatMap_of_notMem new ha, List.flatMap_cons, if_pos rfl, List.append_assoc]

theorem nl2br_eq (s : List UInt8) :
    nl2br s = s.flatMap fun c => if c = nl then lit "<br/>" else [c] := strReplace_nl _ s

theorem nl2br_of_notMem {s : List UInt8} (h : nl ∉ s) : nl2br s = s := by
  rw [nl2br_eq, flatMap_of_notMem _ h]

theorem length_nl2br (s : List UInt8) : (nl2br s).length = s.length + 4 * s.count nl := by
  have hbr : (lit "<br/>").length = 5 := by decide
  rw [nl2br_eq]
  induction s with
  | nil => rfl
  | cons c s ih =>
    rw [List.flatMap_cons, List.length_append, ih, List.length_cons, List.count_cons]
    by_cases h : c = nl
    · rw [if_pos h, hbr, if_pos (by simp [h])]; omega
    · rw [if_neg h, if_neg (by simp [h]), List.length_singleton]; omega

/-- Newlines are not escaped. -/
theorem nl_mem_htmlspecialchars (s : List UInt8) : nl ∈ htmlspecialchars s ↔ nl ∈ s := by
  induction s with
  | nil => rfl
  | cons c p ih =>
    have hskip : ∀ r : List UInt8, nl ∉ r → c ≠ nl →
        (nl ∈ r ++ htmlspecialchars p ↔ nl ∈ c :: p) := by
      intro r hr hc
      rw [List.mem_append, List.mem_cons, ih, or_iff_right hr, or_iff_right (Ne.symm hc)]
    rw [htmlspecialchars]
    split_ifs with hl hg hq ha
    · exact hskip _ (by decide) (hl ▸ by decide)
    · exact hskip _ (by decide) (hg ▸ by decide)
    · exact hskip _ (by decide) (hq ▸ by decide)
    · exact hskip _ (by decide) (ha ▸ by decide)
    · rw [List.mem_cons, List.mem_cons, ih]

/-! ### Inert text -/

/-- None of the bytes `htmlspecialchars` replaces. -/
def Plain (s : List UInt8) : Prop := lt ∉ s ∧ gt ∉ s ∧ quot ∉ s ∧ amp ∉ s

instance (s : List UInt8) : Decidable (Plain s) := by unfold Plain; infer_instance

/-- What may stand behind a `&`. -/
def references : List (List UInt8) := [lit "lt;", lit "gt;", lit "quot;", lit "amp;"]

/-- No tag, and no `&` but in front of a reference. -/
def Inert : List UInt8 → Prop
  | [] => True
  | c :: p => c ≠ lt ∧ c ≠ gt ∧ (c = amp → ∃ r ∈ references, r <+: p) ∧ Inert p

theorem inert_cons {c : UInt8} {p : List UInt8} (hl : c ≠ lt) (hg : c ≠ gt) (ha : c ≠ amp)
    (hp : Inert p) : Inert (c :: p) := ⟨hl, hg, fun e => absurd e ha, hp⟩

theorem Inert.append_plain : ∀ {r p : List UInt8}, Plain r → Inert p → Inert (r ++ p)
  | [], _, _, hp => hp
  | c :: r, _, ⟨hl, hg, hq, ha⟩, hp => by
    have ih : Inert (r ++ _) := Inert.append_plain
      ⟨fun e => hl (List.mem_cons_of_mem _ e), fun e => hg (List.mem_cons_of_mem _ e),
        fun e => hq (List.mem_cons_of_mem _ e), fun e => ha (List.mem_cons_of_mem _ e)⟩ hp
    exact inert_cons (fun e => hl (by simp [e])) (fun e => hg (by simp [e]))
      (fun e => ha (by simp [e])) ih

theorem inert_reference {r p : List UInt8} (h : r ∈ references) (hr : Plain r) (hp : Inert p) :
    Inert (amp :: (r ++ p)) :=
  ⟨by decide, by decide, fun _ => ⟨r, h, List.prefix_append r p⟩, Inert.append_plain hr hp⟩

/-- **Escaped text is inert.** -/
theorem inert_htmlspecialchars : ∀ s : List UInt8, Inert (htmlspecialchars s)
  | [] => trivial
  | c :: p => by
    have ih := inert_htmlspecialchars p
    rw [htmlspecialchars]
    split_ifs with hl hg hq ha
    · exact inert_reference (r := lit "lt;") (by decide) (by decide) ih
    · exact inert_reference (r := lit "gt;") (by decide) (by decide) ih
    · exact inert_reference (r := lit "quot;") (by decide) (by decide) ih
    · exact inert_reference (r := lit "amp;") (by decide) (by decide) ih
    · exact inert_cons hl hg ha ih

theorem Inert.lt_notMem : ∀ {s : List UInt8}, Inert s → lt ∉ s
  | [], _ => List.not_mem_nil
  | c :: p, ⟨hl, _, _, hp⟩ => by
    have ih := hp.lt_notMem
    simp [ih, Ne.symm hl]

/-- The bytes that escaping adds. -/
def added (s : List UInt8) : ℕ :=
  3 * (s.count lt + s.count gt) + 5 * s.count quot + 4 * s.count amp

theorem added_cons (c : UInt8) (p : List UInt8) : added (c :: p) = added p +
    if c = lt ∨ c = gt then 3 else if c = quot then 5 else if c = amp then 4 else 0 := by
  unfold added
  rw [List.count_cons, List.count_cons, List.count_cons, List.count_cons]
  simp only [beq_iff_eq]
  by_cases hl : c = lt
  · subst hl
    rw [if_pos rfl, if_neg (by decide), if_neg (by decide), if_neg (by decide), if_pos (.inl rfl)]
    omega
  by_cases hg : c = gt
  · subst hg
    rw [if_neg (by decide), if_pos rfl, if_neg (by decide), if_neg (by decide), if_pos (.inr rfl)]
    omega
  rw [if_neg hl, if_neg hg, if_neg (not_or.mpr ⟨hl, hg⟩)]
  by_cases hq : c = quot
  · subst hq
    rw [if_pos rfl, if_neg (by decide), if_pos rfl]
    omega
  rw [if_neg hq, if_neg hq]
  split_ifs <;> omega

/-- **The length of an escaped text.** -/
theorem length_htmlspecialchars_eq (s : List UInt8) :
    (htmlspecialchars s).length = s.length + added s := by
  induction s with
  | nil => rfl
  | cons c p ih =>
    have h4 : (lit "&lt;").length = 4 := by decide
    have h4' : (lit "&gt;").length = 4 := by decide
    have h6 : (lit "&quot;").length = 6 := by decide
    have h5 : (lit "&amp;").length = 5 := by decide
    rw [htmlspecialchars, added_cons, List.length_cons]
    by_cases hl : c = lt
    · rw [if_pos hl, if_pos (.inl hl), List.length_append, ih]
      omega
    by_cases hg : c = gt
    · rw [if_neg hl, if_pos hg, if_pos (.inr hg), List.length_append, ih]
      omega
    rw [if_neg hl, if_neg hg, if_neg (not_or.mpr ⟨hl, hg⟩)]
    by_cases hq : c = quot
    · rw [if_pos hq, if_pos hq, List.length_append, ih]
      omega
    by_cases ha : c = amp
    · rw [if_neg hq, if_pos ha, if_neg hq, if_pos ha, List.length_append, ih]
      omega
    · rw [if_neg hq, if_neg ha, if_neg hq, if_neg ha, List.length_cons, ih]
      omega

theorem length_htmlspecialchars (s : List UInt8) : s.length ≤ (htmlspecialchars s).length := by
  rw [length_htmlspecialchars_eq]
  exact Nat.le_add_right _ _

/-- **A string in its own escaped form** is one with nothing to replace. -/
theorem htmlspecialchars_eq_self_iff : ∀ s : List UInt8, htmlspecialchars s = s ↔ Plain s
  | [] => by simp [htmlspecialchars, Plain]
  | c :: p => by
    have ih := htmlspecialchars_eq_self_iff p
    have hlen := length_htmlspecialchars p
    -- a replaced byte makes the string longer
    have hlong : ∀ r : List UInt8, 2 ≤ r.length → r ++ htmlspecialchars p ≠ c :: p := by
      intro r hr e
      have := congrArg List.length e
      rw [List.length_append, List.length_cons] at this
      omega
    rw [htmlspecialchars]
    split_ifs with hl hg hq ha
    · exact iff_of_false (hlong _ (by decide)) fun h => h.1 (by simp [hl])
    · exact iff_of_false (hlong _ (by decide)) fun h => h.2.1 (by simp [hg])
    · exact iff_of_false (hlong _ (by decide)) fun h => h.2.2.1 (by simp [hq])
    · exact iff_of_false (hlong _ (by decide)) fun h => h.2.2.2 (by simp [ha])
    · rw [List.cons.injEq, ih]
      simp only [true_and, Plain, List.mem_cons, not_or]
      exact ⟨fun ⟨h1, h2, h3, h4⟩ => ⟨⟨Ne.symm hl, h1⟩, ⟨Ne.symm hg, h2⟩, ⟨Ne.symm hq, h3⟩,
        ⟨Ne.symm ha, h4⟩⟩, fun ⟨⟨_, h1⟩, ⟨_, h2⟩, ⟨_, h3⟩, ⟨_, h4⟩⟩ => ⟨h1, h2, h3, h4⟩⟩

end TelegramCli.Telegrab.Escape
