import Mathlib.Tactic

/-! # Generators that are fed their index

A generator gives an element and an index, and is called again with that index until it gives
nothing; `none` is a failed call. If a function tells for every index what is left to give, it tells
what the calls yield (`feeds_iff`). The last call leaves an index of its own (`FeedsTo.last`).

`scan` is the loop that looks for the next element of a kind, and `hits` are the places it stops
at. -/

namespace TelegramCli.Lib.Cursor

variable {α β σ : Type*}

/-! ### Generators -/

/-- The calls from an index on yield the elements, and then nothing. -/
inductive Feeds (next : σ → Option (Option β × σ)) : σ → List β → Prop
  | stop {s t : σ} : next s = some (none, t) → Feeds next s []
  | yield {s t : σ} {b : β} {bs : List β} : next s = some (some b, t) → Feeds next t bs →
    Feeds next s (b :: bs)

/-- A call takes the first element of what is left; where that is missing, it fails. -/
inductive Takes (next : σ → Option (Option β × σ)) (left : σ → List (Option β)) (Valid : σ → Prop)
    (s : σ) : Prop
  | stop (t : σ) : next s = some (none, t) → left s = [] → Takes next left Valid s
  | yield (b : β) (t : σ) : next s = some (some b, t) → Valid t → left s = some b :: left t →
    Takes next left Valid s
  | fail (l : List (Option β)) : next s = none → left s = none :: l → Takes next left Valid s

/-- **The calls yield what is left**, if nothing is missing in it. -/
theorem feeds_iff {next : σ → Option (Option β × σ)} {left : σ → List (Option β)}
    {Valid : σ → Prop} (h : ∀ s, Valid s → Takes next left Valid s) : ∀ {bs : List β} {s : σ},
    Valid s → (Feeds next s bs ↔ left s = bs.map some)
  | bs, s, hs => by
    rcases h s hs with ⟨t, hnext, hleft⟩ | ⟨b, t, hnext, ht, hleft⟩ | ⟨l, hnext, hleft⟩
    · rw [hleft]
      constructor
      · rintro (_ | ⟨hyield, -⟩)
        · rfl
        · rw [hnext] at hyield
          cases hyield
      · intro hbs
        rw [List.map_eq_nil_iff.mp hbs.symm]
        exact .stop hnext
    · rw [hleft]
      constructor
      · rintro (hstop | ⟨hyield, hfeeds⟩)
        · rw [hnext] at hstop
          cases hstop
        · rw [hnext] at hyield
          cases hyield
          rw [List.map_cons, (feeds_iff h ht).mp hfeeds]
      · intro hbs
        cases bs with
        | nil => cases hbs
        | cons c bs =>
          obtain ⟨hc, htail⟩ := List.cons.inj hbs
          cases hc
          exact .yield hnext ((feeds_iff h ht).mpr htail)
    · rw [hleft]
      refine iff_of_false ?_ fun hbs => ?_
      · rintro (hstop | ⟨hyield, -⟩)
        · rw [hnext] at hstop
          cases hstop
        · rw [hnext] at hyield
          cases hyield
      · cases bs <;> cases hbs

/-- The calls yield the elements, and the last one leaves the second index. -/
inductive FeedsTo (next : σ → Option (Option β × σ)) : σ → List β → σ → Prop
  | stop {s t : σ} : next s = some (none, t) → FeedsTo next s [] t
  | yield {s t u : σ} {b : β} {bs : List β} : next s = some (some b, t) → FeedsTo next t bs u →
    FeedsTo next s (b :: bs) u

theorem feeds_iff_feedsTo {next : σ → Option (Option β × σ)} {s : σ} {bs : List β} :
    Feeds next s bs ↔ ∃ t, FeedsTo next s bs t := by
  constructor
  · intro h
    induction h with
    | stop hstop => exact ⟨_, .stop hstop⟩
    | yield hyield _ ih =>
      obtain ⟨t, ht⟩ := ih
      exact ⟨t, .yield hyield ht⟩
  · rintro ⟨t, h⟩
    induction h with
    | stop hstop => exact .stop hstop
    | yield hyield _ ih => exact .yield hyield ih

/-- **The last call** begins with an index that has what every call keeps. -/
theorem FeedsTo.last {next : σ → Option (Option β × σ)} {P : σ → Prop}
    (hkeep : ∀ s b t, P s → next s = some (some b, t) → P t) {s t : σ} {bs : List β}
    (h : FeedsTo next s bs t) (hs : P s) : ∃ u, P u ∧ next u = some (none, t) := by
  induction h with
  | stop hstop => exact ⟨_, hs, hstop⟩
  | yield hyield _ ih => exact ih (hkeep _ _ _ hs hyield)

/-! ### The next element of a kind -/

/-- `while (i < n && !p (xs[i])) { i ++; }`. -/
def scan (p : α → Bool) (xs : List α) (i : ℕ) : ℕ :=
  if h : i < xs.length then if p xs[i] then i else scan p xs (i + 1) else i
termination_by xs.length - i

/-- The places from `i` on of the elements of the kind. -/
def hits (p : α → Bool) (xs : List α) (i : ℕ) : List ℕ :=
  if h : i < xs.length then if p xs[i] then i :: hits p xs (i + 1) else hits p xs (i + 1) else []
termination_by xs.length - i

variable {p : α → Bool} {xs : List α}

/-- **The loop** stops at the first place that is left, or behind the end. -/
theorem scan_cases (p : α → Bool) (xs : List α) (i : ℕ) :
    (∃ x, xs[scan p xs i]? = some x ∧ i ≤ scan p xs i ∧
      hits p xs i = scan p xs i :: hits p xs (scan p xs i + 1)) ∨
    xs[scan p xs i]? = none ∧ scan p xs i = max i xs.length ∧ hits p xs i = [] := by
  induction i using scan.induct p xs with
  | case1 i h hp =>
    have hscan : scan p xs i = i := by rw [scan, dif_pos h, if_pos hp]
    rw [hscan]
    refine .inl ⟨xs[i], List.getElem?_eq_getElem h, le_rfl, ?_⟩
    rw [hits, dif_pos h, if_pos hp]
  | case2 i h hp ih =>
    have hscan : scan p xs i = scan p xs (i + 1) := by rw [scan, dif_pos h, if_neg hp]
    have hhits : hits p xs i = hits p xs (i + 1) := by rw [hits, dif_pos h, if_neg hp]
    rw [hscan, hhits]
    rcases ih with ⟨x, hx, hle, hmore⟩ | ⟨hnone, hmax, hnil⟩
    · exact .inl ⟨x, hx, Nat.le_of_succ_le hle, hmore⟩
    · exact .inr ⟨hnone, by omega, hnil⟩
  | case3 i h =>
    have hscan : scan p xs i = i := by rw [scan, dif_neg h]
    rw [hscan]
    refine .inr ⟨List.getElem?_eq_none (by omega), by omega, ?_⟩
    rw [hits, dif_neg h]

theorem hits_of_le {i : ℕ} (h : xs.length ≤ i) : hits p xs i = [] := by
  rw [hits, dif_neg (by omega)]

/-- The elements at the places. -/
theorem hits_get (p : α → Bool) (xs : List α) (i : ℕ) :
    ((hits p xs i).map fun x => xs[x]?) = ((xs.drop i).filter p).map some := by
  induction i using hits.induct p xs with
  | case1 i h hp ih =>
    rw [hits, dif_pos h, if_pos hp, List.drop_eq_getElem_cons h, List.filter_cons_of_pos hp,
      List.map_cons, List.map_cons, ih, List.getElem?_eq_getElem h]
  | case2 i h hp ih =>
    rw [hits, dif_pos h, if_neg hp, List.drop_eq_getElem_cons h, List.filter_cons_of_neg hp, ih]
  | case3 i h =>
    rw [hits_of_le (by omega), List.drop_eq_nil_of_le (by omega)]
    rfl

theorem mem_hits {i x : ℕ} :
    x ∈ hits p xs i ↔ i ≤ x ∧ ∃ a, xs[x]? = some a ∧ p a = true := by
  induction i using hits.induct p xs with
  | case1 i h hp ih =>
    rw [hits, dif_pos h, if_pos hp, List.mem_cons, ih]
    constructor
    · rintro (rfl | ⟨hle, hx⟩)
      · exact ⟨le_rfl, xs[x], List.getElem?_eq_getElem h, hp⟩
      · exact ⟨by omega, hx⟩
    · rintro ⟨hle, hx⟩
      rcases Nat.eq_or_lt_of_le hle with rfl | hlt
      · exact .inl rfl
      · exact .inr ⟨hlt, hx⟩
  | case2 i h hp ih =>
    rw [hits, dif_pos h, if_neg hp, ih]
    constructor
    · rintro ⟨hle, hx⟩
      exact ⟨by omega, hx⟩
    · rintro ⟨hle, a, ha, hpa⟩
      refine ⟨Nat.lt_of_le_of_ne hle ?_, a, ha, hpa⟩
      rintro rfl
      rw [List.getElem?_eq_getElem h] at ha
      cases ha
      exact hp hpa
  | case3 i h =>
    rw [hits_of_le (by omega)]
    refine iff_of_false List.not_mem_nil ?_
    rintro ⟨hle, a, ha, -⟩
    have hlt := (List.getElem?_eq_some_iff.mp ha).1
    omega

end TelegramCli.Lib.Cursor
