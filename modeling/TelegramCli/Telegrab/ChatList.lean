import TelegramCli.Lib.CNumber
import TelegramCli.Telegrab.Escape

/-! # The list of chats

`add_to_list` reads the list file, moves the entry of its chat to the front or adds one there, and
writes the file again. The file is a header line with the number of entries and a line for each; an
entry starts with the id of its chat. `total` is a number without a bound.

The reader gives back what the writer wrote exactly when every entry is one line that `fgets` takes
whole (`readListing_lines`, `clean_of_readListing`). -/

namespace TelegramCli.Telegrab.ChatList

open TelegramCli.Lib.CNumber TelegramCli.Lib.CString TelegramCli.Telegrab.Escape

/-- What `add_to_list` is told: the id of the peer, a title and a file name. -/
structure Chat where
  id : BitVec 32
  title : List UInt8
  file : List UInt8
  deriving DecidableEq, Repr

/-- `total`, and `lines` from 1 on. -/
structure Listing where
  total : ℤ
  lines : List (List UInt8)

/-! ### The file functions of the C library -/

/-- The bytes up to a newline, at most `n`, and what follows them. -/
def takeLine : ℕ → List UInt8 → List UInt8 × List UInt8
  | 0, s => ([], s)
  | _ + 1, [] => ([], [])
  | n + 1, c :: s =>
    if c = nl then ([c], s)
    else (c :: (takeLine n s).1, (takeLine n s).2)

/-- `fgets (buf, size, fp)`; at the end of the file `buf` stays as it is. -/
def fgets (size : ℕ) (buf s : List UInt8) : List UInt8 × List UInt8 :=
  if s = [] then (buf, []) else takeLine (size - 1) s

/-- `sscanf` of `%*s %d`. -/
def scanNumber (s : List UInt8) : Option ℤ :=
  let word := s.dropWhile isSpace
  if word = [] then none
  else
    let (neg, p) := takeSign ((word.dropWhile (!isSpace ·)).dropWhile isSpace)
    let (v, q) := scanDigits 10 0 p
    if q.length = p.length then none else some (if neg then -v else v)

/-! ### `add_to_list` -/

/-- The size of `buf` and of a new line. -/
def size : ℕ := 4096

/-- The entries, read one by one. -/
def readLines : ℕ → List UInt8 → List UInt8 → List (List UInt8)
  | 0, _, _ => []
  | n + 1, buf, s => (fgets size buf s).1 :: readLines n (fgets size buf s).1 (fgets size buf s).2

/-- The file is read; `none` when `total` stays undefined. -/
def readListing (content : List UInt8) : Option Listing :=
  let (buf, s) := fgets size [] content
  (scanNumber buf).map fun total => ⟨total, readLines total.toNat buf s⟩

/-- The first entry with the id; the outer `none` when an `eid` stays undefined. -/
def findEntry (id : ℤ) : List (List UInt8) → Option (Option ℕ)
  | [] => some none
  | l :: ls =>
    match scanNumber l with
    | none => none
    | some eid => if eid = id then some (some 0) else (findEntry id ls).map (Option.map (· + 1))

/-- The entry `i` and the first one are swapped. -/
def swapFirst {α : Type} (l : List α) (i : ℕ) : List α :=
  match l[i]?, l[0]? with
  | some x, some y => (l.set i y).set 0 x
  | _, _ => l

/-- The first entry goes to the end, in front comes a new one. -/
def pushFirst {α : Type} (x : α) : List α → List α
  | [] => [x]
  | y :: l => x :: (l ++ [y])

/-- The line of a new entry. -/
def render (c : Chat) : List UInt8 :=
  lit "<!--peerid: " ++ decimal c.id.toInt ++
    lit " --><a class='list' target='content' href='../../" ++ c.file ++
    lit "'><object class='icon' data='avatars/" ++ decimal c.id.toInt ++
    lit ".jpg' type='image/jpg'><img class='icon' src='avatars/default.jpg' /></object>" ++
    htmlspecialchars c.title ++ lit "</a>\n"

/-- The title and the new line fit into the memory allocated for them. -/
def Fits (c : Chat) : Prop :=
  (htmlspecialchars c.title).length < c.title.length * 2 ∧ (render c).length < size

instance (c : Chat) : Decidable (Fits c) := by unfold Fits; infer_instance

/-- `add_to_list`: the entries it writes and what it returns. With `checked`, a text that does not
fit into its memory is undefined. -/
def addToList (checked : Bool) (content : List UInt8) (c : Chat) : Option (Listing × Bool) := do
  let L ← readListing content
  match ← findEntry c.id.toInt L.lines with
  | some i => return (⟨L.total, swapFirst L.lines i⟩, false)
  | none =>
    if checked && !decide (Fits c) then none
    else return (⟨L.total + 1, pushFirst (render c) L.lines⟩, true)

def header (total : ℤ) : List UInt8 :=
  lit "<!--total: " ++ decimal total ++ lit " --><link rel='stylesheet' href='list_style.css' />    \n"

/-- The file that is written. -/
def Listing.write (L : Listing) : List UInt8 := header L.total ++ L.lines.flatten

/-- The file of `initialize_frameset`. -/
def initialList : List UInt8 := lit "<!--total: 0 #will be updated below-->\n"

/-! ### Reading lines -/

/-- A line that `fgets` takes whole: its only newline is its last byte. -/
structure Clean (l : List UInt8) : Prop where
  last : ∃ a, l = a ++ [nl] ∧ nl ∉ a
  short : l.length < size

theorem takeLine_line : ∀ {n : ℕ} {a : List UInt8} (s : List UInt8), nl ∉ a → a.length < n →
    takeLine n (a ++ nl :: s) = (a ++ [nl], s)
  | 0, _, _, _, h => absurd h (Nat.not_lt_zero _)
  | n + 1, [], s, _, _ => by rw [List.nil_append, takeLine, if_pos rfl]; rfl
  | n + 1, c :: a, s, ha, h => by
    rw [List.mem_cons, not_or] at ha
    rw [List.length_cons] at h
    rw [List.cons_append, takeLine, if_neg (Ne.symm ha.1), takeLine_line s ha.2 (by omega)]
    rfl

theorem takeLine_length : ∀ (n : ℕ) (s : List UInt8), (takeLine n s).1.length ≤ n
  | 0, _ => le_rfl
  | n + 1, [] => Nat.zero_le _
  | n + 1, c :: s => by
    have ih := takeLine_length n s
    rw [takeLine]
    split_ifs
    · simp
    · rw [List.length_cons]
      omega

/-- A newline ends what is taken. -/
theorem takeLine_newline : ∀ {n : ℕ} {s a b : List UInt8}, (takeLine n s).1 = a ++ nl :: b → b = []
  | 0, _, a, b, h => by simp [takeLine] at h
  | n + 1, [], a, b, h => by simp [takeLine] at h
  | n + 1, c :: s, a, b, h => by
    rw [takeLine] at h
    split_ifs at h with hc
    · cases a with
      | nil => exact (List.cons.inj h).2.symm
      | cons d a => simp at h
    · cases a with
      | nil => simp only [List.nil_append, List.cons.injEq] at h; exact absurd h.1 hc
      | cons d a =>
        simp only [List.cons_append, List.cons.injEq] at h
        exact takeLine_newline h.2

/-- A line that ends with a newline is clean when nothing before it is one. -/
theorem clean_append_iff {a : List UInt8} :
    Clean (a ++ [nl]) ↔ nl ∉ a ∧ a.length + 1 < size := by
  constructor
  · rintro ⟨⟨b, hb, hnl⟩, hshort⟩
    rw [List.length_append, List.length_singleton] at hshort
    exact ⟨(List.append_inj_left' hb rfl) ▸ hnl, hshort⟩
  · rintro ⟨ha, hlt⟩
    exact ⟨⟨a, rfl, ha⟩, by rwa [List.length_append, List.length_singleton]⟩

instance (l : List UInt8) : Decidable (Clean l) :=
  decidable_of_iff (l.getLast? = some nl ∧ nl ∉ l.dropLast ∧ l.length < size) <| by
    constructor
    · rintro ⟨hlast, hnl, hshort⟩
      exact ⟨⟨l.dropLast, (List.dropLast_append_getLast? nl hlast).symm, hnl⟩, hshort⟩
    · rintro ⟨⟨a, rfl, ha⟩, hshort⟩
      exact ⟨List.getLast?_concat, by rwa [List.dropLast_concat], hshort⟩

theorem fgets_clean {l : List UInt8} (h : Clean l) (buf s : List UInt8) :
    fgets size buf (l ++ s) = (l, s) := by
  obtain ⟨a, rfl, ha⟩ := h.last
  have hshort := h.short
  rw [List.length_append, List.length_singleton] at hshort
  rw [fgets, if_neg (by simp), List.append_assoc, List.singleton_append,
    takeLine_line s ha (by omega)]

theorem readLines_clean : ∀ {ls : List (List UInt8)} (buf : List UInt8), (∀ l ∈ ls, Clean l) →
    readLines ls.length buf ls.flatten = ls
  | [], _, _ => rfl
  | l :: ls, buf, h => by
    have ih := readLines_clean l fun x hx => h x (List.mem_cons_of_mem l hx)
    rw [List.length_cons, List.flatten_cons, readLines, fgets_clean (h l List.mem_cons_self), ih]

/-! ### Reading numbers -/

theorem scanNumber_word {w : List UInt8} (hne : w ≠ []) (hword : w.any isSpace = false) (x : ℤ)
    {c : UInt8} (s : List UInt8) (hc : 10 ≤ digitVal c) :
    scanNumber (w ++ 32 :: (decimal x ++ c :: s)) = some x := by
  have hw : ∀ c ∈ w, isSpace c = false := fun c hc => by simpa using List.any_eq_false.mp hword c hc
  obtain ⟨d, v, rfl⟩ := List.exists_cons_of_ne_nil hne
  have hword : (d :: v ++ 32 :: (decimal x ++ c :: s)).dropWhile isSpace =
      d :: v ++ 32 :: (decimal x ++ c :: s) := by
    rw [List.cons_append, List.dropWhile_cons_of_neg (by simp [hw d List.mem_cons_self])]
  have hskip : (d :: v ++ 32 :: (decimal x ++ c :: s)).dropWhile (!isSpace ·) =
      32 :: (decimal x ++ c :: s) := by
    rw [List.dropWhile_append_of_pos fun b hb => by simp [hw b hb]]
    rfl
  have hspace : (32 :: (decimal x ++ c :: s)).dropWhile isSpace = decimal x ++ c :: s := by
    rw [List.dropWhile_cons_of_pos (by decide), dropWhile_isSpace_decimal]
  have hlen := List.length_pos_of_ne_nil (decimalNat_ne_nil x.natAbs)
  unfold scanNumber
  simp only [hword, hskip, hspace, takeSign_decimal, scanDigits_decimalNat _ _ hc]
  rw [if_neg (by simp), if_neg (by rw [List.length_append]; omega)]
  by_cases hx : x < 0
  · simp only [decide_eq_true hx, if_true, Option.some.injEq]
    omega
  · simp only [decide_eq_false hx, if_neg Bool.false_ne_true, Option.some.injEq]
    omega

theorem scanNumber_header (total : ℤ) : scanNumber (header total) = some total := by
  have hsplit : header total = lit "<!--total:" ++ 32 :: (decimal total ++
      32 :: lit "--><link rel='stylesheet' href='list_style.css' />    \n") := by
    unfold header
    rw [List.append_assoc]
    rfl
  rw [hsplit]
  exact scanNumber_word (by decide) (by decide) total _ (by decide)

theorem scanNumber_render (c : Chat) : scanNumber (render c) = some c.id.toInt := by
  unfold render
  simp only [List.append_assoc]
  exact scanNumber_word (w := lit "<!--peerid:") (by decide) (by decide) c.id.toInt _ (by decide)

theorem decimal_length {x : ℤ} (h : x.natAbs < 10 ^ 10) : (decimal x).length ≤ 11 := by
  have hnat : (decimalNat x.natAbs).length ≤ 10 := by
    unfold decimalNat
    split_ifs
    · simp
    · rw [List.length_map, List.length_reverse, Nat.digits_length_le_iff (by omega)]
      exact h
  unfold decimal
  split_ifs
  · rw [List.length_cons]
    omega
  · omega

theorem decimal_newline (x : ℤ) : nl ∉ decimal x := notMem_decimal (by decide) (by decide) x

theorem header_clean {total : ℤ} (h : total.natAbs < 10 ^ 10) : Clean (header total) := by
  have hlen := decimal_length h
  refine ⟨⟨lit "<!--total: " ++ decimal total ++
    lit " --><link rel='stylesheet' href='list_style.css' />    ", ?_, ?_⟩, ?_⟩
  · unfold header
    simp only [List.append_assoc]
    rfl
  · rw [List.mem_append, List.mem_append, not_or, not_or]
    exact ⟨⟨by decide, decimal_newline total⟩, by decide⟩
  · unfold header size
    rw [List.length_append, List.length_append, show (lit "<!--total: ").length = 11 from rfl,
      show (lit " --><link rel='stylesheet' href='list_style.css' />    \n").length = 56 from rfl]
    omega

/-! ### The list is read back -/

/-- A file of a header and entries. -/
theorem readListing_append {h : List UInt8} {total : ℤ} (hclean : Clean h)
    (hscan : scanNumber h = some total) (s : List UInt8) :
    readListing (h ++ s) = some ⟨total, readLines total.toNat h s⟩ := by
  unfold readListing
  simp only [fgets_clean hclean, hscan, Option.map_some]

/-- **Entries that are clean lines are read back.** -/
theorem readListing_lines {h : List UInt8} {ls : List (List UInt8)} (hclean : Clean h)
    (hscan : scanNumber h = some ls.length) (hls : ∀ l ∈ ls, Clean l) :
    readListing (h ++ ls.flatten) = some ⟨ls.length, ls⟩ := by
  rw [readListing_append hclean hscan, Int.toNat_natCast, readLines_clean h hls]

/-- **Only clean lines are read back.** -/
theorem clean_of_readListing {a : List UInt8} {ls : List (List UInt8)} {total : ℤ}
    (htotal : total = ls.length + 1) (hsmall : total.natAbs < 10 ^ 10)
    (hread : readListing (Listing.write ⟨total, (a ++ [nl]) :: ls⟩) =
      some ⟨total, (a ++ [nl]) :: ls⟩) : Clean (a ++ [nl]) := by
  unfold Listing.write at hread
  rw [readListing_append (header_clean hsmall) (scanNumber_header total)] at hread
  simp only [Option.some.injEq, Listing.mk.injEq, true_and] at hread
  have hnat : total.toNat = ls.length + 1 := by omega
  rw [hnat, readLines, List.cons.injEq, fgets, if_neg (by simp)] at hread
  have htake := hread.1
  refine ⟨⟨a, rfl, fun ha => ?_⟩, ?_⟩
  · obtain ⟨b, c, rfl⟩ := List.append_of_mem ha
    rw [List.append_assoc, List.cons_append] at htake
    have hnil := takeLine_newline htake
    simp at hnil
  · have hlen := takeLine_length (size - 1) ((a ++ [nl]) :: ls).flatten
    rw [htake] at hlen
    unfold size at hlen ⊢
    omega

end TelegramCli.Telegrab.ChatList
