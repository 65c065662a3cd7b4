import TelegramCli.Telegrab.ChatList

/-! # The list of chats over a run

From the file of `initialize_frameset` on, the list file is that of some entries (`IsList`): a call
moves the entry of its chat to the front, or puts a new one there (`addToList_found`,
`addToList_new`).

While the new lines are clean, every call keeps one entry for each chat seen, the one of its first
call, and puts that of the last call in front (`calls_listed`). The file is read back as it was
written after every call exactly when the new lines are clean (`readsBack_iff`). -/

namespace TelegramCli.Telegrab.ChatListRuns

open TelegramCli.Lib.CNumber TelegramCli.Lib.CString TelegramCli.Telegrab.Escape
open TelegramCli.Telegrab.ChatList

/-! ### Moving entries -/

section Lists

variable {α β : Type}

theorem swapFirst_map (f : α → β) (l : List α) (i : ℕ) :
    swapFirst (l.map f) i = (swapFirst l i).map f := by
  unfold swapFirst
  rw [List.getElem?_map, List.getElem?_map]
  cases l[i]? with
  | none => rfl
  | some x =>
    cases l[0]? with
    | none => rfl
    | some y => simp only [Option.map_some, List.map_set]

theorem pushFirst_map (f : α → β) (x : α) : ∀ l : List α,
    pushFirst (f x) (l.map f) = (pushFirst x l).map f
  | [] => rfl
  | y :: l => by simp [pushFirst]

theorem swapFirst_perm (l : List α) (i : ℕ) : (swapFirst l i).Perm l := by
  unfold swapFirst
  cases hi : l[i]? with
  | none => exact List.Perm.refl l
  | some x =>
    cases h0 : l[0]? with
    | none => exact List.Perm.refl l
    | some y =>
      obtain ⟨hilt, rfl⟩ := List.getElem?_eq_some_iff.mp hi
      obtain ⟨h0lt, rfl⟩ := List.getElem?_eq_some_iff.mp h0
      exact List.set_set_perm hilt h0lt

theorem pushFirst_perm (x : α) : ∀ l : List α, (pushFirst x l).Perm (x :: l)
  | [] => List.Perm.refl _
  | y :: l => (List.perm_append_singleton y l).cons x

theorem swapFirst_head {l : List α} {i : ℕ} {x : α} (h : l[i]? = some x) :
    (swapFirst l i).head? = some x := by
  unfold swapFirst
  cases l with
  | nil => cases h
  | cons y l =>
    rw [h, List.getElem?_cons_zero]
    cases i <;> rfl

theorem pushFirst_head (x : α) : ∀ l : List α, (pushFirst x l).head? = some x
  | [] => rfl
  | _ :: _ => rfl

end Lists

/-! ### One call -/

/-- The entries of some chats. -/
def listing (entries : List Chat) : Listing := ⟨entries.length, entries.map render⟩

/-- The file is that of the entries, which are of different chats and clean lines. -/
structure IsList (content : List UInt8) (entries : List Chat) : Prop where
  content_eq : ∃ h, content = h ++ (entries.map render).flatten ∧ Clean h ∧
    scanNumber h = some (entries.length : ℤ)
  clean : ∀ e ∈ entries, Clean (render e)
  nodup : (entries.map Chat.id).Nodup

theorem IsList.read {content : List UInt8} {entries : List Chat} (h : IsList content entries) :
    readListing content = some (listing entries) := by
  obtain ⟨hd, rfl, hclean, hscan⟩ := h.content_eq
  have hcount : scanNumber hd = some ((entries.map render).length : ℤ) := by
    rw [List.length_map]
    exact hscan
  have hread := readListing_lines hclean hcount (List.forall_mem_map.mpr h.clean)
  rwa [List.length_map] at hread

theorem initialList_isList : IsList initialList [] where
  content_eq := ⟨initialList, by simp, ⟨⟨initialList.dropLast, by decide, by decide⟩, by decide⟩,
    by decide⟩
  clean := by simp
  nodup := by simp

/-- Different chats are fewer than the ids there are. -/
theorem length_lt {entries : List Chat} (h : (entries.map Chat.id).Nodup) :
    ((entries.length : ℕ) : ℤ).natAbs < 10 ^ 10 := by
  have hnodup : ((entries.map Chat.id).map BitVec.toNat).Nodup :=
    h.map fun _ _ hab => BitVec.eq_of_toNat_eq hab
  have hsub : ((entries.map Chat.id).map BitVec.toNat).toFinset ⊆ Finset.range (2 ^ 32) := by
    intro x hx
    obtain ⟨b, -, rfl⟩ := List.mem_map.mp (List.mem_toFinset.mp hx)
    exact Finset.mem_range.mpr b.isLt
  have hcard := Finset.card_le_card hsub
  rw [List.toFinset_card_of_nodup hnodup, List.length_map, List.length_map,
    Finset.card_range] at hcard
  rw [Int.natAbs_natCast]
  omega

theorem write_isList {entries : List Chat} (hclean : ∀ e ∈ entries, Clean (render e))
    (hnodup : (entries.map Chat.id).Nodup) : IsList (listing entries).write entries where
  content_eq := ⟨header entries.length, rfl, header_clean (length_lt hnodup),
    scanNumber_header entries.length⟩
  clean := hclean
  nodup := hnodup

theorem findEntry_render (c : Chat) : ∀ entries : List Chat,
    findEntry c.id.toInt (entries.map render) = some (entries.findIdx? fun e => e.id = c.id)
  | [] => rfl
  | e :: entries => by
    rw [List.map_cons, findEntry, scanNumber_render, List.findIdx?_cons]
    by_cases he : e.id = c.id
    · simp [he]
    · have hne : e.id.toInt ≠ c.id.toInt := fun h => he (BitVec.eq_of_toInt_eq h)
      simp only [if_neg hne, findEntry_render c entries, he, decide_false, Option.map_some]
      rfl

/-- **The chat has an entry**: it comes to the front. -/
theorem addToList_found {checked : Bool} {content : List UInt8} {entries : List Chat} {c : Chat}
    {i : ℕ} (h : IsList content entries) (hi : entries.findIdx? (fun e => e.id = c.id) = some i) :
    addToList checked content c = some (listing (swapFirst entries i), false) := by
  have hlen : (swapFirst entries i).length = entries.length := (swapFirst_perm entries i).length_eq
  unfold addToList
  rw [h.read]
  simp only [Option.bind_eq_bind, Option.bind_some, listing, findEntry_render, hi, swapFirst_map,
    hlen]
  rfl

/-- **The chat is new**: an entry for it comes to the front. -/
theorem addToList_new {checked : Bool} {content : List UInt8} {entries : List Chat} {c : Chat}
    (h : IsList content entries) (hi : entries.findIdx? (fun e => e.id = c.id) = none) :
    addToList checked content c = if checked && !decide (Fits c) then none
      else some (listing (pushFirst c entries), true) := by
  have hlen : (pushFirst c entries).length = entries.length + 1 :=
    (pushFirst_perm c entries).length_eq
  unfold addToList
  rw [h.read]
  simp only [Option.bind_eq_bind, Option.bind_some, listing, findEntry_render, hi, pushFirst_map,
    hlen, Nat.cast_add, Nat.cast_one]
  rfl

/-! ### The entries of the chats seen -/

/-- **The entries are those of the calls**: one for each chat seen, that of its first call, and in
front that of the last call. -/
structure ListedAs (past : List Chat) (entries : List Chat) : Prop where
  nodup : (entries.map Chat.id).Nodup
  ids : ∀ i, i ∈ entries.map Chat.id ↔ i ∈ past.map Chat.id
  first : ∀ e ∈ entries, past.find? (fun p => p.id = e.id) = some e
  front : entries.head?.map Chat.id = past.getLast?.map Chat.id

theorem listedAs_nil : ListedAs [] [] := ⟨by simp, by simp, by simp, rfl⟩

theorem mem_ids_iff {entries : List Chat} {c : Chat} :
    c.id ∈ entries.map Chat.id ↔ entries.findIdx? (fun e => e.id = c.id) ≠ none := by
  rw [ne_eq, List.findIdx?_eq_none_iff, List.mem_map]
  simp

theorem ListedAs.found {past entries : List Chat} {c : Chat} {i : ℕ} (h : ListedAs past entries)
    (hi : entries.findIdx? (fun e => e.id = c.id) = some i) :
    ListedAs (past ++ [c]) (swapFirst entries i) := by
  have hperm := swapFirst_perm entries i
  have hseen : c.id ∈ past.map Chat.id := by
    rw [← h.ids, mem_ids_iff, hi]
    simp
  obtain ⟨hlt, hid, -⟩ := List.findIdx?_eq_some_iff_getElem.mp hi
  refine ⟨(hperm.map Chat.id).nodup_iff.mpr h.nodup, fun j => ?_, fun e he => ?_, ?_⟩
  · rw [(hperm.map Chat.id).mem_iff, h.ids, List.map_append, List.mem_append]
    refine ⟨Or.inl, fun hj => hj.elim id fun hc => ?_⟩
    rw [List.map_singleton, List.mem_singleton] at hc
    exact hc ▸ hseen
  · rw [List.find?_append, h.first e (hperm.mem_iff.mp he)]
    rfl
  · rw [swapFirst_head (List.getElem?_eq_getElem hlt), List.getLast?_concat]
    simpa using hid

theorem ListedAs.new {past entries : List Chat} {c : Chat} (h : ListedAs past entries)
    (hi : entries.findIdx? (fun e => e.id = c.id) = none) :
    ListedAs (past ++ [c]) (pushFirst c entries) := by
  have hperm := pushFirst_perm c entries
  have hnew : c.id ∉ entries.map Chat.id := fun hmem => mem_ids_iff.mp hmem hi
  refine ⟨(hperm.map Chat.id).nodup_iff.mpr ?_, fun j => ?_, fun e he => ?_, ?_⟩
  · rw [List.map_cons]
    exact List.nodup_cons.mpr ⟨hnew, h.nodup⟩
  · rw [(hperm.map Chat.id).mem_iff, List.map_cons, List.mem_cons, h.ids, List.map_append,
      List.mem_append, List.map_singleton, List.mem_singleton, or_comm]
  · rcases List.mem_cons.mp (hperm.mem_iff.mp he) with rfl | he
    · have hnone : past.find? (fun p => p.id = e.id) = none := by
        rw [List.find?_eq_none]
        intro p hp hpe
        exact hnew ((h.ids e.id).mpr (List.mem_map.mpr ⟨p, hp, by simpa using hpe⟩))
      rw [List.find?_append, hnone]
      simp
    · rw [List.find?_append, h.first e he]
      rfl
  · rw [pushFirst_head, List.getLast?_concat]

/-! ### Runs -/

/-- `P` for every call that adds a chat, the ones in `past` having been made. -/
def EachNew (P : Chat → Prop) : List Chat → List Chat → Prop
  | _, [] => True
  | past, c :: calls => (c.id ∉ past.map Chat.id → P c) ∧ EachNew P (past ++ [c]) calls

instance decidableEachNew (P : Chat → Prop) [DecidablePred P] :
    ∀ past calls, Decidable (EachNew P past calls)
  | _, [] => inferInstanceAs (Decidable True)
  | past, c :: calls =>
    have := decidableEachNew P (past ++ [c]) calls
    inferInstanceAs (Decidable (_ ∧ _))

/-- **What holds after each call**, the ones in `past` having been made: the file is the header with
the number of entries and their lines, the entries are those of the chats seen, and the call has
returned 1 if its chat was new. -/
def Lists : List Chat → List UInt8 → List Chat → Prop
  | _, _, [] => True
  | past, content, c :: calls =>
    ∃ L, addToList false content c = some (L, decide (c.id ∉ past.map Chat.id)) ∧
      (∃ entries, L = listing entries ∧ ListedAs (past ++ [c]) entries) ∧
      Lists (past ++ [c]) L.write calls

/-- A call on a list of clean lines whose new line, if there is one, is clean and fits. -/
theorem addToList_listed (checked : Bool) {past entries : List Chat} {content : List UInt8}
    {c : Chat} (hlist : IsList content entries) (h : ListedAs past entries)
    (hclean : c.id ∉ past.map Chat.id → Clean (render c) ∧ (checked = true → Fits c)) :
    ∃ entries', addToList checked content c =
        some (listing entries', decide (c.id ∉ past.map Chat.id)) ∧
      IsList (listing entries').write entries' ∧ ListedAs (past ++ [c]) entries' := by
  cases hi : entries.findIdx? (fun e => e.id = c.id) with
  | some i =>
    have hseen : c.id ∈ past.map Chat.id := by
      rw [← h.ids, mem_ids_iff, hi]
      simp
    have hlisted := h.found hi
    refine ⟨_, ?_, write_isList (fun e he => ?_) hlisted.nodup, hlisted⟩
    · rw [addToList_found hlist hi, decide_eq_false (not_not_intro hseen)]
    · exact hlist.clean e ((swapFirst_perm entries i).mem_iff.mp he)
  | none =>
    have hnew : c.id ∉ past.map Chat.id := by
      rw [← h.ids]
      exact fun hmem => mem_ids_iff.mp hmem hi
    obtain ⟨hline, hfits⟩ := hclean hnew
    have hlisted := h.new hi
    refine ⟨_, ?_, write_isList (fun e he => ?_) hlisted.nodup, hlisted⟩
    · rw [addToList_new hlist hi, decide_eq_true hnew, if_neg]
      cases checked with
      | false => simp
      | true => simp [hfits rfl]
    · rcases List.mem_cons.mp ((pushFirst_perm c entries).mem_iff.mp he) with rfl | he
      · exact hline
      · exact hlist.clean e he

theorem lists_of_clean : ∀ {calls past entries : List Chat} {content : List UInt8},
    IsList content entries → ListedAs past entries →
    EachNew (fun c => Clean (render c)) past calls → Lists past content calls
  | [], _, _, _, _, _, _ => trivial
  | _ :: _, _, _, _, hlist, h, hclean => by
    obtain ⟨entries', hadd, hlist', h'⟩ := addToList_listed false hlist h
      fun hnew => ⟨hclean.1 hnew, fun hfalse => nomatch hfalse⟩
    exact ⟨_, hadd, ⟨entries', rfl, h'⟩, lists_of_clean hlist' h' hclean.2⟩

/-- **After each call** of a sequence whose new lines are clean the list file has one entry for each
chat seen, that of its first call, and the chat of the last call in front. -/
theorem calls_listed {calls : List Chat} (hclean : EachNew (fun c => Clean (render c)) [] calls) :
    Lists [] initialList calls := lists_of_clean initialList_isList listedAs_nil hclean

/-- A run with two chats. -/
theorem calls_listed_two : Lists [] initialList
    [⟨7, lit "A & B", lit "7.html"⟩, ⟨9, lit "Carol", lit "9.html"⟩, ⟨7, lit "C", lit "7.html"⟩] :=
  calls_listed (by decide +kernel)

/-- **The list is read back** after each call: the call is defined, and what it writes is read as
the entries it had. -/
def ReadsBack (checked : Bool) : List UInt8 → List Chat → Prop
  | _, [] => True
  | content, c :: calls => ∃ L b, addToList checked content c = some (L, b) ∧
      readListing L.write = some L ∧ ReadsBack checked L.write calls

/-- The length of what `render` puts around the id, the title and the file name. -/
def textLength : ℕ := 181

/-- The title and the file name have no newline, and the line of the entry is one that `fgets` takes
whole; with `checked`, the escaped title fits into the memory allocated for it. -/
structure Storable (checked : Bool) (c : Chat) : Prop where
  title : nl ∉ c.title
  file : nl ∉ c.file
  short : 2 * (decimal c.id.toInt).length + c.file.length + (htmlspecialchars c.title).length <
    size - textLength
  fits : checked = true → (htmlspecialchars c.title).length < c.title.length * 2

theorem render_eq (c : Chat) : ∃ a, render c = a ++ [nl] ∧ (nl ∉ a ↔ nl ∉ c.title ∧ nl ∉ c.file) ∧
    a.length + 1 = 2 * (decimal c.id.toInt).length + c.file.length +
      (htmlspecialchars c.title).length + textLength := by
  refine ⟨lit "<!--peerid: " ++ decimal c.id.toInt ++
    lit " --><a class='list' target='content' href='../../" ++ c.file ++
    lit "'><object class='icon' data='avatars/" ++ decimal c.id.toInt ++
    lit ".jpg' type='image/jpg'><img class='icon' src='avatars/default.jpg' /></object>" ++
    htmlspecialchars c.title ++ lit "</a>", ?_, ?_, ?_⟩
  · unfold render
    rw [show lit "</a>\n" = lit "</a>" ++ [nl] from rfl, List.append_assoc _ (lit "</a>")]
  · have hdec := decimal_newline c.id.toInt
    simp only [List.mem_append, not_or, nl_mem_htmlspecialchars, hdec, not_false_iff, true_and,
      and_true, show nl ∉ lit "<!--peerid: " by decide, show nl ∉ lit "</a>" by decide,
      show nl ∉ lit " --><a class='list' target='content' href='../../" by decide,
      show nl ∉ lit "'><object class='icon' data='avatars/" by decide,
      show nl ∉ lit ".jpg' type='image/jpg'><img class='icon' src='avatars/default.jpg' /></object>"
        by decide]
    exact and_comm
  · simp only [List.length_append, textLength, show (lit "<!--peerid: ").length = 12 by decide,
      show (lit " --><a class='list' target='content' href='../../").length = 49 by decide,
      show (lit "'><object class='icon' data='avatars/").length = 37 by decide,
      show (lit
        ".jpg' type='image/jpg'><img class='icon' src='avatars/default.jpg' /></object>").length = 78
        by decide, show (lit "</a>").length = 4 by decide]
    omega

theorem storable_iff {checked : Bool} {c : Chat} :
    Storable checked c ↔ Clean (render c) ∧ (checked = true → Fits c) := by
  obtain ⟨a, ha, hnl, hlen⟩ := render_eq c
  rw [ha, clean_append_iff, hnl]
  have hsize : textLength < size := by decide
  constructor
  · rintro ⟨htitle, hfile, hshort, hfits⟩
    refine ⟨⟨⟨htitle, hfile⟩, by omega⟩, fun hc => ⟨hfits hc, ?_⟩⟩
    rw [ha, List.length_append, List.length_singleton]
    omega
  · rintro ⟨⟨⟨htitle, hfile⟩, hshort⟩, hfits⟩
    exact ⟨htitle, hfile, by omega, fun hc => (hfits hc).1⟩

/-- A new line that is read back is clean. -/
theorem clean_of_new {checked : Bool} {content : List UInt8} {entries : List Chat} {c : Chat}
    {L : Listing} {b : Bool} (hlist : IsList content entries)
    (hi : entries.findIdx? (fun e => e.id = c.id) = none)
    (hadd : addToList checked content c = some (L, b)) (hread : readListing L.write = some L) :
    Clean (render c) ∧ (checked = true → Fits c) := by
  rw [addToList_new hlist hi] at hadd
  split_ifs at hadd with hfits
  cases hadd
  refine ⟨?_, fun hc => by simpa [hc] using hfits⟩
  have hnew : c.id ∉ entries.map Chat.id := fun hmem => mem_ids_iff.mp hmem hi
  have hperm := pushFirst_perm c entries
  have hnodup : ((pushFirst c entries).map Chat.id).Nodup :=
    (hperm.map Chat.id).nodup_iff.mpr (List.nodup_cons.mpr ⟨hnew, hlist.nodup⟩)
  have hsmall := length_lt hnodup
  obtain ⟨a, ha, -, -⟩ := render_eq c
  have hlines : ∃ ls, (pushFirst c entries).map render = (a ++ [nl]) :: ls := by
    cases entries with
    | nil => exact ⟨[], by rw [← ha]; rfl⟩
    | cons e es => exact ⟨_, by rw [pushFirst, List.map_cons, ha]⟩
  obtain ⟨ls, hls⟩ := hlines
  have hlen := congrArg List.length hls
  rw [List.length_map, List.length_cons] at hlen
  unfold listing at hread
  rw [hls] at hread
  rw [ha]
  exact clean_of_readListing (by rw [hlen, Nat.cast_add, Nat.cast_one]) hsmall hread

theorem readsBack_from {checked : Bool} : ∀ {calls past entries : List Chat} {content : List UInt8},
    IsList content entries → ListedAs past entries →
    (ReadsBack checked content calls ↔ EachNew (Storable checked) past calls)
  | [], _, _, _, _, _ => Iff.rfl
  | c :: calls, past, entries, content, hlist, h => by
    by_cases hnew : c.id ∉ past.map Chat.id → Storable checked c
    · obtain ⟨entries', hadd, hlist', h'⟩ := addToList_listed checked hlist h
        fun hc => storable_iff.mp (hnew hc)
      unfold EachNew
      rw [and_iff_right hnew, ← readsBack_from hlist' h']
      constructor
      · rintro ⟨L, b, hadd', -, hrest⟩
        rw [hadd] at hadd'
        cases hadd'
        exact hrest
      · exact fun hrest => ⟨_, _, hadd, hlist'.read, hrest⟩
    · refine iff_of_false (fun hback => ?_) fun hrest => hnew hrest.1
      obtain ⟨L, b, hadd, hread, -⟩ := hback
      refine hnew fun hc => storable_iff.mpr (clean_of_new hlist ?_ hadd hread)
      rw [← h.ids] at hc
      by_contra hi
      exact hc (mem_ids_iff.mpr hi)

/-- **The list file is read back** by the next call, in every sequence of calls, exactly when every
call that adds a chat has a title and a file name that make one line of at most 4095 bytes. -/
theorem readsBack_iff (checked : Bool) (calls : List Chat) :
    ReadsBack checked initialList calls ↔ EachNew (Storable checked) [] calls :=
  readsBack_from initialList_isList listedAs_nil

/-- A title with a newline splits its entry. -/
theorem newline_splits : ¬ ∀ calls, ReadsBack false initialList calls := fun h =>
  absurd ((readsBack_from initialList_isList listedAs_nil).mp
    (h [⟨7, lit "A\nB", lit "7.html"⟩])).1 fun hnew => absurd (hnew (by decide)).title (by decide)

end TelegramCli.Telegrab.ChatListRuns
