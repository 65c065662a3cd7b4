import TelegramCli.Telegrab.RawStrings

/-! # The nesting of a fragment

A fragment opens two `div`s at its start, one for the media and one for the text if there are any,
and always closes three at its end. So it is balanced when the message has either a media or a text
(`nesting_iff`). The branch that would open a `div` for a message with neither is commented out in
the source, and nothing closes the second one of a message with both. -/

namespace TelegramCli.Telegrab.Nesting

open TelegramCli.Lib.CString TelegramCli.Lib.Tags TelegramCli.Tgl
open TelegramCli.Telegrab.Escape TelegramCli.Telegrab.DumpHtml TelegramCli.Telegrab.Skeleton
open TelegramCli.Telegrab.RawStrings

/-! ### Strings without `<` -/

def peerStrings (P : Peer) : List (List UInt8) :=
  P.printName.toList ++ P.username.toList ++ P.firstName.toList ++ P.lastName.toList ++
    P.title.toList

def documentStrings (d : Option Document) (caption : Str) : List (List UInt8) :=
  (d.elim [] fun d => d.caption.toList) ++ caption.toList

def mediaStrings : Media → List (List UInt8)
  | .none => []
  | .photo _ caption => caption.toList
  | .document d caption => documentStrings d caption
  | .audio d caption => documentStrings d caption
  | .video d caption => documentStrings d caption
  | .documentEncr d caption => documentStrings d caption
  | .geo _ => []
  | .contact phone firstName lastName => phone.toList ++ firstName.toList ++ lastName.toList
  | .unsupported => []
  | .webpage w caption => caption.toList ++
      w.elim [] fun w => w.url.toList ++ w.title.toList ++ w.description.toList ++ w.author.toList
  | .venue _ title address provider venueId =>
      title.toList ++ address.toList ++ provider.toList ++ venueId.toList
  | .other => []

/-- No string of the message or of its peers has a `<`. -/
structure NoLt (E : Env) (M : Message) : Prop where
  message : ∀ s ∈ M.message, lt ∉ s
  media : ∀ s ∈ mediaStrings M.media, lt ∉ s
  peers : ∀ id ∈ [M.toId, M.fromId, M.fwdFromId], ∀ P ∈ E.peerGet id, ∀ s ∈ peerStrings P, lt ∉ s

theorem mem_strrchr {c x : UInt8} : ∀ {s q : List UInt8}, strrchr c s = some q → x ∈ q → x ∈ s
  | [], _, h, _ => by simp [strrchr] at h
  | d :: p, q, h, hx => by
    rw [strrchr] at h
    cases hp : strrchr c p with
    | some r =>
      rw [hp] at h
      obtain rfl := Option.some.inj h
      exact List.mem_cons_of_mem d (mem_strrchr hp hx)
    | none =>
      rw [hp] at h
      simp only at h
      split_ifs at h
      obtain rfl := Option.some.inj h
      exact hx

theorem lt_notMem_getExtension {s : List UInt8} (h : lt ∉ s) : lt ∉ getExtension s := by
  rw [getExtension]
  split
  · decide
  · rename_i dot hdot
    split_ifs
    · decide
    · exact fun e => h (mem_strrchr hdot (List.mem_of_mem_drop e))

theorem documentRaw_noLt {d : Option Document} {caption : Str}
    (h : ∀ s ∈ documentStrings d caption, lt ∉ s) : ∀ s ∈ documentRaw d caption, lt ∉ s := by
  cases d with
  | none => simp [documentRaw]
  | some d =>
    have hd : ∀ s ∈ d.caption.toList, lt ∉ s := fun s hs => h s (by simp_all [documentStrings])
    have hc : ∀ s ∈ caption.toList, lt ∉ s := fun s hs => h s (by simp_all [documentStrings])
    intro s hs
    rcases List.mem_append.mp hs with hs | hs
    · rw [extensionRaw] at hs
      split_ifs at hs
      · simp at hs
      · obtain ⟨c, hc, rfl⟩ := List.mem_map.mp hs
        exact lt_notMem_getExtension (hd c hc)
    · split_ifs at hs
      · exact hd s hs
      · exact hc s hs

theorem mediaRaw_noLt {ME : Media} (h : ∀ s ∈ mediaStrings ME, lt ∉ s) :
    ∀ s ∈ mediaRaw ME, lt ∉ s := by
  cases ME with
  | document d caption => exact documentRaw_noLt h
  | audio d caption => exact documentRaw_noLt h
  | video d caption => exact documentRaw_noLt h
  | documentEncr d caption => exact documentRaw_noLt h
  | contact phone firstName lastName =>
    intro s hs
    exact h s (by simp only [mediaRaw, mediaStrings, List.mem_append] at hs ⊢; tauto)
  | webpage w caption =>
    intro s hs
    exact h s (by simp only [mediaRaw, mediaStrings, List.mem_append] at hs ⊢; tauto)
  | _ => exact h

theorem shownSender_eq {E : Env} {M : Message} {s : Peer} (h : shownSender E M = some (some s)) :
    E.peerGet M.fromId = some s := by
  rw [shownSender] at h
  split_ifs at h
  · simp only [Option.bind_eq_bind, Option.bind_eq_some_iff, pure] at h
    obtain ⟨P, hP, h⟩ := h
    split_ifs at h
    · simp at h
    · rw [hP, Option.some.inj (Option.some.inj h)]
  · simp at h

theorem forwardedFrom_eq {E : Env} {M : Message} {p : Peer}
    (h : forwardedFrom E M = some (some p)) : E.peerGet M.fwdFromId = some p := by
  rw [forwardedFrom] at h
  split_ifs at h
  · simpa using h
  · simp at h

/-- The raw strings are among those of the message and its peers. -/
theorem rawStrings_noLt {E : Env} {M : Message} (h : NoLt E M) : ∀ s ∈ rawStrings E M, lt ∉ s := by
  intro s hs
  simp only [rawStrings, List.mem_append] at hs
  rcases hs with (hs | hs) | hs
  · cases hP : (shownSender E M).join with
    | none => simp [hP] at hs
    | some P =>
      have hP := shownSender_eq (Option.join_eq_some_iff.mp hP)
      exact h.peers M.fromId (by simp) P hP s (by simp_all [peerStrings])
  · cases hP : (forwardedFrom E M).join with
    | none => simp [hP] at hs
    | some P =>
      have hP := forwardedFrom_eq (Option.join_eq_some_iff.mp hP)
      exact h.peers M.fwdFromId (by simp) P hP s (by simp_all [peerStrings])
  · exact mediaRaw_noLt h.media s hs

/-! ### The depth -/

/-- What the fragment leaves open before its end: a `div` for the media and one for the text. -/
def inner (M : Message) : ℕ :=
  (if M.media = .none then 0 else 1) + if Str.isEmpty M.message then 0 else 1

theorem walk_mediaTags (d : ℕ) (ME : Media) :
    walk (lit "div") d (mediaTags ME) = some (d + if ME = .none then 0 else 1) := by
  have ho : ∀ e ts, walk (lit "div") e (opening "div" :: ts) = walk (lit "div") (e + 1) ts :=
    fun _ _ => rfl
  have ha : ∀ e ts, walk (lit "div") e (opening "a" :: ts) = walk (lit "div") e ts :=
    fun _ _ => rfl
  have hc : ∀ e ts, walk (lit "div") e (closing "a" :: ts) = walk (lit "div") e ts :=
    fun _ _ => rfl
  have hi : ∀ e ts, walk (lit "div") e (opening "img" :: ts) = walk (lit "div") e ts :=
    fun _ _ => rfl
  have hn : ∀ e, walk (lit "div") e [] = some e := fun _ => rfl
  cases ME with
  | webpage w caption => cases caption <;> simp [mediaTags, ho, ha, hc, hn]
  | _ => simp [mediaTags, ho, ha, hc, hi, hn]

theorem walk_div (d : ℕ) : walk (lit "div") d [opening "div"] = some (d + 1) := rfl

/-- An optional header closes what it opens. -/
theorem walk_header (d : ℕ) (b : Prop) [Decidable b] :
    walk (lit "div") d
      (if b then [opening "div", opening "a", closing "a", closing "div"] else []) = some d := by
  split_ifs <;> rfl

theorem walk_thumbnail (d : ℕ) (b : Prop) [Decidable b] :
    walk (lit "div") d (if b then
      [opening "a", opening "object", opening "img", closing "object", closing "a"] else []) =
      some d := by
  split_ifs <;> rfl

/-- The end of a fragment closes three `div`s. -/
theorem walk_end (d : ℕ) :
    walk (lit "div") (d + 2)
      [opening "span", closing "span", closing "div", closing "div", opening "", closing "div"] =
      if d = 0 then none else some (d - 1) := by
  cases d with
  | zero => rfl
  | succ d => rfl

theorem walk_messageTags (sender fwd : Bool) (M : Message) :
    walk (lit "div") 0 (messageTags sender fwd M) =
      if inner M = 0 then none else some (inner M - 1) := by
  have hbody : ∀ d, walk (lit "div") d
      (if Str.isEmpty M.message = true then [] else [opening "div"]) =
      some (d + if Str.isEmpty M.message = true then 0 else 1) := by
    intro d
    split_ifs <;> rfl
  have hstart : walk (lit "div") 0 [opening "div", opening "a", closing "a"] = some 1 := rfl
  have hinner : ∀ m b : ℕ, 2 + m + b = m + b + 2 := fun m b => by omega
  rw [messageTags]
  simp only [walk_append, hstart, walk_thumbnail, walk_div, walk_header, walk_mediaTags, hbody,
    Option.bind_some, Nat.reduceAdd, hinner, walk_end, inner]
  rfl

/-- The depth at the end of a fragment, when the strings have no `<`. -/
theorem walk_html {E : Env} {M : Message} {ps : List Piece} (h : dumpMessageHtml E M = some ps)
    (hlt : NoLt E M) : walk (lit "div") 0 (tags (html ps)) =
      if inner M = 0 then none else some (inner M - 1) := by
  have hbr : ∀ t : Tag, t.name = lit "div" → notBr t = true := by
    intro t ht
    rw [notBr, ht]; decide
  obtain ⟨sender, fwd, _, _, hskel⟩ := skeleton_dump h
  rw [← walk_filter _ hbr, tags_html (tagless_of_rawStrings h (rawStrings_noLt hlt)),
    walk_filter _ hbr, hskel, walk_messageTags]

/-- **Nesting**: the fragment of a message whose strings have no `<` is balanced exactly when the
message has a media or a text but not both. -/
theorem nesting_iff (E : Env) (M : Message) (ps : List Piece) (h : dumpMessageHtml E M = some ps)
    (hlt : NoLt E M) :
    Nested (lit "div") (tags (html ps)) ↔ (M.media ≠ .none ↔ Str.isEmpty M.message = true) := by
  have hdepth : Nested (lit "div") (tags (html ps)) ↔ inner M = 1 := by
    rw [Nested, walk_html h hlt]
    split_ifs with h0
    · simp [h0]
    · rw [Option.some.injEq]; omega
  rw [hdepth, inner]
  by_cases hm : M.media = .none <;> by_cases hb : Str.isEmpty M.message = true <;> simp [hm, hb]

/-! ### Samples -/

theorem sample_noLt {s : List UInt8} (hs : lt ∉ s) {ME : Media}
    (h : ∀ s ∈ mediaStrings ME, lt ∉ s) : NoLt sampleEnv (sampleMessage (some s) ME) where
  message r hr := Option.some.inj hr ▸ hs
  media := h
  peers := by
    rintro id - P hP r hr
    obtain rfl := Option.some.inj hP
    revert r hr
    decide

theorem nesting_iff_text : ∃ ps,
    dumpMessageHtml sampleEnv (sampleMessage (some (lit "hi")) .none) = some ps ∧
    (Nested (lit "div") (tags (html ps)) ↔
      (Media.none ≠ .none ↔ Str.isEmpty (some (lit "hi")) = true)) :=
  ⟨_, rfl, nesting_iff sampleEnv (sampleMessage (some (lit "hi")) .none) _ rfl
    (sample_noLt (by decide) (by decide))⟩

/-- A text with the preview of a link, as clients send it. -/
def samplePreview : Message :=
  sampleMessage (some (lit "see example.org"))
    (.webpage (some ⟨some (lit "example.org"), some (lit "Example"), none, none⟩) none)

theorem preview_not_nested : ∃ ps, dumpMessageHtml sampleEnv samplePreview = some ps ∧
    NoLt sampleEnv samplePreview ∧ ¬ Nested (lit "div") (tags (html ps)) := by
  have hlt : NoLt sampleEnv samplePreview := sample_noLt (by decide) (by decide)
  refine ⟨_, rfl, hlt, ?_⟩
  rw [Nested, walk_html rfl hlt]
  decide

end TelegramCli.Telegrab.Nesting
