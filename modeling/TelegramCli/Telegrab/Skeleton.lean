import TelegramCli.Telegrab.DumpHtml

/-! # The tags of a fragment

The tags of the format strings are the `skeleton` of a fragment. When no raw string of the fragment
has a `<`, the fragment's tags are those of the skeleton and `<br/>` tags (`tags_html`), and the
skeleton is a function of what the message has, not of what its strings say (`skeleton_dump`). -/

namespace TelegramCli.Telegrab.Skeleton

open TelegramCli.Lib.CString TelegramCli.Lib.Tags TelegramCli.Tgl
open TelegramCli.Telegrab.Escape TelegramCli.Telegrab.DumpHtml

/-! ### Pieces -/

def Piece.markup : Piece → List Tag
  | .text s => tags s.1
  | _ => []

/-- The tags of the format strings. -/
def skeleton (ps : List Piece) : List Tag := ps.flatMap Piece.markup

/-- Not a tag of `nl2br`. -/
def notBr (t : Tag) : Bool := t.name ≠ lit "br"

/-- A raw string without tags. -/
def Piece.Tagless : Piece → Prop
  | .raw s => lt ∉ s
  | _ => True

theorem nl2br_tags {s : List UInt8} (h : lt ∉ s) :
    Settled (nl2br s) ∧ (tags (nl2br s)).filter notBr = [] := by
  have hpiece : ∀ c ∈ s, Settled (if c = nl then lit "<br/>" else [c]) ∧
      (tags (if c = nl then lit "<br/>" else [c])).filter notBr = [] := by
    intro c hc
    have hne : lt ∉ [c] := fun e => h (List.mem_singleton.mp e ▸ hc)
    split_ifs
    · decide
    · exact ⟨settled_of_notMem hne, by rw [tags_of_notMem hne]; rfl⟩
  rw [nl2br_eq]
  clear h
  induction s with
  | nil => exact ⟨trivial, rfl⟩
  | cons c s ih =>
    obtain ⟨hs, hb⟩ := ih fun d hd => hpiece d (List.mem_cons_of_mem c hd)
    obtain ⟨hcs, hcb⟩ := hpiece c List.mem_cons_self
    rw [List.flatMap_cons]
    refine ⟨hcs.append hs, ?_⟩
    rw [tags_append _ hcs, List.filter_append, hcb, hb]
    rfl

/-- What is printed for a piece: its own tags, up to `<br/>`. -/
theorem Piece.tags_bytes {p : Piece} (h : Piece.Tagless p) :
    Settled p.bytes ∧ (tags p.bytes).filter notBr = (Piece.markup p).filter notBr := by
  have hfree : ∀ {s : List UInt8}, lt ∉ s →
      Settled s ∧ (tags s).filter notBr = ([] : List Tag).filter notBr := fun hs =>
    ⟨settled_of_notMem hs, by rw [tags_of_notMem hs]⟩
  cases p with
  | text s => exact ⟨s.2, rfl⟩
  | generated s => exact hfree s.2.1
  | raw s => exact hfree h
  | escaped s => exact hfree (inert_htmlspecialchars s).lt_notMem
  | body s => exact nl2br_tags (inert_htmlspecialchars s).lt_notMem

/-- **The tags of a fragment** are those of its skeleton and `<br/>` tags. -/
theorem tags_html {ps : List Piece} (h : ∀ p ∈ ps, Piece.Tagless p) :
    (tags (html ps)).filter notBr = (skeleton ps).filter notBr := by
  induction ps with
  | nil => rfl
  | cons p ps ih =>
    obtain ⟨hs, ht⟩ := Piece.tags_bytes (h p List.mem_cons_self)
    have ih := ih fun q hq => h q (List.mem_cons_of_mem p hq)
    rw [html, List.flatMap_cons, tags_append _ hs, List.filter_append, ht, skeleton,
      List.flatMap_cons, List.filter_append]
    exact congrArg _ ih

/-! ### The skeleton of each part -/

@[simp] theorem skeleton_nil : skeleton [] = [] := rfl

@[simp] theorem skeleton_append (ps qs : List Piece) :
    skeleton (ps ++ qs) = skeleton ps ++ skeleton qs := List.flatMap_append

@[simp] theorem skeleton_txt (s : String) (h : Settled (lit s)) (ps : List Piece) :
    skeleton (txt s h :: ps) = tags (lit s) ++ skeleton ps := rfl

@[simp] theorem skeleton_num (n : ℤ) (ps : List Piece) : skeleton (num n :: ps) = skeleton ps := rfl

@[simp] theorem skeleton_generated (s : Generated) (ps : List Piece) :
    skeleton (.generated s :: ps) = skeleton ps := rfl

@[simp] theorem skeleton_raw (s : List UInt8) (ps : List Piece) :
    skeleton (.raw s :: ps) = skeleton ps := rfl

@[simp] theorem skeleton_escaped (s : List UInt8) (ps : List Piece) :
    skeleton (.escaped s :: ps) = skeleton ps := rfl

@[simp] theorem skeleton_body (s : List UInt8) (ps : List Piece) :
    skeleton (.body s :: ps) = skeleton ps := rfl

@[simp] theorem skeleton_str (s : Str) (ps : List Piece) : skeleton (str s :: ps) = skeleton ps := by
  cases s <;> rfl

theorem skeleton_sender (s : Peer) :
    skeleton (senderThumbnail s) =
      [opening "a", opening "object", opening "img", closing "object", closing "a"] ∧
    skeleton (senderName s) = [opening "div", opening "a", closing "a", closing "div"] := by
  simp only [senderThumbnail, senderName, skeleton_txt, skeleton_str, skeleton_num,
    skeleton_escaped, skeleton_nil]
  decide

theorem skeleton_forwarded (p : Peer) :
    skeleton (forwarded p) = [opening "div", opening "a", closing "a", closing "div"] := by
  simp only [forwarded, skeleton_txt, skeleton_str, skeleton_escaped, skeleton_nil]
  decide

theorem skeleton_reply (n : ℤ) :
    skeleton (reply n) = [opening "div", opening "a", closing "a", closing "div"] := by
  simp only [reply, skeleton_txt, skeleton_num, skeleton_nil]
  decide

theorem skeleton_folder (P : Peer) : skeleton (getPeerFilename P ++ [txt "_files"]) = [] := by
  have hfile : skeleton (getPeerFilename P) = [] := by
    rw [getPeerFilename]
    split
    all_goals
      simp only [skeleton_txt, skeleton_num, skeleton_nil]
      decide
  rw [skeleton_append, hfile]
  decide

theorem skeleton_extension {d : Document} {ext : Piece} (h : extension d = some ext) :
    skeleton [ext] = [] := by
  rw [extension] at h
  split_ifs at h
  · obtain rfl := Option.some.inj h; decide
  · obtain rfl := Option.some.inj h; decide
  · obtain rfl := Option.some.inj h; decide
  · obtain rfl := Option.some.inj h; decide
  · obtain ⟨c, _, rfl⟩ := Option.map_eq_some_iff.mp h; rfl

theorem skeleton_file (E : Env) {folder : List Piece} {ext : Piece} (hf : skeleton folder = [])
    (he : skeleton [ext] = []) : skeleton (createDownloadFile E folder ext) = [] := by
  simp only [createDownloadFile, skeleton_append, hf, skeleton_txt, skeleton_num, he, skeleton_nil]
  decide

theorem skeleton_document {E : Env} {folder ps : List Piece} {d : Option Document} {caption : Str}
    (hf : skeleton folder = []) (h : documentPart E folder d caption = some ps) :
    skeleton ps = [opening "div", opening "a", closing "a"] := by
  simp only [documentPart, Option.bind_eq_bind, Option.bind_eq_some_iff, pure] at h
  obtain ⟨d, _, ext, hext, h⟩ := h
  obtain rfl := Option.some.inj h
  simp only [skeleton_append, skeleton_file E hf (skeleton_extension hext), skeleton_txt,
    skeleton_str, skeleton_nil]
  decide

theorem skeleton_field {label : Piece} (s : Str) (hl : skeleton [label] = []) :
    skeleton (field label s) = [] := by
  cases s with
  | none => rfl
  | some s =>
    rw [field, ← List.singleton_append, skeleton_append, hl, skeleton_raw, skeleton_txt]
    decide

/-- The tags of the branches on the type of the media. -/
def mediaTags : Media → List Tag
  | .none => []
  | .photo _ _ => [opening "a", opening "img", closing "a", opening "div"]
  | .document _ _ => [opening "div", opening "a", closing "a"]
  | .audio _ _ => [opening "div", opening "a", closing "a"]
  | .video _ _ => [opening "div", opening "a", closing "a"]
  | .documentEncr _ _ => [opening "div", opening "a", closing "a"]
  | .geo _ => [opening "div", opening "a", closing "a"]
  | .contact _ _ _ => [opening "div"]
  | .unsupported => [opening "div"]
  | .webpage _ caption =>
    opening "div" :: if caption.isSome then [opening "a", closing "a"] else []
  | .venue _ _ _ _ _ => [opening "div", opening "a", closing "a"]
  | .other => [opening "div"]

theorem skeleton_media {E : Env} {folder : List Piece} (hf : skeleton folder = []) {ME : Media}
    {ps : List Piece} (h : mediaPart E folder ME = some ps) : skeleton ps = mediaTags ME := by
  cases ME with
  | none => obtain rfl := Option.some.inj h; rfl
  | photo photo caption =>
    simp only [mediaPart, Option.bind_eq_bind, Option.bind_eq_some_iff, pure] at h
    obtain ⟨_, _, h⟩ := h
    obtain rfl := Option.some.inj h
    have hfile := skeleton_file E hf (show skeleton [txt "jpg"] = [] by decide)
    have hcaption : skeleton [caption.elim (txt "") .raw] = [] := by
      cases caption with
      | none => decide
      | some c => rfl
    simp only [skeleton_append, hfile, skeleton_txt, hcaption, skeleton_nil, mediaTags]
    decide
  | document d caption => exact skeleton_document hf h
  | audio d caption => exact skeleton_document hf h
  | video d caption => exact skeleton_document hf h
  | documentEncr d caption => exact skeleton_document hf h
  | geo g =>
    obtain rfl := Option.some.inj h
    simp only [skeleton_txt, skeleton_generated, skeleton_nil, mediaTags]
    decide
  | contact phone firstName lastName =>
    obtain rfl := Option.some.inj h
    simp only [skeleton_txt, skeleton_str, skeleton_nil, mediaTags]
    decide
  | unsupported => obtain rfl := Option.some.inj h; decide
  | webpage webpage caption =>
    simp only [mediaPart, Option.bind_eq_bind, Option.bind_eq_some_iff, pure] at h
    obtain ⟨w, _, h⟩ := h
    obtain rfl := Option.some.inj h
    have hu := skeleton_field w.url (show skeleton [txt " url:'"] = [] by decide)
    have ht := skeleton_field w.title (show skeleton [txt " title:'"] = [] by decide)
    have hd := skeleton_field w.description (show skeleton [txt " description:'"] = [] by decide)
    have ha := skeleton_field w.author (show skeleton [txt " author:'"] = [] by decide)
    cases caption with
    | none =>
      simp only [skeleton_append, skeleton_txt, skeleton_nil, hu, ht, hd, ha, Option.elim, mediaTags,
        Option.isSome]
      decide
    | some c =>
      simp only [skeleton_append, skeleton_txt, skeleton_raw, skeleton_nil, hu, ht, hd, ha,
        Option.elim, mediaTags, Option.isSome]
      decide
  | venue g title address provider venueId =>
    obtain rfl := Option.some.inj h
    have ht := skeleton_field title (show skeleton [txt " title:'"] = [] by decide)
    have ha := skeleton_field address (show skeleton [txt " address:'"] = [] by decide)
    have hp := skeleton_field provider (show skeleton [txt " provider:'"] = [] by decide)
    have hv := skeleton_field venueId (show skeleton [txt " id:'"] = [] by decide)
    simp only [skeleton_append, skeleton_txt, skeleton_generated, skeleton_nil, ht, ha, hp, hv,
      mediaTags]
    decide
  | other => obtain rfl := Option.some.inj h; decide

theorem skeleton_bodyPart (E : Env) (message : Str) :
    skeleton (bodyPart E message) = if Str.isEmpty message then [] else [opening "div"] := by
  match message with
  | none => rfl
  | some [] => rfl
  | some (c :: m) =>
    rw [if_neg (by simp [Str.isEmpty]), bodyPart]
    split_ifs
    all_goals
      simp only [skeleton_txt, skeleton_body, skeleton_nil]
      decide

theorem skeleton_operation (M : Message) (own : Bool) : skeleton [operation M own] = [] := by
  rw [operation]
  split_ifs <;> decide

theorem skeleton_elim {f : Peer → List Piece} {ts : List Tag} (hf : ∀ P, skeleton (f P) = ts)
    (o : Option Peer) : skeleton (o.elim [] f) = if o.isSome then ts else [] := by
  cases o with
  | none => rfl
  | some P => exact hf P

/-! ### The skeleton of the fragment -/

/-- The tags of a message with a shown sender, and one it is forwarded from, or not. -/
def messageTags (sender fwd : Bool) (M : Message) : List Tag :=
  [opening "div", opening "a", closing "a"] ++
  (if sender then
    [opening "a", opening "object", opening "img", closing "object", closing "a"] else []) ++
  [opening "div"] ++
  (if sender then [opening "div", opening "a", closing "a", closing "div"] else []) ++
  (if fwd then [opening "div", opening "a", closing "a", closing "div"] else []) ++
  (if M.replyId ≠ 0 then [opening "div", opening "a", closing "a", closing "div"] else []) ++
  mediaTags M.media ++
  (if Str.isEmpty M.message then [] else [opening "div"]) ++
  [opening "span", closing "span", closing "div", closing "div", opening "", closing "div"]

/-- **The skeleton of a message** depends on what it has, not on what its strings say. -/
theorem skeleton_dump {E : Env} {M : Message} {ps : List Piece}
    (h : dumpMessageHtml E M = some ps) :
    ∃ sender fwd, shownSender E M = some sender ∧ forwardedFrom E M = some fwd ∧
      skeleton ps = messageTags sender.isSome fwd.isSome M := by
  simp only [dumpMessageHtml, Option.bind_eq_bind, Option.bind_eq_some_iff, pure] at h
  obtain ⟨sender, hsender, chat, _, fwd, hfwd, media, hmedia, h⟩ := h
  obtain rfl := Option.some.inj h
  refine ⟨sender, fwd, hsender, hfwd, ?_⟩
  have hmessage : skeleton [txt "<div class='message ", operation M sender.isNone, txt "'>\n"] =
      [opening "div"] := by
    rw [skeleton_txt, ← List.singleton_append, skeleton_append, skeleton_operation, skeleton_txt]
    decide
  have hreply : skeleton (if M.replyId ≠ 0 then reply M.replyId else []) =
      if M.replyId ≠ 0 then [opening "div", opening "a", closing "a", closing "div"] else [] := by
    split_ifs
    · exact skeleton_reply _
    · rfl
  have hhead : skeleton [ txt "<div class='message_container'><a name='message_",
      num M.permanentId, txt "'></a>" ] = [opening "div", opening "a", closing "a"] := by
    simp only [skeleton_txt, skeleton_num, skeleton_nil]
    decide
  simp only [skeleton_append, hhead, hmessage, hreply, skeleton_elim fun s => (skeleton_sender s).1,
    skeleton_elim fun s => (skeleton_sender s).2, skeleton_elim skeleton_forwarded,
    skeleton_media (skeleton_folder chat) hmedia, skeleton_bodyPart, messageTags]
  rfl

end TelegramCli.Telegrab.Skeleton
