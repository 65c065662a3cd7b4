import TelegramCli.Telegrab.Skeleton

/-! # The strings printed as they are

`rawStrings` lists the strings of a message and its peers that the branches taken print without
`htmlspecialchars`: the user names of links, the captions and file names of media, the fields of
contacts, webpages and venues. They are the raw pieces of the fragment (`raws_dump`). -/

namespace TelegramCli.Telegrab.RawStrings

open TelegramCli.Lib.CString TelegramCli.Lib.Tags TelegramCli.Tgl
open TelegramCli.Telegrab.Escape TelegramCli.Telegrab.DumpHtml TelegramCli.Telegrab.Skeleton

/-! ### The strings of an input -/

/-- The extension of a downloaded document comes from its file name, unless a flag says better. -/
def extensionRaw (d : Document) : List (List UInt8) :=
  if d.image || d.audio || d.video || d.sticker then [] else d.caption.toList.map getExtension

def documentRaw (d : Option Document) (caption : Str) : List (List UInt8) :=
  d.elim [] fun d => extensionRaw d ++ (if Str.isEmpty caption then d.caption else caption).toList

def mediaRaw : Media → List (List UInt8)
  | .none => []
  | .photo _ caption => caption.toList
  | .document d caption => documentRaw d caption
  | .audio d caption => documentRaw d caption
  | .video d caption => documentRaw d caption
  | .documentEncr d caption => documentRaw d caption
  | .geo _ => []
  | .contact phone firstName lastName => firstName.toList ++ lastName.toList ++ phone.toList
  | .unsupported => []
  | .webpage w caption => caption.toList ++ caption.toList ++
      w.elim [] fun w => w.url.toList ++ w.title.toList ++ w.description.toList ++ w.author.toList
  | .venue _ title address provider venueId =>
      title.toList ++ address.toList ++ provider.toList ++ venueId.toList
  | .other => []

/-- A shown sender's user name stands in two links. -/
def rawStrings (E : Env) (M : Message) : List (List UInt8) :=
  ((shownSender E M).join.elim [] fun s => s.username.toList ++ s.username.toList) ++
    ((forwardedFrom E M).join.elim [] fun p => p.username.toList) ++ mediaRaw M.media

/-! ### The raw pieces -/

def Piece.raw? : Piece → Option (List UInt8)
  | .raw s => some s
  | _ => none

def raws (ps : List Piece) : List (List UInt8) := ps.filterMap Piece.raw?

theorem mem_raws {ps : List Piece} {s : List UInt8} : s ∈ raws ps ↔ .raw s ∈ ps := by
  rw [raws, List.mem_filterMap]
  constructor
  · rintro ⟨p, hp, hs⟩
    cases p <;> simp only [Piece.raw?, Option.some.injEq, reduceCtorEq] at hs
    exact hs ▸ hp
  · exact fun h => ⟨_, h, rfl⟩

@[simp] theorem raws_nil : raws [] = [] := rfl

@[simp] theorem raws_append (ps qs : List Piece) : raws (ps ++ qs) = raws ps ++ raws qs :=
  List.filterMap_append

@[simp] theorem raws_txt (s : String) (h : Settled (lit s)) (ps : List Piece) :
    raws (txt s h :: ps) = raws ps := rfl

@[simp] theorem raws_num (n : ℤ) (ps : List Piece) : raws (num n :: ps) = raws ps := rfl

@[simp] theorem raws_generated (s : Generated) (ps : List Piece) :
    raws (.generated s :: ps) = raws ps := rfl

@[simp] theorem raws_raw (s : List UInt8) (ps : List Piece) :
    raws (.raw s :: ps) = s :: raws ps := rfl

@[simp] theorem raws_escaped (s : List UInt8) (ps : List Piece) :
    raws (.escaped s :: ps) = raws ps := rfl

@[simp] theorem raws_body (s : List UInt8) (ps : List Piece) : raws (.body s :: ps) = raws ps := rfl

@[simp] theorem raws_str (s : Str) (ps : List Piece) :
    raws (str s :: ps) = s.toList ++ raws ps := by
  cases s <;> rfl

theorem raws_field {label : Piece} (hl : raws [label] = []) (s : Str) :
    raws (field label s) = s.toList := by
  cases s with
  | none => rfl
  | some s => rw [field, ← List.singleton_append, raws_append, hl]; rfl

theorem raws_folder (P : Peer) : raws (getPeerFilename P ++ [txt "_files"]) = [] := by
  rw [getPeerFilename]
  split <;> rfl

theorem raws_extension {d : Document} {ext : Piece} (h : extension d = some ext) :
    raws [ext] = extensionRaw d := by
  rw [extension] at h
  rw [extensionRaw]
  split_ifs at h with h1 h2 h3 h4
  · obtain rfl := Option.some.inj h; simp [h1]
  · obtain rfl := Option.some.inj h; simp [h2]
  · obtain rfl := Option.some.inj h; simp [h3]
  · obtain rfl := Option.some.inj h; simp [h4]
  · obtain ⟨c, hc, rfl⟩ := Option.map_eq_some_iff.mp h
    simp [h1, h2, h3, h4, hc]

theorem raws_document {E : Env} {folder ps : List Piece} {d : Option Document} {caption : Str}
    (hf : raws folder = []) (h : documentPart E folder d caption = some ps) :
    raws ps = documentRaw d caption := by
  simp only [documentPart, Option.bind_eq_bind, Option.bind_eq_some_iff, pure] at h
  obtain ⟨d, rfl, ext, hext, h⟩ := h
  obtain rfl := Option.some.inj h
  simp only [createDownloadFile, raws_append, hf, raws_txt, raws_num, raws_extension hext, raws_str,
    raws_nil, documentRaw, Option.elim, List.nil_append, List.append_nil]

theorem raws_media {E : Env} {folder : List Piece} (hf : raws folder = []) {ME : Media}
    {ps : List Piece} (h : mediaPart E folder ME = some ps) : raws ps = mediaRaw ME := by
  cases ME with
  | none => obtain rfl := Option.some.inj h; rfl
  | photo photo caption =>
    simp only [mediaPart, Option.bind_eq_bind, Option.bind_eq_some_iff, pure] at h
    obtain ⟨_, _, h⟩ := h
    obtain rfl := Option.some.inj h
    have hcaption : raws [caption.elim (txt "") .raw] = caption.toList := by cases caption <;> rfl
    simp only [createDownloadFile, raws_append, hf, raws_txt, raws_num, hcaption, raws_nil, mediaRaw,
      List.nil_append]
  | document d caption => exact raws_document hf h
  | audio d caption => exact raws_document hf h
  | video d caption => exact raws_document hf h
  | documentEncr d caption => exact raws_document hf h
  | geo g => obtain rfl := Option.some.inj h; rfl
  | contact phone firstName lastName =>
    obtain rfl := Option.some.inj h
    simp only [raws_txt, raws_str, raws_nil, mediaRaw, List.append_nil, List.append_assoc]
  | unsupported => obtain rfl := Option.some.inj h; rfl
  | webpage webpage caption =>
    simp only [mediaPart, Option.bind_eq_bind, Option.bind_eq_some_iff, pure] at h
    obtain ⟨w, rfl, h⟩ := h
    obtain rfl := Option.some.inj h
    have hcaption : raws (caption.elim [] fun c => [txt "<a href='", .raw c, txt "'>", .raw c,
        txt "</a>"]) = caption.toList ++ caption.toList := by cases caption <;> rfl
    have hfield := fun (s : Str) (label : Piece) (hl : raws [label] = []) => raws_field hl s
    simp only [raws_append, hcaption, hfield _ (txt _ _) rfl, raws_txt, raws_nil, mediaRaw,
      Option.elim_some, List.nil_append, List.append_assoc]
  | venue g title address provider venueId =>
    obtain rfl := Option.some.inj h
    have hfield := fun (s : Str) (label : Piece) (hl : raws [label] = []) => raws_field hl s
    simp only [raws_append, hfield _ (txt _ _) rfl, raws_txt, raws_generated, raws_nil, mediaRaw,
      List.nil_append]
  | other => obtain rfl := Option.some.inj h; rfl

theorem raws_bodyPart (E : Env) (message : Str) : raws (bodyPart E message) = [] := by
  match message with
  | none => rfl
  | some [] => rfl
  | some (c :: m) =>
    rw [bodyPart]
    split_ifs <;> rfl

theorem raws_operation (M : Message) (own : Bool) (ps : List Piece) :
    raws (operation M own :: ps) = raws ps := by
  rw [operation]
  split_ifs <;> rfl

/-- **The raw pieces of a fragment** are the strings the branches taken print as they are. -/
theorem raws_dump {E : Env} {M : Message} {ps : List Piece} (h : dumpMessageHtml E M = some ps) :
    raws ps = rawStrings E M := by
  simp only [dumpMessageHtml, Option.bind_eq_bind, Option.bind_eq_some_iff, pure] at h
  obtain ⟨sender, hsender, chat, _, fwd, hfwd, media, hmedia, h⟩ := h
  obtain rfl := Option.some.inj h
  have hthumb : raws (sender.elim [] senderThumbnail) = sender.elim [] (·.username.toList) := by
    cases sender with
    | none => rfl
    | some s => simp only [Option.elim, senderThumbnail, raws_txt, raws_str, raws_num, raws_nil,
        List.append_nil]
  have hname : raws (sender.elim [] senderName) = sender.elim [] (·.username.toList) := by
    cases sender with
    | none => rfl
    | some s => simp only [Option.elim, senderName, raws_txt, raws_str, raws_escaped, raws_nil,
        List.append_nil]
  have hforward : raws (fwd.elim [] forwarded) = fwd.elim [] (·.username.toList) := by
    cases fwd with
    | none => rfl
    | some p => simp only [Option.elim, forwarded, raws_txt, raws_str, raws_escaped, raws_nil,
        List.append_nil]
  have hreply : raws (if M.replyId ≠ 0 then reply M.replyId else []) = [] := by
    split_ifs <;> rfl
  have htwice : (sender.elim [] fun s => s.username.toList ++ s.username.toList) =
      sender.elim [] (·.username.toList) ++ sender.elim [] (·.username.toList) := by
    cases sender <;> rfl
  simp only [raws_append, hthumb, hname, hforward, hreply, raws_txt, raws_num, raws_operation,
    raws_generated, raws_media (raws_folder chat) hmedia, raws_bodyPart, raws_nil, List.nil_append,
    List.append_nil, rawStrings, hsender, hfwd, Option.join_some, htwice]

/-- Without `<` in the raw strings no raw piece has a tag. -/
theorem tagless_of_rawStrings {E : Env} {M : Message} {ps : List Piece}
    (h : dumpMessageHtml E M = some ps) (hraw : ∀ s ∈ rawStrings E M, lt ∉ s) :
    ∀ p ∈ ps, Piece.Tagless p := by
  intro p hp
  cases p with
  | raw s => exact hraw s (raws_dump h ▸ mem_raws.mpr hp)
  | _ => trivial

/-! ### Samples -/

def sampleId : PeerId := ⟨.user, 7, 0⟩

def samplePeer : Peer where
  id := sampleId
  printName := some (lit "A")
  username := none
  phone := none
  encrChatOk := false
  deleted := false
  created := true
  firstName := some (lit "A")
  lastName := none
  title := none

/-- Every peer is the user `A`. -/
def sampleEnv : Env where
  peerGet _ := some samplePeer
  ourId := sampleId
  cmpPeerId a b := if a = b then 0 else 1
  localtime _ := ⟨12, 0, 0, 1, 0, 116⟩
  rand := (1, 2)
  fmtReal _ := ⟨lit "0.000000", by decide⟩
  u8IsRtl _ := false

/-- A message to a user with a text and a media. -/
def sampleMessage (message : Str) (media : Media) : Message where
  permanentId := 1
  out := false
  service := false
  fwdFromId := ⟨.other 0, 0, 0⟩
  fromId := sampleId
  toId := sampleId
  replyId := 0
  date := 0
  message := message
  media := media

end TelegramCli.Telegrab.RawStrings
