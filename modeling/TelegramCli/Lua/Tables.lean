import TelegramCli.Lua.Push

/-! # The tables Lua gets

The tables of peers and messages, as they are when they are built: an empty string has no field, a
flag of a message is a Boolean, and the entries of a list are counted from 0. The functions of
`Push` push these tables, whatever stands on the stack (`pushPeer_pushes`, `pushMessage_pushes`). -/

namespace TelegramCli.Lua.Tables

open TelegramCli.Lib.CNumber TelegramCli.Lib.CString TelegramCli.Lib.LuaStack
open TelegramCli.Tgl hiding Message Peer
open TelegramCli.Telegrab.DumpHtml (Str.isEmpty)
open TelegramCli.Json.Pack (Message Action printPermanentMsgId printPermanentPeerId mkUser rank
  unknownName replyMsgId)
open TelegramCli.Lua.Push

/-! ### Tables -/

def field (name : String) (a : Atom) : List Entry := [(str name, .atom a)]

def stringField (name : String) (s : Str) : List Entry :=
  if Str.isEmpty s then [] else field name (.string (s.getD []))

def intField (name : String) (n : ℤ) : List Entry := field name (.integer n)

/-- The name of a type of peers. -/
def peerTypeName (t : PeerType) : String :=
  match t with
  | .user => "user"
  | .chat => "chat"
  | .encrChat => "encr_chat"
  | _ => "channel"

def userFields (P : Peer) : List Entry :=
  [stringField "first_name" P.firstName, stringField "last_name" P.lastName,
   stringField "real_first_name" P.realFirstName, stringField "real_last_name" P.realLastName,
   stringField "phone" P.phone, stringField "username" P.username,
   if P.userAccessHash ≠ 0 then intField "access_hash" 1 else []].flatten

/-- The members with their places, where `userTable` is the table of a user. -/
def membersTable (userTable : ℤ → Value Atom) (users : List (ℤ × ℤ)) : Value Atom :=
  .table (users.zipIdx.flatMap fun u => [(.atom (.integer u.2), userTable u.1.1)])

def chatFields (userTable : ℤ → Value Atom) (P : Peer) : List Entry :=
  [stringField "title" P.title, intField "members_num" P.users.usersNum,
   P.users.userList.elim [] fun users => [(str "members", membersTable userTable users)]].flatten

def channelFields (P : Peer) : List Entry :=
  [stringField "title" P.title, stringField "about" P.about,
   intField "participants_count" P.participantsCount, intField "admins_count" P.adminsCount,
   intField "kicked_count" P.kickedCount].flatten

/-- What is told of every peer. -/
def headFields (E : Env) (id : PeerId) (P : Option Peer) : List Entry :=
  [stringField "id" (some (printPermanentPeerId E.json (P.elim id (·.id)))),
   field "peer_type" (.string (lit (peerTypeName id.peerType))),
   intField "peer_id" id.peerId].flatten

/-- The table of a peer, where `userTable` is the table of a user. -/
def peerTableOf (userTable : ℤ → Value Atom) (E : Env) (id : PeerId) (P : Option Peer) :
    Value Atom :=
  .table (headFields E id P ++
    match P.filter (·.created) with
    | none => field "print_name" (.string ((unknownName id).getD []))
    | some P => [stringField "print_name" P.printName, intField "flags" P.flags,
        match id.peerType with
        | .user => userFields P
        | .chat => chatFields userTable P
        | .encrChat => [(str "user", userTable P.userId)]
        | _ => channelFields P].flatten)

/-- The table of a user; users have no members. -/
def userTable (E : Env) (n : ℤ) : Value Atom :=
  peerTableOf (fun _ => .table []) E (mkUser n) (E.peerGet (mkUser n))

def peerTable (E : Env) (id : PeerId) (P : Option Peer) : Value Atom :=
  peerTableOf (userTable E) E id P

def knownPeerTable (E : Env) (id : PeerId) : Value Atom := peerTable E id (E.peerGet id)

/-- The numbers of the flags that are set, with their names. -/
def updateTable (F : UpdateFlags) : Value Atom :=
  .table ((F.tests.filter (·.1)).zipIdx.map fun t => (.atom (.integer t.2), str t.1.2))

def geoFields (geo : Geo) : List Entry :=
  field "longitude" (.number geo.longitude) ++ field "latitude" (.number geo.latitude)

def typed (type : String) (fields : List (List Entry)) : Value Atom :=
  .table (stringField "type" (some (lit type)) ++ fields.flatten)

def mediaValue (M : Message) : Value Atom :=
  match M.media with
  | .photo _ caption => typed "photo" [stringField "caption" caption]
  | .document _ _ | .audio _ _ | .video _ _ | .documentEncr _ _ => typed "document" []
  | .unsupported => typed "unsupported" []
  | .geo geo => typed "geo" [geoFields geo]
  | .contact phone firstName lastName =>
    typed "contact" [stringField "phone" phone, stringField "first_name" firstName,
      stringField "last_name" lastName, intField "user_id" M.userId]
  | .webpage webpage _ => typed "webpage" (webpage.elim [] fun w => [stringField "url" w.url,
      stringField "title" w.title, stringField "description" w.description,
      stringField "author" w.author])
  | .venue geo title address provider venueId =>
    typed "venue" [geoFields geo, stringField "title" title, stringField "address" address,
      stringField "provider" provider, stringField "venue_id" venueId]
  | .none | .other => str "???"

/-- What belongs to the type of an action. -/
def actionFields (E : Env) (action : Action) : List (List Entry) :=
  match action with
  | .chatCreate title | .chatEditTitle title | .channelCreate title => [stringField "title" title]
  | .chatAddUsers users =>
    [users.head?.elim [] fun user => [(str "user", knownPeerTable E (mkUser user))]]
  | .chatAddUserByLink user => [[(str "link_issuer", knownPeerTable E (mkUser user))]]
  | .chatDeleteUser user => [[(str "user", knownPeerTable E (mkUser user))]]
  | .setMessageTtl ttl => [intField "ttl" ttl]
  | .readMessages cnt | .deleteMessages cnt | .screenshotMessages cnt => [intField "count" cnt]
  | .notifyLayer layer => [intField "layer" layer]
  | _ => []

def actionValue (E : Env) (action : Action) : Value Atom :=
  if action = .other then str "???" else typed (actionType action) (actionFields E action)

/-- The text and the media, or the action of a service message. -/
def contentFields (E : Env) (M : Message) : List Entry :=
  if M.service then [(str "action", actionValue E M.action)]
  else [if M.messageLen = 0 then []
      else M.message.elim [] fun s => field "text" (.string (s.take M.messageLen.toNat)),
    if M.media = .none then [] else [(str "media", mediaValue M)]].flatten

/-- What is told of a message that has been created. -/
def createdFields (E : Env) (M : Message) : List Entry :=
  [intField "flags" M.flags,
   if M.fwdFromId.peerType = .other 0 then []
   else [[(str "fwd_from", knownPeerTable E M.fwdFromId)], intField "fwd_date" M.fwdDate].flatten,
   if M.replyId = 0 then []
   else stringField "reply_id" (some (printPermanentMsgId E.json (replyMsgId M))),
   if M.mention then field "mention" (.boolean true) else [],
   [(str "from", knownPeerTable E M.fromId)], [(str "to", knownPeerTable E M.toId)],
   field "out" (.boolean M.out), field "unread" (.boolean M.unread), intField "date" M.date,
   field "service" (.boolean M.service), contentFields E M].flatten

def messageTable (E : Env) (M : Message) : Value Atom :=
  .table ([stringField "id" (some (printPermanentMsgId E.json M.permanent)),
    if M.created then createdFields E M else []].flatten)

/-! ### Fields are added -/

variable {cap depth m n : ℕ} {E : Env}

theorem adds_settle (name : String) (v : Atom) (hdepth : 4 ≤ depth) :
    Adds cap depth m (m ⊔ 4) (field name v) (settleField cap name v) :=
  adds_reserved (str name) (.atom v) hdepth

theorem adds_string {name : String} (hname : name ≠ "") (s : Str) (hdepth : 4 ≤ depth) :
    Adds cap depth m m (stringField name s) (luaAddStringField cap name s) := by
  rw [luaAddStringField, if_neg hname, stringField]
  split_ifs
  · exact adds_nil
  · exact (adds_settle name _ hdepth).mono le_rfl le_rfl (by omega)

theorem adds_num {name : String} (hname : name ≠ "") (v : Atom) (hdepth : 4 ≤ depth) :
    Adds cap depth m m (field name v) (luaAddNumField cap name v) := by
  rw [luaAddNumField, if_neg hname]
  exact (adds_settle name _ hdepth).mono le_rfl le_rfl (by omega)

/-- A string that is there leaves room behind it. -/
theorem adds_string_room {name : String} (hname : name ≠ "") {s : Str}
    (hs : Str.isEmpty s = false) (hdepth : 4 ≤ depth) :
    Adds cap depth m (m ⊔ 4) (stringField name s) (luaAddStringField cap name s) := by
  have hfull : ¬ Str.isEmpty s = true := by rw [hs]; decide
  rw [luaAddStringField, if_neg hname, stringField, if_neg hfull, if_neg hfull]
  exact adds_settle name _ hdepth

/-- A value for which room has been reserved. -/
theorem adds_store (name : String) {v : Value Atom} {p : Op Atom}
    (hp : Pushes cap depth n n v p) (hm : n + 2 ≤ m) :
    Adds cap (depth + 2) m m [(str name, v)] (storeField name p) :=
  (adds_entry (str name) hp hm).mono le_rfl le_rfl (by omega)

theorem adds_if {c : Prop} [Decidable c] {es fs : List Entry} {p q : Op Atom}
    (hp : c → Adds cap depth m n es p) (hq : ¬ c → Adds cap depth m n fs q) :
    Adds cap depth m n (if c then es else fs) (if c then p else q) := by
  split_ifs with h
  · exact hp h
  · exact hq h

/-! ### Peers -/

theorem adds_user (P : Peer) (hdepth : 5 ≤ depth) :
    Adds cap depth m m (userFields P) (pushUser cap P) := by
  have hfield : ∀ {name : String} (s : Str), name ≠ "" → Adds cap depth (m ⊔ 5) (m ⊔ 5)
      (stringField name s) (luaAddStringField cap name s) :=
    fun s hname => adds_string hname s (by omega)
  refine Adds.mono (adds_checkStack 4 hdepth (adds_steps ?_)) le_rfl le_rfl (by omega)
  refine .cons (hfield _ (by decide)) (.cons (hfield _ (by decide)) (.cons (hfield _ (by decide))
    (.cons (hfield _ (by decide)) (.cons (hfield _ (by decide)) (.cons (hfield _ (by decide))
      (.cons ?_ .nil))))))
  exact adds_if (fun _ => adds_num (by decide) _ (by omega)) fun _ => adds_nil

theorem adds_channel (P : Peer) (hdepth : 5 ≤ depth) :
    Adds cap depth m m (channelFields P) (pushChannel cap P) := by
  have hnum : ∀ {name : String} (k : ℤ), name ≠ "" → Adds cap depth (m ⊔ 5) (m ⊔ 5)
      (intField name k) (luaAddNumField cap name (.integer k)) :=
    fun k hname => adds_num hname _ (by omega)
  refine Adds.mono (adds_checkStack 4 hdepth (adds_steps ?_)) le_rfl le_rfl (by omega)
  exact .cons (adds_string (by decide) _ (by omega)) (.cons (adds_string (by decide) _ (by omega))
    (.cons (hnum _ (by decide)) (.cons (hnum _ (by decide)) (.cons (hnum _ (by decide)) .nil))))

/-- The name of the type, for which room has been reserved. -/
theorem pushes_peerType {t : PeerType} (ht : t.IsChat) (hm : 0 < m) :
    Pushes cap depth m m (str (peerTypeName t)) (pushTglPeerType t) := by
  rcases ht with rfl | rfl | rfl | rfl <;> exact pushes_push _ hm

theorem adds_head {id : PeerId} (hid : id.peerType.IsChat) (P : Option Peer) (hdepth : 4 ≤ depth) :
    Adds cap depth m (m ⊔ 4) (headFields E id P) (pushPeerHead cap E id P) := by
  have hname : Pushes cap 2 2 2 (str (peerTypeName id.peerType)) (pushTglPeerType id.peerType) :=
    pushes_peerType hid zero_lt_two
  have htype : Adds cap depth (m ⊔ 4) (m ⊔ 4) (field "peer_type"
      (.string (lit (peerTypeName id.peerType))))
      (storeField "peer_type" (pushTglPeerType id.peerType)) :=
    (adds_store "peer_type" hname (by omega)).mono hdepth le_rfl (by omega)
  exact adds_cons (adds_string_room (by decide) rfl hdepth)
    (adds_cons htype (adds_cons (adds_num (by decide) _ hdepth) adds_nil))

/-- The peers that can be pushed: the type is known, and a chat has a title. -/
def PeerPushable (id : PeerId) (P : Option Peer) : Prop :=
  id.peerType.IsChat ∧
    (id.peerType = .chat → ∀ Q, P.filter (·.created) = some Q → Q.title ≠ none)

instance (id : PeerId) (P : Option Peer) : Decidable (PeerPushable id P) := by
  unfold PeerPushable PeerType.IsChat
  infer_instance

/-- The members, where a user takes one slot and reserves up to five. -/
theorem adds_members {pushUser : ℤ → Op Atom} {userTable : ℤ → Value Atom}
    (huser : ∀ k, Pushes cap 5 1 1 (userTable k) (pushUser k)) (users : List (ℤ × ℤ))
    (hm : 5 ≤ m) : Adds cap 9 m m [(str "members", membersTable userTable users)]
      (storeField "members" (steps [newTable, pushMembers pushUser users])) := by
  have hmember : ∀ u ∈ users.zipIdx, Adds cap 7 3 3 [(.atom (.integer u.2), userTable u.1.1)]
      (steps [push (.atom (.integer u.2)), pushUser u.1.1, setTable]) := fun u _ =>
    (adds_entry _ (huser u.1.1) le_rfl).mono le_rfl le_rfl (by omega)
  have hmembers : Pushes cap 7 3 3 (membersTable userTable users)
      (steps [newTable, pushMembers pushUser users]) := by
    have hadds := adds_cons (adds_map hmember) adds_nil
    rw [List.append_nil] at hadds
    exact pushes_table (by omega) hadds
  exact adds_store "members" hmembers hm

theorem adds_chat {pushUser : ℤ → Op Atom} {userTable : ℤ → Value Atom}
    (huser : ∀ k, Pushes cap 5 1 1 (userTable k) (pushUser k)) {P : Peer} (htitle : P.title ≠ none) :
    Adds cap 9 m m (chatFields userTable P) (pushChat cap pushUser P) := by
  have hroom : 5 ≤ m ⊔ (1 + 4) := le_max_right _ _
  refine Adds.mono (adds_checkStack 4 (by omega) (adds_check htitle (adds_steps ?_))) le_rfl le_rfl
    (le_max_right _ _)
  refine .cons (adds_string (by decide) _ (by omega)) (.cons (adds_num (by decide) _ (by omega))
    (.cons ?_ .nil))
  cases P.users.userList with
  | none => exact adds_nil
  | some users => exact adds_members huser users hroom

theorem adds_encrChat {pushUser : ℤ → Op Atom} {userTable : ℤ → Value Atom}
    (huser : ∀ k, Pushes cap 5 1 1 (userTable k) (pushUser k)) (P : Peer) :
    Adds cap 9 m m [(str "user", userTable P.userId)] (pushEncrChat cap pushUser P) := by
  have hstore : Adds cap 9 (m ⊔ (1 + 4)) (m ⊔ (1 + 4)) [(str "user", userTable P.userId)]
      (storeField "user" (pushUser P.userId)) :=
    (adds_store "user" (huser P.userId) (m := m ⊔ (1 + 4)) (by omega)).mono (by omega) le_rfl
      (le_max_right _ _)
  have hsteps := adds_cons hstore adds_nil
  rw [List.append_nil] at hsteps
  exact (adds_checkStack 4 (by omega) hsteps).mono le_rfl le_rfl (le_max_right _ _)

theorem adds_unknownName {id : PeerId} (hid : id.peerType.IsChat) (hm : 3 ≤ m) (hdepth : 2 ≤ depth) :
    Adds cap depth m m (field "print_name" (.string ((unknownName id).getD [])))
      (pushUnknownName id) := by
  have hname : ∃ s, unknownName id = some s := by
    unfold unknownName
    rcases hid with h | h | h | h <;> rw [h] <;> exact ⟨_, rfl⟩
  obtain ⟨s, hs⟩ := hname
  have hpush : Pushes cap 0 1 1 (.atom (Atom.string s)) (push (.atom (Atom.string s))) :=
    pushes_push _ zero_lt_one
  rw [pushUnknownName, hs]
  exact (adds_store "print_name" hpush hm).mono hdepth le_rfl (le_max_right _ _)

/-- A peer, whatever its type adds. -/
theorem pushes_peer {id : PeerId} (hid : id.peerType.IsChat) {P : Option Peer} (hdepth : 4 ≤ depth)
    {fields : Peer → List Entry} {rest : Peer → Op Atom}
    (hrest : ∀ Q, P.filter (·.created) = some Q → Adds cap depth 4 4 (fields Q) (rest Q)) :
    Pushes cap depth 1 1
      (.table (headFields E id P ++
        match P.filter (·.created) with
        | none => field "print_name" (.string ((unknownName id).getD []))
        | some P => [stringField "print_name" P.printName, intField "flags" P.flags,
            fields P].flatten))
      (steps [newTable, pushPeerHead cap E id P,
        match P.filter (·.created) with
        | none => pushUnknownName id
        | some P => steps [luaAddStringField cap "print_name" P.printName,
            luaAddNumField cap "flags" (.integer P.flags), rest P]]) := by
  have hhead : Adds cap depth 1 (1 ⊔ 4) (headFields E id P) (pushPeerHead cap E id P) :=
    adds_head hid P hdepth
  suffices htail : Adds cap depth 4 4 _ _ by
    have hsteps := adds_cons hhead (adds_cons htail adds_nil)
    rw [List.append_nil] at hsteps
    exact (pushes_table zero_lt_one hsteps).mono le_rfl le_rfl (by omega)
  cases hP : P.filter (·.created) with
  | none => exact adds_unknownName hid (by omega) (by omega)
  | some Q => exact adds_steps (.cons (adds_string (by decide) _ hdepth)
      (.cons (adds_num (by decide) _ hdepth) (.cons (hrest Q hP) .nil)))

theorem pushes_userPeer {id : PeerId} (hid : id.peerType = .user) (P : Option Peer)
    (table : ℤ → Value Atom) :
    Pushes cap 5 1 1 (peerTableOf table E id P) (pushPeer cap E id P) := by
  obtain ⟨t, k, a⟩ := id
  obtain rfl : t = .user := hid
  rw [pushPeer]
  exact pushes_peer (.inl rfl) (by omega) fun Q _ => adds_user Q le_rfl

/-- **A peer is pushed** as its table. -/
theorem pushPeer_pushes {id : PeerId} {P : Option Peer} (h : PeerPushable id P) :
    Pushes cap 9 1 1 (peerTable E id P) (pushPeer cap E id P) := by
  obtain ⟨hid, htitle⟩ := h
  have huser : ∀ k, Pushes cap 5 1 1 (userTable E k)
      (pushPeer cap E (mkUser k) (E.peerGet (mkUser k))) := fun k => pushes_userPeer rfl _ _
  obtain ⟨t, k, a⟩ := id
  rcases hid with hid | hid | hid | hid
  · exact (pushes_userPeer hid P _).mono (by omega) le_rfl (le_max_right _ _)
  · obtain rfl : t = .chat := hid
    rw [pushPeer]
    exact pushes_peer (.inr (.inl rfl)) (by omega) fun Q hQ => adds_chat huser (htitle rfl Q hQ)
  · obtain rfl : t = .channel := hid
    rw [pushPeer]
    exact pushes_peer (.inr (.inr (.inl rfl))) (by omega) fun Q _ => adds_channel Q (by omega)
  · obtain rfl : t = .encrChat := hid
    rw [pushPeer]
    exact pushes_peer (.inr (.inr (.inr rfl))) (by omega) fun Q _ => adds_encrChat huser Q

theorem pushKnownPeer_pushes {id : PeerId} (h : PeerPushable id (E.peerGet id)) :
    Pushes cap 9 1 1 (knownPeerTable E id) (pushKnownPeer cap E id) := pushPeer_pushes h

/-! ### Updates -/

theorem adds_arr (num : ℤ) {value : String} (hvalue : value ≠ "") (hdepth : 4 ≤ depth) :
    Adds cap depth m m [(.atom (.integer num), str value)] (luaAddStringFieldArr cap num value) := by
  rw [luaAddStringFieldArr, if_neg hvalue]
  exact (adds_reserved _ (str value) hdepth).mono le_rfl le_rfl (by omega)

theorem adds_tests (hdepth : 4 ≤ depth) : ∀ {ts : List (Bool × String)} {cc : ℕ},
    (∀ t ∈ ts, t.2 ≠ "") →
    Adds cap depth m m (((ts.filter (·.1)).zipIdx cc).map fun t =>
      (.atom (.integer t.2), str t.1.2)) (steps (pushTests cap cc ts))
  | [], _, _ => adds_nil
  | (true, name) :: ts, cc, h => by
    rw [List.filter_cons_of_pos rfl, List.zipIdx_cons, List.map_cons, ← List.singleton_append]
    exact adds_cons (adds_arr cc (h (true, name) List.mem_cons_self) hdepth)
      (adds_tests hdepth fun t ht => h t (List.mem_cons_of_mem _ ht))
  | (false, _) :: ts, _, h => by
    rw [List.filter_cons_of_neg Bool.false_ne_true]
    exact adds_tests hdepth fun t ht => h t (List.mem_cons_of_mem _ ht)

/-- **The names of an update** are pushed: those whose flags are set, counted from 0. -/
theorem pushUpdateTypes_pushes (F : UpdateFlags) :
    Pushes cap 4 0 0 (updateTable F) (pushUpdateTypes cap F) := by
  have hnames : ∀ t ∈ F.tests, t.2 ≠ "" := by
    simp [UpdateFlags.tests]
  have htests : Adds cap 4 4 4 _ (steps [steps (pushTests cap 0 F.tests)]) :=
    adds_cons (adds_tests le_rfl hnames) adds_nil
  rw [List.append_nil] at htests
  exact (pushes_checkStack 4 le_rfl (pushes_table zero_lt_four htests)).mono le_rfl le_rfl
    (Nat.zero_le _)

/-! ### Messages -/

theorem adds_geo (geo : Geo) (hdepth : 4 ≤ depth) :
    Adds cap depth m m (geoFields geo) (luaAddGeo cap geo) := by
  have hnum : ∀ {name : String} (d : Double), name ≠ "" → Adds cap depth m m
      (field name (.number d)) (luaAddNumField cap name (.number d)) :=
    fun d hname => adds_num hname _ hdepth
  exact adds_cons (hnum geo.longitude (by decide)) (adds_cons (hnum geo.latitude (by decide))
    adds_nil)

/-- A table with its type. -/
theorem pushes_typed {type : String} {fields : List (List Entry)} {ps : List (Op Atom)}
    (hm : 0 < m) (hdepth : 4 ≤ depth) (h : List.Forall₂ (Adds cap depth m m) fields ps) :
    Pushes cap depth m m (typed type fields) (typedTable cap type ps) := by
  have hsteps := adds_cons (adds_steps h) adds_nil
  rw [List.append_nil] at hsteps
  exact pushes_table hm (adds_cons (adds_string (by decide) _ hdepth) hsteps)

/-- The media whose records are there. -/
def MediaPushable (M : Message) : Prop := ∀ caption, M.media ≠ .webpage none caption

theorem pushMedia_pushes {M : Message} (h : MediaPushable M) :
    Pushes cap 4 0 0 (mediaValue M) (pushMedia cap M) := by
  have hstr : ∀ {name : String} (s : Str), name ≠ "" → Adds cap 4 4 4 (stringField name s)
      (luaAddStringField cap name s) := fun s hname => adds_string hname s le_rfl
  unfold mediaValue
  refine Pushes.mono (n := 4) (pushes_checkStack 4 le_rfl ?_) le_rfl le_rfl (Nat.zero_le _)
  change Pushes cap 4 4 4 _ _
  cases hmedia : M.media with
  | none => exact pushes_push _ (by omega)
  | photo photo caption =>
    exact pushes_typed (by omega) le_rfl (.cons (hstr _ (by decide)) .nil)
  | document d caption => exact pushes_typed (by omega) le_rfl .nil
  | audio d caption => exact pushes_typed (by omega) le_rfl .nil
  | video d caption => exact pushes_typed (by omega) le_rfl .nil
  | documentEncr d caption => exact pushes_typed (by omega) le_rfl .nil
  | geo geo => exact pushes_typed (by omega) le_rfl (.cons (adds_geo geo le_rfl) .nil)
  | contact phone firstName lastName =>
    exact pushes_typed (by omega) le_rfl (.cons (hstr _ (by decide)) (.cons (hstr _ (by decide))
      (.cons (hstr _ (by decide)) (.cons (adds_num (by decide) _ le_rfl) .nil))))
  | unsupported => exact pushes_typed (by omega) le_rfl .nil
  | webpage webpage caption =>
    cases webpage with
    | none => exact absurd hmedia (h caption)
    | some w => exact pushes_typed (by omega) le_rfl (.cons (hstr _ (by decide))
        (.cons (hstr _ (by decide)) (.cons (hstr _ (by decide))
          (.cons (hstr _ (by decide)) .nil))))
  | venue geo title address provider venueId =>
    exact pushes_typed (by omega) le_rfl (.cons (adds_geo geo le_rfl) (.cons (hstr _ (by decide))
      (.cons (hstr _ (by decide)) (.cons (hstr _ (by decide)) (.cons (hstr _ (by decide)) .nil)))))
  | other => exact pushes_push _ (by omega)

/-- An action that adds users has one. -/
def ActionPushable (action : Action) : Prop :=
  match action with
  | .chatAddUsers users => users ≠ []
  | _ => True

theorem adds_addUser (E : Env) {name : String} (user : ℤ) (hm : 3 ≤ m) :
    Adds cap 11 m m [(str name, knownPeerTable E (mkUser user))]
      (luaAddUser cap E name user) := by
  have huser : PeerPushable (mkUser user) (E.peerGet (mkUser user)) :=
    ⟨.inl rfl, fun h => PeerType.noConfusion h⟩
  exact adds_store name (pushKnownPeer_pushes huser) hm

theorem pushService_pushes {action : Action} (h : ActionPushable action) :
    Pushes cap 11 0 0 (actionValue E action) (pushService cap E action) := by
  have htitle : ∀ title : Str, List.Forall₂ (Adds cap 11 4 4) [stringField "title" title]
      [luaAddStringField cap "title" title] := fun title =>
    .cons (adds_string (by decide) _ (by omega)) .nil
  have hnum : ∀ {name : String} (k : ℤ), name ≠ "" → List.Forall₂ (Adds cap 11 4 4)
      [intField name k] [luaAddNumField cap name (.integer k)] := fun k hname =>
    .cons (adds_num hname _ (by omega)) .nil
  have huser : ∀ (name : String) (k : ℤ), List.Forall₂ (Adds cap 11 4 4)
      [[(str name, knownPeerTable E (mkUser k))]] [luaAddUser cap E name k] := fun name k =>
    .cons (adds_addUser E k (by omega)) .nil
  refine Pushes.mono (n := 4) (pushes_checkStack 4 (by omega) ?_) le_rfl le_rfl (Nat.zero_le _)
  change Pushes cap 11 4 4 _ _
  have htyped : ∀ {type : String} {fields : List (List Entry)} {ps : List (Op Atom)},
      List.Forall₂ (Adds cap 11 4 4) fields ps →
      Pushes cap 11 4 4 (typed type fields) (typedTable cap type ps) :=
    fun h => pushes_typed zero_lt_four (by omega) h
  cases action with
  | chatCreate title => exact htyped (htitle title)
  | chatEditTitle title => exact htyped (htitle title)
  | channelCreate title => exact htyped (htitle title)
  | chatAddUsers users =>
    cases users with
    | nil => exact absurd rfl h
    | cons user users => exact htyped (huser _ _)
  | chatAddUserByLink user => exact htyped (huser _ _)
  | chatDeleteUser user => exact htyped (huser _ _)
  | setMessageTtl ttl => exact htyped (hnum _ (by decide))
  | readMessages cnt => exact htyped (hnum _ (by decide))
  | deleteMessages cnt => exact htyped (hnum _ (by decide))
  | screenshotMessages cnt => exact htyped (hnum _ (by decide))
  | notifyLayer layer => exact htyped (hnum _ (by decide))
  | other => exact pushes_push _ (by omega)
  | _ => exact htyped .nil

/-- The length of the text is known, up to its terminator. -/
def TextPushable (M : Message) : Prop :=
  ∀ s, M.message = some s → 0 ≤ M.messageLen ∧ M.messageLen ≤ s.length

theorem adds_text {M : Message} (h : TextPushable M) (hm : 3 ≤ m) (hdepth : 2 ≤ depth) :
    Adds cap depth m m (if M.messageLen = 0 then []
      else M.message.elim [] fun s => field "text" (.string (s.take M.messageLen.toNat)))
      (pushText M) := by
  unfold pushText
  cases hmessage : M.message with
  | none =>
    rw [Option.elim_none, ite_self]
    exact adds_nil
  | some s =>
    refine adds_if (fun _ => adds_nil) fun _ => ?_
    have hpush : Pushes cap 0 1 1 (.atom (Atom.string (s.take M.messageLen.toNat)))
        (push (.atom (Atom.string (s.take M.messageLen.toNat)))) := pushes_push _ zero_lt_one
    rw [if_pos (h s hmessage), Option.elim_some]
    exact (adds_store "text" hpush hm).mono hdepth le_rfl (le_max_right _ _)

/-- **What push_message needs**: the peers can be pushed, and what belongs to the text, the media or
the action is there. -/
structure Pushable (E : Env) (M : Message) : Prop where
  peers : ∀ id ∈ [M.fromId, M.toId], PeerPushable id (E.peerGet id)
  forwarded : M.fwdFromId.peerType ≠ .other 0 →
    PeerPushable M.fwdFromId (E.peerGet M.fwdFromId)
  text : M.service = false → TextPushable M
  media : M.service = false → MediaPushable M
  action : M.service = true → ActionPushable M.action

theorem adds_content {M : Message} (h : Pushable E M) (hm : 3 ≤ m) :
    Adds cap 13 m m (contentFields E M) (pushContent cap E M) := by
  unfold contentFields pushContent
  refine adds_if (fun hservice => ?_) fun hservice => adds_steps (.cons ?_ (.cons ?_ .nil))
  · exact adds_store "action" (pushService_pushes (h.action hservice)) (by omega)
  · exact adds_text (h.text (Bool.eq_false_iff.mpr hservice)) hm (by omega)
  · refine adds_if (fun _ => adds_nil) fun _ => ?_
    exact (adds_store "media" (pushMedia_pushes (h.media (Bool.eq_false_iff.mpr hservice)))
      (by omega)).mono (by omega) le_rfl (le_max_right _ _)

theorem adds_created {M : Message} (h : Pushable E M) (hm : 3 ≤ m) :
    Adds cap 13 m m (createdFields E M) (pushCreated cap E M) := by
  have hnum : ∀ {name : String} (k : ℤ), name ≠ "" → Adds cap 13 m m (intField name k)
      (luaAddNumField cap name (.integer k)) := fun k hname => adds_num hname _ (by omega)
  have hpeer : ∀ (name : String) {id : PeerId}, PeerPushable id (E.peerGet id) →
      Adds cap 13 m m [(str name, knownPeerTable E id)] (storeField name (pushKnownPeer cap E id)) :=
    fun name _ hid => (adds_store name (pushKnownPeer_pushes hid) hm).mono (by omega) le_rfl
      (le_max_right _ _)
  have hatom : ∀ (name : String) (a : Atom),
      Adds cap 13 m m (field name a) (storeField name (push (.atom a))) := fun name a =>
    have hpush : Pushes cap 11 1 1 (.atom a) (push (.atom a)) := pushes_push _ zero_lt_one
    adds_store name hpush hm
  refine adds_steps (.cons (hnum _ (by decide)) (.cons ?_ (.cons ?_ (.cons ?_ (.cons ?_ (.cons ?_
    (.cons (hatom _ _) (.cons (hatom _ _) (.cons (hatom _ _) (.cons (hatom _ _)
      (.cons (adds_content h hm) .nil)))))))))))
  · exact adds_if (fun _ => adds_nil) fun hfwd =>
      adds_steps (.cons (hpeer _ (h.forwarded hfwd)) (.cons (hnum _ (by decide)) .nil))
  · exact adds_if (fun _ => adds_nil) fun _ => adds_string (by decide) _ (by omega)
  · exact adds_if (fun _ => hatom _ _) fun _ => adds_nil
  · exact hpeer _ (h.peers _ List.mem_cons_self)
  · exact hpeer _ (h.peers _ (List.mem_cons_of_mem _ List.mem_cons_self))

/-- **A message is pushed** as its table. -/
theorem pushMessage_pushes {M : Message} (h : M.created = true → Pushable E M) :
    Pushes cap 13 0 0 (messageTable E M) (pushMessage cap E M) := by
  refine Pushes.mono (n := 10) (m := 0) ?_ le_rfl le_rfl (Nat.zero_le _)
  refine leads_cons (leads_checkStack 10 (by rw [List.length_nil]; omega))
    (pushes_table (by decide) ?_)
  refine adds_steps (.cons (adds_string (by decide) _ (by omega)) (.cons ?_ .nil))
  exact adds_if (fun hcreated => adds_created (h hcreated) (by decide)) fun _ => adds_nil

end TelegramCli.Lua.Tables
