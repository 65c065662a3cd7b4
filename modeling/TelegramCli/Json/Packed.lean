import TelegramCli.Json.Pack

/-! # Which messages are packed

`jsonPackMessage` gives an object with the fields of the message, and no assertion fails, exactly
when the message is not a typing action, which appends to an object, and has the records and numbers
its media or action needs (`packs_iff`). The strings are UTF-8 and the peers are users, chats,
channels and secret chats (`Valid`). -/

namespace TelegramCli.Json.Packed

open TelegramCli.Lib.CNumber TelegramCli.Lib.CString TelegramCli.Lib.Jansson TelegramCli.Tgl
open TelegramCli.Telegrab.DumpHtml (Tm)
open TelegramCli.Json.Pack

/-! ### Messages with strings that can be packed -/

/-- A string that is packed if it is there. -/
def Text (s : Str) : Prop := ∀ b, s = some b → Utf8 b

/-- A string that is packed in any case. -/
def Needed (s : Str) : Prop := ∃ b, s = some b ∧ Utf8 b

def StringsOk (t : PeerType) (P : Pack.Peer) : Prop :=
  Text P.printName ∧
    match t with
    | .user => Text P.firstName ∧ Text P.lastName ∧ Text P.realFirstName ∧ Text P.realLastName ∧
        Text P.phone ∧ Text P.username
    | .chat | .channel => Needed P.title
    | _ => True

/-- The users packed with a peer. -/
def packedUsers (t : PeerType) (P : Pack.Peer) : List ℤ :=
  match t with
  | .chat => P.adminId :: (P.users.userList.getD []).flatMap fun user => [user.1, user.2]
  | .encrChat => [P.userId]
  | _ => []

/-- The library knows the peer. -/
def Known (E : Env) (id : PeerId) (P : Pack.Peer) : Prop :=
  (E.peerGet id).filter (·.created) = some P

def KnownOk (E : Env) (id : PeerId) : Prop := ∀ P, Known E id P → StringsOk id.peerType P

/-- The peer has one of the four types, and it and the users packed with it have strings that can be
packed. -/
structure PeerOk (E : Env) (id : PeerId) : Prop where
  type : id.peerType.IsChat
  strings : KnownOk E id
  users : ∀ P, Known E id P → ∀ n ∈ packedUsers id.peerType P, KnownOk E (mkUser n)

def MediaOk : Media → Prop
  | .photo _ caption => Text caption
  | .contact phone firstName lastName => Needed phone ∧ Needed firstName ∧ Needed lastName
  | .webpage webpage _ => ∀ w, webpage = some w →
      Text w.url ∧ Text w.title ∧ Text w.description ∧ Text w.author
  | .venue _ title address provider venueId =>
      Text title ∧ Text address ∧ Text provider ∧ Text venueId
  | _ => True

def ActionOk (E : Env) : Action → Prop
  | .chatCreate title | .chatEditTitle title | .channelCreate title => Needed title
  | .chatAddUsers users => ∀ n ∈ users.head?, PeerOk E (mkUser n)
  | .chatAddUserByLink user | .chatDeleteUser user => PeerOk E (mkUser user)
  | _ => True

/-- **A message as the library makes it**: its peers have one of the four types, its strings are
UTF-8, and those packed in any case are there. -/
structure Valid (E : Env) (M : Pack.Message) : Prop where
  fwd : M.fwdFromId.peerType ≠ .other 0 → PeerOk E M.fwdFromId
  sender : PeerOk E M.fromId
  receiver : PeerOk E M.toId
  text : Text M.message
  media : MediaOk M.media
  action : ActionOk E M.action

/-! ### Fields -/

theorem utf8_hexText (bytes : List UInt8) : Utf8 (hexText bytes) := by
  have hdigit : ∀ n < 16, hexDigit n < 128 := by decide
  refine utf8_ascii fun c hc => ?_
  obtain ⟨b, -, hc⟩ := List.mem_flatMap.mp hc
  have hb := b.toNat_lt
  rcases List.mem_cons.mp hc with rfl | hc
  · exact hdigit _ (by omega)
  · rw [List.mem_singleton.mp hc]
    exact hdigit _ (by omega)

theorem utf8_decimal (n : ℤ) : Utf8 (decimal n) := utf8_ascii (decimal_ascii n)

theorem utf8_decimal2 (n : ℤ) : Utf8 (decimal2 n) := by
  unfold decimal2
  split_ifs
  · exact utf8_append (utf8_lit "0") (utf8_decimal n)
  · exact utf8_decimal n

theorem utf8_decimal4 (n : ℤ) : Utf8 (decimal4 n) := by
  have hnat : Utf8 (decimalNat n.natAbs) := by
    rw [← decimal_natCast]
    exact utf8_decimal n.natAbs
  have hzeros : ∀ k : ℕ, Utf8 (List.replicate k 48) := fun k => utf8_ascii fun c hc => by
    rw [List.eq_of_mem_replicate hc]
    decide
  unfold decimal4
  split_ifs
  · exact utf8_append (utf8_lit "-") (utf8_append (hzeros _) hnat)
  · exact utf8_append (hzeros _) hnat

theorem utf8_strFormatTime (tm : Tm) : Utf8 (strFormatTime tm) := by
  unfold strFormatTime
  refine utf8_append (utf8_append (utf8_append (utf8_append (utf8_append (utf8_append (utf8_append
    (utf8_append (utf8_append (utf8_append ?_ ?_) ?_) ?_) ?_) ?_) ?_) ?_) ?_) ?_) ?_
  all_goals first | exact utf8_lit _ | exact utf8_decimal2 _ | exact utf8_decimal4 _

section Fields

variable {ks : List String} {o : Json}

theorem setString_builds (h : Carries ks o) (key : String) {b : List UInt8} (hb : Utf8 b) :
    Builds (key :: ks) (setString key (some b) o) := by
  obtain ⟨v, hv⟩ := jsonString_of_utf8 hb
  unfold setString
  rw [hv]
  exact h.set key v

theorem setString_needed (h : Carries ks o) (key : String) {s : Str} (hs : Needed s) :
    Builds (key :: ks) (setString key s o) := by
  obtain ⟨b, rfl, hb⟩ := hs
  exact setString_builds h key hb

theorem setStringIf_builds (h : Carries ks o) (key : String) {s : Str} (hs : Text s) :
    Builds ks (setStringIf key s o) := by
  unfold setStringIf
  cases s with
  | none => exact h.builds
  | some b => exact (setString_builds h key (hs b rfl)).mono (List.subset_cons_self key ks)

theorem setInteger_builds (h : Carries ks o) (key : String) (n : ℤ) :
    Builds (key :: ks) (setInteger key n o) := h.set key _

theorem setBoolean_builds (h : Carries ks o) (key : String) (b : Bool) :
    Builds (key :: ks) (setBoolean key b o) := h.set key _

/-- A field with a value that was built. -/
theorem setBuilt_builds (h : Carries ks o) (key : String) {x : Option Json} (hx : Builds [] x) :
    Builds (key :: ks) (x >>= fun v => jsonObjectSet o key (some v)) := by
  obtain ⟨v, rfl, -⟩ := hx
  exact h.set key v

end Fields

/-! ### Peers -/

section Peers

variable {E : Env} {id : PeerId} {P : Pack.Peer} {ks : List String} {o : Json}
  {packUser : ℤ → Option Json}

theorem jsonPackPeerType_builds (ht : id.peerType.IsChat) (h : Carries ks o) :
    Builds ks (jsonPackPeerType id o) := by
  have hset : ∀ s : String, Builds ks (setString "peer_type" (some (lit s)) o) := fun s =>
    (setString_builds h "peer_type" (utf8_lit s)).mono (List.subset_cons_self _ _)
  unfold jsonPackPeerType
  rcases ht with ht | ht | ht | ht <;> rw [ht] <;> exact hset _

theorem jsonPackUser_builds (hs : StringsOk .user P) (h : Carries ks o) :
    Builds ks (jsonPackUser E P o) := by
  obtain ⟨-, hfirst, hlast, hrealFirst, hrealLast, hphone, husername⟩ := hs
  refine (setStringIf_builds h "first_name" hfirst).bind fun o h => ?_
  have hwhen : Builds ks (if P.statusWhen = 0 then some o
      else setString "when" (some (strFormatTime (E.localtime P.statusWhen))) o) := by
    split_ifs
    · exact h.builds
    · exact (setString_builds h "when" (utf8_strFormatTime _)).mono (List.subset_cons_self _ _)
  refine hwhen.bind fun o h => ?_
  refine (setStringIf_builds h "last_name" hlast).bind fun o h => ?_
  refine (setStringIf_builds h "real_first_name" hrealFirst).bind fun o h => ?_
  refine (setStringIf_builds h "real_last_name" hrealLast).bind fun o h => ?_
  refine (setStringIf_builds h "phone" hphone).bind fun o h => ?_
  exact setStringIf_builds h "username" husername

/-- The loop over the members, of whom every one is packed. -/
theorem packMembers_array : ∀ {users : List (ℤ × ℤ)} (items : List Json),
    (∀ n ∈ users.flatMap fun user => [user.1, user.2], Builds [] (packUser n)) →
    ∃ l, packMembers packUser users (.array items) = some (.array l)
  | [], items, _ => ⟨items, rfl⟩
  | user :: users, items, h => by
    obtain ⟨peer, hpeer, hobject⟩ := h user.1 (by simp)
    obtain ⟨inviter, hinviter, -⟩ := h user.2 (by simp)
    obtain ⟨member, hmember, -⟩ := hobject.set "inviter" inviter
    have hpack : packMember packUser user = some member := by
      unfold packMember
      rw [hpeer, hinviter]
      exact hmember
    obtain ⟨l, hl⟩ := packMembers_array (items ++ [member]) fun n hn =>
      h n (List.mem_append_right _ hn)
    refine ⟨l, ?_⟩
    rw [packMembers, hpack]
    exact hl

theorem jsonPackChat_builds (hs : StringsOk .chat P)
    (husers : ∀ n ∈ packedUsers .chat P, Builds [] (packUser n)) (h : Carries ks o) :
    Builds [] (jsonPackChat packUser P o) := by
  unfold jsonPackChat
  refine (setString_needed h "title" hs.2).bind fun o h => ?_
  obtain ⟨admin, hadmin, -⟩ := husers P.adminId List.mem_cons_self
  rw [hadmin, Option.bind_eq_bind, Option.bind_some]
  refine (h.set "admin" admin).bind fun o h => ?_
  refine (setInteger_builds h "members_num" P.users.usersNum).bind fun o h => ?_
  cases hlist : P.users.userList with
  | none => exact h.builds.mono (List.nil_subset _)
  | some users =>
    have harray : ∃ l, packMembers packUser users (.array []) = some (.array l) :=
      packMembers_array [] fun n hn => husers n (List.mem_cons_of_mem _ (by rwa [hlist]))
    obtain ⟨l, hl⟩ := harray
    dsimp only
    rw [hl]
    exact (h.set "members" (.array l)).mono (List.nil_subset _)

theorem jsonPackChannel_builds (hs : StringsOk .channel P) (h : Carries ks o) :
    Builds [] (jsonPackChannel P o) := by
  unfold jsonPackChannel
  refine (setString_needed h "title" hs.2).bind fun o h => ?_
  refine (setInteger_builds h "participants_count" _).bind fun o h => ?_
  refine (setInteger_builds h "admins_count" _).bind fun o h => ?_
  exact (setInteger_builds h "kicked_count" _).mono (List.nil_subset _)

theorem jsonPackEncrChat_builds (huser : Builds [] (packUser P.userId)) (h : Carries ks o) :
    Builds [] (jsonPackEncrChat packUser P o) :=
  (setBuilt_builds h "user" huser).mono (List.nil_subset _)

theorem unknownName_builds (ht : id.peerType.IsChat) (h : Carries ks o) :
    Builds ks (setString "print_name" (unknownName id) o) := by
  have hset : ∀ s : String,
      Builds ks (setString "print_name" (some (lit s ++ decimal id.peerId)) o) := fun s =>
    (setString_builds h _ (utf8_append (utf8_lit s) (utf8_decimal _))).mono
      (List.subset_cons_self _ _)
  unfold unknownName
  rcases ht with ht | ht | ht | ht <;> rw [ht] <;> exact hset _

/-- A peer is packed when the users packed with it are. -/
theorem jsonPackPeer_of_users (ht : id.peerType.IsChat) (hknown : KnownOk E id)
    (husers : ∀ P, Known E id P → ∀ n ∈ packedUsers id.peerType P,
      Builds [] (jsonPackPeer E (mkUser n))) : Builds [] (jsonPackPeer E id) := by
  rw [jsonPackPeer]
  have hid := utf8_append (utf8_lit "$") (utf8_hexText (E.peerIdBytes id))
  refine (setString_builds carries_empty "id" hid).bind fun o h => ?_
  refine (jsonPackPeerType_builds ht h).bind fun o h => ?_
  refine (setInteger_builds h "peer_id" _).bind fun o h => ?_
  split
  · exact (unknownName_builds ht h).mono (List.nil_subset _)
  · next P hP =>
    have hs := hknown P hP
    have hname : Utf8 (P.printName.getD []) := by
      cases hprint : P.printName with
      | none => exact utf8_lit ""
      | some b => exact hs.1 b hprint
    have hu := husers P hP
    refine (setString_builds h "print_name" hname).bind fun o h => ?_
    refine (setInteger_builds h "flags" _).bind fun o h => ?_
    split
    · next hty =>
      rw [hty] at hs
      exact (jsonPackUser_builds hs h).mono (List.nil_subset _)
    · next hty =>
      rw [hty] at hs hu
      exact jsonPackChat_builds hs hu h
    · next hty =>
      rw [hty] at hu
      exact jsonPackEncrChat_builds (hu P.userId List.mem_cons_self) h
    · next hty =>
      rw [hty] at hs
      exact jsonPackChannel_builds hs h
    · next h1 h2 h3 h4 =>
      rcases ht with ht | ht | ht | ht
      · exact absurd ht h1
      · exact absurd ht h2
      · exact absurd ht h4
      · exact absurd ht h3

/-- **Peers are packed**. -/
theorem jsonPackPeer_builds (h : PeerOk E id) : Builds [] (jsonPackPeer E id) :=
  jsonPackPeer_of_users h.type h.strings fun P hP n hn =>
    jsonPackPeer_of_users (.inl rfl) (h.users P hP n hn) fun _ _ _ hm => absurd hm List.not_mem_nil

end Peers

/-! ### What a message needs -/

/-- `json_real` has values for the coordinates. -/
def HasReals (E : Env) (geo : Geo) : Prop :=
  (E.jsonReal geo.longitude).isSome ∧ (E.jsonReal geo.latitude).isSome

/-- The records and numbers of the media are there. -/
def MediaWhole (E : Env) : Media → Prop
  | .geo geo => HasReals E geo
  | .venue geo _ _ _ _ => HasReals E geo
  | .webpage webpage _ => webpage ≠ none
  | _ => True

/-- The action is not `typing`, and users that were added are there. -/
def ActionWhole : Action → Prop
  | .typing _ => False
  | .chatAddUsers users => users ≠ []
  | _ => True

/-- **The message can be packed**. -/
def Packable (E : Env) (M : Pack.Message) : Prop :=
  M.created → if M.service then ActionWhole M.action else MediaWhole E M.media

/-- The fields of a message. -/
def messageFields (M : Pack.Message) : List String :=
  if M.created then ["event", "id", "from", "to", "out", "unread", "service", "date"]
  else ["event", "id"]

/-- **No assertion fails**, and the object has the fields of the message. -/
def Packs (E : Env) (M : Pack.Message) : Prop := Builds (messageFields M) (jsonPackMessage E M)

section Messages

variable {E : Env} {M : Pack.Message} {ks : List String} {o : Json}

/-! ### Media -/

theorem setCoordinates_builds {geo : Geo} (hreals : HasReals E geo) (h : Carries ks o) :
    Builds ks (setCoordinates E geo o) := by
  obtain ⟨longitude, hlong⟩ := Option.isSome_iff_exists.mp hreals.1
  obtain ⟨latitude, hlat⟩ := Option.isSome_iff_exists.mp hreals.2
  unfold setCoordinates
  rw [hlong, hlat]
  refine (h.set "longitude" longitude).bind fun o h => ?_
  exact (h.set "latitude" latitude).mono (List.subset_cons_of_subset _ (List.subset_cons_self _ _))

/-- A missing coordinate is a null pointer. -/
theorem setCoordinates_none {geo : Geo} (hreals : ¬ HasReals E geo) (o : Json) :
    setCoordinates E geo o = none := by
  have hnull : ∀ (v : Json) (key : String), jsonObjectSet v key none = none := fun v key => by
    cases v <;> rfl
  unfold setCoordinates
  cases hlong : E.jsonReal geo.longitude with
  | none =>
    rw [hnull]
    rfl
  | some longitude =>
    have hlat : E.jsonReal geo.latitude = none := by
      by_contra hne
      exact hreals ⟨by rw [hlong]; rfl, Option.isSome_iff_ne_none.mpr hne⟩
    rw [hlat, Option.bind_eq_bind, Option.bind_eq_none_iff]
    exact fun v _ => hnull v _

theorem jsonPackMedia_builds (hs : MediaOk M.media) (hwhole : MediaWhole E M.media) :
    Builds [] (jsonPackMedia E M) := by
  have htype : ∀ s : String, Builds ["type"] (setString "type" (some (lit s)) (.object [])) :=
    fun s => setString_builds carries_empty "type" (utf8_lit s)
  unfold jsonPackMedia
  cases hm : M.media with
  | photo photo caption =>
    rw [hm] at hs
    refine (htype "photo").bind fun o h => ?_
    exact (setStringIf_builds h "caption" hs).mono (List.nil_subset _)
  | geo geo =>
    rw [hm] at hwhole
    refine (htype "geo").bind fun o h => ?_
    exact (setCoordinates_builds hwhole h).mono (List.nil_subset _)
  | contact phone firstName lastName =>
    rw [hm] at hs
    refine (htype "contact").bind fun o h => ?_
    refine (setString_needed h "phone" hs.1).bind fun o h => ?_
    refine (setString_needed h "first_name" hs.2.1).bind fun o h => ?_
    refine (setString_needed h "last_name" hs.2.2).bind fun o h => ?_
    exact (setInteger_builds h "user_id" _).mono (List.nil_subset _)
  | webpage webpage caption =>
    rw [hm] at hs hwhole
    obtain ⟨w, rfl⟩ := Option.ne_none_iff_exists'.mp hwhole
    obtain ⟨hurl, htitle, hdescription, hauthor⟩ := hs w rfl
    refine (htype "webpage").bind fun o h => ?_
    rw [Option.bind_eq_bind, Option.bind_some]
    refine (setStringIf_builds h "url" hurl).bind fun o h => ?_
    refine (setStringIf_builds h "title" htitle).bind fun o h => ?_
    refine (setStringIf_builds h "description" hdescription).bind fun o h => ?_
    exact (setStringIf_builds h "author" hauthor).mono (List.nil_subset _)
  | venue geo title address provider venueId =>
    rw [hm] at hs hwhole
    refine (htype "venue").bind fun o h => ?_
    refine (setCoordinates_builds hwhole h).bind fun o h => ?_
    refine (setStringIf_builds h "type" hs.1).bind fun o h => ?_
    refine (setStringIf_builds h "address" hs.2.1).bind fun o h => ?_
    refine (setStringIf_builds h "provider" hs.2.2.1).bind fun o h => ?_
    exact (setStringIf_builds h "venue_id" hs.2.2.2).mono (List.nil_subset _)
  | _ => exact (htype _).mono (List.nil_subset _)

/-- Media without their record or their numbers fail. -/
theorem jsonPackMedia_none (hwhole : ¬ MediaWhole E M.media) : jsonPackMedia E M = none := by
  have htype : ∀ s : String, ∃ o, setString "type" (some (lit s)) (.object []) = some o := fun s =>
    (setString_builds carries_empty "type" (utf8_lit s)).imp fun o h => h.1
  unfold jsonPackMedia
  cases hm : M.media with
  | geo geo =>
    rw [hm] at hwhole
    obtain ⟨o, ho⟩ := htype "geo"
    dsimp only
    rw [ho, Option.bind_eq_bind, Option.bind_some, setCoordinates_none hwhole]
  | webpage webpage caption =>
    rw [hm] at hwhole
    obtain rfl := not_not.mp hwhole
    obtain ⟨o, ho⟩ := htype "webpage"
    dsimp only
    rw [ho]
    rfl
  | venue geo title address provider venueId =>
    rw [hm] at hwhole
    obtain ⟨o, ho⟩ := htype "venue"
    dsimp only
    rw [ho, Option.bind_eq_bind, Option.bind_some, setCoordinates_none hwhole]
    rfl
  | _ =>
    rw [hm] at hwhole
    exact absurd trivial hwhole

/-! ### Actions -/

theorem jsonPackService_builds {a : Action} (hs : ActionOk E a) (hwhole : ActionWhole a) :
    Builds [] (jsonPackService E a) := by
  have hpeer : ∀ {n : ℤ} {ks : List String} {o : Json}, PeerOk E (mkUser n) → Carries ks o →
      Builds [] (jsonPackPeer E (mkUser n) >>= fun v => jsonObjectSet o "user" (some v)) :=
    fun hn h => (setBuilt_builds h "user" (jsonPackPeer_builds hn)).mono (List.nil_subset _)
  unfold jsonPackService
  refine (setString_builds carries_empty "type" (utf8_lit (actionType a))).bind fun o h => ?_
  cases a with
  | chatCreate title => exact (setString_needed h "title" hs).mono (List.nil_subset _)
  | chatEditTitle title => exact (setString_needed h "title" hs).mono (List.nil_subset _)
  | channelCreate title => exact (setString_needed h "title" hs).mono (List.nil_subset _)
  | chatAddUsers users =>
    obtain ⟨n, users, rfl⟩ := List.exists_cons_of_ne_nil hwhole
    exact hpeer (hs n rfl) h
  | chatAddUserByLink user => exact hpeer hs h
  | chatDeleteUser user => exact hpeer hs h
  | setMessageTtl ttl => exact (setInteger_builds h _ _).mono (List.nil_subset _)
  | readMessages cnt => exact (setInteger_builds h _ _).mono (List.nil_subset _)
  | deleteMessages cnt => exact (setInteger_builds h _ _).mono (List.nil_subset _)
  | screenshotMessages cnt => exact (setInteger_builds h _ _).mono (List.nil_subset _)
  | notifyLayer layer => exact (setInteger_builds h _ _).mono (List.nil_subset _)
  | typing status => exact absurd hwhole id
  | _ => exact h.builds.mono (List.nil_subset _)

/-- **Typing fails**: its status is appended to an object. -/
theorem jsonPackService_typing (status : TypingStatus) :
    jsonPackService E (.typing status) = none := by
  obtain ⟨o, ho, h⟩ := setString_builds carries_empty "type" (utf8_lit "typing")
  have hstatus := setString_builds carries_empty "status" (utf8_lit (typingText status))
  obtain ⟨v, hv, -⟩ : Builds _ (jsonPackTyping status) := hstatus
  unfold jsonPackService actionType
  rw [ho, Option.bind_eq_bind, Option.bind_some]
  dsimp only
  rw [hv]
  exact h.not_append (some v)

theorem jsonPackService_none {a : Action} (hwhole : ¬ ActionWhole a) :
    jsonPackService E a = none := by
  cases a with
  | typing status => exact jsonPackService_typing status
  | chatAddUsers users =>
    obtain rfl := not_not.mp hwhole
    obtain ⟨o, ho, -⟩ := setString_builds carries_empty "type" (utf8_lit "chat_add_user")
    unfold jsonPackService actionType
    rw [ho]
    rfl
  | _ => exact absurd trivial hwhole

/-! ### Messages -/

theorem utf8_msgId (E : Env) (id : MsgId) : Utf8 (printPermanentMsgId E id) := utf8_hexText _

theorem packHeader_builds (hM : Valid E M) (h : Carries ks o) :
    Builds (["date", "service", "unread", "out", "to", "from"] ++ ks) (packHeader E M o) := by
  unfold packHeader
  refine (setInteger_builds h "flags" M.flags).bind fun o h => ?_
  have h := h.mono (List.subset_cons_self _ _)
  have hfwd : Builds ks (if M.fwdFromId.peerType = .other 0 then some o
      else do
        let fwd ← jsonPackPeer E M.fwdFromId
        let res ← jsonObjectSet o "fwd_from" (some fwd)
        setInteger "fwd_date" M.fwdDate res) := by
    split_ifs with hty
    · exact h.builds
    · obtain ⟨fwd, hfwd, -⟩ := jsonPackPeer_builds (hM.fwd hty)
      rw [hfwd]
      refine (h.set "fwd_from" fwd).bind fun o h => ?_
      exact (setInteger_builds h "fwd_date" _).mono
        (List.subset_cons_of_subset _ (List.subset_cons_self _ _))
  refine hfwd.bind fun o h => ?_
  have hreply : Builds ks (if M.replyId = 0 then some o
      else setString "reply_id" (some (printPermanentMsgId E (replyMsgId M))) o) := by
    split_ifs
    · exact h.builds
    · exact (setString_builds h _ (utf8_msgId E _)).mono (List.subset_cons_self _ _)
  refine hreply.bind fun o h => ?_
  have hmention : Builds ks (if M.mention then setBoolean "mention" true o else some o) := by
    split_ifs
    · exact (setBoolean_builds h "mention" true).mono (List.subset_cons_self _ _)
    · exact h.builds
  refine hmention.bind fun o h => ?_
  obtain ⟨sender, hsender, -⟩ := jsonPackPeer_builds hM.sender
  obtain ⟨receiver, hreceiver, -⟩ := jsonPackPeer_builds hM.receiver
  rw [hsender, hreceiver]
  refine (h.set "from" sender).bind fun o h => ?_
  refine (h.set "to" receiver).bind fun o h => ?_
  refine (setBoolean_builds h "out" M.out).bind fun o h => ?_
  refine (setBoolean_builds h "unread" M.unread).bind fun o h => ?_
  refine (setBoolean_builds h "service" M.service).bind fun o h => ?_
  exact setInteger_builds h "date" M.date

theorem packText_builds (hs : Text M.message) (h : Carries ks o) :
    Builds ks (if M.messageLen = 0 ∨ M.message = none then some o
      else setString "text" M.message o) := by
  split_ifs with htext
  · exact h.builds
  · rw [not_or] at htext
    obtain ⟨b, hb⟩ := Option.ne_none_iff_exists'.mp htext.2
    rw [hb]
    exact (setString_builds h "text" (hs b hb)).mono (List.subset_cons_self _ _)

theorem packContent_iff (hM : Valid E M) (h : Carries ks o) :
    Builds ks (packContent E M o) ↔ MediaWhole E M.media := by
  obtain ⟨o, ho, h⟩ := packText_builds hM.text h
  unfold packContent
  rw [ho, Option.bind_eq_bind, Option.bind_some]
  by_cases hmedia : M.media = .none
  · rw [if_pos hmedia, hmedia]
    exact iff_of_true h.builds trivial
  · rw [if_neg hmedia]
    by_cases hwhole : MediaWhole E M.media
    · exact iff_of_true ((setBuilt_builds h "media" (jsonPackMedia_builds hM.media hwhole)).mono
        (List.subset_cons_self _ _)) hwhole
    · rw [jsonPackMedia_none hwhole]
      exact iff_of_false not_builds_none hwhole

theorem packAction_iff (hM : Valid E M) (h : Carries ks o) :
    Builds ks (packAction E M o) ↔ ActionWhole M.action := by
  obtain ⟨o, ho, h⟩ := setString_builds h "event" (utf8_lit "service")
  have h := h.mono (List.subset_cons_self _ _)
  unfold packAction
  rw [ho, Option.bind_eq_bind, Option.bind_some]
  by_cases hwhole : ActionWhole M.action
  · exact iff_of_true ((setBuilt_builds h "action" (jsonPackService_builds hM.action hwhole)).mono
      (List.subset_cons_self _ _)) hwhole
  · rw [jsonPackService_none hwhole]
    exact iff_of_false not_builds_none hwhole

/-- Every typing message that is created fails. -/
theorem jsonPackMessage_typing {status : TypingStatus} (hcreated : M.created = true)
    (hservice : M.service = true) (haction : M.action = .typing status) :
    jsonPackMessage E M = none := by
  have hnone : ∀ o, packAction E M o = none := fun o => by
    unfold packAction
    rw [haction, jsonPackService_typing]
    exact Option.bind_fun_none _
  unfold jsonPackMessage
  simp only [hcreated, hservice, hnone, Bool.not_true, Bool.false_eq_true, if_false, if_true,
    Option.bind_eq_bind, Option.bind_fun_none]

/-- **Packing a message** fails no assertion and gives an object with its fields exactly when a
created message has the records and numbers of its media, or of its action, and that is not
`typing`. -/
theorem packs_iff (E : Env) (M : Pack.Message) (hM : Valid E M) : Packs E M ↔ Packable E M := by
  have hstart : Builds ["id", "event"] (do
      let res ← setString "event" (some (lit "message")) (.object [])
      setString "id" (some (printPermanentMsgId E M.permanent)) res) :=
    (setString_builds carries_empty "event" (utf8_lit "message")).bind fun o h =>
      setString_builds h "id" (utf8_msgId E _)
  obtain ⟨o, ho, h⟩ := hstart
  have hmessage : jsonPackMessage E M = if !M.created then some o
      else packHeader E M o >>= fun res =>
        if M.service then packAction E M res else packContent E M res := by
    unfold jsonPackMessage
    rw [← bind_assoc, ho]
    rfl
  unfold Packs Packable messageFields
  rw [hmessage]
  cases hcreated : M.created with
  | false => exact iff_of_true (h.mono (by simp)).builds (fun hc => nomatch hc)
  | true =>
    obtain ⟨v, hv, hfields⟩ := packHeader_builds hM h
    simp only [Bool.not_true, Bool.false_eq_true, if_false, if_true, hv, Option.bind_eq_bind,
      Option.bind_some, forall_const]
    have hfields := hfields.mono (show ["event", "id", "from", "to", "out", "unread", "service",
      "date"] ⊆ _ by decide)
    cases M.service with
    | false => exact packContent_iff hM hfields
    | true => exact packAction_iff hM hfields

end Messages

/-! ### Samples -/

/-- A library that knows no peers. -/
def sampleEnv : Env where
  peerGet _ := none
  peerIdBytes id := [1, 0, 0, 0, UInt8.ofNat id.peerId.toNat, 0, 0, 0]
  msgIdBytes id := [1, 0, 0, 0, 7, 0, 0, 0, UInt8.ofNat id.id.toNat, 0, 0, 0]
  localtime _ := ⟨12, 0, 0, 1, 0, 116⟩
  jsonReal x := some (.real x)

/-- A message from one user to another. -/
def sampleMessage (service : Bool) (action : Action) : Pack.Message where
  permanentId := 1
  out := false
  service := service
  fwdFromId := ⟨.other 0, 0, 0⟩
  fromId := mkUser 7
  toId := mkUser 9
  replyId := 0
  date := 1460000000
  message := some (lit "hi")
  media := .none
  permanent := ⟨1, 7, 1, 0⟩
  flags := 1
  created := true
  mention := false
  unread := true
  fwdDate := 0
  messageLen := 2
  userId := 0
  action := action

theorem sampleUser_ok (n : ℤ) : PeerOk sampleEnv (mkUser n) where
  type := .inl rfl
  strings _ hP := nomatch hP
  users _ hP := nomatch hP

theorem sampleMessage_valid (service : Bool) {action : Action} (h : ActionOk sampleEnv action) :
    Valid sampleEnv (sampleMessage service action) where
  fwd hne := absurd rfl hne
  sender := sampleUser_ok 7
  receiver := sampleUser_ok 9
  text _ hb := Option.some.inj hb ▸ utf8_lit "hi"
  media := trivial
  action := h

theorem packs_iff_text : Packs sampleEnv (sampleMessage false .other) :=
  (packs_iff sampleEnv _ (@sampleMessage_valid false .other trivial)).mpr fun _ => trivial

/-- A typing action of a user aborts the client. -/
theorem typing_aborts : Valid sampleEnv (sampleMessage true (.typing .typing)) ∧
    ¬ Packs sampleEnv (sampleMessage true (.typing .typing)) := by
  refine ⟨@sampleMessage_valid true (.typing .typing) trivial, ?_⟩
  unfold Packs
  rw [jsonPackMessage_typing rfl rfl rfl]
  exact not_builds_none

end TelegramCli.Json.Packed
