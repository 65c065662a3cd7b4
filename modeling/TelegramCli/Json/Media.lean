import TelegramCli.Json.Pack

/-! # The fields of media

`json_pack_media` sets the kind of media as the field `type` and then the fields of that kind
(`get_jsonPackMedia`). The title of a venue is set under the key `type` as well, so the object
shows the kind and each field under its own key exactly if the media is not a venue with a title
(`media_kept_iff`). -/

namespace TelegramCli.Json.Media

open TelegramCli.Lib.CString TelegramCli.Lib.Jansson TelegramCli.Tgl TelegramCli.Json.Pack

/-- The tag of a kind. -/
def tag : Media → String
  | .photo _ _ => "photo"
  | .document _ _ | .audio _ _ | .video _ _ | .documentEncr _ _ => "document"
  | .unsupported => "unsupported"
  | .geo _ => "geo"
  | .contact _ _ _ => "contact"
  | .webpage _ _ => "webpage"
  | .venue _ _ _ _ _ => "venue"
  | .none | .other => "???"

def coordinates (E : Env) (geo : Geo) : List (String × Option Lib.Jansson.Json) :=
  [("longitude", E.jsonReal geo.longitude), ("latitude", E.jsonReal geo.latitude)]

/-- The fields that are packed, under their own keys; one that is not there has no value. -/
def mediaFields (E : Env) (M : Pack.Message) : List (String × Option Lib.Jansson.Json) :=
  match M.media with
  | .photo _ caption => [("caption", jsonString caption)]
  | .geo geo => coordinates E geo
  | .contact phone firstName lastName =>
    [("phone", jsonString phone), ("first_name", jsonString firstName),
      ("last_name", jsonString lastName), ("user_id", some (.integer M.userId))]
  | .webpage webpage _ => webpage.elim [] fun w =>
    [("url", jsonString w.url), ("title", jsonString w.title),
      ("description", jsonString w.description), ("author", jsonString w.author)]
  | .venue geo title address provider venueId =>
    coordinates E geo ++ [("title", jsonString title), ("address", jsonString address),
      ("provider", jsonString provider), ("venue_id", jsonString venueId)]
  | _ => []

/-- The object has the tag of the kind, and every field that is there under its own key. -/
structure Kept (E : Env) (M : Pack.Message) (v : Lib.Jansson.Json) : Prop where
  type : jsonObjectGet v "type" = some (.string (tag M.media))
  fields : ∀ k x, (k, some x) ∈ mediaFields E M → jsonObjectGet v k = some x

/-- A venue with a title. -/
def TitledVenue : Media → Prop
  | .venue _ title _ _ _ => title ≠ none
  | _ => False

/-! ### What is written -/

/-- The key of a field of media where it is written. -/
def keyAt (media : Media) (k : String) : String :=
  match media with
  | .venue _ _ _ _ _ => if k = "title" then "type" else k
  | _ => k

/-- The fields in the order in which they are set. -/
def mediaWrites (E : Env) (M : Pack.Message) : List (String × Option Lib.Jansson.Json) :=
  ("type", some (.string (tag M.media))) ::
    (mediaFields E M).map fun f => (keyAt M.media f.1, f.2)

theorem sets_stringIf (key : String) (s : Str) : Sets [(key, jsonString s)] (setStringIf key s) := by
  intro v w h
  unfold setStringIf at h
  split_ifs at h with hs
  · cases h
    intro k
    simp [hs, jsonString, lastSet]
  · exact Sets.set key (jsonString s) v w h

theorem sets_coordinates (E : Env) (geo : Geo) :
    Sets (coordinates E geo) (setCoordinates E geo) :=
  (Sets.set "longitude" (E.jsonReal geo.longitude)).bind
    (Sets.set "latitude" (E.jsonReal geo.latitude))

theorem sets_type (s : String) :
    Sets [("type", some (.string s))] (setString "type" (some (lit s))) := by
  rw [← jsonString_lit s]
  exact Sets.set "type" _

/-- **The fields are set** one after the other. -/
theorem get_jsonPackMedia {E : Env} {M : Pack.Message} {v : Lib.Jansson.Json}
    (h : jsonPackMedia E M = some v) (k : String) :
    jsonObjectGet v k = lastSet k (mediaWrites E M) := by
  unfold jsonPackMedia at h
  unfold mediaWrites mediaFields
  cases hm : M.media with
  | photo photo caption =>
    rw [hm] at h
    exact ((sets_type "photo").bind (sets_stringIf "caption" caption)).empty h k
  | geo geo =>
    rw [hm] at h
    exact ((sets_type "geo").bind (sets_coordinates E geo)).empty h k
  | contact phone firstName lastName =>
    rw [hm] at h
    exact ((sets_type "contact").bind ((Sets.set "phone" (jsonString phone)).bind
      ((Sets.set "first_name" (jsonString firstName)).bind
        ((Sets.set "last_name" (jsonString lastName)).bind
          (Sets.set "user_id" (some (.integer M.userId))))))).empty h k
  | webpage webpage caption =>
    rw [hm] at h
    cases webpage with
    | none =>
      obtain ⟨u, -, hu⟩ := Option.bind_eq_some_iff.mp h
      cases hu
    | some w =>
      exact ((sets_type "webpage").bind ((sets_stringIf "url" w.url).bind
        ((sets_stringIf "title" w.title).bind ((sets_stringIf "description" w.description).bind
          (sets_stringIf "author" w.author))))).empty h k
  | venue geo title address provider venueId =>
    rw [hm] at h
    exact ((sets_type "venue").bind ((sets_coordinates E geo).bind ((sets_stringIf "type" title).bind
      ((sets_stringIf "address" address).bind ((sets_stringIf "provider" provider).bind
        (sets_stringIf "venue_id" venueId)))))).empty h k
  | _ =>
    rw [hm] at h
    exact (sets_type _).empty h k

/-! ### What is kept -/

variable {E : Env} {M : Pack.Message}

/-- The keys of a kind differ, and none of them is the one of the tag. -/
theorem keys_nodup (E : Env) (M : Pack.Message) :
    ((("type", some (.string (tag M.media))) :: mediaFields E M).map Prod.fst).Nodup := by
  unfold mediaFields
  cases M.media with
  | webpage webpage caption => cases webpage <;> simp
  | _ => simp [coordinates]

/-- Only the title of a venue is written under another key. -/
theorem keyAt_of_mem (h : ¬ TitledVenue M.media) {k : String} {x : Lib.Jansson.Json}
    (hk : (k, some x) ∈ mediaFields E M) : keyAt M.media k = k := by
  unfold mediaFields at hk
  cases hm : M.media with
  | venue geo title address provider venueId =>
    rw [hm] at h hk
    obtain rfl : title = none := not_not.mp h
    refine if_neg ?_
    rintro rfl
    simp [coordinates, jsonString] at hk
  | _ => rfl

theorem mem_mediaWrites (h : ¬ TitledVenue M.media) {k : String} {x : Lib.Jansson.Json}
    (hk : (k, some x) ∈ mediaWrites E M) :
    (k, some x) ∈ ("type", some (.string (tag M.media))) :: mediaFields E M := by
  refine (List.mem_cons.mp hk).elim (fun heq => heq ▸ List.mem_cons_self) fun hmem => ?_
  obtain ⟨⟨key, y⟩, hf, heq⟩ := List.mem_map.mp hmem
  cases heq
  rw [keyAt_of_mem h hf]
  exact List.mem_cons_of_mem _ hf

/-- A title that is there was a string that could be packed. -/
theorem title_packed {v : Lib.Jansson.Json} (h : jsonPackMedia E M = some v) {geo : Geo}
    {title address provider venueId : Str} (hm : M.media = .venue geo title address provider venueId)
    (htitle : title ≠ none) : ∃ x, jsonString title = some x := by
  unfold jsonPackMedia at h
  rw [hm] at h
  obtain ⟨u, -, h⟩ := Option.bind_eq_some_iff.mp h
  obtain ⟨w, -, h⟩ := Option.bind_eq_some_iff.mp h
  obtain ⟨r, hr, -⟩ := Option.bind_eq_some_iff.mp h
  rw [setStringIf, if_neg htitle, setString] at hr
  cases hx : jsonString title with
  | none =>
    rw [hx] at hr
    cases w <;> cases hr
  | some x => exact ⟨x, rfl⟩

/-- **The object tells the kind** and has every field under its own key, exactly if the media is not
a venue with a title. -/
theorem media_kept_iff {v : Lib.Jansson.Json} (h : jsonPackMedia E M = some v) :
    Kept E M v ↔ ¬ TitledVenue M.media := by
  have hget := get_jsonPackMedia h
  constructor
  · intro hkept htitled
    cases hm : M.media with
    | venue geo title address provider venueId =>
      rw [hm] at htitled
      obtain ⟨x, hx⟩ := title_packed h hm htitled
      have hmem : ("title", some x) ∈ mediaFields E M := by
        unfold mediaFields
        rw [hm, ← hx]
        simp
      have hnone : lastSet "title" (mediaWrites E M) = none := by
        unfold mediaWrites mediaFields
        rw [hm]
        simp [lastSet, coordinates, keyAt]
      rw [← hget, hkept.fields _ _ hmem] at hnone
      cases hnone
    | _ =>
      rw [hm] at htitled
      exact htitled
  · intro hnot
    have hfield : ∀ k x, (k, some x) ∈ ("type", some (.string (tag M.media))) :: mediaFields E M →
        (k, some x) ∈ mediaWrites E M → jsonObjectGet v k = some x := by
      intro k x hx hwritten
      refine (hget k).trans (lastSet_of_mem hwritten fun y hy => ?_)
      have hpair := List.inj_on_of_nodup_map (keys_nodup E M) (mem_mediaWrites hnot hy) hx rfl
      exact Option.some.inj (congrArg Prod.snd hpair)
    refine ⟨hfield _ _ List.mem_cons_self List.mem_cons_self, fun k x hk => ?_⟩
    refine hfield k x (List.mem_cons_of_mem _ hk) (List.mem_cons_of_mem _ ?_)
    exact List.mem_map.mpr ⟨(k, some x), hk, by rw [keyAt_of_mem hnot hk]⟩

/-! ### Two venues -/

/-- A venue at the origin, in the message 1 from the user 7 to us. -/
def venueMessage (title : Str) : Pack.Message where
  permanentId := 1
  out := false
  service := false
  fwdFromId := ⟨.other 0, 0, 0⟩
  fromId := ⟨.user, 7, 0⟩
  toId := ⟨.user, 1, 0⟩
  replyId := 0
  date := 1460000000
  message := none
  media := .venue ⟨0, 0⟩ title (some (lit "Main Street")) none none
  permanent := ⟨1, 7, 1, 0⟩
  flags := 0
  created := true
  mention := false
  unread := false
  fwdDate := 0
  messageLen := 0
  userId := 0
  action := .noop

def sampleEnv : Env := ⟨fun _ => none, fun _ => [], fun _ => [], fun _ => ⟨0, 0, 0, 0, 0, 0⟩,
  fun x => some (.real x)⟩

theorem venue_packed : jsonPackMedia sampleEnv (venueMessage none) = some (.object
    [("type", .string "venue"), ("longitude", .real 0), ("latitude", .real 0),
      ("address", .string "Main Street")]) := by
  unfold jsonPackMedia
  simp [venueMessage, setString, setStringIf, setCoordinates, jsonObjectSet, jsonString_lit,
    setField, sampleEnv]

theorem photo_packed : jsonPackMedia sampleEnv (venueMessage (some (lit "photo"))) = some (.object
    [("type", .string "photo"), ("longitude", .real 0), ("latitude", .real 0),
      ("address", .string "Main Street")]) := by
  unfold jsonPackMedia
  simp [venueMessage, setString, setStringIf, setCoordinates, jsonObjectSet, jsonString_lit,
    setField, sampleEnv]

/-- A venue without a title. -/
theorem media_kept_iff_venue : Kept sampleEnv (venueMessage none) (.object
    [("type", .string "venue"), ("longitude", .real 0), ("latitude", .real 0),
      ("address", .string "Main Street")]) ↔ ¬ TitledVenue (venueMessage none).media :=
  media_kept_iff venue_packed

/-- The venue with the title `photo` is shown as a photo. -/
theorem venue_as_photo : ¬ ∀ (E : Env) (M : Pack.Message) (v : Lib.Jansson.Json),
    jsonPackMedia E M = some v → Kept E M v := by
  intro h
  have htype := (h _ _ _ photo_packed).type
  simp [jsonObjectGet, tag, venueMessage] at htype

end TelegramCli.Json.Media
