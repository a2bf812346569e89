import TfuServer.Server.RequestEnds

/-!
# Requests served

While no call fails and the bodies are accepted, no order of turns ends a loop with an
exception. Searches are answered as if nobody else were there, recommendations from tables that
the run has passed through; a key that has been answered is used, and what has been posted has
rows of its own.
-/

namespace TfuServer

set_option autoImplicit false

open Numeral Program
open Script (Unspoiled valid_mono valid_recover valid_unspoiled_bind)
open Sql (DataRow Row firstKey)
open ImageManager (storageRow)

section
variable {runtime : Runtime} {requests : List Request} {bound : Nat}

theorem answer_recommend (call : Nat) (tables after : Tables) (data : DataSet)
    (answered : answer runtime call tables recommendQuery = some (data, after)) :
    data = [shuffledRows runtime call tables] := by
  have queried : Sql.query runtime.settings (runtime.shuffle call) tables
      (.select "SHAREDSCHEDULE".toList .all true) = some (shuffledRows runtime call tables) :=
    @Sql.query_all runtime.settings schema tables "SHAREDSCHEDULE".toList .sharedSchedule
      (find_title .sharedSchedule) (runtime.shuffle call) true
  simp only [answer, read_recommend_query, queried] at answered
  split_ifs at answered
  exact (Prod.mk.inj (Option.some.inj answered)).1.symm

variable (runtime requests) in
def HandedOut (before : Tables) (rows : List DataRow) (after : World) : Prop :=
  ∃ call tables, rows = shuffledRows runtime call tables ∧
    OnlyGrown runtime requests before tables ∧ OnlyGrown runtime requests tables after.tables

theorem shuffled_ends (world : World) (least : bound ≤ world.failedCalls) :
    EndsBeside runtime requests bound
      (fun result later => ∃ rows, result = .ok [rows] ∧
        HandedOut runtime requests world.tables rows later)
      (Steps.select runtime recommendQuery) world := by
  refine ends_weaken _ world (fun result later shown => ?_)
    (select_ends recommendQuery _ _ _ read_recommend_query world least)
  obtain ⟨data, call, tables, same, answered, before, further⟩ := shown
  rw [answer_recommend call tables tables data answered] at same
  exact ⟨_, same, call, tables, rfl, before, further⟩

variable (runtime requests) in
/-- The text is made of shared schedules as some tables in between handed them out. -/
def RecommendedFrom (start after : Tables) (text : Text) : Prop :=
  ∃ call tables list, OnlyGrown runtime requests start tables ∧
    OnlyGrown runtime requests tables after ∧
    ((shuffledRows runtime call tables).take Server.maxRecommended).mapM
      (convertDataRowToSharedSchedule runtime.newtonsoft) = .ok list ∧
    Server.recommendText runtime list = .ok text

variable (runtime requests) in
/-- All rows of shared schedules there may ever be can be recommended. -/
def AllRecommendable (start : Tables) : Prop :=
  ∀ tables, OnlyGrown runtime requests start tables →
    ∀ row ∈ tables .sharedSchedule, Recommendable runtime.newtonsoft row.dataRow

theorem recommend_ends_beside (start : Tables) (world : World) (least : bound ≤ world.failedCalls)
    (grown : OnlyGrown runtime requests start world.tables)
    (sound : AllRecommendable runtime requests start) :
    EndsBeside runtime requests bound
      (fun result later => ∃ text, result = .ok text ∧
        RecommendedFrom runtime requests start later.tables text)
      (Steps.recommend runtime) world := by
  have lifts (rows : List DataRow) : Adds (do
      let list ← Script.lift ((rows.take Server.maxRecommended).mapM
        (convertDataRowToSharedSchedule runtime.newtonsoft))
      Script.lift (Server.recommendText runtime list)) :=
    adds_bind _ _ (Script.always_lift _ _) fun _ => Script.always_lift _ _
  refine first_ends _ _ world (shuffled_ends world least)
    (fun _ => adds_bind _ _ (adds_select _) fun _ => adds_bind _ _ (Script.always_lift _ _) lifts)
    fun counted later enough asked => ?_
  obtain ⟨_, tables, -, before, further⟩ := asked
  have now := only_grown_trans _ _ _ grown (only_grown_trans _ _ _ before further)
  refine first_ends _ _ later (shuffled_ends later enough) lifts fun rows last more asked => ?_
  obtain ⟨call, tables, rfl, before, further⟩ := asked
  have between := only_grown_trans _ _ _ now before
  obtain ⟨list, read, finite⟩ := (map_ok_iff (convertDataRowToSharedSchedule runtime.newtonsoft) _
    ((shuffledRows runtime call tables).take Server.maxRecommended)).mpr fun row member => by
      obtain ⟨own, within, rfl⟩ := List.mem_map.mp
        ((runtime.shuffle_perm call _).mem_iff.mp (List.mem_of_mem_take member))
      exact (recommendable_iff _ _).mpr (sound tables between own within)
  obtain ⟨document, written⟩ := (list_written_iff _ _ shared_document_iff list).mpr finite
  have text : Server.recommendText runtime list =
      .ok (Json.serialize runtime.unicodeAll .compact document) := by
    rw [Server.recommendText, written]
    rfl
  have shown : EndsBeside runtime requests bound
      (fun result later => ∃ text, result = .ok text ∧
        RecommendedFrom runtime requests start later.tables text)
      (Script.lift (Server.recommendText runtime list)) last := by
    rw [text]
    exact ends_pure _ last more fun final beyond =>
      ⟨_, rfl, call, tables, list, between, only_grown_trans _ _ _ further beyond, read, text⟩
  rw [read]
  exact shown

theorem waypoints_ends_beside (start : Tables) (keyword : Option Text) (pattern : Text)
    (read : Sql.readStatement
      (Server.waypointsQuery ((keyword.map runtime.urlDecode).getD [])) =
        some (.select "WAYPOINT".toList (.like "NAME".toList pattern) false))
    (world : World) (least : bound ≤ world.failedCalls)
    (grown : OnlyGrown runtime requests start world.tables) :
    EndsBeside runtime requests bound
      (fun result _ => result = .ok (listed runtime
        (rowsMeeting runtime start .waypoint (.like "NAME".toList pattern))))
      (Steps.waypoints runtime keyword) world := by
  generalize same : rowsMeeting runtime start .waypoint (.like "NAME".toList pattern) = rows
  have made : EndsBeside runtime requests bound
      (fun result _ => result = waypointsList runtime rows)
      (do
        let data ← Steps.select runtime
          (Server.waypointsQuery ((keyword.map runtime.urlDecode).getD []))
        let rows ← Script.lift data.first
        let list ← Script.lift (rows.mapM (convertDataRowToWaypoint runtime.newtonsoft))
        Script.lift (Server.waypointsText runtime list)) world := by
    refine first_ends _ _ world (table_ends read (find_title .waypoint) world least)
      (fun rows => adds_bind _ _ (Script.always_lift _ _) fun _ => Script.always_lift _ _)
      fun found later enough asked => ?_
    obtain ⟨tables, rfl, before, -⟩ := asked
    have still : rowsMeeting runtime tables .waypoint (.like "NAME".toList pattern) = rows := by
      rw [← same, rowsMeeting, rowsMeeting, (only_grown_trans _ _ _ grown before).waypoint]
    rw [still, Script.lift_bind]
    exact fun last moved => ⟨le_trans enough moved.2, fun _ => rfl⟩
  refine valid_recover moves_refl _ _ world (fun _ _ _ _ => trivial) made
    (fun text later ended => ⟨ended.1, fun quiet => ?_⟩) fun failure later ended => ?_
  · rw [listed_of_ok runtime rows text (ended.2 quiet).symm]
  · intro last moved
    have more := moved.2
    have least := ended.1
    refine ⟨le_trans least more, fun quiet => congrArg Except.ok ?_⟩
    rw [listed_of_error runtime rows failure (ended.2 (by omega)).symm]

variable (runtime) in
/-- The body of a post is one its handler does not throw at. -/
structure Acceptable (request : Request) : Prop where
  client : request.method = "POST".toList → startsWith runtime request.rawUrl "/users" = true →
    clientAccepts runtime.newtonsoft (Server.parseBody runtime request.body) = true
  schedule : request.method = "POST".toList → startsWith runtime request.rawUrl "/schedule" = true →
    scheduleAccepts runtime.newtonsoft (Server.parseBody runtime request.body) = true
  image : isUploadRequest runtime request = true →
    uploadAccepts runtime.newtonsoft (Server.parseBody runtime request.body) = true

variable (runtime requests) in
/-- What a request is answered, and what there is afterwards. -/
inductive Served (start : Tables) (after : World) (request : Request) : Option Text → Prop where
  | key (get : request.method = "GET".toList)
      (route : startsWith runtime request.rawUrl "/image" = true)
      (id : Int32) (used : Used id after) :
      Served start after request (some (restoreApostrophes (Server.keyResponse id)))
  | recommended (recommends : isRecommend runtime request = true) (text : Text)
      (made : RecommendedFrom runtime requests start after.tables text) :
      Served start after request (some (restoreApostrophes text))
  | searched (search : isSearch runtime request = true) (pattern : Text)
      (read : Sql.readStatement (Server.waypointsQuery (searchedKeyword runtime request)) =
        some (.select "WAYPOINT".toList (.like "NAME".toList pattern) false)) :
      Served start after request (some (restoreApostrophes (listed runtime
        (rowsMeeting runtime start .waypoint (.like "NAME".toList pattern)))))
  | unknown (get : request.method = "GET".toList)
      (other : ∀ route ∈ ["/image", "/recommend", "/waypoints"],
        startsWith runtime request.rawUrl route = false) :
      Served start after request (some (restoreApostrophes "unknownUrlAccess".toList))
  | record (upload : Upload) (present : carried runtime request = some upload)
      (fresh : Fresh runtime requests upload after.tables) : Served start after request none
  | image (about : isUploadRequest runtime request = true) (id : Int32)
      (uploads : uploadedId runtime request = some id) (used : Used id after) :
      Served start after request none
  | silent (notGet : request.method ≠ "GET".toList) (nothing : carried runtime request = none)
      (noImage : isUploadRequest runtime request = true → uploadedId runtime request = none) :
      Served start after request none

theorem served_later (start : Tables) (world later : World) (request : Request)
    (answer : Option Text) (served : Served runtime requests start world request answer)
    (grown : OnlyGrown runtime requests world.tables later.tables) :
    Served runtime requests start later request answer := by
  cases served with
  | key get route id used => exact .key get route id (grown.used id used)
  | recommended recommends text made =>
      obtain ⟨call, tables, list, before, after, read, written⟩ := made
      exact .recommended recommends text
        ⟨call, tables, list, before, only_grown_trans _ _ _ after grown, read, written⟩
  | searched search pattern read => exact .searched search pattern read
  | unknown get other => exact .unknown get other
  | record upload present fresh =>
      exact .record upload present (fresh_grown upload _ _ fresh grown)
  | image about id uploads used => exact .image about id uploads (grown.used id used)
  | silent notGet nothing noImage => exact .silent notGet nothing noImage

variable (runtime requests bound) in
abbrev ServesBeside (start : Tables) (request : Request) (script : Steps (Option Text))
    (world : World) : Prop :=
  EndsBeside runtime requests bound (fun result later => ∃ answer, result = .ok answer ∧
    Served runtime requests start later request answer) script world

section
variable {start : Tables} (request : Request) (world : World)
  (least : bound ≤ world.failedCalls) (grown : OnlyGrown runtime requests start world.tables)

theorem get_served (script : Steps Text)
    (ends : EndsBeside runtime requests bound (fun result later => ∃ text, result = .ok text ∧
      Served runtime requests start later request (some (restoreApostrophes text))) script world) :
    ServesBeside runtime requests bound start request (do
      let response ← (do
        let responseString ← script
        return restoreApostrophes responseString)
      return some response) world := by
  have stays (text : Text) (before after : World)
      (served : Served runtime requests start before request (some text))
      (further : OnlyGrown runtime requests before.tables after.tables) :=
    served_later start before after request _ served further
  have restored := ends_map restoreApostrophes (fun text => stays (restoreApostrophes text))
    script world ends
  exact ends_weaken _ world (fun _ _ ⟨text, same, served⟩ => ⟨some text, same, served⟩)
    (ends_map some stays _ world (ends_weaken _ world
      (fun _ _ ⟨text, same, served⟩ => ⟨restoreApostrophes text, same, served⟩) restored))

theorem post_served (script : Steps Unit)
    (ends : EndsBeside runtime requests bound (fun result later => result = .ok () ∧
      Served runtime requests start later request none) script world) :
    ServesBeside runtime requests bound start request (do
      script
      return none) world :=
  ends_weaken _ world (fun _ _ ⟨_, same, served⟩ => ⟨none, same, served⟩)
    (ends_map (fun _ => none) (fun _ before after served further =>
      served_later start before after request _ served further) script world
        (ends_weaken _ world (fun _ _ shown => ⟨(), shown⟩) ends))

section
variable (member : request ∈ requests)
  (quoted : ∀ request ∈ requests, StaysQuoted runtime request)
  (acceptable : Acceptable runtime request)
include least grown quoted member

theorem get_request_served (get : request.method = "GET".toList) (ids : HaveIds start)
    (sound : AllRecommendable runtime requests start) :
    ServesBeside runtime requests bound start request (Steps.dataReceived runtime request)
      world := by
  unfold Steps.dataReceived Steps.clientGet
  rw [if_pos get]
  split_ifs with image recommend waypoints
  · refine get_served request world (Steps.imageKey runtime) ?_
    have about : isImageRequest runtime request = true := by simp [isImageRequest, get, image]
    have every (id : Int32) : Marked runtime request id := fun upload => by
      simp [isUploadRequest, get] at upload
    have calls (call : Call) (sent : ImageCall (Marked runtime request) call) :
        (Permits.requests runtime requests).calls call :=
      ⟨request, member, .image call about sent⟩
    have may : (Permits.requests runtime requests).images := ⟨request, member, about⟩
    refine ends_weaken _ world ?_
      (image_key_ends_beside world least (have_ids_grown _ _ ids grown) fun number =>
        moves_of_makes quoted _ (Steps.makes_get_empty_key runtime
          calls may number every))
    rintro _ _ ⟨id, same, used⟩
    exact ⟨_, same, .key get image id used⟩
  · refine get_served request world (Steps.recommend runtime) ?_
    refine ends_weaken _ world ?_ (recommend_ends_beside start world least grown sound)
    rintro _ _ ⟨text, same, made⟩
    exact ⟨text, same, .recommended (by simp [isRecommend, get, recommend]) text made⟩
  · have search : isSearch runtime request = true := by simp [isSearch, get, waypoints]
    obtain ⟨pattern, read⟩ := read_of_stays _ ((quoted request member).2 search)
    refine get_served request world (Steps.waypoints runtime request.keyword) ?_
    exact ends_weaken _ world (fun _ _ same => ⟨_, same, .searched search pattern read⟩)
      (waypoints_ends_beside start request.keyword pattern read world least grown)
  · refine get_served request world (pure "unknownUrlAccess".toList) ?_
    exact ends_pure _ world least fun _ _ => ⟨_, rfl, .unknown get (by
      simp [image, recommend, waypoints])⟩

theorem record_served (upload : Upload) (present : carried runtime request = some upload)
    (finite : upload.writable = true) :
    ServesBeside runtime requests bound start request (Steps.dataReceived runtime request)
      world := by
  obtain ⟨plain, meaning⟩ := (quoted request member).1 upload present
  have stored := store_fresh request member present meaning finite start world least grown
  have stores : EndsBeside runtime requests bound (fun result later => result = .ok () ∧
      Served runtime requests start later request none) (Steps.store runtime upload) world :=
    ends_weaken _ world (fun _ _ shown => ⟨shown.1, .record upload present shown.2⟩) stored
  rcases Steps.received_record runtime request upload present with shape | ⟨-, shape⟩ <;> rw [shape]
  · exact post_served request world _ stores
  · refine post_served request world _ (valid_recover moves_refl _ _ world (fun _ _ _ _ => trivial)
      stores (fun _ _ ended => ended) fun failure later ended last moved => ?_)
    refine ⟨le_trans ended.1 moved.2, fun quiet => ?_⟩
    have least := ended.1
    have more := moved.2
    cases (ended.2 (by omega)).1

omit member least grown quoted in
include acceptable in
theorem acceptable_writable (upload : Upload) (present : carried runtime request = some upload) :
    upload.writable = true := by
  have read := (carried_iff runtime request upload).mp present
  cases upload with
  | user clt => rfl
  | shared sch => rfl
  | schedule sch =>
      unfold uploadOf at read
      split_ifs at read with method users schedule shared
      · cases read
      · cases decoded : readClient runtime.newtonsoft (Server.parseBody runtime request.body) <;>
          simp [decoded, Except.map] at read
      · obtain ⟨own, decoded, finite⟩ := (read_schedule_accepts _ _).mpr
          (acceptable.schedule (not_not.mp method) schedule)
        obtain rfl : own = sch := by simpa [decoded, Except.map] using read
        simpa [Upload.writable, List.all_eq_true] using finite
      · cases decoded : readSharedSchedule runtime.newtonsoft
          (Server.parseBody runtime request.body) <;> simp [decoded, Except.map] at read
      · cases read

omit member quoted in
include acceptable in
theorem image_upload_served (post : request.method = "POST".toList)
    (image : startsWith runtime request.rawUrl "/imageupload" = true)
    (nothing : carried runtime request = none) (ids : HaveIds start) :
    EndsBeside runtime requests bound (fun result later => result = .ok () ∧
        Served runtime requests start later request none)
      (do
        match ← Script.lift (heldUpload runtime.newtonsoft
            (Server.parseBody runtime request.body)) with
        | some id =>
            let manager ← Steps.imageInstance runtime
            let id ← Script.lift (uploadId runtime.newtonsoft id)
            Steps.imageAdded runtime manager id
        | none => return) world := by
  have notGet : request.method ≠ "GET".toList := by rw [post]; decide
  have about : isUploadRequest runtime request = true := by simp [isUploadRequest, post, image]
  obtain ⟨found, decoded⟩ := (read_upload_accepts _ _).mpr (acceptable.image about)
  rw [read_upload] at decoded
  cases held : heldUpload runtime.newtonsoft (Server.parseBody runtime request.body) with
  | error failure =>
      rw [held] at decoded
      cases decoded
  | ok holds =>
      cases holds with
      | none =>
          refine ends_pure () world least fun _ _ => ⟨rfl, .silent notGet nothing fun _ => ?_⟩
          rw [uploadedId, if_pos post, held]
      | some holds =>
          cases converted : uploadId runtime.newtonsoft holds with
          | error failure => simp [held, converted, Except.map] at decoded
          | ok id =>
              have uploads : uploadedId runtime request = some id := by
                rw [uploadedId, if_pos post, held]
                exact congrArg Except.toOption converted
              have added : EndsBeside runtime requests bound (fun result later =>
                  result = .ok () ∧ Served runtime requests start later request none) (do
                    let manager ← Steps.imageInstance runtime
                    let id ← Script.lift (uploadId runtime.newtonsoft holds)
                    Steps.imageAdded runtime manager id) world := by
                rw [converted]
                refine ends_bind_beside _ _ world
                  (instance_ends_beside world least (have_ids_grown _ _ ids grown))
                  (fun number => adds_image_added number id) (fun number later enough _ => ?_)
                  fun _ _ shown => ?_
                · exact ends_weaken _ later (fun _ _ shown =>
                    ⟨shown.1, .image about id uploads shown.2⟩)
                    (image_added_ends number id later enough)
                · obtain ⟨⟨_, same⟩, -⟩ := shown
                  cases same
              exact added

omit member quoted in
include acceptable in
theorem other_post_served (post : request.method = "POST".toList)
    (nothing : carried runtime request = none) (ids : HaveIds start) :
    ServesBeside runtime requests bound start request (Steps.dataReceived runtime request)
      world := by
  have notGet : request.method ≠ "GET".toList := by rw [post]; decide
  have silent (other : startsWith runtime request.rawUrl "/imageupload" = false) :
      EndsBeside runtime requests bound (fun result later => result = .ok () ∧
        Served runtime requests start later request none) (pure ()) world :=
    ends_pure () world least fun _ _ => ⟨rfl, .silent notGet nothing (by
      simp [isUploadRequest, other])⟩
  have ends : EndsBeside runtime requests bound
      (fun result later => result = .ok () ∧
        Served runtime requests start later request none)
      (Steps.clientPost runtime request) world := by
    unfold Steps.clientPost
    simp only
    split_ifs with users schedule shared image
    · obtain ⟨clt, decoded⟩ := (read_client_iff _ _).mpr (acceptable.client post users)
      simp [carried, uploadOf, post, users, decoded, Except.map] at nothing
    · obtain ⟨sch, decoded, -⟩ :=
        (read_schedule_accepts _ _).mpr (acceptable.schedule post schedule)
      simp [carried, uploadOf, post, users, schedule, decoded, Except.map] at nothing
    · cases decoded : readSharedSchedule runtime.newtonsoft
          (Server.parseBody runtime request.body) with
      | ok sch =>
          simp [carried, uploadOf, post, users, schedule, shared, decoded, Except.map] at nothing
      | error failure => exact silent (starts_with_one shared _ (by decide))
    · exact image_upload_served request world least grown acceptable post image nothing ids
    · exact silent (Bool.eq_false_iff.mpr image)
  unfold Steps.dataReceived
  rw [if_neg notGet, if_pos post]
  exact post_served request world _ ends

include acceptable in
/-- Every acceptable request is served, whoever comes between its calls. -/
theorem request_served (ids : HaveIds start) (sound : AllRecommendable runtime requests start) :
    ServesBeside runtime requests bound start request (Steps.dataReceived runtime request)
      world := by
  by_cases get : request.method = "GET".toList
  · exact get_request_served request world least grown member quoted get ids sound
  cases present : carried runtime request with
  | some upload =>
      exact record_served request world least grown member quoted upload present
        (acceptable_writable request acceptable upload present)
  | none =>
      by_cases post : request.method = "POST".toList
      · exact other_post_served request world least grown acceptable post present ids
      · unfold Steps.dataReceived
        rw [if_neg get, if_neg post]
        exact ends_pure _ world least fun _ _ => ⟨none, rfl, .silent get present fun about =>
          absurd (eq_of_beq (Bool.and_eq_true_iff.mp about).1) post⟩

end

end

variable (runtime requests) in
def AllServed (start : Tables) (after : World) (own : List Request) (texts : List Text) : Prop :=
  ∃ answers, texts = answers.flatMap Option.toList ∧
    List.Forall₂ (Served runtime requests start after) own answers

theorem all_served_later (start : Tables) (own : List Request) (texts : List Text)
    (world later : World) (served : AllServed runtime requests start world own texts)
    (grown : OnlyGrown runtime requests world.tables later.tables) :
    AllServed runtime requests start later own texts := by
  obtain ⟨answers, same, each⟩ := served
  exact ⟨answers, same, each.imp fun request answer served =>
    served_later start world later request answer served grown⟩

variable (runtime requests) in
/-- All requests of a loop have been served, or those before the listener was closed. -/
inductive LoopServed (start : Tables) (after : World) (own : List Request) :
    Except Failure (List Text) → Prop where
  | whole (texts : List Text) (served : AllServed runtime requests start after own texts) :
      LoopServed start after own (.ok texts)
  | closed (served rest : List Request) (split : own = served ++ rest) (texts : List Text)
      (each : AllServed runtime requests start after served texts) :
      LoopServed start after own (.error .listener)

theorem loop_served_later (start : Tables) (own : List Request)
    (result : Except Failure (List Text)) (world later : World)
    (served : LoopServed runtime requests start world own result)
    (grown : OnlyGrown runtime requests world.tables later.tables) :
    LoopServed runtime requests start later own result := by
  cases served with
  | whole texts served => exact .whole texts (all_served_later start own texts _ _ served grown)
  | closed served rest split texts each =>
      exact .closed served rest split texts (all_served_later start served texts _ _ each grown)

theorem loop_served_cons (start : Tables) (request : Request) (own : List Request)
    (written : Option Text) (after : World)
    (served : Served runtime requests start after request written)
    (result : Except Failure (List Text))
    (rest : LoopServed runtime requests start after own result) :
    LoopServed runtime requests start after (request :: own)
      (result.map fun texts => written.toList ++ texts) := by
  cases rest with
  | whole texts all =>
      obtain ⟨answers, rfl, each⟩ := all
      exact .whole _ ⟨written :: answers, rfl, .cons served each⟩
  | closed first rest split texts all =>
      obtain ⟨answers, rfl, each⟩ := all
      exact .closed (request :: first) rest (by rw [split]; rfl) _
        ⟨written :: answers, rfl, .cons served each⟩

theorem get_context_ends (world : World) (least : bound ≤ world.failedCalls) :
    EndsBeside runtime requests bound
      (fun result later => OnlyGrown runtime requests world.tables later.tables ∧
        (result = .ok () ∨ result = .error .listener)) Steps.getContext world := by
  refine Script.valid_atomic_bind _ _ world fun found moved => ⟨found, found, rfl, trivial, ?_⟩
  intro again further
  refine ⟨trivial, fun later more => ?_⟩
  change Moves runtime requests (exec (Steps.accept found.httpListener) again).2 later at more
  rw [Steps.accept_state] at more
  refine ⟨le_trans least (le_trans moved.2 (le_trans further.2 more.2)), fun _ => ⟨?_, ?_⟩⟩
  · exact only_grown_trans _ _ _ moved.1 (only_grown_trans _ _ _ further.1 more.1)
  · simp only [Steps.accept, exec_bind, exec_get]
    split_ifs
    · exact .inl rfl
    · exact .inr rfl

theorem loop_served (all : ∀ request ∈ requests, StaysQuoted runtime request)
    (acceptable : ∀ request ∈ requests, Acceptable runtime request) (start : Tables)
    (ids : HaveIds start) (sound : AllRecommendable runtime requests start) (own : List Request)
    (within : ∀ request ∈ own, request ∈ requests) (world : World)
    (least : bound ≤ world.failedCalls) (grown : OnlyGrown runtime requests start world.tables) :
    EndsBeside runtime requests bound
      (fun result later => LoopServed runtime requests start later own result)
      (Steps.loop runtime own) world := by
  induction own generalizing world with
  | nil => exact ends_pure _ world least fun _ _ => .whole [] ⟨[], rfl, .nil⟩
  | cons request own ih =>
      obtain ⟨member, within⟩ := List.forall_mem_cons.mp within
      have others : Steps.Makes (ServerStep runtime (Permits.requests runtime requests))
          (Steps.loop runtime own) := Steps.makes_loop runtime requests own within
      have adds (written : Option Text) : Adds (do
          let rest ← Steps.loop runtime own
          return written.toList ++ rest) :=
        adds_bind _ _ (adds_of_makes runtime _ _ others) fun _ => Script.always_pure _ _
      refine valid_unspoiled_bind (fun _ _ moved => moved.2) moves_refl _ _ world
        (get_context_ends world least)
        (fun _ => adds_bind _ _ (adds_of_makes runtime _ _
          (Steps.makes_request runtime requests request member)) adds)
        (fun _ here quiet shown => ?_) fun failure later _ shown => ?_
      · have now := only_grown_trans _ _ _ grown shown.1
        refine ends_bind_beside _ _ here
          (ends_grown _ here now
            (moves_of_makes all _ (Steps.makes_request runtime requests request member))
            (request_served request here quiet.ge now member all (acceptable request member) ids
              sound))
          adds (fun written later enough shown => ?_) fun failure later shown => ?_
        · obtain ⟨⟨_, same, served⟩, further⟩ := shown
          obtain rfl := Except.ok.inj same
          refine valid_unspoiled_bind (fun _ _ moved => moved.2) moves_refl _ _ later
            (ends_grown _ later (only_grown_refl later.tables) (moves_of_makes all _ others)
              (ih within later enough further))
            (fun _ => Script.always_pure _ _) (fun rest last quiet shown => ?_)
            fun failure last _ shown => ?_
          · refine ends_pure _ last quiet.ge fun final moved => ?_
            exact loop_served_cons start request own written final
              (served_later start later final request written served
                (only_grown_trans _ _ _ shown.2 moved)) (.ok rest)
              (loop_served_later start own _ last final shown.1 moved)
          · exact loop_served_cons start request own written last
              (served_later start later last request written served shown.2) (.error failure)
              shown.1
        · obtain ⟨⟨_, same, -⟩, -⟩ := shown
          cases same
      · rcases shown.2 with never | same
        · cases never
        · obtain rfl := Except.error.inj same
          exact .closed [] (request :: own) rfl [] ⟨[], rfl, .nil⟩

theorem written_recommendable (name : TableName) (k : Int) (row : Row (schema.columns name))
    (written : Writes runtime requests name k row) (there : name = .sharedSchedule)
    (readable : ∀ request ∈ requests, ∀ sch, carried runtime request = some (.shared sch) →
      Readable runtime sch) : Recommendable runtime.newtonsoft row.dataRow := by
  cases written with
  | image request member about id => cases there
  | record request member upload plain present meaning branch document kept row cells =>
      cases upload with
      | user clt => cases there
      | schedule sch => cases there
      | shared sch =>
          have own := readable request member sch present
          obtain ⟨own_meant, rfl, rating, list⟩ := meant_shared sch plain meaning
          obtain ⟨layout, rfl⟩ := stored_shared runtime sch branch document kept
          have converted := convert_shared_row runtime own_meant _ row
            (rating ▸ carried_single runtime request sch present) cells
          rw [reload_descriptions runtime.newtonsoft runtime.unicodeAll layout sch,
            if_pos fun description member => own description member] at converted
          exact (recommendable_iff _ _).mp ⟨_, converted, cells_finite _ own_meant _ cells⟩

theorem all_recommendable (start : Tables)
    (old : ∀ row ∈ start .sharedSchedule, Recommendable runtime.newtonsoft row.dataRow)
    (readable : ∀ request ∈ requests, ∀ sch, carried runtime request = some (.shared sch) →
      Readable runtime sch) : AllRecommendable runtime requests start := by
  intro tables grown row member
  rcases grown.whole .sharedSchedule row member with before | ⟨k, written⟩
  · exact old row before
  · exact written_recommendable _ k row written rfl readable

end

theorem silent_quoted {runtime : Runtime} (request : Request) (get : request.method = "GET".toList)
    (stays : isSearch runtime request = true →
      staysInPattern (searchedKeyword runtime request) = true) : StaysQuoted runtime request := by
  refine ⟨fun upload present => ?_, stays⟩
  simp [carried, uploadOf, get] at present

theorem get_acceptable {runtime : Runtime} (request : Request)
    (get : request.method = "GET".toList) : Acceptable runtime request where
  client := fun post => by rw [get] at post; exact absurd post (by decide)
  schedule := fun post => by rw [get] at post; exact absurd post (by decide)
  image := fun about => by
    rw [isUploadRequest, get] at about
    exact absurd about (by simp)

end TfuServer
