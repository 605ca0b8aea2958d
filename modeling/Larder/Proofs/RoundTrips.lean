import Larder.Proofs.Exchanges
import Larder.Proofs.Members
import Larder.Proofs.RequestTexts
import Larder.Proofs.Segments
import Larder.Proofs.StoredEntries
import Larder.Proofs.Successions

/-! Entries that are stored, read and deleted by requests. A request leads to the call it is for
and its answer can be read, whatever the key is, so the service promises of an entry what the store
promises of it. What is wrong with a key or a value is said once by the service and once by the
store, and in both places the same. -/

namespace Larder

namespace Api

open Http Store
open Larder.Shelf (Follows)

theorem SetRequest.objection?_eq (r : SetRequest) :
    r.objection? = entryObjection? r.key r.value := by
  unfold objection? entryObjection? keyObjection?
  split
  · rfl
  · split <;> rfl

theorem statusOf_eq_400_iff (f : Failure) : statusOf f = 400 ↔ ∃ o, f = .invalid o := by
  cases f <;> simp [statusOf]

/-- A body of the type and the length that are taken is read as what it carries. -/
theorem requestOf_eq_ok_iff {r : Request} {text : List Char}
    (hbody : r.body = Text.Utf8.encode text) (htype : wantsJson r = true)
    (hlength : r.body.length ≤ bodyLimit) {request : SetRequest} :
    requestOf r = .ok request ↔ SetRequest.Carries text request := by
  have hread : requestOf r = (SetRequest.ofBody r.body).mapError refusalResponse := by
    rw [requestOf, htype, if_neg (by decide), if_neg (Nat.not_lt_of_le hlength)]
  rw [hread, hbody, ← SetRequest.ofBody_eq_ok_iff]
  constructor
  · exact SetRequest.ok_of_mapError
  · intro h
    rw [h]
    rfl

/-- A request whose body can be read is refused for the type or the length of the body only. -/
theorem requestOf_of_ofBody {r : Request} {request : SetRequest}
    (h : SetRequest.ofBody r.body = .ok request) :
    requestOf r = .ok request ∨
      ∃ response, requestOf r = .error response ∧ response.status ≠ 200 := by
  unfold requestOf
  split
  · exact .inr ⟨_, rfl, by decide⟩
  · split
    · exact .inr ⟨_, rfl, by decide⟩
    · rw [h]
      exact .inl rfl

namespace Exchange

def Asks (x : Exchange) (method : String) (target : Bytes) : Prop :=
  x.request.method = method ∧ x.request.target = target

/-- The body is a text that carries the entry to store. -/
def Carries (x : Exchange) (r : SetRequest) : Prop :=
  ∃ text, x.request.body = Text.Utf8.encode text ∧ SetRequest.Carries text r

/-- The request comes in time. -/
def Precedes (x : Exchange) (due : Option Nat) : Prop :=
  ∀ stop, due = some stop → x.now.millis.toNat < stop

variable {x : Exchange} {entry : Entry}

theorem Carries.ofBody {r : SetRequest} (h : x.Carries r) :
    SetRequest.ofBody x.request.body = .ok r := by
  obtain ⟨text, hbody, hcarries⟩ := h
  rw [hbody]
  exact SetRequest.ofBody_of_carries hcarries

theorem Precedes.hasExpired_eq {due : Option Nat} (h : x.Precedes due)
    (hdue : entry.deadline.map UInt64.toNat = due) : entry.hasExpired x.now.millis = false := by
  rw [← Bool.not_eq_true', Entry.hasExpired, Deadline.not_hasPassed_eq, hdue, Option.all_eq_true]
  exact fun stop hstop => decide_eq_true (h stop hstop)

end Exchange

namespace Service

/-- The response has this status and a body that is this value. -/
def Answers (v : Service) (x : Exchange) (status : Nat) (body : Json.Value) : Prop :=
  (v.answer x).answer.status = status ∧ Json.Decodes (v.answer x).answer.body body

/-- A store with room for so many entries that knows what counts in its file. -/
structure Reached (capacity : Nat) (v : Service) : Prop where
  follows : ∃ l, Follows capacity v.store.shelf l
  backed : ∀ outlook, v.store.Backed ⟨v.file, outlook⟩

theorem reached_run {settings : Settings} {now : Millis} {m m' : Medium} {recovered : Recovered}
    (hload : Recovery.load settings now m = (.ok recovered, m')) (events : List Event)
    (xs : List Exchange) :
    ((of ((History.start recovered.store m').run events)).run xs).Reached settings.maxEntries := by
  obtain ⟨more, hmore⟩ := exists_events_run ((History.start recovered.store m').run events) xs
  rw [hmore]
  have hall : ((History.start recovered.store m').run events).run more =
      (History.start recovered.store m').run (events ++ more) := List.foldl_append.symm
  rw [hall]
  refine ⟨?_, fun outlook => backed_of_run hload (events ++ more) outlook⟩
  obtain ⟨requests, since, hshelf, -, -⟩ :=
    (History.start recovered.store m').requests_of_run (events ++ more)
  rw [of, hshelf]
  exact (Recovery.follows_of_load hload).after requests

variable {v : Service} {x : Exchange} {key value : String} {entry : Entry} {segment : Bytes}

/-- A request to store an entry is taken to the store once it has been read. -/
theorem answer_put (v : Service) (hasks : x.Asks "PUT" (utf8 "/set")) :
    v.answer x =
      match requestOf x.request with
      | .error response => ⟨send "PUT" response, v.store, v.found x⟩
      | .ok request =>
        let o := setEntry v.store (v.found x) x.now.millis request
        ⟨send "PUT" o.answer, o.store, o.medium⟩ := by
  obtain ⟨hmethod, htarget⟩ := hasks
  have hpath : Resource.ofPath? (pathOf x.request.target) = some .set := by
    rw [htarget]
    rfl
  rw [answer, handle_of_resource _ _ _ hpath (by rw [hmethod]; exact List.mem_cons_self), hmethod,
    serve]
  cases requestOf x.request <;> rfl

theorem answer_get (v : Service) (hasks : x.Asks "GET" (utf8 "/get/" ++ segment))
    (hspells : Spells segment (utf8 key)) (hkey : key ≠ "") :
    let o := getEntry v.store (v.found x) x.now.millis key
    v.answer x = ⟨send "GET" o.answer, o.store, o.medium⟩ := by
  obtain ⟨hmethod, htarget⟩ := hasks
  have hpath : Resource.ofPath? (pathOf x.request.target) = some (.get segment) := by
    rw [htarget]
    exact ofPath?_get hspells hkey
  rw [answer, handle_of_resource _ _ _ hpath (by rw [hmethod]; exact List.mem_cons_self), hmethod]
  simp only [serve, keyOf_of_spells hspells]

theorem answer_delete (v : Service) (hasks : x.Asks "DELETE" (utf8 "/del/" ++ segment))
    (hspells : Spells segment (utf8 key)) (hkey : key ≠ "") :
    let o := deleteEntry v.store (v.found x) x.now.millis key
    v.answer x = ⟨send "DELETE" o.answer, o.store, o.medium⟩ := by
  obtain ⟨hmethod, htarget⟩ := hasks
  have hpath : Resource.ofPath? (pathOf x.request.target) = some (.delete segment) := by
    rw [htarget]
    exact ofPath?_delete hspells hkey
  rw [answer, handle_of_resource _ _ _ hpath (by rw [hmethod]; exact List.mem_cons_self), hmethod]
  simp only [serve, keyOf_of_spells hspells]

/-- A request that is answered well has had the store set the entry. -/
theorem set_of_status {ttl : Option Nat} (hasks : x.Asks "PUT" (utf8 "/set"))
    (hbody : SetRequest.ofBody x.request.body = .ok ⟨key, value, ttl⟩)
    (hstatus : (v.answer x).answer.status = 200) :
    let o := v.store.set (v.found x) x.now.millis key value (ttl.map Duration.ofSeconds)
    o.answer = .ok () ∧ v.after x = ⟨o.store, o.medium.bytes⟩ := by
  rw [after]
  rw [answer_put v hasks] at hstatus ⊢
  rcases requestOf_of_ofBody hbody with hrequest | ⟨response, hrequest, hrefused⟩
  · simp only [hrequest, status_send] at hstatus ⊢
    cases hvalid : SetRequest.objection? ⟨key, value, ttl⟩ with
    | some o =>
      rw [setEntry_of_objection hvalid] at hstatus
      cases hstatus
    | none =>
      rw [setEntry_of_valid hvalid] at hstatus ⊢
      refine ⟨?_, rfl⟩
      cases hset : (v.store.set (v.found x) x.now.millis key value
          (ttl.map Duration.ofSeconds)).answer with
      | ok _ => rfl
      | error f =>
        rw [hset] at hstatus
        cases f <;> cases hstatus
  · simp only [hrequest, status_send] at hstatus
    exact absurd hstatus hrefused

/-- An entry is there, and there is what it takes to delete it. -/
structure Holds (v : Service) (key : String) (entry : Entry) : Prop where
  valid : keyObjection? key = none
  find? : v.store.shelf.find? key = some entry
  follows : ∃ capacity l, Follows capacity v.store.shelf l
  writer : ∃ w, v.store.writer = some w
  backed : ∀ outlook, v.store.Backed ⟨v.file, outlook⟩

theorem holds_of_put {capacity : Nat} (hv : v.Reached capacity) (hroom : 0 < capacity)
    (hnext : (v.after x).Reached capacity) {ttl : Option Nat} (hasks : x.Asks "PUT" (utf8 "/set"))
    (hbody : SetRequest.ofBody x.request.body = .ok ⟨key, value, ttl⟩)
    (hstatus : (v.answer x).answer.status = 200) :
    (v.after x).Holds key
      ⟨value, v.store.deadlineFor x.now.millis (ttl.map Duration.ofSeconds)⟩ := by
  obtain ⟨hset, hafter⟩ := set_of_status hasks hbody hstatus
  obtain ⟨l, hf⟩ := hv.follows
  refine ⟨keyObjection?_of_set hset, ?_, ⟨capacity, hnext.follows⟩, ?_, hnext.backed⟩
  · rw [hafter]
    exact find?_set_of_ok hf hroom hset
  · rw [hafter]
    exact exists_writer_of_ok hset

/-- An entry that is there and has not expired is found, and stays. -/
theorem Holds.get (h : v.Holds key entry) (hasks : x.Asks "GET" (utf8 "/get/" ++ segment))
    (hspells : Spells segment (utf8 key)) (hlive : entry.hasExpired x.now.millis = false) :
    v.Answers x 200 (.object [("key", .text key), ("value", .text entry.value)]) ∧
      (v.after x).Holds key entry := by
  have hanswer := answer_get v hasks hspells (key_ne_of_keyObjection? h.valid)
  obtain ⟨capacity, l, hf⟩ := h.follows
  obtain ⟨hget, hfind⟩ := get_of_live hf h.find? hlive
  rw [getEntry_eq, hget] at hanswer
  refine ⟨?_, ?_⟩
  · rw [Answers, hanswer, status_send, body_send (by decide)]
    exact ⟨rfl, Reply.decodes_entry key entry.value⟩
  · rw [after, hanswer]
    refine ⟨h.valid, hfind, ⟨capacity, (l.get key x.now.millis).2, ?_⟩, ?_, fun outlook w hw => ?_⟩
    · rw [shelf_get]
      exact (hf.get key x.now.millis).2
    · rw [writer_get]
      exact h.writer
    · rw [writer_get] at hw
      exact h.backed outlook w hw

/-- An entry that is there and has not expired is deleted. -/
theorem Holds.delete (h : v.Holds key entry)
    (hasks : x.Asks "DELETE" (utf8 "/del/" ++ segment)) (hspells : Spells segment (utf8 key))
    (hlive : entry.hasExpired x.now.millis = false) (hcalm : x.outlook.Calm) :
    v.Answers x 200 (.object [("existed", .bool true), ("key", .text key),
        ("message", .text (Reply.deletedMessage key true))]) ∧
      (v.after x).store.shelf.find? key = none := by
  have hanswer := answer_delete v hasks hspells (key_ne_of_keyObjection? h.valid)
  obtain ⟨w, hw⟩ := h.writer
  obtain ⟨hdelete, hfind⟩ := delete_of_live (m := v.found x) h.find? hlive h.valid hw
    (h.backed x.outlook w hw) hcalm
  rw [deleteEntry_eq, hdelete] at hanswer
  refine ⟨?_, ?_⟩
  · rw [Answers, hanswer, status_send, body_send (by decide)]
    exact ⟨rfl, Reply.decodes_deleted key true⟩
  · rw [after, hanswer]
    exact hfind

/-- What is not there is not found. -/
theorem status_get_of_none (hfind : v.store.shelf.find? key = none)
    (hasks : x.Asks "GET" (utf8 "/get/" ++ segment)) (hspells : Spells segment (utf8 key))
    (hkey : key ≠ "") : (v.answer x).answer.status = 404 := by
  rw [answer_get v hasks hspells hkey, getEntry_eq, get_of_none hfind, status_send]
  rfl

theorem answers_of_objection (hasks : x.Asks "PUT" (utf8 "/set")) {request : SetRequest}
    (hrequest : requestOf x.request = .ok request) {o : Objection}
    (ho : request.objection? = some o) :
    v.Answers x 400 (.object [("error", .text (Failure.invalid o).message)]) := by
  rw [Answers, answer_put v hasks, hrequest]
  dsimp only
  rw [setEntry_of_objection ho, status_send, body_send (by decide)]
  exact ⟨rfl, Reply.decodes_failure _⟩

/-- Once a request has been read, its status is 400 if it is objected to before the store has seen
it, and only then. -/
theorem status_put_eq_400_iff (hasks : x.Asks "PUT" (utf8 "/set")) {request : SetRequest}
    (hrequest : requestOf x.request = .ok request) :
    (v.answer x).answer.status = 400 ↔ ∃ o, request.objection? = some o := by
  constructor
  · intro h
    rw [answer_put v hasks, hrequest] at h
    dsimp only at h
    rw [status_send] at h
    cases hvalid : request.objection? with
    | some o => exact ⟨o, rfl⟩
    | none =>
      rw [setEntry_of_valid hvalid] at h
      cases hset : (v.store.set (v.found x) x.now.millis request.key request.value
          (request.ttl.map Duration.ofSeconds)).answer with
      | ok _ => rw [hset] at h; cases h
      | error f =>
        rw [hset] at h
        obtain ⟨o, rfl⟩ := (statusOf_eq_400_iff f).mp h
        rw [answer_set_eq_invalid_iff, ← SetRequest.objection?_eq, hvalid] at hset
        cases hset
  · rintro ⟨o, ho⟩
    exact (answers_of_objection hasks hrequest ho).1

/-- Whatever a store has been through, calls or requests, an entry that was stored by a request
whose body carries it is found by its key, however that is spelled in the path, until it is due; it
is deleted by its key, and then it is not found any more. A request for a change that is refused,
whichever calls of the disk fail, leaves all that is served, counted and committed. A body of the
type and the length that are taken is read as what it carries. A request to store an entry is
objected to before the store has seen it exactly if the store would object to the same key and
value, and in the same words. -/
theorem round_trip {settings : Settings} {loaded : Millis} {m m' : Medium} {recovered : Recovered}
    (hload : Recovery.load settings loaded m = (.ok recovered, m'))
    (hroom : 0 < settings.maxEntries) (events : List Event) (before : List Exchange) :
    let v := (of ((History.start recovered.store m').run events)).run before
    (∀ put key value ttl, put.Asks "PUT" (utf8 "/set") →
        put.Carries ⟨key, value, ttl⟩ → (v.answer put).answer.status = 200 →
        let due := Deadline.due put.now.millis ((ttl.map Duration.ofSeconds).or v.store.defaultTtl)
        ∀ get segment, Spells segment (utf8 key) → get.Asks "GET" (utf8 "/get/" ++ segment) →
          get.Precedes due →
          (v.run [put]).Answers get 200 (.object [("key", .text key), ("value", .text value)]) ∧
          ∀ delete segment, Spells segment (utf8 key) →
            delete.Asks "DELETE" (utf8 "/del/" ++ segment) → delete.Precedes due →
            delete.outlook.Calm →
            (v.run [put, get]).Answers delete 200
              (.object [("existed", .bool true), ("key", .text key),
                ("message", .text (Reply.deletedMessage key true))]) ∧
            ∀ again segment, Spells segment (utf8 key) →
              again.Asks "GET" (utf8 "/get/" ++ segment) →
              ((v.run [put, get, delete]).answer again).answer.status = 404) ∧
      (∀ x, x.request.method = "PUT" ∨ x.request.method = "DELETE" →
        (v.answer x).answer.status ≠ 200 →
        Unmoved v.store (v.found x) (v.answer x).store (v.answer x).medium) ∧
      (∀ r text request, r.body = Text.Utf8.encode text → wantsJson r = true →
        r.body.length ≤ bodyLimit →
        (requestOf r = .ok request ↔ SetRequest.Carries text request)) ∧
      ∀ put request, put.Asks "PUT" (utf8 "/set") → requestOf put.request = .ok request →
        (∀ o m now ttl, (v.store.set m now request.key request.value ttl).answer =
          .error (.invalid o) ↔ request.objection? = some o) ∧
        ((v.answer put).answer.status = 400 ↔ ∃ o, request.objection? = some o) ∧
        ∀ o, request.objection? = some o →
          v.Answers put 400 (.object [("error", .text (Failure.invalid o).message)]) := by
  intro v
  have hv : v.Reached settings.maxEntries := reached_run hload events before
  have hnext : ∀ x, (v.after x).Reached settings.maxEntries := by
    intro x
    have hrun := reached_run hload events (before ++ [x])
    rwa [run, List.foldl_append] at hrun
  refine ⟨?_, fun x => unmoved_of_refused (hv.backed x.outlook),
    fun r text request hbody htype hlength => requestOf_eq_ok_iff hbody htype hlength, ?_⟩
  · intro put key value ttl hasks hcarries hstatus due get segment hspells hget hintime
    have hdue : (v.store.deadlineFor put.now.millis (ttl.map Duration.ofSeconds)).map
        UInt64.toNat = due := Deadline.toNat_ofTtl _ _
    have hholds := holds_of_put hv hroom (hnext put) hasks hcarries.ofBody hstatus
    obtain ⟨hgot, hkept⟩ := hholds.get hget hspells (hintime.hasExpired_eq hdue)
    refine ⟨hgot, fun delete segment hspells hdelete hintime hcalm => ?_⟩
    obtain ⟨hdeleted, hgone⟩ :=
      hkept.delete hdelete hspells (hintime.hasExpired_eq hdue) hcalm
    exact ⟨hdeleted, fun again segment hspells hagain =>
      status_get_of_none hgone hagain hspells (key_ne_of_keyObjection? hholds.valid)⟩
  · intro put request hasks hrequest
    refine ⟨fun o m now ttl => ?_, status_put_eq_400_iff hasks hrequest,
      fun o ho => answers_of_objection hasks hrequest ho⟩
    rw [answer_set_eq_invalid_iff, SetRequest.objection?_eq]

/-- A key with a slash is stored for nine seconds, by a body with its time to live in front, an
escape in a name and a member nobody asked for, read in the last millisecond and deleted under
another spelling. A request whose record does not fit leaves the store as it is, and one without a
key is objected to. -/
theorem round_trip_escaped :
    let s : Store := .ofShelf (.empty 1000) ⟨0, false⟩ .default
    let v : Service := .of (.start s ⟨[], .clear⟩)
    let request (method target body : String) : Request :=
      ⟨method, utf8 target, [("content-type", utf8 "application/json")], utf8 body⟩
    let members := " \x7b\"ttl\" :9, \"\\u006bey\":\"a\\/b\", \"more\":[-1.5E+30, " ++
      "\x7b\"\\ud800\":null, \"key\":[ ]\x7d],\t\"value\" : \"1\"\n\x7d\n"
    let put : Exchange := ⟨request "PUT" "/set" members, .ofMillis 0, .clear⟩
    let get : Exchange := ⟨request "GET" "/get/a%2Fb" "", .ofMillis 8999, .clear⟩
    let delete : Exchange := ⟨request "DELETE" "/del/a%2fb" "", .ofMillis 8999, .clear⟩
    let cramped : Exchange := { put with outlook := ⟨some 3, .none, .first 1⟩ }
    let nameless : Exchange := { put with request := request "PUT" "/set" "[\"\", \"1\"]" }
    Recovery.load .default 0 ⟨[], .clear⟩ = (.ok ⟨s, .zero⟩, ⟨[], .clear⟩) ∧
      0 < Settings.default.maxEntries ∧ put.Carries ⟨"a/b", "1", some 9⟩ ∧
      (v.answer put).answer.status = 200 ∧
      (v.run [put]).Answers get 200 (.object [("key", .text "a/b"), ("value", .text "1")]) ∧
      (v.run [put, get]).Answers delete 200
        (.object [("existed", .bool true), ("key", .text "a/b"),
          ("message", .text "Key 'a/b' deleted successfully")]) ∧
      ((v.run [put, get, delete]).answer get).answer.status = 404 ∧
      (v.answer cramped).answer.status = 500 ∧
      Unmoved v.store (v.found cramped) (v.answer cramped).store (v.answer cramped).medium ∧
      nameless.Carries ⟨"", "1", none⟩ ∧
      v.Answers nameless 400
        (.object [("error", .text "Invalid request: Key cannot be empty")]) := by
  intro s v request members put get delete cramped nameless
  have hload : Recovery.load .default 0 ⟨[], .clear⟩ = (.ok ⟨s, .zero⟩, ⟨[], .clear⟩) :=
    Recovery.load_nil _ _ _
  have hcarries : put.Carries ⟨"a/b", "1", some 9⟩ :=
    ⟨members.toList, rfl, SetRequest.carries_of_ofBody (by decide +kernel)⟩
  have hstatus : (v.answer put).answer.status = 200 := by decide +kernel
  have hfailed : (v.answer cramped).answer.status = 500 := by decide +kernel
  have hnameless : SetRequest.Carries "[\"\", \"1\"]".toList ⟨"", "1", none⟩ :=
    SetRequest.carries_of_ofBody (by decide +kernel)
  have hslash : ∀ {b : UInt8} {segment bs : Bytes}, Json.hexValue? b = some 15 →
      Spells segment bs → Spells (37 :: 50 :: b :: segment) (47 :: bs) := fun hb h =>
    .escape (show Json.hexValue? 50 = some 2 from rfl) hb h
  have hspells : Spells [97, 37, 50, 70, 98] [97, 47, 98] :=
    .plain (by decide) (hslash rfl (.plain (by decide) .nil))
  have hescaped : Spells [97, 37, 50, 102, 98] [97, 47, 98] :=
    .plain (by decide) (hslash rfl (.plain (by decide) .nil))
  have hget : get.Asks "GET" (utf8 "/get/" ++ [97, 37, 50, 70, 98]) := ⟨rfl, by decide +kernel⟩
  have hdelete : delete.Asks "DELETE" (utf8 "/del/" ++ [97, 37, 50, 102, 98]) :=
    ⟨rfl, by decide +kernel⟩
  have hdue : Deadline.due put.now.millis
      (((some 9).map Duration.ofSeconds).or v.store.defaultTtl) = some 9000 := by decide +kernel
  have hintime : get.Precedes (Deadline.due put.now.millis
      (((some 9).map Duration.ofSeconds).or v.store.defaultTtl)) := by
    rw [hdue]
    rintro stop ⟨⟩
    decide
  obtain ⟨htrip, hrefused, hheld, hchecked⟩ := round_trip hload (by decide) [] []
  obtain ⟨hgot, hafter⟩ :=
    htrip put "a/b" "1" (some 9) ⟨rfl, rfl⟩ hcarries hstatus get _ hspells hget hintime
  obtain ⟨hdeleted, hagain⟩ := hafter delete _ hescaped hdelete hintime Outlook.calm_clear
  have hrequest : requestOf nameless.request = .ok ⟨"", "1", none⟩ :=
    (hheld nameless.request _ _ rfl (by decide +kernel) (by decide +kernel)).mpr hnameless
  refine ⟨hload, by decide, hcarries, hstatus, hgot, hdeleted, hagain get _ hspells hget, hfailed,
    hrefused cramped (.inl rfl) fun h => ?_, ⟨_, rfl, hnameless⟩, ?_⟩
  · exact absurd (hfailed.symm.trans h) (by decide)
  · exact (hchecked nameless _ ⟨rfl, rfl⟩ hrequest).2.2 .emptyKey rfl

end Service

end Api

end Larder
