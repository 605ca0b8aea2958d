import Larder.Api.Router
import Larder.Proofs.IntactStores

/-! Requests that the service answers one after the other, each at its own clock reading and with
its own outlook for the disk. A request asks at most one thing of the store, so whatever requests a
store has answered, it has been through a run of calls; and one for a change that is refused leaves
the store as it was. -/

namespace Larder

namespace Api

open Http Store

@[simp]
theorem status_send (method : String) (response : Response) :
    (send method response).status = response.status := by
  unfold send
  dsimp only
  split <;> rfl

theorem body_send {method : String} (h : method ≠ "HEAD") (response : Response) :
    (send method response).body = response.body := by
  unfold send
  rw [if_neg h]
  rfl

section

variable {s : Store} {m : Medium} {now : Millis}

theorem setEntry_of_objection {r : SetRequest} {o : Objection} (h : r.objection? = some o) :
    setEntry s m now r = ⟨failureResponse (.invalid o), s, m⟩ := by
  rw [setEntry, h]

theorem setEntry_of_valid {r : SetRequest} (h : r.objection? = none) :
    let o := s.set m now r.key r.value (r.ttl.map Duration.ofSeconds)
    setEntry s m now r =
      ⟨match o.answer with
        | .error f => failureResponse f
        | .ok _ => .json 200 (Reply.stored r.key).text, o.store, o.medium⟩ := by
  simp only [setEntry, h]
  generalize s.set m now _ _ _ = o
  obtain ⟨answer, s', m'⟩ := o
  cases answer <;> rfl

theorem getEntry_eq (s : Store) (m : Medium) (now : Millis) (key : String) :
    getEntry s m now key =
      ⟨match (s.get now key).1 with
        | some value => .json 200 (Reply.entry key value).text
        | none => failureResponse (.notFound key), (s.get now key).2, m⟩ := by
  unfold getEntry
  generalize s.get now key = o
  obtain ⟨found, s'⟩ := o
  cases found <;> rfl

theorem deleteEntry_eq (s : Store) (m : Medium) (now : Millis) (key : String) :
    deleteEntry s m now key =
      ⟨match (s.delete m now key).answer with
        | .error f => failureResponse f
        | .ok existed => .json 200 (Reply.deleted key existed).text,
        (s.delete m now key).store, (s.delete m now key).medium⟩ := by
  unfold deleteEntry
  generalize s.delete m now key = o
  obtain ⟨answer, s', m'⟩ := o
  cases answer <;> rfl

theorem handle_of_resource {r : Request} {resource : Resource} (s : Store) (m : Medium)
    (now : Instant) (hpath : Resource.ofPath? (pathOf r.target) = some resource)
    (hmethod : r.method ∈ resource.methods) :
    let o := serve s m now r resource
    handle s m now r = ⟨send r.method o.answer, o.store, o.medium⟩ := by
  have hoptions : r.method ≠ "OPTIONS" := by
    intro h
    rw [h] at hmethod
    cases resource <;> simp [Resource.methods] at hmethod
  simp only [handle, route, hpath, if_neg hoptions, if_pos hmethod]

/-- A resource is asked by one of its methods; every other request is answered without the
store. -/
theorem handle_cases (s : Store) (m : Medium) (now : Instant) (r : Request) :
    (∃ resource, r.method ∈ resource.methods ∧ handle s m now r =
        ⟨send r.method (serve s m now r resource).answer, (serve s m now r resource).store,
          (serve s m now r resource).medium⟩) ∨
      (handle s m now r).store = s ∧ (handle s m now r).medium = m := by
  by_cases hserved : ∃ resource, Resource.ofPath? (pathOf r.target) = some resource ∧
      r.method ∈ resource.methods
  · obtain ⟨resource, hpath, hmethod⟩ := hserved
    exact .inl ⟨resource, hmethod, handle_of_resource s m now hpath hmethod⟩
  · right
    unfold handle route
    dsimp only
    split
    · exact ⟨rfl, rfl⟩
    · split
      · exact ⟨rfl, rfl⟩
      · rename_i resource hpath
        rw [if_neg fun hmethod => hserved ⟨resource, hpath, hmethod⟩]
        exact ⟨rfl, rfl⟩

end

/-- A request that reaches the service, the time at which it does, and what lies ahead for the
disk from then on. -/
structure Exchange where
  request : Request
  now : Instant
  outlook : Outlook

/-- The store behind the service, and its journal's file. -/
structure Service where
  store : Store
  file : Bytes

namespace Service

/-- The file as a request finds it. -/
def found (v : Service) (x : Exchange) : Medium := ⟨v.file, x.outlook⟩

def answer (v : Service) (x : Exchange) : Outcome Response :=
  handle v.store (v.found x) x.now x.request

def after (v : Service) (x : Exchange) : Service :=
  ⟨(v.answer x).store, (v.answer x).medium.bytes⟩

def run (v : Service) (xs : List Exchange) : Service := xs.foldl after v

/-- A service whose store has been through something already. -/
def of (h : History) : Service := ⟨h.store, h.medium.bytes⟩

theorem of_run_singleton (h : History) (e : Event) :
    of (h.run [e]) = ⟨(h.store.perform (h.found e) e.now e.call).store,
      (h.store.perform (h.found e) e.now e.call).medium.bytes⟩ := by
  rw [History.run, List.foldl_cons, List.foldl_nil, History.step]
  split <;> rfl

/-- A request asks at most one thing of the store. -/
theorem exists_events_after (h : History) (x : Exchange) :
    ∃ events, (of h).after x = of (h.run events) := by
  rcases handle_cases h.store ((of h).found x) x.now x.request with
    ⟨resource, -, hserved⟩ | ⟨hstore, hmedium⟩
  · rw [after, answer, show (of h).store = h.store from rfl, hserved]
    cases resource with
    | set =>
      rw [serve]
      split
      · exact ⟨[], rfl⟩
      · rename_i request _
        cases hvalid : request.objection? with
        | some o =>
          rw [setEntry_of_objection hvalid]
          exact ⟨[], rfl⟩
        | none =>
          let call : Call := .set request.key request.value (request.ttl.map Duration.ofSeconds)
          rw [setEntry_of_valid hvalid]
          exact ⟨_, (of_run_singleton h ⟨call, x.now.millis, x.outlook⟩).symm⟩
    | get segment =>
      rw [serve]
      split
      · exact ⟨[], rfl⟩
      · rename_i key _
        rw [getEntry_eq]
        exact ⟨_, (of_run_singleton h ⟨.get key, x.now.millis, x.outlook⟩).symm⟩
    | delete segment =>
      rw [serve]
      split
      · exact ⟨[], rfl⟩
      · rename_i key _
        rw [deleteEntry_eq]
        exact ⟨_, (of_run_singleton h ⟨.delete key, x.now.millis, x.outlook⟩).symm⟩
    | stats => exact ⟨[], rfl⟩
    | health => exact ⟨[], rfl⟩
  · refine ⟨[], ?_⟩
    rw [after, answer, show (of h).store = h.store from rfl, hstore, hmedium]
    rfl

theorem exists_events_run (h : History) (xs : List Exchange) :
    ∃ events, (of h).run xs = of (h.run events) := by
  induction xs generalizing h with
  | nil => exact ⟨[], rfl⟩
  | cons x xs ih =>
    obtain ⟨first, hfirst⟩ := exists_events_after h x
    obtain ⟨rest, hrest⟩ := ih (h.run first)
    refine ⟨first ++ rest, ?_⟩
    rw [run, List.foldl_cons, hfirst]
    refine hrest.trans (congrArg of ?_)
    exact List.foldl_append.symm

variable {v : Service} {x : Exchange}

/-- A request for a change that is refused, or that leads nowhere, leaves the store as it is. -/
theorem unmoved_of_refused (hb : v.store.Backed (v.found x))
    (hmethod : x.request.method = "PUT" ∨ x.request.method = "DELETE")
    (hstatus : (v.answer x).answer.status ≠ 200) :
    Unmoved v.store (v.found x) (v.answer x).store (v.answer x).medium := by
  rcases handle_cases v.store (v.found x) x.now x.request with
    ⟨resource, hmem, hserved⟩ | ⟨hstore, hmedium⟩
  · rw [answer, hserved, status_send] at hstatus
    rw [answer, hserved]
    cases resource with
    | set =>
      rw [serve] at hstatus ⊢
      split at hstatus
      · exact hb.unmoved
      · rename_i request _
        cases hvalid : request.objection? with
        | some o =>
          rw [setEntry_of_objection hvalid]
          exact hb.unmoved
        | none =>
          rw [setEntry_of_valid hvalid] at hstatus ⊢
          cases hset : (v.store.set (v.found x) x.now.millis request.key request.value
              (request.ttl.map Duration.ofSeconds)).answer with
          | error f => exact (intact_set hb hset).toUnmoved
          | ok _ =>
            rw [hset] at hstatus
            exact absurd rfl hstatus
    | delete segment =>
      rw [serve] at hstatus ⊢
      split at hstatus
      · exact hb.unmoved
      · rename_i key _
        rw [deleteEntry_eq] at hstatus ⊢
        cases hdelete : (v.store.delete (v.found x) x.now.millis key).answer with
        | error f => exact (intact_delete hb hdelete).toUnmoved
        | ok existed =>
          rw [hdelete] at hstatus
          exact absurd rfl hstatus
    | _ => rcases hmethod with h | h <;> simp [h, Resource.methods] at hmem
  · rw [answer, hstore, hmedium]
    exact hb.unmoved

end Service

end Api

end Larder
