import StoreCache.Http.Client
import StoreCache.Proofs.Asking

/-!
# Subscribing over HTTP

The thin client asks for one document at a time, so a subscription left to it takes up to four
requests: the placement, the record on the cluster placed, the key schemas, the value schemas
(`ThinClient.steps`). What becomes of a request is good, says that the store does not exist, or is
of no use (`Exchange.worth`), and this is all that counts: **a request is made if all before it went
well, and the first that does not decides how the call ends** (`subscription_over_http`).

The three layers in between — the reading of a reply, the failed fetches, the refused calls — are
crossed by one fact for each question: the refusal in the answer of the source is worth what the
exchange is (`ThinClient.worth_placement`, `worth_record`, `worth_schemas`).
-/

namespace StoreCache.Http

open Json (Tree)

/-! ### What an exchange is worth -/

/-- What an exchange is worth to the one who asked for a document. -/
inductive Worth
  | good
  /-- It says that the store does not exist. -/
  | gone
  /-- Nothing can be made of it. -/
  | unfit
  deriving DecidableEq, Repr

/-- What an exchange is worth, if `judge` says what a document is worth. -/
def Exchange.worth (judge : Tree → Worth) : Exchange → Worth
  | .failed | .timedOut => .unfit
  | .replied status body =>
    if status = 404 then .gone
    else if isSuccess status then body.document?.elim .unfit judge
    else .unfit

/-- The document in the body of a reply. -/
def Exchange.document? : Exchange → Option Tree
  | .failed | .timedOut => none
  | .replied _ body => body.document?

section Reading

variable {α : Type}

/-- **What reading an exchange comes to**, beside what the exchange is worth. -/
inductive Exchange.Reading (missing : FetchError) (read? : Tree → Option α) (x : Exchange) :
    Except FetchError α → Prop
  /-- There is a document, and it can be read. -/
  | read {t : Tree} {a : α} (ht : x.document? = some t) (ha : read? t = some a)
    (hworth : ∀ judge, x.worth judge = judge t) : Reading missing read? x (.ok a)
  /-- There is no document. -/
  | missing (hworth : ∀ judge, x.worth judge = .gone) : Reading missing read? x (.error missing)
  /-- There is no telling. -/
  | useless {e : FetchError} (hstays : e.saysGone = false)
    (hworth : ∀ judge, (∀ t, read? t = none → judge t = .unfit) → x.worth judge = .unfit) :
    Reading missing read? x (.error e)

theorem Exchange.reading (url : Url) (missing : FetchError) (read? : Tree → Option α)
    (x : Exchange) : x.Reading missing read? (x.read url missing read?) := by
  cases x with
  | failed => exact .useless rfl fun _ _ ↦ rfl
  | timedOut => exact .useless rfl fun _ _ ↦ rfl
  | replied status body =>
    simp only [Exchange.read]
    split
    · rename_i hstatus
      exact .missing fun judge ↦ if_pos hstatus
    · rename_i hstatus
      split
      · rename_i hsuccess
        have hworth : ∀ judge, (replied status body).worth judge =
            body.document?.elim .unfit judge := fun judge ↦ by
          simp only [Exchange.worth, if_neg hstatus, if_pos hsuccess]
        rcases hdocument : body.document? with - | t
        · exact .useless rfl fun judge _ ↦ by rw [hworth, hdocument]; rfl
        · rcases hread : read? t with - | a
          · simp only [Option.bind_some, hread]
            exact .useless rfl fun judge hjudge ↦ by
              rw [hworth, hdocument]
              exact hjudge t hread
          · simp only [Option.bind_some, hread]
            exact .read hdocument hread fun judge ↦ by rw [hworth, hdocument]; rfl
      · rename_i hsuccess
        exact .useless rfl fun judge _ ↦ by
          simp only [Exchange.worth, if_neg hstatus, if_neg hsuccess]

end Reading

/-- What a refusal is worth, or that there is none. -/
def Worth.ofRefusal : Option CacheError → Worth
  | none => .good
  | some e => if e.isNoSuchStore then .gone else .unfit

/-- What a failed fetch is worth. -/
def Worth.ofFailure (e : FetchError) : Worth := if e.saysGone then .gone else .unfit

theorem Worth.ofRefusal_ofFetch (n : String) (e : FetchError) :
    ofRefusal (some (.ofFetch n e)) = ofFailure e := by
  unfold ofRefusal CacheError.ofFetch ofFailure
  by_cases h : e.saysGone <;> simp [h, CacheError.isNoSuchStore]

theorem Worth.ofFailure_ne_good (e : FetchError) : ofFailure e ≠ .good := by
  unfold ofFailure
  split <;> nofun

/-! ### Steps in turn -/

/-- A request with what becomes of it. -/
structure Step where
  url : Url
  worth : Worth

namespace Step

/-- The request of a service for a URL, where `judge` says what the document is worth. -/
def of (service : Service) (url : Url) (judge : Tree → Worth) : Step :=
  ⟨url, (service url).worth judge⟩

/-- The first step that does not go well. -/
def firstBad? (steps : List Step) : Option Step := steps.find? (·.worth ≠ .good)

/-- What the steps are worth together. -/
def worthOf (steps : List Step) : Worth := (firstBad? steps).elim .good worth

/-- The steps that are taken if the first that does not go well is the last. -/
def taken : List Step → List Step
  | [] => []
  | step :: steps => step :: if step.worth = .good then taken steps else []

variable {step : Step} {steps : List Step}

theorem worthOf_cons : worthOf (step :: steps) =
    if step.worth = .good then worthOf steps else step.worth := by
  by_cases h : step.worth = .good <;> simp [worthOf, firstBad?, h]

theorem taken_prefix (steps : List Step) : taken steps <+: steps := by
  induction steps with
  | nil => exact List.prefix_rfl
  | cons step steps ih =>
    unfold taken
    split
    · exact List.prefix_cons_inj step |>.2 ih
    · exact List.prefix_cons_inj step |>.2 List.nil_prefix

/-- **A step is taken if all before it have gone well.** -/
theorem mem_taken_iff (hdistinct : (steps.map url).Nodup) {earlier later : List Step}
    (h : steps = earlier ++ step :: later) :
    step.url ∈ (taken steps).map url ↔ ∀ s ∈ earlier, s.worth = .good := by
  induction earlier generalizing steps with
  | nil =>
    subst h
    simp [taken]
  | cons first earlier ih =>
    subst h
    rw [List.cons_append, List.map_cons, List.nodup_cons] at hdistinct
    have hother : step.url ≠ first.url := fun heq ↦
      hdistinct.1 (heq ▸ List.mem_map_of_mem (List.mem_append_right earlier List.mem_cons_self))
    by_cases hgood : first.worth = .good
    · simp [taken, hgood, hother, ih hdistinct.2 rfl]
    · simp [taken, hgood, hother]

theorem worthOf_eq_good_iff : worthOf steps = .good ↔ ∀ s ∈ steps, s.worth = .good := by
  induction steps with
  | nil => simp [worthOf, firstBad?]
  | cons step steps ih =>
    rw [worthOf_cons, List.forall_mem_cons, ← ih]
    split
    · rename_i hgood
      simp [hgood]
    · rename_i hbad
      simp [hbad]

theorem worthOf_eq_iff {worth : Worth} (hbad : worth ≠ .good) :
    worthOf steps = worth ↔ ∃ s, firstBad? steps = some s ∧ s.worth = worth := by
  unfold worthOf
  rcases firstBad? steps with - | s
  · simpa using hbad.symm
  · simp

end Step

/-! ### The steps of the thin client -/

namespace ThinClient

/-- What a document is worth as the placement of a store. -/
def judgePlacement (n : String) (t : Tree) : Worth :=
  match placementOf? n t with
  | some p => if p.deleting then .gone else .good
  | none => .unfit

/-- What a document is worth as the record of a store. -/
def judgeRecord (n : String) (t : Tree) : Worth :=
  match Store.ofTree? t with
  | some s => if s.name = n then .good else .unfit
  | none => .unfit

/-- What a document is worth as schemas by id. -/
def judgeSchemas (field : String) (t : Tree) : Worth :=
  if (schemasOf? field t).isSome then .good else .unfit

/-- The cluster in the reply to the request for the placement of a store. -/
def clusterTold (service : Service) (base : Url) (n : String) : String :=
  ((service (url base n .placement)).document?.bind (placementOf? n)).elim "" Placement.cluster

/-- The request for the placement of a store. -/
def placementStep (service : Service) (base : Url) (n : String) : Step :=
  .of service (url base n .placement) (judgePlacement n)

/-- The request for the record of a store on a cluster. -/
def recordStep (service : Service) (base : Url) (n cluster : String) : Step :=
  .of service (recordUrl base n cluster) (judgeRecord n)

/-- The requests for the schemas of a store. -/
def schemaSteps (service : Service) (base : Url) (n : String) : List Step :=
  [.of service (url base n .keySchemas) (judgeSchemas "key_schema_map"),
   .of service (url base n .valueSchemas) (judgeSchemas "value_schema_map")]

/-- **The requests that a subscription comes to make** if all goes well, in order. -/
def steps (service : Service) (base : Url) (n : String) : List Step :=
  placementStep service base n :: recordStep service base n (clusterTold service base n) ::
    schemaSteps service base n

variable {service : Service} {base : Url} {n : String}

theorem getLast?_push (path : Url.Path) (segment : String) :
    (path.push segment).getLast? = some segment := by
  unfold Url.Path.push
  split <;> simp

/-- The URL of a key ends in the name of the key. -/
theorem getLast?_url (base : Url) (n : String) (key : Key) :
    (url base n key).path.getLast? = some key.name := by
  have happend : ∀ path : Url.Path, path.append key.name = path.push key.name := by
    intro path
    cases key <;> rfl
  show (((base.path.withoutTrailingSlash.append "meta_store").append n).append
    key.name).getLast? = _
  rw [happend, getLast?_push]

/-- The URLs are four different ones. -/
theorem steps_distinct (service : Service) (base : Url) (n : String) :
    ((steps service base n).map Step.url).Nodup := by
  have hname : ((steps service base n).map Step.url).map (·.path.getLast?) =
      [some Key.placement.name, some Key.record.name, some Key.keySchemas.name,
        some Key.valueSchemas.name] := by
    simp only [steps, placementStep, recordStep, schemaSteps, Step.of, List.map_cons, List.map_nil,
      recordUrl, Url.withParameter, getLast?_url]
  refine .of_map (·.path.getLast?) ?_
  rw [hname]
  decide

/-! ### What the answers are worth -/

/-- The refusal in a placement is worth what the exchange is. -/
theorem worth_placement (service : Service) (base : Url) (n : String) :
    Worth.ofRefusal ((Client.source ⟨.thinClient, base⟩ service).refusal? n .placement) =
      (placementStep service base n).worth := by
  have hreading := Exchange.reading (url base n .placement) (missing n .placement) (placementOf? n)
    (service (url base n .placement))
  simp only [Source.refusal?, Client.source, Client.placement, placement, Inquiry.mapResult,
    Inquiry.get, placementStep, Step.of]
  generalize (service (url base n .placement)).read _ _ _ = result at hreading ⊢
  cases hreading with
  | @read t p _ ha hworth =>
    rw [hworth]
    simp only [judgePlacement, ha]
    split <;> rfl
  | missing hworth =>
    rw [hworth]
    rfl
  | @useless e hstays hworth =>
    rw [hworth _ fun t ht ↦ by simp only [judgePlacement, ht]]
    cases e with
    | missingKey => cases hstays
    | _ =>
      simp only [Worth.ofRefusal_ofFetch, Worth.ofFailure, hstays, Bool.false_eq_true, if_false]

/-- The cluster of a placement is the one in the reply. -/
theorem clusterTold_of_placement {p : Placement}
    (hp : (Client.source ⟨.thinClient, base⟩ service).placement n = .ok (some p)) :
    clusterTold service base n = p.cluster := by
  have hreading := Exchange.reading (url base n .placement) (missing n .placement) (placementOf? n)
    (service (url base n .placement))
  simp only [Client.source, Client.placement, placement, Inquiry.mapResult, Inquiry.get] at hp
  generalize (service (url base n .placement)).read _ _ _ = result at hreading hp
  cases hreading with
  | read ht ha =>
    cases hp
    simp only [clusterTold, ht, Option.bind_some, ha, Option.elim_some]
  | missing => cases hp
  | @useless e =>
    cases e <;> cases hp

/-- The refusal in a record is worth what the exchange is. -/
theorem worth_record (service : Service) (base : Url) (n : String) (p : Placement) :
    Worth.ofRefusal ((Client.source ⟨.thinClient, base⟩ service).refusal? n (.record p)) =
      (recordStep service base n p.cluster).worth := by
  have hreading := Exchange.reading (recordUrl base n p.cluster) (missing n .record) Store.ofTree?
    (service (recordUrl base n p.cluster))
  simp only [Source.refusal?, Client.source, Client.record, record, Inquiry.get, recordStep,
    Step.of]
  generalize (service (recordUrl base n p.cluster)).read _ _ _ = result at hreading ⊢
  cases hreading with
  | @read t s _ ha hworth =>
    rw [hworth]
    simp only [judgeRecord, ha]
    split <;> rfl
  | missing hworth =>
    rw [hworth]
    rfl
  | useless hstays hworth =>
    rw [hworth _ fun t ht ↦ by simp only [judgeRecord, ht]]
    simp only [Worth.ofRefusal_ofFetch, Worth.ofFailure, hstays, Bool.false_eq_true, if_false]

/-- What a request for schemas by id is worth. -/
theorem worth_judgeSchemas {x : Exchange} {key : Key} {field : String}
    {result : Except FetchError (Dict Int32 String)} :
    x.Reading (missing n key) (schemasOf? field) result →
      x.worth (judgeSchemas field) =
        match result with
        | .ok _ => .good
        | .error e => .ofFailure e := by
  intro h
  cases h with
  | read _ ha hworth => rw [hworth, judgeSchemas, ha]; rfl
  | missing hworth => exact hworth _
  | useless hstays hworth =>
    rw [hworth _ fun t ht ↦ by rw [judgeSchemas, ht]; rfl]
    simp only [Worth.ofFailure, hstays, Bool.false_eq_true, if_false]

/-- The schemas take both requests if the first goes well, and the refusal in them is worth what
the two are worth together. -/
theorem worth_schemas (service : Service) (base : Url) (n : String) (s : Store) :
    Client.urls ⟨.thinClient, base⟩ service (.schemas n) =
        (Step.taken (schemaSteps service base n)).map Step.url ∧
      Worth.ofRefusal ((Client.source ⟨.thinClient, base⟩ service).refusal? n (.schemas s)) =
        Step.worthOf (schemaSteps service base n) := by
  have hkeys := worth_judgeSchemas (Exchange.reading (url base n .keySchemas)
    (missing n .keySchemas) (schemasOf? "key_schema_map") (service (url base n .keySchemas)))
  have hvalues := worth_judgeSchemas (Exchange.reading (url base n .valueSchemas)
    (missing n .valueSchemas) (schemasOf? "value_schema_map") (service (url base n .valueSchemas)))
  simp only [Client.urls, Client.source, Source.refusal?, Client.schemas, schemas, Inquiry.andThen,
    Inquiry.mapResult, Inquiry.get, schemaSteps, Step.taken, Step.worthOf_cons, Step.of]
  generalize (service (url base n .keySchemas)).read _ _ _ = keys at hkeys ⊢
  generalize (service (url base n .valueSchemas)).read _ _ _ = values at hvalues ⊢
  rw [hkeys, hvalues]
  rcases keys with e | keys
  · simp [Worth.ofFailure_ne_good, Worth.ofRefusal_ofFetch]
  · rcases values with e | values
    · simp [Worth.ofFailure_ne_good, Worth.ofRefusal_ofFetch, Except.map]
    · simp [Except.map, Step.worthOf, Step.firstBad?, Worth.ofRefusal]

end ThinClient

end StoreCache.Http

namespace StoreCache

open Http

/-! ### How the requests end -/

namespace Http

/-- The outcomes that a call may have whose requests are worth that much. -/
def Worth.Allows : Worth → Outcome → Prop
  | .good, o => o = .ok .done
  | .gone, o => ∃ err, o = .error err ∧ err.isNoSuchStore = true
  | .unfit, o => ∃ err, o = .error err ∧ err.isPassing = true

/-- What the requests were worth, as far as an outcome tells. -/
def Worth.ofOutcome : Outcome → Worth
  | .ok _ => .good
  | .error err => if err.isNoSuchStore then .gone else .unfit

theorem Worth.Allows.ofOutcome_eq {worth : Worth} {o : Outcome} (h : worth.Allows o) :
    ofOutcome o = worth := by
  cases worth with
  | good =>
    obtain rfl := h
    rfl
  | gone =>
    obtain ⟨err, rfl, hgone⟩ := h
    exact if_pos hgone
  | unfit =>
    obtain ⟨err, rfl, hpassing⟩ := h
    cases err <;> first | rfl | cases hpassing

/-- An outcome is allowed by one worth only. -/
theorem Worth.Allows.iff {worth other : Worth} {o : Outcome} (h : worth.Allows o) :
    other.Allows o ↔ worth = other :=
  ⟨fun h' ↦ h.ofOutcome_eq.symm.trans h'.ofOutcome_eq, fun heq ↦ heq ▸ h⟩

theorem Worth.allows_of_refusal {source : Source} {n : String} {stage : Stage} {err : CacheError}
    (h : source.refusal? n stage = some err) : (ofRefusal (some err)).Allows (.error err) := by
  unfold ofRefusal
  by_cases hgone : err.isNoSuchStore
  · simp only [hgone, if_true]
    exact ⟨err, rfl, hgone⟩
  · simp only [hgone, Bool.false_eq_true, if_false]
    exact ⟨err, rfl, (Source.kind_of_refusal? h).resolve_left hgone⟩

theorem Worth.ofRefusal_some_ne_good (err : CacheError) : ofRefusal (some err) ≠ .good := by
  simp only [ofRefusal]
  split <;> nofun

/-- A question that is refused is the last, and the refusal is what the call comes to. -/
theorem Worth.allows_of_leads {source : Source} {n : String} {stage : Stage} {err : CacheError}
    {asked : List Question} {urls : Question → List Url} {steps : List Step}
    (hleads : source.Leads n stage asked) (hrefusal : source.refusal? n stage = some err)
    (hasked : asked.flatMap urls = (Step.taken steps).map Step.url)
    (hworth : ofRefusal (source.refusal? n stage) = Step.worthOf steps) :
    (source.questions n).flatMap urls = (Step.taken steps).map Step.url ∧
      (Step.worthOf steps).Allows
        (World.reply n false (((source.about n).verdict n).map some)) := by
  obtain ⟨rfl, hverdict⟩ := hleads.of_refusal hrefusal
  rw [hverdict, ← hworth, hrefusal]
  exact ⟨hasked, allows_of_refusal hrefusal⟩

/-- The questions to which the service leads a subscription take the requests up to the first that
does not go well, and what the answers mean is what these are worth. -/
theorem ThinClient.course (service : Service) (base : Url) (n : String) :
    ((Client.source ⟨.thinClient, base⟩ service).questions n).flatMap
        (Client.urls ⟨.thinClient, base⟩ service) =
      (Step.taken (steps service base n)).map Step.url ∧
    (Step.worthOf (steps service base n)).Allows (World.reply n false
      ((((Client.source ⟨.thinClient, base⟩ service).about n).verdict n).map some)) := by
  have hplacement := worth_placement service base n
  have hrecord := worth_record service base n
  have hschemas := worth_schemas service base n
  have hcluster : ∀ {p}, (Client.source ⟨.thinClient, base⟩ service).placement n = .ok (some p) →
      clusterTold service base n = p.cluster := clusterTold_of_placement
  generalize hsource : Client.source ⟨.thinClient, base⟩ service = source
    at hplacement hrecord hschemas hcluster ⊢
  -- A request goes well exactly if its answer is no refusal.
  have hwell : ∀ {stage} {step : Step}, Worth.ofRefusal (source.refusal? n stage) = step.worth →
      source.refusal? n stage = none → step.worth = .good := fun hworth hnone ↦
    hworth.symm.trans (congrArg Worth.ofRefusal hnone)
  have hbad : ∀ {stage err} {step : Step},
      Worth.ofRefusal (source.refusal? n stage) = step.worth →
      source.refusal? n stage = some err → step.worth ≠ .good := fun hworth hsome ↦ by
    rw [← hworth, hsome]
    exact Worth.ofRefusal_some_ne_good _
  rcases hfirst : source.refusal? n .placement with - | err
  · obtain ⟨p, hp, hstays⟩ := Source.placement_of_refusal?_eq_none hfirst
    have hgood := hwell hplacement hfirst
    rw [steps, hcluster hp]
    rcases hsecond : source.refusal? n (.record p) with - | err
    · obtain ⟨s, hs, hname⟩ := Source.record_of_refusal?_eq_none hsecond
      have hleads := Source.Leads.schemas hp hstays hs hname
      have hgood' := hwell (hrecord p) hsecond
      obtain ⟨htaken, hworth⟩ := hschemas s.completed
      have hall : [Question.placement n, .record n p.cluster, .schemas n].flatMap
          (Client.urls ⟨.thinClient, base⟩ service) = (Step.taken (placementStep service base n ::
            recordStep service base n p.cluster :: schemaSteps service base n)).map Step.url := by
        simp only [Step.taken, if_pos hgood, if_pos hgood', List.map_cons, ← htaken,
          List.flatMap_cons, List.flatMap_nil, List.append_nil]
        rfl
      have hlast : Step.worthOf (placementStep service base n ::
          recordStep service base n p.cluster :: schemaSteps service base n) =
          Worth.ofRefusal (source.refusal? n (.schemas s.completed)) := by
        rw [Step.worthOf_cons, if_pos hgood, Step.worthOf_cons, if_pos hgood', hworth]
      rcases hthird : source.refusal? n (.schemas s.completed) with - | err
      · obtain ⟨d, hd⟩ := Source.schemas_of_refusal?_eq_none hthird
        obtain ⟨hquestions, hverdict⟩ := hleads.of_done hd
        rw [← hquestions, hverdict, hlast, hthird]
        exact ⟨hall, rfl⟩
      · exact Worth.allows_of_leads hleads hthird hall hlast.symm
    · have hbad' := hbad (hrecord p) hsecond
      refine Worth.allows_of_leads (.record hp hstays) hsecond ?_ ?_
      · simp only [Step.taken, if_pos hgood, if_neg hbad']
        rfl
      · rw [Step.worthOf_cons, if_pos hgood, Step.worthOf_cons, if_neg hbad', hrecord]
  · have hbad' := hbad hplacement hfirst
    refine Worth.allows_of_leads .placement hfirst ?_ ?_
    · simp only [steps, Step.taken, if_neg hbad']
      rfl
    · rw [steps, Step.worthOf_cons, if_neg hbad', hplacement]

end Http

/-! ### The theorem -/

/-- **A subscription over HTTP, end to end.** Let a store that is not subscribed be subscribed in a
cache in use, whose listeners are passive, and let nobody else touch what the cache holds about it;
the thin client finds a service that stays as it is.

* The URLs requested are the first of the four `ThinClient.steps`, each once.
* Three answers are enough for the call to return.
* When it has returned, a step has been taken exactly if all before it have gone well; the call has
  succeeded exactly if all four have; and the first that has not decides whether it was refused
  because there is no such store or because the fetch failed. -/
theorem subscription_over_http (b : Behaviour) (w : World) (id : CallId) (n : String) (base : Url)
    (service : Http.Service) (events : List Event) (hnew : w.knows id = false)
    (hphase : w.cache.phase = .started) (hn : w.cache.stores.get? n = none)
    (hb : b.Passive w.cache.journal)
    (hleft : LeftTo (Client.source ⟨.thinClient, base⟩ service) b
      (w.step b (.call id (.subscribe n))) id n events) :
    let run := Event.call id (.subscribe n) :: events
    let requested := (w.inquiries b id run).flatMap (Client.urls ⟨.thinClient, base⟩ service)
    let steps := ThinClient.steps service base n
    requested <+: steps.map Step.url ∧ requested.Nodup ∧
    (3 ≤ answersTo id events → (w.run b run).task? id = none) ∧
    ((w.run b run).task? id = none →
      (∀ earlier step later, steps = earlier ++ step :: later →
        (step.url ∈ requested ↔ ∀ s ∈ earlier, s.worth = .good)) ∧
      ∃ o, (w.run b run).outcomes.lookup id = some o ∧
        (o = .ok .done ↔ ∀ s ∈ steps, s.worth = .good) ∧
        ((∃ err, o = .error err ∧ err.isNoSuchStore = true) ↔
          ∃ s, Step.firstBad? steps = some s ∧ s.worth = .gone) ∧
        ((∃ err, o = .error err ∧ err.isPassing = true) ↔
          ∃ s, Step.firstBad? steps = some s ∧ s.worth = .unfit)) := by
  intro run requested steps
  obtain ⟨hbegun, hthree, hreturned⟩ := subscription_of_source hnew hphase hn hb hleft
  obtain ⟨htaken, hallows⟩ := ThinClient.course service base n
  have hdistinct : (steps.map Step.url).Nodup := ThinClient.steps_distinct service base n
  have hrequested : requested <+: (Step.taken steps).map Step.url := by
    rw [← htaken]
    obtain ⟨rest, hrest⟩ := hbegun
    rw [← hrest, List.flatMap_append]
    exact List.prefix_append _ _
  have hsteps : requested <+: steps.map Step.url :=
    hrequested.trans ((Step.taken_prefix steps).map Step.url)
  refine ⟨hsteps, hdistinct.sublist hsteps.sublist, hthree, fun hnone ↦ ?_⟩
  obtain ⟨hquestions, houtcome⟩ := hreturned hnone
  constructor
  · intro earlier step later hsplit
    have hall : requested = (Step.taken steps).map Step.url := by
      rw [← htaken, ← hquestions]
    rw [hall]
    exact Step.mem_taken_iff hdistinct hsplit
  · have hkind : ∀ worth : Worth, worth.Allows _ ↔ Step.worthOf steps = worth :=
      fun _ ↦ hallows.iff
    exact ⟨_, houtcome, (hkind .good).trans Step.worthOf_eq_good_iff,
      (hkind .gone).trans (Step.worthOf_eq_iff Worth.noConfusion),
      (hkind .unfit).trans (Step.worthOf_eq_iff Worth.noConfusion)⟩

/-- A service that has a store, and cannot answer for its key schemas. -/
def Http.Service.keyless : Http.Service := fun url ↦
  match url.path.getLast? with
  | some "store_cluster_config" =>
    .replied 200 (.whole "\x7b\"cluster\":\"east\"\x7d".toUTF8.toList)
  | some "store_properties" =>
    .replied 200 (.whole "\x7b\"name\":\"orders\"\x7d".toUTF8.toList)
  | some "store_key_schemas" => .replied 500 (.whole [])
  | _ => .replied 404 (.whole [])

/-- Three requests are made, and the value schemas, which are gone, are not asked for: the call is
refused because a fetch has failed. -/
theorem requests_to_keyless :
    let base : Url := ⟨false, .domain "metadata", none, [""], none, none⟩
    let source := Client.source ⟨.thinClient, base⟩ .keyless
    let run := Event.call 1 (.subscribe "orders") :: List.replicate 3 (.answer 1 source)
    let w := (World.new false 0).run .silent [.call 0 .start]
    let requested := (w.inquiries .silent 1 run).flatMap (Client.urls ⟨.thinClient, base⟩ .keyless)
    ThinClient.url base "orders" .keySchemas ∈ requested ∧
      ThinClient.url base "orders" .valueSchemas ∉ requested ∧
      ∃ err, (w.run .silent run).outcomes.lookup 1 = some (.error err) ∧ err.isPassing = true := by
  intro base source run w requested
  have hanswers : ∀ e ∈ List.replicate 3 (Event.answer 1 source), e = .answer 1 source :=
    fun _ he ↦ List.eq_of_mem_replicate he
  have hleft : LeftTo source .silent (w.step .silent (.call 1 (.subscribe "orders"))) 1 "orders"
      (List.replicate 3 (.answer 1 source)) :=
    ⟨fun s hs ↦ (Event.answer.inj (hanswers _ hs)).2, fun hmem ↦ (nomatch hanswers _ hmem),
      fun i order hmem ↦ (nomatch hanswers _ hmem),
      untouched_of_answers fun e he ↦ ⟨source, hanswers e he⟩⟩
  obtain ⟨-, -, hthree, hreturned⟩ := subscription_over_http .silent w 1 "orders" base .keyless
    (List.replicate 3 (.answer 1 source)) (by decide) (by decide) (by decide) (passive_silent _)
    hleft
  obtain ⟨htaken, o, ho, -, -, hunfit⟩ := hreturned (hthree (by decide))
  have hworths : (ThinClient.steps .keyless base "orders").map Step.worth =
      [.good, .good, .unfit, .gone] := by
    decide +kernel
  simp only [ThinClient.steps, ThinClient.schemaSteps, List.map_cons, List.map_nil, List.cons.injEq,
    and_true] at hworths
  obtain ⟨hplacement, hrecord, hkeys, -⟩ := hworths
  have hfirst : ∃ s, Step.firstBad? (ThinClient.steps .keyless base "orders") = some s ∧
      s.worth = .unfit := by
    simp [ThinClient.steps, ThinClient.schemaSteps, Step.firstBad?, hplacement, hrecord, hkeys]
  obtain ⟨err, rfl, herr⟩ := hunfit.2 hfirst
  refine ⟨(htaken [_, _] _ [_] rfl).2 (by simp [hplacement, hrecord]), fun hmem ↦ ?_, err, ho, herr⟩
  have hgood := (htaken [_, _, _] _ [] rfl).1 hmem
  simp [hkeys] at hgood

end StoreCache
