import StoreCache.Http.Client
import StoreCache.Proofs.Lockstep
import StoreCache.Proofs.Reading

/-!
# Two ways to ask

The thin client takes four documents to learn about a store, the router takes two, and the second of
these holds what the thin client reads from the last three. **It makes no difference which way is
taken**, as long as both services have the same to say (`SameStory`): the same documents about a
store, whatever the record in them is, or none at all, or nothing but refusals.

What the services say is compared document by document. A document with given members
(`Tree.IsObject`) may list them in any order and write their keys in any way. A record that cannot
be read spoils one document of the thin client and the only one of the router, but both refuse the
record then, and a refresh does not come to ask for the schemas.
-/

namespace StoreCache

/-! ### Maps of schemas -/

namespace Json

/-- An object whose keys are signed 32-bit integers and whose values are texts. -/
def Tree.IsSchemaMap (t : Tree) : Prop :=
  ∃ members, t = .object members ∧
    ∀ m ∈ members, (Tree.int32Key? m.1).isSome = true ∧ m.2.string?.isSome = true

theorem Tree.IsSchemaMap.read {t : Tree} (h : t.IsSchemaMap) :
    ∃ d, t.int32StringMap? = some d := by
  obtain ⟨members, rfl, hmembers⟩ := h
  have hall : ∃ entries, members.mapM (fun m : Quoted × Tree ↦ do
      let key ← Tree.int32Key? m.1
      let s ← m.2.string?
      return (key, s)) = some entries := by
    induction members with
    | nil => exact ⟨[], rfl⟩
    | cons m members ih =>
      obtain ⟨entries, hentries⟩ := ih fun m' hm' ↦ hmembers m' (List.mem_cons_of_mem m hm')
      obtain ⟨hkey, hs⟩ := hmembers m List.mem_cons_self
      obtain ⟨key, hkey⟩ := Option.isSome_iff_exists.1 hkey
      obtain ⟨s, hs⟩ := Option.isSome_iff_exists.1 hs
      refine ⟨(key, s) :: entries, ?_⟩
      rw [List.mapM_cons, hentries]
      simp only [hkey, hs, Option.bind_eq_bind, Option.bind_some, Option.pure_def]
  obtain ⟨entries, hentries⟩ := hall
  exact ⟨Dict.ofList entries, by rw [int32StringMap?, hentries]; rfl⟩

end Json

namespace Http

open Json (Tree Fields)

/-! ### Documents about a store -/

/-- What there is to be read about a store. -/
structure Documents where
  cluster : String
  /-- The record; it may be any document. -/
  record : Tree
  keySchemas : Tree
  valueSchemas : Tree

/-- The service answers the request for the URL with the document. -/
def Service.Shows (service : Service) (url : Url) (t : Tree) : Prop :=
  ∃ status body, service url = .replied status body ∧ isSuccess status = true ∧
    body.document? = some t

/-- The document has one member, which names the cluster. -/
def IsDiscovery (cluster : String) (t : Tree) : Prop :=
  ∃ told, told.string? = some cluster ∧ t.IsObject [("cluster", told)]

/-- A service of the thin client has these documents about the store. -/
structure ThinClient.Documented (service : Service) (base : Url) (n : String) (d : Documents) :
    Prop where
  placement : ∃ t, service.Shows (url base n .placement) t ∧ IsDiscovery d.cluster t
  record : service.Shows (recordUrl base n d.cluster) d.record
  keySchemas : ∃ t, service.Shows (url base n .keySchemas) t ∧
    t.IsObject [("key_schema_map", d.keySchemas)]
  valueSchemas : ∃ t, service.Shows (url base n .valueSchemas) t ∧
    t.IsObject [("value_schema_map", d.valueSchemas)]

/-- A service of the router has these documents about the store. -/
structure Router.Documented (service : Service) (base : Url) (n : String) (d : Documents) :
    Prop where
  placement : ∃ t, service.Shows (placementUrl base n) t ∧ IsDiscovery d.cluster t
  metadata : ∃ t told, service.Shows (metadataUrl base n) t ∧ told.string? = some d.cluster ∧
    t.IsObject [("cluster", told), ("store", d.record), ("key_schema", d.keySchemas),
      ("value_schemas", d.valueSchemas)]

/-- A reply that shows a document is read as the document is. -/
theorem Service.Shows.read {α : Type} {service : Service} {url : Url} {t : Tree}
    (h : service.Shows url t) (missing : FetchError) (read? : Tree → Option α) :
    (service url).read url missing read? =
      match read? t with
      | some x => .ok x
      | none => .error illegible := by
  obtain ⟨status, body, hreply, hsuccess, hdocument⟩ := h
  have hfound : status ≠ 404 := by
    rintro rfl
    cases hsuccess
  rcases hread : read? t with - | a <;>
    simp only [hreply, Exchange.read, hfound, if_false, hsuccess, if_true, hdocument,
      Option.bind_some, hread]

/-- A reply of 404 is read as that there is no document, … -/
theorem Exchange.read_of_missing {α : Type} {x : Exchange} {body : Body}
    (hx : x = .replied 404 body) (url : Url) (missing : FetchError) (read? : Tree → Option α) :
    x.read url missing read? = .error missing := by
  rw [hx, Exchange.read, if_pos rfl]

/-- … and one of any other failure as a refusal. -/
theorem Exchange.read_of_refused {α : Type} {x : Exchange} {status : Nat} {body : Body}
    (hx : x = .replied status body) (hfound : status ≠ 404) (hrefused : isSuccess status = false)
    (url : Url) (missing : FetchError) (read? : Tree → Option α) :
    x.read url missing read? = .error (refusal status body) := by
  rw [hx, Exchange.read, if_neg hfound, hrefused, if_neg Bool.false_ne_true]

/-! ### What is read of the documents -/

section Reading

variable {t : Tree} {cluster n : String}

theorem placementOf?_of_isDiscovery (h : IsDiscovery cluster t) :
    ThinClient.placementOf? n t = some (.new n cluster) := by
  obtain ⟨told, htold, hobject⟩ := h
  obtain ⟨fields, hfields, hlookup⟩ := Fields.ofTree?_of_isObject
    ["cluster", "deleting", "migration_src_cluster", "migration_dest_cluster"] hobject
    (List.nodup_singleton _) (by simp)
  have hcluster : fields.lookup "cluster" = some told := hlookup _
  have hdeleting : fields.lookup "deleting" = none := hlookup _
  have hfrom : fields.lookup "migration_src_cluster" = none := hlookup _
  have hto : fields.lookup "migration_dest_cluster" = none := hlookup _
  simp only [ThinClient.placementOf?, hfields, Fields.required?, Fields.optional?, hcluster,
    hdeleting, hfrom, hto, htold, Option.bind_eq_bind, Option.bind_some, Option.pure_def,
    Placement.new]

theorem nullable?_string? {told : Tree} (h : told.string? = some cluster) :
    Tree.nullable? Tree.string? told = some (some cluster) := by
  cases told with
  | text q => exact congrArg (Option.map some) h
  | _ => cases h

theorem discovery_of_isDiscovery (h : IsDiscovery cluster t) :
    Router.Discovery.ofTree? t = some ⟨some cluster, none⟩ := by
  obtain ⟨told, htold, hobject⟩ := h
  obtain ⟨fields, hfields, hlookup⟩ := Fields.ofTree?_of_isObject ["cluster", "error"] hobject
    (List.nodup_singleton _) (by simp)
  have hcluster : fields.lookup "cluster" = some told := hlookup _
  have herror : fields.lookup "error" = none := hlookup _
  simp only [Router.Discovery.ofTree?, hfields, Fields.optional?, hcluster, herror,
    nullable?_string? htold, Option.bind_eq_bind, Option.bind_some, Option.pure_def]

theorem schemasOf?_of_isObject {field : String} {schemas : Tree}
    (h : t.IsObject [(field, schemas)]) :
    ThinClient.schemasOf? field t = schemas.int32StringMap? := by
  obtain ⟨fields, hfields, hlookup⟩ := Fields.ofTree?_of_isObject [field] h
    (List.nodup_singleton _) (by simp)
  have hschemas : fields.lookup field = some schemas := (hlookup _).trans List.lookup_cons_self
  simp only [ThinClient.schemasOf?, hfields, Fields.required?, hschemas, Option.bind_eq_bind,
    Option.bind_some]

/-- The metadata of a store can be read if the record can. -/
theorem metadata_of_isObject {told record keySchemas valueSchemas : Tree}
    {keys values : Dict Int32 String} (htold : told.string? = some cluster)
    (hkeys : keySchemas.int32StringMap? = some keys)
    (hvalues : valueSchemas.int32StringMap? = some values)
    (h : t.IsObject [("cluster", told), ("store", record), ("key_schema", keySchemas),
      ("value_schemas", valueSchemas)]) :
    Router.Metadata.ofTree? t = (Store.ofTree? record).map (⟨cluster, ·, keys, values⟩) := by
  obtain ⟨fields, hfields, hlookup⟩ := Fields.ofTree?_of_isObject
    ["cluster", "store", "key_schema", "value_schemas"] h (by simp) (by simp)
  have hcluster : fields.lookup "cluster" = some told := hlookup _
  have hstore : fields.lookup "store" = some record := hlookup _
  have hkey : fields.lookup "key_schema" = some keySchemas := hlookup _
  have hvalue : fields.lookup "value_schemas" = some valueSchemas := hlookup _
  simp only [Router.Metadata.ofTree?, hfields, Fields.required?, Fields.optional?, hcluster, hstore,
    hkey, hvalue, htold, hkeys, hvalues, Option.bind_eq_bind, Option.bind_some, Option.pure_def]
  cases Store.ofTree? record <;> rfl

end Reading

/-! ### Services that say the same -/

/-- Two services, one for each way to ask, that have the same to say about a store: the same
documents, or that there are none, or nothing. -/
inductive SameStory (thinBase routerBase : Url) (thin router : Service) (n : String) : Prop
  | documented (d : Documents) (hkeys : d.keySchemas.IsSchemaMap)
    (hvalues : d.valueSchemas.IsSchemaMap) (hthin : ThinClient.Documented thin thinBase n d)
    (hrouter : Router.Documented router routerBase n d)
  | missing {body body' : Body}
    (hthin : thin (ThinClient.url thinBase n .placement) = .replied 404 body)
    (hrouter : router (Router.placementUrl routerBase n) = .replied 404 body')
  | refused {status status' : Nat} {body body' : Body} (hfound : status ≠ 404)
    (hfound' : status' ≠ 404) (hrefused : isSuccess status = false)
    (hrefused' : isSuccess status' = false)
    (hthin : thin (ThinClient.url thinBase n .placement) = .replied status body)
    (hrouter : router (Router.placementUrl routerBase n) = .replied status' body')

/-- Documents that are the same are read to the same placement, record and schemas. -/
theorem concur_of_documented {thinBase routerBase : Url} {thin router : Service} {n : String}
    {d : Documents} (hkeys : d.keySchemas.IsSchemaMap) (hvalues : d.valueSchemas.IsSchemaMap)
    (hthin : ThinClient.Documented thin thinBase n d)
    (hrouter : Router.Documented router routerBase n d) :
    (Client.source ⟨.thinClient, thinBase⟩ thin).Concur
      (Client.source ⟨.router, routerBase⟩ router) n := by
  obtain ⟨keys, hkeys⟩ := hkeys.read
  obtain ⟨values, hvalues⟩ := hvalues.read
  obtain ⟨discovery, hplacement, hdiscovery⟩ := hthin.placement
  obtain ⟨discovery', hplacement', hdiscovery'⟩ := hrouter.placement
  obtain ⟨keyDocument, hkeyDocument, hkeyObject⟩ := hthin.keySchemas
  obtain ⟨valueDocument, hvalueDocument, hvalueObject⟩ := hthin.valueSchemas
  obtain ⟨metadata, told, hmetadata, htold, hobject⟩ := hrouter.metadata
  have hread := metadata_of_isObject htold hkeys hvalues hobject
  refine .placed (p := .new n d.cluster) ?_ ?_ ?_ fun s hs ↦ ?_
  · simp only [Client.source, Client.placement, ThinClient.placement, Inquiry.mapResult,
      Inquiry.get, hplacement.read, placementOf?_of_isDiscovery hdiscovery]
  · simp only [Client.source, Client.placement, Router.placement, Inquiry.mapResult,
      Inquiry.get, hplacement'.read, discovery_of_isDiscovery hdiscovery']
    rfl
  · show (Router.record router routerBase n).result =
      (ThinClient.record thin thinBase n d.cluster).result
    simp only [Router.record, Router.metadata, ThinClient.record, Inquiry.mapResult, Inquiry.get,
      hmetadata.read, hthin.record.read, hread]
    cases Store.ofTree? d.record <;> rfl
  · -- The schemas are asked for only if there is a record, and then the router has them.
    replace hs : (ThinClient.record thin thinBase n d.cluster).result = .ok s := hs
    simp only [ThinClient.record, Inquiry.get, hthin.record.read] at hs
    rcases hrecord : Store.ofTree? d.record with - | s'
    · rw [hrecord] at hs
      cases hs
    · simp only [Client.source, Client.schemas, Router.schemas, Router.metadata,
        ThinClient.schemas, Inquiry.mapResult, Inquiry.get, Inquiry.andThen, hmetadata.read, hread,
        hrecord, Option.map_some, hkeyDocument.read, hvalueDocument.read,
        schemasOf?_of_isObject hkeyObject, schemasOf?_of_isObject hvalueObject, hkeys, hvalues]
      rfl

/-- **To a refresh they are the same service.** -/
theorem SameStory.concur {thinBase routerBase : Url} {thin router : Service} {n : String}
    (h : SameStory thinBase routerBase thin router n) :
    (Client.source ⟨.thinClient, thinBase⟩ thin).Concur
      (Client.source ⟨.router, routerBase⟩ router) n := by
  cases h with
  | documented d hkeys hvalues hthin hrouter =>
    exact concur_of_documented hkeys hvalues hthin hrouter
  | missing hthin hrouter =>
    have hgone : (Client.source ⟨.thinClient, thinBase⟩ thin).refusal? n .placement =
        some (.noSuchStore n none) := by
      simp only [Source.refusal?, Client.source, Client.placement, ThinClient.placement,
        Inquiry.mapResult, Inquiry.get, Exchange.read_of_missing hthin]
      rfl
    have hgone' : (Client.source ⟨.router, routerBase⟩ router).refusal? n .placement =
        some (.noSuchStore n (some (.undiscovered n))) := by
      simp only [Source.refusal?, Client.source, Client.placement, Router.placement,
        Inquiry.mapResult, Inquiry.get, Exchange.read_of_missing hrouter]
      rfl
    exact .refused hgone hgone' rfl
  | @refused status status' body body' hfound hfound' hrefused hrefused' hthin hrouter =>
    have hfailed : (Client.source ⟨.thinClient, thinBase⟩ thin).refusal? n .placement =
        some (.fetchFailed n (refusal status body)) := by
      simp only [Source.refusal?, Client.source, Client.placement, ThinClient.placement,
        Inquiry.mapResult, Inquiry.get, Exchange.read_of_refused hthin hfound hrefused]
      rfl
    have hfailed' : (Client.source ⟨.router, routerBase⟩ router).refusal? n .placement =
        some (.fetchFailed n (refusal status' body')) := by
      simp only [Source.refusal?, Client.source, Client.placement, Router.placement,
        Inquiry.mapResult, Inquiry.get, Exchange.read_of_refused hrouter hfound' hrefused']
      rfl
    exact .refused hfailed hfailed' rfl

end Http

open Http

/-- **The two ways to ask are interchangeable.** Let a call subscribe a store, refresh one or sweep
all, or let the periodic task sweep, from one and the same world, and let services of the two kinds
have the same to say about each store concerned. Whatever else happens meanwhile, the same cache
comes of both ways to ask, with its dictionaries, its total, its freshness and its journal of
events; the same calls wait; and every call that has returned has done so with outcomes of one kind,
which differ in the wording of the actor's own refusal at most. An actor that is answered as often
as it has questions to ask is through in both. -/
theorem interchange_of_strategies (b : Behaviour) (w : World) {e : Event} {a : Actor}
    {concerns : String → Prop} (h : w.SetsOut e a concerns) (thinBase routerBase : Url)
    (thin router : Http.Service)
    (hsame : ∀ n, concerns n → SameStory thinBase routerBase thin router n)
    (pace : List (Option Event)) (hpace : ∀ e, some e ∈ pace → e.actor? ≠ some a) :
    let u := w.run b (e :: a.played (Client.source ⟨.thinClient, thinBase⟩ thin) pace)
    let v := w.run b (e :: a.played (Client.source ⟨.router, routerBase⟩ router) pace)
    v.cache = u.cache ∧ v.tasks = u.tasks ∧ v.background = u.background ∧
    (∀ i, Option.Rel Outcome.Like (u.outcomes.lookup i) (v.outcomes.lookup i)) ∧
    (∀ i, a ≠ .call i → v.outcomes.lookup i = u.outcomes.lookup i) ∧
    ((w.step b e).owed a ≤ pace.countP Option.isNone → ¬ u.Asks a ∧ ¬ v.Asks a) := by
  intro u v
  obtain ⟨halike, hthrough⟩ :=
    lockstep_of_concur b h (fun n hn ↦ (hsame n hn).concur) hpace
  exact ⟨halike.cache_eq, halike.tasks_eq, halike.background_eq, halike.like, halike.others,
    hthrough⟩

/-! ### A service that can be asked in both ways -/

namespace Http

open Json (Tree)

/-- A reply with a text. -/
def Exchange.ofText (s : String) : Exchange := .replied 200 (.whole s.toUTF8.data.toList)

/-- Such a reply shows the document that its lexemes make up. -/
theorem Service.shows_of_tokens {service : Service} {url : Url} {s : String}
    (ts : List Json.Token) {t : Tree} (hreply : service url = .ofText s)
    (hts : Json.tokens? s.toList = some ts) (ht : Tree.build? .value [] ts = some t) :
    service.Shows url t := by
  have htext : Utf8.text? s.toUTF8.data.toList = some s := by
    simp only [Utf8.text?, Array.toArray_toList, String.fromUTF8?]
    exact dif_pos s.isValidUTF8
  refine ⟨200, .whole s.toUTF8.data.toList, hreply, rfl, ?_⟩
  rw [Body.document?, htext, Option.getD_some]
  exact Tree.parse?_of_tokens ts hts ht

/-- A service that has one store, and can be asked about it in both ways. -/
def Service.bilingual : Service := fun url ↦
  match url.path with
  | ["meta_store", "orders", "store_cluster_config"] | ["discover_cluster", "orders"] =>
    .ofText "\x7b\"cluster\":\"east\"\x7d"
  | ["meta_store", "orders", "store_properties"] => .ofText "\x7b\"name\":\"orders\"\x7d"
  | ["meta_store", "orders", "store_key_schemas"] =>
    .ofText "\x7b\"key_schema_map\":\x7b\x7d\x7d"
  | ["meta_store", "orders", "store_value_schemas"] =>
    .ofText "\x7b\"value_schema_map\":\x7b\"-2\":\"long\"\x7d\x7d"
  | ["request_based_metadata", "orders"] =>
    .ofText ("\x7b\"cluster\":\"east\",\"store\":\x7b\"name\":\"orders\"\x7d," ++
      "\"key_schema\":\x7b\x7d,\"value_schemas\":\x7b\"-2\":\"long\"\x7d\x7d")
  | _ => .replied 404 (.whole [])

/-- The documents that it has. -/
def Documents.ofOrders : Documents where
  cluster := "east"
  record := .ofMembers [("name", .ofString "orders")]
  keySchemas := .ofMembers []
  valueSchemas := .ofMembers [("-2", .ofString "long")]

section Bilingual

open Json.Token

/-- The lexeme of a text. -/
def quoted (s : String) : Json.Token := .text (Json.Quoted.ofString s)

theorem isDiscovery_east : IsDiscovery "east" (Tree.ofMembers [("cluster", .ofString "east")]) :=
  ⟨_, Tree.string?_ofString "east", Tree.isObject_ofMembers _⟩

theorem documented_thinClient :
    ThinClient.Documented .bilingual ⟨false, .domain "metadata", none, [""], none, none⟩ "orders"
      .ofOrders where
  placement := ⟨_, Service.shows_of_tokens [openBrace, quoted "cluster", colon, quoted "east",
    closeBrace] rfl (by decide +kernel) rfl, isDiscovery_east⟩
  record := Service.shows_of_tokens [openBrace, quoted "name", colon, quoted "orders", closeBrace]
    rfl (by decide +kernel) rfl
  keySchemas := ⟨.ofMembers [("key_schema_map", Documents.ofOrders.keySchemas)],
    Service.shows_of_tokens [openBrace, quoted "key_schema_map", colon, openBrace, closeBrace,
      closeBrace] rfl (by decide +kernel) rfl, Tree.isObject_ofMembers _⟩
  valueSchemas := ⟨.ofMembers [("value_schema_map", Documents.ofOrders.valueSchemas)],
    Service.shows_of_tokens [openBrace, quoted "value_schema_map", colon, openBrace, quoted "-2",
      colon, quoted "long", closeBrace, closeBrace] rfl (by decide +kernel) rfl,
    Tree.isObject_ofMembers _⟩

theorem documented_router :
    Router.Documented .bilingual ⟨false, .domain "metadata", none, [""], none, none⟩ "orders"
      .ofOrders where
  placement := ⟨_, Service.shows_of_tokens [openBrace, quoted "cluster", colon, quoted "east",
    closeBrace] rfl (by decide +kernel) rfl, isDiscovery_east⟩
  metadata := ⟨.ofMembers [("cluster", .ofString "east"), ("store", Documents.ofOrders.record),
      ("key_schema", Documents.ofOrders.keySchemas),
      ("value_schemas", Documents.ofOrders.valueSchemas)], _,
    Service.shows_of_tokens [openBrace, quoted "cluster", colon, quoted "east", comma,
      quoted "store", colon, openBrace, quoted "name", colon, quoted "orders", closeBrace, comma,
      quoted "key_schema", colon, openBrace, closeBrace, comma, quoted "value_schemas", colon,
      openBrace, quoted "-2", colon, quoted "long", closeBrace, closeBrace]
      rfl (by decide +kernel) rfl, Tree.string?_ofString "east", Tree.isObject_ofMembers _⟩

theorem sameStory_bilingual :
    SameStory ⟨false, .domain "metadata", none, [""], none, none⟩
      ⟨false, .domain "metadata", none, [""], none, none⟩ .bilingual .bilingual "orders" := by
  refine .documented .ofOrders ⟨_, rfl, ?_⟩ ⟨_, rfl, ?_⟩ documented_thinClient documented_router
  · decide
  · decide +kernel

end Bilingual

end Http

/-- The store is subscribed in both ways while the clock goes on, and there is nothing by which the
two caches differ. -/
theorem interchange_of_bilingual :
    let base : Url := ⟨false, .domain "metadata", none, [""], none, none⟩
    let w := (World.new true 0).run .silent [.call 0 .start]
    let pace := [none, some (.clock 3), none, none]
    let e := Event.call 1 (.subscribe "orders")
    let a := Actor.call 1
    let u := w.run .silent (e :: a.played (Client.source ⟨.thinClient, base⟩ .bilingual) pace)
    let v := w.run .silent (e :: a.played (Client.source ⟨.router, base⟩ .bilingual) pace)
    v.cache = u.cache ∧ Option.Rel Outcome.Like (u.outcomes.lookup 1) (v.outcomes.lookup 1) ∧
      ¬ u.Asks a ∧ ¬ v.Asks a := by
  intro base w pace e a
  have hpace : ∀ e, some e ∈ pace → e.actor? ≠ some a := by
    intro e he
    obtain rfl : e = .clock 3 := by simpa [pace] using he
    nofun
  obtain ⟨hcache, -, -, hlike, -, hthrough⟩ := interchange_of_strategies .silent w (e := e) (a := a)
    (.subscribe "orders" (by decide)) base base .bilingual .bilingual
    (fun n hn ↦ hn ▸ sameStory_bilingual) pace hpace
  exact ⟨hcache, hlike 1, hthrough (by decide)⟩

end StoreCache
