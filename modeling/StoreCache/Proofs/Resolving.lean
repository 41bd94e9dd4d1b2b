import StoreCache.Proofs.Success

/-!
# Where names resolve

A name resolves to a cluster in two steps: it is mapped to the name of its regular store, and the
placement kept under that is looked up. So a subscribed store resolves to its own placement **unless
its name is that of a system store**, and then to the placement of the store behind the stem, if
that is subscribed (`cluster_of_run`).

The two stems differ where their kinds are told apart, and so what begins with one of them can be
read in one way only (`SystemStore.behind?_eq_some_iff`, `SystemStore.eq_of_nameFor_eq`). Only one
stem is taken off. A stem with nothing behind it is no system store's name and resolves to itself.

Which placement was installed together with a record is in the journal: it is that of the last
install of the store, if the store has not been taken out since (`LastInstalled`).
-/

namespace StoreCache

/-! ### Names of system stores -/

namespace SystemStore

variable {k k' : SystemStore} {n m m' : String}

/-- What stands behind a stem is what the name was made of. -/
theorem behind?_eq_some_iff : k.behind? n = some m ↔ n = k.nameFor m := by
  unfold behind? nameFor
  constructor
  · intro h
    split at h
    · rename_i hbegins
      obtain ⟨rest, hrest⟩ := List.isPrefixOf_iff_prefix.1 hbegins
      cases h
      rw [← String.toList_inj, String.toList_append, String.toList_ofList, ← hrest,
        List.drop_left]
    · cases h
  · rintro rfl
    simp

/-- The letter by which the kinds are told apart. -/
theorem getElem?_nameFor (k : SystemStore) (m : String) :
    (k.nameFor m).toList[23]? = some (match k with | .metadata => 'm' | .pushStatus => 'p') := by
  rw [nameFor, String.toList_append]
  cases k with
  | metadata => exact (List.getElem?_append_left (by decide)).trans (by decide)
  | pushStatus => exact (List.getElem?_append_left (by decide)).trans (by decide)

/-- A name is that of a system store of one kind at most. -/
theorem eq_of_nameFor_eq (h : k.nameFor m = k'.nameFor m') : k = k' := by
  have hletter := (getElem?_nameFor k m).symm.trans (h ▸ getElem?_nameFor k' m')
  cases k <;> cases k' <;> first | rfl | exact absurd hletter (by decide)

theorem ofName?_eq_some_iff : ofName? n = some k ↔ ∃ m, m ≠ "" ∧ n = k.nameFor m := by
  have hbehind : ∀ k : SystemStore, (k.behind? n).any (· ≠ "") = true ↔
      ∃ m, m ≠ "" ∧ n = k.nameFor m := by
    intro k
    simp only [Option.any_eq_true, decide_eq_true_eq, behind?_eq_some_iff, and_comm]
  constructor
  · intro h
    have hfound : all.find? (fun k ↦ (k.behind? n).any (· ≠ "")) = some k := h
    have hlast := List.find?_some hfound
    exact (hbehind k).1 hlast
  · intro h
    have hfound := (hbehind k).2 h
    obtain ⟨m, -, rfl⟩ := h
    cases k with
    | metadata => exact List.find?_cons_of_pos hfound
    | pushStatus =>
      refine (List.find?_cons_of_neg fun hother ↦ ?_).trans (List.find?_cons_of_pos hfound)
      obtain ⟨m', -, heq⟩ := (hbehind .metadata).1 hother
      cases eq_of_nameFor_eq heq

end SystemStore

/-- The name of a system store leads to the store behind the stem. -/
theorem regularName_nameFor {k : SystemStore} {m : String} (hm : m ≠ "") :
    regularName (k.nameFor m) = m := by
  have hkind : SystemStore.ofName? (k.nameFor m) = some k :=
    SystemStore.ofName?_eq_some_iff.2 ⟨m, hm, rfl⟩
  have hbehind : k.behind? (k.nameFor m) = some m := SystemStore.behind?_eq_some_iff.2 rfl
  rw [regularName, hkind]
  simp only [SystemStore.regularNameOf, hbehind, Option.getD_some]

/-- Any other name leads to itself. -/
theorem regularName_of_regular {n : String}
    (hn : ∀ (k : SystemStore) m, m ≠ "" → n ≠ k.nameFor m) : regularName n = n := by
  have hkind : SystemStore.ofName? n = none :=
    Option.eq_none_iff_forall_ne_some.2 fun k hk ↦ by
      obtain ⟨m, hm, heq⟩ := SystemStore.ofName?_eq_some_iff.1 hk
      exact hn k m hm heq
  rw [regularName, hkind]

/-! ### The last install of a store -/

/-- The entry puts a record of the store `n` in, or takes it out. -/
def Entry.Moves (n : String) : Entry → Prop
  | .installed _ s _ => s.name = n
  | .removed s => s.name = n
  | _ => False

/-- The last that a journal says of the store `n`: the record `s` has been installed together with
the placement `p`. -/
def LastInstalled (n : String) (s : Store) (p : Placement) (journal : List Entry) : Prop :=
  ∃ newer previous older, journal = newer ++ .installed previous s p :: older ∧ s.name = n ∧
    ∀ e ∈ newer, ¬ e.Moves n

theorem LastInstalled.append {n : String} {s : Store} {p : Placement} {journal new : List Entry}
    (h : LastInstalled n s p journal) (hnew : ∀ e ∈ new, ¬ e.Moves n) :
    LastInstalled n s p (new ++ journal) := by
  obtain ⟨newer, previous, older, rfl, hname, hnewer⟩ := h
  refine ⟨new ++ newer, previous, older, (List.append_assoc ..).symm, hname, fun e he ↦ ?_⟩
  exact (List.mem_append.1 he).elim (hnew e) (hnewer e)

namespace Cache

variable {b : Behaviour} {c d e : Cache}

/-- Every record stands with the placement it was installed with. -/
def Deposited (c : Cache) : Prop :=
  ∀ n s, c.stores.get? n = some s →
    ∃ p, c.placements.get? n = some p ∧ LastInstalled n s p c.journal

/-- A store that is there in `d` is there as in `c`, and nothing written since moves it. -/
def Undisturbed (c d : Cache) : Prop :=
  ∀ n, d.stores.get? n ≠ none → d.stores.get? n = c.stores.get? n ∧
    d.placements.get? n = c.placements.get? n ∧
    ∃ new, d.journal = new ++ c.journal ∧ ∀ e ∈ new, ¬ e.Moves n

theorem Deposited.of_undisturbed (hc : c.Deposited) (h : Undisturbed c d) : d.Deposited := by
  intro n s hs
  obtain ⟨hstore, hplacement, new, hjournal, hnew⟩ := h n (hs ▸ Option.some_ne_none s)
  obtain ⟨p, hp, hlast⟩ := hc n s (hstore ▸ hs)
  exact ⟨p, hplacement.trans hp, hjournal ▸ hlast.append hnew⟩

theorem Undisturbed.of_cons {entry : Entry} (hstores : d.stores = c.stores)
    (hplacements : d.placements = c.placements) (hjournal : d.journal = entry :: c.journal)
    (hentry : ∀ n, ¬ entry.Moves n) : Undisturbed c d :=
  fun n _ ↦ ⟨by rw [hstores], by rw [hplacements], [entry], hjournal, by simpa using hentry n⟩

/-- What happens in a cascade is chronicled, clears shelves and installs nothing, so it takes out
every store that it writes of. -/
theorem Undisturbed.of_cascade (hnamed : c.Named) (hthin : Thinned c d) (hchron : Chronicled c d)
    (hwrote : Wrote (fun entry ↦ ∀ previous s p, entry ≠ .installed previous s p) c d) :
    Undisturbed c d := by
  intro n hin
  rcases hthin n with hshelf | hbare
  · obtain ⟨new, hjournal, hchron⟩ := hchron
    obtain ⟨-, hstores, -⟩ := hchron hnamed
    obtain ⟨new', hjournal', hwrites⟩ := hwrote
    obtain rfl : new' = new := List.append_cancel_right (hjournal'.symm.trans hjournal)
    refine ⟨congrArg Shelf.store hshelf, congrArg Shelf.placement hshelf, new', hjournal,
      fun entry hentry hmoves ↦ ?_⟩
    cases entry with
    | installed previous s p => exact hwrites _ hentry previous s p rfl
    | removed s =>
      obtain ⟨newer, older, rfl⟩ := List.append_of_mem hentry
      refine hin (hstores ▸ replayed_removed hmoves fun previous s p hmem ↦ ?_)
      exact absurd rfl (hwrites _ (List.mem_append_left _ hmem) previous s p)
    | _ => exact hmoves
  · exact absurd (congrArg Shelf.store hbare) hin

theorem installs_nothing_of_cascade {entry : Entry} (h : entry.OfCascade) (previous : Option Store)
    (s : Store) (p : Placement) : entry ≠ .installed previous s p := by
  rintro rfl
  exact h

theorem undisturbed_remove (hnamed : c.Named) (name : String) :
    Undisturbed c (c.remove b name) :=
  .of_cascade hnamed (cascading_thinned.remove name c) (cascading_chronicled.remove name c)
    ((cascading_wrote fun _ ↦ installs_nothing_of_cascade).remove name c)

theorem undisturbed_notify (hnamed : c.Named) (event : StoreEvent) (s : Store) :
    Undisturbed c (c.notify b event s).2 :=
  .of_cascade hnamed (thinned_notify event s c)
    (cascading_chronicled.notify (fun c l ↦ chronicled_called c l event s) c)
    ((cascading_wrote fun _ ↦ installs_nothing_of_cascade).notify
      (fun _ _ ↦ .of_cons rfl fun _ _ _ ↦ nofun) c)

theorem Deposited.put (hc : c.Deposited) (p : Placement) (s : Store) : (c.put p s).Deposited := by
  intro n r hr
  have hput : (c.stores.insert s.name s).get? n = some r := hr
  rw [Dict.get?_insert] at hput
  show ∃ q, (c.placements.insert s.name p).get? n = some q ∧
    LastInstalled n r q (.installed (c.stores.get? s.name) s p :: c.journal)
  rw [Dict.get?_insert]
  split at hput
  · rename_i hn
    obtain rfl := Option.some.inj hput
    exact ⟨p, if_pos hn, [], _, c.journal, rfl, hn.symm, by simp⟩
  · rename_i hn
    obtain ⟨q, hq, hlast⟩ := hc n r hput
    have hother : ∀ e ∈ [Entry.installed (c.stores.get? s.name) s p], ¬ e.Moves n := by
      simpa [Entry.Moves] using Ne.symm hn
    exact ⟨q, (if_neg hn).trans hq, hlast.append hother⟩

theorem Deposited.install (hc : c.Deposited) (hnamed : c.Named) (mode : Install) (p : Placement)
    (s : Store) : (c.install b mode p s).2.Deposited := by
  have hi := installation (b := b) mode p s c
  generalize c.install b mode p s = r at hi ⊢
  cases hi with
  | refused => exact hc
  | passedOver => exact hc
  | unchanged => exact hc.put p s.completed
  | changed =>
    generalize s.completed.quota - ((c.stores.get? s.name).map Store.quota).getD 0 = delta
    have hput : ((c.put p s.completed).addQuota delta).Deposited := hc.put p s.completed
    have hnamed' : ((c.put p s.completed).addQuota delta).Named :=
      (recorded_put p s.completed c).named hnamed
    exact hput.of_undisturbed (undisturbed_notify hnamed' .changed s.completed)

end Cache

/-- **A piece keeps records with their placements.** -/
theorem Piece.deposited {b : Behaviour} {w : World} {e : Event} {c d : Cache}
    (h : Piece b w e c d) (hnamed : c.Named) (hc : c.Deposited) : d.Deposited := by
  cases h with
  | ask => exact hc.of_undisturbed (.of_cons rfl rfl rfl fun _ h ↦ h)
  | install => exact hc.install hnamed _ _ _
  | @file _ a source name data =>
    have hf := Cache.filing name data c
    generalize c.file name data = r at hf ⊢
    cases hf with
    | refused => exact hc
    | absent => exact hc
    | filed => exact hc.of_undisturbed (.of_cons rfl rfl rfl fun _ h ↦ h)
  | refreshed =>
    rw [Cache.reportRefreshed_eq]
    exact hc.of_undisturbed (.of_cons rfl rfl rfl fun _ h ↦ h)
  | remove _ name => exact hc.of_undisturbed (Cache.undisturbed_remove hnamed name)
  | wipe => exact nofun
  | start => exact hc
  | close => exact hc
  | register _ l =>
    unfold Cache.register
    split
    · exact hc
    · exact hc.of_undisturbed (.of_cons rfl rfl rfl fun _ h ↦ h)
  | unregister _ l =>
    unfold Cache.unregister
    split
    · exact hc.of_undisturbed (.of_cons rfl rfl rfl fun _ h ↦ h)
    · exact hc
  | clock => exact hc

theorem deposited_of_run (b : Behaviour) (tracks : Bool) (clock : Nat) (events : List Event) :
    ((World.new tracks clock).run b events).cache.Deposited := by
  have hpiece : ∀ {w : World} {e c d}, Piece b w e c d → c.Named ∧ c.Deposited →
      d.Named ∧ d.Deposited := fun hpiece h ↦ by
    obtain ⟨_, -, hchron⟩ := hpiece.chronicled
    exact ⟨(hchron h.1).1, hpiece.deposited h.1 h.2⟩
  exact (World.run_rel (fun _ h ↦ h) (fun h₁ h₂ h ↦ h₂ (h₁ h)) hpiece (World.new tracks clock)
    events ⟨nofun, nofun⟩).2

/-! ### Clusters -/

theorem Cache.cluster?_of_started {c : Cache} (hphase : c.phase = .started) (n : String) :
    c.cluster? n = .ok ((c.placements.get? (regularName n)).map Placement.cluster) := by
  rw [Cache.cluster?, Phase.usable_eq_ok_iff.2 hphase]
  rfl

theorem Cache.has_eq_ok_iff {c : Cache} {n : String} {answer : Bool} :
    c.has n = .ok answer ↔ c.phase = .started ∧ c.stores.contains n = answer := by
  rw [Cache.has]
  rcases husable : c.phase.usable with err | u
  · constructor
    · intro h
      cases h
    · rintro ⟨hphase, -⟩
      rw [Phase.usable_eq_ok_iff.2 hphase] at husable
      cases husable
  · rw [← Phase.usable_eq_ok_iff, husable]
    exact ⟨fun h ↦ ⟨rfl, Except.ok.inj h⟩, fun h ↦ congrArg Except.ok h.2⟩

/-- **Where a subscribed store resolves to**, after every run:

* If its name is not that of a system store, to the cluster in the placement that was installed
  together with its record.
* If its name is that of a system store, to where the store behind the stem is: to the cluster in
  the placement that was installed together with the record of that, if that is subscribed, and to
  no cluster if it is not. -/
theorem cluster_of_run (b : Behaviour) (tracks : Bool) (clock : Nat) (events : List Event)
    (n : String) (hhas : ((World.new tracks clock).run b events).cache.has n = .ok true) :
    let c := ((World.new tracks clock).run b events).cache
    ((∀ (k : SystemStore) m, m ≠ "" → n ≠ k.nameFor m) →
      ∃ s p, c.stores.get? n = some s ∧ LastInstalled n s p c.journal ∧
        c.cluster? n = .ok (some p.cluster)) ∧
    ∀ (k : SystemStore) m, m ≠ "" → n = k.nameFor m →
      (∀ s, c.stores.get? m = some s →
        ∃ p, LastInstalled m s p c.journal ∧ c.cluster? n = .ok (some p.cluster)) ∧
      (c.stores.get? m = none → c.cluster? n = .ok none) := by
  intro c
  obtain ⟨hphase, hin⟩ := Cache.has_eq_ok_iff.1 hhas
  have hresolves := Cache.cluster?_of_started hphase n
  have hdeposited := deposited_of_run b tracks clock events
  refine ⟨fun hregular ↦ ?_, fun k m hm hn ↦ ⟨fun s hs ↦ ?_, fun hout ↦ ?_⟩⟩
  · obtain ⟨s, hs⟩ := Option.isSome_iff_exists.1 hin
    obtain ⟨p, hp, hlast⟩ := hdeposited n s hs
    rw [regularName_of_regular hregular, hp] at hresolves
    exact ⟨s, p, hs, hlast, hresolves⟩
  · obtain ⟨p, hp, hlast⟩ := hdeposited m s hs
    rw [hn, regularName_nameFor hm, hp, ← hn] at hresolves
    exact ⟨p, hlast, hresolves⟩
  · -- A store that is not subscribed has no placement.
    have hbare : c.placements.get? m = none := congrArg Shelf.placement (shelf_of_run hout)
    rw [hn, regularName_nameFor hm, hbare, ← hn] at hresolves
    exact hresolves

/-- The metadata store of `orders` is subscribed, on a cluster of its own. -/
def metadataSubscribed : List Event :=
  subscription (SystemStore.metadata.nameFor "orders")
    (.constant (.new (SystemStore.metadata.nameFor "orders") "west")
      (.new (SystemStore.metadata.nameFor "orders")))

/-- And then `orders`, on another. -/
def bothSubscribed : List Event :=
  metadataSubscribed ++ [.call 3 (.subscribe "orders"), .answer 3 .orders, .answer 3 .orders,
    .answer 3 .orders]

/-- No system store is called `orders`. -/
theorem orders_ne_nameFor (k : SystemStore) (m : String) : "orders" ≠ k.nameFor m := by
  intro h
  have hletter := SystemStore.getElem?_nameFor k m
  rw [← h] at hletter
  cases k <;> exact absurd hletter (by decide)

/-- With both subscribed, either resolves to the cluster of `orders`. -/
theorem cluster_of_bothSubscribed :
    let c := ((World.new true 0).run .silent bothSubscribed).cache
    let n := SystemStore.metadata.nameFor "orders"
    c.has "orders" = .ok true ∧ c.has n = .ok true ∧
    (∃ s p, c.stores.get? "orders" = some s ∧ LastInstalled "orders" s p c.journal ∧
      c.cluster? "orders" = .ok (some p.cluster)) ∧
    (∃ s p, c.stores.get? "orders" = some s ∧ LastInstalled "orders" s p c.journal ∧
      c.cluster? n = .ok (some p.cluster)) ∧
    c.cluster? n = .ok (some "east") := by
  intro c n
  have horders : c.has "orders" = .ok true := by decide
  have hmetadata : c.has n = .ok true := by decide
  have hcluster : c.cluster? n = .ok (some "east") := by decide
  obtain ⟨s, p, hs, hlast, hresolves⟩ :=
    (cluster_of_run .silent true 0 bothSubscribed "orders" horders).1
      fun k m _ ↦ orders_ne_nameFor k m
  obtain ⟨q, hlast', hsame⟩ :=
    ((cluster_of_run .silent true 0 bothSubscribed n hmetadata).2 .metadata "orders" (by decide)
      rfl).1 s hs
  exact ⟨horders, hmetadata, ⟨s, p, hs, hlast, hresolves⟩, ⟨s, q, hs, hlast', hsame⟩, hcluster⟩

/-- The metadata store alone is subscribed and resolves to no cluster, let alone to its own. -/
theorem not_cluster_of_metadataSubscribed :
    let c := ((World.new true 0).run .silent metadataSubscribed).cache
    let n := SystemStore.metadata.nameFor "orders"
    c.has n = .ok true ∧ ¬ ∃ s p, c.stores.get? n = some s ∧ LastInstalled n s p c.journal ∧
      c.cluster? n = .ok (some p.cluster) := by
  intro c n
  refine ⟨by decide, ?_⟩
  rintro ⟨s, p, -, -, hresolves⟩
  have hnone : c.cluster? n = .ok none := by decide
  cases hnone.symm.trans hresolves

end StoreCache
