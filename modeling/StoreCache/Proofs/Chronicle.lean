import StoreCache.Proofs.Standing

/-!
# The journal as a chronicle

An install writes down which record it replaces, a removal which record it takes out, and a callback
what it finds. Read from the oldest entry to the newest, a journal therefore tells **what the
records were at every moment** (`replayed`), those inside a notification included. That it tells the
truth is `Chronicled`: whatever a run adds to the journal turns the records before it into the
records after it, and every entry fits the records it was written at.

From there the news about a store is no longer what the entries say about themselves but what has
happened to the records (`newsOf_eq_changesOf`): a store has come, or its record is another one, or
it has left. With the accounts of what listeners are told this gives the first main result,
`toldOf_run`: **the events a listener is sent about a store are the changes of that store**, each
once, and nothing else. In which order they are sent is another matter.
-/

namespace StoreCache

/-- The records that an entry leaves behind. -/
def Entry.applied (records : Dict String Store) : Entry → Dict String Store
  | .installed _ s _ => records.insert s.name s
  | .removed s => records.erase s.name
  | _ => records

/-- An entry says nothing about the records it was written at that is not so. -/
def Entry.Fits (records : Dict String Store) : Entry → Prop
  | .installed previous s _ => records.get? s.name = previous
  | .removed s => records.get? s.name = some s
  | .called _ _ _ found => found.stores = records
  | _ => True

/-- What the entries of a journal make of the records there were. -/
def replayed (records : Dict String Store) : List Entry → Dict String Store
  | [] => records
  | e :: older => e.applied (replayed records older)

/-- Every entry fits the records it was written at. -/
def Faithful (records : Dict String Store) : List Entry → Prop
  | [] => True
  | e :: older => e.Fits (replayed records older) ∧ Faithful records older

theorem replayed_append (records : Dict String Store) (new old : List Entry) :
    replayed records (new ++ old) = replayed (replayed records old) new := by
  induction new with
  | nil => rfl
  | cons e new ih => rw [List.cons_append, replayed, ih, replayed]

theorem faithful_append (records : Dict String Store) (new old : List Entry) :
    Faithful records (new ++ old) ↔ Faithful (replayed records old) new ∧ Faithful records old := by
  induction new with
  | nil => exact (iff_of_eq (true_and _)).symm
  | cons e new ih =>
    rw [List.cons_append, Faithful, Faithful, ih, replayed_append]
    exact and_assoc.symm

/-- An entry puts a record of the store `n` in, or takes the record out, or leaves it. -/
theorem Entry.get?_applied (records : Dict String Store) (n : String) (e : Entry) :
    (∃ previous s p, e = .installed previous s p ∧ s.name = n ∧
      (e.applied records).get? n = some s) ∨
    (∃ s, e = .removed s ∧ s.name = n ∧ (e.applied records).get? n = none) ∨
    (e.applied records).get? n = records.get? n := by
  cases e with
  | installed previous s p =>
    rw [applied, Dict.get?_insert]
    split
    · rename_i hn
      exact Or.inl ⟨previous, s, p, rfl, hn.symm, rfl⟩
    · exact Or.inr (Or.inr rfl)
  | removed s =>
    rw [applied, Dict.get?_erase]
    split
    · rename_i hn
      exact Or.inr (Or.inl ⟨s, rfl, hn.symm, rfl⟩)
    · exact Or.inr (Or.inr rfl)
  | _ => exact Or.inr (Or.inr rfl)

/-- A record that is there has been there all the time, or been put in. -/
theorem installed_of_replayed {records : Dict String Store} {entries : List Entry} {n : String}
    {r : Store} (hr : (replayed records entries).get? n = some r) :
    records.get? n = some r ∨ ∃ previous p, .installed previous r p ∈ entries ∧ r.name = n := by
  induction entries with
  | nil => exact Or.inl hr
  | cons e older ih =>
    rw [replayed] at hr
    rcases e.get?_applied (replayed records older) n with ⟨previous, s, p, rfl, hname, hin⟩ |
      ⟨s, rfl, -, hout⟩ | hsame
    · obtain rfl := Option.some.inj (hin.symm.trans hr)
      exact Or.inr ⟨previous, p, List.mem_cons_self, hname⟩
    · cases hout.symm.trans hr
    · exact (ih (hsame.symm.trans hr)).imp_right fun ⟨previous, p, hmem, hname⟩ ↦
        ⟨previous, p, List.mem_cons_of_mem e hmem, hname⟩

/-- A record that is never taken out stays. -/
theorem replayed_ne_none {records : Dict String Store} {entries : List Entry} {n : String}
    (hin : records.get? n ≠ none) (hstays : ∀ r, r.name = n → .removed r ∉ entries) :
    (replayed records entries).get? n ≠ none := by
  induction entries with
  | nil => exact hin
  | cons e older ih =>
    rw [replayed]
    rcases e.get?_applied (replayed records older) n with ⟨previous, s, p, -, -, hput⟩ |
      ⟨s, rfl, hname, -⟩ | hsame
    · rw [hput]
      exact Option.some_ne_none s
    · exact absurd List.mem_cons_self (hstays s hname)
    · rw [hsame]
      exact ih fun r hname hmem ↦ hstays r hname (List.mem_cons_of_mem e hmem)

/-! ### Changes of a store -/

/-- How a store has changed, if it has: what a listener is to be sent. -/
def change? (before after : Option Store) : Option (StoreEvent × Store) :=
  if after = before then none
  else
    match after with
    | some s => some (.changed, s)
    | none => before.map fun s ↦ (.deleted, s)

/-- The changes of the store `n` by the entries of a journal, newest first. -/
def changesOf (n : String) (records : Dict String Store) :
    List Entry → List (StoreEvent × Store)
  | [] => []
  | e :: older =>
    (change? ((replayed records older).get? n) ((replayed records (e :: older)).get? n)).toList ++
      changesOf n records older

theorem change?_self (s : Option Store) : change? s s = none := if_pos rfl

theorem change?_removed (s : Store) : change? (some s) none = some (.deleted, s) := rfl

theorem change?_installed (previous : Option Store) (s : Store) :
    change? previous (some s) = if previous = some s then none else some (.changed, s) := by
  unfold change?
  split
  · rename_i hs
    rw [if_pos hs.symm]
  · rename_i hs
    rw [if_neg (Ne.symm hs)]

/-- The change of a store by one entry is the news in the entry, if it is about the store. -/
theorem newsOf_cons_of_fits {records : Dict String Store} {e : Entry} (h : e.Fits records)
    (n : String) (older : List Entry) :
    newsOf n (e :: older) =
      (change? (records.get? n) ((e.applied records).get? n)).toList ++ newsOf n older := by
  cases e with
  | installed previous s p =>
    have hprevious : records.get? s.name = previous := h
    rw [Entry.applied, Dict.get?_insert]
    by_cases hn : n = s.name
    · rw [if_pos hn, hn, hprevious, change?_installed]
      split
      · rename_i hsame
        exact newsOf_cons_of_none (by simp [Entry.news?, hsame]) _ _
      · rename_i hother
        rw [newsOf_cons_of_some (x := (.changed, s)) (by simp [Entry.news?, hother]), if_pos rfl]
        rfl
    · rw [if_neg hn, change?_self]
      by_cases hsame : previous = some s
      · exact newsOf_cons_of_none (by simp [Entry.news?, hsame]) _ _
      · rw [newsOf_cons_of_some (x := (.changed, s)) (by simp [Entry.news?, hsame]), if_neg hn]
        rfl
  | removed s =>
    have hs : records.get? s.name = some s := h
    rw [Entry.applied, Dict.get?_erase, newsOf_cons_of_some (x := (.deleted, s)) rfl]
    by_cases hn : n = s.name
    · rw [if_pos hn, if_pos hn, hn, hs, change?_removed]
      rfl
    · rw [if_neg hn, if_neg hn, change?_self]
      rfl
  | _ =>
    -- No other entry is news, and none touches the records.
    refine (newsOf_cons_of_none rfl n older).trans ?_
    exact (congrArg (·.toList ++ newsOf n older) (change?_self (records.get? n))).symm

/-- **The news about a store is how it has changed.** -/
theorem newsOf_eq_changesOf {records : Dict String Store} {entries : List Entry}
    (h : Faithful records entries) (n : String) :
    newsOf n entries = changesOf n records entries := by
  induction entries with
  | nil => rfl
  | cons e older ih => rw [newsOf_cons_of_fits h.1, ih h.2, changesOf, replayed]

namespace Cache

variable {b : Behaviour} {c d : Cache}

/-- What the journal has grown by between `c` and `d` tells how the records have changed. -/
def Chronicled (c d : Cache) : Prop :=
  ∃ new, d.journal = new ++ c.journal ∧
    (c.Named → d.Named ∧ d.stores = replayed c.stores new ∧ Faithful c.stores new)

theorem Chronicled.trans {c d e : Cache} (h₁ : Chronicled c d) (h₂ : Chronicled d e) :
    Chronicled c e := by
  obtain ⟨new₁, hd, h₁⟩ := h₁
  obtain ⟨new₂, he, h₂⟩ := h₂
  refine ⟨new₂ ++ new₁, by rw [he, hd, List.append_assoc], fun hnamed ↦ ?_⟩
  obtain ⟨hnamed₁, hstores₁, hfits₁⟩ := h₁ hnamed
  obtain ⟨hnamed₂, hstores₂, hfits₂⟩ := h₂ hnamed₁
  rw [hstores₁] at hstores₂ hfits₂
  exact ⟨hnamed₂, by rw [hstores₂, replayed_append], (faithful_append _ _ _).2 ⟨hfits₂, hfits₁⟩⟩

theorem Chronicled.of_eq (hjournal : d.journal = c.journal) (hstores : d.stores = c.stores) :
    Chronicled c d :=
  ⟨[], hjournal, fun hnamed ↦ ⟨fun n s hs ↦ hnamed n s (hstores ▸ hs), hstores, trivial⟩⟩

theorem Chronicled.of_cons {e : Entry} (hjournal : d.journal = e :: c.journal)
    (hstores : d.stores = c.stores) (happlied : e.applied c.stores = c.stores)
    (hfits : e.Fits c.stores) : Chronicled c d :=
  ⟨[e], hjournal, fun hnamed ↦
    ⟨fun n s hs ↦ hnamed n s (hstores ▸ hs), hstores.trans happlied.symm, hfits, trivial⟩⟩

theorem chronicled_takeOut {name : String} {s : Store} (hs : c.stores.get? name = some s) :
    Chronicled c (c.takeOut name s) := by
  have hnamed : c.Named → (c.takeOut name s).Named := (recorded_takeOut hs).named
  rw [takeOut_eq] at hnamed ⊢
  refine ⟨[.forgotten name, .removed s], rfl, fun h ↦ ⟨hnamed h, ?_, trivial, ?_, trivial⟩⟩
  · show c.stores.erase name = c.stores.erase s.name
    rw [h name s hs]
  · show c.stores.get? s.name = some s
    rw [h name s hs, hs]

theorem chronicled_put (p : Placement) (s : Store) (c : Cache) : Chronicled c (c.put p s) := by
  refine ⟨[.installed (c.stores.get? s.name) s p], rfl, fun h ↦ ⟨?_, rfl, rfl, trivial⟩⟩
  exact (recorded_put p s c).named h

theorem chronicled_called (c : Cache) (l : ListenerId) (event : StoreEvent) (s : Store) :
    Chronicled c (c.note (.called l event s ⟨c.stores, c.totalQuota⟩)) :=
  .of_cons rfl rfl rfl rfl

/-- **A cascade is chronicled**, and so is every moment of it. -/
theorem cascading_chronicled : Cascading Chronicled where
  refl c := .of_eq rfl rfl
  trans := .trans
  register c l := by
    unfold Cache.register
    split
    · exact .of_eq rfl rfl
    · exact .of_cons rfl rfl rfl trivial
  unregister c l := by
    unfold Cache.unregister
    split
    · exact .of_cons rfl rfl rfl trivial
    · exact .of_eq rfl rfl
  called c l s := chronicled_called c l .deleted s
  returned c l event s remarks := .of_cons rfl rfl rfl trivial
  absent c name _ := by
    rw [reportForgotten_eq]
    exact .of_cons rfl rfl rfl trivial
  present c d name s hs h := ((chronicled_takeOut hs).trans h).trans (.of_eq rfl rfl)

theorem chronicled_install (mode : Install) (p : Placement) (s : Store) (c : Cache) :
    Chronicled c (c.install b mode p s).2 := by
  have hi := installation (b := b) mode p s c
  generalize c.install b mode p s = r at hi ⊢
  cases hi with
  | refused => exact .of_eq rfl rfl
  | passedOver => exact .of_eq rfl rfl
  | unchanged => exact chronicled_put p s.completed c
  | changed =>
    have hadded : ∀ (c : Cache) delta, Chronicled c (c.addQuota delta) := fun _ _ ↦ .of_eq rfl rfl
    exact ((chronicled_put p s.completed c).trans (hadded _ _)).trans
      (cascading_chronicled.notify (fun c l ↦ chronicled_called c l .changed s.completed) _)

theorem chronicled_wipe (order : List String) (c : Cache) :
    Chronicled c (c.wipe b (World.visiting order c)) :=
  (cascading_chronicled.removeAll _ c).trans (.of_eq rfl (stores_removeAll_visiting order c).symm)

end Cache

theorem Cache.Plain.chronicled {c d : Cache} (h : c.Plain d) : Cache.Chronicled c d := by
  rcases h.journal with hjournal | ⟨e, he, hjournal⟩
  · exact .of_eq hjournal h.stores
  · cases e with
    | asked | filed | refreshed => exact .of_cons hjournal h.stores rfl trivial
    | _ => exact he.elim

theorem Piece.chronicled {w : World} {e : Event} {b : Behaviour} {c d : Cache}
    (h : Piece b w e c d) : Cache.Chronicled c d :=
  h.rel Cache.cascading_chronicled.toSteady Cache.Plain.chronicled Cache.chronicled_install
    Cache.cascading_chronicled.remove fun order c _ ↦ Cache.chronicled_wipe order c

/-- **In every run the journal tells how the records have changed.** -/
theorem run_chronicled (b : Behaviour) (w : World) (events : List Event) :
    Cache.Chronicled w.cache (w.run b events).cache :=
  World.run_rel (fun _ ↦ .of_eq rfl rfl) .trans Piece.chronicled w events

/-! ### Regular entries -/

/-- Records are installed as completed, and no callback says that a store has been created. -/
def Entry.Regular : Entry → Prop
  | .installed _ s _ => ∃ t : Store, s = t.completed
  | .called _ event _ _ => event ≠ .created
  | _ => True

theorem Entry.OfCascade.regular {e : Entry} (h : e.OfCascade) : e.Regular := by
  cases e with
  | called l event s found =>
    have hevent : event = .deleted := h
    rw [hevent]
    exact (nofun : StoreEvent.deleted ≠ .created)
  | installed => exact h.elim
  | _ => trivial

theorem Entry.Plain.regular {e : Entry} (h : e.Plain) : e.Regular := by
  cases e with
  | asked | filed | refreshed => trivial
  | _ => exact h.elim

theorem Piece.regular {w : World} {e : Event} {b : Behaviour} {c d : Cache}
    (h : Piece b w e c d) : Cache.Wrote Entry.Regular c d :=
  h.wrote_of (fun _ ↦ Entry.OfCascade.regular) (fun _ ↦ Entry.Plain.regular)
    (fun _ s _ ↦ ⟨s, rfl⟩) fun _ _ _ ↦ (nofun : StoreEvent.changed ≠ .created)

/-- A run writes regular entries only. -/
theorem run_regular (b : Behaviour) (w : World) (events : List Event) :
    Cache.Wrote Entry.Regular w.cache (w.run b events).cache :=
  World.run_rel (fun _ ↦ .of_eq rfl) .trans Piece.regular w events

/-! ### What a listener is told about a store -/

/-- What the listener `l` is told about the store `n` by the entries of a journal, newest first. -/
def toldOf (l : ListenerId) (n : String) (entries : List Entry) : List (StoreEvent × Store) :=
  (told l entries).filter (·.2.name = n)

theorem toldOf_append (l : ListenerId) (n : String) (new old : List Entry) :
    toldOf l n (new ++ old) = toldOf l n new ++ toldOf l n old := by
  rw [toldOf, told_append, List.filter_append]
  rfl

/-- Between two caches a listener registered throughout is told the changes of a store. -/
theorem Cache.perm_changesOf {c d : Cache} {l : ListenerId} {since : List Entry}
    (hjournal : d.journal = since ++ c.journal) (htold : Told l c d) (hchronicled : Chronicled c d)
    (hnodup : c.roster.Nodup) (hnamed : c.Named) (hl : l ∈ c.roster)
    (hstays : .unregistered l ∉ since) (n : String) :
    (toldOf l n since).Perm (changesOf n c.stores since) := by
  obtain ⟨since₁, hsince₁, htold⟩ := htold
  obtain ⟨since₂, hsince₂, hchronicled⟩ := hchronicled
  obtain rfl : since = since₁ := List.append_cancel_right (hjournal.symm.trans hsince₁)
  obtain rfl : since = since₂ := List.append_cancel_right (hjournal.symm.trans hsince₂)
  obtain ⟨-, -, hfaithful⟩ := hchronicled hnamed
  rw [← newsOf_eq_changesOf hfaithful]
  -- Nothing is owed, so every piece of news has been told as often as there is of it.
  have hperm : (told l since).Perm (news since) := List.perm_iff_count.2 fun x ↦ by
    have hdebt : debt l since x = 0 := ((htold hnodup).2 hl hstays).2 x
    rw [debt] at hdebt
    omega
  exact hperm.filter _

/-- **Events are exactly the changes.** Whatever happens after the events `before`, and whatever the
listeners do in their callbacks, the journal says what the records were at every moment since; and a
listener that was registered then and has been throughout has been told about each store the changes
of that store, each of them once, and nothing else. A change is that a store comes, that its record
becomes another, or that it leaves; the records are the completed ones; and no store is ever said to
have been created. -/
theorem toldOf_run (b : Behaviour) (tracks : Bool) (clock : Nat) (before after : List Event) :
    let w := (World.new tracks clock).run b before
    let u := w.run b after
    ∃ since, u.cache.journal = since ++ w.cache.journal ∧
      u.cache.stores = replayed w.cache.stores since ∧ Faithful w.cache.stores since ∧
      (∀ e ∈ since, e.Regular) ∧
      ∀ l ∈ w.cache.roster, .unregistered l ∉ since →
        ∀ n, (toldOf l n since).Perm (changesOf n w.cache.stores since) := by
  intro w u
  obtain ⟨since, hjournal, hregular⟩ := run_regular b w after
  obtain ⟨since', hjournal', hchronicled⟩ := run_chronicled b w after
  obtain rfl : since = since' := List.append_cancel_right (hjournal.symm.trans hjournal')
  have hnamed : w.cache.Named := named_of_run b tracks clock before
  obtain ⟨-, hstores, hfaithful⟩ := hchronicled hnamed
  refine ⟨since, hjournal, hstores, hfaithful, hregular, fun l hl hstays n ↦ ?_⟩
  exact Cache.perm_changesOf hjournal (run_told b w after l) (run_chronicled b w after)
    (nodup_roster_of_run b tracks clock before) hnamed hl hstays n

/-- A listener that unsubscribes a store whenever it is told of a change to it, while all others do
nothing. -/
def Behaviour.dropping (l : ListenerId) (n : String) : Behaviour := fun _ l' event s ↦
  if l' = l ∧ event = .changed ∧ s.name = n then .unsubscribe n (.finish .done) else .finish .done

/-- Two listeners are registered. -/
def twoListeners : List Event :=
  [.call 0 .start, .call 1 (.register "first"), .call 2 (.register "second")]

/-- A record of the store `orders` comes. -/
def ordersComing : List Event :=
  [.call 3 (.subscribe "orders"),
    .answer 3 (.constant (.new "orders" "east") (.new "orders")),
    .answer 3 (.constant (.new "orders" "east") (.new "orders"))]

/-- What comes of `events` while the first listener unsubscribes the store `orders` as soon as it is
told that it has come. -/
def crossing (events : List Event) : World :=
  (World.new false 0).run (.dropping "first" "orders") events

/-- An entry that a listener leaves the roster. -/
def Entry.isUnregistered : Entry → Bool
  | .unregistered _ => true
  | _ => false

/-- Both listeners stay. -/
theorem since_twoListeners :
    ∃ since, (crossing (twoListeners ++ ordersComing)).cache.journal =
        since ++ (crossing twoListeners).cache.journal ∧ ∀ l, .unregistered l ∉ since := by
  have hall : (crossing (twoListeners ++ ordersComing)).cache.journal.all
      fun e ↦ !e.isUnregistered := by decide
  obtain ⟨since, hsince, -⟩ := World.run_wrote (.dropping "first" "orders") (crossing twoListeners)
    ordersComing
  rw [crossing, ← World.run_append] at hsince
  refine ⟨since, hsince, fun l hmem ↦ ?_⟩
  cases List.all_eq_true.1 hall _ (hsince ▸ List.mem_append_left _ hmem)

/-- The store has come and left inside one notification, and the second listener has been told both.
-/
theorem toldOf_second :
    ∃ since, (crossing (twoListeners ++ ordersComing)).cache.journal =
        since ++ (crossing twoListeners).cache.journal ∧
      "second" ∈ (crossing twoListeners).cache.roster ∧ .unregistered "second" ∉ since ∧
      (toldOf "second" "orders" since).Perm
        [(.deleted, Store.new "orders"), (.changed, Store.new "orders")] := by
  have hl : "second" ∈ (crossing twoListeners).cache.roster := by decide
  have hnews : newsOf "orders" (crossing (twoListeners ++ ordersComing)).cache.journal =
      [(.deleted, Store.new "orders"), (.changed, Store.new "orders")] := by decide
  have hquiet : newsOf "orders" (crossing twoListeners).cache.journal = [] := by decide
  obtain ⟨since, hsince, hstays⟩ := since_twoListeners
  obtain ⟨since', hsince', -, hfaithful, -, htold⟩ :=
    toldOf_run (.dropping "first" "orders") false 0 twoListeners ordersComing
  rw [← World.run_append] at hsince'
  obtain rfl : since = since' := List.append_cancel_right (hsince.symm.trans hsince')
  have hperm := htold "second" hl (hstays "second") "orders"
  rw [← newsOf_eq_changesOf hfaithful] at hperm
  rw [hsince, newsOf_append, hquiet, List.append_nil] at hnews
  exact ⟨since, hsince, hl, hstays "second", hnews ▸ hperm⟩

end StoreCache
