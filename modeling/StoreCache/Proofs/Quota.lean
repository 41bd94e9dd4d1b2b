import Mathlib.Data.List.Induction
import Mathlib.Data.List.Infix
import StoreCache.Proofs.Run

/-!
# The total read quota

The total is never computed from the records. It is carried along: an install adds the difference to
the record it replaces, a removal subtracts what the record had, equal records are passed over, and
wiping sets it to zero. **It is nevertheless the sum over the records subscribed**, between events
and at the start of every callback, as long as that sum stays within the limit.

The limit is what makes this a statement about runs. A total that has saturated once forgets by how
much, so the sum has to stay within the limit at every point where it can be `Seen`. Nothing is
asked of the points in between: from an install either its first callback sees the cache it has
made, or there are no callbacks and nothing else in its event touches the records (`Overrun`).

A removal only ever lowers the sum. So cascades need no such care, and an install needs it once,
before its cascade begins.
-/

namespace StoreCache

/-! ### Sums over dictionaries -/

section Sums

variable {κ α : Type} [Ord κ] [Std.LawfulEqOrd κ]

/-- Below the first key of an ordered list of entries there is no other. -/
theorem lookup?_eq_none_of_lt {l : List (κ × α)} {x : κ} (h : ∀ e ∈ l, compare x e.1 = .lt) :
    lookup? x l = none := by
  refine lookup?_eq_none fun e he hx ↦ ?_
  have hlt := h e he
  simp [hx] at hlt

/-- The sum of `f` over the values of entries. -/
def sumEntries (f : α → Nat) : List (κ × α) → Nat
  | [] => 0
  | e :: l => f e.2 + sumEntries f l

theorem sumEntries_dropEntry (f : α → Nat) {l : List (κ × α)} (h : Increasing l) (x : κ) :
    sumEntries f (dropEntry x l) + ((lookup? x l).map f).getD 0 = sumEntries f l := by
  induction l with
  | nil => rfl
  | cons e l ih =>
    obtain ⟨k, v⟩ := e
    obtain ⟨hk, hl⟩ := List.pairwise_cons.1 h
    have ih := ih hl
    by_cases hx : compare x k = .eq
    · obtain rfl : x = k := Std.LawfulEqCmp.eq_of_compare hx
      have hdrop : dropEntry x ((x, v) :: l) = dropEntry x l := by simp [dropEntry]
      rw [lookup?_eq_none_of_lt hk] at ih
      rw [hdrop, lookup?, if_pos hx]
      simp only [Option.map_none, Option.getD_none, Option.map_some, Option.getD_some,
        sumEntries] at ih ⊢
      omega
    · have hdrop : dropEntry x ((k, v) :: l) = (k, v) :: dropEntry x l := by simp [dropEntry, hx]
      rw [hdrop, lookup?, if_neg hx]
      simp only [sumEntries]
      omega

theorem sumEntries_placeEntry [Std.TransOrd κ] (f : α → Nat) {l : List (κ × α)}
    (h : Increasing l) (x : κ) (v : α) :
    sumEntries f (placeEntry x v l) + ((lookup? x l).map f).getD 0 = sumEntries f l + f v := by
  induction l with
  | nil => simp [placeEntry, lookup?, sumEntries]
  | cons e l ih =>
    obtain ⟨k, u⟩ := e
    obtain ⟨hk, hl⟩ := List.pairwise_cons.1 h
    have ih := ih hl
    rcases hx : compare x k with - | - | -
    · have hnone : lookup? x ((k, u) :: l) = none :=
        lookup?_eq_none_of_lt fun e he ↦ by
          rcases List.mem_cons.1 he with rfl | he
          · exact hx
          · exact Std.TransCmp.lt_trans hx (hk e he)
      rw [hnone]
      simp only [placeEntry, hx, sumEntries, Option.map_none, Option.getD_none]
      omega
    · simp only [placeEntry, lookup?, hx, if_true, sumEntries, Option.map_some, Option.getD_some]
      omega
    · simp only [placeEntry, lookup?, hx, reduceCtorEq, if_false, sumEntries]
      omega

namespace Dict

/-- The sum of `f` over the values. -/
def sum (f : α → Nat) (d : Dict κ α) : Nat := sumEntries f d.toList

/-- Taking an entry out takes its value off the sum. -/
theorem sum_erase (f : α → Nat) (d : Dict κ α) (x : κ) :
    (d.erase x).sum f + ((d.get? x).map f).getD 0 = d.sum f :=
  sumEntries_dropEntry f d.increasing x

/-- Giving a key its value changes the sum by the new value less the one replaced. -/
theorem sum_insert [Std.TransOrd κ] (f : α → Nat) (d : Dict κ α) (x : κ) (v : α) :
    (d.insert x v).sum f + ((d.get? x).map f).getD 0 = d.sum f + f v :=
  sumEntries_placeEntry f d.increasing x v

theorem le_sum (f : α → Nat) {d : Dict κ α} {x : κ} {v : α} (h : d.get? x = some v) :
    f v ≤ d.sum f := by
  have hsum := d.sum_erase f x
  rw [h, Option.map_some, Option.getD_some] at hsum
  omega

end Dict

end Sums

/-- The sum of the read quotas of the records subscribed. -/
def readQuotaSum (stores : Dict String Store) : Nat := stores.sum fun s ↦ s.readQuota.toNat

/-! ### Exact totals -/

/-- What a callback finds is exact: the total is the sum. -/
def Found.Exact (f : Found) : Prop := f.quota = readQuotaSum f.stores

/-- What a callback finds is too much for an exact total. -/
def Found.Excessive (f : Found) : Prop := quotaLimit < readQuotaSum f.stores

/-- What a callback found when it began, if the entry is the beginning of one. -/
def Entry.found? : Entry → Option Found
  | .called _ _ _ f => some f
  | _ => none

namespace Cache

variable {b : Behaviour}

/-- What a callback would find. -/
def found (c : Cache) : Found := ⟨c.stores, c.totalQuota⟩

/-- The total is the sum, and the sum is within the limit. -/
def Balanced (c : Cache) : Prop := c.found.Exact ∧ ¬ c.found.Excessive

/-- The books are in order: the cache is balanced, and every callback so far has found an exact
total. -/
structure Accounted (c : Cache) : Prop where
  balanced : c.Balanced
  found : ∀ {e f}, e ∈ c.journal → e.found? = some f → f.Exact

/-- A callback so far has found too much. -/
def Overrun (c : Cache) : Prop := ∃ e ∈ c.journal, ∃ f, e.found? = some f ∧ f.Excessive

theorem balanced_of_empty {c : Cache} (hs : c.stores = ∅) (ht : c.totalQuota = 0) :
    c.Balanced := by
  have hfound : c.found = ⟨∅, 0⟩ := by rw [found, hs, ht]
  rw [Balanced, hfound]
  exact ⟨rfl, Int.not_lt.2 (by decide)⟩

theorem saturate_of_nonneg {n : Int} (h₀ : 0 ≤ n) (h : n ≤ quotaLimit) : saturate n = n := by
  unfold saturate quotaLimit at *
  omega

/-- A record whose quota is within the limit counts in full. -/
theorem quota_eq {s : Store} (h : (s.readQuota.toNat : Int) ≤ quotaLimit) :
    s.quota = s.readQuota.toNat := by
  unfold Store.quota
  omega

/-- **Taking a record out keeps the balance.** -/
theorem Balanced.takeOut {c : Cache} (h : c.Balanced) {name : String} {s : Store}
    (hs : c.stores.get? name = some s) : (c.takeOut name s).Balanced := by
  have hsum := c.stores.sum_erase (fun s ↦ s.readQuota.toNat) name
  have hquota := quota_eq (s := s)
  obtain ⟨hexact, hwithin⟩ := h
  simp only [hs, Option.map_some, Option.getD_some] at hsum
  simp only [Found.Exact, Found.Excessive, Balanced, found, takeOut_eq, readQuotaSum]
    at hexact hwithin ⊢
  rw [hquota (by omega), saturate_of_nonneg (by omega) (by omega)]
  omega

/-- Putting a record in and adding the difference keeps the balance, if the limit allows. -/
theorem Balanced.put {c : Cache} (h : c.Balanced) (p : Placement) (s : Store)
    (hwithin : ¬ (c.put p s).found.Excessive) :
    ((c.put p s).addQuota
      (s.quota - ((c.stores.get? s.name).map Store.quota).getD 0)).Balanced := by
  have hsum := c.stores.sum_insert (fun s ↦ s.readQuota.toNat) s.name s
  have hnew := quota_eq (s := s)
  obtain ⟨hexact, hold⟩ := h
  refine ⟨?_, hwithin⟩
  simp only [Found.Exact, Found.Excessive, found, readQuotaSum, Cache.put, note, addQuota]
    at hexact hold hwithin ⊢
  rcases hs : c.stores.get? s.name with - | s'
  · simp only [hs, Option.map_none, Option.getD_none] at hsum ⊢
    rw [hnew (by omega), saturate_of_nonneg (by omega) (by omega)]
    omega
  · have hprevious := quota_eq (s := s')
    have hle := Dict.le_sum (fun s ↦ s.readQuota.toNat) hs
    simp only [hs, Option.map_some, Option.getD_some] at hsum ⊢
    rw [hnew (by omega), hprevious (by omega), saturate_of_nonneg (by omega) (by omega)]
    omega

/-! ### Accounts under cascades -/

/-- Nothing is removed or installed, and whoever is told finds the cache as it is. -/
structure Quiet (c d : Cache) : Prop where
  found : d.found = c.found
  wrote : Wrote (fun e ↦ ∀ f, e.found? = some f → f = c.found) c d

theorem Quiet.of_note {c d : Cache} {e : Entry} (hfound : d.found = c.found)
    (hjournal : d.journal = e :: c.journal) (he : ∀ f, e.found? = some f → f = c.found) :
    Quiet c d :=
  ⟨hfound, .of_cons hjournal he⟩

theorem Accounted.quiet {c d : Cache} (h : c.Accounted) (hd : Quiet c d) : d.Accounted := by
  obtain ⟨hfound, new, hjournal, hnew⟩ := hd
  refine ⟨?_, fun {e f} hmem he ↦ ?_⟩
  · rw [Balanced, hfound]
    exact h.balanced
  · rw [hjournal] at hmem
    rcases List.mem_append.1 hmem with hmem | hmem
    · rw [hnew e hmem f he]
      exact h.balanced.1
    · exact h.found hmem he

theorem quiet_register (c : Cache) (l : ListenerId) : Quiet c (c.register l).2 := by
  unfold Cache.register
  split
  · exact ⟨rfl, .of_eq rfl⟩
  · exact .of_note rfl rfl fun _ he ↦ by cases he

theorem quiet_unregister (c : Cache) (l : ListenerId) : Quiet c (c.unregister l).2 := by
  unfold Cache.unregister
  split
  · exact .of_note rfl rfl fun _ he ↦ by cases he
  · exact ⟨rfl, .of_eq rfl⟩

theorem quiet_reportRefreshed (c : Cache) (name : String) : Quiet c (c.reportRefreshed name) := by
  rw [reportRefreshed_eq]
  exact .of_note rfl rfl fun _ he ↦ by cases he

theorem quiet_reportForgotten (c : Cache) (name : String) : Quiet c (c.reportForgotten name) := by
  rw [reportForgotten_eq]
  exact .of_note rfl rfl fun _ he ↦ by cases he

theorem quiet_file (name : String) (data : SchemaSet) (c : Cache) :
    Quiet c (c.file name data).2 := by
  have hf := filing name data c
  generalize c.file name data = r at hf ⊢
  cases hf with
  | refused => exact ⟨rfl, .of_eq rfl⟩
  | absent => exact ⟨rfl, .of_eq rfl⟩
  | filed => exact .of_note rfl rfl fun _ he ↦ by cases he

/-- A removal that finds no record is quiet. -/
theorem quiet_remove {c : Cache} {name : String} (h : c.stores.get? name = none) :
    Quiet c (c.remove b name) := by
  have hremove : c.remove b name = (c.reportForgotten name).dropRest name := by
    simp [remove, removeWithin, h]
  rw [hremove]
  exact ⟨(quiet_reportForgotten c name).found, (quiet_reportForgotten c name).wrote⟩

theorem quiet_called (c : Cache) (l : ListenerId) (event : StoreEvent) (s : Store) :
    Quiet c (c.note (.called l event s ⟨c.stores, c.totalQuota⟩)) :=
  .of_note rfl rfl fun _ he ↦ by cases he; rfl

/-- **A cascade keeps the books in order**: removals lower the sum and the total alike, and a
callback finds the cache as it is. -/
theorem cascading_accounted : Cascading fun c d ↦ c.Accounted → d.Accounted where
  refl _ h := h
  trans h₁ h₂ h := h₂ (h₁ h)
  register c l h := h.quiet (quiet_register c l)
  unregister c l h := h.quiet (quiet_unregister c l)
  called c l s h := h.quiet (quiet_called c l .deleted s)
  returned c l event s remarks h := h.quiet (.of_note rfl rfl fun _ he ↦ by cases he)
  absent c name _ h := (h.quiet (quiet_reportForgotten c name)).quiet ⟨rfl, .of_eq rfl⟩
  present c d name s hs hd h := by
    have htaken : (c.takeOut name s).Accounted :=
      ⟨h.balanced.takeOut hs, fun hmem he ↦ by
        rw [takeOut_eq] at hmem
        rcases List.mem_cons.1 hmem with rfl | hmem
        · cases he
        · rcases List.mem_cons.1 hmem with rfl | hmem
          · cases he
          · exact h.found hmem he⟩
    exact (hd htaken).quiet ⟨rfl, .of_eq rfl⟩

/-- The first callback of a notification finds the cache the notification began with. -/
theorem called_mem_notify (event : StoreEvent) (s : Store) {c : Cache} {l : ListenerId}
    {ls : List ListenerId} (hroster : c.roster = l :: ls) :
    Entry.called l event s c.found ∈ (c.notify b event s).2.journal := by
  have hgrows : Cascading (Wrote fun _ ↦ True) := cascading_wrote fun _ _ ↦ trivial
  have hremove : ∀ name c, Wrote (fun _ ↦ True) c (Cache.remove b name c) := hgrows.remove
  have hrun := hgrows.run hremove (b c.journal l event s) (c.note (.called l event s c.found)) []
  have hrest : Wrote (fun _ ↦ True) (call (remove b) b event s l c).2
      (callAll (remove b) b event s ls (call (remove b) b event s l c).2).2 :=
    hgrows.callAll hremove (fun _ _ ↦ .of_cons rfl trivial) ls _
  unfold notify notifyWith
  rw [hroster, callAll]
  exact hrest.mem (List.mem_cons_of_mem _ (hrun.mem List.mem_cons_self))

/-- **Installing keeps the books in order, or somebody sees that there is too much**: the first
callback, or whoever looks next. -/
theorem accounted_install {c : Cache} (h : c.Accounted) (mode : Install) (p : Placement)
    (s : Store) :
    (c.install b mode p s).2.Accounted ∨ (c.install b mode p s).2.Overrun ∨
      (c.install b mode p s).2.found.Excessive := by
  have hi := installation (b := b) mode p s c
  generalize c.install b mode p s = r at hi ⊢
  cases hi with
  | refused => exact Or.inl h
  | passedOver => exact Or.inl h
  | unchanged hphase hs =>
    -- Putting the same record in again changes neither the sum nor the total.
    have hsum := c.stores.sum_insert (fun s ↦ s.readQuota.toNat) s.name s.completed
    rw [hs, Option.map_some, Option.getD_some] at hsum
    have hsame : readQuotaSum (c.put p s.completed).stores = readQuotaSum c.stores := by
      simp only [readQuotaSum, Cache.put, Cache.note, Store.name_completed]
      omega
    refine Or.inl ⟨⟨?_, ?_⟩, fun hmem he ↦ ?_⟩
    · exact h.balanced.1.trans (congrArg _ hsame.symm)
    · simpa [Found.Excessive, found, hsame] using h.balanced.2
    · rcases List.mem_cons.1 hmem with rfl | hmem
      · cases he
      · exact h.found hmem he
  | changed hphase hs hmode =>
    have hbalanced := h.balanced.put p s.completed
    rw [Store.name_completed] at hbalanced
    generalize s.completed.quota - ((c.stores.get? s.name).map Store.quota).getD 0 = delta
      at hbalanced ⊢
    -- If the new record is too much, the first listener told of it finds that out.
    by_cases hmuch : (c.put p s.completed).found.Excessive
    · rcases hroster : ((c.put p s.completed).addQuota delta).roster with - | ⟨l, ls⟩
      · refine Or.inr (Or.inr ?_)
        unfold notify notifyWith
        rw [hroster]
        exact hmuch
      · exact Or.inr (Or.inl ⟨_, called_mem_notify .changed s.completed hroster, _, rfl, hmuch⟩)
    · have hput : ((c.put p s.completed).addQuota delta).Accounted :=
        ⟨hbalanced hmuch, fun hmem he ↦ by
          rcases List.mem_cons.1 hmem with rfl | hmem
          · cases he
          · exact h.found hmem he⟩
      exact Or.inl (cascading_accounted.notify (c := (c.put p s.completed).addQuota delta)
        (fun c l h ↦ h.quiet (quiet_called c l .changed _)) hput)

end Cache

/-! ### Accounts under events -/

variable {b : Behaviour} {w : World} {e : Event}

theorem Cache.Overrun.mono {c d : Cache} (h : c.Overrun) {P : Entry → Prop}
    (hd : Cache.Wrote P c d) : d.Overrun := by
  obtain ⟨e, hmem, hf⟩ := h
  exact ⟨e, hd.mem hmem, hf⟩

/-- In the work of an event the books are in order, or somebody has seen that there is too much, or
an answer has brought too much and the next to look will see it. -/
def Event.Audited (e : Event) (c : Cache) : Prop :=
  c.Accounted ∨ c.Overrun ∨ c.found.Excessive ∧ e.answer? ≠ none

theorem Event.Audited.quiet {c d : Cache} (h : e.Audited c) (hd : Cache.Quiet c d) :
    e.Audited d := by
  rcases h with h | h | ⟨h, he⟩
  · exact Or.inl (h.quiet hd)
  · exact Or.inr (Or.inl (h.mono hd.wrote))
  · exact Or.inr (Or.inr ⟨hd.found ▸ h, he⟩)

theorem Piece.audited {c d : Cache} (hw : w.cache.Accounted) (hp : Piece b w e c d)
    (h : e.Audited c) : e.Audited d := by
  have hwrote := hp.wrote
  cases hp with
  | ask => exact h.quiet (.of_note rfl rfl fun _ he ↦ by cases he)
  | install he =>
    rcases Cache.accounted_install hw _ _ _ with h | h | h
    · exact Or.inl h
    · exact Or.inr (Or.inl h)
    · exact Or.inr (Or.inr ⟨h, by simp [he]⟩)
  | file => exact h.quiet (Cache.quiet_file _ _ _)
  | refreshed => exact h.quiet (Cache.quiet_reportRefreshed _ _)
  | remove _ name hc =>
    -- A removal lowers the sum, so it comes first in its event or has nothing to take out.
    rcases hc with rfl | hnone
    · exact Or.inl (Cache.cascading_accounted.remove name _ hw)
    · exact h.quiet (Cache.quiet_remove hnone)
  | wipe _ order he =>
    rcases h with h | h | ⟨-, hanswer⟩
    · have hremoved := Cache.cascading_accounted.removeAll (b := b) (World.visiting order c) c h
      exact Or.inl ⟨Cache.balanced_of_empty rfl rfl, hremoved.found⟩
    · exact Or.inr (Or.inl (h.mono hwrote))
    · exact absurd he hanswer
  | start => exact h.quiet ⟨rfl, .of_eq rfl⟩
  | close => exact h.quiet ⟨rfl, .of_eq rfl⟩
  | register => exact h.quiet (Cache.quiet_register _ _)
  | unregister => exact h.quiet (Cache.quiet_unregister _ _)
  | clock => exact h.quiet ⟨rfl, .of_eq rfl⟩

theorem step_audited (b : Behaviour) (e : Event) (h : w.cache.Accounted) :
    e.Audited (w.step b e).cache := by
  have hpieces := World.step_pieces b w e
  generalize (w.step b e).cache = d at hpieces ⊢
  induction hpieces with
  | refl => exact Or.inl h
  | tail _ hp ih => exact hp.audited h ih

/-! ### Exact totals in runs -/

/-- Somebody sees `f` in the run of `events` from `w`: whoever looks between two events, or a
callback when it begins. -/
inductive Seen (b : Behaviour) (w : World) (events : List Event) : Found → Prop
  | between (before : List Event) (h : before <+: events) :
    Seen b w events (w.run b before).cache.found
  | callback (e : Entry) (f : Found) (h : e ∈ (w.run b events).cache.journal)
    (he : e.found? = some f) : Seen b w events f

/-- While nobody sees too much, the books are in order after every event. -/
theorem accounted_of_run {tracks : Bool} {clock : Nat} {events : List Event}
    (hseen : ∀ f, Seen b (World.new tracks clock) events f → ¬ f.Excessive) {before : List Event}
    (hbefore : before <+: events) : ((World.new tracks clock).run b before).cache.Accounted := by
  induction before using List.reverseRecOn with
  | nil => exact ⟨Cache.balanced_of_empty rfl rfl, fun h ↦ by cases h⟩
  | append_singleton before e ih =>
    have haudit := step_audited b e (ih ((List.prefix_append before [e]).trans hbefore))
    rw [← World.run_concat] at haudit
    rcases haudit with h | ⟨entry, hmem, f, hentry, hf⟩ | ⟨hmuch, -⟩
    · exact h
    · obtain ⟨after, rfl⟩ := hbefore
      refine absurd hf (hseen f (.callback entry f ?_ hentry))
      rw [World.run_append]
      exact (World.run_wrote b _ after).mem hmem
    · exact absurd hmuch (hseen _ (.between _ hbefore))

/-- **The total is exact wherever it can be seen**, between events and at the start of every
callback, in every run in which the sum of the read quotas never exceeds the limit. So whoever asks
a cache in use for its read quota is told that sum. -/
theorem quota_of_run (b : Behaviour) (tracks : Bool) (clock : Nat) (events : List Event)
    (h : ∀ f, Seen b (World.new tracks clock) events f →
      (readQuotaSum f.stores : Int) ≤ quotaLimit) :
    (∀ f, Seen b (World.new tracks clock) events f → f.quota = readQuotaSum f.stores) ∧
    ∀ before, before <+: events →
      ((World.new tracks clock).run b before).cache.phase = .started →
      ((World.new tracks clock).run b before).cache.readQuota =
        .ok (readQuotaSum ((World.new tracks clock).run b before).cache.stores) := by
  have hseen : ∀ f, Seen b (World.new tracks clock) events f → ¬ f.Excessive :=
    fun f hf ↦ Int.not_lt.2 (h f hf)
  refine ⟨fun f hf ↦ ?_, fun before hbefore hphase ↦ ?_⟩
  · cases hf with
    | between before hbefore => exact (accounted_of_run hseen hbefore).balanced.1
    | callback e f hmem he => exact (accounted_of_run hseen List.prefix_rfl).found hmem he
  · have hexact : ((World.new tracks clock).run b before).cache.totalQuota =
        readQuotaSum ((World.new tracks clock).run b before).cache.stores :=
      (accounted_of_run hseen hbefore).balanced.1
    simp only [Cache.readQuota, hphase, Phase.usable, hexact]
    rfl

/-- A subscription with a listener: both see the quota of the record. -/
theorem readQuota_of_subscription :
    let source := Source.constant (.new "orders" "east") { Store.new "orders" with readQuota := 7 }
    let events := subscription "orders" source
    (∀ f, Seen .silent (World.new false 0) events f →
      (readQuotaSum f.stores : Int) ≤ quotaLimit ∧ f.quota = readQuotaSum f.stores) ∧
    ((World.new false 0).run .silent events).cache.readQuota = .ok 7 := by
  intro source events
  have hbetween : ∀ before ∈ events.inits,
      (readQuotaSum ((World.new false 0).run .silent before).cache.stores : Int) ≤ quotaLimit := by
    decide
  have hcallback : ∀ e ∈ ((World.new false 0).run .silent events).cache.journal,
      e.found?.all fun f ↦ decide ((readQuotaSum f.stores : Int) ≤ quotaLimit) := by
    decide
  have hseen : ∀ f, Seen .silent (World.new false 0) events f →
      (readQuotaSum f.stores : Int) ≤ quotaLimit := by
    intro f hf
    cases hf with
    | between before hbefore => exact hbetween before ((List.mem_inits _ _).2 hbefore)
    | callback e f hmem he => simpa [he] using hcallback e hmem
  obtain ⟨hexact, hquota⟩ := quota_of_run .silent false 0 events hseen
  refine ⟨fun f hf ↦ ⟨hseen f hf, hexact f hf⟩, ?_⟩
  rw [hquota events List.prefix_rfl (by decide)]
  decide

end StoreCache
