import Mathlib.Data.List.Nodup
import StoreCache.Proofs.Run
import StoreCache.Proofs.Shelf

/-!
# What listeners are told

Records come and go by installs and removals; listeners are told of it by callbacks. Both leave
entries in the journal, at different places and in different orders: a callback that removes another
record has the listeners told of *that* before the rest of them are told of this one. What stays is
the **number**: a listener that is registered throughout is told each piece of news exactly as often
as it happens.

The proof keeps accounts. `Owes l f c d` says that between `c` and `d` the listener `l` has been
told each piece of news so many times more than it has happened, as `f` says. Taking a record out
owes one telling, the notification that follows pays it (`owes_notify`), and everything in between
owes nothing, which is the same statement for the removals inside (`told_remove`).

The roster has to be without repetition for that, and it is: registering checks.

The second account is between the journal and the records themselves. **What is held is what has
come and has not left** (`Recorded`).
-/

namespace StoreCache

/-- What an entry tells a listener. -/
def Entry.told? (l : ListenerId) : Entry → Option (StoreEvent × Store)
  | .called l' event s _ => if l' = l then some (event, s) else none
  | _ => none

/-- The news in an entry: a record has left, or one has come that differs from the one it
replaces. -/
def Entry.news? : Entry → Option (StoreEvent × Store)
  | .installed previous s _ => if previous = some s then none else some (.changed, s)
  | .removed s => some (.deleted, s)
  | _ => none

/-- What the listener `l` is told by the entries of a journal. -/
def told (l : ListenerId) (entries : List Entry) : List (StoreEvent × Store) :=
  entries.filterMap (Entry.told? l)

/-- The news in the entries of a journal. -/
def news (entries : List Entry) : List (StoreEvent × Store) := entries.filterMap Entry.news?

/-- One occurrence of `x` where there is one. -/
def due (y : Option (StoreEvent × Store)) (x : StoreEvent × Store) : Int :=
  if y = some x then 1 else 0

/-- How many times more `x` has been told to `l` than it has happened. -/
def debt (l : ListenerId) (entries : List Entry) (x : StoreEvent × Store) : Int :=
  (told l entries).count x - (news entries).count x

theorem debt_append (l : ListenerId) (new old : List Entry) (x : StoreEvent × Store) :
    debt l (new ++ old) x = debt l new x + debt l old x := by
  simp only [debt, told, news, List.filterMap_append, List.count_append]
  omega

theorem count_filterMap_cons (f : Entry → Option (StoreEvent × Store)) (e : Entry)
    (entries : List Entry) (x : StoreEvent × Store) :
    (((e :: entries).filterMap f).count x : Int) =
      due (f e) x + (entries.filterMap f).count x := by
  rcases hf : f e with - | y
  · simp [due, hf]
  · by_cases hy : y = x
    · simp [due, hf, hy]
      omega
    · simp [due, hf, hy]

theorem debt_singleton (l : ListenerId) (e : Entry) (x : StoreEvent × Store) :
    debt l [e] x = due (e.told? l) x - due e.news? x := by
  rw [debt, told, news, count_filterMap_cons, count_filterMap_cons]
  simp

namespace Cache

variable {b : Behaviour} {l : ListenerId} {c d : Cache}
  {unsubscribe : String → Cache → Cache}

/-- Between `c` and `d` a listener registered throughout has been told each piece of news so many
times more than it has happened, as `f` says. -/
def Owes (l : ListenerId) (f : StoreEvent × Store → Int) (c d : Cache) : Prop :=
  ∃ new, d.journal = new ++ c.journal ∧ (c.roster.Nodup → d.roster.Nodup ∧
    (l ∈ c.roster → .unregistered l ∉ new → l ∈ d.roster ∧ ∀ x, debt l new x = f x))

/-- Between `c` and `d` a listener registered throughout has been told each piece of news as often
as it has happened. -/
abbrev Told (l : ListenerId) : Cache → Cache → Prop := Owes l fun _ ↦ 0

theorem Owes.congr {f g : StoreEvent × Store → Int} (h : Owes l f c d) (hfg : ∀ x, f x = g x) :
    Owes l g c d := by
  obtain rfl : f = g := funext hfg
  exact h

theorem Owes.trans {f g : StoreEvent × Store → Int} {c d e : Cache} (h₁ : Owes l f c d)
    (h₂ : Owes l g d e) : Owes l (fun x ↦ f x + g x) c e := by
  obtain ⟨new₁, hd, h₁⟩ := h₁
  obtain ⟨new₂, he, h₂⟩ := h₂
  refine ⟨new₂ ++ new₁, by rw [he, hd, List.append_assoc], fun hnodup ↦ ?_⟩
  obtain ⟨hnodup₁, h₁⟩ := h₁ hnodup
  obtain ⟨hnodup₂, h₂⟩ := h₂ hnodup₁
  refine ⟨hnodup₂, fun hl hstays ↦ ?_⟩
  obtain ⟨hstays₂, hstays₁⟩ : .unregistered l ∉ new₂ ∧ .unregistered l ∉ new₁ := by
    simpa using hstays
  obtain ⟨hl₁, hdebt₁⟩ := h₁ hl hstays₁
  obtain ⟨hl₂, hdebt₂⟩ := h₂ hl₁ hstays₂
  refine ⟨hl₂, fun x ↦ ?_⟩
  rw [debt_append, hdebt₁, hdebt₂, Int.add_comm]

/-- An entry that leaves the roster alone owes its news and pays what it tells. -/
theorem Owes.of_cons {e : Entry} (hjournal : d.journal = e :: c.journal)
    (hroster : d.roster = c.roster) : Owes l (fun x ↦ due (e.told? l) x - due e.news? x) c d :=
  ⟨[e], hjournal, fun hnodup ↦
    ⟨hroster ▸ hnodup, fun hl _ ↦ ⟨hroster ▸ hl, fun x ↦ debt_singleton l e x⟩⟩⟩

theorem Told.of_eq (hjournal : d.journal = c.journal) (hroster : d.roster = c.roster) :
    Told l c d :=
  ⟨[], hjournal, fun hnodup ↦ ⟨hroster ▸ hnodup, fun hl _ ↦ ⟨hroster ▸ hl, fun _ ↦ rfl⟩⟩⟩

theorem Told.of_cons {e : Entry} (hjournal : d.journal = e :: c.journal)
    (hroster : d.roster = c.roster) (htold : e.told? l = none) (hnews : e.news? = none) :
    Told l c d :=
  (Owes.of_cons hjournal hroster).congr fun x ↦ by simp [htold, hnews]

theorem Told.trans {c d e : Cache} (h₁ : Told l c d) (h₂ : Told l d e) : Told l c e :=
  (Owes.trans h₁ h₂).congr fun _ ↦ rfl

theorem steady_told : Steady (Told l) where
  refl c := .of_eq rfl rfl
  trans := .trans
  register c l' := by
    unfold Cache.register
    split
    · exact .of_eq rfl rfl
    · rename_i hnew
      refine ⟨[.registered l'], rfl, fun hnodup ↦ ⟨?_, fun hl _ ↦ ⟨?_, fun x ↦ rfl⟩⟩⟩
      · exact List.nodup_append.2 ⟨hnodup, by simp, by
          rintro a ha b hb rfl
          exact hnew (List.mem_singleton.1 hb ▸ ha)⟩
      · exact List.mem_append_left _ hl
  unregister c l' := by
    unfold Cache.unregister
    split
    · refine ⟨[.unregistered l'], rfl, fun hnodup ↦ ⟨?_, fun hl hstays ↦ ⟨?_, fun x ↦ rfl⟩⟩⟩
      · exact hnodup.filter _
      · have hne : l ≠ l' := fun h ↦ hstays (by simp [h])
        exact List.mem_filter.2 ⟨hl, by simpa using hne⟩
    · exact .of_eq rfl rfl

theorem nodup_register (h : c.roster.Nodup) (l : ListenerId) :
    (c.register l).2.roster.Nodup := by
  obtain ⟨_, -, hnodup⟩ := (steady_told (l := l)).register c l
  exact (hnodup h).1

theorem nodup_unregister (h : c.roster.Nodup) (l : ListenerId) :
    (c.unregister l).2.roster.Nodup := by
  obtain ⟨_, -, hnodup⟩ := (steady_told (l := l)).unregister c l
  exact (hnodup h).1

/-! ### Callbacks and notifications -/

theorem owes_call (hU : ∀ name c, Told l c (unsubscribe name c)) (event : StoreEvent) (s : Store)
    (l' : ListenerId) (c : Cache) :
    Owes l (due (if l' = l then some (event, s) else none)) c
      (call unsubscribe b event s l' c).2 := by
  have hcalled : Owes l (due (if l' = l then some (event, s) else none)) c
      (c.note (.called l' event s ⟨c.stores, c.totalQuota⟩)) := by
    refine Owes.congr (.of_cons rfl rfl) fun x ↦ ?_
    simp [Entry.told?, Entry.news?, due]
  have hrun := steady_told.run hU (b c.journal l' event s)
    (c.note (.called l' event s ⟨c.stores, c.totalQuota⟩)) []
  have hreturned : ∀ (c : Cache) remarks, Told l c (c.note (.returned l' event s remarks)) :=
    fun _ _ ↦ .of_cons rfl rfl rfl rfl
  exact ((hcalled.trans hrun).trans (hreturned _ _)).congr fun x ↦ by simp

/-- Calling the listeners one after the other tells each one, once for each time it is listed. -/
theorem owes_callAll (hU : ∀ name c, Told l c (unsubscribe name c)) (event : StoreEvent)
    (s : Store) (ls : List ListenerId) : ∀ c,
    Owes l (fun x ↦ ls.count l * due (some (event, s)) x) c (callAll unsubscribe b event s ls c).2 := by
  induction ls with
  | nil => exact fun c ↦ (steady_told.refl c).congr fun x ↦ by simp
  | cons l' ls ih =>
    refine fun c ↦ ((owes_call hU event s l' c).trans (ih _)).congr fun x ↦ ?_
    by_cases hl : l' = l
    · simp [hl, Int.add_mul, Int.add_comm]
    · simp [hl, due]

/-- **A notification tells every listener once.** -/
theorem owes_notify (hU : ∀ name c, Told l c (unsubscribe name c)) (event : StoreEvent)
    (s : Store) (c : Cache) :
    Owes l (due (some (event, s))) c (notifyWith unsubscribe b event s c).2 := by
  obtain ⟨new, hjournal, h⟩ := owes_callAll (b := b) hU event s c.roster c
  refine ⟨new, hjournal, fun hnodup ↦ ⟨(h hnodup).1, fun hl hstays ↦ ?_⟩⟩
  obtain ⟨hl', hdebt⟩ := (h hnodup).2 hl hstays
  refine ⟨hl', fun x ↦ ?_⟩
  -- This is where the roster has to be without repetition.
  have honce : c.roster.count l = 1 := List.nodup_iff_count_eq_one.1 hnodup l hl
  simp [hdebt, honce]

/-! ### Removals -/

/-- **A removal tells what it takes out**, and so does every removal inside it. -/
theorem told_removeWithin (depth : Nat) (name : String) (c : Cache) :
    Told l c (removeWithin b depth name c) := by
  refine removeWithin_rel steady_told.refl (fun c name _ ↦ ?_) (fun unsubscribe hU c name s _ ↦ ?_)
    depth name c
  · rw [reportForgotten_eq]
    exact .of_cons rfl rfl rfl rfl
  · -- Taking the record out owes one telling, and the notification pays it.
    have htaken : Owes l (fun x ↦ -due (some (.deleted, s)) x) c (c.takeOut name s) := by
      rw [takeOut_eq]
      refine ⟨[.forgotten name, .removed s], rfl, fun hnodup ↦ ⟨hnodup, fun hl _ ↦ ⟨hl, fun x ↦ ?_⟩⟩⟩
      have happend := debt_append l [.forgotten name] [.removed s] x
      rw [debt_singleton, debt_singleton] at happend
      simpa [Entry.told?, Entry.news?, due] using happend
    have hnotified := owes_notify (b := b) hU .deleted s (c.takeOut name s)
    have hdropped : ∀ c : Cache, Told l c (c.dropRest name) := fun c ↦ .of_eq rfl rfl
    exact ((htaken.trans hnotified).trans (hdropped _)).congr fun x ↦ by omega

theorem told_remove (name : String) (c : Cache) : Told l c (c.remove b name) :=
  told_removeWithin _ name c

theorem told_removeAll (names : List String) : ∀ c : Cache, Told l c (c.removeAll b names) := by
  induction names with
  | nil => exact steady_told.refl
  | cons name names ih => exact fun c ↦ (told_remove name c).trans (ih _)

theorem told_wipe (names : List String) (c : Cache) : Told l c (c.wipe b names) :=
  (told_removeAll names c).trans (.of_eq rfl rfl)

/-! ### Installs -/

theorem told_install (mode : Install) (p : Placement) (s : Store) (c : Cache) :
    Told l c (c.install b mode p s).2 := by
  have hi := installation (b := b) mode p s c
  generalize c.install b mode p s = r at hi ⊢
  cases hi with
  | refused => exact steady_told.refl c
  | passedOver => exact steady_told.refl c
  | unchanged hphase hs => exact .of_cons rfl rfl rfl (by simp [Entry.news?, hs])
  | changed hphase hs =>
    generalize s.completed.quota - ((c.stores.get? s.name).map Store.quota).getD 0 = delta
    -- The record put in is news, since it differs from the one it replaces.
    have hput : Owes l (fun x ↦ -due (some (.changed, s.completed)) x) c
        ((c.put p s.completed).addQuota delta) := by
      refine Owes.congr (.of_cons rfl rfl) fun x ↦ ?_
      simp [Entry.told?, Entry.news?, hs, due]
    exact (hput.trans (owes_notify told_remove .changed s.completed _)).congr fun x ↦ by omega

end Cache

theorem Cache.Plain.told {l : ListenerId} {c d : Cache} (h : c.Plain d) : Cache.Told l c d := by
  rcases h.journal with hjournal | ⟨e, he, hjournal⟩
  · exact .of_eq hjournal h.roster
  · cases e with
    | asked | filed | refreshed => exact .of_cons hjournal h.roster rfl rfl
    | _ => exact he.elim

theorem Piece.told {l : ListenerId} {w : World} {e : Event} {b : Behaviour} {c d : Cache}
    (h : Piece b w e c d) : Cache.Told l c d :=
  h.rel Cache.steady_told Cache.Plain.told Cache.told_install Cache.told_remove
    fun order c _ ↦ Cache.told_wipe (World.visiting order c) c

/-- **In every run a listener registered throughout is told each piece of news as often as it
happens.** -/
theorem run_told (b : Behaviour) (w : World) (events : List Event) (l : ListenerId) :
    Cache.Told l w.cache (w.run b events).cache :=
  World.run_rel Cache.steady_told.refl .trans Piece.told w events

theorem nodup_roster_of_run (b : Behaviour) (tracks : Bool) (clock : Nat) (events : List Event) :
    ((World.new tracks clock).run b events).cache.roster.Nodup := by
  obtain ⟨new, -, hroster⟩ := run_told b (World.new tracks clock) events ""
  exact (hroster .nil).1

/-! ### What is held -/

/-- How many more of the record `r` there are by an entry. -/
def Entry.gain (r : Store) : Entry → Int
  | .installed previous s _ => (if s = r then 1 else 0) - (if previous = some r then 1 else 0)
  | .removed s => -(if s = r then 1 else 0)
  | _ => 0

/-- How many more of the record `r` there are by the entries of a journal. -/
def gain (r : Store) : List Entry → Int
  | [] => 0
  | e :: entries => e.gain r + gain r entries

theorem gain_append (r : Store) (new old : List Entry) :
    gain r (new ++ old) = gain r new + gain r old := by
  induction new with
  | nil => simp [gain]
  | cons e new ih =>
    rw [List.cons_append, gain, gain, ih]
    omega

namespace Cache

variable {b : Behaviour} {c d : Cache}

/-- Whether the record `r` is subscribed, as a number. -/
def held (c : Cache) (r : Store) : Int := if c.stores.get? r.name = some r then 1 else 0

/-- Every record stands under its own name. -/
def Named (c : Cache) : Prop := ∀ n s, c.stores.get? n = some s → s.name = n

/-- Between `c` and `d` the journal accounts for every record that has come or left. -/
def Recorded (c d : Cache) : Prop :=
  ∃ new, d.journal = new ++ c.journal ∧
    (c.Named → d.Named ∧ ∀ r, d.held r = c.held r + gain r new)

theorem Recorded.named (h : Recorded c d) (hc : c.Named) : d.Named := by
  obtain ⟨new, -, hd⟩ := h
  exact (hd hc).1

theorem Recorded.trans {c d e : Cache} (h₁ : Recorded c d) (h₂ : Recorded d e) : Recorded c e := by
  obtain ⟨new₁, hd, h₁⟩ := h₁
  obtain ⟨new₂, he, h₂⟩ := h₂
  refine ⟨new₂ ++ new₁, by rw [he, hd, List.append_assoc], fun hnamed ↦ ?_⟩
  obtain ⟨hnamed₁, hheld₁⟩ := h₁ hnamed
  obtain ⟨hnamed₂, hheld₂⟩ := h₂ hnamed₁
  refine ⟨hnamed₂, fun r ↦ ?_⟩
  rw [hheld₂, hheld₁, gain_append]
  omega

theorem Recorded.of_eq (hjournal : d.journal = c.journal) (hstores : d.stores = c.stores) :
    Recorded c d :=
  ⟨[], hjournal, fun hnamed ↦ by
    refine ⟨fun n s hs ↦ hnamed n s (hstores ▸ hs), fun r ↦ ?_⟩
    simp [held, hstores, gain]⟩

theorem Recorded.of_cons {e : Entry} (hjournal : d.journal = e :: c.journal)
    (hstores : d.stores = c.stores) (he : ∀ r, e.gain r = 0) : Recorded c d :=
  ⟨[e], hjournal, fun hnamed ↦ by
    refine ⟨fun n s hs ↦ hnamed n s (hstores ▸ hs), fun r ↦ ?_⟩
    simp [held, hstores, gain, he]⟩

theorem recorded_takeOut {name : String} {s : Store} (hs : c.stores.get? name = some s) :
    Recorded c (c.takeOut name s) := by
  rw [takeOut_eq]
  refine ⟨[.forgotten name, .removed s], rfl, fun hnamed ↦ ⟨?_, fun r ↦ ?_⟩⟩
  · intro n s' hs'
    rw [Dict.get?_erase] at hs'
    split at hs'
    · cases hs'
    · exact hnamed n s' hs'
  · have hname : s.name = name := hnamed name s hs
    rw [held, Dict.get?_erase, held]
    by_cases hr : r.name = name
    · simp only [hr, hs, ↓reduceIte, reduceCtorEq, Option.some.injEq, gain, Entry.gain]
      omega
    · have hne : s ≠ r := fun h ↦ hr (h ▸ hname)
      simp [hr, gain, Entry.gain, hne]

theorem recorded_put (p : Placement) (s : Store) (c : Cache) : Recorded c (c.put p s) := by
  have hstores : (c.put p s).stores = c.stores.insert s.name s := rfl
  refine ⟨[.installed (c.stores.get? s.name) s p], rfl, fun hnamed ↦ ⟨?_, fun r ↦ ?_⟩⟩
  · intro n s' hs'
    rw [hstores, Dict.get?_insert] at hs'
    split at hs'
    · rename_i hn
      cases hs'
      exact hn.symm
    · exact hnamed n s' hs'
  · rw [held, hstores, Dict.get?_insert, held]
    by_cases hr : r.name = s.name
    · simp only [hr, ↓reduceIte, Option.some.injEq, gain, Entry.gain]
      omega
    · have hne : s ≠ r := fun h ↦ hr (congrArg Store.name h.symm)
      have hprevious : c.stores.get? s.name ≠ some r := fun h ↦ hr (hnamed _ _ h)
      simp [hr, gain, Entry.gain, hne, hprevious]

theorem cascading_recorded : Cascading Recorded where
  refl c := .of_eq rfl rfl
  trans := .trans
  register c l := by
    unfold Cache.register
    split
    · exact .of_eq rfl rfl
    · exact .of_cons rfl rfl fun _ ↦ rfl
  unregister c l := by
    unfold Cache.unregister
    split
    · exact .of_cons rfl rfl fun _ ↦ rfl
    · exact .of_eq rfl rfl
  called c l s := .of_cons rfl rfl fun _ ↦ rfl
  returned c l event s remarks := .of_cons rfl rfl fun _ ↦ rfl
  absent c name _ := by
    rw [reportForgotten_eq]
    exact .of_cons rfl rfl fun _ ↦ rfl
  present c d name s hs h := ((recorded_takeOut hs).trans h).trans (.of_eq rfl rfl)

theorem recorded_install (mode : Install) (p : Placement) (s : Store) (c : Cache) :
    Recorded c (c.install b mode p s).2 := by
  have hi := installation (b := b) mode p s c
  generalize c.install b mode p s = r at hi ⊢
  cases hi with
  | refused => exact .of_eq rfl rfl
  | passedOver => exact .of_eq rfl rfl
  | unchanged => exact recorded_put p s.completed c
  | changed =>
    have hadded : ∀ (c : Cache) delta, Recorded c (c.addQuota delta) := fun _ _ ↦ .of_eq rfl rfl
    refine ((recorded_put p s.completed c).trans (hadded _ _)).trans (cascading_recorded.notify ?_ _)
    exact fun _ _ ↦ .of_cons rfl rfl fun _ ↦ rfl

end Cache

theorem Cache.Plain.recorded {c d : Cache} (h : c.Plain d) : Cache.Recorded c d := by
  rcases h.journal with hjournal | ⟨e, he, hjournal⟩
  · exact .of_eq hjournal h.stores
  · cases e with
    | asked | filed | refreshed => exact .of_cons hjournal h.stores fun _ ↦ rfl
    | _ => exact he.elim

theorem Piece.recorded {w : World} {e : Event} {b : Behaviour} {c d : Cache}
    (h : Piece b w e c d) : Cache.Recorded c d := by
  refine h.rel Cache.cascading_recorded.toSteady Cache.Plain.recorded Cache.recorded_install
    Cache.cascading_recorded.remove fun order c _ ↦ ?_
  exact (Cache.cascading_recorded.removeAll _ _).trans
    (.of_eq rfl (Cache.stores_removeAll_visiting order c).symm)

/-- **In every run the journal accounts for every record that has come or left.** -/
theorem run_recorded (b : Behaviour) (w : World) (events : List Event) :
    Cache.Recorded w.cache (w.run b events).cache :=
  World.run_rel (fun _ ↦ .of_eq rfl rfl) .trans Piece.recorded w events

theorem named_of_run (b : Behaviour) (tracks : Bool) (clock : Nat) (events : List Event) :
    ((World.new tracks clock).run b events).cache.Named :=
  (run_recorded b (World.new tracks clock) events).named fun _ _ hs ↦ nomatch hs

end StoreCache
