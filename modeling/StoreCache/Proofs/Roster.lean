import Mathlib.Data.Finset.Card
import StoreCache.Proofs.Telling

/-!
# The roster as a set

A notification goes round the listeners it finds, each callback may change the roster and start
further notifications, and those go round the listeners *they* find, while the one outside is half
done. What each of them has delivered is nevertheless plain to see: **every notification calls each
member it found once, and nobody else** (`delivery_of_moment`), and that is all there is to say
about nesting.

What was delivered is read off the journal. A callback stands there between the entry that it began
and the entry that it returned, and whatever it did stands in between, callbacks of other
notifications included. `outermost` skips those: of the entries a notification has left it lists the
callbacks that are the notification's own. That the entries nest as they should (`Nested`) is what
every stretch of work preserves (`Tidy`), and it makes the lists of consecutive stretches add up
(`outermost_append`).

What else callbacks do is left open. The function that stands for unsubscribing may register,
unregister and notify as it likes (`Calls`), of any event about any record; unsubscribing itself is
one such function (`calls_remove`). A cache may therefore be looked at in the midst of any number of
callbacks (`Moment`), and the theorem is about every such cache, so that it covers the notifications
inside as well as the one outside.
-/

namespace StoreCache

/-! ### How a callback ended -/

/-- How a script ends if the calls it makes are answered by these remarks; nothing if they are not
answers to its calls. -/
def Script.ending? : Script → List Remark → Option Ending
  | .finish ending, [] => some ending
  | .register _ next, .changed answer :: remarks => (next answer).ending? remarks
  | .unregister _ next, .changed answer :: remarks => (next answer).ending? remarks
  | .unsubscribe _ next, remarks => next.ending? remarks
  | .look _ next, .saw g :: remarks => (next g).ending? remarks
  | _, _ => none

/-- A callback as the journal has it. -/
structure Callback where
  listener : ListenerId
  event : StoreEvent
  store : Store
  /-- The journal when the callback began. -/
  before : List Entry
  /-- What the callback was told by the calls it made. -/
  remarks : List Remark

namespace Callback

/-- How the callback ended. -/
def ending? (b : Behaviour) (k : Callback) : Option Ending :=
  (b k.before k.listener k.event k.store).ending? k.remarks

/-- Whether the callback failed or broke off. -/
def failed (b : Behaviour) (k : Callback) : Bool := (k.ending? b).any Ending.isFailure

end Callback

/-! ### Callbacks inside one another -/

/-- The entries that a callback began and that it returned. -/
def Entry.OfCallback : Entry → Prop
  | .called .. | .returned .. => True
  | _ => False

/-- The callbacks in a stretch of the journal that are inside no other callback of the stretch,
newest first. The list given is what the callbacks that we are inside of were told, innermost
first; `older` is the journal before the stretch. -/
def outermost (older : List Entry) : List (List Remark) → List Entry → List Callback
  | _, [] => []
  | inside, .returned _ _ _ remarks :: rest => outermost older (remarks :: inside) rest
  | [remarks], .called l event s _ :: rest =>
    ⟨l, event, s, rest ++ older, remarks⟩ :: outermost older [] rest
  | _ :: inside, .called _ _ _ _ :: rest => outermost older inside rest
  | inside, _ :: rest => outermost older inside rest

/-- A stretch of the journal in which every callback that begins returns, with whatever it did in
between. -/
inductive Nested : List Entry → Prop
  | nil : Nested []
  | other {e : Entry} {rest : List Entry} (he : ¬ e.OfCallback) (hrest : Nested rest) :
    Nested (e :: rest)
  | callback {l : ListenerId} {event : StoreEvent} {s : Store} {found : Found}
    {remarks : List Remark} {inner rest : List Entry} (hinner : Nested inner)
    (hrest : Nested rest) :
    Nested (.returned l event s remarks :: (inner ++ .called l event s found :: rest))

section Nesting

variable {e : Entry} {older new rest : List Entry} {inside : List (List Remark)}

theorem Nested.of_forall (h : ∀ e ∈ new, ¬ e.OfCallback) : Nested new := by
  induction new with
  | nil => exact .nil
  | cons e new ih => exact .other (h e (by simp)) (ih fun e' he' ↦ h e' (by simp [he']))

theorem Nested.append (hnew : Nested new) (hrest : Nested rest) : Nested (new ++ rest) := by
  induction hnew with
  | nil => exact hrest
  | other he _ ih => exact .other he ih
  | callback hinner _ _ ih =>
    rw [List.cons_append, List.append_assoc, List.cons_append]
    exact .callback hinner ih

@[simp] theorem outermost_nil : outermost older inside [] = [] := by
  unfold outermost
  rfl

theorem outermost_cons_other (he : ¬ e.OfCallback) :
    outermost older inside (e :: rest) = outermost older inside rest := by
  cases e with
  | called | returned => exact absurd trivial he
  | _ => rw [outermost] <;> simp

@[simp] theorem outermost_cons_returned {l : ListenerId} {event : StoreEvent} {s : Store}
    {remarks : List Remark} :
    outermost older inside (.returned l event s remarks :: rest) =
      outermost older (remarks :: inside) rest := by
  rw [outermost]

@[simp] theorem outermost_cons_called {l : ListenerId} {event : StoreEvent} {s : Store}
    {found : Found} {remarks : List Remark} :
    outermost older [remarks] (.called l event s found :: rest) =
      ⟨l, event, s, rest ++ older, remarks⟩ :: outermost older [] rest := by
  rw [outermost]

@[simp] theorem outermost_cons_called_inside {l : ListenerId} {event : StoreEvent} {s : Store}
    {found : Found} {inner outer : List Remark} :
    outermost older (inner :: outer :: inside) (.called l event s found :: rest) =
      outermost older (outer :: inside) rest := by
  rw [outermost]
  simp

/-- Inside a callback no other callback is outermost. -/
theorem outermost_inside (hnew : Nested new) (remarks : List Remark) :
    outermost older (remarks :: inside) (new ++ rest) =
      outermost older (remarks :: inside) rest := by
  induction hnew generalizing remarks inside rest with
  | nil => rfl
  | other he _ ih => rw [List.cons_append, outermost_cons_other he, ih]
  | callback _ _ ihinner ihrest =>
    -- That it returned is read first, and what it did is then inside one callback more.
    rw [List.cons_append, List.append_assoc, List.cons_append, outermost_cons_returned, ihinner,
      outermost_cons_called_inside, ihrest]

/-- **One stretch after another**: the outermost callbacks are those of the one and of the other. -/
theorem outermost_append (hnew : Nested new) :
    outermost older [] (new ++ rest) =
      outermost (rest ++ older) [] new ++ outermost older [] rest := by
  induction hnew with
  | nil => simp
  | other he _ ih => rw [List.cons_append, outermost_cons_other he, outermost_cons_other he, ih]
  | callback hinner _ _ ih =>
    rw [List.cons_append, List.append_assoc, List.cons_append, outermost_cons_returned,
      outermost_cons_returned, outermost_inside hinner, outermost_inside hinner,
      outermost_cons_called, outermost_cons_called, ih, List.cons_append, List.append_assoc]

/-- A callback and what it did is one outermost callback. -/
theorem outermost_callback (hnew : Nested new) {l : ListenerId} {event : StoreEvent} {s : Store}
    {found : Found} {remarks : List Remark} :
    outermost older [] (.returned l event s remarks :: (new ++ [.called l event s found])) =
      [⟨l, event, s, older, remarks⟩] := by
  rw [outermost_cons_returned, outermost_inside hnew, outermost_cons_called, outermost_nil,
    List.nil_append]

end Nesting

namespace Cache

variable {b : Behaviour} {c d : Cache} {U : String → Cache → Cache} {l : ListenerId}

/-! ### The roster -/

/-- The listeners registered. -/
def members (c : Cache) : Finset ListenerId := c.roster.toFinset

theorem mem_members : l ∈ c.members ↔ l ∈ c.roster := List.mem_toFinset

/-- **Registering adds a member**, and says whether it was missing. -/
theorem register_members (c : Cache) (l : ListenerId) :
    ((c.register l).1 = true ↔ l ∉ c.members) ∧
      (c.register l).2.members = insert l c.members := by
  rw [mem_members]
  unfold register
  split
  · rename_i hl
    exact ⟨by simpa using hl, (Finset.insert_eq_of_mem (mem_members.2 hl)).symm⟩
  · rename_i hl
    refine ⟨by simpa using hl, Finset.ext fun l' ↦ ?_⟩
    simp [members, note]

/-- **Unregistering takes a member away**, and says whether it was there. -/
theorem unregister_members (c : Cache) (l : ListenerId) :
    ((c.unregister l).1 = true ↔ l ∈ c.members) ∧
      (c.unregister l).2.members = c.members.erase l := by
  rw [mem_members]
  unfold unregister
  split
  · rename_i hl
    refine ⟨by simpa using hl, Finset.ext fun l' ↦ ?_⟩
    simp [members, note, and_comm]
  · rename_i hl
    exact ⟨by simpa using hl, (Finset.erase_eq_of_notMem (mt mem_members.1 hl)).symm⟩

/-! ### Moments and calls -/

/-- Work that makes no callback and leaves the roster alone. -/
structure Aside (c d : Cache) : Prop where
  roster : d.roster = c.roster
  wrote : Wrote (fun e ↦ ¬ e.OfCallback) c d

/-- A cache as it can be found at any moment, in the midst of any number of callbacks. -/
inductive Moment : Cache → Prop
  | new (tracks : Bool) (clock : Nat) : Moment (.new tracks clock)
  | register {c : Cache} (h : Moment c) (l : ListenerId) : Moment (c.register l).2
  | unregister {c : Cache} (h : Moment c) (l : ListenerId) : Moment (c.unregister l).2
  /-- A callback begins or returns. -/
  | callback {c : Cache} (h : Moment c) {e : Entry} (he : e.OfCallback) : Moment (c.note e)
  | aside {c d : Cache} (h : Moment c) (hd : c.Aside d) : Moment d

/-- What a sequence of calls to register, unregister and notify does to a cache, with other work in
between. The callbacks of a notification may make such sequences of calls themselves. -/
inductive Calls (b : Behaviour) : Cache → Cache → Prop
  | none (c : Cache) : Calls b c c
  | register {c d : Cache} (h : Calls b c d) (l : ListenerId) : Calls b c (d.register l).2
  | unregister {c d : Cache} (h : Calls b c d) (l : ListenerId) : Calls b c (d.unregister l).2
  | notify {c d : Cache} (h : Calls b c d) {U : String → Cache → Cache}
    (hU : ∀ name e, Moment e → Calls b e (U name e)) (event : StoreEvent) (s : Store) :
    Calls b c (notifyWith U b event s d).2
  | aside {c d e : Cache} (h : Calls b c d) (he : d.Aside e) : Calls b c e

/-- **The roster never holds a listener twice.** -/
theorem Moment.nodup (h : c.Moment) : c.roster.Nodup := by
  induction h with
  | new => exact .nil
  | register _ l ih => exact nodup_register ih l
  | unregister _ l ih => exact nodup_unregister ih l
  | callback _ _ ih => exact ih
  | aside _ hd ih => exact hd.roster ▸ ih

theorem Moment.length_roster (h : c.Moment) : c.roster.length = c.members.card :=
  (List.toFinset_card_of_nodup h.nodup).symm

/-! ### What work preserves -/

/-- Work that leads from one moment to another and leaves callbacks that nest in the journal. -/
def Tidy (c d : Cache) : Prop :=
  c.Moment → d.Moment ∧ ∃ new, d.journal = new ++ c.journal ∧ Nested new

theorem Tidy.trans {c d e : Cache} (h₁ : Tidy c d) (h₂ : Tidy d e) : Tidy c e := by
  intro hc
  obtain ⟨hd, new₁, hjournal₁, hnew₁⟩ := h₁ hc
  obtain ⟨he, new₂, hjournal₂, hnew₂⟩ := h₂ hd
  exact ⟨he, new₂ ++ new₁, by rw [hjournal₂, hjournal₁, List.append_assoc], hnew₂.append hnew₁⟩

theorem Aside.tidy (h : c.Aside d) : Tidy c d := by
  obtain ⟨new, hjournal, hnew⟩ := h.wrote
  exact fun hc ↦ ⟨hc.aside h, new, hjournal, .of_forall hnew⟩

theorem tidy_register (c : Cache) (l : ListenerId) : Tidy c (c.register l).2 := by
  refine fun hc ↦ ⟨hc.register l, ?_⟩
  unfold Cache.register
  split
  · exact ⟨[], rfl, .nil⟩
  · exact ⟨[.registered l], rfl, .other id .nil⟩

theorem tidy_unregister (c : Cache) (l : ListenerId) : Tidy c (c.unregister l).2 := by
  refine fun hc ↦ ⟨hc.unregister l, ?_⟩
  unfold Cache.unregister
  split
  · exact ⟨[.unregistered l], rfl, .other id .nil⟩
  · exact ⟨[], rfl, .nil⟩

theorem steady_tidy : Steady Tidy where
  refl _ hc := ⟨hc, [], rfl, .nil⟩
  trans := .trans
  register := tidy_register
  unregister := tidy_unregister

/-! ### Notifications -/

/-- **A script ends as its remarks say.** -/
theorem ending?_run (U : String → Cache → Cache) (script : Script) : ∀ c remarks,
    ∃ answers, (run U script c remarks).2.2 = remarks ++ answers ∧
      script.ending? answers = some (run U script c remarks).1 := by
  induction script with
  | finish ending => exact fun c remarks ↦ ⟨[], (List.append_nil _).symm, rfl⟩
  | register l next ih =>
    intro c remarks
    obtain ⟨answers, htold, hending⟩ := ih (c.register l).1 (c.register l).2
      (remarks ++ [.changed (c.register l).1])
    exact ⟨.changed (c.register l).1 :: answers, by simpa [run] using htold, hending⟩
  | unregister l next ih =>
    intro c remarks
    obtain ⟨answers, htold, hending⟩ := ih (c.unregister l).1 (c.unregister l).2
      (remarks ++ [.changed (c.unregister l).1])
    exact ⟨.changed (c.unregister l).1 :: answers, by simpa [run] using htold, hending⟩
  | unsubscribe name next ih =>
    intro c remarks
    obtain ⟨answers, htold, hending⟩ := ih (U name c) remarks
    exact ⟨answers, htold, by rw [Script.ending?, hending, run]⟩
  | look name next ih =>
    intro c remarks
    obtain ⟨answers, htold, hending⟩ := ih (c.glimpse name) c (remarks ++ [.saw (c.glimpse name)])
    exact ⟨.saw (c.glimpse name) :: answers, by simpa [run] using htold, hending⟩

/-- The callbacks are about the event and the record given, have ended, and so many of them failed.
-/
structure Reported (b : Behaviour) (event : StoreEvent) (s : Store) (calls : List Callback)
    (failures : Nat) : Prop where
  about : ∀ k ∈ calls, k.event = event ∧ k.store = s
  ended : ∀ k ∈ calls, ∃ ending, k.ending? b = some ending
  failures : failures = calls.countP (Callback.failed b)

theorem Reported.append {event : StoreEvent} {s : Store} {calls₁ calls₂ : List Callback}
    {failures₁ failures₂ : Nat} (h₁ : Reported b event s calls₁ failures₁)
    (h₂ : Reported b event s calls₂ failures₂) :
    Reported b event s (calls₂ ++ calls₁) (failures₂ + failures₁) where
  about k hk := (List.mem_append.1 hk).elim (h₂.about k) (h₁.about k)
  ended k hk := (List.mem_append.1 hk).elim (h₂.ended k) (h₁.ended k)
  failures := by rw [List.countP_append, h₁.failures, h₂.failures]

/-- Making a callback leaves that callback in the journal. -/
theorem exists_callback (hU : ∀ name d, Tidy d (U name d)) (event : StoreEvent) (s : Store)
    (l : ListenerId) (hc : c.Moment) :
    (call U b event s l c).2.Moment ∧
      ∃ new k, (call U b event s l c).2.journal = new ++ c.journal ∧ Nested new ∧
        outermost c.journal [] new = [k] ∧ k.listener = l ∧
        Reported b event s [k] (if (call U b event s l c).1.isFailure then 1 else 0) := by
  have hbegun : (c.note (.called l event s ⟨c.stores, c.totalQuota⟩)).Moment := hc.callback trivial
  obtain ⟨hrun, inner, hjournal, hinner⟩ := steady_tidy.run hU (b c.journal l event s) _ [] hbegun
  obtain ⟨remarks, htold, hending⟩ := ending?_run U (b c.journal l event s)
    (c.note (.called l event s ⟨c.stores, c.totalQuota⟩)) []
  rw [List.nil_append] at htold
  refine ⟨hrun.callback trivial, .returned l event s remarks ::
    (inner ++ [.called l event s ⟨c.stores, c.totalQuota⟩]), ⟨l, event, s, c.journal, remarks⟩, ?_,
    .callback hinner .nil, outermost_callback hinner, rfl, ?_⟩
  · simpa [call, note] using And.intro htold hjournal
  · have hended : Callback.ending? b ⟨l, event, s, c.journal, remarks⟩ =
        some (call U b event s l c).1 := hending
    exact
      { about := by simp
        ended := by simpa using ⟨_, hended⟩
        failures := by simp [List.countP_cons, Callback.failed, hended] }

/-- **Going round listeners**: each is called once for each time it is listed, and nobody else. -/
theorem reported_callAll (hU : ∀ name d, Tidy d (U name d)) (event : StoreEvent) (s : Store)
    (ls : List ListenerId) : ∀ c : Cache, c.Moment →
    (callAll U b event s ls c).2.Moment ∧
      ∃ new, (callAll U b event s ls c).2.journal = new ++ c.journal ∧ Nested new ∧
        (outermost c.journal [] new).map Callback.listener = ls.reverse ∧
        Reported b event s (outermost c.journal [] new) (callAll U b event s ls c).1 := by
  induction ls with
  | nil => exact fun c hc ↦ ⟨hc, [], rfl, .nil, by simp, by simp, by simp, by simp [callAll]⟩
  | cons l ls ih =>
    intro c hc
    obtain ⟨hd, first, k, hjournal₁, hfirst, hk, hl, hreported₁⟩ :=
      exists_callback (b := b) hU event s l hc
    obtain ⟨he, others, hjournal₂, hothers, hlisteners, hreported₂⟩ := ih _ hd
    rw [hjournal₁] at hlisteners hreported₂
    have hcalls : outermost c.journal [] (others ++ first) =
        outermost (first ++ c.journal) [] others ++ [k] := by rw [outermost_append hothers, hk]
    refine ⟨he, others ++ first, ?_, hothers.append hfirst, ?_, ?_⟩
    · simp [callAll, hjournal₂, hjournal₁]
    · rw [hcalls, List.map_append, hlisteners, List.reverse_cons, List.map_singleton, hl]
    · have hfailures : (callAll U b event s (l :: ls) c).1 =
          (callAll U b event s ls (call U b event s l c).2).1 +
            if (call U b event s l c).1.isFailure then 1 else 0 := by
        simp only [callAll]
        split <;> rfl
      rw [hcalls, hfailures]
      exact hreported₁.append hreported₂

/-- **A notification that has been delivered**: in the journal that it leaves, the outermost
callbacks are one for each member that it found and none for anybody else, and it returns how many
of them failed. -/
def Delivered (b : Behaviour) (event : StoreEvent) (s : Store) (c : Cache) (r : Nat × Cache) :
    Prop :=
  ∃ new, r.2.journal = new ++ c.journal ∧ Nested new ∧
    (∀ l, ((outermost c.journal [] new).map Callback.listener).count l =
      if l ∈ c.members then 1 else 0) ∧
    Reported b event s (outermost c.journal [] new) r.1

theorem delivered_notifyWith (hU : ∀ name d, Tidy d (U name d)) (event : StoreEvent) (s : Store)
    (hc : c.Moment) : Delivered b event s c (notifyWith U b event s c) := by
  obtain ⟨-, new, hjournal, hnew, hlisteners, hreported⟩ :=
    reported_callAll (b := b) hU event s c.roster c hc
  refine ⟨new, hjournal, hnew, fun l ↦ ?_, hreported⟩
  -- This is where the roster has to be without repetition.
  rw [hlisteners, List.count_reverse, hc.nodup.count]
  simp [mem_members]

theorem tidy_notifyWith (hU : ∀ name d, Tidy d (U name d)) (event : StoreEvent) (s : Store)
    (c : Cache) : Tidy c (notifyWith U b event s c).2 := by
  intro hc
  obtain ⟨hd, new, hjournal, hnew, -⟩ := reported_callAll (b := b) hU event s c.roster c hc
  exact ⟨hd, new, hjournal, hnew⟩

/-! ### Calls -/

/-- **Whatever sequence of calls is made, at whatever depth, the work is tidy.** -/
theorem Calls.tidy (h : Calls b c d) : Tidy c d := by
  induction h with
  | none c => exact steady_tidy.refl c
  | register _ l ih => exact ih.trans (tidy_register _ l)
  | unregister _ l ih => exact ih.trans (tidy_unregister _ l)
  | notify _ _ event s ih ihU =>
    -- The callbacks' own calls are tidy where they are made, which is at a moment.
    exact ih.trans (tidy_notifyWith (fun name e he ↦ ihU name e he he) event s _)
  | aside _ he ih => exact ih.trans he.tidy

theorem Calls.moment (h : Calls b c d) (hc : c.Moment) : d.Moment := (h.tidy hc).1

/-- **Unsubscribing is a sequence of calls**, the notification and what it comes to. -/
theorem calls_remove (b : Behaviour) (name : String) (c : Cache) : Calls b c (c.remove b name) := by
  refine removeWithin_rel Calls.none (fun c name _ ↦ ?_) (fun U hU c name s _ ↦ ?_) _ name c
  · rw [reportForgotten_eq]
    exact (Calls.none c).aside ⟨rfl, .of_cons rfl id⟩
  · have htaken : c.Aside (c.takeOut name s) := by
      rw [takeOut_eq]
      exact ⟨rfl, [.forgotten name, .removed s], rfl, by simp [Entry.OfCallback]⟩
    exact (((Calls.none c).aside htaken).notify (fun name e _ ↦ hU name e) .deleted s).aside
      ⟨rfl, .of_eq rfl⟩

/-! ### Runs -/

theorem Plain.aside (h : c.Plain d) : c.Aside d where
  roster := h.roster
  wrote := h.wrote fun e he hcallback ↦ by cases e <;> first | exact he | exact hcallback

theorem Calls.trans {c d e : Cache} (h₁ : Calls b c d) (h₂ : Calls b d e) : Calls b c e := by
  induction h₂ with
  | none => exact h₁
  | register _ l ih => exact (ih h₁).register l
  | unregister _ l ih => exact (ih h₁).unregister l
  | notify _ hU event s ih _ => exact (ih h₁).notify hU event s
  | aside _ he ih => exact (ih h₁).aside he

theorem steady_calls : Steady (Calls b) where
  refl := .none
  trans := .trans
  register c l := (Calls.none c).register l
  unregister c l := (Calls.none c).unregister l

theorem calls_notify (b : Behaviour) (event : StoreEvent) (s : Store) (c : Cache) :
    Calls b c (c.notify b event s).2 :=
  (Calls.none c).notify (fun name e _ ↦ calls_remove b name e) event s

theorem aside_put (p : Placement) (s : Store) (c : Cache) : c.Aside (c.put p s) where
  roster := rfl
  wrote := ⟨[.installed (c.stores.get? s.name) s p], rfl, by simp [Entry.OfCallback]⟩

theorem calls_install (mode : Install) (p : Placement) (s : Store) (c : Cache) :
    Calls b c (c.install b mode p s).2 := by
  have hi := installation (b := b) mode p s c
  generalize c.install b mode p s = r at hi ⊢
  have hput : Calls b c (c.put p s.completed) := (Calls.none c).aside (aside_put p s.completed c)
  cases hi with
  | refused | passedOver => exact .none c
  | unchanged => exact hput
  | changed =>
    have hadded : ∀ delta, Calls b c ((c.put p s.completed).addQuota delta) :=
      fun _ ↦ hput.aside ⟨rfl, .of_eq rfl⟩
    exact (hadded _).trans (calls_notify b .changed s.completed _)

theorem calls_wipe (names : List String) (c : Cache) : Calls b c (c.wipe b names) := by
  have hall : Calls b c (c.removeAll b names) := by
    induction names generalizing c with
    | nil => exact .none c
    | cons name names ih => exact (calls_remove b name c).trans (ih _)
  exact hall.aside ⟨rfl, .of_eq rfl⟩

end Cache

/-- **A run is a sequence of calls**, with other work in between. -/
theorem calls_of_run (b : Behaviour) (w : World) (events : List Event) :
    Cache.Calls b w.cache (w.run b events).cache :=
  World.run_rel Cache.Calls.none .trans
    (fun h ↦ h.rel Cache.steady_calls (fun hd ↦ (Cache.Calls.none _).aside hd.aside)
      Cache.calls_install (Cache.calls_remove b) fun _ c _ ↦ Cache.calls_wipe _ c)
    w events

/-- A cache is at a moment between any two events of a run. -/
theorem moment_of_run (b : Behaviour) (tracks : Bool) (clock : Nat) (events : List Event) :
    ((World.new tracks clock).run b events).cache.Moment :=
  (calls_of_run b (World.new tracks clock) events).moment (.new tracks clock)

/-! ### Delivery -/

namespace Cache

/-- **The roster is a set, and every notification is delivered to the set that it found.** At every
moment, be it in the midst of any number of callbacks,

* the roster holds no listener twice, and has as many entries as there are members;
* registering and unregistering say whether the listener was missing or there, and change just that;
* any sequence of calls leads to such a moment again, whatever calls the callbacks in it make;
* a notification, whatever calls its callbacks make, calls each member once, with the event and the
  record, and nobody else, and returns how many of those callbacks failed or broke off. -/
theorem delivery_of_moment (b : Behaviour) (c : Cache) (hc : c.Moment) :
    c.roster.Nodup ∧ c.roster.length = c.members.card ∧
    (∀ l, ((c.register l).1 = true ↔ l ∉ c.members) ∧
      (c.register l).2.members = insert l c.members ∧
      ((c.unregister l).1 = true ↔ l ∈ c.members) ∧
      (c.unregister l).2.members = c.members.erase l) ∧
    (∀ d, Calls b c d → d.Moment) ∧
    (∀ U : String → Cache → Cache, (∀ name d, d.Moment → Calls b d (U name d)) →
      ∀ event s, Delivered b event s c (notifyWith U b event s c)) ∧
    ∀ event s, Delivered b event s c (c.notify b event s) := by
  have hdelivered : ∀ U : String → Cache → Cache, (∀ name d, d.Moment → Calls b d (U name d)) →
      ∀ event s, Delivered b event s c (notifyWith U b event s c) := fun U hU event s ↦
    delivered_notifyWith (fun name d hd ↦ (hU name d hd).tidy hd) event s hc
  refine ⟨hc.nodup, hc.length_roster, fun l ↦ ?_, fun d hd ↦ hd.moment hc, hdelivered,
    hdelivered _ fun name d _ ↦ calls_remove b name d⟩
  exact ⟨(c.register_members l).1, (c.register_members l).2, (c.unregister_members l).1,
    (c.unregister_members l).2⟩

end Cache

/-- Listeners that fail when they are told that a store has changed. The first brings another
listener in, sends the second away and has the store `users` announced before it does; the others
break off. -/
def Behaviour.relaying : Behaviour := fun _ l event _ ↦
  if event = .changed then
    if l = "first" then
      .register "third" fun _ ↦ .unregister "second" fun _ ↦
        .unsubscribe "users" (.finish .failed)
    else .finish .panicked
  else .finish .done

namespace Cache

/-- Announcing a new store, in the place of unsubscribing. -/
def announce (name : String) (c : Cache) : Cache :=
  (notifyWith (fun _ d ↦ d) .relaying .created (.new name) c).2

/-- A cache with two listeners. -/
def attended : Cache := (((new true 0).register "first").2.register "second").2

/-- What comes of telling them that the store `orders` has changed. -/
def relayed : Nat × Cache := notifyWith announce .relaying .changed (.new "orders") attended

/-- The second listener is told of the change although it has been sent away by then, and the third
is told of the new store only, since it came in too late for the change. -/
theorem delivery_of_relaying :
    attended.Moment ∧ (∀ name d, d.Moment → Calls .relaying d (announce name d)) ∧
      Delivered .relaying .changed (.new "orders") attended relayed ∧ relayed.1 = 2 ∧
      told "first" relayed.2.journal = [(.created, .new "users"), (.changed, .new "orders")] ∧
      told "second" relayed.2.journal = [(.changed, .new "orders")] ∧
      told "third" relayed.2.journal = [(.created, .new "users")] := by
  have hmoment : attended.Moment := ((Moment.new true 0).register "first").register "second"
  have hcalls : ∀ name d, d.Moment → Calls .relaying d (announce name d) := fun name d _ ↦
    (Calls.none d).notify (fun _ e _ ↦ .none e) .created (.new name)
  obtain ⟨-, -, -, -, hdelivered, -⟩ := delivery_of_moment .relaying attended hmoment
  exact ⟨hmoment, hcalls, hdelivered announce hcalls .changed (.new "orders"), by decide, by decide,
    by decide, by decide⟩

end Cache

end StoreCache
