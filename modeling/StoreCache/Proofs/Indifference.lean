import StoreCache.Proofs.Chronicle

/-!
# Endings of callbacks

A callback ends well, or it reports an error, or it panics. **The ending makes no difference**: a
notification counts failed callbacks and goes on, and nothing that it calls or that calls it asks
for the count. Two runs whose listeners do the same and differ in the endings are therefore one and
the same run (`indifference_of_run`), with the same results, the same records, the same fetches and
the same callbacks in the same order, at whatever depth the endings differ.

It is enough to compare each behaviour with what is left of it when every ending is replaced by a
good one (`Behaviour.muted`). Only one definition looks at an ending, which is the count of a round
of callbacks, so the comparison is an induction over scripts and then one over the depth of
removals; everything above them is made of `remove` and `install`.
-/

namespace StoreCache

/-- The same deeds with a good end. -/
def Script.muted : Script → Script
  | .finish _ => .finish .done
  | .register l next => .register l fun changed ↦ (next changed).muted
  | .unregister l next => .unregister l fun changed ↦ (next changed).muted
  | .unsubscribe name next => .unsubscribe name next.muted
  | .look name next => .look name fun g ↦ (next g).muted

namespace Behaviour

/-- Listeners that do the same and whose callbacks all end well. -/
def muted (b : Behaviour) : Behaviour := fun journal l event s ↦ (b journal l event s).muted

/-- The listeners do the same, whatever has happened before; their callbacks may end otherwise. -/
def SameDeeds (b b' : Behaviour) : Prop := b.muted = b'.muted

end Behaviour

namespace Cache

variable (b : Behaviour) (unsubscribe : String → Cache → Cache)

theorem run_muted (script : Script) : ∀ (c : Cache) (remarks : List Remark),
    (run unsubscribe script.muted c remarks).2 = (run unsubscribe script c remarks).2 := by
  induction script with
  | finish ending => exact fun _ _ ↦ rfl
  | register l next ih => exact fun _ _ ↦ ih _ _ _
  | unregister l next ih => exact fun _ _ ↦ ih _ _ _
  | unsubscribe name next ih => exact fun _ _ ↦ ih _ _
  | look name next ih => exact fun _ _ ↦ ih _ _ _

/-- A callback leaves the same cache, and the entry that it has returned says what it was told and
not how it ended. -/
theorem call_muted (event : StoreEvent) (s : Store) (l : ListenerId) (c : Cache) :
    (call unsubscribe b.muted event s l c).2 = (call unsubscribe b event s l c).2 := by
  have hrun := run_muted unsubscribe (b c.journal l event s)
    (c.note (.called l event s ⟨c.stores, c.totalQuota⟩)) []
  simp only [call, Behaviour.muted, hrun]

theorem callAll_muted (event : StoreEvent) (s : Store) (ls : List ListenerId) : ∀ c : Cache,
    (callAll unsubscribe b.muted event s ls c).2 = (callAll unsubscribe b event s ls c).2 := by
  induction ls with
  | nil => exact fun _ ↦ rfl
  | cons l ls ih => exact fun c ↦ by simp only [callAll, call_muted, ih]

theorem removeWithin_muted (depth : Nat) : removeWithin b.muted depth = removeWithin b depth := by
  induction depth with
  | zero => rfl
  | succ depth ih =>
    funext name c
    simp only [removeWithin, notifyWith, ih, callAll_muted]

/-- **A removal does not depend on endings**, at any depth. -/
theorem remove_muted : remove b.muted = remove b := by
  funext name c
  rw [remove, remove, removeWithin_muted]

theorem removeAll_muted : removeAll b.muted = removeAll b := by
  funext names c
  rw [removeAll, removeAll, remove_muted]

theorem wipe_muted : wipe b.muted = wipe b := by
  funext names c
  rw [wipe, wipe, removeAll_muted]

/-- **Nor does an install.** -/
theorem install_muted : install b.muted = install b := by
  funext mode p s c
  simp only [install, notify, notifyWith, remove_muted, callAll_muted]

end Cache

variable (b : Behaviour)

theorem Refresh.resume_muted : Refresh.resume b.muted = Refresh.resume b := by
  funext mode name stage source c
  simp only [Refresh.resume, Refresh.recorded, Cache.install_muted]

theorem Sweep.resume_muted : Sweep.resume b.muted = Sweep.resume b := by
  funext s source c
  simp only [Sweep.resume, Sweep.settle, Refresh.resume_muted, Cache.remove_muted]

namespace World

theorem call_muted (w : World) (id : CallId) (op : Operation) :
    w.call b.muted id op = w.call b id op := by
  cases op <;> simp only [call, finishClear, Cache.remove_muted, Cache.wipe_muted]

theorem answer_muted (w : World) (id : CallId) (source : Source) (t : Task) :
    w.answer b.muted id source t = w.answer b id source t := by
  cases t <;> simp only [answer, Refresh.resume_muted, Sweep.resume_muted]

/-- **No step depends on endings.** -/
theorem step_muted (w : World) (e : Event) : w.step b.muted e = w.step b e := by
  cases e <;> simp only [step, finishClear, call_muted, answer_muted, Cache.wipe_muted,
    Sweep.resume_muted]

theorem run_muted (w : World) (events : List Event) : w.run b.muted events = w.run b events := by
  have hstep : step b.muted = step b := funext fun w ↦ funext fun e ↦ step_muted b w e
  rw [run, run, hstep]

end World

/-- **Endings make no difference.** Whatever happens, and from whatever world on, two runs whose
listeners do the same, and whose callbacks may end well, fail or panic as they like, at any depth,
come to the same world: the same results of all calls, the same records, placements, schema sets and
total, the same freshness, the same calls in flight, and the same journal of fetches, reports and
callbacks. -/
theorem indifference_of_run {b b' : Behaviour} (h : b.SameDeeds b') (w : World)
    (events : List Event) : w.run b events = w.run b' events := by
  rw [← World.run_muted b, h, World.run_muted]

/-- Listeners that unsubscribe a store when it changes, bring in a newcomer when one leaves, and end
as `endings` says. -/
def Behaviour.fickle (endings : ListenerId → StoreEvent → Ending) : Behaviour := fun _ l event s ↦
  if event = .changed then .unsubscribe s.name (.finish (endings l event))
  else .register "third" fun _ ↦ .finish (endings l event)

theorem sameDeeds_fickle (endings endings' : ListenerId → StoreEvent → Ending) :
    (Behaviour.fickle endings).SameDeeds (.fickle endings') := by
  funext _ l event s
  unfold Behaviour.muted Behaviour.fickle
  split <;> rfl

/-- The first listener panics inside the notification of a change, and inside that of the removal it
has asked for. The second is told of both all the same, as if nobody had failed. -/
theorem indifference_of_fickle :
    let calm := Behaviour.fickle fun _ _ ↦ .done
    let wild := Behaviour.fickle fun l _ ↦ if l = "first" then .panicked else .failed
    let w := World.new true 0
    let events := twoListeners ++ ordersComing
    calm.SameDeeds wild ∧ w.run calm events = w.run wild events ∧
      told "second" (w.run wild events).cache.journal =
        [(.changed, Store.new "orders"), (.deleted, Store.new "orders")] := by
  intro calm wild w events
  have hsame : calm.SameDeeds wild := sameDeeds_fickle _ _
  exact ⟨hsame, indifference_of_run hsame w events, by decide⟩

end StoreCache
