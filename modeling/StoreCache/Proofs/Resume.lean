import StoreCache.Proofs.Cascade
import StoreCache.Refresh

/-!
# What comes of an answer

A refresh is resumed at three stages, and at each of them there are answers that end it. `Resumed`
says **once what can come of an answer**, and whoever wants to know something about a refresh looks
there and not into the stages.

What an answer says by itself is kept apart from what the cache makes of it: `Source.refusal?` is
the refusal, if any, in the answer to the question that is open at a stage. A refresh that the
answer does not end may still be refused by the cache, because it cannot be used or because the
store has gone.
-/

namespace StoreCache

/-- The refusal in a source's answer to the question that a refresh of a store has open. -/
def Source.refusal? (source : Source) (name : String) : Stage → Option CacheError
  | .placement =>
    match source.placement name with
    | .error e => some (.ofFetch name e)
    | .ok none => some (.noSuchStore name none)
    | .ok (some p) =>
      if p.deleting then
        some (.noSuchStore name (some (.notFound (name ++ " is being deleted"))))
      else none
  | .record p =>
    match source.record name p.cluster with
    | .error e => some (.ofFetch name e)
    | .ok s =>
      if s.name = name then none
      else some (.fetchFailed name
        (.unreadable ("requested store " ++ name ++ " but received " ++ s.name)))
  | .schemas _ =>
    match source.schemas name with
    | .error e => some (.ofFetch name e)
    | .ok _ => none

namespace Refresh

variable {b : Behaviour} {mode : Cache.Install} {name : String} {source : Source} {c : Cache}

/-- **What can come of an answer** to a refresh that waits at a stage. -/
inductive Resumed (b : Behaviour) (mode : Cache.Install) (name : String) (source : Source)
    (c : Cache) : Stage → Progress × Cache → Prop
  /-- The answer is a refusal. -/
  | refused {stage : Stage} {err : CacheError} (hrefusal : source.refusal? name stage = some err) :
    Resumed b mode name source c stage (.ended (.error err), c)
  /-- The cache cannot be used. -/
  | unusable {stage : Stage} {err : CacheError} (husable : c.phase.usable = .error err) :
    Resumed b mode name source c stage (.ended (.error err), c)
  /-- The placement has come. -/
  | placed {p : Placement} (hp : source.placement name = .ok (some p))
    (hstays : p.deleting = false) :
    Resumed b mode name source c .placement
      (.waiting (.record p), c.ask (.record name p.cluster))
  /-- The record of a store has come that is not subscribed and may not be brought in. -/
  | passedOver {p : Placement} (hmode : mode = .replace) (hout : c.stores.get? name = none) :
    Resumed b mode name source c (.record p) (.ended (.ok none), c)
  /-- The record has come and is in the cache. -/
  | installed {p : Placement} {s t : Store} {d : Cache}
    (hs : source.record name p.cluster = .ok s) (hname : s.name = name)
    (hinstall : c.install b mode p s = (.ok (some t), d)) (hin : d.stores.get? name ≠ none) :
    Resumed b mode name source c (.record p) (.waiting (.schemas t), d.ask (.schemas name))
  /-- The record has come, and a listener has unsubscribed the store as it was installed. -/
  | lost {p : Placement} {s t : Store} {d : Cache}
    (hs : source.record name p.cluster = .ok s) (hname : s.name = name)
    (hinstall : c.install b mode p s = (.ok (some t), d)) (hout : d.stores.get? name = none) :
    Resumed b mode name source c (.record p) (.ended (.error (.noSuchStore name none)), d)
  /-- The schemas of a store have come that is not subscribed any more. -/
  | absent {s : Store} (hout : c.stores.get? name = none) :
    Resumed b mode name source c (.schemas s) (.ended (.error (.noSuchStore name none)), c)
  /-- The schemas have come and are in the cache. -/
  | done {s : Store} {data : SchemaSet} (hdata : source.schemas name = .ok data)
    (hphase : c.phase = .started) (hin : c.stores.get? name ≠ none) :
    Resumed b mode name source c (.schemas s)
      (.ended (.ok (some s)), (c.file name data).2.reportRefreshed name)

theorem resumed_placement :
    Resumed b mode name source c .placement (placed name (source.placement name) c) := by
  rcases hp : source.placement name with e | - | p
  · exact .refused (by simp only [Source.refusal?, hp])
  · exact .refused (by simp only [Source.refusal?, hp])
  · simp only [placed]
    split
    · rename_i hdeleting
      exact .refused (by simp only [Source.refusal?, hp, hdeleting, if_true])
    · rename_i hstays
      exact .placed hp (by simpa using hstays)

theorem resumed_record (p : Placement) :
    Resumed b mode name source c (.record p)
      (recorded b mode name p (source.record name p.cluster) c) := by
  rcases hs : source.record name p.cluster with e | s
  · exact .refused (by simp only [Source.refusal?, hs])
  · simp only [recorded]
    split
    · rename_i hname
      have hi := Cache.installation (b := b) mode p s c
      rcases hinstall : c.install b mode p s with ⟨err | _ | t, d⟩ <;> rw [hinstall] at hi
      · cases hi with
        | refused _ husable => exact .unusable husable
      · cases hi with
        | passedOver _ hout hmode => exact .passedOver hmode (hname ▸ hout)
      · show Resumed b mode name source c _ (askSchemas name t d)
        unfold askSchemas
        split
        · rename_i hin
          exact .installed hs hname hinstall (Option.isSome_iff_ne_none.1 hin)
        · rename_i hout
          exact .lost hs hname hinstall (by simpa [Dict.contains] using hout)
    · rename_i hname
      exact .refused (by simp only [Source.refusal?, hs, hname, if_false])

theorem resumed_schemas (s : Store) :
    Resumed b mode name source c (.schemas s) (finished name s (source.schemas name) c) := by
  rcases hdata : source.schemas name with e | data
  · exact .refused (by simp only [Source.refusal?, hdata])
  · have hf := Cache.filing name data c
    simp only [finished, fileSchemas]
    rcases hfile : c.file name data with ⟨err | _, d⟩ <;> rw [hfile] at hf
    · cases hf with
      | refused _ husable => exact .unusable husable
      | absent _ hout => exact .absent hout
    · have hdone : d = (c.file name data).2 := by rw [hfile]
      cases hf with
      | filed hphase hin =>
        show Resumed b mode name source c _ (.ended (.ok (some s)), Cache.reportRefreshed _ name)
        rw [hdone]
        exact .done hdata hphase (hin ▸ Option.some_ne_none _)

theorem resumed (b : Behaviour) (mode : Cache.Install) (name : String) (stage : Stage)
    (source : Source) (c : Cache) :
    Resumed b mode name source c stage (resume b mode name stage source c) := by
  match stage with
  | .placement => exact resumed_placement
  | .record p => exact resumed_record p
  | .schemas s => exact resumed_schemas s

/-- A refresh that waits for the schemas has found its store subscribed. -/
theorem waiting_schemas {stage : Stage} {s : Store}
    (h : (resume b mode name stage source c).1 = .waiting (.schemas s)) :
    (resume b mode name stage source c).2.stores.get? name ≠ none := by
  have hresumed := resumed b mode name stage source c
  generalize resume b mode name stage source c = next at h hresumed ⊢
  cases hresumed with
  | installed _ _ _ hin => exact hin
  | refused | unusable | placed | passedOver | lost | absent | done => cases h

/-- Only the refresh of a sweep may find that its store is not subscribed and leave it at that. -/
theorem ended_none {stage : Stage}
    (h : (resume b mode name stage source c).1 = .ended (.ok none)) : mode = .replace := by
  have hresumed := resumed b mode name stage source c
  generalize resume b mode name stage source c = next at h hresumed
  cases hresumed with
  | passedOver hmode => exact hmode
  | refused | unusable | placed | installed | lost | absent | done => cases h

end Refresh

end StoreCache
