import StoreCache.Catalog
import StoreCache.Proofs.Resume

/-!
# Published stores

A catalog publishes a store if it has a placement in force, a record and schemas of it, and if
questions about it do not fail. Such a store can be asked for everything, in any order. **The one
answer by which there seems to be no such store** is the one to a question for the record on another
cluster than the one the store is placed on (`Source.Publishes.refusal`).
-/

namespace StoreCache

/-- The catalog publishes the store `n`: it has a placement that is not being deleted, a record and
schemas of it, and questions about it do not fail. -/
structure Catalog.Publishes (c : Catalog) (n : String) : Prop where
  healthy : c.failures.get? n = none
  placed : ∃ p, c.placements.get? n = some p ∧ p.deleting = false
  recorded : ∃ s, c.stores.get? n = some s
  described : ∃ d, c.schemas.get? n = some d

/-- The source publishes the store `n`: it answers all questions about it, except that it has the
record only on the cluster where the store is placed. -/
structure Source.Publishes (source : Source) (n : String) : Prop where
  placed : ∃ p, source.placement n = .ok (some p) ∧ p.deleting = false ∧
    (∃ s, source.record n p.cluster = .ok s) ∧
    ∀ cluster, cluster ≠ p.cluster → source.record n cluster = .error (.notFound n)
  described : ∃ d, source.schemas n = .ok d

namespace Catalog

variable {c : Catalog} {n : String}

/-- A store that has just been published is. -/
theorem publishes_publish (s : Store) (cluster : String) (h : c.failures.get? s.name = none) :
    (c.publish s cluster).Publishes s.name where
  healthy := h
  placed := by
    refine ⟨.new s.name cluster, ?_, rfl⟩
    show (c.placements.insert s.name (.new s.name cluster)).get? s.name = _
    rw [Dict.get?_insert, if_pos rfl]
  recorded := by
    refine ⟨s, ?_⟩
    show (c.stores.insert s.name s).get? s.name = _
    rw [Dict.get?_insert, if_pos rfl]
  described := by
    show ∃ d, Dict.get? (if c.schemas.contains s.name then c.schemas
      else c.schemas.insert s.name (.new s.name)) s.name = some d
    split
    · rename_i hcontains
      exact Option.isSome_iff_exists.1 hcontains
    · exact ⟨.new s.name, by rw [Dict.get?_insert, if_pos rfl]⟩

/-- Moving a store to another cluster is no way to stop publishing it. -/
theorem Publishes.place (h : c.Publishes n) {p : Placement}
    (hp : p.store = n → p.deleting = false) : (c.place p).Publishes n where
  healthy := h.healthy
  placed := by
    show ∃ q, (c.placements.insert p.store p).get? n = some q ∧ q.deleting = false
    rw [Dict.get?_insert]
    split
    · rename_i hn
      exact ⟨p, rfl, hp hn.symm⟩
    · exact h.placed
  recorded := h.recorded
  described := h.described

/-- **What a catalog publishes its source publishes.** -/
theorem Publishes.source (h : c.Publishes n) : c.source.Publishes n := by
  obtain ⟨p, hp, hstays⟩ := h.placed
  obtain ⟨s, hs⟩ := h.recorded
  obtain ⟨d, hd⟩ := h.described
  have hanswer : ∀ {α : Type} (answer : Except FetchError α), c.unlessFailing n answer = answer :=
    fun answer ↦ by rw [unlessFailing, h.healthy]
  refine ⟨⟨p, ?_, hstays, ⟨s, ?_⟩, fun cluster hcluster ↦ ?_⟩, ⟨d, ?_⟩⟩
  · show c.unlessFailing n _ = _
    rw [hanswer, hp]
  · show c.unlessFailing n _ = _
    rw [hanswer, hp, hs]
    exact if_pos rfl
  · show c.unlessFailing n _ = _
    rw [hanswer, hp]
    exact if_neg fun h ↦ hcluster (Option.some.inj h).symm
  · show c.unlessFailing n _ = _
    rw [hanswer, hd]
    rfl

end Catalog

variable {n : String}

/-- A source that publishes a store gives no answer by which there is no such store, unless it is
asked for the record on another cluster than the store's. -/
theorem Source.Publishes.refusal {source : Source} (h : source.Publishes n) {stage : Stage}
    {err : CacheError} (hrefusal : source.refusal? n stage = some err)
    (herr : err.isNoSuchStore = true) :
    ∃ p q, stage = .record p ∧ source.placement n = .ok (some q) ∧ q.cluster ≠ p.cluster := by
  obtain ⟨q, hq, hstays, ⟨s, hs⟩, -⟩ := h.placed
  obtain ⟨data, hdata⟩ := h.described
  match stage with
  | .placement =>
    simp only [refusal?, hq, hstays, Bool.false_eq_true, if_false] at hrefusal
    cases hrefusal
  | .record p =>
    refine ⟨p, q, rfl, hq, fun hcluster ↦ ?_⟩
    simp only [refusal?, ← hcluster, hs] at hrefusal
    split at hrefusal
    · cases hrefusal
    · obtain rfl := Option.some.inj hrefusal
      cases herr
  | .schemas t =>
    simp only [refusal?, hdata] at hrefusal
    cases hrefusal

end StoreCache
