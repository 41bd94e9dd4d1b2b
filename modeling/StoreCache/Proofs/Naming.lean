import Mathlib.Logic.ExistsUnique
import StoreCache.Proofs.Resolving

/-!
# Names as a code

The name of a system store is a code for two things, the kind and the regular store, and **the code
can be undone**: kind and regular store are read off a name exactly as they were put into it
(`SystemStore.read_iff`). For that it is enough that no stem begins another one, since then no name
begins with two. The name behind the stem may be anything but empty, also the name of another system
store: reading takes off one stem and looks no further.

A name that is no code stands for itself. So names fall into two classes that have nothing in
common, and the cluster of a system store is looked up under the name of its regular store.
-/

namespace StoreCache

namespace SystemStore

variable {k k' : SystemStore} {s m m' : String}

/-- Behind the same stem, the same name makes the same rest. -/
theorem nameFor_injective (k : SystemStore) : Function.Injective k.nameFor := by
  intro m m' h
  have hbehind : k.behind? (k.nameFor m) = some m := behind?_eq_some_iff.2 rfl
  exact Option.some.inj (hbehind.symm.trans (behind?_eq_some_iff.2 h))

/-- **Reading undoes writing**: a name is read as a kind and a regular store exactly if it was
written from these, and the regular store has a name. -/
theorem read_iff : ofName? s = some k ∧ regularName s = m ↔ m ≠ "" ∧ s = k.nameFor m := by
  constructor
  · rintro ⟨hkind, hregular⟩
    obtain ⟨m', hm', rfl⟩ := ofName?_eq_some_iff.1 hkind
    obtain rfl : m' = m := (regularName_nameFor hm').symm.trans hregular
    exact ⟨hm', rfl⟩
  · rintro ⟨hm, rfl⟩
    exact ⟨ofName?_eq_some_iff.2 ⟨m, hm, rfl⟩, regularName_nameFor hm⟩

/-- What a name is read as is all that it can have been written from. -/
theorem existsUnique_of_ofName? (h : ofName? s = some k) :
    ∃! code : SystemStore × String, code.2 ≠ "" ∧ s = code.1.nameFor code.2 := by
  obtain ⟨hm, hs⟩ := read_iff.1 ⟨h, rfl⟩
  refine ⟨(k, regularName s), ⟨hm, hs⟩, fun ⟨k', m'⟩ ⟨hm', hs'⟩ ↦ ?_⟩
  obtain ⟨hk', hm'⟩ := read_iff.2 ⟨hm', hs'⟩
  exact Prod.ext (Option.some.inj (hk'.symm.trans h)) hm'.symm

/-- A name that is not read as a system store's stands for itself. -/
theorem regularName_of_ofName?_eq_none (h : ofName? s = none) : regularName s = s := by
  rw [regularName, h]

end SystemStore

open SystemStore

/-- **The names of system stores are an invertible code**:

* A name belongs to a kind exactly if it is the stem of that kind with a name behind it; there is
  then only one way to read it so, and the name behind the stem is the regular store. Any other name
  is its own regular store.
* The system store of any store, itself a system store or not, leads back to that store, and two
  system stores of one name are the same one of the same store.
* While a cache is started, the system store of any store is on the cluster in the placement that
  the cache has under the name of that store, and on none exactly if it has no such placement. -/
theorem coding_of_names :
    (∀ (s : String) (k : SystemStore),
      (ofName? s = some k ↔ ∃ m, m ≠ "" ∧ s = k.nameFor m) ∧
      (ofName? s = some k → ∃! code : SystemStore × String,
        code.2 ≠ "" ∧ s = code.1.nameFor code.2) ∧
      ∀ m, m ≠ "" → s = k.nameFor m → regularName s = m) ∧
    (∀ s : String, ofName? s = none → regularName s = s) ∧
    (∀ (k : SystemStore) (n : String), n ≠ "" → regularName (k.nameFor n) = n) ∧
    (∀ (k k' : SystemStore) (n n' : String), k.nameFor n = k'.nameFor n' → k = k' ∧ n = n') ∧
    ∀ (c : Cache) (k : SystemStore) (n : String), c.phase = .started → n ≠ "" →
      c.cluster? (k.nameFor n) = .ok ((c.placements.get? n).map Placement.cluster) ∧
      (c.cluster? (k.nameFor n) = .ok none ↔ c.placements.get? n = none) := by
  refine ⟨fun s k ↦ ⟨ofName?_eq_some_iff, existsUnique_of_ofName?, fun m hm hs ↦ ?_⟩,
    fun s ↦ regularName_of_ofName?_eq_none, fun k n ↦ regularName_nameFor, fun k k' n n' h ↦ ?_,
    fun c k n hphase hn ↦ ?_⟩
  · exact (read_iff.2 ⟨hm, hs⟩).2
  · obtain rfl := eq_of_nameFor_eq h
    exact ⟨rfl, nameFor_injective k h⟩
  · have hcluster := Cache.cluster?_of_started hphase (k.nameFor n)
    rw [regularName_nameFor hn] at hcluster
    exact ⟨hcluster, by rw [hcluster, Except.ok.injEq, Option.map_eq_none_iff]⟩

/-- The status store of the metadata store of `orders` leads back to that metadata store and is
where the metadata store is subscribed, although `orders` is somewhere else. -/
theorem coding_of_nested :
    let c := ((World.new true 0).run .silent bothSubscribed).cache
    let n := metadata.nameFor "orders"
    c.phase = .started ∧ n ≠ "" ∧ ofName? (pushStatus.nameFor n) = some .pushStatus ∧
      regularName (pushStatus.nameFor n) = n ∧ regularName n = "orders" ∧
      c.cluster? (pushStatus.nameFor n) = .ok (some "west") ∧ c.cluster? n = .ok (some "east") := by
  intro c n
  have hphase : c.phase = .started := by decide
  have hn : n ≠ "" := by decide
  obtain ⟨hread, -, hback, -, hcluster⟩ := coding_of_names
  have hkind := (hread (pushStatus.nameFor n) .pushStatus).1.2 ⟨n, hn, rfl⟩
  have hplacement : (c.placements.get? n).map Placement.cluster = some "west" := by decide
  have horders : (c.placements.get? "orders").map Placement.cluster = some "east" := by decide
  exact ⟨hphase, hn, hkind, hback _ n hn, hback _ "orders" (by decide),
    (hcluster c _ n hphase hn).1.trans (congrArg _ hplacement),
    (hcluster c _ "orders" hphase (by decide)).1.trans (congrArg _ horders)⟩

end StoreCache
