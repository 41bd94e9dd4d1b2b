import StoreCache.Journal

/-!
# Listeners given by rules

The simplest way to say what a listener does: a list of rules, each with a condition on the event
and the store. On an event the rules that apply are followed in order, and the last of them that
says how the callback ends decides; without one it ends well.
-/

namespace StoreCache

/-- What a rule makes a listener do. -/
inductive Deed
  | fail
  | panic
  | register (l : ListenerId)
  | unregister (l : ListenerId)
  | unsubscribe (store : String)
  /-- Look at a store, by default the one the event is about. -/
  | look (store : Option String)
  deriving DecidableEq, Repr

/-- A rule for a listener. -/
structure Rule where
  /-- The event the rule is for; any if absent. -/
  event : Option StoreEvent
  /-- The store the rule is for; any if absent. -/
  store : Option String
  deed : Deed
  deriving DecidableEq, Repr

namespace Rule

/-- Whether the rule is for this event about this record. -/
def applies (r : Rule) (event : StoreEvent) (s : Store) : Bool :=
  r.event.all (· = event) && r.store.all (· = s.name)

/-- Follow deeds in order, with the ending they would have so far. -/
def follow (s : Store) : List Deed → Ending → Script
  | [], ending => .finish ending
  | .fail :: ds, _ => follow s ds .failed
  | .panic :: ds, _ => follow s ds .panicked
  | .register l :: ds, ending => .register l fun _ ↦ follow s ds ending
  | .unregister l :: ds, ending => .unregister l fun _ ↦ follow s ds ending
  | .unsubscribe name :: ds, ending => .unsubscribe name (follow s ds ending)
  | .look name :: ds, ending => .look (name.getD s.name) fun _ ↦ follow s ds ending

/-- What a listener with these rules does on an event. -/
def script (rules : List Rule) (event : StoreEvent) (s : Store) : Script :=
  follow s ((rules.filter fun r ↦ r.applies event s).map Rule.deed) .done

end Rule

/-- The behaviour of listeners given by rules; a listener without rules does nothing. -/
def Behaviour.ofRules (rules : List (ListenerId × List Rule)) : Behaviour :=
  fun _ l event s ↦ Rule.script ((rules.lookup l).getD []) event s

end StoreCache
