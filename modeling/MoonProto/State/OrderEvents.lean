import MoonProto.State.Orders

/-!
# Well-formed order events

Applications rebuild the set of live orders from the events. `presentAfter` is what the
events say about an id, and `WellFormed` that no event contradicts the earlier ones: an
order is created only when it is absent, and updated or removed only while it is present.
`Traced` ties this to the read model: the events tell exactly which orders it holds.
-/

namespace MoonProto

open List AList

namespace OrderEvent

/-- Is the order there behind the event? -/
def marks (uid : Nat) (present : Bool) : OrderEvent → Bool
  | .created order => if order.uid = uid then true else present
  | .removed order => if order.uid = uid then false else present
  | _ => present

end OrderEvent

/-- What the events say about an id, from an empty read model on. -/
def presentAfter (events : List OrderEvent) (uid : Nat) : Bool :=
  events.foldl (fun present event => event.marks uid present) false

namespace OrderEvent

/-- May the event follow the earlier ones? -/
def Fits (past : List OrderEvent) : OrderEvent → Prop
  | .created order => presentAfter past order.uid = false
  | .updated order => presentAfter past order.uid = true
  | .removed order => presentAfter past order.uid = true
  | _ => True

end OrderEvent

def WellFormed (events : List OrderEvent) : Prop :=
  ∀ past event, past ++ [event] <+: events → event.Fits past

/-- The events are well formed and tell which orders the read model holds. -/
structure Traced (events : List OrderEvent) (read : OrderMap Order) : Prop where
  wellFormed : WellFormed events
  present : ∀ uid, presentAfter events uid = (read.lookup uid).isSome

theorem presentAfter_snoc (events : List OrderEvent) (event : OrderEvent) (uid : Nat) :
    presentAfter (events ++ [event]) uid = event.marks uid (presentAfter events uid) := by
  unfold presentAfter
  rw [foldl_append]
  rfl

theorem WellFormed.snoc {events : List OrderEvent} {event : OrderEvent} (h : WellFormed events)
    (hfits : event.Fits events) : WellFormed (events ++ [event]) := by
  intro past e hpre
  rcases List.prefix_concat_iff.mp hpre with heq | hpre
  · obtain ⟨rfl, he⟩ := append_inj' heq rfl
    cases he
    exact hfits
  · exact h past e hpre

namespace OrderMap

variable {α : Type} {map : OrderMap α} {uid other : Nat} {a b : α}

theorem lookup_insert_some (h : (map.insert uid a).lookup other = some b) :
    (other = uid ∧ a = b) ∨ (other ≠ uid ∧ map.lookup other = some b) := by
  by_cases heq : other = uid
  · subst heq
    rw [lookup_insert] at h
    exact .inl ⟨rfl, Option.some.inj h⟩
  · rw [lookup_insert_ne heq] at h
    exact .inr ⟨heq, h⟩

theorem lookup_erase_some (h : (map.erase uid).lookup other = some b) :
    other ≠ uid ∧ map.lookup other = some b := by
  by_cases heq : other = uid
  · subst heq
    rw [lookup_erase] at h
    cases h
  · rw [lookup_erase_ne heq] at h
    exact ⟨heq, h⟩

theorem isSome_lookup_insert (map : OrderMap α) (uid other : Nat) (a : α) :
    ((map.insert uid a).lookup other).isSome =
      if uid = other then true else (map.lookup other).isSome := by
  by_cases heq : uid = other
  · subst heq
    rw [lookup_insert, if_pos rfl]
    rfl
  · rw [lookup_insert_ne (Ne.symm heq), if_neg heq]

theorem isSome_lookup_erase (map : OrderMap α) (uid other : Nat) :
    ((map.erase uid).lookup other).isSome =
      if uid = other then false else (map.lookup other).isSome := by
  by_cases heq : uid = other
  · subst heq
    rw [lookup_erase, if_pos rfl]
    rfl
  · rw [lookup_erase_ne (Ne.symm heq), if_neg heq]

end OrderMap

namespace Traced

variable {events : List OrderEvent} {read : OrderMap Order} {uid : Nat} {o o' : Order}

theorem congr {read' : OrderMap Order} (h : Traced events read)
    (hread : ∀ u, (read'.lookup u).isSome = (read.lookup u).isSome) : Traced events read' :=
  ⟨h.wellFormed, fun u => (h.present u).trans (hread u).symm⟩

theorem created (h : Traced events read) (habsent : read.lookup uid = none) (huid : o.uid = uid) :
    Traced (events ++ [.created o]) (read.insert uid o) := by
  refine ⟨h.wellFormed.snoc ?_, fun u => ?_⟩
  · change presentAfter events o.uid = false
    rw [huid, h.present, habsent]
    rfl
  · rw [presentAfter_snoc, OrderMap.isSome_lookup_insert, h.present, ← huid]
    rfl

theorem touched (h : Traced events read) (ho : read.lookup uid = some o) :
    Traced events (read.insert uid o') := by
  apply h.congr
  intro u
  rw [OrderMap.isSome_lookup_insert]
  split
  next heq =>
    rw [← heq, ho]
    rfl
  next => rfl

theorem updated (h : Traced events read) (ho : read.lookup o'.uid = some o) :
    Traced (events ++ [.updated o']) read := by
  refine ⟨h.wellFormed.snoc ?_, fun u => ?_⟩
  · change presentAfter events o'.uid = true
    rw [h.present, ho]
    rfl
  · rw [presentAfter_snoc]
    exact h.present u

theorem neutral (h : Traced events read) {event : OrderEvent} (hfits : ∀ past, event.Fits past)
    (hmarks : ∀ u b, event.marks u b = b) : Traced (events ++ [event]) read := by
  refine ⟨h.wellFormed.snoc (hfits events), fun u => ?_⟩
  rw [presentAfter_snoc, hmarks]
  exact h.present u

theorem removed (h : Traced events read) (ho : read.lookup uid = some o) (huid : o.uid = uid) :
    Traced (events ++ [.removed o]) (read.erase uid) := by
  refine ⟨h.wellFormed.snoc ?_, fun u => ?_⟩
  · change presentAfter events o.uid = true
    rw [huid, h.present, ho]
    rfl
  · rw [presentAfter_snoc, OrderMap.isSome_lookup_erase, h.present, ← huid]
    rfl

/-- Every order of a list of distinct orders is removed. -/
theorem wellFormed_removedAll : ∀ {orders : List Order} {events : List OrderEvent},
    WellFormed events → (∀ o ∈ orders, presentAfter events o.uid = true) →
    (orders.map Order.uid).Nodup →
    WellFormed (events ++ orders.map .removed) ∧
      ∀ u, presentAfter (events ++ orders.map .removed) u =
        (presentAfter events u && !(orders.map Order.uid).contains u)
  | [], events, h, _, _ => by
    rw [map_nil, append_nil]
    exact ⟨h, fun u => by simp⟩
  | o :: orders, events, h, hpresent, hnodup => by
    rw [map_cons, nodup_cons] at hnodup
    have hsnoc : WellFormed (events ++ [.removed o]) :=
      h.snoc (hpresent o mem_cons_self)
    have hothers : ∀ o' ∈ orders, presentAfter (events ++ [.removed o]) o'.uid = true := by
      intro o' ho'
      have hne : o.uid ≠ o'.uid := fun heq =>
        hnodup.1 (heq ▸ List.mem_map_of_mem ho')
      rw [presentAfter_snoc, OrderEvent.marks, if_neg hne]
      exact hpresent o' (mem_cons_of_mem o ho')
    obtain ⟨hwf, hlast⟩ := wellFormed_removedAll hsnoc hothers hnodup.2
    rw [map_cons, append_cons]
    refine ⟨hwf, fun u => ?_⟩
    rw [hlast, presentAfter_snoc, OrderEvent.marks, map_cons, contains_cons]
    by_cases heq : o.uid = u
    · simp [heq]
    · rw [if_neg heq, beq_false_of_ne (Ne.symm heq), Bool.false_or]

end Traced

end MoonProto
