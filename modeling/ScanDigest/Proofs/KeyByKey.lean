import Mathlib.Data.Set.Card
import ScanDigest.Event.Store

/-!
# Folds, tables and stores, key by key

What a batch comes to is proved one key at a time. A fold that changes its state under one key at a
step is, seen at a key, a fold over the steps of that key (`foldl_view`). A table lists each of its
keys once (`filter_toList`), so the events of a store are the stored event under each key, or none
(`Store.under_events`), in the order of the keys (`Store.ordered_events`). Putting many events
leaves the last one under each key (`Store.get?_puts`). The size of a store is the number of keys
that have an event (`Store.encard_keys`).
-/

set_option autoImplicit false

namespace ScanDigest

open Std

/-- If a step changes what is seen of a state only where it concerns it, what is seen after many
steps comes from those that concern it. -/
theorem foldl_view {σ τ α : Type} (view : σ → τ) (take : τ → α → τ) {step : σ → α → σ}
    {p : α → Bool} (h : ∀ s a, view (step s a) = if p a then take (view s) a else view s)
    (as : List α) (s : σ) : view (as.foldl step s) = (as.filter p).foldl take (view s) := by
  induction as generalizing s with
  | nil => rfl
  | cons a as ih =>
    rw [List.foldl_cons, ih, h, List.filter_cons]
    split <;> rfl

theorem compare_eq_lt_iff {s t : String} : compare s t = .lt ↔ s < t := compareOfLessAndEq_eq_lt

/-! ## Tables as lists -/

/-- What is listed in order is listed once. -/
theorem nodup_of_ordered {α : Type} [Ord α] [ReflOrd α] {as : List α}
    (h : as.Pairwise (compare · · = .lt)) : as.Nodup :=
  h.imp fun hlt heq => by
    rw [heq, ReflOrd.compare_self] at hlt
    cases hlt

theorem encard_of_nodup {α : Type} [DecidableEq α] {as : List α} (h : as.Nodup) :
    {a | a ∈ as}.encard = as.length := by
  rw [← List.toFinset_card_of_nodup h, ← Set.encard_coe_eq_coe_finsetCard, List.coe_toFinset]

section

variable {α β : Type} [Ord α] [TransOrd α]

theorem values_eq_map (m : ExtTreeMap α β) : m.values = m.toList.map Prod.snd := by
  have hfold : m.values = m.foldr (fun _ v vs => v :: vs) [] := by
    obtain ⟨⟨m⟩⟩ := m
    rfl
  rw [hfold, ExtTreeMap.foldr_eq_foldr_toList]
  induction m.toList with
  | nil => rfl
  | cons p ps ih => rw [List.foldr_cons, ih, List.map_cons]

variable [LawfulEqOrd α] [DecidableEq α]

/-- The entry of a key is the only one with it. -/
theorem filter_toList (m : ExtTreeMap α β) (k : α) :
    (m.toList.filter fun p => p.1 = k) = (m[k]?.map (k, ·)).toList := by
  have hd : (m.toList.filter fun p => p.1 = k).Pairwise fun a b => ¬compare a.1 b.1 = .eq :=
    m.distinct_keys_toList.filter _
  have hm : ∀ p, p ∈ m.toList.filter (fun p => p.1 = k) ↔ p.1 = k ∧ m[k]? = some p.2 := by
    intro p
    rw [List.mem_filter, decide_eq_true_iff, and_comm]
    refine and_congr_right fun hk => ?_
    rw [← hk, ← ExtTreeMap.mem_toList_iff_getElem?_eq_some]
  generalize (m.toList.filter fun p => p.1 = k) = ps at hd hm
  match ps with
  | [] =>
    cases hk : m[k]? with
    | none => rfl
    | some v => exact absurd ((hm (k, v)).2 ⟨rfl, hk⟩) List.not_mem_nil
  | [p] =>
    obtain ⟨rfl, hv⟩ := (hm p).1 List.mem_cons_self
    rw [hv]
    rfl
  | p :: q :: ps =>
    -- two entries with the key would have one key
    have hp := (hm p).1 List.mem_cons_self
    have hq := (hm q).1 (List.mem_cons_of_mem _ List.mem_cons_self)
    refine absurd ?_ ((List.pairwise_cons.1 hd).1 q List.mem_cons_self)
    rw [hp.1, hq.1, ReflOrd.compare_self]

end

/-! ## Stores -/

/-- The events with a key. -/
def Event.under (k : EventKey) (es : List Event) : List Event := es.filter fun e => e.key = k

theorem Event.under_filter (k : EventKey) (p : Event → Bool) (es : List Event) :
    under k (es.filter p) = (under k es).filter p := by
  simp only [under, List.filter_filter, Bool.and_comm]

/-- Keys in ascending order are different. -/
theorem nodup_keys_of_ordered {es : List Event}
    (h : es.Pairwise fun a b => compare a.key b.key = .lt) : (es.map Event.key).Nodup :=
  nodup_of_ordered (List.pairwise_map.2 h)

namespace Store

variable (s : Store)

theorem events_eq : s.events = s.table.toList.map Prod.snd := values_eq_map s.table

theorem mem_toList_key {p : EventKey × Event} (h : p ∈ s.table.toList) : p.2.key = p.1 :=
  s.keyed (ExtTreeMap.mem_toList_iff_getElem?_eq_some.1 h)

/-- The events are listed in ascending order of their keys. -/
theorem ordered_events : s.events.Pairwise fun a b => compare a.key b.key = .lt := by
  rw [events_eq, List.pairwise_map]
  refine s.table.ordered_keys_toList.imp_of_mem fun hp hq h => ?_
  rw [s.mem_toList_key hp, s.mem_toList_key hq]
  exact h

/-- What is listed under a key is what is stored under it. -/
theorem under_events (k : EventKey) : Event.under k s.events = (s.get? k).toList := by
  have hk : (s.table.toList.map Prod.snd).filter (fun e => e.key = k) =
      (s.table.toList.filter fun p => p.1 = k).map Prod.snd := by
    rw [List.filter_map]
    refine congrArg _ (List.filter_congr fun p hp => ?_)
    rw [Function.comp_apply, s.mem_toList_key hp]
  rw [Event.under, events_eq, hk, filter_toList, get?]
  cases s.table[k]? <;> rfl

/-- The events are those that are stored under their own keys. -/
theorem mem_events_iff {e : Event} : e ∈ s.events ↔ s.get? e.key = some e := by
  have hunder : e ∈ s.events ↔ e ∈ Event.under e.key s.events := by simp [Event.under]
  rw [hunder, s.under_events, Option.mem_toList]

/-- Events in the order of their keys are all events if they are those under their own keys. -/
theorem events_eq_of_ordered {es : List Event}
    (hes : es.Pairwise fun a b => compare a.key b.key = .lt)
    (h : ∀ e, s.get? e.key = some e ↔ e ∈ es) : s.events = es := by
  have hnodup : ∀ {es : List Event}, (es.map Event.key).Nodup → es.Nodup := fun h =>
    (List.pairwise_map.1 h).imp fun hne heq => hne (congrArg Event.key heq)
  refine List.Perm.eq_of_pairwise ?_ s.ordered_events hes ?_
  · intro a b _ _ hab hba
    rw [OrientedOrd.eq_swap, hab] at hba
    cases hba
  · refine (List.perm_ext_iff_of_nodup (hnodup (nodup_keys_of_ordered s.ordered_events))
      (hnodup (nodup_keys_of_ordered hes))).2 fun e => ?_
    rw [mem_events_iff, h]

theorem length_events : s.events.length = s.size := by
  rw [events_eq, List.length_map, ExtTreeMap.length_toList, size]

theorem encard_keys : {k | (s.get? k).isSome}.encard = s.size := by
  rw [size, ← ExtTreeMap.length_keys, ← encard_of_nodup ExtTreeMap.nodup_keys]
  congr 1
  ext k
  show (s.get? k).isSome ↔ k ∈ s.table.keys
  rw [ExtTreeMap.mem_keys, ← ExtTreeMap.isSome_getElem?_iff_mem]
  rfl

theorem size_put {e : Event} (h : s.get? e.key = none) : (s.put e).size = s.size + 1 := by
  have hnone : s.table.contains e.key = false := by
    rw [← has, has_eq, h]
    rfl
  rw [size, put, ExtTreeMap.size_insert, hnone]
  rfl

/-- Of many events that are put, the last one under a key stays. -/
theorem get?_puts (es : List Event) (k : EventKey) :
    (es.foldl put s).get? k = (Event.under k es).getLast?.or (s.get? k) := by
  induction es generalizing s with
  | nil => rfl
  | cons e es ih =>
    rw [List.foldl_cons, ih, get?_put, Event.under, Event.under, List.filter_cons]
    by_cases h : e.key = k
    · simp only [h, decide_true, if_true, List.getLast?_cons]
      cases (es.filter fun e => e.key = k).getLast? <;> rfl
    · simp only [h, decide_false, if_false, Bool.false_eq_true]

end Store

end ScanDigest
