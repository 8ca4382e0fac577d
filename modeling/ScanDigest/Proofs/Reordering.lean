import Mathlib.Data.List.FinRange
import Mathlib.Logic.Equiv.Fin.Rotate
import ScanDigest.Proofs.ClosedForm

/-!
# Batches in another order

A `Reordering` of a list gives each element another place and keeps those in order that conflict.
Elements that all conflict with each other are in the same order before and after it
(`Reordering.filter_eq`).

Records conflict if they share a key. The board and the tracker of a batch are decided by the
records of each key (`policyBoard_ext`, `tracker_ext`), so batches with the same records of each key
come to reductions that differ in the places of record errors at most (`agrees_reduceWithin`), and
so do a batch and its reordering (`reduce_reordering`).
-/

set_option autoImplicit false

namespace ScanDigest

/-- A list with its elements in other places, where those that conflict keep their order. -/
structure Reordering {α : Type} (Conflict : α → α → Prop) (as bs : List α) where
  place : Fin as.length ≃ Fin bs.length
  same : ∀ i, bs[place i] = as[i]
  keeps : ∀ i j, i < j → Conflict as[i] as[j] → place i < place j

namespace Reordering

variable {α : Type} {Conflict : α → α → Prop} {as bs : List α}

/-- The places of some elements become the places of the same elements. -/
theorem places_perm (h : Reordering Conflict as bs) (p : α → Bool) :
    (((List.finRange as.length).filter fun i => p as[i]).map h.place).Perm
      ((List.finRange bs.length).filter fun j => p bs[j]) := by
  refine (List.perm_ext_iff_of_nodup ?_ ?_).2 fun j => ?_
  · exact ((List.nodup_finRange _).filter _).map h.place.injective
  · exact (List.nodup_finRange _).filter _
  · rw [List.mem_map, List.mem_filter]
    constructor
    · rintro ⟨i, hi, rfl⟩
      exact ⟨List.mem_finRange _, by rw [h.same]; exact (List.mem_filter.1 hi).2⟩
    · intro hj
      obtain ⟨i, rfl⟩ := h.place.surjective j
      refine ⟨i, List.mem_filter.2 ⟨List.mem_finRange _, ?_⟩, rfl⟩
      rw [← h.same]
      exact hj.2

theorem filter_eq_map (p : α → Bool) (as : List α) :
    as.filter p = ((List.finRange as.length).filter fun i => p as[i]).map fun i => as[i] := by
  conv_lhs => rw [← List.map_getElem_finRange as, List.filter_map]
  rfl

theorem map_places (h : Reordering Conflict as bs) (is : List (Fin as.length)) :
    (is.map h.place).map (fun j => bs[j]) = is.map fun i => as[i] := by
  rw [List.map_map]
  exact List.map_congr_left fun i _ => h.same i

theorem filter_perm (h : Reordering Conflict as bs) (p : α → Bool) :
    (as.filter p).Perm (bs.filter p) := by
  rw [filter_eq_map p as, filter_eq_map p bs, ← h.map_places]
  exact (h.places_perm p).map _

theorem perm (h : Reordering Conflict as bs) : as.Perm bs := by
  have hp := h.filter_perm fun _ => true
  rwa [List.filter_true, List.filter_true] at hp

/-- Elements that all conflict stay in order. -/
theorem filter_eq (h : Reordering Conflict as bs) {p : α → Bool}
    (hp : ∀ a b, p a → p b → Conflict a b) : as.filter p = bs.filter p := by
  have hplaces : ((List.finRange as.length).filter fun i => p as[i]).map h.place =
      (List.finRange bs.length).filter fun j => p bs[j] := by
    -- the same places, and both in ascending order
    refine (h.places_perm p).eq_of_pairwise (fun i j _ _ hij hji => absurd hij hji.asymm) ?_
      ((List.pairwise_lt_finRange _).filter _)
    rw [List.pairwise_map]
    refine ((List.pairwise_lt_finRange _).filter _).imp_of_mem fun hi hj hij => ?_
    exact h.keeps _ _ hij (hp _ _ (List.mem_filter.1 hi).2 (List.mem_filter.1 hj).2)
  rw [filter_eq_map p as, filter_eq_map p bs, ← hplaces, h.map_places]

end Reordering

/-! ## The keys of a record -/

namespace Record

/-- The keys that a record is about. -/
def keys : Record → List EventKey
  | policy _ n => n.rules.map n.key
  | delta d => [d.key]
  | other => []

/-- Two records share a key. -/
def Conflicts (r s : Record) : Prop := ∃ k ∈ r.keys, k ∈ s.keys

/-- A delta never conflicts with a policy record, not even of its own component. -/
theorem not_conflicts_policy_delta (action : PolicyAction) (n : PolicyNotice)
    (d : VulnerabilityDelta) : ¬Conflicts (.policy action n) (.delta d) := by
  rintro ⟨k, hk, hd⟩
  obtain ⟨rule, -, rfl⟩ := List.mem_map.1 hk
  exact EventKey.ofRule_ne_ofVulnerabilities _ _ _ _ _ (List.mem_singleton.1 hd)

/-- The records of a key. -/
def withKey (k : EventKey) (rs : List Record) : List Record := rs.filter fun r => k ∈ r.keys

theorem withKey_cons (k : EventKey) (r : Record) (rs : List Record) :
    withKey k (r :: rs) = if k ∈ r.keys then r :: withKey k rs else withKey k rs := by
  simp only [withKey, List.filter_cons, decide_eq_true_eq]

theorem withKey_eq_of_reordering {rs ss : List Record} (h : Reordering Conflicts rs ss)
    (k : EventKey) : withKey k rs = withKey k ss :=
  h.filter_eq fun _ _ hr hs => ⟨k, of_decide_eq_true hr, of_decide_eq_true hs⟩

theorem withKey_applied (w : Window) (k : EventKey) (rs : List Record) :
    withKey k (appliedRecords w rs) = appliedRecords w (withKey k rs) := List.filter_comm ..

theorem key_mem_keys_of_mention {r : Record} {m : Mention} (h : m ∈ r.mentions) :
    m.key ∈ r.keys := by
  cases r with
  | policy action n =>
    obtain ⟨rule, hrule, rfl⟩ := List.mem_map.1 h
    exact List.mem_map.2 ⟨rule, hrule, rfl⟩
  | delta d => cases h
  | other => cases h

theorem key_mem_keys_of_delta {r : Record} {d : VulnerabilityDelta} (h : d ∈ r.delta?.toList) :
    d.key ∈ r.keys := by
  cases r with
  | policy action n => cases h
  | delta e =>
    obtain rfl := List.mem_singleton.1 h
    exact List.mem_singleton.2 rfl
  | other => cases h

/-- What records say of a key is said by those with the key. -/
theorem filter_flatMap_withKey {β : Type} {key : β → EventKey} {f : Record → List β}
    (hf : ∀ r, ∀ b ∈ f r, key b ∈ r.keys) (k : EventKey) (rs : List Record) :
    ((withKey k rs).flatMap f).filter (fun b => key b = k) =
      (rs.flatMap f).filter fun b => key b = k := by
  induction rs with
  | nil => rfl
  | cons r rs ih =>
    rw [withKey_cons, List.flatMap_cons, List.filter_append, ← ih]
    split
    · rw [List.flatMap_cons, List.filter_append]
    · rename_i hk
      have hnil : (f r).filter (fun b => key b = k) = [] := by
        refine List.filter_eq_nil_iff.2 fun b hb he => hk ?_
        rw [← of_decide_eq_true he]
        exact hf r b hb
      rw [hnil, List.nil_append]

end Record

theorem mentionsOf_withKey (k : EventKey) (rs : List Record) :
    mentionsOf k (Record.withKey k rs) = mentionsOf k rs :=
  Record.filter_flatMap_withKey (fun _ _ => Record.key_mem_keys_of_mention) k rs

theorem deltasOf_withKey (k : EventKey) (rs : List Record) :
    deltasOf k (Record.withKey k rs) = deltasOf k rs := by
  simp only [deltasOf, List.filterMap_eq_flatMap_toList]
  exact Record.filter_flatMap_withKey (fun _ _ => Record.key_mem_keys_of_delta) k rs

/-! ## Reductions -/

theorem policyBoard_ext {rs ss : List Record}
    (h : ∀ k, Record.withKey k rs = Record.withKey k ss) : policyBoard rs = policyBoard ss := by
  refine PolicyBoard.ext_standing fun k => ?_
  rw [standing_policyBoard, standing_policyBoard, ← mentionsOf_withKey, h, mentionsOf_withKey]

theorem tracker_ext {rs ss : List Record}
    (h : ∀ k, Record.withKey k rs = Record.withKey k ss) : tracker rs = tracker ss := by
  have ht : (tracker rs).tracked = (tracker ss).tracked := by
    refine Std.ExtTreeMap.ext_getElem? fun {k} => ?_
    rw [Tracker.tracked_tracker, Tracker.tracked_tracker, ← deltasOf_withKey, h, deltasOf_withKey]
  exact congrArg Tracker.mk ht

/-- The kind and the reason of a record error, without its place. -/
def RecordError.complaint (e : RecordError) : String × String := (e.kind, e.reason)

/-- What is said of a record that is malformed. -/
def Record.complaint? (w : Window) (r : Record) : Option (String × String) :=
  match r.verdict w with
  | .malformed d => some (r.kind, d.message)
  | _ => none

theorem complaint_recordError? (w : Window) (p : Record × Nat) :
    (recordError? w p).map RecordError.complaint = p.1.complaint? w := by
  unfold recordError? Record.complaint?
  cases p.1.verdict w <;> rfl

theorem complaints_reduceWithin (w : Window) (lookup : Lookup) (c : Config) (rs : List Record) :
    (reduceWithin w lookup c rs).outcome.recordErrors.map RecordError.complaint =
      rs.filterMap (Record.complaint? w) := by
  show (rs.zipIdx.filterMap (recordError? w)).map RecordError.complaint = _
  rw [List.map_filterMap]
  simp only [complaint_recordError?]
  rw [← Function.comp_def, ← List.filterMap_map, List.zipIdx_map_fst]

/-- Two reductions that differ at most in the places of their record errors. -/
structure Reduction.Agrees (r s : Reduction) : Prop where
  events : r.outcome.events = s.outcome.events
  lookupFailures : r.outcome.lookupFailures = s.outcome.lookupFailures
  stats : r.outcome.stats = s.outcome.stats
  asked : r.asked = s.asked
  recordErrors : (r.outcome.recordErrors.map RecordError.complaint).Perm
    (s.outcome.recordErrors.map RecordError.complaint)

/-- What is published is decided by the records of each key that apply. -/
theorem publication_ext {w : Window} {rs ss : List Record} (lookup : Lookup) (c : Config)
    (h : ∀ k, Record.withKey k (appliedRecords w rs) = Record.withKey k (appliedRecords w ss)) :
    publication w lookup c rs = publication w lookup c ss := by
  rw [publication, publication, policyBoard_ext h, tracker_ext h]

/-- A batch in another order comes to the same, if of each key the same records apply in order. -/
theorem agrees_reduceWithin {w : Window} {rs ss : List Record} (lookup : Lookup) (c : Config)
    (hperm : rs.Perm ss)
    (h : ∀ k, Record.withKey k (appliedRecords w rs) = Record.withKey k (appliedRecords w ss)) :
    (reduceWithin w lookup c rs).Agrees (reduceWithin w lookup c ss) := by
  have hpublication := publication_ext lookup c h
  have htracker := tracker_ext h
  have hlength : (appliedRecords w rs).length = (appliedRecords w ss).length :=
    (hperm.filter _).length_eq
  constructor
  case events => rw [events_reduceWithin, events_reduceWithin, hpublication]
  case lookupFailures =>
    rw [lookupFailures_reduceWithin, lookupFailures_reduceWithin, hpublication]
  case stats =>
    simp only [reduceWithin, hpublication, htracker, hlength, hperm.length_eq, hperm.countP_eq]
  case asked => simp only [reduceWithin, hpublication]
  case recordErrors =>
    rw [complaints_reduceWithin, complaints_reduceWithin]
    exact hperm.filterMap _

/-- A batch comes to the same in another order, if records that share a key keep theirs. Only the
places of record errors change. -/
theorem reduce_reordering {c : Config} {w : Window} (hw : c.window = .ok w) (lookup : Lookup)
    {rs ss : List Record} (h : Reordering Record.Conflicts rs ss) :
    ∃ r s, reduce lookup c rs = .ok r ∧ reduce lookup c ss = .ok s ∧ r.Agrees s := by
  have happlied : ∀ k, Record.withKey k (appliedRecords w rs) =
      Record.withKey k (appliedRecords w ss) := by
    intro k
    rw [Record.withKey_applied, Record.withKey_applied, Record.withKey_eq_of_reordering h]
  exact ⟨_, _, reduce_of_valid lookup rs hw, reduce_of_valid lookup ss hw,
    agrees_reduceWithin lookup c h.perm happlied⟩

/-- A delta moves to before the policy records of its component. -/
theorem reduce_reordering_delta_first :
    let c : Component := ⟨"p", "1", "c", "2", "/pv/1", "/cv/1"⟩
    let n : PolicyNotice := ⟨"2026-02-10T00:00:00Z", c, [⟨"A", "/r"⟩, ⟨"B", "/r"⟩]⟩
    let d : VulnerabilityDelta := ⟨"2026-02-10T00:00:00Z", c, [⟨"NVD", "A"⟩], [], []⟩
    let rs : List Record := [.policy .violate n, .policy .clear n, .delta d]
    let ss : List Record := [.delta d, .policy .violate n, .policy .clear n]
    let lookup : Lookup := fun _ => .ok ⟨[]⟩
    Config.default.window = .ok .all ∧
    Nonempty (Reordering Record.Conflicts rs ss) ∧
    ∃ r s, reduce lookup .default rs = .ok r ∧ reduce lookup .default ss = .ok s ∧ r.Agrees s := by
  intro c n d rs ss lookup
  have hw : Config.default.window = .ok .all := by decide
  have hlt : ∀ i j : Fin 3, i < j → i = 0 ∧ j = 1 ∨ i = 0 ∧ j = 2 ∨ i = 1 ∧ j = 2 := by decide
  have h : Reordering Record.Conflicts rs ss :=
    { place := finRotate 3
      same := by decide
      keeps := by
        intro i j hij hc
        rcases hlt i j hij with ⟨rfl, rfl⟩ | ⟨rfl, rfl⟩ | ⟨rfl, rfl⟩
        · decide
        · exact absurd hc (Record.not_conflicts_policy_delta .violate n d)
        · exact absurd hc (Record.not_conflicts_policy_delta .clear n d) }
  exact ⟨hw, ⟨h⟩, reduce_reordering hw lookup h⟩

end ScanDigest
