import Mathlib.Data.List.Induction
import ScanDigest.Digest.Reduction
import ScanDigest.Proofs.KeyByKey
import ScanDigest.Proofs.NetChange

/-!
# Tracking and publishing, key by key

A tracker holds for a key the aggregate of the deltas of that key, with the component of the last
one (`Tracker.tracked_tracker`). Publishing turns each net change that is not empty into an event
(`Tracked.event?`) or a failure (`Tracked.failure?`), by what the memo answers for the URL: an answer
that it keeps or that of the service (`Memo.answer`), and asking changes no answer. So a key gets the
event or the failure of its own net change, and nothing else is done to it
(`Tracker.get?_publishOnto`, `Tracker.failures_publish`).
-/

set_option autoImplicit false

namespace ScanDigest

open Std

/-! ## Memos -/

namespace Memo

variable (lookup : Lookup) (m : Memo)

/-- The answer for a URL: the one that is kept, or else that of the service. -/
def answer (url : String) : Except Failure ComponentVulnerabilities :=
  (m.answers.lookup url).getD (lookup url)

@[simp] theorem answer_empty : (∅ : Memo).answer lookup = lookup := rfl

/-- An answer that is kept is passed on, and nothing is asked. -/
theorem resolve_of_kept {url : String} {answer : Except Failure ComponentVulnerabilities}
    (h : m.answers.lookup url = some answer) : m.resolve lookup url = (passOn url answer, m) := by
  simp only [resolve, resolveM, h, Id.run_pure]

/-- Where no answer is kept, the service is asked, once. -/
theorem resolve_of_new {url : String} (h : m.answers.lookup url = none) : m.resolve lookup url =
    (passOn url (lookup url), ⟨(url, lookup url) :: m.answers, m.calls + 1⟩) := by
  simp only [resolve, resolveM, h, pure_bind, Id.run_pure]

/-- A memo passes on its answer, and keeps all answers as they are. -/
theorem resolve_eq (url : String) :
    ∃ m' : Memo, m.resolve lookup url = (passOn url (m.answer lookup url), m') ∧
      m'.answer lookup = m.answer lookup := by
  cases hl : m.answers.lookup url with
  | some answer => exact ⟨m, by rw [resolve_of_kept lookup m hl, Memo.answer, hl]; rfl, rfl⟩
  | none =>
    refine ⟨_, by rw [resolve_of_new lookup m hl, Memo.answer, hl]; rfl, funext fun url' => ?_⟩
    simp only [answer, List.lookup_cons]
    by_cases h : url' = url
    · subst h
      simp [hl]
    · simp [beq_eq_false_iff_ne.2 h]

end Memo

/-! ## Publishing -/

namespace Tracked

/-- The event of a net change, if the service answers. -/
def event? (lookup : Lookup) (p : EventKey × Tracked) : Option Event :=
  match lookup p.2.component.versionUrl with
  | .ok info => some (p.2.event p.1 info)
  | .error _ => none

/-- The failure of a net change, if the service does not answer. -/
def failure? (lookup : Lookup) (p : EventKey × Tracked) : Option LookupFailure :=
  match lookup p.2.component.versionUrl with
  | .ok _ => none
  | .error e =>
    some ⟨p.1, p.2.component.versionUrl,
      (Failure.lookupFailed p.2.component.versionUrl e.message).message⟩

/-- Where the service answers, there is an event. -/
theorem published_of_ok {lookup : Lookup} {p : EventKey × Tracked}
    {info : ComponentVulnerabilities} (h : lookup p.2.component.versionUrl = .ok info) :
    event? lookup p = some (p.2.event p.1 info) ∧ failure? lookup p = none := by
  simp only [event?, failure?, h, and_self]

/-- Where it does not, there is a failure. -/
theorem published_of_error {lookup : Lookup} {p : EventKey × Tracked} {e : Failure}
    (h : lookup p.2.component.versionUrl = .error e) :
    event? lookup p = none ∧ failure? lookup p = some ⟨p.1, p.2.component.versionUrl,
      (Failure.lookupFailed p.2.component.versionUrl e.message).message⟩ := by
  simp only [event?, failure?, h, and_self]

theorem key_event? {lookup : Lookup} {p : EventKey × Tracked} {e : Event}
    (h : event? lookup p = some e) : e.key = p.1 := by
  unfold event? at h
  split at h
  · cases h; rfl
  · cases h

theorem category_event? {lookup : Lookup} {p : EventKey × Tracked} {e : Event}
    (h : event? lookup p = some e) : e.category = .vulnerability := by
  unfold event? at h
  split at h
  · cases h; rfl
  · cases h

theorem key_failure? {lookup : Lookup} {p : EventKey × Tracked} {f : LookupFailure}
    (h : failure? lookup p = some f) : f.key = p.1 := by
  unfold failure? at h
  split at h
  · cases h
  · cases h; rfl

end Tracked

namespace Tracker

variable (lookup : Lookup)

theorem publishKey_eq (p : Progress) (kt : EventKey × Tracked) :
    ∃ m : Memo, m.answer lookup = p.memo.answer lookup ∧ publishKey lookup p kt =
      ⟨(Tracked.event? (p.memo.answer lookup) kt).toList.foldl Store.put p.store, m,
        (Tracked.failure? (p.memo.answer lookup) kt).toList ++ p.failures⟩ := by
  obtain ⟨k, t⟩ := kt
  obtain ⟨m, hm, hanswer⟩ := p.memo.resolve_eq lookup t.component.versionUrl
  refine ⟨m, hanswer, ?_⟩
  simp only [publishKey, hm, Tracked.event?, Tracked.failure?]
  cases p.memo.answer lookup t.component.versionUrl <;> rfl

/-- What publishing comes to: the events are put one after the other, and the failures noted. -/
theorem publishKeys_eq (l : List (EventKey × Tracked)) (p : Progress) :
    let q := l.foldl (publishKey lookup) p
    q.store = (l.filterMap (Tracked.event? (p.memo.answer lookup))).foldl Store.put p.store ∧
    q.failures.reverse =
      p.failures.reverse ++ l.filterMap (Tracked.failure? (p.memo.answer lookup)) := by
  induction l generalizing p with
  | nil => exact ⟨rfl, (List.append_nil _).symm⟩
  | cons kt l ih =>
    obtain ⟨m, hm, hp⟩ := publishKey_eq lookup p kt
    obtain ⟨hs, hf⟩ := ih (publishKey lookup p kt)
    rw [List.foldl_cons]
    refine ⟨hs.trans ?_, hf.trans ?_⟩
    · rw [hp, hm, List.filterMap_cons]
      cases Tracked.event? (p.memo.answer lookup) kt <;> rfl
    · rw [hp, hm, List.filterMap_cons]
      cases Tracked.failure? (p.memo.answer lookup) kt <;> simp

/-- What is to be published under a key. -/
def changed? (t : Tracker) (k : EventKey) : Option Tracked :=
  t.tracked[k]?.filter fun x => !x.net.isEmpty

theorem filter_changed (t : Tracker) (k : EventKey) :
    (t.changed.filter fun p => p.1 = k) = ((t.changed? k).map (k, ·)).toList := by
  rw [changed, List.filter_comm, filter_toList, changed?]
  cases t.tracked[k]? with
  | none => rfl
  | some x => cases hx : x.net.isEmpty <;> simp [hx, Option.filter_some]

/-- What comes of the changes under a key is what comes of the change under it. -/
theorem filter_filterMap_changed {β : Type} (t : Tracker) (k : EventKey) (key : β → EventKey)
    (f : EventKey × Tracked → Option β) (hf : ∀ p b, f p = some b → key b = p.1) :
    ((t.changed.filterMap f).filter fun b => key b = k) =
      ((t.changed? k).bind fun x => f (k, x)).toList := by
  have hk : ((t.changed.filterMap f).filter fun b => key b = k) =
      (t.changed.filter fun p => p.1 = k).filterMap f := by
    rw [List.filter_filterMap, List.filterMap_filter]
    refine List.filterMap_congr fun p _ => ?_
    cases hp : f p with
    | none => simp
    | some b => rw [Option.filter_some, hf p b hp]
  rw [hk, filter_changed]
  cases t.changed? k with
  | none => rfl
  | some x => cases hx : f (k, x) <;> simp [hx]

/-- Publishing puts an event under a key or leaves what is there. -/
theorem get?_publishOnto (p : Progress) (t : Tracker) (k : EventKey) :
    (publishOnto lookup p t).store.get? k =
      ((t.changed? k).bind fun x => Tracked.event? (p.memo.answer lookup) (k, x)).or
        (p.store.get? k) := by
  rw [publishOnto, (publishKeys_eq lookup t.changed p).1, Store.get?_puts, Event.under,
    filter_filterMap_changed t k Event.key _ fun _ _ => Tracked.key_event?]
  cases (t.changed? k).bind fun x => Tracked.event? (p.memo.answer lookup) (k, x) <;> rfl

theorem get?_publish (t : Tracker) (s : Store) (k : EventKey) :
    (t.publish lookup s).store.get? k =
      ((t.changed? k).bind fun x => Tracked.event? lookup (k, x)).or (s.get? k) :=
  get?_publishOnto lookup ⟨s, ∅, []⟩ t k

theorem failures_publish (t : Tracker) (s : Store) :
    (t.publish lookup s).failures.reverse = t.changed.filterMap (Tracked.failure? lookup) :=
  (publishKeys_eq lookup t.changed ⟨s, ∅, []⟩).2

end Tracker

/-! ## Tracking -/

/-- The delta that a record is, if it is one. -/
def Record.delta? : Record → Option VulnerabilityDelta
  | .policy _ _ => none
  | .delta d => some d
  | .other => none

/-- The deltas of a key, in the order of the batch. -/
def deltasOf (k : EventKey) (rs : List Record) : List VulnerabilityDelta :=
  (rs.filterMap Record.delta?).filter fun d => d.key = k

namespace Tracker

theorem tracker_eq (rs : List Record) :
    tracker rs = (rs.filterMap Record.delta?).foldl applyDelta ∅ := by
  rw [tracker, List.foldl_filterMap]
  refine List.foldl_ext _ _ _ fun t r _ => ?_
  cases r <;> rfl

theorem tracked_applyDelta (t : Tracker) (d : VulnerabilityDelta) (k : EventKey) :
    (t.applyDelta d).tracked[k]? =
      if decide (d.key = k) then some (Tracked.apply t.tracked[k]? d) else t.tracked[k]? := by
  rw [applyDelta, ExtTreeMap.getElem?_insert]
  by_cases h : d.key = k
  · subst h
    simp
  · simp [h, LawfulEqCmp.compare_eq_iff_eq]

/-- Deltas of one key add up, and leave the component of the last one. -/
theorem foldl_apply (ds : List VulnerabilityDelta) :
    ds.foldl (fun t d => some (Tracked.apply t d)) none =
      ds.getLast?.map fun d => ⟨d.component, Aggregate.ofDeltas ds⟩ := by
  induction ds using List.reverseRecOn with
  | nil => rfl
  | append_singleton ds d ih =>
    rw [List.foldl_append, ih, List.getLast?_concat]
    rcases List.eq_nil_or_concat ds with rfl | ⟨ds, c, rfl⟩
    · rfl
    · simp [Tracked.apply, Aggregate.ofDeltas, Aggregate.applyDelta]

/-- What is tracked of a key comes from its own deltas. -/
theorem tracked_tracker (rs : List Record) (k : EventKey) :
    (tracker rs).tracked[k]? =
      (deltasOf k rs).getLast?.map fun d => ⟨d.component, Aggregate.ofDeltas (deltasOf k rs)⟩ := by
  rw [tracker_eq, foldl_view (fun t : Tracker => t.tracked[k]?)
    (fun t d => some (Tracked.apply t d)) (fun t d => t.tracked_applyDelta d k)]
  exact foldl_apply _

end Tracker

end ScanDigest
