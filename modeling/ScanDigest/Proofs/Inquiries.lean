import Mathlib.Data.List.Nodup
import ScanDigest.Proofs.Applied

/-!
# What the service is asked

A memo asks the service for a URL only if it has not asked for it before (`Memo.asked_resolve`), so
of many URLs it asks for each one once, where that URL first occurs (`Memo.asked_resolveAll`).
Publishing resolves one URL for each net change that is not empty, in the order of the keys
(`Tracker.memo_publish`), and the keys with such a net change are told from the deltas of the batch
(`mem_changedKeys_tracker`). Together that is what a reduction asks for (`asked_reduce`).
-/

set_option autoImplicit false

namespace ScanDigest

open Std

/-! ## First occurrences -/

section

variable {α : Type} [DecidableEq α]

/-- An element at the end counts if it does not stand before. -/
theorem eraseDups_concat (as : List α) (a : α) :
    (as ++ [a]).eraseDups = if a ∈ as then as.eraseDups else as.eraseDups ++ [a] := by
  rw [List.eraseDups_append]
  by_cases h : a ∈ as <;> simp [List.removeAll, List.eraseDups_cons, h]

theorem nodup_eraseDups (as : List α) : as.eraseDups.Nodup := by
  induction as using List.reverseRecOn with
  | nil => exact List.nodup_nil
  | append_singleton as a ih =>
    rw [eraseDups_concat]
    split
    · exact ih
    · rename_i h
      rw [← List.concat_eq_append]
      exact List.Nodup.concat (fun ha => h (List.mem_eraseDups.1 ha)) ih

end

/-! ## Memos -/

namespace Memo

variable (lookup : Lookup) (m : Memo)

/-- The service is asked for a URL unless it was asked before, whatever it answered then. The count
goes with that. -/
theorem asked_resolve (url : String) : (m.resolve lookup url).2.asked =
      (if url ∈ m.asked then m.asked else m.asked ++ [url]) ∧
    (m.resolve lookup url).2.calls = if url ∈ m.asked then m.calls else m.calls + 1 := by
  cases hl : m.answers.lookup url with
  | some answer =>
    obtain ⟨before, after, he, -⟩ := List.lookup_eq_some_iff.1 hl
    have hmem : url ∈ m.asked := by simp [asked, he]
    rw [resolve_of_kept lookup m hl, if_pos hmem, if_pos hmem]
    exact ⟨rfl, rfl⟩
  | none =>
    have hmem : url ∉ m.asked := by
      rw [asked, List.mem_reverse, List.mem_map]
      rintro ⟨p, hp, rfl⟩
      exact absurd rfl (bne_iff_ne.1 (List.lookup_eq_none_iff.1 hl p hp))
    rw [resolve_of_new lookup m hl, if_neg hmem, if_neg hmem]
    exact ⟨by simp [asked], rfl⟩

/-- The memo after some URLs. -/
def resolveAll (urls : List String) : Memo := urls.foldl (fun m url => (m.resolve lookup url).2) m

/-- Of some URLs, the service is asked for each one where it first occurs. -/
theorem asked_resolveAll (urls : List String) :
    (resolveAll lookup ∅ urls).asked = urls.eraseDups := by
  induction urls using List.reverseRecOn with
  | nil => rfl
  | append_singleton urls url ih =>
    have hstep : resolveAll lookup ∅ (urls ++ [url]) =
        ((resolveAll lookup ∅ urls).resolve lookup url).2 := List.foldl_concat ..
    rw [hstep, (asked_resolve ..).1, ih, eraseDups_concat]
    simp only [List.mem_eraseDups]

/-- What is counted are the questions. -/
theorem calls_resolveAll (urls : List String) :
    (resolveAll lookup ∅ urls).calls = (resolveAll lookup ∅ urls).asked.length := by
  induction urls using List.reverseRecOn with
  | nil => rfl
  | append_singleton urls url ih =>
    have hstep : resolveAll lookup ∅ (urls ++ [url]) =
        ((resolveAll lookup ∅ urls).resolve lookup url).2 := List.foldl_concat ..
    obtain ⟨hasked, hcalls⟩ := (resolveAll lookup ∅ urls).asked_resolve lookup url
    rw [hstep, hasked, hcalls, ih]
    split
    · rfl
    · rw [List.length_append, List.length_singleton]

end Memo

/-! ## Publishing -/

namespace Tracker

variable (lookup : Lookup)

theorem memo_publishKey (p : Progress) (kt : EventKey × Tracked) : (publishKey lookup p kt).memo =
    (p.memo.resolve lookup kt.2.component.versionUrl).2 := by
  obtain ⟨k, t⟩ := kt
  simp only [publishKey]
  rcases p.memo.resolve lookup t.component.versionUrl with ⟨e | info, m⟩ <;> rfl

/-- Publishing resolves the URL of each change, in order. -/
theorem memo_publish (t : Tracker) (s : Store) : (t.publish lookup s).memo =
    Memo.resolveAll lookup ∅ (t.changed.map fun p => p.2.component.versionUrl) := by
  rw [publish, publishOnto, Memo.resolveAll, List.foldl_map]
  exact (List.foldl_hom Progress.memo fun p kt => (memo_publishKey lookup p kt).symm).symm

/-- The keys whose net change is not empty, in order. -/
def changedKeys (t : Tracker) : List EventKey := t.changed.map Prod.fst

theorem ordered_changedKeys (t : Tracker) : t.changedKeys.Pairwise (compare · · = .lt) := by
  rw [changedKeys, List.pairwise_map]
  exact t.tracked.ordered_keys_toList.filter _

/-- A key that changed stands with what is tracked of it. -/
theorem mem_changed_iff {t : Tracker} {p : EventKey × Tracked} :
    p ∈ t.changed ↔ t.changed? p.1 = some p.2 := by
  rw [changed, List.mem_filter, ExtTreeMap.mem_toList_iff_getElem?_eq_some, changed?,
    Option.filter_eq_some_iff]

end Tracker

/-- The calls that a reduction counts are the questions that the service was asked. -/
theorem calls_publication (w : Window) (lookup : Lookup) (c : Config) (rs : List Record) :
    (publication w lookup c rs).memo.calls = (publication w lookup c rs).memo.asked.length := by
  rw [publication]
  split
  · rw [Tracker.memo_publish, Memo.calls_resolveAll]
  · rfl

section

variable (rs : List Record)

/-- A key changed if the deltas of that key come to a net change that is not empty. -/
theorem mem_changedKeys_tracker {k : EventKey} : k ∈ (tracker rs).changedKeys ↔
    deltasOf k rs ≠ [] ∧ (Aggregate.ofDeltas (deltasOf k rs)).net ≠ ⟨[], [], []⟩ := by
  have hk : k ∈ (tracker rs).changedKeys ↔ ((tracker rs).changed? k).isSome := by
    simp [Tracker.changedKeys, Tracker.mem_changed_iff, Option.isSome_iff_exists]
  rw [hk]
  cases hd : (deltasOf k rs).getLast? with
  | none =>
    have hnil := List.getLast?_eq_none_iff.1 hd
    rw [Tracker.changed?, Tracker.tracked_tracker, hd]
    simp [hnil]
  | some d =>
    have hne : deltasOf k rs ≠ [] := List.getLast?_isSome.1 (by rw [hd]; rfl)
    rw [changed?_tracker rs hd]
    split <;> simp_all

/-- The URL of a change is that of the last delta of its key. -/
theorem urls_changed_tracker :
    ((tracker rs).changed.map fun p => p.2.component.versionUrl) =
      (tracker rs).changedKeys.filterMap fun k =>
        (deltasOf k rs).getLast?.map fun d => d.component.versionUrl := by
  rw [Tracker.changedKeys, List.filterMap_map, ← List.filterMap_eq_map]
  refine List.filterMap_congr fun p hp => ?_
  have htracked : (tracker rs).tracked[p.1]? = some p.2 :=
    (Option.filter_eq_some_iff.1 (Tracker.mem_changed_iff.1 hp)).1
  rw [Tracker.tracked_tracker] at htracked
  obtain ⟨d, hd, he⟩ := Option.map_eq_some_iff.1 htracked
  simp [hd, ← he]

end

/-- A reduction asks the service for the last component of each key whose net change is not empty,
in the order of the keys, and for no URL twice. -/
theorem asked_reduce {c : Config} {w : Window} (hw : c.window = .ok w)
    (hv : c.isEnabled .vulnerability) (lookup : Lookup) (rs : List Record) :
    ∃ r, reduce lookup c rs = .ok r ∧
      let applied := rs.filter fun r => r.Applies w
      ∃ keys : List EventKey,
        keys.Pairwise (compare · · = .lt) ∧
        (∀ k, k ∈ keys ↔ deltasOf k applied ≠ [] ∧
          (Aggregate.ofDeltas (deltasOf k applied)).net ≠ ⟨[], [], []⟩) ∧
        r.asked = (keys.filterMap fun k =>
          (deltasOf k applied).getLast?.map fun d => d.component.versionUrl).eraseDups ∧
        r.outcome.stats.lookupCalls = r.asked.length ∧
        r.asked.Nodup := by
  have hasked : (reduceWithin w lookup c rs).asked =
      ((tracker (appliedRecords w rs)).changed.map fun p => p.2.component.versionUrl).eraseDups := by
    show (publication w lookup c rs).memo.asked = _
    rw [publication, if_pos hv, Tracker.memo_publish, Memo.asked_resolveAll]
  rw [urls_changed_tracker] at hasked
  rw [← appliedRecords_eq]
  refine ⟨_, reduce_of_valid lookup rs hw, (tracker (appliedRecords w rs)).changedKeys,
    Tracker.ordered_changedKeys _, fun k => mem_changedKeys_tracker _, hasked, ?_, ?_⟩
  · exact calls_publication w lookup c rs
  · rw [hasked]
    exact nodup_eraseDups _

/-- Two project versions have one component version, and nothing can be learned of it: the service
is asked once. -/
theorem asked_reduce_shared :
    let c : Component := ⟨"p", "1", "c", "2", "/pv/1", "/cv/1"⟩
    let d : VulnerabilityDelta := ⟨"2026-02-10T00:00:00Z", c, [⟨"NVD", "A"⟩], [], []⟩
    let e : VulnerabilityDelta := { d with component := { c with projectVersionUrl := "/pv/2" } }
    let rs : List Record := [.delta d, .delta e]
    let lookup : Lookup := fun _ => .error (.io "down")
    Config.default.window = .ok .all ∧ Config.default.isEnabled .vulnerability ∧ d.key ≠ e.key ∧
    ∃ r, reduce lookup .default rs = .ok r ∧ r.asked = ["/cv/1"] ∧
      r.outcome.stats.lookupCalls = 1 := by
  intro c d e rs lookup
  have hw : Config.default.window = .ok .all := by decide
  have hv : Config.default.isEnabled .vulnerability := by decide
  have hkey : d.key ≠ e.key := by decide +kernel
  have hrs : rs.filter (fun r => r.Applies .all) = rs := by decide +kernel
  obtain ⟨r, hr, keys, -, hkeys, hasked, hcalls, hnodup⟩ := asked_reduce hw hv lookup rs
  rw [hrs] at hkeys hasked
  have hds : deltasOf d.key rs = [d] := by simp [deltasOf, rs, Record.delta?, hkey.symm]
  have hmem : ∀ url, url ∈ r.asked ↔ url ∈ ["/cv/1"] := by
    intro url
    rw [hasked, List.mem_eraseDups, List.mem_filterMap, List.mem_singleton]
    constructor
    · rintro ⟨k, -, hk⟩
      obtain ⟨f, hf, rfl⟩ := Option.map_eq_some_iff.1 hk
      have hfs : f ∈ [d, e] := (List.mem_filter.1 (List.mem_of_getLast? hf)).1
      rcases List.mem_pair.1 hfs with rfl | rfl <;> rfl
    · rintro rfl
      refine ⟨d.key, (hkeys d.key).2 ?_, by rw [hds]; rfl⟩
      rw [hds]
      decide +kernel
  have hone : r.asked = ["/cv/1"] := List.perm_singleton.1
    ((List.perm_ext_iff_of_nodup hnodup (List.nodup_singleton _)).2 hmem)
  exact ⟨hw, hv, hkey, r, hr, hone, by rw [hcalls, hone]; rfl⟩

end ScanDigest
