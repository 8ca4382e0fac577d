import Mathlib.Data.List.Forall2
import ScanDigest.Proofs.Applied
import ScanDigest.Proofs.Grouping
import ScanDigest.Proofs.Provenance

/-!
# Digests by project version and the order of events

Events in another order make up digests with the same counts and, up to order, the same buckets
(`ProjectDigest.exists_sameParts`). But a project version is named as its first event names it, and
digests are sorted by these names. So the order of the events of a batch does not show exactly if
all events of a project version name it in one way (`ProjectDigest.group_order_iff`), as they do if
the records of the batch do. In the order of their keys a rule's event stands before one of
vulnerabilities, whichever record came last.
-/

set_option autoImplicit false

namespace ScanDigest

open Std

namespace ProjectDigest

/-- Digests of one project version with the same counts and, in any order, the same events. -/
structure SameParts (d d' : ProjectDigest) : Prop where
  url : d.project.versionUrl = d'.project.versionUrl
  counts : d.counts = d'.counts
  bucket : ∀ c, (d.bucket c).Perm (d'.bucket c)

/-- The same digest, with the events of its buckets in any order. -/
structure Alike (d d' : ProjectDigest) : Prop extends SameParts d d' where
  project : d.project = d'.project

/-- Each project version is named in one way. -/
def NamedAlike (es : List Event) : Prop :=
  ∀ e ∈ es, ∀ f ∈ es, e.project.versionUrl = f.project.versionUrl → e.project = f.project

section

variable {es fs : List Event}

theorem about_perm (h : es.Perm fs) (url : String) :
    (Event.about url es).Perm (Event.about url fs) := h.filter _

theorem select_perm (h : es.Perm fs) (c : Category) : (select es c).Perm (select fs c) := h.filter _

theorem countAll_perm (h : es.Perm fs) : countAll es = countAll fs := by
  refine ExtTreeMap.ext_getElem? fun c => ?_
  have hselect := select_perm h c
  have hitems : items (select es c) = items (select fs c) := by
    rw [items_eq_sum, items_eq_sum, (hselect.map _).sum_eq]
  simp only [getElem?_countAll, hitems, ← List.length_eq_zero_iff, hselect.length_eq]

theorem sameParts_ofEvents (h : es.Perm fs) {p q : ProjectVersion}
    (hurl : p.versionUrl = q.versionUrl) : (ofEvents p es).SameParts (ofEvents q fs) where
  url := hurl
  counts := countAll_perm h
  bucket c := by
    rw [bucket_ofEvents, bucket_ofEvents]
    exact select_perm h c

/-- Events in another order make up the same digests, but for their names and their order. -/
theorem exists_sameParts (h : es.Perm fs) {d : ProjectDigest} (hd : d ∈ group es) :
    ∃ d' ∈ group fs, d.SameParts d' := by
  obtain ⟨e, he, hurl⟩ := (urls_group d.project.versionUrl).1 ⟨d, hd, rfl⟩
  obtain ⟨d', hd', hurl'⟩ := (urls_group d.project.versionUrl).2 ⟨e, h.mem_iff.1 he, hurl⟩
  refine ⟨d', hd', ?_⟩
  rw [eq_ofEvents_of_mem_group hd, eq_ofEvents_of_mem_group hd', hurl']
  exact sameParts_ofEvents (about_perm h _) hurl'.symm

/-! ## Names -/

theorem mem_projects_of_namedAlike (h : NamedAlike es) {p : ProjectVersion} :
    p ∈ projects es ↔ ∃ e ∈ es, e.project = p := by
  rw [mem_projects_iff]
  constructor
  · intro hp
    obtain ⟨e, he, rfl⟩ := Option.map_eq_some_iff.1 hp
    exact ⟨e, (List.mem_filter.1 (List.mem_of_head? he)).1, rfl⟩
  · rintro ⟨e, he, rfl⟩
    have hpart : e ∈ Event.about e.project.versionUrl es :=
      List.mem_filter.2 ⟨he, decide_eq_true rfl⟩
    obtain ⟨f, fs, hfs⟩ := List.exists_cons_of_ne_nil (List.ne_nil_of_mem hpart)
    have hf : f ∈ Event.about e.project.versionUrl es := hfs ▸ List.mem_cons_self
    obtain ⟨hf, hurl⟩ := List.mem_filter.1 hf
    rw [hfs, List.head?_cons, Option.map_some, h f hf e he (of_decide_eq_true hurl)]

theorem projects_perm_of_namedAlike (h : es.Perm fs) (hes : NamedAlike es) :
    (projects es).Perm (projects fs) := by
  have hfs : NamedAlike fs := fun e he f hf => hes e (h.mem_iff.2 he) f (h.mem_iff.2 hf)
  refine (List.perm_ext_iff_of_nodup (nodup_projects es).of_map (nodup_projects fs).of_map).2 ?_
  intro p
  simp only [mem_projects_of_namedAlike hes, mem_projects_of_namedAlike hfs, h.mem_iff]

/-- The order of events does not show where each project version is named in one way. -/
theorem forall₂_alike (h : es.Perm fs) (hes : NamedAlike es) :
    List.Forall₂ Alike (group es) (group fs) := by
  have hsorted : (projects es).mergeSort projectLE = (projects fs).mergeSort projectLE := by
    refine List.Perm.eq_of_pairwise ?_ (pairwise_sorted_projects es)
      (pairwise_sorted_projects fs) ?_
    · exact fun _ _ _ _ => projectLE_antisymm
    · exact (List.mergeSort_perm _ _).trans
        ((projects_perm_of_namedAlike h hes).trans (List.mergeSort_perm _ _).symm)
  rw [group, group, hsorted, List.forall₂_map_left_iff, List.forall₂_map_right_iff,
    List.forall₂_same]
  exact fun p _ => ⟨sameParts_ofEvents (about_perm h _) rfl, rfl⟩

/-- An event that stands first names its project version. -/
theorem project_mem_group_cons (e : Event) (es : List Event) :
    e.project ∈ (group (e :: es)).map project := by
  rw [(projects_perm_sorted _).mem_iff, mem_projects_iff]
  simp [Event.about]

theorem map_project_of_alike {ds ds' : List ProjectDigest} (h : List.Forall₂ Alike ds ds') :
    ds.map project = ds'.map project := by
  induction h with
  | nil => rfl
  | cons hd _ ih => rw [List.map_cons, List.map_cons, hd.project, ih]

/-- The order of events does not show exactly where each project version is named in one way: any
event may come first and name its project version. -/
theorem forall_alike_iff :
    (∀ fs, fs.Perm es → List.Forall₂ Alike (group fs) (group es)) ↔ NamedAlike es := by
  constructor
  · intro h
    have hnamed : ∀ e ∈ es, e.project ∈ (group es).map project := by
      intro e he
      rw [← map_project_of_alike (h _ (List.perm_cons_erase he).symm)]
      exact project_mem_group_cons e _
    have hnodup : (((group es).map project).map ProjectVersion.versionUrl).Nodup := by
      rw [List.map_map]
      exact nodup_group es
    intro e he f hf hurl
    exact List.inj_on_of_nodup_map hnodup (hnamed e he) (hnamed f hf) hurl
  · intro h fs hfs
    exact forall₂_alike hfs fun e he f hf => h e (hfs.mem_iff.1 he) f (hfs.mem_iff.1 hf)

end

end ProjectDigest

/-! ## Batches -/

namespace Record

/-- Each project version is named in one way by the records. -/
def NamedAlike (rs : List Record) : Prop :=
  ∀ r ∈ rs, ∀ s ∈ rs, ∀ c ∈ r.component?, ∀ d ∈ s.component?,
    c.projectVersionUrl = d.projectVersionUrl → c.project = d.project

end Record

section

variable {w : Window} {c : Config} {lookup : Lookup} {rs : List Record}

/-- An event is about the component of a record that applies. -/
theorem exists_component_of_mem_events {e : Event}
    (he : e ∈ (reduceWithin w lookup c rs).outcome.events) :
    ∃ r ∈ appliedRecords w rs, ∃ x ∈ r.component?, e.project = x.project := by
  rw [events_reduceWithin] at he
  rcases stems_of_get?_publication ((Store.mem_events_iff _).1 (List.mem_filter.1 he).1) with
    ⟨m, hm, rfl⟩ | ⟨d, hd, -, -, hproject⟩
  · exact ⟨_, (mem_mentionsOf_iff.1 hm).1, m.notice.component, rfl, rfl⟩
  · exact ⟨_, (mem_deltasOf_iff.1 hd).1, d.component, rfl, hproject⟩

section

variable {action : PolicyAction} {n : PolicyNotice} {rule : PolicyRule} {d : VulnerabilityDelta}
  {info : ComponentVulnerabilities}
  (happlied : appliedRecords w rs = [.policy action n, .delta d]) (hrules : n.rules = [rule])
  (hnet : (Aggregate.ofDeltas [d]).net ≠ ⟨[], [], []⟩)
  (hinfo : lookup d.component.versionUrl = .ok info) (hshown : ∀ k, c.isEnabled k)

include happlied hrules hnet hinfo hshown

theorem get?_publication_of_rule_and_delta (k : EventKey) :
    (publication w lookup c rs).store.get? k =
      if n.key rule = k then some (n.event action rule)
      else if d.key = k then some (Tracked.event ⟨d.component, Aggregate.ofDeltas [d]⟩ d.key info)
      else none := by
  have hdeltas := deltasOf_rule_and_delta action n d k
  have hmention : (Standing.unnamed.takeAll [⟨action, n, rule⟩]).event =
      some (n.event action rule) := by cases action <;> rfl
  rw [get?_publication, if_pos (hshown _), happlied,
    mentionsOf_rule_and_delta hrules]
  by_cases hd : d.key = k
  · have hne : n.key rule ≠ k := fun he =>
      EventKey.ofRule_ne_ofVulnerabilities _ _ _ _ _ (he.trans hd.symm)
    have hlast : (deltasOf k [.policy action n, .delta d]).getLast? = some d := by
      rw [hdeltas, if_pos hd]
      rfl
    rw [changed?_tracker _ hlast, hdeltas, if_pos hd, if_neg hnet, if_neg hne, if_neg hne,
      if_pos hd, ← hd]
    simp [Tracked.event?, hinfo]
  · rw [Tracker.changed?, Tracker.tracked_tracker, hdeltas, if_neg hd]
    by_cases he : n.key rule = k
    · rw [if_pos he, if_pos he, hmention]
      rfl
    · rw [if_neg he, if_neg he, if_neg hd]
      rfl

/-- A rule and a delta that apply come to their two events, the rule's first. -/
theorem events_of_rule_and_delta :
    (reduceWithin w lookup c rs).outcome.events = [n.event action rule,
      Tracked.event ⟨d.component, Aggregate.ofDeltas [d]⟩ d.key info] := by
  let e := n.event action rule
  let f := Tracked.event ⟨d.component, Aggregate.ofDeltas [d]⟩ d.key info
  have hlt : compare e.key f.key = .lt := EventKey.ofRule_lt_ofVulnerabilities _ _ _ _ _
  have hne : e.key ≠ f.key := EventKey.ofRule_ne_ofVulnerabilities _ _ _ _ _
  have hget : ∀ k, (publication w lookup c rs).store.get? k =
      if e.key = k then some e else if f.key = k then some f else none :=
    get?_publication_of_rule_and_delta happlied hrules hnet hinfo hshown
  have hstore : (publication w lookup c rs).store.events = [e, f] := by
    refine Store.events_eq_of_ordered _ (by simpa using hlt) fun g => ?_
    rw [hget]
    grind
  rw [events_reduceWithin, hstore]
  simp [hshown, e, f]

end

theorem namedAlike_events (h : Record.NamedAlike (appliedRecords w rs)) :
    ProjectDigest.NamedAlike (reduceWithin w lookup c rs).outcome.events := by
  intro e he f hf hurl
  obtain ⟨r, hr, x, hx, hex⟩ := exists_component_of_mem_events he
  obtain ⟨s, hs, y, hy, hfy⟩ := exists_component_of_mem_events hf
  rw [hex, hfy] at hurl ⊢
  exact h r hr s hs x hx y hy hurl

end

namespace ProjectDigest

/-- **The order of the events of a batch** changes no count and, but for its order, no bucket. It
changes nothing else exactly if all events of a project version name it in one way, as they do if
all records that apply do. -/
theorem group_order_iff {c : Config} {w : Window} (hw : c.window = .ok w) (lookup : Lookup)
    (rs : List Record) :
    ∃ r, reduce lookup c rs = .ok r ∧
      (∀ es, es.Perm r.outcome.events →
        (∀ d ∈ group es, ∃ d' ∈ group r.outcome.events, d.SameParts d') ∧
        ∀ d ∈ group r.outcome.events, ∃ d' ∈ group es, d.SameParts d') ∧
      ((∀ es, es.Perm r.outcome.events → List.Forall₂ Alike (group es) (group r.outcome.events)) ↔
        NamedAlike r.outcome.events) ∧
      (Record.NamedAlike (rs.filter fun r => r.Applies w) → NamedAlike r.outcome.events) := by
  rw [← appliedRecords_eq]
  refine ⟨_, reduce_of_valid lookup rs hw, fun es hes => ⟨?_, ?_⟩, forall_alike_iff,
    namedAlike_events⟩
  · exact fun d hd => exists_sameParts hes hd
  · exact fun d hd => exists_sameParts hes.symm hd

/-- A rule and a vulnerability of a project version that is named in one way, in either order. -/
theorem group_order_iff_reversed :
    let c : Component := ⟨"alpha", "1.0", "openssl", "1.0.2k", "/pv/1", "/cv/1"⟩
    let n : PolicyNotice := ⟨"2026-02-10T00:00:00Z", c, [⟨"No GPL", "/rules/1"⟩]⟩
    let d : VulnerabilityDelta := ⟨"2026-02-10T00:00:01Z", c, [⟨"NVD", "CVE-1"⟩], [], []⟩
    let rs : List Record := [.policy .violate n, .delta d]
    let lookup : Lookup := fun _ => .ok ⟨[]⟩
    Config.default.window = .ok .all ∧
    ∃ r, reduce lookup .default rs = .ok r ∧ r.outcome.events.length = 2 ∧
      List.Forall₂ Alike (group r.outcome.events.reverse) (group r.outcome.events) := by
  intro c n d rs lookup
  have hw : Config.default.window = .ok .all := by decide
  obtain ⟨r, hr, -, hiff, hrecords⟩ := group_order_iff hw lookup rs
  obtain rfl : reduceWithin .all lookup .default rs = r :=
    Except.ok.inj ((reduce_of_valid lookup rs hw).symm.trans hr)
  have happlied : appliedRecords .all rs = [.policy .violate n, .delta d] := by decide +kernel
  have hevents : (reduceWithin .all lookup .default rs).outcome.events = [_, _] :=
    events_of_rule_and_delta happlied rfl (by decide +kernel) rfl fun k => by cases k <;> rfl
  have hnamed : Record.NamedAlike (rs.filter fun r => r.Applies .all) := by
    have hcomponent : ∀ r ∈ rs, ∀ x ∈ r.component?, x = c := by
      simp [rs, n, d, Record.component?]
    intro r hr s hs x hx y hy _
    rw [hcomponent r (List.mem_filter.1 hr).1 x hx, hcomponent s (List.mem_filter.1 hs).1 y hy]
  exact ⟨hw, _, hr, congrArg List.length hevents,
    hiff.2 (hrecords hnamed) _ (List.reverse_perm _)⟩

/-- If two records name a project version in two ways, its digest has the name of the rule's event
in the order of keys, and the other name if the events are reversed. -/
theorem not_alike_renamed :
    let c : Component := ⟨"alpha", "1.0", "openssl", "1.0.2k", "/pv/1", "/cv/1"⟩
    let n : PolicyNotice := ⟨"2026-02-10T00:00:00Z", c, [⟨"No GPL", "/rules/1"⟩]⟩
    let d : VulnerabilityDelta := ⟨"2026-02-10T00:00:01Z",
      { c with projectName := "beta" }, [⟨"NVD", "CVE-1"⟩], [], []⟩
    let rs : List Record := [.policy .violate n, .delta d]
    let lookup : Lookup := fun _ => .ok ⟨[]⟩
    ∃ r, reduce lookup .default rs = .ok r ∧
      (group r.outcome.events).map (·.project.name) = ["alpha"] ∧
      (group r.outcome.events.reverse).map (·.project.name) = ["beta"] ∧
      ¬∀ es, es.Perm r.outcome.events →
        List.Forall₂ Alike (group es) (group r.outcome.events) := by
  intro c n d rs lookup
  have hw : Config.default.window = .ok .all := by decide
  have hgroup : ∀ {fs : List Event} {p : ProjectVersion}, projects fs = [p] →
      (group fs).map project = [p] := by
    intro fs p hp
    exact List.perm_singleton.1 (hp ▸ projects_perm_sorted fs)
  have happlied : appliedRecords .all rs = [.policy .violate n, .delta d] := by decide +kernel
  let e := n.event .violate ⟨"No GPL", "/rules/1"⟩
  let f := Tracked.event ⟨d.component, .ofDeltas [d]⟩ d.key ⟨[]⟩
  have hevents : (reduceWithin .all lookup .default rs).outcome.events = [e, f] :=
    events_of_rule_and_delta happlied rfl (by decide +kernel) rfl fun k => by cases k <;> rfl
  have halpha : (group [e, f]).map project = [c.project] := hgroup rfl
  have hbeta : (group [e, f].reverse).map project = [d.component.project] := hgroup rfl
  refine ⟨_, reduce_of_valid lookup rs hw, ?_⟩
  rw [hevents]
  refine ⟨?_, ?_, fun h => ?_⟩
  · exact (List.map_map ..).symm.trans (congrArg (List.map ProjectVersion.name) halpha)
  · exact (List.map_map ..).symm.trans (congrArg (List.map ProjectVersion.name) hbeta)
  · have hsame := map_project_of_alike (h _ (List.reverse_perm _))
    rw [hbeta, halpha] at hsame
    exact absurd hsame (by decide)

end ProjectDigest

end ScanDigest
