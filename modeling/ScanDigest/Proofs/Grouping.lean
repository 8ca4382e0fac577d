import Mathlib.Algebra.BigOperators.Group.List.Basic
import Mathlib.Algebra.GroupWithZero.Nat
import Mathlib.Data.List.Induction
import Mathlib.Data.List.Nodup
import ScanDigest.Digest.Project
import ScanDigest.Proofs.KeyByKey

/-!
# Grouping by project version

The digests of a list of events are parts of it: one for each project version, with a bucket for
each category (`ProjectDigest.group_partition`). No event is lost or put in twice, and the items of
all digests are those of the events. The same digests come of going through the events once, with a
table of the digests so far (`ProjectDigest.group_eq_gathered`).
-/

set_option autoImplicit false

namespace ScanDigest

open Std

/-! ## Parts of a list -/

/-- The parts of a list by a key make up the list. -/
theorem flatMap_filter_perm {α κ : Type} [DecidableEq κ] (key : α → κ) {ks : List κ}
    (hnodup : ks.Nodup) {as : List α} (h : ∀ a ∈ as, key a ∈ ks) :
    (ks.flatMap fun k => as.filter fun a => key a = k).Perm as := by
  induction ks generalizing as with
  | nil =>
    have has : as = [] := List.eq_nil_iff_forall_not_mem.2 fun a ha => List.not_mem_nil (h a ha)
    rw [has]
    rfl
  | cons k ks ih =>
    obtain ⟨hk, hks⟩ := List.nodup_cons.1 hnodup
    let others := as.filter fun a => key a ≠ k
    have hothers : ∀ a ∈ others, key a ∈ ks := by
      intro a ha
      obtain ⟨ha, hne⟩ := List.mem_filter.1 ha
      exact (List.mem_cons.1 (h a ha)).resolve_left (of_decide_eq_true hne)
    have hparts : (ks.flatMap fun l => others.filter fun a => key a = l) =
        ks.flatMap fun l => as.filter fun a => key a = l := by
      refine List.flatMap_congr fun l hl => ?_
      rw [List.filter_filter]
      refine List.filter_congr fun a _ => ?_
      by_cases ha : key a = l
      · have hne : l ≠ k := fun heq => hk (heq ▸ hl)
        simp [ha, hne]
      · simp [ha]
    rw [List.flatMap_cons, ← hparts]
    refine ((ih hks hothers).append_left _).trans ?_
    simpa only [others, ne_eq, decide_not] using List.filter_append_perm (fun a => key a = k) as

/-- The values of a table with some keys add up key by key. -/
theorem sum_values {α : Type} [Ord α] [TransOrd α] [LawfulEqOrd α] (m : ExtTreeMap α Nat)
    {ks : List α} (hnodup : ks.Nodup) (h : ∀ k n, m[k]? = some n → k ∈ ks) :
    m.values.sum = (ks.map fun k => m[k]?.getD 0).sum := by
  have hlist : m.toList.Perm (ks.filterMap fun k => m[k]?.map (k, ·)) := by
    refine (List.perm_ext_iff_of_nodup ?_ ?_).2 fun p => ?_
    · refine m.distinct_keys_toList.imp fun hne heq => hne ?_
      rw [heq, ReflOrd.compare_self]
    · refine hnodup.filterMap fun k l p hk hl => ?_
      obtain ⟨n, -, rfl⟩ := Option.map_eq_some_iff.1 hk
      obtain ⟨n', -, heq⟩ := Option.map_eq_some_iff.1 hl
      exact (Prod.mk.inj heq).1.symm
    · rw [List.mem_filterMap, ExtTreeMap.mem_toList_iff_getElem?_eq_some]
      constructor
      · intro hp
        exact ⟨p.1, h p.1 p.2 hp, by rw [hp]; rfl⟩
      · rintro ⟨k, -, hk⟩
        obtain ⟨n, hn, rfl⟩ := Option.map_eq_some_iff.1 hk
        exact hn
  rw [values_eq_map, (hlist.map Prod.snd).sum_eq]
  clear hlist h hnodup
  induction ks with
  | nil => rfl
  | cons k ks ih =>
    rw [List.filterMap_cons, List.map_cons, List.sum_cons, ← ih]
    cases m[k]? <;> simp

/-! ## The order of project versions -/

namespace ProjectVersion

/-- By name, version name and URL, the first of them that differs. -/
def Before (p q : ProjectVersion) : Prop :=
  p.name < q.name ∨ p.name = q.name ∧
    (p.versionName < q.versionName ∨ p.versionName = q.versionName ∧ p.versionUrl < q.versionUrl)

/-- The order of project versions as a comparison. -/
def order : ProjectVersion → ProjectVersion → Ordering :=
  compareLex (compareOn name) (compareLex (compareOn versionName) (compareOn versionUrl))

instance : TransCmp order :=
  inferInstanceAs (TransCmp (compareLex (compareOn _) (compareLex (compareOn _) (compareOn _))))

theorem order_eq_lt_iff {p q : ProjectVersion} : order p q = .lt ↔ p.Before q := by
  simp only [order, compareLex, compareOn, Ordering.then_eq_lt, Before, compare_eq_lt_iff,
    LawfulEqCmp.compare_eq_iff_eq]

theorem eq_of_order {p q : ProjectVersion} (h : order p q = .eq) : p = q := by
  simp only [order, compareLex, compareOn, Ordering.then_eq_eq, LawfulEqCmp.compare_eq_iff_eq] at h
  cases p
  cases q
  simpa using h

end ProjectVersion

/-! ## The parts of one digest -/

/-- The events about the project version with a URL. -/
def Event.about (url : String) (es : List Event) : List Event :=
  es.filter fun e => e.project.versionUrl = url

theorem Category.nodup_all : all.Nodup := by decide

theorem Category.mem_all (c : Category) : c ∈ all := by cases c <;> decide

namespace ProjectDigest

theorem items_eq_sum (es : List Event) : items es = (es.map Event.itemCount).sum := by
  rw [items, List.sum, List.foldr_map]

theorem total_eq_sum (d : ProjectDigest) : d.total = d.counts.values.sum := rfl

@[simp] theorem bucket_ofEvents (p : ProjectVersion) (es : List Event) (c : Category) :
    (ofEvents p es).bucket c = select es c := by cases c <;> rfl

/-- A category has a count if it has an event. -/
theorem getElem?_countAll (es : List Event) (c : Category) :
    (countAll es)[c]? = if select es c = [] then none else some (items (select es c)) := by
  have hfold : ∀ (cs : List Category) (t : ExtTreeMap Category Nat),
      (cs.foldl (fun t c =>
        if (select es c).isEmpty then t else t.insert c (items (select es c))) t)[c]? =
      if c ∈ cs ∧ select es c ≠ [] then some (items (select es c)) else t[c]? := by
    intro cs
    induction cs with
    | nil => simp
    | cons c' cs ih =>
      intro t
      rw [List.foldl_cons, ih]
      by_cases hc : c = c'
      · subst hc
        by_cases hes : select es c = [] <;> simp [hes]
      · have hne : compare c' c ≠ .eq := fun heq => hc (LawfulEqOrd.eq_of_compare heq).symm
        by_cases hes : (select es c').isEmpty = true <;>
          simp [hes, hc, ExtTreeMap.getElem?_insert, hne]
  rw [countAll, hfold]
  by_cases hes : select es c = [] <;> simp [hes, c.mem_all]

/-- The buckets of a digest make up its events. -/
theorem buckets_perm (p : ProjectVersion) (es : List Event) :
    (Category.all.flatMap (ofEvents p es).bucket).Perm es := by
  have hbucket : (ofEvents p es).bucket = select es := funext (bucket_ofEvents p es)
  rw [hbucket]
  exact flatMap_filter_perm Event.category Category.nodup_all fun e _ => e.category.mem_all

theorem sum_map_flatMap {α β : Type} (f : α → List β) (g : β → Nat) (as : List α) :
    ((as.flatMap f).map g).sum = (as.map fun a => ((f a).map g).sum).sum := by
  rw [List.map_flatMap, List.flatMap, List.sum_flatten, List.map_map]
  rfl

theorem total_ofEvents (p : ProjectVersion) (es : List Event) :
    (ofEvents p es).total = (es.map Event.itemCount).sum := by
  have hvalue : ∀ c, (countAll es)[c]?.getD 0 = ((select es c).map Event.itemCount).sum := by
    intro c
    rw [getElem?_countAll, items_eq_sum]
    split
    · rename_i hes
      rw [hes]
      rfl
    · rfl
  have hperm := ((buckets_perm p es).map Event.itemCount).sum_eq
  rw [sum_map_flatMap] at hperm
  simp only [bucket_ofEvents] at hperm
  rw [total_eq_sum, ← hperm]
  refine (sum_values (countAll es) Category.nodup_all fun c _ _ => c.mem_all).trans ?_
  simp only [hvalue]

/-! ## The project versions -/

theorem about_concat (url : String) (es : List Event) (e : Event) :
    Event.about url (es ++ [e]) =
      Event.about url es ++ if e.project.versionUrl = url then [e] else [] := by
  rw [Event.about, List.filter_append, List.filter_singleton]
  simp [Event.about]

/-- A project version is listed where it is first named. -/
theorem projects_concat (es : List Event) (e : Event) : projects (es ++ [e]) =
    if ∃ p ∈ projects es, p.versionUrl = e.project.versionUrl then projects es
    else projects es ++ [e.project] := by
  simp [projects]

theorem exists_mem_projects_iff {es : List Event} {url : String} :
    (∃ p ∈ projects es, p.versionUrl = url) ↔ Event.about url es ≠ [] := by
  induction es using List.reverseRecOn with
  | nil => simp [projects, Event.about]
  | append_singleton es e ih =>
    rw [projects_concat, about_concat]
    by_cases hurl : e.project.versionUrl = url
    · subst hurl
      split
      · simpa using ‹∃ p ∈ projects es, _›
      · simp
    · split <;> simp [hurl, ih]

theorem nodup_projects (es : List Event) : ((projects es).map ProjectVersion.versionUrl).Nodup := by
  induction es using List.reverseRecOn with
  | nil => exact List.nodup_nil
  | append_singleton es e ih =>
    rw [projects_concat]
    split
    · exact ih
    · rename_i hnew
      rw [List.map_append, List.nodup_append]
      refine ⟨ih, List.nodup_singleton _, ?_⟩
      rintro _ hp _ hq rfl
      obtain ⟨p, hp, hurl⟩ := List.mem_map.1 hp
      exact hnew ⟨p, hp, hurl.trans (List.mem_singleton.1 hq)⟩

/-- A project version is named as its first event names it. -/
theorem mem_projects_iff {es : List Event} {p : ProjectVersion} :
    p ∈ projects es ↔ (Event.about p.versionUrl es).head?.map Event.project = some p := by
  induction es using List.reverseRecOn with
  | nil => simp [projects, Event.about]
  | append_singleton es e ih =>
    rw [projects_concat, about_concat, List.head?_append]
    simp only [exists_mem_projects_iff]
    by_cases hurl : e.project.versionUrl = p.versionUrl
    · rw [hurl, if_pos rfl]
      cases hes : Event.about p.versionUrl es with
      | nil =>
        rw [hes] at ih
        have hnot : p ∉ projects es := fun hp => by cases ih.1 hp
        simp [hnot, eq_comm]
      | cons f fs => simpa [hes] using ih
    · have hne : p ≠ e.project := fun heq => hurl (heq ▸ rfl)
      rw [if_neg hurl, List.head?_nil, Option.or_none, ← ih]
      split <;> simp [hne]

/-! ## The order of digests -/

theorem projectLE_eq (p q : ProjectVersion) : projectLE p q = (ProjectVersion.order p q).isLE := rfl

theorem projectLE_trans (p q r : ProjectVersion) :
    projectLE p q → projectLE q r → projectLE p r := by
  simp only [projectLE_eq]
  exact TransCmp.isLE_trans

theorem projectLE_total (p q : ProjectVersion) : projectLE p q || projectLE q p := by
  have hswap : ProjectVersion.order q p = (ProjectVersion.order p q).swap := OrientedCmp.eq_swap
  rw [projectLE_eq, projectLE_eq, hswap]
  cases ProjectVersion.order p q <;> rfl

theorem projectLE_antisymm {p q : ProjectVersion} (hpq : projectLE p q) (hqp : projectLE q p) :
    p = q :=
  ProjectVersion.eq_of_order (OrientedCmp.isLE_antisymm hpq hqp)

/-! ## All digests -/

/-- The digest of a project version, if an event is about it. -/
def of? (url : String) (es : List Event) : Option ProjectDigest :=
  let part := Event.about url es
  part.head?.map fun e => ofEvents e.project part

theorem versionUrl_of? {url : String} {es : List Event} {d : ProjectDigest}
    (h : of? url es = some d) : d.project.versionUrl = url := by
  obtain ⟨e, he, rfl⟩ := Option.map_eq_some_iff.1 h
  exact of_decide_eq_true (List.mem_filter.1 (List.mem_of_head? he)).2

theorem projects_perm_sorted (es : List Event) :
    ((group es).map project).Perm (projects es) := by
  rw [group, List.map_map]
  exact (List.map_id _).symm ▸ List.mergeSort_perm _ _

theorem mem_group_iff {es : List Event} {d : ProjectDigest} :
    d ∈ group es ↔ of? d.project.versionUrl es = some d := by
  rw [group, List.mem_map]
  simp only [List.mem_mergeSort, mem_projects_iff]
  constructor
  · rintro ⟨p, hp, rfl⟩
    obtain ⟨e, he, rfl⟩ := Option.map_eq_some_iff.1 hp
    exact Option.map_eq_some_iff.2 ⟨e, he, rfl⟩
  · intro h
    obtain ⟨e, he, hd⟩ := Option.map_eq_some_iff.1 h
    have hproject : e.project = d.project := congrArg project hd
    refine ⟨d.project, Option.map_eq_some_iff.2 ⟨e, he, hproject⟩, ?_⟩
    rw [← hproject] at hd ⊢
    exact hd

theorem nodup_group (es : List Event) :
    ((group es).map fun d => d.project.versionUrl).Nodup := by
  have hperm := (projects_perm_sorted es).map ProjectVersion.versionUrl
  rw [List.map_map] at hperm
  exact hperm.nodup_iff.2 (nodup_projects es)

theorem pairwise_sorted_projects (es : List Event) :
    ((projects es).mergeSort projectLE).Pairwise (projectLE · ·) :=
  List.pairwise_mergeSort projectLE_trans projectLE_total _

theorem pairwise_group (es : List Event) :
    (group es).Pairwise fun d d' => projectLE d.project d'.project :=
  List.pairwise_map.2 (pairwise_sorted_projects es)

/-- The digests of events: a part of the events for each project version, cut by category. -/
structure Partition (es : List Event) (ds : List ProjectDigest) : Prop where
  /-- Each project version that has an event has one digest. -/
  nodup : (ds.map fun d => d.project.versionUrl).Nodup
  urls : ∀ url, (∃ d ∈ ds, d.project.versionUrl = url) ↔ ∃ e ∈ es, e.project.versionUrl = url
  /-- It is named as its first event names it. -/
  named : ∀ d ∈ ds,
    (es.find? fun e => e.project.versionUrl = d.project.versionUrl).map Event.project =
      some d.project
  ordered : ds.Pairwise fun d d' => d.project.Before d'.project
  bucket : ∀ d ∈ ds, ∀ c, d.bucket c =
    es.filter fun e => e.project.versionUrl = d.project.versionUrl ∧ e.category = c
  counted : ∀ d ∈ ds, ∀ c, c ∈ d.counts ↔ d.bucket c ≠ []
  count : ∀ d ∈ ds, ∀ c n, d.counts[c]? = some n → n = ((d.bucket c).map Event.itemCount).sum
  /-- An event stands in one bucket of one digest. -/
  once : ∀ e ∈ es, ∃! place : ProjectDigest × Category, place.1 ∈ ds ∧ e ∈ place.1.bucket place.2
  perm : (ds.flatMap fun d => Category.all.flatMap d.bucket).Perm es
  total : (ds.map total).sum = (es.map Event.itemCount).sum

variable {es : List Event}

theorem eq_ofEvents_of_mem_group {d : ProjectDigest} (h : d ∈ group es) :
    d = ofEvents d.project (Event.about d.project.versionUrl es) := by
  obtain ⟨e, -, hd⟩ := Option.map_eq_some_iff.1 (mem_group_iff.1 h)
  have hproject : e.project = d.project := congrArg project hd
  rw [hproject] at hd
  exact hd.symm

theorem bucket_of_mem_group {d : ProjectDigest} (h : d ∈ group es) (c : Category) : d.bucket c =
    es.filter fun e => e.project.versionUrl = d.project.versionUrl ∧ e.category = c := by
  have hd := congrArg (bucket · c) (eq_ofEvents_of_mem_group h)
  rw [bucket_ofEvents, select, Event.about, List.filter_filter] at hd
  rw [hd]
  exact List.filter_congr fun e _ => by simp [Bool.and_comm]

theorem getElem?_counts_of_mem_group {d : ProjectDigest} (h : d ∈ group es) (c : Category) :
    d.counts[c]? =
      if d.bucket c = [] then none else some ((d.bucket c).map Event.itemCount).sum := by
  rw [eq_ofEvents_of_mem_group h, bucket_ofEvents, ← items_eq_sum]
  exact getElem?_countAll _ c

theorem urls_group (url : String) :
    (∃ d ∈ group es, d.project.versionUrl = url) ↔ ∃ e ∈ es, e.project.versionUrl = url := by
  have hprojects : (∃ d ∈ group es, d.project.versionUrl = url) ↔
      ∃ p ∈ projects es, p.versionUrl = url := by
    simp only [← (projects_perm_sorted es).mem_iff, List.mem_map, exists_exists_and_eq_and]
  rw [hprojects, exists_mem_projects_iff, Event.about, ne_eq, List.filter_eq_nil_iff]
  simp

/-- The events of the digests are those of the project versions. -/
theorem flatMap_group_perm (es : List Event) :
    ((group es).flatMap fun d => Category.all.flatMap d.bucket).Perm es := by
  have hparts : ((group es).flatMap fun d => Category.all.flatMap d.bucket).Perm
      ((group es).flatMap fun d => Event.about d.project.versionUrl es) := by
    refine List.Perm.flatMap_left _ fun d hd => ?_
    have hbucket := congrArg bucket (eq_ofEvents_of_mem_group hd)
    rw [hbucket]
    exact buckets_perm _ _
  have hurls :
      (((group es).map fun d => d.project.versionUrl).flatMap (Event.about · es)).Perm es :=
    flatMap_filter_perm (fun e : Event => e.project.versionUrl) (nodup_group es) fun e he =>
      List.mem_map.2 ((urls_group _).2 ⟨e, he, rfl⟩)
  rw [List.flatMap_map] at hurls
  exact hparts.trans hurls

theorem sum_total_group (es : List Event) :
    ((group es).map total).sum = (es.map Event.itemCount).sum := by
  have htotal : (group es).map total = (group es).map fun d =>
      ((Category.all.flatMap d.bucket).map Event.itemCount).sum := by
    refine List.map_congr_left fun d hd => ?_
    rw [eq_ofEvents_of_mem_group hd, total_ofEvents, ((buckets_perm _ _).map _).sum_eq]
  rw [htotal, ← sum_map_flatMap, ((flatMap_group_perm es).map _).sum_eq]

/-- An event stands in the bucket of its category in the digest of its project version. -/
theorem mem_bucket_of_mem_group {d : ProjectDigest} (h : d ∈ group es) {c : Category} {e : Event} :
    e ∈ d.bucket c ↔ e ∈ es ∧ e.project.versionUrl = d.project.versionUrl ∧ e.category = c := by
  rw [bucket_of_mem_group h, List.mem_filter, decide_eq_true_iff]

theorem existsUnique_place {e : Event} (he : e ∈ es) :
    ∃! place : ProjectDigest × Category, place.1 ∈ group es ∧ e ∈ place.1.bucket place.2 := by
  obtain ⟨d, hd, hurl⟩ : ∃ d ∈ group es, d.project.versionUrl = e.project.versionUrl :=
    (urls_group _).2 ⟨e, he, rfl⟩
  refine ⟨(d, e.category), ⟨hd, (mem_bucket_of_mem_group hd).2 ⟨he, hurl.symm, rfl⟩⟩, ?_⟩
  rintro ⟨d', c⟩ ⟨hd', hbucket⟩
  obtain ⟨-, hurl', hcategory⟩ := (mem_bucket_of_mem_group hd').1 hbucket
  have hdigest := List.inj_on_of_nodup_map (nodup_group es) hd' hd (hurl'.symm.trans hurl.symm)
  exact Prod.ext hdigest hcategory.symm

/-- **The digests partition the events.** -/
theorem group_partition (es : List Event) : Partition es (group es) where
  nodup := nodup_group es
  urls := urls_group
  named d hd := by
    obtain ⟨e, he, hproject⟩ := Option.map_eq_some_iff.1 (mem_group_iff.1 hd)
    rw [← List.head?_filter]
    exact Option.map_eq_some_iff.2 ⟨e, he, congrArg project hproject⟩
  ordered := by
    refine ((pairwise_group es).and (List.pairwise_map.1 (nodup_group es))).imp ?_
    rintro d d' ⟨hle, hne⟩
    rw [projectLE_eq, Ordering.isLE_iff_eq_lt_or_eq_eq] at hle
    refine ProjectVersion.order_eq_lt_iff.1 (hle.resolve_right fun heq => hne ?_)
    rw [ProjectVersion.eq_of_order heq]
  bucket d hd := bucket_of_mem_group hd
  counted d hd c := by
    rw [ExtTreeMap.mem_iff_isSome_getElem?, getElem?_counts_of_mem_group hd]
    split <;> simp [*]
  count d hd c n hn := by
    rw [getElem?_counts_of_mem_group hd] at hn
    split at hn
    · cases hn
    · exact (Option.some_inj.1 hn).symm
  once _ he := existsUnique_place he
  perm := flatMap_group_perm es
  total := sum_total_group es

/-! ## In one pass -/

/-- A digest without events. -/
def blank (p : ProjectVersion) : ProjectDigest := ⟨p, [], [], [], [], ∅⟩

/-- Puts an event into its bucket and its items to their count. -/
def take (d : ProjectDigest) (e : Event) : ProjectDigest :=
  let counts := d.counts.insert e.category (d.counts.getD e.category 0 + e.itemCount)
  match e.category with
  | .violation => { d with violations := d.violations ++ [e], counts := counts }
  | .override => { d with overrides := d.overrides ++ [e], counts := counts }
  | .cleared => { d with clears := d.clears ++ [e], counts := counts }
  | .vulnerability => { d with vulnerabilities := d.vulnerabilities ++ [e], counts := counts }

/-- Takes an event into the digest of its project version, which its first event starts. -/
def enter (t : ExtTreeMap String ProjectDigest) (e : Event) : ExtTreeMap String ProjectDigest :=
  t.insert e.project.versionUrl ((t.getD e.project.versionUrl (blank e.project)).take e)

/-- The digests by URL after going through the events. -/
def gathered (es : List Event) : ExtTreeMap String ProjectDigest := es.foldl enter ∅

theorem ext_bucket {d d' : ProjectDigest} (hproject : d.project = d'.project)
    (hbucket : ∀ c, d.bucket c = d'.bucket c) (hcounts : d.counts = d'.counts) : d = d' := by
  have hviolations := hbucket .violation
  have hoverrides := hbucket .override
  have hclears := hbucket .cleared
  have hvulnerabilities := hbucket .vulnerability
  cases d
  cases d'
  simp_all [bucket]

theorem bucket_take (d : ProjectDigest) (e : Event) (c : Category) :
    (d.take e).bucket c = d.bucket c ++ if e.category = c then [e] else [] := by
  unfold take
  split <;> rename_i h <;> rw [h] <;> cases c <;> simp [bucket]

theorem counts_take (d : ProjectDigest) (e : Event) : (d.take e).counts =
    d.counts.insert e.category (d.counts.getD e.category 0 + e.itemCount) := by
  unfold take
  split <;> rfl

theorem project_take (d : ProjectDigest) (e : Event) : (d.take e).project = d.project := by
  unfold take
  split <;> rfl

theorem select_concat (es : List Event) (e : Event) (c : Category) :
    select (es ++ [e]) c = select es c ++ if e.category = c then [e] else [] := by
  rw [select, List.filter_append, List.filter_singleton]
  simp [select]

/-- One event more is taken in. -/
theorem take_ofEvents (p : ProjectVersion) (es : List Event) (e : Event) :
    (ofEvents p es).take e = ofEvents p (es ++ [e]) := by
  refine ext_bucket (project_take _ e) (fun c => ?_) ?_
  · rw [bucket_take, bucket_ofEvents, bucket_ofEvents, select_concat]
  · rw [counts_take]
    refine ExtTreeMap.ext_getElem? fun c => ?_
    show ((countAll es).insert e.category ((countAll es).getD e.category 0 + e.itemCount))[c]? =
      (countAll (es ++ [e]))[c]?
    rw [ExtTreeMap.getElem?_insert, ExtTreeMap.getD_eq_getD_getElem?, getElem?_countAll,
      getElem?_countAll, getElem?_countAll, select_concat]
    by_cases hc : e.category = c
    · subst hc
      have hitems : items (select es e.category ++ [e]) =
          items (select es e.category) + e.itemCount := by simp [items_eq_sum]
      by_cases hes : select es e.category = []
      · simp [hes, items_eq_sum]
      · simp [hes, hitems]
    · have hne : compare e.category c ≠ .eq := fun heq => hc (LawfulEqOrd.eq_of_compare heq)
      simp [hc, hne]

theorem foldl_take (p : ProjectVersion) (es fs : List Event) :
    fs.foldl (fun d e => d.take e) (ofEvents p es) = ofEvents p (es ++ fs) := by
  induction fs generalizing es with
  | nil => rw [List.foldl_nil, List.append_nil]
  | cons e fs ih =>
    rw [List.foldl_cons, take_ofEvents, ih, List.append_assoc, List.singleton_append]

/-- The first event starts the digest. -/
theorem foldl_take_none (es : List Event) :
    es.foldl (fun d e => some ((d.getD (blank e.project)).take e)) none =
      es.head?.map fun e => ofEvents e.project es := by
  cases es with
  | nil => rfl
  | cons e es =>
    have hstart : (blank e.project).take e = ofEvents e.project [e] := take_ofEvents e.project [] e
    have hsome : es.foldl (fun d e => some ((d.getD (blank e.project)).take e))
        (some (ofEvents e.project [e])) =
        some (es.foldl (fun d e => d.take e) (ofEvents e.project [e])) :=
      List.foldl_hom some fun _ _ => rfl
    rw [List.foldl_cons, Option.getD_none, hstart, hsome, foldl_take]
    rfl

/-- Under a URL stands the digest of its events. -/
theorem getElem?_gathered (es : List Event) (url : String) : (gathered es)[url]? = of? url es := by
  have hstep : ∀ (t : ExtTreeMap String ProjectDigest) (e : Event), (enter t e)[url]? =
      if decide (e.project.versionUrl = url) then some ((t[url]?.getD (blank e.project)).take e)
      else t[url]? := by
    intro t e
    rw [enter, ExtTreeMap.getElem?_insert, ExtTreeMap.getD_eq_getD_getElem?]
    by_cases hurl : e.project.versionUrl = url
    · subst hurl
      simp
    · have hne : compare e.project.versionUrl url ≠ .eq :=
        fun heq => hurl (LawfulEqOrd.eq_of_compare heq)
      simp [hurl, hne]
  have hview : (es.foldl enter ∅)[url]? = (Event.about url es).foldl
      (fun d e => some ((d.getD (blank e.project)).take e))
      (∅ : ExtTreeMap String ProjectDigest)[url]? :=
    foldl_view (fun t : ExtTreeMap String ProjectDigest => t[url]?) _ hstep es ∅
  rw [gathered, hview, ExtTreeMap.getElem?_empty, foldl_take_none]
  rfl

theorem values_gathered_perm (es : List Event) : (gathered es).values.Perm (group es) := by
  have hmem : ∀ p, p ∈ (gathered es).toList ↔ of? p.1 es = some p.2 := by
    intro p
    rw [← getElem?_gathered, ← ExtTreeMap.mem_toList_iff_getElem?_eq_some]
  rw [values_eq_map]
  refine (List.perm_ext_iff_of_nodup ?_ (nodup_group es).of_map).2 fun d => ?_
  · refine List.pairwise_map.2 ((gathered es).distinct_keys_toList.imp_of_mem ?_)
    intro p q hp hq hne heq
    rw [← versionUrl_of? ((hmem p).1 hp), ← versionUrl_of? ((hmem q).1 hq), heq] at hne
    exact hne ReflOrd.compare_self
  · rw [mem_group_iff, List.mem_map]
    constructor
    · rintro ⟨p, hp, rfl⟩
      have hp := (hmem p).1 hp
      rwa [versionUrl_of? hp]
    · intro hd
      exact ⟨(_, d), (hmem _).2 hd, rfl⟩

/-- **Going through the events once gives the same digests**, in the order of their URLs before they
are sorted. -/
theorem group_eq_gathered (es : List Event) :
    group es = (gathered es).values.mergeSort fun d d' => projectLE d.project d'.project := by
  have hperm := values_gathered_perm es
  have hsorted :
      ((gathered es).values.mergeSort fun d d' => projectLE d.project d'.project).Pairwise
        fun d d' => projectLE d.project d'.project := by
    apply List.pairwise_mergeSort
    · exact fun _ _ _ => projectLE_trans _ _ _
    · exact fun _ _ => projectLE_total _ _
  refine ((List.mergeSort_perm _ _).trans hperm).symm.eq_of_pairwise ?_ (pairwise_group es) hsorted
  intro d d' hd hd' hle hge
  have hd' := hperm.mem_iff.1 (List.mem_mergeSort.1 hd')
  refine List.inj_on_of_nodup_map (nodup_group es) hd hd' ?_
  rw [projectLE_antisymm hle hge]

end ProjectDigest

end ScanDigest
