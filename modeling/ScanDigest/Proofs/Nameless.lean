import Mathlib.Data.List.Forall2
import ScanDigest.Proofs.Applied

/-!
# Names are for display only

Records, and all that a reduction makes of them, have a form without names. Taking the names away
commutes with every step of a reduction: with the verdict on a record, with what a record does to a
board (`PolicyBoard.apply_nameless`) and to a tracker (`Tracker.apply_nameless`), with publishing
(`Tracker.publishKey_nameless`). So a batch without its names is reduced to the outcome without its
names (`events_nameless` and those after it), and batches that differ in names only come to outcomes
that differ in names only (`reduce_renamed`).
-/

set_option autoImplicit false

namespace ScanDigest

open Std

/-! ## Without names -/

def Component.nameless (c : Component) : Component :=
  { c with projectName := "", projectVersionName := "", name := "", versionName := "" }

def PolicyRule.nameless (rule : PolicyRule) : PolicyRule := { rule with name := "" }

def PolicyNotice.nameless (n : PolicyNotice) : PolicyNotice :=
  { n with component := n.component.nameless, rules := n.rules.map PolicyRule.nameless }

def VulnerabilityDelta.nameless (d : VulnerabilityDelta) : VulnerabilityDelta :=
  { d with component := d.component.nameless }

/-- A record without the names of its project, component and rules. -/
def Record.nameless : Record → Record
  | policy action n => policy action n.nameless
  | delta d => delta d.nameless
  | other => other

def Defect.nameless : Defect → Defect
  | ruleWithoutUrl _ => ruleWithoutUrl ""
  | d => d

def Verdict.nameless : Verdict → Verdict
  | malformed d => malformed d.nameless
  | v => v

/-- An entry without its value, unless that is a vulnerability. -/
def Entry.nameless (x : Entry) : Entry :=
  if Label.changes.contains x.label then x else { x with value := "" }

def Event.nameless (e : Event) : Event :=
  { e with project := ⟨"", "", e.project.versionUrl⟩, dataset := e.dataset.map Entry.nameless }

def Tracked.nameless (t : Tracked) : Tracked := { t with component := t.component.nameless }

theorem VulnerabilityDelta.key_nameless (d : VulnerabilityDelta) : d.nameless.key = d.key := rfl

theorem PolicyNotice.key_nameless (n : PolicyNotice) (rule : PolicyRule) :
    n.nameless.key rule.nameless = n.key rule := rfl

theorem PolicyNotice.event_nameless (n : PolicyNotice) (action : PolicyAction) (rule : PolicyRule) :
    n.nameless.event action rule.nameless = (n.event action rule).nameless := rfl

theorem Event.key_nameless (e : Event) : e.nameless.key = e.key := rfl

/-! ## Verdicts -/

namespace Record

theorem checkComponent_nameless (c : Component) :
    checkComponent c.nameless = (checkComponent c).mapError Defect.nameless := by
  simp [checkComponent, Component.nameless, Defect.nameless]

/-- Only the name of a bad rule is lost of what is wrong with a record. -/
theorem check_nameless (r : Record) : r.nameless.check = r.check.mapError Defect.nameless := by
  cases r with
  | policy action n =>
    have hurl : ((fun rule => !hasUrl rule.url) ∘ PolicyRule.nameless) =
        fun rule => !hasUrl rule.url := rfl
    cases hf : n.rules.find? fun rule => !hasUrl rule.url <;>
      simp [check, nameless, PolicyNotice.nameless, PolicyRule.nameless, Defect.nameless,
        checkComponent_nameless, hurl, hf]
  | delta d =>
    simp [check, nameless, VulnerabilityDelta.nameless, checkComponent_nameless, Defect.nameless]
  | other => rfl

theorem timestamp?_nameless (r : Record) : r.nameless.timestamp? = r.timestamp? := by
  cases r <;> rfl

theorem effective_nameless (r : Record) :
    r.nameless.effective = r.effective.mapError Defect.nameless := by
  cases h : Time.parse (r.timestamp?.getD "") <;>
    simp [effective, check_nameless, timestamp?_nameless, Defect.nameless, h]

theorem verdict_nameless (w : Window) (r : Record) :
    r.nameless.verdict w = (r.verdict w).nameless := by
  by_cases hr : r = .other
  · subst hr
    rfl
  have hr' : r.nameless ≠ .other := by cases r <;> simp_all [nameless]
  rw [verdict_of_known hr', verdict_of_known hr, effective_nameless]
  cases r.effective with
  | error d => rfl
  | ok t =>
    show (if w.contains t then Verdict.applied else .outside) =
      (if w.contains t then Verdict.applied else .outside).nameless
    split <;> rfl

end Record

/-- What does not look at a defect does not look at a name. -/
theorem Verdict.apply_nameless {p : Verdict → Bool}
    (hp : ∀ d e, p (.malformed d) = p (.malformed e)) (v : Verdict) : p v.nameless = p v := by
  cases v with
  | malformed d => exact hp _ _
  | ignored => rfl
  | outside => rfl
  | applied => rfl

theorem appliedRecords_nameless (w : Window) (rs : List Record) :
    appliedRecords w (rs.map Record.nameless) = (appliedRecords w rs).map Record.nameless := by
  rw [appliedRecords, List.filter_map]
  refine congrArg _ (List.filter_congr fun r _ => ?_)
  rw [Function.comp_apply, Record.verdict_nameless]
  exact Verdict.apply_nameless (p := (· == .applied)) (fun _ _ => rfl) _

theorem countP_nameless (w : Window) (rs : List Record) {p : Verdict → Bool}
    (hp : ∀ d e, p (.malformed d) = p (.malformed e)) :
    (rs.map Record.nameless).countP (fun r => p (r.verdict w)) =
      rs.countP fun r => p (r.verdict w) := by
  rw [List.countP_map]
  refine List.countP_congr fun r _ => ?_
  rw [Function.comp_apply, Record.verdict_nameless, Verdict.apply_nameless hp]

/-! ## Stores -/

namespace Store

variable (s : Store)

def nameless : Store where
  table := s.table.map fun _ e => e.nameless
  keyed {k e} h := by
    rw [ExtTreeMap.getElem?_map] at h
    obtain ⟨e', he', rfl⟩ := Option.map_eq_some_iff.1 h
    show e'.key = k
    exact s.keyed he'

theorem get?_nameless (k : EventKey) : s.nameless.get? k = (s.get? k).map Event.nameless :=
  ExtTreeMap.getElem?_map

theorem empty_nameless : empty.nameless = empty := by
  ext1 k
  rw [get?_nameless, get?_empty]
  rfl

theorem put_nameless (e : Event) : s.nameless.put e.nameless = (s.put e).nameless := by
  ext1 k
  rw [get?_put, get?_nameless, get?_nameless, get?_put, Event.key_nameless]
  split <;> rfl

theorem remove_nameless (k : EventKey) : s.nameless.remove k = (s.remove k).nameless := by
  ext1 l
  rw [get?_remove, get?_nameless, get?_nameless, get?_remove]
  split <;> rfl

theorem events_nameless : s.nameless.events = s.events.map Event.nameless := by
  rw [events_eq, events_eq, nameless, ExtTreeMap.toList_map, List.map_map, List.map_map]
  rfl

end Store

/-! ## Boards -/

namespace PolicyBoard

def nameless (b : PolicyBoard) : PolicyBoard := ⟨b.states, b.store.nameless⟩

theorem applyRule_nameless (action : PolicyAction) (n : PolicyNotice) (b : PolicyBoard)
    (rule : PolicyRule) : applyRule action n.nameless b.nameless rule.nameless =
      (applyRule action n b rule).nameless := by
  have hstate : b.nameless.state? (n.key rule) = b.state? (n.key rule) := rfl
  simp only [applyRule, PolicyNotice.key_nameless, PolicyNotice.event_nameless, hstate]
  cases effect action (b.state? (n.key rule)) with
  | publish => simp only [nameless, Store.put_nameless]
  | withdraw => simp only [nameless, Store.remove_nameless]
  | ignore => rfl

theorem apply_nameless (b : PolicyBoard) (r : Record) :
    b.nameless.apply r.nameless = (b.apply r).nameless := by
  cases r with
  | policy action n =>
    show (n.rules.map PolicyRule.nameless).foldl (applyRule action n.nameless) b.nameless = _
    rw [List.foldl_map]
    exact List.foldl_hom nameless (applyRule_nameless action n)
  | delta d => rfl
  | other => rfl

end PolicyBoard

theorem policyBoard_nameless (rs : List Record) :
    policyBoard (rs.map Record.nameless) = (policyBoard rs).nameless := by
  have hempty : PolicyBoard.ofStore ∅ = (PolicyBoard.ofStore ∅).nameless :=
    congrArg PolicyBoard.ofStore Store.empty_nameless.symm
  rw [policyBoard, List.foldl_map, hempty]
  exact List.foldl_hom PolicyBoard.nameless PolicyBoard.apply_nameless

/-! ## Trackers -/

theorem Tracked.apply_nameless (t : Option Tracked) (d : VulnerabilityDelta) :
    Tracked.apply (t.map Tracked.nameless) d.nameless = (Tracked.apply t d).nameless := by
  cases t <;> rfl

namespace Tracker

def nameless (t : Tracker) : Tracker := ⟨t.tracked.map fun _ x => x.nameless⟩

theorem tracked_nameless (t : Tracker) (k : EventKey) :
    t.nameless.tracked[k]? = t.tracked[k]?.map Tracked.nameless := ExtTreeMap.getElem?_map

theorem applyDelta_nameless (t : Tracker) (d : VulnerabilityDelta) :
    t.nameless.applyDelta d.nameless = (t.applyDelta d).nameless := by
  refine congrArg mk (ExtTreeMap.ext_getElem? fun {k} => ?_)
  show (t.nameless.applyDelta d.nameless).tracked[k]? = (t.applyDelta d).nameless.tracked[k]?
  rw [tracked_applyDelta, tracked_nameless, tracked_nameless, tracked_applyDelta,
    Tracked.apply_nameless, VulnerabilityDelta.key_nameless]
  split <;> rfl

theorem apply_nameless (t : Tracker) (r : Record) :
    t.nameless.apply r.nameless = (t.apply r).nameless := by
  cases r with
  | policy action n => rfl
  | delta d => exact t.applyDelta_nameless d
  | other => rfl

theorem changed_nameless (t : Tracker) :
    t.nameless.changed = t.changed.map fun p => (p.1, p.2.nameless) := by
  rw [changed, nameless, ExtTreeMap.toList_map, List.filter_map]
  rfl

end Tracker

theorem tracker_nameless (rs : List Record) :
    tracker (rs.map Record.nameless) = (tracker rs).nameless := by
  have hempty : (∅ : Tracker) = (∅ : Tracker).nameless := by
    refine congrArg Tracker.mk (ExtTreeMap.ext_getElem? fun {k} => ?_)
    rw [ExtTreeMap.getElem?_map]
    rfl
  rw [tracker, List.foldl_map, hempty]
  exact List.foldl_hom Tracker.nameless Tracker.apply_nameless

/-! ## Publishing -/

/-- Vulnerabilities are shown by what was looked up, and keep that. -/
theorem Tracked.event_nameless (t : Tracked) (k : EventKey) (info : ComponentVulnerabilities) :
    t.nameless.event k info = (t.event k info).nameless := by
  have hchange {label : String} (h : label ∈ Label.changes) (vs : List VulnerabilityId) :
      (vs.map fun v => Entry.mk label (info.display v)).map Entry.nameless =
        vs.map fun v => ⟨label, info.display v⟩ := by
    rw [List.map_map]
    exact List.map_congr_left fun v _ => if_pos (List.contains_iff_mem.2 h)
  simp only [event, Event.nameless, List.map_append, List.map_cons]
  rw [hchange (by decide), hchange (by decide), hchange (by decide)]
  rfl

namespace Tracker

def Progress.nameless (p : Progress) : Progress := { p with store := p.store.nameless }

theorem publishKey_nameless (lookup : Lookup) (p : Progress) (kt : EventKey × Tracked) :
    publishKey lookup p.nameless (kt.1, kt.2.nameless) = (publishKey lookup p kt).nameless := by
  obtain ⟨k, t⟩ := kt
  have hresolve : p.nameless.memo.resolve lookup t.nameless.component.versionUrl =
      p.memo.resolve lookup t.component.versionUrl := rfl
  simp only [publishKey, hresolve]
  rcases p.memo.resolve lookup t.component.versionUrl with ⟨e | info, memo⟩
  · rfl
  · simp only [Progress.settle, Progress.nameless, Tracked.event_nameless, Store.put_nameless]

theorem publishKeys_nameless (lookup : Lookup) (kts : List (EventKey × Tracked)) (p : Progress) :
    (kts.map fun kt => (kt.1, kt.2.nameless)).foldl (publishKey lookup) p.nameless =
      (kts.foldl (publishKey lookup) p).nameless := by
  induction kts generalizing p with
  | nil => rfl
  | cons kt kts ih =>
    rw [List.map_cons, List.foldl_cons, List.foldl_cons, publishKey_nameless, ih]

theorem publish_nameless (lookup : Lookup) (t : Tracker) (s : Store) :
    t.nameless.publish lookup s.nameless = (t.publish lookup s).nameless := by
  rw [publish, publish, publishOnto, publishOnto, changed_nameless]
  exact publishKeys_nameless lookup t.changed ⟨s, ∅, []⟩

end Tracker

/-! ## Reductions -/

section

variable (w : Window) (lookup : Lookup) (c : Config) (rs : List Record)

theorem publication_nameless : publication w lookup c (rs.map Record.nameless) =
    (publication w lookup c rs).nameless := by
  simp only [publication, appliedRecords_nameless, policyBoard_nameless, tracker_nameless]
  split
  · exact Tracker.publish_nameless lookup _ _
  · rfl

theorem events_nameless : (reduceWithin w lookup c (rs.map Record.nameless)).outcome.events =
    (reduceWithin w lookup c rs).outcome.events.map Event.nameless := by
  rw [events_reduceWithin, events_reduceWithin, publication_nameless, Tracker.Progress.nameless,
    Store.events_nameless, List.filter_map]
  rfl

theorem lookupFailures_nameless :
    (reduceWithin w lookup c (rs.map Record.nameless)).outcome.lookupFailures =
      (reduceWithin w lookup c rs).outcome.lookupFailures := by
  rw [lookupFailures_reduceWithin, lookupFailures_reduceWithin, publication_nameless]
  rfl

theorem asked_nameless : (reduceWithin w lookup c (rs.map Record.nameless)).asked =
    (reduceWithin w lookup c rs).asked := by
  simp only [reduceWithin, publication_nameless]
  rfl

theorem stats_nameless : (reduceWithin w lookup c (rs.map Record.nameless)).outcome.stats =
    (reduceWithin w lookup c rs).outcome.stats := by
  have hignored := countP_nameless w rs (p := (· == .ignored)) fun _ _ => rfl
  have hmalformed := countP_nameless w rs (p := Verdict.isMalformed) fun _ _ => rfl
  have houtside := countP_nameless w rs (p := (· == .outside)) fun _ _ => rfl
  have hfiltered : ∀ s : Store, (s.nameless.events.filter
      (not ∘ fun e : Event => c.isEnabled e.category)).length =
        (s.events.filter (not ∘ fun e : Event => c.isEnabled e.category)).length := by
    intro s
    rw [Store.events_nameless, List.filter_map, List.length_map]
    rfl
  have hpublishable : ∀ t : Tracker, t.nameless.publishable = t.publishable := by
    intro t
    rw [Tracker.publishable, Tracker.changed_nameless, List.length_map, Tracker.publishable]
  simp only [reduceWithin, publication_nameless, appliedRecords_nameless, tracker_nameless,
    hignored, hmalformed, houtside, hpublishable, List.length_map, List.partition_eq_filter_filter,
    Tracker.Progress.nameless, hfiltered]

/-- Where a record error is, and of what kind of record. -/
def RecordError.place (e : RecordError) : Nat × String := (e.index, e.kind)

theorem place_nameless (r : Record) (i : Nat) :
    (recordError? w (r.nameless, i)).map RecordError.place =
      (recordError? w (r, i)).map RecordError.place := by
  have hkind : r.nameless.kind = r.kind := by cases r <;> rfl
  simp only [recordError?, Record.verdict_nameless]
  cases r.verdict w with
  | malformed d => exact congrArg (fun kind => some (i, kind)) hkind
  | ignored => rfl
  | outside => rfl
  | applied => rfl

theorem places_nameless :
    (reduceWithin w lookup c (rs.map Record.nameless)).outcome.recordErrors.map RecordError.place =
      (reduceWithin w lookup c rs).outcome.recordErrors.map RecordError.place := by
  show ((rs.map Record.nameless).zipIdx.filterMap (recordError? w)).map RecordError.place =
    (rs.zipIdx.filterMap (recordError? w)).map RecordError.place
  rw [List.map_filterMap, List.map_filterMap, List.zipIdx_map, List.filterMap_map]
  exact List.filterMap_congr fun p _ => place_nameless w p.1 p.2

end

/-! ## Renamed batches -/

/-- The URLs that a component version is known by. -/
def Component.urls (c : Component) : String × String := (c.projectVersionUrl, c.versionUrl)

/-- Two records that differ at most in names. -/
inductive Record.Renamed : Record → Record → Prop
  | policy {action : PolicyAction} {n m : PolicyNotice} :
      n.timestamp = m.timestamp → n.component.urls = m.component.urls →
      n.rules.map PolicyRule.url = m.rules.map PolicyRule.url →
      Renamed (.policy action n) (.policy action m)
  | delta {d e : VulnerabilityDelta} :
      d.timestamp = e.timestamp → d.component.urls = e.component.urls →
      d.added = e.added → d.updated = e.updated → d.deleted = e.deleted →
      Renamed (.delta d) (.delta e)
  | other : Renamed .other .other

/-- Two events that differ at most in names. -/
structure Event.Renamed (e f : Event) : Prop where
  key : e.key = f.key
  category : e.category = f.category
  projectVersionUrl : e.project.versionUrl = f.project.versionUrl
  labels : e.dataset.map Entry.label = f.dataset.map Entry.label
  changes : ∀ label ∈ Label.changes, e.values label = f.values label

theorem Component.nameless_eq {c d : Component} (h : c.urls = d.urls) :
    c.nameless = d.nameless := by
  obtain ⟨hproject, hversion⟩ := Prod.mk.inj h
  simp only [nameless, hproject, hversion]

theorem Record.Renamed.nameless_eq {r s : Record} (h : r.Renamed s) : r.nameless = s.nameless := by
  cases h with
  | @policy action n m htime hurls hrules =>
    have hnameless : PolicyRule.nameless = PolicyRule.mk "" ∘ PolicyRule.url := rfl
    have hrules' : n.rules.map PolicyRule.nameless = m.rules.map PolicyRule.nameless := by
      rw [hnameless, ← List.map_map, ← List.map_map, hrules]
    simp only [nameless, PolicyNotice.nameless, htime, Component.nameless_eq hurls, hrules']
  | delta htime hurls hadded hupdated hdeleted =>
    simp only [nameless, VulnerabilityDelta.nameless, htime, Component.nameless_eq hurls, hadded,
      hupdated, hdeleted]
  | other => rfl

theorem map_nameless_eq {rs ss : List Record} (h : List.Forall₂ Record.Renamed rs ss) :
    rs.map Record.nameless = ss.map Record.nameless := by
  rw [← List.forall₂_eq_eq_eq, List.forall₂_map_left_iff, List.forall₂_map_right_iff]
  exact h.imp fun _ _ hr => hr.nameless_eq

namespace Event

theorem label_nameless (x : Entry) : x.nameless.label = x.label := by
  unfold Entry.nameless
  split <;> rfl

theorem labels_nameless (e : Event) :
    e.nameless.dataset.map Entry.label = e.dataset.map Entry.label := by
  rw [nameless, List.map_map]
  exact List.map_congr_left fun x _ => label_nameless x

theorem values_nameless (e : Event) {label : String} (h : label ∈ Label.changes) :
    e.nameless.values label = e.values label := by
  have hfilter : (fun x : Entry => x.label == label) ∘ Entry.nameless =
      fun x => x.label == label := by
    funext x
    rw [Function.comp_apply, label_nameless]
  rw [values, values, nameless, List.filter_map, hfilter, List.map_map]
  refine List.map_congr_left fun x hx => ?_
  have hx : x.label = label := eq_of_beq (List.mem_filter.1 hx).2
  rw [Function.comp_apply, Entry.nameless, if_pos (List.contains_iff_mem.2 (hx ▸ h))]

theorem renamed_of_nameless_eq {e f : Event} (h : e.nameless = f.nameless) : e.Renamed f where
  key := (congrArg key h :)
  category := (congrArg category h :)
  projectVersionUrl := (congrArg (fun e => e.project.versionUrl) h :)
  labels := by rw [← labels_nameless e, h, labels_nameless]
  changes label hlabel := by rw [← e.values_nameless hlabel, h, values_nameless f hlabel]

theorem forall₂_renamed {es fs : List Event} (h : es.map nameless = fs.map nameless) :
    List.Forall₂ Renamed es fs := by
  rw [← List.forall₂_eq_eq_eq, List.forall₂_map_left_iff, List.forall₂_map_right_iff] at h
  exact h.imp fun _ _ => renamed_of_nameless_eq

end Event

/-- Batches that differ in names only come to outcomes that differ in names only: events and the
reasons of record errors may show other names, and that is all. -/
theorem reduce_renamed {c : Config} {w : Window} (hw : c.window = .ok w) (lookup : Lookup)
    {rs ss : List Record} (h : List.Forall₂ Record.Renamed rs ss) :
    ∃ r s, reduce lookup c rs = .ok r ∧ reduce lookup c ss = .ok s ∧
      r.outcome.stats = s.outcome.stats ∧
      r.outcome.lookupFailures = s.outcome.lookupFailures ∧
      r.asked = s.asked ∧
      r.outcome.recordErrors.map RecordError.place =
        s.outcome.recordErrors.map RecordError.place ∧
      List.Forall₂ Event.Renamed r.outcome.events s.outcome.events := by
  have hsame := map_nameless_eq h
  refine ⟨_, _, reduce_of_valid lookup rs hw, reduce_of_valid lookup ss hw, ?_, ?_, ?_, ?_, ?_⟩
  · rw [← stats_nameless, hsame, stats_nameless]
  · rw [← lookupFailures_nameless, hsame, lookupFailures_nameless]
  · rw [← asked_nameless, hsame, asked_nameless]
  · rw [← places_nameless, hsame, places_nameless]
  · refine Event.forall₂_renamed ?_
    rw [← events_nameless, hsame, events_nameless]

/-- A project, a component and its rules are renamed, one of them a rule without a URL. -/
theorem reduce_renamed_component :
    let c : Component := ⟨"billing", "1.0", "openssl", "1.0.2k", "/pv/1", "/cv/1"⟩
    let d : Component := ⟨"payments", "1", "OpenSSL", "1.0.2", "/pv/1", "/cv/1"⟩
    let time : String := "2026-02-10T00:00:00Z"
    let ids : List VulnerabilityId := [⟨"NVD", "A"⟩]
    let rs : List Record := [.policy .violate ⟨time, c, [⟨"No GPL", "/r"⟩]⟩,
      .policy .clear ⟨time, c, [⟨"No AGPL", ""⟩]⟩, .delta ⟨time, c, ids, [], []⟩]
    let ss : List Record := [.policy .violate ⟨time, d, [⟨"Copyleft", "/r"⟩]⟩,
      .policy .clear ⟨time, c, [⟨"Network", ""⟩]⟩, .delta ⟨time, d, ids, [], []⟩]
    let lookup : Lookup := fun _ => .ok ⟨[⟨"NVD", "A", "heartbleed", none⟩]⟩
    Config.default.window = .ok .all ∧ List.Forall₂ Record.Renamed rs ss ∧
    ∃ r s, reduce lookup .default rs = .ok r ∧ reduce lookup .default ss = .ok s ∧
      r.outcome.stats = s.outcome.stats ∧
      List.Forall₂ Event.Renamed r.outcome.events s.outcome.events := by
  intro c d time ids rs ss lookup
  have hw : Config.default.window = .ok .all := by decide
  have h : List.Forall₂ Record.Renamed rs ss :=
    .cons (.policy rfl rfl rfl) <| .cons (.policy rfl rfl rfl) <|
      .cons (.delta rfl rfl rfl rfl rfl) .nil
  obtain ⟨r, s, hr, hs, hstats, -, -, -, hevents⟩ := reduce_renamed hw lookup h
  exact ⟨hw, h, r, s, hr, hs, hstats, hevents⟩

end ScanDigest
