import Mathlib.Data.List.Forall2
import ScanDigest.Proofs.Records

/-!
# The shapes of records

A codec takes the values of one shape (`Codec.Takes`), whatever the setting: a structure of texts
takes an object with a string under each name, or an array of these strings; a list takes an array
of items of its shape. So an object decodes as a record exactly if it has the shape of its type
(`Record.Shape`), and then no member but those that the type names has a part in it
(`Record.decodes_by_shape`).
-/

set_option autoImplicit false

namespace ScanDigest

open Json

/-! ## Shapes of values -/

namespace Json

/-- Texts as an object with one under each name, whatever its other members, or as an array. -/
inductive HasTexts (names : List String) : Json → List String → Prop where
  | obj {ms : List (String × Json)} {texts : List String}
      (members : names.map (last ms) = texts.map fun s => some (.str s)) :
      HasTexts names (.obj ms) texts
  | arr (texts : List String) : HasTexts names (.arr (texts.map .str)) texts

/-- An array with an item of a shape for each of some values. -/
inductive HasItems {α : Type} (Shape : Json → α → Prop) : Json → List α → Prop where
  | arr {js : List Json} {as : List α} (items : List.Forall₂ Shape js as) :
      HasItems Shape (.arr js) as

end Json

/-- An object with six texts by name, or an array of them. -/
def Component.Shape (j : Json) (c : Component) : Prop :=
  HasTexts ["project_name", "project_version_name", "component_name", "component_version_name",
      "project_version_url", "component_version_url"] j
    [c.projectName, c.projectVersionName, c.name, c.versionName, c.projectVersionUrl, c.versionUrl]

def PolicyRule.Shape (j : Json) (r : PolicyRule) : Prop :=
  HasTexts ["name", "url"] j [r.name, r.url]

def VulnerabilityId.Shape (j : Json) (v : VulnerabilityId) : Prop :=
  HasTexts ["source", "id"] j [v.source, v.id]

/-- An array of ids, or nothing for none. -/
def VulnerabilityId.ListShape (j? : Option Json) (ids : List VulnerabilityId) : Prop :=
  j?.elim (ids = []) (HasItems Shape · ids)

/-- The members of a policy notice. -/
structure PolicyNotice.Shape (look : String → Option Json) (n : PolicyNotice) : Prop where
  timestamp : look "timestamp" = some (.str n.timestamp)
  component : ∃ j, look "component" = some j ∧ n.component.Shape j
  rules : ∃ j, look "rules" = some j ∧ HasItems PolicyRule.Shape j n.rules

/-- The members of a delta. -/
structure VulnerabilityDelta.Shape (look : String → Option Json) (d : VulnerabilityDelta) :
    Prop where
  timestamp : look "timestamp" = some (.str d.timestamp)
  component : ∃ j, look "component" = some j ∧ d.component.Shape j
  added : VulnerabilityId.ListShape (look "added") d.added
  updated : VulnerabilityId.ListShape (look "updated") d.updated
  deleted : VulnerabilityId.ListShape (look "deleted") d.deleted

namespace Record

/-- The names of the types that are known. -/
def knownTags : List String :=
  ["POLICY_VIOLATION", "POLICY_OVERRIDE", "POLICY_CLEAR", "VULNERABILITY_DELTA"]

/-- The members of a record, by its type. A record of an unknown type may have any others. -/
inductive Shape (look : String → Option Json) : Record → Prop where
  | policy {action : PolicyAction} {n : PolicyNotice} (tag : look "type" = some (.str action.kind))
      (notice : n.Shape look) : Shape look (.policy action n)
  | delta {d : VulnerabilityDelta} (tag : look "type" = some (.str "VULNERABILITY_DELTA"))
      (delta : d.Shape look) : Shape look (.delta d)
  | other {tag : String} (string : look "type" = some (.str tag)) (unknown : tag ∉ knownTags) :
      Shape look .other

end Record

/-! ## What a codec takes -/

/-- The codec takes the documents of a shape, in any setting. -/
def Codec.Takes {α : Type} (c : Codec α) (Shape : Json → α → Prop) : Prop :=
  ∀ setting j a, c.decode setting j.sorted = .ok a ↔ Shape j a

theorem mapM_eq_ok_iff {ε α β : Type} {f : α → Except ε β} {as : List α} {bs : List β} :
    as.mapM f = .ok bs ↔ List.Forall₂ (fun a b => f a = .ok b) as bs := by
  induction as generalizing bs with
  | nil => cases bs <;> simp
  | cons a as ih =>
    simp only [List.mapM_cons, bind_eq_ok, pure_eq_ok, ih]
    constructor
    · rintro ⟨b, hb, bs, hbs, rfl⟩
      exact .cons hb hbs
    · rintro (_ | ⟨hb, hbs⟩)
      exact ⟨_, hb, _, hbs, rfl⟩

namespace Codec.Takes

variable {α : Type} {c : Codec α} {Shape : Json → α → Prop}

theorem text : Codec.text.Takes fun j s => j = .str s := by
  intro setting j s
  cases j <;> simp [Codec.text, sorted]

theorem list (h : c.Takes Shape) : (Codec.list c).Takes (HasItems Shape) := by
  intro setting j as
  cases j with
  | arr items =>
    show (sortedItems items).mapM (c.decode setting) = .ok as ↔ _
    rw [sortedItems_eq, List.mapM_map, mapM_eq_ok_iff]
    simp only [Function.comp_apply, h setting]
    constructor
    · exact .arr
    · rintro ⟨hitems⟩
      exact hitems
  | _ =>
    simp only [Codec.list, sorted, reduceCtorEq, false_iff]
    rintro ⟨⟩

end Codec.Takes

theorem Codec.struct_decode_eq_ok_iff {α τ : Type} {name : String} {fs : Fields τ} {build : τ → α}
    {parts : α → τ} (hbuild : ∀ a, build (parts a) = a) (hparts : ∀ x, parts (build x) = x)
    {setting : Setting} {j : Json} {a : α} :
    (Codec.struct name fs build parts).decode setting j = .ok a ↔
      fs.decode name setting j = .ok (parts a) := by
  refine (map_eq_ok (b := a)).trans ⟨?_, fun h => ⟨_, h, hbuild a⟩⟩
  rintro ⟨x, hx, rfl⟩
  rwa [hparts]

namespace Fields

section

variable {α β : Type} {c : Codec α} {Shape : Json → α → Prop} {more : Fields β} {name : String}
  {setting : Setting} {look : String → Option Json} {a d : α} {x : β}

theorem holds_required (hc : c.Takes Shape) :
    (cons (.required name c) more).Holds setting (fun k => (look k).map sorted) (a, x) ↔
      (∃ j, look name = some j ∧ Shape j a) ∧
        more.Holds setting (fun k => (look k).map sorted) x := by
  rw [Holds]
  refine and_congr_left fun _ => ?_
  simp only [Field.required]
  cases look name with
  | none => simp
  | some j => simp [hc setting]

theorem holds_defaulted (hc : c.Takes Shape) :
    (cons (.defaulted name c d) more).Holds setting (fun k => (look k).map sorted) (a, x) ↔
      (look name).elim (a = d) (Shape · a) ∧
        more.Holds setting (fun k => (look k).map sorted) x := by
  rw [Holds]
  refine and_congr_left fun _ => ?_
  simp only [Field.defaulted]
  cases look name with
  | none => simp [eq_comm]
  | some j => simp [hc setting]

end

/-! ## Structures of texts -/

/-- All fields are texts that have to be there; `texts` lists them. -/
inductive Texts : {τ : Type} → Fields τ → (τ → List String) → Prop where
  | nil : Texts .nil fun _ => []
  | cons {τ : Type} (name : String) {more : Fields τ} {texts : τ → List String}
      (rest : more.Texts texts) :
      Texts (.cons (.required name .text) more) fun x => x.1 :: texts x.2

namespace Texts

variable {τ : Type} {fs : Fields τ} {texts : τ → List String} {setting : Setting} {x : τ}

theorem holds_iff (h : fs.Texts texts) {look : String → Option Json} :
    fs.Holds setting (fun k => (look k).map sorted) x ↔
      fs.names.map look = (texts x).map fun s => some (.str s) := by
  induction h with
  | nil => simp [Holds, names]
  | cons name rest ih =>
    obtain ⟨s, x⟩ := x
    rw [holds_required .text, ih]
    simp [names, Field.required]

theorem holdsItems_iff (h : fs.Texts texts) {items : List Json} :
    fs.HoldsItems setting (items.map sorted) x ∧ items.length ≤ fs.count ↔
      items = (texts x).map .str := by
  induction h generalizing items with
  | nil => simp [HoldsItems, count]
  | cons name rest ih =>
    obtain ⟨s, x⟩ := x
    cases items with
    | nil => simp [HoldsItems, Field.required]
    | cons j items =>
      have htext : Codec.text.decode setting j.sorted = .ok s ↔ j = .str s := Codec.Takes.text ..
      simp [HoldsItems, Field.required, count, htext, and_assoc, ih]

theorem takes (h : fs.Texts texts) (hnames : fs.names.Nodup) {α : Type} {name : String}
    {build : τ → α} {parts : α → τ} (hbuild : ∀ a, build (parts a) = a)
    (hparts : ∀ x, parts (build x) = x) :
    (Codec.struct name fs build parts).Takes fun j a => HasTexts fs.names j (texts (parts a)) := by
  intro setting j a
  rw [Codec.struct_decode_eq_ok_iff hbuild hparts]
  cases j with
  | obj ms =>
    rw [sorted, decode_obj_eq_ok_iff hnames (nodup_keys_sorted ms)]
    simp only [lookup_sortedMembers, h.holds_iff]
    constructor
    · exact .obj
    · rintro (hmembers | _)
      exact hmembers
  | arr items =>
    rw [sorted, sortedItems_eq, decode_arr_eq_ok_iff, List.length_map, h.holdsItems_iff]
    constructor
    · rintro rfl
      exact .arr _
    · intro h
      cases h
      rfl
  | _ =>
    simp only [decode, sorted, reduceCtorEq, false_iff]
    rintro ⟨⟩

end Texts

end Fields

theorem Component.takes : Component.codec.Takes Component.Shape :=
  Fields.Texts.takes (.cons _ <| .cons _ <| .cons _ <| .cons _ <| .cons _ <| .cons _ .nil)
    (by decide) (fun _ => rfl) fun _ => rfl

theorem PolicyRule.takes : PolicyRule.codec.Takes PolicyRule.Shape :=
  Fields.Texts.takes (.cons _ <| .cons _ .nil) (by decide) (fun _ => rfl) fun _ => rfl

theorem VulnerabilityId.takes : VulnerabilityId.codec.Takes VulnerabilityId.Shape :=
  Fields.Texts.takes (.cons _ <| .cons _ .nil) (by decide) (fun _ => rfl) fun _ => rfl

/-! ## Members besides the type -/

/-- The members of a value besides the type of a record. -/
def Record.untagged (ms : List (String × Json)) : Json :=
  .obj ((sortedMembers [] ms).filter fun m => m.1 != tagKey)

section

variable {ms : List (String × Json)}

theorem Fields.decode_untagged_iff {τ : Type} {fs : Fields τ} (hnames : fs.names.Nodup)
    (htag : Record.tagKey ∉ fs.names) {name : String} {setting : Setting} {x : τ} :
    fs.decode name setting (Record.untagged ms) = .ok x ↔
      fs.Holds setting (fun k => (last ms k).map sorted) x := by
  have hlook : ∀ k ∈ fs.names,
      ((sortedMembers [] ms).filter fun m => m.1 != Record.tagKey).lookup k =
        (last ms k).map sorted := by
    intro k hk
    have hne : k ≠ Record.tagKey := by
      rintro rfl
      exact htag hk
    rw [lookup_filter_ne _ hne, lookup_sortedMembers]
  rw [Record.untagged,
    decode_obj_eq_ok_iff hnames ((nodup_keys_sorted ms).sublist (List.filter_sublist.map _))]
  exact ⟨fun h => h.congr fun k hk => (hlook k hk).symm, fun h => h.congr hlook⟩

theorem PolicyNotice.decode_untagged_iff {n : PolicyNotice} :
    PolicyNotice.codec.decode .record (Record.untagged ms) = .ok n ↔ n.Shape (last ms) := by
  rw [PolicyNotice.codec, Codec.struct_decode_eq_ok_iff (fun _ => rfl) fun _ => rfl,
    Fields.decode_untagged_iff (by decide) (by decide), Fields.holds_required .text,
    Fields.holds_required Component.takes, Fields.holds_required PolicyRule.takes.list]
  constructor
  · rintro ⟨⟨_, htimestamp, rfl⟩, hcomponent, hrules, -⟩
    exact ⟨htimestamp, hcomponent, hrules⟩
  · rintro ⟨htimestamp, hcomponent, hrules⟩
    exact ⟨⟨_, htimestamp, rfl⟩, hcomponent, hrules, trivial⟩

theorem VulnerabilityDelta.decode_untagged_iff {d : VulnerabilityDelta} :
    VulnerabilityDelta.codec.decode .record (Record.untagged ms) = .ok d ↔ d.Shape (last ms) := by
  have hids := VulnerabilityId.takes.list
  rw [VulnerabilityDelta.codec, Codec.struct_decode_eq_ok_iff (fun _ => rfl) fun _ => rfl,
    Fields.decode_untagged_iff (by decide) (by decide), Fields.holds_required .text,
    Fields.holds_required Component.takes, Fields.holds_defaulted hids, Fields.holds_defaulted hids,
    Fields.holds_defaulted hids]
  constructor
  · rintro ⟨⟨_, htimestamp, rfl⟩, hcomponent, hadded, hupdated, hdeleted, -⟩
    exact ⟨htimestamp, hcomponent, hadded, hupdated, hdeleted⟩
  · rintro ⟨htimestamp, hcomponent, hadded, hupdated, hdeleted⟩
    exact ⟨⟨_, htimestamp, rfl⟩, hcomponent, hadded, hupdated, hdeleted, trivial⟩

end

/-! ## Records -/

namespace Record

theorem ofTag_of_unknown {tag : String} (h : tag ∉ knownTags) : Kind.ofTag tag = .other := by
  unfold Kind.ofTag
  split
  case h_5 => rfl
  all_goals exact absurd (by decide) h

/-- A type is named by one of the known tags, or it is unknown. -/
theorem ofTag_cases (tag : String) : (∃ action : PolicyAction, tag = action.kind ∧
    Kind.ofTag tag = .policy action) ∨ (tag = "VULNERABILITY_DELTA" ∧ Kind.ofTag tag = .delta) ∨
    (tag ∉ knownTags ∧ Kind.ofTag tag = .other) := by
  by_cases h : tag ∈ knownTags
  · simp only [knownTags, List.mem_cons, List.not_mem_nil, or_false] at h
    obtain rfl | rfl | rfl | rfl := h
    · exact .inl ⟨.violate, rfl, rfl⟩
    · exact .inl ⟨.override, rfl, rfl⟩
    · exact .inl ⟨.clear, rfl, rfl⟩
    · exact .inr (.inl ⟨rfl, rfl⟩)
  · exact .inr (.inr ⟨h, ofTag_of_unknown h⟩)

section

variable {ms : List (String × Json)} {r : Record}

theorem ofJson_of_tag {tag : String} (h : last ms "type" = some (.str tag)) :
    codec.ofJson (.obj ms) = decodeBody (.ofTag tag) (untagged ms) := by
  have hlook : (sortedMembers [] ms).lookup tagKey = some (.str tag) := by
    rw [lookup_sortedMembers, tagKey, h]
    rfl
  show decode (.obj (sortedMembers [] ms)) = _
  simp only [decode, hlook]
  rfl

theorem exists_tag_of_ofJson (h : codec.ofJson (.obj ms) = .ok r) :
    ∃ tag, last ms "type" = some (.str tag) := by
  change decode (.obj (sortedMembers [] ms)) = .ok r at h
  rw [decode, lookup_sortedMembers, tagKey] at h
  cases htag : last ms "type" with
  | none => simp [htag] at h
  | some j =>
    cases j with
    | str tag => exact ⟨tag, rfl⟩
    | _ => simp [htag, sorted] at h

theorem ofJson_of_shape (h : Shape (last ms) r) : codec.ofJson (.obj ms) = .ok r := by
  cases h with
  | @policy action n tag notice =>
    have hkind : Kind.ofTag action.kind = .policy action := ofTag_kind (.policy action n)
    rw [ofJson_of_tag tag, hkind]
    exact map_eq_ok.mpr ⟨n, PolicyNotice.decode_untagged_iff.mpr notice, rfl⟩
  | @delta d tag delta =>
    rw [ofJson_of_tag tag]
    exact map_eq_ok.mpr ⟨d, VulnerabilityDelta.decode_untagged_iff.mpr delta, rfl⟩
  | other string unknown =>
    rw [ofJson_of_tag string, ofTag_of_unknown unknown]
    rfl

theorem shape_of_ofJson (h : codec.ofJson (.obj ms) = .ok r) : Shape (last ms) r := by
  obtain ⟨tag, htag⟩ := exists_tag_of_ofJson h
  rw [ofJson_of_tag htag] at h
  rcases ofTag_cases tag with ⟨action, rfl, hkind⟩ | ⟨rfl, hkind⟩ | ⟨hunknown, hkind⟩
  · rw [hkind] at h
    obtain ⟨n, hn, rfl⟩ := map_eq_ok.mp h
    exact .policy htag (PolicyNotice.decode_untagged_iff.mp hn)
  · obtain ⟨d, hd, rfl⟩ := map_eq_ok.mp h
    exact .delta htag (VulnerabilityDelta.decode_untagged_iff.mp hd)
  · rw [hkind] at h
    cases h
    exact .other htag hunknown

end

/-- The keys that a record of this type has its values under. -/
def keysRead : Record → List String
  | policy _ _ => ["type", "timestamp", "component", "rules"]
  | delta _ => ["type", "timestamp", "component", "added", "updated", "deleted"]
  | other => ["type"]

theorem Shape.congr {look look' : String → Option Json} {r : Record} (h : Shape look r)
    (hlook : ∀ k ∈ r.keysRead, look' k = look k) : Shape look' r := by
  cases h with
  | policy tag notice =>
    obtain ⟨htag, htimestamp, hcomponent, hrules⟩ : look' "type" = _ ∧ look' "timestamp" = _ ∧
        look' "component" = _ ∧ look' "rules" = _ := by simpa [keysRead] using hlook
    exact .policy (htag ▸ tag) ⟨htimestamp ▸ notice.timestamp, hcomponent ▸ notice.component,
      hrules ▸ notice.rules⟩
  | delta tag delta =>
    obtain ⟨htag, htimestamp, hcomponent, hadded, hupdated, hdeleted⟩ : look' "type" = _ ∧
        look' "timestamp" = _ ∧ look' "component" = _ ∧ look' "added" = _ ∧ look' "updated" = _ ∧
        look' "deleted" = _ := by simpa [keysRead] using hlook
    exact .delta (htag ▸ tag) ⟨htimestamp ▸ delta.timestamp, hcomponent ▸ delta.component,
      hadded ▸ delta.added, hupdated ▸ delta.updated, hdeleted ▸ delta.deleted⟩
  | other string unknown => exact .other (hlook "type" List.mem_cons_self ▸ string) unknown

/-- **An object decodes as a record exactly if it has the shape of its type.** It does not if it has
no string for a type, and no member has a part in it but those that the type names. -/
theorem decodes_by_shape :
    (∀ ms r, codec.ofJson (.obj ms) = .ok r ↔ Shape (last ms) r) ∧
    (∀ ms, (∀ tag, last ms "type" ≠ some (.str tag)) → ∃ e, codec.ofJson (.obj ms) = .error e) ∧
    (∀ ms ns r, codec.ofJson (.obj ms) = .ok r → (∀ k ∈ r.keysRead, last ns k = last ms k) →
      codec.ofJson (.obj ns) = .ok r) ∧
    (∀ j c, Component.codec.ofJson j = .ok c ↔ Component.Shape j c) ∧
    (∀ j rule, PolicyRule.codec.ofJson j = .ok rule ↔ PolicyRule.Shape j rule) ∧
    ∀ j id, VulnerabilityId.codec.ofJson j = .ok id ↔ VulnerabilityId.Shape j id := by
  refine ⟨fun ms r => ⟨shape_of_ofJson, ofJson_of_shape⟩, fun ms htag => ?_,
    fun ms ns r h hkeys => ?_, Component.takes .document, PolicyRule.takes .document,
    VulnerabilityId.takes .document⟩
  · cases h : codec.ofJson (.obj ms) with
    | ok r =>
      obtain ⟨tag, hstring⟩ := exists_tag_of_ofJson h
      exact absurd hstring (htag tag)
    | error e => exact ⟨e, rfl⟩
  · exact ofJson_of_shape ((shape_of_ofJson h).congr hkeys)

/-- A component as an array and a rule as an object, with and without a member that no type names;
and a type that is no string. -/
theorem decodes_by_shape_noted :
    let ms : List (String × Json) := [("type", .str "POLICY_CLEAR"), ("timestamp", .str "now"),
      ("component", .arr (["p", "1", "c", "2", "/pv", "/cv"].map .str)),
      ("rules", .arr [.obj [("url", .str "/r"), ("name", .str "r")]])]
    let r : Record := .policy .clear ⟨"now", ⟨"p", "1", "c", "2", "/pv", "/cv"⟩, [⟨"r", "/r"⟩]⟩
    codec.ofJson (.obj ms) = .ok r ∧ codec.ofJson (.obj (ms ++ [("note", .null)])) = .ok r ∧
      ∃ e, codec.ofJson (.obj [("type", .null)]) = .error e := by
  intro ms r
  obtain ⟨-, hfails, hkeys, -⟩ := decodes_by_shape
  have hr : codec.ofJson (.obj ms) = .ok r := rfl
  have hnote : ∀ k ∈ r.keysRead, k ≠ "note" := by decide
  have hsame : ∀ k ∈ r.keysRead, last (ms ++ [("note", .null)]) k = last ms k := by
    intro k hk
    rw [last, List.reverse_concat, lookup_cons, if_neg (hnote k hk), last]
  exact ⟨hr, hkeys _ _ r hr hsame, hfails _ fun tag h => by cases h⟩

end Record

end ScanDigest
