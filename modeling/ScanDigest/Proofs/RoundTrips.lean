import ScanDigest.Proofs.CodecTexts
import ScanDigest.Proofs.SelfVerification

/-!
# What is written comes back

The two ways to take a document in agree on every text that repeats no key
(`Codec.Faithful.toOption_ofText`), and the texts that a value is written as are such texts. So the
values of a faithful codec come back from their texts, read off the text or decoded from the value
there (`Codec.roundTrips`), as far as their counts fit 64 bits: `persisted_round_trips` is about all
types that are kept in files.
-/

set_option autoImplicit false

namespace ScanDigest

open Json Reader

/-! ## Texts of a document -/

namespace Json

variable {j : Json}

/-- The texts of a document: without white space or on lines, with its members in the order they have
or in that of their keys. -/
def texts (j : Json) : List String := [j.compact, j.pretty, j.sorted.compact, j.sorted.pretty]

theorem Plain.parse_pretty_bare (h : j.Plain maxDepth) : parse (Text.ofString j.pretty) = .ok j := by
  rw [Text.ofString, pretty, String.toList_ofList]
  exact (h.pretty_reads 0).whole

/-- A text of a document holds the document, or the value that it denotes. -/
theorem Plain.parse_of_mem_texts (h : j.Plain maxDepth) {t : String} (ht : t ∈ j.texts) :
    parse (Text.ofString t) = .ok j ∨ parse (Text.ofString t) = .ok j.sorted := by
  simp only [texts, List.mem_cons, List.not_mem_nil, or_false] at ht
  rcases ht with rfl | rfl | rfl | rfl
  · exact .inl h.parse_compact
  · exact .inl h.parse_pretty_bare
  · exact .inr h.sorted.parse_compact
  · exact .inr h.sorted.parse_pretty_bare

end Json

/-! ## Codecs -/

section Codec

variable {α : Type} {c : Codec α} {a : α}

/-- **Reading a text is decoding its document**, if no key is repeated. -/
theorem Codec.Faithful.toOption_ofText (h : c.Faithful) (hagrees : c.Agrees) {s : Text} {j : Json}
    (hs : parse s = .ok j) (hj : j.Distinct) : (c.ofText s).toOption = (c.ofJson j).toOption := by
  obtain ⟨r, hrun, hr⟩ := parse_eq_ok_iff.mp hs
  have hread := hagrees hrun
  refine Option.ext fun a => ?_
  rw [toOption_eq_some_iff, toOption_eq_some_iff, Codec.ofText, whole_eq_ok_iff, Codec.ofJson,
    h.decode_sorted hj]
  constructor
  · rintro ⟨t, ht, -⟩
    rw [ht] at hread
    cases hdecode : c.decode .document j with
    | error e =>
      rw [hdecode] at hread
      cases hread
    | ok b =>
      rw [hdecode] at hread
      cases hread
      rfl
  · intro ha
    rw [ha] at hread
    exact ⟨r, toOption_eq_some_iff.mp hread, hr⟩

/-- A value comes back from every text that it is written as, read off the text and decoded from the
value that the text holds. -/
def Codec.RoundTrips (c : Codec α) (a : α) : Prop :=
  ∀ t ∈ (c.encode a).texts, c.ofText (Text.ofString t) = .ok a ∧
    ∃ j, parse (Text.ofString t) = .ok j ∧ c.ofJson j = .ok a

theorem Codec.roundTrips (h : c.Faithful) (hagrees : c.Agrees) (hplain : (c.encode a).Plain maxDepth) :
    c.RoundTrips a := by
  intro t ht
  have hdocument : ∃ j, parse (Text.ofString t) = .ok j ∧ j.Distinct ∧ c.ofJson j = .ok a := by
    rcases hplain.parse_of_mem_texts ht with hparse | hparse
    · exact ⟨_, hparse, h.distinct a, h.ofJson_encode a⟩
    · refine ⟨_, hparse, (ordered_sorted _).distinct, ?_⟩
      rw [Codec.ofJson, sorted_sorted]
      exact h.ofJson_encode a
  obtain ⟨j, hparse, hj, hofJson⟩ := hdocument
  refine ⟨?_, j, hparse, hofJson⟩
  rw [← toOption_eq_some_iff, h.toOption_ofText hagrees hparse hj, hofJson]
  rfl

theorem Codec.Lawful.roundTrips {depth : Nat} (h : c.Lawful depth) (hdepth : depth ≤ maxDepth)
    (hagrees : c.Agrees) (a : α) : c.RoundTrips a :=
  Codec.roundTrips h.faithful hagrees ((h.plain a).mono hdepth)

end Codec

/-! ## Lawful codecs -/

theorem Config.lawful (depth : Nat) : Config.codec.Lawful (depth + 2) :=
  have htext := (Codec.Lawful.text (depth + 1)).optional_field fun _ => by simp [Codec.text]
  .struct (.defaulted (Category.lawful depth).list (by decide) <|
    .cons (htext _ _) (by decide) <| .cons (htext _ _) (by decide) .nil) _ fun _ => rfl

theorem Detail.lawful (depth : Nat) : Detail.codec.Lawful (depth + 1) :=
  .struct (.required (.text depth) (by decide) <| .required (.text depth) (by decide) <|
    .required (.text depth) (by decide) <|
    .cons ((Codec.Lawful.text depth).optional_field (by simp [Codec.text]) _ _) (by decide) .nil) _
    fun _ => rfl

theorem ComponentVulnerabilities.lawful (depth : Nat) :
    ComponentVulnerabilities.codec.Lawful (depth + 3) :=
  .struct (.required (Detail.lawful depth).list (by decide) .nil) _ fun _ => rfl

theorem Catalog.lawful (depth : Nat) : Catalog.codec.Lawful (depth + 4) :=
  .struct (.required ((Detail.lawful depth).list.table .text) (by decide) .nil) _ fun _ => rfl

theorem NetChange.lawful (depth : Nat) : NetChange.codec.Lawful (depth + 3) :=
  have hids := (VulnerabilityId.lawful depth).list
  .struct (.required hids (by decide) <| .required hids (by decide) <|
    .required hids (by decide) .nil) _ fun _ => rfl

/-! ## Codecs with counts -/

theorem RecordError.faithful : RecordError.codec.Faithful :=
  .struct (.required .count (by decide) <| .required .text (by decide) <|
    .required .text (by decide) .nil) _ fun _ => rfl

theorem Stats.faithful : Stats.codec.Faithful :=
  .struct (.required .count (by decide) <| .required .count (by decide) <|
    .required .count (by decide) <| .required .count (by decide) <|
    .required .count (by decide) <| .required .count (by decide) <|
    .required .count (by decide) .nil) _ fun _ => rfl

theorem Outcome.faithful : Outcome.codec.Faithful :=
  .struct (.required (Event.lawful 0).faithful.list (by decide) <|
    .required RecordError.faithful.list (by decide) <|
    .required (LookupFailure.lawful 0).faithful.list (by decide) <|
    .required Stats.faithful (by decide) .nil) _ fun _ => rfl

theorem ProjectDigest.faithful : ProjectDigest.codec.Faithful :=
  have hevents := (Event.lawful 0).faithful.list
  .struct (.required (ProjectVersion.lawful 0).faithful (by decide) <|
    .required hevents (by decide) <| .required hevents (by decide) <|
    .required hevents (by decide) <| .required hevents (by decide) <|
    .required (Codec.Faithful.count.table Category.keys_lawful) (by decide) .nil) _ fun _ => rfl

/-- All counts of an outcome fit 64 bits. -/
structure Outcome.Fits (o : Outcome) : Prop where
  places : ∀ e ∈ o.recordErrors, e.index < 2 ^ 64
  stats : ∀ n ∈ o.stats.counts, n < 2 ^ 64

theorem Outcome.plain {o : Outcome} (h : o.Fits) : (Outcome.codec.encode o).Plain maxDepth :=
  Codec.plain_struct <| .cons ((Event.lawful 122).list.plain _) <|
    .cons (Codec.plain_list fun e he => RecordError.plain (h.places e he) 124) <|
    .cons ((LookupFailure.lawful 124).list.plain _) <| .cons (Stats.plain h.stats 125) .nil

/-- All counts of a digest fit 64 bits. -/
def ProjectDigest.Fits (d : ProjectDigest) : Prop :=
  ∀ (c : Category) (n : Nat), d.counts[c]? = some n → n < 2 ^ 64

theorem ProjectDigest.plain {d : ProjectDigest} (h : d.Fits) :
    (ProjectDigest.codec.encode d).Plain maxDepth :=
  have hevents := (Event.lawful 122).list.plain
  Codec.plain_struct <| .cons ((ProjectVersion.lawful 125).plain _) <|
    .cons (hevents _) <| .cons (hevents _) <| .cons (hevents _) <| .cons (hevents _) <|
    .cons (Codec.plain_table fun c n hn => .ofNat (h c n hn)) .nil

/-! ## Both ways to take them in -/

theorem EventKey.agrees : EventKey.codec.Agrees := .imap .text _ _

theorem Entry.agrees : Entry.codec.Agrees := .struct (.cons .text <| .cons .text .nil) _ _ _

theorem ProjectVersion.agrees : ProjectVersion.codec.Agrees :=
  .struct (.cons .text <| .cons .text <| .cons .text .nil) _ _ _

theorem Event.agrees : Event.codec.Agrees :=
  .struct (.cons EventKey.agrees <| .cons .enumeration <| .cons ProjectVersion.agrees <|
    .cons Entry.agrees.list .nil) _ _ _

theorem Config.agrees : Config.codec.Agrees :=
  .struct (.cons (.list .enumeration) <| .cons (.optional .text) <|
    .cons (.optional .text) .nil) _ _ _

theorem Detail.agrees : Detail.codec.Agrees :=
  .struct (.cons .text <| .cons .text <| .cons .text <| .cons (.optional .text) .nil) _ _ _

theorem ComponentVulnerabilities.agrees : ComponentVulnerabilities.codec.Agrees :=
  .struct (.cons Detail.agrees.list .nil) _ _ _

theorem Catalog.agrees : Catalog.codec.Agrees :=
  .struct (.cons (.table Detail.agrees.list) .nil) _ _ _

theorem VulnerabilityId.agrees : VulnerabilityId.codec.Agrees :=
  .struct (.cons .text <| .cons .text .nil) _ _ _

theorem NetChange.agrees : NetChange.codec.Agrees :=
  have hids := VulnerabilityId.agrees.list
  .struct (.cons hids <| .cons hids <| .cons hids .nil) _ _ _

theorem LookupFailure.agrees : LookupFailure.codec.Agrees :=
  .struct (.cons EventKey.agrees <| .cons .text <| .cons .text .nil) _ _ _

theorem RecordError.agrees : RecordError.codec.Agrees :=
  .struct (.cons .count <| .cons .text <| .cons .text .nil) _ _ _

theorem Stats.agrees : Stats.codec.Agrees :=
  .struct (.cons .count <| .cons .count <| .cons .count <| .cons .count <| .cons .count <|
    .cons .count <| .cons .count .nil) _ _ _

theorem Outcome.agrees : Outcome.codec.Agrees :=
  .struct (.cons Event.agrees.list <| .cons RecordError.agrees.list <|
    .cons LookupFailure.agrees.list <| .cons Stats.agrees .nil) _ _ _

theorem ProjectDigest.agrees : ProjectDigest.codec.Agrees :=
  have hevents := Event.agrees.list
  .struct (.cons ProjectVersion.agrees <| .cons hevents <| .cons hevents <| .cons hevents <|
    .cons hevents <| .cons (.table .count) .nil) _ _ _

/-- **What is kept in a file comes back**: a value of each type is what is read off any text that it
is written as, and what is decoded from the value that the text holds. -/
theorem persisted_round_trips :
    (∀ e, Event.codec.RoundTrips e) ∧
    (∀ c, Config.codec.RoundTrips c) ∧
    (∀ c, Catalog.codec.RoundTrips c) ∧
    (∀ v, ComponentVulnerabilities.codec.RoundTrips v) ∧
    (∀ n, NetChange.codec.RoundTrips n) ∧
    (∀ o : Outcome, o.Fits → Outcome.codec.RoundTrips o) ∧
    ∀ d : ProjectDigest, d.Fits → ProjectDigest.codec.RoundTrips d := by
  refine ⟨?_, ?_, ?_, ?_, ?_, fun o ho => ?_, fun d hd => ?_⟩
  · exact (Event.lawful 0).roundTrips (by decide) Event.agrees
  · exact (Config.lawful 0).roundTrips (by decide) Config.agrees
  · exact (Catalog.lawful 0).roundTrips (by decide) Catalog.agrees
  · exact (ComponentVulnerabilities.lawful 0).roundTrips (by decide) ComponentVulnerabilities.agrees
  · exact (NetChange.lawful 0).roundTrips (by decide) NetChange.agrees
  · exact Codec.roundTrips Outcome.faithful Outcome.agrees (Outcome.plain ho)
  · exact Codec.roundTrips ProjectDigest.faithful ProjectDigest.agrees (ProjectDigest.plain hd)

/-- The greatest counts, and texts that are written with escapes. -/
theorem persisted_round_trips_greatest :
    let e : Event := ⟨⟨"k"⟩, .cleared, ⟨"p \"q\"", "1\\2", "/p"⟩, [⟨"", "a\nb"⟩]⟩
    let o : Outcome := ⟨[e], [⟨2 ^ 64 - 1, "", "r"⟩], [⟨⟨"k"⟩, "/c", "m"⟩],
      ⟨2 ^ 64 - 1, 0, 0, 1, 0, 1, 0⟩⟩
    let d : ProjectDigest :=
      ⟨e.project, [], [], [e], [], (∅ : Std.ExtTreeMap Category Nat).insert .cleared (2 ^ 64 - 1)⟩
    o.Fits ∧ d.Fits ∧ Outcome.codec.RoundTrips o ∧ ProjectDigest.codec.RoundTrips d := by
  intro e o d
  have ho : o.Fits := ⟨by simp [o], by simp [o, Stats.counts]⟩
  have hd : d.Fits := by
    intro c n hn
    rw [Std.ExtTreeMap.getElem?_insert, Std.ExtTreeMap.getElem?_empty] at hn
    split at hn
    · cases hn
      decide
    · cases hn
  obtain ⟨-, -, -, -, -, houtcome, hdigest⟩ := persisted_round_trips
  exact ⟨ho, hd, houtcome o ho, hdigest d hd⟩

end ScanDigest
