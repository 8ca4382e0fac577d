import ScanDigest.Proofs.Structures
import ScanDigest.Record.Codec

/-!
# Records as they are written are read back

The codec of records is lawful (`Record.lawful`): wherever the type stands among the members, a
record decodes from the document and from the value that it denotes alike. The text of a record is
read back as the record (`Record.read_encode`).
-/

set_option autoImplicit false

namespace ScanDigest

open Json

/-! ## Parts of records -/

theorem Component.lawful (depth : Nat) : Component.codec.Lawful (depth + 1) := by
  have htext := Codec.Lawful.text depth
  exact .struct (.required htext (by decide) <| .required htext (by decide) <|
    .required htext (by decide) <| .required htext (by decide) <|
    .required htext (by decide) <| .required htext (by decide) .nil) _ fun _ => rfl

theorem PolicyRule.lawful (depth : Nat) : PolicyRule.codec.Lawful (depth + 1) :=
  .struct (.required (.text depth) (by decide) <| .required (.text depth) (by decide) .nil) _
    fun _ => rfl

theorem VulnerabilityId.lawful (depth : Nat) : VulnerabilityId.codec.Lawful (depth + 1) :=
  .struct (.required (.text depth) (by decide) <| .required (.text depth) (by decide) .nil) _
    fun _ => rfl

theorem PolicyNotice.lawful (depth : Nat) : PolicyNotice.codec.Lawful (depth + 3) :=
  .struct (.required (.text _) (by decide) <| .required (Component.lawful _) (by decide) <|
    .required (.list (PolicyRule.lawful depth)) (by decide) .nil) _ fun _ => rfl

theorem VulnerabilityDelta.lawful (depth : Nat) : VulnerabilityDelta.codec.Lawful (depth + 3) := by
  have hids := (VulnerabilityId.lawful depth).list
  exact .struct (.required (.text _) (by decide) <| .required (Component.lawful _) (by decide) <|
    .defaulted hids (by decide) <| .defaulted hids (by decide) <|
    .defaulted hids (by decide) .nil) _ fun _ => rfl

/-! ## Types of records -/

namespace Record

/-- The members of a record besides its type. -/
def body : Record → List (String × Json)
  | policy _ notice => members (PolicyNotice.codec.encode notice)
  | delta d => members (VulnerabilityDelta.codec.encode d)
  | other => []

theorem encode_eq (r : Record) : r.encode = .obj ((tagKey, .str r.kind) :: r.body) := by
  cases r <;> rfl

theorem ofTag_kind (r : Record) : Kind.ofTag r.kind = match r with
    | policy action _ => .policy action
    | delta _ => .delta
    | other => .other := by
  cases r with
  | policy action _ => cases action <;> rfl
  | delta d => rfl
  | other => rfl

/-- The type does not stand among the other members. -/
theorem key_ne_tagKey (r : Record) : ∀ m ∈ r.body, m.1 ≠ tagKey := by
  intro m hm
  have hkey : m.1 ∈ r.body.map Prod.fst := List.mem_map_of_mem hm
  cases r with
  | policy _ notice =>
    have hne : ∀ k ∈ ["timestamp", "component", "rules"], k ≠ tagKey := by decide
    exact hne m.1 hkey
  | delta d =>
    have hne : ∀ k ∈ ["timestamp", "component", "added", "updated", "deleted"], k ≠ tagKey := by
      decide
    exact hne m.1 hkey
  | other => exact absurd hm List.not_mem_nil

theorem decodeBody_body (r : Record) : decodeBody (.ofTag r.kind) (.obj r.body) = .ok r := by
  rw [ofTag_kind]
  cases r with
  | policy action notice =>
    have hdecode := (PolicyNotice.lawful 0).decode_encode .record notice
    exact congrArg (Except.map (Record.policy action)) hdecode
  | delta d =>
    have hdecode := (VulnerabilityDelta.lawful 0).decode_encode .record d
    exact congrArg (Except.map Record.delta) hdecode
  | other => rfl

theorem plain_body (r : Record) : ∀ m ∈ r.body, m.2.Plain 2 := by
  have hplain : (Json.obj r.body).Plain 3 := by
    cases r with
    | policy _ notice => exact (PolicyNotice.lawful 0).plain notice
    | delta d => exact (VulnerabilityDelta.lawful 0).plain d
    | other => exact .obj fun m hm => absurd hm List.not_mem_nil
  cases hplain with
  | obj h => exact h

theorem distinct_body (r : Record) : (Json.obj r.body).Distinct := by
  cases r with
  | policy _ notice => exact (PolicyNotice.lawful 0).distinct notice
  | delta d => exact (VulnerabilityDelta.lawful 0).distinct d
  | other => exact .obj List.nodup_nil fun m hm => absurd hm List.not_mem_nil

/-! ## Decoding -/

theorem decode_encode (r : Record) : decode r.encode = .ok r := by
  have hfilter : (r.body.filter fun m => m.1 != tagKey) = r.body := by
    rw [List.filter_eq_self]
    exact fun m hm => bne_iff_ne.mpr (r.key_ne_tagKey m hm)
  rw [encode_eq]
  simp only [decode, lookup_cons, ↓reduceIte, List.filter_cons, bne_self_eq_false,
    Bool.false_eq_true, hfilter]
  exact r.decodeBody_body

theorem decodeBody_sorted (kind : Kind) {j : Json} (hj : j.Distinct) (r : Record) :
    decodeBody kind j.sorted = .ok r ↔ decodeBody kind j = .ok r := by
  cases kind with
  | policy action =>
    simp only [decodeBody, map_eq_ok, (PolicyNotice.lawful 0).decode_sorted hj]
  | delta =>
    simp only [decodeBody, map_eq_ok, (VulnerabilityDelta.lawful 0).decode_sorted hj]
  | other =>
    cases hj with
    | @arr items =>
      rw [sorted, sortedItems_eq]
      cases items <;> simp [decodeBody]
    | _ => exact Iff.rfl

theorem decode_sorted {j : Json} (hj : j.Distinct) (r : Record) :
    decode j.sorted = .ok r ↔ decode j = .ok r := by
  cases hj with
  | @obj ms hkeys hms =>
    have hrest : (Json.obj (ms.filter fun m => m.1 != tagKey)).Distinct :=
      .obj (hkeys.sublist (List.filter_sublist.map _)) fun m hm => hms m (List.mem_filter.mp hm).1
    rw [sorted, decode, lookup_sorted hkeys, filter_sortedMembers hkeys]
    cases htag : ms.lookup tagKey with
    | none => simp [decode, htag]
    | some j =>
      cases j with
      | str tag =>
        simp only [decode, htag, Option.map_some, sorted]
        exact decodeBody_sorted (.ofTag tag) hrest r
      | _ => simp [decode, htag, sorted]
  | @arr items hitems =>
    rw [sorted, sortedItems_eq]
    cases items with
    | nil => exact Iff.rfl
    | cons j items =>
      cases j with
      | str tag =>
        have hrest : (Json.arr items).Distinct :=
          .arr fun j hj => hitems j (List.mem_cons_of_mem _ hj)
        have hbody := decodeBody_sorted (.ofTag tag) hrest r
        rw [sorted, sortedItems_eq] at hbody
        exact hbody
      | _ => simp [decode, sorted]
  | _ => exact Iff.rfl

theorem lawful : codec.Lawful 3 where
  plain r := by
    show r.encode.Plain 3
    rw [encode_eq]
    exact .obj (List.forall_mem_cons.mpr ⟨.str _, r.plain_body⟩)
  distinct r := by
    show r.encode.Distinct
    rw [encode_eq]
    cases r.distinct_body with
    | obj hkeys hms =>
      refine .obj ?_ (List.forall_mem_cons.mpr ⟨.str _, hms⟩)
      rw [List.map_cons, List.nodup_cons]
      refine ⟨fun hmem => ?_, hkeys⟩
      obtain ⟨m, hm, heq⟩ := List.mem_map.mp hmem
      exact r.key_ne_tagKey m hm heq
  decode_encode _ r := r.decode_encode
  decode_sorted hj _ r := decode_sorted hj r

/-! ## Reading -/

theorem readMember_tag (tag : String) :
    (readMember (none, [])).Reads (memberText (tagKey, .str tag)) (some tag, []) := by
  intro t ht
  have hstring : (string .tag).run (Text.ofChars (Json.str tag).chars ++ t) = .ok (tag, t) :=
    string_quoted .tag tag t
  simp only [ofChars_memberText, readMember, Reader.run_bind, key_quoted, ↓reduceIte,
    Option.isSome_none, Bool.false_eq_true, colon_run, hstring, Reader.run_pure]

theorem readMember_other {m : String × Json} (hkey : m.1 ≠ tagKey) (hplain : m.2.Plain 126)
    (acc : Option String × List (String × Json)) :
    (readMember acc).Reads (memberText m) (acc.1, m :: acc.2) := by
  intro t ht
  have hvalue : inner.run (Text.ofChars m.2.chars ++ t) = .ok (m.2, t) := value_reads hplain t ht
  simp only [ofChars_memberText, readMember, Reader.run_bind, key_quoted, if_neg hkey,
    colon_run, hvalue, Reader.run_pure]

theorem foldl_other (ms : List (String × Json)) (acc : Option String × List (String × Json)) :
    ms.foldl (fun acc m => (acc.1, m :: acc.2)) acc = (acc.1, ms.reverse ++ acc.2) := by
  induction ms generalizing acc with
  | nil => rfl
  | cons m ms ih => rw [List.foldl_cons, ih, List.reverse_cons, List.append_assoc]; rfl

theorem read_encode (r : Record) : read.Reads r.encode.chars r := by
  intro t ht
  have hplain : ∀ m ∈ r.body, m.2.Plain 126 := fun m hm => (r.plain_body m hm).mono (by decide)
  have hmore : (furtherItems .object readMember (some r.kind, [])).Reads
      (Brackets.object.more memberText r.body)
      (r.body.foldl (fun acc m => (acc.1, m :: acc.2)) (some r.kind, [])) :=
    furtherItems_reads (.inr rfl) (fun m _ => opens_memberText m)
      fun acc m hm => readMember_other (r.key_ne_tagKey m hm) (hplain m hm) acc
  have hmembers := separated_cons_reads (.inr rfl) (opens_memberText _) (readMember_tag r.kind)
    hmore t ht
  rw [foldl_other] at hmembers
  rw [encode_eq, chars_obj, Text.ofChars_cons]
  simp [read, trimSpace, isSpace, hmembers, ofBody, decodeBody_body]

theorem ofText_encode (r : Record) : codec.ofText (Text.ofChars r.encode.chars) = .ok r :=
  r.read_encode.whole

end Record

end ScanDigest
