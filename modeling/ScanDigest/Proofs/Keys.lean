import Mathlib.Logic.Basic
import ScanDigest.Proofs.KeyByKey

/-!
# Policy keys and vulnerability keys

The two kinds of keys differ in the name of the issue, so all keys of rules stand before those of
vulnerabilities. A key can be taken apart at its separators, since there are none in a hash: its
`fields` are the names that it was made of, each with its hash (`fields_ofRule`,
`fields_ofVulnerabilities`). So a key tells the hashes of its URLs, whatever these are
(`unambiguous_up_to_hash`).
-/

set_option autoImplicit false

namespace ScanDigest.EventKey

theorem text_ofRule (p c r : String) :
    (ofRule p c r).text = "issueType=POLICY" ++ (location p c ++ hashed "policyRule" r) := by
  exact String.append_assoc

theorem text_ofVulnerabilities (p c : String) :
    (ofVulnerabilities p c).text = "issueType=VULNERABILITY" ++ location p c := rfl

/-- The keys of rules stand before those of vulnerabilities. -/
theorem ofRule_lt_ofVulnerabilities (p c r p' c' : String) :
    compare (ofRule p c r) (ofVulnerabilities p' c') = .lt := by
  have hissue : 'P' < 'V' := by decide
  rw [compare_eq, text_ofRule, text_ofVulnerabilities, compare_eq_lt_iff, String.lt_iff,
    String.toList_append, String.toList_append]
  simpa using List.Lex.rel hissue

/-- No key is that of a rule and of vulnerabilities. -/
theorem ofRule_ne_ofVulnerabilities (p c r p' c' : String) :
    ofRule p c r ≠ ofVulnerabilities p' c' := by
  intro h
  have hlt := ofRule_lt_ofVulnerabilities p c r p' c'
  rw [h, Std.ReflOrd.compare_self] at hlt
  cases hlt

/-! ## Fields -/

/-- The name of a part, before its first equals sign, and its value after that. -/
def field (part : List Char) : String × String :=
  (String.ofList (part.takeWhile (· ≠ '=')), String.ofList (part.dropWhile (· ≠ '=')).tail)

/-- The names and values that a key is made of. -/
def fields (k : EventKey) : List (String × String) := (k.text.toList.splitOn '|').map field

/-- A name with its value. -/
def part (name value : String) : List Char := name.toList ++ '=' :: value.toList

theorem field_part {name : String} (h : '=' ∉ name.toList) (value : String) :
    field (part name value) = (name, value) := by
  have hname : ∀ c ∈ name.toList, decide (c ≠ '=') = true := by
    intro c hc
    simp only [decide_eq_true_eq]
    rintro rfl
    exact h hc
  rw [field, part, List.takeWhile_append_of_pos hname, List.dropWhile_append_of_pos hname]
  simp

theorem separator_not_mem_hash (url : String) : '|' ∉ (Sha256.ofString url).toList := by
  have hdigit : ∀ n, n < 16 → Nat.digitChar n ≠ '|' := by decide
  rw [Sha256.ofString, Sha256.hexDigest, String.toList_ofList, Sha256.hexDigits]
  intro h
  obtain ⟨w, -, hw⟩ := List.mem_flatMap.1 h
  obtain ⟨i, -, hi⟩ := List.mem_map.1 hw
  exact hdigit _ (Nat.mod_lt _ (by decide)) hi

theorem toList_hashed (name url : String) :
    (hashed name url).toList = '|' :: part name (Sha256.ofString url) := by
  simp [hashed, part]

/-- A key that is made of names and values has these as its fields, if no separator is in them. -/
theorem fields_eq {k : EventKey} {ps : List (String × String)}
    (hk : k.text.toList = ['|'].intercalate (ps.map fun p => part p.1 p.2)) (hne : ps ≠ [])
    (hps : ∀ p ∈ ps, '=' ∉ p.1.toList ∧ '|' ∉ p.1.toList ∧ '|' ∉ p.2.toList) : k.fields = ps := by
  have hparts : ∀ l ∈ ps.map fun p => part p.1 p.2, '|' ∉ l := by
    intro l hl
    obtain ⟨p, hp, rfl⟩ := List.mem_map.1 hl
    obtain ⟨-, hname, hvalue⟩ := hps p hp
    simp [part, hname, hvalue]
  rw [fields, hk, List.splitOn_intercalate _ hparts (by simpa using hne), List.map_map]
  refine (List.map_congr_left fun p hp => ?_).trans (List.map_id ps)
  exact field_part (hps p hp).1 p.2

/-- The fields of the place of an event. -/
def locationFields (p c : String) : List (String × String) :=
  [("projectVersion", Sha256.ofString p), ("componentVersion", Sha256.ofString c)]

theorem toList_location (p c : String) : (location p c).toList =
    '|' :: part "projectVersion" (Sha256.ofString p) ++
      '|' :: part "componentVersion" (Sha256.ofString c) := by
  rw [location, String.toList_append, toList_hashed, toList_hashed]

theorem toList_ofVulnerabilities (p c : String) : (ofVulnerabilities p c).text.toList =
    part "issueType" "VULNERABILITY" ++ (location p c).toList := by
  have hissue : part "issueType" "VULNERABILITY" = "issueType=VULNERABILITY".toList := by decide
  rw [hissue]
  exact String.toList_append

theorem toList_ofRule (p c r : String) : (ofRule p c r).text.toList =
    part "issueType" "POLICY" ++ ((location p c).toList ++ (hashed "policyRule" r).toList) := by
  have hissue : part "issueType" "POLICY" = "issueType=POLICY".toList := by decide
  rw [hissue, text_ofRule, String.toList_append, String.toList_append]

theorem fields_ofVulnerabilities (p c : String) :
    (ofVulnerabilities p c).fields = ("issueType", "VULNERABILITY") :: locationFields p c := by
  have hp := separator_not_mem_hash p
  have hc := separator_not_mem_hash c
  refine fields_eq ?_ (List.cons_ne_nil _ _) ?_
  · simp only [toList_ofVulnerabilities, toList_location, locationFields, List.map_cons,
      List.map_nil, List.intercalate_cons_cons, List.intercalate_singleton, List.cons_append,
      List.nil_append, List.append_assoc]
  · simp [locationFields, hp, hc]

theorem fields_ofRule (p c r : String) : (ofRule p c r).fields =
    ("issueType", "POLICY") :: locationFields p c ++ [("policyRule", Sha256.ofString r)] := by
  have hp := separator_not_mem_hash p
  have hc := separator_not_mem_hash c
  have hr := separator_not_mem_hash r
  refine fields_eq ?_ (List.cons_ne_nil _ _) ?_
  · simp only [toList_ofRule, toList_location, toList_hashed, locationFields, List.map_cons,
      List.map_nil, List.intercalate_cons_cons, List.intercalate_singleton, List.cons_append,
      List.nil_append, List.append_assoc]
  · simp [locationFields, hp, hc, hr]

/-- The hash of the project version that a key is about. -/
def projectHash? (k : EventKey) : Option String := k.fields.lookup "projectVersion"

theorem projectHash?_ofRule (p c r : String) :
    (ofRule p c r).projectHash? = some (Sha256.ofString p) := by
  rw [projectHash?, fields_ofRule]
  simp [locationFields, List.lookup_cons]

theorem projectHash?_ofVulnerabilities (p c : String) :
    (ofVulnerabilities p c).projectHash? = some (Sha256.ofString p) := by
  rw [projectHash?, fields_ofVulnerabilities]
  simp [locationFields, List.lookup_cons]

/-! ## Keys up to the hash

Of a URL only its hash goes into a key. The equations are put together by congruence, since rewriting
would compare the hashes of different URLs by computing them. -/

section Congruence

variable {p c r p' c' r' : String}

theorem hashed_congr (name : String) (h : Sha256.ofString p = Sha256.ofString p') :
    hashed name p = hashed name p' :=
  congrArg (fun hash => "|" ++ name ++ "=" ++ hash) h

theorem location_congr (hp : Sha256.ofString p = Sha256.ofString p')
    (hc : Sha256.ofString c = Sha256.ofString c') : location p c = location p' c' :=
  congrArg₂ (· ++ ·) (hashed_congr "projectVersion" hp) (hashed_congr "componentVersion" hc)

theorem ofVulnerabilities_eq_iff : ofVulnerabilities p c = ofVulnerabilities p' c' ↔
    Sha256.ofString p = Sha256.ofString p' ∧ Sha256.ofString c = Sha256.ofString c' := by
  constructor
  · intro h
    have hfields := congrArg fields h
    rw [fields_ofVulnerabilities, fields_ofVulnerabilities] at hfields
    simpa only [locationFields, List.cons.injEq, Prod.mk.injEq, true_and, and_true] using hfields
  · rintro ⟨hp, hc⟩
    exact congrArg (fun place => mk ("issueType=VULNERABILITY" ++ place)) (location_congr hp hc)

theorem ofRule_eq_iff : ofRule p c r = ofRule p' c' r' ↔
    Sha256.ofString p = Sha256.ofString p' ∧ Sha256.ofString c = Sha256.ofString c' ∧
      Sha256.ofString r = Sha256.ofString r' := by
  constructor
  · intro h
    have hfields := congrArg fields h
    rw [fields_ofRule, fields_ofRule] at hfields
    simpa only [locationFields, List.cons_append, List.nil_append, List.cons.injEq, Prod.mk.injEq,
      true_and, and_true] using hfields
  · rintro ⟨hp, hc, hr⟩
    exact congrArg₂ (fun place rule => mk ("issueType=POLICY" ++ place ++ rule))
      (location_congr hp hc) (hashed_congr "policyRule" hr)

end Congruence

/-- **Keys are unambiguous up to the hash**: two keys of one kind are equal only where the URLs that
they were made of have equal hashes, each with its own, and two keys of different kinds never are. -/
theorem unambiguous_up_to_hash :
    (∀ p c r p' c' r', ofRule p c r = ofRule p' c' r' ↔
      Sha256.ofString p = Sha256.ofString p' ∧ Sha256.ofString c = Sha256.ofString c' ∧
        Sha256.ofString r = Sha256.ofString r') ∧
    (∀ p c p' c', ofVulnerabilities p c = ofVulnerabilities p' c' ↔
      Sha256.ofString p = Sha256.ofString p' ∧ Sha256.ofString c = Sha256.ofString c') ∧
    ∀ p c r p' c', ofRule p c r ≠ ofVulnerabilities p' c' := by
  refine ⟨?_, ?_, ?_⟩
  · intro p c r p' c' r'
    exact ofRule_eq_iff
  · intro p c p' c'
    exact ofVulnerabilities_eq_iff
  · intro p c r p' c'
    exact ofRule_ne_ofVulnerabilities p c r p' c'

end ScanDigest.EventKey
