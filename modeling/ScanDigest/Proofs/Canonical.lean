import ScanDigest.Digest.Fingerprint
import ScanDigest.Proofs.Meaning
import ScanDigest.Proofs.Structures

/-!
# Canonical texts

The canonical text of a document names the value that the document denotes: sorting keeps numbers
and brackets as they are (`Plain.sorted`), so the value is read back from the text. Hence a lawful
codec gives different values different canonical texts (`Codec.Lawful.canonical_inj`). A value that
is sorted already stays as it is (`sorted_sorted`), since sorting keeps what a document says.
-/

set_option autoImplicit false

namespace ScanDigest

namespace Json

/-- Where no key is repeated, sorting moves members and loses none. -/
theorem sortedMembers_perm {ms : List (String × Json)} (h : (ms.map Prod.fst).Nodup) :
    (sortedMembers [] ms).Perm (ms.map fun m => (m.1, m.2.sorted)) := by
  have hkeys : ((ms.map fun m => (m.1, m.2.sorted)).map Prod.fst).Nodup := by
    rwa [List.map_map]
  refine (List.perm_ext_iff_of_nodup (nodup_keys_sorted ms).of_map hkeys.of_map).mpr fun m => ?_
  obtain ⟨k, j⟩ := m
  rw [← lookup_eq_some_iff (nodup_keys_sorted ms), lookup_sorted h, Option.map_eq_some_iff]
  simp only [lookup_eq_some_iff h, List.mem_map, Prod.mk.injEq]
  constructor
  · rintro ⟨i, hi, rfl⟩
    exact ⟨(k, i), hi, rfl, rfl⟩
  · rintro ⟨⟨_, i⟩, hi, rfl, rfl⟩
    exact ⟨i, hi, rfl⟩

theorem Plain.sorted {d : Nat} {j : Json} (h : j.Plain d) : j.sorted.Plain d := by
  induction h with
  | null => exact .null
  | bool b => exact .bool b
  | int fits => exact .int fits
  | str s => exact .str s
  | @arr d items _ ih =>
    rw [Json.sorted, sortedItems_eq]
    refine .arr fun j hj => ?_
    obtain ⟨i, hi, rfl⟩ := List.mem_map.mp hj
    exact ih i hi
  | @obj d ms _ ih =>
    rw [Json.sorted]
    refine .obj fun m hm => ?_
    obtain ⟨j, hj, hsorted⟩ := exists_of_mem_sortedMembers hm
    exact hsorted ▸ ih (m.1, j) hj

/-- A value denotes itself. -/
theorem sorted_sorted (j : Json) : j.sorted.sorted = j.sorted :=
  sorted_eq_iff_meaning_eq.mpr (meaning_sorted j)

end Json

open Json

/-- Different values have different canonical texts. -/
theorem Codec.Lawful.canonical_inj {α : Type} {c : Codec α} {depth : Nat} (hc : c.Lawful depth)
    (hdepth : depth ≤ maxDepth) {a b : α} (h : (c.encode a).canonical = (c.encode b).canonical) :
    a = b := by
  have hplain : ∀ a, (c.encode a).sorted.Plain maxDepth := fun a => (hc.plain a).sorted.mono hdepth
  have hsorted : (c.encode a).sorted = (c.encode b).sorted := (hplain a).compact_inj (hplain b) h
  have hdecode := hc.ofJson_encode a
  rw [Codec.ofJson, hsorted] at hdecode
  exact (Except.ok.inj ((hc.ofJson_encode b).symm.trans hdecode)).symm

end ScanDigest
