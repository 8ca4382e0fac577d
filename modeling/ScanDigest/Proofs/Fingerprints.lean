import ScanDigest.Proofs.Canonical
import ScanDigest.Proofs.Publication

/-!
# A fingerprint identifies a digest

The codec of events is lawful (`Event.lawful`), so events in the order of their keys are told by
their canonical text. That order forgets how the events stood before and nothing else, as long as no
key is repeated (`Event.byKey_eq_iff_perm`). Hence the bytes that a fingerprint hashes are those of
the digest up to the order of its events (`Event.fingerprint_identifies`). The hexadecimal digits of a
hash tell all of it (`Sha256.hexDigest_inj`), so two digests share a fingerprint only where SHA-256
has a collision.
-/

set_option autoImplicit false

namespace ScanDigest

open Json

/-! ## Lawful codecs -/

namespace Codec.Lawful

variable {α : Type} {c : Codec α} {depth : Nat}

theorem imap {β : Type} (h : c.Lawful depth) {f : α → β} {g : β → α} (hfg : ∀ b, f (g b) = b) :
    (c.imap f g).Lawful depth where
  plain b := h.plain (g b)
  distinct b := h.distinct (g b)
  decode_encode setting b := by
    show f <$> c.decode setting (c.encode (g b)) = .ok b
    rw [h.decode_encode]
    exact congrArg Except.ok (hfg b)
  decode_sorted {j} hj setting b := by
    show f <$> c.decode setting j.sorted = .ok b ↔ f <$> c.decode setting j = .ok b
    simp only [map_eq_ok, h.decode_sorted hj]

/-- Values that are told by their names. -/
theorem enumeration {all : List α} {name : α → String}
    (h : ∀ a, Codec.named all name (name a) = .ok a) (depth : Nat) :
    (Codec.enumeration all name).Lawful depth where
  plain a := .str (name a)
  distinct a := .str (name a)
  decode_encode _ a := h a
  decode_sorted {j} hj setting a := by
    cases hj with
    | @obj ms hkeys _ =>
      rcases ms with _ | ⟨⟨k, j⟩, _ | ⟨n, ms⟩⟩
      · exact Iff.rfl
      · cases j <;> simp [Codec.enumeration, sorted, sortedMembers, insertMember]
      · -- more than one member stays more than one member
        have hlength := (sortedMembers_perm hkeys).length_eq
        rw [sorted]
        generalize sortedMembers [] ((k, j) :: n :: ms) = ms' at hlength ⊢
        rcases ms' with _ | ⟨m', _ | ⟨n', ms'⟩⟩
        · cases hlength
        · cases hlength
        · simp [Codec.enumeration]
    | _ => exact Iff.rfl

end Codec.Lawful

theorem EventKey.lawful (depth : Nat) : EventKey.codec.Lawful depth :=
  (Codec.Lawful.text depth).imap fun _ => rfl

theorem Category.lawful (depth : Nat) : Category.codec.Lawful depth :=
  .enumeration (fun c => by cases c <;> rfl) depth

theorem Entry.lawful (depth : Nat) : Entry.codec.Lawful (depth + 1) :=
  .struct (.required (.text depth) (by decide) <| .required (.text depth) (by decide) .nil) _
    fun _ => rfl

theorem ProjectVersion.lawful (depth : Nat) : ProjectVersion.codec.Lawful (depth + 1) :=
  .struct (.required (.text depth) (by decide) <| .required (.text depth) (by decide) <|
    .required (.text depth) (by decide) .nil) _ fun _ => rfl

theorem Event.lawful (depth : Nat) : Event.codec.Lawful (depth + 3) :=
  .struct (.required (EventKey.lawful _) (by decide) <|
    .required (Category.lawful _) (by decide) <|
    .required (ProjectVersion.lawful _) (by decide) <|
    .required (Entry.lawful depth).list (by decide) .nil) _ fun _ => rfl

/-! ## Digits of a hash -/

namespace Sha256

/-- A number is told by its hexadecimal digits. -/
theorem eq_of_digits {n v w : Nat} (hv : v >>> (4 * n) = 0) (hw : w >>> (4 * n) = 0)
    (h : ∀ i < n, v >>> (4 * i) % 16 = w >>> (4 * i) % 16) : v = w := by
  induction n generalizing v w with
  | zero => exact hv.trans hw.symm
  | succ n ih =>
    have hshift : ∀ u i, (u / 16) >>> (4 * i) = u >>> (4 * (i + 1)) := by
      intro u i
      rw [Nat.mul_succ, Nat.add_comm, Nat.shiftRight_add, Nat.shiftRight_eq_div_pow u 4]
    have hlast : v % 16 = w % 16 := h 0 (Nat.succ_pos n)
    have hrest : v / 16 = w / 16 := by
      refine ih ((hshift v n).trans hv) ((hshift w n).trans hw) fun i hi => ?_
      rw [hshift, hshift]
      exact h (i + 1) (Nat.succ_lt_succ hi)
    omega

theorem digitChar_inj : ∀ m < 16, ∀ n < 16, Nat.digitChar m = Nat.digitChar n → m = n := by decide

theorem wordDigits_inj {v w : UInt32} (h : wordDigits v = wordDigits w) : v = w := by
  have hword : ∀ u : UInt32, u.toNat >>> (4 * 8) = 0 := fun u => by
    rw [Nat.shiftRight_eq_div_pow]
    exact Nat.div_eq_of_lt u.toNat_lt
  refine UInt32.toNat_inj.mp (eq_of_digits (hword v) (hword w) fun i hi => ?_)
  have hdigit := List.map_inj_left.mp h (7 - i) (List.mem_range.mpr (by omega))
  have hplace : 7 - (7 - i) = i := by omega
  rw [hplace] at hdigit
  exact digitChar_inj _ (Nat.mod_lt _ (by decide)) _ (Nat.mod_lt _ (by decide)) hdigit

theorem flatMap_wordDigits_inj {vs ws : List UInt32} (hlength : vs.length = ws.length)
    (h : vs.flatMap wordDigits = ws.flatMap wordDigits) : vs = ws := by
  induction vs generalizing ws with
  | nil => exact (List.length_eq_zero_iff.mp hlength.symm).symm
  | cons v vs ih =>
    cases ws with
    | nil => cases hlength
    | cons w ws =>
      obtain ⟨hhead, htail⟩ := List.append_inj h (by simp [wordDigits])
      rw [wordDigits_inj hhead, ih (Nat.succ.inj hlength) htail]

/-- The hexadecimal digits of a hash tell all of it. -/
theorem hexDigest_inj {bs cs : List UInt8} (h : hexDigest bs = hexDigest cs) : hash bs = hash cs := by
  have hwords : (hash bs).words = (hash cs).words :=
    flatMap_wordDigits_inj rfl (String.ofList_injective h)
  generalize hash bs = s at hwords
  generalize hash cs = t at hwords
  cases s
  cases t
  simpa [State.words] using hwords

end Sha256

namespace Event

/-! ## Events by key -/

theorem byKey_perm (es : List Event) : (byKey es).Perm es := List.mergeSort_perm es _

theorem isLE_key_total (a b : Event) :
    (compare a.key b.key).isLE || (compare b.key a.key).isLE := by
  rw [Std.OrientedOrd.eq_swap (a := b.key)]
  cases compare a.key b.key <;> rfl

theorem pairwise_byKey (es : List Event) :
    (byKey es).Pairwise fun a b => (compare a.key b.key).isLE :=
  List.pairwise_mergeSort (fun _ _ _ => Std.TransCmp.isLE_trans) isLE_key_total es

/-- Sorting forgets the order of events of different keys, and nothing else. -/
theorem byKey_eq_iff_perm {es fs : List Event} (h : (es.map key).Nodup) :
    byKey es = byKey fs ↔ es.Perm fs := by
  constructor
  · intro heq
    exact (byKey_perm es).symm.trans (heq ▸ byKey_perm fs)
  · intro hperm
    have hsorted : (byKey es).Perm (byKey fs) :=
      (byKey_perm es).trans (hperm.trans (byKey_perm fs).symm)
    refine hsorted.eq_of_pairwise (fun a b ha hb hab hba => ?_) (pairwise_byKey es) (pairwise_byKey fs)
    have hkey : a.key = b.key :=
      Std.LawfulEqCmp.eq_of_compare (Std.OrientedCmp.isLE_antisymm hab hba)
    exact List.inj_on_of_nodup_map h ((byKey_perm es).mem_iff.mp ha)
      (hperm.mem_iff.mpr ((byKey_perm fs).mem_iff.mp hb)) hkey

/-! ## Fingerprints -/

/-- The bytes that a fingerprint hashes. -/
def hashed (es : List Event) : List UInt8 := (canonical es).toUTF8.data.toList

theorem fingerprint_eq (es : List Event) : fingerprint es = Sha256.hexDigest (hashed es) := rfl

theorem hashed_eq_iff {es fs : List Event} : hashed es = hashed fs ↔ byKey es = byKey fs := by
  constructor
  · intro h
    have hcanonical : canonical es = canonical fs :=
      String.toByteArray_inj.mp (ByteArray.ext (Array.toList_inj.mp h))
    exact (Event.lawful 0).list.canonical_inj (by decide) hcanonical
  · intro h
    rw [hashed, hashed, canonical, canonical, h]

/-- **A fingerprint identifies a digest**, whatever the order of its events, unless two texts have
one hash. -/
theorem fingerprint_identifies {es fs : List Event} (h : (es.map key).Nodup) :
    (hashed es = hashed fs ↔ es.Perm fs) ∧
    (es.Perm fs → fingerprint es = fingerprint fs) ∧
    (fingerprint es = fingerprint fs → es.Perm fs ∨
      hashed es ≠ hashed fs ∧ Sha256.hash (hashed es) = Sha256.hash (hashed fs)) := by
  have hiff : hashed es = hashed fs ↔ es.Perm fs := hashed_eq_iff.trans (byKey_eq_iff_perm h)
  refine ⟨hiff, fun hperm => ?_, fun hfingerprint => ?_⟩
  · rw [fingerprint_eq, fingerprint_eq, hiff.mpr hperm]
  · by_cases hperm : es.Perm fs
    · exact .inl hperm
    · exact .inr ⟨fun heq => hperm (hiff.mp heq), Sha256.hexDigest_inj hfingerprint⟩

/-- Two events may change places; the entries of one may not. -/
theorem fingerprint_identifies_entries :
    let p : ProjectVersion := ⟨"p", "1", "/p"⟩
    let a : Event := ⟨⟨"a"⟩, .vulnerability, p, [⟨"ADDED", "x"⟩, ⟨"ADDED", "y"⟩]⟩
    let b : Event := ⟨⟨"b"⟩, .violation, p, []⟩
    let c : Event := { a with dataset := a.dataset.reverse }
    ([a, b].map key).Nodup ∧ fingerprint [a, b] = fingerprint [b, a] ∧
      hashed [a, b] ≠ hashed [b, c] := by
  intro p a b c
  have h : ([a, b].map key).Nodup := by decide
  have hswap : [a, b].Perm [b, a] := .swap b a []
  have hreverse : ¬[a, b].Perm [b, c] := by decide
  refine ⟨h, (fingerprint_identifies h).2.1 hswap, fun heq => hreverse ?_⟩
  exact (fingerprint_identifies h).1.mp heq

end Event

end ScanDigest
