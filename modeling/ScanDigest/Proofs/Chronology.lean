import ScanDigest.Proofs.Applied
import ScanDigest.Proofs.Reordering

/-!
# Batches in the order of time

`Record.At r n`: the timestamp of `r` can be read, and it names the moment `n`. A list that is
sorted by a key is decided by its elements of each key (`eq_of_sorted`), and a stable sort leaves
those in order (`filter_mergeSort`). So a batch in the order of time is decided by the records of
each moment, as they stand in the batch. Records tie if they share an event key and a moment. A
reordering that keeps ties in order changes nothing but the places of record errors
(`reduce_chronological_reordering`), wherever it moves records without a moment.
-/

set_option autoImplicit false

namespace ScanDigest

/-! ## Stable sorts -/

section

variable {α κ : Type} [DecidableEq κ] (key : α → κ) {le : α → α → Bool}

/-- Two sorted lists that have the same elements of each key, in the same order, are equal. -/
theorem eq_of_sorted (hkey : ∀ a b, le a b → le b a → key a = key b) :
    ∀ {as bs : List α}, as.Pairwise (le · ·) → bs.Pairwise (le · ·) →
      (∀ k, (as.filter fun a => key a = k) = bs.filter fun b => key b = k) → as = bs
  | [], [], _, _, _ => rfl
  | [], b :: bs, _, _, h => by simpa using h (key b)
  | a :: as, [], _, _, h => by simpa using h (key a)
  | a :: as, b :: bs, ha, hb, h => by
    have hmem : ∀ c, c ∈ a :: as ↔ c ∈ b :: bs := by
      intro c
      have hc := congrArg (c ∈ ·) (h (key c))
      simpa using hc
    -- each head stands somewhere in the other list, so neither comes after the other
    have hab : key a = key b := by
      rcases List.mem_cons.1 ((hmem a).1 List.mem_cons_self) with rfl | hbs
      · rfl
      rcases List.mem_cons.1 ((hmem b).2 List.mem_cons_self) with rfl | has
      · rfl
      exact hkey a b ((List.pairwise_cons.1 ha).1 b has) ((List.pairwise_cons.1 hb).1 a hbs)
    have hheads := h (key a)
    rw [List.filter_cons_of_pos (by simp), List.filter_cons_of_pos (by simp [hab])] at hheads
    obtain ⟨rfl, -⟩ := List.cons.inj hheads
    have htails : ∀ k, (as.filter fun a => key a = k) = bs.filter fun b => key b = k := by
      intro k
      have hk := h k
      rw [List.filter_cons, List.filter_cons] at hk
      split at hk
      · exact (List.cons.inj hk).2
      · exact hk
    exact congrArg (a :: ·) (eq_of_sorted hkey ha.tail hb.tail htails)

/-- A stable sort leaves the elements of a key in order. -/
theorem filter_mergeSort (htrans : ∀ a b c, le a b → le b c → le a c)
    (htotal : ∀ a b, le a b || le b a) (hle : ∀ a b, key a = key b → le a b) (as : List α) (k : κ) :
    ((as.mergeSort le).filter fun a => key a = k) = as.filter fun a => key a = k := by
  have hsorted : (as.filter fun a => key a = k).Pairwise (le · ·) := by
    refine List.pairwise_of_forall_mem_list fun a ha b hb => hle a b ?_
    simp only [List.mem_filter, decide_eq_true_eq] at ha hb
    rw [ha.2, hb.2]
  have hsub := (List.sublist_mergeSort htrans htotal hsorted List.filter_sublist).filter
    fun a => decide (key a = k)
  simp only [List.filter_filter, Bool.and_self] at hsub
  refine (hsub.eq_of_length ?_).symm
  exact ((List.mergeSort_perm as le).filter _).length_eq.symm

/-- Where nothing with a property comes after something without it, all with it come first. -/
theorem filter_append_filter_not {p : α → Bool} {as : List α}
    (h : as.Pairwise fun a b => p b → p a) : (as.filter p ++ as.filter fun a => !p a) = as := by
  induction as with
  | nil => rfl
  | cons a as ih =>
    obtain ⟨ha, has⟩ := List.pairwise_cons.1 h
    by_cases hp : p a
    · rw [List.filter_cons_of_pos hp, List.filter_cons_of_neg (by simp [hp]), List.cons_append,
        ih has]
    · have hnone : as.filter p = [] :=
        List.filter_eq_nil_iff.2 fun b hb hpb => hp (ha b hb hpb)
      have hall : (as.filter fun a => !p a) = as :=
        List.filter_eq_self.2 fun b hb => by
          rw [Bool.eq_false_iff.2 fun hpb => hp (ha b hb hpb)]
          rfl
      rw [List.filter_cons_of_neg hp, List.filter_cons_of_pos (by simp [hp]), hnone, hall]
      rfl

end

namespace Record

/-! ## The order of time -/

/-- The record has a timestamp that can be read, and it names the moment `n` nanoseconds after the
epoch, in whatever zone it is written. -/
def At (r : Record) (n : Int) : Prop :=
  ∃ s t, r.timestamp? = some s ∧ Time.parse s = .ok t ∧ t.nanos = n

/-- The record has a timestamp that can be read. -/
def Dated (r : Record) : Prop := ∃ n, r.At n

/-- The moment of a record, if it has one. -/
def moment (r : Record) : Option Int := r.instant?.map Timestamp.nanos

theorem moment_eq_some_iff {r : Record} {n : Int} : r.moment = some n ↔ r.At n := by
  simp only [moment, instant?, Option.map_eq_some_iff, Option.bind_eq_some_iff, toOption_eq_some_iff]
  constructor
  · rintro ⟨t, ⟨s, hs, ht⟩, hn⟩
    exact ⟨s, t, hs, ht, hn⟩
  · rintro ⟨s, t, hs, ht, hn⟩
    exact ⟨t, ⟨s, hs, ht⟩, hn⟩

theorem moment_ne_none_iff {r : Record} : r.moment ≠ none ↔ r.Dated := by
  rw [Option.ne_none_iff_exists', Dated]
  simp only [moment_eq_some_iff]

theorem moment_eq_none_iff {r : Record} : r.moment = none ↔ ¬r.Dated := by
  rw [← moment_ne_none_iff, not_not]

instance (r : Record) (n : Int) : Decidable (r.At n) :=
  decidable_of_iff (r.moment = some n) moment_eq_some_iff

instance (r : Record) : Decidable r.Dated :=
  decidable_of_iff (r.moment ≠ none) moment_ne_none_iff

theorem Applies.dated {w : Window} {r : Record} (h : r.Applies w) : r.Dated := by
  obtain ⟨s, t, hs, ht, -⟩ := h.within
  exact ⟨t.nanos, s, t, hs, ht, rfl⟩

/-- A record is not after another one. A record without a moment is before all others. -/
def notAfter (r s : Record) : Bool := instantLE r.instant? s.instant?

theorem notAfter_trans (r s t : Record) : notAfter r s → notAfter s t → notAfter r t := by
  unfold notAfter
  cases r.instant? <;> cases s.instant? <;> cases t.instant? <;> simp [instantLE, Timestamp.le_def]
  omega

theorem notAfter_total (r s : Record) : notAfter r s || notAfter s r := by
  unfold notAfter
  cases r.instant? <;> cases s.instant? <;> simp [instantLE, Timestamp.le_def]
  omega

/-- Neither of two records is after the other if they are of one moment. -/
theorem notAfter_antisymm_iff {r s : Record} :
    notAfter r s ∧ notAfter s r ↔ r.moment = s.moment := by
  unfold notAfter moment
  cases r.instant? <;> cases s.instant? <;> simp [instantLE, Timestamp.le_def]
  exact le_antisymm_iff.symm

/-- No record with a moment is before one without. -/
theorem moment_eq_none_of_notAfter {r s : Record} (h : notAfter r s) (hs : s.moment = none) :
    r.moment = none := by
  unfold notAfter at h
  unfold moment at hs ⊢
  cases hr : r.instant? <;> simp_all [instantLE]

theorem le_of_notAfter {r s : Record} (h : notAfter r s) {m n : Int} (hm : r.moment = some m)
    (hn : s.moment = some n) : m ≤ n := by
  obtain ⟨t, ht, rfl⟩ := Option.map_eq_some_iff.1 hm
  obtain ⟨u, hu, rfl⟩ := Option.map_eq_some_iff.1 hn
  simpa [notAfter, ht, hu, instantLE, Timestamp.le_def] using h

theorem chronological_eq (rs : List Record) : chronological rs = rs.mergeSort notAfter := by
  have hmap := List.map_mergeSort (l := rs) (f := fun r => (r.instant?, r)) (r := notAfter)
    (s := fun a b => instantLE a.1 b.1) fun _ _ _ _ => rfl
  rw [chronological, ← hmap, List.map_map]
  exact List.map_id _

theorem chronological_perm (rs : List Record) : (chronological rs).Perm rs := by
  rw [chronological_eq]
  exact List.mergeSort_perm _ _

theorem pairwise_chronological (rs : List Record) : (chronological rs).Pairwise (notAfter · ·) := by
  rw [chronological_eq]
  exact List.pairwise_mergeSort notAfter_trans notAfter_total rs

/-- The records of a moment stay in order. -/
theorem filter_chronological (rs : List Record) (m : Option Int) :
    ((chronological rs).filter fun r => r.moment = m) = rs.filter fun r => r.moment = m := by
  rw [chronological_eq]
  exact filter_mergeSort moment notAfter_trans notAfter_total
    (fun _ _ h => (notAfter_antisymm_iff.2 h).1) rs m

theorem chronological_of_pairwise {rs : List Record} (h : rs.Pairwise (notAfter · ·)) :
    chronological rs = rs := by
  rw [chronological_eq]
  exact List.mergeSort_of_pairwise h

/-- **The order of time is that of a stable sort.** The records without a moment come first, as they
stood. The others follow by the moments that they name, each in its own zone, and those of one
moment as they stood. To sort again changes nothing. -/
theorem chronological_stable (rs : List Record) :
    (chronological rs).Perm rs ∧
    (∃ dated : List Record,
      chronological rs = (rs.filter fun r => ¬r.Dated) ++ dated ∧
      (∀ r ∈ dated, r.Dated) ∧
      dated.Pairwise fun r s => ∀ m n, r.At m → s.At n → m ≤ n) ∧
    (∀ n, ((chronological rs).filter fun r => r.At n) = rs.filter fun r => r.At n) ∧
    chronological (chronological rs) = chronological rs := by
  have hsorted := pairwise_chronological rs
  have hfirst : (chronological rs).Pairwise fun r s => decide (¬s.Dated) → decide (¬r.Dated) := by
    refine hsorted.imp fun {r s} hrs => ?_
    simp only [decide_eq_true_eq, ← moment_eq_none_iff]
    exact moment_eq_none_of_notAfter hrs
  have hundated : ((chronological rs).filter fun r => ¬r.Dated) = rs.filter fun r => ¬r.Dated := by
    simpa only [moment_eq_none_iff] using filter_chronological rs none
  refine ⟨chronological_perm rs, ⟨(chronological rs).filter fun r => !decide (¬r.Dated), ?_, ?_, ?_⟩,
    fun n => ?_, chronological_of_pairwise hsorted⟩
  · rw [← hundated]
    exact (filter_append_filter_not hfirst).symm
  · intro r hr
    simpa using (List.mem_filter.1 hr).2
  · refine (hsorted.filter _).imp fun {r s} hrs m n hm hn => ?_
    exact le_of_notAfter hrs (moment_eq_some_iff.2 hm) (moment_eq_some_iff.2 hn)
  · simpa only [moment_eq_some_iff] using filter_chronological rs (some n)

/-- By its text the record of the east would be the later one, and `soon` is no timestamp. -/
example :
    let c : Component := ⟨"p", "1", "c", "2", "/pv/1", "/cv/1"⟩
    let violation (s : String) : Record := .policy .violate ⟨s, c, [⟨"A", "/r"⟩]⟩
    let east := violation "2026-02-10T01:30:00+02:00"
    let utc := violation "2026-02-10T00:00:00Z"
    chronological [utc, violation "soon", east, .other] = [violation "soon", .other, east, utc] := by
  cbv

/-! ## Ties -/

/-- Records that share a key and the moment at which they apply. -/
def Ties (r s : Record) : Prop := Conflicts r s ∧ ∃ n, r.At n ∧ s.At n

/-- In the order of time the records of a key that apply are the same, if ties were kept. -/
theorem withKey_applied_chronological {rs ss : List Record} (h : Reordering Ties rs ss) (w : Window)
    (k : EventKey) : withKey k (appliedRecords w (chronological rs)) =
      withKey k (appliedRecords w (chronological ss)) := by
  have hsorted : ∀ ts, (withKey k (appliedRecords w (chronological ts))).Pairwise (notAfter · ·) :=
    fun ts => ((pairwise_chronological ts).filter _).filter _
  -- those of one moment stand as in the batch
  have hmoment : ∀ ts m, ((withKey k (appliedRecords w (chronological ts))).filter
      fun r => r.moment = m) = ts.filter fun r => r.Applies w ∧ k ∈ r.keys ∧ r.moment = m := by
    intro ts m
    have hcomm : ((withKey k (appliedRecords w (chronological ts))).filter fun r => r.moment = m) =
        withKey k (appliedRecords w ((chronological ts).filter fun r => r.moment = m)) := by
      rw [withKey, List.filter_comm, appliedRecords,
        List.filter_comm (fun r : Record => r.moment = m)]
      rfl
    rw [hcomm, filter_chronological, appliedRecords_eq, withKey, List.filter_filter,
      List.filter_filter]
    refine List.filter_congr fun r _ => ?_
    simp only [Bool.decide_and, Bool.and_comm, Bool.and_assoc]
  refine eq_of_sorted moment ?_ (hsorted rs) (hsorted ss) fun m => ?_
  · exact fun r s hrs hsr => notAfter_antisymm_iff.1 ⟨hrs, hsr⟩
  · rw [hmoment, hmoment]
    refine h.filter_eq fun r s hr hs => ?_
    obtain ⟨happlies, hkey, hm⟩ := of_decide_eq_true hr
    obtain ⟨-, hkey', hm'⟩ := of_decide_eq_true hs
    obtain ⟨n, hn⟩ := happlies.dated
    refine ⟨⟨k, hkey, hkey'⟩, n, hn, ?_⟩
    rw [← moment_eq_some_iff, hm', ← hm, moment_eq_some_iff]
    exact hn

end Record

/-! ## Reductions -/

/-- A batch that is put in the order of time comes to the same, in whatever order it was given, if
records that share a key and a moment keep theirs. Only the places of record errors change. -/
theorem reduce_chronological_reordering {c : Config} {w : Window} (hw : c.window = .ok w)
    (lookup : Lookup) {rs ss : List Record} (h : Reordering Record.Ties rs ss) :
    ∃ r s, reduce lookup c (Record.chronological rs) = .ok r ∧
      reduce lookup c (Record.chronological ss) = .ok s ∧ r.Agrees s := by
  have hperm : (Record.chronological rs).Perm (Record.chronological ss) :=
    (Record.chronological_perm rs).trans (h.perm.trans (Record.chronological_perm ss).symm)
  exact ⟨_, _, reduce_of_valid lookup _ hw, reduce_of_valid lookup _ hw,
    agrees_reduceWithin lookup c hperm (Record.withKey_applied_chronological h w)⟩

/-- A late record and one without a moment change places; a violation and a clearance at one
moment, written in different zones, stay in order. -/
theorem reduce_chronological_reordering_zones :
    let c : Component := ⟨"p", "1", "c", "2", "/pv/1", "/cv/1"⟩
    let rules : List PolicyRule := [⟨"A", "/r"⟩]
    let late : Record := .policy .override ⟨"2026-02-10T00:00:01Z", c, rules⟩
    let violation : Record := .policy .violate ⟨"2026-02-10T01:00:00+01:00", c, rules⟩
    let clearance : Record := .policy .clear ⟨"2026-02-10T00:00:00Z", c, rules⟩
    let undated : Record := .policy .violate ⟨"yesterday", c, rules⟩
    let rs : List Record := [late, violation, clearance, undated]
    let ss : List Record := [undated, violation, clearance, late]
    let lookup : Lookup := fun _ => .ok ⟨[]⟩
    Config.default.window = .ok .all ∧ Nonempty (Reordering Record.Ties rs ss) ∧
    ∃ r s, reduce lookup .default (Record.chronological rs) = .ok r ∧
      reduce lookup .default (Record.chronological ss) = .ok s ∧ r.Agrees s := by
  intro c rules late violation clearance undated rs ss lookup
  have hw : Config.default.window = .ok .all := by decide
  have hmoment : ∀ r s : Record, Record.Ties r s → r.moment = s.moment ∧ r.moment ≠ none := by
    rintro r s ⟨-, n, hr, hs⟩
    rw [← Record.moment_eq_some_iff] at hr hs
    simp [hr, hs]
  have hkeeps : ∀ i j : Fin 4, i < j → rs[i].moment = rs[j].moment ∧ rs[i].moment ≠ none →
      Equiv.swap 0 3 i < Equiv.swap (0 : Fin 4) 3 j := by decide +kernel
  have h : Reordering Record.Ties rs ss :=
    { place := Equiv.swap (0 : Fin 4) 3
      same := by decide
      keeps := fun i j hij htie => hkeeps i j hij (hmoment _ _ htie) }
  exact ⟨hw, ⟨h⟩, reduce_chronological_reordering hw lookup h⟩

end ScanDigest
