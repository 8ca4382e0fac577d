import Mathlib.Data.List.TakeWhile
import ScanDigest.Proofs.RecordFiles

/-!
# Lines of a batch

A text is decoded line by line: each line that is not blank is a record or a fault, whatever stands
on the lines around it (`Batch.records_ofLines`, `Batch.mem_lineErrors_iff`). So two texts with a
line feed between them have the records and faults of the first and then those of the second
(`Batch.ofLines_append`), the faults of the second as many lines further down as the first has.
-/

set_option autoImplicit false

namespace ScanDigest

namespace Text

theorem trim_eq_nil_iff {l : List Char} : trim l = [] ↔ ∀ c ∈ l, isBlank c = true := by
  rw [trim, List.reverse_eq_nil_iff, List.dropWhile_eq_nil_iff]
  simp only [List.mem_reverse]
  constructor
  · intro h c hc
    by_contra hblank
    have hstart : trimStart l ≠ [] := fun hnil => hblank (List.dropWhile_eq_nil_iff.mp hnil c hc)
    obtain ⟨d, m, hm⟩ := List.exists_cons_of_ne_nil hstart
    have hd := List.head?_dropWhile_not isBlank l
    rw [show l.dropWhile isBlank = d :: m from hm] at hd
    have := h d (hm ▸ List.mem_cons_self)
    simp [this] at hd
  · exact fun h c hc => h c (List.dropWhile_sublist _ |>.subset hc)

/-- The line has a character that is not blank. -/
def isFilled (l : List Char) : Bool := l.any fun c => !isBlank c

theorem isFilled_eq (l : List Char) : isFilled l = !(trim l).isEmpty := by
  rw [Bool.eq_iff_iff]
  simp [isFilled, trim_eq_nil_iff]

/-- Each line but the last one ends in a line feed. -/
theorem length_lines (cs : List Char) : (lines cs).length = 1 + cs.count '\n' := by
  induction cs with
  | nil => rfl
  | cons c cs ih =>
    obtain ⟨l, ls, hls⟩ := List.exists_cons_of_ne_nil (lines_ne_nil cs)
    rw [hls] at ih
    rw [lines_cons, hls, addToLines, List.count_cons]
    by_cases hc : c = '\n'
    · simp [hc, ih, Nat.add_assoc]
    · simpa [hc] using ih

end Text

/-- The fault of a line that stands `n` lines further down. -/
def LineError.lower (n : Nat) (e : LineError) : LineError := { e with line := e.line + n }

namespace Batch

/-! ## Entries -/

/-- The entry of a line that stands `n` lines further down. -/
def Entry.lower (n : Nat) (e : Entry) : Entry := (e.1 + n, e.2)

theorem record?_eq_some_iff {e : Entry} {r : Record} : e.record? = some r ↔ e.2 = .ok r := by
  obtain ⟨n, x⟩ := e
  cases x <;> simp [Entry.record?]

theorem error?_eq_some_iff {e : Entry} {fault : LineError} :
    e.error? = some fault ↔ e.1 = fault.line ∧ e.2 = .error fault.reason := by
  obtain ⟨n, x⟩ := e
  cases fault
  cases x <;> simp [Entry.error?]

theorem ofEntries_append (es fs : List Entry) :
    ofEntries (es ++ fs) = ⟨(ofEntries es).records ++ (ofEntries fs).records,
      (ofEntries es).lineErrors ++ (ofEntries fs).lineErrors⟩ := by
  simp only [ofEntries, List.filterMap_append]

theorem ofEntries_lower (n : Nat) (es : List Entry) :
    ofEntries (es.map (Entry.lower n)) =
      ⟨(ofEntries es).records, (ofEntries es).lineErrors.map (LineError.lower n)⟩ := by
  have hrecord : Entry.record? ∘ Entry.lower n = Entry.record? := by
    funext ⟨_, x⟩
    cases x <;> rfl
  have herror : Entry.error? ∘ Entry.lower n = fun e => e.error?.map (LineError.lower n) := by
    funext ⟨_, x⟩
    cases x <;> rfl
  simp only [ofEntries, List.filterMap_map, hrecord, herror, List.map_filterMap]

/-- An entry is a record or a fault. -/
theorem length_ofEntries (es : List Entry) :
    (ofEntries es).records.length + (ofEntries es).lineErrors.length = es.length := by
  induction es with
  | nil => rfl
  | cons e es ih =>
    obtain ⟨n, x⟩ := e
    cases x with
    | ok r =>
      show (ofEntries es).records.length + 1 + (ofEntries es).lineErrors.length = es.length + 1
      omega
    | error reason =>
      show (ofEntries es).records.length + ((ofEntries es).lineErrors.length + 1) = es.length + 1
      omega

/-- Faults have the numbers of their entries, in the same order. -/
theorem map_line_sublist (es : List Entry) :
    ((ofEntries es).lineErrors.map LineError.line).Sublist (es.map Prod.fst) := by
  induction es with
  | nil => exact List.Sublist.slnil
  | cons e es ih =>
    obtain ⟨n, x⟩ := e
    cases x with
    | ok r => exact ih.cons n
    | error reason => exact ih.cons_cons n

/-! ## Lines -/

theorem map_snd_lineEntries (n : Nat) (ls : List (List Char)) :
    (lineEntries n ls).map Prod.snd = (ls.filter Text.isFilled).map decodeLine := by
  induction ls generalizing n with
  | nil => rfl
  | cons l ls ih =>
    have ih := ih (n + 1)
    rw [lineEntries] at ih ⊢
    rw [List.zipIdx_cons, List.filter_cons, List.filter_cons, Text.isFilled_eq]
    split
    · rw [List.map_cons, List.map_cons, ih, List.map_cons]
    · exact ih

theorem length_lineEntries (n : Nat) (ls : List (List Char)) :
    (lineEntries n ls).length = ls.countP Text.isFilled := by
  have hlength := congrArg List.length (map_snd_lineEntries n ls)
  rwa [List.length_map, List.length_map, ← List.countP_eq_length_filter] at hlength

theorem lineEntries_append (n : Nat) (ls ms : List (List Char)) :
    lineEntries n (ls ++ ms) = lineEntries n ls ++ lineEntries (n + ls.length) ms := by
  simp only [lineEntries, List.zipIdx_append, List.filter_append, List.map_append]

theorem lineEntries_add (m n : Nat) (ls : List (List Char)) :
    lineEntries (m + n) ls = (lineEntries m ls).map (Entry.lower n) := by
  have hzip : ls.zipIdx (m + n) = (ls.zipIdx m).map (Prod.map id (· + n)) := by
    induction ls generalizing m with
    | nil => rfl
    | cons l ls ih =>
      rw [List.zipIdx_cons, List.zipIdx_cons, List.map_cons, ← ih, Nat.add_right_comm]
      rfl
  rw [lineEntries, lineEntries, hzip, List.filter_map, List.map_map, List.map_map]
  rfl

theorem pairwise_lineEntries (n : Nat) (ls : List (List Char)) :
    ((lineEntries n ls).map Prod.fst).Pairwise (· < ·) := by
  have hsublist : ((lineEntries n ls).map Prod.fst).Sublist (List.range' n ls.length) := by
    rw [lineEntries, List.map_map, ← List.zipIdx_map_snd]
    exact List.filter_sublist.map Prod.snd
  exact (List.pairwise_lt_range' ..).sublist hsublist

/-- The lines of the second text stand further down by those of the first. -/
theorem ofLines_append (a b : String) :
    ofLines (a ++ "\n" ++ b) = ⟨(ofLines a).records ++ (ofLines b).records,
      (ofLines a).lineErrors ++
        (ofLines b).lineErrors.map (LineError.lower (1 + a.toList.count '\n'))⟩ := by
  have hchars : (a ++ "\n" ++ b).toList = a.toList ++ '\n' :: b.toList := by
    simp [String.toList_append]
  rw [ofLines, hchars, Text.lines_append, lineEntries_append, lineEntries_add, Text.length_lines,
    ofEntries_append, ofEntries_lower]
  rfl

/-- The records are those of the lines that hold one. -/
theorem records_ofLines (s : String) : (ofLines s).records =
    ((s.toList.splitOn '\n').filter Text.isFilled).filterMap fun l => (decodeLine l).toOption := by
  have hrecord : Entry.record? = fun e => e.2.toOption := by
    funext e
    refine Option.ext fun r => ?_
    rw [record?_eq_some_iff, toOption_eq_some_iff]
  have hsnd : ∀ es : List Entry,
      (ofEntries es).records = (es.map Prod.snd).filterMap Except.toOption := by
    intro es
    simp only [ofEntries, hrecord, List.filterMap_map]
    rfl
  rw [ofLines, hsnd, map_snd_lineEntries, List.filterMap_map, Text.lines_eq_splitOn]
  rfl

/-- The faults are those of the lines that hold no record, with their numbers. -/
theorem mem_lineErrors_iff {s : String} {e : LineError} : e ∈ (ofLines s).lineErrors ↔
    ∃ i l, (s.toList.splitOn '\n')[i]? = some l ∧ Text.isFilled l = true ∧ e.line = 1 + i ∧
      decodeLine l = .error e.reason := by
  simp only [ofLines, ofEntries, lineEntries, Text.lines_eq_splitOn, List.mem_filterMap,
    List.mem_map, List.mem_filter, ← Text.isFilled_eq, error?_eq_some_iff]
  constructor
  · rintro ⟨_, ⟨⟨l, n⟩, ⟨hl, hfilled⟩, rfl⟩, hline, hreason⟩
    obtain ⟨hn, hl⟩ := List.mk_mem_zipIdx_iff_le_and_getElem?_sub.mp hl
    exact ⟨n - 1, l, hl, hfilled, by omega, hreason⟩
  · rintro ⟨i, l, hl, hfilled, hline, hreason⟩
    exact ⟨_, ⟨(l, 1 + i), ⟨List.mk_add_mem_zipIdx_iff_getElem?.mpr hl, hfilled⟩, rfl⟩, hline.symm,
      hreason⟩

/-- **Lines are decoded one by one.** A text after a line feed adds its records and its faults, with
their numbers after those of the text before. Each line that is not blank counts once, and faults
are listed from the top down. -/
theorem ofLines_line_by_line :
    (∀ a b : String, ofLines (a ++ "\n" ++ b) =
      ⟨(ofLines a).records ++ (ofLines b).records, (ofLines a).lineErrors ++
        (ofLines b).lineErrors.map fun e => ⟨e.line + (1 + a.toList.count '\n'), e.reason⟩⟩) ∧
    ∀ s : String,
      (ofLines s).records.length + (ofLines s).lineErrors.length =
        (s.toList.splitOn '\n').countP Text.isFilled ∧
      ((ofLines s).lineErrors.map LineError.line).Pairwise (· < ·) := by
  refine ⟨ofLines_append, fun s => ⟨?_, ?_⟩⟩
  · rw [ofLines, length_ofEntries, length_lineEntries, Text.lines_eq_splitOn]
  · exact (pairwise_lineEntries ..).sublist (map_line_sublist _)

end Batch

end ScanDigest
