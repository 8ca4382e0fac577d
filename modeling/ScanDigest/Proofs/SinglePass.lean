import Mathlib.Data.List.Basic
import Mathlib.Data.List.Induction
import ScanDigest.Digest.Pass

/-!
# One pass

`Pass.Stands w rs p` says what a pass has come to once it has taken in the records `rs`: the board
and the tracker of those that apply, the counts of the verdicts, and the record errors. One more
record keeps it so (`Pass.Stands.step`), hence so does a batch (`Pass.stands_run`). Closed there,
the pass gives the reduction of the batch (`Pass.map_fst_reduce`), and it has warned of what the
reduction reports and of nothing else (`Pass.warnings_close`).
-/

set_option autoImplicit false

namespace ScanDigest

/-- The entries that are warnings, or worse. -/
def LogEntry.warnings (log : List LogEntry) : List LogEntry := log.filter (reaches .warn)

namespace LogEntry

@[simp] theorem warnings_append (log entries : List LogEntry) :
    warnings (log ++ entries) = warnings log ++ warnings entries := List.filter_append ..

@[simp] theorem warnings_push (log : Array LogEntry) (e : LogEntry) :
    warnings (log.push e).toList = warnings log.toList ++ warnings [e] := by
  rw [Array.toList_push, warnings_append]

/-- What happens to a rule is no reason for a warning. -/
theorem warnings_ofRule? (action : PolicyAction) (key : EventKey) (rule : PolicyRule)
    (state? : Option PolicyState) : warnings (ofRule? action key rule state?).toList = [] := by
  cases action <;> cases state? with
  | none => rfl
  | some state => cases state <;> rfl

/-- A failure is a reason for a warning. -/
theorem warnings_ofAnswer? (key : EventKey) (t : Tracked)
    (answer : Except Failure ComponentVulnerabilities) :
    warnings (ofAnswer? key t answer).toList = (ofAnswer? key t answer).toList := by
  cases answer <;> rfl

end LogEntry

namespace Pass

/-! ## Records -/

/-- Applying changes `p` into `q`: the board and the tracker, and what is logged below a warning. -/
structure Becomes (p : Pass) (b : PolicyBoard) (t : Tracker) (q : Pass) : Prop where
  board : q.board = b
  tracker : q.tracker = t
  stats : q.stats = p.stats
  recordErrors : q.recordErrors = p.recordErrors
  warnings : LogEntry.warnings q.log.toList = LogEntry.warnings p.log.toList

theorem becomes_applyRules (action : PolicyAction) (n : PolicyNotice) (rules : List PolicyRule)
    (p : Pass) : p.Becomes (rules.foldl (PolicyBoard.applyRule action n) p.board) p.tracker
      (rules.foldl (applyRule action n) p) := by
  induction rules generalizing p with
  | nil => exact ⟨rfl, rfl, rfl, rfl, rfl⟩
  | cons rule rules ih =>
    obtain ⟨hboard, htracker, hstats, herrors, hwarnings⟩ := ih (p.applyRule action n rule)
    refine ⟨hboard, htracker, hstats, herrors, hwarnings.trans ?_⟩
    simp [applyRule, LogEntry.warnings_ofRule?]

theorem becomes_apply (p : Pass) (r : Record) :
    p.Becomes (p.board.apply r) (p.tracker.apply r) (p.apply r) := by
  cases r with
  | policy action n => exact becomes_applyRules action n n.rules p
  | delta d => exact ⟨rfl, rfl, rfl, rfl, rfl⟩
  | other => exact ⟨rfl, rfl, rfl, rfl, rfl⟩

section

variable (w : Window) (p : Pass) (r : Record × Nat)

theorem board_step : (p.step w r).board =
    if r.1.verdict w == .applied then p.board.apply r.1 else p.board := by
  have happly := (p.see.becomes_apply r.1).board
  unfold step
  cases r.1.verdict w with
  | applied => exact happly
  | ignored => rfl
  | malformed d => rfl
  | outside => rfl

theorem tracker_step : (p.step w r).tracker =
    if r.1.verdict w == .applied then p.tracker.apply r.1 else p.tracker := by
  have happly := (p.see.becomes_apply r.1).tracker
  unfold step
  cases r.1.verdict w with
  | applied => exact happly
  | ignored => rfl
  | malformed d => rfl
  | outside => rfl

/-- Each record is counted, and once more under its verdict. -/
theorem stats_step : (p.step w r).stats =
    { p.stats with
      seen := p.stats.seen + 1
      applied := p.stats.applied + if r.1.verdict w == .applied then 1 else 0
      ignored := p.stats.ignored + if r.1.verdict w == .ignored then 1 else 0
      malformed := p.stats.malformed + if (r.1.verdict w).isMalformed then 1 else 0
      outsideWindow := p.stats.outsideWindow + if r.1.verdict w == .outside then 1 else 0 } := by
  have happly := (p.see.becomes_apply r.1).stats
  unfold step
  cases r.1.verdict w with
  | applied =>
    simp only [happly]
    rfl
  | ignored => rfl
  | malformed d => rfl
  | outside => rfl

theorem recordErrors_step : (p.step w r).recordErrors.toList =
    p.recordErrors.toList ++ (recordError? w r).toList := by
  have happly := congrArg Array.toList (p.see.becomes_apply r.1).recordErrors
  unfold step recordError?
  cases r.1.verdict w with
  | applied => exact happly.trans (List.append_nil _).symm
  | ignored => exact (List.append_nil _).symm
  | malformed d => exact Array.toList_push
  | outside => exact (List.append_nil _).symm

/-- A malformed record is warned of. -/
theorem warnings_step : LogEntry.warnings (p.step w r).log.toList =
    LogEntry.warnings p.log.toList ++ (recordError? w r).toList.map .malformed := by
  have happly := (p.see.becomes_apply r.1).warnings
  unfold step recordError?
  cases r.1.verdict w with
  | applied => exact happly.trans (List.append_nil _).symm
  | ignored => exact LogEntry.warnings_push ..
  | malformed d => exact LogEntry.warnings_push ..
  | outside => exact (List.append_nil _).symm

end

/-- What a pass has come to after the records `rs`. -/
structure Stands (w : Window) (rs : List Record) (p : Pass) : Prop where
  board : p.board = policyBoard (appliedRecords w rs)
  tracker : p.tracker = ScanDigest.tracker (appliedRecords w rs)
  stats : p.stats =
    { seen := rs.length
      applied := (appliedRecords w rs).length
      ignored := rs.countP fun r => r.verdict w == .ignored
      malformed := rs.countP fun r => (r.verdict w).isMalformed
      outsideWindow := rs.countP fun r => r.verdict w == .outside
      lookupCalls := 0
      eventsFiltered := 0 }
  recordErrors : p.recordErrors.toList = rs.zipIdx.filterMap (recordError? w)
  warnings : LogEntry.warnings p.log.toList =
    (rs.zipIdx.filterMap (recordError? w)).map .malformed

theorem stands_start (w : Window) : Stands w [] start := ⟨rfl, rfl, rfl, rfl, rfl⟩

theorem appliedRecords_concat (w : Window) (rs : List Record) (r : Record) :
    appliedRecords w (rs ++ [r]) =
      if r.verdict w == .applied then appliedRecords w rs ++ [r] else appliedRecords w rs := by
  rw [appliedRecords, List.filter_append, List.filter_singleton]
  cases r.verdict w == .applied with
  | true => rfl
  | false => exact List.append_nil _

/-- What is folded over the records that apply takes in one more, if that one applies. -/
theorem foldl_appliedRecords_concat {β : Type} (f : β → Record → β) (b : β) (w : Window)
    (rs : List Record) (r : Record) : (appliedRecords w (rs ++ [r])).foldl f b =
      if r.verdict w == .applied then f ((appliedRecords w rs).foldl f b) r
      else (appliedRecords w rs).foldl f b := by
  rw [appliedRecords_concat]
  split
  · exact List.foldl_concat ..
  · rfl

theorem recordErrors_concat (w : Window) (rs : List Record) (r : Record) :
    (rs ++ [r]).zipIdx.filterMap (recordError? w) =
      rs.zipIdx.filterMap (recordError? w) ++ (recordError? w (r, rs.length)).toList := by
  rw [List.zipIdx_append, List.filterMap_append, Nat.zero_add]
  rfl

section

variable {w : Window} {rs : List Record} {p : Pass}

/-- One more record keeps a pass where it stands, whatever the verdict on it. -/
theorem Stands.step (h : Stands w rs p) (r : Record) :
    Stands w (rs ++ [r]) (p.step w (r, rs.length)) := by
  constructor
  case board =>
    rw [board_step, h.board]
    exact (foldl_appliedRecords_concat ..).symm
  case tracker =>
    rw [tracker_step, h.tracker]
    exact (foldl_appliedRecords_concat ..).symm
  case stats =>
    -- three counts are of verdicts as they stand, the one of `applied` is the length of a list
    rw [stats_step, h.stats, appliedRecords_concat]
    simp only [List.length_append, List.length_singleton, List.countP_append, List.countP_singleton]
    congr 1
    split <;> simp
  case recordErrors => rw [recordErrors_step, h.recordErrors, recordErrors_concat]
  case warnings => rw [warnings_step, h.warnings, recordErrors_concat, List.map_append]

theorem stands_run (w : Window) (rs : List Record) : Stands w rs (run w rs) := by
  induction rs using List.reverseRecOn with
  | nil => exact stands_start w
  | append_singleton rs r ih =>
    have hrun : run w (rs ++ [r]) = (run w rs).step w (r, rs.length) := by
      rw [run, List.zipIdx_append, List.foldl_append, Nat.zero_add]
      rfl
    rw [hrun]
    exact ih.step r

end

/-! ## Keys -/

section

variable (lookup : Lookup)

theorem toProgress_closeKey (c : Closing) (kt : EventKey × Tracked) :
    (closeKey lookup c kt).toProgress =
      if !kt.2.net.isEmpty then Tracker.publishKey lookup c.toProgress kt else c.toProgress := by
  obtain ⟨key, t⟩ := kt
  cases h : t.net.isEmpty with
  | true => simp [closeKey, h]
  | false => simp [closeKey, Tracker.publishKey, h]

/-- Closing passes over the keys without a change and publishes the others. -/
theorem toProgress_closeKeys (kts : List (EventKey × Tracked)) (c : Closing) :
    (kts.foldl (closeKey lookup) c).toProgress =
      (kts.filter fun kt => !kt.2.net.isEmpty).foldl (Tracker.publishKey lookup) c.toProgress := by
  rw [List.foldl_filter]
  exact (List.foldl_hom Closing.toProgress fun c kt => (toProgress_closeKey lookup c kt).symm).symm

/-- The warnings since `before` are those of the failures. -/
def Closing.Warns (before : List LogEntry) (c : Closing) : Prop :=
  LogEntry.warnings c.log.toList = before ++ c.failures.reverse.map .notLookedUp

/-- An answer makes a failure exactly if it makes a warning. -/
theorem map_failures_settle (p : Tracker.Progress) (key : EventKey) (t : Tracked)
    (answer : Except Failure ComponentVulnerabilities) :
    (p.settle key t answer).failures.reverse.map LogEntry.notLookedUp =
      p.failures.reverse.map .notLookedUp ++ (LogEntry.ofAnswer? key t answer).toList := by
  cases answer with
  | ok info => exact (List.append_nil _).symm
  | error e => simp [Tracker.Progress.settle, LogEntry.ofAnswer?]

theorem Closing.Warns.closeKey {before : List LogEntry} {c : Closing} (h : c.Warns before)
    (kt : EventKey × Tracked) : (closeKey lookup c kt).Warns before := by
  obtain ⟨key, t⟩ := kt
  unfold Warns at h ⊢
  cases hnet : t.net.isEmpty with
  | true =>
    simp only [Pass.closeKey, hnet, if_true, LogEntry.warnings_push, h]
    exact List.append_nil _
  | false =>
    simp only [Pass.closeKey, hnet, Bool.false_eq_true, if_false, Array.toList_appendList,
      LogEntry.warnings_append, LogEntry.warnings_ofAnswer?, map_failures_settle, h,
      List.append_assoc]

theorem warns_closeKeys {before : List LogEntry} (kts : List (EventKey × Tracked)) {c : Closing}
    (h : c.Warns before) : (kts.foldl (closeKey lookup) c).Warns before := by
  induction kts generalizing c with
  | nil => exact h
  | cons kt kts ih => exact ih (h.closeKey lookup kt)

/-- What is published at the end of a pass. -/
theorem toProgress_closing {w : Window} {rs : List Record} {p : Pass} (h : Stands w rs p)
    (c : Config) : (p.closing lookup c).toProgress = publication w lookup c rs := by
  rw [closing, publication, ← h.board, ← h.tracker]
  split
  · exact toProgress_closeKeys lookup _ _
  · rfl

/-- A pass that is closed gives the reduction of the records that it has taken in. -/
theorem fst_close {w : Window} {rs : List Record} {p : Pass} (h : Stands w rs p) (c : Config) :
    (p.close lookup c).1 = reduceWithin w lookup c rs := by
  simp only [close, reduceWithin, toProgress_closing lookup h, h.stats, h.tracker, h.recordErrors]

theorem warns_closing (p : Pass) (c : Config) :
    (p.closing lookup c).Warns (LogEntry.warnings p.log.toList) := by
  rw [closing]
  split
  · exact warns_closeKeys lookup _ (List.append_nil _).symm
  · exact (List.append_nil _).symm

/-- It has warned of the record errors and of the failures, and of nothing else. -/
theorem warnings_close {w : Window} {rs : List Record} {p : Pass} (h : Stands w rs p)
    (c : Config) : LogEntry.warnings (p.close lookup c).2 =
      (p.close lookup c).1.outcome.recordErrors.map .malformed ++
        (p.close lookup c).1.outcome.lookupFailures.map .notLookedUp := by
  have hlast : LogEntry.warnings (p.close lookup c).2 =
      LogEntry.warnings (p.closing lookup c).log.toList ++ [] := LogEntry.warnings_push ..
  rw [hlast, List.append_nil, warns_closing lookup p c, h.warnings, ← h.recordErrors]
  rfl

end

/-! ## Reductions -/

/-- With a valid configuration a pass is made and closed. -/
theorem reduce_of_window {c : Config} {w : Window} (hw : c.window = .ok w) (lookup : Lookup)
    (rs : List Record) : Pass.reduce lookup c rs = .ok ((run w rs).close lookup c) := by
  rw [Pass.reduce, Config.checked, hw]
  rfl

/-- **One pass** over a batch gives its reduction, and fails where the reduction fails. -/
theorem map_fst_reduce (lookup : Lookup) (c : Config) (rs : List Record) :
    Prod.fst <$> Pass.reduce lookup c rs = ScanDigest.reduce lookup c rs := by
  rw [Pass.reduce, ScanDigest.reduce]
  cases c.checked with
  | error e => rfl
  | ok w => exact congrArg Except.ok (fst_close lookup (stands_run w rs) c)

end Pass

end ScanDigest
