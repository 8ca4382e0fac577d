import ScanDigest.Command
import ScanDigest.Proofs.Chronology
import ScanDigest.Proofs.Conservation
import ScanDigest.Proofs.Formats
import ScanDigest.Proofs.LineByLine
import ScanDigest.Proofs.SinglePass
import ScanDigest.Proofs.Utf8

/-!
# The exit status

A call has no report only if one of its files cannot be read or decoded (`Command.Fatal`): once all
of them are loaded, nothing can fail (`Command.exists_report_iff`). A report is clean unless an entry
of the records file is no record, or a record of a known type is malformed (`Command.Flawed`); a
catalog answers every lookup. Neither depends on the format or on the order of the records
(`Command.exit_status`). What the call warns of on its way is what its report has as errors
(`Command.warnings_log`).
-/

set_option autoImplicit false

namespace ScanDigest

open Json

/-! ## Entries of a records file -/

namespace Batch

/-- The text has an entry, a line that is not blank or an item of its array, that decodes to the
record, or to none. -/
inductive HasEntry (s : String) : Option Record → Prop where
  | line {l : List Char} (lines : startsArray s = false) (mem : l ∈ Text.lines s.toList)
      (filled : ∃ c ∈ l, Text.isBlank c = false) : HasEntry s (decodeLine l).toOption
  | item {js : List Json} {j : Json} (array : startsArray s = true)
      (parsed : parse (Text.ofString s) = .ok (.arr js)) (mem : j ∈ js) :
      HasEntry s (Record.codec.ofJson j).toOption

end Batch

/-! ## Calls -/

/-- The file can be read and holds a value. -/
def File.Holds {α : Type} (f : File) (c : Codec α) (a : α) : Prop :=
  ∃ bytes, f.content = .ok bytes ∧ c.ofText (Text.ofBytes bytes) = .ok a

/-- The file can be read and holds a string in UTF-8. -/
def File.HoldsText (f : File) (s : String) : Prop := f.content = .ok s.toUTF8.data.toList

namespace Command

variable (c : Command)

/-- The call lacks what it needs to make a report. -/
inductive Fatal : Prop where
  | config {f : File} (given : c.config = some f)
      (bad : ¬∃ config w, f.Holds Config.codec config ∧ config.window = .ok w)
  | catalog {f : File} (given : c.catalog = some f) (bad : ¬∃ catalog, f.Holds Catalog.codec catalog)
  | records (bad : ¬∃ s, c.records.HoldsText s)
  | array {s : String} (text : c.records.HoldsText s) (starts : Batch.startsArray s = true)
      (bad : ¬∃ js, parse (Text.ofString s) = .ok (.arr js))

/-- Part of the records file does not count: it is no record, or one that cannot be applied at any
time. -/
def Flawed : Prop :=
  ∃ s, c.records.HoldsText s ∧
    (Batch.HasEntry s none ∨ ∃ r, Batch.HasEntry s (some r) ∧ r.Malformed)

end Command

/-! ## Batches -/

namespace Batch

theorem map_snd_itemEntries (n : Nat) (js : List Json) :
    (itemEntries n js).map Prod.snd =
      js.map fun j => (Record.codec.ofJson j).mapError Cause.message :=
  map_snd_zipIdx (fun j => (Record.codec.ofJson j).mapError Cause.message) js n

theorem mem_records_ofEntries {es : List Entry} {r : Record} :
    r ∈ (ofEntries es).records ↔ .ok r ∈ es.map Prod.snd := by
  simp only [ofEntries, List.mem_filterMap, List.mem_map, record?_eq_some_iff]

theorem lineErrors_ofEntries_eq_nil_iff {es : List Entry} :
    (ofEntries es).lineErrors = [] ↔ ∀ e, .error e ∉ es.map Prod.snd := by
  simp only [ofEntries, List.eq_nil_iff_forall_not_mem, List.mem_filterMap, List.mem_map,
    error?_eq_some_iff]
  constructor
  · rintro h reason ⟨e, he, hreason⟩
    exact h ⟨e.1, reason⟩ ⟨e, he, rfl, hreason⟩
  · rintro h ⟨line, reason⟩ ⟨e, he, -, hreason⟩
    exact h reason ⟨e, he, hreason⟩

section

variable {s : String}

theorem hasEntry_lines (h : startsArray s = false) {o : Option Record} : HasEntry s o ↔
    ∃ x ∈ (lineEntries 1 (Text.lines s.toList)).map Prod.snd, x.toOption = o := by
  have hfilled : ∀ l : List Char, Text.isFilled l = true ↔ ∃ c ∈ l, Text.isBlank c = false := by
    intro l
    simp [Text.isFilled]
  simp only [map_snd_lineEntries, List.mem_map, List.mem_filter, hfilled]
  constructor
  · rintro (⟨-, hl, hc⟩ | ⟨harray, -, -⟩)
    · exact ⟨_, ⟨_, ⟨hl, hc⟩, rfl⟩, rfl⟩
    · rw [h] at harray
      cases harray
  · rintro ⟨_, ⟨l, ⟨hl, hc⟩, rfl⟩, rfl⟩
    exact .line h hl hc

theorem hasEntry_items {js : List Json} (h : startsArray s = true)
    (hjs : parse (Text.ofString s) = .ok (.arr js)) {o : Option Record} : HasEntry s o ↔
      ∃ x ∈ (itemEntries 1 js).map Prod.snd, x.toOption = o := by
  simp only [map_snd_itemEntries, List.mem_map]
  constructor
  · rintro (⟨hlines, -, -⟩ | ⟨-, hparsed, hj⟩)
    · rw [h] at hlines
      cases hlines
    · cases hparsed.symm.trans hjs
      exact ⟨_, ⟨_, hj, rfl⟩, toOption_mapError _ _⟩
  · rintro ⟨_, ⟨j, hj, rfl⟩, rfl⟩
    rw [toOption_mapError]
    exact .item h hjs hj

/-- A text that does not start as an array, or is one, has a batch of its entries. -/
theorem exists_entries (h : startsArray s = true → ∃ js, parse (Text.ofString s) = .ok (.arr js)) :
    ∃ es, ofString s = .ok (ofEntries es) ∧
      ∀ o, HasEntry s o ↔ ∃ x ∈ es.map Prod.snd, x.toOption = o := by
  rw [ofString]
  cases hs : startsArray s with
  | false => exact ⟨_, rfl, fun _ => hasEntry_lines hs⟩
  | true =>
    obtain ⟨js, hjs⟩ := h hs
    refine ⟨itemEntries 1 js, ?_, fun _ => hasEntry_items hs hjs⟩
    simp only [↓reduceIte, ofArray, ofText_items_eq_ok_iff.mpr hjs]

theorem exists_ofString_iff : (∃ b, ofString s = .ok b) ↔
    (startsArray s = true → ∃ js, parse (Text.ofString s) = .ok (.arr js)) := by
  constructor
  · rintro ⟨b, hb⟩ hs
    rw [ofString, if_pos hs, ofArray] at hb
    split at hb
    · rename_i js hjs
      exact ⟨js, ofText_items_eq_ok_iff.mp hjs⟩
    · cases hb
  · intro h
    obtain ⟨es, hes, -⟩ := exists_entries h
    exact ⟨_, hes⟩

/-- A batch has the records that entries decode to, and an error if one does not decode. -/
theorem hasEntry_iff {b : Batch} (h : ofString s = .ok b) :
    (∀ r, HasEntry s (some r) ↔ r ∈ b.records) ∧ (HasEntry s none ↔ b.lineErrors ≠ []) := by
  obtain ⟨es, hes, hentries⟩ := exists_entries (exists_ofString_iff.mp ⟨b, h⟩)
  cases h.symm.trans hes
  refine ⟨fun r => ?_, ?_⟩
  · rw [hentries, mem_records_ofEntries]
    simp only [toOption_eq_some_iff, exists_eq_right]
  · rw [hentries, Ne, lineErrors_ofEntries_eq_nil_iff]
    simp only [toOption_eq_none_iff]
    push Not
    exact ⟨fun ⟨_, hx, e, he⟩ => ⟨e, he ▸ hx⟩, fun ⟨e, hx⟩ => ⟨_, hx, e, rfl⟩⟩

end

end Batch

/-! ## Reductions -/

section

variable (w : Window) (config : Config) (rs : List Record)

/-- A catalog answers every lookup. -/
theorem lookupFailures_catalog (catalog : Catalog) :
    (reduceWithin w catalog.lookup config rs).outcome.lookupFailures = [] := by
  rw [lookupFailures_reduceWithin, publication]
  split
  · rw [Tracker.failures_publish, List.filterMap_eq_nil_iff]
    exact fun p _ => (Tracked.published_of_ok rfl).2
  · rfl

theorem recordErrors_eq_nil_iff (lookup : Lookup) :
    (reduceWithin w lookup config rs).outcome.recordErrors = [] ↔ ∀ r ∈ rs, ¬r.Malformed := by
  rw [← List.length_eq_zero_iff]
  refine (length_recordErrors w rs).congr_left.trans ?_
  simp only [List.countP_eq_zero, Record.isMalformed_verdict_iff]

end

/-! ## Reports -/

namespace Command

section

variable {f : File}

theorem recordsText_eq_ok_iff {s : String} : recordsText f = .ok s ↔ f.HoldsText s := by
  unfold recordsText File.HoldsText
  cases f.content with
  | error reason => simp
  | ok bytes =>
    rw [Except.ok.injEq, ← Text.toString?_ofBytes_eq_some_iff]
    cases h : (Text.ofBytes bytes).toString? <;> simp [h]

theorem fromFile_eq_ok_iff {α : Type} {x : Codec α} {a : α} : x.fromFile f = .ok a ↔ f.Holds x a := by
  unfold Codec.fromFile Codec.fromText File.text File.Holds
  cases f.content <;> simp

theorem load_eq_ok_iff {config : Config} : Config.load f = .ok config ↔
    f.Holds Config.codec config ∧ ∃ w, config.window = .ok w := by
  simp [Config.load, Config.checked, fromFile_eq_ok_iff]

end

variable {c : Command}

theorem exists_loadConfig_iff : (∃ config, c.loadConfig = .ok config) ↔
    ∀ f, c.config = some f → ∃ config w, f.Holds Config.codec config ∧ config.window = .ok w := by
  unfold loadConfig
  cases c.config with
  | none => simp
  | some f => simp [load_eq_ok_iff]

theorem exists_loadCatalog_iff : (∃ catalog, c.loadCatalog = .ok catalog) ↔
    ∀ f, c.catalog = some f → ∃ catalog, f.Holds Catalog.codec catalog := by
  unfold loadCatalog
  cases c.catalog with
  | none => simp
  | some f => simp [Catalog.load, fromFile_eq_ok_iff]

/-- A configuration that is loaded is valid. -/
theorem exists_window {config : Config} (h : c.loadConfig = .ok config) :
    ∃ w, config.window = .ok w := by
  unfold loadConfig at h
  split at h
  · exact (load_eq_ok_iff.mp (mapError_eq_ok.mp h)).2
  · cases h
    exact ⟨.all, by decide⟩

theorem loadBatch_eq_ok_iff {b : Batch} : c.loadBatch = .ok b ↔
    ∃ s, c.records.HoldsText s ∧ Batch.ofString s = .ok b := by
  simp only [loadBatch, bind_eq_ok, mapError_eq_ok, recordsText_eq_ok_iff]

/-- A report needs all files. -/
theorem exists_loaded {r : Report} (h : c.report = .ok r) :
    ∃ config catalog b, c.loadConfig = .ok config ∧ c.loadCatalog = .ok catalog ∧
      c.loadBatch = .ok b := by
  unfold report execute at h
  cases hconfig : c.loadConfig with
  | error t =>
    rw [hconfig] at h
    cases h
  | ok config =>
    cases hcatalog : c.loadCatalog with
    | error t =>
      rw [hconfig, hcatalog] at h
      cases h
    | ok catalog =>
      cases hb : c.loadBatch with
      | error t =>
        rw [hconfig, hcatalog, hb] at h
        cases h
      | ok b => exact ⟨config, catalog, b, rfl, rfl, rfl⟩

/-- What a call does once all files are loaded: it passes over its records and shows what they come
to. -/
theorem execute_of_loaded {config : Config} {catalog : Catalog} {b : Batch} {w : Window}
    (hconfig : c.loadConfig = .ok config) (hcatalog : c.loadCatalog = .ok catalog)
    (hb : c.loadBatch = .ok b) (hw : config.window = .ok w) :
    let closed := (Pass.run w (c.ordered b.records)).close catalog.lookup config
    c.execute.run.run [] = (.ok ⟨b.lineErrors, closed.1.outcome⟩,
      b.lineErrors.map .undecodable ++ closed.2 ++
        [.fileReduced c.records.path closed.1.outcome.events.length b.lineErrors.length]) := by
  intro closed
  have hreduce : Pass.reduce catalog.lookup config (c.ordered b.records) = .ok closed :=
    Pass.reduce_of_window hw _ _
  rw [execute, hconfig, hcatalog, hb]
  show (c.reportOn config catalog b).run.run [] = _
  rw [reportOn, hreduce]
  rfl

theorem report_eq_ok_iff {r : Report} : c.report = .ok r ↔
    ∃ config catalog s b w, c.loadConfig = .ok config ∧ c.loadCatalog = .ok catalog ∧
      c.records.HoldsText s ∧ Batch.ofString s = .ok b ∧ config.window = .ok w ∧
      r = ⟨b.lineErrors, (reduceWithin w catalog.lookup config (c.ordered b.records)).outcome⟩ := by
  constructor
  · intro h
    obtain ⟨config, catalog, b, hconfig, hcatalog, hb⟩ := exists_loaded h
    obtain ⟨w, hw⟩ := exists_window hconfig
    obtain ⟨s, hs, hsb⟩ := loadBatch_eq_ok_iff.1 hb
    have hr := h.symm.trans (congrArg Prod.fst (execute_of_loaded hconfig hcatalog hb hw))
    rw [Pass.fst_close _ (Pass.stands_run w _)] at hr
    exact ⟨config, catalog, s, b, w, hconfig, hcatalog, hs, hsb, hw, Except.ok.inj hr⟩
  · rintro ⟨config, catalog, s, b, w, hconfig, hcatalog, hs, hsb, hw, rfl⟩
    have hb := loadBatch_eq_ok_iff.2 ⟨s, hs, hsb⟩
    rw [← Pass.fst_close _ (Pass.stands_run w _)]
    exact congrArg Prod.fst (execute_of_loaded hconfig hcatalog hb hw)

/-- Once all files are loaded, nothing can fail. -/
theorem exists_report_iff : (∃ r, c.report = .ok r) ↔ ¬c.Fatal := by
  have hparts : (∃ r, c.report = .ok r) ↔
      (∃ config, c.loadConfig = .ok config) ∧ (∃ catalog, c.loadCatalog = .ok catalog) ∧
        ∃ s, c.records.HoldsText s ∧ ∃ b, Batch.ofString s = .ok b := by
    simp only [report_eq_ok_iff]
    constructor
    · rintro ⟨_, config, catalog, s, b, w, hconfig, hcatalog, hs, hb, -, -⟩
      exact ⟨⟨config, hconfig⟩, ⟨catalog, hcatalog⟩, s, hs, b, hb⟩
    · rintro ⟨⟨config, hconfig⟩, ⟨catalog, hcatalog⟩, s, hs, b, hb⟩
      obtain ⟨w, hw⟩ := exists_window hconfig
      exact ⟨_, config, catalog, s, b, w, hconfig, hcatalog, hs, hb, hw, rfl⟩
  simp only [hparts, exists_loadConfig_iff, exists_loadCatalog_iff, Batch.exists_ofString_iff]
  constructor
  · rintro ⟨hconfig, hcatalog, s, hs, harray⟩ (⟨given, bad⟩ | ⟨given, bad⟩ | bad | ⟨text, starts, bad⟩)
    · exact bad (hconfig _ given)
    · exact bad (hcatalog _ given)
    · exact bad ⟨s, hs⟩
    · cases (recordsText_eq_ok_iff.mpr text).symm.trans (recordsText_eq_ok_iff.mpr hs)
      exact bad (harray starts)
  · intro h
    refine ⟨fun f given => ?_, fun f given => ?_, ?_⟩
    · by_contra bad
      exact h (.config given bad)
    · by_contra bad
      exact h (.catalog given bad)
    · have hs : ∃ s, c.records.HoldsText s := by
        by_contra bad
        exact h (.records bad)
      obtain ⟨s, hs⟩ := hs
      refine ⟨s, hs, fun starts => ?_⟩
      by_contra bad
      exact h (.array hs starts bad)

theorem mem_ordered {rs : List Record} {r : Record} : r ∈ c.ordered rs ↔ r ∈ rs := by
  unfold ordered
  split
  · exact (Record.chronological_perm rs).mem_iff
  · rfl

/-- A report is clean if every entry is a record that can be applied at some time. -/
theorem isClean_iff {r : Report} (h : c.report = .ok r) : r.isClean = true ↔ ¬c.Flawed := by
  obtain ⟨config, catalog, s, b, w, -, -, hs, hb, -, rfl⟩ := report_eq_ok_iff.mp h
  obtain ⟨hrecords, herrors⟩ := Batch.hasEntry_iff hb
  have hflawed : c.Flawed ↔ b.lineErrors ≠ [] ∨ ∃ r ∈ b.records, r.Malformed := by
    rw [← herrors]
    simp only [← hrecords]
    constructor
    · rintro ⟨s', hs', hentries⟩
      cases (recordsText_eq_ok_iff.mpr hs').symm.trans (recordsText_eq_ok_iff.mpr hs)
      exact hentries
    · exact fun hentries => ⟨s, hs, hentries⟩
  rw [hflawed]
  simp only [Report.isClean, Bool.and_eq_true, List.isEmpty_iff, recordErrors_eq_nil_iff,
    lookupFailures_catalog, mem_ordered]
  push Not
  simp

/-! ## The exit status -/

theorem Fatal.congr {d : Command} (h : c.Fatal) (hconfig : d.config = c.config)
    (hcatalog : d.catalog = c.catalog) (hrecords : d.records = c.records) : d.Fatal := by
  cases h with
  | config given bad => exact .config (hconfig.trans given) bad
  | catalog given bad => exact .catalog (hcatalog.trans given) bad
  | records bad => exact .records (hrecords ▸ bad)
  | array text starts bad => exact .array (hrecords ▸ text) starts bad

/-- The report is printed, and what it complains of comes after the log. -/
theorem run_of_report {r : Report} (h : c.report = .ok r) : c.run =
    ⟨if r.isClean then 0 else 1, r.render c.format, c.subscriber.write c.log ++ r.complaints⟩ := by
  unfold report at h
  simp only [run, h]
  rfl

/-- Without a report nothing is printed, and the trouble is told after the log. -/
theorem run_of_trouble {t : Trouble} (h : c.report = .error t) : c.run =
    ⟨2, "", c.subscriber.write c.log ++ "digest_runner error: " ++ t.message ++ "\n"⟩ := by
  unfold report at h
  simp only [run, h]
  rfl

theorem run_of_fatal (h : c.Fatal) : c.run.exit = 2 ∧ c.run.stdout = "" := by
  cases hreport : c.report with
  | ok r => exact absurd h (exists_report_iff.mp ⟨r, hreport⟩)
  | error t =>
    rw [run_of_trouble hreport]
    exact ⟨rfl, rfl⟩

open Classical in
theorem exit_of_not_fatal (h : ¬c.Fatal) : c.run.exit = if c.Flawed then 1 else 0 := by
  obtain ⟨r, hr⟩ := exists_report_iff.mpr h
  rw [run_of_report hr]
  by_cases hflawed : c.Flawed
  · rw [if_pos hflawed]
    exact if_neg fun hclean => (isClean_iff hr).mp hclean hflawed
  · rw [if_neg hflawed]
    exact if_pos ((isClean_iff hr).mpr hflawed)

/-- What a call warns of is what its report has as errors, kind by kind. -/
theorem warnings_log {r : Report} (h : c.report = .ok r) : LogEntry.warnings c.log =
    r.lineErrors.map .undecodable ++ r.outcome.recordErrors.map .malformed ++
      r.outcome.lookupFailures.map .notLookedUp := by
  obtain ⟨config, catalog, b, hconfig, hcatalog, hb⟩ := exists_loaded h
  obtain ⟨w, hw⟩ := exists_window hconfig
  have hexecute := execute_of_loaded hconfig hcatalog hb hw
  obtain rfl := Except.ok.inj (h.symm.trans (congrArg Prod.fst hexecute))
  have hlines : LogEntry.warnings (b.lineErrors.map .undecodable) =
      b.lineErrors.map .undecodable := by
    refine List.filter_eq_self.mpr fun e he => ?_
    obtain ⟨_, -, rfl⟩ := List.mem_map.mp he
    rfl
  have hfile : ∀ path events errors,
      LogEntry.warnings [.fileReduced path events errors] = [] := fun _ _ _ => rfl
  rw [log, hexecute, LogEntry.warnings_append, LogEntry.warnings_append, hlines,
    Pass.warnings_close _ (Pass.stands_run w _), hfile, List.append_nil, List.append_assoc]

/-- **The exit status** tells whether there is a report and whether it is clean. It does not depend
on the format, and neither does the error output, whatever shows the log. -/
theorem exit_status (c : Command) :
    (c.run.exit = 2 ↔ c.Fatal) ∧ (c.run.exit = 2 → c.run.stdout = "") ∧
    (¬c.Fatal → (c.run.exit = 1 ↔ c.Flawed) ∧ (c.run.exit = 0 ↔ ¬c.Flawed)) ∧
    (∀ format sorts, { c with format, sorts }.run.exit = c.run.exit) ∧
    ∀ format, { c with format }.run.stderr = c.run.stderr := by
  have htwo : c.run.exit = 2 ↔ c.Fatal := by
    refine ⟨fun h => ?_, fun h => (run_of_fatal h).1⟩
    by_contra hfatal
    rw [exit_of_not_fatal hfatal] at h
    split at h <;> cases h
  refine ⟨htwo, fun h => (run_of_fatal (htwo.mp h)).2, fun h => ?_, fun format sorts => ?_,
    fun format => ?_⟩
  · rw [exit_of_not_fatal h]
    by_cases hflawed : c.Flawed <;> simp [hflawed]
  · by_cases hfatal : c.Fatal
    · have hother : { c with format, sorts }.Fatal := hfatal.congr rfl rfl rfl
      rw [(run_of_fatal hother).1, (run_of_fatal hfatal).1]
    · have hother : ¬{ c with format, sorts }.Fatal := fun h => hfatal (h.congr rfl rfl rfl)
      rw [exit_of_not_fatal hfatal, exit_of_not_fatal hother]
      rfl
  · have hsame : { c with format }.report = c.report := rfl
    cases hreport : c.report with
    | ok r =>
      rw [run_of_report (hsame.trans hreport), run_of_report hreport]
      rfl
    | error t =>
      rw [run_of_trouble (hsame.trans hreport), run_of_trouble hreport]
      rfl

end Command

end ScanDigest
