import DramTiming.Proofs.Analysis.Correlation
import DramTiming.Proofs.Session.Groups
import DramTiming.Proofs.Session.Saving

/-!
# Correlating several measurement files

A run goes through all its measurement files before it writes or prints anything.  So it fails as
the first of them that has no correlation, and has then done nothing; or else it prints what runs on
each of them alone print, one after the other (`runCommand_correlate`).
-/

namespace DramTiming

variable {v : Verbosity} {settings : Settings} {datasets : List Dataset} {out : Path}
  {size : ChartSize} {w w' w₁ : World} {cs : List Correlation} {manufacturer : String}

/-! ### Drawing groups -/

theorem saves_drawCorrelations (out : Path) (size : ChartSize) (group : Group) :
    Saves (drawCorrelations v out size group) (correlationPath out group.manufacturer)
      (correlationChart size group.manufacturer group.members) :=
  (saves_saveChart v _ _).during _

/-- The directory for charts can be made, and in it there is a place for the chart of a
manufacturer. -/
def HasPlace (out : Path) (w : World) (manufacturer : String) : Prop :=
  ∃ w₁, outcome (makeOutputDirectory out) w = (.ok (), w₁) ∧
    ∃ l, w₁.files.Accepts (correlationPath out manufacturer) l

theorem HasPlace.of_sameResults (h : HasPlace out w manufacturer) (hw : w.SameResults w') :
    HasPlace out w' manufacturer := by
  obtain ⟨w₁, hmake, hplace⟩ := h
  have hagree : Agree Verbosity.silent .silent (makeOutputDirectory out)
      (makeOutputDirectory out) :=
    agree_makeOutputDirectory out
  have hsame := hagree.same hw fun h => h.2.2
  rcases hmake' : outcome (makeOutputDirectory out) w' with ⟨r, w₁'⟩
  rw [hmake, hmake'] at hsame
  obtain ⟨rfl, hfiles, -⟩ := hsame
  exact ⟨w₁', hmake', hfiles ▸ hplace⟩

/-- Makes the directory for charts, and draws the correlations of each manufacturer. -/
def drawGroups (v : Verbosity) (out : Path) (size : ChartSize) (cs : List Correlation) :
    Attempt (StateM World) Unit := do
  makeOutputDirectory out
  (groupByManufacturer cs).forM (drawCorrelations v out size)

theorem silent_drawGroups (v : Verbosity) (out : Path) (size : ChartSize) (cs : List Correlation) :
    Silent (drawGroups v out size cs) :=
  (silent_makeOutputDirectory out).bind fun _ =>
    Silent.forM (fun group => (saves_drawCorrelations out size group).silent) _

theorem drawGroups_isOk_iff (v : Verbosity) (size : ChartSize) (hne : cs ≠ []) :
    (outcome (drawGroups v out size cs) w).1 = .ok () ↔
      ∀ c ∈ cs, HasPlace out w c.label.manufacturer := by
  rcases hmake : outcome (makeOutputDirectory out) w with ⟨e | _, w₁⟩
  · -- No directory, no place: and there is a correlation that needs one.
    rw [drawGroups, outcome_bind_of_error hmake]
    obtain ⟨c, hc⟩ := List.exists_mem_of_ne_nil cs hne
    refine iff_of_false nofun fun hplaces => ?_
    obtain ⟨w₂, hmake', -⟩ := hplaces c hc
    cases hmake.symm.trans hmake'
  · have hplace (c : Correlation) : HasPlace out w c.label.manufacturer ↔
        ∃ l, w₁.files.Accepts (correlationPath out c.label.manufacturer) l := by
      simp [HasPlace, hmake]
    rw [drawGroups, outcome_bind_of_ok hmake,
      Saves.forM_isOk_iff fun group => saves_drawCorrelations out size group]
    simp only [hplace]
    constructor
    · intro h c hc
      obtain ⟨g, hg, hsame⟩ := exists_mem_groupByManufacturer_iff.mpr ⟨c, hc, rfl⟩
      exact hsame ▸ h g hg
    · intro h g hg
      obtain ⟨c, hc, hsame⟩ := exists_mem_groupByManufacturer_iff.mp ⟨g, hg, rfl⟩
      exact hsame ▸ h c hc

/-! ### Correlating and printing -/

/-- Correlates measurement files, draws charts, and prints a line for each of the files. -/
def correlateAndPrint (v : Verbosity) (datasets : List Dataset) (out : Path) (size : ChartSize) :
    Attempt (StateM World) Unit := do
  let correlations ← correlateAll v datasets out size
  correlations.forM fun c => Attempt.print c.report

theorem correlateAll_eq (v : Verbosity) (datasets : List Dataset) (out : Path) (size : ChartSize) :
    (correlateAll v datasets out size : Attempt (StateM World) _) =
      datasets.mapM (correlateOne v) >>= fun cs => drawGroups v out size cs >>= fun _ => pure cs := by
  unfold correlateAll drawGroups
  simp only [bind_assoc]

/-- A measurement file has this correlation, and there is a place for its chart. -/
def Feasible (v : Verbosity) (out : Path) (w : World) (d : Dataset) (c : Correlation) : Prop :=
  d.correlationIn v w.files = .ok c ∧ HasPlace out w c.label.manufacturer

theorem forall₂_feasible_iff :
    List.Forall₂ (Feasible v out w) datasets cs ↔
      (datasets.mapM fun d => d.correlationIn v w.files) = .ok cs ∧
        ∀ c ∈ cs, HasPlace out w c.label.manufacturer := by
  rw [mapM_eq_ok_iff]
  constructor
  · intro h
    induction h with
    | nil => exact ⟨.nil, nofun⟩
    | cons hd _ ih => exact ⟨.cons hd.1 ih.1, List.forall_mem_cons.mpr ⟨hd.2, ih.2⟩⟩
  · rintro ⟨h, hplaces⟩
    induction h with
    | nil => exact .nil
    | cons hd _ ih =>
      obtain ⟨hplace, hrest⟩ := List.forall_mem_cons.mp hplaces
      exact .cons ⟨hd, hplace⟩ (ih hrest)

/-- If something is feasible for each measurement file, it is for all of them. -/
theorem exists_forall₂_feasible_iff :
    (∃ cs, List.Forall₂ (Feasible v out w) datasets cs) ↔
      ∀ d ∈ datasets, ∃ c, Feasible v out w d c := by
  induction datasets with
  | nil => exact iff_of_true ⟨[], .nil⟩ nofun
  | cons d datasets ih =>
    rw [List.forall_mem_cons, ← ih]
    constructor
    · rintro ⟨_, hd | ⟨hd, hrest⟩⟩
      exact ⟨⟨_, hd⟩, _, hrest⟩
    · rintro ⟨⟨c, hd⟩, cs, hrest⟩
      exact ⟨c :: cs, .cons hd hrest⟩

theorem exists_outcome_mapM_correlateOne (v : Verbosity) (datasets : List Dataset) (w : World) :
    ∃ w₁, outcome (datasets.mapM (correlateOne v)) w =
      (datasets.mapM fun d => d.correlationIn v w.files, w₁) ∧ w.SameResults w₁ :=
  Reads.mapM reads_correlateOne datasets w

/-- Nothing has happened but reading when correlating fails for a measurement file. -/
theorem exists_outcome_correlateAll_of_error (out : Path) (size : ChartSize) {e : Failure}
    (h : (datasets.mapM fun d => d.correlationIn v w.files) = .error e) :
    ∃ w₁, outcome (correlateAll v datasets out size) w = (.error e, w₁) ∧ w.SameResults w₁ := by
  obtain ⟨w₁, hread, hw₁⟩ := exists_outcome_mapM_correlateOne v datasets w
  rw [h] at hread
  exact ⟨w₁, by rw [correlateAll_eq, outcome_bind_of_error hread], hw₁⟩

/-- The charts are drawn in a world that holds the same results as the first one. -/
theorem exists_outcome_correlateAll_of_ok (out : Path) (size : ChartSize)
    (h : (datasets.mapM fun d => d.correlationIn v w.files) = .ok cs) :
    ∃ w₁, w.SameResults w₁ ∧ outcome (correlateAll v datasets out size) w =
      outcome (drawGroups v out size cs >>= fun _ => pure cs) w₁ := by
  obtain ⟨w₁, hread, hw₁⟩ := exists_outcome_mapM_correlateOne v datasets w
  rw [h] at hread
  exact ⟨w₁, hw₁, by rw [correlateAll_eq, outcome_bind_of_ok hread]⟩

/-- What is feasible is done: the correlations are found, and their lines printed. -/
theorem exists_outcome_of_feasible (hne : datasets ≠ [])
    (h : List.Forall₂ (Feasible v out w) datasets cs) (size : ChartSize) :
    (outcome (correlateAll v datasets out size) w).1 = .ok cs ∧
      ∃ w₁, outcome (correlateAndPrint v datasets out size) w = (.ok (), w₁) ∧
        w₁.printed.toList = w.printed.toList ++ cs.map Correlation.report := by
  have hcs : cs ≠ [] := by
    rintro rfl
    exact hne (List.forall₂_nil_right_iff.mp h)
  obtain ⟨hread, hplaces⟩ := forall₂_feasible_iff.mp h
  obtain ⟨w₁, hw₁, hall⟩ := exists_outcome_correlateAll_of_ok out size hread
  have hok := (drawGroups_isOk_iff v size hcs).mpr fun c hc =>
    (hplaces c hc).of_sameResults hw₁
  have hprinted := silent_drawGroups v out size cs w₁
  rcases hdraw : outcome (drawGroups v out size cs) w₁ with ⟨r, w₂⟩
  rw [hdraw] at hok hprinted
  obtain rfl : r = .ok () := hok
  rw [outcome_bind_of_ok hdraw, outcome_pure] at hall
  refine ⟨congrArg Prod.fst hall,
    { w₂ with printed := w₂.printed ++ (cs.map Correlation.report).toArray }, ?_, ?_⟩
  · exact (outcome_bind_of_ok hall).trans (outcome_forM_print Correlation.report cs w₂)
  · have hprinted' : w₂.printed = w.printed := hprinted.trans hw₁.printed.symm
    simp [hprinted']

/-- What is done was feasible. -/
theorem exists_forall₂_feasible (hne : datasets ≠ [])
    (h : (outcome (correlateAndPrint v datasets out size) w).1 = .ok ()) :
    ∃ cs, List.Forall₂ (Feasible v out w) datasets cs := by
  cases hread : datasets.mapM fun d => d.correlationIn v w.files with
  | error e =>
    obtain ⟨w₁, hall, -⟩ := exists_outcome_correlateAll_of_error out size hread
    rw [correlateAndPrint, outcome_bind_of_error hall] at h
    cases h
  | ok cs =>
    obtain ⟨w₁, hw₁, hall⟩ := exists_outcome_correlateAll_of_ok out size hread
    have hcs : cs ≠ [] := by
      rintro rfl
      exact hne (List.forall₂_nil_right_iff.mp (mapM_eq_ok_iff.mp hread))
    rcases hdraw : outcome (drawGroups v out size cs) w₁ with ⟨e | _, w₂⟩
    · rw [outcome_bind_of_error hdraw] at hall
      rw [correlateAndPrint, outcome_bind_of_error hall] at h
      cases h
    · have hplaces := (drawGroups_isOk_iff v size hcs).mp (congrArg Prod.fst hdraw)
      exact ⟨cs, forall₂_feasible_iff.mpr
        ⟨hread, fun c hc => (hplaces c hc).of_sameResults hw₁.symm⟩⟩

theorem correlateAndPrint_isOk_iff (hne : datasets ≠ []) :
    (outcome (correlateAndPrint v datasets out size) w).1 = .ok () ↔
      ∃ cs, List.Forall₂ (Feasible v out w) datasets cs := by
  refine ⟨exists_forall₂_feasible hne, fun ⟨cs, h⟩ => ?_⟩
  obtain ⟨-, w₁, hrun, -⟩ := exists_outcome_of_feasible hne h size
  rw [hrun]

/-- A run fails as the first measurement file does that has no correlation, and changes nothing. -/
theorem exists_outcome_of_first_error (out : Path) (size : ChartSize) {before : List Dataset}
    {d : Dataset} (after : List Dataset) {e : Failure}
    (hbefore : ∀ b ∈ before, ∃ c, b.correlationIn v w.files = .ok c)
    (hd : d.correlationIn v w.files = .error e) :
    ∃ w₁, outcome (correlateAndPrint v (before ++ d :: after) out size) w = (.error e, w₁) ∧
      w.SameResults w₁ := by
  obtain ⟨w₁, hall, hw₁⟩ := exists_outcome_correlateAll_of_error out size
    (mapM_append_cons_eq_error after hbefore hd)
  exact ⟨w₁, outcome_bind_of_error hall, hw₁⟩

/-! ### The command -/

theorem runCommand_correlate_eq {paths : List Path} {directory : Option Path}
    (hchosen : chosenDatasets settings paths = datasets) (hne : datasets ≠ []) :
    (runCommand v settings (.correlate paths directory) : Attempt (StateM World) Unit) =
      correlateAndPrint v datasets (directory.getD settings.outputDirectory) settings.chartSize := by
  have hempty : datasets.isEmpty = false := by simpa using hne
  have hselect : (selectDatasets settings paths : Attempt (StateM World) _) = pure datasets := by
    rw [selectDatasets, ← chosenDatasets, hchosen, hempty]
    rfl
  simp only [runCommand, hselect, pure_bind, correlateAndPrint]

/-- Correlates one measurement file alone, with the same settings otherwise. -/
def correlateAlone (v : Verbosity) (settings : Settings) (directory : Option Path) (d : Dataset) :
    Attempt (StateM World) Unit :=
  runCommand v { settings with datasets := [d] } (.correlate [] directory)

theorem correlateAlone_eq (v : Verbosity) (settings : Settings) (directory : Option Path)
    (d : Dataset) :
    correlateAlone v settings directory d =
      correlateAndPrint v [d] (directory.getD settings.outputDirectory) settings.chartSize :=
  runCommand_correlate_eq rfl (List.cons_ne_nil d [])

/-- The lines that an attempt prints. -/
def printedBy (x : Attempt (StateM World) Unit) (w : World) : List String :=
  (outcome x w).2.printed.toList.drop w.printed.size

theorem outcome_correlateAll_alone {d : Dataset} {c : Correlation} (h : Feasible v out w d c)
    (size : ChartSize) : (outcome (correlateAll v [d] out size) w).1 = .ok [c] :=
  (exists_outcome_of_feasible (List.cons_ne_nil d []) (.cons h .nil) size).1

theorem printedBy_alone {d : Dataset} {c : Correlation} (h : Feasible v out w d c)
    (size : ChartSize) : printedBy (correlateAndPrint v [d] out size) w = [c.report] := by
  obtain ⟨-, w₁, hrun, hprinted⟩ :=
    exists_outcome_of_feasible (List.cons_ne_nil d []) (.cons h .nil) size
  rw [printedBy, hrun, hprinted]
  simp

/-- The lines for several measurement files are those for each of them alone, in a row. -/
theorem flatMap_printedBy_alone (h : List.Forall₂ (Feasible v out w) datasets cs)
    (size : ChartSize) :
    (datasets.flatMap fun d => printedBy (correlateAndPrint v [d] out size) w) =
      cs.map Correlation.report := by
  induction h with
  | nil => rfl
  | cons hd _ ih =>
    rw [List.flatMap_cons, ih, printedBy_alone hd]
    rfl

/-- A measurement file cannot be loaded, or its table has fewer than two tRCD values. -/
def Dataset.Unfit (v : Verbosity) (d : Dataset) (w : World) : Prop :=
  ∀ table, (outcome (loadTable v d) w).1 = .ok table → table.distinctTrcd.length < 2

theorem Dataset.Unfit.exists_error {d : Dataset} (h : d.Unfit v w) :
    ∃ e, d.correlationIn v w.files = .error e := by
  unfold Dataset.Unfit at h
  rw [(reads_loadTable d).result_eq] at h
  unfold Dataset.correlationIn
  cases hload : d.loadedIn v w.files with
  | error e => exact ⟨e, rfl⟩
  | ok table =>
    have hfew : table.correlation = .error (.tooFewTrcd table.distinctTrcd.length) :=
      Table.correlationWith_of_lt (h table hload)
    exact ⟨.during (.correlating d.path) (.correlation (.tooFewTrcd table.distinctTrcd.length)),
      by rw [Except.bind, hfew]; rfl⟩

theorem Dataset.exists_correlationIn {d : Dataset} {table : Table}
    (hload : d.loadedIn v w.files = .ok table) (htwo : 2 ≤ table.distinctTrcd.length)
    (hrows : table.rows.length ≤ 2 ^ 64) :
    ∃ c, d.correlationIn v w.files = .ok c ∧ c.label = table.label := by
  obtain ⟨c, hc, hlabel⟩ := Table.exists_correlation hrows htwo
  exact ⟨c, correlationIn_eq_ok_iff.mpr ⟨table, hload, hc⟩, hlabel⟩

theorem exists_feasible {d : Dataset} {table : Table} (hload : d.loadedIn v w.files = .ok table)
    (htwo : 2 ≤ table.distinctTrcd.length) (hrows : table.rows.length ≤ 2 ^ 64)
    (hplace : HasPlace out w table.label.manufacturer) : ∃ c, Feasible v out w d c := by
  obtain ⟨c, hc, hlabel⟩ := Dataset.exists_correlationIn hload htwo hrows
  exact ⟨c, hc, by rw [hlabel]; exact hplace⟩

/-- Correlating goes through the measurement files in order, and is all or nothing.

A run succeeds if it does on each measurement file alone.  Its results are then the results on each
alone, in their order, and so are the lines that it prints.  Otherwise, if the measurement files
before one have correlations and that one has none, the run fails as it does on that one alone,
whatever comes after, and leaves the printed lines and all files and directories as they were.

A measurement file has no correlation if it cannot be loaded or has fewer than two tRCD values.  All
others have one, if they have at most `2 ^ 64` rows. -/
theorem runCommand_correlate (v : Verbosity) {paths : List Path} (directory : Option Path)
    (hchosen : chosenDatasets settings paths = datasets) (hne : datasets ≠ []) (w : World) :
    let together : Attempt (StateM World) Unit :=
      runCommand v settings (.correlate paths directory)
    let results (datasets : List Dataset) : Attempt (StateM World) (List Correlation) :=
      correlateAll v datasets (directory.getD settings.outputDirectory) settings.chartSize
    ((outcome together w).1 = .ok () ↔
      ∀ d ∈ datasets, (outcome (correlateAlone v settings directory d) w).1 = .ok ()) ∧
    ((outcome together w).1 = .ok () →
      (∃ cs, (outcome (results datasets) w).1 = .ok cs ∧
        List.Forall₂ (fun d c => (outcome (results [d]) w).1 = .ok [c]) datasets cs) ∧
      (outcome together w).2.printed.toList = w.printed.toList ++
        datasets.flatMap fun d => printedBy (correlateAlone v settings directory d) w) ∧
    (∀ before d after e, datasets = before ++ d :: after →
      (∀ b ∈ before, ∃ c, (outcome (correlateOne v b) w).1 = .ok c) →
      (outcome (correlateOne v d) w).1 = .error e →
        (outcome together w).1 = .error e ∧
        (outcome (correlateAlone v settings directory d) w).1 = .error e ∧
        w.SameResults (outcome together w).2) ∧
    ∀ d : Dataset,
      (d.Unfit v w → ∃ e, (outcome (correlateOne v d) w).1 = .error e) ∧
      ∀ table, (outcome (loadTable v d) w).1 = .ok table → 2 ≤ table.distinctTrcd.length →
        table.rows.length ≤ 2 ^ 64 → ∃ c, (outcome (correlateOne v d) w).1 = .ok c := by
  dsimp only
  rw [runCommand_correlate_eq hchosen hne]
  simp only [correlateAlone_eq, (reads_correlateOne _).result_eq, (reads_loadTable _).result_eq]
  refine ⟨?_, fun hok => ?_, ?_, fun d => ⟨fun hd => hd.exists_error, ?_⟩⟩
  · rw [correlateAndPrint_isOk_iff hne, exists_forall₂_feasible_iff]
    refine forall₂_congr fun d _ => ?_
    rw [correlateAndPrint_isOk_iff (List.cons_ne_nil d []), exists_forall₂_feasible_iff]
    simp
  · -- What a run does for all its measurement files was feasible for each of them.
    obtain ⟨cs, hcs⟩ := (correlateAndPrint_isOk_iff hne).mp hok
    obtain ⟨hresults, w₁, hrun, hprinted⟩ := exists_outcome_of_feasible hne hcs settings.chartSize
    -- What is feasible for a measurement file among others is what is feasible for it alone.
    refine ⟨⟨cs, hresults, hcs.imp fun _ _ hd => outcome_correlateAll_alone hd _⟩, ?_⟩
    rw [hrun, hprinted, flatMap_printedBy_alone hcs]
  · rintro before d after e rfl hbefore hd
    obtain ⟨w₁, hrun, hw₁⟩ := exists_outcome_of_first_error
      (directory.getD settings.outputDirectory) settings.chartSize after hbefore hd
    have hnone : ∀ b ∈ [], ∃ c, Dataset.correlationIn v b w.files = .ok c := nofun
    obtain ⟨w₂, hrun', -⟩ := exists_outcome_of_first_error
      (directory.getD settings.outputDirectory) settings.chartSize [] hnone hd
    rw [hrun]
    exact ⟨rfl, congrArg Prod.fst hrun', hw₁⟩
  · intro table hload htwo hrows
    obtain ⟨c, hc, -⟩ := Dataset.exists_correlationIn hload htwo hrows
    exact ⟨c, hc⟩

/-- A measurement file with two tRCD values, and one with a single one. -/
def twiceAndOnce : FileTree :=
  ((FileTree.bare []).put ["twice.csv"] (.file (.bytes
    "tRCD,retention,FehlerProzent\n10,1,2\n10,2,3\n11,1,2\n".toUTF8.toList))).put ["once.csv"]
    (.file (.bytes "tRCD,retention,FehlerProzent\n10,1,2\n10,2,3\n".toUTF8.toList))

theorem exists_feasible_twice :
    ∃ c, Feasible .silent ⟨"plots"⟩ (.ofFiles twiceAndOnce) (.ofPath ⟨"twice.csv"⟩) c := by
  let table : Table := ⟨⟨"twice", none, none, none⟩, ⟨"twice.csv"⟩,
    [⟨10, 2, 1, none⟩, ⟨10, 3, 2, none⟩, ⟨11, 2, 1, none⟩]⟩
  have hload : Dataset.loadedIn .silent (.ofPath ⟨"twice.csv"⟩) twiceAndOnce = .ok table := by
    decide +kernel
  have htwo : 2 ≤ table.distinctTrcd.length := by
    rw [Table.distinctTrcd_of_pairwise (by decide +kernel)]
    decide +kernel
  have hmake : outcome (makeOutputDirectory ⟨"plots"⟩) (.ofFiles twiceAndOnce) =
      (.ok (), .ofFiles (twiceAndOnce.put ["plots"] .directory)) := rfl
  have hplace : HasPlace ⟨"plots"⟩ (.ofFiles twiceAndOnce) "twice" := by
    refine ⟨_, hmake, ["plots", "twice_correlation.svg"], ?_, ?_, ?_⟩ <;> decide +kernel
  exact exists_feasible hload htwo (by decide) hplace

theorem unfit_once : Dataset.Unfit .silent (.ofPath ⟨"once.csv"⟩) (.ofFiles twiceAndOnce) := by
  intro table htable
  rw [(reads_loadTable _).result_eq] at htable
  have hload : Dataset.loadedIn .silent (.ofPath ⟨"once.csv"⟩) twiceAndOnce =
      .ok ⟨⟨"once", none, none, none⟩, ⟨"once.csv"⟩, [⟨10, 2, 1, none⟩, ⟨10, 3, 2, none⟩]⟩ := by
    decide +kernel
  cases hload.symm.trans htable
  rw [Table.distinctTrcd_of_pairwise (by decide +kernel)]
  decide +kernel

/-- The file with two tRCD values can be given twice, and is reported twice then.  With the other
one after it the run fails, even though a third file is not there at all. -/
theorem runCommand_correlate_sample :
    (chosenDatasets .default [⟨"twice.csv"⟩, ⟨"twice.csv"⟩] ≠ [] ∧
      let together : Attempt (StateM World) Unit :=
        runCommand .silent .default (.correlate [⟨"twice.csv"⟩, ⟨"twice.csv"⟩] none)
      let alone := correlateAlone .silent .default none (.ofPath ⟨"twice.csv"⟩)
      (outcome together (.ofFiles twiceAndOnce)).1 = .ok () ∧
        (outcome together (.ofFiles twiceAndOnce)).2.printed.toList =
          printedBy alone (.ofFiles twiceAndOnce) ++ printedBy alone (.ofFiles twiceAndOnce)) ∧
    (chosenDatasets .default [⟨"twice.csv"⟩, ⟨"once.csv"⟩, ⟨"missing.csv"⟩] ≠ [] ∧
      let together : Attempt (StateM World) Unit :=
        runCommand .silent .default (.correlate [⟨"twice.csv"⟩, ⟨"once.csv"⟩, ⟨"missing.csv"⟩] none)
      ∃ e, (outcome together (.ofFiles twiceAndOnce)).1 = .error e ∧
        (outcome (correlateAlone .silent .default none (.ofPath ⟨"once.csv"⟩))
          (.ofFiles twiceAndOnce)).1 = .error e ∧
        (World.ofFiles twiceAndOnce).SameResults
          (outcome together (.ofFiles twiceAndOnce)).2) := by
  obtain ⟨c, hc⟩ := exists_feasible_twice
  have halone : (outcome (correlateAlone .silent .default none (.ofPath ⟨"twice.csv"⟩))
      (.ofFiles twiceAndOnce)).1 = .ok () := by
    rw [correlateAlone_eq, correlateAndPrint_isOk_iff (List.cons_ne_nil _ [])]
    exact ⟨[c], .cons hc .nil⟩
  constructor
  · have hne : chosenDatasets .default [⟨"twice.csv"⟩, ⟨"twice.csv"⟩] ≠ [] :=
      List.cons_ne_nil _ _
    obtain ⟨hiff, hok, -⟩ := runCommand_correlate .silent none rfl hne (.ofFiles twiceAndOnce)
    have htogether := hiff.mpr
      (List.forall_mem_cons.mpr ⟨halone, List.forall_mem_singleton.mpr halone⟩)
    refine ⟨hne, htogether, (hok htogether).2.trans ?_⟩
    simp [chosenDatasets, World.ofFiles]
  · have hne : chosenDatasets .default [⟨"twice.csv"⟩, ⟨"once.csv"⟩, ⟨"missing.csv"⟩] ≠ [] :=
      List.cons_ne_nil _ _
    obtain ⟨-, -, hfirst, hunfit⟩ :=
      runCommand_correlate .silent none rfl hne (.ofFiles twiceAndOnce)
    obtain ⟨e, he⟩ := (hunfit _).1 unfit_once
    refine ⟨hne, e, hfirst [_] _ [_] e rfl (List.forall_mem_singleton.mpr ⟨c, ?_⟩) he⟩
    rw [(reads_correlateOne _).result_eq]
    exact hc.1

end DramTiming
