import DramTiming.Proofs.Session.Curves

/-!
# Charts of an interrupted run

Error curves are drawn for one measurement file after the other, each as soon as it is loaded.  So a
run that comes to a file that cannot be loaded leaves what a run over the files before it leaves:
the charts of these files, and nothing else (`drawAllCurves_interrupted`).
-/

namespace DramTiming

variable {α β : Type} {v : Verbosity} {buckets : List Binary64} {out : Path} {size : ChartSize}
  {d : Dataset} {table : Table} {datasets before : List Dataset} {e : Failure} {p : Path}
  {l l' : Location} {t t' : FileTree} {w w₁ : World}

/-! ### Failures -/

theorem exists_during_of_outcome {x : Attempt (StateM World) α} {activity : Activity}
    (h : outcome (x.during activity) w = (.error e, w₁)) : ∃ cause, e = .during activity cause := by
  rw [outcome_during] at h
  rcases hx : outcome x w with ⟨cause | a, w₂⟩
  · rw [hx] at h
    cases h
    exact ⟨cause, rfl⟩
  · rw [hx] at h
    cases h

theorem exists_outputDirectory_of_outcome
    (h : outcome (makeOutputDirectory out) w = (.error e, w₁)) :
    ∃ cause, e = .outputDirectory out cause := by
  obtain ⟨w', result, hmake⟩ : ∃ w' result, outcome (ExceptT.lift (Host.makeDirectories out)) w =
    (.ok result, w') := ⟨_, _, rfl⟩
  rw [makeOutputDirectory, outcome_bind_of_ok hmake, outcome_ofExcept] at h
  cases result with
  | error cause =>
    cases h
    exact ⟨cause, rfl⟩
  | ok _ => cases h

/-- A row of attempts fails as the first of them that fails, where those before it have led. -/
theorem outcome_mapM_eq_error_iff {f : α → Attempt (StateM World) β} {as : List α} :
    outcome (as.mapM f) w = (.error e, w₁) ↔
      ComesTo f (fun a w' => outcome (f a) w' = (.error e, w₁)) as w := by
  induction as generalizing w with
  | nil =>
    apply iff_of_false
    · intro h
      cases h
    · exact not_comesTo_nil
  | cons a as ih =>
    rw [comesTo_cons_iff, List.mapM_cons]
    rcases hx : outcome (f a) w with ⟨e' | b, w'⟩
    · rw [outcome_bind_of_error hx]
      simp
    · have hrest : outcome (as.mapM f >>= fun bs => pure (b :: bs)) w' = (.error e, w₁) ↔
          outcome (as.mapM f) w' = (.error e, w₁) := by
        rw [outcome_bind]
        rcases outcome (as.mapM f) w' with ⟨_ | bs, w''⟩
        · simp
        · simp [outcome_pure]
      rw [outcome_bind_of_ok hx, hrest, ih]
      simp

/-! ### Drawing until something cannot be loaded -/

/-- Only loading fails in the ways of loading. -/
theorem loadedIn_of_outcome_drawCurves (he : e.OfLoading)
    (h : outcome (drawCurves v buckets out size d) w = (.error e, w₁)) :
    d.loadedIn v w.files = .error e ∧ w.SameResults w₁ := by
  rw [drawCurves_eq] at h
  rcases hload : outcome (loadTable v d) w with ⟨e' | table, w'⟩
  · rw [outcome_bind_of_error hload] at h
    cases h
    exact (reads_loadTable d).spec hload
  · -- What follows fails in the course of drawing.
    rw [outcome_bind_of_ok hload, ite_bind_eq] at h
    obtain ⟨w'', hreport, -⟩ := logsOnly_ite
      (c := table.rows.isEmpty = true) (logsOnly_report (v := v) (.emptyTable table.source)) w'
    rw [bind_assoc, outcome_bind_of_ok hreport] at h
    rcases hsave : outcome (Attempt.during (.drawingCurves d.path) (saveChart v (curvesPath out d)
      (curveChart size table.label.title (table.errorCurves buckets)))) w'' with ⟨e' | _, w₂⟩
    · rw [outcome_bind_of_error hsave] at h
      cases h
      obtain ⟨cause, rfl⟩ := exists_during_of_outcome hsave
      cases he
    · rw [outcome_bind_of_ok hsave] at h
      cases h

/-- All measurement files before one have their charts drawn, and then that one cannot be loaded. -/
structure Interrupted (v : Verbosity) (buckets : List Binary64) (out : Path) (size : ChartSize)
    (before : List Dataset) (d : Dataset) (e : Failure) (w w₁ : World) : Prop where
  drawn : outcome (drawAllCurves v before buckets out size) w =
    (.ok (before.map (curvesPath out)), w₁)
  unloadable : (outcome (loadTable v d) w₁).1 = .error e

theorem Interrupted.loadedIn (h : Interrupted v buckets out size before d e w w₁) :
    d.loadedIn v w₁.files = .error e := by
  rw [← (reads_loadTable d).result_eq]
  exact h.unloadable

/-- A run over more measurement files leaves what the run over those before the one in question
leaves. -/
theorem Interrupted.exists_outcome (h : Interrupted v buckets out size before d e w w₁)
    (after : List Dataset) :
    ∃ w₂, outcome (drawAllCurves v (before ++ d :: after) buckets out size) w = (.error e, w₂) ∧
      w₁.SameResults w₂ := by
  obtain ⟨_, w₀, hmake, hdraw⟩ := outcome_bind_eq_ok_iff.mp h.drawn
  obtain ⟨w₂, hload, hw₂⟩ := (reads_loadTable d).exists_outcome h.loadedIn
  have hd : outcome (drawCurves v buckets out size d) w₁ = (.error e, w₂) := by
    rw [drawCurves_eq, outcome_bind_of_error hload]
  refine ⟨w₂, ?_, hw₂⟩
  apply (outcome_bind_of_ok hmake).trans
  rw [outcome_mapM_eq_error_iff]
  exact ⟨before, d, after, _, w₁, rfl, hdraw, hd⟩

theorem exists_interrupted (he : e.OfLoading)
    (h : (outcome (drawAllCurves v datasets buckets out size) w).1 = .error e) :
    ∃ before d after w₁, datasets = before ++ d :: after ∧
      Interrupted v buckets out size before d e w w₁ := by
  rcases hrun : outcome (drawAllCurves v datasets buckets out size) w with ⟨r, w₂⟩
  rw [hrun] at h
  obtain rfl : r = .error e := h
  rcases hmake : outcome (makeOutputDirectory out) w with ⟨e' | _, w₀⟩
  · obtain ⟨cause, rfl⟩ := exists_outputDirectory_of_outcome hmake
    cases (outcome_bind_of_error hmake).symm.trans hrun
    cases he
  · obtain ⟨before, d, after, paths, w₁, heq, hbefore, hd⟩ :=
      outcome_mapM_eq_error_iff.mp ((outcome_bind_of_ok hmake).symm.trans hrun)
    obtain ⟨rfl, -⟩ := mapM_drawCurves_spec hbefore
    refine ⟨before, d, after, w₁, heq, (outcome_bind_of_ok hmake).trans hbefore, ?_⟩
    rw [(reads_loadTable d).result_eq]
    exact (loadedIn_of_outcome_drawCurves he hd).1

/-! ### What is left -/

/-- A path leads to a chart in a place. -/
def FileTree.HasChart (t : FileTree) (p : Path) (l : Location) : Prop :=
  ∃ chart, t.find p = .ok (l, .file (.chart chart))

/-- A chart is drawn over, if at all, with a chart. -/
theorem Draws.hasChart (h : Draws v buckets out size d table l t t') (hp : t.HasChart p l') :
    t'.HasChart p l' := by
  obtain ⟨chart, hfind⟩ := hp
  obtain ⟨hlocate, hlookup, hslash⟩ := FileTree.find_eq_ok_iff.mp hfind
  by_cases hl : l' = l
  · subst hl
    obtain ⟨-, hdrawn, -⟩ := FileTree.find_eq_ok_iff.mp h.find_eq
    refine ⟨_, FileTree.find_eq_ok_iff.mpr ⟨?_, hdrawn, .inr (hslash.resolve_left nofun)⟩⟩
    exact h.sameDirectories.locate_eq_ok_iff.mp hlocate
  · refine ⟨chart, (h.sameDirectories.find_eq hlocate (h.lookup_eq ?_)).trans hfind⟩
    intro hd
    exact hl (Except.ok.inj (hd.symm.trans h.accepts.1))

/-- Charts that are there, and charts that have been drawn, are there after more are drawn. -/
theorem hasChart_of_mapM_drawCurves {paths : List Path}
    (h : outcome (datasets.mapM (drawCurves v buckets out size)) w = (.ok paths, w₁)) :
    (∀ p l, w.files.HasChart p l → w₁.files.HasChart p l) ∧
      ∀ d ∈ datasets, ∃ l, w₁.files.HasChart (curvesPath out d) l := by
  induction datasets generalizing w paths with
  | nil =>
    cases h
    exact ⟨fun _ _ hp => hp, nofun⟩
  | cons d datasets ih =>
    obtain ⟨table, l, w', paths', hdraws, hrest, rfl⟩ := exists_draws_of_outcome_cons h
    obtain ⟨hkept, hdrawn⟩ := ih hrest
    constructor
    · intro p l' hp
      exact hkept p l' (hdraws.hasChart hp)
    · rw [List.forall_mem_cons]
      exact ⟨⟨l, hkept _ l ⟨_, hdraws.find_eq⟩⟩, hdrawn⟩

/-- Drawing charts leaves a chart for each measurement file, and all files as they are where none of
them is written. -/
theorem drawAllCurves_spec {paths : List Path}
    (h : outcome (drawAllCurves v datasets buckets out size) w = (.ok paths, w₁)) :
    (∀ d ∈ datasets, ∃ l, w₁.files.HasChart (curvesPath out d) l) ∧
      ∀ l, (∀ d ∈ datasets, w₁.files.locate (curvesPath out d) ≠ .ok l) → ∀ content,
        (w.files.lookup l = some (.file content) ↔ w₁.files.lookup l = some (.file content)) := by
  obtain ⟨_, w₀, hmake, hdraw⟩ := outcome_bind_eq_ok_iff.mp h
  obtain ⟨-, hsame, hlookup⟩ := mapM_drawCurves_spec hdraw
  refine ⟨(hasChart_of_mapM_drawCurves hdraw).2, ?_⟩
  intro l hl content
  have hfiles := (sameFiles_makeOutputDirectory out w).files
  rw [hmake] at hfiles
  rw [hlookup l, hfiles l content]
  intro d hd hlocate
  exact hl d hd (hsame.locate_eq_ok_iff.mp hlocate)

/-- The files of two trees are the same if they differ at most where charts are, and these charts
are in both. -/
theorem sameFiles_iff_of_charts
    (hcharts : ∀ d ∈ datasets, ∃ l, t'.HasChart (curvesPath out d) l)
    (hothers : ∀ l, (∀ d ∈ datasets, t'.locate (curvesPath out d) ≠ .ok l) → ∀ content,
      (t.lookup l = some (.file content) ↔ t'.lookup l = some (.file content))) :
    t.SameFiles t' ↔ ∀ d ∈ datasets, ∀ l node, t'.find (curvesPath out d) = .ok (l, node) →
      t.lookup l = some node := by
  constructor
  · intro hsame d hd l node hfind
    obtain ⟨l', chart, hchart⟩ := hcharts d hd
    cases hchart.symm.trans hfind
    obtain ⟨-, hlookup, -⟩ := FileTree.find_eq_ok_iff.mp hfind
    exact (hsame l _).mpr hlookup
  · intro hstood l content
    by_cases hl : ∀ d ∈ datasets, t'.locate (curvesPath out d) ≠ .ok l
    · exact hothers l hl content
    · push Not at hl
      obtain ⟨d, hd, hlocate⟩ := hl
      obtain ⟨l', chart, hchart⟩ := hcharts d hd
      obtain ⟨hlocate', hlookup, -⟩ := FileTree.find_eq_ok_iff.mp hchart
      cases hlocate.symm.trans hlocate'
      rw [hlookup, hstood d hd l _ hchart]

/-- A run fails in loading exactly if it comes to a measurement file that cannot be loaded after it
has drawn the charts of all files before.

It leaves a chart for each of those, and other files as they were.  So it leaves all files as they
were exactly if these very charts stood in their places already. -/
theorem drawAllCurves_interrupted (v : Verbosity) (datasets : List Dataset)
    (buckets : List Binary64) (out : Path) (size : ChartSize) (w : World) (e : Failure) :
    let run := outcome (drawAllCurves v datasets buckets out size) w
    (run.1 = .error e ∧ e.OfLoading ↔ ∃ before d after w₁, datasets = before ++ d :: after ∧
      Interrupted v buckets out size before d e w w₁) ∧
    ∀ before d after w₁, datasets = before ++ d :: after →
      Interrupted v buckets out size before d e w w₁ →
        w₁.SameResults run.2 ∧
        (∀ b ∈ before, ∃ l, run.2.files.HasChart (curvesPath out b) l) ∧
        (∀ l, (∀ b ∈ before, run.2.files.locate (curvesPath out b) ≠ .ok l) → ∀ content,
          (w.files.lookup l = some (.file content) ↔
            run.2.files.lookup l = some (.file content))) ∧
        (w.files.SameFiles run.2.files ↔ ∀ b ∈ before, ∀ l node,
          run.2.files.find (curvesPath out b) = .ok (l, node) → w.files.lookup l = some node) := by
  intro run
  constructor
  · constructor
    · rintro ⟨hrun, he⟩
      exact exists_interrupted he hrun
    · rintro ⟨before, d, after, w₁, rfl, h⟩
      obtain ⟨w₂, hrun, -⟩ := h.exists_outcome after
      exact ⟨congrArg Prod.fst hrun, Dataset.ofLoading_of_loadedIn h.loadedIn⟩
  · rintro before d after w₁ rfl h
    obtain ⟨w₂, hrun, hw₂⟩ := h.exists_outcome after
    obtain ⟨hcharts, hothers⟩ := drawAllCurves_spec h.drawn
    rw [show run = _ from hrun]
    refine ⟨hw₂, ?_⟩
    rw [← hw₂.files]
    exact ⟨hcharts, hothers, sameFiles_iff_of_charts hcharts hothers⟩

/-- The chart of the first measurement file is left if the second one is missing. -/
theorem drawAllCurves_interrupted_sample :
    let missing : Failure := .table (.notFound ⟨"missing.csv"⟩)
    let run := outcome (drawAllCurves .silent [.ofPath ⟨"a/x.csv"⟩, .ofPath ⟨"missing.csv"⟩]
      defaultBuckets ⟨"plots"⟩ defaultChartSize) (.ofFiles namesakes)
    run.1 = .error missing ∧ missing.OfLoading ∧
      ∃ l, run.2.files.HasChart (curvesPath ⟨"plots"⟩ (.ofPath ⟨"a/x.csv"⟩)) l := by
  intro missing
  dsimp only
  let first := outcome (drawAllCurves .silent [.ofPath ⟨"a/x.csv"⟩] defaultBuckets ⟨"plots"⟩
    defaultChartSize) (.ofFiles namesakes)
  have hdrawn : first.1 = .ok ([Dataset.ofPath ⟨"a/x.csv"⟩].map (curvesPath ⟨"plots"⟩)) := by
    decide +kernel
  have hinterrupted : Interrupted .silent defaultBuckets ⟨"plots"⟩ defaultChartSize
      [.ofPath ⟨"a/x.csv"⟩] (.ofPath ⟨"missing.csv"⟩) missing (.ofFiles namesakes) first.2 :=
    ⟨Prod.ext hdrawn rfl, by decide +kernel⟩
  obtain ⟨hiff, hleft⟩ := drawAllCurves_interrupted .silent
    ([.ofPath ⟨"a/x.csv"⟩] ++ .ofPath ⟨"missing.csv"⟩ :: []) defaultBuckets ⟨"plots"⟩
    defaultChartSize (.ofFiles namesakes) missing
  obtain ⟨-, hcharts, -⟩ := hleft _ _ _ _ rfl hinterrupted
  obtain ⟨hrun, hmissing⟩ := hiff.mpr ⟨_, _, _, _, rfl, hinterrupted⟩
  exact ⟨hrun, hmissing, hcharts _ (List.mem_singleton_self _)⟩

/-- There was no such chart before. -/
theorem drawAllCurves_leaves_chart :
    let run := outcome (drawAllCurves .silent [.ofPath ⟨"a/x.csv"⟩, .ofPath ⟨"missing.csv"⟩]
      defaultBuckets ⟨"plots"⟩ defaultChartSize) (.ofFiles namesakes)
    run.1 = .error (.table (.notFound ⟨"missing.csv"⟩)) ∧
      namesakes.pathExists ⟨"plots/x_curves.svg"⟩ = false ∧
      run.2.files.pathExists ⟨"plots/x_curves.svg"⟩ = true := by
  decide +kernel

end DramTiming
