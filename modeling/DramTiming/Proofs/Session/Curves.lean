import DramTiming.Proofs.Session.Saving

/-!
# One chart for each measurement file

The chart of a measurement file is named after the stem of the file.  So no two of them have the
same path exactly if no two files have the same stem, and of files with the same stem the last one
keeps its chart (`drawAllCurves_charts`).
-/

namespace DramTiming

variable {v : Verbosity} {buckets : List Binary64} {out : Path} {size : ChartSize}
  {d e : Dataset} {table : Table} {l : Location} {t t' : FileTree} {w w₁ : World}

/-! ### Names of charts -/

/-- What the chart of a measurement file is named after. -/
def Dataset.stem (d : Dataset) : String := d.path.fileStem?.getD "dataset"

theorem Dataset.slash_not_mem_stem (d : Dataset) : '/' ∉ d.stem.toList := by
  unfold Dataset.stem
  cases hstem : d.path.fileStem? with
  | none => decide
  | some stem => exact Path.slash_not_mem_fileStem hstem

theorem curvesPath_eq_iff : curvesPath out d = curvesPath out e ↔ d.stem = e.stem :=
  Path.join_append_inj

/-- Charts in the same place are named after the same stem. -/
theorem stem_eq_of_locate (hd : t.locate (curvesPath out d) = .ok l)
    (he : t.locate (curvesPath out e) = .ok l) : d.stem = e.stem := by
  by_contra hne
  have hapart : t.Apart (curvesPath out d) (curvesPath out e) :=
    FileTree.apart_join_append hne d.slash_not_mem_stem e.slash_not_mem_stem (by decide) (by decide)
  exact hapart l hd he

/-! ### One chart -/

/-- Drawing the curves of a measurement file makes one tree into another: it loads a table, and
writes a chart of it in a place. -/
structure Draws (v : Verbosity) (buckets : List Binary64) (out : Path) (size : ChartSize)
    (d : Dataset) (table : Table) (l : Location) (t t' : FileTree) : Prop where
  loaded : d.loadedIn v t = .ok table
  accepts : t.Accepts (curvesPath out d) l
  tree : t' = t.put l (.file (.chart
    (curveChart size table.label.title (table.errorCurves buckets))))

theorem saves_drawTable (v : Verbosity) (buckets : List Binary64) (out : Path) (size : ChartSize)
    (d : Dataset) (table : Table) :
    Saves (do
      if table.rows.isEmpty then Attempt.report v (.emptyTable table.source)
      Attempt.during (.drawingCurves d.path) (saveChart v (curvesPath out d)
        (curveChart size table.label.title (table.errorCurves buckets))))
      (curvesPath out d) (curveChart size table.label.title (table.errorCurves buckets)) := by
  rw [ite_bind_eq]
  exact (logsOnly_ite (logsOnly_report _)).saves_then ((saves_saveChart v _ _).during _)

theorem drawCurves_eq (v : Verbosity) (buckets : List Binary64) (out : Path) (size : ChartSize)
    (d : Dataset) :
    (drawCurves v buckets out size d : Attempt (StateM World) Path) = do
      let table ← loadTable v d
      (do
        if table.rows.isEmpty then Attempt.report v (.emptyTable table.source)
        Attempt.during (.drawingCurves d.path) (saveChart v (curvesPath out d)
          (curveChart size table.label.title (table.errorCurves buckets))))
      return curvesPath out d := by
  unfold drawCurves
  congr 1
  funext table
  dsimp only
  split
  · rw [bind_assoc]
  · rfl

theorem exists_draws_of_outcome {path : Path}
    (h : outcome (drawCurves v buckets out size d) w = (.ok path, w₁)) :
    path = curvesPath out d ∧ ∃ table l, Draws v buckets out size d table l w.files w₁.files := by
  rw [drawCurves_eq, outcome_bind_eq_ok_iff] at h
  obtain ⟨table, w', hload, h⟩ := h
  rw [outcome_bind_eq_ok_iff] at h
  obtain ⟨_, w₁', hsave, h⟩ := h
  cases h
  obtain ⟨hload, hw'⟩ := (reads_loadTable d).spec hload
  obtain ⟨l, hl, hfiles, -⟩ := (saves_drawTable v buckets out size d table).spec hsave
  rw [← hw'.files] at hl hfiles
  exact ⟨rfl, table, l, hload, hl, hfiles⟩

theorem exists_outcome_of_draws (h : Draws v buckets out size d table l w.files t') :
    ∃ w₁, outcome (drawCurves v buckets out size d) w = (.ok (curvesPath out d), w₁) ∧
      w₁.files = t' := by
  obtain ⟨w', hload, hw'⟩ := (reads_loadTable d).exists_outcome h.loaded
  have hl : w'.files.Accepts (curvesPath out d) l := hw'.files ▸ h.accepts
  obtain ⟨w₁, hsave, hfiles, -⟩ := (saves_drawTable v buckets out size d table).saved hl
  refine ⟨w₁, ?_, ?_⟩
  · rw [drawCurves_eq, outcome_bind_of_ok hload, outcome_bind_of_ok hsave, outcome_pure]
  · rw [hfiles, ← hw'.files, h.tree]

namespace Draws

theorem sameDirectories (h : Draws v buckets out size d table l t t') : t.SameDirectories t' :=
  h.tree ▸ h.accepts.sameDirectories_put _

theorem find_eq (h : Draws v buckets out size d table l t t') :
    t'.find (curvesPath out d) =
      .ok (l, .file (.chart (curveChart size table.label.title (table.errorCurves buckets)))) :=
  h.tree ▸ h.accepts.find_put _

theorem lookup_eq (h : Draws v buckets out size d table l t t') {l' : Location}
    (hne : t.locate (curvesPath out d) ≠ .ok l') : t'.lookup l' = t.lookup l' := by
  rw [h.tree]
  refine FileTree.lookup_put_of_ne t (fun heq => hne ?_) _
  rw [heq]
  exact h.accepts.1

/-- A measurement file that is read the same is drawn the same. -/
theorem congr {t₀ : FileTree} (h : Draws v buckets out size d table l t t')
    (hsame : t.SameDirectories t₀) (hread : t₀.readFile d.path = t.readFile d.path) :
    ∃ t₁, Draws v buckets out size d table l t₀ t₁ := by
  refine ⟨_, ?_, hsame.accepts_iff.mp h.accepts, rfl⟩
  rw [Dataset.loadedIn, hread]
  exact h.loaded

end Draws

theorem Dataset.exists_readFile_of_loadedIn (h : d.loadedIn v t = .ok table) :
    ∃ bytes, t.readFile d.path = .ok bytes := by
  obtain ⟨bytes, _, hread, -⟩ := exists_of_toTable (loadedIn_eq_ok_iff.mp h).1
  exact ⟨bytes, hread⟩

/-! ### Charts one after the other -/

theorem exists_draws_of_outcome_cons {datasets : List Dataset} {paths : List Path}
    (h : outcome ((d :: datasets).mapM (drawCurves v buckets out size)) w = (.ok paths, w₁)) :
    ∃ table l w' paths', Draws v buckets out size d table l w.files w'.files ∧
      outcome (datasets.mapM (drawCurves v buckets out size)) w' = (.ok paths', w₁) ∧
      paths = curvesPath out d :: paths' := by
  rw [List.mapM_cons, outcome_bind_eq_ok_iff] at h
  obtain ⟨path, w', hd, h⟩ := h
  rw [outcome_bind_eq_ok_iff] at h
  obtain ⟨paths', w'', hrest, h⟩ := h
  cases h
  obtain ⟨rfl, table, l, hdraws⟩ := exists_draws_of_outcome hd
  exact ⟨table, l, w', paths', hdraws, hrest, rfl⟩

/-- Charts of several measurement files leave everything as it is where none of them is written. -/
theorem mapM_drawCurves_spec {datasets : List Dataset} {paths : List Path}
    (h : outcome (datasets.mapM (drawCurves v buckets out size)) w = (.ok paths, w₁)) :
    paths = datasets.map (curvesPath out) ∧ w.files.SameDirectories w₁.files ∧
      ∀ l, (∀ d ∈ datasets, w.files.locate (curvesPath out d) ≠ .ok l) →
        w₁.files.lookup l = w.files.lookup l := by
  induction datasets generalizing w paths with
  | nil =>
    cases h
    exact ⟨rfl, .refl _, fun _ _ => rfl⟩
  | cons d datasets ih =>
    obtain ⟨table, l, w', paths', hdraws, hrest, rfl⟩ := exists_draws_of_outcome_cons h
    obtain ⟨rfl, hsame, hlookup⟩ := ih hrest
    refine ⟨rfl, hdraws.sameDirectories.trans hsame, fun l' hl' => ?_⟩
    obtain ⟨hhead, htail⟩ := List.forall_mem_cons.mp hl'
    -- The first chart makes no directory, so the paths of the others lead where they led before.
    rw [hlookup l', hdraws.lookup_eq hhead]
    intro e he hlocate
    exact htail e he (hdraws.sameDirectories.locate_eq_ok_iff.mpr hlocate)

theorem outcome_mapM_append_cons {α β : Type} {f : α → Attempt (StateM World) β}
    {before after : List α} {a : α} {bs : List β}
    (h : outcome ((before ++ a :: after).mapM f) w = (.ok bs, w₁)) :
    ∃ bs₁ w' b w'' bs₂, outcome (before.mapM f) w = (.ok bs₁, w') ∧
      outcome (f a) w' = (.ok b, w'') ∧ outcome (after.mapM f) w'' = (.ok bs₂, w₁) := by
  rw [List.mapM_append, outcome_bind_eq_ok_iff] at h
  obtain ⟨bs₁, w', hbefore, h⟩ := h
  rw [List.mapM_cons, bind_assoc, outcome_bind_eq_ok_iff] at h
  obtain ⟨b, w'', ha, h⟩ := h
  rw [bind_assoc, outcome_bind_eq_ok_iff] at h
  obtain ⟨bs₂, w₂, hafter, h⟩ := h
  rw [pure_bind, outcome_pure] at h
  cases h
  exact ⟨bs₁, w', b, w'', bs₂, hbefore, ha, hafter⟩

/-! ### All charts -/

/-- Drawing error curves returns one path for each measurement file, in order; no two are the same
exactly if no two files have the same stem.

If no measurement file is where a chart is written, then every file that has no later one with the
same stem can be drawn alone as well, and its chart is the one that this gives.  So no chart is lost
if the stems are different; a chart that a later one is named like is. -/
theorem drawAllCurves_charts {datasets : List Dataset} {paths : List Path}
    (h : outcome (drawAllCurves v datasets buckets out size) w = (.ok paths, w₁))
    (hinputs : ∀ d ∈ datasets, ∀ path ∈ paths, ∀ l,
      w₁.files.locate d.path = .ok l → w₁.files.locate path ≠ .ok l) :
    paths = datasets.map (curvesPath out) ∧
    (paths.Nodup ↔ (datasets.map Dataset.stem).Nodup) ∧
    ∀ before d after, datasets = before ++ d :: after → (∀ e ∈ after, e.stem ≠ d.stem) →
      ∃ w₂ l chart, outcome (drawAllCurves v [d] buckets out size) w =
          (.ok [curvesPath out d], w₂) ∧
        w₂.files.find (curvesPath out d) = .ok (l, .file (.chart chart)) ∧
        w₁.files.find (curvesPath out d) = .ok (l, .file (.chart chart)) := by
  obtain ⟨_, w₀, hmake, hdraw⟩ := outcome_bind_eq_ok_iff.mp h
  obtain ⟨rfl, hsame, -⟩ := mapM_drawCurves_spec hdraw
  refine ⟨rfl, ?_, ?_⟩
  · simp only [List.Nodup, List.pairwise_map, Ne, curvesPath_eq_iff]
  · rintro before d after rfl hlater
    obtain ⟨_, wa, path, wb, _, hbefore, hd, hafter⟩ := outcome_mapM_append_cons hdraw
    obtain ⟨rfl, hsameBefore, hlookupBefore⟩ := mapM_drawCurves_spec hbefore
    obtain ⟨rfl, table, l, hdraws⟩ := exists_draws_of_outcome hd
    obtain ⟨rfl, hsameAfter, hlookupAfter⟩ := mapM_drawCurves_spec hafter
    -- The file is read the same whether or not charts have been written before.
    have hread : w₀.files.readFile d.path = wa.files.readFile d.path := by
      obtain ⟨bytes, hbytes⟩ := Dataset.exists_readFile_of_loadedIn hdraws.loaded
      obtain ⟨li, hli⟩ := FileTree.exists_locate_of_readFile hbytes
      refine hsameBefore.symm.readFile_eq hli (hlookupBefore li ?_).symm
      intro e he hlocate
      refine hinputs d (by simp) _ (List.mem_map_of_mem (List.mem_append_left _ he)) li ?_
        (hsame.locate_eq_ok_iff.mp hlocate)
      exact hsame.locate_eq_ok_iff.mp (hsameBefore.locate_eq_ok_iff.mpr hli)
    obtain ⟨t, halone⟩ := hdraws.congr hsameBefore.symm hread
    obtain ⟨w₂, hrun, hw₂⟩ := exists_outcome_of_draws halone
    refine ⟨w₂, l, _, ?_, hw₂ ▸ halone.find_eq, ?_⟩
    · refine (outcome_bind_of_ok hmake).trans ?_
      rw [List.mapM_cons, outcome_bind_of_ok hrun]
      rfl
    · -- Nothing that is written later is written in the place of this chart.
      have hlocate := (hdraws.sameDirectories.locate_eq_ok_iff.mp hdraws.accepts.1)
      rw [← hdraws.find_eq]
      refine hsameAfter.find_eq hlocate (hlookupAfter l ?_)
      intro e he hlocate'
      exact hlater e he (stem_eq_of_locate hlocate' hlocate)

/-- Two measurement files of the same name in different directories, and one of another name. -/
def namesakes : FileTree :=
  (((((FileTree.bare []).put ["a"] .directory).put ["b"] .directory).put ["a", "x.csv"]
    (.file (.bytes "tRCD,retention,FehlerProzent\n10,0,1\n".toUTF8.toList))).put ["b", "x.csv"]
    (.file (.bytes "tRCD,retention,FehlerProzent\n10,0,2\n".toUTF8.toList))).put ["b", "y.csv"]
    (.file (.bytes "tRCD,retention,FehlerProzent\n10,0,3\n".toUTF8.toList))

/-- Charts of measurement files with different names are kept. -/
theorem drawAllCurves_charts_sample :
    let datasets : List Dataset := [.ofPath ⟨"a/x.csv"⟩, .ofPath ⟨"b/y.csv"⟩]
    let paths : List Path := [⟨"plots/x_curves.svg"⟩, ⟨"plots/y_curves.svg"⟩]
    ∃ w₁, outcome (drawAllCurves .silent datasets defaultBuckets ⟨"plots"⟩ defaultChartSize)
        (.ofFiles namesakes) = (.ok paths, w₁) ∧
      (∀ d ∈ datasets, ∀ path ∈ paths, ∀ l,
        w₁.files.locate d.path = .ok l → w₁.files.locate path ≠ .ok l) ∧
      paths.Nodup ∧
      ∃ w₂ l chart, outcome (drawAllCurves .silent [.ofPath ⟨"a/x.csv"⟩] defaultBuckets ⟨"plots"⟩
          defaultChartSize) (.ofFiles namesakes) = (.ok [⟨"plots/x_curves.svg"⟩], w₂) ∧
        w₂.files.find ⟨"plots/x_curves.svg"⟩ = .ok (l, .file (.chart chart)) ∧
        w₁.files.find ⟨"plots/x_curves.svg"⟩ = .ok (l, .file (.chart chart)) := by
  intro datasets paths
  let run := outcome (drawAllCurves .silent datasets defaultBuckets ⟨"plots"⟩ defaultChartSize)
    (.ofFiles namesakes)
  have hresult : run.1 = .ok paths := by decide +kernel
  have hrun : run = (.ok paths, run.2) := Prod.ext hresult rfl
  have hinputs : ∀ d ∈ datasets, ∀ path ∈ paths, ∀ l,
      run.2.files.locate d.path = .ok l → run.2.files.locate path ≠ .ok l := by
    have happart : ∀ d ∈ datasets, ∀ path ∈ paths,
        run.2.files.locate d.path ≠ run.2.files.locate path := by decide +kernel
    intro d hd path hpath l hl hl'
    exact happart d hd path hpath (hl.trans hl'.symm)
  obtain ⟨-, hnodup, hkept⟩ := drawAllCurves_charts hrun hinputs
  exact ⟨run.2, hrun, hinputs, hnodup.mpr (by decide +kernel),
    hkept [] _ [_] rfl (by decide +kernel)⟩

/-- Of two measurement files of the same name only the second one keeps its chart. -/
theorem drawAllCurves_overwrites :
    let datasets : List Dataset := [.ofPath ⟨"a/x.csv"⟩, .ofPath ⟨"b/x.csv"⟩]
    let together := outcome (drawAllCurves .silent datasets defaultBuckets ⟨"plots"⟩
      defaultChartSize) (.ofFiles namesakes)
    let alone := outcome (drawAllCurves .silent [.ofPath ⟨"a/x.csv"⟩] defaultBuckets ⟨"plots"⟩
      defaultChartSize) (.ofFiles namesakes)
    (datasets.map Dataset.path).Nodup ∧
      together.1 = .ok [⟨"plots/x_curves.svg"⟩, ⟨"plots/x_curves.svg"⟩] ∧
      alone.1 = .ok [⟨"plots/x_curves.svg"⟩] ∧
      together.2.files.find ⟨"plots/x_curves.svg"⟩ ≠ alone.2.files.find ⟨"plots/x_curves.svg"⟩ := by
  decide +kernel

end DramTiming
