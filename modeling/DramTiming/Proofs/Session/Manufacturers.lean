import DramTiming.Proofs.Label
import DramTiming.Proofs.Session.Correlating

/-!
# One chart for each manufacturer

Correlations are drawn in groups, one for each manufacturer.  Manufacturers have no slash in them,
so different ones have their charts in different places, and no chart is lost
(`correlateAll_charts`).
-/

namespace DramTiming

variable {v : Verbosity} {datasets : List Dataset} {out : Path} {size : ChartSize} {w w₁ : World}
  {c : Correlation} {cs : List Correlation} {manufacturer : String}

/-! ### Labels -/

theorem Dataset.label_of_loadedIn {d : Dataset} {files : FileTree} {table : Table}
    (h : d.loadedIn v files = .ok table) : table.label = d.labelOf := by
  obtain ⟨_, _, -, -, rfl⟩ := exists_of_toTable (loadedIn_eq_ok_iff.mp h).1
  rfl

theorem Dataset.label_of_correlationIn {d : Dataset} {files : FileTree}
    (h : d.correlationIn v files = .ok c) : c.label = d.labelOf := by
  obtain ⟨table, hload, hc⟩ := correlationIn_eq_ok_iff.mp h
  rw [Table.label_of_correlationWith hc, label_of_loadedIn hload]

theorem labels_of_mapM_correlationIn {files : FileTree}
    (h : (datasets.mapM fun d => d.correlationIn v files) = .ok cs) :
    cs.map Correlation.label = datasets.map Dataset.labelOf := by
  rw [mapM_eq_ok_iff] at h
  induction h with
  | nil => rfl
  | cons hd _ ih => rw [List.map_cons, List.map_cons, ih, Dataset.label_of_correlationIn hd]

/-! ### Places of charts -/

theorem correlationPath_inj {manufacturer' : String} :
    correlationPath out manufacturer = correlationPath out manufacturer' ↔
      manufacturer = manufacturer' :=
  Path.join_append_inj

theorem pairwise_apart_correlationPath {groups : List Group}
    (hnodup : (groups.map Group.manufacturer).Nodup)
    (hslash : ∀ g ∈ groups, '/' ∉ g.manufacturer.toList) (t : FileTree) :
    groups.Pairwise fun g g' =>
      t.Apart (correlationPath out g.manufacturer) (correlationPath out g'.manufacturer) := by
  rw [List.Nodup, List.pairwise_map] at hnodup
  refine hnodup.imp_of_mem ?_
  intro g g' hg hg' hne
  exact FileTree.apart_join_append hne (hslash g hg) (hslash g' hg') (by decide) (by decide)

/-! ### All charts -/

theorem labels_of_correlationChart (size : ChartSize) (manufacturer : String)
    (cs : List Correlation) :
    (correlationChart size manufacturer cs).series.map Series.label =
      cs.map fun c => c.label.display := by
  rw [correlationChart, List.map_map]
  show cs.zipIdx.map ((fun c => c.label.display) ∘ Prod.fst) = _
  rw [← List.map_map, List.zipIdx_map_fst]

/-- Drawing groups leaves the chart of each of them, and all files as they are where none of them is
written. -/
theorem drawGroups_spec (h : outcome (drawGroups v out size cs) w = (.ok (), w₁))
    (hslash : ∀ c ∈ cs, '/' ∉ c.label.manufacturer.toList) :
    ((groupByManufacturer cs).Pairwise fun g g' => w₁.files.Apart
      (correlationPath out g.manufacturer) (correlationPath out g'.manufacturer)) ∧
    (∀ g ∈ groupByManufacturer cs, ∃ l, w₁.files.find (correlationPath out g.manufacturer) =
      .ok (l, .file (.chart (correlationChart size g.manufacturer g.members)))) ∧
    ∀ l, (∀ g ∈ groupByManufacturer cs,
        w₁.files.locate (correlationPath out g.manufacturer) ≠ .ok l) → ∀ content,
      (w.files.lookup l = some (.file content) ↔ w₁.files.lookup l = some (.file content)) := by
  have hgroups : ∀ g ∈ groupByManufacturer cs, '/' ∉ g.manufacturer.toList := by
    intro g hg
    obtain ⟨c, hc, hsame⟩ := exists_mem_groupByManufacturer_iff.mp ⟨g, hg, rfl⟩
    exact hsame ▸ hslash c hc
  have hnodup := (isGrouping_groupByManufacturer cs).nodup
  obtain ⟨_, w₀, hmake, hdraw⟩ := outcome_bind_eq_ok_iff.mp h
  obtain ⟨hsame, hlookup, hfound⟩ := Saves.forM_spec
    (fun group => saves_drawCorrelations out size group) hdraw
    (pairwise_apart_correlationPath hnodup hgroups w₀.files)
  refine ⟨pairwise_apart_correlationPath hnodup hgroups w₁.files, hfound, ?_⟩
  intro l hl content
  have hfiles := (sameFiles_makeOutputDirectory out w).files
  rw [hmake] at hfiles
  rw [hfiles l content, hlookup l]
  intro g hg hlocate
  exact hl g hg (hsame.locate_eq_ok_iff.mp hlocate)

/-- Correlating returns one correlation for each measurement file, in order, and draws one chart for
each manufacturer: its series are the correlations of this manufacturer, in order.

No two of these charts have the same path or are in the same place, so each of them is there in the
end.  All other files are as they were. -/
theorem correlateAll_charts (h : outcome (correlateAll v datasets out size) w = (.ok cs, w₁)) :
    let groups := groupByManufacturer cs
    cs.map Correlation.label = datasets.map Dataset.labelOf ∧
    IsGrouping groups cs ∧
    (groups.map fun g => correlationPath out g.manufacturer).Nodup ∧
    (groups.Pairwise fun g g' => w₁.files.Apart (correlationPath out g.manufacturer)
      (correlationPath out g'.manufacturer)) ∧
    (∀ g ∈ groups, ∃ l chart,
      w₁.files.find (correlationPath out g.manufacturer) = .ok (l, .file (.chart chart)) ∧
      chart = correlationChart size g.manufacturer g.members ∧
      chart.series.map Series.label = g.members.map fun c => c.label.display) ∧
    ∀ l, (∀ g ∈ groups, w₁.files.locate (correlationPath out g.manufacturer) ≠ .ok l) →
      ∀ content,
        (w.files.lookup l = some (.file content) ↔ w₁.files.lookup l = some (.file content)) := by
  intro groups
  rw [correlateAll_eq, outcome_bind_eq_ok_iff] at h
  obtain ⟨cs', w', hread, h⟩ := h
  rw [outcome_bind_eq_ok_iff] at h
  obtain ⟨_, w'', hdraw, h⟩ := h
  cases h
  obtain ⟨hcs, hw'⟩ := (Reads.mapM reads_correlateOne datasets).spec hread
  have hlabels := labels_of_mapM_correlationIn hcs
  have hslash : ∀ c ∈ cs, '/' ∉ c.label.manufacturer.toList := by
    intro c hc
    have hlabel : c.label ∈ datasets.map Dataset.labelOf := hlabels ▸ List.mem_map_of_mem hc
    obtain ⟨d, -, hd⟩ := List.mem_map.mp hlabel
    exact hd ▸ Label.slash_not_mem_manufacturer d
  have hgrouping := isGrouping_groupByManufacturer cs
  obtain ⟨hapart, hfound, hothers⟩ := drawGroups_spec hdraw hslash
  refine ⟨hlabels, hgrouping, ?_, hapart, ?_, ?_⟩
  · have hpaths : (groups.map fun g => correlationPath out g.manufacturer) =
        (groups.map Group.manufacturer).map (correlationPath out) := by simp
    rw [hpaths]
    exact hgrouping.nodup.map fun m m' hm => correlationPath_inj.mp hm
  · intro g hg
    obtain ⟨l, hl⟩ := hfound g hg
    exact ⟨l, _, hl, rfl, labels_of_correlationChart _ _ _⟩
  · rw [hw'.files]
    exact hothers

/-- Measurement files of two manufacturers, `A` and `B`, that take turns. -/
def takingTurns : List Dataset :=
  [.ofPath ⟨"A1x0.csv"⟩, .ofPath ⟨"B1x0.csv"⟩, .ofPath ⟨"A1xff.csv"⟩]

/-- A tree that has these files, each with two tRCD values. -/
def takingTurnsFiles : FileTree :=
  ["A1x0.csv", "B1x0.csv", "A1xff.csv"].foldl (fun files name => files.put [name] (.file (.bytes
    "tRCD,retention,FehlerProzent\n10,1,2\n10,2,3\n11,1,2\n".toUTF8.toList))) (.bare [])

theorem exists_feasible_takingTurns :
    ∀ d ∈ takingTurns, ∃ c, Feasible .silent ⟨"plots"⟩ (.ofFiles takingTurnsFiles) d c := by
  let rows : List Row := [⟨10, 2, 1, none⟩, ⟨10, 3, 2, none⟩, ⟨11, 2, 1, none⟩]
  have hload : ∀ d ∈ takingTurns,
      d.loadedIn .silent takingTurnsFiles = .ok ⟨d.labelOf, d.path, rows⟩ := by decide +kernel
  have hmake : outcome (makeOutputDirectory ⟨"plots"⟩) (.ofFiles takingTurnsFiles) =
      (.ok (), .ofFiles (takingTurnsFiles.put ["plots"] .directory)) := rfl
  have hplace : ∀ d ∈ takingTurns, (takingTurnsFiles.put ["plots"] .directory).Accepts
      (correlationPath ⟨"plots"⟩ d.labelOf.manufacturer)
      ["plots", d.labelOf.manufacturer ++ "_correlation.svg"] := by
    unfold FileTree.Accepts
    decide +kernel
  have hpairwise : (rows.map Row.trcd).Pairwise fun x y => x.totalLE y = true := by decide +kernel
  have htwo : 2 ≤ (Table.dedup (rows.map Row.trcd)).length := by decide +kernel
  have hrows : rows.length ≤ 2 ^ 64 := by decide
  intro d hd
  refine exists_feasible (hload d hd) ?_ hrows ⟨_, hmake, _, hplace d hd⟩
  rwa [Table.distinctTrcd_of_pairwise hpairwise]

/-- The correlations of `A` are drawn in one chart, in order, and `B` has another one. -/
theorem correlateAll_charts_sample :
    ∃ cs w₁, outcome (correlateAll .silent takingTurns ⟨"plots"⟩ defaultChartSize)
        (.ofFiles takingTurnsFiles) = (.ok cs, w₁) ∧
      (groupByManufacturer cs).map Group.manufacturer = ["A", "B"] ∧
      ∃ l chart, w₁.files.find (correlationPath ⟨"plots"⟩ "A") = .ok (l, .file (.chart chart)) ∧
        chart.series.map Series.label = ["1°C, 0x00", "1°C, 0xff"] := by
  obtain ⟨cs, hcs⟩ := exists_forall₂_feasible_iff.mpr exists_feasible_takingTurns
  have hne : takingTurns ≠ [] := List.cons_ne_nil _ _
  obtain ⟨hok, -⟩ := exists_outcome_of_feasible hne hcs defaultChartSize
  rcases hrun : outcome (correlateAll .silent takingTurns ⟨"plots"⟩ defaultChartSize)
    (.ofFiles takingTurnsFiles) with ⟨r, w₁⟩
  rw [hrun] at hok
  obtain rfl : r = .ok cs := hok
  obtain ⟨hlabels, hgrouping, -, -, hcharts, -⟩ := correlateAll_charts hrun
  have horder : (groupByManufacturer cs).map Group.manufacturer = ["A", "B"] := by
    have hmanufacturers : manufacturers cs =
        ((cs.map Correlation.label).map Label.manufacturer).eraseDups := by
      rw [List.map_map]
      rfl
    rw [hgrouping.order, hmanufacturers, hlabels]
    decide +kernel
  obtain ⟨g, hg, hname⟩ : ∃ g ∈ groupByManufacturer cs, g.manufacturer = "A" := by
    rw [← List.mem_map, horder]
    exact List.mem_cons_self
  obtain ⟨l, chart, hfind, -, hseries⟩ := hcharts g hg
  refine ⟨cs, w₁, rfl, horder, l, chart, hname ▸ hfind, ?_⟩
  have hmembers : (g.members.map fun c => c.label.display) =
      (((cs.map Correlation.label).filter fun label => label.manufacturer = "A").map
        Label.display) := by
    rw [hgrouping.members g hg, hname, List.filter_map, List.map_map]
    rfl
  rw [hseries, hmembers, hlabels]
  decide +kernel

end DramTiming
