import DramTiming.Proofs.Chart.Axes
import DramTiming.Proofs.Label.Titles
import DramTiming.Proofs.Session.Curves
import DramTiming.Proofs.Session.Manufacturers

/-!
# What the charts of a run tell

A curve chart has the title of its run, and a series of a correlation chart the name of its run.
As no two runs have the same title, and no two of one manufacturer the same name, a chart tells
which run it shows, and a legend which series is whose (`charts_tell_runs`).

A chart is drawn of data that were read from files, so all tRCD values are finite, and those of a
correlation are at least two.  So its axes are not empty and hold the data (`axes_hold_data`).
-/

namespace DramTiming

open Binary64

variable {d : Dataset} {g : Group} {cs : List Correlation} {chart : Chart}

/-! ### Charts that are drawn -/

/-- A chart that is drawn of a measurement file. -/
def IsCurveChart (d : Dataset) (chart : Chart) : Prop :=
  ∃ v buckets out size w path w₁ l,
    outcome (drawCurves v buckets out size d) w = (.ok path, w₁) ∧
      w₁.files.find path = .ok (l, .file (.chart chart))

/-- A chart that is drawn of a group of correlations. -/
def IsCorrelationChart (g : Group) (chart : Chart) : Prop :=
  ∃ v out size w w₁ l,
    outcome (drawCorrelations v out size g) w = (.ok (), w₁) ∧
      w₁.files.find (correlationPath out g.manufacturer) = .ok (l, .file (.chart chart))

theorem exists_isCurveChart {v : Verbosity} {buckets : List Binary64} {out path : Path}
    {size : ChartSize} {w w₁ : World}
    (h : outcome (drawCurves v buckets out size d) w = (.ok path, w₁)) :
    ∃ chart, IsCurveChart d chart := by
  obtain ⟨rfl, table, l, hdraws⟩ := exists_draws_of_outcome h
  exact ⟨_, v, buckets, out, size, w, _, w₁, l, h, hdraws.find_eq⟩

theorem exists_isCorrelationChart {v : Verbosity} {out : Path} {size : ChartSize} {w w₁ : World}
    (h : outcome (drawCorrelations v out size g) w = (.ok (), w₁)) :
    ∃ chart, IsCorrelationChart g chart := by
  obtain ⟨l, hl⟩ := (saves_drawCorrelations out size g).exists_find h
  exact ⟨_, v, out, size, w, w₁, l, h, hl⟩

theorem IsCurveChart.title_eq (h : IsCurveChart d chart) : chart.title = d.labelOf.title := by
  obtain ⟨v, buckets, out, size, w, path, w₁, l, hdraw, hfind⟩ := h
  obtain ⟨rfl, table, l', hdraws⟩ := exists_draws_of_outcome hdraw
  cases hdraws.find_eq.symm.trans hfind
  rw [← Dataset.label_of_loadedIn hdraws.loaded]
  rfl

theorem IsCorrelationChart.exists_eq (h : IsCorrelationChart g chart) :
    ∃ size, chart = correlationChart size g.manufacturer g.members := by
  obtain ⟨v, out, size, w, w₁, l, hdraw, hfind⟩ := h
  obtain ⟨l', hl'⟩ := (saves_drawCorrelations out size g).exists_find hdraw
  cases hl'.symm.trans hfind
  exact ⟨size, rfl⟩

/-! ### Titles and legends -/

theorem IsCorrelationChart.exists_series (h : IsCorrelationChart g chart) {i : Nat}
    {c : Correlation} (hc : g.members[i]? = some c) :
    ∃ s, chart.series[i]? = some s ∧ s.label = c.label.display := by
  obtain ⟨size, rfl⟩ := h.exists_eq
  rw [← Option.map_eq_some_iff, ← List.getElem?_map, labels_of_correlationChart, List.getElem?_map,
    hc]
  rfl

/-- Correlations in one group that are called the same are of the same run. -/
theorem display_eq_iff_of_mem_group (hg : g ∈ groupByManufacturer cs) {c c' : Correlation}
    (hc : c ∈ g.members) (hc' : c' ∈ g.members) (hrun : c.label.IsRun) (hrun' : c'.label.IsRun) :
    c.label.display = c'.label.display ↔ c.label = c'.label := by
  have hmanufacturer : ∀ c ∈ g.members, c.label.manufacturer = g.manufacturer := by
    rw [(isGrouping_groupByManufacturer cs).members g hg]
    intro c hc
    simpa using (List.mem_filter.mp hc).2
  rw [Label.display_eq_iff hrun hrun', hrun.eq_iff hrun', hmanufacturer c hc,
    hmanufacturer c' hc']
  simp

/-- Two runs have the same title only if they are the same, and the same name in a legend only if
they have the same data pattern and temperature, whatever text their manufacturers are.

So curve charts of different runs have different titles, and no two series of a correlation chart
have the same name unless they are of the same run. -/
theorem charts_tell_runs :
    (∀ l l' : Label, l.IsRun → l'.IsRun →
      (l.title = l'.title ↔ l.manufacturer = l'.manufacturer ∧ l.dataPattern = l'.dataPattern ∧
        l.temperature = l'.temperature) ∧
      (l.display = l'.display ↔ l.dataPattern = l'.dataPattern ∧
        l.temperature = l'.temperature)) ∧
    (∀ d d' chart chart', IsCurveChart d chart → IsCurveChart d' chart' →
      d.labelOf.IsRun → d'.labelOf.IsRun →
        (chart.title = chart'.title ↔ d.labelOf = d'.labelOf)) ∧
    ∀ cs, ∀ g ∈ groupByManufacturer cs, ∀ chart, IsCorrelationChart g chart →
      ∀ (i j : Nat) (c c' : Correlation), g.members[i]? = some c → g.members[j]? = some c' →
        c.label.IsRun → c'.label.IsRun →
          ∃ s s', chart.series[i]? = some s ∧ chart.series[j]? = some s' ∧
            (s.label = s'.label ↔ c.label = c'.label) := by
  refine ⟨?_, ?_, ?_⟩
  · intro l l' hrun hrun'
    rw [Label.title_eq_iff hrun hrun', hrun.eq_iff hrun']
    exact ⟨Iff.rfl, Label.display_eq_iff hrun hrun'⟩
  · intro d d' chart chart' hchart hchart' hrun hrun'
    rw [hchart.title_eq, hchart'.title_eq]
    exact Label.title_eq_iff hrun hrun'
  · intro cs g hg chart hchart i j c c' hc hc' hrun hrun'
    obtain ⟨s, hs, hlabel⟩ := hchart.exists_series hc
    obtain ⟨s', hs', hlabel'⟩ := hchart.exists_series hc'
    refine ⟨s, s', hs, hs', ?_⟩
    rw [hlabel, hlabel']
    exact display_eq_iff_of_mem_group hg (List.mem_of_getElem? hc) (List.mem_of_getElem? hc')
      hrun hrun'

/-- Two measurement files without rows; what stands for the manufacturer in the name of the second
one is what the title of the first one is. -/
def imitation : FileTree :=
  (((FileTree.bare []).put ["plots"] .directory).put ["A24x0.csv"]
    (.file (.bytes "tRCD,retention,FehlerProzent\n".toUTF8.toList))).put
    ["A with data pattern 0x00 at 24°C24x0.csv"]
    (.file (.bytes "tRCD,retention,FehlerProzent\n".toUTF8.toList))

/-- A manufacturer that imitates a title has another title, though the same name in a legend; and
series of one manufacturer that differ in data pattern have different names. -/
theorem charts_tell_runs_imitation :
    let plain : Dataset := .ofPath ⟨"A24x0.csv"⟩
    let imitating : Dataset := .ofPath ⟨"A with data pattern 0x00 at 24°C24x0.csv"⟩
    (plain.labelOf.title = imitating.labelOf.manufacturer ∧
      plain.labelOf.title ≠ imitating.labelOf.title ∧
      plain.labelOf.display = imitating.labelOf.display) ∧
    (∃ chart chart', IsCurveChart plain chart ∧ IsCurveChart imitating chart' ∧
      chart.title ≠ chart'.title) ∧
    ∃ g chart s s', IsCorrelationChart g chart ∧ chart.series[0]? = some s ∧
      chart.series[1]? = some s' ∧ s.label ≠ s'.label := by
  intro plain imitating
  obtain ⟨hlabels, htitles, hseries⟩ := charts_tell_runs
  have hplain : plain.labelOf = ⟨"A", some 0, some 24, none⟩ := by decide +kernel
  have himitating : imitating.labelOf =
      ⟨"A with data pattern 0x00 at 24°C", some 0, some 24, none⟩ := by decide +kernel
  have hrun : plain.labelOf.IsRun := hplain ▸ ⟨rfl, rfl, rfl⟩
  have hrun' : imitating.labelOf.IsRun := himitating ▸ ⟨rfl, rfl, rfl⟩
  have hne : plain.labelOf.manufacturer ≠ imitating.labelOf.manufacturer := by
    rw [hplain, himitating]
    decide
  obtain ⟨htitle, hdisplay⟩ := hlabels _ _ hrun hrun'
  refine ⟨⟨by rw [hplain, himitating]; decide +kernel, fun heq => hne (htitle.mp heq).1,
    hdisplay.mpr ?_⟩, ?_, ?_⟩
  · rw [hplain, himitating]
    exact ⟨rfl, rfl⟩
  · have hdrawn : ∀ d ∈ [plain, imitating], (outcome (drawCurves .silent [] ⟨"plots"⟩
        defaultChartSize d) (.ofFiles imitation)).1 = .ok (curvesPath ⟨"plots"⟩ d) := by
      decide +kernel
    obtain ⟨chart, hchart⟩ := exists_isCurveChart (Prod.ext (hdrawn plain (by simp)) rfl)
    obtain ⟨chart', hchart'⟩ := exists_isCurveChart (Prod.ext (hdrawn imitating (by simp)) rfl)
    refine ⟨chart, chart', hchart, hchart', fun heq => hne ?_⟩
    rw [(htitles _ _ _ _ hchart hchart' hrun hrun').mp heq]
  · let first : Correlation := ⟨⟨"A", some 0, some 24, none⟩, [], ⟨0, 1⟩⟩
    let second : Correlation := ⟨⟨"A", some 255, some 24, none⟩, [], ⟨0, 1⟩⟩
    have hdrawn : (outcome (drawCorrelations .silent ⟨"plots"⟩ defaultChartSize
        ⟨"A", [first, second]⟩) (.ofFiles imitation)).1 = .ok () := by
      decide +kernel
    have hgroup : ⟨"A", [first, second]⟩ ∈ groupByManufacturer [first, second] :=
      List.mem_singleton_self _
    obtain ⟨chart, hchart⟩ := exists_isCorrelationChart (Prod.ext hdrawn rfl)
    obtain ⟨s, s', hs, hs', hiff⟩ := hseries _ _ hgroup _ hchart 0 1 first second rfl rfl
      ⟨rfl, rfl, rfl⟩ ⟨rfl, rfl, rfl⟩
    refine ⟨_, chart, s, s', hchart, hs, hs', fun heq => ?_⟩
    exact absurd (hiff.mp heq) (by decide)

/-! ### Axes -/

theorem Dataset.isFinite_of_loadedIn {v : Verbosity} {files : FileTree} {t : Table}
    (h : d.loadedIn v files = .ok t) : ∀ row ∈ t.rows, row.IsFinite :=
  isFinite_of_toTable (loadedIn_eq_ok_iff.mp h).1

/-- The correlations of a run are those of tables that it has loaded. -/
theorem exists_of_mapM_correlateOne {v : Verbosity} {datasets : List Dataset} {w : World}
    (h : (outcome (datasets.mapM (correlateOne v)) w).1 = .ok cs) :
    ∀ c ∈ cs, ∃ d ∈ datasets, ∃ t, d.loadedIn v w.files = .ok t ∧ t.correlation = .ok c := by
  rw [(Reads.mapM reads_correlateOne datasets).result_eq, mapM_eq_ok_iff] at h
  induction h with
  | nil => nofun
  | cons hd _ ih =>
    rw [List.forall_mem_cons]
    refine ⟨⟨_, List.mem_cons_self, Dataset.correlationIn_eq_ok_iff.mp hd⟩, fun c hc => ?_⟩
    obtain ⟨d, hmem, hloaded⟩ := ih c hc
    exact ⟨d, List.mem_cons_of_mem _ hmem, hloaded⟩

/-- All correlations of a run can be shown in a chart. -/
theorem hasSpan_of_mapM_correlateOne {v : Verbosity} {datasets : List Dataset} {w : World}
    (h : (outcome (datasets.mapM (correlateOne v)) w).1 = .ok cs) : ∀ c ∈ cs, c.HasSpan := by
  intro c hc
  obtain ⟨d, -, t, hload, hcorrelation⟩ := exists_of_mapM_correlateOne h c hc
  exact Table.hasSpan_of_correlation (Dataset.isFinite_of_loadedIn hload) hcorrelation

/-- The members of a group are some of the correlations, at least one. -/
theorem members_of_mem_groupByManufacturer (hg : g ∈ groupByManufacturer cs) :
    g.members ≠ [] ∧ ∀ c ∈ g.members, c ∈ cs := by
  have hmembers := (isGrouping_groupByManufacturer cs).members g hg
  obtain ⟨c, hc, hsame⟩ := exists_mem_groupByManufacturer_iff.mp ⟨g, hg, rfl⟩
  rw [hmembers]
  exact ⟨List.ne_nil_of_mem (List.mem_filter.mpr ⟨hc, by simpa using hsame⟩),
    fun c hc => List.mem_of_mem_filter hc⟩

/-- The axes of the charts of a run hold the data.

The range of tRCD in a correlation chart is not empty and holds all tRCD values of its series, and
the range of coefficients all their coefficients.  The range of tRCD in a curve chart begins at
zero, is not empty, and holds all plotted values that are not negative.  Both ranges of tRCD are
finite if no tRCD value is above `2 ^ 1022` in size. -/
theorem axes_hold_data (v : Verbosity) (w : World) :
    (∀ (datasets : List Dataset) (cs : List Correlation),
      (outcome (datasets.mapM (correlateOne v)) w).1 = .ok cs → ∀ g ∈ groupByManufacturer cs,
        let range := correlationRange g.members
        lt range.lo range.hi = true ∧
        (∀ c ∈ g.members, ∀ p ∈ c.points, range.Contains p.x ∧ coefficientRange.Contains p.y) ∧
        ((∀ c ∈ g.members, ∀ p ∈ c.points, Within (2 ^ 1022) p.x) → range.IsFinite)) ∧
    ∀ (d : Dataset) (t : Table) (buckets : List Binary64),
      (outcome (loadTable v d) w).1 = .ok t →
      let curves := t.errorCurves buckets
      let range := curveRange curves
      range.lo = 0 ∧ lt 0 range.hi = true ∧
      (∀ c ∈ curves, ∀ p ∈ c.points, le 0 p.x = true → range.Contains p.x) ∧
      ((∀ c ∈ curves, ∀ p ∈ c.points, Within (2 ^ 1022) p.x) → range.IsFinite) := by
  constructor
  · intro datasets cs h g hg
    obtain ⟨hne, hmem⟩ := members_of_mem_groupByManufacturer hg
    have hspan : ∀ c ∈ g.members, c.HasSpan := fun c hc =>
      hasSpan_of_mapM_correlateOne h c (hmem c hc)
    obtain ⟨hlt, hcontains, hfinite⟩ := correlationRange_spec hspan hne
    exact ⟨hlt, fun c hc p hp => ⟨hcontains c hc p hp, (hspan c hc).coefficients p hp⟩,
      hfinite le_rfl⟩
  · intro d t buckets h
    rw [(reads_loadTable d).result_eq] at h
    have hplotted : ∀ c ∈ t.errorCurves buckets, ∀ p ∈ c.points, p.x.isFinite = true :=
      Table.forall_mem_errorCurves (fun x => x.isFinite = true) fun row hrow =>
        (Dataset.isFinite_of_loadedIn h row hrow).trcd
    obtain ⟨hlo, hpos, hcontains, hfinite⟩ := curveRange_spec hplotted
    exact ⟨hlo, hpos, hcontains, hfinite le_rfl⟩

/-- Both charts of a manufacturer's first measurement file have finite axes, where its tRCD values
are ten and eleven. -/
theorem axes_hold_data_sample :
    (∃ cs, (outcome (takingTurns.mapM (correlateOne .silent))
        (.ofFiles takingTurnsFiles)).1 = .ok cs ∧
      ∃ g ∈ groupByManufacturer cs, g.manufacturer = "A" ∧
        lt (correlationRange g.members).lo (correlationRange g.members).hi = true ∧
        (∀ c ∈ g.members, ∀ p ∈ c.points,
          (correlationRange g.members).Contains p.x ∧ coefficientRange.Contains p.y) ∧
        (correlationRange g.members).IsFinite) ∧
    ∃ t, (outcome (loadTable .silent (.ofPath ⟨"A1x0.csv"⟩))
        (.ofFiles takingTurnsFiles)).1 = .ok t ∧
      lt 0 (curveRange (t.errorCurves [1])).hi = true ∧
      (curveRange (t.errorCurves [1])).Contains 11 ∧ (curveRange (t.errorCurves [1])).IsFinite := by
  let rows : List Row := [⟨10, 2, 1, none⟩, ⟨10, 3, 2, none⟩, ⟨11, 2, 1, none⟩]
  obtain ⟨hcorrelations, hcurves⟩ := axes_hold_data .silent (.ofFiles takingTurnsFiles)
  have hload : ∀ d ∈ takingTurns,
      d.loadedIn .silent takingTurnsFiles = .ok ⟨d.labelOf, d.path, rows⟩ := by decide +kernel
  have hrows : ∀ row ∈ rows, row.trcd = ofNat 10 ∨ row.trcd = ofNat 11 := by decide +kernel
  have hwithin : ∀ row ∈ rows, Within (2 ^ 1022) row.trcd := by
    have hle {e : Nat} (he : 4 ≤ e) : 11 ≤ 2 ^ e :=
      (show 11 ≤ 2 ^ 4 by decide).trans (Nat.pow_le_pow_right two_pos he)
    have heleven : IsWhole 11 := isWhole_of_le (by decide)
    intro row hrow
    rcases hrows row hrow with heq | heq
    · exact heq ▸ (within_ofNat heleven (by decide)).mono (hle (by decide))
    · exact heq ▸ (within_ofNat heleven le_rfl).mono (hle (by decide))
  constructor
  · obtain ⟨cs, hcs⟩ := exists_forall₂_feasible_iff.mpr exists_feasible_takingTurns
    have hrun : (outcome (takingTurns.mapM (correlateOne .silent)) (.ofFiles takingTurnsFiles)).1 =
        .ok cs := by
      rw [(Reads.mapM reads_correlateOne takingTurns).result_eq]
      exact (forall₂_feasible_iff.mp hcs).1
    obtain ⟨g, hg, hname⟩ : ∃ g ∈ groupByManufacturer cs, g.manufacturer = "A" := by
      rw [exists_mem_groupByManufacturer_iff]
      have hlabels := labels_of_mapM_correlationIn (forall₂_feasible_iff.mp hcs).1
      have hmem : (Dataset.ofPath ⟨"A1x0.csv"⟩).labelOf ∈ cs.map Correlation.label := by
        rw [hlabels]
        exact List.mem_map_of_mem List.mem_cons_self
      obtain ⟨c, hc, hlabel⟩ := List.mem_map.mp hmem
      exact ⟨c, hc, by rw [hlabel]; decide +kernel⟩
    obtain ⟨hlt, hcontains, hfinite⟩ := hcorrelations takingTurns cs hrun g hg
    refine ⟨cs, hrun, g, hg, hname, hlt, hcontains, hfinite fun c hc p hp => ?_⟩
    obtain ⟨d, hd, t, hloaded, hcorrelation⟩ :=
      exists_of_mapM_correlateOne hrun c ((members_of_mem_groupByManufacturer hg).2 c hc)
    obtain rfl := Except.ok.inj ((hload d hd).symm.trans hloaded)
    obtain ⟨_, _, rfl, -⟩ := Table.correlationWith_eq_ok hcorrelation
    obtain ⟨trcd, htrcd, rfl⟩ := List.mem_map.mp hp
    obtain ⟨row, hrow, rfl⟩ := Table.exists_of_mem_distinctTrcd htrcd
    exact hwithin row hrow
  · let t : Table := ⟨(Dataset.ofPath ⟨"A1x0.csv"⟩).labelOf, ⟨"A1x0.csv"⟩, rows⟩
    have hrun : (outcome (loadTable .silent (.ofPath ⟨"A1x0.csv"⟩)) (.ofFiles takingTurnsFiles)).1 =
        .ok t := by
      rw [(reads_loadTable _).result_eq]
      exact hload _ List.mem_cons_self
    have hcurve : t.errorCurves [1] = [⟨1, [⟨10, 2⟩, ⟨11, 2⟩]⟩] := by decide +kernel
    obtain ⟨-, hpos, hcontains, hfinite⟩ := hcurves _ t [1] hrun
    refine ⟨t, hrun, hpos, ?_, hfinite (Table.forall_mem_errorCurves (Within (2 ^ 1022)) hwithin)⟩
    exact hcontains ⟨1, [⟨10, 2⟩, ⟨11, 2⟩]⟩ (by rw [hcurve]; simp) ⟨11, 2⟩ (by simp)
      (zero_le_of_not_negative (isNaN_ofUnits _ _ _) rfl)

end DramTiming
