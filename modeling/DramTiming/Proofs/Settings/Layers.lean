import DramTiming.Proofs.Toml.Distinct
import DramTiming.Settings.Document

/-!
# Settings in layers

A document gives some of the known settings, each with a value of its type; in which order they
stand, and what else there is, does not matter (`Layer.GivenBy`).  Read as settings, that is these
values laid over the defaults (`ofEntries?_of_givenBy`).
-/

namespace DramTiming

open Toml

/-! ### Entries -/

namespace Toml.Entries

variable {α : Type}

/-- The entries have a value of the type under the key, or they do not have the key. -/
def Gives (entries : Entries) (key : String) (Is : Value → α → Prop) : Option α → Prop
  | some a => ∃ v, (key, v) ∈ entries ∧ Is v a
  | none => key ∉ entries.map Prod.fst

/-- The entries have a table under the key of which this holds.  An absent table is like an empty
one. -/
def GivesTable (entries : Entries) (key : String) (Holds : Entries → Prop) : Prop :=
  (∃ origin inner, (key, .table origin inner) ∈ entries ∧ Holds inner) ∨
    (key ∉ entries.map Prod.fst ∧ Holds [])

end Toml.Entries

namespace Settings

variable {α : Type} {entries : Entries} {key : String}

/-! ### Values of a type -/

/-- A number, which may be written as an integer. -/
inductive IsNumber : Value → Binary64 → Prop
  | float (x : Binary64) : IsNumber (.float x) x
  | integer (n : Int) : IsNumber (.integer n) (.ofInt n)

/-- A text. -/
inductive IsText : Value → String → Prop
  | string (text : String) : IsText (.string text) text

/-- A path. -/
inductive IsPath : Value → Path → Prop
  | string (text : String) : IsPath (.string text) ⟨text⟩

/-- A number of pixels. -/
inductive IsPixels : Value → Nat → Prop
  | integer (n : Nat) : n ≤ Decimal.max32 → IsPixels (.integer n) n

/-- A list of values of a type. -/
inductive IsList (Is : Value → α → Prop) : Value → List α → Prop
  | array {byHeaders elements as} : List.Forall₂ Is elements as →
      IsList Is (.array byHeaders elements) as

/-- A measurement file, which may have a label. -/
inductive IsDataset : Value → Dataset → Prop
  | table {origin entries path label} : Entries.Gives entries "path" IsPath (some path) →
      Entries.Gives entries "label" IsText label → IsDataset (.table origin entries) ⟨path, label⟩

/-- A value of the type is read as what it is. -/
def ReadBy (Is : Value → α → Prop) (read? : Value → Option α) : Prop :=
  ∀ ⦃v a⦄, v.Distinct → Is v a → read? v = some a

theorem readBy_float? : ReadBy IsNumber float? := by
  rintro _ _ - (x | n) <;> rfl

theorem readBy_text? : ReadBy IsText text? := by
  rintro _ _ - ⟨text⟩
  rfl

theorem readBy_path? : ReadBy IsPath path? := by
  rintro _ _ - ⟨text⟩
  rfl

theorem readBy_pixels? : ReadBy IsPixels pixels? := by
  rintro _ n - ⟨_, hn⟩
  exact if_pos ⟨Int.natCast_nonneg n, Int.ofNat_le.mpr hn⟩

theorem ReadBy.list {Is : Value → α → Prop} {read? : Value → Option α} (h : ReadBy Is read?) :
    ReadBy (IsList Is) (list? read?) := by
  rintro _ _ hdistinct ⟨helements⟩
  have hvalues := Value.distinct_array_iff.mp hdistinct
  clear hdistinct
  show List.mapM read? _ = _
  induction helements with
  | nil => rfl
  | cons hv _ ih =>
    obtain ⟨hfirst, hothers⟩ := List.forall_mem_cons.mp hvalues
    rw [List.mapM_cons, h hfirst hv, ih hothers]
    rfl

/-- A field that is given has its value, and any other its default. -/
theorem optional?_of_gives {Is : Value → α → Prop} {read? : Value → Option α} (h : ReadBy Is read?)
    (hdistinct : entries.Distinct) {given : Option α} (hgives : entries.Gives key Is given)
    (default : α) : optional? read? default (entries.lookup key) = some (given.getD default) := by
  cases given with
  | none => rw [lookup_eq_none_iff_not_mem.mpr hgives]; rfl
  | some a =>
    obtain ⟨v, hv, his⟩ := hgives
    rw [(lookup_eq_some_iff_mem hdistinct.nodup).mpr hv]
    exact h (hdistinct.values _ hv) his

theorem optional?_of_givesTable {read? : Value → Option α} {Holds : Entries → Prop} {a default : α}
    (h : ∀ origin inner, Entries.Distinct inner → Holds inner →
      read? (.table origin inner) = some a)
    (hempty : read? (.table .header []) = some default) (hdistinct : entries.Distinct)
    (hgives : entries.GivesTable key Holds) :
    optional? read? default (entries.lookup key) = some a := by
  rcases hgives with ⟨origin, inner, hmem, hinner⟩ | ⟨hfree, hinner⟩
  · rw [(lookup_eq_some_iff_mem hdistinct.nodup).mpr hmem]
    exact h origin inner (Value.distinct_table_iff.mp (hdistinct.values _ hmem)) hinner
  · rw [lookup_eq_none_iff_not_mem.mpr hfree]
    exact hempty.symm.trans (h .header [] .nil hinner)

/-- What is of a type, as something that may be absent. -/
def IsPresent (Is : Value → α → Prop) (v : Value) (present : Option α) : Prop :=
  ∃ a, Is v a ∧ present = some a

theorem ReadBy.present {Is : Value → α → Prop} {read? : Value → Option α} (h : ReadBy Is read?) :
    ReadBy (IsPresent Is) fun v => (read? v).map some := by
  rintro v _ hdistinct ⟨a, his, rfl⟩
  exact congrArg (Option.map some) (h hdistinct his)

/-- A field without a default is absent by default. -/
theorem optional?_some_of_gives {Is : Value → α → Prop} {read? : Value → Option α}
    (h : ReadBy Is read?) (hdistinct : entries.Distinct) {given : Option α}
    (hgives : entries.Gives key Is given) :
    optional? (fun v => (read? v).map some) none (entries.lookup key) = some given := by
  have hpresent : entries.Gives key (IsPresent Is) (given.map some) := by
    cases given with
    | none => exact hgives
    | some a =>
      obtain ⟨v, hv, his⟩ := hgives
      exact ⟨v, hv, a, his, rfl⟩
  rw [optional?_of_gives h.present hdistinct hpresent none]
  cases given <;> rfl

theorem readBy_dataset? : ReadBy IsDataset dataset? := by
  rintro _ _ hdistinct ⟨⟨v, hv, hpath⟩, hlabel⟩
  have hentries := Value.distinct_table_iff.mp hdistinct
  simp only [dataset?, fields?, List.map_cons, List.map_nil, Option.bind_eq_bind, Option.bind_some,
    (lookup_eq_some_iff_mem hentries.nodup).mpr hv, readBy_path? (hentries.values _ hv) hpath,
    optional?_some_of_gives readBy_text? hentries hlabel]
  rfl

/-! ### Layers -/

/-- Any of the known settings. -/
structure Layer where
  baseClk : Option Binary64
  clkfboutMult : Option Binary64
  divclkDivide : Option Binary64
  clkoutDivide : Option Binary64
  buckets : Option (List Binary64)
  outputDirectory : Option Path
  width : Option Nat
  height : Option Nat
  datasets : Option (List Dataset)

namespace Layer

/-- None of the known settings. -/
def empty : Layer := ⟨none, none, none, none, none, none, none, none, none⟩

/-- The settings of a layer, and of other settings where the layer has none. -/
def onto (l : Layer) (s : Settings) : Settings where
  clock :=
    { baseClk := l.baseClk.getD s.clock.baseClk
      clkfboutMult := l.clkfboutMult.getD s.clock.clkfboutMult
      divclkDivide := l.divclkDivide.getD s.clock.divclkDivide
      clkoutDivide := l.clkoutDivide.getD s.clock.clkoutDivide }
  buckets := l.buckets.getD s.buckets
  outputDirectory := l.outputDirectory.getD s.outputDirectory
  chartSize := ⟨l.width.getD s.chartSize.width, l.height.getD s.chartSize.height⟩
  datasets := l.datasets.getD s.datasets

/-- The fields of a table give the clock of a layer. -/
structure GivesClock (l : Layer) (fields : Entries) : Prop where
  baseClk : fields.Gives "base_clk" IsNumber l.baseClk
  clkfboutMult : fields.Gives "clkfbout_mult" IsNumber l.clkfboutMult
  divclkDivide : fields.Gives "divclk_divide" IsNumber l.divclkDivide
  clkoutDivide : fields.Gives "clkout_divide" IsNumber l.clkoutDivide

/-- The fields of a table give where a layer puts charts, and how large they are. -/
structure GivesPlot (l : Layer) (fields : Entries) : Prop where
  outputDirectory : fields.Gives "output_dir" IsPath l.outputDirectory
  width : fields.Gives "width" IsPixels l.width
  height : fields.Gives "height" IsPixels l.height

/-- The entries of a document give the settings of a layer. -/
structure GivenBy (l : Layer) (entries : Entries) : Prop where
  clock : entries.GivesTable "clock" l.GivesClock
  analysis : entries.GivesTable "analysis" fun fields =>
    fields.Gives "retention_buckets" (IsList IsNumber) l.buckets
  plot : entries.GivesTable "plot" l.GivesPlot
  datasets : entries.Gives "datasets" (IsList IsDataset) l.datasets

end Layer

variable {l : Layer}

theorem clock?_of_gives {origin : Origin} {fields : Entries} (hfields : fields.Distinct)
    (h : l.GivesClock fields) : clock? (.table origin fields) = some (l.onto .default).clock := by
  have hfield {key given} (hgives : fields.Gives key IsNumber given) :=
    optional?_of_gives readBy_float? hfields hgives
  simp only [clock?, fields?, List.map_cons, List.map_nil, Option.bind_eq_bind, Option.bind_some,
    hfield h.baseClk, hfield h.clkfboutMult, hfield h.divclkDivide, hfield h.clkoutDivide]
  rfl

theorem buckets?_of_gives {origin : Origin} {fields : Entries} (hfields : fields.Distinct)
    (h : fields.Gives "retention_buckets" (IsList IsNumber) l.buckets) :
    buckets? (.table origin fields) = some (l.onto .default).buckets := by
  simp only [buckets?, fields?, List.map_cons, List.map_nil, Option.bind_eq_bind, Option.bind_some,
    optional?_of_gives readBy_float?.list hfields h]
  rfl

theorem plot?_of_gives {origin : Origin} {fields : Entries} (hfields : fields.Distinct)
    (h : l.GivesPlot fields) : plot? (.table origin fields) =
      some ((l.onto .default).outputDirectory, (l.onto .default).chartSize) := by
  simp only [plot?, fields?, List.map_cons, List.map_nil, Option.bind_eq_bind, Option.bind_some,
    optional?_of_gives readBy_path? hfields h.outputDirectory,
    optional?_of_gives readBy_pixels? hfields h.width,
    optional?_of_gives readBy_pixels? hfields h.height]
  rfl

theorem ofEntries?_of_givenBy (hdistinct : entries.Distinct) (h : l.GivenBy entries) :
    ofEntries? entries = some (l.onto .default) := by
  have hclock : optional? clock? default.clock (entries.lookup "clock") =
      some (l.onto .default).clock :=
    optional?_of_givesTable (fun _ _ => clock?_of_gives) rfl hdistinct h.clock
  have hbuckets : optional? buckets? default.buckets (entries.lookup "analysis") =
      some (l.onto .default).buckets :=
    optional?_of_givesTable (fun _ _ => buckets?_of_gives) rfl hdistinct h.analysis
  have hplot : optional? plot? (default.outputDirectory, default.chartSize)
      (entries.lookup "plot") =
      some ((l.onto .default).outputDirectory, (l.onto .default).chartSize) :=
    optional?_of_givesTable (fun _ _ => plot?_of_gives) rfl hdistinct h.plot
  have hdatasets := optional?_of_gives readBy_dataset?.list hdistinct h.datasets default.datasets
  simp only [ofEntries?, hclock, hbuckets, hplot, hdatasets, Option.bind_eq_bind, Option.bind_some]
  rfl

/-- The layer without settings leaves others as they are. -/
theorem Layer.empty_onto (s : Settings) : Layer.empty.onto s = s := rfl

/-! ### Completion -/

/-- To complete settings is to give them retention times if they have none, and to raise the size of
charts. -/
theorem completed_eq (s : Settings) :
    s.completed = { s with
      buckets := if s.buckets = [] then defaultBuckets else s.buckets
      chartSize := ⟨max s.chartSize.width 320, max s.chartSize.height 240⟩ } := by
  simp [completed, ChartSize.raised, minChartSize]

theorem completed_completed (s : Settings) : s.completed.completed = s.completed := by
  have hdefault : defaultBuckets ≠ [] := List.cons_ne_nil _ _
  by_cases hbuckets : s.buckets = [] <;> simp [completed_eq, hbuckets, hdefault]

end Settings

end DramTiming
