import DramTiming.Proofs.Files.Tree
import DramTiming.Proofs.Session.Reading

/-!
# Attempts that save charts

`Saves x path chart` says that all an attempt `x` does but logging is to write a chart to a path;
where the path accepts no file it fails.  Written charts take no path from each other, so a row of
them can be written if each of them can (`Saves.forM_isOk_iff`).
-/

namespace DramTiming

variable {α β : Type} {v : Verbosity} {w w₁ : World} {path : Path} {chart : Chart}

/-! ### Printing nothing -/

/-- An attempt prints no results. -/
def Silent (x : Attempt (StateM World) α) : Prop := ∀ w, (outcome x w).2.printed = w.printed

namespace Silent

variable {x : Attempt (StateM World) α}

protected theorem pure (a : α) : Silent (pure a) := fun _ => rfl

theorem bind {y : α → Attempt (StateM World) β} (hx : Silent x) (hy : ∀ a, Silent (y a)) :
    Silent (x >>= y) := by
  intro w
  have hprinted := hx w
  rcases hxw : outcome x w with ⟨_ | a, w₁⟩
  · rw [outcome_bind_of_error hxw]
    rwa [hxw] at hprinted
  · rw [outcome_bind_of_ok hxw, hy a w₁]
    rwa [hxw] at hprinted

theorem forM {x : α → Attempt (StateM World) Unit} (hx : ∀ a, Silent (x a)) (as : List α) :
    Silent (as.forM x) := by
  induction as with
  | nil => exact Silent.pure ()
  | cons a as ih => exact (hx a).bind fun _ => ih

end Silent

/-! ### Directories -/

/-- Two worlds hold the same files and printed lines; their directories may be different. -/
structure World.SameFiles (w w' : World) : Prop where
  files : w.files.SameFiles w'.files
  printed : w.printed = w'.printed

theorem World.SameFiles.trans {w w' w'' : World} (h : w.SameFiles w') (h' : w'.SameFiles w'') :
    w.SameFiles w'' :=
  ⟨h.files.trans h'.files, h.printed.trans h'.printed⟩

/-- All that a host's operation does is to make directories. -/
def MakesDirectories (x : StateM World α) : Prop :=
  ∀ w : World, w.SameFiles (x.run w).2

theorem MakesDirectories.bind {x : StateM World α} {f : α → StateM World β}
    (hx : MakesDirectories x) (hf : ∀ a, MakesDirectories (f a)) : MakesDirectories (x >>= f) :=
  fun w => (hx w).trans (hf _ _)

theorem makesDirectories_of_same {x : StateM World α} (h : ∀ w, (x.run w).2 = w) :
    MakesDirectories x := by
  intro w
  rw [h w]
  exact ⟨.refl _, rfl⟩

theorem makesDirectories_makeDirectory (p : Path) :
    MakesDirectories (Host.makeDirectory p : StateM World _) := by
  intro w
  simp only [Host.makeDirectory, StateT.run, modifyGet, MonadStateOf.modifyGet, StateT.modifyGet]
  cases hmake : w.files.makeDirectory p with
  | error cause => exact ⟨.refl _, rfl⟩
  | ok files => exact ⟨FileTree.sameFiles_of_makeDirectory hmake, rfl⟩

theorem makesDirectories_makeWithParents (paths : List Path) :
    MakesDirectories (Host.makeWithParents paths : StateM World _) :=
  makeWithParents_induction (fun _ => makesDirectories_of_same fun _ => rfl)
    MakesDirectories.bind (fun _ => makesDirectories_of_same fun _ => rfl)
    makesDirectories_makeDirectory paths

/-- The directory for charts is made without touching a file. -/
theorem sameFiles_makeOutputDirectory (out : Path) (w : World) :
    w.SameFiles (outcome (makeOutputDirectory out) w).2 := by
  have hmake : w.SameFiles (outcome (ExceptT.lift (Host.makeDirectories out)) w).2 :=
    makesDirectories_makeWithParents (out :: out.parents) w
  rcases hx : outcome (ExceptT.lift (Host.makeDirectories out)) w with ⟨e | result, w₁⟩
  · rw [makeOutputDirectory, outcome_bind_of_error hx]
    rwa [hx] at hmake
  · rw [makeOutputDirectory, outcome_bind_of_ok hx, outcome_ofExcept]
    rwa [hx] at hmake

theorem silent_makeOutputDirectory (out : Path) :
    Silent (makeOutputDirectory out : Attempt (StateM World) Unit) :=
  fun w => (sameFiles_makeOutputDirectory out w).printed.symm

/-! ### Charts -/

theorem outcome_saveChart (path : Path) (chart : Chart) (w : World) :
    outcome (ExceptT.lift (Host.saveChart path chart)) w =
      match w.files.writeFile path (.chart chart) with
      | .ok files => (.ok (.ok ()), { w with files := files })
      | .error cause => (.ok (.error cause), w) := by
  show (Prod.map Except.ok id (match w.files.writeFile path (.chart chart) with
    | .ok files => (.ok (), { w with files := files })
    | .error cause => (.error cause, w)) : Except Failure (Except FileError Unit) × World) = _
  cases w.files.writeFile path (.chart chart) <;> rfl

/-- All an attempt does but logging is to write a chart to a path; where the path accepts no file it
fails. -/
structure Saves (x : Attempt (StateM World) Unit) (path : Path) (chart : Chart) : Prop where
  saved {w : World} {l : Location} : w.files.Accepts path l →
    ∃ w₁, outcome x w = (.ok (), w₁) ∧
      w₁.files = w.files.put l (.file (.chart chart)) ∧ w₁.printed = w.printed
  refused {w : World} : (∀ l, ¬ w.files.Accepts path l) →
    ∃ e w₁, outcome x w = (.error e, w₁) ∧ w.SameResults w₁

theorem saves_saveChart (v : Verbosity) (path : Path) (chart : Chart) :
    Saves (saveChart v path chart) path chart where
  saved {w l} h := by
    have hwrite : w.files.writeFile path (.chart chart) =
        .ok (w.files.put l (.file (.chart chart))) :=
      FileTree.writeFile_eq_ok_iff.mpr ⟨l, h, rfl⟩
    have hsave : outcome (ExceptT.lift (Host.saveChart path chart)) w =
        (.ok (.ok ()), { w with files := w.files.put l (.file (.chart chart)) }) := by
      simp only [outcome_saveChart, hwrite]
    obtain ⟨w₁, hreport, hw₁⟩ := logsOnly_report (v := v) (.chartWritten path)
      { w with files := w.files.put l (.file (.chart chart)) }
    refine ⟨w₁, ?_, hw₁.files.symm, hw₁.printed.symm⟩
    exact (outcome_bind_of_ok hsave).trans hreport
  refused {w} h := by
    cases hwrite : w.files.writeFile path (.chart chart) with
    | ok files =>
      obtain ⟨l, hl, -⟩ := FileTree.writeFile_eq_ok_iff.mp hwrite
      exact absurd hl (h l)
    | error cause =>
      have hsave : outcome (ExceptT.lift (Host.saveChart path chart)) w =
          (.ok (.error cause), w) := by
        simp only [outcome_saveChart, hwrite]
      exact ⟨.drawing cause, w, outcome_bind_of_ok hsave, rfl, rfl⟩

theorem Saves.during {x : Attempt (StateM World) Unit} (h : Saves x path chart)
    (activity : Activity) : Saves (x.during activity) path chart where
  saved hl := by
    obtain ⟨w₁, hx, hw₁⟩ := h.saved hl
    exact ⟨w₁, by rw [outcome_during, hx], hw₁⟩
  refused hl := by
    obtain ⟨e, w₁, hx, hw₁⟩ := h.refused hl
    exact ⟨.during activity e, w₁, by rw [outcome_during, hx], hw₁⟩

/-- What comes before may leave a mark in the log. -/
theorem LogsOnly.saves_then {x y : Attempt (StateM World) Unit} (hx : LogsOnly x)
    (hy : Saves y path chart) : Saves (x >>= fun _ => y) path chart where
  saved {w l} hl := by
    obtain ⟨w₁, hxw, hfiles, hprinted⟩ := hx w
    rw [hfiles] at hl
    obtain ⟨w₂, hyw, hw₂⟩ := hy.saved hl
    rw [hfiles, hprinted]
    exact ⟨w₂, (outcome_bind_of_ok hxw).trans hyw, hw₂⟩
  refused {w} hl := by
    obtain ⟨w₁, hxw, hw₁⟩ := hx w
    rw [hw₁.files] at hl
    obtain ⟨e, w₂, hyw, hw₂⟩ := hy.refused hl
    exact ⟨e, w₂, (outcome_bind_of_ok hxw).trans hyw, hw₁.trans hw₂⟩

namespace Saves

variable {x : Attempt (StateM World) Unit}

theorem isOk_iff (h : Saves x path chart) (w : World) :
    (outcome x w).1 = .ok () ↔ ∃ l, w.files.Accepts path l := by
  constructor
  · intro hok
    by_contra hnone
    obtain ⟨e, w₁, hx, -⟩ := h.refused (not_exists.mp hnone)
    rw [hx] at hok
    cases hok
  · rintro ⟨l, hl⟩
    obtain ⟨w₁, hx, -⟩ := h.saved hl
    rw [hx]

theorem spec (h : Saves x path chart) (hx : outcome x w = (.ok (), w₁)) :
    ∃ l, w.files.Accepts path l ∧ w₁.files = w.files.put l (.file (.chart chart)) ∧
      w₁.printed = w.printed := by
  obtain ⟨l, hl⟩ := (h.isOk_iff w).mp (congrArg Prod.fst hx)
  obtain ⟨w₂, hx', hw₂⟩ := h.saved hl
  cases hx.symm.trans hx'
  exact ⟨l, hl, hw₂⟩

theorem silent (h : Saves x path chart) : Silent x := by
  intro w
  by_cases hl : ∃ l, w.files.Accepts path l
  · obtain ⟨l, hl⟩ := hl
    obtain ⟨w₁, hx, -, hprinted⟩ := h.saved hl
    rw [hx]
    exact hprinted
  · obtain ⟨e, w₁, hx, hw₁⟩ := h.refused (not_exists.mp hl)
    rw [hx]
    exact hw₁.printed.symm

theorem sameDirectories (h : Saves x path chart) (hx : outcome x w = (.ok (), w₁)) :
    w.files.SameDirectories w₁.files := by
  obtain ⟨l, hl, hfiles, -⟩ := h.spec hx
  rw [hfiles]
  exact hl.sameDirectories_put _

/-- A row of charts can be written if each of them can. -/
theorem forM_isOk_iff {draw : α → Attempt (StateM World) Unit} {path : α → Path}
    {chart : α → Chart} (h : ∀ a, Saves (draw a) (path a) (chart a)) (as : List α) (w : World) :
    (outcome (as.forM draw) w).1 = .ok () ↔ ∀ a ∈ as, ∃ l, w.files.Accepts (path a) l := by
  induction as generalizing w with
  | nil => exact iff_of_true rfl nofun
  | cons a as ih =>
    have hcons : (a :: as).forM draw = draw a >>= fun _ => as.forM draw := rfl
    rw [hcons, List.forall_mem_cons, ← (h a).isOk_iff]
    rcases hx : outcome (draw a) w with ⟨_ | _, w₁⟩
    · rw [outcome_bind_of_error hx]
      simp
    · -- The directories are the same after the first chart, so the other charts fit as before.
      have hsame := (h a).sameDirectories hx
      rw [outcome_bind_of_ok hx, ih]
      simp only [true_and, hsame.accepts_iff]

theorem lookup_eq (h : Saves x path chart) (hx : outcome x w = (.ok (), w₁)) {l : Location}
    (hne : w.files.locate path ≠ .ok l) : w₁.files.lookup l = w.files.lookup l := by
  obtain ⟨l', hl', hfiles, -⟩ := h.spec hx
  rw [hfiles]
  apply FileTree.lookup_put_of_ne
  rintro rfl
  exact hne hl'.1

theorem exists_find (h : Saves x path chart) (hx : outcome x w = (.ok (), w₁)) :
    ∃ l, w₁.files.find path = .ok (l, .file (.chart chart)) := by
  obtain ⟨l, hl, hfiles, -⟩ := h.spec hx
  rw [hfiles]
  exact ⟨l, hl.find_put _⟩

/-- A row of charts leaves everything as it is where none of them is written, and each of them
where its path leads, if no two of these paths lead to the same place. -/
theorem forM_spec {draw : α → Attempt (StateM World) Unit} {path : α → Path} {chart : α → Chart}
    (h : ∀ a, Saves (draw a) (path a) (chart a)) {as : List α}
    (hx : outcome (as.forM draw) w = (.ok (), w₁))
    (hapart : as.Pairwise fun a b => w.files.Apart (path a) (path b)) :
    w.files.SameDirectories w₁.files ∧
      (∀ l, (∀ a ∈ as, w.files.locate (path a) ≠ .ok l) →
        w₁.files.lookup l = w.files.lookup l) ∧
      ∀ a ∈ as, ∃ l, w₁.files.find (path a) = .ok (l, .file (.chart (chart a))) := by
  induction as generalizing w with
  | nil =>
    cases hx
    exact ⟨.refl _, fun _ _ => rfl, nofun⟩
  | cons a as ih =>
    have hcons : (a :: as).forM draw = draw a >>= fun _ => as.forM draw := rfl
    rw [hcons, outcome_bind_eq_ok_iff] at hx
    obtain ⟨_, w', ha, hrest⟩ := hx
    obtain ⟨hhead, htail⟩ := List.pairwise_cons.mp hapart
    -- The first chart makes no directory, so the other paths lead where they led before.
    have hsame := (h a).sameDirectories ha
    have htail' : as.Pairwise fun a b => w'.files.Apart (path a) (path b) :=
      htail.imp fun {_ _} => hsame.apart_iff.mp
    obtain ⟨hsame', hlookup, hfound⟩ := ih hrest htail'
    refine ⟨hsame.trans hsame', ?_, ?_⟩
    · intro l hl
      obtain ⟨hla, hlas⟩ := List.forall_mem_cons.mp hl
      simp only [ne_eq, hsame.locate_eq_ok_iff] at hlas
      rw [hlookup l hlas, (h a).lookup_eq ha hla]
    · rw [List.forall_mem_cons]
      refine ⟨?_, hfound⟩
      obtain ⟨l, hfind⟩ := (h a).exists_find ha
      obtain ⟨hlocate, -⟩ := FileTree.find_eq_ok_iff.mp hfind
      refine ⟨l, (hsame'.find_eq hlocate (hlookup l ?_)).trans hfind⟩
      intro b hb hlocate'
      rw [← hsame.locate_eq_ok_iff] at hlocate hlocate'
      exact hhead b hb l hlocate hlocate'

end Saves

end DramTiming
