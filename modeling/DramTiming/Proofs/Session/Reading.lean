import Mathlib.Data.List.Forall2
import DramTiming.Proofs.Session.Verbosity

/-!
# Attempts that only read

`Reads x f` says that an attempt `x` changes nothing but the log, and comes to what `f` makes of the
files.  The rules follow the way attempts are put together; what a row of such attempts comes to is
the traversal of what each of them comes to (`Reads.mapM`).
-/

namespace DramTiming

variable {α β : Type} {v : Verbosity} {w w₁ : World}

/-! ### Outcomes of two steps -/

section

variable {x : Attempt (StateM World) α} {f : α → Attempt (StateM World) β}

theorem outcome_bind_of_ok {a : α} (h : outcome x w = (.ok a, w₁)) :
    outcome (x >>= f) w = outcome (f a) w₁ := by
  rw [outcome_bind, h]

theorem outcome_bind_of_error {e : Failure} (h : outcome x w = (.error e, w₁)) :
    outcome (x >>= f) w = (.error e, w₁) := by
  rw [outcome_bind, h]

theorem outcome_bind_eq_ok_iff {b : β} {w₂ : World} :
    outcome (x >>= f) w = (.ok b, w₂) ↔
      ∃ a w₁, outcome x w = (.ok a, w₁) ∧ outcome (f a) w₁ = (.ok b, w₂) := by
  rw [outcome_bind]
  rcases outcome x w with ⟨_ | a, w₁⟩
  · simp
  · simp

end

/-! ### Printing -/

/-- A row of lines is printed in order. -/
theorem outcome_forM_print (line : α → String) (as : List α) (w : World) :
    outcome (as.forM fun a => Attempt.print (line a)) w =
      (.ok (), { w with printed := w.printed ++ (as.map line).toArray }) := by
  induction as generalizing w with
  | nil => simp [List.forM, outcome_pure]
  | cons a as ih =>
    have hprint : outcome (Attempt.print (line a)) w =
      (.ok (), { w with printed := w.printed.push (line a) }) := rfl
    have hcons : (a :: as).forM (fun a => Attempt.print (m := StateM World) (line a)) =
      Attempt.print (line a) >>= fun _ => as.forM fun a => Attempt.print (line a) := rfl
    rw [hcons, outcome_bind_of_ok hprint, ih]
    simp

/-! ### Reading -/

/-- An attempt changes nothing but the log, and comes to what `f` makes of the files. -/
def Reads (x : Attempt (StateM World) α) (f : FileTree → Except Failure α) : Prop :=
  ∀ w, ∃ w₁, outcome x w = (f w.files, w₁) ∧ w.SameResults w₁

namespace Reads

variable {x : Attempt (StateM World) α} {f g : FileTree → Except Failure α}

theorem result_eq (h : Reads x f) (w : World) : (outcome x w).1 = f w.files := by
  obtain ⟨w₁, hx, -⟩ := h w
  rw [hx]

theorem spec (h : Reads x f) {r : Except Failure α} (hx : outcome x w = (r, w₁)) :
    f w.files = r ∧ w.SameResults w₁ := by
  obtain ⟨w₂, hx', hw₂⟩ := h w
  rw [hx] at hx'
  obtain ⟨rfl, rfl⟩ := Prod.mk.inj hx'
  exact ⟨rfl, hw₂⟩

theorem exists_outcome (h : Reads x f) {r : Except Failure α} (hf : f w.files = r) :
    ∃ w₁, outcome x w = (r, w₁) ∧ w.SameResults w₁ :=
  hf ▸ h w

theorem congr (h : Reads x f) (hfg : ∀ files, f files = g files) : Reads x g := by
  obtain rfl : f = g := funext hfg
  exact h

protected theorem pure (a : α) : Reads (pure a) fun _ => pure a := fun w => ⟨w, rfl, rfl, rfl⟩

protected theorem throw (e : Failure) : Reads (throw e : Attempt (StateM World) α) fun _ => throw e :=
  fun w => ⟨w, rfl, rfl, rfl⟩

theorem bind {y : α → Attempt (StateM World) β} {g : α → FileTree → Except Failure β}
    (hx : Reads x f) (hy : ∀ a, Reads (y a) (g a)) :
    Reads (x >>= y) fun files => f files >>= fun a => g a files := by
  intro w
  obtain ⟨w₁, hxw, hw₁⟩ := hx w
  show ∃ w₂, outcome (x >>= y) w = ((f w.files).bind fun a => g a w.files, w₂) ∧ _
  rw [outcome_bind, hxw]
  cases f w.files with
  | error e => exact ⟨w₁, rfl, hw₁⟩
  | ok a =>
    obtain ⟨w₂, hyw, hw₂⟩ := hy a w₁
    rw [← hw₁.files] at hyw
    exact ⟨w₂, hyw, hw₁.trans hw₂⟩

theorem during (hx : Reads x f) (activity : Activity) :
    Reads (x.during activity) fun files => (f files).mapError (.during activity) := by
  intro w
  obtain ⟨w₁, hxw, hw₁⟩ := hx w
  show ∃ w₂, outcome (x.during activity) w = ((f w.files).mapError (.during activity), w₂) ∧ _
  rw [outcome_during, hxw]
  cases f w.files with
  | error e => exact ⟨w₁, rfl, hw₁⟩
  | ok a => exact ⟨w₁, rfl, hw₁⟩

theorem mapM {x : α → Attempt (StateM World) β} {f : α → FileTree → Except Failure β}
    (h : ∀ a, Reads (x a) (f a)) (as : List α) :
    Reads (as.mapM x) fun files => as.mapM fun a => f a files := by
  induction as with
  | nil =>
    simp only [List.mapM_nil]
    exact Reads.pure []
  | cons a as ih =>
    simp only [List.mapM_cons]
    exact (h a).bind fun b => ih.bind fun bs => Reads.pure (b :: bs)

end Reads

/-- What comes before may leave a mark in the log. -/
theorem LogsOnly.reads_then {x : Attempt (StateM World) Unit} {y : Attempt (StateM World) α}
    {f : FileTree → Except Failure α} (hx : LogsOnly x) (hy : Reads y f) :
    Reads (x >>= fun _ => y) f := by
  intro w
  obtain ⟨w₁, hxw, hw₁⟩ := hx w
  obtain ⟨w₂, hyw, hw₂⟩ := hy w₁
  refine ⟨w₂, ?_, hw₁.trans hw₂⟩
  rw [outcome_bind_of_ok hxw, hw₁.files]
  exact hyw

theorem reads_ofExcept {ε : Type} (result : Except ε α) (failure : ε → Failure) :
    Reads (Attempt.ofExcept result failure) fun _ => result.mapError failure :=
  fun w => ⟨w, outcome_ofExcept result failure w, rfl, rfl⟩

theorem reads_readFile (p : Path) :
    Reads (ExceptT.lift (Host.readFile p)) fun files => pure (files.readFile p) :=
  fun w => ⟨w, rfl, rfl, rfl⟩

/-! ### Measurement files -/

/-- The table that a run makes of a measurement file among these files. -/
def Dataset.loadedIn (v : Verbosity) (d : Dataset) (files : FileTree) : Except Failure Table :=
  ((d.toTable (files.readFile d.path)).mapError .table).bind fun table =>
    if table.BreaksOff v then .error .countOverflow else .ok table

theorem Dataset.exists_of_toTable {d : Dataset} {contents : Except FileError (List UInt8)}
    {table : Table} (h : d.toTable contents = .ok table) :
    ∃ bytes rows, contents = .ok bytes ∧ rowsOfBytes bytes = .ok rows ∧
      table = ⟨d.labelOf, d.path, rows⟩ := by
  cases contents with
  | error cause => cases cause <;> cases h
  | ok bytes =>
    rw [toTable] at h
    cases hrows : rowsOfBytes bytes with
    | error fault =>
      rw [hrows] at h
      cases h
    | ok rows =>
      rw [hrows] at h
      exact ⟨bytes, rows, rfl, hrows, (Except.ok.inj h).symm⟩

theorem Dataset.loadedIn_of_error {d : Dataset} {files : FileTree} {e : TableError}
    (h : d.toTable (files.readFile d.path) = .error e) :
    d.loadedIn v files = .error (.table e) := by
  rw [loadedIn, h]
  rfl

theorem Dataset.loadedIn_of_ok {d : Dataset} {files : FileTree} {table : Table}
    (h : d.toTable (files.readFile d.path) = .ok table) :
    d.loadedIn v files = if table.BreaksOff v then .error .countOverflow else .ok table := by
  rw [loadedIn, h]
  rfl

theorem Dataset.loadedIn_eq_ok_iff {d : Dataset} {files : FileTree} {table : Table} :
    d.loadedIn v files = .ok table ↔
      d.toTable (files.readFile d.path) = .ok table ∧ ¬ table.BreaksOff v := by
  cases htable : d.toTable (files.readFile d.path) with
  | error cause => simp [loadedIn_of_error htable]
  | ok table' =>
    rw [loadedIn_of_ok htable]
    constructor
    · intro h
      split at h
      · cases h
      · next hcount =>
        cases h
        exact ⟨rfl, hcount⟩
    · rintro ⟨⟨⟩, hcount⟩
      rw [if_neg hcount]

/-- Loading a measurement file can fail in this way. -/
inductive Failure.OfLoading : Failure → Prop where
  | table (cause : TableError) : OfLoading (.table cause)
  | countOverflow : OfLoading .countOverflow

theorem Dataset.ofLoading_of_loadedIn {d : Dataset} {files : FileTree} {e : Failure}
    (h : d.loadedIn v files = .error e) : e.OfLoading := by
  cases htable : d.toTable (files.readFile d.path) with
  | error cause =>
    rw [loadedIn_of_error htable] at h
    cases h
    exact .table cause
  | ok table =>
    rw [loadedIn_of_ok htable] at h
    split at h
    · cases h
      exact .countOverflow
    · cases h

/-- The correlation that a run makes of a measurement file among these files. -/
def Dataset.correlationIn (v : Verbosity) (d : Dataset) (files : FileTree) :
    Except Failure Correlation :=
  (d.loadedIn v files).bind fun table =>
    (table.correlation.mapError .correlation).mapError (.during (.correlating d.path))

theorem Dataset.correlationIn_eq_ok_iff {d : Dataset} {files : FileTree} {c : Correlation} :
    d.correlationIn v files = .ok c ↔
      ∃ table, d.loadedIn v files = .ok table ∧ table.correlation = .ok c := by
  unfold correlationIn
  cases d.loadedIn v files with
  | error e => simp [Except.bind]
  | ok table =>
    simp only [Except.bind, Except.ok.injEq, exists_eq_left']
    cases table.correlation <;> simp [Except.mapError]

theorem reads_reportLoaded (table : Table) :
    Reads (do reportLoaded v table; return table) fun _ =>
      if table.BreaksOff v then .error .countOverflow else .ok table := by
  split
  · next h =>
    rw [reportLoaded_eq_throw h]
    exact Reads.throw _
  · next h => exact (logsOnly_reportLoaded h).reads_then (Reads.pure table)

theorem reads_loadTable (d : Dataset) : Reads (loadTable v d) (d.loadedIn v) :=
  ((reads_readFile d.path).bind fun contents =>
    (reads_ofExcept (d.toTable contents) .table).bind fun table =>
      reads_reportLoaded table).congr fun _ => rfl

theorem reads_correlateOne (d : Dataset) : Reads (correlateOne v d) (d.correlationIn v) := by
  apply (reads_loadTable d).bind
  intro table
  dsimp only
  rw [ite_bind_eq]
  apply (logsOnly_ite (logsOnly_reportCoefficients table)).reads_then
  have hcorrelation := (reads_ofExcept table.correlation .correlation).during (.correlating d.path)
  refine (hcorrelation.bind fun c =>
    (logsOnly_report (.correlated table.source c)).reads_then (Reads.pure c)).congr fun _ => ?_
  exact bind_pure _

/-! ### Traversals -/

/-- A traversal succeeds if all of its steps do. -/
theorem mapM_eq_ok_iff {f : α → Except Failure β} {as : List α} {bs : List β} :
    as.mapM f = .ok bs ↔ List.Forall₂ (fun a b => f a = .ok b) as bs := by
  induction as generalizing bs with
  | nil => cases bs <;> simp [pure, Except.pure]
  | cons a as ih =>
    rw [List.mapM_cons]
    cases ha : f a with
    | error e => cases bs <;> simp [Bind.bind, Except.bind, ha]
    | ok b =>
      cases has : as.mapM f with
      | error e => cases bs <;> simp [Bind.bind, Except.bind, ha, has, ← ih]
      | ok bs' => cases bs <;> simp [Bind.bind, Except.bind, pure, Except.pure, ha, has, ← ih]

/-- A traversal fails as its first failing step does. -/
theorem mapM_append_cons_eq_error {f : α → Except Failure β} {before : List α} {a : α}
    (after : List α) {e : Failure} (hbefore : ∀ b ∈ before, ∃ c, f b = .ok c) (ha : f a = .error e) :
    (before ++ a :: after).mapM f = .error e := by
  induction before with
  | nil => simp [Bind.bind, Except.bind, ha]
  | cons b before ih =>
    obtain ⟨⟨c, hb⟩, hrest⟩ := List.forall_mem_cons.mp hbefore
    simp [List.mapM_cons, ih hrest, hb, Bind.bind, Except.bind]

end DramTiming
