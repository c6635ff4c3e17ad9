import DramTiming.Session.Run

/-!
# Two runs that report different things

`Agreement v v' bad x y` compares an attempt `x` at one verbosity with the same attempt `y` at
another one, from worlds that differ in their logs at most.  They come to the same, unless only the
second one reports loaded tables and `bad` holds of the world they start from: then the second one
fails because counts overflow, and the first one does not.

The rules follow the way attempts are put together.  `bad` is what the parts come to
(`Agreement.bind`, `Agreement.mapM`).
-/

namespace DramTiming

variable {α β : Type}

/-! ### Outcomes -/

/-- The worlds hold the same files and printed lines; what was reported may differ. -/
structure World.SameResults (w w' : World) : Prop where
  files : w.files = w'.files
  printed : w.printed = w'.printed

theorem World.SameResults.symm {w w' : World} (h : w.SameResults w') : w'.SameResults w :=
  ⟨h.files.symm, h.printed.symm⟩

theorem World.SameResults.trans {w w' w'' : World} (h : w.SameResults w')
    (h' : w'.SameResults w'') : w.SameResults w'' :=
  ⟨h.files.trans h'.files, h.printed.trans h'.printed⟩

/-- Two runs end in the same way, and leave the same files and printed lines. -/
structure SameOutcome (a b : α × World) : Prop where
  result : a.1 = b.1
  world : a.2.SameResults b.2

theorem SameOutcome.symm {a b : α × World} (h : SameOutcome a b) : SameOutcome b a :=
  ⟨h.result.symm, h.world.symm⟩

theorem SameOutcome.trans {a b c : α × World} (h : SameOutcome a b) (h' : SameOutcome b c) :
    SameOutcome a c :=
  ⟨h.result.trans h'.result, h.world.trans h'.world⟩

/-- What an attempt comes to in a world. -/
def outcome (x : Attempt (StateM World) α) (w : World) : Except Failure α × World :=
  (ExceptT.run x).run w

theorem outcome_pure (a : α) (w : World) : outcome (pure a) w = (.ok a, w) := rfl

theorem outcome_bind (x : Attempt (StateM World) α) (f : α → Attempt (StateM World) β)
    (w : World) :
    outcome (x >>= f) w =
      match outcome x w with
      | (.ok a, w₁) => outcome (f a) w₁
      | (.error e, w₁) => (.error e, w₁) := by
  have hrun : StateT.run (ExceptT.run x) w = outcome x w := rfl
  rw [outcome, ExceptT.run_bind, StateT.run_bind, hrun]
  rcases outcome x w with ⟨_ | _, _⟩ <;> rfl

theorem outcome_during (activity : Activity) (x : Attempt (StateM World) α) (w : World) :
    outcome (x.during activity) w =
      match outcome x w with
      | (.ok a, w₁) => (.ok a, w₁)
      | (.error e, w₁) => (.error (.during activity e), w₁) := by
  have hrun : StateT.run (ExceptT.run x) w = outcome x w := rfl
  rw [outcome, Attempt.during, ExceptT.run_tryCatch, StateT.run_bind, hrun]
  rcases outcome x w with ⟨_ | _, _⟩ <;> rfl

/-! ### Agreement -/

/-- The attempts come to the same, unless only the second one reports loaded tables and `bad`
holds: then it fails because counts overflow, and the first one does not. -/
structure Agreement (v v' : Verbosity) (bad : World → Prop) (x y : Attempt (StateM World) α) :
    Prop where
  same {w w'} : w.SameResults w' →
    ¬ (v.reports .tableLoaded = false ∧ v'.reports .tableLoaded = true ∧ bad w) →
    SameOutcome (outcome x w) (outcome y w')
  overflow {w w'} : w.SameResults w' → v.reports .tableLoaded = false →
    v'.reports .tableLoaded = true → bad w → (outcome y w').1 = .error .countOverflow
  quiet : v.reports .tableLoaded = false → ∀ w, (outcome x w).1 ≠ .error .countOverflow

/-- The attempts come to the same in any case. -/
abbrev Agree (v v' : Verbosity) (x y : Attempt (StateM World) α) : Prop :=
  Agreement v v' (fun _ => False) x y

variable {v v' : Verbosity} {bad bad' : World → Prop} {x y : Attempt (StateM World) α}

theorem Agreement.congr (h : Agreement v v' bad x y) (hbad : ∀ w, bad' w ↔ bad w) :
    Agreement v v' bad' x y := by
  obtain rfl : bad' = bad := funext fun w => propext (hbad w)
  exact h

theorem Agree.of_same
    (hsame : ∀ {w w' : World}, w.SameResults w' → SameOutcome (outcome x w) (outcome y w'))
    (hquiet : ∀ w, (outcome x w).1 ≠ .error .countOverflow) : Agree v v' x y where
  same hw _ := hsame hw
  overflow _ _ _ hbad := hbad.elim
  quiet _ := hquiet

theorem Agree.pure (a : α) : Agree v v' (pure a) (pure a) :=
  .of_same (fun hw => ⟨rfl, hw⟩) fun _ h => by cases h

theorem Agree.throw {e : Failure} (he : e ≠ .countOverflow) :
    Agree v v' (throw e : Attempt (StateM World) α) (throw e) :=
  .of_same (fun hw => ⟨rfl, hw⟩) fun _ h => he (Except.error.inj h)

/-- What a host does can be lifted, if it does not look at the log. -/
theorem Agree.lift {x : StateM World α}
    (hx : ∀ {w w' : World}, w.SameResults w' → SameOutcome (x.run w) (x.run w')) :
    Agree v v' (ExceptT.lift x) (ExceptT.lift x) :=
  .of_same (fun hw => ⟨congrArg Except.ok (hx hw).result, (hx hw).world⟩) fun w h => by cases h

/-- One attempt after another: `bad` holds of the first, or `q` of the second where that began. -/
theorem Agreement.bind {f g : α → Attempt (StateM World) β} {q : α → World → Prop}
    (hxy : Agreement v v' bad x y) (hfg : ∀ a, Agreement v v' (q a) (f a) (g a))
    (hbad : ∀ w, bad' w ↔ bad w ∨ ∃ a w₁, outcome x w = (.ok a, w₁) ∧ q a w₁) :
    Agreement v v' bad' (x >>= f) (y >>= g) where
  same {w w'} hw hgood := by
    have hsame := hxy.same hw fun ⟨hv, hv', hx⟩ => hgood ⟨hv, hv', (hbad w).mpr (.inl hx)⟩
    rw [outcome_bind, outcome_bind]
    rcases hx : outcome x w with ⟨r, w₁⟩
    rcases hy : outcome y w' with ⟨r', w₁'⟩
    rw [hx, hy] at hsame
    obtain ⟨rfl, hw₁⟩ := hsame
    cases r with
    | error e => exact ⟨rfl, hw₁⟩
    | ok a =>
      refine (hfg a).same hw₁ fun ⟨hv, hv', hf⟩ => hgood ⟨hv, hv', ?_⟩
      exact (hbad w).mpr (.inr ⟨a, w₁, hx, hf⟩)
  overflow {w w'} hw hv hv' hbadw := by
    rw [outcome_bind]
    by_cases hx : bad w
    · have herror := hxy.overflow hw hv hv' hx
      rcases hy : outcome y w' with ⟨r', w₁'⟩
      rw [hy] at herror
      cases herror
      rfl
    · -- The first attempts come to the same, so the second ones set out from the same results.
      obtain ⟨a, w₁, hxw, hnext⟩ := ((hbad w).mp hbadw).resolve_left hx
      have hsame := hxy.same hw fun h => hx h.2.2
      rcases hy : outcome y w' with ⟨r', w₁'⟩
      rw [hxw, hy] at hsame
      obtain ⟨rfl, hw₁⟩ := hsame
      exact (hfg a).overflow hw₁ hv hv' hnext
  quiet hv w := by
    rw [outcome_bind]
    rcases hx : outcome x w with ⟨r, w₁⟩
    cases r with
    | ok a => exact (hfg a).quiet hv w₁
    | error e =>
      intro h
      have hne := hxy.quiet hv w
      rw [hx] at hne
      exact hne (congrArg Except.error (Except.error.inj h))

/-- What follows may not be bad. -/
theorem Agreement.then {f g : α → Attempt (StateM World) β} (hxy : Agreement v v' bad x y)
    (hfg : ∀ a, Agree v v' (f a) (g a)) : Agreement v v' bad (x >>= f) (y >>= g) :=
  hxy.bind hfg fun w => by simp

theorem Agreement.during (h : Agree v v' x y) (activity : Activity) :
    Agree v v' (x.during activity) (y.during activity) := by
  refine .of_same (fun {w w'} hw => ?_) fun w h => ?_
  · have hsame := h.same hw fun hbad => hbad.2.2
    rw [outcome_during, outcome_during]
    rcases hx : outcome x w with ⟨r, w₁⟩
    rcases hy : outcome y w' with ⟨r', w₁'⟩
    rw [hx, hy] at hsame
    obtain ⟨rfl, hw₁⟩ := hsame
    cases r with
    | ok a => exact ⟨rfl, hw₁⟩
    | error e => exact ⟨rfl, hw₁⟩
  · rw [outcome_during] at h
    rcases hx : outcome x w with ⟨r, w₁⟩
    rw [hx] at h
    cases r <;> cases h

/-- Some elements are gone through, and then one comes for which `bad` holds. -/
def ComesTo (f : α → Attempt (StateM World) β) (bad : α → World → Prop) (xs : List α)
    (w : World) : Prop :=
  ∃ before a after ys w₁, xs = before ++ a :: after ∧
    outcome (before.mapM f) w = (.ok ys, w₁) ∧ bad a w₁

theorem not_comesTo_nil {f : α → Attempt (StateM World) β} {bad : α → World → Prop} {w : World} :
    ¬ ComesTo f bad [] w := by
  rintro ⟨before, a, after, _, _, h, -⟩
  cases before <;> cases h

theorem comesTo_cons_iff {f : α → Attempt (StateM World) β} {bad : α → World → Prop} {a : α}
    {xs : List α} {w : World} :
    ComesTo f bad (a :: xs) w ↔
      bad a w ∨ ∃ b w₁, outcome (f a) w = (.ok b, w₁) ∧ ComesTo f bad xs w₁ := by
  constructor
  · rintro ⟨before, a', after, ys, w₂, heq, hbefore, hbad⟩
    cases before with
    | nil =>
      cases heq
      cases hbefore
      exact .inl hbad
    | cons first before =>
      -- The first element is gone through, and so are all those before the one in question.
      cases heq
      rw [List.mapM_cons, outcome_bind] at hbefore
      rcases hfirst : outcome (f a) w with ⟨r, w₁⟩
      rw [hfirst] at hbefore
      cases r with
      | error e => cases hbefore
      | ok b =>
        dsimp only at hbefore
        rw [outcome_bind] at hbefore
        rcases hrest : outcome (before.mapM f) w₁ with ⟨r, w₂'⟩
        rw [hrest] at hbefore
        cases r with
        | error e => cases hbefore
        | ok bs =>
          cases hbefore
          exact .inr ⟨b, w₁, rfl, before, a', after, bs, w₂, rfl, hrest, hbad⟩
  · rintro (hbad | ⟨b, w₁, hfirst, before, a', after, ys, w₂, rfl, hbefore, hbad⟩)
    · exact ⟨[], a, xs, [], w, rfl, rfl, hbad⟩
    · refine ⟨a :: before, a', after, b :: ys, w₂, rfl, ?_, hbad⟩
      rw [List.mapM_cons, outcome_bind, hfirst]
      dsimp only
      rw [outcome_bind, hbefore]
      rfl

/-- A row of attempts: `bad` holds where they come to one for which it does. -/
theorem Agreement.mapM {f g : α → Attempt (StateM World) β} {bad : α → World → Prop}
    (h : ∀ a, Agreement v v' (bad a) (f a) (g a)) (xs : List α) :
    Agreement v v' (ComesTo f bad xs) (xs.mapM f) (xs.mapM g) := by
  induction xs with
  | nil =>
    rw [List.mapM_nil, List.mapM_nil]
    exact (Agree.pure _).congr fun w => iff_false_intro not_comesTo_nil
  | cons a xs ih =>
    rw [List.mapM_cons, List.mapM_cons]
    exact (h a).bind (fun b => ih.then fun bs => Agree.pure _) fun w => comesTo_cons_iff

theorem Agree.forM {f g : α → Attempt (StateM World) PUnit} (h : ∀ a, Agree v v' (f a) (g a))
    (xs : List α) : Agree v v' (xs.forM f) (xs.forM g) := by
  induction xs with
  | nil => exact Agree.pure _
  | cons a xs ih => exact (h a).then fun _ => ih

end DramTiming
