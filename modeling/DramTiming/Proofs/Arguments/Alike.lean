import DramTiming.Arguments.Reader

/-!
# Readings that are alike

Two states of reading a scope are *alike* if they come to the same findings, verbosity apart, and
treat every argument the same.  Each argument keeps them so (`Reading.Alike.argument`), and so do
all that are left of a command line (`Reading.Alike.readProgram`).
-/

namespace DramTiming.Arguments

/-! ### Two outcomes -/

/-- Both outcomes are the same refusal, or both are results that are related. -/
inductive Both (R : α → β → Prop) : Except Refusal α → Except Refusal β → Prop
  | refused (e : Refusal) : Both R (.error e) (.error e)
  | ok {a b} : R a b → Both R (.ok a) (.ok b)

theorem Both.bind {R : α → β → Prop} {S : γ → δ → Prop} {x : Except Refusal α}
    {y : Except Refusal β} {f : α → Except Refusal γ} {g : β → Except Refusal δ}
    (h : Both R x y) (hf : ∀ a b, R a b → Both S (f a) (g b)) : Both S (x >>= f) (y >>= g) := by
  cases h with
  | refused e => exact .refused e
  | ok hab => exact hf _ _ hab

theorem Both.refl {R : α → α → Prop} (hR : ∀ a, R a a) (x : Except Refusal α) : Both R x x := by
  cases x with
  | error e => exact .refused e
  | ok a => exact .ok (hR a)

theorem Both.exists_ok {R : α → β → Prop} {a : α} {y : Except Refusal β} (h : Both R (.ok a) y) :
    ∃ b, y = .ok b := by
  cases h with
  | ok => exact ⟨_, rfl⟩

/-! ### Verbosity apart -/

/-- The findings without the verbosity. -/
def Found.silent (f : Found) : Found := { f with verbosity := .none }

/-- The findings agree, verbosity apart; it is counted in the second ones if it is in the first. -/
structure Found.Alike (f g : Found) : Prop where
  silent : f.silent = g.silent
  counted : f.verbosity.isSome → g.verbosity.isSome

theorem Found.Alike.refl (f : Found) : f.Alike f := ⟨rfl, id⟩

theorem Found.Alike.trans {f g k : Found} (h : f.Alike g) (h' : g.Alike k) : f.Alike k :=
  ⟨h.silent.trans h'.silent, fun hf => h'.counted (h.counted hf)⟩

theorem Found.Alike.exists_eq {f g : Found} (h : f.Alike g) :
    ∃ count, g = { f with verbosity := count } ∧ (f.verbosity.isSome → count.isSome) := by
  refine ⟨g.verbosity, ?_, h.counted⟩
  show { g.silent with verbosity := g.verbosity } = { f.silent with verbosity := g.verbosity }
  rw [h.silent]

/-- No value of an option depends on the verbosity. -/
theorem Found.Alike.take {f g : Found} (h : f.Alike g) (option : Opt) (text : String) :
    Both Found.Alike (f.take option text) (g.take option text) := by
  obtain ⟨count, rfl, hcounted⟩ := h.exists_eq
  have hset {α : Type} {x : Except Refusal α} {a b : α → Found} (hab : ∀ v, (a v).Alike (b v)) :
      Both Found.Alike (x >>= fun v => pure (a v)) (x >>= fun v => pure (b v)) := by
    apply Both.bind (Both.refl (R := Eq) (fun _ => rfl) x)
    rintro v _ rfl
    exact .ok (hab v)
  cases option
  all_goals first
    | exact hset fun _ => ⟨rfl, hcounted⟩
    | exact .ok ⟨rfl, hcounted⟩

theorem Found.Alike.flag {f g : Found} (h : f.Alike g) (option : Opt) :
    Both Found.Alike (f.flag option) (g.flag option) := by
  obtain ⟨count, rfl, hcounted⟩ := h.exists_eq
  cases option
  all_goals first
    | exact .refused _
    | exact .ok ⟨rfl, hcounted⟩
    | exact .ok ⟨rfl, fun _ => rfl⟩

theorem Found.Alike.dataset {f g : Found} (h : f.Alike g) (text : String) :
    Both Found.Alike (f.dataset text) (g.dataset text) := by
  obtain ⟨count, rfl, hcounted⟩ := h.exists_eq
  apply Both.bind (Both.refl (R := Eq) (fun _ => rfl) (readPath text))
  rintro path _ rfl
  exact .ok ⟨rfl, hcounted⟩

namespace Reading

/-! ### States that are alike -/

/-- The states agree, verbosity apart. -/
structure Same (r s : Reading) : Prop where
  found : r.found.Alike s.found
  waiting : r.waiting = s.waiting
  optionsOver : r.optionsOver = s.optionsOver

/-- Whether paths of measurement files are waiting. -/
def collects (r : Reading) : Bool :=
  match r.waiting with
  | .datasets _ => true
  | _ => false

/-- The states come to the same, verbosity apart, and treat arguments the same.  Paths can wait in
one of them only if nothing faulty does: a fault among them shows later than another one would. -/
structure Alike (r s : Reading) : Prop where
  optionsOver : r.optionsOver = s.optionsOver
  settle : Both Same r.settle s.settle
  lacking : r.lacksValue ∨ s.lacksValue → r.Same s
  collecting : r.collects = s.collects ∨ ∃ t, r.settle = .ok t

theorem Same.settle {r s : Reading} (h : r.Same s) : Both Same r.settle s.settle := by
  obtain ⟨found, waiting, ended⟩ := r
  obtain ⟨found', waiting', ended'⟩ := s
  obtain ⟨hfound, rfl, rfl⟩ := h
  have hreturn {x y : Except Refusal Found} (hxy : Both Found.Alike x y) :
      Both Same (x >>= fun f => pure ⟨f, .nothing, ended⟩)
        (y >>= fun f => pure ⟨f, .nothing, ended⟩) :=
    hxy.bind fun _ _ hf => .ok ⟨hf, rfl, rfl⟩
  match waiting with
  | .nothing => exact hreturn (.ok hfound)
  | .value _ none => exact .refused _
  | .value option (some text) => exact hreturn (hfound.take option text)
  | .datasets texts =>
    apply hreturn
    induction texts generalizing found found' with
    | nil => exact .ok hfound
    | cons text texts ih =>
      apply (hfound.dataset text).bind
      intro f g hfg
      exact ih f g hfg

theorem Same.alike {r s : Reading} (h : r.Same s) : r.Alike s where
  optionsOver := h.optionsOver
  settle := h.settle
  lacking := fun _ => h
  collecting := .inl (by rw [collects, collects, h.waiting])

theorem waiting_of_settle {r t : Reading} (h : r.settle = .ok t) :
    t.waiting = .nothing ∧ t.optionsOver = r.optionsOver := by
  obtain ⟨found, waiting, ended⟩ := r
  have hreturn {x : Except Refusal Found} (h : (x >>= fun f => pure ⟨f, .nothing, ended⟩) = .ok t) :
      t.waiting = .nothing ∧ t.optionsOver = ended := by
    cases x with
    | error e => cases h
    | ok f => cases h; exact ⟨rfl, rfl⟩
  match waiting with
  | .nothing => exact hreturn h
  | .value _ none => cases h
  | .value _ (some _) => exact hreturn h
  | .datasets _ => exact hreturn h

theorem settle_of_waiting {r : Reading} (h : r.waiting = .nothing) : r.settle = .ok r := by
  obtain ⟨found, waiting, ended⟩ := r
  cases h
  rfl

theorem not_lacksValue_of_settle {r t : Reading} (h : r.settle = .ok t) :
    r.lacksValue = false := by
  obtain ⟨found, waiting, ended⟩ := r
  match waiting with
  | .nothing => rfl
  | .value _ none => cases h
  | .value _ (some _) => rfl
  | .datasets _ => rfl

/-! ### Arguments that are no options -/

/-- Adds a path to the findings. -/
def add (r : Reading) (text : String) : Except Refusal Reading := do
  return { r with found := ← r.found.dataset text }

theorem Same.add {r s : Reading} (h : r.Same s) (text : String) :
    Both Same (r.add text) (s.add text) := by
  apply (h.found.dataset text).bind
  intro f g hfg
  exact .ok ⟨hfg, h.waiting, h.optionsOver⟩

/-- Paths that wait are looked at one after the other. -/
theorem settle_append (found : Found) (texts : List String) (text : String) (ended : Bool) :
    settle ⟨found, .datasets (texts ++ [text]), ended⟩ =
      settle ⟨found, .datasets texts, ended⟩ >>= fun r => r.add text := by
  unfold settle
  dsimp only
  rw [List.foldlM_append]
  cases texts.foldlM Found.dataset found with
  | error e => rfl
  | ok f => cases hf : f.dataset text <;> simp [bind, Except.bind, pure, Except.pure, add, hf]

theorem plain_of_not_collects {scope : Scope} {r : Reading} (hscope : scope.takesDatasets)
    (h : r.collects = false) (text : String) :
    r.plain scope text = r.settle >>= fun s => pure { s with waiting := .datasets [text] } := by
  obtain ⟨found, waiting, ended⟩ := r
  match waiting with
  | .nothing => rw [plain, if_pos hscope]
  | .value _ none => rw [plain, if_pos hscope]
  | .value _ (some _) => rw [plain, if_pos hscope]

theorem settle_single {r : Reading} (h : r.waiting = .nothing) (text : String) :
    settle { r with waiting := .datasets [text] } = r.add text := by
  obtain ⟨found, waiting, ended⟩ := r
  cases h
  unfold settle add
  cases hf : found.dataset text <;> simp [bind, Except.bind, pure, Except.pure, hf]

theorem exists_datasets {r : Reading} (h : r.collects) : ∃ texts, r.waiting = .datasets texts := by
  unfold collects at h
  split at h
  · next texts hwaiting => exact ⟨texts, hwaiting⟩
  · cases h

/-- A path is only kept, unless something faulty other than a path waits. -/
theorem exists_plain {scope : Scope} {r : Reading} (hscope : scope.takesDatasets)
    (h : r.collects ∨ ∃ t, r.settle = .ok t) (text : String) :
    ∃ q, r.plain scope text = .ok q ∧ q.collects ∧ q.optionsOver = r.optionsOver ∧
      q.settle = r.settle >>= fun t => t.add text := by
  by_cases hcollects : r.collects
  · obtain ⟨texts, hwaiting⟩ := exists_datasets hcollects
    obtain ⟨found, waiting, ended⟩ := r
    cases hwaiting
    refine ⟨⟨found, .datasets (texts ++ [text]), ended⟩, ?_, rfl, rfl, settle_append ..⟩
    rw [plain, if_pos hscope]
  · obtain ⟨t, ht⟩ := h.resolve_left hcollects
    obtain ⟨hwaiting, hover⟩ := waiting_of_settle ht
    refine ⟨{ t with waiting := .datasets [text] }, ?_, rfl, hover, ?_⟩
    · rw [plain_of_not_collects hscope (by simpa using hcollects), ht]
      rfl
    · rw [settle_single hwaiting, ht]
      rfl

theorem not_lacksValue_of_collects {r : Reading} (h : r.collects) : r.lacksValue = false := by
  obtain ⟨texts, hwaiting⟩ := exists_datasets h
  rw [lacksValue, hwaiting]

theorem Alike.plain {scope : Scope} {r s : Reading} (h : r.Alike s) (text : String) :
    Both Alike (r.plain scope text) (s.plain scope text) := by
  by_cases hscope : scope.takesDatasets
  · have hsettle := h.settle
    by_cases hkept : r.collects ∨ ∃ t, r.settle = .ok t
    · have hkept' : s.collects ∨ ∃ t, s.settle = .ok t := by
        rcases h.collecting with hcollects | ⟨t, ht⟩
        · rw [← hcollects]
          apply hkept.imp_right
          rintro ⟨t, ht⟩
          rw [ht] at hsettle
          exact hsettle.exists_ok
        · rw [ht] at hsettle
          exact .inr hsettle.exists_ok
      obtain ⟨q, hplain, hcollects, hover, hq⟩ := exists_plain hscope hkept text
      obtain ⟨q', hplain', hcollects', hover', hq'⟩ := exists_plain hscope hkept' text
      rw [hplain, hplain']
      refine .ok ⟨?_, ?_, ?_, .inl (hcollects.trans hcollects'.symm)⟩
      · rw [hover, hover', h.optionsOver]
      · rw [hq, hq']
        exact hsettle.bind fun _ _ hsame => hsame.add text
      · rw [not_lacksValue_of_collects hcollects, not_lacksValue_of_collects hcollects']
        simp
    · -- Something faulty waits in both states, and it is looked at before the path is kept.
      obtain ⟨hcollects, hfaulty⟩ := not_or.mp hkept
      have hcollects' := h.collecting.resolve_right hfaulty
      rw [plain_of_not_collects hscope (by simpa using hcollects),
        plain_of_not_collects hscope (by rw [← hcollects']; simpa using hcollects)]
      apply hsettle.bind
      intro a b hab
      exact .ok (Same.alike ⟨hab.found, rfl, hab.optionsOver⟩)
  · rw [Reading.plain, if_neg hscope, Reading.plain, if_neg hscope, misplaced, misplaced,
      h.optionsOver]
    exact .refused _

/-! ### Options -/

theorem Alike.attached {r s : Reading} (h : r.Alike s) (option : Opt) (text : String) :
    Both Alike (r.attached option text) (s.attached option text) := by
  apply h.settle.bind
  intro a b hab
  apply (hab.found.take option text).bind
  intro f g hfg
  exact .ok (Same.alike ⟨hfg, hab.waiting, hab.optionsOver⟩)

theorem Alike.apart {r s : Reading} (h : r.Alike s) (option : Opt) :
    Both Alike (r.apart option) (s.apart option) := by
  apply h.settle.bind
  intro a b hab
  exact .ok (Same.alike ⟨hab.found, rfl, hab.optionsOver⟩)

theorem Alike.flag {r s : Reading} (h : r.Alike s) (option : Opt) :
    Both Alike (r.flag option) (s.flag option) := by
  apply h.settle.bind
  intro a b hab
  apply (hab.found.flag option).bind
  intro f g hfg
  exact .ok (Same.alike ⟨hfg, hab.waiting, hab.optionsOver⟩)

theorem Alike.long {scope : Scope} {r s : Reading} (h : r.Alike s) (name : String)
    (value : Option String) : Both Alike (r.long scope name value) (s.long scope name value) := by
  unfold Reading.long
  split
  · exact .refused _
  · split
    · exact h.attached ..
    · exact .refused _
  · split
    · exact h.apart _
    · exact h.flag _

theorem Alike.letters {scope : Scope} {r s : Reading} (h : r.Alike s) (cs : List Char) :
    Both Alike (r.letters scope cs) (s.letters scope cs) := by
  induction cs generalizing r s with
  | nil => exact .ok h
  | cons c cs ih =>
    unfold Reading.letters
    split
    · exact .refused _
    split
    · split
      · exact h.apart _
      · exact h.attached ..
      · exact h.attached ..
    · exact (h.flag _).bind fun _ _ hab => ih hab

theorem settle_optionsOver (r : Reading) (ended : Bool) :
    settle { r with optionsOver := ended } =
      r.settle >>= fun t => pure { t with optionsOver := ended } := by
  have hreturn (x : Except Refusal Found) :
      x >>= (fun f => pure (Reading.mk f .nothing ended)) =
        x >>= (fun f => pure (Reading.mk f .nothing r.optionsOver)) >>= fun t =>
          pure { t with optionsOver := ended } := by
    cases x <;> rfl
  -- What waits is looked at without regard to whether options are over.
  obtain ⟨found, waiting, ended'⟩ := r
  match waiting with
  | .nothing => rfl
  | .value _ none => rfl
  | .value option (some text) => exact hreturn (found.take option text)
  | .datasets texts => exact hreturn (texts.foldlM Found.dataset found)

theorem Alike.endOptions {r s : Reading} (h : r.Alike s) :
    Alike { r with optionsOver := true } { s with optionsOver := true } where
  optionsOver := rfl
  settle := by
    rw [settle_optionsOver r, settle_optionsOver s]
    exact h.settle.bind fun _ _ hab => .ok ⟨hab.found, hab.waiting, rfl⟩
  lacking := fun hlacks =>
    have hsame := h.lacking hlacks
    ⟨hsame.found, hsame.waiting, rfl⟩
  collecting := by
    refine h.collecting.imp_right fun ⟨t, ht⟩ => ⟨{ t with optionsOver := true }, ?_⟩
    rw [settle_optionsOver, ht]
    rfl

/-- States that are alike stay so, whatever argument comes next. -/
theorem Alike.argument {scope : Scope} {r s : Reading} (h : r.Alike s) (text : String) :
    Both Alike (r.argument scope text) (s.argument scope text) := by
  unfold Reading.argument
  rw [h.optionsOver]
  split
  · exact h.plain text
  split
  · exact .ok h.endOptions
  · exact h.long ..
  · exact h.letters _
  -- The argument is the value that an option lacks in one state: it is the value in both.
  by_cases hlacks : r.lacksValue ∨ s.lacksValue
  · have hsame := h.lacking hlacks
    rw [hsame.waiting]
    split
    · exact .ok (Same.alike ⟨hsame.found, rfl, rfl⟩)
    · exact h.plain text
  · obtain ⟨hr, hs⟩ := not_or.mp hlacks
    split
    · next hwaiting => rw [lacksValue, hwaiting] at hr; exact absurd rfl hr
    split
    · next hwaiting => rw [lacksValue, hwaiting] at hs; exact absurd rfl hs
    exact h.plain text

theorem Alike.arguments {scope : Scope} {r s : Reading} (h : r.Alike s) (texts : List String) :
    Both Alike (texts.foldlM (Reading.argument scope) r)
      (texts.foldlM (Reading.argument scope) s) := by
  induction texts generalizing r s with
  | nil => exact .ok h
  | cons text texts ih =>
    apply (h.argument text).bind
    intro a b hab
    exact ih hab

end Reading

/-! ### Scopes -/

theorem Found.Alike.settingsFile {f g : Found} (h : f.Alike g) :
    f.settingsFile = g.settingsFile :=
  congrArg (·.settingsFile) h.silent

theorem Reading.Alike.finish {r s : Reading} (h : r.Alike s) (fromEnvironment : Option String) :
    Both Found.Alike (finish fromEnvironment r) (finish fromEnvironment s) := by
  apply h.settle.bind
  intro a b hab
  dsimp only
  rw [hab.found.settingsFile]
  split
  · next text _ =>
    cases readPath text with
    | error e => exact .refused e
    | ok path => exact .ok hab.found
  · exact .ok hab.found

/-- What is left of reading a scope once some of its arguments have been read. -/
def readScopeFrom (scope : Scope) (fromEnvironment : Option String) (r : Reading)
    (texts : List String) : Except Refusal Found := do
  let found ← finish fromEnvironment (← texts.foldlM (Reading.argument scope) r)
  if found.sweep.isSome && found.trcdCycles.isSome then throw .argumentConflict
  return found

theorem Reading.Alike.readScopeFrom {scope : Scope} {r s : Reading} (h : r.Alike s)
    (fromEnvironment : Option String) (texts : List String) :
    Both Found.Alike (readScopeFrom scope fromEnvironment r texts)
      (readScopeFrom scope fromEnvironment s texts) := by
  refine (h.arguments texts).bind fun a b hab => (hab.finish fromEnvironment).bind fun f g hfg => ?_
  have hsweep : f.sweep = g.sweep := congrArg (·.sweep) hfg.silent
  have htrcdCycles : f.trcdCycles = g.trcdCycles := congrArg (·.trcdCycles) hfg.silent
  rw [hsweep, htrcdCycles]
  split
  · exact .refused _
  · exact .ok hfg

/-- The findings before the subcommand and those after it agree, verbosity apart. -/
def AlikeOnBothSides (a b : Found × Option (Scope × Found)) : Prop :=
  a.1.Alike b.1 ∧
    ((a.2 = none ∧ b.2 = none) ∨
      ∃ scope f g, a.2 = some (scope, f) ∧ b.2 = some (scope, g) ∧ f.Alike g)

theorem Reading.Alike.lacksValue_eq {r s : Reading} (h : r.Alike s) :
    r.lacksValue = s.lacksValue := by
  by_cases hlacks : r.lacksValue ∨ s.lacksValue
  · rw [lacksValue, lacksValue, (h.lacking hlacks).waiting]
  · obtain ⟨hr, hs⟩ := not_or.mp hlacks
    rw [Bool.eq_false_iff.mpr hr, Bool.eq_false_iff.mpr hs]

theorem Reading.Alike.readProgram {r s : Reading} (h : r.Alike s)
    (fromEnvironment : Option String) (texts : List String) :
    Both AlikeOnBothSides (readProgram fromEnvironment r texts)
      (readProgram fromEnvironment s texts) := by
  induction texts generalizing r s with
  | nil => exact (h.finish fromEnvironment).bind fun _ _ hfg => .ok ⟨hfg, .inl ⟨rfl, rfl⟩⟩
  | cons text texts ih =>
    unfold Arguments.readProgram
    rw [h.optionsOver, h.lacksValue_eq]
    split
    · exact (h.argument text).bind fun _ _ hab => ih hab
    split
    · exact .refused _
    split
    · next scope hscope =>
      cases readScope scope fromEnvironment texts with
      | error e => exact .refused e
      | ok inner =>
        exact (h.finish fromEnvironment).bind fun _ _ hfg =>
          .ok ⟨hfg, .inr ⟨scope, inner, inner, rfl, rfl, .refl inner⟩⟩
    · exact (h.argument text).bind fun _ _ hab => ih hab

end DramTiming.Arguments
