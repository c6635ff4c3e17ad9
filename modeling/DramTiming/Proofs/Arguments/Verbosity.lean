import DramTiming.Proofs.Arguments.Alike

/-!
# More verbosity on a command line

A flag for verbosity leads from a state of reading to one alike, unless a value that waits there is
faulty.  Main statement: flags for verbosity that are inserted where an option may stand change no
more of what a command line asks for, and a refused line stays refused (`read_insert_verbose`).
-/

namespace DramTiming.Arguments

/-! ### Flags for verbosity -/

namespace Reading

theorem argument_verbose {scope : Scope} {r : Reading} (hover : r.optionsOver = false) :
    r.argument scope "-v" = r.flag .verbose := by
  have hletters : r.letters scope ['v'] = r.flag .verbose >>= fun s => .ok s := by
    cases scope <;> rfl
  rw [argument, hover]
  exact hletters.trans (bind_pure _)

theorem flag_verbose {r t : Reading} (ht : r.settle = .ok t) :
    ∃ s, r.flag .verbose = .ok s ∧ s.settle = .ok s ∧ t.Same s ∧
      s.optionsOver = r.optionsOver := by
  obtain ⟨hwaiting, hover⟩ := waiting_of_settle ht
  let found := { t.found with verbosity := some (min maxVerbosity (t.found.verbosity.getD 0 + 1)) }
  refine ⟨{ t with found := found }, ?_, settle_of_waiting hwaiting,
    ⟨⟨rfl, fun _ => rfl⟩, rfl, rfl⟩, hover⟩
  rw [flag, ht]
  rfl

theorem alike_of_settle {r s t u : Reading} (hr : r.settle = .ok t) (hs : s.settle = .ok u)
    (hsame : t.Same u) (hover : r.optionsOver = s.optionsOver) : r.Alike s where
  optionsOver := hover
  settle := by rw [hr, hs]; exact .ok hsame
  lacking := by
    rw [not_lacksValue_of_settle hr, not_lacksValue_of_settle hs]
    simp
  collecting := .inr ⟨t, hr⟩

/-- Unless something faulty waits, any number of flags leads to a state alike. -/
theorem exists_alike_verbose (scope : Scope) {r t : Reading} (hover : r.optionsOver = false)
    (ht : r.settle = .ok t) (n : Nat) :
    ∃ s, (List.replicate n "-v").foldlM (argument scope) r = .ok s ∧ r.Alike s := by
  suffices h : ∃ s u, (List.replicate n "-v").foldlM (argument scope) r = .ok s ∧
      s.settle = .ok u ∧ t.Same u ∧ r.optionsOver = s.optionsOver by
    obtain ⟨s, u, hs, hu, hsame, hover⟩ := h
    exact ⟨s, hs, alike_of_settle ht hu hsame hover⟩
  induction n generalizing r t with
  | zero => exact ⟨r, t, rfl, ht, ⟨.refl t.found, rfl, rfl⟩, rfl⟩
  | succ n ih =>
    obtain ⟨s, hflag, hs, hsame, hover'⟩ := flag_verbose ht
    obtain ⟨q, u, hq, hu, hsame', hover''⟩ := ih (hover'.trans hover) hs
    refine ⟨q, u, ?_, hu, ?_, hover'.symm.trans hover''⟩
    · rw [List.replicate_succ, List.foldlM_cons, argument_verbose hover, hflag]
      exact hq
    · exact ⟨hsame.found.trans hsame'.found, hsame.waiting.trans hsame'.waiting,
        hsame.optionsOver.trans hsame'.optionsOver⟩

/-! ### Something faulty waits -/

/-- A value that waits is faulty: reading fails here at the latest when it is looked at. -/
def Stuck (r : Reading) : Prop := (∃ e, r.settle = .error e) ∧ r.lacksValue = false

theorem Stuck.plain {scope : Scope} {r s : Reading} (h : r.Stuck) {text : String}
    (hs : r.plain scope text = .ok s) : s.Stuck := by
  obtain ⟨⟨e, he⟩, -⟩ := h
  by_cases hscope : scope.takesDatasets
  · cases hcollects : r.collects with
    | true =>
      obtain ⟨q, hplain, hq, -, hsettle⟩ := exists_plain hscope (.inl hcollects) text
      rw [hplain] at hs
      cases hs
      refine ⟨⟨e, ?_⟩, not_lacksValue_of_collects hq⟩
      rw [hsettle, he]
      rfl
    | false =>
      rw [plain_of_not_collects hscope hcollects, he] at hs
      cases hs
  · rw [Reading.plain, if_neg hscope] at hs
    cases hs

theorem Stuck.argument {scope : Scope} {r s : Reading} (h : r.Stuck) {text : String}
    (hs : r.argument scope text = .ok s) : s.Stuck := by
  obtain ⟨⟨e, he⟩, hlacks⟩ := h
  -- Every option looks at what waits before it is taken.
  have hno {f : Reading → Except Refusal Reading} : r.settle >>= f ≠ .ok s := by
    rw [he]
    intro h
    cases h
  unfold Reading.argument at hs
  split at hs
  · exact Stuck.plain ⟨⟨e, he⟩, hlacks⟩ hs
  split at hs
  · cases hs
    refine ⟨⟨e, ?_⟩, hlacks⟩
    rw [settle_optionsOver, he]
    rfl
  · unfold Reading.long at hs
    dsimp only at hs
    split at hs
    · cases hs
    · split at hs
      · exact absurd hs hno
      · cases hs
    · split at hs
      · exact absurd hs hno
      · exact absurd hs hno
  · unfold Reading.letters at hs
    split at hs
    · cases hs
    split at hs
    · split at hs
      · exact absurd hs hno
      · exact absurd hs hno
      · exact absurd hs hno
    · rw [Reading.flag, he] at hs
      cases hs
  · split at hs
    · next hwaiting => rw [lacksValue, hwaiting] at hlacks; cases hlacks
    · exact Stuck.plain ⟨⟨e, he⟩, hlacks⟩ hs

theorem Stuck.finish {r : Reading} (h : r.Stuck) (fromEnvironment : Option String) :
    ∃ e, finish fromEnvironment r = .error e := by
  obtain ⟨⟨e, he⟩, -⟩ := h
  exact ⟨e, by rw [Arguments.finish, he]; rfl⟩

theorem Stuck.readScopeFrom {scope : Scope} {r : Reading} (h : r.Stuck)
    (fromEnvironment : Option String) (texts : List String) :
    ∃ e, readScopeFrom scope fromEnvironment r texts = .error e := by
  unfold Arguments.readScopeFrom
  induction texts generalizing r with
  | nil =>
    obtain ⟨e, he⟩ := h.finish fromEnvironment
    refine ⟨e, ?_⟩
    rw [List.foldlM_nil]
    show Arguments.finish fromEnvironment r >>= _ = _
    rw [he]
    rfl
  | cons text texts ih =>
    rw [List.foldlM_cons]
    cases hs : r.argument scope text with
    | error e => exact ⟨e, rfl⟩
    | ok s => exact ih (h.argument hs)

theorem Stuck.readProgram {r : Reading} (h : r.Stuck) (fromEnvironment : Option String)
    (texts : List String) : ∃ e, readProgram fromEnvironment r texts = .error e := by
  induction texts generalizing r with
  | nil =>
    obtain ⟨e, he⟩ := h.finish fromEnvironment
    exact ⟨e, by rw [Arguments.readProgram, he]; rfl⟩
  | cons text texts ih =>
    have hnext : ∃ e, (do
        let s ← r.argument .program text
        Arguments.readProgram fromEnvironment s texts) = .error e := by
      cases hs : r.argument .program text with
      | error e => exact ⟨e, rfl⟩
      | ok s => exact ih (h.argument hs)
    unfold Arguments.readProgram
    split
    · exact hnext
    split
    · exact ⟨_, rfl⟩
    split
    · cases readScope _ fromEnvironment texts with
      | error e => exact ⟨e, rfl⟩
      | ok inner =>
        obtain ⟨e, he⟩ := h.finish fromEnvironment
        rw [he]
        exact ⟨e, rfl⟩
    · exact hnext

end Reading

/-! ### Where a flag may stand -/

/-- An argument belongs to the scope that is being read: it does not take the place of the
subcommand. -/
def StaysIn (scope : Scope) (r : Reading) (text : String) : Prop :=
  scope = .program → (r.optionsOver || r.lacksValue) = false →
    text ≠ "help" ∧ Scope.ofName? text = none

/-- Reading has come to a scope, and to a state in it, after these arguments. -/
inductive Reaches : List String → Scope → Reading → Prop
  | start : Reaches [] .program .start
  | argument {texts scope r text s} : Reaches texts scope r → StaysIn scope r text →
      r.argument scope text = .ok s → Reaches (texts ++ [text]) scope s
  | subcommand {texts r text scope} : Reaches texts .program r →
      (r.optionsOver || r.lacksValue) = false → Scope.ofName? text = some scope →
      Reaches (texts ++ [text]) scope .start

/-- One of these arguments is refused, so that none after it is looked at. -/
def Refuses (texts : List String) (e : Refusal) : Prop :=
  ∃ before text after scope r, texts = before ++ text :: after ∧ Reaches before scope r ∧
    StaysIn scope r text ∧ r.argument scope text = .error e

/-- A flag may stand after these arguments: options are not over and none lacks its value, or the
flag is not looked at. -/
def FlagPlace (texts : List String) : Prop :=
  (∃ scope r, Reaches texts scope r ∧ r.optionsOver = false ∧ r.lacksValue = false) ∨
    ∃ e, Refuses texts e

theorem ofName?_ne_program (text : String) : Scope.ofName? text ≠ some .program := by
  unfold Scope.ofName?
  split <;> simp

theorem readProgram_argument {r : Reading} {text : String}
    (h : StaysIn .program r text) (fromEnvironment : Option String) (rest : List String) :
    readProgram fromEnvironment r (text :: rest) =
      r.argument .program text >>= fun s => readProgram fromEnvironment s rest := by
  rw [readProgram]
  split
  · rfl
  · next hover =>
    obtain ⟨hhelp, hname⟩ := h rfl (Bool.eq_false_iff.mpr hover)
    rw [if_neg hhelp, hname]

theorem readProgram_subcommand {r : Reading} {text : String} {scope : Scope}
    (h : (r.optionsOver || r.lacksValue) = false) (hname : Scope.ofName? text = some scope)
    (fromEnvironment : Option String) (rest : List String) :
    readProgram fromEnvironment r (text :: rest) =
      readScopeFrom scope fromEnvironment .start rest >>= fun inner =>
        finish fromEnvironment r >>= fun found => pure (found, some (scope, inner)) := by
  have hhelp : text ≠ "help" := by
    rintro rfl
    cases hname
  rw [readProgram, h, if_neg Bool.false_ne_true, if_neg hhelp, hname]
  rfl

/-- Reading goes on from the state that was reached. -/
theorem Reaches.readProgram {texts : List String} {scope : Scope} {r : Reading}
    (h : Reaches texts scope r) (fromEnvironment : Option String) :
    (scope = .program ∧ ∀ rest, readProgram fromEnvironment .start (texts ++ rest) =
      readProgram fromEnvironment r rest) ∨
    (scope ≠ .program ∧ ∃ outer, ∀ rest, readProgram fromEnvironment .start (texts ++ rest) =
      readScopeFrom scope fromEnvironment r rest >>= fun inner =>
        finish fromEnvironment outer >>= fun found => pure (found, some (scope, inner))) := by
  induction h with
  | start => exact .inl ⟨rfl, fun rest => rfl⟩
  | @argument texts scope r text s _ hguard hs ih =>
    refine ih.imp (fun ⟨hscope, hread⟩ => ⟨hscope, fun rest => ?_⟩)
      fun ⟨hscope, outer, hread⟩ => ⟨hscope, outer, fun rest => ?_⟩
    · subst hscope
      rw [List.append_assoc, hread, List.singleton_append, readProgram_argument hguard, hs]
      rfl
    · rw [List.append_assoc, hread, List.singleton_append, readScopeFrom, List.foldlM_cons, hs]
      rfl
  | @subcommand texts r text scope _ hover hname ih =>
    obtain ⟨-, hread⟩ := ih.resolve_right fun h => h.1 rfl
    refine .inr ⟨fun hscope => ofName?_ne_program text (hscope ▸ hname), r, fun rest => ?_⟩
    rw [List.append_assoc, hread, List.singleton_append, readProgram_subcommand hover hname]

theorem Refuses.read {texts : List String} {e : Refusal} (h : Refuses texts e)
    (fromEnvironment : Option String) (rest : List String) :
    read fromEnvironment (texts ++ rest) = .error e := by
  obtain ⟨before, text, after, scope, r, rfl, hreaches, hstays, he⟩ := h
  have hread : readProgram fromEnvironment .start (before ++ text :: (after ++ rest)) = .error e := by
    rcases hreaches.readProgram fromEnvironment with ⟨rfl, hread⟩ | ⟨-, outer, hread⟩
    · rw [hread, readProgram_argument hstays, he]
      rfl
    · rw [hread, readScopeFrom, List.foldlM_cons, he]
      rfl
  rw [List.append_assoc, List.cons_append, Arguments.read, hread]
  rfl

/-! ### Whole command lines -/

theorem readProgram_verbose {r : Reading} (hover : r.optionsOver = false)
    (hlacks : r.lacksValue = false) (fromEnvironment : Option String) (n : Nat)
    (rest : List String) :
    readProgram fromEnvironment r (List.replicate n "-v" ++ rest) =
      (List.replicate n "-v").foldlM (Reading.argument .program) r >>= fun s =>
        readProgram fromEnvironment s rest := by
  induction n generalizing r with
  | zero => rfl
  | succ n ih =>
    rw [List.replicate_succ, List.cons_append,
      readProgram_argument fun _ _ => ⟨by decide, by decide⟩, List.foldlM_cons,
      Reading.argument_verbose hover, bind_assoc]
    cases ht : r.settle with
    | error e => rw [Reading.flag, ht]; rfl
    | ok t =>
      obtain ⟨s, hflag, hs, -, hover'⟩ := Reading.flag_verbose ht
      rw [hflag]
      exact ih (hover'.trans hover) (Reading.not_lacksValue_of_settle hs)

/-- Flags for verbosity, one after the other. -/
def verboseFlags (n : Nat) : List String := List.replicate n "-v"

/-- Unless something faulty waits where the flags stand, they change nothing but the verbosity. -/
theorem readProgram_insert_verbose {before : List String} {scope : Scope} {r t : Reading}
    (h : Reaches before scope r) (hover : r.optionsOver = false) (ht : r.settle = .ok t)
    (fromEnvironment : Option String) (n : Nat) (after : List String) :
    Both AlikeOnBothSides (readProgram fromEnvironment .start (before ++ after))
      (readProgram fromEnvironment .start (before ++ verboseFlags n ++ after)) := by
  obtain ⟨s, hs, halike⟩ := Reading.exists_alike_verbose scope hover ht n
  rw [List.append_assoc]
  rcases h.readProgram fromEnvironment with ⟨rfl, hread⟩ | ⟨-, outer, hread⟩
  · rw [hread, hread, verboseFlags,
      readProgram_verbose hover (Reading.not_lacksValue_of_settle ht), hs]
    exact halike.readProgram fromEnvironment after
  · rw [hread, hread]
    have hscope : readScopeFrom scope fromEnvironment r (verboseFlags n ++ after) =
        readScopeFrom scope fromEnvironment s after := by
      rw [readScopeFrom, verboseFlags, List.foldlM_append, hs]
      rfl
    rw [hscope]
    apply (halike.readScopeFrom fromEnvironment after).bind
    intro f g hfg
    cases finish fromEnvironment outer with
    | error e => exact .refused e
    | ok found => exact .ok ⟨.refl found, .inr ⟨scope, f, g, rfl, rfl, hfg⟩⟩

/-- Where something faulty waits, a flag shows it, and otherwise it shows later. -/
theorem readProgram_insert_verbose_of_stuck {before : List String} {scope : Scope} {r : Reading}
    {e : Refusal} (h : Reaches before scope r) (hover : r.optionsOver = false)
    (hlacks : r.lacksValue = false) (he : r.settle = .error e) (fromEnvironment : Option String)
    (n : Nat) (after : List String) :
    (∃ e', readProgram fromEnvironment .start (before ++ after) = .error e') ∧
      readProgram fromEnvironment .start (before ++ verboseFlags (n + 1) ++ after) = .error e := by
  have hstuck : r.Stuck := ⟨⟨e, he⟩, hlacks⟩
  have hflags : (verboseFlags (n + 1)).foldlM (Reading.argument scope) r = .error e := by
    rw [verboseFlags, List.replicate_succ, List.foldlM_cons, Reading.argument_verbose hover,
      Reading.flag, he]
    rfl
  rw [List.append_assoc]
  rcases h.readProgram fromEnvironment with ⟨rfl, hread⟩ | ⟨-, outer, hread⟩
  · rw [hread, hread]
    refine ⟨hstuck.readProgram fromEnvironment after, ?_⟩
    rw [verboseFlags, readProgram_verbose hover hlacks, ← verboseFlags, hflags]
    rfl
  · rw [hread, hread]
    obtain ⟨e', he'⟩ := hstuck.readScopeFrom fromEnvironment after
    refine ⟨⟨e', by rw [he']; rfl⟩, ?_⟩
    rw [readScopeFrom, List.foldlM_append, hflags]
    rfl

/-- Without a command a line is refused. -/
def refusalOf (fromEnvironment : Option String) (outer : Found) : Refusal :=
  if outer.settingsFile.isNone && outer.verbosity.isNone && fromEnvironment.isNone then
    .nothingGiven
  else .missingSubcommand

theorem read_of_no_subcommand {fromEnvironment : Option String} {texts : List String}
    {outer : Found} (h : readProgram fromEnvironment .start texts = .ok (outer, none)) :
    read fromEnvironment texts = .error (refusalOf fromEnvironment outer) := by
  rw [read, h, refusalOf]
  show (if _ then _ else _) = _
  split <;> rfl

theorem Found.Alike.refusalOf {f g : Found} (h : f.Alike g) (fromEnvironment : Option String) :
    refusalOf fromEnvironment g = refusalOf fromEnvironment f ∨
      (refusalOf fromEnvironment f = .nothingGiven ∧
        refusalOf fromEnvironment g = .missingSubcommand) := by
  cases hg : g.verbosity with
  | none =>
    have hf : f.verbosity = Option.none := by
      have hcounted := h.counted
      rw [hg] at hcounted
      simpa using hcounted
    rw [Arguments.refusalOf, Arguments.refusalOf, h.settingsFile, hf, hg]
    exact .inl rfl
  | some count =>
    have hmissing : Arguments.refusalOf fromEnvironment g = .missingSubcommand := by
      simp [Arguments.refusalOf, hg]
    rw [hmissing, Arguments.refusalOf]
    split
    · exact .inr ⟨rfl, rfl⟩
    · exact .inl rfl

theorem Found.Alike.toCommand {f g : Found} (h : f.Alike g) (scope : Scope) :
    toCommand scope f = toCommand scope g := by
  obtain ⟨count, rfl, -⟩ := h.exists_eq
  cases scope <;> rfl

theorem read_of_alike {fromEnvironment : Option String} {texts texts' : List String}
    (h : Both AlikeOnBothSides (readProgram fromEnvironment .start texts)
      (readProgram fromEnvironment .start texts')) :
    (∃ line count, read fromEnvironment texts = .ok line ∧
      read fromEnvironment texts' = .ok { line with verbosity := count }) ∨
    ∃ e e', read fromEnvironment texts = .error e ∧ read fromEnvironment texts' = .error e' ∧
      (e' = e ∨ (e = .nothingGiven ∧ e' = .missingSubcommand)) := by
  generalize hx : readProgram fromEnvironment .start texts = x at h
  generalize hy : readProgram fromEnvironment .start texts' = y at h
  cases h with
  | refused e => exact .inr ⟨e, e, by rw [read, hx]; rfl, by rw [read, hy]; rfl, .inl rfl⟩
  | @ok a b hab =>
    obtain ⟨outer, inner⟩ := a
    obtain ⟨outer', inner'⟩ := b
    obtain ⟨houter, ⟨rfl, rfl⟩ | ⟨scope, f, g, rfl, rfl, hfg⟩⟩ := hab
    · exact .inr ⟨_, _, read_of_no_subcommand hx, read_of_no_subcommand hy,
        houter.refusalOf fromEnvironment⟩
    · refine .inl ⟨_, (g.verbosity.or outer'.verbosity).getD 0, by rw [read, hx]; rfl, ?_⟩
      rw [read, hy]
      dsimp only
      rw [hfg.toCommand, hfg.settingsFile, houter.settingsFile]
      rfl

/-- A command line and the same one with more flags for verbosity ask for the same, or both are
refused: for the same reason, for want of a command, or, with the flags, for something faulty that
waits where they stand. -/
theorem read_insert_verbose {before : List String} (h : FlagPlace before)
    (fromEnvironment : Option String) (n : Nat) (after : List String) :
    (∃ line count, read fromEnvironment (before ++ after) = .ok line ∧
      read fromEnvironment (before ++ verboseFlags n ++ after)
        = .ok { line with verbosity := count }) ∨
    ∃ e e', read fromEnvironment (before ++ after) = .error e ∧
      read fromEnvironment (before ++ verboseFlags n ++ after) = .error e' ∧
      (e' = e ∨ (e = .nothingGiven ∧ e' = .missingSubcommand) ∨
        ∃ scope r, Reaches before scope r ∧ r.settle = .error e') := by
  obtain ⟨e, he⟩ | ⟨scope, r, hreaches, hover, hlacks⟩ := h.symm
  · refine .inr ⟨e, e, he.read fromEnvironment after, ?_, .inl rfl⟩
    rw [List.append_assoc]
    exact he.read fromEnvironment _
  cases hr : r.settle with
  | ok t =>
    have hread := readProgram_insert_verbose hreaches hover hr fromEnvironment n after
    apply (read_of_alike hread).imp_right
    rintro ⟨e, e', he, he', hee⟩
    exact ⟨e, e', he, he', hee.imp_right .inl⟩
  | error e =>
    cases n with
    | zero =>
      have hnone : before ++ verboseFlags 0 ++ after = before ++ after := by
        rw [verboseFlags, List.replicate_zero, List.append_nil]
      rw [hnone]
      cases hread : read fromEnvironment (before ++ after) with
      | ok line => exact .inl ⟨line, line.verbosity, rfl, rfl⟩
      | error e => exact .inr ⟨e, e, rfl, rfl, .inl rfl⟩
    | succ n =>
      obtain ⟨⟨e', he'⟩, he⟩ :=
        readProgram_insert_verbose_of_stuck hreaches hover hlacks hr fromEnvironment n after
      exact .inr ⟨e', e, by rw [read, he']; rfl, by rw [read, he]; rfl,
        .inr (.inr ⟨scope, r, hreaches, hr⟩)⟩

end DramTiming.Arguments
