import Mathlib.Data.List.TakeDrop
import DramTiming.Proofs.Arguments.Verbosity
import DramTiming.Proofs.Lookup

/-!
# Written options

The options of a clock evaluation may be written in any order, each with its value after an equals
sign or as the next argument.  They are found as they are given, whichever way they are written
(`read_pll_of_writes`, `Found.ofOptions_eq_of_perm`).
-/

namespace DramTiming.Arguments

/-! ### Ways of writing -/

/-- The ways of writing an option with its value. -/
inductive Opt.Writes (o : Opt) (text : String) : List String → Prop
  | attached : o.Writes text ["--" ++ o.long ++ "=" ++ text]
  | apart : text.toList.head? ≠ some '-' → o.Writes text ["--" ++ o.long, text]

/-- The ways of writing options with their values, one after the other. -/
inductive WritesOptions : List (Opt × String) → List String → Prop
  | nil : WritesOptions [] []
  | cons {o text texts options rest} : o.Writes text texts → WritesOptions options rest →
      WritesOptions ((o, text) :: options) (texts ++ rest)

/-! ### Names -/

theorem Scope.long?_long {scope : Scope} {o : Opt} (h : o ∈ scope.options) :
    scope.long? o.long = some o := by
  revert h
  cases scope <;> cases o <;> decide

theorem Opt.exists_toList_long (o : Opt) :
    ∃ c cs, o.long.toList = c :: cs ∧ '=' ∉ o.long.toList := by
  cases o <;> exact ⟨_, _, rfl, by decide⟩

namespace Reading

variable {scope : Scope} {r : Reading} {o : Opt} {f g : Found} {text : String}

theorem takeWhile_of_not_mem {name : List Char} (h : '=' ∉ name) (rest : List Char) :
    (name ++ rest).span (· ≠ '=') =
      (name ++ rest.takeWhile (· ≠ '='), rest.dropWhile (· ≠ '=')) := by
  have hname : ∀ c ∈ name, decide (c ≠ '=') = true := fun c hc =>
    decide_eq_true fun heq => h (heq ▸ hc)
  rw [List.span_eq_takeWhile_dropWhile, List.takeWhile_append_of_pos hname,
    List.dropWhile_append_of_pos hname]

/-- An argument with an equals sign is an option and its value. -/
theorem argument_attached (hover : r.optionsOver = false) (ho : o ∈ scope.options)
    (hvalue : o.takesValue = true) (text : String) :
    r.argument scope ("--" ++ o.long ++ "=" ++ text) = r.attached o text := by
  obtain ⟨c, cs, hlong, hequals⟩ := o.exists_toList_long
  have htext : ("--" ++ o.long ++ "=" ++ text).toList =
      '-' :: '-' :: c :: (cs ++ '=' :: text.toList) := by
    rw [← List.cons_append, ← hlong]
    simp [String.toList_append]
  have hsplit : splitEquals (c :: (cs ++ '=' :: text.toList)) = (o.long, some text) := by
    rw [← List.cons_append, ← hlong, splitEquals, takeWhile_of_not_mem hequals]
    simp
  rw [argument, hover, if_neg Bool.false_ne_true, htext]
  show r.long scope (splitEquals (c :: (cs ++ '=' :: text.toList))).1
    (splitEquals (c :: (cs ++ '=' :: text.toList))).2 = _
  unfold long
  rw [hsplit, Scope.long?_long ho]
  exact if_pos hvalue

/-- An argument that is just the name of an option leaves its value to the next one. -/
theorem argument_apart (hover : r.optionsOver = false) (ho : o ∈ scope.options)
    (hvalue : o.takesValue = true) : r.argument scope ("--" ++ o.long) = r.apart o := by
  obtain ⟨c, cs, hlong, hequals⟩ := o.exists_toList_long
  have htext : ("--" ++ o.long).toList = '-' :: '-' :: c :: cs := by
    rw [← hlong]
    simp [String.toList_append]
  have hsplit : splitEquals (c :: cs) = (o.long, none) := by
    have hspan := takeWhile_of_not_mem hequals []
    rw [List.append_nil] at hspan
    rw [← hlong, splitEquals, hspan]
    simp
  rw [argument, hover, if_neg Bool.false_ne_true, htext]
  show r.long scope (splitEquals (c :: cs)).1 (splitEquals (c :: cs)).2 = _
  unfold long
  rw [hsplit, Scope.long?_long ho]
  exact if_pos hvalue

/-- The value that an option waits for. -/
theorem argument_of_waiting (hover : r.optionsOver = false) (hwaiting : r.waiting = .value o none)
    (htext : text.toList.head? ≠ some '-') :
    r.argument scope text = .ok { r with waiting := .value o (some text) } := by
  rw [argument, hover, if_neg Bool.false_ne_true]
  split
  · next heq => exact absurd (by rw [heq]; rfl) htext
  · next heq => exact absurd (by rw [heq]; rfl) htext
  · next heq => exact absurd (by rw [heq]; rfl) htext
  · rw [hwaiting]

end Reading

/-! ### Findings -/

/-- The text is a value for the option. -/
def Opt.Accepts : Opt → String → Prop
  | .settingsFile, text => text.isEmpty = false
  | .baseClk, text => ∃ x, Binary64.parse text = .ok x
  | .mult, text => ∃ x, Binary64.parse text = .ok x
  | .divclkDivide, text => ∃ x, Binary64.parse text = .ok x
  | .clkoutDivide, text => ∃ x, Binary64.parse text = .ok x
  | .sweep, text => ∃ range, MultRange.parse text = .ok range
  | _, _ => False

/-- What options give, each with its first value. -/
def Found.ofOptions (options : List (Opt × String)) : Found :=
  let number? (o : Opt) := (options.lookup o).bind fun text => (Binary64.parse text).toOption
  { Found.none with
    settingsFile := (options.lookup .settingsFile).map Path.mk
    baseClk := number? .baseClk
    mult := number? .mult
    divclkDivide := number? .divclkDivide
    clkoutDivide := number? .clkoutDivide
    sweep := (options.lookup .sweep).bind fun text => (MultRange.parse text).toOption }

variable {options options' : List (Opt × String)} {o : Opt} {text : String}

theorem Opt.Accepts.mem_options (h : o.Accepts text) :
    o ∈ Scope.pll.options ∧ o.takesValue = true := by
  cases o <;> first | exact h.elim | decide

theorem setOnce_of_eq_ok {α : Type} {read : String → Except Refusal α} {a : α}
    (h : read text = .ok a) : setOnce Option.none read text = .ok (some a) := by
  rw [setOnce, h]
  rfl

theorem readFloat_of_parse {x : Binary64} (h : Binary64.parse text = .ok x) :
    readFloat text = .ok x := by
  rw [readFloat, h]
  rfl

/-- One more option is found beside those found so far. -/
theorem Found.take_ofOptions (hfree : o ∉ options.map Prod.fst) (haccepts : o.Accepts text) :
    (Found.ofOptions options).take o text = .ok (Found.ofOptions (options ++ [(o, text)])) := by
  have hlookup := lookup_eq_none_iff_not_mem.mpr hfree
  have hother (o' : Opt) (hne : o' ≠ o) :
      (options ++ [(o, text)]).lookup o' = options.lookup o' := by
    have hne' : (o' == o) = false := beq_eq_false_iff_ne.mpr hne
    rw [List.lookup_append, List.lookup_cons, hne', List.lookup_nil, Option.or_none]
  have hself : (options ++ [(o, text)]).lookup o = some text := by
    rw [List.lookup_append, hlookup, List.lookup_cons_self, Option.none_or]
  cases o
  case settingsFile =>
    have hread : readPath text = .ok ⟨text⟩ := by
      rw [readPath, if_neg (Bool.eq_false_iff.mp haccepts)]
    have hset := setOnce_of_eq_ok hread
    simp [take, ofOptions, hlookup, hset, hself, hother, pure, Except.pure, bind, Except.bind]
  case baseClk | mult | divclkDivide | clkoutDivide =>
    obtain ⟨x, hx⟩ := haccepts
    have hset := setOnce_of_eq_ok (readFloat_of_parse hx)
    simp [take, ofOptions, hlookup, hset, hself, hother, hx, pure, Except.pure, bind, Except.bind,
      Except.toOption]
  case sweep =>
    obtain ⟨range, hrange⟩ := haccepts
    have hread : readRange text = .ok range := by
      rw [readRange, hrange]
      rfl
    have hset := setOnce_of_eq_ok hread
    simp [take, ofOptions, hlookup, hset, hself, hother, hrange, pure, Except.pure, bind,
      Except.bind, Except.toOption]
  all_goals exact haccepts.elim

/-- The options that were given, each once. -/
structure Given (options : List (Opt × String)) : Prop where
  nodup : (options.map Prod.fst).Nodup
  accepts : ∀ p ∈ options, p.1.Accepts p.2

theorem Given.perm (h : Given options) (hperm : options.Perm options') : Given options' :=
  ⟨(hperm.map Prod.fst).nodup_iff.mp h.nodup, fun p hp => h.accepts p (hperm.mem_iff.mpr hp)⟩

/-- The order of options does not matter. -/
theorem Found.ofOptions_eq_of_perm (hnodup : (options.map Prod.fst).Nodup)
    (h : options.Perm options') : Found.ofOptions options = Found.ofOptions options' := by
  have hlookup (o : Opt) : options.lookup o = options'.lookup o := by
    refine Option.ext fun text => ?_
    rw [lookup_eq_some_iff_mem hnodup,
      lookup_eq_some_iff_mem ((h.map Prod.fst).nodup_iff.mp hnodup), h.mem_iff]
  simp only [ofOptions, hlookup]

/-! ### Reading -/

namespace Reading

/-- These options have been read, and nothing else. -/
structure HasRead (r : Reading) (options : List (Opt × String)) : Prop where
  optionsOver : r.optionsOver = false
  settle : r.settle = .ok ⟨Found.ofOptions options, .nothing, false⟩

theorem hasRead_start : HasRead .start [] := ⟨rfl, rfl⟩

/-- Reading goes on with a written option. -/
theorem HasRead.writes {r : Reading} (h : r.HasRead options) {texts : List String}
    (hwrites : o.Writes text texts) (hfree : o ∉ options.map Prod.fst)
    (haccepts : o.Accepts text) :
    ∃ s, texts.foldlM (argument .pll) r = .ok s ∧ s.HasRead (options ++ [(o, text)]) := by
  obtain ⟨ho, hvalue⟩ := haccepts.mem_options
  have htake := Found.take_ofOptions hfree haccepts
  cases hwrites with
  | attached =>
    refine ⟨⟨Found.ofOptions (options ++ [(o, text)]), .nothing, false⟩, ?_, rfl, rfl⟩
    rw [List.foldlM_cons, argument_attached h.optionsOver ho hvalue, attached, h.settle]
    show (Found.take _ o text >>= _) >>= _ = _
    rw [htake]
    rfl
  | apart htext =>
    refine ⟨⟨Found.ofOptions options, .value o (some text), false⟩, ?_, rfl, ?_⟩
    · rw [List.foldlM_cons, argument_apart h.optionsOver ho hvalue, apart, h.settle]
      show argument .pll ⟨Found.ofOptions options, .value o Option.none, false⟩ text >>= pure = _
      rw [argument_of_waiting rfl rfl htext]
      rfl
    · rw [Reading.settle]
      dsimp only
      rw [htake]
      rfl

theorem HasRead.writesOptions {r : Reading} (h : r.HasRead options) {texts : List String}
    (hwrites : WritesOptions options' texts) (hgiven : Given (options ++ options')) :
    ∃ s, texts.foldlM (argument .pll) r = .ok s ∧ s.HasRead (options ++ options') := by
  induction hwrites generalizing r options with
  | nil =>
    rw [List.append_nil]
    exact ⟨r, rfl, h⟩
  | @cons o text texts rest _ hone _ ih =>
    have hfree : o ∉ options.map Prod.fst := by
      intro hmem
      have hnodup := hgiven.nodup
      rw [List.map_append, List.map_cons, List.nodup_append] at hnodup
      exact hnodup.2.2 o hmem o List.mem_cons_self rfl
    have haccepts : o.Accepts text :=
      hgiven.accepts (o, text) (List.mem_append_right _ List.mem_cons_self)
    obtain ⟨s, hs, hread⟩ := h.writes hone hfree haccepts
    rw [List.append_cons] at hgiven ⊢
    obtain ⟨t, ht, hreadAll⟩ := ih hread hgiven
    refine ⟨t, ?_, hreadAll⟩
    rw [List.foldlM_append, hs]
    exact ht

end Reading

/-- At the end of a scope, a path from the environment must not be empty. -/
theorem finish_of_settle {r t : Reading} (h : r.settle = .ok t) (fromEnvironment : Option String) :
    finish fromEnvironment r =
      match t.found.settingsFile, fromEnvironment with
      | none, some text => (readPath text).map fun _ => t.found
      | _, _ => .ok t.found := by
  rw [finish, h]
  cases hfile : t.found.settingsFile with
  | some path => simp [hfile, bind, Except.bind, pure, Except.pure]
  | none =>
    cases fromEnvironment with
    | none => simp [hfile, bind, Except.bind, pure, Except.pure]
    | some text =>
      cases hpath : readPath text <;> simp only [bind, Except.bind, hfile, hpath] <;> rfl

theorem finish_of_ne_empty {r t : Reading} (h : r.settle = .ok t) {fromEnvironment : Option String}
    (hpath : fromEnvironment ≠ some "") : finish fromEnvironment r = .ok t.found := by
  rw [finish_of_settle h]
  split
  · next text _ =>
    rw [readPath, if_neg]
    · rfl
    · exact fun hempty => hpath (congrArg some (String.isEmpty_iff.mp hempty))
  · rfl

theorem finish_of_empty {r t : Reading} (h : r.settle = .ok t) :
    finish (some "") r = .error .invalidValue ∨ finish (some "") r = .ok t.found := by
  rw [finish_of_settle h]
  cases t.found.settingsFile with
  | none => exact .inl rfl
  | some path => exact .inr rfl

theorem not_sweep_and_trcdCycles (options : List (Opt × String)) :
    ((Found.ofOptions options).sweep.isSome && (Found.ofOptions options).trcdCycles.isSome) =
      false := by
  rw [Bool.and_eq_false_iff]
  exact .inr rfl

/-- Written options are found as they are given, unless the environment names an empty path. -/
theorem read_pll_of_writes {texts : List String} (hgiven : Given options)
    (hwrites : WritesOptions options texts) (fromEnvironment : Option String) :
    read fromEnvironment ("pll" :: texts) =
      if fromEnvironment = some "" then .error .invalidValue
      else .ok {
        settingsFile := (Found.ofOptions options).settingsFile.or (fromEnvironment.map Path.mk)
        verbosity := 0
        command := .pll (Found.ofOptions options).toPll } := by
  obtain ⟨s, hs, hread⟩ := Reading.hasRead_start.writesOptions hwrites hgiven
  have hname : Scope.ofName? "pll" = some .pll := rfl
  rw [read, readProgram_subcommand (r := .start) rfl hname, readScopeFrom, hs]
  split
  · next hempty =>
    subst hempty
    have houter : finish (some "") .start = .error .invalidValue := rfl
    rcases finish_of_empty hread.settle with hinner | hinner
    · simp only [bind, Except.bind, hinner]
    · simp only [bind, Except.bind, hinner, houter, not_sweep_and_trcdCycles]
      rfl
  · next hpath =>
    simp only [bind, Except.bind, finish_of_ne_empty hread.settle hpath,
      finish_of_ne_empty Reading.hasRead_start.settle hpath, not_sweep_and_trcdCycles]
    show Except.ok (CommandLine.mk (((Found.ofOptions options).settingsFile.or none).or _) _ _) = _
    rw [Option.or_none]
    rfl

/-! ### Command lines -/

/-- The texts are a command line of a clock evaluation with these options, in any order. -/
def WritesPll (options : List (Opt × String)) (texts : List String) : Prop :=
  ∃ options' rest, options.Perm options' ∧ WritesOptions options' rest ∧ texts = "pll" :: rest

theorem read_of_writesPll {texts : List String} (hgiven : Given options)
    (hwrites : WritesPll options texts) (fromEnvironment : Option String) :
    read fromEnvironment texts =
      if fromEnvironment = some "" then .error .invalidValue
      else .ok {
        settingsFile := (Found.ofOptions options).settingsFile.or (fromEnvironment.map Path.mk)
        verbosity := 0
        command := .pll (Found.ofOptions options).toPll } := by
  obtain ⟨options', rest, hperm, hrest, rfl⟩ := hwrites
  rw [read_pll_of_writes (hgiven.perm hperm) hrest,
    ← Found.ofOptions_eq_of_perm hgiven.nodup hperm]

theorem Given.cons (h : Given options) (hfree : o ∉ options.map Prod.fst)
    (haccepts : o.Accepts text) : Given ((o, text) :: options) :=
  ⟨List.nodup_cons.mpr ⟨hfree, h.nodup⟩, List.forall_mem_cons.mpr ⟨haccepts, h.accepts⟩⟩

theorem Found.ofOptions_cons_mult (text : String) (options : List (Opt × String)) :
    Found.ofOptions ((.mult, text) :: options) =
      { Found.ofOptions options with mult := (Binary64.parse text).toOption } := rfl

theorem Found.ofOptions_cons_sweep (text : String) (options : List (Opt × String)) :
    Found.ofOptions ((.sweep, text) :: options) =
      { Found.ofOptions options with sweep := (MultRange.parse text).toOption } := rfl

end DramTiming.Arguments
