import DramTiming.Proofs.Csv.Layout

/-!
# Where records stand

The position of a record is that of the search for it: just after the line end of the record before.
Main statement: cut there, a file falls into the records before and what follows them, and the
position counts the records, line feeds and bytes of the first part
(`exists_before_of_records`).

Lines in a file are counted by their ends, whichever of the three forms these have (`lineEnds`).
Line feeds alone are as many exactly if every carriage return has one after it
(`count_lineFeed_eq_lineEnds_iff`).
-/

namespace DramTiming.Csv

/-! ### Lines -/

/-- The other byte that ends a record. -/
def carriageReturn : UInt8 := 0x0D

/-- The number of line ends: a line feed, a carriage return, or the two in a row. -/
def lineEnds : List UInt8 → Nat
  | [] => 0
  | b :: bs =>
    if b = lineFeed ∨ (b = carriageReturn ∧ bs.head? ≠ some lineFeed) then lineEnds bs + 1
    else lineEnds bs

/-- Every carriage return has a line feed after it. -/
def ReturnsArePaired (bytes : List UInt8) : Prop :=
  ∀ before after, bytes = before ++ carriageReturn :: after → after.head? = some lineFeed

theorem isTerminator_iff {b : UInt8} : isTerminator b ↔ b = lineFeed ∨ b = carriageReturn := by
  simp [isTerminator, carriageReturn]

theorem carriageReturn_ne_lineFeed : carriageReturn ≠ lineFeed := by decide

theorem returnsArePaired_cons_iff {b : UInt8} {bs : List UInt8} :
    ReturnsArePaired (b :: bs) ↔
      (b = carriageReturn → bs.head? = some lineFeed) ∧ ReturnsArePaired bs := by
  constructor
  · intro h
    exact ⟨fun hb => h [] bs (by rw [hb]; rfl), fun before after heq =>
      h (b :: before) after (by rw [heq]; rfl)⟩
  · rintro ⟨hfirst, hrest⟩ before after heq
    cases before with
    | nil =>
      cases heq
      exact hfirst rfl
    | cons c before =>
      cases heq
      exact hrest before after rfl

theorem count_lineFeed_le_lineEnds (bytes : List UInt8) :
    bytes.count lineFeed ≤ lineEnds bytes := by
  induction bytes with
  | nil => exact Nat.le_refl 0
  | cons b bs ih =>
    rw [lineEnds, List.count_cons]
    by_cases hb : b = lineFeed
    · simp [hb, ih]
    · simp only [beq_iff_eq, hb, if_false, false_or]
      split <;> omega

theorem count_lineFeed_eq_lineEnds_iff {bytes : List UInt8} :
    bytes.count lineFeed = lineEnds bytes ↔ ReturnsArePaired bytes := by
  induction bytes with
  | nil =>
    refine iff_of_true rfl fun before after h => ?_
    cases before <;> cases h
  | cons b bs ih =>
    have hle := count_lineFeed_le_lineEnds bs
    rw [returnsArePaired_cons_iff, ← ih, lineEnds, List.count_cons]
    by_cases hfeed : b = lineFeed
    · simp [hfeed, carriageReturn_ne_lineFeed.symm]
    · by_cases hreturn : b = carriageReturn
      · by_cases hpaired : bs.head? = some lineFeed
        · simp [hreturn, carriageReturn_ne_lineFeed, hpaired]
        · simp only [beq_iff_eq, hreturn, hpaired, if_false, if_true, carriageReturn_ne_lineFeed,
            true_and, forall_const, false_and, iff_false, or_true, not_false_eq_true, ne_eq]
          omega
      · simp [hfeed, hreturn]

/-- Behind a record's line end, further ones make a line count of line feeds fall short. -/
theorem count_lineFeed_eq_lineEnds_append_iff {before gap : List UInt8} (hgap : IsGap gap) :
    before.count lineFeed = lineEnds (before ++ gap) ↔ gap = [] ∧ ReturnsArePaired before := by
  constructor
  · intro h
    have hle := count_lineFeed_le_lineEnds (before ++ gap)
    rw [← h, List.count_append] at hle
    have hnone : gap.count lineFeed = 0 := by omega
    have hpaired : ReturnsArePaired (before ++ gap) := by
      rw [← count_lineFeed_eq_lineEnds_iff, ← h, List.count_append, hnone, Nat.add_zero]
    -- The last line end of the gap would be a carriage return with nothing after it.
    rcases List.eq_nil_or_concat gap with rfl | ⟨front, b, rfl⟩
    · exact ⟨rfl, by rwa [List.append_nil] at hpaired⟩
    · rw [List.concat_eq_append] at hgap hnone hpaired
      have hmem : b ∈ front ++ [b] := List.mem_append_right _ List.mem_cons_self
      have hb : b = carriageReturn := by
        refine (isTerminator_iff.mp (hgap b hmem)).resolve_left fun hfeed => ?_
        exact List.count_eq_zero.mp hnone (hfeed ▸ hmem)
      have hhead := hpaired (before ++ front) [] (by simp [hb])
      cases hhead
  · rintro ⟨rfl, hpaired⟩
    rw [List.append_nil]
    exact count_lineFeed_eq_lineEnds_iff.mpr hpaired

/-! ### Positions -/

theorem foldl_after (p : Position) (bytes : List UInt8) :
    bytes.foldl Position.after p =
      ⟨p.record, p.line + bytes.count lineFeed, p.byte + bytes.length⟩ := by
  induction bytes generalizing p with
  | nil => rfl
  | cons b bs ih =>
    rw [List.foldl_cons, ih, Position.after, List.count_cons, List.length_cons]
    dsimp only
    congr 1
    · split <;> omega
    · omega

/-! ### One record -/

/-- Read from a place in a record, the last byte ends the record, and none before it does. -/
def Closes (place : Place) : List UInt8 → Prop
  | [] => False
  | b :: bs =>
    match stepIn place b with
    | none => bs = []
    | some next => Closes next bs

/-- A byte either ends the record, or leads on to another place in it. -/
theorem readRecord_cons (place : Place) (sofar : List UInt8) (p : Position) (b : UInt8) :
    (stepIn place b = none ∧
      ∀ bs, readRecord place sofar p (b :: bs) = ⟨[sofar.reverse], p.after b, bs⟩) ∨
    ∃ next sofar', ∃ wrap : List (List UInt8) → List (List UInt8), stepIn place b = some next ∧
      ∀ bs, readRecord place sofar p (b :: bs) =
        let reading := readRecord next sofar' (p.after b) bs
        { reading with fields := wrap reading.fields } := by
  unfold stepIn
  split
  · next hquoted =>
    split
    · next hb => exact .inr ⟨_, sofar, id, rfl, fun bs => by simp [readRecord, hquoted, hb]⟩
    · next hb => exact .inr ⟨_, b :: sofar, id, rfl, fun bs => by simp [readRecord, hquoted, hb]⟩
  next hquoted =>
  split
  · next hb =>
    exact .inr ⟨_, [], (sofar.reverse :: ·), rfl, fun bs => by simp [readRecord, hquoted, hb]⟩
  next hcomma =>
  split
  · next hb => exact .inl ⟨rfl, fun bs => by simp [readRecord, hquoted, hcomma, hb]⟩
  next hend =>
  split
  · next hb =>
    exact .inr ⟨_, sofar, id, rfl, fun bs => by simp [readRecord, hquoted, hcomma, hend, hb]⟩
  next hstart =>
  split
  · next hb =>
    exact .inr ⟨_, b :: sofar, id, rfl, fun bs => by
      simp [readRecord, hquoted, hcomma, hend, hstart, hb]⟩
  · next hb =>
    exact .inr ⟨_, b :: sofar, id, rfl, fun bs => by
      simp [readRecord, hquoted, hcomma, hend, hstart, hb]⟩

/-- What ends a record is the last that is read of it. -/
theorem readRecord_of_closes {place : Place} {bytes : List UInt8} (h : Closes place bytes)
    (sofar : List UInt8) (p : Position) (after : List UInt8) :
    readRecord place sofar p (bytes ++ after) =
      ⟨(readRecord place sofar p bytes).fields, bytes.foldl Position.after p, after⟩ := by
  induction bytes generalizing place sofar p with
  | nil => exact h.elim
  | cons b bs ih =>
    rw [Closes] at h
    rw [List.cons_append]
    rcases readRecord_cons place sofar p b with ⟨hstep, hread⟩ | ⟨next, sofar', wrap, hstep, hread⟩
    · rw [hstep] at h
      rw [hread, hread, h]
      rfl
    · rw [hstep] at h
      rw [hread, hread, ih h]
      rfl

/-- What is read of a text is a record, or the text is read to its end. -/
theorem exists_read (place : Place) (sofar : List UInt8) (p : Position) (bytes : List UInt8) :
    (readRecord place sofar p bytes).rest = [] ∨
      ∃ record, Closes place record ∧ bytes = record ++ (readRecord place sofar p bytes).rest := by
  induction bytes generalizing place sofar p with
  | nil => exact .inl rfl
  | cons b bs ih =>
    rcases readRecord_cons place sofar p b with ⟨hstep, hread⟩ | ⟨next, sofar', wrap, hstep, hread⟩
    · rw [hread]
      refine .inr ⟨[b], ?_, rfl⟩
      rw [Closes, hstep]
    · rw [hread]
      refine (ih next sofar' (p.after b)).imp_right ?_
      rintro ⟨record, hclosed, hbytes⟩
      refine ⟨b :: record, ?_, congrArg (b :: ·) hbytes⟩
      rw [Closes, hstep]
      exact hclosed

/-- A record is under way until its last byte. -/
theorem Closes.exists_last {place : Place} {bytes : List UInt8} (h : Closes place bytes) :
    ∃ front b, bytes = front ++ [b] ∧ scan (some place) front ≠ none ∧
      scan (some place) bytes = none := by
  induction bytes generalizing place with
  | nil => exact h.elim
  | cons b bs ih =>
    rw [Closes] at h
    cases hstep : stepIn place b with
    | none =>
      rw [hstep] at h
      subst h
      exact ⟨[], b, rfl, by simp, hstep⟩
    | some next =>
      rw [hstep] at h
      obtain ⟨front, c, rfl, hfront, hall⟩ := ih h
      have hscan (cs : List UInt8) : scan (some place) (b :: cs) = scan (some next) cs := by
        rw [scan_cons, step, hstep]
      refine ⟨b :: front, c, rfl, ?_, ?_⟩
      · rwa [hscan]
      · rwa [hscan]

/-! ### All records -/

theorem readRecords_nil (p : Position) : readRecords p [] = [] := readRecords_terminators p nofun

/-- The text begins with a byte of a record. -/
def StartsRecord (bytes : List UInt8) : Prop := ∃ b bs, bytes = b :: bs ∧ isTerminator b = false

/-- The last byte is the line end of a record. -/
def EndsWithRecord (bytes : List UInt8) : Prop :=
  ∃ front b, bytes = front ++ [b] ∧ scan none front ≠ none ∧ scan none bytes = none

theorem StartsRecord.dropWhile_append {text : List UInt8} (h : StartsRecord text) {gap : List UInt8}
    (hgap : IsGap gap) :
    (gap ++ text).dropWhile isTerminator = text ∧ (gap ++ text).takeWhile isTerminator = gap := by
  obtain ⟨b, bs, rfl, hb⟩ := h
  rw [List.dropWhile_append_of_pos hgap, List.takeWhile_append_of_pos hgap]
  simp [hb]

theorem StartsRecord.append {text : List UInt8} (h : StartsRecord text) (after : List UInt8) :
    StartsRecord (text ++ after) := by
  obtain ⟨b, bs, rfl, hb⟩ := h
  exact ⟨b, bs ++ after, rfl, hb⟩

theorem StartsRecord.scan_append {record : List UInt8} (h : StartsRecord record) {gap : List UInt8}
    (hgap : IsGap gap) : scan none (gap ++ record) = scan (some .fieldStart) record := by
  obtain ⟨hdrop, -⟩ := h.dropWhile_append hgap
  obtain ⟨b, bs, rfl, -⟩ := h
  exact scan_of_dropWhile_cons hdrop

theorem EndsWithRecord.append {first second : List UInt8} (hfirst : scan none first = none)
    (h : EndsWithRecord second) : EndsWithRecord (first ++ second) := by
  obtain ⟨front, b, rfl, hfront, hall⟩ := h
  refine ⟨first ++ front, b, (List.append_assoc ..).symm, ?_, ?_⟩
  · rwa [scan_append, hfirst]
  · rwa [scan_append, hfirst]

/-- A record ends the text up to it. -/
theorem endsWithRecord_of_closes {gap record : List UInt8} (hgap : IsGap gap)
    (hstart : StartsRecord record) (hclosed : Closes .fieldStart record) :
    EndsWithRecord (gap ++ record) := by
  have hscan := hstart.scan_append hgap
  obtain ⟨front, b, rfl, hfront, hall⟩ := hclosed.exists_last
  refine ⟨gap ++ front, b, (List.append_assoc ..).symm, ?_, hscan.trans hall⟩
  have hfrontStart : StartsRecord front := by
    obtain ⟨c, cs, heq, hc⟩ := hstart
    cases front with
    | nil =>
      cases heq
      have hstep : step (some .fieldStart) b = none := hall
      have hb : isTerminator b := (step_eq_none_iff.mp hstep).1
      rw [hc] at hb
      cases hb
    | cons c' front =>
      cases heq
      exact ⟨_, _, rfl, hc⟩
  rwa [hfrontStart.scan_append hgap]

/-- After a record, reading starts anew. -/
theorem readRecords_record {gap record : List UInt8} (hgap : IsGap gap)
    (hstart : StartsRecord record) (hclosed : Closes .fieldStart record) (p : Position)
    (after : List UInt8) :
    readRecords p (gap ++ record ++ after) =
      ⟨p, (readRecord .fieldStart [] (gap.foldl Position.after p) record).fields⟩ ::
        readRecords ((gap ++ record).foldl Position.after p).nextRecord after := by
  obtain ⟨hdrop, htake⟩ := (hstart.append after).dropWhile_append hgap
  obtain ⟨b, bs, rfl, -⟩ := hstart
  rw [← List.append_assoc] at hdrop htake
  rw [List.cons_append] at hdrop
  rw [readRecords_of_dropWhile_cons p hdrop, htake, ← List.cons_append,
    readRecord_of_closes hclosed, List.foldl_append]

/-- A text with records begins with line ends and the first of them, which it ends with, or which a
line end closes. -/
theorem exists_first_record {p : Position} {bytes : List UInt8} {r : Record} {later : List Record}
    (h : readRecords p bytes = r :: later) :
    ∃ gap record rest, bytes = gap ++ record ++ rest ∧ IsGap gap ∧ StartsRecord record ∧
      readRecords p (gap ++ record) = [r] ∧ r.position = p ∧
      (later = [] ∨ Closes .fieldStart record ∧ ∀ after,
        readRecords p (gap ++ record ++ after) =
          r :: readRecords ((gap ++ record).foldl Position.after p).nextRecord after) := by
  cases hdrop : bytes.dropWhile isTerminator with
  | nil =>
    rw [readRecords_of_dropWhile_nil p hdrop] at h
    cases h
  | cons b bs =>
    have hgap : IsGap (bytes.takeWhile isTerminator) := fun _ => List.mem_takeWhile_imp
    have hsplit : bytes = bytes.takeWhile isTerminator ++ b :: bs := by
      rw [← hdrop, List.takeWhile_append_dropWhile]
    have hstart : StartsRecord (b :: bs) := by
      have hne : bytes.dropWhile isTerminator ≠ [] := by simp [hdrop]
      exact ⟨b, bs, rfl, by simpa [hdrop] using List.head_dropWhile_not isTerminator hne⟩
    generalize bytes.takeWhile isTerminator = gap at hgap hsplit
    subst hsplit
    rcases exists_read .fieldStart [] (gap.foldl Position.after p) (b :: bs) with
      hrest | ⟨record, hclosed, hread⟩
    · -- The text ends with its first record.
      obtain ⟨hdrop', htake⟩ := hstart.dropWhile_append hgap
      have hone := readRecords_of_dropWhile_cons p hdrop'
      rw [htake] at hone
      dsimp only at hone
      rw [hrest, readRecords_nil] at hone
      obtain ⟨hr, hlater⟩ := List.cons.inj (h.symm.trans hone)
      refine ⟨gap, b :: bs, [], (List.append_nil _).symm, hgap, hstart, ?_, ?_, .inl hlater⟩
      · rw [hone, hr]
      · rw [hr]
    · generalize (readRecord .fieldStart [] (gap.foldl Position.after p) (b :: bs)).rest = rest
        at hread
      have hstart' : StartsRecord record := by
        obtain ⟨c, cs, heq, hc⟩ := hstart
        cases record with
        | nil => exact hclosed.elim
        | cons d record =>
          cases heq
          cases hread
          exact ⟨_, _, rfl, hc⟩
      have hrecords := readRecords_record hgap hstart' hclosed p
      rw [hread, ← List.append_assoc, hrecords rest] at h
      obtain ⟨rfl, -⟩ := List.cons.inj h
      refine ⟨gap, record, rest, ?_, hgap, hstart', ?_, rfl, .inr ⟨hclosed, hrecords⟩⟩
      · rw [hread, List.append_assoc]
      · have hone := hrecords []
        rwa [List.append_nil, readRecords_nil] at hone

/-- A text is cut at any of its records: into the records before, of which the last one ends the
first part, line ends, the record, and the rest.  The position counts the first part. -/
theorem exists_before_of_readRecords {p : Position} {bytes : List UInt8}
    {earlier later : List Record} {r : Record} (h : readRecords p bytes = earlier ++ r :: later) :
    ∃ before gap record rest, bytes = before ++ gap ++ record ++ rest ∧ IsGap gap ∧
      StartsRecord record ∧ (earlier = [] ∧ before = [] ∨ EndsWithRecord before) ∧
      readRecords p before = earlier ∧ readRecords p (before ++ gap ++ record) = earlier ++ [r] ∧
      r.position = ⟨p.record + earlier.length, p.line + before.count lineFeed,
        p.byte + before.length⟩ := by
  induction earlier generalizing p bytes with
  | nil =>
    obtain ⟨gap, record, rest, hbytes, hgap, hstart, hone, hp, -⟩ := exists_first_record h
    exact ⟨[], gap, record, rest, hbytes, hgap, hstart, .inl ⟨rfl, rfl⟩,
      readRecords_nil p, hone, hp⟩
  | cons first earlier ih =>
    obtain ⟨gap₀, record₀, rest₀, rfl, hgap₀, hstart₀, hone, -, hlater | ⟨hclosed, hrecords⟩⟩ :=
      exists_first_record h
    · simp at hlater
    rw [hrecords] at h
    obtain ⟨before, gap, record, rest, rfl, hgap, hstart, hend, hearlier, hrecord, hposition⟩ :=
      ih (List.cons.inj h).2
    refine ⟨gap₀ ++ record₀ ++ before, gap, record, rest, ?_, hgap, hstart, .inr ?_, ?_, ?_, ?_⟩
    · simp only [List.append_assoc]
    · have hfirst := endsWithRecord_of_closes hgap₀ hstart₀ hclosed
      rcases hend with ⟨-, rfl⟩ | hend
      · rwa [List.append_nil]
      · obtain ⟨_, _, -, -, hscan⟩ := id hfirst
        exact hend.append hscan
    · rw [hrecords, hearlier]
    · rw [List.append_assoc, List.append_assoc, hrecords, ← List.append_assoc, hrecord,
        List.cons_append]
    · rw [hposition, foldl_after]
      simp only [Position.nextRecord, List.length_cons, List.count_append, List.length_append]
      congr 1 <;> omega

/-- The same for the records of a file. -/
theorem exists_before_of_records {bytes : List UInt8} {earlier later : List Record} {r : Record}
    (h : records bytes = earlier ++ r :: later) (hearlier : earlier ≠ []) :
    ∃ before gap record rest, bytes = before ++ gap ++ record ++ rest ∧ IsGap gap ∧
      StartsRecord record ∧ EndsWithRecord (withoutMark before) ∧ records before = earlier ∧
      records (before ++ gap ++ record) = earlier ++ [r] ∧
      r.position = ⟨earlier.length, before.count lineFeed + 1, before.length⟩ := by
  rw [records_eq] at h
  obtain ⟨before, gap, record, rest, hbytes, hgap, hstart, hend, hfirst, hrecord, hposition⟩ :=
    exists_before_of_readRecords h
  have hend : EndsWithRecord before := hend.resolve_left fun hnone => hearlier hnone.1
  by_cases hmark : mark <+: bytes
  · -- The mark belongs to the first part.
    rw [withoutMark, if_pos hmark] at hbytes
    rw [firstPosition, if_pos hmark] at hfirst hrecord hposition
    obtain ⟨body, rfl⟩ := hmark
    have hdrop : (mark ++ body).drop 3 = body := rfl
    rw [hdrop] at hbytes
    subst hbytes
    have hrecords (cs : List UInt8) :
        records (mark ++ cs) = readRecords { Position.start with byte := 3 } cs := rfl
    have hwithout : withoutMark (mark ++ before) = before := by
      rw [withoutMark, if_pos (List.prefix_append mark before)]
      rfl
    refine ⟨mark ++ before, gap, record, rest, ?_, hgap, hstart, ?_, ?_, ?_, ?_⟩
    · simp only [List.append_assoc]
    · rwa [hwithout]
    · rw [hrecords, hfirst]
    · rw [List.append_assoc, List.append_assoc, hrecords, ← List.append_assoc, hrecord]
    · have hcount : mark.count lineFeed = 0 := by decide
      have hlength : mark.length = 3 := rfl
      rw [hposition, List.count_append, List.length_append, hcount, hlength]
      simp only [Position.start]
      congr 1 <;> omega
  · rw [withoutMark, if_neg hmark] at hbytes
    rw [firstPosition, if_neg hmark] at hfirst hrecord hposition
    subst hbytes
    have hnot {cs : List UInt8} (hcs : cs <+: before ++ gap ++ record ++ rest) : ¬ mark <+: cs :=
      fun h => hmark (h.trans hcs)
    have hrecords {cs : List UInt8} (hcs : cs <+: before ++ gap ++ record ++ rest) :
        records cs = readRecords Position.start cs := by
      rw [records_eq, firstPosition, if_neg (hnot hcs), withoutMark, if_neg (hnot hcs)]
    have hbefore : before <+: before ++ gap ++ record ++ rest :=
      ⟨gap ++ record ++ rest, by simp only [List.append_assoc]⟩
    refine ⟨before, gap, record, rest, rfl, hgap, hstart, ?_, ?_, ?_, ?_⟩
    · rwa [withoutMark, if_neg (hnot hbefore)]
    · rw [hrecords hbefore, hfirst]
    · rw [hrecords (List.prefix_append _ _), hrecord]
    · rw [hposition]
      simp only [Position.start]
      congr 1 <;> omega

end DramTiming.Csv
