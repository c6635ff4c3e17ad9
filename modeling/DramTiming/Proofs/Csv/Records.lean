import Mathlib.Data.List.Forall2
import Mathlib.Data.List.TakeWhile
import DramTiming.Csv.Record

/-!
# Records at a record end

`scan` is the machine behind the reader: it keeps whether a record is under way, and where in it.
A text that leaves no record under way can be cut off from what follows: the records of
`before ++ after` are those of `before` and those of `after` (`readRecords_append`).

Only the positions of the later records tell that something stands before them.  What they hold
does not depend on it (`shifted_readRecords`).
-/

namespace DramTiming.Csv

/-! ### The machine -/

/-- The place in a record after one more byte of it; none if the byte ended it. -/
def stepIn (place : Place) (b : UInt8) : Option Place :=
  if place == .quoted then if b == quote then some .afterQuote else some .quoted
  else if b == comma then some .fieldStart
  else if isTerminator b then none
  else if b == quote && place == .fieldStart then some .quoted
  else if b == quote && place == .afterQuote then some .quoted
  else some .plain

/-- The same between records too, where further line ends start no record. -/
def step : Option Place → UInt8 → Option Place
  | some place, b => stepIn place b
  | none, b => if isTerminator b then none else stepIn .fieldStart b

/-- Where a row of bytes leads. -/
def scan (place : Option Place) (bytes : List UInt8) : Option Place := bytes.foldl step place

/-- The bytes are nothing, or their last one is a line end outside quotes. -/
def EndsRecord (bytes : List UInt8) : Prop :=
  bytes = [] ∨ ∃ before b, bytes = before ++ [b] ∧ isTerminator b ∧ scan none before ≠ some .quoted

@[simp] theorem scan_nil (place : Option Place) : scan place [] = place := rfl

theorem scan_cons (place : Option Place) (b : UInt8) (bs : List UInt8) :
    scan place (b :: bs) = scan (step place b) bs := rfl

theorem scan_append (place : Option Place) (before after : List UInt8) :
    scan place (before ++ after) = scan (scan place before) after := List.foldl_append

theorem not_isTerminator_comma : isTerminator comma = false := by decide

theorem not_isTerminator_quote : isTerminator quote = false := by decide

theorem ne_comma_of_isTerminator {b : UInt8} (h : isTerminator b) : (b == comma) = false := by
  rw [beq_eq_false_iff_ne]
  rintro rfl
  cases h

/-- Only a line end outside quotes ends a record. -/
theorem step_eq_none_iff {place : Option Place} {b : UInt8} :
    step place b = none ↔ isTerminator b ∧ place ≠ some .quoted := by
  have hstep (p : Place) : stepIn p b = none ↔ isTerminator b ∧ p ≠ .quoted := by
    unfold stepIn
    cases p <;> grind [not_isTerminator_comma]
  cases place with
  | some p =>
    rw [step, hstep]
    simp
  | none =>
    rw [step]
    split
    · simpa
    · rw [hstep]
      simp

/-- A text ends with a record exactly if no record is under way after it. -/
theorem endsRecord_iff {bytes : List UInt8} : EndsRecord bytes ↔ scan none bytes = none := by
  constructor
  · rintro (rfl | ⟨before, b, rfl, hb, hplace⟩)
    · rfl
    · rw [scan_append]
      exact step_eq_none_iff.mpr ⟨hb, hplace⟩
  · intro h
    rcases List.eq_nil_or_concat bytes with rfl | ⟨before, b, rfl⟩
    · exact .inl rfl
    · rw [List.concat_eq_append, scan_append] at h
      obtain ⟨hb, hplace⟩ := step_eq_none_iff.mp h
      exact .inr ⟨before, b, List.concat_eq_append, hb, hplace⟩

/-- Line ends start no record. -/
theorem scan_terminators {terminators : List UInt8} (h : ∀ b ∈ terminators, isTerminator b) :
    scan none terminators = none := by
  induction terminators with
  | nil => rfl
  | cons b bs ih =>
    obtain ⟨hb, hbs⟩ := List.forall_mem_cons.mp h
    rw [scan_cons, step_eq_none_iff.mpr ⟨hb, by simp⟩]
    exact ih hbs

theorem scan_terminators_append {terminators : List UInt8}
    (h : ∀ b ∈ terminators, isTerminator b) (bytes : List UInt8) :
    scan none (terminators ++ bytes) = scan none bytes := by
  rw [scan_append, scan_terminators h]

/-- The first byte that is no line end starts a record. -/
theorem scan_of_dropWhile_cons {bytes bs : List UInt8} {b : UInt8}
    (h : bytes.dropWhile isTerminator = b :: bs) :
    scan none bytes = scan (some .fieldStart) (b :: bs) := by
  have hb : isTerminator b = false := by
    have hne : bytes.dropWhile isTerminator ≠ [] := by rw [h]; simp
    have hhead := List.head_dropWhile_not isTerminator hne
    simpa [h] using hhead
  rw [← List.takeWhile_append_dropWhile (p := isTerminator) (l := bytes), h,
    scan_terminators_append (fun _ => List.mem_takeWhile_imp), scan_cons, scan_cons]
  have hstep : step none b = step (some .fieldStart) b := by simp [step, hb]
  rw [hstep]

/-! ### One record -/

/-- A record that ends within `before` is read the same whatever follows. -/
theorem readRecord_append {place : Place} {before : List UInt8} (h : scan (some place) before = none)
    (sofar : List UInt8) (position : Position) (after : List UInt8) :
    readRecord place sofar position (before ++ after) =
      { readRecord place sofar position before with
        rest := (readRecord place sofar position before).rest ++ after } ∧
    scan none (readRecord place sofar position before).rest = none := by
  induction before generalizing place sofar position with
  | nil => cases h
  | cons b bs ih =>
    -- The reader tells the same cases apart as the machine, in the same order.
    rw [scan_cons, step] at h
    rw [List.cons_append]
    unfold readRecord
    dsimp only
    unfold stepIn at h
    split
    · next hquoted =>
      rw [if_pos hquoted] at h
      split
      · next hb =>
        rw [if_pos hb] at h
        exact ih h ..
      · next hb =>
        rw [if_neg hb] at h
        exact ih h ..
    next hquoted =>
    rw [if_neg hquoted] at h
    split
    · next hb =>
      rw [if_pos hb] at h
      obtain ⟨hread, hscan⟩ := ih h [] (position.after b)
      rw [hread]
      exact ⟨rfl, hscan⟩
    next hcomma =>
    rw [if_neg hcomma] at h
    split
    · next hb =>
      rw [if_pos hb] at h
      exact ⟨rfl, h⟩
    next hterminator =>
    rw [if_neg hterminator] at h
    split
    · next hb =>
      rw [if_pos hb] at h
      exact ih h ..
    next hstart =>
    rw [if_neg hstart] at h
    split
    · next hb =>
      rw [if_pos hb] at h
      exact ih h ..
    · next hb =>
      rw [if_neg hb] at h
      exact ih h ..

/-- What a record holds does not depend on its position. -/
theorem fields_readRecord (place : Place) (sofar : List UInt8) (p q : Position)
    (bytes : List UInt8) :
    (readRecord place sofar p bytes).fields = (readRecord place sofar q bytes).fields ∧
      (readRecord place sofar p bytes).rest = (readRecord place sofar q bytes).rest := by
  induction bytes generalizing place sofar p q with
  | nil => exact ⟨rfl, rfl⟩
  | cons b bs ih =>
    unfold readRecord
    dsimp only
    repeat' split
    all_goals first
      | exact ih ..
      | exact ⟨rfl, rfl⟩
      | exact ⟨congrArg (sofar.reverse :: ·) (ih ..).1, (ih ..).2⟩

theorem record_after (p : Position) (b : UInt8) : (p.after b).record = p.record := rfl

theorem record_next_readRecord (place : Place) (sofar : List UInt8) (p : Position)
    (bytes : List UInt8) : (readRecord place sofar p bytes).next.record = p.record := by
  induction bytes generalizing place sofar p with
  | nil => rfl
  | cons b bs ih =>
    unfold readRecord
    dsimp only
    repeat' split
    all_goals first
      | rw [ih, record_after]
      | rfl

theorem record_foldl_after (p : Position) (bytes : List UInt8) :
    (bytes.foldl Position.after p).record = p.record := by
  induction bytes generalizing p with
  | nil => rfl
  | cons b bs ih => rw [List.foldl_cons, ih, record_after]

/-! ### All records -/

theorem readRecords_of_dropWhile_nil {bytes : List UInt8} (p : Position)
    (h : bytes.dropWhile isTerminator = []) : readRecords p bytes = [] := by
  rw [readRecords]
  split
  · rfl
  · next h' => rw [h] at h'; cases h'

theorem readRecords_of_dropWhile_cons {bytes bs : List UInt8} {b : UInt8} (p : Position)
    (h : bytes.dropWhile isTerminator = b :: bs) :
    readRecords p bytes =
      let reading := readRecord .fieldStart []
        ((bytes.takeWhile isTerminator).foldl Position.after p) (b :: bs)
      ⟨p, reading.fields⟩ :: readRecords reading.next.nextRecord reading.rest := by
  conv => lhs; rw [readRecords]
  split
  · next h' => rw [h] at h'; cases h'
  · next h' =>
    rw [h] at h'
    cases h'
    rfl

theorem readRecords_terminators {terminators : List UInt8} (p : Position)
    (h : ∀ b ∈ terminators, isTerminator b) : readRecords p terminators = [] :=
  readRecords_of_dropWhile_nil p (List.dropWhile_eq_nil_iff.mpr h)

/-- Records that hold the same, each `k` records further on. -/
def Shifted (k : Nat) (records records' : List Record) : Prop :=
  List.Forall₂ (fun r r' => r'.fields = r.fields ∧ r'.position.record = r.position.record + k)
    records records'

/-- Neither the position of a text nor the line ends before it change what its records hold. -/
theorem shifted_readRecords {bytes bytes' : List UInt8} {p q : Position} {k : Nat}
    (hbytes : bytes'.dropWhile isTerminator = bytes.dropWhile isTerminator)
    (hrecord : q.record = p.record + k) :
    Shifted k (readRecords p bytes) (readRecords q bytes') := by
  cases hstart : bytes.dropWhile isTerminator with
  | nil =>
    rw [readRecords_of_dropWhile_nil p hstart,
      readRecords_of_dropWhile_nil q (hbytes.trans hstart)]
    exact .nil
  | cons b bs =>
    rw [readRecords_of_dropWhile_cons p hstart,
      readRecords_of_dropWhile_cons q (hbytes.trans hstart)]
    dsimp only
    obtain ⟨hfields, hrest⟩ := fields_readRecord .fieldStart []
      ((bytes.takeWhile isTerminator).foldl Position.after p)
      ((bytes'.takeWhile isTerminator).foldl Position.after q) (b :: bs)
    rw [← hrest]
    refine .cons ⟨hfields.symm, hrecord⟩ (shifted_readRecords rfl ?_)
    simp only [Position.nextRecord, record_next_readRecord, record_foldl_after, hrecord]
    omega
termination_by bytes.length
decreasing_by exact length_rest_lt _ hstart

theorem Shifted.length_eq {k : Nat} {records records' : List Record}
    (h : Shifted k records records') : records'.length = records.length :=
  (List.Forall₂.length_eq h).symm

/-- After a text that leaves no record under way, reading starts anew: at a position that counts
its records, and with the line ends after its last one. -/
theorem readRecords_append {before : List UInt8} (h : scan none before = none) (p : Position) :
    ∃ q terminators, (∀ b ∈ terminators, isTerminator b) ∧
      q.record = p.record + (readRecords p before).length ∧
      ∀ after, readRecords p (before ++ after)
        = readRecords p before ++ readRecords q (terminators ++ after) := by
  cases hbefore : before.dropWhile isTerminator with
  | nil =>
    refine ⟨p, before, List.dropWhile_eq_nil_iff.mp hbefore, ?_, fun after => ?_⟩
    · rw [readRecords_of_dropWhile_nil p hbefore, List.length_nil, Nat.add_zero]
    · rw [readRecords_of_dropWhile_nil p hbefore, List.nil_append]
  | cons b bs =>
    -- The first record ends within `before`, and what is left of it is shorter.
    have hscan := (scan_of_dropWhile_cons hbefore).symm.trans h
    have hrecord := readRecord_append hscan []
      ((before.takeWhile isTerminator).foldl Position.after p)
    obtain ⟨q, terminators, hterm, hq, happend⟩ := readRecords_append (hrecord []).2
      (readRecord .fieldStart [] ((before.takeWhile isTerminator).foldl Position.after p)
        (b :: bs)).next.nextRecord
    refine ⟨q, terminators, hterm, ?_, fun after => ?_⟩
    · rw [hq, readRecords_of_dropWhile_cons p hbefore]
      simp only [Position.nextRecord, record_next_readRecord, record_foldl_after,
        List.length_cons]
      omega
    · have hafter : (before ++ after).dropWhile isTerminator = b :: (bs ++ after) := by
        rw [List.dropWhile_append, hbefore]
        rfl
      have htake : (before ++ after).takeWhile isTerminator = before.takeWhile isTerminator := by
        have hlength := congrArg List.length
          (List.takeWhile_append_dropWhile (p := isTerminator) (l := before))
        rw [List.length_append, hbefore, List.length_cons] at hlength
        rw [List.takeWhile_append, if_neg (by omega)]
      rw [readRecords_of_dropWhile_cons p hbefore, readRecords_of_dropWhile_cons p hafter, htake,
        ← List.cons_append, (hrecord after).1]
      dsimp only
      rw [happend, List.cons_append]
termination_by before.length
decreasing_by exact length_rest_lt _ hbefore

/-! ### The byte-order mark -/

/-- The byte-order mark that a file may begin with. -/
def mark : List UInt8 := [0xEF, 0xBB, 0xBF]

/-- The bytes of a file without a byte-order mark. -/
def withoutMark (bytes : List UInt8) : List UInt8 :=
  if mark <+: bytes then bytes.drop 3 else bytes

/-- Where the bytes without the mark begin. -/
def firstPosition (bytes : List UInt8) : Position :=
  if mark <+: bytes then { Position.start with byte := 3 } else Position.start

theorem records_eq (bytes : List UInt8) :
    records bytes = readRecords (firstPosition bytes) (withoutMark bytes) := by
  unfold records withoutMark firstPosition
  split
  · next bytes =>
    have hmark : mark <+: 0xEF :: 0xBB :: 0xBF :: bytes := ⟨bytes, rfl⟩
    rw [if_pos hmark, if_pos hmark]
    rfl
  · next hnot =>
    have hmark : ¬ mark <+: bytes := fun ⟨rest, hrest⟩ => hnot rest hrest.symm
    rw [if_neg hmark, if_neg hmark]

/-- A byte-order mark, if any, one record and its line end. -/
structure IsHeaderLine (bytes : List UInt8) : Prop where
  length_records : (records bytes).length = 1
  endsRecord : EndsRecord (withoutMark bytes)

/-- Whether a file begins with the mark is settled within its header line. -/
theorem IsHeaderLine.mark_prefix_append_iff {header : List UInt8} (h : IsHeaderLine header)
    (bytes : List UInt8) : mark <+: header ++ bytes ↔ mark <+: header := by
  constructor
  swap
  · exact fun hmark => hmark.trans (List.prefix_append _ _)
  intro hmark
  rcases List.prefix_or_prefix_of_prefix hmark (List.prefix_append header bytes) with hle | hle
  · exact hle
  by_cases hfull : mark <+: header
  · exact hfull
  have hend := h.endsRecord
  have hlength := h.length_records
  rw [records_eq] at hlength
  rw [withoutMark, if_neg hfull] at hend hlength
  rcases hend with rfl | ⟨before, b, rfl, hb, -⟩
  · rw [readRecords_terminators _ (by simp)] at hlength
    cases hlength
  · -- The last byte of the header line would be one of the mark's, none of which is a line end.
    have hmem : b ∈ mark := hle.subset (by simp)
    simp only [mark, List.mem_cons, List.not_mem_nil, or_false] at hmem
    rcases hmem with rfl | rfl | rfl <;> cases hb

/-- What follows a header line is read on its own. -/
theorem IsHeaderLine.records_append {header : List UInt8} (h : IsHeaderLine header) :
    ∃ record q terminators, (∀ b ∈ terminators, isTerminator b) ∧
      ∀ bytes, records (header ++ bytes) = record :: readRecords q (terminators ++ bytes) := by
  obtain ⟨q, terminators, hterm, -, happend⟩ :=
    readRecords_append (endsRecord_iff.mp h.endsRecord) (firstPosition header)
  have hlength := h.length_records
  rw [records_eq] at hlength
  obtain ⟨record, hrecord⟩ := List.length_eq_one_iff.mp hlength
  refine ⟨record, q, terminators, hterm, fun bytes => ?_⟩
  have hposition : firstPosition (header ++ bytes) = firstPosition header := by
    simp only [firstPosition, h.mark_prefix_append_iff]
  have hbody : withoutMark (header ++ bytes) = withoutMark header ++ bytes := by
    unfold withoutMark
    simp only [h.mark_prefix_append_iff]
    split
    · next hmark =>
      have hle : 3 ≤ header.length := hmark.length_le
      rw [List.drop_append_of_le_length hle]
    · rfl
  rw [records_eq, hposition, hbody, happend, hrecord]
  rfl

/-- The number of records in a piece of a file. -/
def recordCount (bytes : List UInt8) : Nat := (readRecords Position.start bytes).length

/-- The records of two pieces under a header line are those of each piece under it. -/
theorem IsHeaderLine.records_append_append {header first : List UInt8} (h : IsHeaderLine header)
    (hfirst : EndsRecord first) (second : List UInt8) :
    ∃ record inFirst inSecond inSecond', records (header ++ first) = record :: inFirst ∧
      records (header ++ second) = record :: inSecond ∧
      records (header ++ first ++ second) = record :: (inFirst ++ inSecond') ∧
      inFirst.length = recordCount first ∧ Shifted (recordCount first) inSecond inSecond' := by
  obtain ⟨record, q, terminators, hterm, hrecords⟩ := h.records_append
  have hscan : scan none (terminators ++ first) = none := by
    rw [scan_terminators_append hterm, endsRecord_iff.mp hfirst]
  -- The second piece is read after line ends in either file, and these make no difference.
  obtain ⟨q', terminators', hterm', hq', happend⟩ := readRecords_append hscan q
  have hdrop {ts : List UInt8} (hts : ∀ b ∈ ts, isTerminator b) (bytes : List UInt8) :
      (ts ++ bytes).dropWhile isTerminator = bytes.dropWhile isTerminator :=
    List.dropWhile_append_of_pos hts
  have hcount : (readRecords q (terminators ++ first)).length = recordCount first :=
    (shifted_readRecords (k := q.record) (hdrop hterm first) (Nat.zero_add _).symm).length_eq
  have hpiece : Shifted (recordCount first) (readRecords q (terminators ++ second))
      (readRecords q' (terminators' ++ second)) :=
    shifted_readRecords ((hdrop hterm' second).trans (hdrop hterm second).symm) (by rw [hq', hcount])
  refine ⟨record, _, _, _, hrecords first, hrecords second, ?_, hcount, hpiece⟩
  rw [List.append_assoc, hrecords, ← List.append_assoc, happend]

end DramTiming.Csv
