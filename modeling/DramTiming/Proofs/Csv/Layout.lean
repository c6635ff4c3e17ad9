import DramTiming.Proofs.Csv.Records

/-!
# The ways to write records

Records can be written in many ways: a field bare or quoted, a line end in three forms, with empty
lines after it, with or without a byte-order mark.  `WritesFile records bytes` names them all; it
relates the fields of the records to the bytes of a file.  Main statement: however the records are
written, their fields are read back (`WritesFile.map_fields_records`).
-/

namespace DramTiming.Csv

/-! ### The reverse relation -/

/-- The text between the quotes of a quoted field: each quote of it is doubled. -/
def doubled (field : List UInt8) : List UInt8 :=
  field.flatMap fun b => if b == quote then [quote, quote] else [b]

/-- The two ways to write a field.  Bare, it cannot hold a comma or a line end, nor begin with a
quote. -/
inductive WritesField : List UInt8 → List UInt8 → Prop
  | bare {field} : (∀ b ∈ field, b ≠ comma ∧ isTerminator b = false) →
      field.head? ≠ some quote → WritesField field field
  | quoted {field} : WritesField field (quote :: (doubled field ++ [quote]))

/-- A record: its fields, with commas between them. -/
inductive WritesFields : List (List UInt8) → List UInt8 → Prop
  | last {field bytes} : WritesField field bytes → WritesFields [field] bytes
  | cons {field bytes fields rest} : WritesField field bytes → WritesFields fields rest →
      WritesFields (field :: fields) (bytes ++ comma :: rest)

/-- Line ends: `\n`, `\r` or `\r\n` after a record, and those of empty lines. -/
def IsGap (gap : List UInt8) : Prop := ∀ b ∈ gap, isTerminator b

instance (gap : List UInt8) : Decidable (IsGap gap) :=
  List.decidableBAll (fun b => isTerminator b = true) gap

/-- Records with line ends after each one; the last needs none. -/
inductive WritesRecords : List (List (List UInt8)) → List UInt8 → Prop
  | last {fields bytes gap} : WritesFields fields bytes → bytes ≠ [] → IsGap gap →
      WritesRecords [fields] (bytes ++ gap)
  | cons {fields bytes gap records rest} : WritesFields fields bytes → bytes ≠ [] → IsGap gap →
      gap ≠ [] → WritesRecords records rest → WritesRecords (fields :: records) (bytes ++ gap ++ rest)

/-- A file: records, after empty lines if there are any, and after a byte-order mark if it begins
with one. -/
def WritesFile (records : List (List (List UInt8))) (bytes : List UInt8) : Prop :=
  ∃ gap body, IsGap gap ∧ WritesRecords records body ∧ withoutMark bytes = gap ++ body

/-! ### Fields -/

/-- What ends a field ends it at every place but between quotes. -/
theorem readRecord_comma {place : Place} (hplace : place ≠ .quoted) (sofar : List UInt8)
    (p : Position) (bytes : List UInt8) :
    readRecord place sofar p (comma :: bytes) =
      { readRecord .fieldStart [] (p.after comma) bytes with
        fields := sofar.reverse :: (readRecord .fieldStart [] (p.after comma) bytes).fields } := by
  rw [readRecord]
  simp [hplace]

theorem readRecord_terminator {place : Place} (hplace : place ≠ .quoted) (sofar : List UInt8)
    (p : Position) {b : UInt8} (hb : isTerminator b) (bytes : List UInt8) :
    readRecord place sofar p (b :: bytes) = ⟨[sofar.reverse], p.after b, bytes⟩ := by
  rw [readRecord]
  simp [hplace, hb, ne_comma_of_isTerminator hb]

theorem readRecord_plain {bytes : List UInt8}
    (hbytes : ∀ b ∈ bytes, b ≠ comma ∧ isTerminator b = false) (sofar : List UInt8) (p : Position)
    (rest : List UInt8) :
    readRecord .plain sofar p (bytes ++ rest) =
      readRecord .plain (bytes.reverse ++ sofar) (bytes.foldl Position.after p) rest := by
  induction bytes generalizing sofar p with
  | nil => rfl
  | cons b bs ih =>
    obtain ⟨⟨hcomma, hterm⟩, hbs⟩ := List.forall_mem_cons.mp hbytes
    have hstep : readRecord .plain sofar p (b :: (bs ++ rest)) =
        readRecord .plain (b :: sofar) (p.after b) (bs ++ rest) := by
      rw [readRecord]
      simp [hcomma, hterm]
    rw [List.cons_append, hstep, ih hbs]
    simp

/-- Between quotes, a doubled quote stands for one, and everything else for itself. -/
theorem readRecord_quoted (field sofar : List UInt8) (p : Position) (rest : List UInt8) :
    readRecord .quoted sofar p (doubled field ++ rest) =
      readRecord .quoted (field.reverse ++ sofar) ((doubled field).foldl Position.after p) rest := by
  induction field generalizing sofar p with
  | nil => rfl
  | cons b bs ih =>
    by_cases hb : b = quote
    · -- The first of the two leads out of the quotes, and the second one back between them.
      subst hb
      have hdoubled : doubled (quote :: bs) = quote :: quote :: doubled bs := rfl
      have hstep : readRecord .quoted sofar p (quote :: quote :: (doubled bs ++ rest)) =
          readRecord .quoted (quote :: sofar) ((p.after quote).after quote) (doubled bs ++ rest) := by
        rw [readRecord, readRecord]
        rfl
      rw [hdoubled, List.cons_append, List.cons_append, hstep, ih]
      simp
    · have hdoubled : doubled (b :: bs) = b :: doubled bs := by simp [doubled, hb]
      have hstep : readRecord .quoted sofar p (b :: (doubled bs ++ rest)) =
          readRecord .quoted (b :: sofar) (p.after b) (doubled bs ++ rest) := by
        rw [readRecord]
        simp [hb]
      rw [hdoubled, List.cons_append, hstep, ih]
      simp

/-- After a written field its bytes have been read, and the place is outside quotes. -/
theorem WritesField.readRecord {field bytes : List UInt8} (h : WritesField field bytes)
    (p : Position) :
    ∃ place q, place ≠ .quoted ∧ ∀ rest, readRecord .fieldStart [] p (bytes ++ rest) =
      readRecord place field.reverse q rest := by
  cases h with
  | bare hbytes hhead =>
    cases field with
    | nil => exact ⟨.fieldStart, p, by simp, fun rest => rfl⟩
    | cons b bs =>
      obtain ⟨⟨hcomma, hterm⟩, hbs⟩ := List.forall_mem_cons.mp hbytes
      have hquote : b ≠ quote := by simpa using hhead
      refine ⟨.plain, bs.foldl Position.after (p.after b), by simp, ?_⟩
      intro rest
      have hstep : Csv.readRecord .fieldStart [] p (b :: (bs ++ rest)) =
          Csv.readRecord .plain [b] (p.after b) (bs ++ rest) := by
        rw [Csv.readRecord]
        simp [hcomma, hterm, hquote]
      rw [List.cons_append, hstep, readRecord_plain hbs, List.reverse_cons]
  | quoted =>
    refine ⟨.afterQuote, ((doubled field).foldl Position.after (p.after quote)).after quote,
      by simp, ?_⟩
    intro rest
    have hopen : Csv.readRecord .fieldStart [] p (quote :: (doubled field ++ (quote :: rest))) =
        Csv.readRecord .quoted [] (p.after quote) (doubled field ++ (quote :: rest)) := by
      rw [Csv.readRecord]
      rfl
    rw [List.cons_append, List.append_assoc, List.singleton_append, hopen, readRecord_quoted,
      List.append_nil, Csv.readRecord]
    rfl

/-! ### Records -/

/-- A written record is read up to the line end after it. -/
theorem WritesFields.readRecord {fields : List (List UInt8)} {bytes : List UInt8}
    (h : WritesFields fields bytes) (p : Position) {rest : List UInt8}
    (hrest : ∀ b, rest.head? = some b → isTerminator b) :
    ∃ q, Csv.readRecord .fieldStart [] p (bytes ++ rest) = ⟨fields, q, rest.tail⟩ := by
  induction h generalizing p with
  | last hfield =>
    obtain ⟨place, q, hplace, hread⟩ := hfield.readRecord p
    rw [hread]
    cases rest with
    | nil => exact ⟨q, by rw [Csv.readRecord, List.reverse_reverse]; rfl⟩
    | cons b rest =>
      refine ⟨q.after b, ?_⟩
      rw [readRecord_terminator hplace _ _ (hrest b rfl), List.reverse_reverse]
      rfl
  | cons hfield _ ih =>
    obtain ⟨place, q, hplace, hread⟩ := hfield.readRecord p
    obtain ⟨q', hnext⟩ := ih (q.after comma)
    refine ⟨q', ?_⟩
    rw [List.append_assoc, hread, List.cons_append, readRecord_comma hplace, hnext,
      List.reverse_reverse]

/-- A record is not taken for a line end before it. -/
theorem WritesFields.head_not_terminator {fields : List (List UInt8)} {bytes : List UInt8}
    (h : WritesFields fields bytes) : ∀ b, bytes.head? = some b → isTerminator b = false := by
  have hfield {field bytes : List UInt8} (h : WritesField field bytes) :
      ∀ b, bytes.head? = some b → isTerminator b = false := by
    intro b hb
    cases h with
    | bare hbytes _ => exact (hbytes b (List.mem_of_mem_head? hb)).2
    | quoted => cases hb; exact not_isTerminator_quote
  cases h with
  | last h => exact hfield h
  | @cons field bytes _ _ h _ =>
    intro b hb
    cases bytes with
    | nil => cases hb; exact not_isTerminator_comma
    | cons c bytes => exact hfield h b hb

theorem Shifted.map_fields {k : Nat} {records records' : List Record}
    (h : Shifted k records records') :
    records'.map Record.fields = records.map Record.fields := by
  induction h with
  | nil => rfl
  | cons hrecord _ ih => rw [List.map_cons, List.map_cons, hrecord.1, ih]

/-- One written record after another: the first is read, and then what follows its line end. -/
theorem map_fields_readRecords {fields : List (List UInt8)} {bytes rest : List UInt8}
    (h : WritesFields fields bytes) (hne : bytes ≠ [])
    (hrest : ∀ b, rest.head? = some b → isTerminator b) (p : Position) :
    ∃ q, (readRecords p (bytes ++ rest)).map Record.fields =
      fields :: (readRecords q rest).map Record.fields := by
  obtain ⟨b, bs, rfl⟩ := List.exists_cons_of_ne_nil hne
  have hb := h.head_not_terminator b rfl
  have hdrop : (b :: bs ++ rest).dropWhile isTerminator = b :: (bs ++ rest) := by simp [hb]
  have htake : (b :: bs ++ rest).takeWhile isTerminator = [] := by simp [hb]
  obtain ⟨q, hread⟩ := h.readRecord p hrest
  rw [List.cons_append] at hread
  rw [readRecords_of_dropWhile_cons p hdrop, htake, List.foldl_nil, hread]
  -- One byte of the line end has been read; what is left of it is skipped before the next record.
  have htail : rest.tail.dropWhile isTerminator = rest.dropWhile isTerminator := by
    cases rest with
    | nil => rfl
    | cons c rest => simp [hrest c rfl]
  exact ⟨q.nextRecord, congrArg (fields :: ·)
    (shifted_readRecords (k := 0) htail rfl).map_fields⟩

theorem IsGap.head_append {gap : List UInt8} (hgap : IsGap gap) (hne : gap ≠ [])
    (rest : List UInt8) : ∀ b, (gap ++ rest).head? = some b → isTerminator b := by
  obtain ⟨c, gap, rfl⟩ := List.exists_cons_of_ne_nil hne
  intro b hb
  cases hb
  exact hgap c (by simp)

/-- Line ends before records are skipped. -/
theorem IsGap.map_fields_readRecords {gap : List UInt8} (hgap : IsGap gap) (p : Position)
    (rest : List UInt8) :
    (readRecords p (gap ++ rest)).map Record.fields = (readRecords p rest).map Record.fields :=
  (shifted_readRecords (k := 0) (List.dropWhile_append_of_pos hgap) rfl).map_fields

theorem WritesRecords.map_fields_readRecords {records : List (List (List UInt8))}
    {bytes : List UInt8} (h : WritesRecords records bytes) (p : Position) :
    (readRecords p bytes).map Record.fields = records := by
  induction h generalizing p with
  | @last fields bytes gap hfields hne hgap =>
    obtain ⟨q, hread⟩ := Csv.map_fields_readRecords hfields hne
      (fun b hb => hgap b (List.mem_of_mem_head? hb)) p
    rw [hread, readRecords_terminators q hgap]
    rfl
  | @cons fields bytes gap records rest hfields hne hgap hsome _ ih =>
    obtain ⟨q, hread⟩ := Csv.map_fields_readRecords hfields hne (hgap.head_append hsome rest) p
    rw [List.append_assoc, hread, hgap.map_fields_readRecords, ih]

/-! ### Files -/

/-- However records are written, their fields are read back. -/
theorem WritesFile.map_fields_records {fields : List (List (List UInt8))} {bytes : List UInt8}
    (h : WritesFile fields bytes) : (records bytes).map Record.fields = fields := by
  obtain ⟨gap, body, hgap, hbody, hbytes⟩ := h
  rw [records_eq, hbytes, hgap.map_fields_readRecords, hbody.map_fields_readRecords]

end DramTiming.Csv
