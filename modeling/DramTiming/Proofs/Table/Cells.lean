import DramTiming.Proofs.Decimal.Literal
import DramTiming.Table.Columns

/-!
# Which cells make a row

The cells of a record can be read exactly if no recognised column occurs twice among them and each
one holds a literal of its column (`Cells.readAll_eq_ok_iff`).  They make a row exactly if moreover
the three required columns are there with finite numbers (`Cells.areRow_of_readAll`,
`Cells.exists_readAll_of_areRow`).

The four fields of `Cells` are one map from columns to contents here, so that there is one step
lemma for all columns.
-/

namespace DramTiming

open Decimal

/-! ### One step after another -/

theorem bind_eq_ok_iff {ε α β : Type} {x : Except ε α} {f : α → Except ε β} {b : β} :
    x >>= f = .ok b ↔ ∃ a, x = .ok a ∧ f a = .ok b := by
  cases x <;> simp [bind, Except.bind]

theorem error_of_bind_pure {ε α β : Type} {x : Except ε α} {f : α → β} {e : ε}
    (h : (do let a ← x; return f a) = .error e) : x = .error e := by
  cases x with
  | error e' => exact congrArg Except.error (Except.error.inj h)
  | ok a => cases h

/-! ### Literals of counts -/

/-- Nothing, a decimal number or a hexadecimal one after `0x`; each fits in a 64-bit word. -/
inductive IsCount : List Char → Option Nat → Prop
  | absent : IsCount [] none
  | decimal {cs n} : IsWhole 10 cs n → n ≤ max64 → IsCount cs (some n)
  | hexadecimal {cs n} : IsWhole 16 cs n → n ≤ max64 → IsCount ('0' :: 'x' :: cs) (some n)

theorem not_isWhole_nil {base n : Nat} : ¬ IsWhole base [] n := by
  intro h
  cases h with
  | unsigned hne => exact hne rfl

theorem not_isWhole_zeroX {n : Nat} {cs : List Char} : ¬ IsWhole 10 ('0' :: 'x' :: cs) n := by
  intro h
  cases h with
  | unsigned _ hdigits =>
    obtain ⟨ds, hds, -⟩ := hdigits
    cases hds with
    | cons _ hds =>
      cases hds with
      | cons hx _ => cases hx

theorem map_some_readNat_eq_ok_iff {base : Nat} {cs : List Char} {count : Option Nat}
    (hbase : 1 ≤ base) :
    (readNat base max64 cs).map some = .ok count ↔
      ∃ n, count = some n ∧ IsWhole base cs n ∧ n ≤ max64 := by
  constructor
  · intro h
    cases hread : readNat base max64 cs with
    | error cause => rw [hread] at h; cases h
    | ok n =>
      rw [hread] at h
      cases h
      exact ⟨n, rfl, (readNat_eq_ok_iff hbase).mp hread⟩
  · rintro ⟨n, rfl, hn⟩
    rw [(readNat_eq_ok_iff hbase).mpr hn]
    rfl

/-- A text reads as a count exactly if it is a literal for it. -/
theorem Cells.parseCount_eq_ok_iff {text : String} {count : Option Nat} :
    parseCount text = .ok count ↔ IsCount text.toList count := by
  unfold parseCount
  split
  · next hnil =>
    rw [hnil]
    constructor
    · intro h
      cases h
      exact .absent
    · intro h
      cases h with
      | absent => rfl
      | decimal hwhole => exact absurd hwhole not_isWhole_nil
  · next digits hhex =>
    rw [hhex, map_some_readNat_eq_ok_iff (by decide)]
    constructor
    · rintro ⟨n, rfl, hwhole, hle⟩
      exact .hexadecimal hwhole hle
    · intro h
      cases h with
      | decimal hwhole => exact absurd hwhole not_isWhole_zeroX
      | hexadecimal hwhole hle => exact ⟨_, rfl, hwhole, hle⟩
  · next hne hhex =>
    rw [map_some_readNat_eq_ok_iff (by decide)]
    constructor
    · rintro ⟨n, rfl, hwhole, hle⟩
      exact .decimal hwhole hle
    · intro h
      generalize text.toList = cs at h hne hhex
      cases h with
      | absent => exact absurd rfl hne
      | decimal hwhole hle => exact ⟨_, rfl, hwhole, hle⟩
      | hexadecimal => exact absurd rfl (hhex _)

/-- A count has no white space in it. -/
theorem IsCount.not_isBlank {cs : List Char} {count : Option Nat} (h : IsCount cs count) :
    ∀ c ∈ cs, Text.isBlank c = false := by
  cases h with
  | absent => simp
  | decimal hwhole _ => exact hwhole.not_isBlank
  | hexadecimal hwhole _ =>
    refine List.forall_mem_cons.mpr ⟨by decide, List.forall_mem_cons.mpr ⟨by decide, ?_⟩⟩
    exact hwhole.not_isBlank

/-! ### Cells as a map from columns -/

/-- What a cell holds once it is read. -/
inductive Cells.Content where
  | number (x : Binary64)
  | count (n : Option Nat)

/-- A text stands for a content in a column. -/
def Column.Reads : Column → String → Cells.Content → Prop
  | .errorCount, text, content => ∃ n, content = .count n ∧ Cells.parseCount text = .ok n
  | _, text, content => ∃ x, content = .number x ∧ Binary64.parse text = .ok x

namespace Cells

/-- What a column's cell holds, if it was read. -/
def content? (cells : Cells) : Column → Option Content
  | .trcd => cells.trcd.map .number
  | .retention => cells.retention.map .number
  | .errorPercent => cells.errorPercent.map .number
  | .errorCount => cells.errorCount.map .count

@[simp] theorem content?_empty (column : Column) : empty.content? column = none := by
  cases column <;> rfl

/-- The cells are no more than what each column's cell holds. -/
theorem eq_of_content? {cells cells' : Cells}
    (h : ∀ column, cells.content? column = cells'.content? column) : cells = cells' := by
  have hnumber {x y : Option Binary64} (h : x.map Content.number = y.map Content.number) : x = y :=
    Option.map_injective (fun _ _ h => Content.number.inj h) h
  have htrcd := hnumber (h .trcd)
  have hretention := hnumber (h .retention)
  have hpercent := hnumber (h .errorPercent)
  have hcount : cells.errorCount = cells'.errorCount :=
    Option.map_injective (fun _ _ h => Content.count.inj h) (h .errorCount)
  cases cells
  cases cells'
  cases htrcd
  cases hretention
  cases hpercent
  cases hcount
  rfl

theorem readFloat_eq_ok_iff {cell : Option Binary64} {column : Column} {field : Nat}
    {text : String} {x : Binary64} :
    readFloat cell column field text = .ok x ↔ cell = none ∧ Binary64.parse text = .ok x := by
  unfold readFloat
  cases cell <;> cases Binary64.parse text <;> simp

theorem readCount_eq_ok_iff {cell : Option (Option Nat)} {field : Nat} {text : String}
    {count : Option Nat} :
    readCount cell field text = .ok count ↔ cell = none ∧ parseCount text = .ok count := by
  unfold readCount
  cases cell <;> cases parseCount text <;> simp

/-- What a reader of one column yields is put into that column, if it is free. -/
theorem fill_eq_ok_iff {α : Type} {reader : Except CellFault α} {wrap : α → Content}
    {fill : α → Cells} {good : α → Prop} {cells cells' : Cells} {column : Column}
    (hreader : ∀ a, reader = .ok a ↔ cells.content? column = none ∧ good a)
    (hfill : ∀ a c, (fill a).content? c = if c = column then some (wrap a) else cells.content? c) :
    (do let a ← reader; return fill a) = .ok cells' ↔
      cells.content? column = none ∧ ∃ content, (∃ a, content = wrap a ∧ good a) ∧
        ∀ c, cells'.content? c = if c = column then some content else cells.content? c := by
  rw [bind_eq_ok_iff]
  constructor
  · rintro ⟨a, hread, hcells⟩
    obtain ⟨hfree, hgood⟩ := (hreader a).mp hread
    cases hcells
    exact ⟨hfree, wrap a, ⟨a, rfl, hgood⟩, hfill a⟩
  · rintro ⟨hfree, _, ⟨a, rfl, hgood⟩, hcells⟩
    refine ⟨a, (hreader a).mpr ⟨hfree, hgood⟩, ?_⟩
    have heq : fill a = cells' := eq_of_content? fun c => by rw [hfill, hcells]
    rw [heq]
    rfl

/-- Reading a cell fills its column, which has to be free, and leaves the others as they are. -/
theorem read_eq_ok_iff {cells cells' : Cells} {column : Column} {field : Nat} {text : String} :
    cells.read column field text = .ok cells' ↔
      cells.content? column = none ∧ ∃ content, column.Reads text content ∧
        ∀ c, cells'.content? c = if c = column then some content else cells.content? c := by
  have hnumber {cell : Option Binary64} (hcell : cells.content? column = cell.map .number) (x) :
      readFloat cell column field text = .ok x ↔
        cells.content? column = none ∧ Binary64.parse text = .ok x := by
    rw [readFloat_eq_ok_iff, hcell, Option.map_eq_none_iff]
  cases column with
  | trcd => exact fill_eq_ok_iff (hnumber rfl) fun _ c => by cases c <;> rfl
  | retention => exact fill_eq_ok_iff (hnumber rfl) fun _ c => by cases c <;> rfl
  | errorPercent => exact fill_eq_ok_iff (hnumber rfl) fun _ c => by cases c <;> rfl
  | errorCount =>
    refine fill_eq_ok_iff (fun n => ?_) fun _ c => by cases c <;> rfl
    rw [readCount_eq_ok_iff, content?, Option.map_eq_none_iff]

/-- Whatever a text stands for in a column can be put there. -/
theorem exists_fill (cells : Cells) {column : Column} {text : String} {content : Content}
    (h : column.Reads text content) :
    ∃ cells' : Cells,
      ∀ c, cells'.content? c = if c = column then some content else cells.content? c := by
  cases column with
  | trcd =>
    obtain ⟨x, rfl, -⟩ := h
    exact ⟨{ cells with trcd := some x }, fun c => by cases c <;> rfl⟩
  | retention =>
    obtain ⟨x, rfl, -⟩ := h
    exact ⟨{ cells with retention := some x }, fun c => by cases c <;> rfl⟩
  | errorPercent =>
    obtain ⟨x, rfl, -⟩ := h
    exact ⟨{ cells with errorPercent := some x }, fun c => by cases c <;> rfl⟩
  | errorCount =>
    obtain ⟨n, rfl, -⟩ := h
    exact ⟨{ cells with errorCount := some n }, fun c => by cases c <;> rfl⟩

/-! ### All cells -/

/-- The recognised columns among those of a record, in file order. -/
def recognised (cells : List (Option Column × String)) : List Column :=
  cells.filterMap Prod.fst

theorem mem_recognised {cells : List (Option Column × String)} {column : Column} :
    column ∈ recognised cells ↔ ∃ text, (some column, text) ∈ cells := by
  simp [recognised]

/-- All cells can be read exactly if their columns are free and differ, and each holds a literal of
its column; these make the contents. -/
theorem readAll_eq_ok_iff {cells cells' : Cells} {field : Nat}
    {columns : List (Option Column × String)} :
    cells.readAll field columns = .ok cells' ↔
      (recognised columns).Nodup ∧ (∀ c ∈ recognised columns, cells.content? c = none) ∧
        (∀ c text, (some c, text) ∈ columns → ∃ content, c.Reads text content ∧
          cells'.content? c = some content) ∧
        ∀ c, c ∉ recognised columns → cells'.content? c = cells.content? c := by
  induction columns generalizing cells field with
  | nil =>
    rw [readAll]
    constructor
    · rintro ⟨⟩
      simp [recognised]
    · rintro ⟨-, -, -, hsame⟩
      rw [eq_of_content? fun c => hsame c (by simp [recognised])]
  | cons head columns ih =>
    obtain ⟨_ | column, text⟩ := head
    · rw [readAll, ih]
      simp [recognised]
    have hrecognised : recognised ((some column, text) :: columns) = column :: recognised columns :=
      rfl
    rw [readAll, bind_eq_ok_iff, hrecognised, List.nodup_cons, List.forall_mem_cons]
    constructor
    · -- The first cell fills its column, so that reading the others would fail if they had it too.
      rintro ⟨middle, hread, hrest⟩
      obtain ⟨hfree, content, hcontent, hmiddle⟩ := read_eq_ok_iff.mp hread
      obtain ⟨hnodup, hfrees, hreads, hsame⟩ := ih.mp hrest
      have hother : column ∉ recognised columns := by
        intro hmem
        have hfreed := hfrees column hmem
        rw [hmiddle, if_pos rfl] at hfreed
        cases hfreed
      have hne {c : Column} (hmem : c ∈ recognised columns) : c ≠ column :=
        ne_of_mem_of_not_mem hmem hother
      refine ⟨⟨hother, hnodup⟩, ⟨hfree, fun c hmem => ?_⟩, fun c text' hmem => ?_, fun c hmem => ?_⟩
      · rw [← hfrees c hmem, hmiddle, if_neg (hne hmem)]
      · rcases List.mem_cons.mp hmem with heq | hmem
        · cases heq
          exact ⟨content, hcontent, by rw [hsame column hother, hmiddle, if_pos rfl]⟩
        · exact hreads c text' hmem
      · rw [hsame c (List.not_mem_of_not_mem_cons hmem), hmiddle,
          if_neg (List.ne_of_not_mem_cons hmem)]
    · rintro ⟨⟨hother, hnodup⟩, ⟨hfree, hfrees⟩, hreads, hsame⟩
      obtain ⟨content, hcontent, hfilled⟩ := hreads column text (by simp)
      obtain ⟨middle, hmiddle⟩ := exists_fill cells hcontent
      refine ⟨middle, read_eq_ok_iff.mpr ⟨hfree, content, hcontent, hmiddle⟩,
        ih.mpr ⟨hnodup, fun c hmem => ?_, fun c text' hmem => ?_, fun c hmem => ?_⟩⟩
      · rw [hmiddle, if_neg (ne_of_mem_of_not_mem hmem hother), hfrees c hmem]
      · exact hreads c text' (List.mem_cons_of_mem _ hmem)
      · rw [hmiddle]
        split
        · next heq => rw [heq, hfilled]
        · next hne => exact hsame c (List.not_mem_cons_of_ne_of_not_mem hne hmem)

/-! ### The row -/

/-- A cell of the column stands for a finite number. -/
def HasNumber (cells : List (Option Column × String)) (column : Column) (x : Binary64) : Prop :=
  ∃ text, (some column, text) ∈ cells ∧ Binary64.IsLiteral text.toList x ∧ x.isFinite

/-- There is no column of counts, or its cell stands for the count. -/
def HasCount (cells : List (Option Column × String)) (count : Option Nat) : Prop :=
  (.errorCount ∉ recognised cells ∧ count = none) ∨
    ∃ text, (some .errorCount, text) ∈ cells ∧ IsCount text.toList count

/-- The cells of a record stand for a row. -/
structure AreRow (cells : List (Option Column × String)) (row : Row) : Prop where
  nodup : (recognised cells).Nodup
  trcd : HasNumber cells .trcd row.trcd
  retention : HasNumber cells .retention row.retention
  errorPercent : HasNumber cells .errorPercent row.errorPercent
  errorCount : HasCount cells row.errorCount

theorem need_eq_ok_iff {cell : Option Binary64} {column : Column} {x : Binary64} :
    need cell column = .ok x ↔ cell = some x := by
  cases cell <;> simp [need]

theorem finite_eq_ok_iff {x : Binary64} {column : Column} {u : Unit} :
    finite x column = .ok u ↔ x.isFinite := by
  unfold finite
  split <;> simp_all

theorem toRow_eq_ok_iff {cells : Cells} {row : Row} :
    cells.toRow = .ok row ↔
      cells.trcd = some row.trcd ∧ cells.retention = some row.retention ∧
        cells.errorPercent = some row.errorPercent ∧ row.trcd.isFinite ∧ row.retention.isFinite ∧
        row.errorPercent.isFinite ∧ cells.errorCount.join = row.errorCount := by
  unfold toRow
  simp only [bind_eq_ok_iff, need_eq_ok_iff, finite_eq_ok_iff, exists_const]
  constructor
  · rintro ⟨trcd, htrcd, retention, hretention, percent, hpercent, h₁, h₂, h₃, ⟨⟩⟩
    exact ⟨htrcd, hretention, hpercent, h₁, h₂, h₃, rfl⟩
  · rintro ⟨htrcd, hretention, hpercent, h₁, h₂, h₃, hcount⟩
    exact ⟨_, htrcd, _, hretention, _, hpercent, h₁, h₂, h₃, by rw [hcount]; rfl⟩

/-- If no recognised column occurs twice, each has one text. -/
theorem text_unique {cells : List (Option Column × String)} {column : Column}
    {text text' : String} (hnodup : (recognised cells).Nodup) (h : (some column, text) ∈ cells)
    (h' : (some column, text') ∈ cells) : text = text' := by
  induction cells with
  | nil => cases h
  | cons head cells ih =>
    obtain ⟨_ | c, s⟩ := head
    · exact ih hnodup (by simpa using h) (by simpa using h')
    obtain ⟨hnot, hnodup⟩ := List.nodup_cons.mp hnodup
    rcases List.mem_cons.mp h with heq | hmem <;> rcases List.mem_cons.mp h' with heq' | hmem'
    · rw [← heq] at heq'
      cases heq'
      rfl
    · cases heq
      exact absurd (mem_recognised.mpr ⟨_, hmem'⟩) hnot
    · cases heq'
      exact absurd (mem_recognised.mpr ⟨_, hmem⟩) hnot
    · exact ih hnodup hmem hmem'

theorem HasNumber.mem {cells : List (Option Column × String)} {column : Column} {x : Binary64}
    (h : HasNumber cells column x) : column ∈ recognised cells := by
  obtain ⟨text, hmem, -⟩ := h
  exact mem_recognised.mpr ⟨text, hmem⟩

theorem HasNumber.parse {cells : List (Option Column × String)} {column : Column} {x : Binary64}
    {text : String} (h : HasNumber cells column x) (hnodup : (recognised cells).Nodup)
    (hmem : (some column, text) ∈ cells) : Binary64.parse text = .ok x := by
  obtain ⟨text', hmem', hliteral, hfinite⟩ := h
  rw [text_unique hnodup hmem hmem']
  exact (Binary64.parse_eq_ok_iff hfinite).mpr hliteral

/-- What has been read was in a cell of its column. -/
theorem exists_text {cells : List (Option Column × String)} {field : Nat} {read : Cells}
    {content : Content} (hread : empty.readAll field cells = .ok read) (column : Column)
    (h : read.content? column = some content) :
    ∃ text, (some column, text) ∈ cells ∧ column.Reads text content := by
  obtain ⟨-, -, hreads, hsame⟩ := readAll_eq_ok_iff.mp hread
  by_cases hmem : column ∈ recognised cells
  · obtain ⟨text, htext⟩ := mem_recognised.mp hmem
    obtain ⟨content', hcontent', hread'⟩ := hreads column text htext
    rw [hread'] at h
    cases h
    exact ⟨text, htext, hcontent'⟩
  · rw [hsame column hmem, content?_empty] at h
    cases h

theorem hasNumber_of_readAll {cells : List (Option Column × String)} {field : Nat} {read : Cells}
    {column : Column} {x : Binary64} (hread : empty.readAll field cells = .ok read)
    (hcell : read.content? column = some (.number x)) (hx : x.isFinite) :
    HasNumber cells column x := by
  obtain ⟨text, hmem, hreads⟩ := exists_text hread column hcell
  have hparse : Binary64.parse text = .ok x := by
    cases column
    all_goals
      obtain ⟨_, heq, hparse⟩ := hreads
      cases heq
    all_goals exact hparse
  exact ⟨text, hmem, (Binary64.parse_eq_ok_iff hx).mp hparse, hx⟩

theorem areRow_of_readAll {cells : List (Option Column × String)} {field : Nat} {row : Row}
    {read : Cells} (hread : empty.readAll field cells = .ok read) (hrow : read.toRow = .ok row) :
    AreRow cells row := by
  obtain ⟨hnodup, -, hreads, hsame⟩ := readAll_eq_ok_iff.mp hread
  obtain ⟨htrcd, hretention, hpercent, h₁, h₂, h₃, hcount⟩ := toRow_eq_ok_iff.mp hrow
  refine ⟨hnodup, ?_, ?_, ?_, ?_⟩
  · exact hasNumber_of_readAll hread (congrArg (Option.map Content.number) htrcd) h₁
  · exact hasNumber_of_readAll hread (congrArg (Option.map Content.number) hretention) h₂
  · exact hasNumber_of_readAll hread (congrArg (Option.map Content.number) hpercent) h₃
  · cases herror : read.errorCount with
    | none =>
      refine .inl ⟨fun hmem => ?_, by rw [← hcount, herror]; rfl⟩
      obtain ⟨text, htext⟩ := mem_recognised.mp hmem
      obtain ⟨content, -, hcontent⟩ := hreads _ text htext
      rw [content?, herror] at hcontent
      cases hcontent
    | some count =>
      obtain ⟨text, hmem, _, ⟨⟩, hparse⟩ := exists_text hread .errorCount
        (congrArg (Option.map Content.count) herror)
      rw [herror] at hcount
      cases hcount
      exact .inr ⟨text, hmem, parseCount_eq_ok_iff.mp hparse⟩

theorem exists_readAll_of_areRow {cells : List (Option Column × String)} {row : Row}
    (field : Nat) (h : AreRow cells row) :
    ∃ read, empty.readAll field cells = .ok read ∧ read.toRow = .ok row := by
  let count : Option (Option Nat) :=
    if .errorCount ∈ recognised cells then some row.errorCount else none
  have hjoin : count.join = row.errorCount := by
    by_cases hmem : .errorCount ∈ recognised cells
    · simp only [count, if_pos hmem, Option.join_some]
    · rcases h.errorCount with ⟨-, hnone⟩ | ⟨text, htext, -⟩
      · simp only [count, if_neg hmem, hnone, Option.join_none]
      · exact absurd (mem_recognised.mpr ⟨text, htext⟩) hmem
  have hfinite {column : Column} {x : Binary64} (h : HasNumber cells column x) : x.isFinite := by
    obtain ⟨-, -, -, hx⟩ := h
    exact hx
  let read : Cells := ⟨some row.trcd, some row.retention, some row.errorPercent, count⟩
  have hrow : read.toRow = .ok row := toRow_eq_ok_iff.mpr
    ⟨rfl, rfl, rfl, hfinite h.trcd, hfinite h.retention, hfinite h.errorPercent, hjoin⟩
  refine ⟨read, readAll_eq_ok_iff.mpr ⟨h.nodup, fun c _ => content?_empty c, ?_, ?_⟩, hrow⟩
  · intro c text hmem
    cases c with
    | trcd => exact ⟨_, ⟨_, rfl, h.trcd.parse h.nodup hmem⟩, rfl⟩
    | retention => exact ⟨_, ⟨_, rfl, h.retention.parse h.nodup hmem⟩, rfl⟩
    | errorPercent => exact ⟨_, ⟨_, rfl, h.errorPercent.parse h.nodup hmem⟩, rfl⟩
    | errorCount =>
      have hmem' := mem_recognised.mpr ⟨text, hmem⟩
      rcases h.errorCount with ⟨hnot, -⟩ | ⟨text', htext', hcount⟩
      · exact absurd hmem' hnot
      · rw [← text_unique h.nodup hmem htext'] at hcount
        exact ⟨_, ⟨_, rfl, parseCount_eq_ok_iff.mpr hcount⟩, by simp [content?, read, count, hmem']⟩
  · intro c hmem
    cases c with
    | trcd => exact absurd h.trcd.mem hmem
    | retention => exact absurd h.retention.mem hmem
    | errorPercent => exact absurd h.errorPercent.mem hmem
    | errorCount => simp [content?, read, count, hmem, empty]

/-! ### Missing columns -/

theorem read_ne_missingColumn {cells : Cells} {column missing : Column} {field : Nat}
    {text : String} : cells.read column field text ≠ .error (.missingColumn missing) := by
  have hfloat (cell : Option Binary64) :
      readFloat cell column field text ≠ .error (.missingColumn missing) := by
    unfold readFloat
    split <;> simp
  have hcount : readCount cells.errorCount field text ≠ .error (.missingColumn missing) := by
    unfold readCount
    split <;> simp
  intro h
  cases column with
  | trcd => exact hfloat _ (error_of_bind_pure h)
  | retention => exact hfloat _ (error_of_bind_pure h)
  | errorPercent => exact hfloat _ (error_of_bind_pure h)
  | errorCount => exact hcount (error_of_bind_pure h)

theorem readAll_ne_missingColumn {cells : Cells} {field : Nat}
    {columns : List (Option Column × String)} {missing : Column} :
    cells.readAll field columns ≠ .error (.missingColumn missing) := by
  induction columns generalizing cells field with
  | nil => simp [readAll]
  | cons head columns ih =>
    obtain ⟨_ | column, text⟩ := head
    · rw [readAll]
      exact ih
    rw [readAll]
    cases hread : cells.read column field text with
    | ok middle => exact ih
    | error fault =>
      intro h
      cases h
      exact read_ne_missingColumn hread

/-- Cells in which every required column was found are not missed. -/
theorem toRow_ne_missingColumn {cells : List (Option Column × String)} {field : Nat}
    {read : Cells} {missing : Column} (hread : empty.readAll field cells = .ok read)
    (hrequired : ∀ column ∈ Column.required, column ∈ recognised cells) :
    read.toRow ≠ .error (.missingColumn missing) := by
  obtain ⟨-, -, hreads, -⟩ := readAll_eq_ok_iff.mp hread
  have hfull (column : Column) (hmem : column ∈ Column.required) :
      ∃ content, read.content? column = some content := by
    obtain ⟨text, htext⟩ := mem_recognised.mp (hrequired column hmem)
    obtain ⟨content, -, hcontent⟩ := hreads column text htext
    exact ⟨content, hcontent⟩
  obtain ⟨_, htrcd⟩ := hfull .trcd (by decide)
  obtain ⟨_, hretention⟩ := hfull .retention (by decide)
  obtain ⟨_, hpercent⟩ := hfull .errorPercent (by decide)
  obtain ⟨trcd, htrcd, -⟩ := Option.map_eq_some_iff.mp htrcd
  obtain ⟨retention, hretention, -⟩ := Option.map_eq_some_iff.mp hretention
  obtain ⟨percent, hpercent, -⟩ := Option.map_eq_some_iff.mp hpercent
  have hfinite (x : Binary64) (column : Column) :
      finite x column = .ok () ∨ finite x column = .error (.notFinite column) := by
    unfold finite
    split <;> simp
  unfold toRow
  rw [htrcd, hretention, hpercent]
  rcases hfinite trcd .trcd with h | h <;> rcases hfinite retention .retention with h' | h' <;>
    rcases hfinite percent .errorPercent with h'' | h'' <;>
    simp [need, h, h', h'', bind, Except.bind, pure, Except.pure]

end Cells

end DramTiming
