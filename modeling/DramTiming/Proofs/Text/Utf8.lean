import DramTiming.Proofs.Text.Trim
import DramTiming.Text.Utf8
import DramTiming.Csv.Record

/-!
# Reading undoes writing in UTF-8

Main statement: a row of bytes reads as a text exactly if it is what the text is written as
(`decode_eq_ok_iff`).  A form longer than needed, a surrogate and a number beyond the last character
are what the right-hand side excludes.

From this follows that trimming bytes before they are read takes away nothing but what trimming the
text would (`decode_trimField_iff`).
-/

namespace DramTiming.Text

/-! ### Numbers of characters and bytes -/

theorem isValidChar_toNat (c : Char) : c.toNat.isValidChar := c.valid

theorem toNat_lt (c : Char) : c.toNat < 0x110000 := by
  have h := isValidChar_toNat c
  simp only [Nat.isValidChar] at h
  omega

theorem toNat_charOfNat {n : Nat} (h : n.isValidChar) : (Char.ofNat n).toNat = n := by
  rw [Char.ofNat, dif_pos h]
  rfl

theorem toNat_byteOfNat {n : Nat} (h : n < 256) : (UInt8.ofNat n).toNat = n := by
  simp only [UInt8.toNat_ofNat', Nat.reducePow]
  omega

theorem eq_byteOfNat {b : UInt8} {n : Nat} (h : b.toNat = n) : b = UInt8.ofNat n := by
  rw [← h, UInt8.ofNat_toNat]

theorem charOfNat?_eq_some_iff {least n : Nat} {c : Char} :
    charOfNat? least n = some c ↔ least ≤ n ∧ c.toNat = n := by
  unfold charOfNat?
  constructor
  · intro h
    split at h
    · next hn =>
      cases h
      exact ⟨hn.1, toNat_charOfNat hn.2⟩
    · cases h
  · rintro ⟨hle, rfl⟩
    rw [if_pos ⟨hle, isValidChar_toNat c⟩, Char.ofNat_toNat]

theorem isContinuation_iff {b : UInt8} :
    isContinuation b = true ↔ 0x80 ≤ b.toNat ∧ b.toNat < 0xC0 := by
  simp [isContinuation, UInt8.le_iff_toNat_le, UInt8.lt_iff_toNat_lt]

theorem isContinuation_ofNat (n : Nat) : isContinuation (UInt8.ofNat (n % 64 + 128)) = true :=
  isContinuation_iff.mpr (by rw [toNat_byteOfNat] <;> omega)

/-! ### The four forms

The first byte `a` tells how many bytes follow; they hold six bits each. -/

section Forms

variable {a b c d : UInt8} {x : Char} {rest : List UInt8}

theorem decodeChar?_one (ha : a.toNat < 0x80) :
    decodeChar? (a :: rest) = some (Char.ofNat a.toNat, 1) := by
  simp [decodeChar?, UInt8.lt_iff_toNat_lt, ha]

theorem decodeChar?_two (ha : 0xC0 ≤ a.toNat) (ha' : a.toNat < 0xE0)
    (hb : isContinuation b = true) :
    decodeChar? (a :: b :: rest)
      = (charOfNat? 0x80 (a.toNat % 32 * 64 + b.toNat % 64)).map (·, 2) := by
  have h1 : ¬ a.toNat < 0x80 := by omega
  simp [decodeChar?, continuationBits, UInt8.le_iff_toNat_le, UInt8.lt_iff_toNat_lt, h1, ha, ha',
    hb]

theorem decodeChar?_three (ha : 0xE0 ≤ a.toNat) (ha' : a.toNat < 0xF0)
    (hb : isContinuation b = true) (hc : isContinuation c = true) :
    decodeChar? (a :: b :: c :: rest)
      = (charOfNat? 0x800 (a.toNat % 16 * 4096 + b.toNat % 64 * 64 + c.toNat % 64)).map (·, 3) := by
  have h1 : ¬ a.toNat < 0x80 := by omega
  have h2 : ¬ a.toNat < 0xE0 := by omega
  simp [decodeChar?, continuationBits, UInt8.le_iff_toNat_le, UInt8.lt_iff_toNat_lt, h1, h2, ha,
    ha', hb, hc]

theorem decodeChar?_four (ha : 0xF0 ≤ a.toNat) (ha' : a.toNat < 0xF8)
    (hb : isContinuation b = true) (hc : isContinuation c = true)
    (hd : isContinuation d = true) :
    decodeChar? (a :: b :: c :: d :: rest)
      = (charOfNat? 0x10000 (a.toNat % 8 * 262144 + b.toNat % 64 * 4096 + c.toNat % 64 * 64
          + d.toNat % 64)).map (·, 4) := by
  have h1 : ¬ a.toNat < 0x80 := by omega
  have h2 : ¬ a.toNat < 0xE0 := by omega
  have h3 : ¬ a.toNat < 0xF0 := by omega
  simp [decodeChar?, continuationBits, UInt8.le_iff_toNat_le, UInt8.lt_iff_toNat_lt, h1, h2, h3,
    ha, ha', hb, hc, hd]

theorem encodeChar_one (ha : a.toNat < 0x80) (hx : x.toNat = a.toNat) :
    String.utf8EncodeChar x = [a] := by
  have hx : x.val.toNat = a.toNat := hx
  rw [String.utf8EncodeChar, hx, if_pos (by omega), ← eq_byteOfNat rfl]

theorem encodeChar_two (ha : 0xC0 ≤ a.toNat) (ha' : a.toNat < 0xE0)
    (hb : isContinuation b = true) (hle : 0x80 ≤ x.toNat)
    (hx : x.toNat = a.toNat % 32 * 64 + b.toNat % 64) : String.utf8EncodeChar x = [a, b] := by
  have hb := isContinuation_iff.mp hb
  have hle : 0x80 ≤ x.val.toNat := hle
  have hx : x.val.toNat = a.toNat % 32 * 64 + b.toNat % 64 := hx
  rw [String.utf8EncodeChar, if_neg (by omega), if_pos (by omega),
    ← eq_byteOfNat (b := a) (by omega), ← eq_byteOfNat (b := b) (by omega)]

theorem encodeChar_three (ha : 0xE0 ≤ a.toNat) (ha' : a.toNat < 0xF0)
    (hb : isContinuation b = true) (hc : isContinuation c = true) (hle : 0x800 ≤ x.toNat)
    (hx : x.toNat = a.toNat % 16 * 4096 + b.toNat % 64 * 64 + c.toNat % 64) :
    String.utf8EncodeChar x = [a, b, c] := by
  have hb := isContinuation_iff.mp hb
  have hc := isContinuation_iff.mp hc
  have hle : 0x800 ≤ x.val.toNat := hle
  have hx : x.val.toNat = a.toNat % 16 * 4096 + b.toNat % 64 * 64 + c.toNat % 64 := hx
  rw [String.utf8EncodeChar, if_neg (by omega), if_neg (by omega), if_pos (by omega),
    ← eq_byteOfNat (b := a) (by omega), ← eq_byteOfNat (b := b) (by omega),
    ← eq_byteOfNat (b := c) (by omega)]

theorem encodeChar_four (ha : 0xF0 ≤ a.toNat) (ha' : a.toNat < 0xF8)
    (hb : isContinuation b = true) (hc : isContinuation c = true) (hd : isContinuation d = true)
    (hle : 0x10000 ≤ x.toNat)
    (hx : x.toNat
      = a.toNat % 8 * 262144 + b.toNat % 64 * 4096 + c.toNat % 64 * 64 + d.toNat % 64) :
    String.utf8EncodeChar x = [a, b, c, d] := by
  have hb := isContinuation_iff.mp hb
  have hc := isContinuation_iff.mp hc
  have hd := isContinuation_iff.mp hd
  have hle : 0x10000 ≤ x.val.toNat := hle
  have hx : x.val.toNat
      = a.toNat % 8 * 262144 + b.toNat % 64 * 4096 + c.toNat % 64 * 64 + d.toNat % 64 := hx
  rw [String.utf8EncodeChar, if_neg (by omega), if_neg (by omega), if_neg (by omega),
    ← eq_byteOfNat (b := a) (by omega), ← eq_byteOfNat (b := b) (by omega),
    ← eq_byteOfNat (b := c) (by omega), ← eq_byteOfNat (b := d) (by omega)]

end Forms

/-! ### One character -/

/-- A written character is read back, whatever follows it. -/
theorem decodeChar?_append (x : Char) (rest : List UInt8) :
    decodeChar? (String.utf8EncodeChar x ++ rest)
      = some (x, (String.utf8EncodeChar x).length) := by
  have hlt : x.val.toNat < 0x110000 := toNat_lt x
  have hchar {least n : Nat} (hle : least ≤ n) (hn : x.val.toNat = n) :
      charOfNat? least n = some x := charOfNat?_eq_some_iff.mpr ⟨hle, hn⟩
  -- The cases are the four forms; in each the bits that were split up come together again.
  fun_cases String.utf8EncodeChar x with
  | case1 v hv =>
    rw [List.singleton_append, decodeChar?_one, toNat_byteOfNat]
    · simp [v]
    all_goals (try rw [toNat_byteOfNat]) <;> omega
  | case2 v _ hv =>
    rw [List.cons_append, List.singleton_append, decodeChar?_two _ _ (isContinuation_ofNat _),
      toNat_byteOfNat, toNat_byteOfNat, hchar]
    · rfl
    all_goals (try rw [toNat_byteOfNat]) <;> omega
  | case3 v _ _ hv =>
    simp only [List.cons_append, List.nil_append]
    rw [decodeChar?_three _ _ (isContinuation_ofNat _) (isContinuation_ofNat _),
      toNat_byteOfNat, toNat_byteOfNat, toNat_byteOfNat, hchar]
    · rfl
    all_goals (try rw [toNat_byteOfNat]) <;> omega
  | case4 v _ _ hv =>
    simp only [List.cons_append, List.nil_append]
    rw [decodeChar?_four _ _ (isContinuation_ofNat _) (isContinuation_ofNat _)
      (isContinuation_ofNat _), toNat_byteOfNat, toNat_byteOfNat, toNat_byteOfNat,
      toNat_byteOfNat, hchar]
    · rfl
    all_goals (try rw [toNat_byteOfNat]) <;> omega

/-- What reads as a character is what the character is written as. -/
theorem eq_append_of_decodeChar? {bytes : List UInt8} {x : Char} {size : Nat}
    (h : decodeChar? bytes = some (x, size)) :
    ∃ rest, bytes = String.utf8EncodeChar x ++ rest
      ∧ size = (String.utf8EncodeChar x).length := by
  suffices hform : ∃ form rest, bytes = form ++ rest ∧ size = form.length ∧
      String.utf8EncodeChar x = form by
    obtain ⟨form, rest, hbytes, hsize, rfl⟩ := hform
    exact ⟨rest, hbytes, hsize⟩
  have hlead {a lo hi : UInt8} (ha : (decide (lo ≤ a) && decide (a < hi)) = true) :
      lo.toNat ≤ a.toNat ∧ a.toNat < hi.toNat := by
    simpa [UInt8.le_iff_toNat_le, UInt8.lt_iff_toNat_lt] using ha
  have hcont {b : UInt8} (hb : ¬ (!isContinuation b) = true) : isContinuation b = true := by
    simpa using hb
  -- The first byte tells the form.  A text that ends too soon, or has no byte that carries on where
  -- one has to be, is no character.
  unfold decodeChar? at h
  split at h
  · cases h
  next a rest =>
  split at h
  next ha =>
    cases h
    have ha : a.toNat < 0x80 := by simpa [UInt8.lt_iff_toNat_lt] using ha
    exact ⟨[a], rest, rfl, rfl, encodeChar_one ha (toNat_charOfNat (Or.inl (by omega)))⟩
  split at h
  · cases h
  next b rest =>
  split at h
  · cases h
  next hb =>
  split at h
  next ha =>
    obtain ⟨y, hy, heq⟩ := Option.map_eq_some_iff.mp h
    cases heq
    obtain ⟨hle, hy⟩ := charOfNat?_eq_some_iff.mp hy
    exact ⟨[a, b], rest, rfl, rfl,
      encodeChar_two (hlead ha).1 (hlead ha).2 (hcont hb) (hy ▸ hle) hy⟩
  split at h
  · cases h
  next c rest =>
  split at h
  · cases h
  next hc =>
  split at h
  next ha =>
    obtain ⟨y, hy, heq⟩ := Option.map_eq_some_iff.mp h
    cases heq
    obtain ⟨hle, hy⟩ := charOfNat?_eq_some_iff.mp hy
    exact ⟨[a, b, c], rest, rfl, rfl,
      encodeChar_three (hlead ha).1 (hlead ha).2 (hcont hb) (hcont hc) (hy ▸ hle) hy⟩
  split at h
  · cases h
  next d rest =>
  split at h
  · cases h
  next hd =>
  split at h
  next ha =>
    obtain ⟨y, hy, heq⟩ := Option.map_eq_some_iff.mp h
    cases heq
    obtain ⟨hle, hy⟩ := charOfNat?_eq_some_iff.mp hy
    exact ⟨[a, b, c, d], rest, rfl, rfl,
      encodeChar_four (hlead ha).1 (hlead ha).2 (hcont hb) (hcont hc) (hcont hd) (hy ▸ hle) hy⟩
  · cases h

/-! ### Texts -/

@[simp] theorem encode_nil : encode [] = [] := rfl

@[simp] theorem encode_cons (c : Char) (cs : List Char) :
    encode (c :: cs) = String.utf8EncodeChar c ++ encode cs := rfl

@[simp] theorem encode_append (cs ds : List Char) : encode (cs ++ ds) = encode cs ++ encode ds :=
  List.flatMap_append

theorem decodeOnto_encode (found cs : List Char) :
    decodeOnto found (encode cs) = .ok (found.reverse ++ cs) := by
  induction cs generalizing found with
  | nil => rw [encode_nil, decodeOnto, List.append_nil]
  | cons c cs ih =>
    have hread := decodeChar?_append c (encode cs)
    cases hform : String.utf8EncodeChar c with
    | nil => exact absurd hform String.utf8EncodeChar_ne_nil
    | cons b bs =>
      rw [hform, List.cons_append] at hread
      rw [encode_cons, hform, List.cons_append, decodeOnto, hread]
      simp [ih]

theorem encode_of_decodeOnto {found cs : List Char} {bytes : List UInt8}
    (h : decodeOnto found bytes = .ok cs) : ∃ ds, cs = found.reverse ++ ds ∧ bytes = encode ds := by
  fun_induction decodeOnto found bytes with
  | case1 found =>
    cases h
    exact ⟨[], by simp, rfl⟩
  | case2 => cases h
  | case3 found b bs c size hread ih =>
    obtain ⟨rest, hbytes, hsize⟩ := eq_append_of_decodeChar? hread
    obtain ⟨ds, hcs, hrest⟩ := ih h
    refine ⟨c :: ds, by simp [hcs], ?_⟩
    have hpos : 0 < size := by
      rw [hsize, String.length_utf8EncodeChar]
      exact c.utf8Size_pos
    have hdrop : bs.drop (size - 1) = (b :: bs).drop size := by
      rw [← List.drop_succ_cons (a := b), Nat.sub_add_cancel hpos]
    rw [encode_cons, ← hrest, hdrop, hbytes, hsize, List.drop_left]

/-- Bytes read as a text exactly if the text is written as these bytes. -/
theorem decode_eq_ok_iff {bytes : List UInt8} {cs : List Char} :
    decode bytes = .ok cs ↔ bytes = encode cs := by
  constructor
  · intro h
    unfold decode at h
    split at h
    · next ds hds =>
      cases h
      obtain ⟨es, hcs, hbytes⟩ := encode_of_decodeOnto hds
      rw [hbytes, hcs, List.reverse_nil, List.nil_append]
    · cases h
  · rintro rfl
    rw [decode, decodeOnto_encode]
    rfl

/-! ### Trimming before reading

White space in ASCII is one byte each, which no longer form contains. -/

/-- Whether a character is white space in ASCII. -/
def isAsciiBlankChar (c : Char) : Bool := (String.utf8EncodeChar c).all Csv.isAsciiBlank

theorem encodeChar_of_lt {c : Char} (h : c.toNat < 0x80) :
    String.utf8EncodeChar c = [UInt8.ofNat c.toNat] :=
  encodeChar_one (by rw [toNat_byteOfNat] <;> omega) (by rw [toNat_byteOfNat]; omega)

/-- Characters of ASCII are one byte each. -/
theorem byteLength_eq_length {cs : List Char} (h : ∀ c ∈ cs, c.toNat < 0x80) :
    byteLength cs = cs.length := by
  induction cs with
  | nil => rfl
  | cons c cs ih =>
    obtain ⟨hc, hcs⟩ := List.forall_mem_cons.mp h
    have hrest : (encode cs).length = cs.length := ih hcs
    simp [byteLength, encodeChar_of_lt hc, hrest]

theorem le_of_mem_encodeChar {c : Char} (h : 0x80 ≤ c.toNat) :
    ∀ b ∈ String.utf8EncodeChar c, 0x80 ≤ b.toNat := by
  have hle : 0x80 ≤ c.val.toNat := h
  fun_cases String.utf8EncodeChar c with
  | case1 => omega
  | _ => simp only [List.mem_cons, List.not_mem_nil, forall_eq_or_imp]; simp; omega

theorem toNat_of_isAsciiBlank {b : UInt8} (h : Csv.isAsciiBlank b) :
    b.toNat = 0x20 ∨ b.toNat = 0x09 ∨ b.toNat = 0x0A ∨ b.toNat = 0x0C ∨ b.toNat = 0x0D := by
  simpa [Csv.isAsciiBlank, ← UInt8.toNat_inj, or_assoc] using h

theorem encodeChar_of_isAsciiBlankChar {c : Char} (h : isAsciiBlankChar c) :
    ∃ b, String.utf8EncodeChar c = [b] ∧ Csv.isAsciiBlank b ∧ c.toNat = b.toNat := by
  rw [isAsciiBlankChar, List.all_eq_true] at h
  by_cases hlt : c.toNat < 0x80
  · rw [encodeChar_of_lt hlt] at h ⊢
    exact ⟨_, rfl, h _ (by simp), by rw [toNat_byteOfNat]; omega⟩
  · -- All bytes of a longer form are beyond ASCII.
    obtain ⟨b, hb⟩ := List.exists_mem_of_ne_nil _ (String.utf8EncodeChar_ne_nil (c := c))
    have hle := le_of_mem_encodeChar (by omega) b hb
    have hblank := toNat_of_isAsciiBlank (h b hb)
    omega

/-- ASCII's white space is white space. -/
theorem isBlank_of_isAsciiBlankChar {c : Char} (h : isAsciiBlankChar c) : isBlank c := by
  obtain ⟨b, -, hb, hc⟩ := encodeChar_of_isAsciiBlankChar h
  have hn := toNat_of_isAsciiBlank hb
  simp only [isBlank, Bool.or_eq_true, Bool.and_eq_true, decide_eq_true_eq, beq_iff_eq]
  omega

/-- A character that is not white space in ASCII has no such byte in its form. -/
theorem forall_encodeChar_of_not_isAsciiBlankChar {c : Char} (h : isAsciiBlankChar c = false) :
    ∀ b ∈ String.utf8EncodeChar c, Csv.isAsciiBlank b = false := by
  intro b hb
  by_cases hlt : c.toNat < 0x80
  · rw [isAsciiBlankChar] at h
    rw [encodeChar_of_lt hlt] at h hb
    rw [List.mem_singleton.mp hb]
    simpa using h
  · have hle := le_of_mem_encodeChar (by omega) b hb
    rw [Bool.eq_false_iff]
    intro hblank
    have hn := toNat_of_isAsciiBlank hblank
    omega

theorem trimField_encode (cs : List Char) :
    Csv.trimField (encode cs) = encode (trimBoth isAsciiBlankChar cs) := by
  apply trimBoth_flatMap
  · intro c hc
    exact List.all_eq_true.mp hc
  · intro c hc
    exact ⟨String.utf8EncodeChar_ne_nil, forall_encodeChar_of_not_isAsciiBlankChar hc⟩

/-- Bytes that are white space in ASCII are what white space is written as. -/
theorem exists_encode_of_isAsciiBlank {bytes : List UInt8}
    (h : ∀ b ∈ bytes, Csv.isAsciiBlank b) :
    ∃ cs, bytes = encode cs ∧ ∀ c ∈ cs, isBlank c := by
  induction bytes with
  | nil => exact ⟨[], rfl, by simp⟩
  | cons b bytes ih =>
    obtain ⟨cs, rfl, hcs⟩ := ih fun x hx => h x (List.mem_cons_of_mem _ hx)
    have hb := toNat_of_isAsciiBlank (h b (by simp))
    have hc : (Char.ofNat b.toNat).toNat = b.toNat := toNat_charOfNat (Or.inl (by omega))
    have hform : String.utf8EncodeChar (Char.ofNat b.toNat) = [b] :=
      encodeChar_one (by omega) hc
    refine ⟨Char.ofNat b.toNat :: cs, by rw [encode_cons, hform, List.singleton_append], ?_⟩
    have hblank : isBlank (Char.ofNat b.toNat) :=
      isBlank_of_isAsciiBlankChar (by simpa [isAsciiBlankChar, hform] using h b (by simp))
    exact List.forall_mem_cons.mpr ⟨hblank, hcs⟩

/-- Trimming a field before it is read makes no difference to what is left of its text, nor to
whether it is a text. -/
theorem decode_trimField_iff {field : List UInt8} {text : List Char} :
    (∃ cs, decode (Csv.trimField field) = .ok cs ∧ trim cs = text)
      ↔ ∃ cs, field = encode cs ∧ trim cs = text := by
  constructor
  · rintro ⟨cs, hcs, rfl⟩
    obtain ⟨front, back, hfront, hback, hfield⟩ :=
      exists_eq_append_trimBoth Csv.isAsciiBlank field
    obtain ⟨before, rfl, hbefore⟩ := exists_encode_of_isAsciiBlank hfront
    obtain ⟨after, rfl, hafter⟩ := exists_encode_of_isAsciiBlank hback
    refine ⟨before ++ cs ++ after, ?_, trimBoth_append_append hbefore hafter cs⟩
    rw [encode_append, encode_append, ← decode_eq_ok_iff.mp hcs]
    exact hfield
  · rintro ⟨cs, rfl, rfl⟩
    refine ⟨trimBoth isAsciiBlankChar cs, decode_eq_ok_iff.mpr (trimField_encode cs), ?_⟩
    exact trimBoth_trimBoth (fun c hc => isBlank_of_isAsciiBlankChar hc) cs

end DramTiming.Text
