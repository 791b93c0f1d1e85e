/-
# A record in JSON is read as it was written

A record travels as an object of its fields in order. Reading it gives the
record back: every text, whatever characters it has, and every integer that is
not negative and that a word of 64 bits holds. A string is first split from
its text and then freed of its escapes, so both halves are one induction on the
bytes of the string.

Key definitions: `Json.written`, `Json.Ends`, `Json.fieldBytes`.
Key theorems: `Json.scanString?_escaped`, `Json.scanNumeral?_digits`,
`Json.readFields_written`, `Json.read_written_record`.
-/
import Callwire.Json.Printer
import Callwire.Json.Reader
import Callwire.Proofs.Codec.Record

namespace Callwire
namespace Json

open Reading (require)

/-! ### What is written -/

/-- The JSON text of a datum. -/
def written (d : Datum) : Bytes := (write d []).reverse

/-- The bytes of a string between its quotes. -/
def escaped (bs : Bytes) : Bytes := bs.flatMap escape

theorem foldl_escape (bs out : Bytes) :
    bs.foldl (fun out b => (escape b).reverse ++ out) out = (escaped bs).reverse ++ out := by
  induction bs generalizing out with
  | nil => rfl
  | cons b bs ih => simp [ih, escaped]

theorem writeString_eq (s : String) (out : Bytes) :
    writeString s out = (0x22 :: (escaped (Bytes.ofText s) ++ [0x22])).reverse ++ out := by
  rw [writeString, foldl_escape]
  simp

theorem writeKey_append (k : Datum) (out : Bytes) : writeKey k out = writeKey k [] ++ out := by
  cases k <;> simp [writeKey, writeString_eq]

mutual

theorem write_append : ∀ (d : Datum) (out : Bytes), write d out = write d [] ++ out
  | .null, _ => by simp [write]
  | .bool _, _ => by simp [write]
  | .int _, _ => by simp [write]
  | .double _, _ => by simp [write]
  | .single _, _ => by simp [write]
  | .text _, _ => by simp [write, writeString_eq]
  | .list items, out => by
    simp only [write]
    rw [writeItems_append items true (0x5b :: out), writeItems_append items true [0x5b]]
    simp
  | .map entries, out => by
    simp only [write]
    rw [writeEntries_append entries true (0x7b :: out), writeEntries_append entries true [0x7b]]
    simp

theorem writeItems_append : ∀ (ds : List Datum) (first : Bool) (out : Bytes),
    writeItems ds first out = writeItems ds first [] ++ out
  | [], _, _ => rfl
  | d :: ds, first, out => by
    simp only [writeItems]
    rw [writeItems_append ds false (write d _), writeItems_append ds false (write d (ite _ [] _)),
      write_append d (ite _ out _), write_append d (ite _ [] _)]
    cases first <;> simp

theorem writeEntries_append : ∀ (es : List (Datum × Datum)) (first : Bool) (out : Bytes),
    writeEntries es first out = writeEntries es first [] ++ out
  | [], _, _ => rfl
  | (k, v) :: es, first, out => by
    simp only [writeEntries]
    rw [writeEntries_append es false (write v _),
      writeEntries_append es false (write v (0x3a :: writeKey k (ite _ [] _))),
      write_append v (0x3a :: writeKey k (ite _ out _)),
      write_append v (0x3a :: writeKey k (ite _ [] _)),
      writeKey_append k (ite _ out _), writeKey_append k (ite _ [] _)]
    cases first <;> simp

end

theorem write_eq (d : Datum) (out : Bytes) : write d out = (written d).reverse ++ out := by
  rw [write_append, written, List.reverse_reverse]

theorem written_text (s : String) :
    written (.text s) = 0x22 :: (escaped (Bytes.ofText s) ++ [0x22]) := by
  simp [written, write, writeString_eq]

theorem written_int (n : Int) : written (.int n) = integer n := by simp [written, write]

/-- The fields of a record with what stands before each, without braces. -/
def fieldBytes : Bool → Entries → Bytes
  | _, [] => []
  | first, e :: es =>
    (if first then [] else [0x2c]) ++ written (.text e.1.name) ++ 0x3a :: written e.2 ++
      fieldBytes false es

theorem writeEntries_named (es : Entries) (first : Bool) (out : Bytes) :
    writeEntries (es.map fun e => (.text e.1.name, e.2)) first out =
      (fieldBytes first es).reverse ++ out := by
  induction es generalizing first out with
  | nil => rfl
  | cons e es ih =>
    rw [List.map_cons, writeEntries, ih, write_eq, writeKey, writeString_eq, ← written_text]
    cases first <;> simp [fieldBytes]

theorem written_datum (es : Entries) : written es.datum = 0x7b :: (fieldBytes true es ++ [0x7d]) := by
  have h := writeEntries_named es true [0x7b]
  simp only [Entries.datum, Datum.record, Entries.named, List.map_map, written, write,
    Function.comp_def, h]
  simp

/-! ### Strings -/

theorem hexDigit_plain : ∀ d, d < 16 → hexDigit d ≠ 0x22 ∧ hexDigit d ≠ 0x5c := by decide

theorem hexValue?_hexDigit : ∀ d, d < 16 → hexValue? (hexDigit d) = some d := by decide

theorem utf8_control : ∀ n, n < 32 → String.utf8EncodeChar (Char.ofNat n) = [UInt8.ofNat n] := by
  decide

theorem splitString?_quote (bs out : Bytes) :
    splitString? (0x22 :: bs) out = some (out.reverse, bs) := by
  rw [splitString?.eq_def]
  rfl

theorem splitString?_pair (e : UInt8) (bs out : Bytes) :
    splitString? (0x5c :: e :: bs) out = splitString? bs (e :: 0x5c :: out) := by
  rw [splitString?.eq_def]
  rfl

theorem splitString?_plain {b : UInt8} (hq : b ≠ 0x22) (hs : b ≠ 0x5c) (bs out : Bytes) :
    splitString? (b :: bs) out = splitString? bs (b :: out) := by
  rw [splitString?.eq_def]
  simp [hq, hs]

/-- A byte is escaped by a letter, or by its code point, or stands for itself. -/
theorem escape_cases (b : UInt8) :
    (∃ e, escape b = [0x5c, e] ∧ e ≠ 0x75 ∧ unescape? e = some b) ∨
    (b.toNat < 32 ∧ escape b =
      [0x5c, 0x75, 0x30, 0x30, hexDigit (b.toNat / 16), hexDigit (b.toNat % 16)]) ∨
    (escape b = [b] ∧ b ≠ 0x22 ∧ b ≠ 0x5c ∧ ¬ b < 0x20) := by
  have letter : ∀ (c e : UInt8), b = c → e ≠ 0x75 → unescape? e = some c →
      ∃ e', [(0x5c : UInt8), e] = [0x5c, e'] ∧ e' ≠ 0x75 ∧ unescape? e' = some b :=
    fun c e hb hu he => ⟨e, rfl, hu, hb ▸ he⟩
  unfold escape
  split
  · exact .inl (letter 0x22 0x22 (by simpa using ‹(b == 0x22) = true›) (by decide) (by decide))
  split
  · exact .inl (letter 0x5c 0x5c (by simpa using ‹(b == 0x5c) = true›) (by decide) (by decide))
  split
  · exact .inl (letter 0x08 0x62 (by simpa using ‹(b == 0x08) = true›) (by decide) (by decide))
  split
  · exact .inl (letter 0x0c 0x66 (by simpa using ‹(b == 0x0c) = true›) (by decide) (by decide))
  split
  · exact .inl (letter 0x0a 0x6e (by simpa using ‹(b == 0x0a) = true›) (by decide) (by decide))
  split
  · exact .inl (letter 0x0d 0x72 (by simpa using ‹(b == 0x0d) = true›) (by decide) (by decide))
  split
  · exact .inl (letter 0x09 0x74 (by simpa using ‹(b == 0x09) = true›) (by decide) (by decide))
  split
  · rename_i hb
    exact .inr (.inl ⟨by simpa [UInt8.lt_iff_toNat_lt] using hb, rfl⟩)
  · rename_i hq hs _ _ _ _ _ hb
    exact .inr (.inr ⟨rfl, by simpa using hq, by simpa using hs, hb⟩)

/-- An escaped byte holds no quote that ends a string. -/
theorem splitString?_escape (b : UInt8) (more out : Bytes) :
    splitString? (escape b ++ more) out = splitString? more ((escape b).reverse ++ out) := by
  obtain ⟨e, he, -, -⟩ | ⟨hb, he⟩ | ⟨he, hq, hs, -⟩ := escape_cases b
  · rw [he]
    exact splitString?_pair e more out
  · have h1 := hexDigit_plain (b.toNat / 16) (by omega)
    have h2 := hexDigit_plain (b.toNat % 16) (by omega)
    rw [he]
    simp only [List.cons_append, List.nil_append, List.reverse_cons, List.reverse_nil]
    rw [splitString?_pair, splitString?_plain (by decide) (by decide),
      splitString?_plain (by decide) (by decide), splitString?_plain h1.1 h1.2,
      splitString?_plain h2.1 h2.2]
  · rw [he]
    exact splitString?_plain hq hs more out

theorem splitString?_escaped (bs rest out : Bytes) :
    splitString? (escaped bs ++ 0x22 :: rest) out =
      some (out.reverse ++ escaped bs, rest) := by
  induction bs generalizing out with
  | nil => simp [escaped, splitString?_quote]
  | cons b bs ih =>
    have h : escaped (b :: bs) = escape b ++ escaped bs := rfl
    rw [h, List.append_assoc, splitString?_escape, ih]
    simp

theorem scanCodePoint?_control {n : Nat} (h : n < 32) (more : Bytes) :
    scanCodePoint? (0x30 :: 0x30 :: hexDigit (n / 16) :: hexDigit (n % 16) :: more) =
      some (Char.ofNat n, more) := by
  have h0 : hexValue? 0x30 = some 0 := by decide
  have h1 := hexValue?_hexDigit (n / 16) (by omega)
  have h2 := hexValue?_hexDigit (n % 16) (by omega)
  have hn : n / 16 * 16 + n % 16 = n := by omega
  have hl : ¬ (0xDC00 ≤ n) := by omega
  have hm : ¬ (0xD800 ≤ n) := by omega
  simp [scanCodePoint?, scanUnit?, h0, h1, h2, hn, hl, hm]

theorem unescapeFrom?_escape (fuel : Nat) (b : UInt8) (more out : Bytes) :
    unescapeFrom? (fuel + 1) (escape b ++ more) out = unescapeFrom? fuel more (b :: out) := by
  obtain ⟨e, he, hu, hb⟩ | ⟨hb, he⟩ | ⟨he, -, hs, hb⟩ := escape_cases b
  · rw [he]
    simp [unescapeFrom?, hu, hb]
  · have hc := utf8_control b.toNat hb
    rw [he]
    simp [unescapeFrom?, scanCodePoint?_control hb, hc]
  · rw [he, List.cons_append, List.nil_append, unescapeFrom?.eq_def]
    simp only [beq_iff_eq, hs, hb, if_false]

theorem unescapeFrom?_escaped (bs out : Bytes) (fuel : Nat) (h : bs.length < fuel) :
    unescapeFrom? fuel (escaped bs) out = some (out.reverse ++ bs) := by
  induction bs generalizing fuel out with
  | nil =>
    obtain ⟨fuel, rfl⟩ : ∃ n, fuel = n + 1 := ⟨fuel - 1, by simp at h; omega⟩
    simp [escaped, unescapeFrom?]
  | cons b bs ih =>
    simp only [List.length_cons] at h
    obtain ⟨fuel, rfl⟩ : ∃ n, fuel = n + 1 := ⟨fuel - 1, by omega⟩
    have he : escaped (b :: bs) = escape b ++ escaped bs := rfl
    rw [he, unescapeFrom?_escape, ih _ _ (by omega)]
    simp

theorem length_escape (b : UInt8) : 1 ≤ (escape b).length := by
  obtain ⟨e, he, -, -⟩ | ⟨-, he⟩ | ⟨he, -, -, -⟩ := escape_cases b <;> simp [he]

theorem length_escaped (bs : Bytes) : bs.length ≤ (escaped bs).length := by
  induction bs with
  | nil => simp
  | cons b bs ih =>
    have he : escaped (b :: bs) = escape b ++ escaped bs := rfl
    have := length_escape b
    rw [he, List.length_append, List.length_cons]
    omega

/-- **A string is scanned as it was written.** -/
theorem scanString?_escaped (bs rest : Bytes) :
    scanString? (escaped bs ++ 0x22 :: rest) = some (bs, rest) := by
  have hl := length_escaped bs
  have hu := unescapeFrom?_escaped bs [] ((escaped bs).length + 1) (by omega)
  simp only [List.reverse_nil, List.nil_append] at hu
  simp [scanString?, splitString?_escaped, hu]

/-! ### Numbers -/

theorem isDigit_digit : ∀ d, d < 10 → isDigit (digit d) = true := by decide

theorem toNat_digit : ∀ d, d < 10 → (digit d).toNat - 0x30 = d := by decide

theorem digit_pos : ∀ d, d < 10 → 0 < d → digit d ≠ 0x30 := by decide

theorem digits_isDigit (n : Nat) : ∀ b ∈ digits n, isDigit b = true := by
  fun_induction digits n with
  | case1 n h =>
    intro b hb
    rw [List.mem_singleton.mp hb]
    exact isDigit_digit n h
  | case2 n h ih =>
    intro b hb
    rcases List.mem_append.mp hb with hb | hb
    · exact ih b hb
    · rw [List.mem_singleton.mp hb]
      exact isDigit_digit _ (by omega)

theorem digits_ne_nil (n : Nat) : digits n ≠ [] := by
  rw [digits]
  split <;> simp

theorem head?_digits {n : Nat} (h : 0 < n) : (digits n).head? ≠ some 0x30 := by
  fun_induction digits n with
  | case1 n hn => simpa using digit_pos n hn h
  | case2 n hn ih =>
    have ih := ih (by omega)
    rw [List.head?_append]
    cases hd : (digits (n / 10)).head? with
    | none => exact absurd (List.head?_eq_none_iff.mp hd) (digits_ne_nil _)
    | some b => simpa [hd] using ih

theorem takeDigits_append (xs ys : Bytes) (n : Nat) :
    takeDigits n (xs ++ ys) =
      if (takeDigits n xs).2 = 0 then takeDigits (takeDigits n xs).1 ys
      else ((takeDigits n xs).1, (takeDigits n xs).2 + ys.length) := by
  induction xs generalizing n with
  | nil => simp [takeDigits]
  | cons x xs ih =>
    simp only [List.cons_append, takeDigits]
    split
    · exact ih _
    · simp
      omega

theorem takeDigits_digits {n : Nat} (h : n ≤ wordMax) : takeDigits 0 (digits n) = (n, 0) := by
  fun_induction digits n with
  | case1 n hn =>
    have hd := toNat_digit n hn
    simp [takeDigits, hd, h]
  | case2 n hn ih =>
    have ih := ih (by omega)
    have hd := toNat_digit (n % 10) (by omega)
    have hn : n / 10 * 10 + n % 10 = n := by omega
    rw [takeDigits_append, ih]
    simp [takeDigits, hd, hn, h]

/-- What follows a value in a record: a comma or the closing brace. -/
def Ends (rest : Bytes) : Prop := rest.head? = some 0x2c ∨ rest.head? = some 0x7d

theorem Ends.cases {rest : Bytes} (h : Ends rest) :
    ∃ more, rest = 0x2c :: more ∨ rest = 0x7d :: more := by
  cases rest with
  | nil => simp [Ends] at h
  | cons b more =>
    simp only [Ends, List.head?_cons, Option.some.injEq] at h
    exact ⟨more, h.imp (congrArg (· :: more)) (congrArg (· :: more))⟩

theorem scanDigits?_digits (n : Nat) {rest : Bytes} (h : Ends rest) :
    scanDigits? (digits n ++ rest) = some (digits n, rest) := by
  have hd := digits_isDigit n
  have hr : rest.takeWhile isDigit = [] ∧ rest.dropWhile isDigit = rest := by
    obtain ⟨more, rfl | rfl⟩ := h.cases <;> exact ⟨rfl, rfl⟩
  have ht : (digits n ++ rest).takeWhile isDigit = digits n := by
    rw [List.takeWhile_append_of_pos hd, hr.1, List.append_nil]
  have hw : (digits n ++ rest).dropWhile isDigit = rest := by
    rw [List.dropWhile_append_of_pos hd, hr.2]
  simp [scanDigits?, List.span_eq_takeWhile_dropWhile, ht, hw, digits_ne_nil]

theorem scanWhole?_digits (n : Nat) {rest : Bytes} (h : Ends rest) :
    scanWhole? (digits n ++ rest) = some (digits n, rest) := by
  have hz : ¬ (1 < (digits n).length ∧ (digits n).head? = some 0x30) := by
    rintro ⟨hl, hh⟩
    rcases Nat.eq_zero_or_pos n with rfl | hn
    · simp [digits] at hl
    · exact head?_digits hn hh
  simp [scanWhole?, scanDigits?_digits n h, hz]

theorem head_digits (n : Nat) : ∃ b bs, digits n = b :: bs ∧ isDigit b = true := by
  cases h : digits n with
  | nil => exact absurd h (digits_ne_nil n)
  | cons b bs => exact ⟨b, bs, rfl, digits_isDigit n b (by rw [h]; exact List.mem_cons_self)⟩

theorem skipBlanks_cons {b : UInt8} (h : isBlank b = false) (bs : Bytes) :
    skipBlanks (b :: bs) = b :: bs := by
  simp [skipBlanks, h]

theorem isBlank_of_isDigit {b : UInt8} (h : isDigit b = true) : isBlank b = false := by
  simp only [isDigit, Bool.and_eq_true, decide_eq_true_eq, UInt8.le_iff_toNat_le] at h
  simp only [isBlank, Bool.or_eq_false_iff, beq_eq_false_iff_ne, ne_eq, ← UInt8.toNat_inj]
  simp at *
  omega

theorem skipBlanks_digits (n : Nat) (rest : Bytes) :
    skipBlanks (digits n ++ rest) = digits n ++ rest := by
  obtain ⟨b, bs, hd, hb⟩ := head_digits n
  rw [hd]
  exact skipBlanks_cons (isBlank_of_isDigit hb) _

/-- **A number is scanned as it was written.** -/
theorem scanNumeral?_digits (n : Nat) {rest : Bytes} (h : Ends rest) :
    scanNumeral? (digits n ++ rest) = some (⟨false, digits n, none, none⟩, rest) := by
  have hw := scanWhole?_digits n h
  obtain ⟨b, bs, hd, hb⟩ := head_digits n
  have hm : b ≠ 0x2d := by rintro rfl; exact absurd hb (by decide)
  have hf : scanFraction? rest = some (none, rest) := by
    obtain ⟨more, rfl | rfl⟩ := h.cases <;> rfl
  have he : scanExponent? rest = some (none, rest) := by
    obtain ⟨more, rfl | rfl⟩ := h.cases <;> rfl
  rw [hd] at hw ⊢
  simp only [List.cons_append] at hw ⊢
  unfold scanNumeral?
  split
  rename_i negative unsigned heq
  split at heq
  · rename_i hcons
    exact absurd (List.cons.inj hcons).1 hm
  · obtain ⟨rfl, rfl⟩ := Prod.mk.inj heq
    simp [hw, hf, he]

theorem readNumber_digits {n : Nat} (hn : n ≤ wordMax) {rest : Bytes} (h : Ends rest) :
    readNumber (digits n ++ rest) = .ok (.int n, rest) := by
  have hv : (⟨false, digits n, none, none⟩ : Numeral).value? = some (.int n) := by
    simp [Numeral.value?, takeDigits_digits hn]
  rw [readNumber, skipBlanks_digits, scanNumeral?_digits n h]
  simp [require, bind, Except.bind, pure, Except.pure, hv]

/-! ### Fields and records -/

theorem readByte_cons {b : UInt8} (h : isBlank b = false) (bs : Bytes) :
    readByte b (b :: bs) = .ok bs := by
  simp [readByte, skipBlanks_cons h, scanWord?, require]

theorem readText_written (s : String) (rest : Bytes) :
    readText (written (.text s) ++ rest) = .ok (s, rest) := by
  rw [written_text, readText, List.cons_append, readByte_cons (by decide)]
  have hs := scanString?_escaped (Bytes.ofText s) rest
  simp [require, bind, Except.bind, pure, Except.pure, hs, Bytes.toText?_ofText]

theorem readScalar_written {k : Scalar} {d : Datum} (ht : k.Takes d) {rest : Bytes}
    (h : Ends rest) : readScalar k (written d ++ rest) = .ok (d, rest) := by
  unfold Scalar.Takes at ht
  split at ht
  · rw [readScalar, readText_written]
    rfl
  · rw [readScalar, readText_written]
    simp [bind, Except.bind, pure, Except.pure, ht]
  · rename_i w n
    obtain ⟨hw, h0, hn⟩ := ht
    obtain ⟨m, rfl⟩ : ∃ m : Nat, n = m := ⟨n.toNat, by omega⟩
    have hi : written (.int (m : Int)) = digits m := by
      rw [written_int, integer, if_neg (by omega)]
      simp
    have hm : m ≤ wordMax := by simp only [wordMax]; omega
    have hr : refuseText (Scalar.int w).wanted (digits m ++ rest) = .ok () := by
      obtain ⟨b, bs, hd, hb⟩ := head_digits m
      have hq : b ≠ 0x22 := by rintro rfl; exact absurd hb (by decide)
      rw [refuseText, skipBlanks_digits, hd, List.cons_append]
      split
      · rename_i heq
        simp only [List.cons.injEq] at heq
        exact absurd heq.1 hq
      · rfl
    rw [hi, readScalar, hr]
    simp [bind, Except.bind, pure, Except.pure, readNumber_digits hm h, hw]
  · exact ht.elim

theorem ends_fieldBytes (es : Entries) (rest : Bytes) :
    Ends (fieldBytes false es ++ 0x7d :: rest) := by
  cases es with
  | nil => exact .inr rfl
  | cons e es => exact .inl rfl

/-- Where a field is left, the object does not end. -/
theorem notClosed_fieldBytes (first : Bool) (e : Field × Datum) (es : Entries) (rest : Bytes) :
    scanWord? [0x7d] (skipBlanks (fieldBytes first (e :: es) ++ rest)) = none := by
  cases first
  · simp only [fieldBytes, Bool.false_eq_true, if_false, List.cons_append]
    rw [skipBlanks_cons (by decide)]
    rfl
  · simp only [fieldBytes, if_true, List.nil_append, List.cons_append, written_text]
    rw [skipBlanks_cons (by decide)]
    rfl

/-- **The fields that are left are read one after the other.** -/
theorem readFields_written (done left : Entries) (first : Bool) (limit fuel : Nat) (rest : Bytes)
    (hd : Entries.Distinct (done ++ left)) (hv : ∀ e ∈ left, e.1.kind.Takes e.2)
    (hf : left.length < fuel) :
    readFields (Entries.fields (done ++ left)) limit fuel (fieldBytes first left ++ 0x7d :: rest)
      first (Entries.found done left) = .ok (Entries.found (done ++ left) [], rest) := by
  induction left generalizing done first fuel with
  | nil =>
    obtain ⟨fuel, rfl⟩ : ∃ n, fuel = n + 1 := ⟨fuel - 1, by simp at hf; omega⟩
    rw [readFields, fieldBytes, List.nil_append, skipBlanks_cons (by decide)]
    simp [scanWord?]
  | cons e left ih =>
    simp only [List.length_cons] at hf
    obtain ⟨fuel, rfl⟩ : ∃ n, fuel = n + 1 := ⟨fuel - 1, by omega⟩
    have ht := hv e List.mem_cons_self
    have hshift : done ++ e :: left = (done ++ [e]) ++ left := by simp
    have ih := ih (done ++ [e]) false fuel (hshift ▸ hd)
      (fun x hx => hv x (List.mem_cons_of_mem _ hx)) (by omega)
    have hends := ends_fieldBytes left rest
    have hcolon (bs : Bytes) : readByte 0x3a (0x3a :: bs) = .ok bs := readByte_cons (by decide) bs
    rw [readFields, notClosed_fieldBytes]
    cases first
    · have hcomma (bs : Bytes) : readByte 0x2c (0x2c :: bs) = .ok bs :=
        readByte_cons (by decide) bs
      simp only [fieldBytes, Bool.false_eq_true, if_false, List.append_assoc, List.cons_append,
        List.nil_append, bind, Except.bind, hcomma, readText_written, Entries.find?_eq hd,
        Entries.getD_found, Option.isSome_none, hcolon, readScalar_written ht hends,
        Entries.set_found]
      rw [hshift]
      exact ih
    · simp only [fieldBytes, if_true, List.append_assoc, List.cons_append, List.nil_append, bind,
        Except.bind, pure, Except.pure, readText_written, Entries.find?_eq hd,
        Entries.getD_found, Option.isSome_none, Bool.false_eq_true, if_false, hcolon,
        readScalar_written ht hends, Entries.set_found]
      rw [hshift]
      exact ih

theorem length_fieldBytes (es : Entries) (first : Bool) : es.length ≤ (fieldBytes first es).length := by
  induction es generalizing first with
  | nil => simp
  | cons e es ih =>
    have := ih false
    simp only [fieldBytes, List.length_append, List.length_cons]
    omega

/-- **A record is read as it was written.** -/
theorem read_written_record (name : String) (es : Entries) (hd : es.Distinct)
    (hv : ∀ e ∈ es, e.1.kind.Takes e.2) :
    read (.record name es.fields) (written es.datum) = .ok es.datum := by
  have hl := length_fieldBytes es true
  have hf := fun limit => readFields_written [] es true limit
    ((fieldBytes true es ++ [0x7d]).length + 1) [] hd hv
    (by simp only [List.length_append, List.length_cons]; omega)
  simp only [List.nil_append, Entries.found_nil] at hf
  rw [written_datum]
  have hb : skipBlanks (0x7b :: (fieldBytes true es ++ [0x7d])) =
      0x7b :: (fieldBytes true es ++ [0x7d]) := skipBlanks_cons (by decide) _
  simp only [read, readShape, refuseText, hb, bind, Except.bind, readRecord, hf, require,
    Entries.assemble?_eq, pure, Except.pure]
  rfl

/-! ### Lines -/

theorem not_mem_escape (b : UInt8) : 0x0a ∉ escape b := by
  have hx : ∀ d, d < 16 → hexDigit d ≠ 0x0a := by decide
  obtain ⟨e, he, -, hu⟩ | ⟨hb, he⟩ | ⟨he, -, -, hb⟩ := escape_cases b
  · have hn : e ≠ 0x0a := by
      rintro rfl
      cases hu
    simp [he, hn.symm]
  · have h1 := hx (b.toNat / 16) (by omega)
    have h2 := hx (b.toNat % 16) (by omega)
    simp [he, h1.symm, h2.symm]
  · have hn : b ≠ 0x0a := by
      rintro rfl
      exact hb (by decide)
    simp [he, hn.symm]

theorem not_mem_text (s : String) : 0x0a ∉ written (.text s) := by
  simp only [written_text, List.mem_cons, List.mem_append, List.not_mem_nil, or_false, not_or]
  refine ⟨by decide, fun hm => ?_, by decide⟩
  obtain ⟨b, -, hb⟩ := List.mem_flatMap.mp hm
  exact not_mem_escape b hb

theorem not_mem_int (n : Int) : 0x0a ∉ written (.int n) := by
  have hd : 0x0a ∉ digits n.natAbs := fun hm => by
    have h := digits_isDigit _ _ hm
    revert h
    decide
  rw [written_int, integer]
  split
  · simp [hd]
  · exact hd

theorem not_mem_fieldBytes {es : Entries} (h : ∀ e ∈ es, 0x0a ∉ written e.2) (first : Bool) :
    0x0a ∉ fieldBytes first es := by
  induction es generalizing first with
  | nil => simp [fieldBytes]
  | cons e es ih =>
    have he := h e List.mem_cons_self
    have ih := ih (fun x hx => h x (List.mem_cons_of_mem _ hx)) false
    have hn := not_mem_text e.1.name
    cases first <;> simp [fieldBytes, he, ih, hn]

/-- **A record is written in one line.** -/
theorem not_mem_written_record {es : Entries} (h : ∀ e ∈ es, e.1.kind.Takes e.2) :
    0x0a ∉ written es.datum := by
  have hv : ∀ e ∈ es, 0x0a ∉ written e.2 := by
    intro e he
    have ht := h e he
    revert ht
    cases e.2 with
    | text s => exact fun _ => not_mem_text s
    | int n => exact fun _ => not_mem_int n
    | _ => exact fun ht => by cases hk : e.1.kind <;> simp [hk, Scalar.Takes] at ht
  have hf := not_mem_fieldBytes hv true
  simp [written_datum, hf]

end Json
end Callwire
