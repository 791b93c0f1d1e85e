/-
# A record in MessagePack is read as it was written

A record travels as a map of its fields in order. Reading it gives the record
back, whatever follows it: every text whose length a word of 32 bits holds,
every integer that is not negative.

Key definitions: `MessagePack.Short`.
Key theorems: `MessagePack.write_eq`, `MessagePack.print_map`,
`MessagePack.readFields_written`, `MessagePack.read_print_record`.
-/
import Callwire.MessagePack.Printer
import Callwire.MessagePack.Reader
import Callwire.Proofs.Codec.Record
import Callwire.Proofs.Words

namespace Callwire
namespace MessagePack

open Reading (require)

/-! ### What is written -/

mutual

theorem write_append : ∀ (d : Datum) (out : Bytes), write d out = write d [] ++ out
  | .null, _ => rfl
  | .bool _, _ => rfl
  | .int _, _ => by simp [write]
  | .double _, _ => by simp [write]
  | .single _, _ => by simp [write]
  | .text _, _ => by simp [write]
  | .list items, out => by
    simp only [write, List.append_nil]
    rw [writeItems_append items (_ ++ out), writeItems_append items (List.reverse _)]
    simp
  | .map entries, out => by
    simp only [write, List.append_nil]
    rw [writeEntries_append entries (_ ++ out), writeEntries_append entries (List.reverse _)]
    simp

theorem writeItems_append : ∀ (ds : List Datum) (out : Bytes),
    writeItems ds out = writeItems ds [] ++ out
  | [], _ => rfl
  | d :: ds, out => by
    simp only [writeItems]
    rw [writeItems_append ds (write d out), writeItems_append ds (write d []), write_append d out]
    simp

theorem writeEntries_append : ∀ (es : List (Datum × Datum)) (out : Bytes),
    writeEntries es out = writeEntries es [] ++ out
  | [], _ => rfl
  | (k, v) :: es, out => by
    simp only [writeEntries]
    rw [writeEntries_append es (write v (write k out)),
      writeEntries_append es (write v (write k [])), write_append v (write k out),
      write_append v (write k []), write_append k out]
    simp

end

theorem write_eq (d : Datum) (out : Bytes) : write d out = (print d).reverse ++ out := by
  rw [write_append, print, List.reverse_reverse]

theorem writeEntries_eq (es : List (Datum × Datum)) (out : Bytes) :
    writeEntries es out = (es.flatMap fun e => print e.1 ++ print e.2).reverse ++ out := by
  induction es generalizing out with
  | nil => rfl
  | cons e es ih =>
    obtain ⟨k, v⟩ := e
    rw [writeEntries, ih, write_eq, write_eq]
    simp

theorem print_map (es : List (Datum × Datum)) :
    print (.map es) = mapHead es.length ++ es.flatMap fun e => print e.1 ++ print e.2 := by
  simp [print, write, writeEntries_eq]

theorem print_text (s : String) : print (.text s) = string s := by simp [print, write]

theorem print_int (n : Int) : print (.int n) = integer n := by simp [print, write]

/-! ### Heads -/

theorem toNat_byte {n : Nat} (h : n < 256) : (byte n).toNat = n := by
  simp [byte, Nat.mod_eq_of_lt h]

theorem split?_word (k n : Nat) (rest : Bytes) :
    Bytes.split? k (Bytes.word k n ++ rest) = some (Bytes.word k n, rest) := by
  have h := Bytes.split?_append (Bytes.word k n) rest
  rwa [Bytes.length_word] at h

theorem headOf_word {k n : Nat} (make : Nat → Head) (rest : Bytes) (h : n < 256 ^ k) :
    headOf k (fun w => make (Bytes.toNat w)) (Bytes.word k n ++ rest) = some (make n, rest) := by
  simp [headOf, split?_word, Bytes.toNat_word h]

theorem readHead?_string {len : Nat} (h : len < 2 ^ 32) (rest : Bytes) :
    readHead? (stringHead len ++ rest) = some (.string len, rest) := by
  unfold stringHead
  split
  · rename_i hl
    have hb := toNat_byte (n := 0xa0 + len) (by omega)
    simp only [List.cons_append, List.nil_append, readHead?, hb]
    rw [if_neg (by omega), if_neg (by omega), if_neg (by omega), if_pos (by omega)]
    simp
  · split
    · exact headOf_word .string rest (by omega)
    · split
      · exact headOf_word .string rest (by omega)
      · exact headOf_word .string rest (by omega)

theorem readHead?_natural {n : Nat} (h : n < 2 ^ 64) (rest : Bytes) :
    readHead? (natural n ++ rest) = some (.natural n, rest) := by
  unfold natural
  split
  · rename_i hl
    have hb := toNat_byte (n := n) (by omega)
    simp only [List.cons_append, List.nil_append, readHead?, hb]
    rw [if_pos hl]
  · split
    · exact headOf_word .natural rest (by omega)
    · split
      · exact headOf_word .natural rest (by omega)
      · split
        · exact headOf_word .natural rest (by omega)
        · exact headOf_word .natural rest (by omega)

theorem readHead?_map {len : Nat} (h : len < 16) (rest : Bytes) :
    readHead? (mapHead len ++ rest) = some (.map len, rest) := by
  have hb := toNat_byte (n := 0x80 + len) (by omega)
  rw [mapHead, if_pos h]
  simp only [List.cons_append, List.nil_append, readHead?, hb]
  rw [if_neg (by omega), if_pos (by omega)]
  simp

/-! ### Texts, integers, fields -/

/-- The length of every text fits a word of 32 bits. -/
def Short : Datum → Prop
  | .text s => (Bytes.ofText s).length < 2 ^ 32
  | _ => True

theorem readText?_written (s : String) (rest : Bytes) :
    readText? (.string (Bytes.ofText s).length) (Bytes.ofText s ++ rest) = some (s, rest) := by
  simp [readText?, Bytes.split?_append, Bytes.toText?_ofText]

theorem readHead?_written {s : String} (h : Short (.text s)) (rest : Bytes) :
    readHead? (string s ++ rest) =
      some (.string (Bytes.ofText s).length, Bytes.ofText s ++ rest) := by
  rw [string, List.append_assoc, readHead?_string h]

theorem readScalar_written {k : Scalar} {d : Datum} (ht : k.Takes d) (hs : Short d)
    (rest : Bytes) : readScalar k (print d ++ rest) = .ok (d, rest) := by
  unfold Scalar.Takes at ht
  split at ht
  · rename_i s
    rw [print_text, readScalar, readHead?_written hs]
    simp [require, bind, Except.bind, pure, Except.pure, ofHead, readText?_written]
  · rename_i s
    rw [print_text, readScalar, readHead?_written hs]
    simp [require, bind, Except.bind, pure, Except.pure, ofHead, readText?_written, ht]
  · rename_i w n
    obtain ⟨hw, h0, hn⟩ := ht
    obtain ⟨m, rfl⟩ : ∃ m : Nat, n = m := ⟨n.toNat, by omega⟩
    have hi : integer (m : Int) = natural m := by
      rw [integer, if_neg (by omega)]
      simp
    rw [print_int, hi, readScalar, readHead?_natural (by omega)]
    simp [require, bind, Except.bind, pure, Except.pure, ofHead, Head.int?, hw]
  · exact ht.elim

/-- A field with its name. -/
def entryBytes (e : Field × Datum) : Bytes := print (.text e.1.name) ++ print e.2

theorem readKey?_written {done left : Entries} {e : Field × Datum}
    (h : Entries.Distinct (done ++ e :: left)) (hs : Short (.text e.1.name)) (rest : Bytes) :
    readKey? (Entries.fields (done ++ e :: left)) (print (.text e.1.name) ++ rest) =
      some (some (done.length, e.1.kind), rest) := by
  simp [readKey?, print_text, readHead?_written hs, Bytes.split?_append, Bytes.toText?_ofText,
    Entries.find?_eq h]

/-- **The fields that are left are read one after the other.** -/
theorem readFields_written (done left : Entries) (rest : Bytes)
    (hd : Entries.Distinct (done ++ left))
    (hv : ∀ e ∈ left, e.1.kind.Takes e.2 ∧ Short e.2 ∧ Short (.text e.1.name)) :
    readFields (Entries.fields (done ++ left)) left.length (left.flatMap entryBytes ++ rest)
      (Entries.found done left) = .ok (Entries.found (done ++ left) [], rest) := by
  induction left generalizing done with
  | nil => simp [readFields]
  | cons e left ih =>
    obtain ⟨ht, hs, hk⟩ := hv e List.mem_cons_self
    have hshift : done ++ e :: left = (done ++ [e]) ++ left := by simp
    have ih := ih (done ++ [e]) (hshift ▸ hd) fun x hx => hv x (List.mem_cons_of_mem _ hx)
    simp only [List.length_cons, List.flatMap_cons, entryBytes, List.append_assoc]
    rw [readFields, readKey?_written hd hk]
    simp only [Entries.getD_found, Option.isSome_none, Bool.false_eq_true, if_false]
    rw [readScalar_written ht hs]
    simp only [Entries.set_found]
    rw [hshift]
    exact ih

/-- **A record is read as it was written.** -/
theorem read_print_record (name : String) (es : Entries) (hl : es.length < 16)
    (hd : es.Distinct)
    (hv : ∀ e ∈ es, e.1.kind.Takes e.2 ∧ Short e.2 ∧ Short (.text e.1.name)) :
    read (.record name es.fields) (print es.datum) = .ok es.datum := by
  have hp : print es.datum = mapHead es.length ++ (es.flatMap entryBytes ++ []) := by
    rw [Entries.datum, Datum.record, Entries.named, print_map]
    simp only [List.length_map, List.map_map, List.flatMap_map, List.append_nil]
    rfl
  have hf := readFields_written [] es [] hd hv
  simp only [List.nil_append, Entries.found_nil] at hf
  rw [hp, read, readShape, readHead?_map hl]
  · simp only [require, bind, Except.bind, refuseText, ofHeadParts, readRecord, hf,
      Entries.assemble?_eq, pure, Except.pure, Except.map]
    rfl
  all_goals simp

end MessagePack
end Callwire
