/-
# Which texts are addresses

A text is well formed if it has one at sign and something after it. It is an address exactly if
also the name before the at sign stands for a protocol; the address has that protocol, and the
rest is its place. Any other text is refused: for its form, whatever the name says, and for the
name only if the form is right. An address is read back from its text if its place is not empty
and has no at sign, as is so of every address that was ever read.

Key definitions: `Protocol.names`, `Address.Malformed`, `Address.Written`.
Key theorems: `Protocol.parse_eq_ok_iff`, `Protocol.parse_eq_error_iff`,
`Address.malformed_or_written`, `Address.parse_of_written`, `Address.grammar`.
-/
import Mathlib
import Callwire.Address

namespace Callwire

namespace Protocol

variable {s : String} {p : Protocol} {e : DiscoveryFault}

/-- The names that stand for a protocol. -/
def names : Protocol → List String
  | tcp => ["tcp", "tcp4", "tcp6"]
  | http => ["http"]
  | unix => ["unix"]

theorem name_mem_names (p : Protocol) : p.name ∈ p.names := by
  cases p <;> decide

theorem at_notMem_name (p : Protocol) : '@' ∉ p.name.toList := by
  cases p <;> decide

theorem parse_eq_ok_iff : parse s = .ok p ↔ s ∈ p.names := by
  constructor
  · intro h
    rw [parse] at h
    split_ifs at h with htcp hhttp hunix <;> cases h
    · simpa [names] using htcp
    · simpa [names] using hhttp
    · simpa [names] using hunix
  · cases p <;> simp only [names, List.mem_cons, List.not_mem_nil, or_false]
    · rintro (rfl | rfl | rfl) <;> rfl
    · rintro rfl
      rfl
    · rintro rfl
      rfl

theorem parse_cases (s : String) : (∃ p, parse s = .ok p) ∨ parse s = .error (.unknownProtocol s) := by
  rw [parse]
  split_ifs <;> simp

theorem parse_eq_error_iff :
    parse s = .error e ↔ (∀ p : Protocol, s ∉ p.names) ∧ e = .unknownProtocol s := by
  constructor
  · intro h
    refine ⟨fun p hp => ?_, ?_⟩
    · cases h.symm.trans (parse_eq_ok_iff.mpr hp)
    · rcases parse_cases s with ⟨p, hp⟩ | hs
      · cases hp.symm.trans h
      · exact Except.error.inj (h.symm.trans hs)
  · rintro ⟨hnames, rfl⟩
    rcases parse_cases s with ⟨p, hp⟩ | hs
    · exact absurd (parse_eq_ok_iff.mp hp) (hnames p)
    · exact hs

end Protocol

namespace Address

variable {s name place : String}

/-- There is no at sign, or nothing after it, or a second one. -/
def Malformed (s : String) : Prop :=
  '@' ∉ s.toList ∨ (∃ name, s = name ++ "@") ∨ 2 ≤ s.toList.count '@'

/-- The text has one at sign, `name` before it, and after it `place`, which is not empty. -/
structure Written (s name place : String) : Prop where
  parts : s = name ++ "@" ++ place
  once : s.toList.count '@' = 1
  somewhere : place ≠ ""

theorem toList_parts (name place : String) :
    (name ++ "@" ++ place).toList = name.toList ++ '@' :: place.toList := by
  simp

theorem written_iff : Written s name place ↔
    s.toList = name.toList ++ '@' :: place.toList ∧ '@' ∉ name.toList ∧ '@' ∉ place.toList ∧
      place ≠ "" := by
  have hparts : s = name ++ "@" ++ place ↔ s.toList = name.toList ++ '@' :: place.toList := by
    rw [← toList_parts, String.toList_inj]
  have hcount : (name.toList ++ '@' :: place.toList).count '@' = 1 ↔
      '@' ∉ name.toList ∧ '@' ∉ place.toList := by
    rw [List.count_append, List.count_cons_self, ← List.count_eq_zero, ← List.count_eq_zero]
    omega
  constructor
  · rintro ⟨h, honce, hplace⟩
    have hlist := hparts.mp h
    rw [hlist] at honce
    exact ⟨hlist, (hcount.mp honce).1, (hcount.mp honce).2, hplace⟩
  · rintro ⟨hlist, hname, hfree, hplace⟩
    exact ⟨hparts.mpr hlist, hlist ▸ hcount.mpr ⟨hname, hfree⟩, hplace⟩

theorem malformed_or_written (s : String) : Malformed s ∨ ∃ name place, Written s name place := by
  by_cases hmem : '@' ∈ s.toList
  · obtain ⟨a, b, hs, ha⟩ := List.eq_append_cons_of_mem hmem
    by_cases hb : '@' ∈ b
    · refine .inl (.inr (.inr ?_))
      have hpos := List.count_pos_iff.mpr hb
      rw [hs, List.count_append, List.count_cons_self]
      omega
    · by_cases hnil : b = []
      · refine .inl (.inr (.inl ⟨String.ofList a, String.toList_inj.mp ?_⟩))
        rw [hs, hnil]
        simp
      · refine .inr ⟨String.ofList a, String.ofList b, written_iff.mpr ⟨?_, ?_, ?_, ?_⟩⟩
        · simpa using hs
        · simpa using ha
        · simpa using hb
        · simpa using hnil
  · exact .inl (.inl hmem)

/-- What is refused for its form does not depend on the name. -/
theorem parse_of_malformed (h : Malformed s) : parse s = .error (.wrongFormat s) := by
  rw [parse]
  split
  · rfl
  · rename_i name place hsplit
    obtain ⟨hs, hname⟩ := Text.splitFirst?_eq_some_iff.mp hsplit
    rw [if_pos]
    rcases h with hmem | ⟨pre, rfl⟩ | hcount
    · exact absurd (hs ▸ List.mem_append_right name List.mem_cons_self) hmem
    · rcases List.eq_nil_or_concat' place with hnil | ⟨front, last, rfl⟩
      · exact .inl hnil
      · have hend : pre.toList ++ ['@'] = (name ++ '@' :: front) ++ [last] := by simpa using hs
        obtain rfl : '@' = last := (List.append_singleton_inj.mp hend).2
        exact .inr (List.mem_append_right front List.mem_cons_self)
    · rw [hs, List.count_append, List.count_cons_self, List.count_eq_zero.mpr hname] at hcount
      exact .inr (List.count_pos_iff.mp (by omega))

theorem parse_of_written (h : Written s name place) :
    parse s = (Protocol.parse name).map fun protocol => ⟨protocol, place⟩ := by
  obtain ⟨hs, hname, hfree, hplace⟩ := written_iff.mp h
  have hnil : place.toList ≠ [] := by simpa using hplace
  rw [parse, Text.splitFirst?_eq_some_iff.mpr ⟨hs, hname⟩]
  simp only [hnil, hfree, or_self, if_false, String.ofList_toList]
  cases Protocol.parse name <;> rfl

theorem parse_eq_ok_iff {a : Address} :
    parse s = .ok a ↔ ∃ name ∈ a.protocol.names, Written s name a.place := by
  constructor
  · intro h
    rcases malformed_or_written s with hbad | ⟨name, place, hs⟩
    · cases (parse_of_malformed hbad).symm.trans h
    · rw [parse_of_written hs] at h
      cases hp : Protocol.parse name with
      | error e =>
        rw [hp] at h
        cases h
      | ok p =>
        rw [hp] at h
        cases h
        exact ⟨name, Protocol.parse_eq_ok_iff.mp hp, hs⟩
  · rintro ⟨name, hname, hs⟩
    rw [parse_of_written hs, Protocol.parse_eq_ok_iff.mpr hname]
    rfl

theorem parse_eq_error_iff {e : DiscoveryFault} :
    parse s = .error e ↔ (Malformed s ∧ e = .wrongFormat s) ∨
      ∃ name place, Written s name place ∧ (∀ p : Protocol, name ∉ p.names) ∧
        e = .unknownProtocol name := by
  constructor
  · intro h
    rcases malformed_or_written s with hbad | ⟨name, place, hs⟩
    · exact .inl ⟨hbad, Except.error.inj (h.symm.trans (parse_of_malformed hbad))⟩
    · rw [parse_of_written hs] at h
      cases hp : Protocol.parse name with
      | ok p =>
        rw [hp] at h
        cases h
      | error e' =>
        rw [hp] at h
        cases h
        exact .inr ⟨name, place, hs, Protocol.parse_eq_error_iff.mp hp⟩
  · rintro (⟨hbad, rfl⟩ | ⟨name, place, hs, hname⟩)
    · exact parse_of_malformed hbad
    · rw [parse_of_written hs, Protocol.parse_eq_error_iff.mpr hname]
      rfl

theorem written_text {a : Address} (hplace : a.place ≠ "") (hfree : '@' ∉ a.place.toList) :
    Written a.text a.protocol.name a.place :=
  written_iff.mpr ⟨toList_parts .., Protocol.at_notMem_name a.protocol, hfree, hplace⟩

theorem parse_text {a : Address} (hplace : a.place ≠ "") (hfree : '@' ∉ a.place.toList) :
    parse a.text = .ok a :=
  parse_eq_ok_iff.mpr ⟨_, Protocol.name_mem_names a.protocol, written_text hplace hfree⟩

/-- **Which texts are addresses.** For every text:

* It is the address `a` if and only if it has one at sign, a name of the protocol of `a` before
  it, and after it the place of `a`, which is not empty.
* It is refused for its form if and only if it has no at sign, or nothing after it, or a second
  one. What the name says does not matter.
* It is refused for its name if and only if its form is right and the name stands for no
  protocol. Nothing else goes wrong.
* An address whose place is not empty and has no at sign is read back from its text.
* So is an address that was read from any text, also from one with another name of its protocol. -/
theorem grammar (s : String) :
    (∀ a, parse s = .ok a ↔ ∃ name ∈ a.protocol.names, Written s name a.place) ∧
    (∀ e, parse s = .error e ↔ (Malformed s ∧ e = .wrongFormat s) ∨
      ∃ name place, Written s name place ∧ (∀ p : Protocol, name ∉ p.names) ∧
        e = .unknownProtocol name) ∧
    (∀ a : Address, a.place ≠ "" → '@' ∉ a.place.toList → parse a.text = .ok a) ∧
    ∀ a, parse s = .ok a → parse a.text = .ok a := by
  refine ⟨fun a => parse_eq_ok_iff, fun e => parse_eq_error_iff, fun a => parse_text, fun a h => ?_⟩
  obtain ⟨name, -, hs⟩ := parse_eq_ok_iff.mp h
  obtain ⟨-, -, hfree, hplace⟩ := written_iff.mp hs
  exact parse_text hplace hfree

/-- A name that is not the first of its protocol is read, and written as the first one. Of two
faults the form is told, and names are told from each other by capitals. -/
theorem grammar_spelled :
    parse "tcp6@[::1]:9" = .ok ⟨.tcp, "[::1]:9"⟩ ∧ parse "tcp@[::1]:9" = .ok ⟨.tcp, "[::1]:9"⟩ ∧
      parse (text ⟨.unix, "a b"⟩) = .ok ⟨.unix, "a b"⟩ ∧
      parse "udp@a@" = .error (.wrongFormat "udp@a@") ∧ parse "TCP@a" = .error (.unknownProtocol "TCP") := by
  have hread : parse "tcp6@[::1]:9" = .ok ⟨.tcp, "[::1]:9"⟩ :=
    ((grammar _).1 _).mpr ⟨"tcp6", by decide, ⟨rfl, by decide, by decide⟩⟩
  refine ⟨hread, (grammar _).2.2.2 _ hread, (grammar "").2.2.1 _ (by decide) (by decide), ?_, ?_⟩
  · exact ((grammar _).2.1 _).mpr (.inl ⟨.inr (.inr (by decide)), rfl⟩)
  · refine ((grammar _).2.1 _).mpr (.inr ⟨"TCP", "a", ⟨rfl, by decide, by decide⟩, ?_, rfl⟩)
    rintro (_ | _ | _) <;> decide

end Address
end Callwire
