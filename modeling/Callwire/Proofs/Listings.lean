/-
# Lists of servers as text

A list of servers is written with separators between its items. What is read of it are the
pieces between separators, each without the white space around it, and the blank ones are left
out. So a list is read back from its text with any white space around its items, also where the
separator is white space itself: then it separates blank pieces. For this an item must not be
empty, have no white space at its ends and no separator; and of any text only such items are
read.

A registry lists its servers in a header or in the lines of a body, with the same result. But a
header is read only if all of it is visible ASCII, spaces and tabs; else it counts as none.

Key definitions: `Text.Blank`, `Text.Bare`, `Directory.join`, `Directory.Consists`,
`Directory.Listable`, `Directory.Holds`, `Directory.Replies`, `Directory.InHeader`,
`Directory.InBody`, `Directory.Visible`.
Key theorems: `Text.trimChars_append`, `Text.exists_trimChars`, `Directory.itemsOf_append_cons`,
`Directory.itemsOf_spaced`, `Directory.split_join`, `Directory.holds_split`,
`Directory.all_ofText`, `Directory.lists_read_back`.
-/
import Callwire.Directory
import Callwire.Proofs.Lossy

namespace Callwire

/-! ### White space -/

namespace Text

variable {cs front back core : List Char}

/-- There is nothing but white space. -/
def Blank (cs : List Char) : Prop := ∀ c ∈ cs, isBlank c = true

/-- There is no white space at the ends. -/
structure Bare (cs : List Char) : Prop where
  first : ∀ c ∈ cs.head?, isBlank c = false
  last : ∀ c ∈ cs.getLast?, isBlank c = false

theorem dropWhile_blank (hf : Blank front) (hc : ∀ c ∈ core.head?, isBlank c = false) :
    (front ++ core).dropWhile isBlank = core := by
  rw [List.dropWhile_append_of_pos hf]
  cases core with
  | nil => rfl
  | cons c cs => rw [List.dropWhile_cons_of_neg (by simp [hc c rfl])]

theorem trimChars_eq_nil_of_blank (h : Blank cs) : trimChars cs = [] := by
  rw [trimChars, List.dropWhile_eq_nil_iff.mpr h]
  rfl

theorem trimChars_append (hf : Blank front) (hb : Blank back) (hc : Bare core) :
    trimChars (front ++ core ++ back) = core := by
  cases core with
  | nil =>
    rw [List.append_nil]
    exact trimChars_eq_nil_of_blank fun c hm => (List.mem_append.mp hm).elim (hf c) (hb c)
  | cons c cs =>
    have hlast : ∀ x ∈ (c :: cs).reverse.head?, isBlank x = false := by
      rw [List.head?_reverse]
      exact hc.last
    have hback : Blank back.reverse := fun x hm => hb x (List.mem_reverse.mp hm)
    have hfront : (front ++ (c :: cs ++ back)).dropWhile isBlank = c :: cs ++ back := dropWhile_blank hf hc.first
    rw [trimChars, List.append_assoc, hfront, List.reverse_append, dropWhile_blank hback hlast,
      List.reverse_reverse]

/-- Trimming takes nothing else. -/
theorem exists_trimChars (cs : List Char) :
    ∃ front back, Blank front ∧ Blank back ∧ cs = front ++ trimChars cs ++ back := by
  refine ⟨cs.takeWhile isBlank, (cs.dropWhile isBlank).rtakeWhile isBlank, ?_, ?_, ?_⟩
  · exact fun c hm => List.mem_takeWhile_imp hm
  · exact fun c hm => List.mem_rtakeWhile_imp hm
  · calc cs = cs.takeWhile isBlank ++ cs.dropWhile isBlank := List.takeWhile_append_dropWhile.symm
      _ = cs.takeWhile isBlank ++ (trimChars cs ++ (cs.dropWhile isBlank).rtakeWhile isBlank) :=
        congrArg _ List.rdropWhile_append_rtakeWhile.symm
      _ = _ := (List.append_assoc ..).symm

theorem bare_trimChars (cs : List Char) : Bare (trimChars cs) where
  first c hc := by
    obtain ⟨rest, hrest⟩ : trimChars cs <+: cs.dropWhile isBlank := List.rdropWhile_prefix ..
    have hhead : (cs.dropWhile isBlank).head? = some c := by
      rw [← hrest, List.head?_append, Option.mem_def.mp hc]
      rfl
    have hnot := List.head?_dropWhile_not isBlank cs
    rwa [hhead] at hnot
  last c hc := by
    have hne : (cs.dropWhile isBlank).rdropWhile isBlank ≠ [] := fun hnil => by
      change trimChars cs = [] at hnil
      simp [hnil] at hc
    obtain rfl := Option.some.inj ((List.getLast?_eq_some_getLast hne).symm.trans hc)
    exact Bool.not_eq_true _ ▸ List.rdropWhile_last_not isBlank _ hne

theorem cut_eq_splitOn (sep : Char) (cs : List Char) : cut (· == sep) cs = cs.splitOn sep := by
  induction cs with
  | nil => simp [cut]
  | cons c cs ih =>
    rw [cut, List.splitOn_cons_eq_if_modifyHead, ih]
    split
    · rfl
    · split <;> simp_all

theorem notMem_of_mem_splitOn {sep : Char} {w : List Char} (h : w ∈ cs.splitOn sep) : sep ∉ w := by
  induction cs generalizing w with
  | nil =>
    rw [List.splitOn_nil, List.mem_singleton] at h
    simp [h]
  | cons c cs ih =>
    rw [List.splitOn_cons_eq_if_modifyHead] at h
    split at h
    · rcases List.mem_cons.mp h with rfl | hm
      · exact List.not_mem_nil
      · exact ih hm
    · rename_i hne
      obtain ⟨first, others, hcut⟩ := List.exists_cons_of_ne_nil (List.splitOn_ne_nil sep cs)
      rw [hcut] at h ih
      rcases List.mem_cons.mp h with rfl | hm
      · have hc : sep ≠ c := fun he => hne (beq_iff_eq.mpr he.symm)
        exact List.not_mem_cons_of_ne_of_not_mem hc (ih List.mem_cons_self)
      · exact ih (List.mem_cons_of_mem _ hm)

end Text

/-! ### Lists as text -/

namespace Directory

variable {sep : Char} {cs cs' front back : List Char} {a text : String} {items pieces : List String}

/-- The pieces with a separator between each two. -/
def join (sep : Char) (pieces : List String) : String := (String.singleton sep).intercalate pieces

/-- The text consists of these pieces: a separator stands between each two, and none in a piece. -/
structure Consists (sep : Char) (text : String) (pieces : List String) : Prop where
  ne_nil : pieces ≠ []
  free : ∀ w ∈ pieces, sep ∉ w.toList
  joined : text = join sep pieces

/-- What can be listed: it is not empty, and has no white space at its ends and no separator. -/
structure Listable (sep : Char) (a : String) : Prop where
  ne : a ≠ ""
  bare : Text.Bare a.toList
  free : sep ∉ a.toList

/-- The pieces hold the items in their order: an item stands in a piece of its own with white space
around it, and the other pieces are blank. -/
inductive Holds : List String → List String → Prop where
  | nil : Holds [] []
  | blank {piece : String} {pieces items : List String} :
      Text.Blank piece.toList → Holds pieces items → Holds (piece :: pieces) items
  | item {front back item : String} {pieces items : List String} :
      Text.Blank front.toList → Text.Blank back.toList → Holds pieces items →
      Holds ((front ++ item ++ back) :: pieces) (item :: items)

theorem toList_join (sep : Char) (pieces : List String) :
    (join sep pieces).toList = [sep].intercalate (pieces.map String.toList) := by
  rw [join, String.toList_intercalate, String.toList_singleton]

theorem exists_consists (sep : Char) (text : String) : ∃ pieces, Consists sep text pieces := by
  refine ⟨(text.toList.splitOn sep).map String.ofList, ?_, ?_, String.toList_inj.mp ?_⟩
  · simp
  · simp only [List.mem_map, forall_exists_index, and_imp, forall_apply_eq_imp_iff₂, String.toList_ofList]
    exact fun w hw => Text.notMem_of_mem_splitOn hw
  · rw [toList_join, List.map_map]
    simp [Function.comp_def, List.intercalate_splitOn]

/-! ### What a text is split into -/

/-- The pieces of a text without the white space around them, and without the blank ones. -/
def itemsOf (sep : Char) (cs : List Char) : List (List Char) :=
  ((Text.cut (· == sep) cs).map Text.trimChars).filter (!·.isEmpty)

theorem split_eq (sep : Char) (text : String) :
    split sep text = (itemsOf sep text.toList).map String.ofList := rfl

theorem itemsOf_append_cons (sep : Char) (cs cs' : List Char) :
    itemsOf sep (cs ++ sep :: cs') = itemsOf sep cs ++ itemsOf sep cs' := by
  simp only [itemsOf, Text.cut_eq_splitOn]
  rw [List.splitOn_append_cons_self, List.map_append, List.filter_append]

theorem itemsOf_of_free (h : sep ∉ cs) : itemsOf sep cs = [Text.trimChars cs].filter (!·.isEmpty) := by
  rw [itemsOf, Text.cut_eq_splitOn, List.splitOn_eq_singleton h]
  rfl

theorem itemsOf_cons_blank {c : Char} (h : Text.isBlank c = true) (cs : List Char) :
    itemsOf sep (c :: cs) = itemsOf sep cs := by
  by_cases hc : c = sep
  · subst hc
    exact itemsOf_append_cons c [] cs
  · obtain ⟨first, others, hcut⟩ := List.exists_cons_of_ne_nil (List.splitOn_ne_nil sep cs)
    have htrim : Text.trimChars (c :: first) = Text.trimChars first := by
      rw [Text.trimChars, List.dropWhile_cons_of_pos h, Text.trimChars]
    simp only [itemsOf, Text.cut_eq_splitOn]
    rw [List.splitOn_cons_eq_if_modifyHead, if_neg (by simpa using hc), hcut, List.modifyHead_cons,
      List.map_cons, List.map_cons, htrim]

theorem itemsOf_blank_append (h : Text.Blank front) (cs : List Char) :
    itemsOf sep (front ++ cs) = itemsOf sep cs := by
  induction front with
  | nil => rfl
  | cons c front ih =>
    rw [List.cons_append, itemsOf_cons_blank (h c List.mem_cons_self),
      ih fun x hx => h x (List.mem_cons_of_mem c hx)]

theorem itemsOf_blank (h : Text.Blank cs) : itemsOf sep cs = [] := by
  rw [← List.append_nil cs, itemsOf_blank_append h]
  rfl

theorem itemsOf_append_of_free (ha : Listable sep a) (hb : Text.Blank back) (hfree : sep ∉ back) :
    itemsOf sep (a.toList ++ back) = [a.toList] := by
  have htrim : Text.trimChars ([] ++ a.toList ++ back) = a.toList :=
    Text.trimChars_append (fun c hc => absurd hc List.not_mem_nil) hb ha.bare
  rw [List.nil_append] at htrim
  rw [itemsOf_of_free (by simp [ha.free, hfree]), htrim]
  simp [ha.ne]

theorem itemsOf_spaced (hf : Text.Blank front) (hb : Text.Blank back) (ha : Listable sep a) :
    itemsOf sep (front ++ a.toList ++ back) = [a.toList] := by
  rw [List.append_assoc, itemsOf_blank_append hf]
  by_cases hsep : sep ∈ back
  · obtain ⟨near, far, rfl, hnear⟩ := List.eq_append_cons_of_mem hsep
    have hfar : Text.Blank far := fun c hc => hb c (List.mem_append_right near (List.mem_cons_of_mem sep hc))
    rw [← List.append_assoc, itemsOf_append_cons, itemsOf_blank hfar, List.append_nil]
    exact itemsOf_append_of_free ha (fun c hc => hb c (List.mem_append_left _ hc)) hnear
  · exact itemsOf_append_of_free ha hb hsep

theorem itemsOf_join_cons (sep : Char) (w : String) (ws : List String) :
    itemsOf sep (join sep (w :: ws)).toList = itemsOf sep w.toList ++ itemsOf sep (join sep ws).toList := by
  cases ws with
  | nil =>
    have hnil : itemsOf sep (join sep []).toList = [] := rfl
    rw [hnil, List.append_nil, toList_join, List.map_cons, List.map_nil, List.intercalate_singleton]
  | cons v vs =>
    rw [toList_join, List.map_cons, List.map_cons, List.intercalate_cons_cons, List.append_assoc,
      List.singleton_append, itemsOf_append_cons, toList_join, List.map_cons]

/-- **A list is read back**, with white space around its items and blank pieces between them. -/
theorem split_join (h : Holds pieces items) (hitems : ∀ a ∈ items, Listable sep a) :
    split sep (join sep pieces) = items := by
  rw [split_eq]
  induction h with
  | nil => rfl
  | blank hblank _ ih => rw [itemsOf_join_cons, itemsOf_blank hblank, List.nil_append, ih hitems]
  | item hf hb _ ih =>
    obtain ⟨ha, hrest⟩ := List.forall_mem_cons.mp hitems
    rw [itemsOf_join_cons, String.toList_append, String.toList_append, itemsOf_spaced hf hb ha,
      List.singleton_append, List.map_cons, String.ofList_toList, ih hrest]

/-- A piece is blank or holds an item. -/
theorem itemsOf_cases {w : String} (h : sep ∉ w.toList) :
    Text.Blank w.toList ∧ itemsOf sep w.toList = [] ∨
      ∃ front a back : String, Text.Blank front.toList ∧ Text.Blank back.toList ∧ w = front ++ a ++ back ∧
        Listable sep a ∧ itemsOf sep w.toList = [a.toList] := by
  obtain ⟨front, back, hf, hb, hparts⟩ := Text.exists_trimChars w.toList
  have hitems := itemsOf_of_free h
  by_cases hnil : Text.trimChars w.toList = []
  · rw [hnil, List.append_nil] at hparts
    have hblank : Text.Blank w.toList := by
      rw [hparts]
      exact fun c hc => (List.mem_append.mp hc).elim (hf c) (hb c)
    exact .inl ⟨hblank, itemsOf_blank hblank⟩
  · refine .inr ⟨String.ofList front, String.ofList (Text.trimChars w.toList), String.ofList back, ?_, ?_, ?_,
      ⟨?_, ?_, ?_⟩, ?_⟩
    · rwa [String.toList_ofList]
    · rwa [String.toList_ofList]
    · rw [← String.ofList_append, ← String.ofList_append, ← hparts, String.ofList_toList]
    · simpa using hnil
    · rw [String.toList_ofList]
      exact Text.bare_trimChars _
    · rw [String.toList_ofList]
      refine fun hm => h ?_
      rw [hparts]
      exact List.mem_append_left back (List.mem_append_right front hm)
    · rw [hitems, String.toList_ofList]
      simp [hnil]

/-- **A text is split into the items of its pieces.** -/
theorem holds_split (h : ∀ w ∈ pieces, sep ∉ w.toList) :
    Holds pieces (split sep (join sep pieces)) ∧ ∀ a ∈ split sep (join sep pieces), Listable sep a := by
  induction pieces with
  | nil => exact ⟨.nil, List.forall_mem_nil _⟩
  | cons w ws ih =>
    obtain ⟨hw, hws⟩ := List.forall_mem_cons.mp h
    obtain ⟨hholds, hlistable⟩ := ih hws
    rw [split_eq, itemsOf_join_cons]
    rcases itemsOf_cases hw with ⟨hblank, hitems⟩ | ⟨front, a, back, hf, hb, rfl, ha, hitems⟩
    · rw [hitems]
      exact ⟨.blank hblank hholds, hlistable⟩
    · rw [hitems, List.singleton_append, List.map_cons, String.ofList_toList]
      exact ⟨.item hf hb hholds, List.forall_mem_cons.mpr ⟨ha, hlistable⟩⟩

theorem holds_self : ∀ items : List String, Holds items items
  | [] => .nil
  | a :: items => by
    have hblank : Text.Blank "".toList := by simp [Text.Blank]
    have h : Holds (("" ++ a ++ "") :: items) (a :: items) := .item hblank hblank (holds_self items)
    rwa [String.empty_append, String.append_empty] at h

/-! ### A list that a registry replies with -/

variable {σ : Type}

/-- Who listens at the place replies with this, and the network brings it. -/
structure Replies (n : Network σ) (place : String) (r : Http.Reply) : Prop where
  carries : n.carriesIp = true
  listens : ∃ l bs, n.listener? ⟨.tcp, place⟩ = some l ∧ l.peer = .scripted bs ∧ Http.Reply.parse? bs = some r

/-- A request is granted with the pieces in its header. -/
structure InHeader (r : Http.Reply) (pieces : List String) : Prop where
  success : r.isSuccess = true
  header : r.header? listHeader = some (Bytes.ofText (join ',' pieces))

/-- A request is granted with the pieces as the lines of its body. -/
structure InBody (r : Http.Reply) (pieces : List String) : Prop where
  success : r.isSuccess = true
  header : r.header? listHeader = none
  body : r.body = Bytes.ofText (join '\n' pieces)

/-- The text has visible ASCII characters, spaces and tabs only. -/
def Visible (s : String) : Prop := ∀ c ∈ s.toList, c = '\t' ∨ ' ' ≤ c ∧ c ≤ '~'

theorem fetch_of_replies {n : Network σ} {place : String} {r : Http.Reply} (h : Replies n place r)
    (path : String) : fetch n place path = (servers r, [⟨"GET", path, none⟩]) := by
  obtain ⟨l, bs, hlistens, hpeer, hparse⟩ := h.listens
  rw [fetch, ask]
  simp [h.carries, hlistens, hpeer, hparse, Except.bind]

/-! ### A header is read if all of it is visible -/

/-- The byte is a visible ASCII character, a space or a tab. -/
def isShown (b : UInt8) : Bool := b == 0x09 || (0x20 ≤ b && b < 0x7f)

theorem isShown_ofNat {n : Nat} (h : n < 256) : isShown (UInt8.ofNat n) = true ↔ n = 9 ∨ 32 ≤ n ∧ n < 127 := by
  simp [isShown, UInt8.le_iff_toNat_le, UInt8.lt_iff_toNat_lt, ← UInt8.toNat_inj, Text.Lossy.toNat_ofNat h]

theorem char_le_iff {c d : Char} : c ≤ d ↔ c.toNat ≤ d.toNat := by
  rw [Char.le_def, UInt32.le_iff_toNat_le]
  rfl

/-- Other characters than the visible ones begin with a byte that is none. -/
theorem all_utf8EncodeChar (c : Char) :
    (String.utf8EncodeChar c).all isShown = true ↔ c = '\t' ∨ ' ' ≤ c ∧ c ≤ '~' := by
  have htab : c = '\t' ↔ c.toNat = 9 := Char.toNat_inj.symm
  have hspace : ' '.toNat = 32 := rfl
  have htilde : '~'.toNat = 126 := rfl
  have hv : c.val.toNat = c.toNat := rfl
  rw [htab, char_le_iff, char_le_iff, hspace, htilde, String.utf8EncodeChar, hv]
  generalize c.toNat = v
  split_ifs with h1 h2 h3 <;> rw [List.all_cons, Bool.and_eq_true, isShown_ofNat (by omega)]
  · simp
    omega
  all_goals exact iff_of_false (fun h => by omega) (by omega)

theorem all_ofText (s : String) : (Bytes.ofText s).all isShown = true ↔ Visible s := by
  rw [Bytes.ofText_eq_flatMap, List.all_flatMap, List.all_eq_true]
  simp only [all_utf8EncodeChar, Visible]

theorem headerText?_of_visible {r : Http.Reply} {name s : String} (h : r.header? name = some (Bytes.ofText s))
    (hs : Visible s) : r.headerText? name = some s := by
  rw [Http.Reply.headerText?, h]
  exact (if_pos ((all_ofText s).mpr hs)).trans (Bytes.toText?_ofText s)

theorem headerText?_of_not_visible {r : Http.Reply} {name s : String}
    (h : r.header? name = some (Bytes.ofText s)) (hs : ¬ Visible s) : r.headerText? name = none := by
  rw [Http.Reply.headerText?, h]
  exact if_neg (mt (all_ofText s).mp hs)

/-! ### What is fetched -/

variable {n : Network σ} {place : String} {r : Http.Reply}

/-- A registry that grants the request lists servers in the header, if it is read, and in the
body otherwise. -/
theorem fetch_of_success (hn : Replies n place r) (hr : r.isSuccess = true) (path : String) :
    (fetch n place path).1 = .ok (match r.headerText? listHeader with
      | some list => split ',' list
      | none => split '\n' (Text.ofBytesLossy r.body)) := by
  rw [fetch_of_replies hn, servers, hr]
  cases r.headerText? listHeader <;> rfl

/-- A list in a header is fetched, if the header is visible. -/
theorem fetch_inHeader (hn : Replies n place r) (hr : InHeader r pieces) (hv : Visible (join ',' pieces))
    (h : Holds pieces items) (hitems : ∀ a ∈ items, Listable ',' a) (path : String) :
    (fetch n place path).1 = .ok items := by
  rw [fetch_of_success hn hr.success, headerText?_of_visible hr.header hv]
  exact congrArg _ (split_join h hitems)

theorem fetch_inBody (hn : Replies n place r) (hr : InBody r pieces) (h : Holds pieces items)
    (hitems : ∀ a ∈ items, Listable '\n' a) (path : String) : (fetch n place path).1 = .ok items := by
  have htext : r.headerText? listHeader = none := by rw [Http.Reply.headerText?, hr.header, Option.bind_none]
  rw [fetch_of_success hn hr.success, htext, hr.body, Text.ofBytesLossy_ofText]
  exact congrArg _ (split_join h hitems)

/-- A header that is not visible counts as none. -/
theorem fetch_of_not_visible (hn : Replies n place r) (hr : InHeader r pieces)
    (hv : ¬ Visible (join ',' pieces)) (path : String) :
    (fetch n place path).1 = .ok (split '\n' (Text.ofBytesLossy r.body)) := by
  rw [fetch_of_success hn hr.success, headerText?_of_not_visible hr.header hv]

/-- **Lists of servers are read as they are written.**

* Every text consists of pieces. What it is split into are the items of its pieces in their
  order: a piece that is not blank holds one, with white space around it, and blank pieces hold
  none.
* A list whose items are not empty and have no white space at their ends and no separator is
  read back from its text, with any white space around its items and any blank pieces between.
* What a text is split into is one of these lists: joined, it is split into itself.
* A registry that lists servers in a header and one that lists them in its body are asked with
  the same result, the list, if no server has a separator of either in it, and the header is of
  visible ASCII characters, spaces and tabs.
* A header with other characters counts as none, and the body of its reply is read. -/
theorem lists_read_back (σ : Type) :
    (∀ sep text, ∃ pieces, Consists sep text pieces) ∧
    (∀ sep text pieces, Consists sep text pieces →
      Holds pieces (split sep text) ∧ ∀ a ∈ split sep text, Listable sep a) ∧
    (∀ sep items pieces, (∀ a ∈ items, Listable sep a) → Holds pieces items →
      split sep (join sep pieces) = items) ∧
    (∀ sep text, split sep (join sep (split sep text)) = split sep text) ∧
    ∀ (n m : Network σ) (place place' path path' : String) (r r' : Http.Reply) (pieces lines : List String),
      Replies n place r → InHeader r pieces → Replies m place' r' → InBody r' lines →
      (∀ items, (∀ a ∈ items, Listable ',' a ∧ Listable '\n' a) → Holds pieces items → Holds lines items →
        Visible (join ',' pieces) →
        (fetch n place path).1 = .ok items ∧ (fetch m place' path').1 = .ok items) ∧
      (¬ Visible (join ',' pieces) →
        (fetch n place path).1 = .ok (split '\n' (Text.ofBytesLossy r.body))) := by
  have hsplit : ∀ sep text pieces, Consists sep text pieces →
      Holds pieces (split sep text) ∧ ∀ a ∈ split sep text, Listable sep a := by
    rintro sep text pieces ⟨-, hfree, rfl⟩
    exact holds_split hfree
  refine ⟨exists_consists, hsplit, fun sep items pieces hitems h => split_join h hitems, fun sep text => ?_,
    fun n m place place' path path' r r' pieces lines hn hr hm hr' => ⟨fun items hitems h h' hv => ⟨?_, ?_⟩, ?_⟩⟩
  · obtain ⟨pieces, hpieces⟩ := exists_consists sep text
    exact split_join (holds_self _) (hsplit sep text pieces hpieces).2
  · exact fetch_inHeader hn hr hv h (fun a ha => (hitems a ha).1) path
  · exact fetch_inBody hm hr' h' (fun a ha => (hitems a ha).2) path'
  · exact fun hv => fetch_of_not_visible hn hr hv path

end Directory

namespace Sample

/-- The reply of a registry that lists servers in a header. -/
def headerReply (list : String) : Bytes :=
  Bytes.ofText ("HTTP/1.1 200 OK\r\nX-Tinyrpc-Servers: " ++ list ++ "\r\nContent-Length: 0\r\n\r\n")

/-- What that reply is read as. -/
def headerRead (list : String) : Http.Reply where
  status := 200
  headers := [("X-Tinyrpc-Servers", Bytes.ofText list), ("Content-Length", Bytes.ofText "0")]

/-- The reply of a registry that lists servers in its body. -/
def bodyReply (list : String) : Bytes := Bytes.ofText ("HTTP/1.1 200 OK\r\n\r\n" ++ list)

/-- What that reply is read as. -/
def bodyRead (list : String) : Http.Reply := { status := 200, body := Bytes.ofText list }

/-- A network in which a registry replies with these bytes. -/
def registryNetwork (reply : Bytes) : Network Unit where
  listeners := [⟨⟨.tcp, "registry"⟩, .scripted reply⟩]

/-- Two servers with white space around them and blank pieces, for a header. -/
def spacedPieces : List String := ["tcp@a:1 ", "", "\tunix@/tmp/b c", ""]

/-- The same servers in lines. A carriage return is white space, and so is a space that no line
is broken at. -/
def spacedLines : List String := ["", "\u00a0tcp@a:1\r", " ", "unix@/tmp/b c"]

/-- A server whose place has a letter that is not ASCII. -/
def accented : String := "unix@/tmp/\u00e9"

end Sample

namespace Directory

theorem replies_registryNetwork {reply : Bytes} {r : Http.Reply} (h : Http.Reply.parse? reply = some r) :
    Replies (Sample.registryNetwork reply) "registry" r :=
  ⟨rfl, _, _, rfl, rfl, h⟩

theorem inHeader_headerRead (pieces : List String) : InHeader (Sample.headerRead (join ',' pieces)) pieces where
  success := rfl
  header := by simp [Http.Reply.header?, Sample.headerRead, listHeader]

theorem inBody_bodyRead (lines : List String) : InBody (Sample.bodyRead (join '\n' lines)) lines where
  success := rfl
  header := rfl
  body := rfl

theorem not_visible_accented : ¬ Visible (join ',' [Sample.accented]) :=
  mt (all_ofText _).mpr (by decide +kernel)

/-- Two servers come out of a header and out of a body in which other white space stands around
them. A header with a letter that is not ASCII counts as none, and the body behind it is empty. -/
theorem lists_read_back_spaced :
    let header := Sample.registryNetwork (Sample.headerReply (join ',' Sample.spacedPieces))
    let body := Sample.registryNetwork (Sample.bodyReply (join '\n' Sample.spacedLines))
    let accented := Sample.registryNetwork (Sample.headerReply (join ',' [Sample.accented]))
    (fetch header "registry" "/").1 = .ok ["tcp@a:1", "unix@/tmp/b c"] ∧
      (fetch body "registry" "/").1 = .ok ["tcp@a:1", "unix@/tmp/b c"] ∧
      (fetch accented "registry" "/").1 = .ok [] := by
  intro header body accented
  obtain ⟨-, hsplit, hjoin, -, hfetch⟩ := lists_read_back Unit
  have hpieces : Consists ',' (join ',' Sample.spacedPieces) Sample.spacedPieces :=
    ⟨by decide, by decide +kernel, rfl⟩
  have hlines : Consists '\n' (join '\n' Sample.spacedLines) Sample.spacedLines :=
    ⟨by decide, by decide +kernel, rfl⟩
  have hcommas : split ',' (join ',' Sample.spacedPieces) = ["tcp@a:1", "unix@/tmp/b c"] := by decide +kernel
  have hbreaks : split '\n' (join '\n' Sample.spacedLines) = ["tcp@a:1", "unix@/tmp/b c"] := by decide +kernel
  obtain ⟨hholds, hlistable⟩ := hcommas ▸ hsplit _ _ _ hpieces
  obtain ⟨hholds', hlistable'⟩ := hbreaks ▸ hsplit _ _ _ hlines
  have hheader : Replies header "registry" (Sample.headerRead (join ',' Sample.spacedPieces)) :=
    replies_registryNetwork (by decide +kernel)
  have hbody : Replies body "registry" (Sample.bodyRead (join '\n' Sample.spacedLines)) :=
    replies_registryNetwork (by decide +kernel)
  have haccented : Replies accented "registry" (Sample.headerRead (join ',' [Sample.accented])) :=
    replies_registryNetwork (by decide +kernel)
  have hvisible : Visible (join ',' Sample.spacedPieces) := (all_ofText _).mp (by decide +kernel)
  obtain ⟨hsame, -⟩ := hfetch header body "registry" "registry" "/" "/" _ _ _ _ hheader (inHeader_headerRead _)
    hbody (inBody_bodyRead _)
  obtain ⟨-, hnone⟩ := hfetch accented body "registry" "registry" "/" "/" _ _ _ _ haccented (inHeader_headerRead _)
    hbody (inBody_bodyRead _)
  obtain ⟨hfirst, hsecond⟩ := hsame _ (fun a ha => ⟨hlistable a ha, hlistable' a ha⟩) hholds hholds' hvisible
  exact ⟨hfirst, hsecond, hnone not_visible_accented⟩

/-- **Not every list comes out of a header as it comes out of a body.** One with a letter that is
not ASCII does not come out of a header. -/
theorem not_all_lists_alike :
    ¬ ∀ (items : List String) (n m : Network Unit) (place path : String) (r r' : Http.Reply),
      (∀ a ∈ items, Listable ',' a ∧ Listable '\n' a) → Replies n place r → InHeader r items →
      Replies m place r' → InBody r' items → (fetch n place path).1 = (fetch m place path).1 := by
  intro h
  have hlistable : ∀ sep, sep = ',' ∨ sep = '\n' → ∀ a ∈ [Sample.accented], Listable sep a := by
    intro sep hsep
    have hfree : ∀ w ∈ [Sample.accented], sep ∉ w.toList := by
      rcases hsep with rfl | rfl <;> decide +kernel
    have hsplit : split sep (join sep [Sample.accented]) = [Sample.accented] := by
      rcases hsep with rfl | rfl <;> decide +kernel
    exact hsplit ▸ (holds_split hfree).2
  have hitems : ∀ a ∈ [Sample.accented], Listable ',' a ∧ Listable '\n' a := fun a ha =>
    ⟨hlistable ',' (.inl rfl) a ha, hlistable '\n' (.inr rfl) a ha⟩
  have hheader : Replies (Sample.registryNetwork (Sample.headerReply (join ',' [Sample.accented]))) "registry"
      (Sample.headerRead (join ',' [Sample.accented])) := replies_registryNetwork (by decide +kernel)
  have hbody : Replies (Sample.registryNetwork (Sample.bodyReply (join '\n' [Sample.accented]))) "registry"
      (Sample.bodyRead (join '\n' [Sample.accented])) := replies_registryNetwork (by decide +kernel)
  have hsame := h [Sample.accented] _ _ "registry" "/" _ _ hitems hheader (inHeader_headerRead _) hbody
    (inBody_bodyRead _)
  rw [fetch_of_not_visible hheader (inHeader_headerRead _) not_visible_accented,
    fetch_inBody hbody (inBody_bodyRead _) (holds_self _) fun a ha => (hitems a ha).2] at hsame
  cases hsame

end Directory
end Callwire
