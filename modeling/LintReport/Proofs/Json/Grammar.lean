import LintReport.Proofs.Json.Leaves
import Mathlib.Data.List.DropRight

/-! The texts of a value, as a grammar: an item, a key and a member's value may have white space in
front of them, and so may a closing bracket. Both writers keep to it, and the reader gets the value
back from each of its texts; so what is written is read back, on one line and over several. -/

namespace LintReport.Json

open Text (decimal)

/-! ### White space -/

def Blank (s : List Char) : Prop := ∀ c ∈ s, c = ' ' ∨ c = '\n' ∨ c = '\t' ∨ c = '\r'

theorem blank_newline (depth : Nat) : Blank (newline depth) := by
  intro c hc
  rcases List.mem_cons.1 hc with rfl | hc
  · exact .inr (.inl rfl)
  · exact .inl (List.eq_of_mem_replicate hc)

@[simp] theorem skipSpace_skipSpace (s : List Char) : skipSpace (skipSpace s) = skipSpace s :=
  List.dropWhile_idempotent _ _

theorem skipSpace_blank_append {pre : List Char} (hpre : Blank pre) (s : List Char) :
    skipSpace (pre ++ s) = skipSpace s :=
  List.dropWhile_append_of_pos fun c hc => by simpa [or_assoc] using hpre c hc

theorem ends_blank_append {post : List Char} (hpost : Blank post) {c : Char} {s : List Char}
    (h : Ends (c :: s)) : Ends (post ++ c :: s) := by
  cases post with
  | nil => exact h
  | cons d post =>
    rw [List.cons_append, ends_cons]
    rcases hpost d List.mem_cons_self with rfl | rfl | rfl | rfl <;> decide

/-! ### The grammar -/

mutual

inductive Spells : Json → List Char → Prop
  | null : Spells .null "null".toList
  | litTrue : Spells (.bool true) "true".toList
  | litFalse : Spells (.bool false) "false".toList
  | number (n : Nat) : Spells (.ofNat n) (decimal n)
  | string (s : List Char) : Spells (.string (escape s)) (quoted (escape s))
  | noItems : Spells (.array []) "[]".toList
  | array {items : List Json} {s post : List Char} (hitems : SpellsItems items s)
      (hpost : Blank post) : Spells (.array items) ('[' :: s ++ post ++ [']'])
  | noMembers : Spells (.object []) ['\x7b', '\x7d']
  | object {members : List (List Char × Json)} {s post : List Char}
      (hmembers : SpellsMembers members s) (hpost : Blank post) :
      Spells (.object members) ('\x7b' :: s ++ post ++ ['\x7d'])

inductive SpellsItems : List Json → List Char → Prop
  | last {item : Json} {pre s : List Char} (hpre : Blank pre) (hitem : Spells item s) :
      SpellsItems [item] (pre ++ s)
  | cons {item : Json} {items : List Json} {pre s t : List Char} (hpre : Blank pre)
      (hitem : Spells item s) (hitems : SpellsItems items t) :
      SpellsItems (item :: items) (pre ++ s ++ ',' :: t)

inductive SpellsMembers : List (List Char × Json) → List Char → Prop
  | last {value : Json} {pre mid s : List Char} (key : List Char) (hpre : Blank pre)
      (hmid : Blank mid) (hvalue : Spells value s) :
      SpellsMembers [(escape key, value)] (pre ++ quoted (escape key) ++ ':' :: (mid ++ s))
  | cons {value : Json} {members : List (List Char × Json)} {pre mid s t : List Char}
      (key : List Char) (hpre : Blank pre) (hmid : Blank mid) (hvalue : Spells value s)
      (hmembers : SpellsMembers members t) :
      SpellsMembers ((escape key, value) :: members)
        (pre ++ quoted (escape key) ++ ':' :: (mid ++ s) ++ ',' :: t)

end

/-- What a printed number begins with. -/
theorem exists_cons_of_decimal (n : Nat) : ∃ d ds, decimal n = d :: ds ∧
    ∀ c : Char, c.isDigit = false → d ≠ c := by
  obtain ⟨d, ds, h⟩ := List.exists_cons_of_ne_nil (Text.decimal_ne_nil n)
  refine ⟨d, ds, h, fun c hc heq => ?_⟩
  exact Text.not_mem_decimal hc n (by rw [h, heq]; exact List.mem_cons_self)

theorem skipSpace_cons {c : Char} (h : c ≠ ' ' ∧ c ≠ '\n' ∧ c ≠ '\t' ∧ c ≠ '\r') (s : List Char) :
    skipSpace (c :: s) = c :: s := by
  simp [skipSpace, h]

/-- What a value begins with: neither white space nor a closing bracket or brace. -/
theorem Spells.exists_cons {v : Json} {s : List Char} (h : Spells v s) :
    ∃ c t, s = c :: t ∧ (∀ u, skipSpace (c :: u) = c :: u) ∧ c ≠ ']' ∧ c ≠ '\x7d' := by
  cases h with
  | number n =>
    obtain ⟨d, ds, hn, hd⟩ := exists_cons_of_decimal n
    exact ⟨d, ds, hn, skipSpace_cons ⟨hd _ rfl, hd _ rfl, hd _ rfl, hd _ rfl⟩, hd _ rfl, hd _ rfl⟩
  | _ => exact ⟨_, _, rfl, fun _ => rfl, by decide, by decide⟩

/-- An array stands between its brackets. -/
theorem Spells.exists_inside {items : List Json} {s : List Char} (h : Spells (.array items) s) :
    ∃ inside, s = '[' :: inside ++ [']'] := by
  cases h with
  | noItems => exact ⟨[], rfl⟩
  | array => exact ⟨_, rfl⟩

theorem SpellsItems.skipSpace_ne {items : List Json} {s : List Char} (h : SpellsItems items s)
    (rest t : List Char) : skipSpace (s ++ rest) ≠ ']' :: t := by
  cases h with
  | last hpre hitem =>
    obtain ⟨c, u, rfl, hskip, hc, -⟩ := hitem.exists_cons
    rw [List.append_assoc, skipSpace_blank_append hpre, List.cons_append, hskip]
    exact fun heq => hc (List.cons.inj heq).1
  | cons hpre hitem _ =>
    obtain ⟨c, u, rfl, hskip, hc, -⟩ := hitem.exists_cons
    rw [List.append_assoc, List.append_assoc, skipSpace_blank_append hpre, List.cons_append, hskip]
    exact fun heq => hc (List.cons.inj heq).1

theorem SpellsMembers.skipSpace_ne {members : List (List Char × Json)} {s : List Char}
    (h : SpellsMembers members s) (rest t : List Char) : skipSpace (s ++ rest) ≠ '\x7d' :: t := by
  have hquote : ∀ u, skipSpace ('"' :: u) ≠ '\x7d' :: t :=
    fun _ heq => absurd (List.cons.inj heq).1 (by decide)
  cases h with
  | last key hpre =>
    rw [List.append_assoc, List.append_assoc, skipSpace_blank_append hpre]
    exact hquote _
  | cons key hpre =>
    rw [List.append_assoc, List.append_assoc, List.append_assoc, skipSpace_blank_append hpre]
    exact hquote _

/-! ### The reader, one step at a time -/

theorem takeValue_skipSpace (depth : Nat) (s : List Char) :
    takeValue depth (skipSpace s) = takeValue depth s := by
  cases depth <;> simp only [takeValue, skipSpace_skipSpace]

theorem takeValue_blank_append (depth : Nat) {pre : List Char} (hpre : Blank pre) (s : List Char) :
    takeValue depth (pre ++ s) = takeValue depth s := by
  rw [← takeValue_skipSpace, skipSpace_blank_append hpre, takeValue_skipSpace]

theorem takeItems_skipSpace (depth : Nat) (s : List Char) :
    takeItems depth (skipSpace s) = takeItems depth s := by
  cases depth <;> simp only [takeItems, takeValue_skipSpace]

theorem takeItems_blank_append (depth : Nat) {pre : List Char} (hpre : Blank pre) (s : List Char) :
    takeItems depth (pre ++ s) = takeItems depth s := by
  rw [← takeItems_skipSpace, skipSpace_blank_append hpre, takeItems_skipSpace]

theorem takeMembers_skipSpace (depth : Nat) (s : List Char) :
    takeMembers depth (skipSpace s) = takeMembers depth s := by
  cases depth <;> simp only [takeMembers, skipSpace_skipSpace]

theorem takeMembers_blank_append (depth : Nat) {pre : List Char} (hpre : Blank pre)
    (s : List Char) : takeMembers depth (pre ++ s) = takeMembers depth s := by
  rw [← takeMembers_skipSpace, skipSpace_blank_append hpre, takeMembers_skipSpace]

theorem takeValue_decimal (depth n : Nat) {rest : List Char} (hrest : Ends rest) :
    takeValue (depth + 1) (decimal n ++ rest) = some (.ofNat n, rest) := by
  have hnumber := takeNumber_decimal n hrest
  obtain ⟨d, ds, hn, hd⟩ := exists_cons_of_decimal n
  have hskip := skipSpace_cons ⟨hd ' ' rfl, hd '\n' rfl, hd '\t' rfl, hd '\r' rfl⟩ (ds ++ rest)
  rw [hn, List.cons_append] at hnumber
  rw [ofNat, hn, List.cons_append]
  simp [takeValue, hskip, hd 'n' rfl, hd 't' rfl, hd 'f' rfl, hd '"' rfl, hd '[' rfl,
    hd '\x7b' rfl, hnumber]

theorem takeValue_quoted (depth : Nat) (s rest : List Char) :
    takeValue (depth + 1) (quoted (escape s) ++ rest) = some (.string (escape s), rest) := by
  have hskip : ∀ t, skipSpace ('"' :: t) = '"' :: t := fun _ => rfl
  rw [quoted, List.cons_append, List.cons_append, List.append_assoc, List.singleton_append]
  simp only [takeValue, hskip, takeString_escape, Option.map_some]

theorem takeValue_array (depth : Nat) {s : List Char} (h : ∀ t, skipSpace s ≠ ']' :: t) :
    takeValue (depth + 1) ('[' :: s) =
      (takeItems depth s).map fun (items, rest) => (.array items, rest) := by
  have hskip : skipSpace ('[' :: s) = '[' :: s := rfl
  simp only [takeValue, hskip, takeItems_skipSpace]

theorem takeValue_object (depth : Nat) {s : List Char} (h : ∀ t, skipSpace s ≠ '\x7d' :: t) :
    takeValue (depth + 1) ('\x7b' :: s) =
      (takeMembers depth s).map fun (members, rest) => (.object members, rest) := by
  have hskip : skipSpace ('\x7b' :: s) = '\x7b' :: s := rfl
  simp only [takeValue, hskip, takeMembers_skipSpace]

section Lists

variable {depth : Nat} {s t rest : List Char}

theorem takeItems_last {item : Json} (hitem : takeValue depth s = some (item, t))
    (ht : skipSpace t = ']' :: rest) : takeItems (depth + 1) s = some ([item], rest) := by
  simp [takeItems, hitem, ht]

theorem takeItems_cons {item : Json} (hitem : takeValue depth s = some (item, t))
    (ht : skipSpace t = ',' :: rest) :
    takeItems (depth + 1) s =
      (takeItems depth rest).map fun (items, rest) => (item :: items, rest) := by
  simp [takeItems, hitem, ht]

variable (key : List Char) {value : Json}

theorem takeMembers_last (hvalue : takeValue depth s = some (value, t))
    (ht : skipSpace t = '\x7d' :: rest) :
    takeMembers (depth + 1) (quoted (escape key) ++ ':' :: s) =
      some ([(escape key, value)], rest) := by
  have hskip : ∀ u, skipSpace ('"' :: u) = '"' :: u := fun _ => rfl
  have hcolon : skipSpace (':' :: s) = ':' :: s := rfl
  rw [quoted, List.cons_append, List.cons_append, List.append_assoc, List.singleton_append]
  simp [takeMembers, hskip, takeString_escape, hcolon, hvalue, ht]

theorem takeMembers_cons (hvalue : takeValue depth s = some (value, t))
    (ht : skipSpace t = ',' :: rest) :
    takeMembers (depth + 1) (quoted (escape key) ++ ':' :: s) =
      (takeMembers depth rest).map fun (members, rest) =>
        ((escape key, value) :: members, rest) := by
  have hskip : ∀ u, skipSpace ('"' :: u) = '"' :: u := fun _ => rfl
  have hcolon : skipSpace (':' :: s) = ':' :: s := rfl
  rw [quoted, List.cons_append, List.cons_append, List.append_assoc, List.singleton_append]
  simp [takeMembers, hskip, takeString_escape, hcolon, hvalue, ht]

end Lists

/-- At this depth, the reader gets each value back that its text is short enough for. -/
structure ReadsBack (depth : Nat) : Prop where
  value {v : Json} {s : List Char} (h : Spells v s) (hs : 2 * s.length ≤ depth + 1)
    {rest : List Char} (hrest : Ends rest) : takeValue depth (s ++ rest) = some (v, rest)
  items {items : List Json} {s : List Char} (h : SpellsItems items s) (hs : 2 * s.length ≤ depth)
    {post : List Char} (hpost : Blank post) (rest : List Char) :
    takeItems depth (s ++ post ++ ']' :: rest) = some (items, rest)
  members {members : List (List Char × Json)} {s : List Char} (h : SpellsMembers members s)
    (hs : 2 * s.length ≤ depth) {post : List Char} (hpost : Blank post) (rest : List Char) :
    takeMembers depth (s ++ post ++ '\x7d' :: rest) = some (members, rest)

section Step

variable {depth : Nat} (h : ReadsBack depth)
include h

theorem ReadsBack.value_succ {v : Json} {s : List Char} (hv : Spells v s)
    (hs : 2 * s.length ≤ depth + 1 + 1) {rest : List Char} (hrest : Ends rest) :
    takeValue (depth + 1) (s ++ rest) = some (v, rest) := by
  cases hv with
  | number n => exact takeValue_decimal depth n hrest
  | string s => exact takeValue_quoted depth s rest
  | @array items s post hitems hpost =>
    have hlen : 2 * s.length ≤ depth := by
      simp only [List.length_append, List.length_cons] at hs
      omega
    have htext : '[' :: s ++ post ++ [']'] ++ rest = '[' :: (s ++ post ++ ']' :: rest) := by simp
    have hread := h.items hitems hlen hpost rest
    rw [htext, takeValue_array, hread]
    · rfl
    · rw [List.append_assoc]
      exact hitems.skipSpace_ne _
  | @object members s post hmembers hpost =>
    have hlen : 2 * s.length ≤ depth := by
      simp only [List.length_append, List.length_cons] at hs
      omega
    have htext : '\x7b' :: s ++ post ++ ['\x7d'] ++ rest =
        '\x7b' :: (s ++ post ++ '\x7d' :: rest) := by simp
    have hread := h.members hmembers hlen hpost rest
    rw [htext, takeValue_object, hread]
    · rfl
    · rw [List.append_assoc]
      exact hmembers.skipSpace_ne _
  | _ => rfl

theorem ReadsBack.items_succ {items : List Json} {s : List Char} (hitems : SpellsItems items s)
    (hs : 2 * s.length ≤ depth + 1) {post : List Char} (hpost : Blank post) (rest : List Char) :
    takeItems (depth + 1) (s ++ post ++ ']' :: rest) = some (items, rest) := by
  cases hitems with
  | @last item pre s hpre hitem =>
    have hlen : 2 * s.length ≤ depth + 1 := by
      simp only [List.length_append] at hs
      omega
    have hends : Ends (post ++ ']' :: rest) := ends_blank_append hpost (ends_cons.2 (by decide))
    have hvalue := h.value hitem hlen hends
    have hclose : skipSpace (post ++ ']' :: rest) = ']' :: rest := skipSpace_blank_append hpost _
    rw [List.append_assoc, List.append_assoc, takeItems_blank_append _ hpre]
    exact takeItems_last hvalue hclose
  | @cons item items pre s t hpre hitem hitems =>
    have hlen : 2 * s.length ≤ depth + 1 ∧ 2 * t.length ≤ depth := by
      simp only [List.length_append, List.length_cons] at hs
      omega
    have hends : Ends (',' :: (t ++ post ++ ']' :: rest)) := ends_cons.2 (by decide)
    have hvalue := h.value hitem hlen.1 hends
    have htext : pre ++ s ++ ',' :: t ++ post ++ ']' :: rest =
        pre ++ (s ++ ',' :: (t ++ post ++ ']' :: rest)) := by simp
    rw [htext, takeItems_blank_append _ hpre, takeItems_cons hvalue rfl,
      h.items hitems hlen.2 hpost rest]
    rfl

theorem ReadsBack.members_succ {members : List (List Char × Json)} {s : List Char}
    (hmembers : SpellsMembers members s) (hs : 2 * s.length ≤ depth + 1) {post : List Char}
    (hpost : Blank post) (rest : List Char) :
    takeMembers (depth + 1) (s ++ post ++ '\x7d' :: rest) = some (members, rest) := by
  cases hmembers with
  | @last value pre mid s key hpre hmid hvalue =>
    have hlen : 2 * s.length ≤ depth + 1 := by
      simp only [List.length_append, List.length_cons] at hs
      omega
    have hends : Ends (post ++ '\x7d' :: rest) :=
      ends_blank_append hpost (ends_cons.2 (by decide))
    have hread := h.value hvalue hlen hends
    rw [← takeValue_blank_append _ hmid] at hread
    have hclose : skipSpace (post ++ '\x7d' :: rest) = '\x7d' :: rest :=
      skipSpace_blank_append hpost _
    have htext : pre ++ quoted (escape key) ++ ':' :: (mid ++ s) ++ post ++ '\x7d' :: rest =
        pre ++ (quoted (escape key) ++ ':' :: (mid ++ (s ++ (post ++ '\x7d' :: rest)))) := by simp
    rw [htext, takeMembers_blank_append _ hpre]
    exact takeMembers_last key hread hclose
  | @cons value members pre mid s t key hpre hmid hvalue hmembers =>
    have hlen : 2 * s.length ≤ depth + 1 ∧ 2 * t.length ≤ depth := by
      simp only [List.length_append, List.length_cons] at hs
      omega
    have hends : Ends (',' :: (t ++ post ++ '\x7d' :: rest)) := ends_cons.2 (by decide)
    have hread := h.value hvalue hlen.1 hends
    rw [← takeValue_blank_append _ hmid] at hread
    have htext :
        pre ++ quoted (escape key) ++ ':' :: (mid ++ s) ++ ',' :: t ++ post ++ '\x7d' :: rest =
          pre ++ (quoted (escape key) ++ ':' ::
            (mid ++ (s ++ ',' :: (t ++ post ++ '\x7d' :: rest)))) := by simp
    rw [htext, takeMembers_blank_append _ hpre, takeMembers_cons key hread rfl,
      h.members hmembers hlen.2 hpost rest]
    rfl

end Step

theorem readsBack (depth : Nat) : ReadsBack depth := by
  induction depth with
  | zero =>
    -- No text is short enough: a value has a character, and so has a list of them.
    refine ⟨fun {v s} hv hs => ?_, fun {items s} hitems hs => ?_, fun {members s} hmembers hs => ?_⟩
    · obtain ⟨c, t, rfl, -⟩ := hv.exists_cons
      simp only [List.length_cons] at hs
      omega
    · cases hitems with
      | last hpre hitem =>
        obtain ⟨c, t, rfl, -⟩ := hitem.exists_cons
        simp only [List.length_append, List.length_cons] at hs
        omega
      | cons hpre hitem hitems =>
        simp only [List.length_append, List.length_cons] at hs
        omega
    · cases hmembers with
      | last | cons =>
        simp only [List.length_append, List.length_cons] at hs
        omega
  | succ depth ih =>
    exact ⟨fun hv hs _ hrest => ih.value_succ hv hs hrest,
      fun hitems hs _ hpost rest => ih.items_succ hitems hs hpost rest,
      fun hmembers hs _ hpost rest => ih.members_succ hmembers hs hpost rest⟩

/-- The reader gets a value back from each of its texts. -/
theorem parse?_of_spells {v : Json} {s : List Char} (h : Spells v s) : parse? s = some v := by
  have hends : Ends [] := by simp [Ends]
  have hread := (readsBack (2 * s.length + 2)).value h (by omega) hends
  rw [List.append_nil] at hread
  rw [parse?, hread]
  rfl

/-! ### The writers -/

/-- A value that is made of texts and numbers: its strings and keys are escaped and its numbers
printed. -/
inductive Canonical : Json → Prop
  | null : Canonical .null
  | bool (b : Bool) : Canonical (.bool b)
  | number (n : Nat) : Canonical (.ofNat n)
  | string (s : List Char) : Canonical (.string (escape s))
  | array {items : List Json} (h : ∀ v ∈ items, Canonical v) : Canonical (.array items)
  | object {members : List (List Char × Json)} (hkeys : ∀ m ∈ members, ∃ key, m.1 = escape key)
      (h : ∀ m ∈ members, Canonical m.2) : Canonical (.object members)

theorem Canonical.object_of_subset {members members' : List (List Char × Json)}
    (h : Canonical (.object members)) (hsub : members' ⊆ members) :
    Canonical (.object members') := by
  cases h with
  | object hkeys hvalues =>
    exact .object (fun m hm => hkeys m (hsub hm)) fun m hm => hvalues m (hsub hm)

theorem blank_nil : Blank [] := List.forall_mem_nil _

/-- What a writer prints for items, each behind the same white space and with commas between. -/
theorem spellsItems_of_write {pre : List Char} (hpre : Blank pre) {write : Json → List Char}
    {writeItems : List Json → List Char} (hlast : ∀ v, writeItems [v] = pre ++ write v)
    (hcons : ∀ v next items, writeItems (v :: next :: items) =
      pre ++ write v ++ ',' :: writeItems (next :: items))
    {items : List Json} (hne : items ≠ []) (h : ∀ v ∈ items, Spells v (write v)) :
    SpellsItems items (writeItems items) := by
  induction items with
  | nil => exact absurd rfl hne
  | cons item items ih =>
    have hitem := h item List.mem_cons_self
    cases items with
    | nil =>
      rw [hlast]
      exact .last hpre hitem
    | cons next items =>
      have hitems := ih (List.cons_ne_nil _ _) fun v hv => h v (List.mem_cons_of_mem _ hv)
      rw [hcons]
      exact .cons hpre hitem hitems

/-- What a writer prints for members, with the same white space before their keys and values. -/
theorem spellsMembers_of_write {pre mid : List Char} (hpre : Blank pre) (hmid : Blank mid)
    {write : Json → List Char} {writeMembers : List (List Char × Json) → List Char}
    (hlast : ∀ key v, writeMembers [(key, v)] = pre ++ quoted key ++ ':' :: (mid ++ write v))
    (hcons : ∀ key v next members, writeMembers ((key, v) :: next :: members) =
      pre ++ quoted key ++ ':' :: (mid ++ write v) ++ ',' :: writeMembers (next :: members))
    {members : List (List Char × Json)} (hne : members ≠ [])
    (hkeys : ∀ m ∈ members, ∃ key, m.1 = escape key) (h : ∀ m ∈ members, Spells m.2 (write m.2)) :
    SpellsMembers members (writeMembers members) := by
  induction members with
  | nil => exact absurd rfl hne
  | cons member members ih =>
    obtain ⟨key, value⟩ := member
    obtain ⟨text, rfl⟩ := hkeys _ List.mem_cons_self
    have hvalue := h _ List.mem_cons_self
    cases members with
    | nil =>
      rw [hlast]
      exact .last text hpre hmid hvalue
    | cons next members =>
      have hmembers := ih (List.cons_ne_nil _ _) (fun m hm => hkeys m (List.mem_cons_of_mem _ hm))
        fun m hm => h m (List.mem_cons_of_mem _ hm)
      rw [hcons]
      exact .cons text hpre hmid hvalue hmembers

theorem spellsItems_prettyItems {depth : Nat} {items : List Json} (hne : items ≠ [])
    (h : ∀ v ∈ items, Spells v (pretty depth v)) : SpellsItems items (prettyItems depth items) :=
  spellsItems_of_write (blank_newline depth) (fun _ => rfl) (fun _ _ _ => rfl) hne h

theorem spellsMembers_prettyMembers {depth : Nat} {members : List (List Char × Json)}
    (hne : members ≠ []) (hkeys : ∀ m ∈ members, ∃ key, m.1 = escape key)
    (h : ∀ m ∈ members, Spells m.2 (pretty depth m.2)) :
    SpellsMembers members (prettyMembers depth members) := by
  have hspace : Blank [' '] := by simp [Blank]
  refine spellsMembers_of_write (blank_newline depth) hspace ?_ ?_ hne hkeys h
  · simp [prettyMembers]
  · simp [prettyMembers]

theorem Canonical.spells_pretty {v : Json} (h : Canonical v) (depth : Nat) :
    Spells v (pretty depth v) := by
  induction h generalizing depth with
  | null => exact .null
  | bool b =>
    cases b with
    | true => exact .litTrue
    | false => exact .litFalse
  | number n => exact .number n
  | string s => exact .string s
  | @array items h ih =>
    cases items with
    | nil => exact .noItems
    | cons item items =>
      exact .array (spellsItems_prettyItems (List.cons_ne_nil _ _) fun v hv => ih v hv _)
        (blank_newline depth)
  | @object members hkeys h ih =>
    cases members with
    | nil => exact .noMembers
    | cons member members =>
      exact .object (spellsMembers_prettyMembers (List.cons_ne_nil _ _) hkeys fun m hm => ih m hm _)
        (blank_newline depth)

theorem parse?_pretty {v : Json} (h : Canonical v) (depth : Nat) :
    parse? (pretty depth v) = some v :=
  parse?_of_spells (h.spells_pretty depth)

theorem spellsItems_compactItems {items : List Json} (hne : items ≠ [])
    (h : ∀ v ∈ items, Spells v v.compact) : SpellsItems items (compactItems items) :=
  spellsItems_of_write blank_nil (fun _ => rfl) (fun _ _ _ => rfl) hne h

theorem spellsMembers_compactMembers {members : List (List Char × Json)} (hne : members ≠ [])
    (hkeys : ∀ m ∈ members, ∃ key, m.1 = escape key) (h : ∀ m ∈ members, Spells m.2 m.2.compact) :
    SpellsMembers members (compactMembers members) :=
  spellsMembers_of_write blank_nil blank_nil (fun _ _ => rfl) (fun _ _ _ _ => rfl) hne hkeys h

theorem Canonical.spells_compact {v : Json} (h : Canonical v) : Spells v v.compact := by
  induction h with
  | null => exact .null
  | bool b =>
    cases b with
    | true => exact .litTrue
    | false => exact .litFalse
  | number n => exact .number n
  | string s => exact .string s
  | @array items h ih =>
    cases items with
    | nil => exact .noItems
    | cons item items =>
      have hspells := Spells.array (spellsItems_compactItems (List.cons_ne_nil _ _) ih) blank_nil
      rwa [List.append_nil] at hspells
  | @object members hkeys h ih =>
    cases members with
    | nil => exact .noMembers
    | cons member members =>
      have hspells := Spells.object
        (spellsMembers_compactMembers (List.cons_ne_nil _ _) hkeys ih) blank_nil
      rwa [List.append_nil] at hspells

theorem parse?_compact {v : Json} (h : Canonical v) : parse? v.compact = some v :=
  parse?_of_spells h.spells_compact

end LintReport.Json
