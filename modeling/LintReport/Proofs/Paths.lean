import LintReport.FileSystem
import LintReport.Proofs.Fields

/-! Joined paths. What a joined path leads to is what its second part leads to from where the first
part leads, both by its spelling and through the directories that are there; and where a path leads
through directories, it leads by its spelling. -/

namespace LintReport

namespace Path

theorem isAbsolute_iff {p : Path} : p.isAbsolute = true ↔ ∃ s, p.text.toList = '/' :: s := by
  rw [isAbsolute, decide_eq_true_eq, List.head?_eq_some_iff]

/-- Going up from an absolute path does not leave the root. -/
theorem isAbsolute_of_parent? {p q : Path} (hp : p.isAbsolute = true) (h : p.parent? = some q) :
    q.isAbsolute = true := by
  obtain ⟨s, hs⟩ := isAbsolute_iff.1 hp
  simp only [parent?, hs, splitRoot] at h
  split at h
  · simp at h
  · cases h
    exact isAbsolute_iff.2 ⟨_, String.toList_ofList⟩

theorem isAbsolute_of_mem_ancestors {p q : Path} (hp : p.isAbsolute = true)
    (h : q ∈ p.ancestors) : q.isAbsolute = true := by
  fun_induction ancestors p with
  | case1 p hparent =>
    rwa [List.mem_singleton.1 h]
  | case2 p above hparent ih =>
    rcases List.mem_cons.1 h with rfl | h
    · exact hp
    · exact ih (isAbsolute_of_parent? hp hparent) h

theorem steps_eq (p : Path) : p.steps = (p.text.toList.splitOnP (· = '/')).map String.ofList := by
  rw [steps, Text.splitWhere_eq_splitOnP]

theorem steps_ne_nil (p : Path) : p.steps ≠ [] := by
  rw [steps_eq, ne_eq, List.map_eq_nil_iff]
  exact List.splitOnP_ne_nil _ _

theorem join_of_isAbsolute {q : Path} (h : q.isAbsolute = true) (p : Path) : p.join q = q := by
  rw [join, h]
  rfl

theorem join_of_empty {p : Path} (h : p.text = "") (q : Path) : p.join q = q := by
  simp [join, h]

/-- Behind a path that is not empty, a relative path begins at a slash. -/
theorem toList_join {p q : Path} (hp : p.text ≠ "") (hq : q.isAbsolute = false) :
    ∃ front, (p.join q).text.toList = front ++ '/' :: q.text.toList ∧
      (p.text.toList = front ∨ p.text.toList = front ++ ['/']) := by
  rw [join, if_neg (by simp [hq, hp])]
  split
  · rename_i hlast
    obtain ⟨front, hfront⟩ := List.getLast?_eq_some_iff.1 hlast
    exact ⟨front, by simp [hfront], .inr hfront⟩
  · exact ⟨p.text.toList, by simp, .inl rfl⟩

theorem mem_join_of_mem {p q : Path} (hp : p.text ≠ "") (hq : q.isAbsolute = false) {c : Char}
    (h : c ∈ p.text.toList) : c ∈ (p.join q).text.toList := by
  obtain ⟨front, hjoin, hfront⟩ := toList_join hp hq
  rw [hjoin]
  rcases hfront with heq | heq
  · exact List.mem_append_left _ (heq ▸ h)
  · rw [List.append_cons, ← heq]
    exact List.mem_append_left _ h

theorem utf8ByteSize_le_join {p q : Path} (hp : p.text ≠ "") (hq : q.isAbsolute = false) :
    p.text.utf8ByteSize ≤ (p.join q).text.utf8ByteSize := by
  rw [join, if_neg (by simp [hp, hq])]
  split <;> simp only [String.utf8ByteSize_append] <;> omega

theorem isAbsolute_join {p q : Path} (hp : p.text ≠ "") (hq : q.isAbsolute = false) :
    (p.join q).isAbsolute = p.isAbsolute := by
  obtain ⟨front, hjoin, hfront⟩ := toList_join hp hq
  have hne : p.text.toList ≠ [] := by simpa using hp
  unfold isAbsolute
  rw [hjoin]
  cases front with
  | nil =>
    rcases hfront with h | h
    · exact absurd h hne
    · simp [h]
  | cons c front =>
    rcases hfront with h | h <;> simp [h]

/-- The names of a joined path are those of its parts, but for an empty name between them. -/
theorem steps_join {p q : Path} (hp : p.text ≠ "") (hq : q.isAbsolute = false) :
    ∃ front, (p.join q).steps = front ++ q.steps ∧ (p.steps = front ∨ p.steps = front ++ [""]) := by
  obtain ⟨front, hjoin, hfront⟩ := toList_join hp hq
  have hsplit (s t : List Char) : (s ++ '/' :: t).splitOnP (· = '/') =
      s.splitOnP (· = '/') ++ t.splitOnP (· = '/') := List.splitOnP_append_cons s t rfl
  refine ⟨(front.splitOnP (· = '/')).map String.ofList, ?_, ?_⟩
  · rw [steps_eq, hjoin, hsplit, List.map_append, ← steps_eq]
  · rcases hfront with h | h
    · exact .inl (by rw [steps_eq, h])
    · refine .inr ?_
      rw [steps_eq, h, hsplit, List.map_append]
      rfl

end Path

namespace FileSystem

/-! ### By the spelling -/

/-- What one name of a path makes of a location. -/
def turn (here : Location) (name : String) : Location :=
  if name = "" ∨ name = "." then here
  else if name = ".." then here.dropLast
  else here ++ [name]

@[simp] theorem turn_empty (here : Location) : turn here "" = here := rfl

theorem spelled_eq (base : Location) (p : Path) :
    spelled base p = p.steps.foldl turn (if p.isAbsolute then [] else base) := rfl

/-- An absolute path spells the same location from everywhere. -/
theorem spelled_of_isAbsolute {p : Path} (h : p.isAbsolute = true) (base base' : Location) :
    spelled base p = spelled base' p := by
  rw [spelled_eq, spelled_eq, h]
  rfl

@[simp] theorem spelled_empty (base : Location) : spelled base ⟨""⟩ = base := rfl

/-- A joined path spells what its second part spells from where the first part leads. -/
theorem spelled_join (base : Location) (p q : Path) :
    spelled base (p.join q) = spelled (spelled base p) q := by
  by_cases hq : q.isAbsolute = true
  · rw [Path.join_of_isAbsolute hq]
    exact spelled_of_isAbsolute hq _ _
  by_cases hp : p.text = ""
  · obtain ⟨text⟩ := p
    subst hp
    rw [Path.join_of_empty rfl, spelled_empty]
  rw [Bool.not_eq_true] at hq
  obtain ⟨front, hjoin, hfront⟩ := Path.steps_join hp hq
  rw [spelled_eq, Path.isAbsolute_join hp hq, hjoin, List.foldl_append, spelled_eq _ q, hq,
    spelled_eq]
  rcases hfront with h | h <;> simp [h]

/-! ### Through the directories -/

variable {fs : FileSystem} {here there : Place} {name : String}

/-- What a step can do: stay, go up, or go on to an entry. -/
theorem cases_of_step (h : fs.step here name = .ok there) :
    ((name = "" ∨ name = ".") ∧ there = here) ∨ (name = ".." ∧ there = here.up) ∨
      (¬ (name = "" ∨ name = ".") ∧ name ≠ ".." ∧ there = here.below name) := by
  unfold step at h
  split at h
  · cases h
  · cases h
  · cases h
  · split at h
    · rename_i hstay
      cases h
      exact .inl ⟨hstay, rfl⟩
    · rename_i hstay
      split at h
      · rename_i hup
        cases h
        exact .inr (.inl ⟨hup, rfl⟩)
      · rename_i hup
        split at h
        · cases h
          exact .inr (.inr ⟨hstay, hup, rfl⟩)
        · split at h <;> cases h

theorem location_of_step (h : fs.step here name = .ok there) :
    there.location = turn here.location name := by
  unfold turn
  obtain ⟨hstay, rfl⟩ | ⟨hup, rfl⟩ | ⟨hstay, hup, rfl⟩ := cases_of_step h
  · rw [if_pos hstay]
  · rw [hup]
    rfl
  · rw [if_neg hstay, if_neg hup]
    rfl

theorem location_of_steps {names : List String} (h : names.foldlM fs.step here = .ok there) :
    there.location = names.foldl turn here.location := by
  induction names generalizing here with
  | nil =>
    cases h
    rfl
  | cons name names ih =>
    rw [List.foldlM_cons] at h
    cases hstep : fs.step here name with
    | error e =>
      rw [hstep] at h
      cases h
    | ok next =>
      rw [hstep] at h
      rw [List.foldl_cons, ← location_of_step hstep]
      exact ih h

theorem location_start (fs : FileSystem) (p : Path) :
    (fs.start p).location = if p.isAbsolute then [] else fs.cwd.location := by
  unfold start
  split <;> rfl

/-- A path leads where its spelling says, if it leads anywhere. -/
theorem location_of_locate {p : Path} {place : Place} (h : fs.locate p = .ok place) :
    place.location = spelled fs.cwd.location p := by
  unfold locate at h
  split at h
  · cases h
  · rw [location_of_steps h, location_start, spelled_eq]

/-- An empty name changes nothing if another name follows it: what the empty one cannot pass, the
other cannot either. -/
theorem step_empty_bind (fs : FileSystem) (here : Place) {names : List String} (h : names ≠ []) :
    (fs.step here "" >>= fun there => names.foldlM fs.step there) = names.foldlM fs.step here := by
  obtain ⟨name, rest, rfl⟩ := List.exists_cons_of_ne_nil h
  cases hat : fs.at? here with
  | none =>
    simp only [List.foldlM_cons, step, hat]
    rfl
  | some tree =>
    cases tree with
    | file content =>
      simp only [List.foldlM_cons, step, hat]
      rfl
    | danglingLink =>
      simp only [List.foldlM_cons, step, hat]
      rfl
    | directory entries =>
      have hstay : fs.step here "" = .ok here := by simp [step, hat]
      rw [hstay]
      rfl

/-- A joined path leads where its second part leads from the place of the first. -/
theorem foldlM_steps_join {p q : Path} (hp : p.text ≠ "") (hq : q.isAbsolute = false)
    (here : Place) :
    (p.join q).steps.foldlM fs.step here =
      p.steps.foldlM fs.step here >>= fun there => q.steps.foldlM fs.step there := by
  obtain ⟨front, hjoin, hfront⟩ := Path.steps_join hp hq
  rw [hjoin, List.foldlM_append]
  rcases hfront with h | h
  · rw [h]
  · rw [h, List.foldlM_append, bind_assoc]
    refine bind_congr fun there => ?_
    rw [← step_empty_bind fs there q.steps_ne_nil]
    simp

theorem start_join {p q : Path} (hp : p.text ≠ "") (hq : q.isAbsolute = false) :
    fs.start (p.join q) = fs.start p := by
  rw [start, start, Path.isAbsolute_join hp hq]

theorem fault?_eq_none {p : Path} : fault? p = none ↔
    '\x00' ∉ p.text.toList ∧ p.text ≠ "" ∧ ¬ pathLimit < p.text.utf8ByteSize := by
  unfold fault?
  split
  · simp_all
  · split
    · simp_all
    · split <;> simp_all

theorem fault?_of_join {p q : Path} (hp : p.text ≠ "") (hq : q.isAbsolute = false)
    (h : fault? (p.join q) = none) : fault? p = none := by
  obtain ⟨hnul, -, hshort⟩ := fault?_eq_none.1 h
  refine fault?_eq_none.2 ⟨fun hmem => hnul (Path.mem_join_of_mem hp hq hmem), hp, fun hlong => ?_⟩
  exact hshort (Nat.lt_of_lt_of_le hlong (Path.utf8ByteSize_le_join hp hq))

theorem locate_of_fault? {p : Path} {e : ReadFailure} (h : fault? p = some e) :
    fs.locate p = .error e := by
  rw [locate, h]

theorem locate_of_no_fault {p : Path} (h : fault? p = none) :
    fs.locate p = p.steps.foldlM fs.step (fs.start p) := by
  rw [locate, h]

theorem fault?_of_locate {p : Path} {place : Place} (h : fs.locate p = .ok place) :
    fault? p = none := by
  unfold locate at h
  split at h
  · cases h
  · assumption

theorem locate_join {p q : Path} (hp : p.text ≠ "") (hq : q.isAbsolute = false)
    (hfault : fault? (p.join q) = none) :
    fs.locate (p.join q) = fs.locate p >>= fun there => q.steps.foldlM fs.step there := by
  rw [locate_of_no_fault hfault, locate_of_no_fault (fault?_of_join hp hq hfault),
    start_join hp hq, foldlM_steps_join hp hq]

/-- The working directory is spelled from the root. -/
theorem isAbsolute_of_cwdPath? {cwd : Path} (h : fs.cwdPath? = some cwd) :
    cwd.isAbsolute = true := by
  unfold cwdPath? at h
  split at h
  · cases h
    exact Path.isAbsolute_iff.2 ⟨_, String.toList_append⟩
  · cases h

end FileSystem

end LintReport
