import LintReport.Text.Field

/-!
Paths as they are written. A path is never normalised: joining and going up keep the spelling of
what stays, so that tools are given, and report, the paths that the user wrote.
-/
namespace LintReport

structure Path where
  text : String
  deriving DecidableEq, Repr

namespace Path

instance : Inhabited Path := ⟨⟨""⟩⟩

/-- Absolute paths begin with a slash. -/
def isAbsolute (p : Path) : Bool := p.text.toList.head? = some '/'

/-- A path below another. An absolute path stands for itself; the empty one leaves a slash at the
end. -/
def join (p q : Path) : Path :=
  if q.isAbsolute || p.text = "" then q
  else if p.text.toList.getLast? = some '/' then ⟨p.text ++ q.text⟩
  else ⟨p.text ++ "/" ++ q.text⟩

/-- The path less the slashes and dots at its end that name nothing; given and returned backwards.
-/
def trimBack : List Char → List Char
  | [] => []
  | '/' :: s => trimBack s
  | ['.'] => []
  | '.' :: '/' :: s => trimBack s
  | s => s

/-- The part of a path that goes up cannot take away: the root, or a dot at the front. -/
def splitRoot : List Char → List Char × List Char
  | '/' :: s => (['/'], s)
  | ['.'] => (['.'], [])
  | '.' :: '/' :: s => (['.'], '/' :: s)
  | s => ([], s)

/-- The path without its last component. The root and the empty path have none. -/
def parent? (p : Path) : Option Path :=
  let (root, body) := splitRoot p.text.toList
  match trimBack body.reverse with
  | [] => if root = ['.'] then some ⟨""⟩ else none
  | backwards =>
    let above := trimBack (backwards.dropWhile (· ≠ '/'))
    some ⟨String.ofList (root ++ above.reverse)⟩

theorem length_trimBack_le (s : List Char) : (trimBack s).length ≤ s.length := by
  fun_induction trimBack s with
  | case1 => simp
  | case2 s ih => simp only [List.length_cons]; omega
  | case3 => simp
  | case4 s ih => simp only [List.length_cons]; omega
  | case5 => simp

theorem head?_trimBack_ne (s : List Char) : (trimBack s).head? ≠ some '/' := by
  fun_induction trimBack s with
  | case1 => simp
  | case2 s ih => exact ih
  | case3 => simp
  | case4 s ih => exact ih
  | case5 s _ hslash =>
    cases s with
    | nil => simp
    | cons c s => intro h; exact hslash s (by simpa using h)

theorem length_splitRoot (s : List Char) :
    (splitRoot s).1.length + (splitRoot s).2.length = s.length := by
  unfold splitRoot
  split <;> simp <;> omega

/-- Going up leaves a shorter path. -/
theorem length_lt_of_parent? {p q : Path} (h : p.parent? = some q) :
    q.text.toList.length < p.text.toList.length := by
  unfold parent? at h
  have hroot := length_splitRoot p.text.toList
  generalize splitRoot p.text.toList = parts at h hroot
  obtain ⟨root, body⟩ := parts
  dsimp only at h hroot
  have hback := length_trimBack_le body.reverse
  rw [List.length_reverse] at hback
  split at h
  · split at h
    · rename_i hdot
      cases h
      subst hdot
      simp only [List.length_cons, List.length_nil] at hroot
      simp only [String.toList_empty, List.length_nil]; omega
    · simp at h
  · rename_i hne
    cases h
    have hhead := head?_trimBack_ne body.reverse
    generalize trimBack body.reverse = backwards at hback hhead hne
    have hdrop : (backwards.dropWhile (· ≠ '/')).length < backwards.length := by
      cases backwards with
      | nil => exact absurd rfl hne
      | cons c s =>
        have hc : c ≠ '/' := by simpa using hhead
        have := (List.dropWhile_sublist (· ≠ '/') (l := s)).length_le
        simp only [List.dropWhile_cons, hc, ne_eq, not_false_eq_true, decide_true, if_true,
          List.length_cons]
        simp only [ne_eq] at this
        omega
    have habove := length_trimBack_le (backwards.dropWhile (· ≠ '/'))
    simp only [String.toList_ofList, List.length_append, List.length_reverse]
    omega

/-- The path itself and all paths above it, nearest first. -/
def ancestors (p : Path) : List Path :=
  match _up : p.parent? with
  | none => [p]
  | some q => p :: ancestors q
termination_by p.text.toList.length
decreasing_by exact length_lt_of_parent? _up

/-- The names between the slashes. An empty name and a dot stay where they are, two dots go up. -/
def steps (p : Path) : List String :=
  (Text.splitWhere (· = '/') p.text.toList).map String.ofList

end Path

end LintReport
