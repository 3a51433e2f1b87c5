/-
How a relative path reaches its goal.

From a directory that stays below its start, the relative path to another such path climbs
once for each name that the two do not share, and then only descends. Joined to the
directory it has the normal form of the goal. Its text starts with a dot, so that it is
never taken for a package; the mark is missing only where the first name after the shared
ones starts with two dots, since such a name is taken for a climb.

* **`normalize_join_relative`** — joined to its start, a relative path has the normal form
  of its goal;
* **`segments_climbs`** — the climbs of a relative path, and where they stand;
* **`relative_reaches`** — where a relative path leads, its climbs and its text.
-/
import ScreenHooks.Proofs.Path.Location

namespace ScreenHooks

namespace Text

theorem startsWith_append (s t : String) : startsWith (s ++ t) s = true := by
  rw [startsWith, String.toList_append]
  exact List.isPrefixOf_iff_prefix.2 (List.prefix_append _ _)

end Text

namespace Path

open Text

/-! ### Where it leads -/

/-- Joined to its start, a relative path has the normal form of its goal. -/
theorem normalize_join_relative {start goal : Path} (hstart : Level start) (hgoal : Level goal) :
    (start.join ⟨relative start goal⟩).normalize = goal.normalize := by
  have habs : (start.join ⟨relative start goal⟩).isAbsolute = false :=
    isAbsolute_join hstart.relative (relative_ends hstart hgoal).2.1
  have hplace : (start.join ⟨relative start goal⟩).location = goal.location := by
    rw [location, location, habs, hgoal.relative]
    exact congrArg (Location.mk false) (collapsed_join_relative hstart hgoal)
  -- only at the root can one place have two normal forms
  refine (normalize_eq_iff hplace).2 fun hroot => ?_
  rw [habs] at hroot
  cases hroot

/-! ### Its climbs -/

/-- The longest list that two lists both start with. -/
structure LongestShared (shared a b : List String) : Prop where
  left : shared <+: a
  right : shared <+: b
  longest : ∀ other, other <+: a → other <+: b → other.length ≤ shared.length

/-- A relative path starts with a climb for each name of its start that the goal does not
share, and has no climb after them. -/
theorem segments_climbs {start goal : Path} (hstart : Level start) (hgoal : Level goal) :
    ∃ shared rest, LongestShared shared start.names goal.names ∧
      segments ⟨relative start goal⟩ =
        List.replicate (start.names.length - shared.length) ".." ++ rest ∧ ".." ∉ rest := by
  obtain ⟨count, hle, htake, hsteps, hlongest⟩ := relativeSegments_eq hstart hgoal
  obtain ⟨dots, hsegments, hdots, hhead⟩ := segments_relative hstart hgoal
  have hcount : (start.names.take count).length = count := List.length_take_of_le hle
  have hshared : LongestShared (start.names.take count) start.names goal.names := by
    refine ⟨List.take_prefix _ _, ?_, ?_⟩
    · rw [htake]
      exact List.take_prefix _ _
    · rwa [hcount]
  have hdot : ".." ∉ dots := fun h => absurd (hdots _ h) (by decide)
  have hdrop : ".." ∉ goal.names.drop count := fun h => hgoal.no_climb (List.mem_of_mem_drop h)
  refine ⟨start.names.take count, dots ++ goal.names.drop count, hshared, ?_, ?_⟩
  · rw [hsegments, hsteps, hcount]
    -- a dot stands in front only where nothing is climbed
    cases hclimbs : start.names.length - count with
    | zero => rfl
    | succ climbs =>
      have hnone : dots = [] := hhead (by rw [hsteps, hclimbs]; rfl)
      rw [hnone]
      rfl
  · rw [List.mem_append, not_or]
    exact ⟨hdot, hdrop⟩

/-! ### Its text -/

/-- A relative path starts with a mark of its own, unless a name of the goal starts with two
dots. -/
theorem relative_marked {start goal : Path} (hstart : Level start) (hgoal : Level goal)
    (hnames : ∀ name ∈ goal.names, startsWith name ".." = false) :
    relative start goal = "." ∨ relative start goal = ".." ∨
      startsWith (relative start goal) "./" = true ∨
      startsWith (relative start goal) "../" = true := by
  obtain ⟨count, -, -, hsteps, -⟩ := relativeSegments_eq hstart hgoal
  cases hrelative : relativeSegments start goal with
  | nil =>
    left
    rw [relative, hrelative]
    rfl
  | cons first rest =>
    have hfirst : first ∈ relativeSegments start goal := by
      rw [hrelative]
      exact List.mem_cons_self
    rw [relative_text hrelative (relativeSegments_plain hstart hgoal first hfirst).2]
    rw [hsteps, List.mem_append] at hfirst
    -- the first segment is a climb or a name of the goal
    rcases hfirst with hclimb | hname
    · rw [List.eq_of_mem_replicate hclimb]
      cases rest with
      | nil => exact .inr (.inl rfl)
      | cons next more =>
        rw [String.intercalate_cons_cons, if_pos (by decide), String.empty_append]
        exact .inr (.inr (.inr (startsWith_append "../" _)))
    · rw [hnames first (List.mem_of_mem_drop hname)]
      exact .inr (.inr (.inl (startsWith_append "./" _)))

/-- From a directory to a path, both below their start, a relative path leads to its goal; it
climbs exactly from what they do not share, and is never taken for a package. -/
theorem relative_reaches (start goal : Path) (hstart : Level start) (hgoal : Level goal) :
    (start.join ⟨relative start goal⟩).normalize = goal.normalize ∧
      (∃ shared rest, LongestShared shared start.names goal.names ∧
        segments ⟨relative start goal⟩ =
          List.replicate (start.names.length - shared.length) ".." ++ rest ∧ ".." ∉ rest) ∧
      ((∀ name ∈ goal.names, startsWith name ".." = false) →
        relative start goal = "." ∨ relative start goal = ".." ∨
          startsWith (relative start goal) "./" = true ∨
          startsWith (relative start goal) "../" = true) :=
  ⟨normalize_join_relative hstart hgoal, segments_climbs hstart hgoal,
    relative_marked hstart hgoal⟩

/-- From a directory with idle dots and slashes to a path that shares its first name. -/
theorem relative_reaches_hooks :
    (⟨"src//screens/./old/"⟩ : Path).Level ∧ (⟨"./src/hooks//"⟩ : Path).Level ∧
      (∀ name ∈ (⟨"./src/hooks//"⟩ : Path).names, startsWith name ".." = false) ∧
      relative ⟨"src//screens/./old/"⟩ ⟨"./src/hooks//"⟩ = "../../hooks" ∧
      ((⟨"src//screens/./old/"⟩ : Path).join ⟨"../../hooks"⟩).normalize =
        (⟨"./src/hooks//"⟩ : Path).normalize ∧
      startsWith "../../hooks" "../" = true := by
  have hstart : (⟨"src//screens/./old/"⟩ : Path).Level := by decide
  have hgoal : (⟨"./src/hooks//"⟩ : Path).Level := by decide
  have hnames : ∀ name ∈ (⟨"./src/hooks//"⟩ : Path).names, startsWith name ".." = false := by
    decide
  have htext : relative ⟨"src//screens/./old/"⟩ ⟨"./src/hooks//"⟩ = "../../hooks" := by decide
  obtain ⟨hnormal, -, hmarked⟩ := relative_reaches _ _ hstart hgoal
  rw [htext] at hnormal hmarked
  refine ⟨hstart, hgoal, hnames, htext, hnormal, ?_⟩
  rcases hmarked hnames with h | h | h | h
  · exact absurd h (by decide)
  · exact absurd h (by decide)
  · exact absurd h (by decide)
  · exact h

/-- A name that starts with two dots is taken for a climb, and is left without a mark. -/
example : relative ⟨"src"⟩ ⟨"src/..cache"⟩ = "..cache" := by decide

end Path

end ScreenHooks
