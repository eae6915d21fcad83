import DocTyping.Pipeline.Projection
import DocTyping.Proofs.Keyed
import DocTyping.Proofs.Path.Lookup
import Mathlib.Data.List.Induction

namespace DocTyping

/-!
# Planted leaves

An inclusion plants its leaves in a tree, one after the other.  Where no path begins
another, no leaf is in the way of another: what stands under a name is the leaf whose
path ends there, or a tree of the leaves whose paths go on from there.
-/

/-- The names that paths go on with behind a front, in the order in which they are first met. -/
def followers (front : List String) (paths : List (List String)) : List String :=
  (paths.filterMap fun path => if front <+: path then path[front.length]? else none).eraseDups

theorem eraseDups_snoc (names : List String) (name : String) : (names ++ [name]).eraseDups =
    if name ∈ names then names.eraseDups else names.eraseDups ++ [name] := by
  rw [List.eraseDups_append]
  split
  · rename_i member
    have gone : [name].removeAll names = [] := by simp [List.removeAll, List.filter, member]
    rw [gone, List.eraseDups_nil, List.append_nil]
  · rename_i new
    have left : [name].removeAll names = [name] := by simp [List.removeAll, List.filter, new]
    rw [left]
    rfl

namespace Kept

abbrev Leaves := List (List String × Kept)

variable {leaves : Leaves} {leaf held : Kept} {tree : Keyed Kept} {name key : String}
  {names rest front : List String}

def plantAll (tree : Keyed Kept) (leaves : Leaves) : Keyed Kept :=
  leaves.foldl (fun tree leaf => plant leaf.2 leaf.1 tree) tree

def planted (leaves : Leaves) : Keyed Kept := plantAll [] leaves

def goOn (name : String) : List String × Kept → Option (List String × Kept)
  | ([], _) => none
  | (key :: rest, leaf) => if key = name then some (rest, leaf) else none

def under (name : String) (leaves : Leaves) : Leaves := leaves.filterMap (goOn name)

/-- No path is empty, and none begins another. -/
structure Separate (leaves : Leaves) : Prop where
  filled : ∀ leaf ∈ leaves, leaf.1 ≠ []
  apart : leaves.Pairwise fun former latter => Apart former.1 latter.1

theorem planted_snoc : planted (leaves ++ [(names, leaf)]) = plant leaf names (planted leaves) := by
  simp [planted, plantAll]

theorem goOn_eq_some_iff {entry left : List String × Kept} :
    goOn name entry = some left ↔ entry = (name :: left.1, left.2) := by
  obtain ⟨path, held⟩ := entry
  obtain ⟨rest, leaf⟩ := left
  cases path with
  | nil => simp [goOn]
  | cons key back => simp [goOn, and_assoc]

theorem mem_under : (rest, leaf) ∈ under name leaves ↔ (name :: rest, leaf) ∈ leaves := by
  simp [under, goOn_eq_some_iff]

theorem under_snoc : under name (leaves ++ [(key :: rest, leaf)]) =
    if key = name then under name leaves ++ [(rest, leaf)] else under name leaves := by
  by_cases same : key = name
  · simp [under, goOn, same]
  · simp [under, goOn, same]

theorem Separate.snoc_iff : Separate (leaves ++ [(names, leaf)]) ↔
    Separate leaves ∧ names ≠ [] ∧ ∀ other ∈ leaves, Apart other.1 names := by
  constructor
  · rintro ⟨filled, apart⟩
    obtain ⟨former, _, last⟩ := List.pairwise_append.mp apart
    refine ⟨⟨fun leaf member => filled leaf (by simp [member]), former⟩, ?_, ?_⟩
    · exact filled (names, leaf) (by simp)
    · exact fun other member => last other member (names, leaf) (by simp)
  · rintro ⟨⟨filled, apart⟩, present, others⟩
    refine ⟨?_, List.pairwise_append.mpr ⟨apart, List.pairwise_singleton _ _, ?_⟩⟩
    · intro other member
      rcases List.mem_append.mp member with former | last
      · exact filled other former
      · rw [List.mem_singleton.mp last]
        exact present
    · intro other member last single
      rw [List.mem_singleton.mp single]
      exact others other member

theorem under_eq_nil (apart : ∀ leaf ∈ leaves, Apart leaf.1 [name]) : under name leaves = [] := by
  refine List.eq_nil_iff_forall_not_mem.mpr fun entry entered => ?_
  exact (apart _ (mem_under.mp entered)).2 (by simp)

/-- A leaf stands alone under its name if its path ends there. -/
theorem Separate.under_eq_singleton (separate : Separate leaves)
    (member : ([name], leaf) ∈ leaves) : under name leaves = [([], leaf)] := by
  induction leaves using List.reverseRecOn with
  | nil => contradiction
  | append_singleton leaves last ih =>
      obtain ⟨names, held⟩ := last
      obtain ⟨former, filled, apart⟩ := snoc_iff.mp separate
      obtain ⟨key, rest, rfl⟩ := List.exists_cons_of_ne_nil filled
      rw [under_snoc]
      rcases List.mem_append.mp member with earlier | here
      · have other : key ≠ name := by
          rintro rfl
          exact (apart _ earlier).1 (by simp)
        rw [if_neg other, ih former earlier]
      · cases List.mem_singleton.mp here
        rw [if_pos rfl, under_eq_nil apart, List.nil_append]

theorem under_filled (onward : ∀ leaf, ([name], leaf) ∉ leaves) :
    ∀ leaf ∈ under name leaves, leaf.1 ≠ [] := by
  rintro ⟨names, leaf⟩ member rfl
  exact onward leaf (mem_under.mp member)

theorem Separate.under (separate : Separate leaves) (onward : ∀ leaf, ([name], leaf) ∉ leaves) :
    Separate (under name leaves) := by
  refine ⟨under_filled onward, ?_⟩
  refine separate.apart.filterMap _ fun former latter apart first entered second follows => ?_
  rw [goOn_eq_some_iff.mp entered, goOn_eq_some_iff.mp follows] at apart
  exact apart_cons_iff.mp apart rfl

/-! ### What a tree holds under a name -/

theorem get?_plant_of_ne (different : key ≠ name) :
    (plant leaf (key :: rest) tree).get? name = tree.get? name := by
  cases rest with
  | nil => rw [plant, Keyed.get?_put, if_neg different]
  | cons next later =>
      simp only [plant]
      split
      · rw [Keyed.get?_put, if_neg different]
      · rw [Keyed.get?_put, if_neg different]
      · rfl

/-- A path that goes on adds its leaf to the tree under its first name. -/
theorem get?_plant_onward {children : Keyed Kept}
    (held : tree.get? name = none ∧ children = [] ∨ tree.get? name = some (.nested children)) :
    (plant leaf (name :: key :: rest) tree).get? name =
      some (.nested (plant leaf (key :: rest) children)) := by
  rcases held with ⟨none, rfl⟩ | some_
  · simp [plant, none, Keyed.get?_put]
  · simp [plant, some_, Keyed.get?_put]

theorem names_plant : (plant leaf (name :: rest) tree).names =
    if name ∈ tree.names then tree.names else tree.names ++ [name] := by
  cases rest with
  | nil => exact Keyed.names_put leaf
  | cons next later =>
      simp only [plant]
      split
      · exact Keyed.names_put _
      · exact Keyed.names_put _
      · rename_i kept _ found
        rw [if_pos (Keyed.get?_isSome_iff.mp (by rw [found]; rfl))]

theorem names_planted (filled : ∀ leaf ∈ leaves, leaf.1 ≠ []) :
    (planted leaves).names = followers [] (leaves.map Prod.fst) := by
  induction leaves using List.reverseRecOn with
  | nil => rfl
  | append_singleton leaves last ih =>
      obtain ⟨names, leaf⟩ := last
      obtain ⟨former, present⟩ := List.forall_mem_append.mp filled
      obtain ⟨name, rest, rfl⟩ := List.exists_cons_of_ne_nil (present (names, leaf) (by simp))
      have met : followers [] ((leaves ++ [(name :: rest, leaf)]).map Prod.fst) =
          if name ∈ followers [] (leaves.map Prod.fst) then followers [] (leaves.map Prod.fst)
          else followers [] (leaves.map Prod.fst) ++ [name] := by
        simp only [followers, List.map_append, List.filterMap_append, List.mem_eraseDups]
        exact eraseDups_snoc _ _
      rw [planted_snoc, names_plant, ih former, met]

def standing : Leaves → Option Kept
  | [] => none
  | [([], leaf)] => some leaf
  | leaves => some (.nested (planted leaves))

theorem standing_of_filled (present : leaves ≠ []) (filled : ∀ leaf ∈ leaves, leaf.1 ≠ []) :
    standing leaves = some (.nested (planted leaves)) := by
  unfold standing
  split
  · contradiction
  · simp at filled
  · rfl

/-- A tree holds a leaf under a name where its path ends, else a tree of the leaves under it. -/
theorem get?_planted (separate : Separate leaves) :
    (planted leaves).get? name = standing (under name leaves) := by
  induction leaves using List.reverseRecOn with
  | nil => rfl
  | append_singleton leaves last ih =>
      obtain ⟨names, leaf⟩ := last
      obtain ⟨former, filled, apart⟩ := Separate.snoc_iff.mp separate
      obtain ⟨key, rest, rfl⟩ := List.exists_cons_of_ne_nil filled
      have held := ih former
      rw [planted_snoc, under_snoc]
      by_cases same : key = name
      · subst same
        rw [if_pos rfl]
        cases rest with
        | nil =>
            rw [under_eq_nil apart, plant, Keyed.get?_put, if_pos rfl]
            rfl
        | cons next later =>
            have onward : ∀ leaf, ([key], leaf) ∉ leaves :=
              fun leaf member => (apart _ member).1 (by simp)
            have filled := under_filled onward
            have before : (planted leaves).get? key = none ∧ planted (under key leaves) = [] ∨
                (planted leaves).get? key = some (.nested (planted (under key leaves))) := by
              rw [held]
              cases inner : under key leaves with
              | nil => exact .inl ⟨rfl, rfl⟩
              | cons first others =>
                  rw [inner] at filled
                  exact .inr (standing_of_filled (List.cons_ne_nil _ _) filled)
            rw [get?_plant_onward before, standing_of_filled (by simp), planted_snoc]
            exact List.forall_mem_append.mpr ⟨filled, by simp⟩
      · rw [if_neg same, get?_plant_of_ne same, held]

theorem get?_planted_leaf (separate : Separate leaves) (member : ([name], leaf) ∈ leaves) :
    (planted leaves).get? name = some leaf := by
  rw [get?_planted separate, separate.under_eq_singleton member]
  rfl

theorem get?_planted_onward (separate : Separate leaves)
    (member : (name :: key :: rest, leaf) ∈ leaves) :
    (planted leaves).get? name = some (.nested (planted (under name leaves))) ∧
      Separate (under name leaves) := by
  have entered := mem_under.mpr member
  have onward : ∀ leaf, ([name], leaf) ∉ leaves := by
    intro other ends
    have alone := separate.under_eq_singleton ends
    simp [alone] at entered
  have filled := under_filled onward
  rw [get?_planted separate, standing_of_filled (List.ne_nil_of_mem entered) filled]
  exact ⟨rfl, separate.under onward⟩

/-! ### The names behind a front -/

theorem followers_cons : followers (name :: front) (leaves.map Prod.fst) =
    followers front ((under name leaves).map Prod.fst) := by
  simp only [followers, under, List.filterMap_map, List.filterMap_filterMap]
  refine congrArg (fun next => (leaves.filterMap next).eraseDups) (funext fun leaf => ?_)
  obtain ⟨path, held⟩ := leaf
  cases path with
  | nil => simp [goOn]
  | cons key rest =>
      by_cases same : key = name
      · simp [goOn, same]
      · simp [goOn, same, Ne.symm same]

end Kept

end DocTyping
