import DocTyping.Proofs.Json.Rounding
import DocTyping.Proofs.Pipeline.Derivations
import DocTyping.Proofs.Text.ByteOrder
import Mathlib.Data.List.Chain

namespace DocTyping

/-!
# Ascending boundaries

Each boundary of buckets is compared with the one before it.  So texts ascend throughout, by their
UTF-8 bytes, and integers do wherever no wrapped number stands between them.  Integers are compared
by the nearest binary64 numbers: neighbours that are rounded to the same one are refused.
-/

/-- Integers in ascending order of which no two neighbours are rounded to the same number. -/
structure AscendRounded (integers : List Int) : Prop where
  ascending : integers.Pairwise (· < ·)
  apart : integers.IsChain fun former latter => Binary64.ofInt former ≠ Binary64.ofInt latter

/-- Boundaries in ascending order: texts by their UTF-8 bytes, and integers from one to another
unless a wrapped number stands between them. -/
structure AscendPlainly (items : List Json) : Prop where
  several : 2 ≤ items.length
  texts : ∀ (i j : Nat) (one other : String), i < j → items[i]? = some (Json.string one) →
    items[j]? = some (Json.string other) → Text.bytes one < Text.bytes other
  integers : ∀ (i j : Nat) (one other : Int), i < j → items[i]? = some (Json.ofInt one) →
    items[j]? = some (Json.ofInt other) →
      (∀ k value, i < k → k < j → items[k]? = some value →
        Boundary.of? value ≠ some .wrappedNumber) → one < other

def Json.boundaries? (specification : Json) : Option (List Json) :=
  (specification.object?.bind fun entries => entries.get? "boundaries").bind array?

namespace Boundary

def Follows (previous next : Json) : Prop :=
  ∃ former latter, of? previous = some former ∧ of? next = some latter ∧
    latter.kind = former.kind ∧ latter.mayFollow former = true

/-- One boundary is less than another of the same plain form. -/
inductive Below : Boundary → Boundary → Prop
  | number {former latter : Binary64} (less : former.signedUnits < latter.signedUnits) :
      Below (number former) (number latter)
  | text {former latter : String} (less : former < latter) : Below (text former) (text latter)

/-- One value states a lesser boundary than another, of the same plain form. -/
def Precedes (previous next : Json) : Prop :=
  ∃ former latter, of? previous = some former ∧ of? next = some latter ∧ Below former latter

variable {first previous next value wrapped middle : Json} {former latter boundary : Boundary}
  {items : List Json}

theorem read_eq_ok : read value = .ok boundary ↔ of? value = some boundary := by
  unfold read
  cases of? value with
  | none => simp
  | some held => simp

theorem checkAfter_eq_ok (stated : of? first = some former) :
    checkAfter former items = .ok () ↔ (first :: items).IsChain Follows := by
  induction items generalizing first former with
  | nil => simp [checkAfter]
  | cons value rest ih =>
      simp only [checkAfter, bind_eq_ok, read_eq_ok, demand_eq_ok, List.isChain_cons_cons,
        decide_eq_true_eq]
      constructor
      · intro accepted
        obtain ⟨latter, statedToo, _, same, _, follows, later⟩ := accepted
        exact ⟨⟨former, latter, stated, statedToo, same, follows⟩, (ih statedToo).mp later⟩
      · intro chained
        obtain ⟨⟨again, latter, statedAgain, statedToo, same, follows⟩, later⟩ := chained
        cases stated.symm.trans statedAgain
        exact ⟨latter, statedToo, (), same, (), follows, (ih statedToo).mpr later⟩

/-- Boundaries are accepted exactly if there are two of them at least and each may follow the one
before it. -/
theorem checkAll_eq_ok :
    checkAll value = .ok () ↔
      ∃ items, value = .array items ∧ 2 ≤ items.length ∧ items.IsChain Follows := by
  unfold checkAll
  split
  · rename_i first second rest
    simp only [bind_eq_ok, read_eq_ok]
    constructor
    · intro accepted
      obtain ⟨boundary, stated, later⟩ := accepted
      exact ⟨_, rfl, by simp, (checkAfter_eq_ok stated).mp later⟩
    · intro accepted
      obtain ⟨items, same, _, chained⟩ := accepted
      cases same
      obtain ⟨boundary, _, stated, _⟩ := (List.isChain_cons_cons.mp chained).1
      exact ⟨boundary, stated, (checkAfter_eq_ok stated).mpr chained⟩
  · rename_i other
    simp only [reduceCtorEq, false_iff]
    intro accepted
    obtain ⟨items, same, long, _⟩ := accepted
    cases items with
    | nil => contradiction
    | cons first rest =>
        cases rest with
        | nil => contradiction
        | cons second rest => exact other first second rest same

theorem Below.trans (below : Below former boundary) (onward : Below boundary latter) :
    Below former latter := by
  cases below with
  | number less =>
      cases onward with
      | number more => exact .number (Int.lt_trans less more)
  | text less =>
      cases onward with
      | text more => exact .text (String.lt_trans less more)

theorem Precedes.trans (first : Precedes previous middle) (last : Precedes middle next) :
    Precedes previous next := by
  obtain ⟨former, boundary, stated, between, below⟩ := first
  obtain ⟨again, latter, betweenToo, statedToo, onward⟩ := last
  cases between.symm.trans betweenToo
  exact ⟨former, latter, stated, statedToo, below.trans onward⟩

/-- A value that is no object states a number or a text as it stands. -/
theorem of?_plain (plain : value.object? = none) (stated : of? value = some boundary) :
    (∃ held, boundary = number held) ∨ ∃ held, boundary = text held := by
  cases value with
  | number held => exact .inl ⟨_, (Option.some.inj stated).symm⟩
  | string held => exact .inr ⟨_, (Option.some.inj stated).symm⟩
  | _ => contradiction

theorem Follows.precedes (follows : Follows previous next) (plain : previous.object? = none)
    (plainToo : next.object? = none) : Precedes previous next := by
  obtain ⟨former, latter, stated, statedToo, same, allowed⟩ := follows
  refine ⟨former, latter, stated, statedToo, ?_⟩
  rcases of?_plain plain stated with ⟨held, rfl⟩ | ⟨held, rfl⟩
  · rcases of?_plain plainToo statedToo with ⟨other, rfl⟩ | ⟨other, rfl⟩
    · exact .number (of_decide_eq_true allowed)
    · contradiction
  · rcases of?_plain plainToo statedToo with ⟨other, rfl⟩ | ⟨other, rfl⟩
    · contradiction
    · exact .text (of_decide_eq_true allowed)

theorem exists_follows {k : Nat} (chained : items.IsChain Follows)
    (held : items[k + 1]? = some next) :
    ∃ middle, items[k]? = some middle ∧ Follows middle next := by
  obtain ⟨bound, rfl⟩ := List.getElem?_eq_some_iff.mp held
  exact ⟨items[k], List.getElem?_eq_getElem _, List.isChain_iff_getElem.mp chained k bound⟩

/-- Boundaries ascend from one position to a later one with only plain values between. -/
theorem precedes_of_chained {i j : Nat} (chained : items.IsChain Follows) (order : i < j)
    (held : items[i]? = some previous) (heldToo : items[j]? = some next)
    (plain : ∀ k value, i ≤ k → k ≤ j → items[k]? = some value → value.object? = none) :
    Precedes previous next := by
  induction order generalizing next with
  | refl =>
      obtain ⟨middle, stands, follows⟩ := exists_follows chained heldToo
      cases held.symm.trans stands
      exact follows.precedes (plain i previous (by omega) (by omega) held)
        (plain (i + 1) next (by omega) (by omega) heldToo)
  | @step k order ih =>
      obtain ⟨middle, stands, follows⟩ := exists_follows chained heldToo
      have low : i ≤ k := Nat.le_of_succ_le order
      have first : Precedes previous middle := by
        apply ih stands
        intro position value behind before
        exact plain position value behind (by omega)
      have last : Precedes middle next := follows.precedes
        (plain k middle low (by omega) stands) (plain (k + 1) next (by omega) (by omega) heldToo)
      exact first.trans last

def kind? (value : Json) : Option ScalarKind := (of? value).map kind

theorem kind?_eq_of_chained {i j : Nat} (chained : items.IsChain Follows) (order : i ≤ j)
    (held : items[i]? = some previous) (heldToo : items[j]? = some next) :
    kind? next = kind? previous := by
  induction order generalizing next with
  | refl => rw [Option.some.inj (held.symm.trans heldToo)]
  | step order ih =>
      obtain ⟨middle, stands, former, latter, stated, statedToo, same, _⟩ :=
        exists_follows chained heldToo
      rw [← ih stands, kind?, kind?, stated, statedToo, Option.map_some, Option.map_some, same]

theorem wrapped_or_date (wrapped : value.object? ≠ none) (stated : of? value = some boundary) :
    boundary = wrappedNumber ∨ boundary = date := by
  cases value with
  | object entries =>
      simp only [of?] at stated
      split at stated
      · exact .inr (Option.some.inj stated).symm
      · split at stated
        · exact .inl (Option.some.inj stated).symm
        · contradiction
      · contradiction
  | _ => contradiction

/-- Behind a number or a text, the only boundaries in other forms are wrapped numbers. -/
theorem wrapped_of_chained {i j : Nat} (chained : items.IsChain Follows) (order : i ≤ j)
    (held : items[i]? = some previous) (heldToo : items[j]? = some value)
    (plain : previous.object? = none) (stated : of? previous = some former)
    (wrapped : value.object? ≠ none) :
    of? value = some wrappedNumber ∧ former.kind = .number := by
  have same : kind? value = some former.kind := by
    rw [kind?_eq_of_chained chained order held heldToo, kind?, stated, Option.map_some]
  obtain ⟨boundary, statedToo, kinds⟩ := Option.map_eq_some_iff.mp same
  rcases wrapped_or_date wrapped statedToo with rfl | rfl
  · exact ⟨statedToo, kinds.symm⟩
  · rcases of?_plain plain stated with ⟨_, rfl⟩ | ⟨_, rfl⟩
    · contradiction
    · contradiction

/-- Texts ascend from any position to any later one. -/
theorem texts_ascend {i j : Nat} {one other : String} (chained : items.IsChain Follows)
    (order : i < j) (held : items[i]? = some (.string one))
    (heldToo : items[j]? = some (.string other)) : one < other := by
  have plain : ∀ k value, i ≤ k → k ≤ j → items[k]? = some value → value.object? = none := by
    intro k value low high stands
    by_contra wrapped
    have number : (text one).kind = .number :=
      (wrapped_of_chained chained low held stands rfl rfl wrapped).2
    contradiction
  obtain ⟨_, _, stated, statedToo, below⟩ := precedes_of_chained chained order held heldToo plain
  cases stated
  cases statedToo
  cases below with
  | text less => exact less

/-- Integers ascend from a position to a later one with only plain values between. -/
theorem integers_ascend {i j : Nat} {one other : Int} (chained : items.IsChain Follows)
    (order : i < j) (held : items[i]? = some (.ofInt one))
    (heldToo : items[j]? = some (.ofInt other))
    (between : ∀ k value, i < k → k < j → items[k]? = some value → of? value ≠ some wrappedNumber) :
    one < other := by
  have plain : ∀ k value, i ≤ k → k ≤ j → items[k]? = some value → value.object? = none := by
    intro k value low high stands
    by_contra wrapped
    have afterFirst : k ≠ i := by
      intro here
      subst here
      cases held.symm.trans stands
      exact wrapped rfl
    have beforeLast : k ≠ j := by
      intro here
      subst here
      cases heldToo.symm.trans stands
      exact wrapped rfl
    have stated := (wrapped_of_chained chained low held stands rfl rfl wrapped).1
    exact between k value (by omega) (by omega) stands stated
  obtain ⟨_, _, stated, statedToo, below⟩ := precedes_of_chained chained order held heldToo plain
  cases stated
  cases statedToo
  cases below with
  | number less => exact (Binary64.ofInt_lt_ofInt_iff.mp (decide_eq_true less)).1

/-! ### Lists of integers -/

theorem follows_ofInt_iff {one other : Int} :
    Follows (.ofInt one) (.ofInt other) ↔
      one < other ∧ Binary64.ofInt one ≠ Binary64.ofInt other := by
  rw [← Binary64.ofInt_lt_ofInt_iff]
  constructor
  · intro follows
    obtain ⟨_, _, stated, statedToo, _, allowed⟩ := follows
    cases stated
    cases statedToo
    exact allowed
  · intro less
    exact ⟨_, _, rfl, rfl, rfl, less⟩

theorem chained_ofInt_iff {integers : List Int} :
    (integers.map Json.ofInt).IsChain Follows ↔ AscendRounded integers := by
  rw [List.isChain_map]
  simp only [follows_ofInt_iff]
  constructor
  · intro chained
    exact ⟨(chained.imp fun _ _ both => both.1).pairwise, chained.imp fun _ _ both => both.2⟩
  · intro ascend
    obtain ⟨ascending, apart⟩ := ascend
    rw [List.isChain_iff_getElem] at apart ⊢
    intro i bound
    exact ⟨List.pairwise_iff_getElem.mp ascending i (i + 1) _ bound (Nat.lt_succ_self i),
      apart i bound⟩

/-- Integers are accepted exactly if they ascend after rounding. -/
theorem checkAll_ofInt_iff {integers : List Int} :
    checkAll (.array (integers.map Json.ofInt)) = .ok () ↔
      2 ≤ integers.length ∧ AscendRounded integers := by
  rw [checkAll_eq_ok, ← chained_ofInt_iff]
  simp

/-- A wrapped number may stand anywhere, and integers on its two sides are not compared. -/
theorem checkAll_wrapped_iff {before after : List Int} (stated : of? wrapped = some wrappedNumber) :
    checkAll (.array (before.map Json.ofInt ++ wrapped :: after.map Json.ofInt)) = .ok () ↔
      before ++ after ≠ [] ∧ AscendRounded before ∧ AscendRounded after := by
  have follows : ∀ number : Int,
      Follows (.ofInt number) wrapped ∧ Follows wrapped (.ofInt number) :=
    fun number => ⟨⟨_, _, rfl, stated, rfl, rfl⟩, ⟨_, _, stated, rfl, rfl, rfl⟩⟩
  have between : (before.map Json.ofInt ++ wrapped :: after.map Json.ofInt).IsChain Follows ↔
      (before.map Json.ofInt).IsChain Follows ∧ (after.map Json.ofInt).IsChain Follows := by
    rw [List.isChain_append, List.isChain_cons]
    constructor
    · intro chained
      exact ⟨chained.1, chained.2.1.2⟩
    · intro chained
      refine ⟨chained.1, ⟨?_, chained.2⟩, ?_⟩
      · intro value first
        obtain ⟨number, _, rfl⟩ := List.mem_map.mp (List.mem_of_mem_head? first)
        exact (follows number).2
      · intro value last next first
        obtain ⟨number, _, rfl⟩ := List.mem_map.mp (List.mem_of_mem_getLast? last)
        cases first
        exact (follows number).1
  have several : 2 ≤ (before.map Json.ofInt ++ wrapped :: after.map Json.ofInt).length ↔
      before ++ after ≠ [] := by
    rw [← List.length_pos_iff]
    simp only [List.length_append, List.length_cons, List.length_map]
    omega
  rw [checkAll_eq_ok, ← chained_ofInt_iff, ← chained_ofInt_iff, ← between, ← several]
  simp

theorem ascendPlainly_of_chained (several : 2 ≤ items.length) (chained : items.IsChain Follows) :
    AscendPlainly items where
  several := several
  texts _ _ _ _ order held heldToo :=
    Text.bytes_lt_iff.mpr (texts_ascend chained order held heldToo)
  integers _ _ _ _ order held heldToo between :=
    integers_ascend chained order held heldToo between

end Boundary

/-- Integers of at most 53 significant bits that ascend do so after rounding, too. -/
theorem ascendRounded_iff {integers : List Int}
    (small : ∀ integer ∈ integers, integer.natAbs ≤ 2 ^ Binary64.precision) :
    AscendRounded integers ↔ integers.Pairwise (· < ·) := by
  refine ⟨AscendRounded.ascending, fun ascending => ⟨ascending, ?_⟩⟩
  apply List.Pairwise.isChain
  refine ascending.imp_of_mem ?_
  intro one other member memberToo less
  exact Binary64.ofInt_ne_ofInt (small one member) (small other memberToo) less.ne

theorem checkBuckets_ascend {pipeline : Pipeline} {specification : Json}
    (accepted : pipeline.checkBuckets specification = .ok ()) :
    ∃ items, specification.boundaries? = some items ∧ AscendPlainly items := by
  simp only [Pipeline.checkBuckets, bind_eq_ok, objectArgument_eq_ok] at accepted
  obtain ⟨entries, rfl, _, _, _, _, _, checked, _⟩ := accepted
  obtain ⟨items, given, several, chained⟩ := Boundary.checkAll_eq_ok.mp checked
  refine ⟨items, ?_, Boundary.ascendPlainly_of_chained several chained⟩
  cases stated : entries.get? "boundaries" with
  | none =>
      rw [stated] at given
      contradiction
  | some value =>
      rw [stated] at given
      cases given
      simp [Json.boundaries?, Json.object?, Json.array?, stated]

/-- Texts among the boundaries of accepted buckets ascend by their UTF-8 bytes, and integers do
where no wrapped number stands between them; across one they are not compared.  Integers alone are
accepted exactly if they ascend and no two neighbours are rounded to the same binary64 number,
which none are whose magnitudes have at most 53 significant bits. -/
theorem boundaries_ascend (pipeline : Pipeline) (specification wrapped : Json)
    (integers before after : List Int) :
    (pipeline.checkBuckets specification = .ok () →
      ∃ items, specification.boundaries? = some items ∧ AscendPlainly items) ∧
    (Boundary.checkAll (.array (integers.map Json.ofInt)) = .ok () ↔
      2 ≤ integers.length ∧ AscendRounded integers) ∧
    ((∀ integer ∈ integers, integer.natAbs ≤ 2 ^ Binary64.precision) →
      (AscendRounded integers ↔ integers.Pairwise (· < ·))) ∧
    (Boundary.of? wrapped = some .wrappedNumber →
      (Boundary.checkAll (.array (before.map Json.ofInt ++ wrapped :: after.map Json.ofInt)) =
        .ok () ↔ before ++ after ≠ [] ∧ AscendRounded before ∧ AscendRounded after)) :=
  ⟨checkBuckets_ascend, Boundary.checkAll_ofInt_iff, ascendRounded_iff,
    Boundary.checkAll_wrapped_iff⟩

def pricedGoods : Pipeline := { schema := closedObject [("price", .scalar .long)] }

def priceBuckets (boundaries : List Json) : Json :=
  .object [("groupBy", .string "$price"), ("boundaries", .array boundaries)]

def wrappedThree : Json := .object [("$numberInt", .string "3")]

/-- Prices in order may be boundaries, but the two integers at the end of the exact ones may not,
and prices around a wrapped one may be in any order. -/
theorem boundaries_ascend_goods :
    pricedGoods.checkBuckets (priceBuckets [.ofInt 0, .ofInt 100]) = .ok () ∧ (0 : Int) < 100 ∧
      Boundary.checkAll (.array [.ofInt 9007199254740992, .ofInt 9007199254740993]) ≠ .ok () ∧
      Boundary.checkAll (.array [.ofInt 5, wrappedThree, .ofInt 1]) = .ok () := by
  obtain ⟨accepted, integers, _, around⟩ :=
    boundaries_ascend pricedGoods (priceBuckets [.ofInt 0, .ofInt 100]) wrappedThree
      [9007199254740992, 9007199254740993] [5] [1]
  have suits : pricedGoods.checkBuckets (priceBuckets [.ofInt 0, .ofInt 100]) = .ok () :=
    eq_ok_iff_isOk.mpr (by decide +kernel)
  refine ⟨suits, ?_, ?_, ?_⟩
  · obtain ⟨items, stated, ascend⟩ := accepted suits
    cases stated
    exact ascend.integers 0 1 0 100 (by decide) rfl rfl fun k _ low high => by omega
  · intro merged
    have ascend := (integers.mp merged).2
    have apart := (List.isChain_cons_cons.mp ascend.apart).1
    exact apart (by decide +kernel)
  · have single : ∀ integer : Int, AscendRounded [integer] :=
      fun integer => ⟨List.pairwise_singleton _ _, .singleton _⟩
    exact (around rfl).mpr ⟨List.cons_ne_nil _ _, single 5, single 1⟩

end DocTyping
