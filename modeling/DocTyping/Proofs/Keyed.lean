import DocTyping.Keyed

namespace DocTyping.Keyed

/-!
# Distinct names

Writing a new name puts it at the end, and writing a name that occurs changes no
name.  So writing keeps names distinct, and entries whose names are distinct are
what writing them in order leads to.  What is found under a name is what was written
there last.
-/

variable {α : Type} {entries : Keyed α} {name : String}

@[simp] theorem names_nil : names ([] : Keyed α) = [] := rfl

@[simp] theorem names_cons (entry : String × α) :
    names (entry :: entries) = entry.1 :: entries.names := rfl

@[simp] theorem names_append (added : Keyed α) :
    names (entries ++ added) = entries.names ++ added.names := List.map_append

theorem put_of_new (value : α) (new : name ∉ entries.names) :
    entries.put name value = entries ++ [(name, value)] := by
  induction entries with
  | nil => rfl
  | cons entry rest ih =>
      obtain ⟨held, old⟩ := entry
      simp only [names_cons, List.mem_cons, not_or] at new
      have different : held ≠ name := fun same => new.1 same.symm
      simp [put, different, ih new.2]

theorem names_put_of_mem (value : α) (member : name ∈ entries.names) :
    (entries.put name value).names = entries.names := by
  induction entries with
  | nil => simp at member
  | cons entry rest ih =>
      obtain ⟨held, old⟩ := entry
      by_cases same : held = name
      · simp [put, same]
      · have later : name ∈ names rest := by
          rcases List.mem_cons.mp member with here | later
          · exact absurd here.symm same
          · exact later
        simp [put, same, ih later]

theorem put_nodup (value : α) (distinct : entries.names.Nodup) :
    (entries.put name value).names.Nodup := by
  by_cases member : name ∈ entries.names
  · rw [names_put_of_mem value member]
    exact distinct
  · rw [put_of_new value member, names_append]
    refine List.nodup_append.mpr ⟨distinct, by simp, ?_⟩
    intro held heldMember other otherMember same
    simp only [names_cons, names_nil, List.mem_singleton] at otherMember
    rw [same, otherMember] at heldMember
    exact member heldMember

theorem mem_put {value : α} {entry : String × α} (member : entry ∈ entries.put name value) :
    entry ∈ entries ∨ entry.2 = value := by
  induction entries with
  | nil => exact .inr (by simp [put] at member; simp [member])
  | cons first rest ih =>
      obtain ⟨held, old⟩ := first
      by_cases same : held = name
      · simp only [put, same, ↓reduceIte, List.mem_cons] at member
        rcases member with here | later
        · exact .inr (by simp [here])
        · exact .inl (List.mem_cons_of_mem _ later)
      · simp only [put, same, ↓reduceIte, List.mem_cons] at member
        rcases member with here | later
        · exact .inl (by simp [here])
        · exact (ih later).imp_left (List.mem_cons_of_mem _)

theorem putAll_of_nodup {added : Keyed α} (distinct : (entries ++ added).names.Nodup) :
    entries.putAll added = entries ++ added := by
  induction added generalizing entries with
  | nil => simp [putAll]
  | cons entry rest ih =>
      have new : entry.1 ∉ entries.names := by
        have apart := (List.nodup_append.mp (by simpa using distinct)).2.2
        exact fun member => apart entry.1 member entry.1 (by simp) rfl
      have regrouped : entries ++ entry :: rest = (entries ++ [entry]) ++ rest := by simp
      rw [regrouped] at distinct ⊢
      simpa only [putAll, List.foldl_cons, put_of_new entry.2 new] using ih distinct

theorem ofList_of_nodup (distinct : entries.names.Nodup) : ofList entries = entries :=
  @putAll_of_nodup α [] entries (by simpa using distinct)

theorem lookup_cons_of_ne {held : String} {value : α} (different : held ≠ name) :
    List.lookup name ((held, value) :: entries) = entries.lookup name := by
  simp [List.lookup_cons, beq_false_of_ne different.symm]

theorem has_eq_isSome_lookup : has entries name = (entries.lookup name).isSome := by
  induction entries with
  | nil => rfl
  | cons entry rest ih =>
      obtain ⟨held, value⟩ := entry
      by_cases same : held = name
      · simp [has, same]
      · rw [lookup_cons_of_ne same, ← ih]
        simp [has, same]

theorem mem_of_lookup {value : α} (found : entries.lookup name = some value) :
    (name, value) ∈ entries := by
  induction entries with
  | nil => simp at found
  | cons entry rest ih =>
      obtain ⟨held, old⟩ := entry
      by_cases same : held = name
      · subst same
        simp only [List.lookup_cons_self, Option.some.injEq] at found
        simp [found]
      · rw [lookup_cons_of_ne same] at found
        exact List.mem_cons_of_mem _ (ih found)

theorem eq_of_names_subset_singleton (distinct : entries.names.Nodup)
    (only : ∀ entry ∈ entries, entry.1 = name) :
    entries = [] ∨ ∃ value, entries = [(name, value)] := by
  match entries with
  | [] => exact .inl rfl
  | [(first, value)] =>
      have same : first = name := only (first, value) (by simp)
      exact .inr ⟨value, by rw [same]⟩
  | (first, value) :: (second, other) :: rest =>
      have firstName : first = name := only (first, value) (by simp)
      have secondName : second = name := only (second, other) (by simp)
      simp [firstName, secondName] at distinct

/-! ### What is written under a name -/

theorem get?_put {key : String} (value : α) :
    (entries.put name value).get? key = if name = key then some value else entries.get? key := by
  induction entries with
  | nil =>
      by_cases same : name = key
      · simp [put, get?, same]
      · simp [put, get?, same, lookup_cons_of_ne same]
  | cons entry rest ih =>
      obtain ⟨held, old⟩ := entry
      simp only [get?] at ih ⊢
      by_cases here : held = name
      · by_cases same : name = key
        · simp [put, here, same]
        · simp [put, here, same, lookup_cons_of_ne same]
      · by_cases same : held = key
        · subst same
          simp [put, here, Ne.symm here]
        · simp [put, here, lookup_cons_of_ne same, ih]

/-- Writing what stands under a name changes nothing. -/
theorem put_of_get? {value : α} (found : entries.get? name = some value) :
    entries.put name value = entries := by
  induction entries with
  | nil => contradiction
  | cons entry rest ih =>
      obtain ⟨held, old⟩ := entry
      by_cases same : held = name
      · subst same
        simp only [get?, List.lookup_cons_self, Option.some.injEq] at found
        simp [put, found]
      · rw [get?, lookup_cons_of_ne same] at found
        simp [put, same, ih found]

theorem names_put (value : α) : (entries.put name value).names =
    if name ∈ entries.names then entries.names else entries.names ++ [name] := by
  split
  · rename_i member
    exact names_put_of_mem value member
  · rename_i new
    rw [put_of_new value new, names_append]
    rfl

theorem get?_isSome_iff : (entries.get? name).isSome ↔ name ∈ entries.names := by
  rw [get?, ← has_eq_isSome_lookup]
  simp [has, names]

theorem putAll_nodup (added : Keyed α) (distinct : entries.names.Nodup) :
    (entries.putAll added).names.Nodup := by
  induction added generalizing entries with
  | nil => exact distinct
  | cons entry rest ih => exact ih (put_nodup entry.2 distinct)

theorem get?_putAll {added : Keyed α} {key : String} (distinct : added.names.Nodup) :
    (entries.putAll added).get? key = (added.get? key).or (entries.get? key) := by
  induction added generalizing entries with
  | nil => rfl
  | cons entry rest ih =>
      obtain ⟨name, value⟩ := entry
      obtain ⟨new, later⟩ := List.nodup_cons.mp distinct
      have written : (entries.putAll ((name, value) :: rest)).get? key =
          (Keyed.get? rest key).or ((entries.put name value).get? key) := ih later
      rw [written, get?_put]
      by_cases same : name = key
      · subst same
        have absent : Keyed.get? rest name = none :=
          Option.not_isSome_iff_eq_none.mp (mt get?_isSome_iff.mp new)
        rw [absent]
        simp [get?]
      · simp [same, get?, lookup_cons_of_ne same]

theorem get?_eq_some_iff {value : α} (distinct : entries.names.Nodup) :
    entries.get? name = some value ↔ (name, value) ∈ entries := by
  constructor
  · exact mem_of_lookup
  · intro member
    induction entries with
    | nil => contradiction
    | cons entry rest ih =>
        obtain ⟨new, later⟩ := List.nodup_cons.mp distinct
        rcases List.mem_cons.mp member with rfl | listed
        · exact List.lookup_cons_self
        · have different : entry.1 ≠ name := by
            intro same
            exact new (same ▸ List.mem_map_of_mem listed)
          exact (lookup_cons_of_ne different).trans (ih later listed)

end DocTyping.Keyed
