import DocTyping.Proofs.Filter.Levels
import DocTyping.Proofs.Reordering.Literals

namespace DocTyping

/-!
# Operands up to the order of keys

The arguments of filter operators that hold no filter and no expression: whether
they are accepted does not depend on the order of their keys.  Where they are
refused the reason may depend on it, for it names the first key that is at fault.
-/

namespace Json.Reorders

variable {value other : Json} {items permuted : List Json} {entries others : List (String × Json)}

theorem isCoordinatePair_eq (alike : value.Reorders other) :
    value.isCoordinatePair = other.isCoordinatePair := by
  cases alike with
  | array sameLength each =>
      have inside := reorders_array_iff.mp (.array sameLength each)
      simp only [isCoordinatePair, sameLength, all_eq inside fun _ _ => isNumber_eq]
  | _ => rfl

theorem hasCoordinates_eq (alike : Keyed.Alike Reorders entries others) (type : String) :
    hasCoordinates entries type = hasCoordinates others type := by
  unfold hasCoordinates
  rcases rel_cases (alike.lookup "coordinates") with ⟨absent, missing⟩ | ⟨_, _, found, held, inside⟩
  · rw [absent, missing]
  · rw [found, held]
    simp only [inside.isCoordinatePair_eq, inside.isSome_array?_eq]

theorem hasGeometries_eq_any :
    hasGeometries entries = (entries.lookup "geometries").any areGeometries := by
  induction entries with
  | nil => rfl
  | cons entry rest ih =>
      obtain ⟨key, value⟩ := entry
      by_cases named : key = "geometries"
      · subst named
        simp [hasGeometries]
      · rw [hasGeometries, if_neg named, Keyed.lookup_cons_of_ne named, ih]

theorem eachGeometry_eq_all : eachGeometry items = items.all isGeometry := by
  induction items with
  | nil => rfl
  | cons item rest ih => rw [eachGeometry, ih, List.all_cons]

theorem isGeometry_areGeometries_eq (alike : value.Reorders other) :
    value.isGeometry = other.isGeometry ∧ value.areGeometries = other.areGeometries := by
  induction alike with
  | null => exact ⟨rfl, rfl⟩
  | bool => exact ⟨rfl, rfl⟩
  | number => exact ⟨rfl, rfl⟩
  | string => exact ⟨rfl, rfl⟩
  | @array items others sameLength _ each =>
      have inside :
          List.Forall₂ (fun item other => item.isGeometry = other.isGeometry) items others :=
        List.forall₂_iff_zip.mpr ⟨sameLength, fun member => (each _ member).1⟩
      refine ⟨rfl, ?_⟩
      simp only [areGeometries, eachGeometry_eq_all, all_eq inside fun _ _ => id]
  | @object entries others names values each =>
      have alike : Keyed.Alike Reorders entries others := ⟨names, values⟩
      have listed : hasGeometries entries = hasGeometries others := by
        have below : Keyed.Alike (fun value other => value.areGeometries = other.areGeometries)
            entries others :=
          ⟨names, fun entry member other held same => (each entry member other held same).2⟩
        rw [hasGeometries_eq_any, hasGeometries_eq_any]
        rcases rel_cases (below.lookup "geometries") with
          ⟨absent, missing⟩ | ⟨_, _, found, held, same⟩
        · rw [absent, missing]
        · rw [found, held]
          exact same
      refine ⟨?_, rfl⟩
      unfold isGeometry
      rw [lookup_string_eq alike]
      split
      · exact listed
      · exact hasCoordinates_eq alike _
      · rfl

theorem isGeometry_eq (alike : value.Reorders other) : value.isGeometry = other.isGeometry :=
  (isGeometry_areGeometries_eq alike).1

theorem geometryType?_eq (alike : value.Reorders other) :
    value.geometryType? = other.geometryType? := by
  cases alike with
  | object names values => exact lookup_string_eq ⟨names, values⟩ "type"
  | _ => rfl

theorem isPoint_eq (alike : value.Reorders other) : value.isPoint = other.isPoint := by
  rw [isPoint, isPoint, alike.isGeometry_eq, alike.geometryType?_eq]

theorem isPolygon_eq (alike : value.Reorders other) : value.isPolygon = other.isPolygon := by
  rw [isPolygon, isPolygon, alike.isGeometry_eq, alike.geometryType?_eq]

theorem isLegacyShape {name : String} (alike : value.Reorders other)
    (shaped : value.isLegacyShape name = true) : other.isLegacyShape name = true := by
  unfold Json.isLegacyShape at shaped
  split at shaped
  · obtain ⟨permuted, rfl, inside⟩ := alike.exists_array
    simpa only [Json.isLegacyShape, inside.length_eq, all_eq inside fun _ _ => isCoordinatePair_eq]
      using shaped
  · obtain ⟨permuted, rfl, inside⟩ := alike.exists_array
    simpa only [Json.isLegacyShape, inside.length_eq, all_eq inside fun _ _ => isCoordinatePair_eq]
      using shaped
  · obtain ⟨permuted, rfl, inside⟩ := alike.exists_array
    obtain _ | ⟨centre, _ | ⟨radius, _ | _⟩⟩ := inside
    simpa only [Json.isLegacyShape, centre.isCoordinatePair_eq, radius.isNumber_eq] using shaped
  · obtain ⟨permuted, rfl, inside⟩ := alike.exists_array
    obtain _ | ⟨centre, _ | ⟨radius, _ | _⟩⟩ := inside
    simpa only [Json.isLegacyShape, centre.isCoordinatePair_eq, radius.isNumber_eq] using shaped
  · contradiction

theorem isGeometryObject (alike : value.Reorders other) (shaped : value.isGeometryObject = true) :
    other.isGeometryObject = true := by
  unfold Json.isGeometryObject at shaped
  split at shaped
  · obtain ⟨counterpart, rfl, inside⟩ := alike.exists_single
    simpa only [Json.isGeometryObject, inside.isGeometry_eq] using shaped
  · contradiction

theorem isGeometryShape (alike : value.Reorders other) (shaped : value.isGeometryShape = true) :
    other.isGeometryShape = true := by
  unfold Json.isGeometryShape at shaped
  split at shaped
  · obtain ⟨counterpart, rfl, inside⟩ := alike.exists_single
    split at shaped
    · rename_i named
      simpa only [Json.isGeometryShape, if_pos named, inside.isPolygon_eq] using shaped
    · rename_i unnamed
      simpa only [Json.isGeometryShape, if_neg unnamed] using inside.isLegacyShape shaped
  · contradiction

theorem isSingle_eq (alike : value.Reorders other) :
    StoredType.isSingle value = StoredType.isSingle other := by
  cases alike <;> rfl

theorem isSpec_eq (alike : value.Reorders other) :
    StoredType.isSpec value = StoredType.isSpec other := by
  cases alike with
  | array sameLength each =>
      cases reorders_array_iff.mp (.array sameLength each) with
      | nil => rfl
      | cons head tail =>
          simp only [StoredType.isSpec, List.isEmpty_cons,
            all_eq (.cons head tail) fun _ _ => isSingle_eq]
  | _ => rfl

theorem isCount_eq (alike : value.Reorders other) : value.isCount = other.isCount := by
  rw [isCount, isCount, alike.uint64?_eq]

theorem isDistance_eq (alike : value.Reorders other) : value.isDistance = other.isDistance := by
  rw [isDistance, isDistance, alike.number?_eq]

theorem isNonZero_eq (alike : value.Reorders other) : value.isNonZero = other.isNonZero := by
  rw [isNonZero, isNonZero, alike.number?_eq]

theorem isRegexFlags_eq (alike : value.Reorders other) :
    value.isRegexFlags = other.isRegexFlags := by
  rw [isRegexFlags, isRegexFlags, alike.string?_eq]

theorem isModPair (alike : value.Reorders other) (paired : value.isModPair = true) :
    other.isModPair = true := by
  unfold Json.isModPair at paired
  split at paired
  · obtain ⟨permuted, rfl, inside⟩ := alike.exists_array
    obtain _ | ⟨divisor, _ | ⟨remainder, _ | _⟩⟩ := inside
    simpa only [Json.isModPair, divisor.isNonZero_eq, remainder.isNumber_eq] using paired
  · contradiction

theorem isBitMask_eq (alike : value.Reorders other) : value.isBitMask = other.isBitMask := by
  cases alike with
  | array sameLength each =>
      have inside := reorders_array_iff.mp (.array sameLength each)
      simp only [isBitMask, all_eq inside fun _ _ => isCount_eq]
  | object names values => simp only [isBitMask, extendedKind?_eq ⟨names, values⟩]
  | _ => rfl

end Json.Reorders

section Checks

variable {value other argument : Json} {items permuted : List Json}
  {entries others : List (String × Json)} {target : FilterTarget} {pattern : Bool}
  {name key : String}

namespace FilterTarget

theorem fits_eq (alike : value.Reorders other) :
    target.fits pattern value = target.fits pattern other := by
  simp only [fits, alike.admits_eq, alike.isRegex_eq]

theorem checkLiteral_reorders (alike : value.Reorders other)
    (accepted : target.checkLiteral pattern value = .ok ()) :
    target.checkLiteral pattern other = .ok () := by
  rw [checkLiteral_eq_ok] at accepted ⊢
  exact (fits_eq alike).symm.trans accepted

theorem checkLiterals_reorders (alike : List.Forall₂ Json.Reorders items permuted)
    (accepted : target.checkLiterals items = .ok ()) : target.checkLiterals permuted = .ok () := by
  induction alike with
  | nil => rfl
  | cons head _ ih =>
      obtain ⟨fits, later⟩ := unit_bind_eq_ok.mp accepted
      exact unit_bind_eq_ok.mpr ⟨checkLiteral_reorders head fits, ih later⟩

theorem checkElement_reorders (alike : value.Reorders other)
    (accepted : target.checkElement value = .ok ()) : target.checkElement other = .ok () := by
  unfold checkElement at accepted ⊢
  rw [alike.admits_eq, alike.isRegex_eq] at accepted
  split
  · rfl
  · rename_i unfit
    rw [if_neg unfit] at accepted
    contradiction

theorem checkSiblings_reorders (alike : Keyed.Alike Json.Reorders entries others) :
    target.checkSiblings entries = target.checkSiblings others := by
  rw [checkSiblings, checkSiblings, alike.has_eq, alike.has_eq]

end FilterTarget

theorem checkNearPart_reorders (alike : value.Reorders other) :
    checkNearPart name key value = checkNearPart name key other := by
  unfold checkNearPart
  rw [alike.isDistance_eq]

theorem checkNearParts_eq_ok :
    checkNearParts name entries = .ok () ↔
      ∀ entry ∈ entries, checkNearPart name entry.1 entry.2 = .ok () := by
  induction entries with
  | nil => simp [checkNearParts]
  | cons entry rest ih => rw [checkNearParts, unit_bind_eq_ok, ih, List.forall_mem_cons]

theorem checkNear_reorders (alike : argument.Reorders other)
    (accepted : checkNear name argument = .ok ()) : checkNear name other = .ok () := by
  unfold checkNear at accepted ⊢
  rw [← alike.isCoordinatePair_eq]
  split
  · rfl
  · rename_i noPair
    rw [if_neg noPair] at accepted
    cases alike with
    | object names values =>
        have alike : Keyed.Alike Json.Reorders _ _ := ⟨names, values⟩
        obtain ⟨located, parts⟩ := unit_bind_eq_ok.mp accepted
        refine unit_bind_eq_ok.mpr ⟨?_, checkNearParts_eq_ok.mpr fun other held => ?_⟩
        · rw [← Json.Reorders.lookup_any_eq alike _ fun _ _ => Json.Reorders.isPoint_eq]
          exact located
        · obtain ⟨entry, member, same, inside⟩ := alike.exists_of_mem held
          rw [← same, ← checkNearPart_reorders inside]
          exact checkNearParts_eq_ok.mp parts entry member
    | _ => contradiction

theorem checkSearchPart_reorders (alike : value.Reorders other) :
    checkSearchPart key value = checkSearchPart key other := by
  unfold checkSearchPart
  rw [alike.isString_eq, alike.bool?_eq]

theorem checkSearchParts_eq_ok :
    checkSearchParts entries = .ok () ↔
      ∀ entry ∈ entries, checkSearchPart entry.1 entry.2 = .ok () := by
  induction entries with
  | nil => simp [checkSearchParts]
  | cons entry rest ih => rw [checkSearchParts, unit_bind_eq_ok, ih, List.forall_mem_cons]

theorem checkSearch_reorders (alike : argument.Reorders other)
    (accepted : checkSearch argument = .ok ()) : checkSearch other = .ok () := by
  cases alike with
  | object names values =>
      have alike : Keyed.Alike Json.Reorders _ _ := ⟨names, values⟩
      obtain ⟨stated, parts⟩ := unit_bind_eq_ok.mp accepted
      refine unit_bind_eq_ok.mpr ⟨?_, checkSearchParts_eq_ok.mpr fun other held => ?_⟩
      · rw [← Json.Reorders.lookup_any_eq alike _ fun _ _ => Json.Reorders.isString_eq]
        exact stated
      · obtain ⟨entry, member, same, inside⟩ := alike.exists_of_mem held
        rw [← same, ← checkSearchPart_reorders inside]
        exact checkSearchParts_eq_ok.mp parts entry member
  | _ => contradiction

theorem checkRootArgument_reorders (alike : argument.Reorders other)
    (accepted : checkRootArgument name argument = .ok ()) :
    checkRootArgument name other = .ok () := by
  by_cases search : name = "$text"
  · subst search
    exact checkSearch_reorders alike accepted
  · have same : checkRootArgument name argument = checkRootArgument name other := by
      unfold checkRootArgument
      rw [alike.isString_eq, alike.isSome_object?_eq]
      split <;> simp_all
    exact same.symm.trans accepted

theorem FilterArgument.check_reorders (form : FilterArgument) (alike : argument.Reorders other)
    (accepted : form.check name target argument = .ok ()) :
    form.check name target other = .ok () := by
  cases form with
  | fieldValue => exact FilterTarget.checkLiteral_reorders alike accepted
  | fieldValueOrPattern => exact FilterTarget.checkLiteral_reorders alike accepted
  | fieldValues =>
      cases alike with
      | array sameLength each =>
          have inside := Json.reorders_array_iff.mp (.array sameLength each)
          exact FilterTarget.checkLiterals_reorders inside accepted
      | _ => contradiction
  | near => exact checkNear_reorders alike accepted
  | geoWithin => exact demand_eq_ok.mpr (alike.isGeometryShape (demand_eq_ok.mp accepted))
  | geometry => exact demand_eq_ok.mpr (alike.isGeometryObject (demand_eq_ok.mp accepted))
  | modPair => exact demand_eq_ok.mpr (alike.isModPair (demand_eq_ok.mp accepted))
  | emptyObject =>
      cases alike with
      | object names values =>
          have alike : Keyed.Alike Json.Reorders _ _ := ⟨names, values⟩
          refine demand_eq_ok.mpr (alike.isEmpty_eq.symm.trans ?_)
          exact demand_eq_ok.mp accepted
      | _ => contradiction
  | elementValues => rfl
  | elementFilter => rfl
  | expression => rfl
  | negation => rfl
  | _ =>
      simpa only [check, alike.bool?_eq, alike.isNumber_eq, alike.isSpec_eq, alike.isCount_eq,
        alike.isString_eq, alike.isRegex_eq, alike.isRegexFlags_eq, alike.isBitMask_eq,
        alike.isDistance_eq, alike.isSome_object?_eq] using accepted

end Checks

end DocTyping
