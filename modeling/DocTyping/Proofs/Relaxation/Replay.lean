import DocTyping.Proofs.Pipeline.Restriction
import DocTyping.Proofs.Relaxation.Rules

namespace DocTyping

/-!
# Replay in permissive surroundings

A list of documents that is accepted under a configuration, beside a catalog, is
accepted under a more permissive configuration and beside a larger catalog; it
leads to the same stages and the same schema, and so does every list inside it.
-/

def Replay.placed (replayed : Replay) (config : Configuration) (catalog : Option Catalog) : Replay :=
  { replayed with pipeline := replayed.pipeline.placed config catalog }

namespace Pipeline

variable {pipeline next seed : Pipeline} {relaxed : Configuration} {wider : Option Catalog}
  {name : String} {arguments value document : Json} {documents : List Json}
  {entries : List (String × Json)} {stage : Stage}

theorem reshape_placed {derived other : Checked Schema} (grants : Grants derived other)
    (accepted : pipeline.reshape name arguments derived = .ok next) :
    (pipeline.placed relaxed wider).reshape name arguments other =
      .ok (next.placed relaxed wider) := by
  obtain ⟨schema, reached, rfl⟩ := reshape_eq_ok.mp accepted
  exact reshape_eq_ok.mpr ⟨schema, grants schema reached, rfl⟩

theorem pass_placed {checked other : Checked Unit} (grants : Grants checked other)
    (accepted : pipeline.pass name arguments checked = .ok next) :
    (pipeline.placed relaxed wider).pass name arguments other =
      .ok (next.placed relaxed wider) := by
  obtain ⟨reached, rfl⟩ := pass_eq_ok.mp accepted
  exact pass_eq_ok.mpr ⟨grants () reached, rfl⟩

theorem extendFlat_placed (relaxes : pipeline.config.Relaxes relaxed)
    (grows : GrowsTo pipeline.catalog wider)
    (accepted : pipeline.extendFlat name arguments = .ok next) :
    (pipeline.placed relaxed wider).extendFlat name arguments =
      .ok (next.placed relaxed wider) := by
  unfold extendFlat at accepted
  split at accepted
  · exact pass_placed (checkFilter_grants relaxes) accepted
  · obtain ⟨size, read, added⟩ := bind_eq_ok.mp accepted
    exact bind_eq_ok.mpr ⟨size, lift_eq_ok.mpr (lift_eq_ok.mp read), pass_placed (.refl _) added⟩
  · obtain ⟨count, read, added⟩ := bind_eq_ok.mp accepted
    exact bind_eq_ok.mpr ⟨count, lift_eq_ok.mpr (lift_eq_ok.mp read), pass_placed (.refl _) added⟩
  · obtain ⟨count, read, added⟩ := bind_eq_ok.mp accepted
    exact bind_eq_ok.mpr ⟨count, lift_eq_ok.mpr (lift_eq_ok.mp read), pass_placed (.refl _) added⟩
  · exact pass_placed (checkSort_grants relaxes) accepted
  · exact pass_placed (checkWindowStage_grants relaxes) accepted
  · exact reshape_placed (withAdditions_grants relaxes) accepted
  · exact reshape_placed (withAdditions_grants relaxes) accepted
  · exact reshape_placed (withRemovals_grants relaxes) accepted
  · exact reshape_placed (projected_grants relaxes) accepted
  · exact reshape_placed (grouped_grants relaxes) accepted
  · split at accepted
    · exact reshape_placed (.refl _) accepted
    · contradiction
  · exact reshape_placed (groupedByCount_grants relaxes) accepted
  · exact reshape_placed (unwound_grants relaxes) accepted
  · obtain ⟨expression, read, replaced⟩ := bind_eq_ok.mp accepted
    exact bind_eq_ok.mpr ⟨expression, lift_eq_ok.mpr (lift_eq_ok.mp read),
      reshape_placed (replaced_grants relaxes) replaced⟩
  · exact reshape_placed (replaced_grants relaxes) accepted
  · exact pass_placed (checkBuckets_grants relaxes) accepted
  · exact pass_placed (checkAutoBuckets_grants relaxes) accepted
  · exact pass_placed (checkDensify_grants relaxes) accepted
  · exact pass_placed (checkFill_grants relaxes) accepted
  · exact pass_placed (.tail fun _ => checkNearness_grants relaxes) accepted
  · exact pass_placed (checkGraph_grants relaxes grows) accepted
  · exact reshape_placed (.tail fun _ => stated_grants relaxes) accepted
  all_goals contradiction

theorem checkBranches_placed {seen : List String} {branches : List (String × Pipeline)} :
    checkBranches seen (branches.map fun branch => (branch.1, branch.2.placed relaxed wider)) =
      checkBranches seen branches := by
  induction branches generalizing seen with
  | nil => rfl
  | cons branch rest ih =>
      simp only [List.map_cons, checkBranches, ih]
      rfl

theorem facet_placed {branches : List (String × Pipeline)}
    (accepted : pipeline.facet branches = .ok next) :
    (pipeline.placed relaxed wider).facet
        (branches.map fun branch => (branch.1, branch.2.placed relaxed wider)) =
      .ok (next.placed relaxed wider) := by
  have restated : (branches.map fun branch => (branch.1, branch.2.placed relaxed wider)).map
      (fun branch => (branch.1, branch.2.toJson)) =
        branches.map fun branch => (branch.1, branch.2.toJson) := by
    rw [List.map_map]
    rfl
  have sameSchema : faceted (branches.map fun branch =>
      (branch.1, branch.2.placed relaxed wider)) = faceted branches := by
    simp only [faceted, checkBranches_placed, List.isEmpty_map, List.map_map]
    rfl
  unfold facet
  rw [restated, sameSchema]
  exact reshape_placed (.refl _) accepted

theorem extendUpdate_placed (relaxes : pipeline.config.Relaxes relaxed)
    (grows : GrowsTo pipeline.catalog wider)
    (accepted : pipeline.extendUpdate document = .ok next) :
    (pipeline.placed relaxed wider).extendUpdate document = .ok (next.placed relaxed wider) := by
  obtain ⟨stage, read, update, added⟩ := extendUpdate_eq_ok.mp accepted
  exact extendUpdate_eq_ok.mpr ⟨stage, read, update, extendFlat_placed relaxes grows added⟩

theorem extendUpdate_grows (accepted : pipeline.extendUpdate document = .ok next) :
    ∃ name, pipeline.Grows name next := by
  obtain ⟨stage, _, _, added⟩ := extendUpdate_eq_ok.mp accepted
  obtain ⟨_, grows, _⟩ := extendFlat_states added
  exact ⟨stage.name, _, grows⟩

theorem replayUpdate_placed (relaxes : pipeline.config.Relaxes relaxed)
    (grows : GrowsTo pipeline.catalog wider)
    (accepted : pipeline.replayUpdate documents = .ok next) :
    (pipeline.placed relaxed wider).replayUpdate documents = .ok (next.placed relaxed wider) := by
  induction documents generalizing pipeline with
  | nil =>
      cases accepted
      rfl
  | cons document rest ih =>
      obtain ⟨middle, head, later⟩ := bind_eq_ok.mp accepted
      refine bind_eq_ok.mpr ⟨_, extendUpdate_placed relaxes grows head, ?_⟩
      obtain ⟨_, _, _, rfl⟩ := extendUpdate_grows head
      exact ih relaxes grows later

theorem mergeSeed_placed (relaxes : pipeline.config.Relaxes relaxed)
    (accepted : pipeline.mergeSeed entries = .ok seed) :
    (pipeline.placed relaxed wider).mergeSeed entries = .ok (seed.placed relaxed wider) ∧
      seed.config = pipeline.config ∧ seed.catalog = pipeline.catalog := by
  simp only [mergeSeed, bind_eq_ok, pure_eq_ok] at accepted ⊢
  obtain ⟨_, known, into, given, _, named, _, keyed, bindings, bound, rfl⟩ := accepted
  have keyedToo : checkGiven entries "on" (pipeline.placed relaxed wider).checkMergeKey = .ok _ :=
    checkGiven_grants (fun _ => checkMergeKey_grants relaxes) _ keyed
  exact ⟨⟨_, known, into, given, _, named, _, keyedToo, bindings,
    letBindings_grants relaxes _ bound, rfl⟩, rfl, rfl⟩

theorem checkMatched_placed (relaxes : seed.config.Relaxes relaxed)
    (grows : GrowsTo seed.catalog wider) (accepted : pipeline.checkMatched seed value = .ok ()) :
    (pipeline.placed relaxed wider).checkMatched (seed.placed relaxed wider) value = .ok () := by
  unfold checkMatched at accepted ⊢
  split
  · obtain ⟨reached, updates, _⟩ := bind_eq_ok.mp accepted
    exact bind_eq_ok.mpr ⟨_, replayUpdate_placed relaxes grows updates, rfl⟩
  · dsimp only at accepted
    split at accepted
    · rename_i listed
      rw [if_pos listed]
    · contradiction
  · rename_i noList noText
    cases value with
    | array stages => exact absurd rfl (noList stages)
    | string choice => exact absurd rfl (noText choice)
    | _ => contradiction

theorem checkMerge_placed (relaxes : pipeline.config.Relaxes relaxed)
    (grows : GrowsTo pipeline.catalog wider) (accepted : pipeline.checkMerge entries = .ok ()) :
    (pipeline.placed relaxed wider).checkMerge entries = .ok () := by
  obtain ⟨seed, read, accepted⟩ := bind_eq_ok.mp accepted
  obtain ⟨readToo, sameConfig, sameCatalog⟩ := mergeSeed_placed relaxes (lift_eq_ok.mp read)
  refine bind_eq_ok.mpr ⟨_, lift_eq_ok.mpr readToo, ?_⟩
  rw [← sameConfig] at relaxes
  rw [← sameCatalog] at grows
  cases given : Keyed.get? entries "whenMatched" with
  | some action =>
      simp only [given, unit_bind_eq_ok] at accepted ⊢
      exact ⟨checkMatched_placed relaxes grows accepted.1,
        lift_eq_ok.mpr (lift_eq_ok.mp accepted.2)⟩
  | none =>
      simp only [given] at accepted ⊢
      exact lift_eq_ok.mpr (lift_eq_ok.mp accepted)

theorem checkDestination_placed (relaxes : pipeline.config.Relaxes relaxed)
    (grows : GrowsTo pipeline.catalog wider) (accepted : pipeline.checkDestination stage = .ok ()) :
    (pipeline.placed relaxed wider).checkDestination stage = .ok () := by
  unfold checkDestination at accepted ⊢
  split at accepted
  · exact checkMerge_placed relaxes grows accepted
  · exact lift_eq_ok.mpr (lift_eq_ok.mp accepted)
  · contradiction
  · exact lift_eq_ok.mpr (lift_eq_ok.mp accepted)

theorem joinSeed_placed {join : Join} (relaxes : pipeline.config.Relaxes relaxed)
    (accepted : pipeline.joinSeed join entries = .ok seed) :
    (pipeline.placed relaxed wider).joinSeed join entries = .ok (seed.placed relaxed wider) ∧
      seed.config = pipeline.config ∧ seed.catalog = pipeline.catalog := by
  unfold joinSeed at accepted ⊢
  dsimp only at accepted ⊢
  split at accepted
  · rename_i own
    obtain ⟨bindings, bound, made⟩ := bind_eq_ok.mp accepted
    cases made
    rw [if_pos own]
    exact ⟨bind_eq_ok.mpr ⟨bindings, letBindings_grants relaxes _ bound, rfl⟩, rfl, rfl⟩
  · rename_i shared
    rw [if_neg shared]
    split at accepted
    · contradiction
    · rename_i unbound
      rw [if_neg unbound]
      split at accepted
      · rename_i equality
        cases accepted
        rw [if_pos equality]
        exact ⟨rfl, rfl, rfl⟩
      · contradiction

theorem unionSeed_placed (grows : GrowsTo pipeline.catalog wider)
    (accepted : pipeline.unionSeed entries = .ok seed) :
    (pipeline.placed relaxed wider).unionSeed entries = .ok (seed.placed relaxed wider) ∧
      seed.config = pipeline.config ∧ seed.catalog = pipeline.catalog := by
  simp only [unionSeed, bind_eq_ok] at accepted ⊢
  obtain ⟨_, known, collection, named, accepted⟩ := accepted
  split at accepted
  · rename_i own
    obtain ⟨schema, found, made⟩ := bind_eq_ok.mp accepted
    cases made
    refine ⟨⟨_, known, collection, named, ?_⟩, rfl, rfl⟩
    rw [if_pos own]
    exact bind_eq_ok.mpr ⟨schema, foreign_grants grows _ found, rfl⟩
  · rename_i shared
    cases accepted
    refine ⟨⟨_, known, collection, named, ?_⟩, rfl, rfl⟩
    rw [if_neg shared]
    rfl

mutual

/-- Each document is accepted by the pipeline that those before it lead to, in the surroundings of
the first. -/
theorem replay_placed (documents : List Json) {pipeline : Pipeline} {replayed : Replay}
    (relaxes : pipeline.config.Relaxes relaxed) (grows : GrowsTo pipeline.catalog wider)
    (accepted : pipeline.replay documents = .ok replayed) :
    (pipeline.placed relaxed wider).replay documents = .ok (replayed.placed relaxed wider) := by
  match documents with
  | [] =>
      cases accepted
      rfl
  | document :: rest =>
      refine replay_cons_eq_ok.mpr ?_
      rcases replay_cons_eq_ok.mp accepted with
        ⟨next, extended, continued⟩ | ⟨last, stage, terminal, checked, rfl⟩
      · have extendedToo := extend_placed document relaxes grows extended
        obtain ⟨_, _, rfl, _, _, rfl⟩ := extend_grows extended
        exact .inl ⟨_, extendedToo, replay_placed rest relaxes grows continued⟩
      · exact .inr ⟨last, stage, terminal, checkDestination_placed relaxes grows checked, rfl⟩

theorem extend_placed (document : Json) {pipeline next : Pipeline}
    (relaxes : pipeline.config.Relaxes relaxed) (grows : GrowsTo pipeline.catalog wider)
    (accepted : pipeline.extend document = .ok next) :
    (pipeline.placed relaxed wider).extend document = .ok (next.placed relaxed wider) := by
  match document with
  | .object [(name, arguments)] =>
      unfold extend at accepted ⊢
      obtain ⟨_, named, stated⟩ := bind_eq_ok.mp accepted
      refine bind_eq_ok.mpr ⟨(), lift_eq_ok.mpr (lift_eq_ok.mp named), ?_⟩
      split at stated
      · exact facetOf_placed arguments relaxes grows stated
      · exact lookup_placed arguments relaxes grows stated
      · exact unionWith_placed arguments relaxes grows stated
      · exact extendFlat_placed relaxes grows stated
  | .object [] | .object (_ :: _ :: _) => contradiction
  | .null | .bool _ | .number _ | .string _ | .array _ => contradiction

theorem facetOf_placed (arguments : Json) {pipeline next : Pipeline}
    (relaxes : pipeline.config.Relaxes relaxed) (grows : GrowsTo pipeline.catalog wider)
    (accepted : pipeline.facetOf arguments = .ok next) :
    (pipeline.placed relaxed wider).facetOf arguments = .ok (next.placed relaxed wider) := by
  cases arguments with
  | object entries =>
      obtain ⟨branches, replayed, faceted⟩ := bind_eq_ok.mp accepted
      exact bind_eq_ok.mpr ⟨_, replayBranches_placed entries relaxes grows replayed,
        facet_placed faceted⟩
  | _ => contradiction

theorem replayBranches_placed (entries : List (String × Json)) {pipeline : Pipeline}
    {branches : List (String × Pipeline)}
    (relaxes : pipeline.config.Relaxes relaxed) (grows : GrowsTo pipeline.catalog wider)
    (accepted : pipeline.replayBranches entries = .ok branches) :
    (pipeline.placed relaxed wider).replayBranches entries =
      .ok (branches.map fun branch => (branch.1, branch.2.placed relaxed wider)) := by
  match entries with
  | [] =>
      cases accepted
      rfl
  | (name, stages) :: rest =>
      simp only [replayBranches, bind_eq_ok, pure_eq_ok] at accepted ⊢
      obtain ⟨branch, first, others, later, rfl⟩ := accepted
      exact ⟨_, replayBranch_placed stages relaxes grows first, _,
        replayBranches_placed rest relaxes grows later, rfl⟩

theorem replayBranch_placed (stages : Json) {pipeline branch : Pipeline} {name : String}
    (relaxes : pipeline.config.Relaxes relaxed) (grows : GrowsTo pipeline.catalog wider)
    (accepted : pipeline.replayBranch name stages = .ok branch) :
    (pipeline.placed relaxed wider).replayBranch name stages = .ok (branch.placed relaxed wider) := by
  cases stages with
  | array documents =>
      obtain ⟨result, replays, kept⟩ := bind_eq_ok.mp accepted
      rw [withoutTerminal_eq_ok kept] at replays
      have seeded : (pipeline.seed pipeline.schema).config.Relaxes relaxed := relaxes
      exact bind_eq_ok.mpr ⟨_, replay_placed documents seeded grows replays, rfl⟩
  | _ => contradiction

theorem lookup_placed (arguments : Json) {pipeline next : Pipeline}
    (relaxes : pipeline.config.Relaxes relaxed) (grows : GrowsTo pipeline.catalog wider)
    (accepted : pipeline.lookup arguments = .ok next) :
    (pipeline.placed relaxed wider).lookup arguments = .ok (next.placed relaxed wider) := by
  cases arguments with
  | object entries =>
      simp only [lookup, bind_eq_ok, lift_eq_ok, pure_eq_ok] at accepted ⊢
      obtain ⟨join, read, seed, seeds, joined, replays, rfl⟩ := accepted
      obtain ⟨seedsToo, sameConfig, sameCatalog⟩ := joinSeed_placed relaxes seeds
      have inside := replayUnder_placed entries (sameConfig ▸ relaxes) (sameCatalog ▸ grows) replays
      exact ⟨join, readJoin_grants relaxes grows _ read, _, seedsToo, _, inside, rfl⟩
  | _ => contradiction

theorem unionWith_placed (arguments : Json) {pipeline next : Pipeline}
    (relaxes : pipeline.config.Relaxes relaxed) (grows : GrowsTo pipeline.catalog wider)
    (accepted : pipeline.unionWith arguments = .ok next) :
    (pipeline.placed relaxed wider).unionWith arguments = .ok (next.placed relaxed wider) := by
  cases arguments with
  | object entries =>
      simp only [unionWith, bind_eq_ok, lift_eq_ok, pure_eq_ok] at accepted ⊢
      obtain ⟨seed, seeds, joined, replays, rfl⟩ := accepted
      obtain ⟨seedsToo, sameConfig, sameCatalog⟩ := unionSeed_placed grows seeds
      have inside := replayUnder_placed entries (sameConfig ▸ relaxes) (sameCatalog ▸ grows) replays
      exact ⟨_, seedsToo, _, inside, rfl⟩
  | _ => exact pass_placed (.refl _) accepted

theorem replayUnder_placed (entries : List (String × Json)) {pipeline seed reached : Pipeline}
    {name : String} (relaxes : seed.config.Relaxes relaxed) (grows : GrowsTo seed.catalog wider)
    (accepted : pipeline.replayUnder name seed entries = .ok reached) :
    (pipeline.placed relaxed wider).replayUnder name (seed.placed relaxed wider) entries =
      .ok (reached.placed relaxed wider) := by
  match entries with
  | [] =>
      cases accepted
      rfl
  | (key, value) :: rest =>
      unfold replayUnder at accepted ⊢
      split at accepted
      · rename_i own
        rw [if_pos own]
        exact replayNested_placed value relaxes grows accepted
      · rename_i other
        rw [if_neg other]
        exact replayUnder_placed rest relaxes grows accepted

theorem replayNested_placed (value : Json) {pipeline seed reached : Pipeline} {name : String}
    (relaxes : seed.config.Relaxes relaxed) (grows : GrowsTo seed.catalog wider)
    (accepted : pipeline.replayNested name seed value = .ok reached) :
    (pipeline.placed relaxed wider).replayNested name (seed.placed relaxed wider) value =
      .ok (reached.placed relaxed wider) := by
  cases value with
  | array documents =>
      obtain ⟨result, replays, kept⟩ := bind_eq_ok.mp accepted
      rw [withoutTerminal_eq_ok kept] at replays
      exact bind_eq_ok.mpr ⟨_, replay_placed documents relaxes grows replays, rfl⟩
  | _ => contradiction

end

end Pipeline

/-- Whatever is accepted stays accepted under a more permissive configuration and beside a larger
catalog: filters, updates, expressions with the same type, and lists of documents, which lead to
the same stages, the same destination and the same schema. -/
theorem accepted_of_relaxes {config relaxed : Configuration} {catalog wider : Option Catalog}
    (relaxes : config.Relaxes relaxed) (grows : GrowsTo catalog wider) :
    (∀ root bindings (filter : Json), filter.checkFilter { config, bindings } root = .ok () →
      filter.checkFilter { config := relaxed, bindings } root = .ok ()) ∧
    (∀ root (update : Json), update.checkUpdate config root = .ok () →
      update.checkUpdate relaxed root = .ok ()) ∧
    (∀ root bindings (expression : Json) type,
      expression.infer (.ofRoot root config bindings) = .ok type →
        expression.infer (.ofRoot root relaxed bindings) = .ok type) ∧
    ∀ schema stages bindings documents replayed,
      Pipeline.replay { schema, stages, config, catalog, bindings } documents = .ok replayed →
        ∃ other,
          Pipeline.replay
              { schema, stages, config := relaxed, catalog := wider, bindings } documents =
            .ok other ∧
          other.pipeline.stages = replayed.pipeline.stages ∧
            other.terminal = replayed.terminal ∧ other.schema = replayed.schema := by
  refine ⟨?_, ?_, ?_, ?_⟩
  · intro root bindings filter accepted
    exact Json.checkFilter_grants relaxes () accepted
  · intro root update accepted
    exact checkUpdate_grants relaxes () accepted
  · intro root bindings expression type accepted
    exact Json.infer_grants relaxes type accepted
  · intro schema stages bindings documents replayed accepted
    exact ⟨_, Pipeline.replay_placed documents relaxes grows accepted, rfl, rfl, rfl⟩

def invoices : Schema := closedObject [("lines", .array (closedObject [("amount", .scalar .int)]))]

def permissive : Configuration :=
  { maxPathDepth := 12, lenientUnwind := true, allowUnsetRequired := true }

def goods : Keyed Schema := [("goods", closedObject [("price", .scalar .int)])]

/-- Invoices by line, with the goods of the same price. -/
def invoiceDocuments : List Json :=
  [.object [("$unwind", .string "$lines")],
    .object [("$lookup", .object
      [("from", .string "goods"), ("localField", .string "lines.amount"),
        ("foreignField", .string "price"), ("as", .string "goods")])],
    .object [("$out", .string "lines")]]

theorem accepted_of_relaxes_invoices :
    Configuration.Relaxes {} permissive ∧
      GrowsTo (some ⟨goods⟩) (some ⟨goods ++ [("buyers", invoices)]⟩) ∧
      (Json.object [("lines.amount", .object [("$gt", .ofInt 3)])]).checkFilter
        { config := permissive } invoices = .ok () ∧
      (Json.object [("$inc", .object [("lines.0.amount", .ofInt 1)])]).checkUpdate
        permissive invoices = .ok () ∧
      (∃ type, (Json.string "$lines.amount").infer (.ofRoot invoices {} []) = .ok type ∧
        (Json.string "$lines.amount").infer (.ofRoot invoices permissive []) = .ok type) ∧
      ∃ replayed other, Pipeline.replay
          { schema := invoices, catalog := some ⟨goods⟩ } invoiceDocuments = .ok replayed ∧
        Pipeline.replay
          { schema := invoices, config := permissive
            catalog := some ⟨goods ++ [("buyers", invoices)]⟩ } invoiceDocuments = .ok other ∧
        other.pipeline.stages = replayed.pipeline.stages ∧
          other.terminal = replayed.terminal ∧ other.schema = replayed.schema := by
  have relaxes : Configuration.Relaxes {} permissive :=
    ⟨by decide, fun _ => rfl, fun _ => rfl⟩
  have grows : GrowsTo (some ⟨goods⟩) (some ⟨goods ++ [("buyers", invoices)]⟩) := by
    intro held same
    cases same
    refine ⟨_, rfl, ?_⟩
    intro name root listed
    unfold Keyed.get? at listed ⊢
    rw [List.lookup_append, listed]
    rfl
  obtain ⟨filters, updates, expressions, lists⟩ := accepted_of_relaxes relaxes grows
  have typed : ∃ type, (Json.string "$lines.amount").infer (.ofRoot invoices {} []) = .ok type :=
    isOk_iff_exists.mp (by decide +kernel)
  obtain ⟨type, typed⟩ := typed
  have accepted : ∃ replayed, Pipeline.replay
      { schema := invoices, catalog := some ⟨goods⟩ } invoiceDocuments = .ok replayed :=
    isOk_iff_exists.mp (by decide +kernel)
  obtain ⟨replayed, accepted⟩ := accepted
  obtain ⟨other, replays, same⟩ := lists invoices [] [] invoiceDocuments replayed accepted
  exact ⟨relaxes, grows, filters invoices [] _ (eq_ok_iff_isOk.mpr (by decide +kernel)),
    updates invoices _ (eq_ok_iff_isOk.mpr (by decide +kernel)),
    ⟨type, typed, expressions invoices [] _ type typed⟩, replayed, other, accepted, replays, same⟩

end DocTyping
