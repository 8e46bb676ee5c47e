import DistanceField.Proofs.Cycle
import DistanceField.Proofs.Stability

/-! What is emitted for a root depends on nothing but what the root reaches. If the builders
of what it reaches ask for no other bodies, nothing else is looked at, and no other builder is
started. -/

namespace DistanceField

theorem except_bind_congr {outcome : Except ε α} {next other : α → Except ε β}
    (same : ∀ value, outcome = .ok value → next value = other value) :
    (outcome >>= next) = (outcome >>= other) := by
  cases outcome with
  | error error => rfl
  | ok value => exact same value rfl

theorem mapM_congr {items : List α} {act other : α → Except ε β}
    (same : ∀ item ∈ items, other item = act item) : items.mapM other = items.mapM act := by
  induction items with
  | nil => rfl
  | cons item rest ih =>
      obtain ⟨first, others⟩ := List.forall_mem_cons.mp same
      rw [List.mapM_cons, List.mapM_cons, first, ih others]

theorem performAll_quiet {request : String → Query Unit}
    (quiet : ∀ step ∈ steps, step.asked? = none) :
    performAll request recording steps store = (replay recording steps, store) := by
  induction steps generalizing recording with
  | nil => rfl
  | cons step rest ih =>
      obtain ⟨silent, others⟩ := List.forall_mem_cons.mp quiet
      rw [performAll_silent silent, replay_cons]
      cases step.effect recording with
      | error error => rfl
      | ok later => exact ih others

namespace Definition

/-- The builder of an object that has not been built asks for no other body when it is
started with the given store. -/
def Quiet (known : Table Definition) (store : Store) (d : Definition) : Prop :=
  store.progressOf d.name = .fresh → ∀ recipe, d.body = .recipe recipe →
    ∀ step ∈ recipe.steps (d.surroundings known store), step.asked? = none

/-- What an object has recorded, or records if all that its builder asks for is there. -/
def prospect (known : Table Definition) (store : Store) (d : Definition) (recipe : Recipe) :
    Except Error Recording :=
  match store.progressOf d.name with
  | .done recording => .ok recording
  | .building => .error (.cycle [d.name, d.name])
  | .fresh => replay .empty (recipe.steps (d.surroundings known store))

/-- In both states an object has come equally far, and its builder does the same when it is
started next. -/
structure Alike (d : Definition) (known : Table Definition) (store : Store)
    (otherKnown : Table Definition) (other : Store) : Prop where
  progress : other.progressOf d.name = store.progressOf d.name
  steps : ∀ recipe, d.body = .recipe recipe →
    recipe.steps (d.surroundings otherKnown other) =
      recipe.steps (d.surroundings known store)

variable {known otherKnown : Table Definition} {d : Definition} {recipe : Recipe}
  {store other : Store}

theorem Alike.of_sameAt (same : store.SameAt d.name other) : d.Alike known store known other where
  progress := same.progress
  steps := by
    intro recipe _
    unfold surroundings
    rw [same.runs]

theorem Alike.prospect_eq (alike : d.Alike known store otherKnown other)
    (object : d.body = .recipe recipe) :
    d.prospect otherKnown other recipe = d.prospect known store recipe := by
  unfold prospect
  rw [alike.progress, alike.steps recipe object]

theorem Alike.quiet (alike : d.Alike known store otherKnown other) (quiet : d.Quiet known store) :
    d.Quiet otherKnown other := by
  intro fresh recipe object
  rw [alike.steps recipe object]
  exact quiet (alike.progress.symm.trans fresh) recipe object

/-- A quiet object is recorded as foreseen, and nothing happens to any other. -/
theorem record_quiet (object : d.body = .recipe recipe) (quiet : d.Quiet known store) :
    ∃ later, d.record known recipe store = (d.prospect known store recipe, later) ∧
      (∀ other, other ≠ d.name → store.SameAt other later) ∧
      ∀ recording, d.prospect known store recipe = .ok recording →
        later.progressOf d.name = .done recording := by
  unfold prospect
  cases progress : store.progressOf d.name with
  | done recording =>
      refine ⟨store, record_of_done progress, fun other _ => .refl other store, ?_⟩
      rintro _ ⟨⟩
      exact progress
  | building =>
      refine ⟨store, ?_, fun other _ => .refl other store, by simp⟩
      simp only [record, recordWithin, progress]
  | fresh =>
      have ran : d.run recipe known (requestBy known (recordWithin known known.size))
          (store.setProgress d.name .building) =
            (replay .empty (recipe.steps (d.surroundings known store)),
              store.mark d.name) :=
        performAll_quiet (quiet progress recipe object)
      have others : ∀ last other, other ≠ d.name →
          store.SameAt other ((store.mark d.name).setProgress d.name last) :=
        fun last other different => (store.mark_sameAt different).trans
          (Store.setProgress_sameAt _ _ different)
      unfold record
      rw [recordWithin_fresh progress, ran]
      cases outcome : replay .empty (recipe.steps (d.surroundings known store)) with
      | error error => exact ⟨_, rfl, others _, by simp⟩
      | ok recording =>
          refine ⟨_, rfl, others _, ?_⟩
          rintro _ ⟨⟩
          simp

theorem record_outcome (object : d.body = .recipe recipe) (quiet : d.Quiet known store) :
    (d.record known recipe store).1 = d.prospect known store recipe := by
  obtain ⟨later, recorded, _⟩ := record_quiet object quiet
  rw [recorded]

end Definition

namespace Query

theorem bind_congr_fst {query other : Query α} {next onwards : α → Query β}
    (first : (other last).1 = (query store).1)
    (second : ∀ value store last, (onwards value last).1 = (next value store).1) :
    ((other >>= onwards) last).1 = ((query >>= next) store).1 := by
  rw [bind_apply, bind_apply]
  rcases one : query store with ⟨error | value, middle⟩
  all_goals
    rcases two : other last with ⟨outcome, between⟩
    rw [one, two] at first
    cases first
  · rfl
  · exact second value middle between

theorem lift_bind_congr_fst {outcome : Except Error α} {next onwards : α → Query β}
    {store last : Store} (each : ∀ value, outcome = .ok value →
      (onwards value last).1 = (next value store).1) :
    ((liftExcept outcome >>= onwards) last).1 = ((liftExcept outcome >>= next) store).1 := by
  cases outcome with
  | error error => rfl
  | ok value => exact each value rfl

end Query

namespace Definition

variable {d : Definition} {record again : Recipe → Query Recording} {store last : Store}
  (same : ∀ recipe, d.body = .recipe recipe → (again recipe last).1 = (record recipe store).1)

include same

theorem dependenciesBy_congr :
    (d.dependenciesBy again last).1 = (d.dependenciesBy record store).1 := by
  cases body : d.body with
  | template text =>
      simp only [dependenciesBy, body]
      rfl
  | recipe recipe =>
      simp only [dependenciesBy, body]
      exact Query.bind_congr_fst (same recipe body) fun _ _ _ => rfl

theorem bodyTextBy_congr : (d.bodyTextBy again last).1 = (d.bodyTextBy record store).1 := by
  cases body : d.body with
  | template text =>
      simp only [bodyTextBy, body]
      rfl
  | recipe recipe =>
      simp only [bodyTextBy, body]
      refine Query.bind_congr_fst (same recipe body) fun recording _ _ => ?_
      rw [Query.lift_apply, Query.lift_apply]

theorem renderBy_congr : (d.renderBy again last).1 = (d.renderBy record store).1 := by
  cases type : d.returnType with
  | none =>
      simp only [renderBy, type]
      rfl
  | some result =>
      simp only [renderBy, type]
      exact Query.bind_congr_fst (bodyTextBy_congr same) fun _ _ _ => rfl

end Definition

namespace Session

variable {session : Session}

/-- The definition of a name as it is emitted when it is asked for now. -/
def drawn (session : Session) (name : String) : Except Error String :=
  (session.render name session.store).1

/-- What the root reaches stands under its own name, and is built without asking for other
bodies if it has not been built. -/
structure Contained (session : Session) (root : String) : Prop where
  named : ∀ name d, Reaches session.reported root name →
    session.registry.lookup name = .ok d → d.name = name
  quiet : ∀ name d, Reaches session.reported root name →
    session.registry.lookup name = .ok d → d.Quiet session.known session.store

/-- Nothing has happened but that objects which the root reaches have recorded what they were
bound to record. -/
def Filled (session : Session) (root : String) (store : Store) : Prop :=
  ∀ name, session.store.SameAt name store ∨ Reaches session.reported root name ∧
    ∀ d recipe, session.registry.lookup name = .ok d → d.body = .recipe recipe →
      ∃ recording, d.prospect session.known session.store recipe = .ok recording ∧
        store.progressOf name = .done recording

/-- Nothing has happened to what the root does not reach. -/
def Spared (session : Session) (root : String) (store : Store) : Prop :=
  ∀ name, ¬ Reaches session.reported root name → session.store.SameAt name store

/-- The outcome of a request is certain, whatever the root reaches has been recorded. The
request itself does nothing to anything else. -/
abbrev Foresees (session : Session) (root : String) (query : Query α)
    (outcome : Except Error α) : Prop :=
  Query.Follows (session.Filled root) (session.Spared root) query outcome

theorem filled_refl (session : Session) (root : String) : session.Filled root session.store :=
  fun name => .inl (.refl name session.store)

theorem Filled.spared (store : Store) (filled : session.Filled root store) :
    session.Spared root store := by
  intro name unreached
  rcases filled name with same | ⟨reaches, _⟩
  · exact same
  · exact absurd reaches unreached

theorem Spared.step {store later : Store} (spared : session.Spared root store)
    (reaches : Reaches session.reported root name)
    (others : ∀ other, other ≠ name → store.SameAt other later) : session.Spared root later := by
  intro other unreached
  have different : other ≠ name := by
    rintro rfl
    exact unreached reaches
  exact (spared other unreached).trans (others other different)

theorem Filled.step {store later : Store} (filled : session.Filled root store)
    (reaches : Reaches session.reported root name)
    (others : ∀ other, other ≠ name → store.SameAt other later)
    (recorded : ∀ d recipe, session.registry.lookup name = .ok d → d.body = .recipe recipe →
      ∃ recording, d.prospect session.known session.store recipe = .ok recording ∧
        later.progressOf name = .done recording) : session.Filled root later := by
  intro other
  by_cases same : other = name
  · subst same
    exact .inr ⟨reaches, recorded⟩
  · have kept := others other same
    rcases filled other with untouched | ⟨reached, earlier⟩
    · exact .inl (untouched.trans kept)
    · refine .inr ⟨reached, fun d recipe found object => ?_⟩
      obtain ⟨recording, foreseen, done⟩ := earlier d recipe found object
      exact ⟨recording, foreseen, kept.progress.trans done⟩

theorem foresees_closed (session : Session) (root : String) :
    Query.Closed fun query => ∃ outcome, session.Foresees root query outcome :=
  Query.Follows.closed Filled.spared

theorem Foresees.outcome_eq (foreseen : session.Foresees root query outcome) :
    (query session.store).1 = outcome := by
  obtain ⟨later, answer, _⟩ := foreseen session.store (filled_refl session root)
  rw [answer]

theorem Foresees.spared (foreseen : session.Foresees root query outcome) :
    session.Spared root (query session.store).2 := by
  obtain ⟨later, answer, kept⟩ := foreseen session.store (filled_refl session root)
  rw [answer]
  cases outcome with
  | error error => exact kept
  | ok value => exact kept.spared later

section

variable {name : String} {d : Definition} {recipe : Recipe}
  (contained : session.Contained root) (reaches : Reaches session.reported root name)
  (found : session.registry.lookup name = .ok d)

include contained reaches found

/-- What an object records does not depend on which others have been recorded before. -/
theorem record_foreseen (object : d.body = .recipe recipe) :
    session.Foresees root (d.record session.known recipe)
      (d.prospect session.known session.store recipe) := by
  obtain rfl := contained.named name d reaches found
  have calm := contained.quiet d.name d reaches found
  intro store filled
  rcases filled d.name with same | ⟨_, recorded⟩
  · have alike : d.Alike session.known session.store session.known store := .of_sameAt same
    obtain ⟨later, answer, others, done⟩ := Definition.record_quiet object (alike.quiet calm)
    rw [alike.prospect_eq object] at answer done
    refine ⟨later, answer, ?_⟩
    split
    · next recording foreseen =>
        refine filled.step reaches others fun twin again found' object' => ?_
        cases found.symm.trans found'
        cases object.symm.trans object'
        exact ⟨recording, foreseen, done recording foreseen⟩
    · exact (filled.spared store).step reaches others
  · obtain ⟨recording, foreseen, done⟩ := recorded d recipe found object
    rw [foreseen]
    exact ⟨store, Definition.record_of_done done, filled⟩

end

section

variable (contained : session.Contained root) (reaches : Reaches session.reported root name)

include contained reaches

theorem needs_foreseen :
    session.Foresees root (session.registry.needs session.known name) (session.reported name) := by
  let closed := session.foresees_closed root
  obtain ⟨outcome, follows⟩ := closed.lift_bind fun d found =>
    closed.dependenciesBy fun recipe object =>
      ⟨_, record_foreseen contained reaches found object⟩
  exact follows.self (filled_refl session root)

theorem render_foreseen :
    session.Foresees root (session.render name) (session.drawn name) := by
  let closed := session.foresees_closed root
  obtain ⟨outcome, follows⟩ := closed.lift_bind fun d found =>
    closed.renderBy fun recipe object => ⟨_, record_foreseen contained reaches found object⟩
  exact follows.self (filled_refl session root)

end

/-- The order of definitions if everything depends on what is reported now. -/
def plan (session : Session) (root : String) : Except Error (List String) := do
  let walk ← visitWithin session.reported (session.registry.definitions.size + 1) root .empty
  return walk.order

theorem plan_topological {order : List String} (planned : session.plan root = .ok order) :
    Topological session.reported root order := by
  have outcome := session.registry.walk_outcome session.known session.store root
  obtain ⟨walk, walked, finish⟩ := except_bind_ok planned
  cases finish
  unfold reported at walked
  rw [walked] at outcome
  exact outcome

/-- The definitions that a root needs, as they are emitted when they are asked for now. -/
def sheet (session : Session) (root : String) : Except Error String := do
  let order ← session.plan root
  return "\n\n".intercalate (← order.mapM session.drawn)

theorem order_foreseen (contained : session.Contained root) :
    session.Foresees root (session.order root) (session.plan root) := by
  have walked := Query.Follows.visitWithin Filled.spared
    (fun _ reaches => needs_foreseen contained reaches)
    (session.registry.definitions.size + 1) .empty .refl
  exact walked.bind fun _ _ => .pure _

theorem renderAll_foreseen (contained : session.Contained root) (names : List String)
    (reaches : ∀ name ∈ names, Reaches session.reported root name) :
    session.Foresees root (session.registry.renderAll session.known names)
      (names.mapM session.drawn) := by
  induction names with
  | nil => exact .pure []
  | cons name rest ih =>
      obtain ⟨first, others⟩ := List.forall_mem_cons.mp reaches
      have split : session.registry.renderAll session.known (name :: rest) =
          (session.render name >>= fun text =>
            session.registry.renderAll session.known rest >>= fun texts =>
              pure (text :: texts)) := (bind_assoc _ _ _).symm
      rw [List.mapM_cons, split]
      exact (render_foreseen contained first).bind fun _ _ => (ih others).bind fun _ _ => .pure _

theorem functions_foreseen (contained : session.Contained root) :
    session.Foresees root (session.registry.functions session.known root)
      (session.sheet root) := by
  refine (order_foreseen contained).bind fun order planned => ?_
  have reached := fun name => ((plan_topological planned).mem_iff name).mp
  exact (renderAll_foreseen contained order reached).bind fun _ _ => .pure _

theorem emit_foreseen (contained : session.Contained root) (config : Config)
    (template : Template) :
    session.Foresees root (session.registry.emit session.known root config template) (do
      let macros ← config.macros
      let rootMacro ← session.registry.rootMacro root
      let functions ← session.sheet root
      return template.render (macros ++ rootMacro) functions) :=
  (Query.Follows.lift Filled.spared _).bind fun _ _ =>
    (Query.Follows.lift Filled.spared _).bind fun _ _ =>
      (functions_foreseen contained).bind fun _ _ => .pure _

/-- Both sessions have the same definition of a name, or none, and it is in the same state. -/
structure AgreesAt (first : Session) (name : String) (second : Session) : Prop where
  definition : second.registry.lookup name = first.registry.lookup name
  state : ∀ d, first.registry.lookup name = .ok d →
    d.Alike first.known first.store second.known second.store

variable {first second : Session}

theorem AgreesAt.record_eq (agrees : first.AgreesAt name second)
    (found : first.registry.lookup name = .ok d) (quiet : d.Quiet first.known first.store)
    (object : d.body = .recipe recipe) :
    (d.record second.known recipe second.store).1 =
      (d.record first.known recipe first.store).1 := by
  have alike := agrees.state d found
  rw [Definition.record_outcome object quiet, Definition.record_outcome object (alike.quiet quiet),
    alike.prospect_eq object]

section

variable (contained : first.Contained root) (reaches : Reaches first.reported root name)
  (agrees : first.AgreesAt name second)

include contained reaches agrees

theorem AgreesAt.reported_eq : second.reported name = first.reported name := by
  unfold reported Registry.reported Registry.needs
  rw [agrees.definition]
  refine Query.lift_bind_congr_fst fun d found => ?_
  exact d.dependenciesBy_congr fun recipe object =>
    agrees.record_eq found (contained.quiet name d reaches found) object

theorem AgreesAt.drawn_eq : second.drawn name = first.drawn name := by
  unfold drawn render lookup
  rw [agrees.definition]
  refine Query.lift_bind_congr_fst fun d found => ?_
  exact d.renderBy_congr fun recipe object =>
    agrees.record_eq found (contained.quiet name d reaches found) object

end

section

variable (contained : first.Contained root)
  (agrees : ∀ name, Reaches first.reported root name → first.AgreesAt name second)

include contained agrees

theorem reported_agrees (reaches : Reaches first.reported root name) :
    second.reported name = first.reported name :=
  (agrees name reaches).reported_eq contained reaches

theorem contained_of_agrees : second.Contained root := by
  have back : ∀ name, Reaches second.reported root name → Reaches first.reported root name :=
    fun name => (reaches_congr fun _ => reported_agrees contained agrees).mp
  constructor
  · intro name d reaches found
    have reached := back name reaches
    rw [(agrees name reached).definition] at found
    exact contained.named name d reached found
  · intro name d reaches found
    have reached := back name reaches
    rw [(agrees name reached).definition] at found
    exact ((agrees name reached).state d found).quiet (contained.quiet name d reached found)

theorem plan_agrees : second.plan root = first.plan root := by
  have same : ∀ name, Reaches first.reported root name →
      second.reported name = first.reported name := fun _ => reported_agrees contained agrees
  have listed : ∀ name names, Reaches first.reported root name →
      first.reported name = .ok names → name ∈ first.registry.definitions.keys ∧
        name ∈ second.registry.definitions.keys :=
    fun name names reaches answer => ⟨Registry.reported_listed answer,
      Registry.reported_listed ((same name reaches).trans answer)⟩
  unfold plan
  refine congrArg (· >>= _) ?_
  -- Names that have answers are in both registries, so either is large enough.
  rcases Nat.le_total first.registry.definitions.size second.registry.definitions.size
    with fewer | fewer
  · exact visitWithin_root_agrees (fun name names reaches answer =>
      (listed name names reaches answer).1) same (by simp) (by rw [Table.length_keys]; omega)
  · exact visitWithin_root_agrees (fun name names reaches answer =>
      (listed name names reaches answer).2) same (by rw [Table.length_keys]; omega) (by simp)

theorem sheet_agrees : second.sheet root = first.sheet root := by
  unfold sheet
  rw [plan_agrees contained agrees]
  refine except_bind_congr fun order planned => ?_
  have same : ∀ name ∈ order, second.drawn name = first.drawn name := by
    intro name member
    have reaches := ((plan_topological planned).mem_iff name).mp member
    exact (agrees name reaches).drawn_eq contained reaches
  rw [mapM_congr same]

end

/-- What is found and emitted for a root depends on nothing but the names that it reaches:
their definitions, how far these have come, and what their builders do next. Neither other
definitions nor the order of registration matter, and nothing is done to what the root does
not reach. -/
theorem compilation_local (reached : first.Reached)
    (agrees : ∀ name, Reaches first.reported root name → first.AgreesAt name second)
    (quiet : ∀ name d, Reaches first.reported root name → first.registry.lookup name = .ok d →
      d.Quiet first.known first.store) :
    (second.registry.orderFrom second.known root second.store).1 =
        (first.registry.orderFrom first.known root first.store).1 ∧
      (second.registry.functions second.known root second.store).1 =
        (first.registry.functions first.known root first.store).1 ∧
      (∀ config template,
        (second.registry.emit second.known root config template second.store).1 =
          (first.registry.emit first.known root config template first.store).1) ∧
      ∀ name, ¬ Reaches first.reported root name →
        first.store.SameAt name (first.registry.orderFrom first.known root first.store).2 ∧
        first.store.SameAt name (first.registry.functions first.known root first.store).2 ∧
        ∀ config template, first.store.SameAt name
          (first.registry.emit first.known root config template first.store).2 := by
  have contained : first.Contained root :=
    ⟨fun _ _ _ found => reached.sound.name_eq found, quiet⟩
  have also := contained_of_agrees contained agrees
  have sameRoot := (agrees root .refl).definition
  refine ⟨?_, ?_, fun config template => ?_, fun name unreached => ⟨?_, ?_, fun _ _ => ?_⟩⟩
  · exact (order_foreseen also).outcome_eq.trans
      ((plan_agrees contained agrees).trans (order_foreseen contained).outcome_eq.symm)
  · exact (functions_foreseen also).outcome_eq.trans
      ((sheet_agrees contained agrees).trans (functions_foreseen contained).outcome_eq.symm)
  · rw [(emit_foreseen also config template).outcome_eq,
      (emit_foreseen contained config template).outcome_eq, sheet_agrees contained agrees,
      Registry.rootMacro_congr sameRoot]
  · exact (order_foreseen contained).spared name unreached
  · exact (functions_foreseen contained).spared name unreached
  · exact (emit_foreseen contained _ _).spared name unreached

/-- The definitions of the stand, the last ones first, after an object that cannot be built. -/
def crowdedStand : Session :=
  (Session.empty.install (Gallery.object "Broken" [.requestBody "Missing"] ::
    (ballOnStand.registry.definitions.entries.map Prod.snd).reverse)).2

theorem crowdedStand_local :
    (ballOnStand.registry.emit ballOnStand.known "Scene" ∅ .base ballOnStand.store).1 =
        (crowdedStand.registry.emit crowdedStand.known "Scene" ∅ .base crowdedStand.store).1 ∧
      crowdedStand.store.SameAt "Broken"
        (crowdedStand.registry.functions crowdedStand.known "Scene" crowdedStand.store).2 := by
  have planned : crowdedStand.plan "Scene" =
      .ok ["Sphere", "Translate", "Union", "Ball", "Scene"] := by decide +kernel
  have names : ∀ name, Reaches crowdedStand.reported "Scene" name → name = "Sphere" ∨
      name = "Translate" ∨ name = "Union" ∨ name = "Ball" ∨ name = "Scene" := by
    intro name reaches
    simpa using ((plan_topological planned).mem_iff name).mpr reaches
  have agrees : ∀ name, Reaches crowdedStand.reported "Scene" name →
      crowdedStand.AgreesAt name ballOnStand := by
    intro name reaches
    rcases names name reaches with rfl | rfl | rfl | rfl | rfl
    all_goals
      refine ⟨rfl, fun d found => ?_⟩
      cases found
      refine ⟨rfl, fun recipe object => ?_⟩
      cases object <;> rfl
  have quiet : ∀ name d, Reaches crowdedStand.reported "Scene" name →
      crowdedStand.registry.lookup name = .ok d →
      d.Quiet crowdedStand.known crowdedStand.store := by
    intro name d reaches found fresh recipe object step member
    rcases names name reaches with rfl | rfl | rfl | rfl | rfl
    all_goals
      cases found
      cases object <;> cases List.mem_singleton.mp member <;> rfl
  have unreached : ¬ Reaches crowdedStand.reported "Scene" "Broken" := by
    intro reaches
    simpa using names "Broken" reaches
  have reached : crowdedStand.Reached := Reached.empty.install _
  obtain ⟨_, _, emitted, spared⟩ := compilation_local reached agrees quiet
  exact ⟨emitted ∅ .base, (spared "Broken" unreached).2.1⟩

end Session

end DistanceField
