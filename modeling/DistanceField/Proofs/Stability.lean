import DistanceField.Proofs.Emission
import DistanceField.Proofs.Simulation

/-! A program that has been emitted can be emitted again. Everything it consists of is
registered and built by then; what is registered stays, what is built stays, and nothing else
is looked at. -/

namespace DistanceField

namespace Registry

variable {registry later : Registry}

theorem Extends.lookup (wider : registry.Extends later) (found : registry.lookup name = .ok d) :
    later.lookup name = .ok d := by
  have same := wider name d (lookup_ok found)
  simp only [Registry.lookup, same]

theorem Extends.size_le (wider : registry.Extends later) :
    registry.definitions.size ≤ later.definitions.size := by
  have inside : registry.definitions.keys ⊆ later.definitions.keys := by
    intro name member
    obtain ⟨d, found⟩ := Table.get?_of_mem_keys member
    exact Table.mem_keys_of_get? (wider name d found)
  have distinct : registry.definitions.keys.Nodup := registry.definitions.distinct
  have short := (List.subperm_of_subset distinct inside).length_le
  simpa using short

theorem rootMacro_congr (same : registry.lookup root = later.lookup root) :
    registry.rootMacro root = later.rootMacro root := by
  unfold rootMacro
  rw [same]

theorem rootMacro_lookup (evaluated : registry.rootMacro root = .ok text) :
    ∃ d, registry.lookup root = .ok d := by
  obtain ⟨d, found, _⟩ := except_bind_ok evaluated
  exact ⟨d, found⟩

/-- A program is emitted exactly if there are macros, an order and all definitions in it. -/
theorem emit_ok_iff {known : Table Definition} {start last : Store} :
    registry.emit known root config template start = (.ok program, last) ↔
      ∃ macros rootMacro order middle blocks,
        config.macros = .ok macros ∧ registry.rootMacro root = .ok rootMacro ∧
        registry.orderFrom known root start = (.ok order, middle) ∧
        registry.renderAll known order middle = (.ok blocks, last) ∧
        program = template.render (macros ++ rootMacro) ("\n\n".intercalate blocks) := by
  constructor
  · intro emitted
    obtain ⟨macros, configured, remaining⟩ := Query.lift_bind_ok emitted
    obtain ⟨rootMacro, evaluated, remaining⟩ := Query.lift_bind_ok remaining
    obtain ⟨functions, _, written, finish⟩ := Query.bind_ok remaining
    obtain ⟨rfl, rfl⟩ := Query.pure_ok finish
    obtain ⟨order, middle, ordered, remaining⟩ := Query.bind_ok written
    obtain ⟨blocks, _, drawn, finish⟩ := Query.bind_ok remaining
    obtain ⟨rfl, rfl⟩ := Query.pure_ok finish
    exact ⟨macros, rootMacro, order, middle, blocks, configured, evaluated, ordered, drawn, rfl⟩
  · rintro ⟨macros, rootMacro, order, middle, blocks, configured, evaluated, ordered, drawn, rfl⟩
    have written : registry.functions known root start =
        (.ok ("\n\n".intercalate blocks), last) := by
      unfold functions
      rw [Query.bind_of_ok ordered, Query.bind_of_ok drawn]
      rfl
    unfold emit
    rw [configured, evaluated, Query.bind_of_ok (Query.lift_apply _ _),
      Query.bind_of_ok (Query.lift_apply _ _), Query.bind_of_ok written]
    rfl

end Registry

namespace Session

/-- What a session can come to by registrations, by closing the registry and by requests. -/
inductive Continues (session : Session) : Session → Prop
  | here : Continues session session
  | register (continues : Continues session later) (d : Definition) :
      Continues session (later.register d).2
  | close (continues : Continues session later) : Continues session later.close
  | ask (continues : Continues session later) (asks : later.Asks α query) :
      Continues session (later.ask query).2

variable {session middle last : Session}

/-- What was registered is registered still, and what was recorded for it is recorded still. -/
structure Extends (session later : Session) : Prop where
  registered : session.registry.Extends later.registry
  kept : ∀ name d, session.registry.definitions.get? name = some d →
    session.store.Keeps name later.store

namespace Extends

theorem refl (session : Session) : session.Extends session :=
  ⟨.refl _, fun _ _ _ _ recorded => recorded⟩

theorem trans (first : session.Extends middle) (second : middle.Extends last) :
    session.Extends last where
  registered := first.registered.trans second.registered
  kept := by
    intro name d found recording recorded
    exact second.kept name d (first.registered name d found) recording
      (first.kept name d found recording recorded)

theorem register (session : Session) (d : Definition) :
    session.Extends (session.register d).2 := by
  rcases session.register_cases d with ⟨error, _, outcome⟩ | ⟨registry, registered, outcome⟩
  · rw [outcome]
    exact .refl session
  · rw [outcome]
    refine ⟨Registry.register_extends registered, fun name old found recording recorded => ?_⟩
    -- Only the name that is new starts afresh.
    simpa [Registry.ne_of_register registered found] using recorded

end Extends

theorem Continues.extends (continues : session.Continues last) : session.Extends last := by
  induction continues with
  | here => exact .refl session
  | @register later _ d ih => exact ih.trans (.register later d)
  | close _ ih => exact ⟨ih.registered, ih.kept⟩
  | @ask later _ _ _ asks ih =>
      exact ih.trans ⟨.refl _, fun name _ _ => (asks.grows later.store).keeps name⟩

theorem Sound.name_eq (sound : session.Sound) (found : session.registry.lookup name = .ok d) :
    d.name = name :=
  sound.named name d (sound.covered name d (Registry.lookup_ok found))

theorem Extends.keeps (wider : session.Extends last) (sound : session.Sound)
    (found : session.registry.lookup name = .ok d) : session.store.Keeps d.name last.store := by
  rw [sound.name_eq found]
  exact wider.kept name d (Registry.lookup_ok found)

theorem Extends.render (wider : session.Extends last) (sound : session.Sound)
    (drawn : session.render name session.store = (.ok block, session.store)) :
    last.render name last.store = (.ok block, last.store) := by
  obtain ⟨d, found⟩ := registered_of_render drawn
  rw [render_eq found] at drawn
  rw [render_eq (wider.registered.lookup found)]
  exact d.render_again drawn (wider.keeps sound found)

/-- A name whose definition has been emitted has its dependencies recorded. -/
theorem Extends.needs (wider : session.Extends last) (sound : session.Sound)
    (drawn : session.render name session.store = (.ok block, session.store)) :
    last.registry.needs last.known name last.store =
      (session.registry.reported session.known session.store name, last.store) := by
  obtain ⟨d, found⟩ := registered_of_render drawn
  rw [render_eq found] at drawn
  rw [Registry.reported, Registry.needs_eq found,
    Registry.needs_eq (wider.registered.lookup found)]
  cases body : d.body with
  | template text =>
      simp only [Definition.dependencies, Definition.dependenciesBy, body]
      rfl
  | recipe recipe =>
      obtain ⟨recording, _, recorded, _⟩ := Definition.recorded_of_render body drawn
      have answer : d.dependencies session.known session.store =
          (.ok (recording.used.union d.declared), session.store) := by
        simp only [Definition.dependencies, Definition.dependenciesBy, body]
        exact Query.bind_of_ok recorded
      rw [answer, d.dependencies_again answer (wider.keeps sound found)]

theorem Extends.renderAll (wider : session.Extends last) (sound : session.Sound)
    (drawn : List.Forall₂ (fun name block =>
      session.render name session.store = (.ok block, session.store)) names blocks) :
    last.registry.renderAll last.known names last.store = (.ok blocks, last.store) := by
  induction drawn with
  | nil => rfl
  | @cons name block names blocks first _ ih =>
      have again := wider.render sound first
      obtain ⟨d, found⟩ := registered_of_render again
      rw [render_eq found] at again
      unfold Registry.renderAll
      rw [found, Query.bind_of_ok (Query.lift_apply _ _), Query.bind_of_ok again,
        Query.bind_of_ok ih]
      rfl

theorem Extends.orderFrom {order : List String} {start settled : Store}
    (wider : session.Extends last) (sound : session.Sound)
    (ordered : session.registry.orderFrom session.known root start = (.ok order, settled))
    (onwards : settled.Grows session.store)
    (drawn : ∀ name ∈ order, ∃ block,
      session.render name session.store = (.ok block, session.store)) :
    last.registry.orderFrom last.known root last.store = (.ok order, last.store) := by
  let reported := session.registry.reported session.known session.store
  have topological : Topological reported root order :=
    Registry.topological_of_orderFrom ordered onwards
  obtain ⟨walk, walked, rfl⟩ := Registry.walk_of_orderFrom ordered onwards
  -- Whatever the walk meets has been emitted, so asking for it changes nothing.
  have each : ∀ name, Reaches reported root name →
      Query.Follows (· = last.store) (· = last.store)
        (last.registry.needs last.known name) (reported name) := by
    rintro name reaches store rfl
    obtain ⟨block, drawn⟩ := drawn name ((topological.mem_iff name).mpr reaches)
    refine ⟨last.store, wider.needs sound drawn, ?_⟩
    split <;> rfl
  have fewer := wider.registered.size_le
  have same : visitWithin reported (last.registry.definitions.size + 1) root .empty =
      .ok walk := by
    rw [← walked]
    refine visitWithin_root_agrees (fun _ _ _ answer => Registry.reported_listed answer)
      (fun _ _ => rfl) ?_ ?_
    all_goals
      rw [Table.length_keys]
      omega
  have follows := Query.Follows.visitWithin (fun _ same => same) each
    (last.registry.definitions.size + 1) .empty .refl
  rw [same] at follows
  obtain ⟨_, again, rfl⟩ := follows last.store rfl
  exact Query.bind_of_ok again

/-- A program that has been emitted is emitted again, whatever has been registered and asked
since and with whatever success. No builder is started for it: nothing changes at all. -/
theorem emit_stable {later : Store} (reached : Session.Reached session)
    (emitted : session.registry.emit session.known root config template session.store =
      (.ok program, later))
    (continues : Session.Continues { session with store := later } last) :
    last.registry.emit last.known root config template last.store =
      (.ok program, last.store) := by
  let built : Session := { session with store := later }
  have grown := (session.registry.emit_grows session.known root config template).ok emitted
  have sound : built.Sound :=
    ⟨reached.sound.named, reached.sound.covered, reached.sound.settled.grows grown⟩
  have wider : built.Extends last := continues.extends
  obtain ⟨macros, rootMacro, order, middle, blocks, configured, evaluated, ordered, drawn, rfl⟩ :=
    Registry.emit_ok_iff.mp emitted
  have onwards := (session.registry.renderAll_grows session.known order).ok drawn
  have rendered : List.Forall₂ (fun name block => built.render name later = (.ok block, later))
      order blocks := renderAll_again drawn (.refl later)
  obtain ⟨d, found⟩ := Registry.rootMacro_lookup evaluated
  have sameRoot : session.registry.lookup root = last.registry.lookup root :=
    found.trans (wider.registered.lookup found).symm
  rw [Registry.emit_ok_iff]
  refine ⟨macros, rootMacro, order, last.store, blocks, configured, ?_, ?_, ?_, rfl⟩
  · rw [← Registry.rootMacro_congr sameRoot, evaluated]
  · exact wider.orderFrom sound ordered onwards fun name => exists_of_forall₂ rendered
  · exact wider.renderAll sound rendered

/-- A scene whose builder leaves out a statement when it is started again. -/
def fickle : Session :=
  let plane : Action := .accumulate "Union" [.call (.apply (.named "Plane") [] [])]
  let script : Script := [⟨plane, none⟩, ⟨plane, some 1⟩]
  (Session.empty.install
    [Shapes.combinator "Union" [] ["return min(d1, d2);"],
      Shapes.primitive "Plane" [] ["return p.y;"],
      { Gallery.object "Scene" [] with body := .recipe script.recipe }]).2

theorem fickle_emit_stable :
    ∃ program later, fickle.registry.emit fickle.known "Scene" ∅ .base fickle.store =
        (.ok program, later) ∧
      let built : Session := { fickle with store := later }
      let busy := (built.register (Gallery.object "Other" [.requestBody "Missing"])).2
      let failed := (busy.ask busy.evaluateObjects).2.close
      failed.registry.emit failed.known "Scene" ∅ .base failed.store =
        (.ok program, failed.store) := by
  have succeeds : (fickle.registry.emit fickle.known "Scene" ∅ .base fickle.store).1.isOk =
      true := by decide +kernel
  generalize result : fickle.registry.emit fickle.known "Scene" ∅ .base fickle.store = answer
    at succeeds
  obtain ⟨error | program, later⟩ := answer
  · cases succeeds
  · refine ⟨program, later, rfl, ?_⟩
    exact emit_stable (Reached.empty.install _) result
      ((Continues.here.register _).ask .evaluateObjects).close

end Session

end DistanceField
