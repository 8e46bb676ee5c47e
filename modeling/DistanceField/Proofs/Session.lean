import DistanceField.Proofs.Order
import DistanceField.Proofs.Registration
import DistanceField.Proofs.Yield

/-! The states that a session can reach, and what holds in all of them. -/

namespace DistanceField

/-- Every body has been recorded as a whole or not at all. -/
def Store.Settled (store : Store) : Prop :=
  ∀ name, store.progressOf name = .fresh ∨
    ∃ recording, store.progressOf name = .done recording ∧ recording.Sound

theorem Store.Settled.grows (settled : Store.Settled store) (grows : store.Grows later) :
    later.Settled := by
  intro name
  rcases settled name with fresh | ⟨recording, done, sound⟩
  · exact grows.built name fresh
  · exact .inr ⟨recording, grows.done done, sound⟩

namespace Registry

theorem evaluateAll_grows (registry : Registry) (known : Table Definition)
    (names : List String) : Query.Grows (registry.evaluateAll known names) :=
  Query.Grows.closed.evaluateAll (fun _ d recipe _ _ => d.record_grows known recipe) names

theorem renderAll_grows (registry : Registry) (known : Table Definition)
    (names : List String) : Query.Grows (registry.renderAll known names) :=
  Query.Grows.closed.renderAll (fun _ d recipe _ _ => d.record_grows known recipe) names

theorem emit_grows (registry : Registry) (known : Table Definition) (root : String)
    (config : Config) (template : Template) :
    Query.Grows (registry.emit known root config template) :=
  Query.Grows.closed.emit (fun _ d recipe _ _ => d.record_grows known recipe) root config
    template

end Registry

namespace Session

/-- The requests that a session answers. -/
inductive Asks (session : Session) : (α : Type) → Query α → Prop
  | dependencies (name : String) : Asks session _ (session.dependencies name)
  | bodyText (name : String) : Asks session _ (session.bodyText name)
  | render (name : String) : Asks session _ (session.render name)
  | recording (name : String) : Asks session _ (session.recording name)
  | evaluateObjects : Asks session _ session.evaluateObjects
  | order (root : String) : Asks session _ (session.order root)
  | rootMacro (root : String) : Asks session _ (session.rootMacro root)
  | functions (root : String) : Asks session _ (session.functions root)
  | emit (root : String) (config : Config) (template : Template) :
      Asks session _ (session.emit root config template)
  | compileToFile (root : String) (config : Config) (writable : Bool) :
      Asks session _ (session.compileToFile root config writable)
  | describe (name : String) :
      Asks session _ (do session.describe (← session.lookup name))
  | inspect (d : Definition) : Asks session _ (session.inspect d)
  | rehearse (script : Script) : Asks session _ (session.rehearse .empty script)

/-- The states that a session can come to. -/
inductive Reached : Session → Prop
  | empty : Reached .empty
  | register (reached : Reached session) (d : Definition) : Reached (session.register d).2
  | restart (reached : Reached session) : Reached session.restart
  | close (reached : Reached session) : Reached session.close
  | ask (reached : Reached session) (asks : session.Asks α query) :
      Reached (session.ask query).2

section

variable {P : {α : Type} → Query α → Prop} (closed : Query.Tolerant P)
  {session : Session}

include closed

theorem inspect_holds {d : Definition}
    (tried : ∀ recipe, d.body = .recipe recipe → P (session.recordLoose d recipe none)) :
    P (session.inspect d) := by
  have loose (before : Option Recording) : P (session.attemptLoose d before) := by
    unfold attemptLoose Definition.recipe?
    cases body : d.body with
    | template text => exact closed.pure _
    | recipe recipe =>
        cases before with
        | none => exact closed.attempt (tried recipe body)
        | some recording => exact closed.attempt (closed.pure recording)
  refine closed.bind (loose none) fun first => ?_
  refine closed.attempt_bind (closed.dependenciesBy fun _ _ => closed.lift first) fun _ => ?_
  refine closed.bind (loose first.toOption) fun second => ?_
  refine closed.attempt_bind (closed.bodyTextBy fun _ _ => closed.lift second) fun _ => ?_
  refine closed.bind (loose second.toOption) fun third => ?_
  exact closed.attempt_bind (closed.renderBy fun _ _ => closed.lift third) fun _ =>
    closed.pure _

variable (records : ∀ d recipe, P (Definition.record session.known d recipe))

include records

theorem describe_holds (d : Definition) : P (session.describe d) := by
  refine closed.attempt_bind (closed.dependenciesBy fun recipe _ => records d recipe) fun _ => ?_
  refine closed.attempt_bind (closed.bodyTextBy fun recipe _ => records d recipe) fun _ => ?_
  exact closed.attempt_bind (closed.renderBy fun recipe _ => records d recipe) fun _ =>
    closed.pure _

theorem rehearse_holds (recording : Recording) (script : Script) :
    P (session.rehearse recording script) := by
  have requests (name : String) :
      P (requestBy session.known (Definition.record session.known) name) :=
    closed.requestBy name fun d recipe _ _ => records d recipe
  induction script generalizing recording with
  | nil => exact closed.pure _
  | cons line rest ih =>
      refine closed.bind (closed.perform requests recording _) fun _ => ?_
      exact closed.bind (ih _) fun _ => closed.pure _

end

theorem emit_grows (session : Session) (root : String) (config : Config)
    (template : Template) : Query.Grows (session.emit root config template) :=
  (Query.lift_grows _).bind fun handle =>
    session.registry.emit_grows session.known handle.name config template

theorem Asks.grows (asks : Session.Asks session α query) : Query.Grows query := by
  have closed := Query.Grows.closed
  have records := Definition.record_grows session.known
  have registered : ∀ name d recipe, session.registry.lookup name = .ok d →
      d.body = .recipe recipe → Query.Grows (d.record session.known recipe) :=
    fun _ d recipe _ _ => records d recipe
  cases asks with
  | dependencies name => exact closed.needs registered name
  | bodyText name => exact closed.lift_bind fun d _ => d.bodyTextBy_grows (records d)
  | render name => exact closed.lift_bind fun d _ => d.renderBy_grows (records d)
  | recording name =>
      refine closed.lift_bind fun d _ => ?_
      cases d.recipe? with
      | none => exact closed.throw _
      | some recipe => exact records d recipe
  | evaluateObjects => exact session.registry.evaluateAll_grows session.known _
  | order root => exact closed.orderFrom registered root
  | rootMacro root => exact closed.bind (closed.lift _) fun _ => closed.lift _
  | functions root =>
      exact closed.bind (closed.lift _) fun handle => closed.functions registered handle.name
  | emit root config template => exact session.emit_grows root config template
  | compileToFile root config writable =>
      refine closed.bind (session.emit_grows root config .base) fun program => ?_
      cases writable with
      | false => exact closed.throw _
      | true => exact closed.pure program
  | describe name =>
      exact closed.lift_bind fun d _ => describe_holds closed records d
  | inspect d =>
      refine inspect_holds closed fun recipe _ store => ?_
      have started := store.addRun_grows d.name
      exact started.trans (Definition.run_grows (requestBy_grows records) store)
  | rehearse script => exact rehearse_holds closed records .empty script

/-- What holds between requests. Definitions are kept under their names, those of the
registry are known, and no builder is running. -/
structure Sound (session : Session) : Prop where
  named : OwnNames session.known
  covered : ∀ name d, session.registry.definitions.get? name = some d →
    session.known.get? name = some d
  settled : session.store.Settled

theorem empty_sound : Session.empty.Sound where
  named := by
    intro name d found
    cases found
  covered := by
    intro name d found
    cases found
  settled := fun _ => .inl rfl

theorem Sound.register (sound : Session.Sound session) (d : Definition) :
    (session.register d).2.Sound := by
  rcases session.register_cases d with ⟨error, _, outcome⟩ | ⟨registry, registered, outcome⟩
  · rw [outcome]
    exact sound
  · obtain ⟨_, _, _, rfl⟩ := Registry.register_ok_iff.mp registered
    rw [outcome]
    refine ⟨?_, ?_, ?_⟩
    · intro name other found
      rw [Table.get?_set] at found
      split at found
      · next same =>
          cases found
          exact same.symm
      · exact sound.named name other found
    · intro name other found
      simp only [Table.get?_set] at found ⊢
      split at found
      · next same => rw [if_pos same, found]
      · next different =>
          rw [if_neg different]
          exact sound.covered name other found
    · intro name
      rw [Store.progressOf_setProgress]
      split
      · exact .inl rfl
      · exact sound.settled name

theorem Reached.sound (reached : Session.Reached session) : session.Sound := by
  induction reached with
  | empty => exact empty_sound
  | register _ d ih => exact ih.register d
  | restart _ ih =>
      refine ⟨ih.named, ?_, ih.settled⟩
      intro name d found
      cases found
  | close _ ih => exact ⟨ih.named, ih.covered, ih.settled⟩
  | ask _ asks ih => exact ⟨ih.named, ih.covered, ih.settled.grows (asks.grows _)⟩

/-- What is registered has passed the check, under its own name. -/
theorem Reached.registry_sound (reached : Session.Reached session) : session.registry.Sound := by
  induction reached with
  | empty => nofun
  | register _ d ih => exact edit_sound _ (.register d) ih
  | restart => nofun
  | close _ ih => exact ih
  | ask _ _ ih => exact ih

theorem install_keeps {P : Session → Prop} {definitions : List Definition}
    (each : ∀ d ∈ definitions, ∀ session, P session → P (session.register d).2)
    (start : P session) : P (session.install definitions).2 := by
  induction definitions generalizing session with
  | nil => exact start
  | cons d rest ih =>
      obtain ⟨first, others⟩ := List.forall_mem_cons.mp each
      have next := first session start
      unfold Session.install
      rcases outcome : session.register d with ⟨error | handle, later⟩
      · rw [outcome] at next
        exact next
      · rw [outcome] at next
        exact ih others next

theorem Reached.install (reached : Session.Reached session) (definitions : List Definition) :
    (session.install definitions).2.Reached :=
  install_keeps (fun d _ _ reached => reached.register d) reached

/-- A ball placed above the origin, as an object of its own within another one. -/
def ballOnStand : Session :=
  (Session.empty.install
    [Shapes.primitive "Sphere" [⟨"r", .float⟩] ["return length(p) - r;"],
      Shapes.combinator "Union" [] ["return min(d1, d2);"],
      Shapes.operator "Translate" [⟨"v", .vec3⟩] ["return p - v;"],
      Gallery.object "Ball"
        [.accumulate ⟨"Union", .combinator⟩
          [.call (.shape "Sphere" .primitive [.var "1.0"]
            (some (.var "vec3(0.0, 1.0, 0.0)")) none)]],
      Gallery.object "Scene"
        [.accumulate ⟨"Union", .combinator⟩ [.call (.shape "Ball" .object [] none none)]]]).2

theorem ballOnStand_reached : ballOnStand.Reached :=
  Reached.empty.install _

end Session

end DistanceField
