import DistanceField.Proofs.Session
import DistanceField.Proofs.Usage

/-! Every emitted program defines before it uses. What the statements of an object apply
is what was noted when they were recorded; that is what the order follows. -/

namespace DistanceField

theorem mem_of_mapM {items : List α} {act : α → Except ε β} (done : items.mapM act = .ok results)
    (member : item ∈ items) : ∃ result, act item = .ok result := by
  induction items generalizing results with
  | nil => cases member
  | cons first rest ih =>
      rw [List.mapM_cons] at done
      obtain ⟨result, acted, remaining⟩ := except_bind_ok done
      obtain ⟨others, each, _⟩ := except_bind_ok remaining
      rcases List.mem_cons.mp member with rfl | member
      · exact ⟨result, acted⟩
      · exact ih each member

theorem exists_of_forall₂ {R : α → β → Prop} (related : List.Forall₂ R items others)
    (member : item ∈ items) : ∃ other, R item other := by
  induction related with
  | nil => cases member
  | @cons first second _ _ related _ ih =>
      rcases List.mem_cons.mp member with rfl | member
      · exact ⟨second, related⟩
      · exact ih member

theorem Recording.resolved_of_body {recording : Recording} (written : recording.body = .ok text)
    (member : statement ∈ recording.statements) :
    ∃ application, statement.value.resolve = .ok application := by
  obtain ⟨lines, emitted, _⟩ := except_bind_ok written
  obtain ⟨line, emitted⟩ := mem_of_mapM emitted member
  cases resolved : statement.value.resolve with
  | ok application => exact ⟨application, rfl⟩
  | error error => simp [Statement.emit, Call.emit, resolved, Except.map] at emitted

namespace Definition

variable {known : Table Definition} {d : Definition} {recipe : Recipe}

theorem bodyText_again (written : d.bodyText known store = (.ok text, later))
    (kept : later.Keeps d.name last) : d.bodyText other last = (.ok text, last) := by
  cases body : d.body with
  | template source =>
      simp only [bodyText, bodyTextBy, body] at written ⊢
      obtain ⟨rfl, rfl⟩ := Query.pure_ok written
      rfl
  | recipe recipe =>
      simp only [bodyText, bodyTextBy, body] at written ⊢
      obtain ⟨recording, middle, recorded, finish⟩ := Query.bind_ok written
      rw [Query.lift_apply] at finish
      obtain ⟨same, rfl⟩ := Prod.mk.inj finish
      rw [Query.bind_of_ok (record_again recorded kept), Query.lift_apply, same]

theorem render_again (rendered : d.render known store = (.ok text, later))
    (kept : later.Keeps d.name last) : d.render other last = (.ok text, last) := by
  cases type : d.returnType with
  | none =>
      simp only [render, renderBy, type] at rendered
      cases rendered
  | some type' =>
      simp only [render, renderBy, type] at rendered ⊢
      obtain ⟨body, middle, written, finish⟩ := Query.bind_ok rendered
      obtain ⟨rfl, rfl⟩ := Query.pure_ok finish
      have again : d.bodyTextBy (record other d) last = (.ok body, last) :=
        bodyText_again written kept
      rw [Query.bind_of_ok again]
      rfl

theorem recorded_of_render (object : d.body = .recipe recipe)
    (rendered : d.render known store = (.ok text, later)) :
    ∃ recording body, d.record known recipe store = (.ok recording, later) ∧
      recording.body = .ok body := by
  cases type : d.returnType with
  | none =>
      simp only [render, renderBy, type] at rendered
      cases rendered
  | some type' =>
      simp only [render, renderBy, type, bodyTextBy, object] at rendered
      obtain ⟨body, middle, written, finish⟩ := Query.bind_ok rendered
      obtain ⟨recording, between, recorded, last⟩ := Query.bind_ok written
      rw [Query.lift_apply] at last
      obtain ⟨same, rfl⟩ := Prod.mk.inj last
      obtain ⟨_, rfl⟩ := Query.pure_ok finish
      exact ⟨recording, body, recorded, same⟩

end Definition

namespace Session

variable {session : Session}

theorem render_eq (found : session.registry.lookup name = .ok d) :
    session.render name = d.render session.known := by
  funext store
  unfold Session.render Session.lookup
  rw [found]
  exact Query.bind_of_ok (Query.lift_apply _ _)

theorem recording_eq (found : session.registry.lookup name = .ok d)
    (object : d.recipe? = some recipe) :
    session.recording name = d.record session.known recipe := by
  funext store
  unfold Session.recording Session.lookup
  rw [found, Query.bind_of_ok (Query.lift_apply _ _), object]

theorem renderAll_again {start later last : Store}
    (rendered : session.registry.renderAll session.known names start = (.ok blocks, later))
    (grows : later.Grows last) :
    List.Forall₂ (fun name block => session.render name last = (.ok block, last))
      names blocks := by
  induction names generalizing start blocks later with
  | nil =>
      cases rendered
      exact .nil
  | cons name rest ih =>
      obtain ⟨d, found, remaining⟩ := Query.lift_bind_ok rendered
      obtain ⟨text, middle, first, remaining⟩ := Query.bind_ok remaining
      obtain ⟨others, after, each, finish⟩ := Query.bind_ok remaining
      cases finish
      have between := (session.registry.renderAll_grows session.known rest).ok each
      refine .cons ?_ (ih each grows)
      rw [render_eq found]
      exact d.render_again first ((between.trans grows).keeps d.name)

theorem registered_of_render {start later : Store}
    (rendered : session.render name start = (.ok block, later)) :
    ∃ d, session.registry.lookup name = .ok d := by
  obtain ⟨d, found, _⟩ := Query.lift_bind_ok rendered
  exact ⟨d, found⟩

end Session

theorem Registry.directNeed_of_used {registry : Registry} {known : Table Definition}
    (found : registry.lookup name = .ok d) (object : d.body = .recipe recipe)
    (recorded : d.record known recipe store = (.ok recording, store))
    (used : head ∈ recording.used) : DirectNeed (registry.reported known store) name head := by
  refine ⟨recording.used.union d.declared, ?_, NameSet.mem_union.mpr (.inl used)⟩
  rw [Registry.reported, Registry.needs_eq found, Definition.dependencies,
    Definition.dependenciesBy, object]
  exact congrArg Prod.fst (Query.bind_of_ok recorded)

theorem Recording.Sound.used_of_resolve (sound : Recording.Sound recording)
    (member : statement ∈ recording.statements)
    (resolved : statement.value.resolve = .ok application) (applied : head ∈ application.heads) :
    head ∈ recording.used := by
  refine (sound head).mpr ⟨statement, member, ?_⟩
  exact NameSet.mem_ofList.mpr ((statement.value.mem_heads_resolve resolved head).mp applied)

namespace Session

variable {session : Session}

/-- Every function that a statement of an object applies is defined before the object.
The applications are those written: in arguments, components, locations and transforms,
with the operator that moves a placed call to its location. -/
def DefinesBeforeUse (session : Session) (store : Store) (order : List String) : Prop :=
  ∀ before name after, order = before ++ name :: after →
    ∀ d recipe, session.registry.lookup name = .ok d → d.recipe? = some recipe →
      ∃ recording, session.recording name store = (.ok recording, store) ∧
        ∀ statement ∈ recording.statements, ∃ application,
          statement.value.resolve = .ok application ∧
            ∀ head ∈ application.heads, head ∈ before

theorem body_of_recipe? {d : Definition} (object : d.recipe? = some recipe) :
    d.body = .recipe recipe := by
  unfold Definition.recipe? at object
  split at object
  · cases object
  · next same => rw [same, Option.some.inj object]

theorem definesBeforeUse {store : Store} {order : List String} (settled : store.Settled)
    (topological : Topological (session.registry.reported session.known store) root order)
    (rendered : List.Forall₂ (fun name block => session.render name store = (.ok block, store))
      order blocks) :
    session.DefinesBeforeUse store order := by
  intro before name after split d recipe found object
  have member : name ∈ order := by simp [split]
  obtain ⟨block, drawn⟩ := exists_of_forall₂ rendered member
  rw [render_eq found] at drawn
  obtain ⟨recording, body, recorded, written⟩ :=
    Definition.recorded_of_render (body_of_recipe? object) drawn
  have sound : recording.Sound := by
    have done := Definition.record_done recorded
    rcases settled d.name with fresh | ⟨other, present, sound⟩
    · simp [done] at fresh
    · cases done.symm.trans present
      exact sound
  refine ⟨recording, by rw [recording_eq found object, recorded], ?_⟩
  intro statement stated
  obtain ⟨application, resolved⟩ := Recording.resolved_of_body written stated
  refine ⟨application, resolved, fun head applied => ?_⟩
  have used := sound.used_of_resolve stated resolved applied
  have need := Registry.directNeed_of_used found (body_of_recipe? object) recorded used
  exact topological.ordered.direct need split

/-- A program that is emitted holds the definitions of distinct registered names, the
root last, and each is defined before an object that applies it. -/
theorem emit_defines_before_use (reached : Session.Reached session)
    (emitted : session.registry.emit session.known root config template session.store =
      (.ok program, later)) :
    ∃ macros rootMacro order blocks,
      config.macros = .ok macros ∧ session.registry.rootMacro root = .ok rootMacro ∧
      program = template.render (macros ++ rootMacro) ("\n\n".intercalate blocks) ∧
      order.Nodup ∧ order.getLast? = some root ∧
      (∀ name ∈ order, ∃ d, session.registry.lookup name = .ok d ∧ d.name = name) ∧
      List.Forall₂ (fun name block => session.render name later = (.ok block, later))
        order blocks ∧
      session.DefinesBeforeUse later order := by
  have sound := reached.sound
  have grown := (session.registry.emit_grows session.known root config template).ok emitted
  obtain ⟨macros, configured, remaining⟩ := Query.lift_bind_ok emitted
  obtain ⟨rootMacro, evaluated, remaining⟩ := Query.lift_bind_ok remaining
  obtain ⟨functions, _, written, finish⟩ := Query.bind_ok remaining
  obtain ⟨rfl, rfl⟩ := Query.pure_ok finish
  obtain ⟨order, middle, ordered, remaining⟩ := Query.bind_ok written
  obtain ⟨blocks, _, drawn, finish⟩ := Query.bind_ok remaining
  obtain ⟨rfl, rfl⟩ := Query.pure_ok finish
  have between := (session.registry.renderAll_grows session.known order).ok drawn
  have topological := Registry.topological_of_orderFrom ordered between
  have rendered := renderAll_again drawn (.refl _)
  refine ⟨macros, rootMacro, order, blocks, configured, evaluated, rfl, topological.distinct,
    topological.last, ?_, rendered, ?_⟩
  · intro name member
    obtain ⟨block, drawn⟩ := exists_of_forall₂ rendered member
    obtain ⟨d, found⟩ := registered_of_render drawn
    have known := sound.covered name d (Registry.lookup_ok found)
    exact ⟨d, found, sound.named name d known⟩
  · exact definesBeforeUse (sound.settled.grows grown) topological rendered

theorem ballOnStand_defines_before_use :
    ballOnStand.Reached ∧ ∃ program later,
      ballOnStand.registry.emit ballOnStand.known "Scene" ∅ .base ballOnStand.store =
        (.ok program, later) ∧
      ∃ order, order.getLast? = some "Scene" ∧ ballOnStand.DefinesBeforeUse later order := by
  have succeeds : (ballOnStand.registry.emit ballOnStand.known "Scene" ∅ .base
      ballOnStand.store).1.isOk = true := by decide +kernel
  generalize result : ballOnStand.registry.emit ballOnStand.known "Scene" ∅ .base
    ballOnStand.store = answer at succeeds
  obtain ⟨error | program, later⟩ := answer
  · cases succeeds
  · obtain ⟨_, _, order, _, _, _, _, _, last, _, _, defines⟩ :=
      emit_defines_before_use ballOnStand_reached result
    exact ⟨ballOnStand_reached, program, later, rfl, order, last, defines⟩

end Session

end DistanceField
