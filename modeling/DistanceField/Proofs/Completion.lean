import DistanceField.Proofs.ByteOrder
import DistanceField.Proofs.Lifecycle
import DistanceField.Proofs.Stability

/-! Building all objects in turn. Up to the first object that fails everything is built, and
whatever is built stays so: it is neither built again by a second attempt nor by any request that
follows. -/

namespace DistanceField

namespace Registry

variable {registry : Registry} {known : Table Definition} {store later : Store}
  {names : List String}

theorem evaluateAll_template (found : registry.lookup name = .ok d) (body : d.body = .template text)
    (rest : List String) :
    registry.evaluateAll known (name :: rest) store = registry.evaluateAll known rest store := by
  rw [evaluateAll, found, Query.bind_of_ok (Query.lift_apply _ _)]
  simp only [Definition.recipe?, body]

/-- An object is evaluated before the others, which are reached if it does not fail. -/
theorem evaluateAll_object (found : registry.lookup name = .ok d) (body : d.body = .recipe recipe)
    (rest : List String) :
    registry.evaluateAll known (name :: rest) store =
      match d.record known recipe store with
      | (.ok _, middle) => registry.evaluateAll known rest middle
      | (.error error, middle) => (.error error, middle) := by
  rw [evaluateAll, found, Query.bind_of_ok (Query.lift_apply _ _)]
  simp only [Definition.recipe?, body]
  rcases recorded : d.record known recipe store with ⟨error | recording, middle⟩
  · exact Query.bind_of_error (Query.bind_of_error recorded)
  · exact Query.bind_of_ok (Query.bind_of_ok recorded)

/-- If nothing fails, every object has been built. -/
theorem evaluateAll_ok (done : registry.evaluateAll known names store = (.ok (), later))
    (listed : ∀ name ∈ names, ∃ d, registry.lookup name = .ok d) :
    ∀ name ∈ names, ∀ d recipe, registry.lookup name = .ok d → d.body = .recipe recipe →
      ∃ recording, later.progressOf d.name = .done recording := by
  induction names generalizing store with
  | nil => nofun
  | cons first rest ih =>
      obtain ⟨⟨d, found⟩, others⟩ := List.forall_mem_cons.mp listed
      cases body : d.body with
      | template text =>
          rw [evaluateAll_template found body] at done
          refine List.forall_mem_cons.mpr ⟨fun other recipe found' body' => ?_, ih done others⟩
          cases found.symm.trans found'
          cases body.symm.trans body'
      | recipe recipe =>
          rw [evaluateAll_object found body] at done
          rcases recorded : d.record known recipe store with ⟨error | recording, middle⟩
          · rw [recorded] at done
            cases (Prod.mk.inj done).1
          · rw [recorded] at done
            refine List.forall_mem_cons.mpr ⟨fun other recipe' found' _ => ?_, ih done others⟩
            cases found.symm.trans found'
            have grows := (registry.evaluateAll_grows known rest).ok done
            exact ⟨recording, grows.done (Definition.record_done recorded)⟩

/-- If something fails, it is the evaluation of one object after that of all names before it. -/
theorem evaluateAll_error (failed : registry.evaluateAll known names store = (.error error, later))
    (listed : ∀ name ∈ names, ∃ d, registry.lookup name = .ok d) :
    ∃ before name after middle d recipe, names = before ++ name :: after ∧
      registry.evaluateAll known before store = (.ok (), middle) ∧
      registry.lookup name = .ok d ∧ d.body = .recipe recipe ∧
      d.record known recipe middle = (.error error, later) := by
  induction names generalizing store with
  | nil => cases (Prod.mk.inj failed).1
  | cons first rest ih =>
      obtain ⟨⟨d, found⟩, others⟩ := List.forall_mem_cons.mp listed
      cases body : d.body with
      | template text =>
          rw [evaluateAll_template found body] at failed
          obtain ⟨before, name, after, middle, culprit, recipe, rfl, passed, blamed⟩ :=
            ih failed others
          refine ⟨first :: before, name, after, middle, culprit, recipe, rfl, ?_, blamed⟩
          rw [evaluateAll_template found body, passed]
      | recipe recipe =>
          rw [evaluateAll_object found body] at failed
          rcases recorded : d.record known recipe store with ⟨refusal | recording, next⟩
          · rw [recorded] at failed
            cases failed
            exact ⟨[], first, rest, store, d, recipe, rfl, rfl, found, body, recorded⟩
          · rw [recorded] at failed
            obtain ⟨before, name, after, middle, culprit, recipe', rfl, passed, blamed⟩ :=
              ih failed others
            refine ⟨first :: before, name, after, middle, culprit, recipe', rfl, ?_, blamed⟩
            rw [evaluateAll_object found body, recorded]
            exact passed

theorem mem_names : name ∈ registry.names.names ↔ ∃ d, registry.lookup name = .ok d := by
  have listed : name ∈ registry.names.names ↔ name ∈ registry.definitions.keys :=
    NameSet.mem_ofList
  rw [listed]
  constructor
  · intro member
    obtain ⟨d, found⟩ := Table.get?_of_mem_keys member
    exact ⟨d, by rw [lookup, found]⟩
  · rintro ⟨d, found⟩
    exact Table.mem_keys_of_get? (lookup_ok found)

end Registry

theorem Definition.record_spares (known : Table Definition) (d : Definition) (recipe : Recipe) :
    Query.Spares (d.record known recipe) :=
  recordWithin_spares known (known.size + 1) d recipe

/-- An evaluation that fails from a store in which no builder is running leaves the object as it
was: not evaluated. -/
theorem Definition.record_failed {known : Table Definition} {d : Definition} {recipe : Recipe}
    {store later : Store} (idle : store.progressOf d.name ≠ .building)
    (failed : d.record known recipe store = (.error error, later)) :
    store.progressOf d.name = .fresh ∧ later.progressOf d.name = .fresh := by
  cases progress : store.progressOf d.name with
  | building => exact absurd progress idle
  | done recording =>
      rw [record_of_done progress] at failed
      cases (Prod.mk.inj failed).1
  | fresh =>
      obtain ⟨last, answer, reached, _⟩ := recordWithin_starts progress
      obtain ⟨outcome, rfl⟩ := Prod.mk.inj (failed.symm.trans answer)
      rw [← outcome] at reached
      exact ⟨rfl, reached⟩

namespace Session

variable {session last : Session}

/-- An object is registered under the name. -/
def IsObject (session : Session) (name : String) : Prop :=
  ∃ d recipe, session.registry.lookup name = .ok d ∧ d.body = .recipe recipe

/-- What can happen to a session. -/
inductive Event where
  | register (d : Definition)
  | restart
  | close
  | request (request : Request)
  | render (name : String)
  | rootMacro (root : String)
  | compileToFile (root : String) (config : Config) (writable : Bool)
  | describe (name : String)
  | inspect (d : Definition)
  | rehearse (script : Script)

def perform (session : Session) : Event → Session
  | .register d => (session.register d).2
  | .restart => session.restart
  | .close => session.close
  | .request request => (session.serve request).2
  | .render name => (session.ask (session.render name)).2
  | .rootMacro root => (session.ask (session.rootMacro root)).2
  | .compileToFile root config writable =>
      (session.ask (session.compileToFile root config writable)).2
  | .describe name => (session.ask (do session.describe (← session.lookup name))).2
  | .inspect d => (session.ask (session.inspect d)).2
  | .rehearse script => (session.ask (session.rehearse .empty script)).2

/-- The event brings another definition of a name: one that is registered while the name is free,
or one that is tried out without being registered. -/
def Introduces (session : Session) (name : String) : Event → Prop
  | .register d => d.name = name ∧ session.registry.contains name = false
  | .inspect d => d.name = name
  | _ => False

/-- What a session can come to while nothing brings another definition of the name. -/
inductive Proceeds (name : String) (session : Session) : Session → Prop
  | here : Proceeds name session session
  | perform (proceeds : Proceeds name session later) (event : Event)
      (known : ¬ later.Introduces name event) : Proceeds name session (later.perform event)

/-- An object that is tried out leaves those of other names alone. -/
theorem recordLoose_sparesAt {d : Definition} (recipe : Recipe) (other : d.name ≠ name) :
    Query.SparesAt name (session.recordLoose d recipe none) := by
  have closed := Query.SparesAt.closed name
  have requests (asked : String) : Query.SparesAt name
      (requestBy session.known (Definition.record session.known) asked) :=
    closed.requestBy asked fun d recipe _ _ => (d.record_spares session.known recipe).at name
  intro store present
  let started := store.addRun d.name
  have counted : store.SameAt name started := ⟨rfl, store.runCount_addRun_of_ne other⟩
  exact counted.trans (closed.performAll requests .empty _ started present)

/-- Whatever happens, a body that is built stays, and its builder is not started. -/
theorem perform_sameAt (event : Event) (known : ¬ session.Introduces name event)
    (present : session.store.progressOf name ≠ .fresh) :
    session.store.SameAt name (session.perform event).store := by
  have closed := Query.SparesAt.closed name
  have records (d : Definition) (recipe : Recipe) :
      Query.SparesAt name (d.record session.known recipe) :=
    (d.record_spares session.known recipe).at name
  have answers (request : Request) : Query.SparesAt name (session.answer request) :=
    answer_holds closed.toClosed (fun _ d recipe _ _ => records d recipe) request
  have asked {α : Type} {query : Query α} (spares : query.SparesAt name) :
      session.store.SameAt name (session.ask query).2.store := spares session.store present
  cases event with
  | register d =>
      rcases session.register_cases d with ⟨_, _, outcome⟩ | ⟨registry, registered, outcome⟩
      · rw [perform, outcome]
        exact .refl name session.store
      · have free := (Registry.register_ok_iff.mp registered).2.1
        have different : name ≠ d.name := by
          rintro rfl
          exact known ⟨rfl, free⟩
        rw [perform, outcome]
        exact session.store.setProgress_sameAt .fresh different
  | restart => exact .refl name session.store
  | close => exact .refl name session.store
  | request request => exact asked (answers request)
  | render name =>
      exact asked (closed.lift_bind fun d _ => closed.renderBy fun recipe _ => records d recipe)
  | rootMacro root => exact asked (closed.bind (closed.lift _) fun _ => closed.lift _)
  | compileToFile root config writable =>
      refine asked (closed.bind (answers (.emit root config .base)) fun program => ?_)
      cases writable with
      | false => exact closed.throw _
      | true => exact closed.pure program
  | describe name =>
      exact asked (closed.lift_bind fun d _ => describe_holds closed records d)
  | inspect d =>
      exact asked (inspect_holds closed fun recipe _ => recordLoose_sparesAt recipe known)
  | rehearse script =>
      exact asked (rehearse_holds closed records .empty script)

theorem Proceeds.sameAt (proceeds : session.Proceeds name last)
    (present : session.store.progressOf name ≠ .fresh) :
    session.store.SameAt name last.store := by
  induction proceeds with
  | here => exact .refl name session.store
  | perform _ event known ih => exact ih.trans (perform_sameAt event known (ih.progress ▸ present))

/-- Between requests no builder is running, nor does a request leave one running. -/
theorem Sound.idle (sound : session.Sound) (grown : session.store.Grows later) (name : String) :
    later.progressOf name ≠ .building := by
  rcases sound.settled.grows grown name with fresh | ⟨recording, done, _⟩
  · simp [fresh]
  · simp [done]

theorem isEvaluated_of_done (found : session.registry.lookup name = .ok d)
    (done : session.store.progressOf d.name = .done built) : session.isEvaluated name = .ok true :=
  isEvaluated_eq found (show _ = Progress.ofKept (some built) from done)

theorem ask_eq (answer : session.ask query = (outcome, last)) :
    query session.store = (outcome, last.store) ∧ last = { session with store := last.store } := by
  rcases asked : query session.store with ⟨result, later⟩
  rw [ask, asked] at answer
  cases answer
  exact ⟨rfl, rfl⟩

/-- The names before the one that failed are those of lesser bytes. -/
theorem mem_before {before after : List String}
    (split : session.registry.names.names = before ++ name :: after)
    (member : other ∈ session.registry.names.names) (less : Text.ByteBefore other name) :
    other ∈ before := by
  have ordered := session.registry.names.ascending
  rw [split] at ordered member
  rcases List.mem_append.mp member with early | late
  · exact early
  · have least := (List.pairwise_append.mp ordered).2.1
    have below := Text.byteBefore_iff_lt.mp less
    rcases List.mem_cons.mp late with rfl | late
    · exact absurd below (String.lt_irrefl _)
    · exact absurd below (String.lt_asymm ((List.pairwise_cons.mp least).1 other late))

/-- Whether all objects are built or one of them fails, no builder is left running, and what was
built before is not built again. If none fails, all are built, and nothing that follows starts
their builders. If there is a failure, it is that of one object, which remains unbuilt, when those
of lesser names have been built. -/
theorem evaluateObjects_restartable (reached : session.Reached)
    (answer : session.ask session.evaluateObjects = (outcome, last)) :
    (∀ name, last.store.progressOf name ≠ .building) ∧
    (∀ name built, session.store.progressOf name = .done built →
      session.store.SameAt name last.store) ∧
    (outcome = .ok () → ∀ name, last.IsObject name →
      last.isEvaluated name = .ok true ∧
        ∀ later, last.Proceeds name later → last.store.SameAt name later.store) ∧
    ∀ error, outcome = .error error →
      ∃ before name after middle, session.registry.names.names = before ++ name :: after ∧
        session.registry.evaluateAll session.known before session.store = (.ok (), middle) ∧
        session.recording name middle = (.error error, last.store) ∧
        last.IsObject name ∧ last.isEvaluated name = .ok false ∧
        ∀ other, last.IsObject other → Text.ByteBefore other name →
          last.isEvaluated other = .ok true := by
  obtain ⟨asked, whole⟩ := ask_eq answer
  have sound := reached.sound
  have grows := (session.registry.evaluateAll_grows session.known _).ok asked
  have listed : ∀ name ∈ session.registry.names.names, ∃ d, session.registry.lookup name = .ok d :=
    fun _ => Registry.mem_names.mp
  have sameRegistry : last.registry = session.registry := by rw [whole]
  refine ⟨sound.idle grows, fun name built done => ?_, ?_, ?_⟩
  · have spares : Query.SparesAt name session.evaluateObjects :=
      (Query.SparesAt.closed name).evaluateAll
        (fun _ d recipe _ _ => (d.record_spares session.known recipe).at name) _
    have same := spares session.store (by simp [done])
    rwa [asked] at same
  · rintro rfl name ⟨d, recipe, found, body⟩
    rw [sameRegistry] at found
    have member := Registry.mem_names.mpr ⟨d, found⟩
    obtain ⟨built, done⟩ := Registry.evaluateAll_ok asked listed name member d recipe found body
    refine ⟨isEvaluated_of_done (sameRegistry ▸ found) done, fun later proceeds => ?_⟩
    apply proceeds.sameAt
    simp [← sound.name_eq found, done]
  · rintro error rfl
    obtain ⟨before, name, after, middle, d, recipe, split, passed, found, body, failed⟩ :=
      Registry.evaluateAll_error asked listed
    have early := (session.registry.evaluateAll_grows session.known before).ok passed
    have late := (d.record_grows session.known recipe).ok failed
    have unbuilt := (Definition.record_failed (sound.idle early d.name) failed).2
    refine ⟨before, name, after, middle, split, passed, ?_, ?_, ?_, ?_⟩
    · have object : d.recipe? = some recipe := by simp [Definition.recipe?, body]
      rw [recording_eq found object, failed]
    · exact ⟨d, recipe, sameRegistry ▸ found, body⟩
    · exact isEvaluated_eq (sameRegistry ▸ found) (show _ = Progress.ofKept none from unbuilt)
    · rintro other ⟨d, recipe, found, body⟩ less
      rw [sameRegistry] at found
      have precedes := mem_before split (Registry.mem_names.mpr ⟨d, found⟩) less
      have known : ∀ name ∈ before, ∃ d, session.registry.lookup name = .ok d :=
        fun name member => listed name (by simp [split, member])
      obtain ⟨built, done⟩ :=
        Registry.evaluateAll_ok passed known other precedes d recipe found body
      exact isEvaluated_of_done (sameRegistry ▸ found) (late.done done)

/-- A builder that asks for an object of a greater name, and then gives up in its first run. -/
def hesitant : Session :=
  let script : Script := [⟨.requestBody "Dome", none⟩, ⟨.fail "Nope", some 1⟩]
  (Session.empty.install
    [Gallery.object "Arch" [], Gallery.object "Dome" [], Gallery.object "Crown" [],
      { Gallery.object "Beam" [] with body := .recipe script.recipe }]).2

theorem hesitant_restartable :
    let failed := hesitant.ask hesitant.evaluateObjects
    let built := failed.2.ask failed.2.evaluateObjects
    failed.1 = .error (.unknownName "Nope") ∧
      (∀ name, failed.2.store.progressOf name ≠ .building) ∧
      failed.2.isEvaluated "Arch" = .ok true ∧ failed.2.isEvaluated "Beam" = .ok false ∧
      failed.2.isEvaluated "Crown" = .ok false ∧ failed.2.isEvaluated "Dome" = .ok true ∧
      built.1 = .ok () ∧ failed.2.store.SameAt "Dome" built.2.store ∧ built.2.runs "Beam" = 2 ∧
      ∀ later, built.2.Proceeds "Beam" later → built.2.store.SameAt "Beam" later.store := by
  intro failed built
  have reached : hesitant.Reached := Reached.empty.install _
  have again : failed.2.Reached := reached.ask .evaluateObjects
  have succeeds : built.1 = .ok () := by decide +kernel
  have first : hesitant.ask hesitant.evaluateObjects = (failed.1, failed.2) := rfl
  have second : failed.2.ask failed.2.evaluateObjects = (built.1, built.2) := rfl
  obtain ⟨idle, _⟩ := evaluateObjects_restartable reached first
  obtain ⟨_, kept, finished, _⟩ := evaluateObjects_restartable again second
  refine ⟨by decide +kernel, idle, by decide +kernel, by decide +kernel, by decide +kernel,
    by decide +kernel, succeeds, ?_, by decide +kernel, ?_⟩
  · exact kept "Dome" _ rfl
  · exact (finished succeeds "Beam" ⟨_, _, rfl, rfl⟩).2

end Session

end DistanceField
