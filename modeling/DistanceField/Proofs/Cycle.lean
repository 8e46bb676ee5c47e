import DistanceField.Proofs.Session
import DistanceField.Proofs.Traversal

/-! When there is an order of definitions. Names are asked what they depend on while the walk is
under way, and what one says may depend on the builders that have run by then. The walk is a walk
over what it is told; where every builder passes on the errors of its requests, that is what is
reported when the walk starts. -/

namespace DistanceField

theorem Query.fst_bind_pure (query : Query α) (f : α → β) (store : Store) :
    ((query >>= fun value => pure (f value)) store).1 =
      ((query store).1 >>= fun value => .ok (f value)) := by
  rw [bind_apply]
  rcases query store with ⟨error | value, later⟩ <;> rfl

section

variable {registry : Registry} {known : Table Definition} {here : Moment × Store} {walk : Walk}

/-- The names are followed as they are with fixed visits, if those that the steps come to are so
visited. -/
theorem visitAll_told {visit : String → Walk → Query Walk}
    {fixed : String → Walk → Except Error Walk}
    (visits : ∀ other rest walk store,
      GoesTo registry known here (.visiting other walk ((name, rest) :: pending), store) →
      Arrives registry known (.visiting other walk ((name, rest) :: pending), store)
          ((name, rest) :: pending) (visit other walk store) ∧
        (visit other walk store).1 = fixed other walk)
    (goes : GoesTo registry known here (.following walk ((name, names) :: pending), store)) :
    (visitAll visit names walk store).1 = visitAll fixed names walk := by
  induction names generalizing walk store with
  | nil => rfl
  | cons other rest ih =>
      by_cases onPath : other ∈ walk.path
      · simp only [visitAll, if_pos onPath]
        rfl
      · by_cases visited : other ∈ walk.visited
        · simp only [visitAll, if_neg onPath, if_pos visited]
          exact ih (goes.tail (.pass onPath visited))
        · have descended := goes.tail (.descend onPath visited)
          obtain ⟨arrives, same⟩ := visits other rest walk store descended
          simp only [visitAll, if_neg onPath, if_neg visited]
          rcases outcome : visit other walk store with ⟨error | next, middle⟩
          · rw [outcome] at same
            rw [Query.bind_of_error outcome, ← same]
            rfl
          · rw [outcome] at arrives same
            rw [Query.bind_of_ok outcome, ← same]
            exact ih (descended.trans arrives)

/-- The walk is a walk over what it is told. -/
theorem visitWithin_told {told : String → Except Error NameSet} (sound : here.1.Sound registry)
    (asked : ∀ name walk pending store,
      GoesTo registry known here (.asking name walk pending, store) →
      told name = registry.reported known store name)
    (missing : ∀ name error, registry.lookup name = .error error → told name = .error error)
    (bound : Nat) (room : registry.definitions.size < bound + walk.path.length)
    (goes : GoesTo registry known here (.visiting name walk pending, store)) :
    (visitWithin (registry.needs known) bound name walk store).1 =
      visitWithin told bound name walk := by
  induction bound generalizing name walk pending store with
  | zero =>
      have short := (sound.goesTo goes).path_length_le
      simp only [Moment.walk] at short
      omega
  | succ bound ih =>
      cases found : registry.lookup name with
      | error error =>
          rw [visitWithin, visitWithin, missing name error found,
            Query.bind_of_error (Registry.needs_unknown found store)]
          rfl
      | ok d =>
          have asking := goes.tail (.enter found)
          have same := asked name _ _ _ asking
          rcases answer : registry.needs known name store with ⟨error | names, middle⟩
          · rw [Registry.reported, answer] at same
            rw [visitWithin, visitWithin, same, Query.bind_of_error answer]
            rfl
          · rw [Registry.reported, answer] at same
            rw [visitWithin, Query.bind_of_ok answer, visitWithin_succ same, Query.fst_bind_pure]
            refine congrArg (· >>= _) (visitAll_told ?_ (asking.tail (.answer answer)))
            intro other rest later store deeper
            have inside := sound.goesTo deeper
            have left := (sound.goesTo goes).room_deeper inside room
            exact ⟨visitWithin_arrives bound inside left store, ih left deeper⟩

end

namespace Registry

variable {registry : Registry} {known : Table Definition}

theorem lookup_error_iff : registry.lookup name = .error error ↔
    registry.contains name = false ∧ error = .unknownName name := by
  unfold lookup contains Table.contains
  cases registry.definitions.get? name <;> simp [eq_comm]

theorem contains_of_reported (answer : registry.reported known store name = .ok needed) :
    registry.contains name = true := by
  cases present : registry.contains name with
  | true => rfl
  | false =>
      rw [reported, needs_unknown (lookup_error_iff.mpr ⟨present, rfl⟩)] at answer
      cases answer

end Registry

namespace Moment

/-- The names that wait to be asked what they depend on, some for the second time. -/
def waiting : Moment → List String
  | .visiting name _ pending => name :: pending.flatMap Prod.snd
  | .asking name _ pending => name :: pending.flatMap Prod.snd
  | .following _ pending => pending.flatMap Prod.snd

theorem Leads.waiting_subset {registry : Registry} {moment after : Moment}
    (leads : moment.Leads registry after) (silent : moment.asked? = none) :
    after.waiting ⊆ moment.waiting := by
  cases leads with
  | answer => cases silent
  | enter | leave | descend => exact List.Subset.refl _
  | pass => exact List.subset_cons_self _ _

theorem store_of_silent {registry : Registry} {moment : Moment} (silent : moment.asked? = none)
    (stepped : moment.step registry known store = (outcome, later)) : later = store := by
  cases moment with
  | asking => cases silent
  | visiting name walk pending =>
      cases found : registry.lookup name with
      | error error => exact (Prod.mk.inj ((step_unknown found store).symm.trans stepped)).2.symm
      | ok d => exact (Prod.mk.inj ((step_visiting found store).symm.trans stepped)).2.symm
  | following walk pending =>
      match pending with
      | [] | (_, []) :: _ => exact (Prod.mk.inj stepped).2.symm
      | (name, other :: rest) :: outer =>
          simp only [step] at stepped
          split at stepped
          · exact (Prod.mk.inj stepped).2.symm
          · split at stepped <;> exact (Prod.mk.inj stepped).2.symm

end Moment

namespace Session

variable {session : Session} {needs : String → Except Error NameSet}

/-- The walk from the root comes to ask the name what it depends on, with the given store. -/
def Consults (session : Session) (root name : String) (store : Store) : Prop :=
  ∃ walk pending, GoesTo session.registry session.known
    (.visiting root .empty [], session.store) (.asking name walk pending, store)

/-- Every name that the walk asks what it depends on can tell. -/
def Answers (session : Session) (root : String) : Prop :=
  ∀ name store, session.Consults root name store →
    ∃ needed, session.registry.reported session.known store name = .ok needed

/-- Whenever the walk asks a name what it depends on, it is told what is given here. -/
def Told (session : Session) (root : String) (needs : String → Except Error NameSet) : Prop :=
  ∀ name store, session.Consults root name store →
    needs name = session.registry.reported session.known store name

/-- The order is found, or not, by a walk over what the names say when they are asked. -/
theorem Told.order_outcome (told : session.Told root needs)
    (missing : ∀ name, session.registry.contains name = false →
      needs name = .error (.unknownName name))
    (listed : ∀ name needed, needs name = .ok needed → session.registry.contains name = true) :
    (∀ order, (session.order root session.store).1 = .ok order → Topological needs root order) ∧
      ∀ error, (session.order root session.store).1 = .error error → Stops needs root error := by
  let bound := session.registry.definitions.size + 1
  have walked : (visitWithin (session.registry.needs session.known) bound root .empty
      session.store).1 = visitWithin needs bound root .empty := by
    refine visitWithin_told (Moment.start_sound session.registry root) ?_ ?_ bound
      (Nat.lt_succ_self _) .refl
    · exact fun name walk pending store goes => told name store ⟨walk, pending, goes⟩
    · intro name error found
      obtain ⟨absent, rfl⟩ := Registry.lookup_error_iff.mp found
      exact missing name absent
  have ordered : (session.order root session.store).1 =
      (visitWithin needs bound root .empty >>= fun walk => .ok walk.order) := by
    rw [← walked]
    exact Query.fst_bind_pure _ _ _
  have room : session.registry.definitions.keys.length < bound := by simp [bound]
  have outcome := visitWithin_root root
    (fun name needed answer => Table.contains_iff_mem_keys.mp (listed name needed answer)) room
  rw [ordered]
  cases result : visitWithin needs bound root .empty with
  | error stopped =>
      rw [result] at outcome
      constructor
      · intro order succeeded
        cases succeeded
      · intro error failed
        cases failed
        exact outcome
  | ok walk =>
      rw [result] at outcome
      constructor
      · intro order succeeded
        cases succeeded
        exact outcome
      · intro error failed
        cases failed

open Classical in
/-- What the names say that the walk asks. A registered name that it does not ask is taken to say
what is given. -/
noncomputable def heard (session : Session) (root : String)
    (needs : String → Except Error NameSet) (unasked : Except Error NameSet) (name : String) :
    Except Error NameSet :=
  if ∃ store, session.Consults root name store then needs name
  else if session.registry.contains name then unasked
  else .error (.unknownName name)

namespace Answers

variable (answers : session.Answers root) (told : session.Told root needs)

include answers told

theorem heard_cases (unasked : Except Error NameSet) (name : String) :
    (session.registry.contains name = true ∧ ∃ needed, needs name = .ok needed ∧
        session.heard root needs unasked name = .ok needed) ∨
      session.registry.contains name = true ∧ session.heard root needs unasked name = unasked ∨
      session.registry.contains name = false ∧
        session.heard root needs unasked name = .error (.unknownName name) := by
  unfold heard
  split
  · next asked =>
      obtain ⟨store, consulted⟩ := asked
      obtain ⟨needed, answer⟩ := answers name store consulted
      have same := (told name store consulted).trans answer
      exact .inl ⟨Registry.contains_of_reported answer, needed, same, same⟩
  · split
    · next present => exact .inr (.inl ⟨present, rfl⟩)
    · next absent => exact .inr (.inr ⟨Bool.not_eq_true _ ▸ absent, rfl⟩)

theorem order_outcome (unasked : Except Error NameSet) :
    (∀ order, (session.order root session.store).1 = .ok order →
        Topological (session.heard root needs unasked) root order) ∧
      ∀ error, (session.order root session.store).1 = .error error →
        Stops (session.heard root needs unasked) root error := by
  have toldHeard : session.Told root (session.heard root needs unasked) := by
    intro name store consulted
    rw [heard, if_pos ⟨store, consulted⟩]
    exact told name store consulted
  refine toldHeard.order_outcome ?_ ?_
  · intro name absent
    rcases answers.heard_cases told unasked name with ⟨present, _⟩ | ⟨present, _⟩ | ⟨_, refused⟩
    · cases absent.symm.trans present
    · cases absent.symm.trans present
    · exact refused
  · intro name needed answer
    rcases answers.heard_cases told unasked name with
      ⟨present, _⟩ | ⟨present, _⟩ | ⟨_, refused⟩
    · exact present
    · exact present
    · cases refused.symm.trans answer

/-- What stops the walk is found along what names have said: those that are not asked can be
taken to need nothing. -/
theorem order_error (failed : (session.order root session.store).1 = .error error) :
    (∃ name, error = .unknownName name ∧ Reaches needs root name ∧
      session.registry.contains name = false) ∨
    ∃ first rest, error = .cycle (first :: rest ++ [first]) ∧
      ClosedWalk needs root first rest := by
  have stops := (answers.order_outcome told (.ok ∅)).2 error failed
  have weaker : ∀ a b, DirectNeed (session.heard root needs (.ok ∅)) a b →
      DirectNeed needs a b := by
    rintro a b ⟨names, said, member⟩
    rcases answers.heard_cases told (.ok ∅) a with ⟨_, _, answer, same⟩ | ⟨_, same⟩ | ⟨_, same⟩
    · cases same.symm.trans said
      exact ⟨names, answer, member⟩
    · cases same.symm.trans said
      cases member
    · cases same.symm.trans said
  rcases stops with ⟨name, reaches, refused⟩ | ⟨first, rest, same, cycle⟩
  · rcases answers.heard_cases told (.ok ∅) name with
      ⟨_, _, _, same⟩ | ⟨_, same⟩ | ⟨absent, same⟩
    · cases same.symm.trans refused
    · cases same.symm.trans refused
    · cases same.symm.trans refused
      exact .inl ⟨name, rfl, reaches_mono weaker reaches, absent⟩
  · exact .inr ⟨first, rest, same, cycle.mono weaker⟩

/-- A walk that succeeds has asked all names that the root reaches: those that are not asked can
be taken to refuse. -/
theorem order_ok {order : List String}
    (succeeded : (session.order root session.store).1 = .ok order) :
    Topological needs root order ∧
      ∀ name, Reaches needs root name → session.registry.contains name = true := by
  have topological := (answers.order_outcome told (.error (.unknownName root))).1 order succeeded
  have asked : ∀ name, Reaches (session.heard root needs (.error (.unknownName root))) root name →
      session.registry.contains name = true ∧
        needs name = session.heard root needs (.error (.unknownName root)) name := by
    intro name reaches
    obtain ⟨names, said⟩ := topological.answered reaches
    rcases answers.heard_cases told (.error (.unknownName root)) name with
      ⟨present, _, answer, same⟩ | ⟨_, same⟩ | ⟨_, same⟩
    · exact ⟨present, answer.trans same.symm⟩
    · cases same.symm.trans said
    · cases same.symm.trans said
  have agree := fun name reaches => (asked name reaches).2
  refine ⟨topological.congr agree, fun name reaches => ?_⟩
  exact (asked name ((reaches_congr agree).mp reaches)).1

end Answers

/-- What names say when they are asked they say when the walk is over, whatever has become of
it. -/
theorem Answers.told_after (answers : session.Answers root) :
    session.Told root
      (session.registry.reported session.known (session.order root session.store).2) := by
  rintro name store ⟨walk, pending, goes⟩
  obtain ⟨needed, answer⟩ := answers name store ⟨walk, pending, goes⟩
  have answered : session.registry.needs session.known name store =
      (.ok needed, (session.registry.needs session.known name store).2) := Prod.ext answer rfl
  obtain ⟨_, run⟩ := Registry.orderFrom_traversal (Prod.eta (session.order root session.store)).symm
  obtain ⟨_, rest⟩ := run.rest (goes.tail (.answer answered))
  exact (Registry.needs_again answered rest.grows).trans answer.symm

/-- There is an order exactly if everything the root reaches is registered and nothing it
reaches needs itself. Otherwise the error names a reached name that is not registered, or
spells out a cycle. What is reached is said by what the walk is told, which is also what is
reported when it is over. -/
theorem order_exists_iff (answers : session.Answers root) :
    session.Told root
      (session.registry.reported session.known (session.order root session.store).2) ∧
    ∀ needs, session.Told root needs →
      ((∃ order, (session.order root session.store).1 = .ok order) ↔
        (∀ name, Reaches needs root name → session.registry.contains name = true) ∧
          ∀ name, Reaches needs root name → ¬ Relation.TransGen (DirectNeed needs) name name) ∧
      ∀ error, (session.order root session.store).1 = .error error →
        (∃ name, error = .unknownName name ∧ Reaches needs root name ∧
          session.registry.contains name = false) ∨
        ∃ first rest, error = .cycle (first :: rest ++ [first]) ∧
          ClosedWalk needs root first rest := by
  refine ⟨answers.told_after, fun needs told => ?_⟩
  refine ⟨⟨?_, ?_⟩, fun _ => answers.order_error told⟩
  · rintro ⟨order, succeeded⟩
    obtain ⟨topological, registered⟩ := answers.order_ok told succeeded
    exact ⟨registered, fun name reaches => topological.acyclic reaches⟩
  · rintro ⟨registered, acyclic⟩
    cases result : (session.order root session.store).1 with
    | ok order => exact ⟨order, rfl⟩
    | error error =>
        rcases answers.order_error told result with
          ⟨name, _, reaches, absent⟩ | ⟨first, rest, _, cycle⟩
        · cases absent.symm.trans (registered name reaches)
        · exact absurd cycle.transGen (acyclic first (cycle.reached first List.mem_cons_self))

/-- What a name is reported to depend on when it is asked for now. -/
def reported (session : Session) : String → Except Error NameSet :=
  session.registry.reported session.known session.store

/-- Every registered name that the root reaches can tell now what it depends on. -/
def AnswersNow (session : Session) (root : String) : Prop :=
  ∀ name, Reaches session.reported root name → session.registry.contains name = true →
    ∃ needed, session.reported name = .ok needed

/-- The names that wait to be asked are reached along what is reported now, and the store has
changed only by what objects yield. -/
structure OnCourse (session : Session) (root : String) (here : Moment × Store) : Prop where
  reached : ∀ name ∈ here.1.waiting, Reaches session.reported root name
  ahead : session.store.Ahead session.known here.2

namespace AnswersNow

variable (now : session.AnswersNow root) (sound : session.Sound)
  (strict : StrictRecipes session.known)

include now sound strict

theorem needs_ahead {store : Store} (reaches : Reaches session.reported root name)
    (present : session.registry.contains name = true)
    (ahead : session.store.Ahead session.known store) :
    ∃ needed later, session.reported name = .ok needed ∧
      session.registry.needs session.known name store = (.ok needed, later) ∧
      session.store.Ahead session.known later := by
  obtain ⟨needed, answer⟩ := now name reaches present
  cases found : session.registry.lookup name with
  | error error => cases present.symm.trans (Registry.lookup_error_iff.mp found).1
  | ok d =>
      have first := answer
      rw [reported, Registry.reported, Registry.needs_eq found] at first
      have known := sound.covered name d (Registry.lookup_ok found)
      obtain ⟨later, again, onwards⟩ :=
        d.dependencies_ahead sound.named strict known first ahead
      rw [Registry.needs_eq found]
      exact ⟨needed, later, answer, again, onwards⟩

theorem onCourse_step (course : session.OnCourse root here)
    (goes : Goes session.registry session.known here there) : session.OnCourse root there := by
  obtain ⟨moment, store⟩ := here
  obtain ⟨after, later⟩ := there
  cases asked : moment.asked? with
  | none =>
      have same := Moment.store_of_silent asked goes
      have fewer := (Moment.leads_of_step goes).waiting_subset asked
      exact ⟨fun name member => course.reached name (fewer member), same ▸ course.ahead⟩
  | some asking =>
      cases moment with
      | visiting | following => cases asked
      | asking name walk pending =>
          obtain ⟨names, middle, answer, finish⟩ := Query.bind_ok goes
          cases finish
          have present := Registry.contains_of_reported (congrArg Prod.fst answer)
          have reaches := course.reached name List.mem_cons_self
          obtain ⟨_, _, answered, again, ahead⟩ :=
            now.needs_ahead sound strict reaches present course.ahead
          cases again.symm.trans answer
          refine ⟨fun other member => ?_, ahead⟩
          rcases List.mem_append.mp member with direct | waits
          · exact reaches.tail ⟨names, answered, direct⟩
          · exact course.reached other (List.mem_cons_of_mem name waits)

theorem onCourse (goes : GoesTo session.registry session.known
      (.visiting root .empty [], session.store) there) : session.OnCourse root there := by
  induction goes with
  | refl => exact ⟨List.forall_mem_singleton.mpr .refl, .refl session.store⟩
  | tail _ step ih => exact now.onCourse_step sound strict ih step

/-- Where builders pass on all errors, what is reported now is what the walk is told. -/
theorem consulted {store : Store} (consults : session.Consults root name store) :
    ∃ needed, session.reported name = .ok needed ∧
      session.registry.reported session.known store name = .ok needed := by
  obtain ⟨walk, pending, goes⟩ := consults
  have course := now.onCourse sound strict goes
  have here := (Moment.start_sound session.registry root).goesTo goes
  have onPath : name ∈ (Moment.asking name walk pending).walk.path := by
    rw [here.path_eq]
    exact List.mem_append_right _ List.mem_cons_self
  have present : session.registry.contains name = true :=
    Table.contains_iff_mem_keys.mpr (here.listed name onPath)
  obtain ⟨needed, _, answered, again, _⟩ := now.needs_ahead sound strict
    (course.reached name List.mem_cons_self) present course.ahead
  exact ⟨needed, answered, congrArg Prod.fst again⟩

theorem answers : session.Answers root := by
  intro name store consults
  obtain ⟨needed, _, answer⟩ := now.consulted sound strict consults
  exact ⟨needed, answer⟩

theorem told : session.Told root session.reported := by
  intro name store consults
  obtain ⟨needed, answered, answer⟩ := now.consulted sound strict consults
  exact answered.trans answer.symm

end AnswersNow

-- Each name can tell now, but the walk asks the second after the first has spent its only good run.
example :
    let first : Recipe := ⟨fun _ => [.tryBody "Right"]⟩
    let second : Recipe := ⟨fun surroundings =>
      [if surroundings.run = 1 then .requestBody "Left" else .fail (.notAnObject "Right")]⟩
    let session := (Session.empty.install
      [{ Gallery.object "Left" [] with body := .recipe first },
        { Gallery.object "Right" [] with body := .recipe second },
        { Gallery.object "Scene" [] with declared := .ofList ["Left", "Right"] }]).2
    (∀ name ∈ session.registry.definitions.keys, (session.reported name).isOk = true) ∧
      (session.order "Scene" session.store).1 = .error (.notAnObject "Right") := by
  decide +kernel

/-- Two objects that need each other, and a third one that needs the first. -/
def entangled : Session :=
  (Session.empty.install
    [Shapes.combinator "Union" [] ["return min(d1, d2);"],
      Gallery.object "Left"
        [.accumulate ⟨"Union", .combinator⟩ [.call (.shape "Right" .object [] none none)]],
      Gallery.object "Right"
        [.accumulate ⟨"Union", .combinator⟩ [.call (.shape "Left" .object [] none none)]],
      Gallery.object "Scene"
        [.accumulate ⟨"Union", .combinator⟩ [.call (.shape "Left" .object [] none none)]]]).2

theorem entangled_strict : StrictRecipes entangled.known := by
  intro name d recipe found object surroundings other
  have listed : name ∈ ["Union", "Left", "Right", "Scene"] := Table.mem_keys_of_get? found
  simp only [List.mem_cons, List.not_mem_nil, or_false] at listed
  rcases listed with rfl | rfl | rfl | rfl
  all_goals
    cases found
    cases object <;> simp

theorem entangled_cycle :
    entangled.Answers "Scene" ∧ entangled.Told "Scene" entangled.reported ∧
      ∃ first rest, (entangled.order "Scene" entangled.store).1 =
          .error (.cycle (first :: rest ++ [first])) ∧
        ClosedWalk entangled.reported "Scene" first rest := by
  have reached : entangled.Reached := Reached.empty.install _
  have each : ∀ name ∈ entangled.registry.definitions.keys,
      (entangled.reported name).isOk = true := by decide +kernel
  have now : entangled.AnswersNow "Scene" := by
    intro name _ present
    have ok := each name (Table.contains_iff_mem_keys.mp present)
    cases answer : entangled.reported name with
    | ok needed => exact ⟨needed, rfl⟩
    | error error => simp [answer, Except.isOk, Except.toBool] at ok
  have answers := now.answers reached.sound entangled_strict
  have told := now.told reached.sound entangled_strict
  have failed : (entangled.order "Scene" entangled.store).1 =
      .error (.cycle ["Left", "Right", "Left"]) := by decide +kernel
  refine ⟨answers, told, ?_⟩
  rcases ((order_exists_iff answers).2 entangled.reported told).2 _ failed with
    ⟨_, other, _⟩ | ⟨first, rest, same, cycle⟩
  · cases other
  · exact ⟨first, rest, failed.trans (congrArg Except.error same), cycle⟩

end Session

end DistanceField
