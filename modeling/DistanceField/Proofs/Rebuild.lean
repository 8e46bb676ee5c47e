import DistanceField.Proofs.Requests
import DistanceField.Proofs.Yield
import Mathlib.Data.List.Perm.Subperm

/-! Building without memory. If builders do the same in every run, an object records what it
would record if every body were built anew each time it is asked for: a recording that is
kept could be made again in every surroundings in which it can be asked for. -/

namespace DistanceField

/-- The builder does the same however often it has been started. -/
def Recipe.Fixed (recipe : Recipe) : Prop :=
  ∀ surroundings run, recipe.steps { surroundings with run := run } = recipe.steps surroundings

/-- All builders do the same in every run. -/
def FixedRecipes (known : Table Definition) : Prop :=
  ∀ name d recipe, known.get? name = some d → d.body = .recipe recipe → recipe.Fixed

def BuildStep.effectBy (answer : String → Except Error Unit) (recording : Recording) :
    BuildStep → Except Error Recording
  | .requestBody name => do
      answer name
      return recording
  | step => step.effect recording

/-- What a builder records when its requests are answered as given. -/
def replayBy (answer : String → Except Error Unit) (recording : Recording)
    (steps : List BuildStep) : Except Error Recording :=
  steps.foldlM (BuildStep.effectBy answer) recording

def answerBy (known : Table Definition) (record : Definition → Recipe → Except Error Recording)
    (name : String) : Except Error Unit :=
  match known.get? name with
  | none => .error (.unknownName name)
  | some d =>
      match d.body with
      | .template _ => .ok ()
      | .recipe recipe => do
          let recording ← record d recipe
          discard recording.body

/-- What an object records when nothing is kept. The outer names are those of the bodies
that are being built; a request for one of them is refused. -/
def Definition.rebuild (known : Table Definition) :
    Nat → List String → Definition → Recipe → Except Error Recording
  | 0, _, d, _ => .error (.cycle [d.name, d.name])
  | bound + 1, outer, d, recipe =>
      if d.name ∈ outer then .error (.cycle [d.name, d.name])
      else replayBy (answerBy known (rebuild known bound (d.name :: outer))) .empty
        (recipe.steps (d.surroundings known .empty))

/-- The bodies being built are distinct and known, and the bound leaves room for all
others. -/
structure Nested (known : Table Definition) (bound : Nat) (outer : List String) : Prop where
  distinct : outer.Nodup
  listed : outer ⊆ known.keys
  room : known.size ≤ bound + outer.length

namespace Nested

variable {known : Table Definition}

theorem nil (known : Table Definition) : Nested known (known.size + 1) [] :=
  ⟨.nil, List.nil_subset _, by simp⟩

theorem cons (nested : Nested known (bound + 1) outer) (apart : name ∉ outer)
    (present : name ∈ known.keys) : Nested known bound (name :: outer) where
  distinct := List.nodup_cons.mpr ⟨apart, nested.distinct⟩
  listed := List.cons_subset.mpr ⟨present, nested.listed⟩
  room := by
    have room := nested.room
    simp only [List.length_cons]
    omega

theorem mem_of_zero (nested : Nested known 0 outer) (present : name ∈ known.keys) :
    name ∈ outer := by
  by_contra apart
  have distinct : (name :: outer).Nodup := List.nodup_cons.mpr ⟨apart, nested.distinct⟩
  have inside : name :: outer ⊆ known.keys := List.cons_subset.mpr ⟨present, nested.listed⟩
  have short := (List.subperm_of_subset distinct inside).length_le
  have room := nested.room
  simp only [List.length_cons, Table.length_keys] at short room
  omega

end Nested

/-- The object would record this anew, whatever bodies are being built at the time that
have not been recorded. -/
def Store.Rebuilds (known : Table Definition) (store : Store) (name : String)
    (recording : Recording) : Prop :=
  ∃ d recipe, known.get? name = some d ∧ d.body = .recipe recipe ∧
    ∀ bound outer, Nested known bound outer →
      (∀ other ∈ outer, ∀ result, store.progressOf other ≠ .done result) →
      d.rebuild known bound outer recipe = .ok recording

/-- The outer names are those of the bodies being built, and what is recorded would be
recorded anew. -/
structure Store.Consistent (known : Table Definition) (outer : List String) (store : Store) :
    Prop where
  building_iff : ∀ name, store.progressOf name = .building ↔ name ∈ outer
  rebuilds : ∀ name recording, store.progressOf name = .done recording →
    store.Rebuilds known name recording

/-- From every store of a kind the request has the given outcome, and it leaves a store of
that kind. -/
def Query.Gives (Holds : Store → Prop) (query : Query α) (outcome : Except Error α) : Prop :=
  ∀ store, Holds store → ∃ later, query store = (outcome, later) ∧ Holds later

namespace Query

variable {Holds : Store → Prop}

theorem pure_gives (value : α) : Query.Gives Holds (pure value) (.ok value) :=
  fun store holds => ⟨store, rfl, holds⟩

theorem lift_gives (outcome : Except Error α) :
    Query.Gives Holds (liftExcept outcome) outcome :=
  fun store holds => ⟨store, lift_apply outcome store, holds⟩

theorem throw_gives (error : Error) : Query.Gives Holds (throw error : Query α) (.error error) :=
  fun store holds => ⟨store, rfl, holds⟩

theorem Gives.bind {query : Query α} {next : α → Query β} {after : α → Except Error β}
    (first : Query.Gives Holds query outcome)
    (second : ∀ value, outcome = .ok value → Query.Gives Holds (next value) (after value)) :
    Query.Gives Holds (query >>= next) (outcome >>= after) := by
  intro store holds
  obtain ⟨middle, answer, kept⟩ := first store holds
  cases outcome with
  | error error => exact ⟨middle, bind_of_error answer, kept⟩
  | ok value =>
      obtain ⟨later, onwards, last⟩ := second value rfl middle kept
      exact ⟨later, (bind_of_ok answer).trans onwards, last⟩

end Query

section

variable {request : String → Query Unit} {answer : String → Except Error Unit}
  {Holds : Store → Prop}

theorem BuildStep.effectBy_silent {step : BuildStep} (silent : ∀ name, step ≠ .requestBody name)
    (recording : Recording) : step.effectBy answer recording = step.effect recording := by
  cases step with
  | requestBody name => exact absurd rfl (silent name)
  | _ => rfl

theorem replayBy_cons (step : BuildStep) (rest : List BuildStep) :
    replayBy answer recording (step :: rest) =
      (step.effectBy answer recording >>= fun later => replayBy answer later rest) :=
  List.foldlM_cons

theorem performAll_gives (answers : ∀ name, Query.Gives Holds (request name) (answer name))
    (recording : Recording) (steps : List BuildStep) :
    Query.Gives Holds (performAll request recording steps) (replayBy answer recording steps) := by
  induction steps generalizing recording with
  | nil => exact Query.pure_gives recording
  | cons step rest ih =>
      intro store holds
      rw [replayBy_cons]
      cases step with
      | requestBody name =>
          obtain ⟨middle, met, kept⟩ := answers name store holds
          rw [performAll_request, met, BuildStep.effectBy]
          cases answer name with
          | error error => exact ⟨middle, rfl, kept⟩
          | ok _ => exact ih recording middle kept
      | tryBody name =>
          -- Whatever the answer, the builder goes on with the same recording.
          obtain ⟨middle, met, kept⟩ := answers name store holds
          rw [performAll_try, met]
          exact ih recording middle kept
      | accumulate | transform | transformCall | fail =>
          rw [performAll_silent rfl, BuildStep.effectBy_silent (by simp)]
          split
          · next later effect =>
              rw [effect]
              exact ih later store holds
          · next error effect =>
              rw [effect]
              exact ⟨store, rfl, holds⟩

theorem replayBy_of_answered
    (answered : ∀ name, .requestBody name ∈ steps → answer name = .ok ()) :
    replayBy answer recording steps = replay recording steps := by
  induction steps generalizing recording with
  | nil => rfl
  | cons step rest ih =>
      have others := fun name member => answered name (List.mem_cons_of_mem step member)
      have first : step.effectBy answer recording = step.effect recording := by
        by_cases requests : ∃ name, step = .requestBody name
        · obtain ⟨name, rfl⟩ := requests
          simp only [BuildStep.effectBy, answered name List.mem_cons_self]
          rfl
        · exact BuildStep.effectBy_silent (fun name same => requests ⟨name, same⟩) recording
      rw [replayBy_cons, replay_cons, first]
      exact congrArg _ (funext fun later => ih others)

end

section

variable {known : Table Definition}

theorem requestBy_gives {record : Definition → Recipe → Query Recording}
    {again : Definition → Recipe → Except Error Recording} {Holds : Store → Prop} (name : String)
    (records : ∀ d recipe, known.get? name = some d → d.body = .recipe recipe →
      Query.Gives Holds (record d recipe) (again d recipe)) :
    Query.Gives Holds (requestBy known record name) (answerBy known again name) := by
  unfold requestBy answerBy
  cases found : known.get? name with
  | none => exact Query.throw_gives _
  | some d =>
      cases body : d.body with
      | template text =>
          simp only [body]
          exact Query.pure_gives ()
      | recipe recipe =>
          simp only [body]
          refine (records d recipe found body).bind fun recording _ => ?_
          exact (Query.lift_gives recording.body).bind fun _ _ => Query.pure_gives ()

theorem answerBy_of_answered {again : Definition → Recipe → Except Error Recording}
    {Yielded : String → Recording → Prop} (answered : Answered known Yielded name)
    (repeats : ∀ d recipe recording, known.get? name = some d → d.body = .recipe recipe →
      Yielded name recording → again d recipe = .ok recording) :
    answerBy known again name = .ok () := by
  cases answered with
  | template found body => simp only [answerBy, found, body]
  | @object d recipe recording result found body yielded written =>
      simp only [answerBy, found, body, repeats d recipe recording found body yielded]
      exact congrArg (discard ·) written

theorem Recipe.Fixed.steps_eq (fixed : Recipe.Fixed recipe) (d : Definition)
    (known : Table Definition) (a b : Store) :
    recipe.steps (d.surroundings known a) =
      recipe.steps (d.surroundings known b) :=
  fixed (d.surroundings known b) (a.runCount d.name + 1)

/-- The store holds what a request for the body of this name asks for. -/
def Store.Supplies (known : Table Definition) (store : Store) (name : String) : Prop :=
  Answered known (fun other recording => store.progressOf other = .done recording) name

theorem Store.Supplies.grows (supplies : Store.Supplies known store name)
    (grows : store.Grows later) : later.Supplies known name :=
  Answered.mono supplies fun _ done => grows.done done

theorem performAll_supplied {request : String → Query Unit}
    (grows : ∀ name, Query.Grows (request name))
    (supplied : ∀ name before after, request name before = (.ok (), after) →
      after.Supplies known name)
    (done : performAll request recording steps store = (.ok result, later)) :
    ∀ name, .requestBody name ∈ steps → later.Supplies known name := by
  induction steps generalizing recording store with
  | nil => simp
  | cons step rest ih =>
      obtain ⟨next, middle, _, remaining, made⟩ := performAll_cons_ok done
      have onwards := (Query.Grows.closed.performAll grows next rest).ok remaining
      intro name member
      rcases List.mem_cons.mp member with same | member
      · subst same
        rcases made with ⟨silent, _⟩ | ⟨asked, same, met⟩ | ⟨asked, same, _⟩
        · cases silent
        · cases same
          exact (supplied name store middle met).grows onwards
        · cases same
      · exact ih remaining name member

theorem requestBy_supplied (own : OwnNames known)
    (met : requestBy known (Definition.recordWithin known bound) name store = (.ok (), later)) :
    later.Supplies known name := by
  obtain ⟨d, found, ⟨text, body, _⟩ | ⟨recipe, recording, text, body, recorded, written⟩⟩ :=
    requestBy_ok met
  · exact .template found body
  · have done : later.progressOf d.name = .done recording := by
      rcases Definition.recordWithin_ok recorded with ⟨recorded, rfl⟩ | ⟨_, _, during, _, _, rfl⟩
      · exact recorded
      · simp
    rw [own name d found] at done
    exact .object found body done written

end

namespace Store

variable {known : Table Definition} {store during before after : Store} {d : Definition}

theorem Rebuilds.mono (rebuilds : before.Rebuilds known name recording)
    (kept : ∀ other result, before.progressOf other = .done result →
      ∃ again, after.progressOf other = .done again) :
    after.Rebuilds known name recording := by
  obtain ⟨d, recipe, found, object, again⟩ := rebuilds
  refine ⟨d, recipe, found, object, fun bound outer nested unrecorded => ?_⟩
  refine again bound outer nested fun other member result done => ?_
  obtain ⟨later, done⟩ := kept other result done
  exact unrecorded other member later done

namespace Consistent

theorem not_done (consistent : store.Consistent known outer) (member : name ∈ outer)
    (recording : Recording) : store.progressOf name ≠ .done recording := by
  intro done
  cases ((consistent.building_iff name).mpr member).symm.trans done

theorem apart (consistent : store.Consistent known outer)
    (fresh : store.progressOf name = .fresh) : name ∉ outer := by
  intro member
  cases ((consistent.building_iff name).mpr member).symm.trans fresh

theorem mark (consistent : store.Consistent known outer)
    (fresh : store.progressOf name = .fresh) :
    (store.mark name).Consistent known (name :: outer) where
  building_iff := by
    intro other
    by_cases same : other = name
    · subst same
      simp [store.mark_building]
    · rw [← (store.mark_sameAt same).progress.symm, consistent.building_iff]
      simp [same]
  rebuilds := by
    intro other recording done
    have different : other ≠ name := by
      rintro rfl
      cases (store.mark_building other).symm.trans done
    rw [(store.mark_sameAt different).progress] at done
    refine (consistent.rebuilds other recording done).mono fun third result done => ?_
    have apart : third ≠ name := by
      rintro rfl
      cases fresh.symm.trans done
    exact ⟨result, (store.mark_sameAt apart).progress.trans done⟩

theorem unmark (consistent : during.Consistent known (name :: outer)) (apart : name ∉ outer)
    (last : Progress) (settled : last ≠ .building)
    (recorded : ∀ recording, last = .done recording →
      (during.setProgress name last).Rebuilds known name recording) :
    (during.setProgress name last).Consistent known outer where
  building_iff := by
    intro other
    by_cases same : other = name
    · subst same
      simp [settled, apart]
    · simp [same, consistent.building_iff]
  rebuilds := by
    intro other recording done
    by_cases same : other = name
    · subst same
      simp only [progressOf_setProgress, if_true] at done
      exact recorded recording done
    · simp only [progressOf_setProgress, same, if_false] at done
      refine (consistent.rebuilds other recording done).mono fun third result done => ?_
      have different : third ≠ name := by
        rintro rfl
        exact consistent.not_done List.mem_cons_self result done
      exact ⟨result, by simp [different, done]⟩

/-- A builder that has met all its requests would meet them anew, with its own body being
built and any others that are not recorded by then. -/
theorem rebuilds_of_run (own : OwnNames known) (found : known.get? name = some d)
    (object : d.body = .recipe recipe) (consistent : during.Consistent known (name :: outer))
    (replayed : replay .empty (recipe.steps (d.surroundings known .empty)) =
      .ok recording)
    (supplied : ∀ other,
      .requestBody other ∈ recipe.steps (d.surroundings known .empty) →
      during.Supplies known other) :
    (during.setProgress name (.done recording)).Rebuilds known name recording := by
  refine ⟨d, recipe, found, object, fun bound inner nested unrecorded => ?_⟩
  have apart : name ∉ inner := fun member => unrecorded name member recording (by simp)
  have present := Table.mem_keys_of_get? found
  cases bound with
  | zero => exact absurd (nested.mem_of_zero present) apart
  | succ bound =>
      have waiting : ∀ other ∈ name :: inner, ∀ result,
          during.progressOf other ≠ .done result := by
        intro other member result done
        have different : other ≠ name := by
          rintro rfl
          exact consistent.not_done List.mem_cons_self result done
        have inside := List.mem_of_ne_of_mem different member
        exact unrecorded other inside result (by simp [different, done])
      simp only [Definition.rebuild, own name d found, if_neg apart]
      rw [replayBy_of_answered, replayed]
      intro other requested
      refine answerBy_of_answered (supplied other requested) ?_
      intro asked wanted result present' body done
      obtain ⟨_, _, found', object', again⟩ := consistent.rebuilds other result done
      cases present'.symm.trans found'
      cases body.symm.trans object'
      exact again bound (name :: inner) (nested.cons apart present) waiting

end Consistent

end Store

namespace Definition

variable {known : Table Definition} {name : String} {d : Definition} {store : Store}

theorem run_gives (own : OwnNames known) (fixed : FixedRecipes known)
    (found : known.get? name = some d) (object : d.body = .recipe recipe)
    (requests : ∀ other, Query.Gives (Store.Consistent known (name :: outer))
      (requestBy known (recordWithin known bound) other) (answer other))
    (consistent : store.Consistent known outer) (fresh : store.progressOf name = .fresh) :
    ∃ during, d.run recipe known (requestBy known (recordWithin known bound))
        (store.setProgress name .building) =
          (replayBy answer .empty (recipe.steps (d.surroundings known .empty)), during) ∧
      during.Consistent known (name :: outer) ∧
      ∀ recording, replayBy answer .empty (recipe.steps (d.surroundings known .empty)) =
          .ok recording →
        (during.setProgress name (.done recording)).Rebuilds known name recording := by
  let steps := recipe.steps (d.surroundings known .empty)
  obtain ⟨during, performed, held⟩ := performAll_gives requests .empty steps
    (store.mark name) (consistent.mark fresh)
  have same := (fixed name d recipe found object).steps_eq d known
    (store.setProgress name .building) .empty
  refine ⟨during, ?_, held, fun recording replayed => ?_⟩
  · unfold Definition.run
    rw [same, own name d found]
    exact performed
  · rw [replayed] at performed
    have plain := replay_of_performAll performed
    refine Store.Consistent.rebuilds_of_run own found object held plain ?_
    exact performAll_supplied (requestBy_grows (recordWithin_grows known bound))
      (fun _ _ _ met => requestBy_supplied own met) performed

/-- Recording the body of an object is building it without memory. -/
theorem recordWithin_gives (own : OwnNames known) (fixed : FixedRecipes known)
    (found : known.get? name = some d) (object : d.body = .recipe recipe)
    (nested : Nested known bound outer) :
    Query.Gives (Store.Consistent known outer) (d.recordWithin known bound recipe)
      (d.rebuild known bound outer recipe) := by
  induction bound generalizing name d recipe outer with
  | zero =>
      intro store consistent
      have called := own name d found
      have member := nested.mem_of_zero (Table.mem_keys_of_get? found)
      have building := (consistent.building_iff name).mpr member
      refine ⟨store, ?_, consistent⟩
      simp only [recordWithin, rebuild, called, building]
  | succ bound ih =>
      intro store consistent
      have called := own name d found
      cases progress : store.progressOf name with
      | done recording =>
          obtain ⟨_, _, found', object', again⟩ := consistent.rebuilds name recording progress
          cases found.symm.trans found'
          cases object.symm.trans object'
          refine ⟨store, ?_, consistent⟩
          rw [again (bound + 1) outer nested fun other => consistent.not_done]
          simp only [recordWithin, called, progress]
      | building =>
          have member := (consistent.building_iff name).mp progress
          refine ⟨store, ?_, consistent⟩
          simp only [recordWithin, rebuild, called, progress, if_pos member]
      | fresh =>
          have apart := consistent.apart progress
          have deeper := nested.cons apart (Table.mem_keys_of_get? found)
          obtain ⟨during, ran, held, rebuilds⟩ := run_gives own fixed found object
            (fun other => requestBy_gives other fun d recipe found object =>
              ih found object deeper) consistent progress
          rw [← called] at progress ran
          rw [recordWithin_fresh progress, ran]
          simp only [rebuild, called, if_neg apart]
          cases outcome : replayBy (answerBy known (rebuild known bound (name :: outer))) .empty
              (recipe.steps (d.surroundings known .empty)) with
          | error error => exact ⟨_, rfl, held.unmark apart .fresh (by simp) (by simp)⟩
          | ok recording =>
              refine ⟨_, rfl, held.unmark apart (.done recording) (by simp) ?_⟩
              rintro _ ⟨⟩
              exact rebuilds recording outcome

end Definition

end DistanceField
