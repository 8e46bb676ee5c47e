import DistanceField.Proofs.Order

/-! The walk over dependencies, one step after the other. The steps know of no bound on the depth
of the walk: that they come to an end, and to the same end as the bounded walk, is a consequence
of what holds at every moment. The names on the path are registered and distinct, and no name is
visited that has been visited before. -/

namespace DistanceField

/-- Where a walk stands. The dependencies that remain to be dealt with are kept for every name on
the path whose dependencies are known, the innermost first. -/
inductive Moment where
  /-- The name is about to be entered. -/
  | visiting (name : String) (walk : Walk) (pending : List (String × List String))
  /-- The name has been entered, and is about to be asked what it depends on. -/
  | asking (name : String) (walk : Walk) (pending : List (String × List String))
  | following (walk : Walk) (pending : List (String × List String))

namespace Moment

def walk : Moment → Walk
  | .visiting _ walk _ => walk
  | .asking _ walk _ => walk
  | .following walk _ => walk

def visited? : Moment → Option String
  | .visiting name _ _ => some name
  | _ => none

def asked? : Moment → Option String
  | .asking name _ _ => some name
  | _ => none

/-- One step of a walk. There is none when nothing remains to be done. -/
def step (registry : Registry) (known : Table Definition) : Moment → Query (Option Moment)
  | .visiting name walk pending => do
      discard (liftExcept (registry.lookup name))
      return some (.asking name (walk.enter name) pending)
  | .asking name walk pending => do
      let names ← registry.needs known name
      return some (.following walk ((name, names.names) :: pending))
  | .following _ [] => return none
  | .following walk ((name, []) :: pending) =>
      return some (.following (walk.leave name) pending)
  | .following walk ((name, other :: rest) :: pending) =>
      if other ∈ walk.path then
        throw (.cycle (walk.path.dropWhile (· != other) ++ [other]))
      else if other ∈ walk.visited then
        return some (.following walk ((name, rest) :: pending))
      else return some (.visiting other walk ((name, rest) :: pending))

end Moment

/-- The moments of a walk up to its end, and what it comes to. -/
inductive Traversal (registry : Registry) (known : Table Definition) :
    Moment → Store → List Moment → Except Error (List String) → Store → Prop
  | finished (last : moment.step registry known store = (.ok none, later)) :
      Traversal registry known moment store [moment] (.ok moment.walk.order) later
  | stopped (failed : moment.step registry known store = (.error error, later)) :
      Traversal registry known moment store [moment] (.error error) later
  | next (stepped : moment.step registry known store = (.ok (some after), middle))
      (onwards : Traversal registry known after middle moments outcome later) :
      Traversal registry known moment store (moment :: moments) outcome later

variable {registry : Registry} {known : Table Definition}

namespace Moment

/-- What a step can do, whatever builders run meanwhile. -/
inductive Leads (registry : Registry) : Moment → Moment → Prop
  | enter {walk : Walk} (listed : name ∈ registry.definitions.keys) :
      Leads registry (.visiting name walk pending) (.asking name (walk.enter name) pending)
  | answer {walk : Walk} : Leads registry (.asking name walk pending)
      (.following walk ((name, names) :: pending))
  | leave {walk : Walk} : Leads registry (.following walk ((name, []) :: pending))
      (.following (walk.leave name) pending)
  | pass {walk : Walk} : Leads registry (.following walk ((name, other :: rest) :: pending))
      (.following walk ((name, rest) :: pending))
  | descend {walk : Walk} (fresh : other ∉ walk.visited) :
      Leads registry (.following walk ((name, other :: rest) :: pending))
        (.visiting other walk ((name, rest) :: pending))

variable {walk : Walk}

theorem step_visiting (found : registry.lookup name = .ok d) (store : Store) :
    (visiting name walk pending).step registry known store =
      (.ok (some (.asking name (walk.enter name) pending)), store) := by
  simp only [step, found]
  rfl

theorem step_unknown (missing : registry.lookup name = .error error) (store : Store) :
    (visiting name walk pending).step registry known store = (.error error, store) := by
  simp only [step, missing]
  rfl

theorem step_asking (answer : registry.needs known name store = (.ok names, later)) :
    (asking name walk pending).step registry known store =
      (.ok (some (.following walk ((name, names.names) :: pending))), later) :=
  Query.bind_of_ok answer

theorem step_refused (refused : registry.needs known name store = (.error error, later)) :
    (asking name walk pending).step registry known store = (.error error, later) :=
  Query.bind_of_error refused

theorem leads_of_step {moment after : Moment}
    (stepped : moment.step registry known store = (.ok (some after), later)) :
    moment.Leads registry after := by
  cases moment with
  | visiting name walk pending =>
      cases found : registry.lookup name with
      | error error =>
          rw [step_unknown found] at stepped
          cases stepped
      | ok d =>
          rw [step_visiting found] at stepped
          cases stepped
          exact .enter (Table.mem_keys_of_get? (Registry.lookup_ok found))
  | asking name walk pending =>
      obtain ⟨names, middle, _, finish⟩ := Query.bind_ok stepped
      cases finish
      exact .answer
  | following walk pending =>
      match pending with
      | [] => cases stepped
      | (name, []) :: outer =>
          cases stepped
          exact .leave
      | (name, other :: rest) :: outer =>
          simp only [step] at stepped
          split at stepped
          · cases stepped
          · split at stepped
            · cases stepped
              exact .pass
            · next fresh =>
                cases stepped
                exact .descend fresh

/-- The names that are being dealt with, the outermost first. -/
def owners : Moment → List String
  | .visiting _ _ pending => (pending.map Prod.fst).reverse
  | .asking name _ pending => (pending.map Prod.fst).reverse ++ [name]
  | .following _ pending => (pending.map Prod.fst).reverse

/-- The path lists the names that are being dealt with. They are distinct and registered, the
names visited are those on the path and those in the order, and a name that is about to be entered
has not been visited. -/
structure Sound (registry : Registry) (moment : Moment) : Prop where
  path_eq : moment.walk.path = moment.owners
  distinct : moment.walk.path.Nodup
  listed : ∀ name ∈ moment.walk.path, name ∈ registry.definitions.keys
  visited_iff : ∀ name, name ∈ moment.walk.visited ↔
    name ∈ moment.walk.path ∨ name ∈ moment.walk.order
  fresh : ∀ name, moment.visited? = some name → name ∉ moment.walk.visited

theorem start_sound (registry : Registry) (root : String) :
    (visiting root .empty []).Sound registry where
  path_eq := rfl
  distinct := .nil
  listed := nofun
  visited_iff := by simp [walk, Walk.empty]
  fresh := fun _ _ => List.not_mem_nil

theorem fresh_of_none {moment : Moment} (none : moment.visited? = .none) :
    ∀ name, moment.visited? = some name → name ∉ moment.walk.visited :=
  fun _ visit => absurd (none.symm.trans visit) (Option.some_ne_none _).symm

theorem Sound.leads {moment after : Moment} (sound : moment.Sound registry)
    (leads : moment.Leads registry after) : after.Sound registry := by
  obtain ⟨path_eq, distinct, listed, visited_iff, fresh⟩ := sound
  cases leads with
  | @enter name pending walk registered =>
      have outside : name ∉ walk.path := fun onPath =>
        fresh name rfl ((visited_iff name).mpr (.inl onPath))
      refine ⟨congrArg (· ++ [name]) path_eq, ?_, ?_, Walk.enter_visited_iff visited_iff,
        fresh_of_none rfl⟩
      · exact List.nodup_append_comm.mp (List.nodup_cons.mpr ⟨outside, distinct⟩)
      · exact List.forall_mem_append.mpr ⟨listed, List.forall_mem_singleton.mpr registered⟩
  | answer =>
      exact ⟨path_eq.trans List.reverse_cons.symm, distinct, listed, visited_iff,
        fresh_of_none rfl⟩
  | @leave name pending walk =>
      have split : walk.path = (pending.map Prod.fst).reverse ++ [name] :=
        path_eq.trans List.reverse_cons
      have shorter : walk.path.dropLast = (pending.map Prod.fst).reverse := by
        rw [split, List.dropLast_concat]
      exact ⟨shorter, distinct.sublist (List.dropLast_sublist _),
        fun other onPath => listed other (List.dropLast_subset _ onPath),
        Walk.leave_visited_iff split visited_iff, fresh_of_none rfl⟩
  | pass => exact ⟨path_eq, distinct, listed, visited_iff, fresh_of_none rfl⟩
  | descend unvisited =>
      refine ⟨path_eq, distinct, listed, visited_iff, fun name visit => ?_⟩
      cases visit
      exact unvisited

/-- A name that has been visited stays so, and a name that is visited becomes so. -/
theorem Leads.visited {moment after : Moment} (leads : moment.Leads registry after)
    (before : moment.visited? = some name ∨ name ∈ moment.walk.visited) :
    name ∈ after.walk.visited := by
  cases leads with
  | enter =>
      rcases before with same | earlier
      · cases same
        exact List.mem_cons_self
      · exact List.mem_cons_of_mem _ earlier
  | answer | leave | pass | descend => exact before.resolve_left nofun

theorem Sound.path_length_le {moment : Moment} (sound : moment.Sound registry) :
    moment.walk.path.length ≤ registry.definitions.size := by
  rw [← Table.length_keys]
  exact (List.subperm_of_subset sound.distinct sound.listed).length_le

theorem Sound.visits_cons {moment : Moment} {rest : List Moment} (sound : moment.Sound registry)
    (distinct : (rest.filterMap visited?).Nodup)
    (fresh : ∀ name ∈ rest.filterMap visited?,
      ¬ (moment.visited? = some name ∨ name ∈ moment.walk.visited)) :
    ((moment :: rest).filterMap visited?).Nodup ∧
      ∀ name ∈ (moment :: rest).filterMap visited?, name ∉ moment.walk.visited := by
  have earlier : ∀ name ∈ rest.filterMap visited?, name ∉ moment.walk.visited :=
    fun name again before => fresh name again (.inr before)
  cases visit : moment.visited? with
  | none =>
      rw [List.filterMap_cons_none visit]
      exact ⟨distinct, earlier⟩
  | some name =>
      rw [List.filterMap_cons_some visit]
      exact ⟨List.nodup_cons.mpr ⟨fun again => fresh name again (.inl visit), distinct⟩,
        List.forall_mem_cons.mpr ⟨sound.fresh name visit, earlier⟩⟩

theorem asks_singleton (moment : Moment) :
    ([moment].filterMap asked?).Sublist (moment.asked?.toList ++ [moment].filterMap visited?) := by
  cases moment with
  | visiting name walk pending => exact List.nil_sublist [name]
  | asking name walk pending => exact .refl [name]
  | following walk pending => exact .refl []

end Moment

namespace Traversal

variable {moment : Moment} {moments : List Moment}

theorem unique (one : Traversal registry known moment store moments outcome later)
    (two : Traversal registry known moment store others result last) :
    others = moments ∧ (outcome, later) = (result, last) := by
  induction one generalizing others result last with
  | finished step =>
      cases two with
      | finished step' =>
          cases step.symm.trans step'
          exact ⟨rfl, rfl⟩
      | stopped step' | next step' => cases step.symm.trans step'
  | stopped step =>
      cases two with
      | stopped step' =>
          cases step.symm.trans step'
          exact ⟨rfl, rfl⟩
      | finished step' | next step' => cases step.symm.trans step'
  | next step onwards ih =>
      cases two with
      | finished step' | stopped step' => cases step.symm.trans step'
      | next step' onwards' =>
          cases step.symm.trans step'
          obtain ⟨rfl, same⟩ := ih onwards'
          exact ⟨rfl, same⟩

theorem sound (run : Traversal registry known start store moments outcome later)
    (sound : start.Sound registry) : ∀ moment ∈ moments, moment.Sound registry := by
  induction run with
  | finished | stopped => exact List.forall_mem_singleton.mpr sound
  | next step _ ih =>
      exact List.forall_mem_cons.mpr ⟨sound, ih (sound.leads (Moment.leads_of_step step))⟩

/-- No name is visited twice, and none that had been visited before. -/
theorem visits_distinct (run : Traversal registry known start store moments outcome later)
    (sound : start.Sound registry) :
    (moments.filterMap Moment.visited?).Nodup ∧
      ∀ name ∈ moments.filterMap Moment.visited?, name ∉ start.walk.visited := by
  induction run with
  | finished | stopped => exact sound.visits_cons .nil nofun
  | next step _ ih =>
      have leads := Moment.leads_of_step step
      obtain ⟨distinct, fresh⟩ := ih (sound.leads leads)
      refine sound.visits_cons distinct fun name again before => ?_
      exact fresh name again (leads.visited before)

/-- A name is asked for its dependencies only when it has just been visited. -/
theorem asks_sublist (run : Traversal registry known start store moments outcome later) :
    (moments.filterMap Moment.asked?).Sublist
      (start.asked?.toList ++ moments.filterMap Moment.visited?) := by
  induction run with
  | finished | stopped => exact Moment.asks_singleton _
  | next step _ ih =>
      cases Moment.leads_of_step step with
      | enter => exact ih
      | answer => exact ih.cons_cons _
      | leave | pass | descend => exact ih

end Traversal

/-- One step of a walk and of the store. -/
def Goes (registry : Registry) (known : Table Definition) (here there : Moment × Store) : Prop :=
  here.1.step registry known here.2 = (.ok (some there.1), there.2)

/-- Steps lead from the first pair to the second. -/
abbrev GoesTo (registry : Registry) (known : Table Definition) :
    Moment × Store → Moment × Store → Prop :=
  Relation.ReflTransGen (Goes registry known)

namespace Goes

variable {walk : Walk}

theorem enter (found : registry.lookup name = .ok d) : Goes registry known
    (.visiting name walk pending, store) (.asking name (walk.enter name) pending, store) :=
  Moment.step_visiting found store

theorem answer (answered : registry.needs known name store = (.ok names, later)) :
    Goes registry known (.asking name walk pending, store)
      (.following walk ((name, names.names) :: pending), later) :=
  Moment.step_asking answered

theorem pass (offPath : other ∉ walk.path) (visited : other ∈ walk.visited) :
    Goes registry known (.following walk ((name, other :: rest) :: pending), store)
      (.following walk ((name, rest) :: pending), store) := by
  simp only [Goes, Moment.step, if_neg offPath, if_pos visited]
  rfl

theorem descend (offPath : other ∉ walk.path) (fresh : other ∉ walk.visited) :
    Goes registry known (.following walk ((name, other :: rest) :: pending), store)
      (.visiting other walk ((name, rest) :: pending), store) := by
  simp only [Goes, Moment.step, if_neg offPath, if_neg fresh]
  rfl

end Goes

theorem Moment.Sound.goesTo {here there : Moment × Store} (sound : here.1.Sound registry)
    (goes : GoesTo registry known here there) : there.1.Sound registry := by
  induction goes with
  | refl => exact sound
  | tail _ step ih => exact ih.leads (Moment.leads_of_step step)

theorem Traversal.of_goesTo {here there : Moment × Store} (goes : GoesTo registry known here there)
    (run : Traversal registry known there.1 there.2 moments outcome later) :
    ∃ moments, Traversal registry known here.1 here.2 moments outcome later := by
  induction goes using Relation.ReflTransGen.head_induction_on with
  | refl => exact ⟨moments, run⟩
  | head step _ ih =>
      obtain ⟨rest, onwards⟩ := ih
      exact ⟨_, .next step onwards⟩

/-- Wherever the steps have come to, they go on to the one end of the walk. -/
theorem Traversal.rest {here there : Moment × Store} (goes : GoesTo registry known here there)
    (run : Traversal registry known here.1 here.2 moments outcome later) :
    ∃ moments, Traversal registry known there.1 there.2 moments outcome later := by
  induction goes with
  | refl => exact ⟨moments, run⟩
  | tail _ step ih =>
      obtain ⟨_, onwards⟩ := ih
      cases onwards with
      | finished step' | stopped step' => cases step.symm.trans step'
      | next step' onwards =>
          cases step.symm.trans step'
          exact ⟨_, onwards⟩

theorem Moment.step_grows (registry : Registry) (known : Table Definition) (moment : Moment) :
    Query.Grows (moment.step registry known) := by
  have closed := Query.Grows.closed
  cases moment with
  | visiting name walk pending =>
      exact closed.bind (closed.bind (closed.lift _) fun _ => closed.pure _) fun _ =>
        closed.pure _
  | asking name walk pending =>
      exact closed.bind (registry.needs_grows known name) fun _ => closed.pure _
  | following walk pending =>
      match pending with
      | [] | (_, []) :: _ => exact closed.pure _
      | (name, other :: rest) :: outer =>
          simp only [step]
          split
          · exact closed.throw _
          · split <;> exact closed.pure _

theorem Traversal.grows (run : Traversal registry known moment store moments outcome later) :
    store.Grows later := by
  induction run with
  | finished step | stopped step => exact (Moment.step_grows registry known _).ok step
  | next step _ ih => exact ((Moment.step_grows registry known _).ok step).trans ih

/-- Steps lead to where the given outcome says: back to what was pending, with another walk, or
to a step that fails. -/
def Arrives (registry : Registry) (known : Table Definition) (here : Moment × Store)
    (pending : List (String × List String)) : Except Error Walk × Store → Prop
  | (.ok walk, later) => GoesTo registry known here (.following walk pending, later)
  | (.error error, later) => ∃ last, GoesTo registry known here last ∧
      last.1.step registry known last.2 = (.error error, later)

namespace Arrives

variable {here there : Moment × Store}

theorem after (goes : GoesTo registry known here there)
    (arrives : Arrives registry known there pending result) :
    Arrives registry known here pending result := by
  rcases result with ⟨error | walk, later⟩
  · obtain ⟨last, onwards, failed⟩ := arrives
    exact ⟨last, goes.trans onwards, failed⟩
  · exact goes.trans arrives

theorem bind {query : Query Walk} {next : Walk → Query Walk}
    (first : Arrives registry known here between (query store))
    (second : ∀ walk middle, GoesTo registry known here (.following walk between, middle) →
      Arrives registry known (.following walk between, middle) pending (next walk middle)) :
    Arrives registry known here pending ((query >>= next) store) := by
  rcases answer : query store with ⟨error | walk, middle⟩
  · rw [answer] at first
    rw [Query.bind_of_error answer]
    exact first
  · rw [answer] at first
    rw [Query.bind_of_ok answer]
    exact after first (second walk middle first)

/-- With nothing pending the walk is over. -/
theorem traversal {query : Query Walk} (arrives : Arrives registry known here [] (query store))
    (ordered : (query >>= fun walk => pure walk.order) store = (outcome, later)) :
    ∃ moments, Traversal registry known here.1 here.2 moments outcome later := by
  rcases answer : query store with ⟨error | walk, last⟩
  · rw [answer] at arrives
    cases (Query.bind_of_error answer).symm.trans ordered
    obtain ⟨last, goes, failed⟩ := arrives
    exact Traversal.of_goesTo goes (.stopped failed)
  · rw [answer] at arrives
    cases (Query.bind_of_ok answer).symm.trans ordered
    exact Traversal.of_goesTo arrives (.finished rfl)

end Arrives

/-- The steps follow the dependencies one by one, if they visit each as the recursion does. -/
theorem visitAll_arrives {visit : String → Walk → Query Walk} {walk : Walk}
    (visits : ∀ other rest walk store,
      (Moment.visiting other walk ((name, rest) :: pending)).Sound registry →
      Arrives registry known (.visiting other walk ((name, rest) :: pending), store)
        ((name, rest) :: pending) (visit other walk store))
    (sound : (Moment.following walk ((name, names) :: pending)).Sound registry) (store : Store) :
    Arrives registry known (.following walk ((name, names) :: pending), store)
      ((name, []) :: pending) (visitAll visit names walk store) := by
  induction names generalizing walk store with
  | nil => exact .refl
  | cons other rest ih =>
      by_cases onPath : other ∈ walk.path
      · simp only [visitAll, if_pos onPath]
        exact ⟨_, .refl, by simp only [Moment.step, if_pos onPath]; rfl⟩
      · by_cases visited : other ∈ walk.visited
        · simp only [visitAll, if_neg onPath, if_pos visited]
          exact .after (.single (.pass onPath visited)) (ih (sound.leads .pass) store)
        · have entered := sound.leads (.descend visited)
          simp only [visitAll, if_neg onPath, if_neg visited]
          refine .after (.single (.descend onPath visited)) ?_
          refine (visits other rest walk store entered).bind ?_
          intro next middle goes
          exact ih (entered.goesTo goes) middle

/-- One level deeper the path is longer by one. -/
theorem Moment.Sound.room_deeper {walk later : Walk}
    (sound : (Moment.visiting name walk pending).Sound registry)
    (deeper : (Moment.visiting other later ((name, rest) :: pending)).Sound registry)
    (room : registry.definitions.size < bound + 1 + walk.path.length) :
    registry.definitions.size < bound + later.path.length := by
  have outer : walk.path = (pending.map Prod.fst).reverse := sound.path_eq
  have inner : later.path = (pending.map Prod.fst).reverse ++ [name] :=
    deeper.path_eq.trans List.reverse_cons
  rw [inner, List.length_append, List.length_singleton, ← outer]
  omega

/-- The steps visit a name as the recursion does, as long as its bound leaves room for the names
that are registered. -/
theorem visitWithin_arrives (bound : Nat) {walk : Walk}
    (sound : (Moment.visiting name walk pending).Sound registry)
    (room : registry.definitions.size < bound + walk.path.length) (store : Store) :
    Arrives registry known (.visiting name walk pending, store) pending
      (visitWithin (registry.needs known) bound name walk store) := by
  induction bound generalizing name walk pending store with
  | zero =>
      -- The names on the path are distinct and registered, so the bound is not met.
      have short := sound.path_length_le
      simp only [Moment.walk] at short
      omega
  | succ bound ih =>
      cases found : registry.lookup name with
      | error error =>
          rw [visitWithin, Query.bind_of_error (Registry.needs_unknown found store)]
          exact ⟨_, .refl, Moment.step_unknown found store⟩
      | ok d =>
          have entering : Goes registry known (.visiting name walk pending, store)
              (.asking name (walk.enter name) pending, store) := .enter found
          have entered := sound.leads (Moment.leads_of_step entering)
          refine .after (.single entering) ?_
          rcases answer : registry.needs known name store with ⟨error | names, middle⟩
          · rw [visitWithin, Query.bind_of_error answer]
            exact ⟨_, .refl, Moment.step_refused answer⟩
          · have answering : Goes registry known (.asking name (walk.enter name) pending, store)
                (.following (walk.enter name) ((name, names.names) :: pending), middle) :=
              .answer answer
            have visits : ∀ other rest later store,
                (Moment.visiting other later ((name, rest) :: pending)).Sound registry →
                Arrives registry known (.visiting other later ((name, rest) :: pending), store)
                  ((name, rest) :: pending)
                  (visitWithin (registry.needs known) bound other later store) := by
              intro other rest later store deeper
              exact ih deeper (sound.room_deeper deeper room) store
            have answered := entered.leads (Moment.leads_of_step answering)
            have followed := visitAll_arrives visits answered middle
            rw [visitWithin, Query.bind_of_ok answer]
            exact .after (.single answering) (followed.bind fun _ _ _ => .single rfl)

namespace Registry

/-- The steps from a root come to the end that the recursion finds. -/
theorem orderFrom_traversal
    (ordered : registry.orderFrom known root store = (outcome, later)) :
    ∃ moments, Traversal registry known (.visiting root .empty []) store moments outcome later := by
  have room : registry.definitions.size < registry.definitions.size + 1 + Walk.empty.path.length :=
    Nat.lt_succ_self _
  exact (visitWithin_arrives _ (Moment.start_sound registry root) room store).traversal ordered

/-- Whatever a registry holds, the walk from a root comes to its one end without a bound on its
depth, and the order that is found is what it comes to. At every moment the names on the path are
distinct, and those that have been visited are the ones on the path and the ones in the order. No
name is visited twice, so that none is asked twice what it depends on. -/
theorem orderFrom_ends (registry : Registry) (known : Table Definition) (root : String)
    (store : Store) :
    ∃ moments,
      (∀ others outcome later,
        Traversal registry known (.visiting root .empty []) store others outcome later ↔
          others = moments ∧ registry.orderFrom known root store = (outcome, later)) ∧
      (∀ moment ∈ moments, moment.walk.path.Nodup ∧
        (∀ name ∈ moment.walk.path, name ∈ moment.walk.visited) ∧
        ∀ name, name ∈ moment.walk.visited ↔
          name ∈ moment.walk.path ∨ name ∈ moment.walk.order) ∧
      (moments.filterMap Moment.visited?).Nodup ∧
      (moments.filterMap Moment.asked?).Nodup := by
  have sound := Moment.start_sound registry root
  rcases ordered : registry.orderFrom known root store with ⟨result, last⟩
  obtain ⟨moments, run⟩ := orderFrom_traversal ordered
  have distinct := (run.visits_distinct sound).1
  refine ⟨moments, fun others outcome later => ⟨run.unique, ?_⟩, fun moment member => ?_, distinct,
    distinct.sublist run.asks_sublist⟩
  · rintro ⟨rfl, same⟩
    cases same
    exact run
  · have here := run.sound sound moment member
    exact ⟨here.distinct, fun name onPath => (here.visited_iff name).mpr (.inl onPath),
      here.visited_iff⟩

end Registry

end DistanceField
