import DistanceField.Gallery
import DistanceField.Proofs.DepthFirst
import DistanceField.Proofs.Growth

/-! The order of definitions. Dependencies are found while the walk is under way, some by
running builders; once found they are reported for ever, so that a walk that succeeds is
a walk over what is reported when it is over. -/

namespace DistanceField

namespace Registry

/-- What a name is reported to depend on when it is asked for with the given store. -/
def reported (registry : Registry) (known : Table Definition) (store : Store)
    (name : String) : Except Error NameSet :=
  (registry.needs known name store).1

variable {registry : Registry} {known : Table Definition}

theorem lookup_ok (found : registry.lookup name = .ok d) :
    registry.definitions.get? name = some d := by
  unfold lookup at found
  split at found
  · next same => rw [same, Except.ok.inj found]
  · cases found

theorem needs_eq (found : registry.lookup name = .ok d) :
    registry.needs known name = d.dependencies known := by
  funext store
  unfold needs
  rw [found]
  exact Query.bind_of_ok (Query.lift_apply _ _)

theorem needs_unknown (missing : registry.lookup name = .error error) (store : Store) :
    registry.needs known name store = (.error error, store) := by
  unfold needs
  rw [missing]
  exact Query.bind_of_error (Query.lift_apply _ _)

theorem reported_listed (answer : registry.reported known store name = .ok needed) :
    name ∈ registry.definitions.keys := by
  cases found : registry.lookup name with
  | error error =>
      rw [reported, needs_unknown found] at answer
      cases answer
  | ok d => exact Table.mem_keys_of_get? (lookup_ok found)

end Registry

namespace Definition

variable {known : Table Definition} {d : Definition}

theorem dependencies_again (answer : d.dependencies known store = (.ok names, later))
    (kept : later.Keeps d.name last) : d.dependencies other last = (.ok names, last) := by
  cases body : d.body with
  | template text =>
      simp only [dependencies, dependenciesBy, body] at answer ⊢
      cases answer
      rfl
  | recipe recipe =>
      simp only [dependencies, dependenciesBy, body] at answer ⊢
      obtain ⟨recording, middle, recorded, finish⟩ := Query.bind_ok answer
      cases finish
      rw [Query.bind_of_ok (record_again recorded kept)]
      rfl

end Definition

namespace Registry

variable {registry : Registry} {known : Table Definition}

theorem needs_grows (registry : Registry) (known : Table Definition) (name : String) :
    Query.Grows (registry.needs known name) :=
  Query.Grows.closed.needs (fun _ d recipe _ _ => d.record_grows known recipe) name

theorem needs_again (answer : registry.needs known name store = (.ok needed, later))
    (grows : later.Grows last) : registry.reported known last name = .ok needed := by
  cases found : registry.lookup name with
  | error error =>
      rw [needs_unknown found] at answer
      cases answer
  | ok d =>
      rw [needs_eq found] at answer
      rw [reported, needs_eq found, d.dependencies_again answer (grows.keeps d.name)]

end Registry

section

variable {visit : String → Walk → Query Walk} {fixed : String → Walk → Except Error Walk}

theorem visitAll_again (grows : ∀ name walk, Query.Grows (visit name walk))
    (again : ∀ name walk store next middle, visit name walk store = (.ok next, middle) →
      middle.Grows last → fixed name walk = .ok next)
    (done : visitAll visit names walk store = (.ok result, later))
    (onwards : later.Grows last) : visitAll fixed names walk = .ok result := by
  induction names generalizing walk store with
  | nil =>
      cases done
      rfl
  | cons name rest ih =>
      simp only [visitAll] at done ⊢
      split at done
      · cases done
      · next offPath =>
          rw [if_neg offPath]
          split at done
          · next visited =>
              rw [if_pos visited]
              exact ih done
          · next unvisited =>
              rw [if_neg unvisited]
              obtain ⟨next, middle, first, remaining⟩ := Query.bind_ok done
              have between := (Query.Grows.closed.visitAll grows rest next).ok remaining
              rw [again name walk store next middle first (between.trans onwards)]
              exact ih remaining

end

section

variable {needs : String → Query NameSet} {reported : String → Except Error NameSet}

theorem visitWithin_again (grows : ∀ name, Query.Grows (needs name))
    (again : ∀ name store names later, needs name store = (.ok names, later) →
      later.Grows last → reported name = .ok names)
    (done : visitWithin needs bound name walk store = (.ok result, later))
    (onwards : later.Grows last) : visitWithin reported bound name walk = .ok result := by
  induction bound generalizing name walk store result later with
  | zero => cases done
  | succ bound ih =>
      obtain ⟨names, middle, answer, remaining⟩ := Query.bind_ok done
      obtain ⟨next, after, followed, finish⟩ := Query.bind_ok remaining
      cases finish
      have visits := Query.Grows.closed.visitWithin grows bound
      have between := (Query.Grows.closed.visitAll visits _ _).ok followed
      have answered := again name store names middle answer (between.trans onwards)
      have walked : visitAll (visitWithin reported bound) names.names (walk.enter name) =
          .ok next :=
        visitAll_again visits (fun _ _ _ _ _ visited further => ih visited further) followed
          onwards
      rw [visitWithin_succ answered, walked]
      rfl

end

namespace Registry

variable {registry : Registry} {known : Table Definition}

theorem walk_of_orderFrom
    (ordered : registry.orderFrom known root store = (.ok order, later))
    (onwards : later.Grows last) :
    ∃ walk, visitWithin (registry.reported known last) (registry.definitions.size + 1) root
        .empty = .ok walk ∧ walk.order = order := by
  obtain ⟨walk, middle, visited, finish⟩ := Query.bind_ok ordered
  cases finish
  exact ⟨walk, visitWithin_again (registry.needs_grows known)
    (fun _ _ _ _ answer further => needs_again answer further) visited onwards, rfl⟩

/-- A walk over what is reported gives the order of everything that the root needs, or a
reason why there is none. -/
theorem walk_outcome (registry : Registry) (known : Table Definition) (store : Store)
    (root : String) :
    match visitWithin (registry.reported known store) (registry.definitions.size + 1) root
        .empty with
    | .ok walk => Topological (registry.reported known store) root walk.order
    | .error error => Stops (registry.reported known store) root error := by
  have listed : ∀ name needed, registry.reported known store name = .ok needed →
      name ∈ registry.definitions.keys := fun _ _ answer => reported_listed answer
  exact visitWithin_root root listed (by simp)

theorem topological_of_orderFrom
    (ordered : registry.orderFrom known root store = (.ok order, later))
    (onwards : later.Grows last) : Topological (registry.reported known last) root order := by
  obtain ⟨walk, walked, rfl⟩ := walk_of_orderFrom ordered onwards
  have outcome := registry.walk_outcome known last root
  rw [walked] at outcome
  exact outcome

/-- An order that has been found lists the names that the root reaches along the
dependencies reported afterwards, each once and after what it depends on, the root
last. -/
theorem orderFrom_topological
    (ordered : registry.orderFrom known root store = (.ok order, later)) :
    order.Nodup ∧ order.getLast? = some root ∧
      (∀ name, name ∈ order ↔ Reaches (registry.reported known later) root name) ∧
      ∀ before name after, order = before ++ name :: after →
        ∃ needed, registry.reported known later name = .ok needed ∧
          ∀ other ∈ needed, other ∈ before := by
  have topological := topological_of_orderFrom ordered (.refl later)
  exact ⟨topological.distinct, topological.last, topological.mem_iff, topological.ordered⟩

/-- Two objects that share a shape, within a third one. -/
def diamond : Registry :=
  let shape (name : String) (kind : ShapeKind) : BuildStep :=
    .accumulate ⟨"Union", .combinator⟩ [.call (.shape name kind [] none none)]
  let definitions :=
    [Shapes.combinator "Union" [] ["return min(d1, d2);"],
      Shapes.primitive "Plane" [] ["return p.y;"],
      Gallery.object "Left" [shape "Plane" .primitive],
      Gallery.object "Right" [shape "Plane" .primitive],
      Gallery.object "Scene" [shape "Right" .object, shape "Left" .object]]
  ⟨(∅ : Table Definition).setAll (definitions.map fun d => (d.name, d)), false⟩

theorem diamond_order :
    ∃ later, diamond.orderFrom diamond.definitions "Scene" .empty =
        (.ok ["Plane", "Union", "Left", "Right", "Scene"], later) ∧
      ∀ name, name ∈ ["Plane", "Union", "Left", "Right", "Scene"] ↔
        Reaches (diamond.reported diamond.definitions later) "Scene" name := by
  have found : (diamond.orderFrom diamond.definitions "Scene" .empty).1 =
      .ok ["Plane", "Union", "Left", "Right", "Scene"] := by decide +kernel
  have ordered : diamond.orderFrom diamond.definitions "Scene" .empty =
      (.ok ["Plane", "Union", "Left", "Right", "Scene"],
        (diamond.orderFrom diamond.definitions "Scene" .empty).2) := Prod.ext found rfl
  exact ⟨_, ordered, (orderFrom_topological ordered).2.2.1⟩

end Registry

end DistanceField
