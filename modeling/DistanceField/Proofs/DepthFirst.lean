import DistanceField.Order
import Mathlib.Data.List.Chain
import Mathlib.Data.List.Nodup
import Mathlib.Data.List.Perm.Subperm
import Mathlib.Logic.Relation

/-! The depth-first walk over needs that do not change. A finished name has everything
it needs before it, a visited name that is not finished is on the path, and the path is
a chain of needs; whatever stops the walk is therefore a name without an answer or a
true cycle. -/

namespace DistanceField

/-- The first name needs the second one directly. -/
def DirectNeed (needs : String → Except Error NameSet) (name other : String) : Prop :=
  ∃ names, needs name = .ok names ∧ other ∈ names

/-- The first name is the second one, or needs it directly or through others. -/
abbrev Reaches (needs : String → Except Error NameSet) : String → String → Prop :=
  Relation.ReflTransGen (DirectNeed needs)

/-- A closed chain of needs, the first name repeated at the end, through distinct names
that the root reaches. -/
structure ClosedWalk (needs : String → Except Error NameSet) (root first : String)
    (rest : List String) : Prop where
  distinct : (first :: rest).Nodup
  reached : ∀ name ∈ first :: rest, Reaches needs root name
  linked : (first :: rest ++ [first]).IsChain (DirectNeed needs)

/-- Why a walk from the root may stop. -/
def Stops (needs : String → Except Error NameSet) (root : String) (error : Error) : Prop :=
  (∃ name, Reaches needs root name ∧ needs name = .error error) ∨
    ∃ first rest, error = .cycle (first :: rest ++ [first]) ∧ ClosedWalk needs root first rest

/-- Every name of the list has an answer, and all its needs stand before it. -/
def NeedsFirst (needs : String → Except Error NameSet) (order : List String) : Prop :=
  ∀ before name after, order = before ++ name :: after →
    ∃ names, needs name = .ok names ∧ ∀ other ∈ names, other ∈ before

structure Walk.Sound (needs : String → Except Error NameSet) (root : String)
    (walk : Walk) : Prop where
  visited_iff : ∀ name, name ∈ walk.visited ↔ name ∈ walk.path ∨ name ∈ walk.order
  distinct : (walk.path ++ walk.order).Nodup
  answered : ∀ name ∈ walk.path, ∃ names, needs name = .ok names
  linked : walk.path.IsChain (DirectNeed needs)
  reached : ∀ name ∈ walk.visited, Reaches needs root name
  ordered : NeedsFirst needs walk.order

/-- What is known after the given names have been dealt with. -/
def Walk.Advances (needs : String → Except Error NameSet) (root : String) (walk : Walk)
    (targets : List String) : Except Error Walk → Prop
  | .ok later => later.Sound needs root ∧ later.path = walk.path ∧
      walk.order ⊆ later.order ∧ ∀ name ∈ targets, name ∈ later.order
  | .error error => Stops needs root error

variable {needs : String → Except Error NameSet} {root : String} {walk later : Walk}

theorem Walk.enter_visited_iff
    (visited_iff : ∀ other, other ∈ walk.visited ↔ other ∈ walk.path ∨ other ∈ walk.order)
    (other : String) : other ∈ (walk.enter name).visited ↔
      other ∈ (walk.enter name).path ∨ other ∈ (walk.enter name).order := by
  simp only [Walk.enter, List.mem_cons, visited_iff, List.mem_append, List.not_mem_nil, or_false]
  tauto

theorem Walk.leave_visited_iff (path : walk.path = outer ++ [name])
    (visited_iff : ∀ other, other ∈ walk.visited ↔ other ∈ walk.path ∨ other ∈ walk.order)
    (other : String) : other ∈ (walk.leave name).visited ↔
      other ∈ (walk.leave name).path ∨ other ∈ (walk.leave name).order := by
  simp only [Walk.leave, visited_iff, path, List.dropLast_concat, List.mem_append,
    List.mem_singleton]
  tauto

theorem Walk.empty_sound : Walk.empty.Sound needs root where
  visited_iff := by simp [Walk.empty]
  distinct := .nil
  answered := by simp [Walk.empty]
  linked := .nil
  reached := by simp [Walk.empty]
  ordered := by simp [NeedsFirst, Walk.empty]

namespace Walk.Sound

theorem path_distinct (sound : walk.Sound needs root) : walk.path.Nodup :=
  sound.distinct.of_append_left

theorem enter (sound : walk.Sound needs root) (fresh : name ∉ walk.visited)
    (answer : needs name = .ok names) (reached : Reaches needs root name)
    (linked : (walk.path ++ [name]).IsChain (DirectNeed needs)) :
    (walk.enter name).Sound needs root where
  visited_iff := Walk.enter_visited_iff sound.visited_iff
  distinct := by
    have outside := mt (sound.visited_iff name).mpr fresh
    have apart : ∀ other ∈ walk.path ++ walk.order, name ≠ other := by
      rintro other member rfl
      exact outside (List.mem_append.mp member)
    have extended : (name :: (walk.path ++ walk.order)).Nodup :=
      List.nodup_cons.mpr ⟨fun member => apart name member rfl, sound.distinct⟩
    simp only [Walk.enter, List.append_assoc, List.singleton_append]
    exact List.perm_middle.nodup_iff.mpr extended
  answered := by
    intro other member
    rcases List.mem_append.mp member with earlier | last
    · exact sound.answered other earlier
    · obtain rfl := List.mem_singleton.mp last
      exact ⟨names, answer⟩
  linked := linked
  reached := by
    intro other member
    rcases List.mem_cons.mp member with rfl | earlier
    · exact reached
    · exact sound.reached other earlier
  ordered := sound.ordered

theorem leave (sound : walk.Sound needs root) (path : walk.path = outer ++ [name])
    (answer : needs name = .ok names) (finished : ∀ other ∈ names, other ∈ walk.order) :
    (walk.leave name).Sound needs root where
  visited_iff := Walk.leave_visited_iff path sound.visited_iff
  distinct := by
    have distinct := sound.distinct
    rw [path, List.append_assoc, List.singleton_append] at distinct
    simp only [Walk.leave, path, List.dropLast_concat]
    have moved : (outer ++ (walk.order ++ [name])).Perm (outer ++ name :: walk.order) :=
      .append_left outer (List.perm_append_singleton name walk.order)
    exact moved.nodup_iff.mpr distinct
  answered := fun other member => sound.answered other (List.dropLast_subset _ member)
  linked := sound.linked.dropLast
  reached := sound.reached
  ordered := by
    intro before last after split
    rcases List.eq_nil_or_concat after with rfl | ⟨middle, final, rfl⟩
    · -- The name that leaves is the last one, and everything before it is finished.
      obtain ⟨rfl, same⟩ := List.append_inj' split rfl
      obtain rfl := (List.cons.inj same).1
      exact ⟨names, answer, finished⟩
    · have shorter : walk.order ++ [name] = (before ++ last :: middle) ++ [final] := by
        simpa [Walk.leave] using split
      exact sound.ordered before last middle (List.append_inj' shorter rfl).1

theorem linked_next (sound : walk.Sound needs root) (path : walk.path = outer ++ [owner])
    (need : DirectNeed needs owner name) :
    (walk.path ++ [name]).IsChain (DirectNeed needs) := by
  have linked := sound.linked
  rw [path] at linked ⊢
  rw [List.append_assoc]
  exact List.isChain_append_cons_cons.mpr ⟨linked, need, .singleton name⟩

theorem closes (sound : walk.Sound needs root) (path : walk.path = outer ++ [owner])
    (need : DirectNeed needs owner name) (member : name ∈ walk.path) :
    Stops needs root (.cycle (walk.path.dropWhile (· != name) ++ [name])) := by
  obtain ⟨before, rest, split, outside⟩ := List.eq_append_cons_of_mem member
  have passed : ∀ other ∈ before, (other != name) = true := by
    intro other earlier
    exact bne_iff_ne.mpr fun same => outside (same ▸ earlier)
  have cut : walk.path.dropWhile (· != name) = name :: rest := by
    rw [split, List.dropWhile_append_of_pos passed, List.dropWhile_cons_of_neg (by simp)]
  have tail : name :: rest <:+ walk.path := ⟨before, split.symm⟩
  refine .inr ⟨name, rest, by rw [cut], ?_, ?_, ?_⟩
  · exact sound.path_distinct.sublist tail.sublist
  · intro other onPath
    exact sound.reached other ((sound.visited_iff other).mpr (.inl (tail.subset onPath)))
  · have linked := sound.linked_next path need
    rw [split, List.append_assoc] at linked
    exact linked.right_of_append

end Walk.Sound

namespace Walk.Advances

theorem bind {next : Walk → Except Error Walk}
    (advanced : walk.Advances needs root targets outcome)
    (onwards : ∀ later : Walk, later.Sound needs root → later.path = walk.path →
      walk.order ⊆ later.order → (∀ name ∈ targets, name ∈ later.order) →
      walk.Advances needs root more (next later)) :
    walk.Advances needs root more (outcome >>= next) := by
  cases outcome with
  | error error => exact advanced
  | ok later =>
      obtain ⟨sound, path, kept, finished⟩ := advanced
      exact onwards later sound path kept finished

theorem also (advanced : later.Advances needs root targets outcome)
    (path : later.path = walk.path) (kept : walk.order ⊆ later.order)
    (finished : name ∈ later.order) :
    walk.Advances needs root (name :: targets) outcome := by
  cases outcome with
  | error error => exact advanced
  | ok last =>
      obtain ⟨sound, samePath, grown, done⟩ := advanced
      exact ⟨sound, samePath.trans path, fun _ member => grown (kept member),
        List.forall_mem_cons.mpr ⟨grown finished, done⟩⟩

end Walk.Advances

theorem visitAll_advances {visit : String → Walk → Except Error Walk}
    (visits : ∀ (name : String) (walk : Walk),
      walk.Sound needs root → walk.path = outer ++ [owner] →
      name ∉ walk.visited → DirectNeed needs owner name →
      walk.Advances needs root [name] (visit name walk))
    (sound : walk.Sound needs root) (path : walk.path = outer ++ [owner])
    (needed : ∀ name ∈ names, DirectNeed needs owner name) :
    walk.Advances needs root names (visitAll visit names walk) := by
  induction names generalizing walk with
  | nil => exact ⟨sound, rfl, fun _ member => member, by simp⟩
  | cons name rest ih =>
      have need := needed name List.mem_cons_self
      have others : ∀ other ∈ rest, DirectNeed needs owner other :=
        fun other member => needed other (List.mem_cons_of_mem name member)
      simp only [visitAll]
      by_cases onPath : name ∈ walk.path
      · rw [if_pos onPath]
        exact sound.closes path need onPath
      · rw [if_neg onPath]
        by_cases visited : name ∈ walk.visited
        · -- A visited name that is not on the path is finished.
          have finished := ((sound.visited_iff name).mp visited).resolve_left onPath
          rw [if_pos visited]
          exact (ih sound path others).also rfl (fun _ member => member) finished
        · rw [if_neg visited]
          refine (visits name walk sound path visited need).bind ?_
          intro later laterSound samePath kept finished
          exact (ih laterSound (samePath.trans path) others).also samePath kept
            (finished name List.mem_cons_self)

theorem visitWithin_succ (answer : needs name = .ok names) :
    visitWithin needs (bound + 1) name walk =
      (visitAll (visitWithin needs bound) names.names (walk.enter name) >>=
        fun later => .ok (later.leave name)) := by
  simp only [visitWithin, answer]
  rfl

theorem Walk.Sound.path_length_le {answering : List String} (sound : walk.Sound needs root)
    (listed : ∀ name names, Reaches needs root name → needs name = .ok names →
      name ∈ answering) : walk.path.length ≤ answering.length := by
  refine (List.subperm_of_subset sound.path_distinct fun name member => ?_).length_le
  obtain ⟨names, answer⟩ := sound.answered name member
  exact listed name names (sound.reached name ((sound.visited_iff name).mpr (.inl member))) answer

theorem visitWithin_advances {answering : List String}
    (listed : ∀ name names, Reaches needs root name → needs name = .ok names →
      name ∈ answering) :
    ∀ (bound : Nat) (name : String) (walk : Walk), walk.Sound needs root →
      name ∉ walk.visited → Reaches needs root name →
      (walk.path ++ [name]).IsChain (DirectNeed needs) →
      answering.length < bound + walk.path.length →
      walk.Advances needs root [name] (visitWithin needs bound name walk) := by
  intro bound
  induction bound with
  | zero =>
      -- The names on the path are distinct and have answers, so there is room for one more.
      intro name walk sound _ _ _ room
      have short := sound.path_length_le listed
      omega
  | succ bound ih =>
      intro name walk sound fresh reached linked room
      cases answer : needs name with
      | error error =>
          simp only [visitWithin, answer]
          exact .inl ⟨name, reached, answer⟩
      | ok names =>
          have entered := sound.enter fresh answer reached linked
          have needed : ∀ other ∈ names.names, DirectNeed needs name other :=
            fun other member => ⟨names, answer, member⟩
          have visits : ∀ (other : String) (later : Walk), later.Sound needs root →
              later.path = walk.path ++ [name] → other ∉ later.visited →
              DirectNeed needs name other →
              later.Advances needs root [other] (visitWithin needs bound other later) := by
            intro other later laterSound path unvisited need
            have onwards := laterSound.linked_next path need
            refine ih other later laterSound unvisited (reached.tail need) onwards ?_
            simp only [path, List.length_append, List.length_singleton]
            omega
          have advanced := visitAll_advances visits entered rfl needed
          rw [visitWithin_succ answer]
          cases outcome : visitAll (visitWithin needs bound) names.names (walk.enter name) with
          | error error =>
              rw [outcome] at advanced
              exact advanced
          | ok later =>
              rw [outcome] at advanced
              obtain ⟨laterSound, path, kept, finished⟩ := advanced
              refine ⟨laterSound.leave path answer finished, ?_, ?_, ?_⟩
              · simp [Walk.leave, path, Walk.enter]
              · exact fun other member => List.mem_append_left _ (kept member)
              · simp [Walk.leave]

section

variable {other : String → Except Error NameSet}

theorem reaches_mono (weaker : ∀ a b, DirectNeed needs a b → DirectNeed other a b)
    (reaches : Reaches needs root name) : Reaches other root name :=
  Relation.ReflTransGen.mono weaker root name reaches

theorem reaches_congr (same : ∀ name, Reaches needs root name → other name = needs name) :
    Reaches other root name ↔ Reaches needs root name := by
  constructor
  · intro reaches
    induction reaches with
    | refl => exact .refl
    | tail _ need ih =>
        obtain ⟨names, answer, member⟩ := need
        exact ih.tail ⟨names, (same _ ih).symm.trans answer, member⟩
  · intro reaches
    induction reaches with
    | refl => exact .refl
    | tail earlier need ih =>
        obtain ⟨names, answer, member⟩ := need
        exact ih.tail ⟨names, (same _ earlier).trans answer, member⟩

theorem visitAll_agrees {visit again : String → Walk → Except Error Walk}
    (agree : ∀ (name : String) (walk : Walk),
      walk.Sound needs root → walk.path = outer ++ [owner] →
      name ∉ walk.visited → DirectNeed needs owner name →
      walk.Advances needs root [name] (visit name walk) ∧ again name walk = visit name walk)
    (sound : walk.Sound needs root) (path : walk.path = outer ++ [owner])
    (needed : ∀ name ∈ names, DirectNeed needs owner name) :
    visitAll again names walk = visitAll visit names walk := by
  induction names generalizing walk with
  | nil => rfl
  | cons name rest ih =>
      obtain ⟨need, others⟩ := List.forall_mem_cons.mp needed
      simp only [visitAll]
      split
      · rfl
      · split
        · exact ih sound path others
        · next unvisited =>
            obtain ⟨advanced, same⟩ := agree name walk sound path unvisited need
            rw [same]
            cases outcome : visit name walk with
            | error error => rfl
            | ok later =>
                rw [outcome] at advanced
                obtain ⟨laterSound, samePath, _, _⟩ := advanced
                exact ih laterSound (samePath.trans path) others

/-- A walk depends on nothing but the needs of the names that its root reaches. The bound
makes no difference either, as long as it leaves room for those that have answers. -/
theorem visitWithin_agrees {answering : List String}
    (listed : ∀ name names, Reaches needs root name → needs name = .ok names → name ∈ answering)
    (same : ∀ name, Reaches needs root name → other name = needs name) :
    ∀ (bound larger : Nat) (name : String) (walk : Walk), walk.Sound needs root →
      name ∉ walk.visited → Reaches needs root name →
      (walk.path ++ [name]).IsChain (DirectNeed needs) →
      answering.length < bound + walk.path.length →
      answering.length < larger + walk.path.length →
      visitWithin other larger name walk = visitWithin needs bound name walk := by
  intro bound
  induction bound with
  | zero =>
      intro _ name walk sound _ _ _ room _
      have short := sound.path_length_le listed
      omega
  | succ bound ih =>
      intro larger name walk sound fresh reached linked room more
      cases larger with
      | zero =>
          have short := sound.path_length_le listed
          omega
      | succ larger =>
          cases answer : needs name with
          | error error =>
              simp only [visitWithin, answer, same name reached]
              rfl
          | ok names =>
              have answer' := (same name reached).trans answer
              have entered := sound.enter fresh answer reached linked
              rw [visitWithin_succ answer, visitWithin_succ answer']
              refine congrArg (· >>= _) (visitAll_agrees ?_ entered rfl
                fun other member => ⟨names, answer, member⟩)
              intro next later laterSound path unvisited need
              have onwards := laterSound.linked_next path need
              have longer : later.path.length = walk.path.length + 1 := by simp [path]
              have further := reached.tail need
              exact ⟨visitWithin_advances listed bound next later laterSound unvisited further
                  onwards (by omega),
                ih larger next later laterSound unvisited further onwards (by omega) (by omega)⟩

end

theorem visitWithin_last (visited : visitWithin needs bound name walk = .ok later) :
    later.order.getLast? = some name := by
  cases bound with
  | zero => cases visited
  | succ bound =>
      cases answer : needs name with
      | error error => simp [visitWithin, answer, bind, Except.bind] at visited
      | ok names =>
          rw [visitWithin_succ answer] at visited
          cases outcome : visitAll (visitWithin needs bound) names.names (walk.enter name) with
          | error error => simp [outcome, bind, Except.bind] at visited
          | ok middle =>
              rw [outcome] at visited
              cases visited
              simp [Walk.leave]

/-- The names that a root reaches, each once and after everything it needs. -/
structure Topological (needs : String → Except Error NameSet) (root : String)
    (order : List String) : Prop where
  distinct : order.Nodup
  last : order.getLast? = some root
  mem_iff : ∀ name, name ∈ order ↔ Reaches needs root name
  ordered : NeedsFirst needs order

namespace NeedsFirst

theorem direct (ordered : NeedsFirst needs order) (need : DirectNeed needs name other)
    (split : order = before ++ name :: after) : other ∈ before := by
  obtain ⟨names, answer, earlier⟩ := ordered before name after split
  obtain ⟨same, answered, member⟩ := need
  cases answer.symm.trans answered
  exact earlier other member

theorem precedes (ordered : NeedsFirst needs order)
    (needed : Relation.TransGen (DirectNeed needs) name other)
    (split : order = before ++ name :: after) : other ∈ before := by
  induction needed with
  | single need => exact ordered.direct need split
  | @tail middle _ _ need ih =>
      obtain ⟨outer, inner, inside⟩ := List.append_of_mem ih
      have wider : order = outer ++ middle :: (inner ++ name :: after) := by
        rw [split, inside, List.append_assoc, List.cons_append]
      rw [inside]
      exact List.mem_append_left _ (ordered.direct need wider)

theorem closed (ordered : NeedsFirst needs order) (member : name ∈ order)
    (reaches : Reaches needs name other) : other ∈ order := by
  obtain ⟨before, after, split⟩ := List.append_of_mem member
  rcases Relation.reflTransGen_iff_eq_or_transGen.mp reaches with rfl | needed
  · exact member
  · rw [split]
    exact List.mem_append_left _ (ordered.precedes needed split)

end NeedsFirst

namespace Topological

theorem acyclic (topological : Topological needs root order)
    (reaches : Reaches needs root name) :
    ¬ Relation.TransGen (DirectNeed needs) name name := by
  intro needed
  obtain ⟨before, after, split⟩ := List.append_of_mem ((topological.mem_iff name).mpr reaches)
  have twice := topological.ordered.precedes needed split
  have distinct := topological.distinct
  rw [split] at distinct
  exact (List.nodup_append.mp distinct).2.2 name twice name List.mem_cons_self rfl

theorem answered (topological : Topological needs root order)
    (reaches : Reaches needs root name) : ∃ names, needs name = .ok names := by
  obtain ⟨before, after, split⟩ := List.append_of_mem ((topological.mem_iff name).mpr reaches)
  obtain ⟨names, answer, _⟩ := topological.ordered before name after split
  exact ⟨names, answer⟩

theorem congr {other : String → Except Error NameSet}
    (same : ∀ name, Reaches needs root name → other name = needs name)
    (topological : Topological needs root order) : Topological other root order where
  distinct := topological.distinct
  last := topological.last
  mem_iff name := (topological.mem_iff name).trans (reaches_congr same).symm
  ordered := by
    intro before name after split
    have member : name ∈ order := by simp [split]
    rw [same name ((topological.mem_iff name).mp member)]
    exact topological.ordered before name after split

end Topological

theorem ClosedWalk.mono {other : String → Except Error NameSet}
    (weaker : ∀ a b, DirectNeed needs a b → DirectNeed other a b)
    (closed : ClosedWalk needs root first rest) : ClosedWalk other root first rest where
  distinct := closed.distinct
  reached name member := reaches_mono weaker (closed.reached name member)
  linked := closed.linked.imp weaker

theorem ClosedWalk.transGen (closed : ClosedWalk needs root first rest) :
    Relation.TransGen (DirectNeed needs) first first := by
  have linked := closed.linked
  cases rest with
  | nil => exact .single (List.isChain_pair.mp linked)
  | cons next rest =>
      obtain ⟨need, onwards⟩ := List.isChain_cons_cons.mp linked
      refine .head' need ?_
      exact List.relationReflTransGen_of_exists_isChain_cons (rest ++ [first]) onwards (by simp)

theorem visitWithin_root_agrees {other : String → Except Error NameSet} {answering : List String}
    (listed : ∀ name names, Reaches needs root name → needs name = .ok names → name ∈ answering)
    (same : ∀ name, Reaches needs root name → other name = needs name)
    (room : answering.length < bound) (more : answering.length < larger) :
    visitWithin other larger root .empty = visitWithin needs bound root .empty :=
  visitWithin_agrees listed same bound larger root .empty Walk.empty_sound
    (by simp [Walk.empty]) .refl (by simp [Walk.empty]) (by simpa [Walk.empty] using room)
    (by simpa [Walk.empty] using more)

/-- A walk from the root alone gives the order of everything it needs, or a reason why
there is none. -/
theorem visitWithin_root (root : String) {answering : List String}
    (listed : ∀ name names, needs name = .ok names → name ∈ answering)
    (room : answering.length < bound) :
    match visitWithin needs bound root .empty with
    | .ok walk => Topological needs root walk.order
    | .error error => Stops needs root error := by
  have advanced := visitWithin_advances (fun name names _ => listed name names) bound root .empty
    Walk.empty_sound
    (by simp [Walk.empty]) .refl (by simp [Walk.empty]) (by simpa [Walk.empty] using room)
  cases outcome : visitWithin needs bound root .empty with
  | error error => simpa only [outcome, Walk.Advances] using advanced
  | ok walk =>
      rw [outcome] at advanced
      obtain ⟨sound, _, _, finished⟩ := advanced
      refine ⟨sound.distinct.of_append_right, visitWithin_last outcome, ?_, sound.ordered⟩
      intro name
      constructor
      · intro member
        exact sound.reached name ((sound.visited_iff name).mpr (.inr member))
      · exact sound.ordered.closed (finished root List.mem_cons_self)

end DistanceField
