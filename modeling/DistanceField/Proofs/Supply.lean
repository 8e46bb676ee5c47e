import DistanceField.Proofs.Resolution

/-! What a call uses when a transform or a location is supplied to it. A transform finds its
place wherever the operators below the combinators do not lead to a point yet, and nothing that
was called before is lost on the way; a location replaces an earlier one. -/

namespace DistanceField

namespace NameSet

instance : HasSubset NameSet := ⟨fun a b => ∀ name ∈ a, name ∈ b⟩

end NameSet

mutual

/-- There is a place for a transform: the operators of some distance function, or of the
expression itself, do not lead to a point yet. -/
def Expr.isOpen : Expr → Bool
  | .number _ | .vector _ | .var _ => false
  | .call call => Call.isOpen call

def Call.isOpen : Call → Bool
  | .plain _ _ => false
  | .shape _ _ _ _ transform | .operator _ _ transform => Expr.isOpenEnd transform
  | .combinator _ args => Expr.isOpenAny args

/-- A transform that is missing altogether is open, too. -/
def Expr.isOpenEnd : Option Expr → Bool
  | none => true
  | some e => Expr.isOpen e

def Expr.isOpenAny : List Expr → Bool
  | [] => false
  | first :: rest => Expr.isOpen first || Expr.isOpenAny rest

end

mutual

theorem Expr.mem_heads_transformBy (e transform : Expr) (head : String) :
    head ∈ (e.transformBy transform).heads ↔
      head ∈ e.heads ∨ e.isOpen = true ∧ head ∈ transform.heads := by
  cases e with
  | number value => simp [Expr.transformBy, Expr.isOpen]
  | vector components => simp [Expr.transformBy, Expr.isOpen]
  | var text => simp [Expr.transformBy, Expr.isOpen]
  | call call =>
      simp only [Expr.transformBy, Expr.heads, Expr.isOpen]
      exact call.mem_heads_transformBy transform head

theorem Call.mem_heads_transformBy (call : Call) (transform : Expr) (head : String) :
    head ∈ (call.transformBy transform).heads ↔
      head ∈ call.heads ∨ call.isOpen = true ∧ head ∈ transform.heads := by
  cases call with
  | plain name args => simp [Call.transformBy, Call.isOpen]
  | shape name kind args offset old =>
      simp only [Call.transformBy, Call.heads, Call.isOpen, Expr.headsOption, List.mem_cons,
        List.mem_append, Expr.mem_heads_compose old transform head, or_assoc]
  | combinator name args =>
      simp only [Call.transformBy, Call.heads, Call.isOpen, List.mem_cons,
        Expr.mem_headsAll_transformAllBy args transform head, or_assoc]
  | operator name args old =>
      simp only [Call.transformBy, Call.heads, Call.isOpen, Expr.headsOption, List.mem_cons,
        List.mem_append, Expr.mem_heads_compose old transform head, or_assoc]

theorem Expr.mem_heads_compose (old : Option Expr) (transform : Expr) (head : String) :
    head ∈ (Expr.compose old transform).heads ↔
      head ∈ Expr.headsOption old ∨ Expr.isOpenEnd old = true ∧ head ∈ transform.heads := by
  cases old with
  | none => simp [Expr.compose, Expr.headsOption, Expr.isOpenEnd]
  | some old =>
      simp only [Expr.compose, Expr.headsOption, Expr.isOpenEnd]
      exact old.mem_heads_transformBy transform head

theorem Expr.mem_headsAll_transformAllBy (args : List Expr) (transform : Expr) (head : String) :
    head ∈ Expr.headsAll (Expr.transformAllBy args transform) ↔
      head ∈ Expr.headsAll args ∨ Expr.isOpenAny args = true ∧ head ∈ transform.heads := by
  cases args with
  | nil => simp [Expr.transformAllBy, Expr.headsAll, Expr.isOpenAny]
  | cons first rest =>
      simp only [Expr.transformAllBy, Expr.headsAll, Expr.isOpenAny, List.mem_append,
        Bool.or_eq_true, first.mem_heads_transformBy transform head,
        Expr.mem_headsAll_transformAllBy rest transform head, or_and_right]
      exact or_or_or_comm

end

/-- A transform is used if there is a place for it, and else dropped. -/
theorem Call.usage_transformBy (call : Call) (transform : Expr) :
    (call.transformBy transform).usage =
      if call.isOpen then call.usage.union transform.usage else call.usage := by
  apply NameSet.eq_of_mem_iff
  intro name
  rw [Call.usage, NameSet.mem_ofList, call.mem_heads_transformBy transform name]
  split
  · next places =>
      simp [NameSet.mem_union, Call.usage, Expr.usage, NameSet.mem_ofList, places]
  · next complete =>
      simp [Call.usage, NameSet.mem_ofList, complete]

mutual

theorem Expr.heads_placeAt (e location : Expr) (head : String)
    (member : head ∈ (e.placeAt location).heads) :
    head ∈ e.heads ∨ head = translateName ∨ head ∈ location.heads := by
  cases e with
  | number value => exact .inl member
  | vector components => exact .inl member
  | var text => exact .inl member
  | call call => exact call.heads_placeAt location head member

theorem Call.heads_placeAt (call : Call) (location : Expr) (head : String)
    (member : head ∈ (call.placeAt location).heads) :
    head ∈ call.heads ∨ head = translateName ∨ head ∈ location.heads := by
  cases call with
  | plain name args => exact .inl member
  | shape name kind args old transform =>
      -- The functions of the old location are dropped with it.
      simp only [Call.placeAt, Call.heads, Expr.headsOffset, List.mem_cons, List.mem_append]
        at member ⊢
      rcases member with own | (args | moved) | led
      · exact .inl (.inl own)
      · exact .inl (.inr (.inl (.inl args)))
      · exact .inr moved
      · exact .inl (.inr (.inr led))
  | combinator name args =>
      simp only [Call.placeAt, Call.heads, List.mem_cons] at member ⊢
      rcases member with own | parts
      · exact .inl (.inl own)
      · exact (Expr.headsAll_placeAllAt args location head parts).imp_left .inr
  | operator name args transform => exact .inl member

theorem Expr.headsAll_placeAllAt (args : List Expr) (location : Expr) (head : String)
    (member : head ∈ Expr.headsAll (Expr.placeAllAt args location)) :
    head ∈ Expr.headsAll args ∨ head = translateName ∨ head ∈ location.heads := by
  cases args with
  | nil => exact .inl member
  | cons first rest =>
      simp only [Expr.placeAllAt, Expr.headsAll, List.mem_append] at member ⊢
      rcases member with here | there
      · exact (first.heads_placeAt location head here).imp_left .inl
      · exact (Expr.headsAll_placeAllAt rest location head there).imp_left .inr

end

mutual

theorem Expr.heads_of_calls (e : Expr) (none : e.calls = []) : e.heads = [] := by
  cases e with
  | number value => rfl
  | vector components => exact Expr.headsAll_of_callsAll components none
  | var text => rfl
  | call call => exact absurd call.mem_calls_self (List.eq_nil_iff_forall_not_mem.mp none call)

theorem Expr.headsAll_of_callsAll (es : List Expr) (none : Expr.callsAll es = []) :
    Expr.headsAll es = [] := by
  cases es with
  | nil => rfl
  | cons first rest =>
      obtain ⟨one, others⟩ := List.append_eq_nil_iff.mp none
      rw [Expr.headsAll, first.heads_of_calls one, Expr.headsAll_of_callsAll rest others]
      rfl

end

/-- Nothing that a call uses is lost when a transform is supplied, and nothing is added but what
the transform uses, so that one without calls changes nothing. A location adds nothing but what
it uses itself and the operator that moves to it. -/
theorem Call.usage_supplied (call : Call) (transform location : Expr) :
    call.usage ⊆ (call.transformBy transform).usage ∧
    (call.transformBy transform).usage ⊆ call.usage.union transform.usage ∧
    (transform.calls = [] → (call.transformBy transform).usage = call.usage) ∧
    (call.placeAt location).usage ⊆ (call.usage.insert translateName).union location.usage := by
  refine ⟨fun name used => ?_, fun name used => ?_, fun none => ?_, fun name used => ?_⟩
  · rw [call.usage_transformBy]
    split
    · exact NameSet.mem_union.mpr (.inl used)
    · exact used
  · rw [call.usage_transformBy] at used
    split at used
    · exact used
    · exact NameSet.mem_union.mpr (.inl used)
  · apply NameSet.eq_of_mem_iff
    intro name
    rw [Call.usage, NameSet.mem_ofList, call.mem_heads_transformBy transform name,
      transform.heads_of_calls none, Call.usage, NameSet.mem_ofList]
    simp
  · have placed := call.heads_placeAt location name (NameSet.mem_ofList.mp used)
    rw [NameSet.mem_union, NameSet.mem_insert, Call.usage, NameSet.mem_ofList, Expr.usage,
      NameSet.mem_ofList]
    exact or_assoc.mpr (or_left_comm.mp placed)

/-- A ring that has its point, joined with a placed ball that is turned but has none yet. -/
def ringAndBall : Call :=
  .combinator "Union"
    [.call (.shape "Ring" .primitive [] none (some (.var "p"))),
      .call (.shape "Ball" .primitive [.call (.plain "Noise" [])]
        (some (.call (.plain "Height" []))) (some (.call (.operator "Turn" [] none))))]

theorem ringAndBall_supplied :
    (ringAndBall.transformBy (.vector [.var "x", .var "y"])).usage.names =
      ["Ball", "Height", "Noise", "Ring", "Translate", "Turn", "Union"] ∧
    (ringAndBall.transformBy (.call (.operator "Mirror" [] none))).usage.names =
      ["Ball", "Height", "Mirror", "Noise", "Ring", "Translate", "Turn", "Union"] ∧
    (ringAndBall.placeAt (.var "l")).usage.names =
      ["Ball", "Noise", "Ring", "Translate", "Turn", "Union"] := by
  have plain : (Expr.vector [.var "x", .var "y"]).calls = [] := rfl
  have same := (ringAndBall.usage_supplied (.vector [.var "x", .var "y"]) (.var "l")).2.2.1 plain
  exact ⟨(congrArg NameSet.names same).trans (by decide +kernel), by decide +kernel,
    by decide +kernel⟩

end DistanceField
