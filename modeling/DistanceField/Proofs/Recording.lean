import DistanceField.Recipe

/-! What the steps of a builder do to its recording. -/

namespace DistanceField

/-- The functions noted are those that the statements call. -/
def Recording.Sound (recording : Recording) : Prop :=
  ∀ name, name ∈ recording.used ↔
    ∃ statement ∈ recording.statements, name ∈ statement.value.usage

namespace Recording

theorem empty_sound : Recording.empty.Sound := by
  intro name
  constructor
  · intro member
    cases member
  · rintro ⟨statement, member, _⟩
    cases member

theorem Sound.push (sound : Recording.Sound recording) (target : Target) (value : Call) :
    (recording.push target value).Sound := by
  intro name
  simp only [Recording.push, NameSet.mem_union, sound name, List.mem_append, List.mem_singleton]
  constructor
  · rintro (⟨statement, member, called⟩ | called)
    · exact ⟨statement, .inl member, called⟩
    · exact ⟨⟨target, value⟩, .inr rfl, called⟩
  · rintro ⟨statement, member | rfl, called⟩
    · exact .inl ⟨statement, member, called⟩
    · exact .inr called

end Recording

/-- The recording after a step whose request, if it makes one, is met. -/
def BuildStep.effect (recording : Recording) (step : BuildStep) : Except Error Recording :=
  Recording.changed (step.record recording)

theorem Recording.changed_eq_ok_iff {result : Except Error Unit × Recording} :
    Recording.changed result = .ok later ↔ result = (.ok (), later) := by
  obtain ⟨outcome, recording⟩ := result
  cases outcome <;> simp [Recording.changed, Except.map]

theorem BuildStep.effect_cases {step : BuildStep} (done : step.effect recording = .ok later) :
    later = recording ∨ ∃ target value, later = recording.push target value := by
  have performed := Recording.changed_eq_ok_iff.mp done
  cases step with
  | accumulate combinator args =>
      simp only [BuildStep.record, Recording.accumulate] at performed
      split at performed
      · exact .inr ⟨_, _, (Prod.mk.inj performed).2.symm⟩
      · cases performed
  | transform operator args =>
      simp only [BuildStep.record, Recording.transform] at performed
      split at performed
      · exact .inr ⟨_, _, (Prod.mk.inj performed).2.symm⟩
      · cases performed
  | transformCall call =>
      simp only [BuildStep.record, Recording.transformCall] at performed
      split at performed
      · exact .inr ⟨_, _, (Prod.mk.inj performed).2.symm⟩
      · cases performed
  | requestBody name | tryBody name => exact .inl (Prod.mk.inj performed).2.symm
  | fail error => cases performed

theorem BuildStep.effect_sound {step : BuildStep} (sound : Recording.Sound recording)
    (done : step.effect recording = .ok later) : later.Sound := by
  rcases BuildStep.effect_cases done with rfl | ⟨target, value, rfl⟩
  · exact sound
  · exact sound.push target value

/-- What a builder records when all its requests are met. -/
def replay (recording : Recording) (steps : List BuildStep) : Except Error Recording :=
  steps.foldlM BuildStep.effect recording

theorem replay_cons (step : BuildStep) (rest : List BuildStep) :
    replay recording (step :: rest) =
      (step.effect recording >>= fun later => replay later rest) :=
  List.foldlM_cons

theorem replay_sound (sound : Recording.Sound recording)
    (done : replay recording steps = .ok later) : later.Sound := by
  induction steps generalizing recording with
  | nil => exact (Except.ok.inj done) ▸ sound
  | cons step rest ih =>
      rw [replay_cons] at done
      cases first : step.effect recording with
      | error error =>
          rw [first] at done
          cases done
      | ok middle =>
          rw [first] at done
          exact ih (BuildStep.effect_sound sound first) done

end DistanceField
